import Neva.Game.Store

/-!
# The in-memory store

`app/game/memory_store.py`, the store the tests run against.  It keeps the same rows in
dictionaries and checks no constraint of the schema; a missing key raises.  Every queued player is
a registered one — `request_pair` reads their statistics first — so the lookups of the matching
loop find their player.
-/

set_option autoImplicit false

namespace Neva.Memory

variable (cfg : GameFeatureConfig)

/-! ## Statistics -/

/-- The loop over the validated turns that adds the points to both participants. -/
def score (db : Db) (p : Uuid) : ℕ :=
  db.turns.foldl (fun acc t ↦
    if t.outcome = .validated then
      acc + (if t.speakerId = p then cfg.pointsPerValidation else 0) +
        (if t.guesserId = p then cfg.pointsPerValidation else 0)
    else acc) 0

/-- `rows.sort(key=lambda r: (-r.score, r.nickname))` -/
def leaderboard (db : Db) (top : ℕ) : List LeaderboardRow :=
  ((db.players.map fun p ↦ (⟨p.nickname, score cfg db p.id⟩ : LeaderboardRow)).insertionSort
    fun a b ↦ b.score < a.score ∨ (a.score = b.score ∧ a.nickname ≤ b.nickname)).take top

/-- `player_stats`.  The rank is the first place on the board with the player's own nickname and
score. -/
def playerStats (db : Db) (p : Uuid) : Except Failure PlayerStats :=
  match db.findPlayer p with
  | none => .error .keyError
  | some me =>
    let mine := (db.turns.countP fun t ↦ t.involves p && t.outcome == .validated) *
      cfg.pointsPerValidation
    let rank := ((leaderboard cfg db 10000).findIdx? fun row ↦
      row.nickname == me.nickname && row.score == mine).map (· + 1)
    .ok { score := mine, roundsPlayed := db.roundsPlayed p, rank := rank }

/-! ## Matchmaking -/

/-- `_previously_paired` -/
def previouslyPaired (db : Db) (a b : Uuid) : Bool :=
  db.pairs.any fun r ↦ r.hasMember a && r.hasMember b

/-- `_is_actively_queued` -/
def isActivelyQueued (db : Db) (now : Time) (p : Uuid) : Bool :=
  match db.findQueued p with
  | none => false
  | some q => decide (now - cfg.matchmakingQueueTtl ≤ q.enqueuedAt)

/-- The languages two players can both use. -/
def sharedWith (me other : PlayerRecord) : List Text :=
  sharedLanguages (speakableLanguages me.nativeLang me.commonLangs)
    (speakableLanguages other.nativeLang other.commonLangs)

/-- Different mother tongues, and a language in common. -/
def compatible (me other : PlayerRecord) : Bool :=
  other.nativeLang != me.nativeLang && sharedWith me other != []

/-- `_has_alternate`: another compatible partner is waiting. -/
def hasAlternate (db : Db) (now : Time) (me : PlayerRecord) (exclude : Uuid) : Bool :=
  db.queue.any fun q ↦ q.playerId != me.id && q.playerId != exclude &&
    isActivelyQueued cfg db now q.playerId &&
    match db.findPlayer q.playerId with
    | none => false
    | some other => compatible me other

/-- The candidates in the order the loop tries them. -/
def candidates (db : Db) (now : Time) (me : Uuid) : List QueueRow :=
  (db.queue.filter fun q ↦ q.playerId != me && isActivelyQueued cfg db now q.playerId).insertionSort
    fun a b ↦ a.enqueuedAt ≤ b.enqueuedAt

/-- The first candidate the loop does not skip. -/
def claimPartner (db : Db) (now : Time) (me : PlayerRecord) : Option (QueueRow × PlayerRecord) :=
  (candidates cfg db now me.id).findSome? fun q ↦
    match db.findPlayer q.playerId with
    | none => none
    | some other =>
      if compatible me other &&
          !(previouslyPaired db me.id other.id && hasAlternate cfg db now me other.id)
      then some (q, other) else none

/-- `try_match` -/
def tryMatch (db : Db) (d : Draw) (me : Uuid) : Except Failure (Option PairRecord) × Db :=
  match db.activePair me with
  | some existing => (.ok (some existing), db)
  | none =>
    match db.findPlayer me with
    | none => (.error .keyError, db)
    | some player =>
      let db := db.refreshQueue cfg d.now me
      match claimPartner cfg db d.now player with
      | none => (.ok none, db)
      | some (row, other) =>
        match pickCommonLang (sharedWith player other) cfg.preferredCommonLang with
        | none => (.error (.valueError "shared languages must be non-empty"), db)
        | some lang =>
          let (pair, db) := db.insertPair d me row lang
          (.ok (some pair), db)

/-! ## Turns -/

def createTurn (db : Db) (d : Draw) (pairId speakerId guesserId cardId : Uuid) :
    Except Failure TurnRecord × Db :=
  let turn := TurnRecord.initial d.uuid pairId speakerId guesserId cardId d.now
  (.ok turn, { db with turns := db.turns ++ [turn] })

def acceptAudio (db : Db) (turnId : Uuid) (path : AudioPath) (durationS : ℚ) :
    Except Failure TurnRecord × Db :=
  match db.findTurn turnId with
  | none => (.error .keyError, db)
  | some t =>
    if t.status ≠ .awaitingAudio then (.error (.valueError "turn not awaiting audio"), db)
    else
      let f := fun t : TurnRecord ↦ { t with
        audioPath := some path
        durationS := some durationS
        status := .awaitingLabelConfirm }
      (.ok (f t), db.updateTurn turnId f)

def confirmLabel (db : Db) (turnId : Uuid) : Except Failure TurnRecord × Db :=
  match db.findTurn turnId with
  | none => (.error .keyError, db)
  | some t =>
    if t.status ≠ .awaitingLabelConfirm then
      (.error (.valueError "turn not awaiting label confirm"), db)
    else
      let f := fun t : TurnRecord ↦ { t with status := .awaitingGuess }
      (.ok (f t), db.updateTurn turnId f)

/-- The turn as `apply_guess` rewrites it.  Unlike the Postgres store, a wrong guess that is not
the last one leaves `outcome` as it was. -/
def guessed (correct : Bool) (t : TurnRecord) : TurnRecord :=
  let t := { t with attempts := t.attempts + 1 }
  if correct then { t with status := .scored, outcome := .validated }
  else if cfg.maxGuessAttempts ≤ t.attempts then { t with status := .scored, outcome := .unclear }
  else t

def applyGuess (db : Db) (turnId : Uuid) (correct : Bool) : Except Failure TurnRecord × Db :=
  match db.findTurn turnId with
  | none => (.error .keyError, db)
  | some t =>
    if t.status ≠ .awaitingGuess then (.error (.valueError "turn not awaiting guess"), db)
    else (.ok (guessed cfg correct t), db.updateTurn turnId (guessed cfg correct))

/-- `complete_pair_if_capped`: `player_a` first, then `player_b`; the status the pair has already
is not looked at. -/
def completePairIfCapped (db : Db) (pairId : Uuid) (roundsCap : ℤ) :
    Except Failure Bool × Db :=
  match db.findPair pairId with
  | none => (.error .keyError, db)
  | some pair =>
    match playerStats cfg db pair.playerA with
    | .error e => (.error e, db)
    | .ok a =>
      if roundsCap ≤ a.roundsPlayed then (.ok true, db.setPairStatus pairId .completed)
      else match playerStats cfg db pair.playerB with
        | .error e => (.error e, db)
        | .ok b =>
          if roundsCap ≤ b.roundsPlayed then (.ok true, db.setPairStatus pairId .completed)
          else (.ok false, db)

/-- What each method of `MemoryGameStore` answers and leaves behind. -/
def exec {β : Type} (d : Draw) : GameStoreOp β → Db → Except Failure β × Db
  | .playerStats p, db => (playerStats cfg db p, db)
  | .getActivePair p, db => (.ok (db.activePair p), db)
  | .enqueuePlayer p, db => (.ok (), db.upsertQueue p d.now)
  | .tryMatch p, db => tryMatch cfg db d p
  | .createTurn pairId speakerId guesserId cardId, db =>
    createTurn db d pairId speakerId guesserId cardId
  | .pickCardForPair pairId, db => (.ok (db.pickCard pairId d.rand), db)
  | .getTurn turnId, db => (.ok (db.findTurn turnId), db)
  | .getLatestTurn pairId, db => (.ok (db.latestTurn pairId), db)
  | .acceptAudio turnId path durationS, db => acceptAudio db turnId path durationS
  | .enqueueJob kind turnId, db =>
    (.ok (!db.hasJob kind turnId), db.insertJob kind turnId d.uuid d.now)
  | .confirmLabel turnId, db => confirmLabel db turnId
  | .applyGuess turnId correct, db => applyGuess cfg db turnId correct
  | .completePairIfCapped pairId roundsCap, db => completePairIfCapped cfg db pairId roundsCap

end Neva.Memory
