import Neva.Game.Store

/-!
# The Postgres store

`app/game/pg_store.py`.  A method is one transaction; its statements are executed together, and an
exception rolls all of them back.  `ORDER BY … LIMIT 1` takes the first of the rows that come out
best, in table order.
-/

set_option autoImplicit false

namespace Neva.Postgres

variable (cfg : GameFeatureConfig)

/-! ## Statistics -/

/-- `SUM(CASE WHEN t.outcome = 'validated' THEN points ELSE 0 END)` over the player's turns. -/
def score (db : Db) (p : Uuid) : ℕ :=
  (db.turns.countP fun t ↦ t.outcome == .validated && t.involves p) * cfg.pointsPerValidation

/-- `RANK() OVER (ORDER BY score DESC, nickname ASC)` -/
def rank (db : Db) (p : PlayerRecord) : ℕ :=
  1 + db.players.countP fun r ↦
    decide (score cfg db p.id < score cfg db r.id ∨
      (score cfg db r.id = score cfg db p.id ∧ r.nickname < p.nickname))

def playerStats (db : Db) (p : Uuid) : PlayerStats :=
  match db.findPlayer p with
  | none => {}
  | some r =>
    { score := score cfg db p, roundsPlayed := db.roundsPlayed p, rank := some (rank cfg db r) }

/-! ## Matchmaking -/

/-- A row of the `candidates` query: a queue row joined to its player. -/
structure Candidate where
  row : QueueRow
  player : PlayerRecord
  previouslyPaired : Bool

/-- Some earlier pair has both players. -/
def previouslyPaired (db : Db) (a b : Uuid) : Bool :=
  db.pairs.any fun r ↦ (r.playerA == a && r.playerB == b) || (r.playerB == a && r.playerA == b)

/-- The rows the `candidates` query returns to the player `me`. -/
def candidates (db : Db) (now : Time) (me : PlayerRecord) (speakable : List Text) :
    List Candidate :=
  db.queue.filterMap fun q ↦
    match db.findPlayer q.playerId with
    | none => none
    | some p =>
      if q.playerId ≠ me.id ∧ now - cfg.matchmakingQueueTtl ≤ q.enqueuedAt ∧
          p.nativeLang ≠ me.nativeLang ∧ (p.commonLangs ++ [p.nativeLang]).any speakable.contains
      then some ⟨q, p, previouslyPaired db me.id p.id⟩
      else none

/-- `ORDER BY previously_paired ASC, enqueued_at ASC LIMIT 1` -/
def claimPartner (db : Db) (now : Time) (me : PlayerRecord) (speakable : List Text) :
    Option Candidate :=
  (candidates cfg db now me speakable).argmin fun c ↦
    toLex (c.previouslyPaired, c.row.enqueuedAt)

/-- `try_match`.  An unknown player is stopped by the foreign key of `matchmaking_queue`. -/
def tryMatch (db : Db) (d : Draw) (me : Uuid) : Except Failure (Option PairRecord) × Db :=
  match db.activePair me with
  | some existing => (.ok (some existing), db)
  | none =>
    match db.findPlayer me with
    | none => (.error (.integrityError "matchmaking_queue_player_id_fkey"), db)
    | some player =>
      let db := db.refreshQueue cfg d.now me
      let speakable := speakableLanguages player.nativeLang
        (normalizeCommonLangs player.commonLangs)
      match claimPartner cfg db d.now player speakable with
      | none => (.ok none, db)
      | some partner =>
        let shared := sharedLanguages speakable
          (speakableLanguages partner.player.nativeLang
            (normalizeCommonLangs partner.player.commonLangs))
        match pickCommonLang shared cfg.preferredCommonLang with
        | none => (.ok none, db)
        | some lang =>
          let (pair, db) := db.insertPair d me partner.row lang
          (.ok (some pair), db)

/-! ## Turns -/

def enqueuePlayer (db : Db) (now : Time) (p : Uuid) : Except Failure Unit × Db :=
  match db.findPlayer p with
  | none => (.error (.integrityError "matchmaking_queue_player_id_fkey"), db)
  | some _ => (.ok (), db.upsertQueue p now)

/-- `create_turn`, with the foreign keys and the `CHECK` of `turns`. -/
def createTurn (db : Db) (d : Draw) (pairId speakerId guesserId cardId : Uuid) :
    Except Failure TurnRecord × Db :=
  if (db.findPair pairId).isNone then (.error (.integrityError "turns_pair_id_fkey"), db)
  else if (db.findPlayer speakerId).isNone then
    (.error (.integrityError "turns_speaker_id_fkey"), db)
  else if (db.findPlayer guesserId).isNone then
    (.error (.integrityError "turns_guesser_id_fkey"), db)
  else if !db.cards.any fun c ↦ c.id == cardId then
    (.error (.integrityError "turns_card_id_fkey"), db)
  else if speakerId = guesserId then (.error (.integrityError "turns_check"), db)
  else
    let turn := TurnRecord.initial d.uuid pairId speakerId guesserId cardId d.now
    (.ok turn, { db with turns := db.turns ++ [turn] })

/-- A number as a `NUMERIC(5,2)` column keeps it. -/
def numeric52 (x : ℚ) : ℚ := (⌊x * 100 + 1 / 2⌋ : ℚ) / 100

/-- `UPDATE turns SET audio_path, duration_s, status WHERE id = $1 AND status = 'awaiting_audio'` -/
def acceptAudio (db : Db) (turnId : Uuid) (path : AudioPath) (durationS : ℚ) :
    Except Failure TurnRecord × Db :=
  match db.findTurn turnId with
  | none => (.error (.valueError "turn not awaiting audio"), db)
  | some t =>
    if t.status ≠ .awaitingAudio then (.error (.valueError "turn not awaiting audio"), db)
    else if 1000 ≤ numeric52 durationS then (.error (.integrityError "numeric field overflow"), db)
    else
      let f := fun t : TurnRecord ↦ { t with
        audioPath := some path
        durationS := some (numeric52 durationS)
        status := .awaitingLabelConfirm }
      (.ok (f t), db.updateTurn turnId f)

/-- `UPDATE turns SET status WHERE id = $1 AND status = 'awaiting_label_confirm'` -/
def confirmLabel (db : Db) (turnId : Uuid) : Except Failure TurnRecord × Db :=
  match db.findTurn turnId with
  | none => (.error (.valueError "turn not awaiting label confirm"), db)
  | some t =>
    if t.status ≠ .awaitingLabelConfirm then
      (.error (.valueError "turn not awaiting label confirm"), db)
    else
      let f := fun t : TurnRecord ↦ { t with status := .awaitingGuess }
      (.ok (f t), db.updateTurn turnId f)

/-- `apply_guess`: `SELECT … FOR UPDATE`, then one `UPDATE`.  The `CHECK` on `attempts` allows at
most two. -/
def applyGuess (db : Db) (turnId : Uuid) (correct : Bool) : Except Failure TurnRecord × Db :=
  match db.findTurn turnId with
  | none => (.error (.valueError "turn not awaiting guess"), db)
  | some t =>
    if t.status ≠ .awaitingGuess then (.error (.valueError "turn not awaiting guess"), db)
    else
      let attempts := t.attempts + 1
      let (status, outcome) :=
        if correct then (TurnStatus.scored, TurnOutcome.validated)
        else if cfg.maxGuessAttempts ≤ attempts then (.scored, .unclear)
        else (.awaitingGuess, .pending)
      if 2 < attempts then (.error (.integrityError "turns_attempts_check"), db)
      else
        let f := fun t : TurnRecord ↦
          { t with attempts := attempts, status := status, outcome := outcome }
        (.ok (f t), db.updateTurn turnId f)

/-- `UPDATE pairs SET status = 'completed' WHERE … AND status = 'active' AND EXISTS (…)`: whether
a row was updated. -/
def completePairIfCapped (db : Db) (pairId : Uuid) (roundsCap : ℤ) :
    Except Failure Bool × Db :=
  match db.findPair pairId with
  | none => (.ok false, db)
  | some pair =>
    if pair.status = .active ∧ db.players.any fun pl ↦
        pair.hasMember pl.id && decide (roundsCap ≤ db.roundsPlayed pl.id)
    then (.ok true, db.setPairStatus pairId .completed)
    else (.ok false, db)

/-- What each method of `PostgresGameStore` answers and leaves behind. -/
def exec {β : Type} (d : Draw) : GameStoreOp β → Db → Except Failure β × Db
  | .playerStats p, db => (.ok (playerStats cfg db p), db)
  | .getActivePair p, db => (.ok (db.activePair p), db)
  | .enqueuePlayer p, db => enqueuePlayer db d.now p
  | .tryMatch p, db => tryMatch cfg db d p
  | .createTurn pairId speakerId guesserId cardId, db =>
    createTurn db d pairId speakerId guesserId cardId
  | .pickCardForPair pairId, db => (.ok (db.pickCard pairId d.rand), db)
  | .getTurn turnId, db => (.ok (db.findTurn turnId), db)
  | .getLatestTurn pairId, db => (.ok (db.latestTurn pairId), db)
  | .acceptAudio turnId path durationS, db => acceptAudio db turnId path durationS
  | .enqueueJob kind turnId, db =>
    (.ok (!db.hasJob kind turnId), db.insertJob kind turnId d.uuid d.now)
  | .confirmLabel turnId, db => confirmLabel db turnId
  | .applyGuess turnId correct, db => applyGuess cfg db turnId correct
  | .completePairIfCapped pairId roundsCap, db => completePairIfCapped db pairId roundsCap

end Neva.Postgres
