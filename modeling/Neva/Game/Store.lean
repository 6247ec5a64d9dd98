import Neva.Game.Languages
import Neva.Game.Config

/-!
# The store interface

`GameStoreOp` is the part of the `GameStore` protocol of `app/game/store.py` that the pairing and
turn methods of `GameService` call.  `Neva.Game.Postgres` and `Neva.Game.Memory` are its two
implementations.
-/

set_option autoImplicit false

namespace Neva

/-- The exceptions a service method can end with. -/
inductive Failure
  /-- `GameError(status_code, detail)` -/
  | gameError (statusCode : ℕ) (detail : String)
  | valueError (message : String)
  | keyError
  | lookupError
  /-- A constraint of `schema.sql` refused the statement. -/
  | integrityError (constraint : String)
  /-- The connection, a subprocess or the file system failed. -/
  | unavailable
  deriving DecidableEq, Repr

/-- `PlayerStats` -/
structure PlayerStats where
  score : ℕ := 0
  roundsPlayed : ℕ := 0
  rank : Option ℕ := none
  deriving DecidableEq, Repr

/-- `LeaderboardRow` -/
structure LeaderboardRow where
  nickname : Text
  score : ℕ
  deriving DecidableEq, Repr

/-- What a call reads from outside the database. -/
structure Draw where
  /-- The clock. -/
  now : Time
  /-- `gen_random_uuid()`, for the row the call inserts. -/
  uuid : Uuid
  /-- A second one, for the first turn of a new pair. -/
  uuid' : Uuid
  /-- `random()` -/
  rand : ℕ := 0
  ffprobeTimesOut : Bool := false
  ffmpegTimesOut : Bool := false
  deriving DecidableEq, Repr

/-- `GameStore`: a method with its arguments, indexed by what it returns. -/
inductive GameStoreOp : Type → Type
  | playerStats (playerId : Uuid) : GameStoreOp PlayerStats
  | getActivePair (playerId : Uuid) : GameStoreOp (Option PairRecord)
  | enqueuePlayer (playerId : Uuid) : GameStoreOp Unit
  | tryMatch (playerId : Uuid) : GameStoreOp (Option PairRecord)
  | createTurn (pairId speakerId guesserId cardId : Uuid) : GameStoreOp TurnRecord
  | pickCardForPair (pairId : Uuid) : GameStoreOp (Option CardRecord)
  | getTurn (turnId : Uuid) : GameStoreOp (Option TurnRecord)
  | getLatestTurn (pairId : Uuid) : GameStoreOp (Option TurnRecord)
  | acceptAudio (turnId : Uuid) (audioPath : AudioPath) (durationS : ℚ) : GameStoreOp TurnRecord
  | enqueueJob (kind : JobKind) (turnId : Uuid) : GameStoreOp Bool
  | confirmLabel (turnId : Uuid) : GameStoreOp TurnRecord
  | applyGuess (turnId : Uuid) (correct : Bool) : GameStoreOp TurnRecord
  | completePairIfCapped (pairId : Uuid) (roundsCap : ℤ) : GameStoreOp Bool

/-- A fresh `turns` row. -/
def TurnRecord.initial (id pairId speakerId guesserId cardId : Uuid) (now : Time) :
    TurnRecord where
  id := id
  pairId := pairId
  speakerId := speakerId
  guesserId := guesserId
  cardId := cardId
  status := .awaitingAudio
  audioPath := none
  audioFlacPath := none
  durationS := none
  quality := none
  attempts := 0
  outcome := .pending
  createdAt := now

/-- A fresh `jobs` row. -/
def JobRow.initial (id : Uuid) (kind : JobKind) (turnId : Uuid) (now : Time) : JobRow where
  id := id
  kind := kind
  turnId := turnId
  status := .pending
  tries := 0
  lastError := none
  createdAt := now
  availableAt := now
  claimedAt := none
  completedAt := none

namespace Db

theorem findPlayer_id {db : Db} {p : Uuid} {player : PlayerRecord}
    (h : db.findPlayer p = some player) : player.id = p := by
  have hp := List.find?_some h
  exact beq_iff_eq.mp hp

/-- There is a job of this kind for the turn. -/
def hasJob (db : Db) (kind : JobKind) (turnId : Uuid) : Bool :=
  db.jobs.any fun j ↦ j.kind == kind && j.turnId == turnId

/-- Insert a job unless there is one of its kind for the turn: `INSERT … ON CONFLICT DO NOTHING`
against the unique index on `(kind, payload->>'turn_id')`, and the scan of the in-memory store. -/
def insertJob (db : Db) (kind : JobKind) (turnId : Uuid) (id : Uuid) (now : Time) : Db :=
  if db.hasJob kind turnId then db
  else { db with jobs := db.jobs ++ [JobRow.initial id kind turnId now] }

/-- A verified card of a live deck, one the pair has not played when there is such a card. -/
def pickCard (db : Db) (pairId : Uuid) (rand : ℕ) : Option CardRecord :=
  let used := (db.turnsOf pairId).map TurnRecord.cardId
  let unused := db.liveCards.filter fun c ↦ c.id ∉ used
  let pool := if unused = [] then db.liveCards else unused
  pool[rand % pool.length]?

/-! ## The steps of `try_match` both stores take

One in SQL and one in Python, with the same effect. -/

/-- The heartbeat of `me` and the eviction of stale waiters that precede the choice of a partner:
`_evict_stale_queue(keep=player_id)` in the in-memory store. -/
def refreshQueue (db : Db) (cfg : GameFeatureConfig) (now : Time) (me : Uuid) : Db :=
  let db := db.upsertQueue me now
  { db with queue := db.queue.filter fun q ↦
      !(decide (q.enqueuedAt < now - cfg.matchmakingQueueTtl) && q.playerId != me) }

/-- `me` was enqueued no later than the partner. -/
def enqueuedFirst (db : Db) (me : Uuid) (partner : QueueRow) : Bool :=
  match db.findQueued me with
  | some q => decide (q.enqueuedAt ≤ partner.enqueuedAt)
  | none => false

/-- Insert the pair and, when a card can be picked, its first turn; take both players out of the
queue.  Whoever was enqueued first speaks first. -/
def insertPair (db : Db) (d : Draw) (me : Uuid) (partner : QueueRow) (lang : Text) :
    PairRecord × Db :=
  let (a, b) :=
    if db.enqueuedFirst me partner then (me, partner.playerId) else (partner.playerId, me)
  let pair : PairRecord := ⟨d.uuid, a, b, lang, .active, d.now⟩
  let turn := (db.pickCard pair.id d.rand).map fun card ↦
    TurnRecord.initial d.uuid' pair.id a b card.id d.now
  (pair, { db with
    pairs := db.pairs ++ [pair]
    turns := db.turns ++ turn.toList
    queue := db.queue.filter fun q ↦ !(q.playerId == me || q.playerId == partner.playerId) })

end Db

end Neva
