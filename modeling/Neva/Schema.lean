import Mathlib

/-!
# The tables

The rows of `contracts/schema.sql` that the game and the worker share, and the records
`app/game/types.py` and `worker/models.py` read them into.  A table is a list of rows in the order
they were inserted; a status column is an inductive type, so the `CHECK (status IN …)` constraints
hold by construction.

Identifiers are UUIDs, of which nothing is used but equality and order; text the program
manipulates is a list of code points; instants are microseconds.  The columns nothing here reads
(`session_token_hash`, `image_path`, `generation_metrics`, …) are left out.
-/

set_option autoImplicit false

namespace Neva

/-- A UUID, as the 128-bit number it is compared by. -/
abbrev Uuid := ℕ

/-- A string the program takes apart: its code points. -/
abbrev Text := List Char

instance : LawfulBEq Text := List.instLawfulBEq

/-- The bytes of an upload. -/
abbrev Bytes := List UInt8

/-- An instant or a span of time, in microseconds. -/
abbrev Time := ℕ

/-! ## Columns with a fixed set of values -/

/-- `pairs.status` -/
inductive PairStatus
  | active
  | completed
  | abandoned
  deriving DecidableEq, Repr

/-- `turns.status` -/
inductive TurnStatus
  | awaitingAudio
  | awaitingLabelConfirm
  | awaitingGuess
  | scored
  deriving DecidableEq, Repr

/-- `turns.outcome` -/
inductive TurnOutcome
  | pending
  | validated
  | wrong
  | unclear
  deriving DecidableEq, Repr

/-- `jobs.kind` -/
inductive JobKind
  | triage
  | package
  deriving DecidableEq, Repr

/-- `jobs.status` -/
inductive JobStatus
  | pending
  | processing
  | complete
  | failed
  deriving DecidableEq, Repr

/-- `decks.status` -/
inductive DeckStatus
  | draft
  | generating
  | ready
  | live
  | failed
  deriving DecidableEq, Repr

/-- The files the game and the worker keep below `data/audio`, both named after the turn. -/
inductive AudioPath
  /-- `audio/<turn_id>.webm` -/
  | webm (turnId : Uuid)
  /-- `audio/<turn_id>.flac` -/
  | flac (turnId : Uuid)
  deriving DecidableEq, Repr

/-! ## Rows -/

/-- A `players` row. -/
structure PlayerRecord where
  id : Uuid
  nickname : Text
  nativeLang : Text
  commonLangs : List Text
  deriving DecidableEq, Repr

/-- A `matchmaking_queue` row. -/
structure QueueRow where
  playerId : Uuid
  enqueuedAt : Time
  deriving DecidableEq, Repr

/-- A `pairs` row. -/
structure PairRecord where
  id : Uuid
  playerA : Uuid
  playerB : Uuid
  commonLang : Text
  status : PairStatus
  createdAt : Time
  deriving DecidableEq, Repr

/-- A `decks` row. -/
structure DeckRow where
  id : Uuid
  status : DeckStatus
  deriving DecidableEq, Repr

/-- A `cards` row. -/
structure CardRecord where
  id : Uuid
  deckId : Uuid
  verified : Bool
  deriving DecidableEq, Repr

/-- The JSON object in `turns.quality`: `TriageResult.as_quality_json` with the two fingerprint
entries `persist_triage` adds. -/
structure Quality where
  isSpeech : Bool
  singleSpeaker : Bool
  audioQualityOk : Bool
  durationS : ℚ
  dedupHash : Text
  duplicate : Bool
  contaminationFlag : Bool
  apparentLanguageNote : Text
  confidence : ℚ
  readoutReasoning : Text
  /-- Absent until a fingerprint has been registered. -/
  acousticEnvelope : Option Text
  deriving DecidableEq, Repr

/-- A `turns` row. -/
structure TurnRecord where
  id : Uuid
  pairId : Uuid
  speakerId : Uuid
  guesserId : Uuid
  cardId : Uuid
  status : TurnStatus
  audioPath : Option AudioPath
  audioFlacPath : Option AudioPath
  durationS : Option ℚ
  quality : Option Quality
  attempts : ℕ
  outcome : TurnOutcome
  createdAt : Time
  deriving DecidableEq, Repr

/-- A `jobs` row. -/
structure JobRow where
  id : Uuid
  kind : JobKind
  turnId : Uuid
  status : JobStatus
  tries : ℕ
  lastError : Option Text
  createdAt : Time
  availableAt : Time
  claimedAt : Option Time
  completedAt : Option Time
  deriving DecidableEq, Repr

/-- A `speaker_audio_fingerprints` row.  The table has two unique keys: `(speaker_id, fingerprint)`
and `turn_id`. -/
structure FingerprintRow where
  speakerId : Uuid
  fingerprint : Text
  turnId : Uuid
  deriving DecidableEq, Repr

/-- The database. -/
structure Db where
  players : List PlayerRecord
  queue : List QueueRow
  pairs : List PairRecord
  decks : List DeckRow
  cards : List CardRecord
  turns : List TurnRecord
  jobs : List JobRow
  fingerprints : List FingerprintRow
  deriving DecidableEq, Repr

/-- The order of a turn's life. -/
def TurnStatus.next : TurnStatus → Option TurnStatus
  | .awaitingAudio => some .awaitingLabelConfirm
  | .awaitingLabelConfirm => some .awaitingGuess
  | .awaitingGuess => some .scored
  | .scored => none

/-- The player speaks or guesses in the turn. -/
def TurnRecord.involves (t : TurnRecord) (p : Uuid) : Bool :=
  t.speakerId == p || t.guesserId == p

/-- The player is one of the two members of the pair. -/
def PairRecord.hasMember (pair : PairRecord) (p : Uuid) : Bool :=
  pair.playerA == p || pair.playerB == p

@[simp] theorem TurnRecord.involves_iff {t : TurnRecord} {p : Uuid} :
    t.involves p = true ↔ t.speakerId = p ∨ t.guesserId = p := by
  rw [TurnRecord.involves, Bool.or_eq_true, beq_iff_eq, beq_iff_eq]

@[simp] theorem PairRecord.hasMember_iff {pair : PairRecord} {p : Uuid} :
    pair.hasMember p = true ↔ pair.playerA = p ∨ pair.playerB = p := by
  rw [PairRecord.hasMember, Bool.or_eq_true, beq_iff_eq, beq_iff_eq]

namespace Db

/-! ## Reading the tables -/

def findPlayer (db : Db) (p : Uuid) : Option PlayerRecord := db.players.find? fun r ↦ r.id == p

def findPair (db : Db) (p : Uuid) : Option PairRecord := db.pairs.find? fun r ↦ r.id == p

def findTurn (db : Db) (t : Uuid) : Option TurnRecord := db.turns.find? fun r ↦ r.id == t

def findQueued (db : Db) (p : Uuid) : Option QueueRow := db.queue.find? fun r ↦ r.playerId == p

/-- The pairs with status `active` the player is a member of. -/
def activePairs (db : Db) (p : Uuid) : List PairRecord :=
  db.pairs.filter fun r ↦ r.status == .active && r.hasMember p

/-- `ORDER BY created_at DESC LIMIT 1` over the player's active pairs. -/
def activePair (db : Db) (p : Uuid) : Option PairRecord :=
  (db.activePairs p).argmax PairRecord.createdAt

def turnsOf (db : Db) (pairId : Uuid) : List TurnRecord :=
  db.turns.filter fun t ↦ t.pairId == pairId

/-- `ORDER BY (status <> 'scored') DESC, created_at DESC, id DESC LIMIT 1` over the turns of a
pair. -/
def latestTurn (db : Db) (pairId : Uuid) : Option TurnRecord :=
  (db.turnsOf pairId).argmax fun t ↦ toLex (t.status != .scored, toLex (t.createdAt, t.id))

/-- The number of scored turns the player took part in. -/
def roundsPlayed (db : Db) (p : Uuid) : ℕ :=
  db.turns.countP fun t ↦ t.status == .scored && t.involves p

/-- The card is verified and its deck is live. -/
def isLiveCard (db : Db) (c : CardRecord) : Bool :=
  c.verified && db.decks.any fun d ↦ d.id == c.deckId && d.status == .live

def liveCards (db : Db) : List CardRecord := db.cards.filter db.isLiveCard

/-- The identifier is not in use as a primary key. -/
def fresh (db : Db) (u : Uuid) : Bool :=
  db.players.all (fun r ↦ r.id != u) && db.pairs.all (fun r ↦ r.id != u) &&
    db.turns.all (fun r ↦ r.id != u) && db.jobs.all fun r ↦ r.id != u

/-! ## Writing the tables -/

/-- `UPDATE turns SET … WHERE id = $1` -/
def updateTurn (db : Db) (t : Uuid) (f : TurnRecord → TurnRecord) : Db :=
  { db with turns := db.turns.map fun r ↦ if r.id = t then f r else r }

/-- `UPDATE pairs SET status = … WHERE id = $1` -/
def setPairStatus (db : Db) (p : Uuid) (s : PairStatus) : Db :=
  { db with pairs := db.pairs.map fun r ↦ if r.id = p then { r with status := s } else r }

/-- `INSERT … ON CONFLICT (player_id) DO UPDATE SET enqueued_at`, which is also what assigning to
a key of the in-memory queue does. -/
def upsertQueue (db : Db) (p : Uuid) (now : Time) : Db :=
  { db with queue :=
      if db.queue.any fun r ↦ r.playerId == p then
        db.queue.map fun r ↦ if r.playerId = p then ⟨p, now⟩ else r
      else db.queue ++ [⟨p, now⟩] }

end Db

end Neva
