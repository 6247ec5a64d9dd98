import Neva.Tables
import Neva.Deckgen.Review
import Neva.Deckgen.Decoys

/-!
# The tables `decks` and `cards`

The transactions that write them: those of `DeckAdminRepository` in `app/deck_admin/repository.py`
and those of `PostgresPublisher` in `deckgen/publish.py`.  Each is one function of the two tables;
one that raises leaves them as they were.

A deck has one status, and many hands move it.  `activate` is the only transaction that looks at
the other decks: it demotes whatever else is live.  Publishing with `final_status = 'live'` does
not.  To `failed` there are three ways, and each has a guard of its own: `mark_failed` of the
publisher wants the deck to be generating, `mark_failed` of the repository only that it is not
live, and the upsert of `publish` wants nothing.

The columns `region_tag`, `generation_metrics`, `created_at`, `image_path` and `label_common` are
left out.
-/

set_option autoImplicit false

namespace Neva.Deckgen

/-- `DECK_FINAL_STATUSES` -/
inductive FinalStatus
  | ready
  | live
  deriving DecidableEq, Repr

def FinalStatus.status : FinalStatus → DeckStatus
  | .ready => .ready
  | .live => .live

/-- A `decks` row. -/
structure DeckRecord where
  id : Uuid
  status : DeckStatus
  generationInput : Json
  failureReason : Option Text
  activatedAt : Option Time

/-- A `cards` row. -/
structure CardRow where
  id : Uuid
  deckId : Uuid
  conceptId : Option Text
  decoys : List Text
  verified : Bool
  deriving DecidableEq

/-- The two tables. -/
structure Decks where
  decks : List DeckRecord
  cards : List CardRow

/-- What a step of a build can raise. -/
inductive DeckError
  | concept (e : ConceptError)
  | decoy (e : DecoyError)
  | lookupError (deckId : Uuid)
  /-- `provided deck_id … must be generating, got …` -/
  | notGenerating (deckId : Uuid) (status : DeckStatus)
  | uniqueViolation
  | valueError (message : String)
  /-- Anything else that an awaited call can raise. -/
  | raised (typeName : Text)
  deriving DecidableEq, Repr

namespace DeckRecord

/-- `SET status = …, failure_reason = NULL, activated_at = CASE WHEN … = 'live' THEN now() ELSE NULL
END` -/
def finished (final : FinalStatus) (now : Time) (d : DeckRecord) : DeckRecord :=
  { d with
    status := final.status
    failureReason := none
    activatedAt := if final = .live then some now else none }

/-- `SET status = 'failed', failure_reason = …` -/
def failed (reason : Text) (d : DeckRecord) : DeckRecord :=
  { d with status := .failed, failureReason := some reason }

/-- `SET status = 'ready', activated_at = NULL` -/
def demoted (d : DeckRecord) : DeckRecord := { d with status := .ready, activatedAt := none }

/-- `SET status = 'live', activated_at = COALESCE(activated_at, now()), failure_reason = NULL` -/
def promoted (now : Time) (d : DeckRecord) : DeckRecord :=
  { d with status := .live, activatedAt := some (d.activatedAt.getD now), failureReason := none }

/-- `SET generation_input = …` -/
def described (generationInput : Json) (d : DeckRecord) : DeckRecord := { d with generationInput }

end DeckRecord

namespace Decks

variable (db : Decks)

/-! ## Statements -/

/-- `SELECT … FROM decks WHERE id = $1` -/
def deck? (deckId : Uuid) : Option DeckRecord := db.decks.find? fun d ↦ d.id == deckId

/-- `UPDATE decks SET … WHERE …` -/
def updateDecks (p : DeckRecord → Bool) (f : DeckRecord → DeckRecord) : Decks :=
  { db with decks := db.decks.map fun d ↦ if p d then f d else d }

/-- `INSERT INTO decks` -/
def insertDeck (d : DeckRecord) : Except DeckError Decks :=
  if db.decks.any fun x ↦ x.id == d.id then .error .uniqueViolation
  else .ok { db with decks := db.decks ++ [d] }

/-- `INSERT INTO cards` -/
def insertCard (c : CardRow) : Except DeckError Decks :=
  if db.cards.any fun x ↦ x.id == c.id then .error .uniqueViolation
  else .ok { db with cards := db.cards ++ [c] }

/-- Inserting cards one after the other. -/
def insertCards : List CardRow → Decks → Except DeckError Decks
  | [], db => .ok db
  | c :: rest, db => db.insertCard c >>= insertCards rest

/-- `SELECT status FROM decks WHERE id = $1 FOR UPDATE`, and the checks that follow it. -/
def lockGenerating (deckId : Uuid) : Except DeckError Unit :=
  match db.deck? deckId with
  | none => .error (.lookupError deckId)
  | some d => if d.status = .generating then .ok () else .error (.notGenerating deckId d.status)

/-- The row `publish` starts from: the deck it was given, or a new one. -/
def openDeck (jsonb : Json.Store) (deckId : Uuid) (provided : Bool) (generationInput : Json) :
    Except DeckError Decks :=
  if provided then do
    db.lockGenerating deckId
    return db.updateDecks (fun d ↦ d.id == deckId)
      fun d ↦ { d.described (jsonb.read generationInput) with failureReason := none }
  else db.insertDeck ⟨deckId, .generating, jsonb.read generationInput, none, none⟩

/-- `UPDATE cards SET decoys = … WHERE id = …` for every card of the deck. -/
def backfill (deckId : Uuid) (decoysByCardId : Mapping) : Decks :=
  { db with
    cards := db.cards.map fun c ↦
      if c.deckId = deckId then
        { c with decoys := (decoysByCardId.get? (uuidText c.id)).getD [] }
      else c }

end Decks

/-! ## Transactions -/

/-- The transactions that write to the tables and answer nothing. -/
inductive Transaction
  /-- `PostgresPublisher.update_generation_state`; without a document only metrics are written. -/
  | updateGenerationState (deckId : Uuid) (generationInput : Option Json)
  /-- The transaction of `PostgresPublisher.persist_card`. -/
  | persistCard (deckId : Uuid) (card : CardRow)
  /-- The transaction of `PostgresPublisher.finalize_progressive`. -/
  | finalizeProgressive (deckId : Uuid) (decoysByCardId : Mapping) (final : FinalStatus)
  /-- The transaction of `PostgresPublisher.publish`. -/
  | publish (deckId : Uuid) (provided : Bool) (generationInput : Json) (cards : List CardRow)
      (final : FinalStatus)
  /-- What `PostgresPublisher.publish` does with its connection when it fails. -/
  | failPublication (deckId : Uuid) (provided : Bool) (generationInput : Json) (reason : Text)
  /-- The statement of `PostgresPublisher.mark_failed`. -/
  | publisherMarkFailed (deckId : Uuid) (reason : Text)
  /-- `DeckAdminRepository.mark_failed` -/
  | adminMarkFailed (deckId : Uuid) (reason : Text)

/-- `UPDATE decks SET status = 'failed', … WHERE id = … AND status = 'generating'` -/
def Decks.failGenerating (db : Decks) (deckId : Uuid) (reason : Text) : Decks :=
  db.updateDecks (fun d ↦ d.id == deckId && d.status == .generating) (·.failed reason)

/-- `INSERT INTO decks … ON CONFLICT (id) DO UPDATE SET status = 'failed', …` -/
def Decks.upsertFailed (db : Decks) (jsonb : Json.Store) (deckId : Uuid) (generationInput : Json)
    (reason : Text) : Decks :=
  if db.decks.any fun d ↦ d.id == deckId then
    db.updateDecks (fun d ↦ d.id == deckId) (·.failed reason)
  else { db with
    decks := db.decks ++ [⟨deckId, .failed, jsonb.read generationInput, some reason, none⟩] }

/-- The tables after a transaction, unless it raises. -/
def Transaction.run (jsonb : Json.Store) (now : Time) (db : Decks) :
    Transaction → Except DeckError Decks
  | .updateGenerationState deckId generationInput =>
    .ok (match generationInput with
      | none => db
      | some doc => db.updateDecks (fun d ↦ d.id == deckId && d.status == .generating)
          (·.described (jsonb.read doc)))
  | .persistCard deckId card => do
    db.lockGenerating deckId
    if db.cards.any fun c ↦ c.deckId == deckId && c.conceptId == card.conceptId then return db
    else db.insertCard card
  | .finalizeProgressive deckId decoysByCardId final => do
    db.lockGenerating deckId
    return (db.backfill deckId decoysByCardId).updateDecks (fun d ↦ d.id == deckId)
      (·.finished final now)
  | .publish deckId provided generationInput cards final => do
    let opened ← db.openDeck jsonb deckId provided generationInput
    let filled ← opened.insertCards cards
    return filled.updateDecks (fun d ↦ d.id == deckId) (·.finished final now)
  | .failPublication deckId provided generationInput reason =>
    .ok (if provided then db.failGenerating deckId reason
      else db.upsertFailed jsonb deckId generationInput reason)
  | .publisherMarkFailed deckId reason => .ok (db.failGenerating deckId reason)
  | .adminMarkFailed deckId reason =>
    .ok (db.updateDecks (fun d ↦ d.id == deckId && d.status != .live) (·.failed reason))

/-- What the transaction answers, and the tables it leaves behind. -/
def Transaction.exec (jsonb : Json.Store) (now : Time) (tx : Transaction) (db : Decks) :
    Except DeckError Unit × Decks :=
  match tx.run jsonb now db with
  | .ok db' => (.ok (), db')
  | .error e => (.error e, db)

/-- `DeckAdminRepository.create_generating` -/
def Decks.createGenerating (db : Decks) (jsonb : Json.Store) (deckId : Uuid)
    (generationInput : Json) : Except DeckError Uuid × Decks :=
  match db.insertDeck ⟨deckId, .generating, jsonb.read generationInput, none, none⟩ with
  | .ok db' => (.ok deckId, db')
  | .error e => (.error e, db)

/-- What `DeckAdminRepository.activate` answers: the status the deck had, and the deck that is live
now unless there was a conflict. -/
structure Activation where
  originalStatus : DeckStatus
  deck : Option DeckRecord

/-- `DeckAdminRepository.activate` -/
def Decks.activate (db : Decks) (now : Time) (deckId : Uuid) : Option Activation × Decks :=
  match db.deck? deckId with
  | none => (none, db)
  | some target =>
    if target.status ≠ .ready ∧ target.status ≠ .live then (some ⟨target.status, none⟩, db)
    else
      (some ⟨target.status, some (target.promoted now)⟩,
        (db.updateDecks
          (fun d ↦ d.status == .live && d.id != deckId) DeckRecord.demoted).updateDecks
          (fun d ↦ d.id == deckId) (·.promoted now))

end Neva.Deckgen
