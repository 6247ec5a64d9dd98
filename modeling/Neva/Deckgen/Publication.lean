import Neva.Calls.Alone
import Neva.Separated
import Neva.Rendering
import Neva.Deckgen.Build

/-!
# Publishing a deck

`PostgresPublisher.publish` of `deckgen/publish.py`, call by call.  `Neva.Deckgen.Build` takes its
transaction for one step; here every statement, every image and the renaming of the staging
directory is a call of its own, and each of them may raise (`PressDraw.raises`).  A publication
works on two stores, the tables and the directories below `decks/`, and the renaming is the one
step that cannot be rolled back.

An image that could not be written may be there in part.  A transaction that fails is rolled back,
also when it is its `COMMIT` that fails, and `shutil.rmtree` removes what it is given.  Building the
result and writing to the log are left out: what raises here is a call to one of the two stores.
-/

set_option autoImplicit false

namespace Neva.Deckgen

open Calls

/-! ## The interface -/

/-- A `CardRecord` of the publisher: a row and the image that goes with it. -/
structure PrintedCard where
  cardId : Uuid
  conceptId : Option Text
  imageBytes : Bytes
  decoyCardIds : List Text
  verified : Bool

/-- The row `publish` inserts. -/
def PrintedCard.row (card : PrintedCard) (deckId : Uuid) : CardRow :=
  ⟨card.cardId, deckId, card.conceptId, card.decoyCardIds, card.verified⟩

/-- `image_file_extension` -/
def imageFileExtension (imageBytes : Bytes) : Except DeckError Text :=
  if [0x89, 0x50, 0x4e, 0x47, 0x0d, 0x0a, 0x1a, 0x0a].isPrefixOf imageBytes then .ok ".png".toList
  else if [0xff, 0xd8, 0xff].isPrefixOf imageBytes then .ok ".jpg".toList
  else if 12 ≤ imageBytes.length ∧ [0x52, 0x49, 0x46, 0x46].isPrefixOf imageBytes ∧
      (imageBytes.drop 8).take 4 = [0x57, 0x45, 0x42, 0x50] then .ok ".webp".toList
  else .error (.valueError "unsupported generated image encoding")

/-- `f"{card.card_id}{extension}"` -/
def PrintedCard.filename (card : PrintedCard) : Except DeckError Text := do
  let extension ← imageFileExtension card.imageBytes
  return uuidText card.cardId ++ extension

/-- The directories below `decks/`. -/
inductive Dir
  | deck (deckId : Uuid)
  /-- `.{deck_id}.tmp-{uuid4}` -/
  | staging (deckId nonce : Uuid)
  deriving DecidableEq, Repr

/-- The files of a directory. -/
abbrev Files := Text → Option Bytes

/-- The statements of `publish` that answer nothing. -/
inductive Statement
  | describe (deckId : Uuid) (generationInput : Json)
  | insertDeck (deckId : Uuid) (generationInput : Json)
  | insertCard (card : CardRow)
  | finish (deckId : Uuid) (final : FinalStatus)
  | failGenerating (deckId : Uuid) (reason : Text)
  | upsertFailed (deckId : Uuid) (generationInput : Json) (reason : Text)

def Statement.run (jsonb : Json.Store) (now : Time) (db : Decks) :
    Statement → Except DeckError Decks
  | .describe deckId generationInput =>
    .ok (db.updateDecks (fun d ↦ d.id == deckId)
      fun d ↦ { d.described (jsonb.read generationInput) with failureReason := none })
  | .insertDeck deckId generationInput =>
    db.insertDeck ⟨deckId, .generating, jsonb.read generationInput, none, none⟩
  | .insertCard card => db.insertCard card
  | .finish deckId final => .ok (db.updateDecks (fun d ↦ d.id == deckId) (·.finished final now))
  | .failGenerating deckId reason => .ok (db.failGenerating deckId reason)
  | .upsertFailed deckId generationInput reason =>
    .ok (db.upsertFailed jsonb deckId generationInput reason)

/-- The calls of a publication. -/
inductive PressOp : Type → Type
  /-- `deck_dir.exists()` -/
  | dirExists (dir : Dir) : PressOp Bool
  | mkdir (dir : Dir) : PressOp Unit
  | writeBytes (dir : Dir) (filename : Text) (bytes : Bytes) : PressOp Unit
  /-- `staging_dir.replace(deck_dir)`, and `final_dir_created = True`. -/
  | rename (source target : Dir) : PressOp Unit
  | rmtree (dir : Dir) : PressOp Unit
  /-- `conn = await asyncpg.connect(…)` -/
  | connect : PressOp Unit
  /-- `if conn is not None: await conn.close()` -/
  | close : PressOp Unit
  | begin : PressOp Unit
  | commit : PressOp Unit
  | rollback : PressOp Unit
  /-- `SELECT status FROM decks WHERE id = $1 FOR UPDATE` -/
  | status (deckId : Uuid) : PressOp (Option DeckStatus)
  | execute (statement : Statement) : PressOp Unit
  /-- The connection of `mark_failed` is opened or closed. -/
  | await : PressOp Unit
  /-- `conn is not None` and `final_dir_created`. -/
  | locals : PressOp (Bool × Bool)

/-- What a publication works on, with the two variables its handler looks at. -/
structure Press where
  /-- What has been committed. -/
  db : Decks
  /-- The tables as the open transaction sees them. -/
  tx : Option Decks
  dirs : Dir → Option Files
  connected : Bool
  finalDirCreated : Bool

/-- What a call is handed from outside. -/
structure PressDraw where
  now : Time
  /-- The call raises. -/
  raises : Option DeckError := none
  /-- How much of an image is written before writing it raises. -/
  written : ℕ := 0

namespace Press

variable (s : Press)

def setDir (dir : Dir) (files : Option Files) : Press :=
  { s with dirs := Function.update s.dirs dir files }

@[simp] theorem setDir_self (dir : Dir) (files : Option Files) :
    (s.setDir dir files).dirs dir = files := Function.update_self ..

theorem setDir_of_ne {dir dir' : Dir} (h : dir' ≠ dir) (files : Option Files) :
    (s.setDir dir files).dirs dir' = s.dirs dir' := Function.update_of_ne h ..

/-- Write the bytes into a file, if the directory is there. -/
def putFile (dir : Dir) (filename : Text) (bytes : Bytes) : Press :=
  match s.dirs dir with
  | none => s
  | some files => s.setDir dir (some (Function.update files filename (some bytes)))

/-- A statement, in the transaction if one is open. -/
def execute (jsonb : Json.Store) (now : Time) (statement : Statement) :
    Except DeckError Unit × Press :=
  match s.tx with
  | some tx =>
    match statement.run jsonb now tx with
    | .ok tx' => (.ok (), { s with tx := some tx' })
    | .error e => (.error e, s)
  | none =>
    match statement.run jsonb now s.db with
    | .ok db' => (.ok (), { s with db := db' })
    | .error e => (.error e, s)

end Press

/-- What is left behind by a call that raises. -/
def PressOp.failed {β : Type} (d : PressDraw) : PressOp β → Press → Press
  | .writeBytes dir filename bytes, s => s.putFile dir filename (bytes.take d.written)
  | .commit, s | .rollback, s => { s with tx := none }
  | .rmtree dir, s => s.setDir dir none
  | _, s => s

/-- What a call answers and leaves behind when nothing goes wrong. -/
def PressOp.succeeded {β : Type} (jsonb : Json.Store) (d : PressDraw) :
    PressOp β → Press → Except DeckError β × Press
  | .dirExists dir, s => (.ok (s.dirs dir).isSome, s)
  | .mkdir dir, s =>
    if (s.dirs dir).isSome then (.error (.raised "FileExistsError".toList), s)
    else (.ok (), s.setDir dir (some fun _ ↦ none))
  | .writeBytes dir filename bytes, s =>
    if (s.dirs dir).isSome then (.ok (), s.putFile dir filename bytes)
    else (.error (.raised "FileNotFoundError".toList), s)
  | .rename source target, s =>
    (.ok (), { (s.setDir target (s.dirs source)).setDir source none with finalDirCreated := true })
  | .rmtree dir, s => (.ok (), s.setDir dir none)
  | .connect, s => (.ok (), { s with connected := true })
  | .close, s => (.ok (), s)
  | .begin, s => (.ok (), { s with tx := some s.db })
  | .commit, s => (.ok (), { s with db := s.tx.getD s.db, tx := none })
  | .rollback, s => (.ok (), { s with tx := none })
  | .status deckId, s => (.ok (((s.tx.getD s.db).deck? deckId).map DeckRecord.status), s)
  | .execute statement, s => s.execute jsonb d.now statement
  | .await, s => (.ok (), s)
  | .locals, s => (.ok (s.connected, s.finalDirCreated), s)

/-- Reading a variable, removing a directory and closing no connection do not raise. -/
def PressOp.mayRaise {β : Type} : PressOp β → Press → Bool
  | .locals, _ | .rmtree _, _ => false
  | .close, s => s.connected
  | _, _ => true

def PressOp.exec {β : Type} (jsonb : Json.Store) (d : PressDraw) (op : PressOp β) (s : Press) :
    Except DeckError β × Press :=
  match d.raises with
  | some e => if op.mayRaise s then (.error e, op.failed d s) else op.succeeded jsonb d s
  | none => op.succeeded jsonb d s

/-! ## The publisher -/

/-- A publication, or a part of one. -/
abbrev Publication (α : Type) : Type 1 := Prog PressOp DeckError α

/-- `async with conn.transaction()` -/
def transaction (p : Publication Unit) : Publication Unit := do
  Prog.perform .begin
  p.tryCatch fun e ↦ do
    Prog.perform .rollback
    Prog.raise e
  Prog.perform .commit

namespace PostgresPublisher

/-- The images, one after the other. -/
def stageImages (dir : Dir) : List PrintedCard → Publication Unit
  | [] => return
  | card :: rest => do
    let filename ← Prog.done card.filename
    Prog.perform (.writeBytes dir filename card.imageBytes)
    stageImages dir rest

/-- The rows, one after the other. -/
def insertCards (deckId : Uuid) : List PrintedCard → Publication Unit
  | [] => return
  | card :: rest => do
    Prog.perform (.execute (.insertCard (card.row deckId)))
    insertCards deckId rest

/-- What is published, and where. -/
structure Edition where
  deckId : Uuid
  /-- The identifier was given by the caller; otherwise it is a new one. -/
  provided : Bool
  generationInput : Json
  cards : List PrintedCard
  final : FinalStatus
  /-- The identifier in the name of the staging directory. -/
  nonce : Uuid

namespace Edition

variable (o : Edition)

def deckDir : Dir := .deck o.deckId

def stagingDir : Dir := .staging o.deckId o.nonce

/-- The row the cards hang on: the one that was provided, if it is generating, or a new one. -/
def openDeck : Publication Unit :=
  if o.provided then do
    match ← Prog.perform (.status o.deckId) with
    | none => Prog.raise (.lookupError o.deckId)
    | some status =>
      if status ≠ .generating then Prog.raise (.notGenerating o.deckId status)
      else Prog.perform (.execute (.describe o.deckId o.generationInput))
  else Prog.perform (.execute (.insertDeck o.deckId o.generationInput))

/-- What is done in the transaction. -/
def inTransaction : Publication Unit := do
  o.openDeck
  insertCards o.deckId o.cards
  Prog.perform (.rename o.stagingDir o.deckDir)
  Prog.perform (.execute (.finish o.deckId o.final))

/-- What is tried. -/
def attempt : Publication Unit := do
  if ← Prog.perform (.dirExists o.deckDir) then Prog.raise (.raised "FileExistsError".toList)
  Prog.perform (.mkdir o.stagingDir)
  stageImages o.stagingDir o.cards
  Prog.perform .connect
  transaction o.inTransaction

/-- `_safe_failure_reason(f"publication failed: {type(exc).__name__}")` -/
def reason (e : DeckError) : Text := safeFailureReason ("publication failed: ".toList ++ e.typeName)

/-- `try: p except Exception: pass` -/
def ignoring (p : Publication Unit) : Publication Unit := p.tryCatch fun _ ↦ pure ()

/-- `mark_failed` -/
def markFailed (reason : Text) : Publication Unit := do
  Prog.perform .await
  Prog.ensuring (Prog.perform (.execute (.failGenerating o.deckId reason))) .await

/-- Making the row of the deck fail, with the connection of the publication if there is one. -/
def recordFailure (reason : Text) (connected : Bool) : Publication Unit :=
  if connected then
    ignoring (Prog.perform (.execute
      (if o.provided then .failGenerating o.deckId reason
        else .upsertFailed o.deckId o.generationInput reason)))
  else if o.provided then ignoring (o.markFailed reason)
  else return

/-- What is done about an exception. -/
def cleanUp (reason : Text) : Publication Unit := do
  Prog.perform (.rmtree o.stagingDir)
  let (connected, finalDirCreated) ← Prog.perform .locals
  if finalDirCreated then Prog.perform (.rmtree o.deckDir)
  o.recordFailure reason connected

/-- `publish` -/
def publish : Publication Unit :=
  Prog.ensuring
    (o.attempt.tryCatch fun e ↦ do
      o.cleanUp (reason e)
      Prog.raise e)
    .close

end Edition

/-- A publication that runs alone. -/
def press (jsonb : Json.Store) : System PressOp DeckError PressDraw Press Edition Unit where
  exec d op s := op.exec jsonb d s
  admits _ _ := true
  body := Edition.publish
  init s := s.tx = none ∧ s.connected = false ∧ s.finalDirCreated = false

end PostgresPublisher
end Neva.Deckgen
