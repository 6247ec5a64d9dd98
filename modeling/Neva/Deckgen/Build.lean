import Neva.Calls.System
import Neva.Deckgen.Decks

/-!
# Building a deck

`build_deck` and `build_deck_from_prompt` of `deckgen/pipeline.py` with the methods of
`PostgresPublisher` they use, and around them the background tasks of
`app/deck_admin/service.py`.  A build asks a model for its cards, which come back in any order, and
publishes them: all at once (`Target.atomic`), or one by one as they become ready, with the decoys
at the end (`Target.progressive`).

Whatever goes wrong is caught three times.  The publisher marks the deck failed, then `build_deck`
does, then the background task does, and each of them raises the error again for the next one.  An
exception may come from any call here, also after the transaction that published the deck has been
committed: from writing the log, or from closing the connection.

`workshop` is any number of builds, activations and background tasks at once.  What comes from
outside, the identifiers and the answers of the models, is drawn at each call.
-/

set_option autoImplicit false

namespace Neva.Deckgen

open Calls

/-! ## The interface -/

/-- The awaited calls that do nothing to the tables, but can raise. -/
inductive Await
  /-- What happens before the `try` statement of `build_deck`. -/
  | prepare
  | connect
  | close
  /-- Writing images below the data directory. -/
  | stageImages
  | translateLabels
  /-- Building a result and writing it to the log. -/
  | report
  deriving DecidableEq, Repr

/-- The calls of a build. -/
inductive DeckOp : Type → Type
  | await (what : Await) : DeckOp Unit
  | commit (tx : Transaction) : DeckOp Unit
  | createGenerating (generationInput : Json) : DeckOp Uuid
  | activate (deckId : Uuid) : DeckOp (Option Activation)
  /-- `uuid.uuid4()` for a new deck. -/
  | uuid4 : DeckOp Uuid
  /-- One of the pending tasks has a verified image; its card gets an identifier. -/
  | imageVerified (pending : List ℕ) : DeckOp (ℕ × Uuid)
  | inventConcepts (cardCount : ℕ) : DeckOp (List Concept)
  /-- The answer of the model in `select_decoys_batch`. -/
  | selectDecoys (cards : List BuiltCard) : DeckOp (List DecoyRow)

/-- What the calls work on: the tables, and the identifiers that have been given out. -/
structure Studio where
  db : Decks
  issued : List Uuid

/-- What a call is handed from outside. -/
structure DeckDraw where
  now : Time
  uuid : Uuid
  /-- Which of the pending tasks is done. -/
  pick : ℕ := 0
  /-- What the model invents, attempt by attempt. -/
  answers : List Json := []
  /-- The decoys the model selects. -/
  rows : List DecoyRow := []

/-- `type(exc).__name__` -/
def DeckError.typeName : DeckError → Text
  | .concept (.notAnObject _) | .concept (.notAString _ _) | .concept (.typeError _) =>
    "TypeError".toList
  | .concept (.validation _) => "ValidationError".toList
  | .concept (.inventionFailed _) => "RuntimeError".toList
  | .concept _ => "ValueError".toList
  | .decoy (.keyError _) => "KeyError".toList
  | .decoy _ => "ValueError".toList
  | .lookupError _ => "LookupError".toList
  | .notGenerating _ _ => "ValueError".toList
  | .uniqueViolation => "UniqueViolationError".toList
  | .valueError _ => "ValueError".toList
  | .raised typeName => typeName

/-- What a call answers and what it leaves behind.  A draw that picks no pending task stands for a
failure. -/
def DeckOp.exec {β : Type} (jsonb : Json.Store) (d : DeckDraw) :
    DeckOp β → Studio → Except DeckError β × Studio
  | .await _, s => (.ok (), s)
  | .commit tx, s => ((tx.exec jsonb d.now s.db).1, { s with db := (tx.exec jsonb d.now s.db).2 })
  | .createGenerating generationInput, s =>
    ((s.db.createGenerating jsonb d.uuid generationInput).1,
      ⟨(s.db.createGenerating jsonb d.uuid generationInput).2, d.uuid :: s.issued⟩)
  | .activate deckId, s =>
    (.ok (s.db.activate d.now deckId).1, { s with db := (s.db.activate d.now deckId).2 })
  | .uuid4, s => (.ok d.uuid, { s with issued := d.uuid :: s.issued })
  | .imageVerified pending, s =>
    (match pending[d.pick]? with
      | some i => .ok (i, d.uuid)
      | none => .error (.raised "ImageVerificationError".toList),
      { s with issued := d.uuid :: s.issued })
  | .inventConcepts cardCount, s =>
    ((inventConceptsFromPrompt cardCount d.answers).mapError .concept, s)
  | .selectDecoys _, s => (.ok d.rows, s)

/-! ## The publisher -/

/-- A build, or a part of one. -/
abbrev Build (α : Type) : Type 1 := Prog DeckOp DeckError α

/-- `_safe_failure_reason` -/
def safeFailureReason (reason : Text) : Text :=
  let normalized := List.intercalate [' '] ((reason.splitOnP isSpace).filter (· ≠ []))
  (if normalized = [] then "deck generation failed".toList else normalized).take 1000

/-- `try: p except Exception: pass` -/
def swallow (p : Build Unit) : Build Unit := p.tryCatch fun _ ↦ pure ()

/-- `conn = await asyncpg.connect(…)`, and `p` with the connection closed behind it. -/
def connected (p : Build Unit) : Build Unit := do
  Prog.perform (.await .connect)
  p.ensuring (.await .close)

namespace PostgresPublisher

/-- `mark_failed` -/
def markFailed (deckId : Uuid) (reason : Text) : Build Unit :=
  connected (Prog.perform (.commit (.publisherMarkFailed deckId (safeFailureReason reason))))

/-- `update_generation_state` -/
def updateGenerationState (deckId : Uuid) (generationInput : Option Json) : Build Unit :=
  connected (Prog.perform (.commit (.updateGenerationState deckId generationInput)))

/-- `persist_card` -/
def persistCard (deckId : Uuid) (card : CardRow) : Build Unit := do
  Prog.perform (.await .stageImages)
  connected (Prog.perform (.commit (.persistCard deckId card)))

/-- `finalize_progressive` -/
def finalizeProgressive (deckId : Uuid) (decoysByCardId : Mapping) (final : FinalStatus) :
    Build Unit :=
  connected do
    Prog.perform (.commit (.finalizeProgressive deckId decoysByCardId final))
    Prog.perform (.await .report)

/-- The body of `publish`, before and after there is a connection. -/
def publishInto (deckId : Uuid) (provided : Bool) (generationInput : Json)
    (cards : List CardRow) (final : FinalStatus) : Build Unit := do
  Prog.tryCatch
    (do
      Prog.perform (.await .stageImages)
      Prog.perform (.await .connect))
    fun e ↦ do
      if provided then swallow (markFailed deckId ("publication failed: ".toList ++ e.typeName))
      Prog.raise e
  Prog.ensuring
    (Prog.tryCatch
      (do
        Prog.perform (.commit (.publish deckId provided generationInput cards final))
        Prog.perform (.await .report))
      fun e ↦ do
        swallow (Prog.perform (.commit (.failPublication deckId provided generationInput
          (safeFailureReason ("publication failed: ".toList ++ e.typeName)))))
        Prog.raise e)
    (.await .close)

/-- `publish` -/
def publish (deckId : Option Uuid) (generationInput : Json) (cards : Uuid → List CardRow)
    (final : FinalStatus) : Build Unit :=
  match deckId with
  | some deckId => publishInto deckId true generationInput (cards deckId) final
  | none => do
    let deckId ← Prog.perform .uuid4
    publishInto deckId false generationInput (cards deckId) final

end PostgresPublisher

/-! ## The pipeline -/

/-- The arguments of `build_deck`. -/
structure BuildOrder where
  /-- The region, stripped and in lower case. -/
  region : Text
  cards : Option ℕ := none
  concepts : Option (List Concept)
  shuffled : Shuffled := unshuffled
  seed : Option Json.Number := none
  deckId : Option Uuid
  final : FinalStatus := .live
  progressive : Bool := false
  generationSource : Option Text := none
  promptTheme : Option Text := none

/-- How a deck is published. -/
inductive Target
  | atomic (deckId : Option Uuid)
  | progressive (deckId : Uuid)

/-- One of the tasks of `build_deck`. -/
structure Task where
  concept : Concept
  /-- The card, once it has been built. -/
  cardId : Option Uuid := none
  deriving DecidableEq

/-- The result of a task that is done. -/
def Task.built (t : Task) : Option BuiltCard := t.cardId.map fun cardId ↦ ⟨cardId, t.concept⟩

/-- The positions of the tasks that are not done. -/
def pendingTasks (tasks : List Task) : List ℕ :=
  (List.range tasks.length).filter fun i ↦ tasks[i]?.any fun t ↦ t.cardId.isNone

/-- The row of a card that has been built. -/
def BuiltCard.row (card : BuiltCard) (deckId : Uuid) (decoys : List Text) : CardRow :=
  ⟨card.cardId, deckId, some card.concept.id, decoys, true⟩

/-- What `_build_one` does with a card it has built. -/
def Target.persist (target : Target) (card : BuiltCard) : Build Unit :=
  match target with
  | .atomic _ => pure ()
  | .progressive deckId => PostgresPublisher.persistCard deckId (card.row deckId [])

/-- `asyncio.gather` over the tasks, of which one after the other gets done.  One that raises
cancels the others. -/
def gather (target : Target) : ℕ → List Task → Build (List BuiltCard)
  | 0, tasks => return tasks.filterMap Task.built
  | n + 1, tasks => do
    let (i, cardId) ← Prog.perform (.imageVerified (pendingTasks tasks))
    match tasks[i]? with
    | none => Prog.raise (.raised "IndexError".toList)
    | some task => do
      target.persist ⟨cardId, task.concept⟩
      gather target n (tasks.set i { task with cardId := some cardId })

/-- The arguments of `build_generation_input`. -/
def BuildOrder.details (o : BuildOrder) : BuildDetails :=
  ⟨o.region, o.seed, o.concepts.isSome, o.generationSource, o.promptTheme⟩

/-- The end of a build: all cards are there and have decoys. -/
def Target.finish (target : Target) (generationInput : Json) (built : List BuiltCard)
    (decoyUuids : Mapping) (final : FinalStatus) : Build Unit :=
  match target with
  | .atomic deckId =>
    PostgresPublisher.publish deckId generationInput
      (fun deckId ↦ built.map fun card ↦
        card.row deckId ((decoyUuids.get? (uuidText card.cardId)).getD []))
      final
  | .progressive deckId => PostgresPublisher.finalizeProgressive deckId decoyUuids final

/-- `select_decoys_batch` and `map_decoy_concepts_to_card_uuids` -/
def assignDecoys (built : List BuiltCard) : Build Mapping := do
  let rows ← Prog.perform (.selectDecoys built)
  match selectDecoysBatch built rows >>= mapDecoyConceptsToCardUuids built with
  | .error e => Prog.raise (.decoy e)
  | .ok decoyUuids => return decoyUuids

/-- The `try` statement of `build_deck`, from the point where the concepts have been selected. -/
def buildCards (o : BuildOrder) (target : Target) (concepts : List Concept) : Build Unit := do
  let generationInput := Json.obj (buildGenerationInput o.details concepts)
  match target with
    | .atomic _ => pure ()
    | .progressive deckId =>
      PostgresPublisher.updateGenerationState deckId (some generationInput)
  Prog.perform (.await .translateLabels)
  let built ← gather target concepts.length (concepts.map fun concept ↦ { concept })
  match target with
    | .atomic _ => pure ()
    | .progressive deckId => PostgresPublisher.updateGenerationState deckId none
  let decoyUuids ← assignDecoys built
  target.finish generationInput built decoyUuids o.final

/-- The `try` statement of `build_deck`. -/
def buildAttempt (o : BuildOrder) (target : Target) : Build Unit :=
  match selectedConcepts o.cards o.concepts o.shuffled with
  | .error e => Prog.raise (.concept e)
  | .ok concepts => buildCards o target concepts

/-- `except Exception`: mark the deck failed, if it was provided, and raise again. -/
def markFailedAndRaise {α : Type} (deckId : Option Uuid) (e : DeckError) : Build α := do
  match deckId with
    | none => pure ()
    | some deckId =>
      swallow (PostgresPublisher.markFailed deckId ("generation failed: ".toList ++ e.typeName))
  Prog.raise e

/-- `build_deck` once its arguments have been checked. -/
def buildInto (o : BuildOrder) (target : Target) : Build Unit := do
  Prog.perform (.await .prepare)
  (buildAttempt o target).tryCatch (markFailedAndRaise o.deckId)
  Prog.perform (.await .report)

/-- `build_deck` with an answer of `resolve_region_context`. -/
def buildFor (o : BuildOrder) (target : Target) : Build Unit :=
  match resolveRegionContext o.region with
  | .error e => Prog.raise (.concept e)
  | .ok _ => buildInto o target

/-- `build_deck` -/
def buildDeck (o : BuildOrder) : Build Unit :=
  match o.progressive, o.deckId with
  | true, none => Prog.raise (.valueError "progressive mode requires an existing deck_id")
  | true, some deckId => buildFor o (.progressive deckId)
  | false, deckId => buildFor o (.atomic deckId)

/-- The arguments of `build_deck_from_prompt`. -/
structure PromptOrder where
  /-- The region, stripped and in lower case. -/
  region : Text
  prompt : Text
  cardCount : ℕ
  deckId : Uuid
  final : FinalStatus := .ready

/-- What `build_deck_from_prompt` stores before there are concepts. -/
def PromptOrder.document (o : PromptOrder) : Json :=
  .obj [("region".toList, .str o.region), ("prompt".toList, .str o.prompt),
    ("card_count".toList, .num (Json.Number.ofNat o.cardCount)),
    ("source".toList, .str "prompt".toList), ("concepts".toList, .arr [])]

/-- The build `build_deck_from_prompt` goes on with. -/
def PromptOrder.order (o : PromptOrder) (concepts : List Concept) : BuildOrder where
  region := o.region
  concepts := some concepts
  deckId := some o.deckId
  final := o.final
  progressive := true
  generationSource := some "prompt".toList
  promptTheme := some o.prompt

/-- The `try` statement of `build_deck_from_prompt`. -/
def inventAttempt (o : PromptOrder) : Build (List Concept) := do
  PostgresPublisher.updateGenerationState o.deckId (some o.document)
  -- the number of cards is checked before the region, with the same type of exception
  match resolveRegionContext o.region with
  | .error e => Prog.raise (.concept e)
  | .ok _ => Prog.perform (.inventConcepts o.cardCount)

/-- `build_deck_from_prompt` -/
def buildDeckFromPrompt (o : PromptOrder) : Build Unit := do
  Prog.perform (.await .prepare)
  let concepts ← (inventAttempt o).tryCatch (markFailedAndRaise (some o.deckId))
  buildDeck (o.order concepts)

/-! ## Background tasks -/

namespace DeckAdminService

/-- The `try` statement that `run_generation` and `run_prompt_generation` share. -/
def guarded (deckId : Uuid) (generate : Build Unit) : Build Unit :=
  generate.tryCatch fun e ↦ Prog.perform (.commit (.adminMarkFailed deckId
    (("Generation failed (".toList ++ e.typeName ++ ")".toList).take 500)))

/-- The build `DeckgenGateway.generate` asks for. -/
def order (deckId : Uuid) (request : AdminDeckGenerateRequest) (concepts : List Concept) :
    BuildOrder where
  region := request.regionTag
  concepts := some concepts
  deckId := some deckId
  final := .ready

/-- `DeckgenGateway.generate` -/
def generate (deckId : Uuid) (request : AdminDeckGenerateRequest) : Build Unit :=
  match request.toConcepts with
  | .error e => Prog.raise (.concept e)
  | .ok concepts => do
    buildDeck (order deckId request concepts)
    Prog.perform (.await .report)

/-- `run_generation` -/
def runGeneration (deckId : Uuid) (request : AdminDeckGenerateRequest) : Build Unit :=
  guarded deckId (generate deckId request)

/-- `run_prompt_generation` -/
def runPromptGeneration (o : PromptOrder) : Build Unit :=
  guarded o.deckId do
    buildDeckFromPrompt { o with final := .ready }
    Prog.perform (.await .report)

end DeckAdminService

/-! ## The system -/

/-- What goes on. -/
inductive Commission
  /-- `start_generation` or `start_prompt_generation`: a generating deck is created. -/
  | startGeneration (generationInput : Json)
  /-- The background task of a request with concepts. -/
  | runGeneration (deckId : Uuid) (request : AdminDeckGenerateRequest)
  /-- The background task of a request with a theme. -/
  | runPromptGeneration (o : PromptOrder)
  /-- An admin activates a deck. -/
  | activate (deckId : Uuid)
  /-- `build_deck` on its own, as from the command line. -/
  | build (o : BuildOrder)
  | buildFromPrompt (o : PromptOrder)

/-- The program of a commission. -/
def Commission.body : Commission → Build Unit
  | .startGeneration generationInput => do
    let _ ← Prog.perform (.createGenerating generationInput)
    return ()
  | .runGeneration deckId request => DeckAdminService.runGeneration deckId request
  | .runPromptGeneration o => DeckAdminService.runPromptGeneration o
  | .activate deckId => do
    let _ ← Prog.perform (.activate deckId)
    return ()
  | .build o => buildDeck o
  | .buildFromPrompt o => buildDeckFromPrompt o

/-- The tables have their primary keys, and no identifier in use is given out again. -/
structure Studio.Opening (s : Studio) : Prop where
  deckIds : Tables.Unique DeckRecord.id s.db.decks
  cardIds : Tables.Unique CardRow.id s.db.cards
  issuedDecks : ∀ d ∈ s.db.decks, d.id ∈ s.issued
  issuedCards : ∀ c ∈ s.db.cards, c.id ∈ s.issued

/-- **Builds, activations and background tasks, interleaved.** -/
def workshop (jsonb : Json.Store) :
    System DeckOp DeckError DeckDraw Studio Commission Unit where
  exec d op s := op.exec jsonb d s
  admits d s := decide (d.uuid ∉ s.issued)
  body := Commission.body
  init := Studio.Opening

end Neva.Deckgen
