import Neva.Calls.Histories
import Neva.Deckgen.Build
import Neva.Deckgen.Translation

/-!
# The images of a deck

`generate_verified_image` of `deckgen/pipeline.py` asks one model for an image of a concept and
another whether the image will do, again and again until it does or the attempts are used up.
`build_deck` runs one task for each concept: `_build_one`, which gets the image, gives the card its
identifier and, when cards are shown as they come, has it stored.

The tasks share the counters of `DeckMetrics`, the slots of the image semaphore and the cards stored
so far, of which an earlier build may have left some in the deck; and each of their calls may find
the others anywhere.  `cardTasks` is the
system they make up.  What a model answers is drawn at the call, and any call may raise.

`ImageBuild.tasks` is the run of the tasks, from the labels on, and `ImageBuild.result` what
`build_deck` returns after it, for a build in which nothing went wrong.
-/

set_option autoImplicit false

namespace Neva.Deckgen

open Calls

/-! ## Metrics -/

/-- The counters of `DeckMetrics`. -/
structure DeckMetrics where
  imagesAttempted : ℤ := 0
  imagesAccepted : ℤ := 0
  imagesRejected : ℤ := 0
  flashCalls : ℤ := 0
  deriving DecidableEq, Repr

namespace DeckMetrics

/-- `record_image_attempt` -/
def recordImageAttempt (m : DeckMetrics) : DeckMetrics :=
  { m with imagesAttempted := m.imagesAttempted + 1 }

/-- `record_accept` -/
def recordAccept (m : DeckMetrics) : DeckMetrics :=
  { m with imagesAccepted := m.imagesAccepted + 1 }

/-- `record_reject` -/
def recordReject (m : DeckMetrics) : DeckMetrics :=
  { m with imagesRejected := m.imagesRejected + 1 }

/-- `record_flash_call` -/
def recordFlashCall (m : DeckMetrics) : DeckMetrics := { m with flashCalls := m.flashCalls + 1 }

end DeckMetrics

/-- What is recorded in the metrics. -/
inductive Counter
  | imageAttempt
  | accept
  | reject
  | flashCall
  deriving DecidableEq, Repr

/-- The method that records it. -/
def Counter.record : Counter → DeckMetrics → DeckMetrics
  | imageAttempt => DeckMetrics.recordImageAttempt
  | accept => DeckMetrics.recordAccept
  | reject => DeckMetrics.recordReject
  | flashCall => DeckMetrics.recordFlashCall

/-! ## Verdicts -/

/-- What Python makes of JSON values. -/
structure Evaluation extends Reading where
  /-- `n == 0` -/
  isZero : Json.Number → Bool

/-- `bool` -/
def Evaluation.bool (py : Evaluation) : Json → Bool
  | .null => false
  | .bool b => b
  | .num n => !py.isZero n
  | .str s => !s.isEmpty
  | .arr items => !items.isEmpty
  | .obj members => !members.isEmpty

/-- `result.get("verdict") == "pass"` -/
def isPass (members : List (Text × Json)) : Bool :=
  match Json.lookup members "verdict".toList with
  | some (.str verdict) => verdict == "pass".toList
  | _ => false

/-- `verification_accepted`.  Without a `cultural_ok` the image is not rejected for it. -/
def verificationAccepted (py : Evaluation) (members : List (Text × Json)) : Bool :=
  isPass members && (Json.lookup members "depicts_label".toList).any py.bool &&
    !(Json.lookup members "has_text".toList).any py.bool &&
    (Json.lookup members "cultural_ok".toList).all py.bool

/-! ## The interface -/

/-- `deckgen.client.GeneratedImage`, without what is computed from the data for the log. -/
structure GeneratedImage where
  data : List UInt8
  mimeType : Text
  deriving DecidableEq

/-- What `format_image_prompt` fills in. -/
structure ImagePrompt where
  concept : Concept
  regionContext : Text
  /-- The clause that emphasises the region is there. -/
  strengthenRegion : Bool
  deriving DecidableEq

/-- What is filled in to `VERIFY_IMAGE_PROMPT`. -/
structure VerifyPrompt where
  labelEn : Text
  regionContext : Text
  deriving DecidableEq

/-- `deckgen.publish.CardRecord` -/
structure CardRecord where
  cardId : Uuid
  conceptId : Text
  imageBytes : List UInt8
  labelCommon : Labels
  decoyCardIds : List Text := []
  verified : Bool := true
  deriving DecidableEq

/-- The calls of a card task. -/
inductive CardOp : Type → Type
  /-- Entering `async with image_semaphore`. -/
  | acquireImage : CardOp Unit
  /-- Leaving it. -/
  | releaseImage : CardOp Unit
  | generateImage (prompt : ImagePrompt) : CardOp GeneratedImage
  /-- `generate_json` of the operation `verify_image`. -/
  | verifyImage (prompt : VerifyPrompt) (imageBytes : List UInt8) (imageMimeType : Text) :
    CardOp Json
  | record (what : Counter) : CardOp Unit
  | uuid4 : CardOp Uuid
  /-- Entering `async with persist_lock`. -/
  | lockPersist : CardOp Unit
  /-- Leaving it. -/
  | unlockPersist : CardOp Unit
  | persistedCount : CardOp ℕ
  | setPersistedCount (count : ℕ) : CardOp Unit
  /-- `pub.persist_card` -/
  | persistCard (card : CardRecord) (cardsReady : ℕ) : CardOp Unit

/-- What a card task raises. -/
inductive CardError
  /-- `verify_image expected dict` -/
  | typeError
  /-- Image verification failed for a concept, after so many attempts. -/
  | runtimeError (conceptId : Text) (attempts : ℕ) (lastReason : Text)
  | keyError (conceptId : Text)
  /-- What a call raises. -/
  | raised (typeName : Text)
  deriving DecidableEq, Repr

/-! ## Tasks -/

/-- A part of a card task. -/
abbrev CardTask (α : Type) : Type 1 := Prog CardOp CardError α

/-- `IMAGE_MIME_TYPE` -/
def imageMimeType : Text := "image/png".toList

/-- `MAX_IMAGE_RETRIES` -/
def maxImageRetries : ℕ := 2

/-- `PROMPT_MAX_IMAGE_RETRIES` -/
def promptMaxImageRetries : ℕ := 4

/-- `IMAGE_GENERATION_CONCURRENCY` -/
def imageGenerationConcurrency : ℕ := 4

/-- `a or b`, for two texts of which the first may be missing. -/
def textOr (a : Option Text) (b : Text) : Text :=
  match a with
  | none | some [] => b
  | some (c :: rest) => c :: rest

/-- `client.generate_image`, in a slot of the image semaphore if there is one. -/
def generateImage (semaphore : Bool) (prompt : ImagePrompt) : CardTask GeneratedImage :=
  if semaphore then do
    Prog.perform .acquireImage
    (Prog.perform (.generateImage prompt)).ensuring .releaseImage
  else Prog.perform (.generateImage prompt)

/-- The loop of `generate_verified_image`, with the attempts that are left. -/
def verifiedAttempts (py : Evaluation) (concept : Concept) (regionContext : Text) (attempts : ℕ)
    (semaphore : Bool) : ℕ → Bool → Text → CardTask (List UInt8)
  | 0, _, lastReason => Prog.raise (.runtimeError concept.id attempts lastReason)
  | left + 1, strengthen, _ => do
    let image ← generateImage semaphore ⟨concept, regionContext, strengthen⟩
    Prog.perform (.record .imageAttempt)
    let verdict ← Prog.perform (.verifyImage ⟨concept.labelEn, regionContext⟩ image.data
      (textOr (some image.mimeType) imageMimeType))
    Prog.perform (.record .flashCall)
    match verdict with
    | .obj members =>
      if verificationAccepted py members then do
        Prog.perform (.record .accept)
        return image.data
      else do
        Prog.perform (.record .reject)
        -- any reject strengthens the next attempt
        verifiedAttempts py concept regionContext attempts semaphore left true
          (py.str ((Json.lookup members "reason".toList).getD (.str "rejected".toList)))
    | _ => Prog.raise .typeError

/-- `generate_verified_image` -/
def generateVerifiedImage (py : Evaluation) (concept : Concept) (regionContext : Text)
    (maxRetries : ℕ) (semaphore : Bool) : CardTask (List UInt8) :=
  verifiedAttempts py concept regionContext (maxRetries + 1) semaphore (maxRetries + 1) false
    "unknown".toList

/-- `deckgen.pipeline.BuiltCard`, with its image and labels. -/
structure PicturedCard extends BuiltCard where
  imageBytes : List UInt8
  labels : Labels
  decoyConceptIds : List Text := []
  deriving DecidableEq

/-- The record of a card, with the decoys it is given. -/
def PicturedCard.record (card : PicturedCard) (decoyCardIds : List Text) : CardRecord where
  cardId := card.cardId
  conceptId := card.concept.id
  imageBytes := card.imageBytes
  labelCommon := card.labels
  decoyCardIds := decoyCardIds

/-- What the tasks of a build read and never change. -/
structure Surroundings where
  regionContext : Text
  generationSource : Option Text
  progressive : Bool
  /-- `translated` -/
  translated : List (Text × Labels)

/-- The region an image is for: that of the concept, if it has one. -/
def Surroundings.regionFor (b : Surroundings) (concept : Concept) : Text :=
  textOr concept.locale b.regionContext

/-- The retries an image is allowed. -/
def Surroundings.maxRetries (b : Surroundings) : ℕ :=
  if b.generationSource = some "prompt".toList then promptMaxImageRetries else maxImageRetries

/-- The card is stored, and counted. -/
def persist (card : PicturedCard) : CardTask Unit := do
  Prog.perform .lockPersist
  Prog.ensuring
    (do
      let count ← Prog.perform .persistedCount
      Prog.perform (.persistCard (card.record []) (count + 1))
      Prog.perform (.setPersistedCount (count + 1)))
    .unlockPersist

/-- `_build_one` -/
def buildOne (py : Evaluation) (b : Surroundings) (concept : Concept) : CardTask PicturedCard := do
  let imageBytes ← generateVerifiedImage py concept (b.regionFor concept) b.maxRetries true
  let cardId ← Prog.perform .uuid4
  match Dict.get b.translated concept.id with
  | none => Prog.raise (.keyError concept.id)
  | some labels => do
    let card : PicturedCard := ⟨⟨cardId, concept⟩, imageBytes, labels, []⟩
    if b.progressive then persist card
    return card

/-! ## The system -/

/-- What the tasks of a build share. -/
structure CardState where
  metrics : DeckMetrics
  /-- The slots of the semaphore that are free. -/
  imageSlots : ℕ := imageGenerationConcurrency
  persistLocked : Bool := false
  persistedCount : ℕ := 0
  /-- The cards of the deck that are stored. -/
  stored : List CardRecord := []
  /-- The metrics stored with the last of them, with `cards_ready`. -/
  progress : Option (DeckMetrics × ℕ) := none

/-- What a call is handed from outside. -/
structure CardDraw where
  image : GeneratedImage := ⟨[], []⟩
  verdict : Json := .null
  uuid : Uuid := 0

/-- `persist_card`, on the cards of the deck.  A concept that has a card does not get another. -/
def storeCard (stored : List CardRecord) (card : CardRecord) : List CardRecord :=
  if card.conceptId ∈ stored.map CardRecord.conceptId then stored else stored ++ [card]

/-- What a call answers and what it leaves behind. -/
def CardOp.exec {β : Type} (d : CardDraw) : CardOp β → CardState → Except CardError β × CardState
  | .acquireImage, s => (.ok (), { s with imageSlots := s.imageSlots - 1 })
  | .releaseImage, s => (.ok (), { s with imageSlots := s.imageSlots + 1 })
  | .generateImage _, s => (.ok d.image, s)
  | .verifyImage _ _ _, s => (.ok d.verdict, s)
  | .record what, s => (.ok (), { s with metrics := what.record s.metrics })
  | .uuid4, s => (.ok d.uuid, s)
  | .lockPersist, s => (.ok (), { s with persistLocked := true })
  | .unlockPersist, s => (.ok (), { s with persistLocked := false })
  | .persistedCount, s => (.ok s.persistedCount, s)
  | .setPersistedCount count, s => (.ok (), { s with persistedCount := count })
  | .persistCard card cardsReady, s =>
    (.ok (), { s with stored := storeCard s.stored card, progress := some (s.metrics, cardsReady) })

/-- What a task may do, as the event loop has it: it waits for a slot, and for the lock. -/
def CardOp.ready {β : Type} : CardOp β → CardState → Bool
  | .acquireImage, s => decide (0 < s.imageSlots)
  | .lockPersist, s => !s.persistLocked
  | _, _ => true

/-- A configuration of the tasks of a build. -/
abbrev CardConfig : Type 1 := Config CardOp CardError Concept CardState PicturedCard

/-- **The tasks of a build, interleaved**, for a deck that has some cards already. -/
def cardTasks (py : Evaluation) (b : Surroundings) (m : DeckMetrics) (earlier : List CardRecord) :
    System CardOp CardError CardDraw CardState Concept PicturedCard where
  exec d op s := op.exec d s
  admits _ _ := true
  body := buildOne py b
  init s := s = { metrics := m, stored := earlier }

/-- The event loop of the tasks. -/
def eventLoop : Terms CardOp CardError CardDraw Concept CardState where
  may _ op _ w := op.ready w.state = true
  lose _ _ := True

instance (β : Type) (i : ℕ) (op : CardOp β) (d : CardDraw)
    (w : World CardOp CardError Concept CardState) : Decidable (eventLoop.may i op d w) :=
  inferInstanceAs (Decidable (_ = _))

instance (i : ℕ) (w : World CardOp CardError Concept CardState) : Decidable (eventLoop.lose i w) :=
  inferInstanceAs (Decidable True)

/-! ## A build -/

/-- What happens next, once the tasks have been created. -/
inductive CardEvent
  /-- Task `i` makes its next call. -/
  | step (i : ℕ) (d : CardDraw)
  /-- The next call of task `i` raises. -/
  | fault (i : ℕ) (e : CardError)

def CardEvent.event : CardEvent → Event Concept CardDraw CardError
  | step i d => .step i d
  | fault i e => .fault i e

/-- The arguments of `build_deck`, with the context its region has been resolved to. -/
structure ImageBuild where
  order : BuildOrder
  regionContext : Text
  initialMetrics : Option DeckMetrics := none
  /-- The cards an earlier build has left in the deck. -/
  earlier : List CardRecord := []

/-- `initial_metrics or DeckMetrics()` -/
def ImageBuild.metrics (b : ImageBuild) : DeckMetrics := b.initialMetrics.getD {}

/-- What the tasks of the build read. -/
def ImageBuild.surroundings (b : ImageBuild) (translated : List (Text × Labels)) :
    Surroundings where
  regionContext := b.regionContext
  generationSource := b.order.generationSource
  progressive := b.order.progressive
  translated := translated

/-- What came of the tasks of a build. -/
structure TaskRun where
  concepts : List Concept
  translated : List (Text × Labels)
  config : CardConfig

/-- The labels are translated, the tasks are created, and run for a while.  Nothing if that does
not come to pass. -/
def ImageBuild.tasks (py : Evaluation) (seed : SeedLabels) (b : ImageBuild) (labelRows : Json)
    (events : List CardEvent) : Option TaskRun :=
  match selectedConcepts b.order.cards b.order.concepts b.order.shuffled with
  | .error _ => none
  | .ok concepts =>
    match translateLabelsBatch py.toReading seed concepts labelRows with
    | .error _ => none
    | .ok translated =>
      (((cardTasks py (b.surroundings translated) b.metrics.recordFlashCall b.earlier).runOn
        eventLoop.permits
        (System.start { metrics := b.metrics.recordFlashCall, stored := b.earlier })
        (concepts.map .spawn ++ events.map CardEvent.event))).map fun config ↦
          ⟨concepts, translated, config⟩

/-- The card of a task that has returned one. -/
def builtBy : Thread CardOp CardError PicturedCard → Option PicturedCard
  | .live (.done (.ok card)) => some card
  | _ => none

/-- `deckgen.pipeline.DeckBuildResult`, with the records of the cards the deck is published
with. -/
structure DeckBuildResult where
  cards : List PicturedCard
  metrics : DeckMetrics
  published : List CardRecord

/-- The decoys of a card. -/
def decoysOf (decoys : Mapping) (cardId : Uuid) : List Text :=
  (decoys.get? (uuidText cardId)).getD []

/-- `build_deck` after its tasks: nothing if one of them has not returned, if the answer of the
model that selects the decoys is refused, or if all cards are to be published at once and there is
a directory of earlier ones. -/
def ImageBuild.result (b : ImageBuild) (t : TaskRun) (decoyRows : List DecoyRow) :
    Option DeckBuildResult :=
  match t.config.threads.mapM builtBy with
  | none => none
  | some built =>
    match selectDecoysBatch (built.map PicturedCard.toBuiltCard) decoyRows with
    | .error _ => none
    | .ok decoyConcepts =>
      match mapDecoyConceptsToCardUuids (built.map PicturedCard.toBuiltCard) decoyConcepts with
      | .error _ => none
      | .ok decoyUuids =>
        if b.order.progressive = false ∧ b.earlier ≠ [] then none
        else some {
          cards := built.map fun card ↦
            { card with decoyConceptIds := decoysOf decoyConcepts card.cardId }
          metrics := t.config.world.state.metrics.recordFlashCall
          published :=
            if b.order.progressive then
              -- the decoys are filled in to what is stored
              t.config.world.state.stored.map fun record ↦
                { record with decoyCardIds := decoysOf decoyUuids record.cardId }
            else built.map fun card ↦ card.record (decoysOf decoyUuids card.cardId) }

/-! ## Looking at the calls -/

/-- The call records `what`. -/
def recorded (what : Counter) : Past CardOp CardError → Bool
  | ⟨.record what', _⟩ => decide (what' = what)
  | _ => false

/-- The call asks for an image. -/
def isImageCall : Past CardOp CardError → Bool
  | ⟨.generateImage _, _⟩ => true
  | _ => false

/-- The image the call has got, with the concept it was to show. -/
def generatedBy : Past CardOp CardError → Option (Concept × List UInt8)
  | ⟨.generateImage prompt, .ok image⟩ => some (prompt.concept, image.data)
  | _ => none

/-- The image the call has had verified, with what it was verified for, if it was accepted. -/
def acceptedBy (py : Evaluation) : Past CardOp CardError → Option (VerifyPrompt × List UInt8)
  | ⟨.verifyImage prompt imageBytes _, .ok (.obj members)⟩ =>
    if verificationAccepted py members then some (prompt, imageBytes) else none
  | _ => none

/-- The card the call has stored. -/
def persistedBy : Past CardOp CardError → Option CardRecord
  | ⟨.persistCard card _, _⟩ => some card
  | _ => none

end Neva.Deckgen
