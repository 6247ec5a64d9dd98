import Neva.Calls.Contract
import Neva.Game.Postgres
import Neva.Game.Memory
import Neva.Worker.Triage

/-!
# The venue

The game service of `app/game/service.py` against either store, together with what else writes the
same tables: the worker's `persist_triage` transactions and the status of the decks.

A request to `GameService` is a program over `VenueOp`; one call is one atomic step.  A store
method is one call.  So is the stretch of `upload_audio` that writes the upload, runs the audio
check on it and deletes it again when it is rejected: there is no `await` in it.

`venue` is the resulting `Calls.System`.  It starts with players and decks but nobody queued,
paired or playing.
-/

set_option autoImplicit false

namespace Neva

open Calls

/-! ## The interface -/

/-- What happens in one step besides a store method. -/
inductive SiteOp : Type → Type
  /-- Write the upload to `audio/<turn_id>.webm`, check it, and unlink it unless accepted. -/
  | saveAudio (turnId : Uuid) (payload : Bytes) : SiteOp AudioCheckResult
  /-- `GauntletRepository.get_turn_context` -/
  | getTurnContext (turnId : Uuid) : SiteOp (Option TurnRecord)
  /-- `GauntletRepository.persist_triage` -/
  | persistTriage (turnId : Uuid) (quality : Quality)
      (ownership : Option (Uuid × AcousticFingerprint)) : SiteOp Quality
  /-- A change of `decks.status`. -/
  | setDeckStatus (deckId : Uuid) (status : DeckStatus) : SiteOp Unit

/-- Everything that happens in one step. -/
inductive VenueOp (β : Type) : Type
  | store (op : GameStoreOp β)
  | site (op : SiteOp β)

/-- What a service method answers. -/
inductive Reply
  /-- `{"status": "queued"}` -/
  | queued
  /-- `{"status": "matched"}` -/
  | matched
  /-- `{"status": "ok"}` -/
  | ok
  /-- `AudioUploadResponse(status="re_record", reason=…)` -/
  | reRecord (reason : Option ReRecordReason)
  deriving DecidableEq, Repr

/-- The word for a status that an error message uses. -/
def TurnStatus.word : TurnStatus → String
  | .awaitingAudio => "awaiting_audio"
  | .awaitingLabelConfirm => "awaiting_label_confirm"
  | .awaitingGuess => "awaiting_guess"
  | .scored => "scored"

/-! ## The service methods -/

namespace GameService

variable (cfg : GameFeatureConfig) (roundsCap : ℤ)

/-- Call a method of `self.store`. -/
def store {β : Type} (op : GameStoreOp β) : Prog VenueOp Failure β := Prog.perform (.store op)

/-- `raise GameError(409, detail)` -/
def conflict {α : Type} (detail : String) : Prog VenueOp Failure α :=
  Prog.raise (.gameError 409 detail)

/-- `request_pair` -/
def requestPair (player : Uuid) : Prog VenueOp Failure Reply := do
  let stats ← store (.playerStats player)
  if roundsCap ≤ stats.roundsPlayed then conflict "session round cap reached"
  else do
    let existing ← store (.getActivePair player)
    match existing with
    | some _ => return .matched
    | none => do
      store (.enqueuePlayer player)
      let pair ← store (.tryMatch player)
      return if pair.isSome then .matched else .queued

/-- `_require_speaker_turn` -/
def requireSpeakerTurn (player : Uuid) (expectedStatus : TurnStatus) :
    Prog VenueOp Failure TurnRecord := do
  let pair ← store (.getActivePair player)
  match pair with
  | none => conflict "not paired"
  | some pair => do
    let turn ← store (.getLatestTurn pair.id)
    match turn with
    | none => conflict "no active turn"
    | some turn =>
      if turn.speakerId ≠ player then conflict "not the speaker for this turn"
      else if turn.status ≠ expectedStatus then conflict s!"turn is not {expectedStatus.word}"
      else return turn

/-- `upload_audio` -/
def uploadAudio (player : Uuid) (payload : Bytes) : Prog VenueOp Failure Reply :=
  if cfg.maxAudioBytes < payload.length then return .reRecord (some .tooLarge)
  else do
    let turn ← requireSpeakerTurn player .awaitingAudio
    let result ← Prog.perform (.site (.saveAudio turn.id payload))
    if !result.accepted then return .reRecord result.reason
    else do
      let _ ← store (.acceptAudio turn.id (.webm turn.id) (result.durationS.getD 0))
      let _ ← store (.enqueueJob .triage turn.id)
      return .ok

/-- `confirm_label` -/
def confirmLabel (player : Uuid) : Prog VenueOp Failure Reply := do
  let turn ← requireSpeakerTurn player .awaitingLabelConfirm
  let _ ← store (.confirmLabel turn.id)
  return .ok

/-- The second half of `_after_scored`: complete the pair at the cap, or start the next turn with
the roles swapped. -/
def advance (turn : TurnRecord) : Prog VenueOp Failure Reply := do
  let capped ← store (.completePairIfCapped turn.pairId roundsCap)
  if capped then return .ok
  else do
    let card ← store (.pickCardForPair turn.pairId)
    match card with
    | none => return .ok
    | some card => do
      let _ ← store (.createTurn turn.pairId turn.guesserId turn.speakerId card.id)
      return .ok

/-- `_after_scored` -/
def afterScored (turn : TurnRecord) : Prog VenueOp Failure Reply := do
  let fresh ← store (.getTurn turn.id)
  if (fresh.bind TurnRecord.quality).isSome then do
    let _ ← store (.enqueueJob .package turn.id)
    advance roundsCap turn
  else advance roundsCap turn

/-- `guess` -/
def guess (player optionId : Uuid) : Prog VenueOp Failure Reply := do
  let pair ← store (.getActivePair player)
  match pair with
  | none => conflict "not paired"
  | some pair => do
    let turn ← store (.getLatestTurn pair.id)
    match turn with
    | none => conflict "not the guesser for this turn"
    | some turn =>
      if turn.guesserId ≠ player then conflict "not the guesser for this turn"
      else if turn.status ≠ .awaitingGuess then conflict "turn is not awaiting a guess"
      else do
        let updated ← store (.applyGuess turn.id (optionId == turn.cardId))
        if updated.status = .scored then afterScored roundsCap updated
        else return .ok

end GameService

/-- The two ends of `GauntletService._triage`: load the turn, and store the result for it and its
speaker.  The transcoding, the fingerprint and the model's answer that lie in between are the
arguments. -/
def GauntletService.triage (turnId : Uuid) (quality : Quality)
    (fingerprint : Option AcousticFingerprint) : Prog VenueOp Failure Reply := do
  let context ← Prog.perform (.site (.getTurnContext turnId))
  match context with
  | none => Prog.raise .lookupError
  | some turn => do
    let _ ← Prog.perform (.site (.persistTriage turn.id quality
      (fingerprint.map fun fp ↦ (turn.speakerId, fp))))
    return .ok

/-! ## The system -/

/-- Which implementation of `GameStore` is in use. -/
inductive Backend
  | postgres
  | memory
  deriving DecidableEq, Repr

/-- How a venue is configured. -/
structure Setup where
  backend : Backend := .postgres
  cfg : GameFeatureConfig := {}
  limits : GauntletLimits := {}
  roundsCap : ℤ := 20
  probes : Probes

/-- The shared state: the database and the files below `data/audio`. -/
structure Venue where
  db : Db
  files : AudioPath → Option Bytes

/-- What arrives. -/
inductive Request
  | requestPair (player : Uuid)
  | uploadAudio (player : Uuid) (payload : Bytes)
  | confirmLabel (player : Uuid)
  | guess (player optionId : Uuid)
  /-- A pair is completed, whatever the cap it is held to. -/
  | completePair (pairId : Uuid) (roundsCap : ℤ)
  /-- A triage job of the worker. -/
  | triage (turnId : Uuid) (quality : Quality) (fingerprint : Option AcousticFingerprint)
  | setDeckStatus (deckId : Uuid) (status : DeckStatus)

/-- The request is one of the four methods a client calls. -/
def Request.isClient : Request → Bool
  | .requestPair _ | .uploadAudio _ _ | .confirmLabel _ | .guess _ _ => true
  | _ => false

variable (su : Setup)

namespace Backend

/-- The store behind `self.store`. -/
def exec {β : Type} (b : Backend) (cfg : GameFeatureConfig) (d : Draw) (op : GameStoreOp β)
    (db : Db) : Except Failure β × Db :=
  match b with
  | postgres => Postgres.exec cfg d op db
  | memory => Memory.exec cfg d op db

/-- A duration as the store keeps it. -/
def keepDuration (b : Backend) (x : ℚ) : ℚ :=
  match b with
  | postgres => Postgres.numeric52 x
  | memory => x

end Backend

/-- The audio check, run on the bytes of an upload. -/
def Setup.check (su : Setup) (d : Draw) (payload : Bytes) : AudioCheckResult :=
  checkAudioFile su.cfg (if d.ffprobeTimesOut then none else su.probes.duration payload)
    (if d.ffmpegTimesOut then none else su.probes.meanVolume payload)

/-- `UPDATE decks SET status = … WHERE id = $1` -/
def Db.setDeckStatus (db : Db) (deckId : Uuid) (status : DeckStatus) : Db :=
  { db with decks := db.decks.map fun r ↦ if r.id = deckId then { r with status := status } else r }

/-- What the other steps answer and leave behind. -/
def SiteOp.exec {β : Type} (d : Draw) : SiteOp β → Venue → Except Failure β × Venue
  | .saveAudio turnId payload, v =>
    let result := su.check d payload
    (.ok result, { v with
      files := Function.update v.files (.webm turnId)
        (if result.accepted then some payload else none) })
  | .getTurnContext turnId, v => (.ok (Repository.getTurnContext v.db turnId), v)
  | .persistTriage turnId quality ownership, v =>
    let (r, db) := Repository.persistTriage su.limits v.db d turnId (.flac turnId) quality ownership
    (r, { v with db := db })
  | .setDeckStatus deckId status, v => (.ok (), { v with db := v.db.setDeckStatus deckId status })

/-- What one step answers and leaves behind. -/
def VenueOp.exec {β : Type} (d : Draw) : VenueOp β → Venue → Except Failure β × Venue
  | .store op, v =>
    let (r, db) := su.backend.exec su.cfg d op v.db
    (r, { v with db := db })
  | .site op, v => op.exec su d v

/-- The program that answers a request. -/
def Request.body : Request → Prog VenueOp Failure Reply
  | .requestPair player => GameService.requestPair su.roundsCap player
  | .uploadAudio player payload => GameService.uploadAudio su.cfg player payload
  | .confirmLabel player => GameService.confirmLabel player
  | .guess player optionId => GameService.guess su.roundsCap player optionId
  | .completePair pairId roundsCap => do
    let _ ← GameService.store (.completePairIfCapped pairId roundsCap)
    return .ok
  | .triage turnId quality fingerprint => GauntletService.triage turnId quality fingerprint
  | .setDeckStatus deckId status => do
    Prog.perform (.site (.setDeckStatus deckId status))
    return .ok

/-- A venue that has just opened: players have joined and there may be decks, but nobody is
queued or paired. -/
structure Venue.Opening (v : Venue) : Prop where
  players : (v.db.players.map PlayerRecord.id).Nodup
  queue : v.db.queue = []
  pairs : v.db.pairs = []
  turns : v.db.turns = []
  jobs : v.db.jobs = []
  fingerprints : v.db.fingerprints = []

/-- The venue as a system of interleaved requests.  Random identifiers never repeat. -/
def venue : System VenueOp Failure Draw Venue Request Reply where
  exec d op v := op.exec su d v
  admits d v := v.db.fresh d.uuid && v.db.fresh d.uuid' && d.uuid != d.uuid'
  body := Request.body su
  init := Venue.Opening

/-! ## A venue to run

Three players, a deck of one card, and uploads that last as many seconds as they have bytes. -/

def threePlayers : Venue where
  db :=
    { players := [⟨1, ['a'], ['a', 's'], [['e', 'n']]⟩, ⟨2, ['b'], ['h', 'i'], [['e', 'n']]⟩,
        ⟨3, ['c'], ['t', 'a'], [['e', 'n']]⟩]
      queue := [], pairs := [], decks := [⟨0, .live⟩], cards := [⟨0, 0, true⟩]
      turns := [], jobs := [], fingerprints := [] }
  files := fun _ ↦ none

theorem opening_threePlayers : threePlayers.Opening := ⟨by decide, rfl, rfl, rfl, rfl, rfl⟩

def defaultSetup : Setup where
  probes := ⟨fun payload ↦ some payload.length, fun _ ↦ some (-10)⟩

/-- What the `n`-th call of a run reads from outside. -/
def Draw.nth (n : ℕ) : Draw where
  now := n
  uuid := 100 + 2 * n
  uuid' := 101 + 2 * n

/-- `count` calls of program `i`, the first of them the `n`-th of the run. -/
def calls (i n count : ℕ) : List (Event Request Draw Failure) :=
  (List.range count).map fun k ↦ .step i (.nth (n + k))

/-- Players 1 and 2 ask for a partner; the pair's first turn is 115, and player 1 speaks. -/
def pairUp : List (Event Request Draw Failure) :=
  .spawn (.requestPair 1) :: calls 0 0 4 ++ .spawn (.requestPair 2) :: calls 1 4 4

/-- Player 1 uploads two seconds and confirms the label. -/
def speak : List (Event Request Draw Failure) :=
  .spawn (.uploadAudio 1 [0, 0]) :: calls 2 8 5 ++ .spawn (.confirmLabel 1) :: calls 3 13 3

end Neva
