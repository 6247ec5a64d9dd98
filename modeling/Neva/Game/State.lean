import Neva.Game.Labels
import Neva.Game.Store
import Neva.Rendering
import Neva.Separated

/-!
# The player view

`app/game/state.py`: what `GET /api/state` answers, composed from the facts the store has fetched
for the player.  The text of a card belongs to two views only: the speaker reads it once the audio
has been accepted, and the guesser finds it among the options.

`no_label_leak` says so of the response as a whole.  Two bundles that differ in nothing but the
text of the card and of its decoys are answered alike, version included, except to those two, and
to those two they differ in nothing but that one field.

The shuffle seeded with the identifier of the turn and the checksum of the version are parameters.
-/

set_option autoImplicit false

namespace Neva

/-! ## The facts -/

/-- The knobs of `GameFeatureConfig` that only the player view reads. -/
structure StateConfig extends GameFeatureConfig where
  leaderboardStateTop : ℕ := 5
  /-- `result_hold_seconds`, in microseconds. -/
  resultHold : Time := 2500000
  turnDeadlineSeconds : Option ℤ := some 90
  deriving DecidableEq, Repr

/-- The columns of a `cards` row that the view of a turn is made of. -/
structure PictureCard where
  id : Uuid
  imagePath : Text
  labelCommon : LabelMap
  deriving DecidableEq

/-- `StateBundle`.  The keys of `decoy_labels` are identifiers of cards. -/
structure StateBundle where
  player : PlayerRecord
  queued : Bool
  pair : Option PairRecord
  partner : Option PlayerRecord
  turn : Option TurnRecord
  card : Option PictureCard
  previousScored : Option TurnRecord
  stats : PlayerStats
  leaderboardTop : List LeaderboardRow
  decoyLabels : List (Uuid × Text)
  deriving DecidableEq

/-! ## The response -/

structure PlayerState where
  nickname : Text
  score : ℕ
  rank : Option ℕ
  roundsPlayed : ℕ
  roundsCap : ℤ
  deriving DecidableEq, Repr

structure PairState where
  partnerNickname : Text
  commonLang : Text
  deriving DecidableEq, Repr

structure LabelState where
  text : Text
  deriving DecidableEq, Repr

structure OptionState where
  id : Uuid
  text : Text
  deriving DecidableEq, Repr

structure TurnState where
  role : Option Role
  cardImageUrl : Option Text := none
  label : Option LabelState := none
  options : Option (List OptionState) := none
  audioUrl : Option Text := none
  attemptsLeft : Option ℕ := none
  deadlineTs : Option ℤ
  deriving DecidableEq, Repr

structure RoundResult where
  outcome : TurnOutcome
  pointsDelta : ℕ
  message : String
  deriving DecidableEq, Repr

structure LeaderboardEntry where
  nickname : Text
  score : ℕ
  deriving DecidableEq, Repr

structure StateResponse where
  stateVersion : ℕ
  phase : Phase
  player : PlayerState
  pair : Option PairState
  turn : Option TurnState
  lastResult : Option RoundResult
  leaderboardTop : List LeaderboardEntry
  deriving DecidableEq, Repr

/-! ## The version -/

/-- The value of a `Phase`. -/
def Phase.value : Phase → Text
  | .onboarding => "onboarding".toList
  | .queued => "queued".toList
  | .speakingViewImage => "speaking_view_image".toList
  | .speakingConfirmLabel => "speaking_confirm_label".toList
  | .waitingPartner => "waiting_partner".toList
  | .guessing => "guessing".toList
  | .roundResult => "round_result".toList
  | .sessionDone => "session_done".toList

/-- The value of `turns.status`. -/
def TurnStatus.value : TurnStatus → Text
  | .awaitingAudio => "awaiting_audio".toList
  | .awaitingLabelConfirm => "awaiting_label_confirm".toList
  | .awaitingGuess => "awaiting_guess".toList
  | .scored => "scored".toList

/-- The arguments of `compute_state_version`. -/
structure VersionFields where
  phase : Phase
  playerId : Uuid
  pairId : Option Uuid
  turnId : Option Uuid
  turnStatus : Option TurnStatus
  attempts : ℕ
  score : ℕ
  rank : Option ℕ
  roundsPlayed : ℕ
  leaderboardTop : List LeaderboardRow
  queued : Bool
  deriving DecidableEq, Repr

/-- `f"{row.nickname}:{row.score}"` -/
def LeaderboardRow.text (row : LeaderboardRow) : Text :=
  row.nickname ++ ':' :: Nat.toDigits 10 row.score

/-- `leaderboard_fingerprint` -/
def leaderboardFingerprint (rows : List LeaderboardRow) : Text :=
  joinedBy ',' (rows.map LeaderboardRow.text)

/-- `str(rank or "")` -/
def rankText : Option ℕ → Text
  | none | some 0 => []
  | some rank => Nat.toDigits 10 rank

/-- The payload the version is the checksum of. -/
def VersionFields.payload (v : VersionFields) : Text :=
  joinedBy '|'
    [v.phase.value, uuidText v.playerId, (v.pairId.map uuidText).getD [],
      (v.turnId.map uuidText).getD [], (v.turnStatus.map TurnStatus.value).getD [],
      Nat.toDigits 10 v.attempts, Nat.toDigits 10 v.score, rankText v.rank,
      Nat.toDigits 10 v.roundsPlayed, leaderboardFingerprint v.leaderboardTop,
      if v.queued then ['1'] else ['0']]

section

variable (checksum : Text → ℕ) (shuffle : Text → List OptionState → List OptionState)
  (cfg : StateConfig) (roundsCap : ℤ) (now : Time) (b : StateBundle)

/-- `compute_state_version`; `checksum` is `zlib.crc32(payload.encode("utf-8")) & 0x7FFFFFFF`. -/
def computeStateVersion (v : VersionFields) : ℕ := checksum v.payload

/-! ## The parts of the view -/

/-- `_pair_state` -/
def pairState : Option PairState :=
  match b.pair, b.partner with
  | some pair, some partner => some ⟨partner.nickname, pair.commonLang⟩
  | _, _ => none

/-- `_board` -/
def board : List LeaderboardEntry := b.leaderboardTop.map fun row ↦ ⟨row.nickname, row.score⟩

/-- `_last_result` -/
def lastResult : Option RoundResult :=
  b.previousScored.map fun scored ↦
    match scored.outcome with
    | .validated => ⟨.validated, cfg.pointsPerValidation, "Nice! That pair is validated."⟩
    | .unclear => ⟨.unclear, 0, "No points this round — still useful for research."⟩
    | outcome => ⟨outcome, 0, "Round complete."⟩

/-- The seat of the viewer in the latest turn. -/
def viewerRole : Option Role :=
  b.turn.bind fun turn ↦
    if turn.speakerId = b.player.id then some .speaker
    else if turn.guesserId = b.player.id then some .guesser
    else none

/-- `_phase_for_turn` -/
def phaseForTurn (role : Option Role) : Phase :=
  match b.turn with
  | none => .waitingPartner
  | some turn =>
    -- hold the result briefly after the next turn is created
    if turn.status = .awaitingAudio ∧ b.previousScored.any (fun scored ↦ scored.id != turn.id) ∧
        now < turn.createdAt + cfg.resultHold then .roundResult
    else match turn.status with
      | .scored => .roundResult
      | .awaitingAudio => if role = some .speaker then .speakingViewImage else .waitingPartner
      | .awaitingLabelConfirm =>
        if role = some .speaker then .speakingConfirmLabel else .waitingPartner
      | .awaitingGuess => if role = some .guesser then .guessing else .waitingPartner

/-- `f"/media/{path.replace(chr(92), '/')}"` -/
def mediaUrl (path : Text) : Text :=
  "/media/".toList ++ path.map fun c ↦ if c = Char.ofNat 92 then '/' else c

/-- The correct option and the decoys, before they are shuffled. -/
def optionItems (card : PictureCard) (pair : PairRecord) : List OptionState :=
  ⟨card.id, resolveLabelText card.labelCommon pair.commonLang⟩ ::
    b.decoyLabels.map fun decoy ↦ ⟨decoy.1, decoy.2⟩

/-- `_turn_state`, for the turn and the pair there are. -/
def turnStateOf (role : Option Role) (phase : Phase) (turn : TurnRecord) (pair : PairRecord) :
    TurnState :=
  let deadlineTs := cfg.turnDeadlineSeconds.map fun s ↦ ((turn.createdAt / 1000000 : ℕ) : ℤ) + s
  if phase = .roundResult then { role := role, deadlineTs := deadlineTs }
  else
    let guessing := role = some .guesser ∧ turn.status = .awaitingGuess
    let imageUrl :=
      if role = some .speaker then b.card.map fun card ↦ mediaUrl card.imagePath else none
    let label :=
      if role = some .speaker ∧ phase = .speakingConfirmLabel then
        b.card.map fun card ↦ LabelState.mk (resolveLabelText card.labelCommon pair.commonLang)
      else none
    let audioUrl :=
      if guessing then b.card.bind fun _ ↦ turn.audioPath.map fun path ↦ mediaUrl path.text
      else none
    let options :=
      if guessing then b.card.map fun card ↦ shuffle (uuidText turn.id) (optionItems b card pair)
      else none
    let attemptsLeft :=
      if guessing then b.card.map fun _ ↦ cfg.maxGuessAttempts - turn.attempts else none
    if role = some .guesser ∧ turn.status ≠ .awaitingGuess then
      { role := role, deadlineTs := deadlineTs }
    else
      { role := role
        cardImageUrl := imageUrl
        label := label
        options := options
        audioUrl := audioUrl
        attemptsLeft := attemptsLeft
        deadlineTs := deadlineTs }

/-- `_turn_state` -/
def turnState (role : Option Role) (phase : Phase) : Option TurnState :=
  match b.turn, b.pair with
  | some turn, some pair => some (turnStateOf shuffle cfg b role phase turn pair)
  | _, _ => none

/-- What every response says of the player. -/
def playerState : PlayerState where
  nickname := b.player.nickname
  score := b.stats.score
  rank := b.stats.rank
  roundsPlayed := b.stats.roundsPlayed
  roundsCap := roundsCap

/-- The arguments every response passes to `compute_state_version`. -/
def versionFields (phase : Phase) (pair : Option PairRecord) (turn : Option TurnRecord)
    (queued : Bool) : VersionFields where
  phase := phase
  playerId := b.player.id
  pairId := pair.map PairRecord.id
  turnId := turn.map TurnRecord.id
  turnStatus := turn.map TurnRecord.status
  attempts := (turn.map TurnRecord.attempts).getD 0
  score := b.stats.score
  rank := b.stats.rank
  roundsPlayed := b.stats.roundsPlayed
  leaderboardTop := b.leaderboardTop
  queued := queued

/-- `compose_state_response` -/
def composeStateResponse : StateResponse :=
  if roundsCap ≤ b.stats.roundsPlayed ∨ b.pair.any (fun pair ↦ pair.status == .completed) then
    { stateVersion :=
      computeStateVersion checksum (versionFields b .sessionDone b.pair b.turn false)
      phase := .sessionDone
      player := playerState roundsCap b
      pair := pairState b
      turn := none
      lastResult := lastResult cfg b
      leaderboardTop := board b }
  else match b.pair with
    | none =>
      let phase := if b.queued then .queued else .onboarding
      { stateVersion := computeStateVersion checksum (versionFields b phase none none b.queued)
        phase := phase
        player := playerState roundsCap b
        pair := none
        turn := none
        lastResult := none
        leaderboardTop := board b }
    | some pair =>
      let role := viewerRole b
      let phase := phaseForTurn cfg now b role
      let turn := turnState shuffle cfg b role phase
      { stateVersion :=
        computeStateVersion checksum (versionFields b phase (some pair) b.turn false)
        phase := phase
        player := playerState roundsCap b
        pair := pairState b
        -- the hard guard: `speaking_view_image` never carries label text
        turn :=
          if phase = .speakingViewImage then turn.map fun t ↦ { t with label := none } else turn
        lastResult := if phase = .roundResult then lastResult cfg b else none
        leaderboardTop := board b }

end

/-! ## No label leaks

What a viewer may not see is erased from the bundle (`redacted`), and the response is compared with
the one composed from what is left. -/

/-- The bundle without the text of the card and of its decoys. -/
def StateBundle.redacted (b : StateBundle) : StateBundle :=
  { b with
    card := b.card.map fun card ↦ { card with labelCommon := .empty }
    decoyLabels := b.decoyLabels.map fun decoy ↦ (decoy.1, []) }

@[simp] theorem StateBundle.redacted_pair (b : StateBundle) : b.redacted.pair = b.pair := rfl
@[simp] theorem StateBundle.redacted_turn (b : StateBundle) : b.redacted.turn = b.turn := rfl
@[simp] theorem StateBundle.redacted_stats (b : StateBundle) : b.redacted.stats = b.stats := rfl

/-- The viewer is the speaker of the latest turn, and it awaits the confirmation of the label. -/
def StateBundle.Confirming (b : StateBundle) : Prop :=
  ∃ turn, b.turn = some turn ∧ turn.speakerId = b.player.id ∧ turn.status = .awaitingLabelConfirm

/-- The viewer is the guesser of the latest turn, and it awaits a guess. -/
def StateBundle.Guessing (b : StateBundle) : Prop :=
  ∃ turn, b.turn = some turn ∧ turn.guesserId = b.player.id ∧ turn.status = .awaitingGuess

namespace StateResponse

/-- Change what a response says of the turn. -/
def mapTurn (f : TurnState → TurnState) (r : StateResponse) : StateResponse :=
  { r with turn := r.turn.map f }

/-- The response less `turn.label`. -/
def withoutLabel : StateResponse → StateResponse := mapTurn fun t ↦ { t with label := none }

/-- The response less `turn.options`. -/
def withoutOptions : StateResponse → StateResponse := mapTurn fun t ↦ { t with options := none }

theorem mapTurn_id (r : StateResponse) : r.mapTurn id = r := by
  rw [mapTurn, Option.map_id_fun, id]

end StateResponse

section

variable {checksum : Text → ℕ} {shuffle : Text → List OptionState → List OptionState}
  {cfg : StateConfig} {roundsCap : ℤ} {now : Time} {b b' : StateBundle} {role : Option Role}
  {phase : Phase} {turn : TurnRecord} {pair : PairRecord}

theorem viewerRole_eq_speaker (hturn : b.turn = some turn) (h : viewerRole b = some .speaker) :
    turn.speakerId = b.player.id := by
  rw [viewerRole, hturn, Option.bind_some] at h
  split_ifs at h with hs hg
  · exact hs
  · simp at h

theorem viewerRole_eq_guesser (hturn : b.turn = some turn) (h : viewerRole b = some .guesser) :
    turn.guesserId = b.player.id := by
  rw [viewerRole, hturn, Option.bind_some] at h
  split_ifs at h with hs hg
  · simp at h
  · exact hg

/-- The label is up for confirmation only while the turn awaits it. -/
theorem status_of_phaseForTurn (hturn : b.turn = some turn)
    (h : phaseForTurn cfg now b role = .speakingConfirmLabel) :
    turn.status = .awaitingLabelConfirm := by
  rw [phaseForTurn, hturn] at h
  dsimp only at h
  split at h
  · simp at h
  · cases hs : turn.status with
    | awaitingLabelConfirm => rfl
    | scored => simp [hs] at h
    | awaitingAudio =>
      rw [hs] at h
      dsimp only at h
      split_ifs at h
    | awaitingGuess =>
      rw [hs] at h
      dsimp only at h
      split_ifs at h

/-- The turn looks the same without the texts to whoever is shown none of them. -/
theorem turnStateOf_redacted (hlabel : ¬(role = some .speaker ∧ phase = .speakingConfirmLabel))
    (hoptions : ¬(role = some .guesser ∧ turn.status = .awaitingGuess)) :
    turnStateOf shuffle cfg b role phase turn pair =
      turnStateOf shuffle cfg b.redacted role phase turn pair := by
  simp only [turnStateOf, if_neg hlabel, if_neg hoptions]
  simp [StateBundle.redacted, Function.comp_def]

/-- The speaker is shown the label and nothing else of the texts. -/
theorem turnStateOf_redacted_label
    (hoptions : ¬(role = some .guesser ∧ turn.status = .awaitingGuess)) :
    { turnStateOf shuffle cfg b role phase turn pair with label := none } =
      { turnStateOf shuffle cfg b.redacted role phase turn pair with label := none } := by
  simp only [turnStateOf, if_neg hoptions]
  split_ifs <;> simp [StateBundle.redacted, Function.comp_def]

/-- The guesser is shown the options and nothing else of the texts. -/
theorem turnStateOf_redacted_options
    (hlabel : ¬(role = some .speaker ∧ phase = .speakingConfirmLabel)) :
    { turnStateOf shuffle cfg b role phase turn pair with options := none } =
      { turnStateOf shuffle cfg b.redacted role phase turn pair with options := none } := by
  simp only [turnStateOf, if_neg hlabel]
  split_ifs <;> simp [StateBundle.redacted, Function.comp_def, Option.bind_map]

/-- Of the texts the response shows what the view of the turn shows. -/
theorem composeStateResponse_redacted {f : TurnState → TurnState}
    (hf : ∀ t, f { t with label := none } = { f t with label := none })
    (h : ∀ turn, b.turn = some turn → ∀ pair,
      f (turnStateOf shuffle cfg b (viewerRole b) (phaseForTurn cfg now b (viewerRole b)) turn
        pair) =
        f (turnStateOf shuffle cfg b.redacted (viewerRole b)
          (phaseForTurn cfg now b (viewerRole b)) turn pair)) :
    (composeStateResponse checksum shuffle cfg roundsCap now b).mapTurn f =
      (composeStateResponse checksum shuffle cfg roundsCap now b.redacted).mapTurn f := by
  by_cases hdone : roundsCap ≤ b.stats.roundsPlayed ∨
      b.pair.any (fun pair ↦ pair.status == .completed) = true
  · rw [composeStateResponse, if_pos hdone, composeStateResponse, StateBundle.redacted_stats,
      StateBundle.redacted_pair, if_pos hdone]
    rfl
  · rw [composeStateResponse, if_neg hdone, composeStateResponse, StateBundle.redacted_stats,
      StateBundle.redacted_pair, if_neg hdone]
    cases hpair : b.pair with
    | none => rfl
    | some pair =>
      have hturn : (turnState shuffle cfg b (viewerRole b)
          (phaseForTurn cfg now b (viewerRole b))).map f =
          (turnState shuffle cfg b.redacted (viewerRole b)
            (phaseForTurn cfg now b (viewerRole b))).map f := by
        rw [turnState, turnState, StateBundle.redacted_turn, StateBundle.redacted_pair, hpair]
        cases hturn : b.turn with
        | none => rfl
        | some turn => exact congrArg some (h turn hturn pair)
      have hguard : ∀ t t' : Option TurnState, t.map f = t'.map f →
          (t.map fun t ↦ { t with label := none }).map f =
            (t'.map fun t ↦ { t with label := none }).map f := by
        intro t t' heq
        simp only [Option.map_map, Function.comp_def, hf]
        have := congrArg (Option.map fun t : TurnState ↦ { t with label := none }) heq
        simpa only [Option.map_map, Function.comp_def] using this
      rw [StateResponse.mapTurn, StateResponse.mapTurn, StateResponse.mk.injEq]
      refine ⟨rfl, rfl, rfl, rfl, ?_, rfl, rfl⟩
      dsimp only
      show _ = Option.map f (if phaseForTurn cfg now b (viewerRole b) = .speakingViewImage then _
        else _)
      split
      · exact hguard _ _ hturn
      · exact hturn

/-- Whoever is neither to confirm nor to guess is shown none of the texts. -/
theorem composeStateResponse_of_neither (hc : ¬ b.Confirming) (hg : ¬ b.Guessing) :
    composeStateResponse checksum shuffle cfg roundsCap now b =
      composeStateResponse checksum shuffle cfg roundsCap now b.redacted := by
  have hsame : (composeStateResponse checksum shuffle cfg roundsCap now b).mapTurn id =
      (composeStateResponse checksum shuffle cfg roundsCap now b.redacted).mapTurn id :=
    composeStateResponse_redacted (fun _ ↦ rfl) fun turn hturn pair ↦ turnStateOf_redacted
      (fun h ↦ hc ⟨turn, hturn, viewerRole_eq_speaker hturn h.1, status_of_phaseForTurn hturn h.2⟩)
      (fun h ↦ hg ⟨turn, hturn, viewerRole_eq_guesser hturn h.1, h.2⟩)
  rwa [StateResponse.mapTurn_id, StateResponse.mapTurn_id] at hsame

/-- Who is to confirm is shown the label. -/
theorem composeStateResponse_of_confirming (hc : b.Confirming) :
    (composeStateResponse checksum shuffle cfg roundsCap now b).withoutLabel =
      (composeStateResponse checksum shuffle cfg roundsCap now b.redacted).withoutLabel := by
  obtain ⟨turn, hturn, -, hs⟩ := hc
  refine composeStateResponse_redacted (fun _ ↦ rfl) fun turn' hturn' pair ↦ ?_
  rw [hturn, Option.some.injEq] at hturn'
  subst hturn'
  refine turnStateOf_redacted_label fun h ↦ ?_
  rw [hs] at h
  exact absurd h.2 (by decide)

/-- Who is to guess is shown the options. -/
theorem composeStateResponse_of_guessing (hg : b.Guessing) :
    (composeStateResponse checksum shuffle cfg roundsCap now b).withoutOptions =
      (composeStateResponse checksum shuffle cfg roundsCap now b.redacted).withoutOptions := by
  obtain ⟨turn, hturn, -, hs⟩ := hg
  refine composeStateResponse_redacted (fun _ ↦ rfl) fun turn' hturn' pair ↦ ?_
  rw [hturn, Option.some.injEq] at hturn'
  subst hturn'
  refine turnStateOf_redacted_options fun h ↦ ?_
  have hconfirm := status_of_phaseForTurn hturn h.2
  rw [hs] at hconfirm
  exact absurd hconfirm (by decide)

end

/-- **No label leak.**  Two bundles that differ only in the texts are answered alike, unless the
viewer is to confirm the label or to guess; then the responses differ at most in the label, or in
the options. -/
theorem no_label_leak (checksum : Text → ℕ)
    (shuffle : Text → List OptionState → List OptionState) (cfg : StateConfig) (roundsCap : ℤ)
    (now : Time) {b b' : StateBundle} (h : b.redacted = b'.redacted) :
    let response := composeStateResponse checksum shuffle cfg roundsCap now
    (¬ b.Confirming → ¬ b.Guessing → response b = response b') ∧
      (b.Confirming → (response b).withoutLabel = (response b').withoutLabel) ∧
      (b.Guessing → (response b).withoutOptions = (response b').withoutOptions) := by
  intro response
  have hconfirming : b.Confirming ↔ b'.Confirming := by
    show b.redacted.Confirming ↔ b'.redacted.Confirming
    rw [h]
  have hguessing : b.Guessing ↔ b'.Guessing := by
    show b.redacted.Guessing ↔ b'.redacted.Guessing
    rw [h]
  refine ⟨fun hc hg ↦ ?_, fun hc ↦ ?_, fun hg ↦ ?_⟩
  · rw [show response b = response b.redacted from composeStateResponse_of_neither hc hg, h]
    exact (composeStateResponse_of_neither (hconfirming.not.mp hc) (hguessing.not.mp hg)).symm
  · rw [show (response b).withoutLabel = (response b.redacted).withoutLabel from
      composeStateResponse_of_confirming hc, h]
    exact (composeStateResponse_of_confirming (hconfirming.mp hc)).symm
  · rw [show (response b).withoutOptions = (response b.redacted).withoutOptions from
      composeStateResponse_of_guessing hg, h]
    exact (composeStateResponse_of_guessing (hguessing.mp hg)).symm

/-- Player 1 speaks, player 2 guesses, and the card shows what `text` says. -/
def cardOnTable (viewer : Uuid) (status : TurnStatus) (text : Text) : StateBundle where
  player := ⟨viewer, "Asha".toList, "as".toList, ["en".toList]⟩
  queued := false
  pair := some ⟨3, 1, 2, "en".toList, .active, 0⟩
  partner := some ⟨3 - viewer, "Ravi".toList, "hi".toList, ["en".toList]⟩
  turn := some { TurnRecord.initial 4 3 1 2 5 0 with status := status }
  card := some ⟨5, "images/5.png".toList, .single "en".toList text⟩
  previousScored := none
  stats := {}
  leaderboardTop := []
  decoyLabels := [(6, "spoon".toList)]

/-- While the speaker confirms, the guesser is answered alike whatever the card shows, and the
speaker but for the label. -/
theorem no_label_leak_confirming :
    let response := composeStateResponse List.length (fun _ options ↦ options) {} 20 0
    response (cardOnTable 2 .awaitingLabelConfirm "cup".toList) =
        response (cardOnTable 2 .awaitingLabelConfirm "comb".toList) ∧
      (response (cardOnTable 1 .awaitingLabelConfirm "cup".toList)).withoutLabel =
        (response (cardOnTable 1 .awaitingLabelConfirm "comb".toList)).withoutLabel := by
  refine ⟨(no_label_leak _ _ _ _ _ rfl).1 ?_ ?_, (no_label_leak _ _ _ _ _ rfl).2.1 ?_⟩
  · rintro ⟨turn, hturn, hspeaker, -⟩
    cases hturn
    exact absurd hspeaker (by decide)
  · rintro ⟨turn, hturn, -, hs⟩
    cases hturn
    exact absurd hs (by decide)
  · exact ⟨_, rfl, rfl, rfl⟩

end Neva
