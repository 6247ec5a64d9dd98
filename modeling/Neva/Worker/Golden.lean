import Neva.Rendering
import Neva.Game.Labels
import Neva.Json.Stored
import Neva.Worker.Triage

/-!
# The golden record

What `_package` of `worker/service.py` writes about a scored turn: the document `_golden_record`
builds from the turn, its speaker, its card and its pair, and whether `_training_eligible` lets it
into the corpus.

The record carries the text of the card, and the two players have seen that text, too: the game
resolved it with `resolve_label_text`.  The worker picks it with a chain of `dict.get` instead,
which strips nothing and takes a blank label for a label; and because a default is evaluated before
it is needed, a card without labels ends the packaging with an exception.  `goldenRecord_label` is
the exact condition on the labels under which the record carries the text that was shown.
-/

set_option autoImplicit false

namespace Neva

/-- `worker.models.TurnContext` -/
structure TurnContext where
  turnId : Uuid
  pairId : Uuid
  speakerId : Uuid
  guesserId : Uuid
  nativeLang : Text
  commonLangs : List Text
  commonLang : Text
  cardId : Uuid
  deckId : Uuid
  labelCommon : LabelMap
  audioPath : Option AudioPath
  audioFlacPath : Option AudioPath
  durationS : Option ℚ
  quality : Option Quality
  status : TurnStatus
  outcome : TurnOutcome
  attempts : ℕ
  capturedAt : Time

/-- `get_turn_context` with all it reads.  `labels` is the column `cards.label_common`. -/
def Repository.turnContext (labels : Uuid → LabelMap) (db : Db) (turnId : Uuid) :
    Option TurnContext := do
  let t ← db.findTurn turnId
  let speaker ← db.findPlayer t.speakerId
  let card ← db.cards.find? fun c ↦ c.id == t.cardId
  let pair ← db.findPair t.pairId
  return {
    turnId := t.id
    pairId := t.pairId
    speakerId := t.speakerId
    guesserId := t.guesserId
    nativeLang := speaker.nativeLang
    commonLangs := speaker.commonLangs
    commonLang := pair.commonLang
    cardId := card.id
    deckId := card.deckId
    labelCommon := labels card.id
    audioPath := t.audioPath
    audioFlacPath := t.audioFlacPath
    durationS := t.durationS
    quality := t.quality
    status := t.status
    outcome := t.outcome
    attempts := t.attempts
    capturedAt := t.createdAt }

/-- It finds a context where the triage finds its turn. -/
theorem Repository.isSome_turnContext (labels : Uuid → LabelMap) (db : Db) (turnId : Uuid) :
    (turnContext labels db turnId).isSome = (getTurnContext db turnId).isSome := by
  have hcard (id : Uuid) : db.cards.any (fun c ↦ c.id == id) =
      (db.cards.find? fun c ↦ c.id == id).isSome := by
    rw [List.isSome_find?]
  rw [turnContext, getTurnContext]
  simp only [hcard]
  cases db.findTurn turnId with
  | none => rfl
  | some t =>
    rw [Option.filter_some]
    dsimp only [bind, Option.bind_some, pure]
    cases db.findPlayer t.speakerId with
    | none => rfl
    | some speaker =>
      rw [Option.bind_some]
      cases db.cards.find? fun c ↦ c.id == t.cardId with
      | none => rfl
      | some card =>
        rw [Option.bind_some]
        cases db.findPair t.pairId <;> rfl

theorem Repository.turnId_of_turnContext {labels : Uuid → LabelMap} {db : Db} {turnId : Uuid}
    {c : TurnContext} (h : turnContext labels db turnId = some c) : c.turnId = turnId := by
  simp only [turnContext, bind, pure, Option.bind_eq_some_iff] at h
  obtain ⟨t, ht, speaker, -, card, -, pair, -, h⟩ := h
  have hid : t.id = turnId := by simpa using List.find?_some ht
  rw [← Option.some.inj h, hid]

/-! ## The record -/

/-- `_training_eligible` -/
def trainingEligible (c : TurnContext) : Bool :=
  c.quality.any Quality.isSpeech && c.quality.any Quality.singleSpeaker &&
    c.quality.any Quality.audioQualityOk && !c.quality.any Quality.contaminationFlag &&
    c.outcome == .validated && !c.quality.any Quality.duplicate

/-- The exceptions the packaging of a turn can end with. -/
inductive PackageError
  /-- `turn not found` -/
  | lookupError
  /-- `next` of an iterator that has no element -/
  | stopIteration
  | runtimeError (message : String)
  | valueError (message : String)
  /-- The corpus could not be read. -/
  | corpus
  /-- The connection or the file system failed. -/
  | unavailable
  deriving DecidableEq, Repr

/-- `label_common.get(common_lang, label_common.get("en", next(iter(label_common.values()))))`.  The
defaults are evaluated first. -/
def goldenLabel (labels : LabelMap) (commonLang : Text) : Except PackageError Text :=
  match labels.values with
  | [] => .error .stopIteration
  | first :: _ => .ok ((labels.get? commonLang).getD ((labels.get? "en".toList).getD first))

/-- A text or `None`. -/
def optionalText : Option Text → Json
  | none => .null
  | some s => .str s

/-- A number or `None`. -/
def optionalNumber : Option Json.Number → Json
  | none => .null
  | some n => .num n

/-- The member `quality` of the record.  `repr` is the spelling of a floating point number. -/
def goldenQuality (repr : ℚ → Json.Number) (c : TurnContext) : List (Text × Json) := [
  ("is_speech".toList, .bool (c.quality.any Quality.isSpeech)),
  ("single_speaker".toList, .bool (c.quality.any Quality.singleSpeaker)),
  ("audio_quality_ok".toList, .bool (c.quality.any Quality.audioQualityOk)),
  ("duration_s".toList,
    optionalNumber ((c.quality.map Quality.durationS <|> c.durationS).map repr)),
  ("dedup_hash".toList, optionalText (c.quality.map Quality.dedupHash)),
  ("duplicate".toList, .bool (c.quality.any Quality.duplicate)),
  ("contamination_flag".toList, .bool (c.quality.any Quality.contaminationFlag)),
  ("apparent_language_note".toList,
    .str ((c.quality.map Quality.apparentLanguageNote).getD "unsure".toList))]

/-- The member `validation` of the record. -/
def goldenValidation (c : TurnContext) : List (Text × Json) := [
  ("guesser_id".toList, .str (uuidText c.guesserId)),
  ("correct".toList, .bool (c.outcome == .validated)),
  ("attempts".toList, .num (Json.Number.ofNat c.attempts))]

/-- `_golden_record`, once the label has been picked. -/
def goldenMembers (repr : ℚ → Json.Number) (c : TurnContext) (label : Text) (now : Time) :
    List (Text × Json) := [
  ("utterance_id".toList, .str (uuidText c.turnId)),
  ("audio_ref".toList, .obj [
    ("raw_webm".toList, optionalText (c.audioPath.map AudioPath.text)),
    ("clean_flac".toList, optionalText (c.audioFlacPath.map AudioPath.text))]),
  ("native_lang_tag".toList, .str c.nativeLang),
  ("common_lang_text".toList, .str label),
  ("image_id".toList, .str (uuidText c.cardId)),
  ("deck_id".toList, .str (uuidText c.deckId)),
  ("validation".toList, .obj (goldenValidation c)),
  ("quality".toList, .obj (goldenQuality repr c)),
  ("speaker_meta".toList, .obj [
    ("player_id".toList, .str (uuidText c.speakerId)),
    ("declared_region".toList, .null),
    ("session_id".toList, .str (uuidText c.pairId))]),
  ("timestamps".toList, .obj [
    ("captured_at".toList, .str (isoformat c.capturedAt)),
    ("packaged_at".toList, .str (isoformat now))])]

/-- `_golden_record` -/
def goldenRecord (repr : ℚ → Json.Number) (c : TurnContext) (now : Time) :
    Except PackageError (List (Text × Json)) :=
  (goldenLabel c.labelCommon c.commonLang).map fun label ↦ goldenMembers repr c label now

section

variable {repr : ℚ → Json.Number} {c : TurnContext} {label : Text} {now : Time}

theorem goldenRecord_eq_ok {golden : List (Text × Json)} : goldenRecord repr c now = .ok golden ↔
    ∃ label, goldenLabel c.labelCommon c.commonLang = .ok label ∧
      golden = goldenMembers repr c label now := by
  rw [goldenRecord]
  cases goldenLabel c.labelCommon c.commonLang with
  | error e => simp [Except.map]
  | ok label => simp [Except.map, eq_comm]

theorem proper_optionalText (s : Option Text) : (optionalText s).Proper := by
  cases s <;> exact trivial

theorem proper_optionalNumber (n : Option Json.Number) : (optionalNumber n).Proper := by
  cases n <;> exact trivial

theorem nodup_goldenMembers : ((goldenMembers repr c label now).map Prod.fst).Nodup :=
  (by decide : (["utterance_id".toList, "audio_ref".toList, "native_lang_tag".toList,
    "common_lang_text".toList, "image_id".toList, "deck_id".toList, "validation".toList,
    "quality".toList, "speaker_meta".toList, "timestamps".toList] : List Text).Nodup)

theorem nodup_goldenQuality : ((goldenQuality repr c).map Prod.fst).Nodup :=
  (by decide : (["is_speech".toList, "single_speaker".toList, "audio_quality_ok".toList,
    "duration_s".toList, "dedup_hash".toList, "duplicate".toList, "contamination_flag".toList,
    "apparent_language_note".toList] : List Text).Nodup)

theorem nodup_goldenValidation : ((goldenValidation c).map Prod.fst).Nodup :=
  (by decide : (["guesser_id".toList, "correct".toList, "attempts".toList] : List Text).Nodup)

/-- The record is a dictionary, and so is every object in it. -/
theorem proper_goldenMembers : (Json.obj (goldenMembers repr c label now)).Proper := by
  have hquality : (Json.obj (goldenQuality repr c)).Proper := by
    refine ⟨nodup_goldenQuality, Json.properMembers_iff.mpr ?_⟩
    simp [goldenQuality, Json.Proper, proper_optionalText, proper_optionalNumber]
  refine ⟨nodup_goldenMembers, Json.properMembers_iff.mpr ?_⟩
  have hvalidation : (Json.obj (goldenValidation c)).Proper := by
    refine ⟨nodup_goldenValidation, Json.properMembers_iff.mpr ?_⟩
    simp [goldenValidation, Json.Proper]
  simpa [goldenMembers, Json.Proper, Json.ProperMembers, proper_optionalText] using
    And.intro hvalidation hquality

/-! ## The formula -/

/-- The eligibility formula on the fields of a record. -/
structure Qualifies (record : Json) : Prop where
  isSpeech : record.field? "quality".toList "is_speech".toList = some (.bool true)
  singleSpeaker : record.field? "quality".toList "single_speaker".toList = some (.bool true)
  audioQualityOk : record.field? "quality".toList "audio_quality_ok".toList = some (.bool true)
  contaminationFlag :
    record.field? "quality".toList "contamination_flag".toList = some (.bool false)
  correct : record.field? "validation".toList "correct".toList = some (.bool true)
  duplicate : record.field? "quality".toList "duplicate".toList = some (.bool false)

theorem field?_goldenQuality (S : Json.Store) (name : Text) :
    (S.read (.obj (goldenMembers repr c label now))).field? "quality".toList name =
      (Json.lookup (goldenQuality repr c) name).map S.read :=
  S.field?_read nodup_goldenMembers rfl nodup_goldenQuality name

theorem field?_goldenCorrect (S : Json.Store) :
    (S.read (.obj (goldenMembers repr c label now))).field? "validation".toList
      "correct".toList = some (.bool (c.outcome == .validated)) := by
  rw [S.field?_read nodup_goldenMembers rfl nodup_goldenValidation]
  exact congrArg some (S.read_bool _)

/-- **The record of a turn satisfies the formula if and only if the turn is eligible.** -/
theorem qualifies_iff (S : Json.Store) :
    Qualifies (S.read (.obj (goldenMembers repr c label now))) ↔ trainingEligible c = true := by
  have hflag {name : Text} {b : Bool} (h : Json.lookup (goldenQuality repr c) name =
      some (.bool b)) (b' : Bool) : (S.read (.obj (goldenMembers repr c label now))).field?
        "quality".toList name = some (.bool b') ↔ b = b' := by
    rw [field?_goldenQuality, h, Option.map_some, S.read_bool]
    simp
  have hcorrect : (S.read (.obj (goldenMembers repr c label now))).field? "validation".toList
      "correct".toList = some (.bool true) ↔ (c.outcome == .validated) = true := by
    rw [field?_goldenCorrect]
    simp
  simp only [trainingEligible, Bool.and_eq_true, Bool.not_eq_true']
  constructor
  · intro h
    exact ⟨⟨⟨⟨⟨(hflag rfl _).mp h.isSpeech, (hflag rfl _).mp h.singleSpeaker⟩,
      (hflag rfl _).mp h.audioQualityOk⟩, (hflag rfl _).mp h.contaminationFlag⟩,
      hcorrect.mp h.correct⟩, (hflag rfl _).mp h.duplicate⟩
  · rintro ⟨⟨⟨⟨⟨hspeech, hsingle⟩, haudio⟩, hflagged⟩, houtcome⟩, hduplicate⟩
    exact ⟨(hflag rfl _).mpr hspeech, (hflag rfl _).mpr hsingle, (hflag rfl _).mpr haudio,
      (hflag rfl _).mpr hflagged, hcorrect.mpr houtcome, (hflag rfl _).mpr hduplicate⟩

end

/-! ## The label -/

/-- The value reads as it stands: it has no blanks around it, and is empty only when every label is
blank. -/
def LabelMap.Legible (labels : LabelMap) (value : Text) : Prop :=
  strip value = value ∧ (value = [] → ∀ w ∈ labels.values, strip w = [])

/-- The label in the pair's language is legible; or, when there is none, the English one; or, when
there is none either, the first one, and no label is called `text` that says something else. -/
def LabelMap.Faithful (labels : LabelMap) (commonLang : Text) : Prop :=
  (∃ v, labels.get? commonLang = some v ∧ labels.Legible v) ∨
  labels.get? commonLang = none ∧
    ((∃ v, labels.get? "en".toList = some v ∧ labels.Legible v) ∨
    labels.get? "en".toList = none ∧ ∃ v, labels.values.head? = some v ∧ labels.Legible v ∧
      (v ≠ [] → ∀ text, labels.get? "text".toList = some text → strip text = [] ∨ strip text = v))

section

variable {labels : LabelMap} {commonLang v : Text}

/-- What is shown has no blanks around it. -/
theorem strip_resolveLabelText (labels : LabelMap) (commonLang : Text) :
    strip (resolveLabelText labels commonLang) = resolveLabelText labels commonLang := by
  rcases resolveLabelText_cases labels commonLang with ⟨value, -, heq, -⟩ | ⟨-, heq⟩
  · rw [← heq, strip_strip]
  · rw [heq, strip_nil]

/-- Only a legible label can be the text that is shown. -/
theorem legible_of_eq (h : v = resolveLabelText labels commonLang) : labels.Legible v := by
  refine ⟨h ▸ strip_resolveLabelText labels commonLang, fun hv ↦ ?_⟩
  rcases resolveLabelText_cases labels commonLang with ⟨-, -, -, hne⟩ | ⟨hblank, -⟩
  · exact absurd (h.symm.trans hv) hne
  · exact hblank

/-- When every label is blank, nothing is shown. -/
theorem resolveLabelText_of_blank (h : ∀ w ∈ labels.values, strip w = []) :
    resolveLabelText labels commonLang = [] := by
  rcases resolveLabelText_cases labels commonLang with ⟨value, hvalue, heq, hne⟩ | ⟨-, heq⟩
  · exact absurd (heq.symm.trans (h value hvalue)) hne
  · exact heq

/-- The places are tried in turn. -/
theorem resolveLabelText_eq (labels : LabelMap) (commonLang : Text) :
    resolveLabelText labels commonLang = ((labels.get? commonLang).bind nonBlank <|>
      (labels.get? "en".toList).bind nonBlank <|> (labels.get? "text".toList).bind nonBlank <|>
      labels.values.findSome? nonBlank).getD [] := by
  rw [resolveLabelText]
  simp only [List.findSome?_cons, List.findSome?_nil]
  cases (labels.get? commonLang).bind nonBlank <;>
    cases (labels.get? "en".toList).bind nonBlank <;>
    cases (labels.get? "text".toList).bind nonBlank <;> rfl

/-- The label a legible value resolves to, wherever it comes first. -/
theorem resolveLabelText_of_legible {rest : Option Text} (h : labels.Legible v)
    (heq : resolveLabelText labels commonLang = ((some v).bind nonBlank <|> rest).getD []) :
    v = resolveLabelText labels commonLang := by
  by_cases hv : v = []
  · rw [resolveLabelText_of_blank (h.2 hv), hv]
  · rw [heq, Option.bind_some, nonBlank_eq_some.mpr ⟨h.1, hv⟩]
    rfl

/-- The first label is shown when nothing before it says something else. -/
theorem first_eq_resolveLabelText {first : Text} {rest : List Text}
    (hvalues : labels.values = first :: rest) (heq : resolveLabelText labels commonLang =
      ((labels.get? "text".toList).bind nonBlank <|> labels.values.findSome? nonBlank).getD []) :
    first = resolveLabelText labels commonLang ↔ labels.Legible first ∧ (first ≠ [] →
      ∀ text, labels.get? "text".toList = some text → strip text = [] ∨ strip text = first) := by
  constructor
  · refine fun h ↦ ⟨legible_of_eq h, fun _ text htext ↦ or_iff_not_imp_left.mpr fun hblank ↦ ?_⟩
    rw [htext, Option.bind_some, nonBlank_eq_some.mpr ⟨rfl, hblank⟩] at heq
    exact heq.symm.trans h.symm
  · rintro ⟨hlegible, htext⟩
    by_cases hfirst : first = []
    · rw [resolveLabelText_of_blank (hlegible.2 hfirst), hfirst]
    have hnext : labels.values.findSome? nonBlank = some first := by
      rw [hvalues, List.findSome?_cons, nonBlank_eq_some.mpr ⟨hlegible.1, hfirst⟩]
    rw [heq, hnext]
    cases hget : labels.get? "text".toList with
    | none => rfl
    | some text =>
      rw [Option.bind_some]
      rcases htext hfirst text hget with hblank | hsame
      · rw [nonBlank_eq_none.mpr hblank]
        rfl
      · rw [nonBlank_eq_some.mpr ⟨hsame, hfirst⟩]
        rfl

/-- **The worker picks the text that is shown if and only if the labels are faithful.** -/
theorem goldenLabel_eq_resolveLabelText (labels : LabelMap) (commonLang : Text) :
    goldenLabel labels commonLang = .ok (resolveLabelText labels commonLang) ↔
      labels.Faithful commonLang := by
  have heq := resolveLabelText_eq labels commonLang
  cases hvalues : labels.values with
  | nil =>
    have hnone (key : Text) : labels.get? key = none := by
      rw [LabelMap.get?, LabelMap.values_eq_nil.mp hvalues]
      rfl
    rw [goldenLabel, hvalues]
    simp [LabelMap.Faithful, hnone, hvalues]
  | cons first rest =>
    have hgolden : goldenLabel labels commonLang =
        .ok ((labels.get? commonLang).getD ((labels.get? "en".toList).getD first)) := by
      rw [goldenLabel, hvalues]
    rw [hgolden, Except.ok.injEq, LabelMap.Faithful]
    cases hlang : labels.get? commonLang with
    | some v =>
      rw [hlang] at heq
      simpa using ⟨legible_of_eq, fun h ↦ resolveLabelText_of_legible h heq⟩
    | none =>
      rw [hlang] at heq
      cases hen : labels.get? "en".toList with
      | some v =>
        rw [hen] at heq
        simpa using ⟨legible_of_eq, fun h ↦ resolveLabelText_of_legible h heq⟩
      | none =>
        rw [hen] at heq
        simpa [hvalues] using first_eq_resolveLabelText hvalues heq

/-- **The record carries the label the players saw if and only if the labels are faithful**, and
only then is it certain to be written. -/
theorem goldenRecord_label (repr : ℚ → Json.Number) (c : TurnContext) (now : Time) :
    (∃ golden, goldenRecord repr c now = .ok golden ∧
      Json.lookup golden "common_lang_text".toList =
        some (.str (resolveLabelText c.labelCommon c.commonLang))) ↔
      c.labelCommon.Faithful c.commonLang := by
  rw [← goldenLabel_eq_resolveLabelText]
  constructor
  · rintro ⟨golden, hgolden, hlookup⟩
    obtain ⟨label, hlabel, rfl⟩ := goldenRecord_eq_ok.mp hgolden
    have : Json.lookup (goldenMembers repr c label now) "common_lang_text".toList =
        some (.str label) := rfl
    rw [hlabel, Json.str.inj (Option.some.inj (this.symm.trans hlookup))]
  · exact fun h ↦ ⟨_, goldenRecord_eq_ok.mpr ⟨_, h, rfl⟩, rfl⟩

end

/-! ## A blank label -/

/-- A card with an English label whose Hindi label was left blank. -/
def kiteLabels : LabelMap := ⟨[("hi".toList, []), ("en".toList, "Kite".toList)], by decide⟩

/-- A scored and triaged turn between players who share Hindi. -/
def kiteTurn (labels : LabelMap) : TurnContext where
  turnId := 1
  pairId := 2
  speakerId := 3
  guesserId := 4
  nativeLang := "ta".toList
  commonLangs := ["hi".toList]
  commonLang := "hi".toList
  cardId := 5
  deckId := 6
  labelCommon := labels
  audioPath := some (.webm 1)
  audioFlacPath := some (.flac 1)
  durationS := some 3
  quality := some ⟨true, true, true, 3, "c0ffee".toList, false, false, "ta".toList, 1, [], none⟩
  status := .scored
  outcome := .validated
  attempts := 1
  capturedAt := 0

/-- **A blank label in the corpus.**  The players see the English label, the record of the turn
carries the empty text; and without any label there is no record. -/
theorem goldenRecord_mislabels : trainingEligible (kiteTurn kiteLabels) = true ∧
    resolveLabelText (kiteTurn kiteLabels).labelCommon (kiteTurn kiteLabels).commonLang =
      "Kite".toList ∧
    (∃ golden, goldenRecord (fun _ ↦ Json.Number.ofNat 3) (kiteTurn kiteLabels) 0 = .ok golden ∧
      Json.lookup golden "common_lang_text".toList = some (.str [])) ∧
    goldenRecord (fun _ ↦ Json.Number.ofNat 3) (kiteTurn LabelMap.empty) 0 =
      .error .stopIteration :=
  ⟨by decide, by decide, ⟨_, rfl, rfl⟩, rfl⟩

end Neva
