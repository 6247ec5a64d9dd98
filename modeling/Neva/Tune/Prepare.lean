import Neva.Worker.ExactlyOnce
import Neva.Game.Join

/-!
# Preparing the corpus for tuning

`read_jsonl`, `is_training_eligible` and `build_sft_row` of `tune/prepare.py`, the reader of the
corpus the worker writes.  Eligibility is decided once more, on the record alone, and the two
decisions agree: the reader accepts every line of the corpus, and would accept no record the worker
kept out of it (`corpus_read`).

A row asks for more than eligibility does.  The language of the speaker and the text of the label
must not be blank, and one blank text ends the preparation of the whole corpus.  Neither is
promised: the request to join carries some text for the mother tongue, which is stripped when it is
stored, and a label may be blank.  `corpus_prepared` is the exact condition on the turns that were
exported, `corpus_unprepared` a player who joined with a blank for a mother tongue.
-/

set_option autoImplicit false

namespace Neva

open Calls Tables

/-! ## Reading -/

/-- The exceptions the preparation can end with. -/
inductive PrepareError
  | unicodeDecodeError
  | valueError (message : String)
  deriving DecidableEq, Repr

/-- One line of `read_jsonl`: nothing for a blank one. -/
def readLine (line : Text) : Except PrepareError (Option (List (Text × Json))) :=
  if strip line = [] then .ok none
  else match Json.loads line with
    | none => .error (.valueError "invalid JSON")
    | some (.obj row) => .ok (some row)
    | some _ => .error (.valueError "expected object")

/-- The loop over the lines of a file. -/
def readLines : List Text → Except PrepareError (List (List (Text × Json)))
  | [] => .ok []
  | line :: rest =>
    match readLine line with
    | .error e => .error e
    | .ok row => (readLines rest).map fun rows ↦ row.toList ++ rows

/-- `read_jsonl` -/
def readJsonl : List Shard → Except PrepareError (List (List (Text × Json)))
  | [] => .ok []
  | f :: rest =>
    match readLines f.allLines with
    | .error e => .error e
    | .ok rows =>
      if f.broken then .error .unicodeDecodeError
      else (readJsonl rest).map fun more ↦ rows ++ more

/-! ## Eligibility -/

/-- `value is True` and `value is False` -/
def isConstant (b : Bool) : Option Json → Bool
  | some (.bool b') => b' == b
  | _ => false

/-- `is_training_eligible` -/
def isTrainingEligible (row : List (Text × Json)) : Bool :=
  match Json.lookup row "quality".toList, Json.lookup row "validation".toList with
  | some (.obj quality), some (.obj validation) =>
    !isConstant false (Json.lookup row "training_eligible".toList) &&
      ["is_speech".toList, "single_speaker".toList, "audio_quality_ok".toList].all
        (fun field ↦ isConstant true (Json.lookup quality field)) &&
      isConstant false (Json.lookup quality "contamination_flag".toList) &&
      isConstant false (Json.lookup quality "duplicate".toList) &&
      isConstant true (Json.lookup validation "correct".toList)
  | _, _ => false

/-! ## Rows -/

/-- The representation of the speech. -/
inductive InputMode
  | audio
  | text
  deriving DecidableEq, Repr

/-- One part of what the user says. -/
inductive Content
  | audio (path : Text)
  | text (text : Text)
  deriving DecidableEq, Repr

/-- A conversational row. -/
structure SftRow where
  utteranceId : Text
  nativeLangTag : Text
  target : Text
  inputMode : InputMode
  user : List Content
  assistant : List Content
  deriving DecidableEq, Repr

/-- `TASK_TEMPLATE` -/
def taskText (nativeLanguage : Text) : Text :=
  "Translate this speech from ".toList ++ nativeLanguage ++ " into the common language.".toList

/-- `TEXT_TASK_TEMPLATE` -/
def transcriptText (nativeLanguage transcript : Text) : Text :=
  "Translate this transcribed speech from ".toList ++ nativeLanguage ++
    " into the common language:\n".toList ++ transcript

/-- A text that is not blank. -/
def requiredText : Option Json → Option Text
  | some (.str s) => if strip s ≠ [] then some s else none
  | _ => none

/-- `build_sft_row` -/
def buildSftRow (row : List (Text × Json)) (audioPath : Text) (mode : InputMode)
    (transcripts : Text → Option Text) : Except PrepareError SftRow :=
  match requiredText (Json.lookup row "utterance_id".toList),
      requiredText (Json.lookup row "native_lang_tag".toList),
      requiredText (Json.lookup row "common_lang_text".toList) with
  | some utteranceId, some nativeLanguage, some target =>
    match mode with
    | .audio => .ok ⟨utteranceId, nativeLanguage, target, mode,
        [.audio audioPath, .text (taskText nativeLanguage)], [.text target]⟩
    | .text =>
      match transcripts utteranceId with
      | none | some [] => .error (.valueError
          "text fallback requires a non-empty transcript sidecar row")
      | some transcript => .ok ⟨utteranceId, nativeLanguage, target, mode,
          [.text (transcriptText nativeLanguage transcript)], [.text target]⟩
  | _, _, _ => .error (.valueError
      "eligible records require utterance_id, native_lang_tag, common_lang_text")

/-! ## The two decisions -/

theorem isConstant_iff {b : Bool} {v : Option Json} :
    isConstant b v = true ↔ v = some (.bool b) := by
  match v with
  | some (.bool b') => simp [isConstant]
  | none | some .null | some (.num _) | some (.str _) | some (.arr _) | some (.obj _) =>
    simp [isConstant]

/-- The reader goes by the formula, unless the record itself says no. -/
theorem isTrainingEligible_iff {row : List (Text × Json)}
    (h : Json.lookup row "training_eligible".toList ≠ some (.bool false)) :
    isTrainingEligible row = true ↔ Qualifies (.obj row) := by
  have hsaid : isConstant false (Json.lookup row "training_eligible".toList) = false := by
    rw [← Bool.not_eq_true, isConstant_iff]
    exact h
  rw [isTrainingEligible.eq_def, hsaid]
  constructor
  · intro hrow
    split at hrow
    · rename_i quality validation hquality hvalidation
      simp only [Bool.not_false, Bool.true_and, List.all_cons, List.all_nil, Bool.and_true,
        Bool.and_eq_true, isConstant_iff] at hrow
      obtain ⟨⟨⟨⟨hspeech, hsingle, haudio⟩, hflag⟩, hduplicate⟩, hcorrect⟩ := hrow
      have hfield {name : Text} {v : Json} (hv : Json.lookup quality name = some v) :
          (Json.obj row).field? "quality".toList name = some v :=
        Json.field?_eq_some.mpr ⟨quality, hquality, hv⟩
      exact ⟨hfield hspeech, hfield hsingle, hfield haudio, hfield hflag,
        Json.field?_eq_some.mpr ⟨validation, hvalidation, hcorrect⟩, hfield hduplicate⟩
    · cases hrow
  · intro hrow
    obtain ⟨quality, hquality, hspeech⟩ := Json.field?_eq_some.mp hrow.isSpeech
    obtain ⟨validation, hvalidation, hcorrect⟩ := Json.field?_eq_some.mp hrow.correct
    have hfield {name : Text} {v : Json}
        (hv : (Json.obj row).field? "quality".toList name = some v) :
        Json.lookup quality name = some v := by
      obtain ⟨inner, hinner, hv⟩ := Json.field?_eq_some.mp hv
      cases hquality.symm.trans hinner
      exact hv
    rw [show Json.lookup row "quality".toList = _ from hquality,
      show Json.lookup row "validation".toList = _ from hvalidation]
    simp only [Bool.not_false, Bool.true_and, List.all_cons, List.all_nil, Bool.and_true,
      Bool.and_eq_true, isConstant_iff]
    exact ⟨⟨⟨⟨hspeech, hfield hrow.singleSpeaker, hfield hrow.audioQualityOk⟩,
      hfield hrow.contaminationFlag⟩, hfield hrow.duplicate⟩, hcorrect⟩

/-! ## What the worker writes -/

namespace RecordRow

variable {p : Packaging} {w : Depot} {r : RecordRow} {c : TurnContext}

/-- The members of a record that was made from a context, as far as the reader looks at them. -/
theorem MadeFrom.members (h : r.MadeFrom p w c) : ∃ row label,
    r.golden = .obj row ∧ goldenLabel c.labelCommon c.commonLang = .ok label ∧
      Json.lookup row "training_eligible".toList = none ∧
      Json.lookup row "utterance_id".toList = some (.str (uuidText c.turnId)) ∧
      Json.lookup row "native_lang_tag".toList = some (.str c.nativeLang) ∧
      Json.lookup row "common_lang_text".toList = some (.str label) := by
  obtain ⟨now, golden, -, -, hgolden, hread, -⟩ := h
  obtain ⟨label, hlabel, rfl⟩ := goldenRecord_eq_ok.mp hgolden
  obtain ⟨row, hrow, -⟩ := p.jsonb.read_obj (goldenMembers p.repr c label now)
  have hlookup (name : Text) : Json.lookup row name =
      (Json.lookup (goldenMembers p.repr c label now) name).map p.jsonb.read := by
    rw [← p.jsonb.get?_read nodup_goldenMembers, hrow]
    rfl
  have htext {name s : Text} (hs : Json.lookup (goldenMembers p.repr c label now) name =
      some (.str s)) : Json.lookup row name = some (.str s) := by
    rw [hlookup, hs, Option.map_some, p.jsonb.read_str]
  refine ⟨row, label, hread.trans hrow, hlabel, ?_, htext rfl, htext rfl, htext rfl⟩
  rw [hlookup]
  rfl

/-- **The reader judges a record as the worker did.** -/
theorem MadeFrom.isTrainingEligible (h : r.MadeFrom p w c) {row : List (Text × Json)}
    (hrow : r.golden = .obj row) : Neva.isTrainingEligible row = r.trainingEligible := by
  obtain ⟨row', -, hrow', -, hsaid, -⟩ := h.members
  cases Json.obj.inj (hrow'.symm.trans hrow)
  obtain ⟨now, golden, -, -, hgolden, hread, hverdict⟩ := h
  obtain ⟨label, -, rfl⟩ := goldenRecord_eq_ok.mp hgolden
  have hunsaid : Json.lookup row "training_eligible".toList ≠ some (.bool false) := by
    rw [hsaid]
    exact nofun
  rw [Bool.eq_iff_iff, isTrainingEligible_iff hunsaid, hverdict, ← qualifies_iff p.jsonb, ← hread,
    hrow]

end RecordRow

/-- The label that gets into the record is not blank: the one in the pair's language; or, when
there is none, the English one; or, when there is none either, the first one. -/
def LabelMap.Speaks (labels : LabelMap) (commonLang : Text) : Prop :=
  (∃ v, labels.get? commonLang = some v ∧ strip v ≠ []) ∨
  labels.get? commonLang = none ∧
    ((∃ v, labels.get? "en".toList = some v ∧ strip v ≠ []) ∨
    labels.get? "en".toList = none ∧ ∃ v, labels.values.head? = some v ∧ strip v ≠ [])

/-- The speaker has a mother tongue, and the card a label. -/
structure TurnContext.Usable (c : TurnContext) : Prop where
  nativeLang : strip c.nativeLang ≠ []
  label : c.labelCommon.Speaks c.commonLang

theorem strip_goldenLabel_ne_nil {labels : LabelMap} {commonLang label : Text}
    (h : goldenLabel labels commonLang = .ok label) :
    strip label ≠ [] ↔ labels.Speaks commonLang := by
  rw [goldenLabel] at h
  split at h
  · cases h
  · rename_i first rest hvalues
    rw [← Except.ok.inj h, LabelMap.Speaks, hvalues]
    cases labels.get? commonLang <;> cases labels.get? "en".toList <;> simp

/-- **A row can be built if and only if the context of the record is usable.** -/
theorem RecordRow.MadeFrom.buildSftRow {p : Packaging} {w : Depot} {r : RecordRow}
    {c : TurnContext} (h : r.MadeFrom p w c) {row : List (Text × Json)} (hrow : r.golden = .obj row)
    (audioPath : Text) (transcripts : Text → Option Text) :
    (∃ sft, Neva.buildSftRow row audioPath .audio transcripts = .ok sft) ↔ c.Usable := by
  obtain ⟨row', label, hrow', hlabel, -, hid, hnative, htext⟩ := h.members
  cases Json.obj.inj (hrow'.symm.trans hrow)
  have husable : c.Usable ↔ strip c.nativeLang ≠ [] ∧ strip label ≠ [] := by
    rw [strip_goldenLabel_ne_nil hlabel]
    exact ⟨fun h ↦ ⟨h.1, h.2⟩, fun h ↦ ⟨h.1, h.2⟩⟩
  have hdash : strip (uuidText c.turnId) ≠ [] :=
    strip_ne_nil_iff.mpr ⟨'-', by simp [uuidText, dashed], by decide⟩
  rw [husable, Neva.buildSftRow.eq_def, hid, hnative, htext, requiredText, if_pos hdash]
  by_cases hblank : strip c.nativeLang = []
  · simp [requiredText, hblank]
  · by_cases hblank' : strip label = []
    · simp [requiredText, hblank']
    · simp [requiredText, hblank, hblank']

/-! ## The corpus -/

/-- Lines that are objects are read one by one. -/
theorem readLines_eq_ok {ls : List Text} (h : ∀ l ∈ ls, ∃ row, readLine l = .ok (some row)) :
    ∃ rows, readLines ls = .ok rows ∧ ∀ row, row ∈ rows ↔
      ∃ l ∈ ls, readLine l = .ok (some row) := by
  induction ls with
  | nil => exact ⟨[], rfl, by simp⟩
  | cons l ls ih =>
    obtain ⟨first, hfirst⟩ := h l List.mem_cons_self
    obtain ⟨rows, hrows, hmem⟩ := ih fun l hl ↦ h l (List.mem_cons_of_mem _ hl)
    refine ⟨first :: rows, ?_, fun row ↦ ?_⟩
    · rw [readLines, hfirst]
      dsimp only
      rw [hrows]
      rfl
    · simp [hmem, hfirst, eq_comm]

theorem readJsonl_eq_ok {fs : List Shard} (hwhole : ∀ f ∈ fs, f.broken = false ∧ f.tail = [])
    (h : ∀ f ∈ fs, ∀ l ∈ f.lines, ∃ row, readLine l = .ok (some row)) :
    ∃ rows, readJsonl fs = .ok rows ∧
      ∀ row, row ∈ rows ↔ ∃ f ∈ fs, ∃ l ∈ f.lines, readLine l = .ok (some row) := by
  induction fs with
  | nil => exact ⟨[], rfl, by simp⟩
  | cons f fs ih =>
    obtain ⟨hbroken, htail⟩ := hwhole f List.mem_cons_self
    obtain ⟨first, hfirst, hmemFirst⟩ := readLines_eq_ok (h f List.mem_cons_self)
    obtain ⟨rows, hrows, hmem⟩ := ih (fun f hf ↦ hwhole f (List.mem_cons_of_mem _ hf))
      fun f hf ↦ h f (List.mem_cons_of_mem _ hf)
    have hall : f.allLines = f.lines := by
      rw [Shard.allLines, htail, if_pos rfl, List.append_nil]
    refine ⟨first ++ rows, ?_, fun row ↦ ?_⟩
    · rw [readJsonl, hall, hfirst]
      dsimp only
      rw [hbroken, hrows]
      rfl
    · rw [List.mem_append, hmemFirst, hmem]
      simp only [List.mem_cons, exists_eq_or_imp]

/-- What the reader and the worker agree on: every line of the corpus is read, judged eligible and
turned into a row, and a record that was kept out would be judged ineligible. -/
def Archive.Agrees (a : Archive) : Prop :=
  (∃ rows, readJsonl a.corpus.sorted = .ok rows ∧ ∀ row ∈ rows, isTrainingEligible row = true ∧
    ∀ audioPath transcripts, ∃ sft, buildSftRow row audioPath .audio transcripts = .ok sft) ∧
  ∀ r ∈ a.records, r.trainingEligible = false →
    ∃ row, r.golden = .obj row ∧ isTrainingEligible row = false

/-- The line of a record reads as its document. -/
theorem RecordRow.Packaged.readLine {p : Packaging} {w : Depot} {r : RecordRow}
    (h : r.Packaged p w) : ∃ row, r.golden = .obj row ∧
      Neva.readLine r.golden.dumps = .ok (some row) := by
  obtain ⟨g, hjson, -⟩ := h.exists_golden
  have hstrip : strip g.line = g.line := g.strip_append_line (s := []) (.inl rfl)
  have hne : g.line ≠ [] := by
    obtain ⟨body, hbody⟩ := Json.exists_dumps_obj g.members
    rw [Golden.line, Golden.json, hbody]
    simp
  refine ⟨g.members, hjson.symm, ?_⟩
  rw [← hjson, Neva.readLine, show g.json.dumps = g.line from rfl, hstrip, if_neg hne,
    show Json.loads g.line = some (.obj g.members) from Json.loads_dumps g.proper]

/-- **The corpus can be prepared if and only if every turn in it is usable.** -/
theorem corpus_prepared {p : Packaging} {c : Config ExportOp PackageError Handling Archive Unit}
    (h : (packaging p).Reachable c) : c.world.state.Agrees ↔
      ∀ r ∈ c.world.state.records, r.golden.dumps ∈ c.world.state.corpus.lines →
        ∀ context, r.MadeFrom p c.world context → context.Usable := by
  obtain ⟨hpackaged, hturnIds, hwhole, hlines, -, -⟩ := Depot.sound_of_reachable h
  obtain ⟨rows, hrows, hmem⟩ := readJsonl_eq_ok
    (fun f hf ↦ hwhole.complete f (Corpus.mem_sorted.mp hf)) fun f hf l hl ↦ by
      obtain ⟨r, hr, -, rfl⟩ := hlines l (Corpus.mem_lines.mpr ⟨f, Corpus.mem_sorted.mp hf, hl⟩)
      obtain ⟨row, -, hread⟩ := (hpackaged r hr).readLine
      exact ⟨row, hread⟩
  have hrecord {row : List (Text × Json)} (hrow : row ∈ rows) : ∃ r ∈ c.world.state.records,
      r.trainingEligible = true ∧ r.golden.dumps ∈ c.world.state.corpus.lines ∧
        r.golden = .obj row := by
    obtain ⟨f, hf, l, hl, hread⟩ := (hmem row).mp hrow
    have hl' := Corpus.mem_lines.mpr ⟨f, Corpus.mem_sorted.mp hf, hl⟩
    obtain ⟨r, hr, heligible, rfl⟩ := hlines l hl'
    obtain ⟨row', hgolden, hread'⟩ := (hpackaged r hr).readLine
    rw [Option.some.inj (Except.ok.inj (hread.symm.trans hread'))]
    exact ⟨r, hr, heligible, hl', hgolden⟩
  constructor
  · rintro ⟨⟨rows', hrows', hall⟩, -⟩ r hr hl context hmade
    cases hrows.symm.trans hrows'
    obtain ⟨row, hgolden, hread⟩ := (hpackaged r hr).readLine
    obtain ⟨f, hf, hl⟩ := Corpus.mem_lines.mp hl
    have hrow : row ∈ rows := (hmem row).mpr ⟨f, Corpus.mem_sorted.mpr hf, _, hl, hread⟩
    exact (hmade.buildSftRow hgolden [] fun _ ↦ none).mp ((hall row hrow).2 [] fun _ ↦ none)
  · intro husable
    refine ⟨⟨rows, hrows, fun row hmemRow ↦ ?_⟩, fun r hr hverdict ↦ ?_⟩
    · obtain ⟨r, hr, heligible, hl, hgolden⟩ := hrecord hmemRow
      obtain ⟨context, hmade⟩ := hpackaged r hr
      exact ⟨(hmade.isTrainingEligible hgolden).trans heligible, fun audioPath transcripts ↦
        (hmade.buildSftRow hgolden audioPath transcripts).mpr (husable r hr hl context hmade)⟩
    · obtain ⟨context, hmade⟩ := hpackaged r hr
      obtain ⟨row, -, hgolden, -⟩ := hmade.members
      exact ⟨row, hgolden, (hmade.isTrainingEligible hgolden).trans hverdict⟩

/-- What the reader makes of the records goes well as far as eligibility is concerned, whatever the
turns are like. -/
theorem corpus_read {p : Packaging} {c : Config ExportOp PackageError Handling Archive Unit}
    (h : (packaging p).Reachable c) : ∀ r ∈ c.world.state.records, ∃ row, r.golden = .obj row ∧
      readLine r.golden.dumps = .ok (some row) ∧ isTrainingEligible row = r.trainingEligible := by
  intro r hr
  have hpackaged := (Depot.sound_of_reachable h).packaged r hr
  obtain ⟨row, hgolden, hread⟩ := hpackaged.readLine
  obtain ⟨context, hmade⟩ := hpackaged
  exact ⟨row, hgolden, hread, hmade.isTrainingEligible hgolden⟩

/-! ## Two runs -/

/-- A worker packages the turn and is done. -/
def oneWorker : List (Event Handling Time PackageError) :=
  .spawn (.package 1) :: List.replicate 13 (.step 0 0)

/-- A row can be built from the document of a record. -/
def RecordRow.buildable (r : RecordRow) : Bool :=
  match r.golden with
  | .obj row => (buildSftRow row [] .audio fun _ ↦ none).toOption.isSome
  | _ => false

/-- With a mother tongue and a label the corpus can be prepared. -/
theorem corpus_prepared_kite : ∃ c, (packaging kitePackaging).Reachable c ∧
    c.world.state.corpus.lines.length = 1 ∧ c.world.state.Agrees := by
  have hinit : (packaging kitePackaging).init kiteArchive := ⟨rfl, rfl⟩
  obtain ⟨c, hc, hcheck⟩ := System.exists_reachable_of_run hinit
    (show ((packaging kitePackaging).run (System.start kiteArchive) oneWorker).map
      (fun c ↦ decide (c.world.state.corpus.lines.length = 1) &&
        c.world.state.records.all RecordRow.buildable) = some true by decide +kernel)
  rw [Bool.and_eq_true, decide_eq_true_eq, List.all_eq_true] at hcheck
  refine ⟨c, hc, hcheck.1, (corpus_prepared hc).mpr fun r hr _ context hmade ↦ ?_⟩
  obtain ⟨row, -, hgolden, -⟩ := hmade.members
  have hbuild := hcheck.2 r hr
  rw [RecordRow.buildable, hgolden] at hbuild
  dsimp only at hbuild
  refine (hmade.buildSftRow hgolden [] fun _ ↦ none).mp ?_
  cases hsft : buildSftRow row [] .audio fun _ ↦ none with
  | ok sft => exact ⟨sft, rfl⟩
  | error e =>
    rw [hsft] at hbuild
    cases hbuild

/-- A request whose mother tongue is a blank. -/
def blankRequest : JoinRequest := ⟨"Mira".toList, [' '], ["hi".toList]⟩

/-- **One blank ends the preparation.**  The request to join is accepted, the turn of the player is
exported, and no row can be built from its line. -/
theorem corpus_unprepared : blankRequest.Valid ∧
    (join blankRequest 3 "Mira".toList).toOption.toList = (kiteTables []).players ∧
    ∃ c, (packaging kitePackaging).Reachable c ∧ c.world.state.db = kiteTables [] ∧
      c.world.state.corpus.lines.length = 1 ∧ ¬ c.world.state.Agrees := by
  refine ⟨⟨by decide, by decide, by decide⟩, by decide, ?_⟩
  have hinit : (packaging kitePackaging).init { kiteArchive with db := kiteTables [] } := ⟨rfl, rfl⟩
  obtain ⟨c, hc, hcheck⟩ := System.exists_reachable_of_run hinit
    (show ((packaging kitePackaging).run
      (System.start { kiteArchive with db := kiteTables [] }) oneWorker).map
        (fun c ↦ decide (c.world.state.db = kiteTables []) &&
          decide (c.world.state.corpus.lines.length = 1) &&
          (readJsonl c.world.state.corpus.sorted).toOption.any fun rows ↦ rows.any fun row ↦
            !(buildSftRow row [] .audio fun _ ↦ none).toOption.isSome) = some true
      by decide +kernel)
  rw [Bool.and_eq_true, Bool.and_eq_true, decide_eq_true_eq, decide_eq_true_eq] at hcheck
  refine ⟨c, hc, hcheck.1.1, hcheck.1.2, ?_⟩
  rintro ⟨⟨rows, hrows, hall⟩, -⟩
  have hsome := hcheck.2
  rw [hrows] at hsome
  obtain ⟨row, hrow, hnone⟩ := List.any_eq_true.mp hsome
  obtain ⟨sft, hsft⟩ := (hall row hrow).2 [] fun _ ↦ none
  rw [hsft] at hnone
  cases hnone

end Neva
