import Neva.Raising
import Neva.Deckgen.Concepts

/-!
# What a build writes and the reviewer reads

`build_generation_input` of `deckgen/pipeline.py` writes the concepts of a deck into
`decks.generation_input`, and `DeckAdminService.review_deck` validates each of them again when the
deck is reviewed, as an `AdminConceptInput`.  Writer and reader have been written for different
concepts.  The reader wants what the admin requests promise; the command line admits capital
letters in an identifier and longer texts, and a curated concept has no locale and no hint at all.
`review_reads_back` is the exact condition on the concepts, `curated_unreviewable` a deck from the
curated list.

The cards and the summary `review_deck` also returns do not depend on this document and are left
out.
-/

set_option autoImplicit false

namespace Neva.Deckgen

open Raising

/-! ## The writer -/

/-- A string, or `None`. -/
def optionalString : Option Text → Json
  | none => .null
  | some s => .str s

/-- An entry of `concepts` in the document. -/
def conceptMembers (c : Concept) : List (Text × Json) :=
  [("concept_id".toList, .str c.id), ("label_en".toList, .str c.labelEn),
    ("locale".toList, optionalString c.locale),
    ("cultural_hint".toList, optionalString c.culturalHint)]

/-- What a build knows besides its concepts. -/
structure BuildDetails where
  region : Text
  seed : Option Json.Number := none
  operatorSupplied : Bool
  source : Option Text := none
  prompt : Option Text := none

/-- `source or ("operator" if operator_supplied else "curated")` -/
def BuildDetails.resolvedSource (details : BuildDetails) : Text :=
  match details.source.filter (· ≠ []) with
  | some source => source
  | none => if details.operatorSupplied then "operator".toList else "curated".toList

/-- `build_generation_input` -/
def buildGenerationInput (details : BuildDetails) (concepts : List Concept) :
    List (Text × Json) :=
  [("region".toList, .str details.region),
    ("card_count".toList, .num (Json.Number.ofNat concepts.length)),
    ("seed".toList, match details.seed with
      | none => .null
      | some seed => .num seed),
    ("source".toList, .str details.resolvedSource),
    ("concepts".toList, .arr (concepts.map fun c ↦ .obj (conceptMembers c)))] ++
  match details.prompt with
  | none => []
  | some prompt => [("prompt".toList, .str prompt)]

/-! ## The reader -/

/-- The values a `for` loop goes through, if it can. -/
def iterated : Json → Option (List Json)
  | .arr items => some items
  | .obj members => some (members.map fun m ↦ .str m.1)
  | .str s => some (s.map fun c ↦ .str [c])
  | _ => none

/-- `generation_input.get("concepts", [])`, after `_json_mapping`. -/
def storedConcepts : Json → Except ConceptError (List Json)
  | .obj members =>
    match Json.lookup members "concepts".toList with
    | none => .ok []
    | some value =>
      match iterated value with
      | some items => .ok items
      | none => .error (.typeError "object is not iterable")
  | _ => .error (.typeError "generation_input is not a mapping")

/-- The concepts `review_deck` returns.  While the deck is generating they are hidden. -/
def reviewConcepts (status : DeckStatus) (generationInput : Json) :
    Except ConceptError (List AdminConceptInput) :=
  if status = .generating then .ok []
  else storedConcepts generationInput >>= List.mapM AdminConceptInput.modelValidate

/-- The four fields of a concept that has all of them. -/
def AdminConceptInput.concept (c : AdminConceptInput) : Concept :=
  ⟨c.conceptId, c.labelEn, some c.locale, some c.culturalHint⟩

/-! ## Reading a concept back -/

theorem FieldSpec.check_eq_ok {f : FieldSpec} {members : List (Text × Json)}
    {value : {value : Text // f.Admits value}} :
    f.check members = .ok value ↔ Json.lookup members f.name = some (.str value.1) := by
  rw [check]
  split
  · rename_i h
    simp [h]
  · rename_i v h
    rw [h, Option.some.injEq, Json.str.injEq]
    by_cases hv : f.Admits v
    · rw [dif_pos hv, Except.ok.injEq, Subtype.ext_iff]
    · rw [dif_neg hv]
      refine ⟨fun herr ↦ ?_, fun heq ↦ absurd (heq ▸ value.2) hv⟩
      split_ifs at herr
  · rename_i w hw h
    refine ⟨nofun, fun heq ↦ ?_⟩
    exact absurd (Option.some.inj (h.symm.trans heq)) (hw _)

/-- Validation succeeds on the objects that hold the four fields of the result. -/
theorem AdminConceptInput.modelValidate_eq_ok {v : Json} {input : AdminConceptInput} :
    modelValidate v = .ok input ↔ v.get? "concept_id".toList = some (.str input.conceptId) ∧
      v.get? "label_en".toList = some (.str input.labelEn) ∧
      v.get? "locale".toList = some (.str input.locale) ∧
      v.get? "cultural_hint".toList = some (.str input.culturalHint) := by
  cases v with
  | obj members =>
    have hid := @FieldSpec.check_eq_ok conceptIdField members ⟨_, input.conceptId_admitted⟩
    have hlabel := @FieldSpec.check_eq_ok labelEnField members ⟨_, input.labelEn_admitted⟩
    have hlocale := @FieldSpec.check_eq_ok localeField members ⟨_, input.locale_admitted⟩
    have hhint := @FieldSpec.check_eq_ok culturalHintField members ⟨_, input.culturalHint_admitted⟩
    rw [modelValidate]
    constructor
    · intro h
      split at h
      · rename_i conceptId labelEn locale culturalHint h₁ h₂ h₃ h₄
        cases h
        exact ⟨hid.mp h₁, hlabel.mp h₂, hlocale.mp h₃, hhint.mp h₄⟩
      · cases h
    · rintro ⟨h₁, h₂, h₃, h₄⟩
      rw [hid.mpr h₁, hlabel.mpr h₂, hlocale.mpr h₃, hhint.mpr h₄]
  | _ => simp [modelValidate, Json.get?]

/-- What the reviewer may be shown: the four fields are there and pass the checks. -/
def Concept.Admissible (c : Concept) : Prop :=
  conceptIdField.Admits c.id ∧ labelEnField.Admits c.labelEn ∧
    (∃ locale, c.locale = some locale ∧ localeField.Admits locale) ∧
    ∃ culturalHint, c.culturalHint = some culturalHint ∧ culturalHintField.Admits culturalHint

theorem Concept.admissible_iff {c : Concept} :
    c.Admissible ↔ ∃ input : AdminConceptInput, input.concept = c := by
  constructor
  · obtain ⟨id, labelEn, locale, culturalHint⟩ := c
    rintro ⟨hid, hlabel, ⟨locale, rfl, hlocale⟩, hint, rfl, hhint⟩
    exact ⟨⟨id, labelEn, locale, hint, hid, hlabel, hlocale, hhint⟩, rfl⟩
  · rintro ⟨input, rfl⟩
    exact ⟨input.conceptId_admitted, input.labelEn_admitted, ⟨_, rfl, input.locale_admitted⟩,
      _, rfl, input.culturalHint_admitted⟩

variable (store : Json.Store)

theorem read_optionalString {s : Option Text} {v : Text} :
    store.read (optionalString s) = .str v ↔ s = some v := by
  cases s with
  | none => simp [optionalString, store.read_null]
  | some s => simp [optionalString, store.read_str]

theorem nodup_conceptMembers (c : Concept) : ((conceptMembers c).map Prod.fst).Nodup := by
  show (["concept_id".toList, "label_en".toList, "locale".toList, "cultural_hint".toList] :
    List Text).Nodup
  decide

theorem nodup_buildGenerationInput (details : BuildDetails) (concepts : List Concept) :
    ((buildGenerationInput details concepts).map Prod.fst).Nodup := by
  rw [buildGenerationInput]
  cases details.prompt with
  | none =>
    show (["region".toList, "card_count".toList, "seed".toList, "source".toList,
      "concepts".toList] : List Text).Nodup
    decide
  | some prompt =>
    show (["region".toList, "card_count".toList, "seed".toList, "source".toList,
      "concepts".toList, "prompt".toList] : List Text).Nodup
    decide

/-- **A concept is read back as itself, or not at all.** -/
theorem modelValidate_read {c : Concept} {input : AdminConceptInput} :
    AdminConceptInput.modelValidate (store.read (.obj (conceptMembers c))) = .ok input ↔
      input.concept = c := by
  rw [AdminConceptInput.modelValidate_eq_ok]
  simp only [store.get?_read (nodup_conceptMembers c)]
  show some (store.read (.str c.id)) = _ ∧ some (store.read (.str c.labelEn)) = _ ∧
    some (store.read (optionalString c.locale)) = _ ∧
    some (store.read (optionalString c.culturalHint)) = _ ↔ _
  simp only [Option.some.injEq, read_optionalString, store.read_str, Json.str.injEq]
  obtain ⟨id, labelEn, locale, culturalHint⟩ := c
  rw [AdminConceptInput.concept, Concept.mk.injEq]
  simp only [eq_comm]

/-! ## Reading a document back -/

variable {store}

/-- The concepts are found in the document. -/
theorem storedConcepts_read (details : BuildDetails) (concepts : List Concept) :
    storedConcepts (store.read (.obj (buildGenerationInput details concepts))) =
      .ok (concepts.map fun c ↦ store.read (.obj (conceptMembers c))) := by
  have hlookup : Json.lookup (buildGenerationInput details concepts) "concepts".toList =
      some (.arr (concepts.map fun c ↦ .obj (conceptMembers c))) := rfl
  have hget := store.get?_read (nodup_buildGenerationInput details concepts) "concepts".toList
  rw [hlookup, Option.map_some, store.read_arr, List.map_map] at hget
  obtain ⟨members, hread, -⟩ := store.read_obj (buildGenerationInput details concepts)
  rw [hread, Json.get?] at hget
  rw [hread, storedConcepts, hget]
  rfl

/-- The review returns the concepts of the build, or it raises. -/
theorem reviewConcepts_read (details : BuildDetails) (concepts : List Concept)
    {status : DeckStatus} (hs : status ≠ .generating) {inputs : List AdminConceptInput} :
    reviewConcepts status (store.read (.obj (buildGenerationInput details concepts))) = .ok inputs ↔
      inputs.map AdminConceptInput.concept = concepts := by
  rw [reviewConcepts, if_neg hs, storedConcepts_read]
  show List.mapM _ _ = _ ↔ _
  rw [mapM_eq_ok, List.forall₂_map_left_iff]
  simp only [modelValidate_read]
  rw [← List.forall₂_eq_eq_eq, List.forall₂_map_left_iff]
  exact ⟨fun h ↦ h.flip, fun h ↦ h.flip⟩

theorem exists_inputs_iff {concepts : List Concept} :
    (∃ inputs : List AdminConceptInput, inputs.map AdminConceptInput.concept = concepts) ↔
      ∀ c ∈ concepts, c.Admissible := by
  simp only [Concept.admissible_iff]
  exact Set.ext_iff.mp (Set.range_list_map AdminConceptInput.concept) concepts

/-! ## What the sources promise -/

theorem isSlugStart_iff {ch : Char} (h : ch.isAlphanum = true) :
    isSlugStart ch = true ↔ ch.isUpper = false := by
  rw [Char.isAlphanum, Char.isAlpha] at h
  rw [isSlugStart, ← Bool.not_eq_true]
  have hA : 'A'.toNat = 65 := rfl
  have hZ : 'Z'.toNat = 90 := rfl
  have ha : 'a'.toNat = 97 := rfl
  have h0 : '0'.toNat = 48 := rfl
  have h9 : '9'.toNat = 57 := rfl
  simp [Char.isUpper, Char.isLower, Char.isDigit, UInt32.le_iff_toNat_le] at h ⊢
  omega

/-- The character is one of those an identifier may go on with in an admin request. -/
theorem isSlugChar_iff {ch : Char} (h : isIdChar ch = true) :
    (isSlugStart ch || ch == '_' || ch == '-') = true ↔ ch.isUpper = false := by
  rw [isIdChar, Bool.or_eq_true, Bool.or_eq_true, beq_iff_eq, beq_iff_eq] at h
  rcases h with (h | rfl) | rfl
  · have hdash : ch ≠ '_' ∧ ch ≠ '-' := by
      constructor <;>
      · rintro rfl
        exact absurd h (by decide)
    rw [beq_false_of_ne hdash.1, beq_false_of_ne hdash.2, Bool.or_false, Bool.or_false,
      isSlugStart_iff h]
  · decide
  · decide

/-- An identifier of an admin request has no capital letter. -/
theorem noCapital_of_slugPattern {id : Text} (h : slugPattern id = true) :
    ∀ ch ∈ id, ch.isUpper = false := by
  have hstart {ch : Char} (h : isSlugStart ch = true) : ch.isUpper = false := by
    refine (isSlugStart_iff ?_).mp h
    rw [isSlugStart, Bool.or_eq_true] at h
    rw [Char.isAlphanum, Char.isAlpha, Bool.or_eq_true, Bool.or_eq_true]
    exact h.imp_left .inr
  cases id with
  | nil => cases h
  | cons ch rest =>
    rw [slugPattern, Bool.and_eq_true, List.all_eq_true] at h
    refine List.forall_mem_cons.mpr ⟨hstart h.1, fun c hc ↦ ?_⟩
    have hslug := h.2 c hc
    rw [Bool.or_eq_true, Bool.or_eq_true, beq_iff_eq, beq_iff_eq] at hslug
    rcases hslug with (hslug | rfl) | rfl
    · exact hstart hslug
    · decide
    · decide

/-- An operator's identifier is one of an admin request exactly when it has no capital letter. -/
theorem slugPattern_iff {id : Text} (h : operatorConceptIdPattern id = true) :
    slugPattern id = true ↔ ∀ ch ∈ id, ch.isUpper = false := by
  cases id with
  | nil => cases h
  | cons ch rest =>
    rw [operatorConceptIdPattern, Bool.and_eq_true, Bool.and_eq_true, List.all_eq_true] at h
    rw [slugPattern, Bool.and_eq_true, List.all_eq_true, isSlugStart_iff h.1.1,
      List.forall_mem_cons]
    exact and_congr_right fun _ ↦ forall₂_congr fun c hc ↦ isSlugChar_iff (h.2 c hc)

theorem length_of_operatorConceptIdPattern {id : Text} (h : operatorConceptIdPattern id = true) :
    1 ≤ id.length ∧ id.length ≤ 64 := by
  cases id with
  | nil => cases h
  | cons ch rest =>
    rw [operatorConceptIdPattern, Bool.and_eq_true, Bool.and_eq_true, decide_eq_true_eq] at h
    rw [List.length_cons]
    omega

theorem operatorField_eq_ok {index : ℕ} {members : List (Text × Json)} {field value : Text} :
    operatorField index members field = .ok value ↔
      ∃ raw, Json.lookup members field = some (.str raw) ∧ strip raw = value ∧
        value ≠ [] ∧ value.length ≤ operatorConceptMaxTextLength := by
  rw [operatorField]
  split
  · rename_i raw h
    rw [h, ite_error_eq_ok, ite_error_eq_ok, Except.ok.injEq]
    constructor
    · rintro ⟨hne, hlen, rfl⟩
      exact ⟨raw, rfl, rfl, hne, Nat.le_of_not_lt hlen⟩
    · rintro ⟨raw', hraw, rfl, hne, hlen⟩
      cases hraw
      exact ⟨hne, Nat.not_lt.mpr hlen, rfl⟩
  · rename_i hnone
    exact ⟨nofun, fun ⟨raw, hraw, _⟩ ↦ absurd hraw (hnone raw)⟩

/-- Where a field of an operator's concept comes from. -/
def FromField (members : List (Text × Json)) (field value : Text) : Prop :=
  ∃ raw, Json.lookup members field = some (.str raw) ∧ strip raw = value ∧
    value ≠ [] ∧ value.length ≤ operatorConceptMaxTextLength

/-- The concept has been made from the row. -/
structure FromRow (members : List (Text × Json)) (c : Concept) : Prop where
  id : FromField members "concept_id".toList c.id
  idPattern : operatorConceptIdPattern c.id = true
  labelEn : FromField members "label_en".toList c.labelEn
  locale : ∃ locale, c.locale = some locale ∧ FromField members "locale".toList locale
  culturalHint : ∃ hint, c.culturalHint = some hint ∧
    FromField members "cultural_hint".toList hint

theorem fromRow_of_operatorConcept {index : ℕ} {mapping : Json} {c : Concept}
    (h : operatorConcept index mapping = .ok c) : ∃ members, mapping = .obj members ∧
      FromRow members c := by
  cases mapping with
  | obj members =>
    refine ⟨members, rfl, ?_⟩
    simp only [operatorConcept] at h
    rw [ite_error_eq_ok, ite_error_eq_ok] at h
    obtain ⟨-, -, h⟩ := h
    obtain ⟨conceptId, hid, h⟩ := bind_eq_ok.mp h
    obtain ⟨culturalHint, hhint, h⟩ := bind_eq_ok.mp h
    obtain ⟨labelEn, hlabel, h⟩ := bind_eq_ok.mp h
    obtain ⟨locale, hlocale, h⟩ := bind_eq_ok.mp h
    rw [ite_else_error_eq_ok] at h
    obtain ⟨hpattern, h⟩ := h
    cases h
    exact ⟨operatorField_eq_ok.mp hid, hpattern, operatorField_eq_ok.mp hlabel,
      ⟨locale, rfl, operatorField_eq_ok.mp hlocale⟩, culturalHint, rfl,
      operatorField_eq_ok.mp hhint⟩
  | _ => cases h

/-- Every concept comes from a row of the list. -/
theorem mem_of_operatorConcepts {index : ℕ} {seenIds : List Text} {mappings : List Json}
    {concepts : List Concept} (h : operatorConcepts index seenIds mappings = .ok concepts) :
    ∀ c ∈ concepts, ∃ members, .obj members ∈ mappings ∧ FromRow members c := by
  induction mappings generalizing index seenIds concepts with
  | nil =>
    cases h
    simp
  | cons mapping rest ih =>
    obtain ⟨concept, hconcept, h⟩ := bind_eq_ok.mp h
    rw [ite_error_eq_ok] at h
    obtain ⟨more, hmore, h⟩ := bind_eq_ok.mp h.2
    cases h
    obtain ⟨members, rfl, hrow⟩ := fromRow_of_operatorConcept hconcept
    rintro c (_ | ⟨_, hc⟩)
    · exact ⟨members, List.mem_cons_self, hrow⟩
    · obtain ⟨members', hmem, hrow'⟩ := ih hmore c hc
      exact ⟨members', List.mem_cons_of_mem _ hmem, hrow'⟩

/-- **What the reviewer can read**, of a concept an operator has provided. -/
def Concept.Reviewable (c : Concept) : Prop :=
  (∀ ch ∈ c.id, ch.isUpper = false) ∧ c.labelEn.length ≤ 120 ∧
    ∃ locale, c.locale = some locale ∧ locale.length ≤ 120

/-- Of an operator's concept the reader checks nothing else the writer has not checked. -/
theorem FromRow.admissible_iff {members : List (Text × Json)} {c : Concept}
    (h : FromRow members c) : c.Admissible ↔ c.Reviewable := by
  obtain ⟨hpos, hlen⟩ := length_of_operatorConceptIdPattern h.idPattern
  obtain ⟨-, -, -, hlabel, -⟩ := h.labelEn
  obtain ⟨locale, hlocale, -, -, -, hne, -⟩ := h.locale
  obtain ⟨hint, hhint, -, -, -, hhintne, hhintlen⟩ := h.culturalHint
  have hlabel' := List.length_pos_of_ne_nil hlabel
  have hlocale' := List.length_pos_of_ne_nil hne
  have hhint' := List.length_pos_of_ne_nil hhintne
  constructor
  · rintro ⟨⟨-, -, hslug⟩, ⟨-, hlabellen, -⟩, ⟨l, hl, -, hllen, -⟩, -⟩
    exact ⟨(slugPattern_iff h.idPattern).mp hslug, hlabellen, l, hl, hllen⟩
  · rintro ⟨hid, hlabellen, l, hl, hllen⟩
    cases hlocale.symm.trans hl
    exact ⟨⟨hpos, Nat.le_trans hlen (by decide), (slugPattern_iff h.idPattern).mpr hid⟩,
      ⟨hlabel', hlabellen, rfl⟩, ⟨locale, hl, hlocale', hllen, rfl⟩, hint, hhint, hhint', hhintlen,
      rfl⟩

theorem strip_sublist (s : Text) : (strip s).Sublist s := by
  rw [strip_eq]
  exact (List.rdropWhile_prefix _ _).sublist.trans (List.dropWhile_suffix _).sublist

/-- A row that has been validated makes a concept the reviewer can read. -/
theorem FromRow.reviewable {input : AdminConceptInput} {members : List (Text × Json)} {c : Concept}
    (h : FromRow members c) (hm : input.modelDump = .obj members) : c.Reviewable := by
  cases hm
  obtain ⟨id, hid, hidc, -⟩ := h.id
  obtain ⟨label, hlabel, hlabelc, -⟩ := h.labelEn
  obtain ⟨locale, hc, raw, hraw, hlocalec, -⟩ := h.locale
  cases hid
  cases hlabel
  cases hraw
  have hsub := strip_sublist input.labelEn
  have hsub' := strip_sublist input.locale
  obtain ⟨-, hlen, -⟩ := input.labelEn_admitted
  obtain ⟨-, hlen', -⟩ := input.locale_admitted
  refine ⟨fun ch hch ↦ ?_, ?_, locale, hc, ?_⟩
  · rw [← hidc] at hch
    have hmem := (strip_sublist input.conceptId).subset hch
    obtain ⟨-, -, hslug⟩ := input.conceptId_admitted
    exact noCapital_of_slugPattern hslug ch hmem
  · rw [← hlabelc]
    exact hsub.length_le.trans hlen
  · rw [← hlocalec]
    exact hsub'.length_le.trans hlen'

theorem concepts_eq_dump_of_rows {payload : Json} {expectedCount : ℕ} {rows : List Json}
    (h : operatorRowsFromPayload payload expectedCount = .ok rows) :
    ∃ inputs : List AdminConceptInput, rows = inputs.map AdminConceptInput.modelDump := by
  cases payload with
  | obj members =>
    rw [operatorRowsFromPayload] at h
    split at h
    · rw [ite_error_eq_ok] at h
      obtain ⟨inputs, -, h⟩ := bind_eq_ok.mp h.2
      rw [ite_error_eq_ok] at h
      exact ⟨inputs, (pure_eq_ok.mp h.2).symm⟩
    · cases h
  | _ => cases h

theorem rows_of_inventAttempts {cardCount : ℕ} {answers : List Json} {concepts : List Concept}
    (h : inventAttempts cardCount answers = .ok concepts) :
    ∃ inputs : List AdminConceptInput,
      conceptsFromOperatorMappings (inputs.map AdminConceptInput.modelDump) = .ok concepts := by
  induction answers with
  | nil => cases h
  | cons answer rest ih =>
    rw [inventAttempts, ite_else_error_eq_ok] at h
    obtain ⟨-, h⟩ := h
    split at h
    · rename_i concepts' hconcepts
      cases h
      obtain ⟨rows, hrows, hconcepts⟩ := bind_eq_ok.mp hconcepts
      obtain ⟨inputs, rfl⟩ := concepts_eq_dump_of_rows hrows
      exact ⟨inputs, hconcepts⟩
    · exact ih h

theorem rows_of_loadOperatorDeckFile {payload : Json} {concepts : List Concept}
    (h : loadOperatorDeckFile payload = .ok concepts) :
    ∃ mappings, conceptsFromOperatorMappings mappings = .ok concepts := by
  obtain ⟨payload, -, h⟩ := bind_eq_ok.mp h
  split at h
  · rename_i mappings
    obtain ⟨concepts', hconcepts, h⟩ := bind_eq_ok.mp h
    rw [ite_error_eq_ok] at h
    cases pure_eq_ok.mp h.2
    exact ⟨mappings, hconcepts⟩
  · cases h

theorem eq_of_explicitConcepts {cards : Option ℕ} {concepts concepts' : List Concept}
    (h : explicitConcepts cards concepts = .ok concepts') : concepts' = concepts := by
  rw [explicitConcepts, ite_error_eq_ok, ite_error_eq_ok] at h
  exact (Except.ok.inj h.2.2).symm

theorem locale_of_mem_CONCEPTS : ∀ c ∈ CONCEPTS, c.locale = none := by decide

/-- The curated concepts of a build: some of the list, and not none of them. -/
theorem curated_concepts {cards : Option ℕ} {shuffled : Shuffled} {concepts : List Concept}
    (h : (Source.cli cards none shuffled).concepts = .ok concepts) :
    concepts ≠ [] ∧ ∀ c ∈ concepts, c.locale = none := by
  obtain ⟨file, hfile, h⟩ := bind_eq_ok.mp h
  cases pure_eq_ok.mp hfile
  obtain ⟨count, hcount, h⟩ := bind_eq_ok.mp h
  simp only [cliCardCount] at hcount
  rw [ite_error_eq_ok, ite_error_eq_ok] at hcount
  cases hcount.2.2
  rw [selectedConcepts, selectConcepts, ite_error_eq_ok] at h
  obtain ⟨hle, h⟩ := h
  cases h
  have hlen := shuffled.perm.length_eq
  refine ⟨fun hnil ↦ ?_, fun c hc ↦ ?_⟩
  · have := congrArg List.length hnil
    rw [List.length_take, List.length_nil] at this
    simp only [Option.getD_some] at this hle
    omega
  · exact locale_of_mem_CONCEPTS c (shuffled.perm.mem_iff.mp (List.mem_of_mem_take hc))

/-- The concepts were validated as those of an admin request. -/
def Source.isAdmin : Source → Bool
  | .cli _ _ _ => false
  | .request _ => true
  | .prompt _ _ => true

theorem rows_of_isAdmin {source : Source} (hadmin : source.isAdmin = true) {concepts : List Concept}
    (h : source.concepts = .ok concepts) : ∃ inputs : List AdminConceptInput,
      conceptsFromOperatorMappings (inputs.map AdminConceptInput.modelDump) = .ok concepts := by
  match source with
  | .request rows =>
    obtain ⟨concepts', hconcepts, h⟩ := bind_eq_ok.mp h
    cases eq_of_explicitConcepts h
    exact ⟨rows.concepts, hconcepts⟩
  | .prompt cardCount answers =>
    obtain ⟨concepts', hconcepts, h⟩ := bind_eq_ok.mp h
    cases eq_of_explicitConcepts h
    rw [inventConceptsFromPrompt, ite_error_eq_ok] at hconcepts
    exact rows_of_inventAttempts hconcepts.2

/-- Whatever the source, what the reader checks of a concept comes to `Concept.Reviewable`. -/
theorem admissible_iff_reviewable {source : Source} {concepts : List Concept}
    (h : source.concepts = .ok concepts) {c : Concept} (hc : c ∈ concepts) :
    c.Admissible ↔ c.Reviewable := by
  have hrows {mappings : List Json} (h : conceptsFromOperatorMappings mappings = .ok concepts) :
      c.Admissible ↔ c.Reviewable := by
    obtain ⟨members, -, hrow⟩ := mem_of_operatorConcepts h c hc
    exact hrow.admissible_iff
  match source with
  | .cli cards none shuffled =>
    have hlocale := (curated_concepts h).2 c hc
    constructor
    · rintro ⟨-, -, ⟨locale, hsome, -⟩, -⟩
      exact absurd (hlocale.symm.trans hsome) nofun
    · rintro ⟨-, -, locale, hsome, -⟩
      exact absurd (hlocale.symm.trans hsome) nofun
  | .cli cards (some file) shuffled =>
    obtain ⟨file', hfile, h⟩ := bind_eq_ok.mp h
    obtain ⟨loaded, hloaded, hfile⟩ := bind_eq_ok.mp hfile
    cases pure_eq_ok.mp hfile
    obtain ⟨count, -, h⟩ := bind_eq_ok.mp h
    cases eq_of_explicitConcepts h
    obtain ⟨mappings, hmappings⟩ := rows_of_loadOperatorDeckFile hloaded
    exact hrows hmappings
  | .request rows =>
    obtain ⟨inputs, hinputs⟩ := rows_of_isAdmin rfl h
    exact hrows hinputs
  | .prompt cardCount answers =>
    obtain ⟨inputs, hinputs⟩ := rows_of_isAdmin rfl h
    exact hrows hinputs

theorem reviewable_of_isAdmin {source : Source} (hadmin : source.isAdmin = true)
    {concepts : List Concept} (h : source.concepts = .ok concepts) :
    ∀ c ∈ concepts, c.Reviewable := by
  intro c hc
  obtain ⟨inputs, hinputs⟩ := rows_of_isAdmin hadmin h
  obtain ⟨members, hmem, hrow⟩ := mem_of_operatorConcepts hinputs c hc
  obtain ⟨input, -, hdump⟩ := List.mem_map.mp hmem
  exact hrow.reviewable hdump

/-! ## The result -/

/-- The review of the finished deck returns every concept of the build, in order. -/
def ReadsBack (store : Json.Store) (details : BuildDetails) (status : DeckStatus)
    (concepts : List Concept) : Prop :=
  ∃ inputs, reviewConcepts status (store.read (.obj (buildGenerationInput details concepts))) =
    .ok inputs ∧ inputs.map AdminConceptInput.concept = concepts

/-- **The reviewer reads back what the build has written exactly when the identifiers have no
capital letter, the labels are no longer than 120 characters, and every concept has a locale no
longer than that.**  The concepts of an admin request are always read back, those of the curated
list never. -/
theorem review_reads_back (store : Json.Store) (details : BuildDetails) {source : Source}
    {concepts : List Concept} (h : source.concepts = .ok concepts) {status : DeckStatus}
    (hs : status ≠ .generating) :
    (ReadsBack store details status concepts ↔ ∀ c ∈ concepts, c.Reviewable) ∧
    (source.isAdmin = true → ReadsBack store details status concepts) ∧
    ∀ cards shuffled, source = .cli cards none shuffled →
      ¬ReadsBack store details status concepts := by
  have hiff : ReadsBack store details status concepts ↔ ∀ c ∈ concepts, c.Reviewable := by
    have hread : ReadsBack store details status concepts ↔ ∃ inputs : List AdminConceptInput,
        inputs.map AdminConceptInput.concept = concepts :=
      exists_congr fun inputs ↦ by rw [reviewConcepts_read details concepts hs, and_self]
    rw [hread, exists_inputs_iff]
    exact forall₂_congr fun c hc ↦ admissible_iff_reviewable h hc
  refine ⟨hiff, fun hadmin ↦ hiff.mpr (reviewable_of_isAdmin hadmin h), ?_⟩
  rintro cards shuffled rfl hback
  obtain ⟨hne, hlocale⟩ := curated_concepts h
  obtain ⟨c, hc⟩ := List.exists_mem_of_ne_nil concepts hne
  obtain ⟨-, -, locale, hsome, -⟩ := hiff.mp hback c hc
  exact absurd ((hlocale c hc).symm.trans hsome) nofun

/-! ## A deck that is read back, and one that is not -/

/-- An operator's row. -/
def operatorRow (conceptId : String) : Json :=
  .obj [("concept_id".toList, .str conceptId.toList), ("label_en".toList, .str "kite".toList),
    ("locale".toList, .str "Assam".toList), ("cultural_hint".toList, .str "a red kite".toList)]

/-- A file with six concepts. -/
def operatorFile : Json :=
  .arr (["kite", "drum", "goat", "boat", "loom", "bell"].map operatorRow)

/-- The curated list as it stands. -/
def unshuffled : Shuffled := ⟨CONCEPTS, .refl _⟩

/-- What the command line makes of it. -/
def operatorDeck : List Concept :=
  ["kite", "drum", "goat", "boat", "loom", "bell"].map fun conceptId ↦
    ⟨conceptId.toList, "kite".toList, some "Assam".toList, some "a red kite".toList⟩

/-- A file of concepts with short texts and without capital letters. -/
theorem review_reads_back_file :
    (Source.cli none (some operatorFile) unshuffled).concepts = .ok operatorDeck ∧
      ReadsBack .verbatim ⟨"assam".toList, none, true, none, none⟩ .ready operatorDeck := by
  have hconcepts :
      (Source.cli none (some operatorFile) unshuffled).concepts = .ok operatorDeck := rfl
  have hback : ReadsBack .verbatim ⟨"assam".toList, none, true, none, none⟩ .ready operatorDeck ↔
      ∀ c ∈ operatorDeck, c.Reviewable := (review_reads_back _ _ hconcepts (by decide)).1
  exact ⟨hconcepts, hback.mpr (by simp [operatorDeck, Concept.Reviewable])⟩

/-- A curated deck has been published, and its review raises. -/
theorem curated_unreviewable : ∃ concepts,
    (Source.cli none none unshuffled).concepts = .ok concepts ∧
      reviewConcepts .live (Json.Store.verbatim.read
        (.obj (buildGenerationInput ⟨"assam".toList, none, false, none, none⟩ concepts))) =
        .error (.validation [("locale".toList, .stringType),
          ("cultural_hint".toList, .stringType)]) :=
  ⟨CONCEPTS.take 30, rfl, rfl⟩

end Neva.Deckgen
