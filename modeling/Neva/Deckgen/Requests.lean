import Neva.Calls.Always
import Neva.Deckgen.Build

/-!
# Concepts of an admin request

A request with explicit concepts is answered with `generating` once `AdminConceptInput` and
`AdminDeckGenerateRequest` have accepted it, and only then are its concepts converted, by
`concepts_from_operator`.  The two checks have been written separately.  What the first one admits
and the second one refuses are identifiers of 65 to 80 characters, and fields that are nothing but
blanks: the second check strips before it looks.  The region is checked twice as well, first for
its shape and then by `resolve_region_context`, which only knows some.  `serves_iff` says
that there is nothing else: a request without those has its concepts converted in order, and the
build can come to its end.
-/

set_option autoImplicit false

namespace Neva.Deckgen

open Raising Calls

/-! ## One row -/

/-- What the conversion asks of an input beyond its validation. -/
structure AdminConceptInput.Convertible (c : AdminConceptInput) : Prop where
  idLength : c.conceptId.length ≤ 64
  labelEn : strip c.labelEn ≠ []
  locale : strip c.locale ≠ []
  culturalHint : strip c.culturalHint ≠ []

/-- The concept an input is converted into. -/
def AdminConceptInput.converted (c : AdminConceptInput) : Concept :=
  ⟨c.conceptId, strip c.labelEn, some (strip c.locale), some (strip c.culturalHint)⟩

/-- Text without blanks is stripped already. -/
theorem strip_of_noSpace {s : Text} (h : ∀ c ∈ s, isSpace c = false) : strip s = s := by
  have hhead : s.dropWhile isSpace = s := by
    rw [List.dropWhile_eq_self_iff]
    intro hpos
    simp [h _ (List.getElem_mem hpos)]
  have hlast : s.rdropWhile isSpace = s := by
    rw [List.rdropWhile_eq_self_iff]
    intro hne
    simp [h _ (List.getLast_mem hne)]
  rw [strip_eq, hhead, hlast]

theorem isIdChar_of_slug {ch : Char} (h : (isSlugStart ch || ch == '_' || ch == '-') = true) :
    isIdChar ch = true := by
  simp only [isSlugStart, isIdChar, Char.isAlphanum, Char.isAlpha, Bool.or_eq_true] at h ⊢
  tauto

theorem isSpace_of_isIdChar {ch : Char} (h : isIdChar ch = true) : isSpace ch = false := by
  rw [isIdChar, Bool.or_eq_true, Bool.or_eq_true, beq_iff_eq, beq_iff_eq] at h
  rcases h with (h | rfl) | rfl
  · have hA : 'A'.toNat = 65 := rfl
    have hZ : 'Z'.toNat = 90 := rfl
    have ha : 'a'.toNat = 97 := rfl
    have hz : 'z'.toNat = 122 := rfl
    have h0 : '0'.toNat = 48 := rfl
    have h9 : '9'.toNat = 57 := rfl
    have hn : ch.toNat = ch.val.toNat := rfl
    simp [Char.isAlphanum, Char.isAlpha, Char.isUpper, Char.isLower, Char.isDigit,
      UInt32.le_iff_toNat_le] at h
    simp only [isSpace, hn, Bool.or_eq_false_iff, Bool.and_eq_false_iff, decide_eq_false_iff_not,
      beq_eq_false_iff_ne]
    omega
  · decide
  · decide

/-- An identifier of an admin request is one of an operator's if it is not too long. -/
theorem operatorConceptIdPattern_iff {id : Text} (h : slugPattern id = true) :
    operatorConceptIdPattern id = true ↔ id.length ≤ 64 := by
  cases id with
  | nil => cases h
  | cons ch rest =>
    rw [slugPattern, Bool.and_eq_true, List.all_eq_true] at h
    have hstart : ch.isAlphanum = true := by
      have hslug := h.1
      simp only [isSlugStart, Char.isAlphanum, Char.isAlpha, Bool.or_eq_true] at hslug ⊢
      tauto
    have hrest : rest.all isIdChar = true :=
      List.all_eq_true.mpr fun c hc ↦ isIdChar_of_slug (h.2 c hc)
    rw [operatorConceptIdPattern, hstart, hrest, List.length_cons, Bool.true_and, Bool.and_true,
      decide_eq_true_eq]
    omega

/-- All of a slug is made of the same letters. -/
theorem forall_of_slugPattern {s : Text} (h : slugPattern s = true) :
    ∀ ch ∈ s, (isSlugStart ch || ch == '_' || ch == '-') = true := by
  cases s with
  | nil => cases h
  | cons first rest =>
    rw [slugPattern, Bool.and_eq_true, List.all_eq_true] at h
    intro ch hch
    rcases List.mem_cons.mp hch with rfl | hch
    · rw [h.1, Bool.true_or, Bool.true_or]
    · exact h.2 ch hch

theorem strip_conceptId (c : AdminConceptInput) : strip c.conceptId = c.conceptId :=
  strip_of_noSpace fun ch hch ↦
    isSpace_of_isIdChar (isIdChar_of_slug (forall_of_slugPattern c.conceptId_admitted.2.2 ch hch))

/-- A field of a row that holds a string of at most 500 characters. -/
theorem operatorField_of_lookup {index : ℕ} {members : List (Text × Json)} {field raw value : Text}
    (h : Json.lookup members field = some (.str raw)) (hlen : raw.length ≤ 500) :
    operatorField index members field = .ok value ↔ strip raw ≠ [] ∧ value = strip raw := by
  rw [operatorField_eq_ok]
  have hstrip : (strip raw).length ≤ operatorConceptMaxTextLength :=
    (strip_sublist raw).length_le.trans hlen
  constructor
  · rintro ⟨raw', hraw, rfl, hne, -⟩
    cases h.symm.trans hraw
    exact ⟨hne, rfl⟩
  · rintro ⟨hne, rfl⟩
    exact ⟨raw, h, rfl, hne, hstrip⟩

/-- The conversion of one row. -/
theorem operatorConcept_modelDump {index : ℕ} {c : AdminConceptInput} {concept : Concept} :
    operatorConcept index c.modelDump = .ok concept ↔ c.Convertible ∧ concept = c.converted := by
  obtain ⟨hidpos, hidlen, hslug⟩ := c.conceptId_admitted
  obtain ⟨-, hlabel, -⟩ := c.labelEn_admitted
  obtain ⟨-, hlocale, -⟩ := c.locale_admitted
  obtain ⟨-, hhint, -⟩ := c.culturalHint_admitted
  have hslug : slugPattern c.conceptId = true := hslug
  have hidne : strip c.conceptId ≠ [] := by
    rw [strip_conceptId]
    exact List.ne_nil_of_length_pos hidpos
  set members : List (Text × Json) :=
    [("concept_id".toList, .str c.conceptId), ("label_en".toList, .str c.labelEn),
      ("locale".toList, .str c.locale), ("cultural_hint".toList, .str c.culturalHint)] with hmembers
  have hfield (field raw : Text) (value : Text)
      (h : Json.lookup members field = some (.str raw)) (hlen : raw.length ≤ 500) :=
    @operatorField_of_lookup index members field raw value h hlen
  have hid (value : Text) := hfield "concept_id".toList c.conceptId value rfl
    (hidlen.trans (by decide))
  have hlabel (value : Text) := hfield "label_en".toList c.labelEn value rfl
    (hlabel.trans (by decide))
  have hlocale (value : Text) := hfield "locale".toList c.locale value rfl
    (hlocale.trans (by decide))
  have hhint (value : Text) := hfield "cultural_hint".toList c.culturalHint value rfl hhint
  have hmissing : (requiredFields.filter fun field ↦ field ∉ members.map Prod.fst) = [] := by
    show (requiredFields.filter fun field ↦ field ∉ ["concept_id".toList, "label_en".toList,
      "locale".toList, "cultural_hint".toList]) = []
    decide
  have hunknown : ((members.map Prod.fst).filter fun name ↦ name ∉ requiredFields) = [] := by
    show (["concept_id".toList, "label_en".toList, "locale".toList,
      "cultural_hint".toList].filter fun name ↦ name ∉ requiredFields) = []
    decide
  rw [AdminConceptInput.modelDump, ← hmembers]
  simp only [operatorConcept, hmissing, hunknown, ne_eq, not_true_eq_false, if_false]
  simp only [bind_eq_ok, hid, hhint, hlabel, hlocale, ite_else_error_eq_ok, pure_eq_ok]
  constructor
  · rintro ⟨id, ⟨-, rfl⟩, hint, ⟨hhintne, rfl⟩, label, ⟨hlabelne, rfl⟩, locale, ⟨hlocalene, rfl⟩,
      hpattern, rfl⟩
    rw [strip_conceptId, operatorConceptIdPattern_iff hslug] at hpattern
    refine ⟨⟨hpattern, hlabelne, hlocalene, hhintne⟩, ?_⟩
    rw [strip_conceptId, AdminConceptInput.converted]
  · rintro ⟨hc, rfl⟩
    refine ⟨_, ⟨hidne, rfl⟩, _, ⟨hc.culturalHint, rfl⟩, _, ⟨hc.labelEn, rfl⟩, _, ⟨hc.locale, rfl⟩,
      ?_, ?_⟩
    · rw [strip_conceptId]
      exact (operatorConceptIdPattern_iff hslug).mpr hc.idLength
    · rw [strip_conceptId, AdminConceptInput.converted]

/-! ## The whole request -/

/-- The loop over rows with different identifiers. -/
theorem operatorConcepts_modelDump {index : ℕ} {seenIds : List Text}
    {inputs : List AdminConceptInput} {concepts : List Concept}
    (hnew : ∀ c ∈ inputs, c.conceptId ∉ seenIds)
    (hunique : (inputs.map AdminConceptInput.conceptId).Nodup) :
    operatorConcepts index seenIds (inputs.map AdminConceptInput.modelDump) = .ok concepts ↔
      (∀ c ∈ inputs, c.Convertible) ∧ concepts = inputs.map AdminConceptInput.converted := by
  induction inputs generalizing index seenIds concepts with
  | nil =>
    rw [List.map_nil, operatorConcepts, Except.ok.injEq, eq_comm]
    simp
  | cons c inputs ih =>
    obtain ⟨hfresh, hunique⟩ := List.nodup_cons.mp hunique
    have hnew' : ∀ c' ∈ inputs, c'.conceptId ∉ c.converted.id :: seenIds := by
      intro c' hc' hmem
      rcases List.mem_cons.mp hmem with heq | hmem
      · have hsame : c'.conceptId = c.conceptId := heq
        exact hfresh (hsame ▸ List.mem_map_of_mem hc')
      · exact hnew c' (List.mem_cons_of_mem _ hc') hmem
    have hrest (more : List Concept) :=
      @ih (index + 1) (c.converted.id :: seenIds) more hnew' hunique
    rw [List.map_cons, operatorConcepts, bind_eq_ok, List.forall_mem_cons, List.map_cons]
    constructor
    · rintro ⟨concept, hconcept, h⟩
      obtain ⟨hc, rfl⟩ := operatorConcept_modelDump.mp hconcept
      rw [ite_error_eq_ok] at h
      obtain ⟨more, hmore, h⟩ := bind_eq_ok.mp h.2
      obtain ⟨hall, rfl⟩ := (hrest more).mp hmore
      exact ⟨⟨hc, hall⟩, (pure_eq_ok.mp h).symm⟩
    · rintro ⟨⟨hc, hall⟩, rfl⟩
      refine ⟨_, operatorConcept_modelDump.mpr ⟨hc, rfl⟩, ?_⟩
      rw [ite_error_eq_ok]
      exact ⟨hnew c List.mem_cons_self,
        bind_eq_ok.mpr ⟨_, (hrest _).mpr ⟨hall, rfl⟩, rfl⟩⟩

/-- The concepts of the request are converted, each in its place. -/
def AdminDeckGenerateRequest.Converts (request : AdminDeckGenerateRequest) : Prop :=
  ∃ concepts, request.toConcepts = .ok concepts ∧
    concepts.map Concept.id = request.concepts.map AdminConceptInput.conceptId

/-- What the request is converted into. -/
theorem toConcepts_eq_ok {request : AdminDeckGenerateRequest} {concepts : List Concept} :
    request.toConcepts = .ok concepts ↔ (∀ c ∈ request.concepts, c.Convertible) ∧
      concepts = request.concepts.map AdminConceptInput.converted :=
  operatorConcepts_modelDump (fun _ _ ↦ List.not_mem_nil) request.unique

theorem ids_converted (inputs : List AdminConceptInput) :
    (inputs.map AdminConceptInput.converted).map Concept.id =
      inputs.map AdminConceptInput.conceptId := by
  rw [List.map_map]
  rfl

/-- A request is converted exactly when no identifier is longer than 64 characters and no field is
blank. -/
theorem converts_iff (request : AdminDeckGenerateRequest) :
    request.Converts ↔ ∀ c ∈ request.concepts, c.Convertible := by
  constructor
  · rintro ⟨concepts, h, -⟩
    exact (toConcepts_eq_ok.mp h).1
  · intro hall
    exact ⟨_, toConcepts_eq_ok.mpr ⟨hall, rfl⟩, ids_converted _⟩

/-! ## The region -/

/-- The tag is one `resolve_region_context` knows. -/
def AdminDeckGenerateRequest.RegionKnown (request : AdminDeckGenerateRequest) : Prop :=
  ∃ r ∈ REGION_CONTEXTS, r.1.toList = request.regionTag

theorem toLower_of_slug {ch : Char} (h : (isSlugStart ch || ch == '_' || ch == '-') = true) :
    ch.toLower = ch := by
  have hupper : ch.isUpper = false := by
    rw [isSlugStart, Bool.or_eq_true, Bool.or_eq_true, Bool.or_eq_true, beq_iff_eq,
      beq_iff_eq] at h
    rcases h with ((h | h) | rfl) | rfl
    · simp [Char.isLower, Char.isUpper, UInt32.le_iff_toNat_le] at h ⊢
      omega
    · simp [Char.isDigit, Char.isUpper, UInt32.le_iff_toNat_le] at h ⊢
      omega
    · rfl
    · rfl
  rw [Char.toLower]
  simp only [Char.isUpper, ge_iff_le, decide_eq_false_iff_not] at hupper
  exact dif_neg hupper

/-- The tag has been lowered and stripped already. -/
theorem key_regionTag (request : AdminDeckGenerateRequest) :
    (strip request.regionTag).map Char.toLower = request.regionTag := by
  have hall : ∀ ch ∈ request.regionTag, (isSlugStart ch || ch == '_' || ch == '-') = true :=
    forall_of_slugPattern request.regionTag_admitted.2.2
  rw [strip_of_noSpace fun ch hch ↦ isSpace_of_isIdChar (isIdChar_of_slug (hall ch hch))]
  exact (List.map_congr_left fun ch hch ↦ toLower_of_slug (hall ch hch)).trans (List.map_id _)

theorem resolveRegionContext_iff (request : AdminDeckGenerateRequest) :
    (∃ context, resolveRegionContext request.regionTag = .ok context) ↔ request.RegionKnown := by
  simp only [resolveRegionContext, key_regionTag]
  constructor
  · rintro ⟨context, h⟩
    split at h
    · cases h
    · rename_i r hr
      have hkey := List.find?_some hr
      exact ⟨r, List.mem_of_find?_eq_some hr, beq_iff_eq.mp hkey⟩
  · rintro ⟨r, hr, hkey⟩
    split
    · rename_i hnone
      exact absurd (beq_iff_eq.mpr hkey) (List.find?_eq_none.mp hnone r hr)
    · exact ⟨_, rfl⟩

/-! ## The build -/

/-- The cards of concepts that got their numbers as identifiers. -/
def numbered (concepts : List Concept) : List BuiltCard :=
  concepts.mapIdx fun n concept ↦ ⟨n, concept⟩

/-- The tasks of concepts whose cards have been built, with those identifiers. -/
def finishedTasks (concepts : List Concept) : List Task :=
  concepts.mapIdx fun n concept ↦ ⟨concept, some n⟩

theorem filterMap_finishedTasks (concepts : List Concept) :
    (finishedTasks concepts).filterMap Task.built = numbered concepts := by
  induction concepts using List.reverseRecOn with
  | nil => rfl
  | append_singleton concepts concept ih =>
    rw [finishedTasks, numbered, List.mapIdx_concat, List.mapIdx_concat, List.filterMap_append]
    exact congrArg (· ++ _) ih

/-- The tasks can get done in order. -/
theorem gather_completes {deckId : Option Uuid} (done rest : List Concept) :
    (gather (.atomic deckId) rest.length
      (finishedTasks done ++ rest.map fun concept ↦ ⟨concept, none⟩)).Completes
      (· = numbered (done ++ rest)) := by
  induction rest generalizing done with
  | nil =>
    rw [List.map_nil, List.append_nil, List.append_nil]
    exact filterMap_finishedTasks done
  | cons concept rest ih =>
    have hlen : (finishedTasks done).length = done.length := List.length_mapIdx
    have hfinished : finishedTasks (done ++ [concept]) =
        finishedTasks done ++ [⟨concept, some done.length⟩] := List.mapIdx_concat
    have hdone := ih (done ++ [concept])
    rw [hfinished, List.append_assoc, List.append_assoc] at hdone
    refine Prog.Completes.bind (R := (· = (done.length, done.length)))
      (Prog.completes_perform (b := (done.length, done.length)) rfl) ?_
    rintro _ rfl
    simp only [List.map_cons, ← hlen, List.getElem?_append_right le_rfl, Nat.sub_self,
      List.getElem?_cons_zero, List.set_append_right _ _ le_rfl, List.set_cons_zero]
    rw [hlen]
    exact hdone

theorem finish_completes {deckId : Uuid} {doc : Json} {built : List BuiltCard}
    {decoyUuids : Mapping} {final : FinalStatus} :
    (Target.finish (.atomic (some deckId)) doc built decoyUuids final).Completes
      fun _ ↦ True := by
  have hcall (op : DeckOp Unit) : (Prog.perform op : Build Unit).Completes fun _ ↦ True :=
    Prog.completes_perform (b := ()) trivial
  have htwo (op op' : DeckOp Unit) :
      (Prog.perform op >>= fun _ ↦ Prog.perform op' : Build Unit).Completes fun _ ↦ True :=
    (hcall op).bind fun _ _ ↦ hcall op'
  exact (htwo _ _).tryCatch.bind fun _ _ ↦ (htwo _ _).tryCatch.ensuring

theorem assignDecoys_completes {concepts : List Concept}
    (hids : (concepts.map Concept.id).Nodup) (hlen : nDecoys < concepts.length) :
    (assignDecoys (numbered concepts)).Completes fun _ ↦ True := by
  have hcards : (numbered concepts).map BuiltCard.cardId = List.range concepts.length :=
    List.ext_getElem (by simp [numbered]) (by simp [numbered])
  have hconcepts : (numbered concepts).map (fun c ↦ c.concept.id) = concepts.map Concept.id :=
    List.ext_getElem (by simp [numbered]) (by simp [numbered])
  have hlen : nDecoys < (numbered concepts).length := by simpa [numbered] using hlen
  obtain ⟨rows, decoyUuids, hrows⟩ :=
    exists_decoys (hcards ▸ List.nodup_range) (hconcepts ▸ hids) hlen
  refine Prog.Completes.bind (R := (· = rows)) (Prog.completes_perform (b := rows) rfl) ?_
  rintro _ rfl
  rw [hrows]
  exact trivial

/-- The build of a request whose region is known can come to its end. -/
theorem buildDeck_completes {o : BuildOrder} {concepts : List Concept} {context : Text}
    {deckId : Uuid} (hregion : resolveRegionContext o.region = .ok context)
    (hprogressive : o.progressive = false) (hdeck : o.deckId = some deckId)
    (hselected : selectedConcepts o.cards o.concepts o.shuffled = .ok concepts)
    (hlen : nDecoys < concepts.length) : (buildDeck o).Completes fun _ ↦ True := by
  have hcall (what : Await) : (Prog.perform (.await what) : Build Unit).Completes fun _ ↦ True :=
    Prog.completes_perform (b := ()) trivial
  have hattempt : (buildAttempt o (.atomic (some deckId))).Completes fun _ ↦ True := by
    simp only [buildAttempt, hselected]
    refine (hcall .translateLabels).bind fun _ _ ↦ ?_
    refine Prog.Completes.bind (gather_completes [] concepts) ?_
    rintro _ rfl
    exact (assignDecoys_completes (nodup_selectedConcepts hselected) hlen).bind fun _ _ ↦
      finish_completes
  rw [buildDeck, hprogressive, hdeck]
  simp only [buildFor, hregion]
  exact (hcall .prepare).bind fun _ _ ↦ hattempt.tryCatch.bind fun _ _ ↦ hcall .report

/-! ## The result -/

/-- The build that is started for the request can come to its end, if nobody it asks fails it. -/
def AdminDeckGenerateRequest.CanFinish (request : AdminDeckGenerateRequest) : Prop :=
  ∀ deckId, (DeckAdminService.generate deckId request).Completes fun _ ↦ True

theorem canFinish_iff (request : AdminDeckGenerateRequest) :
    request.CanFinish ↔ (∀ c ∈ request.concepts, c.Convertible) ∧ request.RegionKnown := by
  constructor
  · intro h
    have h := h 0
    rw [DeckAdminService.generate] at h
    split at h
    · exact (Prog.not_completes_raise h).elim
    · rename_i concepts hconcepts
      refine ⟨(toConcepts_eq_ok.mp hconcepts).1, (resolveRegionContext_iff request).mp ?_⟩
      simp only [buildDeck, DeckAdminService.order, buildFor] at h
      cases hregion : resolveRegionContext request.regionTag with
      | ok context => exact ⟨context, rfl⟩
      | error e =>
        rw [hregion] at h
        exact (Prog.not_completes_raise h).elim
  · rintro ⟨hall, hregion⟩ deckId
    have hconcepts := toConcepts_eq_ok.mpr ⟨hall, rfl⟩
    obtain ⟨context, hcontext⟩ := (resolveRegionContext_iff request).mpr hregion
    have hids := ids_converted request.concepts
    have hunique : ((request.concepts.map AdminConceptInput.converted).map Concept.id).Nodup :=
      hids ▸ request.unique
    have hlen : nDecoys < (request.concepts.map AdminConceptInput.converted).length := by
      rw [List.length_map]
      exact request.minLength
    set concepts := request.concepts.map AdminConceptInput.converted
    have hselected : selectedConcepts none (some concepts) unshuffled = .ok concepts := by
      simp only [selectedConcepts, explicitConcepts, Option.any_none, hunique, not_true_eq_false,
        Bool.false_eq_true, if_false]
    have hbuild := buildDeck_completes (o := DeckAdminService.order deckId request concepts)
      hcontext rfl rfl hselected hlen
    rw [DeckAdminService.generate, hconcepts]
    exact hbuild.bind fun _ _ ↦ Prog.completes_perform (b := ()) trivial

/-- An accepted request is converted, and nothing in it makes the build fail. -/
def AdminDeckGenerateRequest.Serves (request : AdminDeckGenerateRequest) : Prop :=
  request.Converts ∧ request.CanFinish

/-- **What becomes of an accepted request.**  It is converted and can be built exactly when no
identifier is longer than 64 characters, no field is blank and the region is a known one. -/
theorem serves_iff (request : AdminDeckGenerateRequest) :
    request.Serves ↔ (∀ c ∈ request.concepts, c.Convertible) ∧ request.RegionKnown := by
  rw [AdminDeckGenerateRequest.Serves, converts_iff, canFinish_iff]
  tauto

/-! ## Requests that are accepted and fail -/

/-- A concept with everything but an identifier. -/
def kiteInput (conceptId : Text) (h : conceptIdField.Admits conceptId) : AdminConceptInput where
  conceptId := conceptId
  labelEn := "kite".toList
  locale := "Assam".toList
  culturalHint := "a paper kite".toList
  conceptId_admitted := h
  labelEn_admitted := by decide
  locale_admitted := by decide
  culturalHint_admitted := by decide

/-- Six concepts, the first with an identifier of 65 letters. -/
def longIdRequest : AdminDeckGenerateRequest where
  regionTag := "assam".toList
  concepts := [kiteInput (List.replicate 65 'a') (by decide +kernel),
    kiteInput ['b'] (by decide), kiteInput ['c'] (by decide), kiteInput ['d'] (by decide),
    kiteInput ['e'] (by decide), kiteInput ['f'] (by decide)]
  regionTag_admitted := by decide
  minLength := by decide
  maxLength := by decide
  unique := by decide +kernel

/-- Six concepts that can be converted, for a region nobody has described. -/
def marsRequest : AdminDeckGenerateRequest where
  regionTag := "mars".toList
  concepts := [kiteInput ['a'] (by decide), kiteInput ['b'] (by decide),
    kiteInput ['c'] (by decide), kiteInput ['d'] (by decide), kiteInput ['e'] (by decide),
    kiteInput ['f'] (by decide)]
  regionTag_admitted := by decide
  minLength := by decide
  maxLength := by decide
  unique := by decide

/-- Both are accepted.  The conversion of the one raises, and so does the build of the other. -/
theorem accepted_fails : ¬longIdRequest.Converts ∧ ¬marsRequest.CanFinish := by
  constructor
  · rintro ⟨concepts, h, -⟩
    have herror : longIdRequest.toConcepts = .error (.invalidId 0 (List.replicate 65 'a')) := rfl
    rw [herror] at h
    cases h
  · intro h
    exact Prog.not_completes_raise (h 0)

end Neva.Deckgen
