import Neva.Deckgen.Requests

/-!
# Inventing concepts

The loop of `invent_concepts_from_prompt`.  The model is asked up to `max_retries + 1` times, the
first payload that passes both validations wins, and whatever is wrong with the others is to be
caught and tried again.  Between the answer and the `try` statement, though, the number of concepts
is counted for the log, with `len`, and a payload whose `concepts` is `null`, a boolean or a number
has no length: the `TypeError` ends the loop on the spot.  `invents_first_iff` says that such a
payload, met before a valid one, is all that can go wrong.
-/

set_option autoImplicit false

namespace Neva.Deckgen

open Raising

/-- The two validations of a payload. -/
def validated (cardCount : ℕ) (payload : Json) : Except ConceptError (List Concept) :=
  operatorRowsFromPayload payload cardCount >>= conceptsFromOperatorMappings

/-- What a call of `invent_concepts_from_prompt` comes to, and how often it has asked the model. -/
structure Invented where
  result : Except ConceptError (List Concept)
  calls : ℕ

/-- The rounds that are left; `n` have been made, and `answers n` is what the model says next. -/
def inventRounds (maxRetries cardCount : ℕ) (answers : ℕ → Json) : ℕ → ℕ → Invented
  | 0, n => ⟨.error (.inventionFailed (maxRetries + 1)), n⟩
  | left + 1, n =>
    if isCountable (answers n) then
      match validated cardCount (answers n) with
      | .ok concepts => ⟨.ok concepts, n + 1⟩
      | .error _ => inventRounds maxRetries cardCount answers left (n + 1)
    else ⟨.error (.typeError "object has no len()"), n + 1⟩

/-- `invent_concepts_from_prompt`, for a known region. -/
def invent (maxRetries cardCount : ℕ) (answers : ℕ → Json) : Invented :=
  if cardCount < 6 ∨ 20 < cardCount then ⟨.error (.cardCountRange cardCount), 0⟩
  else inventRounds maxRetries cardCount answers (maxRetries + 1) 0

/-! ## What a valid payload contains -/

/-- The conversion keeps the number of rows, and lets no identifier pass twice. -/
theorem operatorConcepts_length_nodup {index : ℕ} {seenIds : List Text} {mappings : List Json}
    {concepts : List Concept} (h : operatorConcepts index seenIds mappings = .ok concepts) :
    concepts.length = mappings.length ∧ (concepts.map Concept.id).Nodup ∧
      ∀ c ∈ concepts, c.id ∉ seenIds := by
  induction mappings generalizing index seenIds concepts with
  | nil =>
    cases h
    simp
  | cons mapping rest ih =>
    obtain ⟨concept, -, h⟩ := bind_eq_ok.mp h
    rw [ite_error_eq_ok] at h
    obtain ⟨hnew, h⟩ := h
    obtain ⟨more, hmore, h⟩ := bind_eq_ok.mp h
    cases pure_eq_ok.mp h
    obtain ⟨hlen, hnodup, hseen⟩ := ih hmore
    refine ⟨congrArg (· + 1) hlen, List.nodup_cons.mpr ⟨fun hmem ↦ ?_, hnodup⟩,
      List.forall_mem_cons.mpr ⟨hnew, fun c hc hmem ↦ ?_⟩⟩
    · obtain ⟨c, hc, hid⟩ := List.mem_map.mp hmem
      exact hseen c hc (hid ▸ List.mem_cons_self)
    · exact hseen c hc (List.mem_cons_of_mem _ hmem)

theorem length_of_operatorRows {payload : Json} {expectedCount : ℕ} {rows : List Json}
    (h : operatorRowsFromPayload payload expectedCount = .ok rows) :
    rows.length = expectedCount := by
  cases payload with
  | obj members =>
    rw [operatorRowsFromPayload] at h
    split at h
    · rename_i rawConcepts hraw
      rw [ite_error_eq_ok] at h
      obtain ⟨inputs, hinputs, h'⟩ := bind_eq_ok.mp h.2
      rw [ite_error_eq_ok] at h'
      rw [← pure_eq_ok.mp h'.2, List.length_map, ← (mapM_eq_ok.mp hinputs).length_eq]
      exact not_not.mp h.1
    · cases h
  | _ => cases h

/-- **A payload that validates holds as many concepts as were asked for**, with different
identifiers. -/
theorem length_nodup_of_validated {cardCount : ℕ} {payload : Json} {concepts : List Concept}
    (h : validated cardCount payload = .ok concepts) :
    concepts.length = cardCount ∧ (concepts.map Concept.id).Nodup := by
  obtain ⟨rows, hrows, hconcepts⟩ := bind_eq_ok.mp h
  obtain ⟨hlen, hnodup, -⟩ := operatorConcepts_length_nodup hconcepts
  exact ⟨hlen.trans (length_of_operatorRows hrows), hnodup⟩

/-- What validates has a length. -/
theorem isCountable_of_validated {cardCount : ℕ} {payload : Json} {concepts : List Concept}
    (h : validated cardCount payload = .ok concepts) : isCountable payload = true := by
  obtain ⟨rows, hrows, -⟩ := bind_eq_ok.mp h
  cases payload with
  | obj members =>
    rw [operatorRowsFromPayload] at hrows
    split at hrows
    · rename_i rawConcepts hraw
      rw [isCountable, hraw]
    · cases hrows
  | _ => rfl

/-! ## The loop -/

/-- The payload is not valid. -/
def Refused (cardCount : ℕ) (payload : Json) : Prop :=
  ∀ concepts, validated cardCount payload ≠ .ok concepts

section

variable {maxRetries cardCount : ℕ} {answers : ℕ → Json}

variable (maxRetries cardCount answers) in
/-- Either all payloads are refused or there is a first valid one. -/
theorem refused_or_first : (∀ n ≤ maxRetries, Refused cardCount (answers n)) ∨
    ∃ k ≤ maxRetries, (∃ concepts, validated cardCount (answers k) = .ok concepts) ∧
      ∀ m < k, Refused cardCount (answers m) := by
  classical
  by_cases h : ∃ k, ∃ concepts, validated cardCount (answers k) = .ok concepts
  · have hbefore : ∀ m < Nat.find h, Refused cardCount (answers m) := fun m hm concepts hok ↦
      Nat.find_min h hm ⟨concepts, hok⟩
    rcases Nat.lt_or_ge maxRetries (Nat.find h) with hlt | hle
    · exact .inl fun n hn ↦ hbefore n (by omega)
    · exact .inr ⟨Nat.find h, hle, Nat.find_spec h, hbefore⟩
  · exact .inl fun n _ concepts hok ↦ h ⟨n, concepts, hok⟩

/-- A payload that has a length and is refused costs one round. -/
theorem inventRounds_of_refused {left n : ℕ} (hcount : isCountable (answers n) = true)
    (h : Refused cardCount (answers n)) : inventRounds maxRetries cardCount answers (left + 1) n =
      inventRounds maxRetries cardCount answers left (n + 1) := by
  rw [inventRounds, if_pos hcount]
  cases hv : validated cardCount (answers n) with
  | ok concepts => exact absurd hv (h concepts)
  | error e => rfl

/-- A valid payload ends the loop. -/
theorem inventRounds_of_validated {left n : ℕ} {concepts : List Concept}
    (h : validated cardCount (answers n) = .ok concepts) :
    inventRounds maxRetries cardCount answers (left + 1) n = ⟨.ok concepts, n + 1⟩ := by
  rw [inventRounds, if_pos (isCountable_of_validated h), h]

/-- Refused payloads are skipped. -/
theorem inventRounds_skip {left n k : ℕ} (hcount : ∀ m, n ≤ m → m < n + k →
      isCountable (answers m) = true) (h : ∀ m, n ≤ m → m < n + k → Refused cardCount (answers m)) :
    inventRounds maxRetries cardCount answers (left + k) n =
      inventRounds maxRetries cardCount answers left (n + k) := by
  induction k generalizing n with
  | zero => rfl
  | succ k ih =>
    rw [← Nat.add_assoc, inventRounds_of_refused (hcount n (by omega) (by omega))
      (h n (by omega) (by omega)), ih (fun m hm hlt ↦ hcount m (by omega) (by omega))
      (fun m hm hlt ↦ h m (by omega) (by omega))]
    congr 1
    omega

theorem invent_eq (h₁ : 6 ≤ cardCount) (h₂ : cardCount ≤ 20) : invent maxRetries cardCount answers =
    inventRounds maxRetries cardCount answers (maxRetries + 1) 0 := by
  rw [invent, if_neg (by omega)]

/-- The loop reaches a payload if all before it can be counted and are refused. -/
theorem invent_reaches (h₁ : 6 ≤ cardCount) (h₂ : cardCount ≤ 20) {n : ℕ} (hn : n ≤ maxRetries + 1)
    (hcount : ∀ m < n, isCountable (answers m) = true)
    (h : ∀ m < n, Refused cardCount (answers m)) : invent maxRetries cardCount answers =
      inventRounds maxRetries cardCount answers (maxRetries + 1 - n) n := by
  have hskip := @inventRounds_skip maxRetries cardCount answers (maxRetries + 1 - n) 0 n
    (fun m _ hm ↦ hcount m (by omega)) (fun m _ hm ↦ h m (by omega))
  rw [Nat.sub_add_cancel hn, Nat.zero_add] at hskip
  rw [invent_eq h₁ h₂, hskip]

end

/-! ## The result -/

/-- The model is asked at most `max_retries + 1` times, the first payload that validates is what is
returned, with as many concepts as were asked for, and only when all have been refused is
`RuntimeError` raised. -/
structure InventsFirst (maxRetries cardCount : ℕ) (answers : ℕ → Json) : Prop where
  calls : (invent maxRetries cardCount answers).calls ≤ maxRetries + 1
  returned : ∀ concepts, (invent maxRetries cardCount answers).result = .ok concepts →
    concepts.length = cardCount ∧ (concepts.map Concept.id).Nodup
  first : ∀ n ≤ maxRetries, ∀ concepts, (∀ m < n, Refused cardCount (answers m)) →
    validated cardCount (answers n) = .ok concepts →
      (invent maxRetries cardCount answers).result = .ok concepts
  failed : (∀ n ≤ maxRetries, Refused cardCount (answers n)) →
    (invent maxRetries cardCount answers).result = .error (.inventionFailed (maxRetries + 1)) ∧
      (invent maxRetries cardCount answers).calls = maxRetries + 1

/-- **When invention tolerates what the model says.**  It does if and only if every payload that
comes before a valid one can be counted: it is no object whose `concepts` is `null`, a boolean or a
number. -/
theorem invents_first_iff (maxRetries cardCount : ℕ) (answers : ℕ → Json) (h₁ : 6 ≤ cardCount)
    (h₂ : cardCount ≤ 20) : InventsFirst maxRetries cardCount answers ↔
      ∀ n ≤ maxRetries, (∀ m < n, Refused cardCount (answers m)) →
        isCountable (answers n) = true := by
  constructor
  · intro h n
    induction n using Nat.strong_induction_on with
    | _ n ih =>
      intro hn hrefused
      have hcount : ∀ m < n, isCountable (answers m) = true := fun m hm ↦
        ih m hm (by omega) fun m' hm' ↦ hrefused m' (by omega)
      have hreach := invent_reaches h₁ h₂ (by omega : n ≤ maxRetries + 1) hcount hrefused
      by_contra hbad
      have hbad : isCountable (answers n) = false := by simpa using hbad
      -- the loop ends here, so it cannot get to what comes later
      have hend : invent maxRetries cardCount answers =
          ⟨.error (.typeError "object has no len()"), n + 1⟩ := by
        rw [hreach, show maxRetries + 1 - n = (maxRetries - n) + 1 by omega, inventRounds, hbad]
        rfl
      rcases refused_or_first maxRetries cardCount answers with
        hall | ⟨k, hk, ⟨concepts, hconcepts⟩, hbefore⟩
      · have hfailed := (h.failed hall).1
        rw [hend] at hfailed
        cases hfailed
      · have hfirst := h.first k hk concepts hbefore hconcepts
        rw [hend] at hfirst
        cases hfirst
  · intro hcount
    rcases refused_or_first maxRetries cardCount answers with
      hall | ⟨k, hk, ⟨concepts, hconcepts⟩, hrefused⟩
    · have hend : invent maxRetries cardCount answers =
          ⟨.error (.inventionFailed (maxRetries + 1)), maxRetries + 1⟩ := by
        rw [invent_reaches h₁ h₂ (Nat.le_refl _)
          (fun m hm ↦ hcount m (by omega) fun m' hm' ↦ hall m' (by omega))
          (fun m hm ↦ hall m (by omega)), Nat.sub_self, inventRounds]
      refine ⟨by rw [hend], fun concepts h ↦ ?_,
        fun n hn concepts _ h ↦ absurd h (hall n hn concepts),
        fun _ ↦ by rw [hend]; exact ⟨rfl, rfl⟩⟩
      rw [hend] at h
      cases h
    · have hend : invent maxRetries cardCount answers = ⟨.ok concepts, k + 1⟩ := by
        rw [invent_reaches h₁ h₂ (by omega : k ≤ maxRetries + 1)
          (fun m hm ↦ hcount m (by omega) fun m' hm' ↦ hrefused m' (by omega)) hrefused,
          show maxRetries + 1 - k = (maxRetries - k) + 1 by omega,
          inventRounds_of_validated hconcepts]
      refine ⟨by rw [hend]; exact Nat.succ_le_succ hk, fun concepts' h ↦ ?_,
        fun n hn concepts' hbefore h ↦ ?_, fun h ↦ absurd hconcepts (h k hk concepts)⟩
      · rw [hend] at h
        cases h
        exact length_nodup_of_validated hconcepts
      · rcases Nat.lt_trichotomy n k with hlt | rfl | hlt
        · exact absurd h (hrefused n hlt concepts')
        · rw [hend, ← h, hconcepts]
        · exact absurd hconcepts (hbefore k hlt concepts)

/-! ## A payload that ends the loop -/

/-- A valid row. -/
def kiteRow (conceptId : Char) : Json :=
  .obj [("concept_id".toList, .str [conceptId]), ("label_en".toList, .str "kite".toList),
    ("locale".toList, .str "Assam".toList), ("cultural_hint".toList, .str "a paper kite".toList)]

/-- Six valid rows. -/
def kitePayload : Json := .obj [("concepts".toList, .arr ("abcdef".toList.map kiteRow))]

/-- The first answer has no concepts, not even an empty list, and the second one is valid. -/
def nullThenKites (n : ℕ) : Json :=
  if n = 0 then .obj [("concepts".toList, .null)] else kitePayload

/-- The second answer is never asked for. -/
theorem invents_first_null : ¬ InventsFirst 2 6 nullThenKites := by
  intro h
  have hrefused : ∀ m < 1, Refused 6 (nullThenKites m) := by
    intro m hm concepts hok
    obtain rfl : m = 0 := by omega
    cases hok
  obtain ⟨concepts, hvalid⟩ : ∃ concepts, validated 6 (nullThenKites 1) = .ok concepts := ⟨_, rfl⟩
  have hfirst := h.first 1 (by decide) concepts hrefused hvalid
  cases hfirst

/-- A model that answers with valid concepts is asked once. -/
theorem invents_first_kites : InventsFirst 2 6 fun _ ↦ kitePayload :=
  (invents_first_iff 2 6 (fun _ ↦ kitePayload) (by decide) (by decide)).mpr fun _ _ _ ↦ rfl

end Neva.Deckgen
