import Mathlib.Data.List.MinMax
import Mathlib.Data.List.Sort
import Mathlib.Data.Prod.Lex
import Mathlib.Order.BooleanAlgebra.Basic

/-!
# The earliest of a list

A scheduler that serves whoever came first takes the least row of a list under some time.  It can
say so in two ways: sort the rows and walk them until one will do, or ask for the least of the rows
that will do.  `Earliest t rows x` is what both compute (`earliest_of_findSome?` for the first), and
when no two rows have the same time there is only one such row (`Earliest.eq`), so the two ways
agree.

`Preferred worn t rows x` puts a second choice behind the first: the earliest row that is not
`worn`, and the earliest row of all when every row is.  Ordering by the pair of `worn` and the time
finds it (`preferred_of_argmin`).  Walking the sorted rows and passing over the worn ones finds it
too, but only if "while there is something better" means a row that is not worn: `unspared` is the
walk that passes over a worn row while there is any other row at all, and it comes back with
nothing when all the rows are worn and there are two of them (`unspared_eq_nil`).
-/

set_option autoImplicit false

variable {α β τ : Type*} [LinearOrder τ]

/-- `x` is a least row under the time `t`. -/
def Earliest (t : α → τ) (rows : List α) (x : α) : Prop := x ∈ rows ∧ ∀ y ∈ rows, t x ≤ t y

/-- `x` is the earliest row that is not worn, or the earliest of all when all of them are. -/
def Preferred (worn : α → Bool) (t : α → τ) (rows : List α) (x : α) : Prop :=
  Earliest t (rows.filter fun y ↦ !worn y) x ∨ (∀ y ∈ rows, worn y = true) ∧ Earliest t rows x

variable {t : α → τ} {rows : List α} {x y : α}

theorem Earliest.mem (h : Earliest t rows x) : x ∈ rows := h.1

/-- With distinct times there is one earliest row. -/
theorem Earliest.eq (hinj : (rows.map t).Nodup) (hx : Earliest t rows x)
    (hy : Earliest t rows y) : x = y :=
  List.inj_on_of_nodup_map hinj hx.1 hy.1 (le_antisymm (hx.2 y hy.1) (hy.2 x hx.1))

theorem Earliest.congr {rows' : List α} (hmem : ∀ y, y ∈ rows ↔ y ∈ rows')
    (h : Earliest t rows x) : Earliest t rows' x :=
  ⟨(hmem x).mp h.1, fun y hy ↦ h.2 y ((hmem y).mpr hy)⟩

theorem Preferred.mem {worn : α → Bool} (h : Preferred worn t rows x) : x ∈ rows := by
  rcases h with h | h
  · exact (List.mem_filter.mp h.1).1
  · exact h.2.1

/-- With distinct times there is one preferred row. -/
theorem Preferred.eq {worn : α → Bool} (hinj : (rows.map t).Nodup)
    (hx : Preferred worn t rows x) (hy : Preferred worn t rows y) : x = y := by
  have hfresh {z : α} (hz : Earliest t (rows.filter fun y ↦ !worn y) z) : worn z = false := by
    simpa using (List.mem_filter.mp hz.1).2
  rcases hx with hx | ⟨hall, hx⟩
  · rcases hy with hy | ⟨hall, -⟩
    · exact hx.eq (hinj.sublist (List.filter_sublist.map t)) hy
    · exact absurd (hall x (List.mem_filter.mp hx.1).1) (by simp [hfresh hx])
  · rcases hy with hy | ⟨-, hy⟩
    · exact absurd (hall y (List.mem_filter.mp hy.1).1) (by simp [hfresh hy])
    · exact hx.eq hinj hy

/-- The preferred row of a list whose rows `f` reads off those of another. -/
theorem Preferred.image {γ : Type*} {worn : α → Bool} {worn' : γ → Bool} {t' : γ → τ}
    {rows' : List γ} {z : γ} (f : γ → α) (h : Preferred worn' t' rows' z)
    (hmem : ∀ y, y ∈ rows ↔ ∃ z ∈ rows', f z = y)
    (hworn : ∀ z ∈ rows', worn' z = worn (f z)) (htime : ∀ z ∈ rows', t' z = t (f z)) :
    Preferred worn t rows (f z) := by
  have hz := h.mem
  have hearliest {p : α → Bool} {p' : γ → Bool} (hp : ∀ z ∈ rows', p' z = p (f z))
      (h : Earliest t' (rows'.filter p') z) : Earliest t (rows.filter p) (f z) := by
    refine ⟨List.mem_filter.mpr ⟨(hmem _).mpr ⟨z, hz, rfl⟩, ?_⟩, fun y hy ↦ ?_⟩
    · rw [← hp z hz]
      exact (List.mem_filter.mp h.1).2
    · obtain ⟨hy, hpy⟩ := List.mem_filter.mp hy
      obtain ⟨z', hz', rfl⟩ := (hmem y).mp hy
      rw [← htime z hz, ← htime z' hz']
      exact h.2 z' (List.mem_filter.mpr ⟨hz', by rw [hp z' hz', hpy]⟩)
  rcases h with h | ⟨hall, h⟩
  · exact .inl (hearliest (fun z hz ↦ by rw [hworn z hz]) h)
  · refine .inr ⟨fun y hy ↦ ?_, ?_⟩
    · obtain ⟨z', hz', rfl⟩ := (hmem y).mp hy
      rw [← hworn z' hz', hall z' hz']
    · have := @hearliest (fun _ ↦ true) (fun _ ↦ true) (fun _ _ ↦ rfl) (by simpa using h)
      simpa using this

theorem Preferred.congr {worn : α → Bool} {rows' : List α} (hmem : ∀ y, y ∈ rows ↔ y ∈ rows')
    (h : Preferred worn t rows x) : Preferred worn t rows' x :=
  h.image id (fun y ↦ by simp [hmem]) (fun _ _ ↦ rfl) fun _ _ ↦ rfl

/-- `ORDER BY worn ASC, time ASC LIMIT 1` -/
theorem preferred_of_argmin {worn : α → Bool}
    (h : (rows.argmin fun y ↦ toLex (worn y, t y)) = some x) : Preferred worn t rows x := by
  have hmem := List.argmin_mem h
  have hle : ∀ y ∈ rows, worn x < worn y ∨ worn x = worn y ∧ t x ≤ t y := by
    intro y hy
    have := List.le_of_mem_argmin hy h
    rwa [Prod.Lex.toLex_le_toLex] at this
  cases hx : worn x with
  | false =>
    refine .inl ⟨List.mem_filter.mpr ⟨hmem, by simp [hx]⟩, fun y hy ↦ ?_⟩
    obtain ⟨hy, hfresh⟩ := List.mem_filter.mp hy
    rcases hle y hy with hlt | ⟨-, hle⟩
    · simp_all
    · exact hle
  | true =>
    refine .inr ⟨fun y hy ↦ ?_, hmem, fun y hy ↦ ?_⟩
    · rcases hle y hy with hlt | ⟨heq, -⟩
      · exact absurd hlt (by rw [hx]; cases worn y <;> decide)
      · rw [← heq, hx]
    · rcases hle y hy with hlt | ⟨-, hle⟩
      · exact absurd hlt (by rw [hx]; cases worn y <;> decide)
      · exact hle

/-- The first row of the sorted list that will do is the earliest one that will. -/
theorem earliest_of_findSome? {f : α → Option β} {b : β}
    (h : (rows.insertionSort fun a b ↦ t a ≤ t b).findSome? f = some b) :
    ∃ x, Earliest t (rows.filter fun y ↦ (f y).isSome) x ∧ f x = some b := by
  obtain ⟨before, x, after, hsplit, hx, hnone⟩ := List.findSome?_eq_some_iff.mp h
  have hperm : ∀ y, y ∈ rows ↔ y ∈ before ++ x :: after := fun y ↦ by
    rw [← hsplit, List.mem_insertionSort]
  have hsorted : (before ++ x :: after).Pairwise fun a b ↦ t a ≤ t b := by
    have : (rows.insertionSort fun a b ↦ t a ≤ t b).Pairwise fun a b ↦ t a ≤ t b :=
      List.pairwise_insertionSort _ _
    rwa [hsplit] at this
  refine ⟨x, ⟨List.mem_filter.mpr ⟨(hperm x).mpr (by simp), by simp [hx]⟩, fun y hy ↦ ?_⟩, hx⟩
  obtain ⟨hy, hsome⟩ := List.mem_filter.mp hy
  rcases List.mem_append.mp ((hperm y).mp hy) with hy | hy
  · simp [hnone y hy] at hsome
  · rcases List.mem_cons.mp hy with rfl | hy
    · exact le_rfl
    · exact (List.pairwise_cons.mp (List.pairwise_append.mp hsorted).2.1).1 y hy

theorem findSome?_insertionSort_eq_none {f : α → Option β} :
    (rows.insertionSort fun a b ↦ t a ≤ t b).findSome? f = none ↔ ∀ x ∈ rows, f x = none := by
  rw [List.findSome?_eq_none_iff]
  exact forall_congr' fun x ↦ by rw [List.mem_insertionSort]

/-! ## Passing over worn rows -/

variable [DecidableEq α] {worn : α → Bool}

/-- The rows left when a worn row is passed over as soon as there is another row, worn or not. -/
def unspared (worn : α → Bool) (rows : List α) : List α :=
  rows.filter fun y ↦ !(worn y && rows.any fun z ↦ z != y)

theorem mem_unspared :
    y ∈ unspared worn rows ↔ y ∈ rows ∧ (worn y = true → ∀ z ∈ rows, z = y) := by
  rw [unspared, List.mem_filter]
  cases hworn : worn y <;> simp

/-- When there is one, the earliest row left is the preferred one. -/
theorem preferred_of_unspared (h : Earliest t (unspared worn rows) x) :
    Preferred worn t rows x := by
  obtain ⟨hx, hall⟩ := mem_unspared.mp h.1
  cases hworn : worn x with
  | true =>
    have honly := hall hworn
    refine .inr ⟨fun y hy ↦ by rw [honly y hy, hworn], hx, fun y hy ↦ ?_⟩
    rw [honly y hy]
  | false =>
    refine .inl ⟨List.mem_filter.mpr ⟨hx, by simp [hworn]⟩, fun y hy ↦ ?_⟩
    obtain ⟨hy, hfresh⟩ := List.mem_filter.mp hy
    exact h.2 y (mem_unspared.mpr ⟨hy, fun hw ↦ by simp [hw] at hfresh⟩)

/-- Nothing is left when there is nothing, and when all of at least two rows are worn. -/
theorem unspared_eq_nil (hnodup : rows.Nodup) :
    unspared worn rows = [] ↔ rows = [] ∨ (∀ y ∈ rows, worn y = true) ∧ 1 < rows.length := by
  constructor
  · intro h
    rcases rows with _ | ⟨x, rest⟩
    · exact .inl rfl
    · have hnone : ∀ y ∈ x :: rest, worn y = true ∧ ¬ ∀ z ∈ x :: rest, z = y := by
        intro y hy
        have : y ∉ unspared worn (x :: rest) := by simp [h]
        simpa [mem_unspared, hy] using this
      refine .inr ⟨fun y hy ↦ (hnone y hy).1, ?_⟩
      cases rest with
      | nil => simp at hnone
      | cons => simp
  · rintro (rfl | ⟨hall, hlen⟩)
    · rfl
    · refine List.eq_nil_iff_forall_not_mem.mpr fun y hy ↦ ?_
      obtain ⟨hy, honly⟩ := mem_unspared.mp hy
      have hsame := honly (hall y hy)
      match rows, hnodup, hlen, hsame with
      | a :: b :: rest, hnodup, _, hsame =>
        have hab : a = b := (hsame a (by simp)).trans (hsame b (by simp)).symm
        simp [hab] at hnodup
