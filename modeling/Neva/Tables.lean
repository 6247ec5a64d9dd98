import Mathlib.Algebra.BigOperators.Group.List.Basic
import Mathlib.Data.List.Nodup
import Mathlib.Tactic.Common

/-!
# Tables with a primary key

A table is a list of rows and `key` reads the primary key of a row.  `Tables.Unique key rows` says
that no two rows share a key; under it a row is determined by its key, so looking a key up with
`List.find?` and being a row with that key are the same thing.

`Tables.put key r rows` is the table after an `UPDATE` of one row: `r` takes the place of the row
with its key.  The rows of the result are `r` and the rows with another key
(`Tables.mem_put`), and a count over the table changes by what it makes of the two rows
(`Tables.Unique.countP_put`).  A sum over the rows that refer to one of some keys is a sum over the
keys (`Tables.sum_map_filter_any`).
-/

set_option autoImplicit false

namespace Tables

variable {α κ : Type*} (key : α → κ)

/-- No two rows share a key. -/
def Unique (rows : List α) : Prop := (rows.map key).Nodup

/-- `r` in the place of the row with its key. -/
def put [DecidableEq κ] (r : α) (rows : List α) : List α :=
  rows.map fun x ↦ if key x = key r then r else x

variable {key} {rows : List α} {r x y : α}

/-! ## Unique keys -/

theorem Unique.nil : Unique key [] := List.nodup_nil

theorem Unique.eq (h : Unique key rows) (hx : x ∈ rows) (hy : y ∈ rows) (hk : key x = key y) :
    x = y :=
  List.inj_on_of_nodup_map h hx hy hk

/-- Inserting a row under a new key. -/
theorem Unique.append (h : Unique key rows) (hr : key r ∉ rows.map key) :
    Unique key (rows ++ [r]) := by
  rw [Unique, List.map_append, List.map_singleton, List.nodup_append_comm]
  exact List.nodup_cons.mpr ⟨hr, h⟩

theorem Unique.filter (h : Unique key rows) (p : α → Bool) : Unique key (rows.filter p) :=
  h.sublist (List.filter_sublist.map key)

/-- When any two rows that pass a test are one, at most one row passes it. -/
theorem Unique.length_filter_le_one (h : Unique key rows) {p : α → Bool}
    (hp : ∀ x ∈ rows, ∀ y ∈ rows, p x = true → p y = true → x = y) :
    (rows.filter p).length ≤ 1 := by
  have hnodup : (rows.filter p).Nodup := (h.filter p).of_map
  match hf : rows.filter p with
  | [] => exact Nat.zero_le 1
  | [x] => exact Nat.le_refl 1
  | x :: y :: rest =>
    rw [hf] at hnodup
    have hx : x ∈ rows.filter p := hf ▸ List.mem_cons_self
    have hy : y ∈ rows.filter p := hf ▸ List.mem_cons_of_mem _ List.mem_cons_self
    have hxy := hp x (List.mem_filter.mp hx).1 y (List.mem_filter.mp hy).1
      (List.mem_filter.mp hx).2 (List.mem_filter.mp hy).2
    exact absurd (hxy ▸ List.mem_cons_self) (List.nodup_cons.mp hnodup).1

/-- When at most one row passes a test, any two that do are one. -/
theorem eq_of_length_filter_le_one {p : α → Bool} (h : (rows.filter p).length ≤ 1) (hx : x ∈ rows)
    (hy : y ∈ rows) (hpx : p x = true) (hpy : p y = true) : x = y := by
  have hx' : x ∈ rows.filter p := List.mem_filter.mpr ⟨hx, hpx⟩
  have hy' : y ∈ rows.filter p := List.mem_filter.mpr ⟨hy, hpy⟩
  match hf : rows.filter p with
  | [] => exact absurd (hf ▸ hx') List.not_mem_nil
  | [z] =>
    rw [hf, List.mem_singleton] at hx' hy'
    exact hx'.trans hy'.symm
  | _ :: _ :: _ =>
    rw [hf] at h
    simp at h

/-- Looking a key up finds the row that has it. -/
theorem Unique.find?_eq_some [BEq κ] [LawfulBEq κ] (h : Unique key rows) {k : κ} :
    (rows.find? fun x ↦ key x == k) = some r ↔ r ∈ rows ∧ key r = k := by
  constructor
  · intro hf
    have hk := List.find?_some hf
    exact ⟨List.mem_of_find?_eq_some hf, beq_iff_eq.mp hk⟩
  · rintro ⟨hr, rfl⟩
    cases hf : rows.find? fun x ↦ key x == key r with
    | none => exact absurd (beq_self_eq_true _) (List.find?_eq_none.mp hf r hr)
    | some y =>
      have hy := List.mem_of_find?_eq_some hf
      have hk := List.find?_some hf
      rw [h.eq hy hr (beq_iff_eq.mp hk)]

theorem find?_eq_none [BEq κ] [LawfulBEq κ] {k : κ} :
    (rows.find? fun x ↦ key x == k) = none ↔ ∀ r ∈ rows, key r ≠ k := by
  rw [List.find?_eq_none]
  exact forall₂_congr fun r _ ↦ not_congr beq_iff_eq

/-! ## Updating a row -/

variable [DecidableEq κ]

@[simp] theorem map_key_put : (put key r rows).map key = rows.map key := by
  rw [put, List.map_map]
  refine List.map_congr_left fun x _ ↦ ?_
  rw [Function.comp_apply]
  split
  · rename_i h
    exact h.symm
  · rfl

theorem Unique.put (h : Unique key rows) (r : α) : Unique key (put key r rows) := by
  rw [Unique, map_key_put]
  exact h

theorem mem_put (hr : key r ∈ rows.map key) :
    x ∈ put key r rows ↔ x = r ∨ (x ∈ rows ∧ key x ≠ key r) := by
  rw [put, List.mem_map]
  constructor
  · rintro ⟨y, hy, rfl⟩
    split
    · exact .inl rfl
    · rename_i hk
      exact .inr ⟨hy, hk⟩
  · rintro (rfl | ⟨hx, hk⟩)
    · obtain ⟨y, hy, hk⟩ := List.mem_map.mp hr
      exact ⟨y, hy, if_pos hk⟩
    · exact ⟨x, hx, if_neg hk⟩

/-- An `UPDATE … WHERE key = …` replaces the row that has the key. -/
theorem Unique.map_eq_put (h : Unique key rows) (hr : r ∈ rows) (f : α → α) {k : κ}
    (hk : key r = k) (hf : key (f r) = k) :
    (rows.map fun x ↦ if key x = k then f x else x) = Tables.put key (f r) rows := by
  refine List.map_congr_left fun x hx ↦ ?_
  rw [hf]
  split
  · rename_i hxk
    rw [h.eq hx hr (hxk.trans hk.symm)]
  · rfl

theorem put_eq_self (hr : key r ∉ rows.map key) : put key r rows = rows := by
  conv_rhs => rw [← List.map_id rows]
  refine List.map_congr_left fun x hx ↦ ?_
  refine if_neg fun hk : key x = key r ↦ hr ?_
  rw [← hk]
  exact List.mem_map_of_mem hx

/-- Counting after an update. -/
theorem Unique.countP_put (h : Unique key rows) {r' : α} (hr : r ∈ rows) (hk : key r' = key r)
    (p : α → Bool) :
    (Tables.put key r' rows).countP p + (if p r then 1 else 0) =
      rows.countP p + (if p r' then 1 else 0) := by
  induction rows with
  | nil => exact absurd hr List.not_mem_nil
  | cons x rows ih =>
    obtain ⟨hx, hrows⟩ := List.nodup_cons.mp h
    rw [Tables.put, List.map_cons, List.countP_cons, List.countP_cons]
    rcases List.mem_cons.mp hr with rfl | hr
    · have hrest : (rows.map fun y ↦ if key y = key r' then r' else y) = rows := by
        refine put_eq_self ?_
        rw [hk]
        exact hx
      rw [if_pos hk.symm, hrest]
      omega
    · have hne : key x ≠ key r' := fun he ↦ hx ((he.trans hk) ▸ List.mem_map_of_mem hr)
      have := ih hrows hr
      rw [if_neg hne]
      rw [Tables.put] at this
      omega

/-! ## Sums over groups of rows -/

section

variable {M : Type*} [AddCommMonoid M]

/-- Of distinct keys at most one is the key of a row. -/
theorem sum_map_ite {ks : List κ} (h : ks.Nodup) (o : Option κ) (m : M) :
    (ks.map fun k ↦ if o == some k then m else 0).sum =
      if ks.any fun k ↦ o == some k then m else 0 := by
  induction ks with
  | nil => rfl
  | cons k ks ih =>
    obtain ⟨hk, hks⟩ := List.nodup_cons.mp h
    rw [List.map_cons, List.sum_cons, ih hks, List.any_cons]
    by_cases ho : o = some k
    · subst ho
      have hnone : (ks.any fun k' ↦ some k == some k') = false := by
        rw [List.any_eq_false]
        rintro k' hk' ho'
        rw [beq_iff_eq, Option.some.injEq] at ho'
        exact hk (ho' ▸ hk')
      rw [hnone]
      simp
    · simp [ho]

/-- A sum over the rows that have one of the keys is a sum over the keys. -/
theorem sum_map_filter_any {ks : List κ} (h : ks.Nodup) (f : α → Option κ) (g : α → M)
    (rows : List α) :
    ((rows.filter fun x ↦ ks.any fun k ↦ f x == some k).map g).sum =
      (ks.map fun k ↦ ((rows.filter fun x ↦ f x == some k).map g).sum).sum := by
  have hfilter (p : α → Bool) (x : α) (rows : List α) : (((x :: rows).filter p).map g).sum =
      (if p x then g x else 0) + ((rows.filter p).map g).sum := by
    rw [List.filter_cons]
    split <;> simp
  induction rows with
  | nil => simp
  | cons x rows ih =>
    simp only [hfilter]
    rw [List.sum_map_add, sum_map_ite h, ih]

end

end Tables
