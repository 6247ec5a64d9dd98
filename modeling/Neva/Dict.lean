import Mathlib.Data.List.Induction
import Mathlib.Data.List.Nodup
import Mathlib.Tactic.Common

/-!
# Dictionaries that keep their order

A dictionary is a list of keys with their values, in the order in which the keys were first set.
Setting a key that is there changes its value and not its place.  `Dict.get_set` says what is found
afterwards, and `Dict.mem_keys_set` which keys there are.
-/

set_option autoImplicit false

namespace Dict

variable {κ α : Type*} [DecidableEq κ]

/-- The value of a key. -/
def get (d : List (κ × α)) (k : κ) : Option α := (d.find? fun m ↦ m.1 == k).map Prod.snd

/-- The key is given a value, in its old place if it has one. -/
def set (d : List (κ × α)) (k : κ) (a : α) : List (κ × α) :=
  if d.any fun m ↦ m.1 == k then d.map fun m ↦ if m.1 == k then (m.1, a) else m
  else d ++ [(k, a)]

/-- The dictionary made from pairs; a later value replaces an earlier one. -/
def ofPairs (pairs : List (κ × α)) : List (κ × α) := pairs.foldl (fun d m ↦ set d m.1 m.2) []

variable {d : List (κ × α)} {k k' : κ} {a : α}

@[simp] theorem get_nil : get ([] : List (κ × α)) k = none := rfl

theorem get_cons {m : κ × α} : get (m :: d) k = if m.1 = k then some m.2 else get d k := by
  rw [get, List.find?_cons]
  by_cases h : m.1 = k
  · rw [if_pos h, beq_iff_eq.mpr h]
    rfl
  · rw [if_neg h, beq_false_of_ne h]
    rfl

theorem get_eq_none : get d k = none ↔ k ∉ d.map Prod.fst := by
  induction d with
  | nil => simp
  | cons m d ih =>
    rw [get_cons, List.map_cons, List.mem_cons, not_or, ← ih]
    split
    · rename_i h
      simp [h]
    · rename_i h
      simp [Ne.symm h]

theorem get_isSome : (get d k).isSome ↔ k ∈ d.map Prod.fst := by
  rw [← Option.ne_none_iff_isSome, Ne, get_eq_none, not_not]

theorem get_append {d' : List (κ × α)} : get (d ++ d') k = (get d k).or (get d' k) := by
  induction d with
  | nil => rfl
  | cons m d ih =>
    rw [List.cons_append, get_cons, get_cons, ih]
    split <;> rfl

/-- Looking a key up after the values of another, or of it, have been replaced. -/
theorem get_map_replace : get (d.map fun m ↦ if m.1 == k then (m.1, a) else m) k' =
    if k' = k then (get d k').map fun _ ↦ a else get d k' := by
  induction d with
  | nil => simp
  | cons m d ih =>
    have hkey : (if m.1 == k then (m.1, a) else m).1 = m.1 := by split <;> rfl
    rw [List.map_cons, get_cons, get_cons, ih, hkey]
    by_cases hm : m.1 = k'
    · subst hm
      by_cases hk : m.1 = k <;> simp [hk]
    · simp [hm]

theorem any_key_iff : (d.any fun m ↦ m.1 == k) = true ↔ k ∈ d.map Prod.fst := by
  rw [List.any_eq_true, List.mem_map]
  exact exists_congr fun m ↦ and_congr_right fun _ ↦ beq_iff_eq

/-- What is found once a key has been set. -/
theorem get_set : get (set d k a) k' = if k' = k then some a else get d k' := by
  by_cases hany : (d.any fun m ↦ m.1 == k) = true
  · rw [set, if_pos hany, get_map_replace]
    obtain ⟨old, hold⟩ := Option.isSome_iff_exists.mp (get_isSome.mpr (any_key_iff.mp hany))
    by_cases hk : k' = k
    · rw [if_pos hk, if_pos hk, hk, hold, Option.map_some]
    · rw [if_neg hk, if_neg hk]
  · have hnone := get_eq_none.mpr (mt any_key_iff.mpr hany)
    rw [set, if_neg hany, get_append, get_cons, get_nil]
    by_cases hk : k' = k
    · rw [hk, hnone, if_pos rfl]
      simp
    · rw [if_neg (Ne.symm hk), if_neg hk, Option.or_none]

/-- The keys there are once a key has been set. -/
theorem mem_keys_set : k' ∈ (set d k a).map Prod.fst ↔ k' = k ∨ k' ∈ d.map Prod.fst := by
  rw [← get_isSome, ← get_isSome, get_set]
  by_cases hk : k' = k <;> simp [hk]

/-- A dictionary made from pairs with different keys. -/
theorem get_ofPairs_of_mem {pairs : List (κ × α)} (h : (pairs.map Prod.fst).Nodup)
    (hm : (k, a) ∈ pairs) : get (ofPairs pairs) k = some a := by
  induction pairs using List.reverseRecOn with
  | nil => cases hm
  | append_singleton pairs m ih =>
    rw [List.map_append, List.nodup_append_comm] at h
    obtain ⟨hnew, hrest⟩ := List.nodup_cons.mp h
    rw [ofPairs, List.foldl_append, List.foldl_cons, List.foldl_nil, get_set]
    rcases List.mem_append.mp hm with hm | hm
    · have hne : k ≠ m.1 := by
        rintro rfl
        exact hnew (List.mem_map.mpr ⟨_, hm, rfl⟩)
      rw [if_neg hne]
      exact ih hrest hm
    · rw [← List.mem_singleton.mp hm, if_pos rfl]

theorem mem_keys_ofPairs {pairs : List (κ × α)} :
    k ∈ (ofPairs pairs).map Prod.fst ↔ k ∈ pairs.map Prod.fst := by
  induction pairs using List.reverseRecOn with
  | nil => rfl
  | append_singleton pairs m ih =>
    rw [ofPairs, List.foldl_append, List.foldl_cons, List.foldl_nil, mem_keys_set, List.map_append,
      List.mem_append, ← ih, or_comm]
    simp [ofPairs]

theorem nodup_keys_set (h : (d.map Prod.fst).Nodup) : ((set d k a).map Prod.fst).Nodup := by
  by_cases hany : (d.any fun m ↦ m.1 == k) = true
  · have hkeys :
      (d.map fun m ↦ if m.1 == k then (m.1, a) else m).map Prod.fst = d.map Prod.fst := by
      rw [List.map_map]
      refine List.map_congr_left fun m _ ↦ ?_
      show (if m.1 == k then (m.1, a) else m).1 = m.1
      split <;> rfl
    rwa [set, if_pos hany, hkeys]
  · have hnew : k ∉ d.map Prod.fst := mt any_key_iff.mpr hany
    rw [set, if_neg hany, List.map_append, List.nodup_append']
    exact ⟨h, List.nodup_singleton _, by simpa using hnew⟩

theorem get_eq_some (h : (d.map Prod.fst).Nodup) : get d k = some a ↔ (k, a) ∈ d := by
  induction d with
  | nil => simp
  | cons m d ih =>
    obtain ⟨k', a'⟩ := m
    obtain ⟨hnew, hrest⟩ := List.nodup_cons.mp h
    rw [get_cons, List.mem_cons]
    by_cases hk : k' = k
    · subst hk
      have hnot : (k', a) ∉ d := fun hmem ↦ hnew (List.mem_map.mpr ⟨_, hmem, rfl⟩)
      simp [hnot, eq_comm]
    · rw [if_neg hk, ih hrest]
      simp [Ne.symm hk]

end Dict
