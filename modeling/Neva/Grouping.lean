import Neva.Dict

/-!
# Grouping a list

`Grouping.grouped key l` is the dictionary of the groups of a list: the elements with one key, in
the order of the list, under that key.  The keys stand in the order in which they were first met.
The order of a list matters to the order of the keys and to the order inside the groups, and to
nothing else: `perm_flatMap_filter`, `keys_perm`.
-/

set_option autoImplicit false

namespace Grouping

variable {κ α : Type*} [DecidableEq κ] (key : α → κ)

/-- The dictionary of the groups. -/
def grouped (l : List α) : List (κ × List α) :=
  l.foldl (fun groups a ↦ Dict.set groups (key a) ((Dict.get groups (key a)).getD [] ++ [a])) []

variable {key}

theorem grouped_append (l : List α) (a : α) : grouped key (l ++ [a]) =
    Dict.set (grouped key l) (key a) ((Dict.get (grouped key l) (key a)).getD [] ++ [a]) := by
  rw [grouped, List.foldl_append]
  rfl

theorem nodup_keys (l : List α) : ((grouped key l).map Prod.fst).Nodup := by
  induction l using List.reverseRecOn with
  | nil => exact List.nodup_nil
  | append_singleton l a ih =>
    rw [grouped_append]
    exact Dict.nodup_keys_set ih

theorem mem_keys {l : List α} {k : κ} : k ∈ (grouped key l).map Prod.fst ↔ ∃ a ∈ l, key a = k := by
  induction l using List.reverseRecOn with
  | nil => simp [grouped]
  | append_singleton l a ih =>
    rw [grouped_append, Dict.mem_keys_set, ih]
    simp only [List.mem_append, List.mem_singleton]
    constructor
    · rintro (rfl | ⟨b, hb, hk⟩)
      · exact ⟨a, .inr rfl, rfl⟩
      · exact ⟨b, .inl hb, hk⟩
    · rintro ⟨b, hb | rfl, hk⟩
      · exact .inr ⟨b, hb, hk⟩
      · exact .inl hk.symm

/-- The group of a key. -/
theorem getD_grouped (l : List α) (k : κ) :
    (Dict.get (grouped key l) k).getD [] = l.filter fun a ↦ key a = k := by
  induction l using List.reverseRecOn with
  | nil => rfl
  | append_singleton l a ih =>
    rw [grouped_append, Dict.get_set, List.filter_append]
    by_cases hk : k = key a
    · subst hk
      rw [if_pos rfl, Option.getD_some, ih]
      simp
    · rw [if_neg hk, ih]
      simp [Ne.symm hk]

theorem eq_filter_of_mem {l g : List α} {k : κ} (h : (k, g) ∈ grouped key l) :
    g = l.filter fun a ↦ key a = k := by
  rw [← getD_grouped, (Dict.get_eq_some (nodup_keys l)).mpr h, Option.getD_some]

/-- The groups, from their keys. -/
theorem grouped_eq_map (l : List α) : grouped key l =
    ((grouped key l).map Prod.fst).map fun k ↦ (k, l.filter fun a ↦ key a = k) := by
  rw [List.map_map]
  refine (List.map_id _).symm.trans (List.map_congr_left fun m hm ↦ ?_)
  exact Prod.ext rfl (eq_filter_of_mem hm)

/-- The keys of a list do not depend on its order, except for theirs. -/
theorem keys_perm {l l' : List α} (h : l.Perm l') :
    ((grouped key l).map Prod.fst).Perm ((grouped key l').map Prod.fst) := by
  refine (List.perm_ext_iff_of_nodup (nodup_keys l) (nodup_keys l')).mpr fun k ↦ ?_
  rw [mem_keys, mem_keys]
  simp only [h.mem_iff]

/-- **The groups together are the list.** -/
theorem perm_flatMap_filter {ks : List κ} (hn : ks.Nodup) :
    ∀ {l : List α}, (∀ a ∈ l, key a ∈ ks) →
      (ks.flatMap fun k ↦ l.filter fun a ↦ key a = k).Perm l := by
  induction ks with
  | nil =>
    intro l hl
    have hnil : l = [] := List.eq_nil_iff_forall_not_mem.mpr fun a ha ↦ by simpa using hl a ha
    rw [hnil]
    exact .refl _
  | cons k ks ih =>
    intro l hl
    obtain ⟨hnew, hrest⟩ := List.nodup_cons.mp hn
    -- the other groups are those of the elements that are left
    have hothers : (ks.flatMap fun k' ↦ l.filter fun a ↦ key a = k') =
        ks.flatMap fun k' ↦ (l.filter fun a ↦ !decide (key a = k)).filter fun a ↦ key a = k' := by
      refine List.flatMap_congr fun k' hk' ↦ ?_
      rw [List.filter_filter]
      refine List.filter_congr fun a _ ↦ ?_
      by_cases ha : key a = k'
      · have hne : key a ≠ k := fun h ↦ hnew (h ▸ ha ▸ hk')
        simp [ha, ha ▸ hne]
      · simp [ha]
    have hleft : ∀ a ∈ l.filter (fun a ↦ !decide (key a = k)), key a ∈ ks := by
      intro a ha
      obtain ⟨hmem, hne⟩ := List.mem_filter.mp ha
      exact (List.mem_cons.mp (hl a hmem)).resolve_left (by simpa using hne)
    rw [List.flatMap_cons, hothers]
    exact ((ih hrest hleft).append_left _).trans (List.filter_append_perm _ l)

/-- A sort gives the same list for every order of its elements, when it has no ties. -/
theorem mergeSort_eq_of_perm {le : α → α → Bool}
    (trans : ∀ a b c, le a b = true → le b c = true → le a c = true)
    (total : ∀ a b, (le a b || le b a) = true) {l l' : List α} (h : l.Perm l')
    (antisymm : ∀ a ∈ l, ∀ b ∈ l, le a b = true → le b a = true → a = b) :
    l.mergeSort le = l'.mergeSort le := by
  have hperm : (l.mergeSort le).Perm (l'.mergeSort le) :=
    (List.mergeSort_perm l le).trans (h.trans (List.mergeSort_perm l' le).symm)
  refine List.Perm.eq_of_pairwise (fun a b ha hb ↦ ?_) (List.pairwise_mergeSort trans total l)
    (List.pairwise_mergeSort trans total l') hperm
  exact antisymm a (List.mem_mergeSort.mp ha) b (h.mem_iff.mpr (List.mem_mergeSort.mp hb))

end Grouping
