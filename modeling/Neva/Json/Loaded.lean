import Neva.Dict
import Neva.Json.Stored

/-!
# What has been read is proper

`Json.loads` makes a dictionary of every object, so no name is there twice in what it returns,
whatever the text was: `loads_proper`.  The invariant is about the state of the reader: what it has
read so far is proper (`State.Fine`), and no character changes that.
-/

set_option autoImplicit false

namespace Json

theorem insert_eq_set (members : List (List Char × Json)) (name : List Char) (value : Json) :
    insert members name value = Dict.set members name value := by
  simp only [insert, Dict.set, List.any_eq_true, beq_iff_eq]
  congr 1
  refine List.map_congr_left fun m _ ↦ ?_
  split
  · rename_i h
    rw [h]
  · rfl

/-- A dictionary has every name once, and no values but those of the members. -/
theorem dict_fine (members : List (List Char × Json)) :
    ((dict members).map Prod.fst).Nodup ∧ ∀ m ∈ dict members, ∃ m' ∈ members, m.2 = m'.2 := by
  induction members using List.reverseRecOn with
  | nil => exact ⟨List.nodup_nil, fun m hm ↦ absurd hm List.not_mem_nil⟩
  | append_singleton members x ih =>
    have hdict : dict (members ++ [x]) = Dict.set (dict members) x.1 x.2 := by
      rw [dict, List.foldl_append, ← insert_eq_set]
      rfl
    rw [hdict]
    refine ⟨Dict.nodup_keys_set ih.1, fun m hm ↦ ?_⟩
    rw [Dict.set] at hm
    have hold : ∀ m ∈ dict members, ∃ m' ∈ members ++ [x], m.2 = m'.2 := fun m hm ↦ by
      obtain ⟨m', hm', heq⟩ := ih.2 m hm
      exact ⟨m', List.mem_append_left _ hm', heq⟩
    split at hm
    · obtain ⟨y, hy, rfl⟩ := List.mem_map.mp hm
      split
      · exact ⟨x, List.mem_append_right _ (List.mem_singleton_self x), rfl⟩
      · exact hold y hy
    · rcases List.mem_append.mp hm with hm | hm
      · exact hold m hm
      · rw [List.mem_singleton.mp hm]
        exact ⟨x, List.mem_append_right _ (List.mem_singleton_self x), rfl⟩

theorem proper_dict {members : List (List Char × Json)} (h : ∀ m ∈ members, m.2.Proper) :
    (obj (dict members)).Proper := by
  obtain ⟨hnodup, hmem⟩ := dict_fine members
  rw [Proper]
  refine ⟨hnodup, properMembers_iff.mpr fun m hm ↦ ?_⟩
  obtain ⟨m', hm', heq⟩ := hmem m hm
  rw [heq]
  exact h m' hm'

/-- What a frame has collected is proper. -/
def Frame.Fine : Frame → Prop
  | .arr items => ∀ v ∈ items, v.Proper
  | .obj members _ => ∀ m ∈ members, m.2.Proper

namespace State

/-- What has been read is proper. -/
def Fine : State → Prop
  | run stack _ => ∀ f ∈ stack, f.Fine
  | done v => v.Proper

variable {stack : List Frame} {s s' : State} {c : Char}

theorem finish_fine {v : Json} (hv : v.Proper) (hstack : ∀ f ∈ stack, f.Fine)
    (h : finish v stack = some s) : s.Fine := by
  rw [finish.eq_def] at h
  split at h
  · cases h
    exact hv
  · cases h
    obtain ⟨hitems, hrest⟩ := List.forall_mem_cons.mp hstack
    exact List.forall_mem_cons.mpr ⟨List.forall_mem_cons.mpr ⟨hv, hitems⟩, hrest⟩
  · cases h
    obtain ⟨hmembers, hrest⟩ := List.forall_mem_cons.mp hstack
    exact List.forall_mem_cons.mpr ⟨List.forall_mem_cons.mpr ⟨hv, hmembers⟩, hrest⟩
  · cases h

theorem close_fine (hstack : ∀ f ∈ stack, f.Fine) (h : close c stack = some s) : s.Fine := by
  rw [close.eq_def] at h
  split at h
  · obtain ⟨hitems, hrest⟩ := List.forall_mem_cons.mp hstack
    split at h
    · cases h
      exact hstack
    · split at h
      · refine finish_fine ?_ hrest h
        rw [Proper]
        exact properItems_iff.mpr fun v hv ↦ hitems v (List.mem_reverse.mp hv)
      · cases h
  · obtain ⟨hmembers, hrest⟩ := List.forall_mem_cons.mp hstack
    split at h
    · cases h
      exact hstack
    · split at h
      · exact finish_fine (proper_dict fun m hm ↦ hmembers m (List.mem_reverse.mp hm)) hrest h
      · cases h
  · cases h

theorem openValue_fine (hstack : ∀ f ∈ stack, f.Fine) (h : openValue c stack = some s) :
    s.Fine := by
  have hnil {f : Frame} (hf : f.Fine) : ∀ f' ∈ f :: stack, f'.Fine :=
    List.forall_mem_cons.mpr ⟨hf, hstack⟩
  rw [openValue] at h
  split_ifs at h
  · cases h
    exact hstack
  · cases h
    exact hnil fun v hv ↦ absurd hv List.not_mem_nil
  · cases h
    exact hnil fun m hm ↦ absurd hm List.not_mem_nil
  · cases h
    exact hstack

theorem atomValue_proper {read : List Char} {v : Json} (h : atomValue read = some v) :
    v.Proper := by
  rw [atomValue] at h
  split_ifs at h <;> (cases h; simp [Proper])

theorem finishString_fine {isName : Bool} {read : List Char} (hstack : ∀ f ∈ stack, f.Fine)
    (h : finishString isName read stack = some s) : s.Fine := by
  rw [finishString.eq_def] at h
  split at h
  · split at h
    · cases h
      obtain ⟨hmembers, hrest⟩ := List.forall_mem_cons.mp hstack
      exact List.forall_mem_cons.mpr ⟨hmembers, hrest⟩
    · cases h
  · exact finish_fine (by simp [Proper]) hstack h

theorem stepAfter_fine (hs : s.Fine) (h : stepAfter c s = some s') : s'.Fine := by
  rw [stepAfter.eq_def] at h
  split at h
  · split at h
    · cases h
      exact hs
    · cases h
  · split at h
    · cases h
      exact hs
    · exact close_fine hs h

theorem finishHex_fine {isName : Bool} {read : List Char} {code : ℕ} {high : Option ℕ}
    (hstack : ∀ f ∈ stack, f.Fine) (h : finishHex isName read stack code high = some s) :
    s.Fine := by
  rw [finishHex.eq_def] at h
  split at h
  · split_ifs at h <;> (cases h; exact hstack)
  · split_ifs at h
    cases h
    exact hstack

/-- No character changes that what has been read is proper. -/
theorem step_fine (hs : s.Fine) (h : s.step c = some s') : s'.Fine := by
  rw [step.eq_def] at h
  split at h
  · exact stepAfter_fine hs h
  · exact stepAfter_fine hs h
  · split_ifs at h
    · cases h
      exact hs
    · exact close_fine hs h
    · exact openValue_fine hs h
  · split_ifs at h
    · cases h
      exact hs
    · exact close_fine hs h
    · cases h
      exact hs
  · split_ifs at h <;> (cases h; exact hs)
  · split at h
    · cases h
      exact hs
    · obtain ⟨v, hv, h⟩ := Option.bind_eq_some_iff.mp h
      obtain ⟨s₁, hs₁, h⟩ := Option.bind_eq_some_iff.mp h
      exact stepAfter_fine (finish_fine (atomValue_proper hv) hs hs₁) h
  · split_ifs at h
    · exact finishString_fine hs h
    · cases h
      exact hs
    · cases h
      exact hs
  · split at h
    · cases h
      exact hs
    · obtain ⟨c', -, rfl⟩ := Option.map_eq_some_iff.mp h
      exact hs
  · obtain ⟨n, -, h⟩ := Option.bind_eq_some_iff.mp h
    split at h
    · exact finishHex_fine hs h
    · cases h
      exact hs
  · split_ifs at h <;> (cases h; exact hs)

theorem feed_fine {text : List Char} (hs : s.Fine) (h : s.feed text = some s') : s'.Fine := by
  induction text generalizing s with
  | nil =>
    cases h
    exact hs
  | cons c text ih =>
    rw [feed_cons] at h
    obtain ⟨s₁, hs₁, h⟩ := Option.bind_eq_some_iff.mp h
    exact ih (step_fine hs hs₁) h

theorem result_proper {v : Json} (hs : s.Fine) (h : s.result = some v) : v.Proper := by
  rw [result.eq_def] at h
  split at h
  · cases h
    exact hs
  · exact atomValue_proper h
  · cases h

end State

/-- **What has been read is proper.** -/
theorem loads_proper {text : List Char} {v : Json} (h : loads text = some v) : v.Proper := by
  rw [loads] at h
  obtain ⟨s, hs, h⟩ := Option.bind_eq_some_iff.mp h
  exact State.result_proper (State.feed_fine (fun f hf ↦ absurd hf List.not_mem_nil) hs) h

end Json
