import Neva.Separated

/-!
# Concatenating records

A way to write values is self-delimiting when a value can be read off the front of a text that
begins with it.  The texts of a list of such values, one after the other, then determine the list:
`SelfDelimiting.flatMap_inj`.  A name that ends with a mark, followed by a body of a known length
and a mark, is written so (`selfDelimiting_record`); the body may contain the mark.
-/

set_option autoImplicit false

namespace Framed

variable {α β : Type*}

/-- Lists with the same images are the same, where the function tells their elements apart. -/
theorem map_inj_of_mem {γ : Type*} {f : α → γ} {l l' : List α}
    (hf : ∀ a ∈ l, ∀ a' ∈ l', f a = f a' → a = a') (h : l.map f = l'.map f) : l = l' := by
  induction l generalizing l' with
  | nil => simpa [eq_comm] using h
  | cons a l ih =>
    cases l' with
    | nil => simp at h
    | cons a' l' =>
      rw [List.map_cons, List.map_cons, List.cons.injEq] at h
      rw [hf a List.mem_cons_self a' List.mem_cons_self h.1,
        ih (fun b hb b' hb' ↦ hf b (List.mem_cons_of_mem _ hb) b' (List.mem_cons_of_mem _ hb')) h.2]

/-- What is written begins with at most one value for which `P` holds. -/
def SelfDelimiting (f : α → List β) (P : α → Prop) : Prop :=
  ∀ a a', P a → P a' → ∀ s s', f a ++ s = f a' ++ s' → a = a' ∧ s = s'

/-- **The records of a list can be told apart.** -/
theorem SelfDelimiting.flatMap_inj {f : α → List β} {P : α → Prop} (hf : SelfDelimiting f P)
    (hne : ∀ a, f a ≠ []) {l l' : List α} (hl : ∀ a ∈ l, P a) (hl' : ∀ a ∈ l', P a)
    (h : l.flatMap f = l'.flatMap f) : l = l' := by
  induction l generalizing l' with
  | nil =>
    cases l' with
    | nil => rfl
    | cons a l' =>
      rw [List.flatMap_nil, List.flatMap_cons] at h
      exact absurd (List.append_eq_nil_iff.mp h.symm).1 (hne a)
  | cons a l ih =>
    cases l' with
    | nil =>
      rw [List.flatMap_nil, List.flatMap_cons] at h
      exact absurd (List.append_eq_nil_iff.mp h).1 (hne a)
    | cons a' l' =>
      obtain ⟨ha, hrest⟩ := List.forall_mem_cons.mp hl
      obtain ⟨ha', hrest'⟩ := List.forall_mem_cons.mp hl'
      rw [List.flatMap_cons, List.flatMap_cons] at h
      obtain ⟨heq, htail⟩ := hf a a' ha ha' _ _ h
      rw [heq, ih hrest hrest' htail]

/-- A name, a mark, a body, and a mark. -/
def record (mark : β) (r : List β × List β) : List β := r.1 ++ mark :: (r.2 ++ [mark])

theorem record_ne_nil (mark : β) (r : List β × List β) : record mark r ≠ [] := by
  simp [record]

theorem selfDelimiting_record (mark : β) (n : ℕ) :
    SelfDelimiting (record mark) fun r ↦ mark ∉ r.1 ∧ r.2.length = n := by
  rintro ⟨name, body⟩ ⟨name', body'⟩ ⟨hname, hbody⟩ ⟨hname', hbody'⟩ s s' h
  simp only [record, List.append_assoc, List.cons_append] at h
  obtain ⟨hn, hmarked⟩ := append_sep_inj hname hname' h
  obtain ⟨hb, htail⟩ := List.append_inj hmarked (hbody.trans hbody'.symm)
  exact ⟨Prod.ext hn hb, by simpa using htail⟩

end Framed
