import Mathlib.Data.List.Basic
import Mathlib.Tactic.Common

/-!
# Words

`" ".join(s.split())`, for any notion of a blank: the maximal runs of symbols that are no blanks
are the words, and they are put together again with one blank between two of them.  Doing it twice
is the same as doing it once (`oneLine_oneLine`), and what comes out has no symbols but those of
the words and the one blank.
-/

set_option autoImplicit false

variable {α : Type*} (p : α → Bool) (sep : α)

/-- `s.split()` -/
def wordsOf (s : List α) : List (List α) := (s.splitOnP p).filter fun w ↦ !w.isEmpty

/-- `" ".join(s.split())` -/
def oneLine (s : List α) : List α := [sep].intercalate (wordsOf p s)

variable {p sep}

/-- Where there is no blank there is at most one word. -/
theorem wordsOf_of_noBlank {w : List α} (hw : ∀ a ∈ w, p a = false) (hne : w ≠ []) :
    wordsOf p w = [w] := by
  rw [wordsOf, List.splitOnP_eq_singleton fun a ha ↦ by simp [hw a ha]]
  simp [hne]

theorem wordsOf_append_blank {w : List α} (hw : ∀ a ∈ w, p a = false) (hne : w ≠ []) {b : α}
    (hb : p b = true) (s : List α) : wordsOf p (w ++ b :: s) = w :: wordsOf p s := by
  rw [wordsOf, List.splitOnP_append_cons_of_forall_mem (fun a ha ↦ by simp [hw a ha]) b hb s,
    wordsOf]
  simp [hne]

/-- A word is not empty, has no blank, and is made of symbols of the text. -/
theorem mem_wordsOf {s w : List α} (h : w ∈ wordsOf p s) :
    w ≠ [] ∧ (∀ a ∈ w, p a = false) ∧ w ⊆ s := by
  rw [wordsOf, List.mem_filter] at h
  refine ⟨by simpa using h.2, ?_⟩
  replace h := h.1
  induction s generalizing w with
  | nil =>
    rw [List.splitOnP_nil, List.mem_singleton] at h
    simp [h]
  | cons a s ih =>
    rw [List.splitOnP_cons_eq_if_modifyHead] at h
    split at h
    · rcases List.mem_cons.mp h with rfl | h
      · simp
      · exact ⟨(ih h).1, fun x hx ↦ List.mem_cons_of_mem a ((ih h).2 hx)⟩
    · rename_i ha
      obtain ⟨v, rest, hvs⟩ := List.exists_cons_of_ne_nil (List.splitOnP_ne_nil p s)
      rw [hvs, List.modifyHead_cons] at h
      rcases List.mem_cons.mp h with rfl | h
      · have hv := ih (hvs ▸ List.mem_cons_self)
        exact ⟨List.forall_mem_cons.mpr ⟨by simpa using ha, hv.1⟩, List.cons_subset_cons a hv.2⟩
      · have hw := ih (hvs ▸ List.mem_cons_of_mem v h)
        exact ⟨hw.1, fun x hx ↦ List.mem_cons_of_mem a (hw.2 hx)⟩

/-- Words that are put together are taken apart again. -/
theorem wordsOf_intercalate {ws : List (List α)} (hsep : p sep = true)
    (hws : ∀ w ∈ ws, w ≠ [] ∧ ∀ a ∈ w, p a = false) : wordsOf p ([sep].intercalate ws) = ws := by
  induction ws with
  | nil => simp [wordsOf, List.splitOnP_nil]
  | cons w rest ih =>
    obtain ⟨⟨hne, hw⟩, hrest⟩ := List.forall_mem_cons.mp hws
    cases rest with
    | nil => simpa using wordsOf_of_noBlank hw hne
    | cons v rest =>
      rw [List.intercalate_cons_cons, List.append_assoc, List.singleton_append,
        wordsOf_append_blank hw hne hsep, ih hrest]

/-- **Once is enough.** -/
theorem oneLine_oneLine (hsep : p sep = true) (s : List α) :
    oneLine p sep (oneLine p sep s) = oneLine p sep s := by
  rw [oneLine, oneLine, wordsOf_intercalate hsep fun w hw ↦
    ⟨(mem_wordsOf hw).1, (mem_wordsOf hw).2.1⟩]

/-- Splitting commutes with a map that keeps the blanks. -/
theorem splitOnP_map {β : Type*} {q : β → Bool} (f : α → β) (s : List α) :
    (s.map f).splitOnP q = (s.splitOnP fun a ↦ q (f a)).map (List.map f) := by
  have hprepend (acc : List α) : (s.map f).splitOnPPrepend q (acc.map f) =
      (s.splitOnPPrepend (fun a ↦ q (f a)) acc).map (List.map f) := by
    induction s generalizing acc with
    | nil => simp
    | cons a s ih =>
      rw [List.map_cons, List.splitOnPPrepend_cons_eq_if, List.splitOnPPrepend_cons_eq_if]
      split
      · rw [List.map_cons, List.map_reverse]
        exact congrArg _ (ih [])
      · exact ih (a :: acc)
  exact hprepend []

theorem map_intercalate {β : Type*} (f : α → β) (sep : List α) (words : List (List α)) :
    (sep.intercalate words).map f = (sep.map f).intercalate (words.map (List.map f)) := by
  induction words with
  | nil => rfl
  | cons w words ih =>
    cases words with
    | nil => simp
    | cons w' words => simpa [List.intercalate_cons_cons] using ih

theorem oneLine_map {β : Type*} {q : β → Bool} (f : α → β) (sep : α) (s : List α) :
    (oneLine (fun a ↦ q (f a)) sep s).map f = oneLine q (f sep) (s.map f) := by
  have hempty : ((fun w : List β ↦ !w.isEmpty) ∘ List.map f) = fun w : List α ↦ !w.isEmpty := by
    ext1 w
    simp
  rw [oneLine, oneLine, wordsOf, wordsOf, splitOnP_map, List.filter_map, hempty, map_intercalate]
  rfl
