import Mathlib.Data.List.Basic
import Mathlib.Data.List.Infix
import Mathlib.Tactic.Common

/-!
# Joining with a separator

`sep.join(parts)` for a separator of one symbol.  When the separator occurs in no part, the parts
can be read back from the joined text (`append_sep_inj`).  When it may occur in them, they can
still be read back if no part that is followed by the separator is how another part begins:
that is `joinedBy_injective`.  It is as much as can be said, since a part `x ++ sep :: y` is also
what the parts `x` and `y` are joined to.
-/

set_option autoImplicit false

variable {α : Type*} {sep : α}

/-- `sep.join(parts)` -/
def joinedBy (sep : α) : List (List α) → List α
  | [] => []
  | [p] => p
  | p :: q :: ps => p ++ sep :: joinedBy sep (q :: ps)

@[simp] theorem joinedBy_nil : joinedBy sep [] = [] := rfl

@[simp] theorem joinedBy_singleton (p : List α) : joinedBy sep [p] = p := rfl

@[simp] theorem joinedBy_cons_cons (p q : List α) (ps : List (List α)) :
    joinedBy sep (p :: q :: ps) = p ++ sep :: joinedBy sep (q :: ps) := rfl

/-- What precedes the first separator is determined. -/
theorem append_sep_inj {x y r s : List α} (hx : sep ∉ x) (hy : sep ∉ y)
    (h : x ++ sep :: r = y ++ sep :: s) : x = y ∧ r = s := by
  induction x generalizing y with
  | nil =>
    cases y with
    | nil => simpa using h
    | cons b y =>
      simp only [List.nil_append, List.cons_append, List.cons.injEq] at h
      exact absurd (h.1 ▸ List.mem_cons_self) hy
  | cons a x ih =>
    cases y with
    | nil =>
      simp only [List.nil_append, List.cons_append, List.cons.injEq] at h
      exact absurd (h.1 ▸ List.mem_cons_self) hx
    | cons b y =>
      simp only [List.cons_append, List.cons.injEq] at h
      obtain ⟨rfl, h⟩ := h
      have := ih (fun hm ↦ hx (List.mem_cons_of_mem _ hm))
        (fun hm ↦ hy (List.mem_cons_of_mem _ hm)) h
      exact ⟨congrArg _ this.1, this.2⟩

/-- What follows the last separator is determined. -/
theorem append_sep_inj_right {x y r s : List α} (hr : sep ∉ r) (hs : sep ∉ s)
    (h : x ++ sep :: r = y ++ sep :: s) : x = y ∧ r = s := by
  have hrev := congrArg List.reverse h
  simp only [List.reverse_append, List.reverse_cons, List.append_assoc, List.singleton_append]
    at hrev
  have := append_sep_inj (by simpa using hr) (by simpa using hs) hrev
  exact ⟨List.reverse_injective this.2, List.reverse_injective this.1⟩

/-- A prefix that ends with the separator does not reach into what has none. -/
theorem prefix_of_prefix_append {p x t : List α} (ht : sep ∉ t) (h : p ++ [sep] <+: x ++ t) :
    p ++ [sep] <+: x := by
  obtain ⟨r, hr⟩ := h
  rcases List.append_eq_append_iff.mp hr with ⟨w, rfl, -⟩ | ⟨w, hw, rfl⟩
  · exact List.prefix_append _ _
  · rcases List.eq_nil_or_concat w with rfl | ⟨w', c, rfl⟩
    · rw [hw, List.append_nil]
    · rw [List.concat_eq_append, ← List.append_assoc] at hw
      have hc := (List.append_inj' hw rfl).2
      rw [List.cons.injEq] at hc
      exact absurd (by simp [hc.1]) ht

/-- What follows a part: nothing, or a separator. -/
private theorem tail_cases (sep : α) (ps : List (List α)) :
    ∃ tail, (∀ p, joinedBy sep (p :: ps) = p ++ tail) ∧
    (tail = [] ∧ ps = [] ∨ tail = sep :: joinedBy sep ps ∧ ps ≠ []) := by
  cases ps with
  | nil => exact ⟨[], by simp⟩
  | cons q ps => exact ⟨sep :: joinedBy sep (q :: ps), by simp⟩

/-- A longer first part goes on with the separator that ends the shorter one. -/
private theorem sep_begins {x w tail : List α} (hw : w ≠ [])
    (htail : w <+: tail) (h : tail = [] ∨ ∃ r, tail = sep :: r) : x ++ [sep] <+: x ++ w := by
  rw [List.prefix_append_right_inj]
  obtain ⟨a, w, rfl⟩ := List.exists_cons_of_ne_nil hw
  rcases h with rfl | ⟨r, rfl⟩
  · simp at htail
  · obtain ⟨rfl, -⟩ := List.cons_prefix_cons.mp htail
    simp

/-- **Parts can be read back** when none of them, followed by the separator, begins another. -/
theorem joinedBy_injective {ps qs : List (List α)}
    (hps : ∀ p ∈ ps, ∀ q ∈ qs, ¬ p ++ [sep] <+: q) (hqs : ∀ q ∈ qs, ∀ p ∈ ps, ¬ q ++ [sep] <+: p)
    (hp : [] ∉ ps) (hq : [] ∉ qs) (h : joinedBy sep ps = joinedBy sep qs) : ps = qs := by
  induction ps generalizing qs with
  | nil =>
    cases qs with
    | nil => rfl
    | cons q qs =>
      obtain ⟨tail, htail, -⟩ := tail_cases sep qs
      rw [htail, joinedBy_nil, eq_comm, List.append_eq_nil_iff] at h
      exact absurd (h.1 ▸ List.mem_cons_self) hq
  | cons p ps ih =>
    cases qs with
    | nil =>
      obtain ⟨tail, htail, -⟩ := tail_cases sep ps
      rw [htail, joinedBy_nil, List.append_eq_nil_iff] at h
      exact absurd (h.1 ▸ List.mem_cons_self) hp
    | cons q qs =>
      obtain ⟨tail, hp_tail, hps_tail⟩ := tail_cases sep ps
      obtain ⟨tail', hq_tail, hqs_tail⟩ := tail_cases sep qs
      rw [hp_tail, hq_tail] at h
      have hstart : tail = [] ∨ ∃ r, tail = sep :: r :=
        hps_tail.imp And.left fun h ↦ ⟨_, h.1⟩
      have hstart' : tail' = [] ∨ ∃ r, tail' = sep :: r :=
        hqs_tail.imp And.left fun h ↦ ⟨_, h.1⟩
      -- the first parts are of one length, or one of them runs over the separator after the other
      have heq : p = q ∧ tail = tail' := by
        rcases List.append_eq_append_iff.mp h with ⟨w, rfl, hw⟩ | ⟨w, rfl, hw⟩
        · rcases eq_or_ne w [] with rfl | hne
          · simpa using hw
          · exact absurd (sep_begins hne (hw ▸ List.prefix_append ..) hstart)
              (hps p List.mem_cons_self _ List.mem_cons_self)
        · rcases eq_or_ne w [] with rfl | hne
          · simpa using hw.symm
          · exact absurd (sep_begins hne (hw ▸ List.prefix_append ..) hstart')
              (hqs q List.mem_cons_self _ List.mem_cons_self)
      obtain ⟨rfl, htails⟩ := heq
      rcases hps_tail with ⟨hnil, rfl⟩ | ⟨hcons, hne⟩
      · rcases hqs_tail with ⟨-, rfl⟩ | ⟨hcons', -⟩
        · rfl
        · rw [hnil, hcons'] at htails
          cases htails
      · rcases hqs_tail with ⟨hnil', -⟩ | ⟨hcons', -⟩
        · rw [hcons, hnil'] at htails
          cases htails
        · rw [hcons, hcons', List.cons.injEq] at htails
          exact congrArg _ (ih (fun x hx y hy ↦ hps x (List.mem_cons_of_mem _ hx) y
            (List.mem_cons_of_mem _ hy)) (fun y hy x hx ↦ hqs y (List.mem_cons_of_mem _ hy) x
            (List.mem_cons_of_mem _ hx)) (fun hm ↦ hp (List.mem_cons_of_mem _ hm))
            (fun hm ↦ hq (List.mem_cons_of_mem _ hm)) htails.2)
