import Mathlib.Data.List.Lex
import Mathlib.Data.List.Nodup
import Mathlib.Data.List.Pairwise
import Mathlib.Order.Lattice

/-!
# Rankings

`ORDER BY k` returns the rows in any order in which the keys do not decrease (`OrderedBy`).  When
the keys are distinct there is one such order, and a row stands in it where the number of rows with
a smaller key says (`OrderedBy.getElem?_ahead`).  When they are not, the rows that tie can change
places: an order is the only one exactly when its keys are distinct
(`OrderedBy.eq_iff_nodup`).
-/

set_option autoImplicit false

variable {α κ : Type} [LinearOrder κ]

/-- What `ORDER BY k` may return. -/
def OrderedBy (k : α → κ) (rows out : List α) : Prop :=
  out.Perm rows ∧ out.Pairwise fun x y ↦ k x ≤ k y

/-- The number of rows that come before `x`. -/
def ahead (k : α → κ) (rows : List α) (x : α) : ℕ := rows.countP fun y ↦ decide (k y < k x)

namespace OrderedBy

variable {k : α → κ} {rows out out' : List α} {x : α}

theorem perm (h : OrderedBy k rows out) : out.Perm rows := h.1

theorem strict (h : OrderedBy k rows out) (hk : (rows.map k).Nodup) :
    out.Pairwise fun x y ↦ k x < k y := by
  have hne : out.Pairwise fun x y ↦ k x ≠ k y :=
    List.pairwise_map.mp ((h.perm.map k).nodup_iff.mpr hk)
  exact (h.2.and hne).imp fun hxy ↦ lt_of_le_of_ne hxy.1 hxy.2

/-- With distinct keys there is one order. -/
theorem eq (h : OrderedBy k rows out) (h' : OrderedBy k rows out') (hk : (rows.map k).Nodup) :
    out = out' :=
  List.Perm.eq_of_pairwise (fun _ _ _ _ hxy hyx ↦ absurd hyx hxy.asymm) (h.strict hk)
    (h'.strict hk) (h.perm.trans h'.perm.symm)

theorem ahead_eq (h : OrderedBy k rows out) : ahead k rows x = ahead k out x :=
  (h.perm.countP_eq _).symm

/-- In a strictly increasing list as many rows come before a row as have a smaller key. -/
theorem getElem?_ahead_of_strict {xs : List α} (h : xs.Pairwise fun x y ↦ k x < k y)
    (hx : x ∈ xs) : xs[ahead k xs x]? = some x := by
  induction xs with
  | nil => exact absurd hx List.not_mem_nil
  | cons y ys ih =>
    obtain ⟨hhead, htail⟩ := List.pairwise_cons.mp h
    rcases List.mem_cons.mp hx with rfl | hx
    · have hnone : ahead k (x :: ys) x = 0 := by
        refine List.countP_eq_zero.mpr fun z hz ↦ ?_
        rcases List.mem_cons.mp hz with rfl | hz
        · simp
        · simpa using (hhead z hz).le
      rw [hnone, List.getElem?_cons_zero]
    · have hmore : ahead k (y :: ys) x = ahead k ys x + 1 := by
        simp [ahead, hhead x hx]
      rw [hmore, List.getElem?_cons_succ]
      exact ih htail hx

/-- **A row stands where its rank says.** -/
theorem getElem?_ahead (h : OrderedBy k rows out) (hk : (rows.map k).Nodup) (hx : x ∈ rows) :
    out[ahead k rows x]? = some x := by
  rw [h.ahead_eq]
  exact getElem?_ahead_of_strict (h.strict hk) (h.perm.mem_iff.mpr hx)

theorem mem_take (h : OrderedBy k rows out) (hk : (rows.map k).Nodup) {n : ℕ} :
    x ∈ out.take n ↔ x ∈ rows ∧ ahead k rows x < n := by
  have hnodup : out.Nodup := (h.strict hk).imp fun hlt heq ↦ absurd hlt (by simp [heq])
  constructor
  · intro hx
    have hrows : x ∈ rows := h.perm.mem_iff.mp (List.mem_of_mem_take hx)
    obtain ⟨i, hi, hget⟩ := List.mem_take_iff_getElem.mp hx
    have hahead := h.getElem?_ahead hk hrows
    have hsame : i = ahead k rows x := by
      refine (List.getElem?_inj (by omega) hnodup).mp ?_
      rw [hahead, List.getElem?_eq_getElem (by omega), hget]
    exact ⟨hrows, by omega⟩
  · rintro ⟨hrows, hlt⟩
    obtain ⟨hlen, hget⟩ := List.getElem?_eq_some_iff.mp (h.getElem?_ahead hk hrows)
    exact List.mem_take_iff_getElem.mpr ⟨_, by omega, hget⟩

/-- **An order is the only one when its keys are distinct, and only then.** -/
theorem eq_iff_nodup {xs : List α} (hsorted : xs.Pairwise fun x y ↦ k x ≤ k y)
    (hnodup : xs.Nodup) : (∀ out, OrderedBy k xs out → out = xs) ↔ (xs.map k).Nodup := by
  refine ⟨fun hone ↦ ?_, fun hk out hout ↦ hout.eq ⟨.refl xs, hsorted⟩ hk⟩
  induction xs with
  | nil => exact List.nodup_nil
  | cons x xs ih =>
    obtain ⟨hhead, htail⟩ := List.pairwise_cons.mp hsorted
    obtain ⟨hx, hrest⟩ := List.nodup_cons.mp hnodup
    have hxs : (xs.map k).Nodup := by
      refine ih htail hrest fun out hout ↦ (List.cons.inj (hone (x :: out) ⟨?_, ?_⟩)).2
      · exact hout.perm.cons x
      · exact List.pairwise_cons.mpr ⟨fun y hy ↦ hhead y (hout.perm.mem_iff.mp hy), hout.2⟩
    refine List.nodup_cons.mpr ⟨fun hmem ↦ ?_, hxs⟩
    -- the second row ties with the first, and the two may change places
    obtain ⟨y, hy, hkey⟩ := List.mem_map.mp hmem
    obtain ⟨z, zs, rfl⟩ := List.exists_cons_of_ne_nil (List.ne_nil_of_mem hy)
    obtain ⟨hz, hzs⟩ := List.pairwise_cons.mp htail
    have htie : k z ≤ k x := by
      rcases List.mem_cons.mp hy with rfl | hy
      · exact hkey.le
      · exact (hz y hy).trans hkey.le
    have hswapped := hone (z :: x :: zs) ⟨.swap x z zs, ?_⟩
    · exact hx (by rw [(List.cons.inj hswapped).1]; exact List.mem_cons_self)
    · refine List.pairwise_cons.mpr ⟨fun w hw ↦ ?_, List.pairwise_cons.mpr ⟨fun w hw ↦ ?_, hzs⟩⟩
      · rcases List.mem_cons.mp hw with rfl | hw
        · exact htie
        · exact hz w hw
      · exact hhead w (List.mem_cons_of_mem _ hw)

end OrderedBy
