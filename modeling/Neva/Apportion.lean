import Mathlib.Algebra.BigOperators.Group.List.Basic
import Mathlib.Algebra.Order.BigOperators.Group.List
import Mathlib.Algebra.Order.Floor.Ring
import Mathlib.Data.List.Nodup
import Mathlib.Tactic.Linarith
import Mathlib.Tactic.LinearCombination

/-!
# Largest remainders

Seats are given to parties whose exact shares `x i` are not whole.  Every party gets the whole part
of its share, and the seats that are left go, one each, to the parties with the largest remainders.
The number of seats is the sum of the shares, rounded to the nearest whole number.

What is left is never negative (`sum_floor_le`), and never more than the parties with a remainder
(`remaining_le`), so no party without one gets an extra seat (`fract_pos_of_mem_take`).  Hence
every party gets its share, rounded up or down (`seats_near`), and the seats add up (`sum_seats`).
-/

set_option autoImplicit false

namespace Apportion

variable {ι K : Type*} [Field K] [LinearOrder K] [IsStrictOrderedRing K] [FloorRing K]
  (x : ι → K)

/-- A list of shares is its whole parts and its remainders. -/
theorem sum_floor_add_sum_fract (l : List ι) :
    (((l.map fun i ↦ ⌊x i⌋).sum : ℤ) : K) + (l.map fun i ↦ Int.fract (x i)).sum =
      (l.map x).sum := by
  induction l with
  | nil => simp
  | cons i l ih =>
    have hi : (⌊x i⌋ : K) + Int.fract (x i) = x i := Int.floor_add_fract _
    simp only [List.map_cons, List.sum_cons, Int.cast_add]
    linear_combination ih + hi

theorem sum_fract_nonneg (l : List ι) : 0 ≤ (l.map fun i ↦ Int.fract (x i)).sum := by
  refine List.sum_nonneg fun a ha ↦ ?_
  obtain ⟨i, -, rfl⟩ := List.mem_map.mp ha
  exact Int.fract_nonneg _

/-- The remainders are less than the number of those there are. -/
theorem sum_fract_le (l : List ι) :
    (l.map fun i ↦ Int.fract (x i)).sum ≤ (l.countP fun i ↦ 0 < Int.fract (x i) : ℕ) := by
  induction l with
  | nil => simp
  | cons i l ih =>
    rw [List.map_cons, List.sum_cons, List.countP_cons]
    have hlt := Int.fract_lt_one (x i)
    by_cases hpos : 0 < Int.fract (x i)
    · rw [if_pos (by simpa using hpos)]
      push_cast
      linarith
    · rw [if_neg (by simpa using hpos)]
      push_cast
      linarith

/-- The whole parts do not use up more seats than there are. -/
theorem sum_floor_le (l : List ι) : (l.map fun i ↦ ⌊x i⌋).sum ≤ ⌊(l.map x).sum + 1 / 2⌋ := by
  rw [Int.le_floor]
  have hsum := sum_floor_add_sum_fract x l
  have hnonneg := sum_fract_nonneg x l
  linarith

/-- The seats that are left are no more than the parties with a remainder. -/
theorem remaining_le (l : List ι) :
    ⌊(l.map x).sum + 1 / 2⌋ - (l.map fun i ↦ ⌊x i⌋).sum ≤
      (l.countP fun i ↦ 0 < Int.fract (x i) : ℕ) := by
  have hfloor := Int.floor_le ((l.map x).sum + 1 / 2)
  have hsum := sum_floor_add_sum_fract x l
  have hle := sum_fract_le x l
  -- half a seat is no seat
  have hlt : ((⌊(l.map x).sum + 1 / 2⌋ - (l.map fun i ↦ ⌊x i⌋).sum : ℤ) : K) <
      ((((l.countP fun i ↦ 0 < Int.fract (x i)) : ℕ) + 1 : ℤ) : K) := by
    rw [Int.cast_sub, Int.cast_add, Int.cast_natCast, Int.cast_one]
    linarith
  exact Int.lt_add_one_iff.mp (Int.cast_lt.mp hlt)

omit [IsStrictOrderedRing K] in
/-- The first parties of a ranking by remainders have remainders, as long as there are enough. -/
theorem fract_pos_of_mem_take {l : List ι}
    (hranked : l.Pairwise fun i j ↦ Int.fract (x j) ≤ Int.fract (x i)) {k : ℕ}
    (hk : k ≤ l.countP fun i ↦ 0 < Int.fract (x i)) : ∀ i ∈ l.take k, 0 < Int.fract (x i) := by
  induction l generalizing k with
  | nil => simp
  | cons i l ih =>
    obtain ⟨hfirst, hrest⟩ := List.pairwise_cons.mp hranked
    cases k with
    | zero => simp
    | succ k =>
      rw [List.countP_cons] at hk
      by_cases hpos : 0 < Int.fract (x i)
      · rw [if_pos (by simpa using hpos)] at hk
        rw [List.take_succ_cons, List.forall_mem_cons]
        exact ⟨hpos, ih hrest (by omega)⟩
      · -- then no later party has a remainder either
        have hnone : l.countP (fun j ↦ 0 < Int.fract (x j)) = 0 := by
          rw [List.countP_eq_zero]
          intro j hj
          have hle := hfirst j hj
          simp only [decide_eq_true_eq, not_lt] at hpos ⊢
          exact hle.trans hpos
        rw [if_neg (by simpa using hpos), hnone] at hk
        omega

/-! ## Seats -/

variable [DecidableEq ι]

/-- The sum over a list without repetitions in which one element counts. -/
theorem sum_ite_eq {l : List ι} (hn : l.Nodup) (j : ι) (n : ℤ) :
    (l.map fun i ↦ if i = j then n else 0).sum = if j ∈ l then n else 0 := by
  rw [List.sum_map_ite_eq]
  by_cases hj : j ∈ l
  · rw [List.count_eq_one_of_mem hn hj, if_pos hj]
    simp
  · rw [List.count_eq_zero.mpr hj, if_neg hj]
    simp

/-- The seats of a party, when the parties in `extra` get one more. -/
def seats (extra : List ι) (i : ι) : ℤ := ⌊x i⌋ + extra.count i

/-- **Every party gets its share, rounded up or down.** -/
theorem seats_near {extra : List ι} (hn : extra.Nodup)
    (hpos : ∀ i ∈ extra, 0 < Int.fract (x i)) (i : ι) : |(seats x extra i : K) - x i| < 1 := by
  have hx : (⌊x i⌋ : K) + Int.fract (x i) = x i := Int.floor_add_fract _
  have hlt := Int.fract_lt_one (x i)
  have hnonneg := Int.fract_nonneg (x i)
  rw [abs_lt, seats]
  push_cast
  by_cases hi : i ∈ extra
  · have hfract := hpos i hi
    rw [List.count_eq_one_of_mem hn hi, Nat.cast_one]
    constructor <;> linarith
  · rw [List.count_eq_zero.mpr hi, Nat.cast_zero]
    constructor <;> linarith

/-- A party with a share below `m` seats gets at most `m`. -/
theorem seats_le {extra : List ι} (hn : extra.Nodup)
    (hpos : ∀ i ∈ extra, 0 < Int.fract (x i)) {i : ι} {m : ℤ} (hm : x i ≤ m) :
    seats x extra i ≤ m := by
  have hnear := (abs_lt.mp (seats_near x hn hpos i)).2
  have hlt : (seats x extra i : K) < ((m + 1 : ℤ) : K) := by
    push_cast
    linarith
  exact Int.lt_add_one_iff.mp (Int.cast_lt.mp hlt)

omit [IsStrictOrderedRing K] in
theorem seats_nonneg (extra : List ι) {i : ι} (hx : 0 ≤ x i) : 0 ≤ seats x extra i := by
  have hfloor : 0 ≤ ⌊x i⌋ := Int.floor_nonneg.mpr hx
  rw [seats]
  omega

omit [IsStrictOrderedRing K] in
/-- **The seats add up.** -/
theorem sum_seats {l extra : List ι} (hn : l.Nodup) (hextra : ∀ i ∈ extra, i ∈ l) :
    (l.map (seats x extra)).sum = (l.map fun i ↦ ⌊x i⌋).sum + extra.length := by
  have hcount : ∀ {l extra : List ι}, l.Nodup → (∀ i ∈ extra, i ∈ l) →
      (l.map fun i ↦ (extra.count i : ℤ)).sum = extra.length := by
    intro l extra hn hextra
    induction extra with
    | nil => simp
    | cons j extra ih =>
      obtain ⟨hj, hrest⟩ := List.forall_mem_cons.mp hextra
      have hsplit (i : ι) :
          ((j :: extra).count i : ℤ) = extra.count i + if i = j then 1 else 0 := by
        rw [List.count_cons]
        simp only [beq_iff_eq, eq_comm (a := j)]
        split <;> simp
      simp only [hsplit, List.sum_map_add, ih hrest, sum_ite_eq hn, if_pos hj, List.length_cons]
      push_cast
      rfl
  have hseats : (l.map (seats x extra)) =
      l.map fun i ↦ ⌊x i⌋ + (extra.count i : ℤ) := rfl
  rw [hseats, List.sum_map_add, hcount hn hextra]

end Apportion
