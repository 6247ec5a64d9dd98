import Mathlib.Algebra.Order.Group.Defs
import Mathlib.Data.List.TakeWhile

/-!
# Sliding windows

A limiter that admits at most `n` calls in any window of length `w` need not remember all it has
admitted.  It keeps a queue, drops what is at least `w` old from its front and admits a call when
fewer than `n` are left.  `Paced w n now log queue` is what such a queue knows of the whole `log`:
whatever is no longer in it is too old to share a window with a call admitted from now on.

Time only goes forward (`Paced.later`), dropping forgets nothing that matters (`Paced.prune`), and
an admission keeps every window within the limit (`Paced.push`).
-/

set_option autoImplicit false

variable {κ : Type} [AddCommGroup κ] [LinearOrder κ]

/-- The calls of `log` in the window from `a`, taken without its end and without its start. -/
def inWindow (w a : κ) (log : List κ) : ℕ × ℕ :=
  (log.countP fun t ↦ decide (a ≤ t ∧ t < a + w), log.countP fun t ↦ decide (a < t ∧ t ≤ a + w))

/-- `queue` is what a limiter of `n` calls in a window of length `w` remembers of `log`. -/
structure Paced (w : κ) (n : ℕ) (now : κ) (log queue : List κ) : Prop where
  /-- What has been dropped is at least `w` old. -/
  kept : ∃ old, log = old ++ queue ∧ ∀ t ∈ old, t + w ≤ now
  short : queue.length ≤ n
  bounded : ∀ a, (inWindow w a log).1 ≤ n ∧ (inWindow w a log).2 ≤ n

namespace Paced

variable {w now now' t : κ} {n : ℕ} {log queue : List κ}

theorem nil (w : κ) (n : ℕ) (now : κ) : Paced w n now [] [] :=
  ⟨⟨[], rfl, by simp⟩, Nat.zero_le _, fun _ ↦ ⟨Nat.zero_le _, Nat.zero_le _⟩⟩

theorem later (h : Paced w n now log queue) (hle : now ≤ now') : Paced w n now' log queue := by
  obtain ⟨old, hlog, hold⟩ := h.kept
  exact ⟨⟨old, hlog, fun t ht ↦ (hold t ht).trans hle⟩, h.short, h.bounded⟩

/-- A window the call falls into has, of the calls before it, only some of those in the queue. -/
theorem countP_log_le (h : Paced w n now log queue) (p : κ → Bool)
    (hp : ∀ x, x + w ≤ now → p x = false) : log.countP p ≤ queue.length := by
  obtain ⟨old, rfl, hold⟩ := h.kept
  have hnone : old.countP p = 0 :=
    List.countP_eq_zero.mpr fun x hx ↦ by simp [hp x (hold x hx)]
  rw [List.countP_append, hnone, Nat.zero_add]
  exact List.countP_le_length

variable [IsOrderedAddMonoid κ]

/-- What is old enough is dropped from the front. -/
theorem prune (h : Paced w n now log queue) :
    Paced w n now log (queue.dropWhile fun t ↦ decide (w ≤ now - t)) := by
  obtain ⟨old, hlog, hold⟩ := h.kept
  refine ⟨⟨old ++ queue.takeWhile fun t ↦ decide (w ≤ now - t), ?_, fun t ht ↦ ?_⟩, ?_, h.bounded⟩
  · rw [List.append_assoc, List.takeWhile_append_dropWhile, hlog]
  · rcases List.mem_append.mp ht with ht | ht
    · exact hold t ht
    · have hage : w ≤ now - t := by simpa using List.mem_takeWhile_imp ht
      rw [add_comm]
      exact le_sub_iff_add_le.mp hage
  · exact (List.dropWhile_sublist _).length_le.trans h.short

/-- A call is admitted while the queue is not full. -/
theorem push (h : Paced w n now log queue) (hlt : queue.length < n) (hle : now ≤ t) :
    Paced w n t (log ++ [t]) (queue ++ [t]) := by
  have hpush : ∀ p : κ → Bool, log.countP p ≤ n → (p t = true → ∀ x, x + w ≤ now → p x = false) →
      (log ++ [t]).countP p ≤ n := by
    intro p hn hp
    rw [List.countP_append, List.countP_singleton]
    cases hpt : p t with
    | false => simpa using hn
    | true =>
      have hcount := h.countP_log_le p (hp hpt)
      simp only [if_true]
      omega
  obtain ⟨old, hlog, hold⟩ := h.kept
  refine ⟨⟨old, by rw [hlog, List.append_assoc], fun x hx ↦ (hold x hx).trans hle⟩, ?_, fun a ↦ ?_⟩
  · rw [List.length_append, List.length_singleton]
    omega
  · refine ⟨hpush _ (h.bounded a).1 fun hin x hx ↦ ?_, hpush _ (h.bounded a).2 fun hin x hx ↦ ?_⟩
    · obtain ⟨-, hlt⟩ := of_decide_eq_true hin
      have hxa : x < a := lt_of_add_lt_add_right (((hx.trans hle).trans_lt hlt))
      simp [hxa.not_ge]
    · obtain ⟨-, hle'⟩ := of_decide_eq_true hin
      have hxa : x ≤ a := le_of_add_le_add_right ((hx.trans hle).trans hle')
      simp [hxa.not_gt]

end Paced
