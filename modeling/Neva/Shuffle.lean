import Mathlib.Data.List.Perm.Basic

/-!
# Seeded shuffles

`random.Random(seed).shuffle(xs)`: from the last position down, each position is swapped with one
that is drawn from those up to it.  The draws depend on the seed and on the length of the list, and
on nothing the list contains.  A seed is therefore a fixed rearrangement of the positions: the
result has the same elements (`shuffle_perm`), and two lists of one length that a seed shuffles
into the same list were the same before (`shuffle_inj`).
-/

set_option autoImplicit false

/-- A generator of random numbers: its state after a seed, and the draw of a number below a
bound. -/
structure Generator (κ σ : Type) where
  seed : κ → σ
  randbelow : σ → ℕ → ℕ × σ
  randbelow_lt : ∀ (s : σ) (n : ℕ), 0 < n → (randbelow s n).1 < n

namespace Generator

variable {κ σ α : Type} (g : Generator κ σ)

/-- `for i in reversed(range(1, i + 1)): j = randbelow(i + 1); x[i], x[j] = x[j], x[i]` -/
def shuffleFrom : ℕ → σ → List α → List α
  | 0, _, xs => xs
  | i + 1, s, xs =>
    let drawn := g.randbelow s (i + 2)
    shuffleFrom i drawn.2 (xs.swap (i + 1) drawn.1)

/-- `Random(key).shuffle(xs)` -/
def shuffle (key : κ) (xs : List α) : List α := g.shuffleFrom (xs.length - 1) (g.seed key) xs

variable {g}

theorem shuffleFrom_perm (i : ℕ) (s : σ) (xs : List α) : (g.shuffleFrom i s xs).Perm xs := by
  induction i generalizing s xs with
  | zero => exact .refl xs
  | succ i ih => exact (ih _ _).trans (List.swap_perm xs _ _)

theorem shuffleFrom_injective (i : ℕ) (s : σ) :
    (g.shuffleFrom i s : List α → List α).Injective := by
  induction i generalizing s with
  | zero => exact fun _ _ h ↦ h
  | succ i ih =>
    intro xs ys h
    have hswap := ih _ h
    -- a swap undoes itself
    simpa using congrArg (fun zs ↦ zs.swap (i + 1) (g.randbelow s (i + 2)).1) hswap

/-- A shuffled list has the same elements. -/
theorem shuffle_perm (key : κ) (xs : List α) : (g.shuffle key xs).Perm xs :=
  shuffleFrom_perm _ _ _

/-- A seed shuffles different lists of one length into different lists. -/
theorem shuffle_inj {key : κ} {xs ys : List α} (hlen : xs.length = ys.length) :
    g.shuffle key xs = g.shuffle key ys ↔ xs = ys := by
  rw [shuffle, shuffle, hlen]
  exact (shuffleFrom_injective _ _).eq_iff

end Generator
