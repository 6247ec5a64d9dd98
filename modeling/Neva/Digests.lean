import Mathlib.Data.Option.Basic
import Mathlib.Tactic.Common

/-!
# Describing a collection of files by their digests

A collection of files is a partial function from keys to contents, and an index a list of keys
with digests.  `Digests.Describes` says that the index lists exactly the keys of the collection,
each with the digest of its contents.  An index describes at most one collection, as far as the
digest tells contents apart: `Describes.unique`.
-/

set_option autoImplicit false

namespace Digests

variable {κ κ' β δ : Type*} {digest : β → δ}

/-- The index lists the files, and their digests. -/
structure Describes (digest : β → δ) (index : List (κ × δ)) (file : κ → Option β) : Prop where
  covers : ∀ k b, file k = some b → ∃ d, (k, d) ∈ index
  agrees : ∀ k d, (k, d) ∈ index → ∃ b, file k = some b ∧ digest b = d

/-- No two files of the two collections have one digest and different contents. -/
def NoCollision (digest : β → δ) (file : κ → Option β) (file' : κ' → Option β) : Prop :=
  ∀ k k' b b', file k = some b → file' k' = some b' → digest b = digest b' → b = b'

theorem Describes.eq_some {index : List (κ × δ)} {file file' : κ → Option β}
    (h : Describes digest index file) (h' : Describes digest index file')
    (hcol : NoCollision digest file file') {k : κ} {b : β} (hk : file k = some b) :
    file' k = some b := by
  obtain ⟨d, hd⟩ := h.covers k b hk
  obtain ⟨b₁, hb₁, hd₁⟩ := h.agrees k d hd
  obtain ⟨b₂, hb₂, hd₂⟩ := h'.agrees k d hd
  have hb : b₁ = b := Option.some.inj (hb₁.symm.trans hk)
  have heq : b = b₂ := hcol k k b b₂ hk hb₂ (hb ▸ hd₁.trans hd₂.symm)
  rw [hb₂, heq]

/-- **An index describes one collection.** -/
theorem Describes.unique {index : List (κ × δ)} {file file' : κ → Option β}
    (h : Describes digest index file) (h' : Describes digest index file')
    (hcol : NoCollision digest file file') : file = file' := by
  have hsymm : NoCollision digest file' file :=
    fun k k' b b' hk hk' hd ↦ (hcol k' k b' b hk' hk hd.symm).symm
  funext k
  refine Option.ext fun b ↦ ⟨fun hk ↦ h.eq_some h' hcol hk, fun hk ↦ h'.eq_some h hsymm hk⟩

end Digests
