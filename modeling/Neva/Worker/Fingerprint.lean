import Neva.Schema

/-!
# Acoustic fingerprints

The comparison half of `worker/fingerprint.py`.  A fingerprint is the hash of the decoded PCM and
a coarse loudness envelope, one of sixteen levels per frame.  Two recordings match when their
hashes are equal, or when their envelopes are near each other under some small time shift.

The distance and the budget it is compared with are exact rationals here.

`fingerprintsMatch_comm` is what makes "these two match" a statement about a *pair* of recordings
although one of them is always the earlier one, and `decodeEnvelope_encodeEnvelope` is what makes
it the same statement about a stored fingerprint and about the recording it came from.
-/

set_option autoImplicit false

namespace Neva

/-- `AcousticFingerprint`.  The quantizer produces levels in `0..15`. -/
structure AcousticFingerprint where
  contentHash : Text
  envelope : List (Fin 16)
  frameMs : ℕ
  deriving DecidableEq, Repr

/-! ## The stored form of an envelope -/

def hexDigits : List Char :=
  ['0', '1', '2', '3', '4', '5', '6', '7', '8', '9', 'a', 'b', 'c', 'd', 'e', 'f']

/-- `f"{level:x}"` -/
def hexDigit (level : Fin 16) : Char := hexDigits[level.val]

/-- `int(char, 16)`, on the digits `hexDigit` writes. -/
def hexValue (c : Char) : Option (Fin 16) :=
  (List.finRange 16).find? fun level ↦ hexDigit level == c

theorem hexValue_hexDigit (level : Fin 16) : hexValue (hexDigit level) = some level := by
  revert level
  decide

def encodeEnvelope (envelope : List (Fin 16)) : Text := envelope.map hexDigit

/-- `none` is the `ValueError` of a character that is no hex digit. -/
def decodeEnvelope (encoded : Text) : Option (List (Fin 16)) := encoded.mapM hexValue

/-- **Storing an envelope loses nothing.** -/
theorem decodeEnvelope_encodeEnvelope (envelope : List (Fin 16)) :
    decodeEnvelope (encodeEnvelope envelope) = some envelope := by
  induction envelope with
  | nil => rfl
  | cons level rest ih =>
    rw [encodeEnvelope, List.map_cons, decodeEnvelope, List.mapM_cons, hexValue_hexDigit]
    rw [encodeEnvelope, decodeEnvelope] at ih
    rw [ih]
    rfl

theorem encodeEnvelope_injective : Function.Injective encodeEnvelope := by
  intro left right h
  have hdecode := congrArg decodeEnvelope h
  rw [decodeEnvelope_encodeEnvelope, decodeEnvelope_encodeEnvelope] at hdecode
  exact Option.some.inj hdecode

theorem encodeEnvelope_eq_nil {envelope : List (Fin 16)} :
    encodeEnvelope envelope = [] ↔ envelope = [] :=
  List.map_eq_nil_iff

/-! ## Distance -/

/-- The level of frame `i`. -/
def levelAt (envelope : List (Fin 16)) (i : ℕ) : ℤ := ((envelope.getD i 0).val : ℤ)

/-- `_aligned_mean_abs_distance`: the mean distance where the envelopes overlap when `right` is
slid by `shift` frames, or `none` when they overlap in fewer than three. -/
def alignedMeanAbsDistance (left right : List (Fin 16)) (shift : ℤ) : Option ℚ :=
  let leftStart := (max 0 shift).toNat
  let rightStart := (max 0 (-shift)).toNat
  let overlap : ℤ := min ((left.length : ℤ) - leftStart) ((right.length : ℤ) - rightStart)
  if overlap < 3 then none
  else
    let total := ((List.range overlap.toNat).map fun i ↦
      (levelAt left (leftStart + i) - levelAt right (rightStart + i)).natAbs).sum
    some ((total : ℚ) / overlap)

/-- Sliding `right` one way is sliding `left` the other way. -/
theorem alignedMeanAbsDistance_comm (left right : List (Fin 16)) (shift : ℤ) :
    alignedMeanAbsDistance left right shift = alignedMeanAbsDistance right left (-shift) := by
  have hsum : ∀ (n a b : ℕ),
      ((List.range n).map fun i ↦ (levelAt left (a + i) - levelAt right (b + i)).natAbs).sum =
        ((List.range n).map fun i ↦
          (levelAt right (b + i) - levelAt left (a + i)).natAbs).sum := by
    intro n a b
    congr 1
    refine List.map_congr_left fun i _ ↦ ?_
    rw [← Int.natAbs_neg, neg_sub]
  simp only [alignedMeanAbsDistance, neg_neg]
  rw [min_comm, hsum]

/-- `range(-max_shift_frames, max_shift_frames + 1)` -/
def shifts (maxShift : ℤ) : List ℤ :=
  (List.range (2 * maxShift + 1).toNat).map fun k : ℕ ↦ (k : ℤ) - maxShift

theorem mem_shifts {maxShift shift : ℤ} :
    shift ∈ shifts maxShift ↔ -maxShift ≤ shift ∧ shift ≤ maxShift := by
  rw [shifts, List.mem_map]
  constructor
  · rintro ⟨k, hk, rfl⟩
    rw [List.mem_range] at hk
    omega
  · intro h
    refine ⟨(shift + maxShift).toNat, List.mem_range.mpr ?_, ?_⟩ <;> omega

/-- `envelopes_near_duplicate` -/
def envelopesNearDuplicate (left right : List (Fin 16)) (maxShift : ℤ) (nearRatio : ℚ) : Bool :=
  if left = [] ∨ right = [] then false
  else (shifts maxShift).any fun shift ↦
    match alignedMeanAbsDistance left right shift with
    | none => false
    | some distance => decide (distance ≤ nearRatio * 15)

theorem envelopesNearDuplicate_iff {left right : List (Fin 16)} {maxShift : ℤ} {nearRatio : ℚ} :
    envelopesNearDuplicate left right maxShift nearRatio = true ↔
      left ≠ [] ∧ right ≠ [] ∧ ∃ shift distance, -maxShift ≤ shift ∧ shift ≤ maxShift ∧
        alignedMeanAbsDistance left right shift = some distance ∧ distance ≤ nearRatio * 15 := by
  rw [envelopesNearDuplicate]
  split
  · rename_i h
    refine ⟨fun h' ↦ absurd h' Bool.false_ne_true, ?_⟩
    rintro ⟨hl, hr, -⟩
    rcases h with h | h
    · exact absurd h hl
    · exact absurd h hr
  · rename_i h
    rw [not_or] at h
    rw [List.any_eq_true]
    constructor
    · rintro ⟨shift, hs, hd⟩
      split at hd
      · cases hd
      · rename_i distance hdist
        obtain ⟨h1, h2⟩ := mem_shifts.mp hs
        exact ⟨h.1, h.2, shift, distance, h1, h2, hdist, of_decide_eq_true hd⟩
    · rintro ⟨-, -, shift, distance, h1, h2, hdist, hle⟩
      refine ⟨shift, mem_shifts.mpr ⟨h1, h2⟩, ?_⟩
      rw [hdist]
      exact decide_eq_true hle

/-- **Nearness does not depend on which envelope is the reference.** -/
theorem envelopesNearDuplicate_comm (left right : List (Fin 16)) (maxShift : ℤ) (nearRatio : ℚ) :
    envelopesNearDuplicate left right maxShift nearRatio =
      envelopesNearDuplicate right left maxShift nearRatio := by
  have key : ∀ l r : List (Fin 16), envelopesNearDuplicate l r maxShift nearRatio = true →
      envelopesNearDuplicate r l maxShift nearRatio = true := by
    intro l r h
    rw [envelopesNearDuplicate_iff] at h ⊢
    obtain ⟨hl, hr, shift, distance, h1, h2, hd, hle⟩ := h
    refine ⟨hr, hl, -shift, distance, by omega, by omega, ?_, hle⟩
    rw [← alignedMeanAbsDistance_comm, hd]
  exact Bool.eq_iff_iff.mpr ⟨key left right, key right left⟩

/-! ## Matching -/

/-- `fingerprints_match` -/
def fingerprintsMatch (left right : AcousticFingerprint) (maxShift : ℤ) (nearRatio : ℚ) : Bool :=
  if left.contentHash = right.contentHash then true
  else envelopesNearDuplicate left.envelope right.envelope maxShift nearRatio

/-- **Matching is symmetric.** -/
theorem fingerprintsMatch_comm (left right : AcousticFingerprint) (maxShift : ℤ)
    (nearRatio : ℚ) :
    fingerprintsMatch left right maxShift nearRatio =
      fingerprintsMatch right left maxShift nearRatio := by
  rw [fingerprintsMatch, fingerprintsMatch, envelopesNearDuplicate_comm]
  simp only [eq_comm]

/-- Matching looks at the hash and the envelope only. -/
theorem fingerprintsMatch_congr_left {left left' : AcousticFingerprint}
    (hh : left.contentHash = left'.contentHash) (he : left.envelope = left'.envelope)
    (right : AcousticFingerprint) (maxShift : ℤ) (nearRatio : ℚ) :
    fingerprintsMatch left right maxShift nearRatio =
      fingerprintsMatch left' right maxShift nearRatio := by
  rw [fingerprintsMatch, fingerprintsMatch, hh, he]

end Neva
