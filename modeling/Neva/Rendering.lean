import Neva.Schema

/-!
# How things are written

The text of identifiers, instants and paths in the documents the program writes: a UUID in its
canonical form, an instant in the format of `datetime.isoformat`, a path below `data/` with the
turn it is named after.
-/

set_option autoImplicit false

namespace Neva

/-! ## Identifiers -/

/-- The hexadecimal digits of a UUID. -/
def uuidDigits (u : Uuid) : Text :=
  List.replicate (32 - (Nat.toDigits 16 u).length) '0' ++ Nat.toDigits 16 u

/-- Eight digits, three times four, and the rest. -/
def dashed (digits : Text) : Text :=
  digits.take 8 ++ '-' :: ((digits.drop 8).take 4 ++ '-' :: ((digits.drop 12).take 4 ++
    '-' :: ((digits.drop 16).take 4 ++ '-' :: digits.drop 20)))

/-- `str(uuid)` -/
def uuidText (u : Uuid) : Text := dashed (uuidDigits u)

/-- The value of a hexadecimal digit. -/
private def digitValue (c : Char) : ℕ := if c.toNat < 58 then c.toNat - 48 else c.toNat - 87

private theorem digitValue_digitChar : ∀ d < 16, digitValue (Nat.digitChar d) = d := by decide

/-- The number some digits stand for. -/
private def ofHex (s : Text) : ℕ := s.foldl (fun n c ↦ 16 * n + digitValue c) 0

private theorem ofHex_toDigits (n : ℕ) : ofHex (Nat.toDigits 16 n) = n := by
  induction n using Nat.strong_induction_on with
  | _ n ih =>
    rw [Nat.toDigits_eq_if (by decide)]
    split
    · rename_i h
      simp [ofHex, digitValue_digitChar n h]
    · rw [ofHex, List.foldl_concat]
      rw [show (Nat.toDigits 16 (n / 16)).foldl (fun n c ↦ 16 * n + digitValue c) 0 = n / 16 from
        ih (n / 16) (by omega)]
      rw [digitValue_digitChar (n % 16) (Nat.mod_lt _ (by decide)), Nat.div_add_mod]

private theorem ofHex_uuidDigits (u : Uuid) : ofHex (uuidDigits u) = u := by
  have hzeros (k : ℕ) : (List.replicate k '0').foldl (fun n c ↦ 16 * n + digitValue c) 0 = 0 := by
    induction k with
    | zero => rfl
    | succ k ih => exact ih
  rw [ofHex, uuidDigits, List.foldl_append, hzeros]
  exact ofHex_toDigits u

private theorem le_length_uuidDigits (u : Uuid) : 32 ≤ (uuidDigits u).length := by
  rw [uuidDigits, List.length_append, List.length_replicate]
  omega

private theorem dashed_injective {x y : Text} (hx : 32 ≤ x.length) (hy : 32 ≤ y.length)
    (h : dashed x = dashed y) : x = y := by
  have hlen {n k : ℕ} (hnk : n + k ≤ 32) :
      ((x.drop n).take k).length = ((y.drop n).take k).length := by
    simp only [List.length_take, List.length_drop]
    omega
  have hsplit (s : Text) (n k : ℕ) : (s.drop n).take k ++ s.drop (n + k) = s.drop n := by
    rw [← List.drop_drop, List.take_append_drop]
  rw [dashed, dashed] at h
  obtain ⟨h₁, h⟩ := List.append_inj h (hlen (n := 0) (k := 8) (by decide))
  obtain ⟨h₂, h⟩ := List.append_inj (List.cons.inj h).2 (hlen (by decide))
  obtain ⟨h₃, h⟩ := List.append_inj (List.cons.inj h).2 (hlen (by decide))
  obtain ⟨h₄, h⟩ := List.append_inj (List.cons.inj h).2 (hlen (by decide))
  have h₅ := (List.cons.inj h).2
  have h16 : x.drop 16 = y.drop 16 := by rw [← hsplit x 16 4, ← hsplit y 16 4, h₄, h₅]
  have h12 : x.drop 12 = y.drop 12 := by rw [← hsplit x 12 4, ← hsplit y 12 4, h₃, h16]
  have h8 : x.drop 8 = y.drop 8 := by rw [← hsplit x 8 4, ← hsplit y 8 4, h₂, h12]
  rw [← List.take_append_drop 8 x, ← List.take_append_drop 8 y, h₁, h8]

/-- Different identifiers are written differently. -/
theorem uuidText_injective {u v : Uuid} (h : uuidText u = uuidText v) : u = v := by
  rw [← ofHex_uuidDigits u, ← ofHex_uuidDigits v,
    dashed_injective (le_length_uuidDigits u) (le_length_uuidDigits v) h]

theorem notMem_hex {c : Char} (hc : ∀ d < 16, Nat.digitChar d ≠ c) (n : ℕ) :
    c ∉ Nat.toDigits 16 n := by
  induction n using Nat.strong_induction_on with
  | _ n ih =>
    rw [Nat.toDigits_eq_if (by decide)]
    split
    · rename_i h
      simpa using (hc n h).symm
    · rw [List.mem_append, List.mem_singleton]
      rintro (h | h)
      · exact ih (n / 16) (by omega) h
      · exact hc (n % 16) (Nat.mod_lt _ (by decide)) h.symm

theorem notMem_uuidDigits {c : Char} (hc : ∀ d < 16, Nat.digitChar d ≠ c) (u : Uuid) :
    c ∉ uuidDigits u := by
  rw [uuidDigits, List.mem_append, List.mem_replicate]
  rintro (⟨-, h⟩ | h)
  · exact hc 0 (by decide) h.symm
  · exact notMem_hex hc u h

theorem notMem_uuidText {c : Char} (hc : ∀ d < 16, Nat.digitChar d ≠ c) (hdash : c ≠ '-')
    (u : Uuid) : c ∉ uuidText u := by
  have hdigits := notMem_uuidDigits hc u
  intro h
  simp only [uuidText, dashed, List.mem_append, List.mem_cons] at h
  rcases h with h | h | h | h | h | h | h | h | h
  all_goals first
    | exact hdash h
    | exact hdigits (List.mem_of_mem_take h)
    | exact hdigits (List.mem_of_mem_drop h)
    | exact hdigits (List.mem_of_mem_drop (List.mem_of_mem_take h))

/-- An identifier is written with hexadecimal digits and dashes. -/
theorem mem_uuidText {u : Uuid} {c : Char} (h : c ∈ uuidText u) :
    c = '-' ∨ ∃ d < 16, Nat.digitChar d = c := by
  by_contra hc
  simp only [not_or, not_exists, not_and] at hc
  exact notMem_uuidText hc.2 hc.1 u h

/-- It has 36 characters, and the first one is a digit. -/
theorem uuidText_shape {u : Uuid} (hu : u < 2 ^ 128) :
    (uuidText u).length = 36 ∧ ∃ d < 16, (uuidText u).head? = some (Nat.digitChar d) := by
  have hlen : (uuidDigits u).length = 32 := by
    have : (Nat.toDigits 16 u).length ≤ 32 := by
      rw [Nat.length_toDigits_le_iff (by decide) (by decide)]
      exact hu
    rw [uuidDigits, List.length_append, List.length_replicate]
    omega
  refine ⟨by simp [uuidText, dashed, hlen], ?_⟩
  obtain ⟨c, rest, hdigits⟩ := List.exists_cons_of_length_pos (l := uuidDigits u) (by omega)
  have hhead : (uuidText u).head? = some c := by simp [uuidText, dashed, hdigits]
  have hdigit : ∃ d < 16, Nat.digitChar d = c := by
    by_contra hc
    simp only [not_exists, not_and] at hc
    exact notMem_uuidDigits hc u (by simp [hdigits])
  obtain ⟨d, hd, hdc⟩ := hdigit
  exact ⟨d, hd, hdc ▸ hhead⟩

theorem uuidText_ne_nil (u : Uuid) : uuidText u ≠ [] := by
  rw [uuidText, dashed]
  simp

example : uuidText 1 = "00000000-0000-0000-0000-000000000001".toList := by decide

/-! ## Instants -/

/-- A number, with zeros in front up to a width. -/
def padded (width n : ℕ) : Text :=
  List.replicate (width - (Nat.toDigits 10 n).length) '0' ++ Nat.toDigits 10 n

/-- Year, month and day of a day, counted from the first of January 1970.  The count is moved to
the first of March of the year 0, so that a leap day ends a year, and taken apart into eras of 400
years. -/
def civil (day : ℕ) : ℕ × ℕ × ℕ :=
  let shifted := day + 719468
  let ofEra := shifted % 146097
  let yearOfEra := (ofEra - ofEra / 1460 + ofEra / 36524 - ofEra / 146096) / 365
  let ofYear := ofEra - (365 * yearOfEra + yearOfEra / 4 - yearOfEra / 100)
  let month := (5 * ofYear + 2) / 153
  let year := yearOfEra + shifted / 146097 * 400
  (if month < 10 then year else year + 1, if month < 10 then month + 3 else month - 9,
    ofYear - (153 * month + 2) / 5 + 1)

/-- `isoformat()` of an instant in UTC.  The fraction of the second is left out when it is zero. -/
def isoformat (t : Time) : Text :=
  let (year, month, day) := civil (t / 86400000000)
  let second := t / 1000000
  let fraction := t % 1000000
  padded 4 year ++ '-' :: padded 2 month ++ '-' :: padded 2 day ++
    'T' :: padded 2 (second / 3600 % 24) ++ ':' :: padded 2 (second / 60 % 60) ++
    ':' :: padded 2 (second % 60) ++
    (if fraction = 0 then [] else '.' :: padded 6 fraction) ++ "+00:00".toList

example : isoformat 951827696000001 = "2000-02-29T12:34:56.000001+00:00".toList := by
  decide +kernel

theorem isDigit_of_mem_padded {width n : ℕ} {c : Char} (h : c ∈ padded width n) :
    c.isDigit = true := by
  rw [padded, List.mem_append, List.mem_replicate] at h
  rcases h with ⟨-, rfl⟩ | h
  · rfl
  · exact Nat.isDigit_of_mem_toDigits (by decide) (by decide) h

/-- An instant is written with digits and separators. -/
theorem mem_isoformat {t : Time} {c : Char} (h : c ∈ isoformat t) :
    c.isDigit = true ∨ c ∈ ['-', 'T', ':', '.', '+'] := by
  have hpadded {width n : ℕ} (h : c ∈ padded width n) : c.isDigit = true :=
    isDigit_of_mem_padded h
  have hzone (h : c ∈ "+00:00".toList) : c.isDigit = true ∨ c ∈ ['-', 'T', ':', '.', '+'] := by
    have hall : "+00:00".toList.all (fun c ↦ c.isDigit || ['-', 'T', ':', '.', '+'].elem c) =
        true := by decide
    simpa using List.all_eq_true.mp hall c h
  simp only [isoformat, List.mem_append, List.mem_cons] at h
  split at h <;> grind

/-! ## Paths -/

/-- A path relative to the data directory. -/
def AudioPath.text : AudioPath → Text
  | .webm turnId => "audio/".toList ++ uuidText turnId ++ ".webm".toList
  | .flac turnId => "audio/".toList ++ uuidText turnId ++ ".flac".toList

end Neva
