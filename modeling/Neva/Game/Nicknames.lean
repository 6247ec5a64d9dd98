import Mathlib.Data.List.Perm.Subperm
import Neva.Game.Join
import Neva.Game.Version

/-!
# Reserving a nickname

`next_free_nickname` tries the name asked for and then the same name with `#2`, `#3` and so on
behind it, cut so that the whole has at most 32 characters.  If no two candidates were the same,
one of the first `max_attempts` would be free as long as fewer than that are taken.  Two of them can
be the same in two ways.  A name of 32 characters may end in a suffix itself, and is then cut back
to what stands before the suffix and given it again (`Suffixed`).  And a suffix of more than 32
characters is cut as well, so that far out the suffixes repeat (`SuffixesRepeat`).
`nickname_found_iff` says that there is no third way.
-/

set_option autoImplicit false

namespace Neva

/-! ## The candidates -/

/-- `#N` -/
def suffixOf (n : ℕ) : Text := '#' :: Nat.toDigits 10 n

/-- What a candidate keeps of its suffix. -/
def keptSuffix (n : ℕ) : Text := (suffixOf n).drop ((suffixOf n).length - nicknameMaxLen)

/-- The first candidate. -/
def baseName (requested : Text) : Text :=
  (if strip requested = [] then "player".toList else strip requested).take nicknameMaxLen

/-- The first candidate, cut to make room for a suffix. -/
def stem (requested : Text) (n : ℕ) : Text :=
  ((baseName requested).take (nicknameMaxLen - (keptSuffix n).length)).rdropWhile isSpace

/-- A character of a suffix. -/
def IsSuffixChar (c : Char) : Prop := c = '#' ∨ c.isDigit = true

/-- How names are compared: `str.lower`, which leaves suffixes alone. -/
structure Lowercase where
  lower : Text → Text
  nil : lower [] = []
  append : ∀ s w, (∀ c ∈ w, IsSuffixChar c) → lower (s ++ w) = lower s ++ w
  of_append : ∀ s r w, (∀ c ∈ w, IsSuffixChar c) → lower (s ++ r) = lower s ++ w → r = w

/-- `is_taken` of the stores. -/
def nicknameTaken (l : Lowercase) (taken : List Text) (candidate : Text) : Bool :=
  taken.any fun name ↦ l.lower name == l.lower candidate

/-- `next_free_nickname`; nothing is the `RuntimeError` at the end. -/
def nextFreeNickname (isTaken : Text → Bool) (maxAttempts : ℕ) (requested : Text) : Option Text :=
  ((List.range maxAttempts).map (allocateNicknameCandidate requested)).find? fun candidate ↦
    !isTaken candidate

/-! ## Suffixes -/

theorem isSuffixChar_suffixOf (n : ℕ) : ∀ c ∈ suffixOf n, IsSuffixChar c := by
  intro c hc
  rcases List.mem_cons.mp hc with rfl | hc
  · exact .inl rfl
  · exact .inr (Nat.isDigit_of_mem_toDigits (by decide) (by decide) hc)

theorem isSuffixChar_keptSuffix (n : ℕ) : ∀ c ∈ keptSuffix n, IsSuffixChar c :=
  fun c hc ↦ isSuffixChar_suffixOf n c (List.mem_of_mem_drop hc)

theorem isSpace_of_isSuffixChar {c : Char} (h : IsSuffixChar c) : isSpace c = false := by
  rcases h with rfl | h
  · decide
  · have h0 : '0'.toNat = 48 := rfl
    have h9 : '9'.toNat = 57 := rfl
    have hn : c.toNat = c.val.toNat := rfl
    simp [Char.isDigit, UInt32.le_iff_toNat_le] at h
    simp only [isSpace, hn, Bool.or_eq_false_iff, Bool.and_eq_false_iff, decide_eq_false_iff_not,
      beq_eq_false_iff_ne]
    omega

theorem keptSuffix_length (n : ℕ) :
    1 ≤ (keptSuffix n).length ∧ (keptSuffix n).length ≤ nicknameMaxLen := by
  have hpos : 1 ≤ (suffixOf n).length := Nat.succ_pos _
  have hmax : nicknameMaxLen = 32 := rfl
  rw [keptSuffix, List.length_drop]
  omega

/-- A suffix is kept whole, or what is kept of it fills the name. -/
theorem keptSuffix_cases (n : ℕ) : keptSuffix n = '#' :: Nat.toDigits 10 n ∨
    '#' ∉ keptSuffix n ∧ (keptSuffix n).length = nicknameMaxLen := by
  rcases Nat.lt_or_ge nicknameMaxLen (suffixOf n).length with hlt | hle
  · obtain ⟨k, hk⟩ : ∃ k, (suffixOf n).length - nicknameMaxLen = k + 1 :=
      ⟨_, (Nat.succ_pred_eq_of_pos (Nat.sub_pos_of_lt hlt)).symm⟩
    refine .inr ⟨fun hmem ↦ ?_, ?_⟩
    · rw [keptSuffix, hk, suffixOf, List.drop_succ_cons] at hmem
      exact notMem_toDigits (by decide) n (List.mem_of_mem_drop hmem)
    · rw [keptSuffix, List.length_drop]
      omega
  · left
    rw [keptSuffix, Nat.sub_eq_zero_of_le hle, List.drop_zero, suffixOf]

/-! ## What the candidates look like -/

section

variable {requested : Text}

theorem strip_eq_iff {s : Text} :
    strip s = s ↔ s.dropWhile isSpace = s ∧ s.rdropWhile isSpace = s := by
  constructor
  · intro h
    have hsuffix : s.dropWhile isSpace <:+ s := List.dropWhile_suffix _
    have hprefix : strip s <+: s.dropWhile isSpace := List.rdropWhile_prefix _ _
    have hdrop : s.dropWhile isSpace = s :=
      hsuffix.eq_of_length_le (by rw [h] at hprefix; exact hprefix.length_le)
    rw [strip_eq, hdrop] at h
    exact ⟨hdrop, h⟩
  · rintro ⟨hdrop, hrdrop⟩
    rw [strip_eq, hdrop, hrdrop]

theorem baseName_eq (hlen : requested.length ≤ nicknameMaxLen) :
    baseName requested = if strip requested = [] then "player".toList else strip requested := by
  have hstrip : (strip requested).length ≤ requested.length := by
    rw [strip_eq]
    exact ((List.rdropWhile_prefix _ _).length_le).trans (List.dropWhile_suffix _).length_le
  rw [baseName]
  refine List.take_of_length_le ?_
  split
  · decide
  · exact hstrip.trans hlen

theorem strip_baseName (hlen : requested.length ≤ nicknameMaxLen) :
    strip (baseName requested) = baseName requested := by
  rw [baseName_eq hlen]
  split
  · decide
  · exact strip_strip requested

theorem baseName_ne_nil : baseName requested ≠ [] := by
  rw [baseName, Ne, List.take_eq_nil_iff]
  rintro (h | h)
  · cases h
  · split at h
    · cases h
    · exact absurd h (by assumption)

/-- The name still begins with what it began with when it is cut. -/
theorem take_baseName_ne_blank (hlen : requested.length ≤ nicknameMaxLen) {m : ℕ} (hm : 0 < m) :
    ((baseName requested).take m).rdropWhile isSpace ≠ [] := by
  have hhead := (strip_eq_iff.mp (strip_baseName hlen)).1
  rw [Ne, List.rdropWhile_eq_nil_iff]
  intro hall
  cases hb : baseName requested with
  | nil => exact baseName_ne_nil hb
  | cons c rest =>
    obtain ⟨k, rfl⟩ : ∃ k, m = k + 1 := ⟨m - 1, by omega⟩
    rw [hb, List.take_succ_cons] at hall
    rw [hb, List.dropWhile_cons_of_pos (hall c List.mem_cons_self)] at hhead
    have hle := (List.dropWhile_suffix (l := rest) isSpace).length_le
    rw [hhead, List.length_cons] at hle
    omega

theorem allocateNicknameCandidate_zero :
    allocateNicknameCandidate requested 0 = baseName requested :=
  rfl

/-- A later candidate is the cut name and its suffix. -/
theorem allocateNicknameCandidate_succ (hlen : requested.length ≤ nicknameMaxLen) (attempt : ℕ) :
    allocateNicknameCandidate requested (attempt + 1) =
      stem requested (attempt + 2) ++ keptSuffix (attempt + 2) := by
  have hdef : allocateNicknameCandidate requested (attempt + 1) =
      if nicknameMaxLen ≤ (suffixOf (attempt + 2)).length then keptSuffix (attempt + 2)
      else
        (if ((baseName requested).take
            (nicknameMaxLen - (suffixOf (attempt + 2)).length)).rdropWhile isSpace = [] then ['p']
          else ((baseName requested).take
            (nicknameMaxLen - (suffixOf (attempt + 2)).length)).rdropWhile isSpace) ++
          suffixOf (attempt + 2) := by
    simp only [allocateNicknameCandidate, Nat.add_one_ne_zero, if_false]
    rfl
  rw [hdef]
  by_cases hsuffix : nicknameMaxLen ≤ (suffixOf (attempt + 2)).length
  · have hkept : (keptSuffix (attempt + 2)).length = nicknameMaxLen := by
      rw [keptSuffix, List.length_drop]
      omega
    rw [if_pos hsuffix, stem, hkept, Nat.sub_self, List.take_zero, List.rdropWhile_nil,
      List.nil_append]
  · have hkept : keptSuffix (attempt + 2) = suffixOf (attempt + 2) := by
      rw [keptSuffix, Nat.sub_eq_zero_of_le (by omega), List.drop_zero]
    have hroom : 0 < nicknameMaxLen - (suffixOf (attempt + 2)).length := by omega
    rw [if_neg hsuffix, stem, hkept, if_neg (take_baseName_ne_blank hlen hroom)]

/-! ## When two candidates are the same -/

/-- The name fills all 32 characters and ends in a suffix with no blank before it, one of those of
the first `max_attempts` candidates. -/
def Suffixed (maxAttempts : ℕ) (requested : Text) : Prop :=
  (baseName requested).length = nicknameMaxLen ∧ ∃ n, 2 ≤ n ∧ n ≤ maxAttempts ∧
    ∃ t, baseName requested = t ++ keptSuffix n ∧ t.rdropWhile isSpace = t

/-- Two suffixes are the same once they have been cut to 32 characters. -/
def SuffixesRepeat (maxAttempts : ℕ) : Prop :=
  ∃ m n, 2 ≤ m ∧ m < n ∧ n ≤ maxAttempts ∧ keptSuffix m = keptSuffix n

theorem stem_of_length {n : ℕ} (h : (keptSuffix n).length = nicknameMaxLen) :
    stem requested n = [] := by
  rw [stem, h, Nat.sub_self, List.take_zero, List.rdropWhile_nil]

/-- Later candidates are the same when their suffixes are. -/
theorem lower_succ_eq_iff (l : Lowercase) (hlen : requested.length ≤ nicknameMaxLen) {i j : ℕ} :
    l.lower (allocateNicknameCandidate requested (i + 1)) =
        l.lower (allocateNicknameCandidate requested (j + 1)) ↔
      keptSuffix (i + 2) = keptSuffix (j + 2) := by
  have happend (n : ℕ) := l.append (stem requested n) (keptSuffix n) (isSuffixChar_keptSuffix n)
  rw [allocateNicknameCandidate_succ hlen, allocateNicknameCandidate_succ hlen, happend, happend]
  constructor
  · intro h
    have hdigits (n : ℕ) : '#' ∉ Nat.toDigits 10 n := notMem_toDigits (by decide) n
    rcases keptSuffix_cases (i + 2) with hi | ⟨hi, hleni⟩ <;>
      rcases keptSuffix_cases (j + 2) with hj | ⟨hj, hlenj⟩
    · rw [hi, hj] at h
      rw [hi, hj, (append_sep_inj_right (hdigits _) (hdigits _) h).2]
    · rw [hi, stem_of_length hlenj, l.nil, List.nil_append] at h
      exact absurd (h ▸ List.mem_append_right _ List.mem_cons_self) hj
    · rw [hj, stem_of_length hleni, l.nil, List.nil_append] at h
      exact absurd (h ▸ List.mem_append_right _ List.mem_cons_self) hi
    · rwa [stem_of_length hleni, stem_of_length hlenj, List.append_cancel_left_eq] at h
  · intro h
    rw [stem, stem, h]

/-- What cutting a name and giving it back its suffix says about it. -/
theorem length_of_eq_stem_append (hlen : requested.length ≤ nicknameMaxLen) {n : ℕ}
    (h : baseName requested = stem requested n ++ keptSuffix n) :
    (baseName requested).length = nicknameMaxLen := by
  obtain ⟨hpos, hmax⟩ := keptSuffix_length n
  have hrdrop := (strip_eq_iff.mp (strip_baseName hlen)).2
  have hshort : (baseName requested).length ≤ nicknameMaxLen := List.length_take_le _ _
  set m := nicknameMaxLen - (keptSuffix n).length with hm
  have hlength := congrArg List.length h
  rw [List.length_append] at hlength
  rcases Nat.lt_or_ge m (baseName requested).length with hlt | hle
  · -- the name is cut, and the cut takes nothing but the suffix away
    have htake : (baseName requested).take m =
        stem requested n ++ (keptSuffix n).take (m - (stem requested n).length) := by
      conv_lhs => rw [h, List.take_append]
      rw [List.take_of_length_le]
      exact ((List.rdropWhile_prefix _ _).length_le).trans (List.length_take_le _ _)
    by_cases hfull : m ≤ (stem requested n).length
    · omega
    · have hne : (keptSuffix n).take (m - (stem requested n).length) ≠ [] := by
        rw [Ne, List.take_eq_nil_iff, not_or]
        exact ⟨by omega, List.ne_nil_of_length_pos hpos⟩
      have hself : ((baseName requested).take m).rdropWhile isSpace =
          (baseName requested).take m := by
        rw [List.rdropWhile_eq_self_iff]
        intro hnil
        simp only [htake, List.getLast_append_of_ne_nil _ hne]
        have hlast := isSpace_of_isSuffixChar (isSuffixChar_keptSuffix n _
          (List.mem_of_mem_take (List.getLast_mem hne)))
        simp [hlast]
      have hstem : (stem requested n).length = m := by
        rw [stem, ← hm, hself, List.length_take]
        omega
      omega
  · have hwhole : stem requested n = baseName requested := by
      rw [stem, ← hm, List.take_of_length_le hle, hrdrop]
    rw [hwhole] at hlength
    omega

/-- The first candidate is a later one when it ends in the suffix of that one. -/
theorem lower_zero_eq_iff (l : Lowercase) (hlen : requested.length ≤ nicknameMaxLen) {i : ℕ} :
    l.lower (allocateNicknameCandidate requested 0) =
        l.lower (allocateNicknameCandidate requested (i + 1)) ↔
      (baseName requested).length = nicknameMaxLen ∧
        ∃ t, baseName requested = t ++ keptSuffix (i + 2) ∧ t.rdropWhile isSpace = t := by
  rw [allocateNicknameCandidate_zero, allocateNicknameCandidate_succ hlen]
  constructor
  · intro h
    obtain ⟨rest, hrest⟩ : stem requested (i + 2) <+: baseName requested :=
      (List.rdropWhile_prefix _ _).trans (List.take_prefix _ _)
    rw [l.append _ _ (isSuffixChar_keptSuffix _), ← hrest] at h
    rw [l.of_append _ _ _ (isSuffixChar_keptSuffix _) h] at hrest
    exact ⟨length_of_eq_stem_append hlen hrest.symm, _, hrest.symm, List.rdropWhile_idempotent _ _⟩
  · rintro ⟨hlength, t, ht, hblank⟩
    have hsum := congrArg List.length ht
    rw [List.length_append, hlength] at hsum
    rw [stem, ht, List.take_left' (by omega), hblank]

end

/-! ## The name that is found -/

/-- What is promised: a name of 1 to 32 characters that nobody has, and the name asked for if it is
such a name. -/
def Finds (l : Lowercase) (taken : List Text) (maxAttempts : ℕ) (requested : Text) : Prop :=
  ∃ name, nextFreeNickname (nicknameTaken l taken) maxAttempts requested = some name ∧
    1 ≤ name.length ∧ name.length ≤ 32 ∧ nicknameTaken l taken name = false ∧
      (strip requested ≠ [] → nicknameTaken l taken (strip requested) = false →
        name = strip requested)

/-- A name that is found is as promised. -/
theorem finds_iff (l : Lowercase) (taken : List Text) {maxAttempts : ℕ} (hpos : 1 ≤ maxAttempts)
    {requested : Text} (hlen : requested.length ≤ 32) : Finds l taken maxAttempts requested ↔
      ∃ i < maxAttempts, nicknameTaken l taken (allocateNicknameCandidate requested i) = false := by
  constructor
  · rintro ⟨name, hname, -, -, hfree, -⟩
    obtain ⟨i, hi, rfl⟩ := List.mem_map.mp (List.mem_of_find?_eq_some hname)
    exact ⟨i, List.mem_range.mp hi, hfree⟩
  · rintro ⟨i, hi, hfree⟩
    have hsome : (nextFreeNickname (nicknameTaken l taken) maxAttempts requested).isSome := by
      rw [nextFreeNickname, List.find?_isSome]
      exact ⟨_, List.mem_map_of_mem (List.mem_range.mpr hi), by rw [hfree]; rfl⟩
    obtain ⟨name, hname⟩ := Option.isSome_iff_exists.mp hsome
    obtain ⟨j, -, rfl⟩ := List.mem_map.mp (List.mem_of_find?_eq_some hname)
    have hlength := allocateNicknameCandidate_length requested j
    have hnotTaken := List.find?_some hname
    rw [Bool.not_eq_true'] at hnotTaken
    refine ⟨_, hname, hlength.1, hlength.2, hnotTaken, fun hne hstrip ↦ ?_⟩
    -- the first candidate is the name itself, and it is free
    obtain ⟨k, rfl⟩ : ∃ k, maxAttempts = k + 1 := ⟨maxAttempts - 1, by omega⟩
    have hbase : allocateNicknameCandidate requested 0 = strip requested := by
      rw [allocateNicknameCandidate_zero, baseName_eq hlen, if_neg hne]
    rw [nextFreeNickname, List.range_succ_eq_map, List.map_cons, List.find?_cons_of_pos] at hname
    · rw [← Option.some.inj hname, hbase]
    · rw [hbase, hstrip]
      rfl

/-- **When a nickname is always found.**  However the names that are taken are chosen, as long as
there are fewer than `max_attempts` of them a name is found, if and only if the name asked for does
not fill its 32 characters with a suffix at the end and no two suffixes are the same when cut. -/
theorem nickname_found_iff (l : Lowercase) (maxAttempts : ℕ) (requested : Text)
    (hpos : 1 ≤ maxAttempts) (hlen : requested.length ≤ 32) :
    (∀ taken : List Text, taken.length < maxAttempts → Finds l taken maxAttempts requested) ↔
      ¬ Suffixed maxAttempts requested ∧ ¬ SuffixesRepeat maxAttempts := by
  let key (i : ℕ) : Text := l.lower (allocateNicknameCandidate requested i)
  have hclash : (∃ i j, i < j ∧ j < maxAttempts ∧ key i = key j) ↔
      Suffixed maxAttempts requested ∨ SuffixesRepeat maxAttempts := by
    constructor
    · rintro ⟨i, j, hij, hj, heq⟩
      obtain ⟨j, rfl⟩ : ∃ k, j = k + 1 := ⟨j - 1, by omega⟩
      cases i with
      | zero =>
        obtain ⟨hfull, t, ht, hblank⟩ := (lower_zero_eq_iff l hlen).mp heq
        exact .inl ⟨hfull, j + 2, by omega, by omega, t, ht, hblank⟩
      | succ i =>
        exact .inr ⟨i + 2, j + 2, by omega, by omega, by omega, (lower_succ_eq_iff l hlen).mp heq⟩
    · rintro (⟨hfull, n, hn, hmax, t, ht, hblank⟩ | ⟨m, n, hm, hmn, hmax, heq⟩)
      · obtain ⟨k, rfl⟩ : ∃ k, n = k + 2 := ⟨n - 2, by omega⟩
        exact ⟨0, k + 1, by omega, by omega, (lower_zero_eq_iff l hlen).mpr ⟨hfull, t, ht, hblank⟩⟩
      · obtain ⟨i, rfl⟩ : ∃ k, m = k + 2 := ⟨m - 2, by omega⟩
        obtain ⟨j, rfl⟩ : ∃ k, n = k + 2 := ⟨n - 2, by omega⟩
        exact ⟨i + 1, j + 1, by omega, by omega, (lower_succ_eq_iff l hlen).mpr heq⟩
  have htaken {taken : List Text} {i : ℕ} : nicknameTaken l taken
      (allocateNicknameCandidate requested i) = true ↔ key i ∈ taken.map l.lower := by
    rw [nicknameTaken, List.any_eq_true, List.mem_map]
    exact exists_congr fun name ↦ and_congr_right fun _ ↦ beq_iff_eq
  rw [← not_or, ← hclash]
  constructor
  · rintro hall ⟨i, j, hij, hj, heq⟩
    -- all candidates but the repeated one are taken
    obtain ⟨k, hk, hfree⟩ := (finds_iff l _ hpos hlen).mp
      (hall (((List.range maxAttempts).erase j).map (allocateNicknameCandidate requested)) (by
        rw [List.length_map, List.length_erase_of_mem (List.mem_range.mpr hj), List.length_range]
        omega))
    have hothers {n : ℕ} (hn : n < maxAttempts) (hne : n ≠ j) : key n ∈
        (((List.range maxAttempts).erase j).map (allocateNicknameCandidate requested)).map
          l.lower :=
      List.mem_map_of_mem (List.mem_map_of_mem
        ((List.mem_erase_of_ne hne).mpr (List.mem_range.mpr hn)))
    refine Bool.false_ne_true (hfree.symm.trans (htaken.mpr ?_))
    by_cases hkj : k = j
    · rw [hkj, ← heq]
      exact hothers (by omega) (by omega)
    · exact hothers hk hkj
  · intro hnone taken hlt
    rw [finds_iff l taken hpos hlen]
    by_contra hall
    push Not at hall
    have hnodup : ((List.range maxAttempts).map key).Nodup := by
      refine (List.nodup_map_iff_inj_on List.nodup_range).mpr fun i hi j hj heq ↦ ?_
      rw [List.mem_range] at hi hj
      rcases Nat.lt_trichotomy i j with hij | rfl | hij
      · exact absurd ⟨i, j, hij, hj, heq⟩ hnone
      · rfl
      · exact absurd ⟨j, i, hij, hi, heq.symm⟩ hnone
    have hsub : (List.range maxAttempts).map key ⊆ taken.map l.lower := by
      intro x hx
      obtain ⟨i, hi, rfl⟩ := List.mem_map.mp hx
      exact htaken.mp (by simpa using hall i (List.mem_range.mp hi))
    have hle := (hnodup.subperm hsub).length_le
    rw [List.length_map, List.length_map, List.length_range] at hle
    omega

/-! ## A name that cannot be had -/

/-- Only the 26 capital letters are changed, and into small letters. -/
theorem toLower_eq_self {c : Char} (h : IsSuffixChar c ∨ IsSuffixChar c.toLower) :
    c.toLower = c := by
  have hA : 'A'.val.toNat = 65 := rfl
  have hZ : 'Z'.val.toNat = 90 := rfl
  have h0 : '0'.val.toNat = 48 := rfl
  have h9 : '9'.val.toNat = 57 := rfl
  rw [Char.toLower] at h ⊢
  split
  · rename_i hupper
    rw [dif_pos hupper] at h
    simp only [ge_iff_le, UInt32.le_iff_toNat_le] at hupper
    simp only [IsSuffixChar, Char.isDigit, Bool.and_eq_true, decide_eq_true_eq, ge_iff_le,
      UInt32.le_iff_toNat_le, Char.ext_iff, ← UInt32.toNat_inj, UInt32.toNat_add] at h
    have hhash : '#'.val.toNat = 35 := rfl
    have hdiff : ('a'.val - 'A'.val).toNat = 32 := rfl
    rcases h with (h | h) | h | h <;> omega
  · rfl

/-- Small letters for the 26 capital ones. -/
def asciiLowercase : Lowercase where
  lower := List.map Char.toLower
  nil := rfl
  append s w hw := by
    rw [List.map_append]
    exact congrArg (s.map Char.toLower ++ ·)
      ((List.map_congr_left fun c hc ↦ toLower_eq_self (.inl (hw c hc))).trans (List.map_id w))
  of_append s r w hw h := by
    rw [List.map_append, List.append_cancel_left_eq] at h
    rw [← h]
    refine ((List.map_congr_left fun c hc ↦ toLower_eq_self (.inr ?_)).trans (List.map_id r)).symm
    exact hw _ (h ▸ List.mem_map_of_mem hc)

/-- Thirty letters and the suffix of the second candidate. -/
def longName : Text := List.replicate 30 'a' ++ "#2".toList

/-- Whoever asks for a name that is taken is to get another one, and does not. -/
theorem nickname_found_longName :
    [longName].length < 2 ∧ ¬ Finds asciiLowercase [longName] 2 longName := by
  refine ⟨by decide, ?_⟩
  rintro ⟨name, hname, -⟩
  have hnone : nextFreeNickname (nicknameTaken asciiLowercase [longName]) 2 longName = none := by
    decide +kernel
  rw [hnone] at hname
  cases hname

/-- With a shorter name, the second of three candidates is found. -/
theorem nickname_found_asha :
    Finds asciiLowercase ["asha".toList, "Asha#2".toList] 3 "Asha".toList := by
  refine (nickname_found_iff asciiLowercase 3 "Asha".toList (by decide) (by decide)).mpr
    ⟨?_, ?_⟩ _ (by decide)
  · rintro ⟨hfull, -⟩
    revert hfull
    decide
  · rintro ⟨m, n, hm, hmn, hn, heq⟩
    obtain ⟨rfl, rfl⟩ : m = 2 ∧ n = 3 := by omega
    revert heq
    decide

end Neva
