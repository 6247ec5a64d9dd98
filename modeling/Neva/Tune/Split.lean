import Mathlib.Data.Rat.Floor
import Neva.Apportion
import Neva.Grouping
import Neva.Json.Indented
import Neva.Tune.Prepare

/-!
# Splitting the prepared corpus

`deterministic_stratified_split` of `tune/prepare.py` keeps a fraction of the rows of every language
apart.  The quotas are those of the largest remainders (`Apportion`), ties between the languages
are broken by a hash, and the rows of a language are ordered by a hash of their identifiers.

The quotas are computed with a `FractionArithmetic`: the floating point numbers of the program, or
the rationals.  Over the rationals the split is exact (`split_exact`).  Whatever the arithmetic,
the order of the rows does not matter (`split_perm`).
-/

set_option autoImplicit false

namespace Neva

/-! ## Arithmetic -/

/-- What is computed with the fraction of the rows to hold out. -/
structure FractionArithmetic (F : Type) where
  /-- `count * fraction` -/
  times : ℕ → F → F
  /-- `int(value + 0.5)` -/
  nearest : F → ℤ
  /-- `int(value)` -/
  truncated : F → ℤ
  /-- `value - quota` -/
  minus : F → ℤ → F

/-- `int(value)`: towards zero. -/
def truncate (q : ℚ) : ℤ := if 0 ≤ q then ⌊q⌋ else ⌈q⌉

/-- Exact rationals. -/
def rationals : FractionArithmetic ℚ where
  times count fraction := count * fraction
  nearest value := truncate (value + 1 / 2)
  truncated := truncate
  minus value quota := value - quota

theorem truncate_of_nonneg {q : ℚ} (h : 0 ≤ q) : truncate q = ⌊q⌋ := if_pos h

/-! ## Slices -/

/-- `l[:stop]` -/
def sliceTo {α : Type} (l : List α) (stop : ℤ) : List α :=
  if 0 ≤ stop then l.take stop.toNat else l.take (l.length - (-stop).toNat)

/-- `l[start:]` -/
def sliceOn {α : Type} (l : List α) (start : ℤ) : List α :=
  if 0 ≤ start then l.drop start.toNat else l.drop (l.length - (-start).toNat)

theorem sliceTo_append_sliceOn {α : Type} (l : List α) (i : ℤ) :
    sliceTo l i ++ sliceOn l i = l := by
  rw [sliceTo, sliceOn]
  split <;> exact List.take_append_drop _ _

theorem length_sliceTo {α : Type} {l : List α} {i : ℤ} (h : 0 ≤ i) (hle : i ≤ l.length) :
    ((sliceTo l i).length : ℤ) = i := by
  rw [sliceTo, if_pos h, List.length_take]
  omega

/-! ## The split -/

/-- The settings of the split. -/
structure SplitConfig (F : Type) where
  holdoutFraction : F
  splitSeed : ℤ

section

variable {F : Type} [LinearOrder F] (arith : FractionArithmetic F) (sha256 : Text → Text)
  (config : SplitConfig F)

/-- `f"{config.split_seed}:{text}"` -/
def seededText (text : Text) : Text := (toString config.splitSeed).toList ++ ':' :: text

/-- `hashlib.sha256(f"{config.split_seed}:{text}".encode()).hexdigest()` -/
def seededDigest (text : Text) : Text := sha256 (seededText config text)

/-- `groups` -/
def languageGroups (rows : List SftRow) : List (Text × List SftRow) :=
  Grouping.grouped SftRow.nativeLangTag rows

/-- `exact[language]` -/
def exactQuota (groups : List (Text × List SftRow)) (language : Text) : F :=
  arith.times ((Dict.get groups language).getD []).length config.holdoutFraction

/-- `quotas[language]`, before the rows that remain are given away. -/
def wholeQuota (groups : List (Text × List SftRow)) (language : Text) : ℤ :=
  arith.truncated (exactQuota arith config groups language)

/-- `exact[language] - quotas[language]` -/
def remainderOf (groups : List (Text × List SftRow)) (language : Text) : F :=
  arith.minus (exactQuota arith config groups language) (wholeQuota arith config groups language)

/-- The order of the ranking: larger remainders first, then by hash. -/
def rankLe (groups : List (Text × List SftRow)) (a b : Text) : Bool :=
  decide (remainderOf arith config groups b < remainderOf arith config groups a) ||
    decide (remainderOf arith config groups a = remainderOf arith config groups b) &&
      Json.nameLe (seededDigest sha256 config a) (seededDigest sha256 config b)

/-- `ranked_languages` -/
def rankedLanguages (groups : List (Text × List SftRow)) : List Text :=
  (groups.map Prod.fst).mergeSort (rankLe arith sha256 config groups)

/-- `remaining` -/
def remainingRows (rowCount : ℕ) (groups : List (Text × List SftRow)) : ℤ :=
  arith.nearest (arith.times rowCount config.holdoutFraction) -
    (groups.map fun g ↦ wholeQuota arith config groups g.1).sum

/-- `quotas[language] += 1` -/
def raiseQuota (quotas : Text → ℤ) (language : Text) : Text → ℤ :=
  Function.update quotas language (quotas language + 1)

/-- `quotas`, in the end. -/
def quotasOf (rowCount : ℕ) (groups : List (Text × List SftRow)) : Text → ℤ :=
  (sliceTo (rankedLanguages arith sha256 config groups)
    (remainingRows arith config rowCount groups)).foldl raiseQuota (wholeQuota arith config groups)

/-- The order of the rows of a language. -/
def rowLe (a b : SftRow) : Bool :=
  Json.nameLe (seededDigest sha256 config a.utteranceId) (seededDigest sha256 config b.utteranceId)

/-- `sorted(groups.items())` -/
def sortedGroups (groups : List (Text × List SftRow)) : List (Text × List SftRow) :=
  groups.mergeSort fun a b ↦ Json.nameLe a.1 b.1

/-- `deterministic_stratified_split`: the rows to train on, and those held out. -/
def deterministicStratifiedSplit (rows : List SftRow) : List SftRow × List SftRow :=
  let groups := languageGroups rows
  let quotas := quotasOf arith sha256 config rows.length groups
  let holdout := (sortedGroups groups).flatMap fun g ↦
    sliceTo (g.2.mergeSort (rowLe sha256 config)) (quotas g.1)
  let train := (sortedGroups groups).flatMap fun g ↦
    sliceOn (g.2.mergeSort (rowLe sha256 config)) (quotas g.1)
  (train, holdout)

/-! ## Nothing is lost -/

theorem sortedGroups_perm (groups : List (Text × List SftRow)) :
    (sortedGroups groups).Perm groups := List.mergeSort_perm _ _

/-- The groups together are the rows. -/
theorem languageGroups_perm (rows : List SftRow) :
    ((languageGroups rows).flatMap Prod.snd).Perm rows := by
  have hkeys : ∀ row ∈ rows, row.nativeLangTag ∈
      (Grouping.grouped SftRow.nativeLangTag rows).map Prod.fst :=
    fun row hrow ↦ Grouping.mem_keys.mpr ⟨row, hrow, rfl⟩
  have hperm := Grouping.perm_flatMap_filter (Grouping.nodup_keys rows) hkeys
  rw [languageGroups, Grouping.grouped_eq_map, List.flatMap_map]
  exact hperm

/-- No row is lost or duplicated. -/
theorem split_perm_rows (rows : List SftRow) :
    ((deterministicStratifiedSplit arith sha256 config rows).1 ++
      (deterministicStratifiedSplit arith sha256 config rows).2).Perm rows := by
  rw [deterministicStratifiedSplit]
  dsimp only
  refine List.perm_append_comm.trans ((List.flatMap_append_perm _ _ _).trans ?_)
  have hgroup (g : Text × List SftRow) (q : ℤ) :
      (sliceTo (g.2.mergeSort (rowLe sha256 config)) q ++
        sliceOn (g.2.mergeSort (rowLe sha256 config)) q).Perm g.2 := by
    rw [sliceTo_append_sliceOn]
    exact List.mergeSort_perm _ _
  refine (List.Perm.flatMap_left _ fun g _ ↦ hgroup g _).trans ?_
  exact ((sortedGroups_perm _).flatMap_right _).trans (languageGroups_perm rows)

/-! ## The ranking -/

theorem rankLe_iff {groups : List (Text × List SftRow)} {a b : Text} :
    rankLe arith sha256 config groups a b = true ↔
      remainderOf arith config groups b < remainderOf arith config groups a ∨
        remainderOf arith config groups a = remainderOf arith config groups b ∧
          Json.nameLe (seededDigest sha256 config a) (seededDigest sha256 config b) = true := by
  rw [rankLe, Bool.or_eq_true, Bool.and_eq_true, decide_eq_true_eq, decide_eq_true_eq]

theorem rankLe_trans (groups : List (Text × List SftRow)) (a b c : Text)
    (hab : rankLe arith sha256 config groups a b = true)
    (hbc : rankLe arith sha256 config groups b c = true) :
    rankLe arith sha256 config groups a c = true := by
  rw [rankLe_iff] at *
  rcases hab with hab | ⟨hab, habs⟩ <;> rcases hbc with hbc | ⟨hbc, hbcs⟩
  · exact .inl (hbc.trans hab)
  · exact .inl (hbc ▸ hab)
  · exact .inl (hab ▸ hbc)
  · exact .inr ⟨hab.trans hbc, Json.nameLe_trans _ _ _ habs hbcs⟩

theorem rankLe_total (groups : List (Text × List SftRow)) (a b : Text) :
    (rankLe arith sha256 config groups a b || rankLe arith sha256 config groups b a) = true := by
  rw [Bool.or_eq_true, rankLe_iff, rankLe_iff]
  rcases lt_trichotomy (remainderOf arith config groups a) (remainderOf arith config groups b)
    with h | h | h
  · exact .inr (.inl h)
  · rcases Bool.or_eq_true_iff.mp (Json.nameLe_total (seededDigest sha256 config a)
      (seededDigest sha256 config b)) with hs | hs
    · exact .inl (.inr ⟨h, hs⟩)
    · exact .inr (.inr ⟨h.symm, hs⟩)
  · exact .inl (.inl h)

/-- The ranking is a ranking by remainders. -/
theorem rankedLanguages_pairwise (groups : List (Text × List SftRow)) :
    (rankedLanguages arith sha256 config groups).Pairwise fun a b ↦
      remainderOf arith config groups b ≤ remainderOf arith config groups a := by
  refine (List.pairwise_mergeSort (rankLe_trans arith sha256 config groups)
    (rankLe_total arith sha256 config groups) _).imp fun {a b} h ↦ ?_
  rcases (rankLe_iff arith sha256 config).mp h with h | ⟨h, -⟩
  · exact h.le
  · exact h.ge

theorem rankedLanguages_perm (groups : List (Text × List SftRow)) :
    (rankedLanguages arith sha256 config groups).Perm (groups.map Prod.fst) :=
  List.mergeSort_perm _ _

theorem foldl_raiseQuota (quotas : Text → ℤ) (extra : List Text) (language : Text) :
    extra.foldl raiseQuota quotas language = quotas language + extra.count language := by
  induction extra generalizing quotas with
  | nil => simp
  | cons l extra ih =>
    rw [List.foldl_cons, ih, raiseQuota, List.count_cons]
    by_cases h : language = l
    · subst h
      simp
      ring
    · rw [Function.update_of_ne h, if_neg (by simpa using Ne.symm h)]
      simp

end

/-! ## The quotas, over the rationals -/

section

variable (sha256 : Text → Text) (config : SplitConfig ℚ) (rows : List SftRow)

/-- The rows of a language. -/
def ofLanguage (rows : List SftRow) (language : Text) : List SftRow :=
  rows.filter fun row ↦ row.nativeLangTag = language

/-- The exact share of a language. -/
def shareOf (language : Text) : ℚ := (ofLanguage rows language).length * config.holdoutFraction

theorem exactQuota_eq (language : Text) :
    exactQuota rationals config (languageGroups rows) language = shareOf config rows language := by
  rw [exactQuota, languageGroups, Grouping.getD_grouped]
  rfl

variable {config}

theorem shareOf_nonneg (hpos : 0 < config.holdoutFraction) (language : Text) :
    0 ≤ shareOf config rows language :=
  mul_nonneg (Nat.cast_nonneg _) hpos.le

theorem wholeQuota_eq (hpos : 0 < config.holdoutFraction) (language : Text) :
    wholeQuota rationals config (languageGroups rows) language =
      ⌊shareOf config rows language⌋ := by
  rw [wholeQuota, exactQuota_eq]
  exact truncate_of_nonneg (shareOf_nonneg rows hpos language)

theorem remainderOf_eq (hpos : 0 < config.holdoutFraction) (language : Text) :
    remainderOf rationals config (languageGroups rows) language =
      Int.fract (shareOf config rows language) := by
  rw [remainderOf, exactQuota_eq, wholeQuota_eq rows hpos]
  rfl

/-- The languages, in the order in which they were first met. -/
def languagesOf (rows : List SftRow) : List Text := (languageGroups rows).map Prod.fst

theorem mem_languagesOf {language : Text} :
    language ∈ languagesOf rows ↔ ∃ row ∈ rows, row.nativeLangTag = language := Grouping.mem_keys

theorem nodup_languagesOf : (languagesOf rows).Nodup := Grouping.nodup_keys rows

/-- The shares add up to the share of all the rows. -/
theorem sum_shareOf :
    ((languagesOf rows).map (shareOf config rows)).sum = rows.length * config.holdoutFraction := by
  have hlength : ((languagesOf rows).map fun l ↦ (ofLanguage rows l).length).sum = rows.length := by
    have hperm := Grouping.perm_flatMap_filter (nodup_languagesOf rows)
      fun row hrow ↦ (mem_languagesOf rows).mpr ⟨row, hrow, rfl⟩
    rw [← hperm.length_eq, List.length_flatMap]
    rfl
  rw [← hlength]
  induction languagesOf rows with
  | nil => simp
  | cons l ls ih =>
    rw [List.map_cons, List.sum_cons, ih, List.map_cons, List.sum_cons, shareOf]
    push_cast
    ring

/-- The languages that get a row of those that remain. -/
def extraLanguages (config : SplitConfig ℚ) : List Text :=
  sliceTo (rankedLanguages rationals sha256 config (languageGroups rows))
    (remainingRows rationals config rows.length (languageGroups rows))

theorem remainingRows_eq (hpos : 0 < config.holdoutFraction) :
    remainingRows rationals config rows.length (languageGroups rows) =
      ⌊((languagesOf rows).map (shareOf config rows)).sum + 1 / 2⌋ -
        ((languagesOf rows).map fun l ↦ ⌊shareOf config rows l⌋).sum := by
  have htarget : rationals.nearest (rationals.times rows.length config.holdoutFraction) =
      ⌊((languagesOf rows).map (shareOf config rows)).sum + 1 / 2⌋ := by
    rw [sum_shareOf]
    refine truncate_of_nonneg ?_
    have := mul_nonneg (Nat.cast_nonneg (α := ℚ) rows.length) hpos.le
    show (0 : ℚ) ≤ rows.length * config.holdoutFraction + 1 / 2
    linarith
  simp only [remainingRows, htarget, wholeQuota_eq rows hpos, languagesOf, List.map_map]
  rfl

/-- The rows that remain are given to languages with a remainder, and there are enough of those. -/
theorem extraLanguages_spec (hpos : 0 < config.holdoutFraction) :
    (extraLanguages sha256 rows config).Nodup ∧
      (∀ l ∈ extraLanguages sha256 rows config, l ∈ languagesOf rows) ∧
      (∀ l ∈ extraLanguages sha256 rows config, 0 < Int.fract (shareOf config rows l)) ∧
      ((extraLanguages sha256 rows config).length : ℤ) =
        remainingRows rationals config rows.length (languageGroups rows) := by
  set ranked := rankedLanguages rationals sha256 config (languageGroups rows) with hranked
  have hperm : ranked.Perm (languagesOf rows) := rankedLanguages_perm _ _ _ _
  have hremaining := remainingRows_eq rows hpos
  set remaining := remainingRows rationals config rows.length (languageGroups rows)
  have hnonneg : 0 ≤ remaining := by
    have := Apportion.sum_floor_le (shareOf config rows) (languagesOf rows)
    omega
  have hle : remaining ≤
      ((languagesOf rows).countP fun l ↦ 0 < Int.fract (shareOf config rows l) : ℕ) :=
    hremaining ▸ Apportion.remaining_le (shareOf config rows) (languagesOf rows)
  have hcount := hperm.countP_eq fun l ↦ 0 < Int.fract (shareOf config rows l)
  have hextra : extraLanguages sha256 rows config = ranked.take remaining.toNat := by
    rw [extraLanguages, sliceTo, if_pos hnonneg]
  have hlength : ranked.countP (fun l ↦ 0 < Int.fract (shareOf config rows l)) ≤ ranked.length :=
    List.countP_le_length
  rw [hextra]
  refine ⟨?_, fun l hl ↦ hperm.mem_iff.mp (List.mem_of_mem_take hl), ?_, ?_⟩
  · exact (hperm.nodup_iff.mpr (nodup_languagesOf rows)).sublist (List.take_sublist _ _)
  · refine Apportion.fract_pos_of_mem_take (shareOf config rows) ?_ (by omega)
    refine (rankedLanguages_pairwise rationals sha256 config (languageGroups rows)).imp ?_
    intro a b h
    rwa [remainderOf_eq rows hpos, remainderOf_eq rows hpos] at h
  · rw [List.length_take]
    omega

/-- The quotas are the seats. -/
theorem quotasOf_eq (hpos : 0 < config.holdoutFraction) (language : Text) :
    quotasOf rationals sha256 config rows.length (languageGroups rows) language =
      Apportion.seats (shareOf config rows) (extraLanguages sha256 rows config) language := by
  rw [quotasOf, foldl_raiseQuota, wholeQuota_eq rows hpos, Apportion.seats]
  refine congrArg (fun n : ℕ ↦ ⌊shareOf config rows language⌋ + (n : ℤ)) ?_
  exact List.countP_congr fun l _ ↦ by simp

theorem quotasOf_nonneg (hpos : 0 < config.holdoutFraction) (language : Text) :
    0 ≤ quotasOf rationals sha256 config rows.length (languageGroups rows) language := by
  rw [quotasOf_eq sha256 rows hpos]
  exact Apportion.seats_nonneg _ _ (shareOf_nonneg rows hpos language)

/-- No quota is more than the language has rows. -/
theorem quotasOf_le (hpos : 0 < config.holdoutFraction) (hlt : config.holdoutFraction < 1)
    (language : Text) :
    quotasOf rationals sha256 config rows.length (languageGroups rows) language ≤
      (ofLanguage rows language).length := by
  obtain ⟨hn, -, hfract, -⟩ := extraLanguages_spec sha256 rows hpos
  rw [quotasOf_eq sha256 rows hpos]
  refine Apportion.seats_le _ hn hfract ?_
  have hlen : (0 : ℚ) ≤ (ofLanguage rows language).length := Nat.cast_nonneg _
  rw [shareOf]
  push_cast
  nlinarith

/-! ## The split, over the rationals -/

/-- What is held out of a language. -/
theorem length_heldOut (hpos : 0 < config.holdoutFraction) (hlt : config.holdoutFraction < 1)
    (language : Text) :
    ((sliceTo ((ofLanguage rows language).mergeSort (rowLe sha256 config))
        (quotasOf rationals sha256 config rows.length (languageGroups rows) language)).length : ℤ) =
      quotasOf rationals sha256 config rows.length (languageGroups rows) language := by
  refine length_sliceTo (quotasOf_nonneg sha256 rows hpos language) ?_
  rw [List.length_mergeSort]
  exact quotasOf_le sha256 rows hpos hlt language

/-- The groups, from the languages. -/
theorem flatMap_languageGroups (f : Text × List SftRow → List SftRow) :
    (languageGroups rows).flatMap f =
      (languagesOf rows).flatMap fun l ↦ f (l, ofLanguage rows l) := by
  rw [languagesOf, List.flatMap_map]
  refine List.flatMap_congr fun g hg ↦ ?_
  show f g = f (g.1, ofLanguage rows g.1)
  rw [ofLanguage, ← Grouping.eq_filter_of_mem hg]

/-- The rows held out, language by language. -/
theorem holdout_perm : (deterministicStratifiedSplit rationals sha256 config rows).2.Perm
    ((languagesOf rows).flatMap fun l ↦
      sliceTo ((ofLanguage rows l).mergeSort (rowLe sha256 config))
        (quotasOf rationals sha256 config rows.length (languageGroups rows) l)) := by
  rw [deterministicStratifiedSplit]
  refine ((sortedGroups_perm _).flatMap_right _).trans ?_
  rw [flatMap_languageGroups]

/-- What is held out has the language of its group. -/
theorem language_of_mem_heldOut {language : Text} {stop : ℤ} {row : SftRow}
    (h : row ∈ sliceTo ((ofLanguage rows language).mergeSort (rowLe sha256 config)) stop) :
    row.nativeLangTag = language := by
  have hmem : row ∈ (ofLanguage rows language).mergeSort (rowLe sha256 config) := by
    rw [sliceTo] at h
    split at h <;> exact List.mem_of_mem_take h
  simpa [ofLanguage] using (List.mem_filter.mp (List.mem_mergeSort.mp hmem)).2

/-- The number of rows held out. -/
theorem length_holdout (hpos : 0 < config.holdoutFraction) (hlt : config.holdoutFraction < 1) :
    ((deterministicStratifiedSplit rationals sha256 config rows).2.length : ℤ) =
      ⌊(rows.length : ℚ) * config.holdoutFraction + 1 / 2⌋ := by
  obtain ⟨hn, hmem, -, hlength⟩ := extraLanguages_spec sha256 rows hpos
  have hsum : ((deterministicStratifiedSplit rationals sha256 config rows).2.length : ℤ) =
      ((languagesOf rows).map fun l ↦
        quotasOf rationals sha256 config rows.length (languageGroups rows) l).sum := by
    rw [(holdout_perm sha256 rows).length_eq, List.length_flatMap, Nat.cast_list_sum, List.map_map]
    refine congrArg List.sum (List.map_congr_left fun l _ ↦ ?_)
    exact length_heldOut sha256 rows hpos hlt l
  have hseats : ((languagesOf rows).map fun l ↦
      quotasOf rationals sha256 config rows.length (languageGroups rows) l) =
      (languagesOf rows).map (Apportion.seats (shareOf config rows)
        (extraLanguages sha256 rows config)) :=
    List.map_congr_left fun l _ ↦ quotasOf_eq sha256 rows hpos l
  rw [hsum, hseats, Apportion.sum_seats _ (nodup_languagesOf rows) hmem, hlength,
    remainingRows_eq rows hpos, sum_shareOf]
  omega

/-- The number of rows of a language that are held out. -/
theorem countP_holdout (hpos : 0 < config.holdoutFraction) (hlt : config.holdoutFraction < 1)
    (language : Text) :
    (((deterministicStratifiedSplit rationals sha256 config rows).2.countP
        fun row ↦ row.nativeLangTag = language : ℕ) : ℤ) =
      quotasOf rationals sha256 config rows.length (languageGroups rows) language := by
  have hgroup (l : Text) : (((sliceTo ((ofLanguage rows l).mergeSort (rowLe sha256 config))
      (quotasOf rationals sha256 config rows.length (languageGroups rows) l)).countP
        fun row ↦ row.nativeLangTag = language : ℕ) : ℤ) =
      if l = language then
        quotasOf rationals sha256 config rows.length (languageGroups rows) language
      else 0 := by
    split
    · rename_i h
      rw [h, List.countP_eq_length.mpr]
      · exact length_heldOut sha256 rows hpos hlt language
      · intro row hrow
        simpa using language_of_mem_heldOut sha256 rows hrow
    · rename_i h
      rw [List.countP_eq_zero.mpr, Nat.cast_zero]
      intro row hrow
      rw [language_of_mem_heldOut sha256 rows hrow]
      simpa using h
  have hsum : (((deterministicStratifiedSplit rationals sha256 config rows).2.countP
        fun row ↦ row.nativeLangTag = language : ℕ) : ℤ) =
      ((languagesOf rows).map fun l ↦ if l = language then
        quotasOf rationals sha256 config rows.length (languageGroups rows) language
      else 0).sum := by
    rw [(holdout_perm sha256 rows).countP_eq, List.countP_flatMap, Nat.cast_list_sum, List.map_map]
    exact congrArg List.sum (List.map_congr_left fun l _ ↦ hgroup l)
  rw [hsum, Apportion.sum_ite_eq (nodup_languagesOf rows)]
  by_cases hmem : language ∈ languagesOf rows
  · rw [if_pos hmem]
  · -- a language without rows has no quota
    have hnone : (ofLanguage rows language).length = 0 := by
      rw [List.length_eq_zero_iff, ofLanguage, List.filter_eq_nil_iff]
      intro row hrow
      simp only [decide_eq_true_eq]
      exact fun h ↦ hmem ((mem_languagesOf rows).mpr ⟨row, hrow, h⟩)
    have hle := quotasOf_le sha256 rows hpos hlt language
    have hnonneg := quotasOf_nonneg sha256 rows hpos language
    rw [if_neg hmem]
    omega

end

/-- **The split is exact.**  No row is lost or duplicated, the number of rows held out is the
rounded share, and every language has its share held out, rounded up or down. -/
theorem split_exact (sha256 : Text → Text) (config : SplitConfig ℚ) (rows : List SftRow)
    (hpos : 0 < config.holdoutFraction) (hlt : config.holdoutFraction < 1) :
    let train := (deterministicStratifiedSplit rationals sha256 config rows).1
    let holdout := (deterministicStratifiedSplit rationals sha256 config rows).2
    (train ++ holdout).Perm rows ∧
      (holdout.length : ℤ) = ⌊(rows.length : ℚ) * config.holdoutFraction + 1 / 2⌋ ∧
      ∀ language,
        let m := rows.countP fun row ↦ row.nativeLangTag = language
        let held := holdout.countP fun row ↦ row.nativeLangTag = language
        |(held : ℚ) - m * config.holdoutFraction| < 1 ∧ held ≤ m := by
  intro train holdout
  refine ⟨split_perm_rows rationals sha256 config rows, length_holdout sha256 rows hpos hlt, ?_⟩
  intro language m held
  have hm : m = (ofLanguage rows language).length := List.countP_eq_length_filter
  have hheld : (held : ℤ) =
      quotasOf rationals sha256 config rows.length (languageGroups rows) language :=
    countP_holdout sha256 rows hpos hlt language
  constructor
  · obtain ⟨hn, -, hfract, -⟩ := extraLanguages_spec sha256 rows hpos
    have hnear := Apportion.seats_near (shareOf config rows) hn hfract language
    rw [← quotasOf_eq sha256 rows hpos, ← hheld, shareOf, ← hm] at hnear
    exact_mod_cast hnear
  · have hle := quotasOf_le sha256 rows hpos hlt language
    omega

/-- Three rows of two languages. -/
def kiteRows : List SftRow := [
  ⟨"u1".toList, "hi".toList, "kite".toList, .audio, [], []⟩,
  ⟨"u2".toList, "as".toList, "kite".toList, .audio, [], []⟩,
  ⟨"u3".toList, "hi".toList, "drum".toList, .audio, [], []⟩]

/-- The settings, as they are when nothing is set. -/
def defaultSplit : SplitConfig ℚ := ⟨1 / 5, 20260711⟩

/-- The digests of the texts that are hashed for `kiteRows`. -/
def kiteDigests : List (Text × Text) := [
  ("20260711:u1".toList, "d0c7c53b910fc70ad5ffc175b72cc944bd908c8e6293d52fed85b3e107985b5c".toList),
  ("20260711:u2".toList, "8ccb71c95d8fd582db69d6142beffe7cfd3e411af694d764d00de0270c08ef83".toList),
  ("20260711:u3".toList, "fa85744e2db020f7dad3fd3db00b13e230d87261dae5b417e0c76db3a6ae7d6a".toList),
  ("20260711:hi".toList, "e70e91b4f226a52bac75e86267b13d59001c9f0dcedcc7efbcf4fab8e50b328b".toList),
  ("20260711:as".toList, "75a1648c8cad16f860a40e0436186e452a8614a65e64191f2c84d03b2a1c9b57".toList)]

/-- SHA-256, on those texts. -/
def kiteSha256 (text : Text) : Text := (Dict.get kiteDigests text).getD []

theorem split_exact_kite :
    (deterministicStratifiedSplit rationals kiteSha256 defaultSplit kiteRows).2.length = 1 := by
  have h := (split_exact kiteSha256 defaultSplit kiteRows (by norm_num [defaultSplit])
    (by norm_num [defaultSplit])).2.1
  have hfloor : ⌊(kiteRows.length : ℚ) * defaultSplit.holdoutFraction + 1 / 2⌋ = 1 := by
    rw [Int.floor_eq_iff]
    norm_num [kiteRows, defaultSplit]
  exact_mod_cast h.trans hfloor

/-! ## The order of the rows -/

section

variable {F : Type} [LinearOrder F] (arith : FractionArithmetic F) {sha256 : Text → Text}
  {config : SplitConfig F} {rows rows' : List SftRow}

/-- The texts that are hashed. -/
def hashedTexts {F : Type} (config : SplitConfig F) (rows : List SftRow) : Set Text :=
  {text | ∃ row ∈ rows, text = seededText config row.utteranceId ∨
    text = seededText config row.nativeLangTag}

omit [LinearOrder F] in
theorem seededText_injective : Function.Injective (seededText config) :=
  fun _ _ h ↦ (List.cons.inj (List.append_cancel_left h)).2

theorem ofLanguage_perm (h : rows.Perm rows') (language : Text) :
    (ofLanguage rows language).Perm (ofLanguage rows' language) := h.filter _

omit [LinearOrder F] in
theorem exactQuota_perm (h : rows.Perm rows') :
    exactQuota arith config (languageGroups rows) =
      exactQuota arith config (languageGroups rows') := by
  funext language
  rw [exactQuota, exactQuota, languageGroups, languageGroups, Grouping.getD_grouped,
    Grouping.getD_grouped, (h.filter _).length_eq]

omit [LinearOrder F] in
theorem wholeQuota_perm (h : rows.Perm rows') :
    wholeQuota arith config (languageGroups rows) =
      wholeQuota arith config (languageGroups rows') := by
  funext language
  rw [wholeQuota, wholeQuota, exactQuota_perm arith h]

omit [LinearOrder F] in
theorem remainderOf_perm (h : rows.Perm rows') :
    remainderOf arith config (languageGroups rows) =
      remainderOf arith config (languageGroups rows') := by
  funext language
  rw [remainderOf, remainderOf, exactQuota_perm arith h, wholeQuota_perm arith h]

theorem rankLe_perm (h : rows.Perm rows') :
    rankLe arith sha256 config (languageGroups rows) =
      rankLe arith sha256 config (languageGroups rows') := by
  funext a b
  rw [rankLe, rankLe, remainderOf_perm arith h]

/-- The ranking has no ties that the hash does not break. -/
theorem rankedLanguages_eq (h : rows.Perm rows')
    (hfree : Set.InjOn sha256 (hashedTexts config rows)) :
    rankedLanguages arith sha256 config (languageGroups rows) =
      rankedLanguages arith sha256 config (languageGroups rows') := by
  rw [rankedLanguages, rankedLanguages, rankLe_perm arith h]
  refine Grouping.mergeSort_eq_of_perm (rankLe_trans _ _ _ _) (rankLe_total _ _ _ _)
    (Grouping.keys_perm h) fun a ha b hb hab hba ↦ ?_
  obtain ⟨row, hrow, rfl⟩ := (mem_languagesOf rows).mp ha
  obtain ⟨row', hrow', rfl⟩ := (mem_languagesOf rows).mp hb
  rw [rankLe_iff] at hab hba
  have hdigest : seededDigest sha256 config row.nativeLangTag =
      seededDigest sha256 config row'.nativeLangTag := by
    rcases hab with hab | ⟨heq, hab⟩
    · rcases hba with hba | ⟨heq, -⟩
      · exact absurd hba hab.not_gt
      · exact absurd heq hab.ne
    · rcases hba with hba | ⟨-, hba⟩
      · exact absurd heq.symm hba.ne'
      · exact Json.nameLe_antisymm hab hba
  exact seededText_injective
    (hfree ⟨row, hrow, .inr rfl⟩ ⟨row', hrow', .inr rfl⟩ hdigest)

theorem quotasOf_perm (h : rows.Perm rows')
    (hfree : Set.InjOn sha256 (hashedTexts config rows)) :
    quotasOf arith sha256 config rows.length (languageGroups rows) =
      quotasOf arith sha256 config rows'.length (languageGroups rows') := by
  have hsum : ((languageGroups rows).map fun g ↦
      wholeQuota arith config (languageGroups rows) g.1).sum =
      ((languageGroups rows').map fun g ↦
        wholeQuota arith config (languageGroups rows') g.1).sum := by
    have hkeys : (languagesOf rows).Perm (languagesOf rows') := Grouping.keys_perm h
    have hperm := hkeys.map (wholeQuota arith config (languageGroups rows'))
    rw [wholeQuota_perm arith h]
    simpa [languagesOf, Function.comp_def] using hperm.sum_eq
  rw [quotasOf, quotasOf, rankedLanguages_eq arith h hfree, remainingRows, remainingRows, hsum,
    h.length_eq, wholeQuota_perm arith h]

/-- The groups in the order of the languages. -/
theorem sortedGroups_languageGroups (rows : List SftRow) :
    sortedGroups (languageGroups rows) =
      ((languagesOf rows).mergeSort Json.nameLe).map fun l ↦ (l, ofLanguage rows l) := by
  rw [List.map_mergeSort (s := fun a b : Text × List SftRow ↦ Json.nameLe a.1 b.1)
    fun _ _ _ _ ↦ rfl, sortedGroups, languagesOf]
  exact congrArg (List.mergeSort · _) (Grouping.grouped_eq_map rows)

omit [LinearOrder F] in
/-- The rows of a language have an order of their own. -/
theorem mergeSort_ofLanguage (h : rows.Perm rows') (hids : (rows.map SftRow.utteranceId).Nodup)
    (hfree : Set.InjOn sha256 (hashedTexts config rows)) (language : Text) :
    (ofLanguage rows language).mergeSort (rowLe sha256 config) =
      (ofLanguage rows' language).mergeSort (rowLe sha256 config) := by
  have htrans : ∀ a b c, rowLe sha256 config a b = true → rowLe sha256 config b c = true →
      rowLe sha256 config a c = true := fun _ _ _ ↦ Json.nameLe_trans _ _ _
  have htotal : ∀ a b, (rowLe sha256 config a b || rowLe sha256 config b a) = true :=
    fun _ _ ↦ Json.nameLe_total _ _
  refine Grouping.mergeSort_eq_of_perm htrans htotal (ofLanguage_perm h language)
    fun a ha b hb hab hba ↦ ?_
  have ha := List.mem_of_mem_filter ha
  have hb := List.mem_of_mem_filter hb
  have hid : a.utteranceId = b.utteranceId := seededText_injective
    (hfree ⟨a, ha, .inl rfl⟩ ⟨b, hb, .inl rfl⟩ (Json.nameLe_antisymm hab hba))
  exact List.inj_on_of_nodup_map hids ha hb hid

/-- **The split does not depend on the order of the corpus.** -/
theorem split_perm (h : rows.Perm rows') (hids : (rows.map SftRow.utteranceId).Nodup)
    (hfree : Set.InjOn sha256 (hashedTexts config rows)) :
    deterministicStratifiedSplit arith sha256 config rows =
      deterministicStratifiedSplit arith sha256 config rows' := by
  have hlanguages : (languagesOf rows).mergeSort Json.nameLe =
      (languagesOf rows').mergeSort Json.nameLe :=
    Grouping.mergeSort_eq_of_perm Json.nameLe_trans Json.nameLe_total (Grouping.keys_perm h)
      fun _ _ _ _ ↦ Json.nameLe_antisymm
  rw [deterministicStratifiedSplit, deterministicStratifiedSplit, quotasOf_perm arith h hfree,
    sortedGroups_languageGroups, sortedGroups_languageGroups, hlanguages]
  simp only [List.flatMap_map, mergeSort_ofLanguage h hids hfree]

end

theorem kiteSha256_injOn : Set.InjOn kiteSha256 (hashedTexts defaultSplit kiteRows) := by
  have hmem : ∀ text ∈ hashedTexts defaultSplit kiteRows, text ∈ kiteDigests.map Prod.fst := by
    rintro text ⟨row, hrow, htext⟩
    have hall :
      ∀ row ∈ kiteRows, seededText defaultSplit row.utteranceId ∈ kiteDigests.map Prod.fst ∧
        seededText defaultSplit row.nativeLangTag ∈ kiteDigests.map Prod.fst := by decide
    rcases htext with rfl | rfl
    · exact (hall row hrow).1
    · exact (hall row hrow).2
  have hn : ((kiteDigests.map Prod.fst).map kiteSha256).Nodup := by decide
  exact fun a ha b hb h ↦ List.inj_on_of_nodup_map hn (hmem a ha) (hmem b hb) h

theorem split_perm_kite :
    deterministicStratifiedSplit rationals kiteSha256 defaultSplit kiteRows =
      deterministicStratifiedSplit rationals kiteSha256 defaultSplit kiteRows.reverse :=
  split_perm rationals (List.reverse_perm kiteRows).symm (by decide) kiteSha256_injOn

end Neva
