import Neva.Schema

/-!
# Languages

The language helpers of `app/game/types.py`.  A player can use their mother tongue and the common
languages they declared; two players can be matched when their mother tongues differ and they
share a language they can both use.
-/

set_option autoImplicit false

namespace Neva

/-- `str.isspace` on one code point. -/
def isSpace (c : Char) : Bool :=
  let n := c.toNat
  (9 ≤ n && n ≤ 13) || (28 ≤ n && n ≤ 32) || n == 0x85 || n == 0xA0 || n == 0x1680 ||
    (0x2000 ≤ n && n ≤ 0x200A) || n == 0x2028 || n == 0x2029 || n == 0x202F || n == 0x205F ||
    n == 0x3000

/-- `str.strip` -/
def strip (s : Text) : Text := ((s.dropWhile isSpace).reverse.dropWhile isSpace).reverse

/-- Strip every entry, and keep each non-empty one at its first place: the loop that
`normalize_common_langs` and `speakable_languages` share. -/
def stripDistinct (raw : List Text) : List Text :=
  raw.foldl (fun out item ↦
    let text := strip item
    if text ≠ [] ∧ text ∉ out then out ++ [text] else out) []

def normalizeCommonLangs (raw : List Text) : List Text := stripDistinct raw

/-- The languages a player can use for matching: `native_lang` first, then `common_langs`. -/
def speakableLanguages (nativeLang : Text) (commonLangs : List Text) : List Text :=
  stripDistinct (nativeLang :: commonLangs)

/-- The languages in both lists, in the order of the first. -/
def sharedLanguages (a b : List Text) : List Text := a.filter (· ∈ b)

/-- The pair's language, chosen from those its members share: the preferred one when it is among
them, otherwise the first.  `none` is the `ValueError` on an empty list. -/
def pickCommonLang (shared : List Text) (preferred : Text) : Option Text :=
  match shared with
  | [] => none
  | first :: _ =>
    let preferredTag := strip preferred
    if preferredTag ≠ [] ∧ preferredTag ∈ shared then some preferredTag else some first

/-! ## Stripped text -/

theorem strip_eq (s : Text) : strip s = (s.dropWhile isSpace).rdropWhile isSpace := rfl

@[simp] theorem strip_nil : strip [] = [] := rfl

/-- What is left after stripping begins with no blank and ends with none. -/
@[simp] theorem strip_strip (s : Text) : strip (strip s) = strip s := by
  have hhead : (strip s).dropWhile isSpace = strip s := by
    rw [List.dropWhile_eq_self_iff]
    intro hpos
    have hinit : strip s <+: s.dropWhile isSpace := List.rdropWhile_prefix _ _
    have hlt : 0 < (s.dropWhile isSpace).length := hpos.trans_le hinit.length_le
    rw [hinit.getElem hpos]
    exact List.dropWhile_get_zero_not _ _ hlt
  rw [strip_eq (strip s), hhead, strip_eq, List.rdropWhile_idempotent]

/-- Text that neither begins nor ends with a blank. -/
theorem strip_eq_self {c d : Char} {s : Text} (hc : isSpace c = false) (hd : isSpace d = false) :
    strip (c :: s ++ [d]) = c :: s ++ [d] := by
  rw [strip_eq, List.cons_append, List.dropWhile_cons_of_neg (by simp [hc]), ← List.cons_append,
    List.rdropWhile_concat_neg _ _ _ (by simp [hd])]

/-- Text that is not blank contains a character that is not. -/
theorem strip_ne_nil_iff {s : Text} : strip s ≠ [] ↔ ∃ c ∈ s, isSpace c = false := by
  rw [strip_eq, Ne, List.rdropWhile_eq_nil_iff]
  constructor
  · intro h
    by_contra! hall
    refine h fun c hc ↦ ?_
    simpa using hall c ((List.dropWhile_suffix _).subset hc)
  · rintro ⟨c, hc, hspace⟩ hall
    have hmem : c ∈ s.dropWhile isSpace := by
      rw [← List.takeWhile_append_dropWhile (p := isSpace) (l := s)] at hc
      rcases List.mem_append.mp hc with hc | hc
      · simp [List.mem_takeWhile_imp hc] at hspace
      · exact hc
    simp [hall c hmem] at hspace

/-! ## The languages of a player -/

/-- One turn of the loop in `stripDistinct`. -/
private def keepText (out : List Text) (item : Text) : List Text :=
  if strip item ≠ [] ∧ strip item ∉ out then out ++ [strip item] else out

private theorem stripDistinct_eq (raw : List Text) : stripDistinct raw = raw.foldl keepText [] :=
  rfl

private theorem mem_keepText {out : List Text} {item l : Text} :
    l ∈ keepText out item ↔ l ∈ out ∨ (l = strip item ∧ l ≠ []) := by
  rw [keepText]
  split
  · rename_i h
    rw [List.mem_append, List.mem_singleton]
    grind
  · grind

private theorem mem_foldl_keepText {raw out : List Text} {l : Text} :
    l ∈ raw.foldl keepText out ↔ l ∈ out ∨ ∃ r ∈ raw, strip r = l ∧ l ≠ [] := by
  induction raw generalizing out with
  | nil => simp
  | cons item raw ih =>
    rw [List.foldl_cons, ih, mem_keepText, or_assoc]
    grind

/-- The kept languages are the non-blank entries, stripped. -/
theorem mem_stripDistinct {raw : List Text} {l : Text} :
    l ∈ stripDistinct raw ↔ ∃ r ∈ raw, strip r = l ∧ l ≠ [] := by
  rw [stripDistinct_eq, mem_foldl_keepText]
  simp

/-- Cleaning a list twice, the second time behind other entries, cleans it once. -/
private theorem foldl_keepText_foldl {raw out acc : List Text}
    (hout : ∀ l ∈ out, strip l = l ∧ l ≠ []) :
    (raw.foldl keepText out).foldl keepText acc = raw.foldl keepText (out.foldl keepText acc) := by
  induction raw generalizing out with
  | nil => rfl
  | cons item raw ih =>
    have hstep : (keepText out item).foldl keepText acc =
        keepText (out.foldl keepText acc) item := by
      by_cases hkeep : strip item ≠ [] ∧ strip item ∉ out
      · rw [show keepText out item = out ++ [strip item] from if_pos hkeep, List.foldl_concat]
        rw [keepText, keepText, strip_strip]
      · have hheld : ¬ (strip item ≠ [] ∧ strip item ∉ out.foldl keepText acc) := by
          rintro ⟨hne, hnot⟩
          have hin : strip item ∈ out := by simpa [hne] using hkeep
          exact hnot (mem_foldl_keepText.mpr (.inr ⟨_, hin, strip_strip item, hne⟩))
        rw [show keepText out item = out from if_neg hkeep]
        exact (if_neg hheld).symm
    rw [List.foldl_cons, List.foldl_cons, ← hstep]
    refine ih fun l hl ↦ ?_
    rcases mem_keepText.mp hl with hl | ⟨rfl, hne⟩
    · exact hout l hl
    · exact ⟨strip_strip item, hne⟩

/-- Cleaning the declared languages first, as the Postgres store does, changes nothing. -/
@[simp] theorem speakableLanguages_normalizeCommonLangs (native : Text) (common : List Text) :
    speakableLanguages native (normalizeCommonLangs common) = speakableLanguages native common := by
  simp only [speakableLanguages, normalizeCommonLangs, stripDistinct_eq, List.foldl_cons]
  rw [foldl_keepText_foldl (by simp)]
  rfl

theorem sharedLanguages_ne_nil {a b : List Text} :
    sharedLanguages a b ≠ [] ↔ ∃ l ∈ a, l ∈ b := by
  simp [sharedLanguages]

/-! ## The language of a pair -/

theorem pickCommonLang_isSome {shared : List Text} (preferred : Text) (h : shared ≠ []) :
    (pickCommonLang shared preferred).isSome := by
  cases shared with
  | nil => exact absurd rfl h
  | cons first rest =>
    rw [pickCommonLang]
    split <;> rfl

/-- The chosen language is one that both members share. -/
theorem pickCommonLang_mem {shared : List Text} {preferred lang : Text}
    (h : pickCommonLang shared preferred = some lang) : lang ∈ shared := by
  cases shared with
  | nil => cases h
  | cons first rest =>
    rw [pickCommonLang] at h
    split at h
    · rename_i hp
      cases h
      exact hp.2
    · cases h
      exact List.mem_cons_self

end Neva
