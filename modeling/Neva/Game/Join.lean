import Neva.Game.Store

/-!
# Joining

`POST /api/join` and `GameService.join` of `app/game/service.py`.  What is stored of a player's
languages is stripped, and there is at least one common language; nothing is asked of the mother
tongue but that the request carries some text for it, so a blank one is stored as the empty string.

The nickname that ends up in the row is the one `create_player` reserves, which is given to `join`
here: the first of the candidates `allocate_nickname_candidate` makes of the requested name that is
not taken.
-/

set_option autoImplicit false

namespace Neva

/-- The body of `POST /api/join`. -/
structure JoinRequest where
  nickname : Text
  nativeLang : Text
  commonLangs : List Text
  deriving DecidableEq, Repr

/-- The bounds the request model puts on its fields. -/
structure JoinRequest.Valid (req : JoinRequest) : Prop where
  nickname : 1 ≤ req.nickname.length ∧ req.nickname.length ≤ 32
  nativeLang : 1 ≤ req.nativeLang.length ∧ req.nativeLang.length ≤ 64
  commonLangs : 1 ≤ req.commonLangs.length ∧ req.commonLangs.length ≤ 12

/-- `join`, up to the row `create_player` inserts under the nickname it has reserved. -/
def join (req : JoinRequest) (id : Uuid) (reserved : Text) : Except Failure PlayerRecord :=
  let cleaned := (req.commonLangs.filter fun lang ↦ lang ≠ [] ∧ strip lang ≠ []).map strip
  if cleaned = [] then
    .error (.gameError 400 "common_langs must contain at least one language")
  else .ok
    { id := id, nickname := reserved, nativeLang := strip req.nativeLang, commonLangs := cleaned }

/-- `NICKNAME_MAX_LEN` -/
def nicknameMaxLen : ℕ := 32

/-- `allocate_nickname_candidate`: the name asked for, and from the second attempt on a name with
the number of the attempt behind it. -/
def allocateNicknameCandidate (requested : Text) (attempt : ℕ) : Text :=
  let base := if strip requested = [] then "player".toList else strip requested
  let base := base.take nicknameMaxLen
  if attempt = 0 then base
  else
    let suffix := '#' :: Nat.toDigits 10 (attempt + 1)
    if nicknameMaxLen ≤ suffix.length then suffix.drop (suffix.length - nicknameMaxLen)
    else
      let trimmed := (base.take (nicknameMaxLen - suffix.length)).rdropWhile isSpace
      (if trimmed = [] then ['p'] else trimmed) ++ suffix

/-- A candidate satisfies the constraint of the schema. -/
theorem allocateNicknameCandidate_length (requested : Text) (attempt : ℕ) :
    1 ≤ (allocateNicknameCandidate requested attempt).length ∧
      (allocateNicknameCandidate requested attempt).length ≤ 32 := by
  have hbase : (if strip requested = [] then "player".toList else strip requested).length ≠ 0 := by
    split
    · decide
    · rename_i h
      exact fun hlen ↦ h (List.length_eq_zero_iff.mp hlen)
  have hmax : nicknameMaxLen = 32 := rfl
  simp only [allocateNicknameCandidate]
  generalize (if strip requested = [] then "player".toList else strip requested) = base at hbase ⊢
  by_cases hattempt : attempt = 0
  · rw [if_pos hattempt, List.length_take]
    omega
  · rw [if_neg hattempt]
    generalize '#' :: Nat.toDigits 10 (attempt + 1) = suffix
    by_cases hsuffix : nicknameMaxLen ≤ suffix.length
    · rw [if_pos hsuffix, List.length_drop]
      omega
    · rw [if_neg hsuffix, List.length_append]
      have htrim : (((base.take nicknameMaxLen).take (nicknameMaxLen - suffix.length)).rdropWhile
          isSpace).length ≤ nicknameMaxLen - suffix.length :=
        (List.rdropWhile_prefix isSpace _).length_le.trans (List.length_take_le _ _)
      split
      · rw [List.length_singleton]
        omega
      · rename_i hne
        have := List.length_pos_iff.mpr hne
        omega

/-- The row of a player who joined. -/
def PlayerRecord.Joined (p : PlayerRecord) : Prop :=
  ∃ req id reserved, req.Valid ∧ join req id reserved = .ok p

namespace PlayerRecord.Joined

variable {p : PlayerRecord}

theorem eq (h : p.Joined) : ∃ req : JoinRequest, p.nativeLang = strip req.nativeLang ∧
    p.commonLangs = (req.commonLangs.filter fun lang ↦ lang ≠ [] ∧ strip lang ≠ []).map strip ∧
    p.commonLangs ≠ [] := by
  obtain ⟨req, id, reserved, -, hjoin⟩ := h
  rw [join] at hjoin
  split at hjoin
  · exact absurd hjoin (by simp)
  · rename_i hne
    rw [← Except.ok.inj hjoin]
    exact ⟨req, rfl, rfl, hne⟩

@[simp] theorem strip_nativeLang (h : p.Joined) : strip p.nativeLang = p.nativeLang := by
  obtain ⟨req, hnative, -⟩ := h.eq
  rw [hnative, strip_strip]

/-- The languages of a player who joined are stored as they are compared. -/
theorem strip_of_mem (h : p.Joined) {lang : Text} (hlang : lang ∈ p.commonLangs) :
    strip lang = lang ∧ lang ≠ [] := by
  obtain ⟨req, -, hcommon, -⟩ := h.eq
  rw [hcommon, List.mem_map] at hlang
  obtain ⟨raw, hraw, rfl⟩ := hlang
  have := (List.mem_filter.mp hraw).2
  simp only [decide_eq_true_eq] at this
  exact ⟨strip_strip raw, this.2⟩

/-- The languages the player can use are the ones stored, less a blank mother tongue. -/
theorem mem_speakableLanguages (h : p.Joined) {lang : Text} :
    lang ∈ speakableLanguages p.nativeLang p.commonLangs ↔
      (lang = p.nativeLang ∨ lang ∈ p.commonLangs) ∧ lang ≠ [] := by
  rw [speakableLanguages, mem_stripDistinct]
  constructor
  · rintro ⟨raw, hraw, rfl, hne⟩
    rcases List.mem_cons.mp hraw with rfl | hraw
    · exact ⟨.inl h.strip_nativeLang, hne⟩
    · rw [(h.strip_of_mem hraw).1] at hne ⊢
      exact ⟨.inr hraw, hne⟩
  · rintro ⟨rfl | hlang, hne⟩
    · exact ⟨p.nativeLang, List.mem_cons_self, h.strip_nativeLang, hne⟩
    · exact ⟨lang, List.mem_cons_of_mem _ hlang, (h.strip_of_mem hlang).1, hne⟩

end PlayerRecord.Joined

end Neva
