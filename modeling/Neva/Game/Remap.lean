import Mathlib.Data.Prod.Lex
import Neva.Game.Nicknames
import Neva.Tables

/-!
# Duplicate nicknames

`contracts/migrations/0005_unique_nicknames.sql`.  Before nicknames are declared to be unique, those
that are not are replaced: each player who has the name of an earlier one gets the first of
`name#2`, `name#3` and so on that nobody has.  What is looped over is what the query found at the
start, while what is taken is looked up in the table as it is.

With fewer players than there are suffixes to try the migration does not fail, the first who had a
name keeps it, and to run the migration again changes nothing (`remap_of_few`).
-/

set_option autoImplicit false

namespace Neva

/-- What the migration reads of a `players` row. -/
structure NamedPlayer where
  id : Uuid
  nickname : Text
  createdAt : Time
  deriving DecidableEq, Repr

namespace NamedPlayer

/-- `(o.created_at, o.id) < (p.created_at, p.id)` -/
def Before (o p : NamedPlayer) : Prop := toLex (o.createdAt, o.id) < toLex (p.createdAt, p.id)

instance (o p : NamedPlayer) : Decidable (o.Before p) :=
  inferInstanceAs (Decidable (toLex _ < toLex _))

end NamedPlayer

/-- How many suffixes are tried: `#2` up to `#10000`. -/
def lastSuffix : ℕ := 10000

/-- The candidate for a suffix. -/
def remapCandidate (nickname : Text) (suffix : ℕ) : Text :=
  let s := '#' :: Nat.toDigits 10 suffix
  if nicknameMaxLen ≤ s.length then s.drop (s.length - nicknameMaxLen)
  else
    let maxBase := nicknameMaxLen - s.length
    let candidate := (nickname.take maxBase).rdropWhile (· == ' ')
    let candidate := if candidate = [] then ['p'] else candidate
    candidate.take maxBase ++ s

variable (l : Lowercase)

/-- The inner loop, from a suffix on; nothing is the exception. -/
def freeCandidate (taken : List Text) (nickname : Text) (suffix : ℕ) : Option Text :=
  if nicknameTaken l taken (remapCandidate nickname suffix) then
    if lastSuffix < suffix + 1 then none else freeCandidate taken nickname (suffix + 1)
  else some (remapCandidate nickname suffix)
  termination_by lastSuffix - suffix
  decreasing_by omega

namespace NamedPlayer

/-- An earlier player has the same name. -/
def Later (players : List NamedPlayer) (p : NamedPlayer) : Prop :=
  ∃ o ∈ players, l.lower o.nickname = l.lower p.nickname ∧ o.Before p

instance (players : List NamedPlayer) (p : NamedPlayer) : Decidable (p.Later l players) :=
  inferInstanceAs (Decidable (∃ o ∈ players, _))

/-- `SELECT … ORDER BY p.created_at ASC, p.id ASC` -/
def duplicates (players : List NamedPlayer) : List NamedPlayer :=
  (players.filter fun p ↦ p.Later l players).insertionSort fun o p ↦ ¬p.Before o

/-- `UPDATE players SET nickname = candidate WHERE id = rec.id`, with the table's constraint. -/
def setNickname (players : List NamedPlayer) (id : Uuid) (nickname : Text) :
    Option (List NamedPlayer) :=
  if 1 ≤ nickname.length ∧ nickname.length ≤ 32 then
    some (players.map fun p ↦ if p.id = id then { p with nickname := nickname } else p)
  else none

/-- The outer loop. -/
def remapAll : List NamedPlayer → List NamedPlayer → Option (List NamedPlayer)
  | [], players => some players
  | p :: rest, players => do
    let candidate ← freeCandidate l (players.map nickname) p.nickname 2
    let players ← setNickname players p.id candidate
    remapAll rest players

/-- The migration: the names are remapped, and the index can be created. -/
def remap (players : List NamedPlayer) : Option (List NamedPlayer) := do
  let players' ← remapAll l (duplicates l players) players
  if (players'.map fun p ↦ l.lower p.nickname).Nodup then some players' else none

end NamedPlayer

/-! ## The candidates -/

section

variable {l : Lowercase} {nickname : Text} {n : ℕ}

/-- A suffix that is tried has at most six characters. -/
theorem length_suffixOf (hn : n ≤ lastSuffix) : (suffixOf n).length ≤ 6 := by
  rw [suffixOf, List.length_cons]
  have hlt : n < 10 ^ 5 := hn.trans_lt (by decide)
  have := (Nat.length_toDigits_le_iff (by decide) (by decide)).mpr hlt
  omega

theorem exists_remapCandidate (nickname : Text) (hn : n ≤ lastSuffix) :
    ∃ base : Text, remapCandidate nickname n = base ++ suffixOf n ∧
      base.length ≤ nicknameMaxLen - (suffixOf n).length := by
  have hlen : ¬nicknameMaxLen ≤ (suffixOf n).length := by
    have := length_suffixOf hn
    rw [nicknameMaxLen]
    omega
  exact ⟨_, if_neg hlen, List.length_take_le _ _⟩

/-- A candidate satisfies the constraint of the table. -/
theorem remapCandidate_length (nickname : Text) (hn : n ≤ lastSuffix) :
    1 ≤ (remapCandidate nickname n).length ∧ (remapCandidate nickname n).length ≤ 32 := by
  obtain ⟨base, heq, hbase⟩ := exists_remapCandidate nickname hn
  have hsuffix := length_suffixOf hn
  have hpos : 1 ≤ (suffixOf n).length := Nat.succ_pos _
  rw [nicknameMaxLen] at hbase
  rw [heq, List.length_append]
  omega

/-- Candidates with different suffixes are different names. -/
theorem lower_remapCandidate_inj {m : ℕ} (hm : m ≤ lastSuffix) (hn : n ≤ lastSuffix)
    (h : l.lower (remapCandidate nickname m) = l.lower (remapCandidate nickname n)) : m = n := by
  obtain ⟨base, hbase, -⟩ := exists_remapCandidate nickname hm
  obtain ⟨base', hbase', -⟩ := exists_remapCandidate nickname hn
  rw [hbase, hbase', l.append _ _ (isSuffixChar_suffixOf m),
    l.append _ _ (isSuffixChar_suffixOf n)] at h
  have hdigits := (append_sep_inj_right (notMem_toDigits (by decide) m)
    (notMem_toDigits (by decide) n) h).2
  rw [← Nat.ofDigitChars_ten_toDigits (n := m), hdigits, Nat.ofDigitChars_ten_toDigits]

theorem nicknameTaken_eq_true {taken : List Text} {name : Text} :
    nicknameTaken l taken name = true ↔ l.lower name ∈ taken.map l.lower := by
  simp [nicknameTaken]

/-- More suffixes are tried than fewer players can have taken. -/
theorem exists_free {taken : List Text} (hfew : taken.length + 1 < lastSuffix) :
    ∃ n, 2 ≤ n ∧ n ≤ lastSuffix ∧ nicknameTaken l taken (remapCandidate nickname n) = false := by
  by_contra hall
  push Not at hall
  have hnodup : ((List.range' 2 (lastSuffix - 1)).map fun n ↦
      l.lower (remapCandidate nickname n)).Nodup := by
    refine (List.nodup_map_iff_inj_on List.nodup_range').mpr fun m hm n hn heq ↦ ?_
    have hm := (List.mem_range'_1.mp hm).2
    have hn := (List.mem_range'_1.mp hn).2
    exact lower_remapCandidate_inj (by omega) (by omega) heq
  have hsub : (List.range' 2 (lastSuffix - 1)).map (fun n ↦ l.lower (remapCandidate nickname n)) ⊆
      taken.map l.lower := by
    intro x hx
    obtain ⟨n, hn, rfl⟩ := List.mem_map.mp hx
    have hn := List.mem_range'_1.mp hn
    exact nicknameTaken_eq_true.mp (by simpa using hall n hn.1 (by omega))
  have hle := (hnodup.subperm hsub).length_le
  rw [List.length_map, List.length_map, List.length_range'] at hle
  omega

/-- What the inner loop finds is free. -/
theorem of_freeCandidate {taken : List Text} {name : Text}
    (h : freeCandidate l taken nickname n = some name) (hn : n ≤ lastSuffix) :
    nicknameTaken l taken name = false ∧ ∃ m, n ≤ m ∧ m ≤ lastSuffix ∧
      name = remapCandidate nickname m := by
  fun_induction freeCandidate l taken nickname n with
  | case1 => cases h
  | case2 n _ hlast ih =>
    obtain ⟨hfree, m, hm, hle, rfl⟩ := ih h (by omega)
    exact ⟨hfree, m, by omega, hle, rfl⟩
  | case3 n htaken =>
    obtain rfl := Option.some.inj h
    exact ⟨by simpa using htaken, n, le_rfl, hn, rfl⟩

/-- The inner loop finds a candidate if there is a free one. -/
theorem exists_freeCandidate {taken : List Text} {m : ℕ} (hnm : n ≤ m) (hm : m ≤ lastSuffix)
    (hfree : nicknameTaken l taken (remapCandidate nickname m) = false) :
    ∃ name, freeCandidate l taken nickname n = some name := by
  fun_induction freeCandidate l taken nickname n with
  | case1 n htaken hlast =>
    obtain rfl : n = m := by omega
    exact absurd htaken (by simp [hfree])
  | case2 n htaken hlast ih =>
    have hne : n ≠ m := fun heq ↦ absurd htaken (by simp [heq, hfree])
    exact ih (by omega)
  | case3 n _ => exact ⟨_, rfl⟩

end

/-! ## The loop -/

namespace NamedPlayer

/-- No two players have the same name. -/
def Named (players : List NamedPlayer) : Prop :=
  (players.map fun p ↦ l.lower p.nickname).Nodup

/-- The names are what the table allows. -/
def Bounded (players : List NamedPlayer) : Prop :=
  ∀ p ∈ players, 1 ≤ p.nickname.length ∧ p.nickname.length ≤ 32

/-- What holds while players are still to be renamed: those that are not have different names. -/
structure Remapping (todo players : List NamedPlayer) : Prop where
  ids : Tables.Unique id players
  distinct : (todo.map id).Nodup
  pending : ∀ p ∈ todo, p ∈ players
  settled : ∀ a ∈ players, ∀ b ∈ players, a.id ∉ todo.map id → b.id ∉ todo.map id →
    l.lower a.nickname = l.lower b.nickname → a = b
  bounded : Bounded players

/-- What becomes of a player in the loop. -/
def Outcome (todo : List NamedPlayer) (p p' : NamedPlayer) : Prop :=
  (p.id ∉ todo.map id ∧ p' = p) ∨ p.id ∈ todo.map id ∧
    ∃ n, 2 ≤ n ∧ n ≤ lastSuffix ∧ p' = { p with nickname := remapCandidate p.nickname n }

variable {l} {players players' todo : List NamedPlayer} {p : NamedPlayer}

theorem before_total {a b : NamedPlayer} (h : a.id ≠ b.id) : a.Before b ∨ b.Before a :=
  lt_or_gt_of_ne fun heq ↦ h (Prod.ext_iff.mp (toLex.injective heq)).2

theorem not_before_self (p : NamedPlayer) : ¬p.Before p := lt_irrefl _

theorem mem_duplicates : p ∈ duplicates l players ↔ p ∈ players ∧ p.Later l players := by
  simp [duplicates]

/-- Nothing has been renamed yet. -/
theorem remapping_duplicates (hids : Tables.Unique id players) (hbounded : Bounded players) :
    Remapping l (duplicates l players) players where
  ids := hids
  distinct := by
    have hperm := List.perm_insertionSort (fun o p : NamedPlayer ↦ ¬p.Before o)
      (players.filter fun p ↦ p.Later l players)
    exact (hperm.map id).nodup_iff.mpr (hids.filter _)
  pending p hp := (mem_duplicates.mp hp).1
  settled a ha b hb hna hnb heq := by
    -- of two players with the same name the later one is to be renamed
    by_contra hne
    have hid : a.id ≠ b.id := fun hid ↦ hne (hids.eq ha hb hid)
    rcases before_total hid with hlt | hlt
    · exact hnb (List.mem_map_of_mem (mem_duplicates.mpr ⟨hb, a, ha, heq, hlt⟩))
    · exact hna (List.mem_map_of_mem (mem_duplicates.mpr ⟨ha, b, hb, heq.symm, hlt⟩))
  bounded := hbounded

/-- The table after a player has been renamed. -/
def renamed (players : List NamedPlayer) (p : NamedPlayer) (name : Text) : List NamedPlayer :=
  Tables.put id { p with nickname := name } players

theorem setNickname_eq (hids : Tables.Unique id players) (hp : p ∈ players) {name : Text}
    (hname : 1 ≤ name.length ∧ name.length ≤ 32) :
    setNickname players p.id name = some (renamed players p name) := by
  rw [setNickname, if_pos hname]
  exact congrArg some (hids.map_eq_put hp (fun q ↦ { q with nickname := name }) rfl rfl)

theorem mem_renamed (hp : p ∈ players) {name : Text} {q : NamedPlayer} :
    q ∈ renamed players p name ↔
      q = { p with nickname := name } ∨ q ∈ players ∧ q.id ≠ p.id :=
  Tables.mem_put (r := { p with nickname := name }) (List.mem_map.mpr ⟨p, hp, rfl⟩)

/-- One round of the loop. -/
theorem Remapping.step {rest : List NamedPlayer} (h : Remapping l (p :: rest) players)
    {name : Text} (hfree : nicknameTaken l (players.map nickname) name = false)
    (hname : 1 ≤ name.length ∧ name.length ≤ 32) : Remapping l rest (renamed players p name) := by
  have hp : p ∈ players := h.pending p List.mem_cons_self
  obtain ⟨hnotMem, hrest⟩ := List.nodup_cons.mp h.distinct
  -- the new name is nobody's
  have hnew : ∀ q ∈ players, l.lower name ≠ l.lower q.nickname := fun q hq heq ↦ by
    have htaken : nicknameTaken l (players.map nickname) name = true :=
      nicknameTaken_eq_true.mpr (heq ▸ List.mem_map_of_mem (List.mem_map_of_mem hq))
    simp [hfree] at htaken
  exact {
    ids := h.ids.put _
    distinct := hrest
    pending := fun q hq ↦ (mem_renamed hp).mpr (.inr ⟨h.pending q (List.mem_cons_of_mem _ hq),
      fun hid ↦ hnotMem (hid ▸ List.mem_map_of_mem hq)⟩)
    settled := by
      intro a ha b hb hna hnb heq
      rcases (mem_renamed hp).mp ha with rfl | ⟨ha, hida⟩ <;>
        rcases (mem_renamed hp).mp hb with rfl | ⟨hb, hidb⟩
      · rfl
      · exact absurd heq (hnew b hb)
      · exact absurd heq.symm (hnew a ha)
      · exact h.settled a ha b hb (by simp [hida, hna]) (by simp [hidb, hnb]) heq
    bounded := by
      intro q hq
      rcases (mem_renamed hp).mp hq with rfl | ⟨hq, -⟩
      · exact hname
      · exact h.bounded q hq }

/-- The whole loop: it ends, and every player comes out as they should. -/
theorem Remapping.exists_remapAll (h : Remapping l todo players)
    (hfew : players.length + 1 < lastSuffix) : ∃ players', remapAll l todo players = some players' ∧
      Remapping l [] players' ∧ players'.map id = players.map id ∧
      ∀ q ∈ players, ∃ q' ∈ players', Outcome todo q q' := by
  induction todo generalizing players with
  | nil => exact ⟨players, rfl, h, rfl, fun q hq ↦ ⟨q, hq, .inl ⟨by simp, rfl⟩⟩⟩
  | cons p rest ih =>
    have hp : p ∈ players := h.pending p List.mem_cons_self
    obtain ⟨hnotMem, -⟩ := List.nodup_cons.mp h.distinct
    obtain ⟨n, hn, hle, hfree⟩ : ∃ n, 2 ≤ n ∧ n ≤ lastSuffix ∧ nicknameTaken l
        (players.map nickname) (remapCandidate p.nickname n) = false :=
      exists_free (by simpa using hfew)
    obtain ⟨name, hname⟩ := exists_freeCandidate (l := l) hn hle hfree
    obtain ⟨hfree, m, hm, hle, rfl⟩ := of_freeCandidate hname (by decide)
    have hlength := remapCandidate_length p.nickname hle
    obtain ⟨players', hall, hend, hids, houtcome⟩ := ih (h.step hfree hlength)
      (by simpa [renamed, Tables.put] using hfew)
    refine ⟨players', ?_, hend, hids.trans Tables.map_key_put, fun q hq ↦ ?_⟩
    · simp only [remapAll, hname, setNickname_eq h.ids hp hlength, Option.bind_eq_bind,
        Option.bind_some, hall]
    · by_cases hid : q.id = p.id
      · -- the player who is renamed in this round is not renamed again
        obtain rfl := h.ids.eq hq hp hid
        obtain ⟨q', hq', hout⟩ := houtcome { q with nickname := remapCandidate q.nickname m }
          ((mem_renamed hp).mpr (.inl rfl))
        refine ⟨q', hq', .inr ⟨by simp, m, hm, hle, ?_⟩⟩
        rcases hout with ⟨-, rfl⟩ | ⟨hmem, -⟩
        · rfl
        · exact absurd hmem hnotMem
      · obtain ⟨q', hq', hout⟩ := houtcome q
          ((mem_renamed hp).mpr (.inr ⟨hq, hid⟩))
        refine ⟨q', hq', hout.imp (fun hkept ↦ ⟨?_, hkept.2⟩) fun hlater ↦ ⟨?_, hlater.2⟩⟩
        · simpa [hid] using hkept.1
        · exact List.mem_cons_of_mem _ hlater.1

/-! ## The migration -/

/-- Where no two players have the same name there is nothing to do. -/
theorem remap_of_named (h : Named l players) : remap l players = some players := by
  have hnone : duplicates l players = [] := by
    refine List.eq_nil_iff_forall_not_mem.mpr fun p hp ↦ ?_
    obtain ⟨hp, o, ho, heq, hlt⟩ := mem_duplicates.mp hp
    obtain rfl := List.inj_on_of_nodup_map h ho hp heq
    exact not_before_self o hlt
  rw [remap, hnone]
  exact if_pos h

/-- What the migration makes of the table. -/
structure Remapped (l : Lowercase) (players players' : List NamedPlayer) : Prop where
  ids : players'.map id = players.map id
  named : Named l players'
  bounded : Bounded players'
  kept : ∀ p ∈ players, ¬p.Later l players → p ∈ players'
  later : ∀ p ∈ players, p.Later l players → ∃ n, 2 ≤ n ∧ n ≤ lastSuffix ∧
    { p with nickname := remapCandidate p.nickname n } ∈ players'

/-- **The migration does not fail.**  Whatever names there are, with fewer players than there are
suffixes to try the names are unique afterwards, whoever had a name first keeps it, the others have
theirs with a suffix, and running the migration again changes nothing. -/
theorem remap_of_few (l : Lowercase) {players : List NamedPlayer}
    (hids : Tables.Unique id players) (hbounded : Bounded players)
    (hfew : players.length + 1 < lastSuffix) : ∃ players', remap l players = some players' ∧
      Remapped l players players' ∧ remap l players' = some players' := by
  obtain ⟨players', hall, hend, hsame, houtcome⟩ :=
    (remapping_duplicates (l := l) hids hbounded).exists_remapAll hfew
  have hnamed : Named l players' := List.Nodup.map_on
    (fun a ha b hb heq ↦ hend.settled a ha b hb (by simp) (by simp) heq) hend.ids.of_map
  have hmem : ∀ p ∈ players, p.id ∈ (duplicates l players).map id ↔ p.Later l players :=
    fun p hp ↦ by
      refine ⟨fun h ↦ ?_, fun h ↦ List.mem_map_of_mem (mem_duplicates.mpr ⟨hp, h⟩)⟩
      obtain ⟨q, hq, hid⟩ := List.mem_map.mp h
      obtain ⟨hqp, hlater⟩ := mem_duplicates.mp hq
      exact hids.eq hqp hp hid ▸ hlater
  refine ⟨players', ?_, ⟨hsame, hnamed, hend.bounded, fun p hp hnot ↦ ?_, fun p hp hlater ↦ ?_⟩,
    remap_of_named hnamed⟩
  · rw [remap, hall]
    exact if_pos hnamed
  · obtain ⟨p', hp', ⟨-, rfl⟩ | ⟨h, -⟩⟩ := houtcome p hp
    · exact hp'
    · exact absurd ((hmem p hp).mp h) hnot
  · obtain ⟨p', hp', ⟨h, -⟩ | ⟨-, n, hn, hle, rfl⟩⟩ := houtcome p hp
    · exact absurd ((hmem p hp).mpr hlater) h
    · exact ⟨n, hn, hle, hp'⟩

/-- Two players with one name, and a third who has the first candidate for the second of them. -/
def threeNamed : List NamedPlayer :=
  [⟨1, "asha".toList, 10⟩, ⟨2, "Asha".toList, 20⟩, ⟨3, "asha#2".toList, 30⟩]

theorem remap_of_few_threeNamed : ∃ players', remap asciiLowercase threeNamed = some players' ∧
    Named asciiLowercase players' ∧ ⟨1, "asha".toList, 10⟩ ∈ players' ∧
    ⟨3, "asha#2".toList, 30⟩ ∈ players' := by
  obtain ⟨players', hremap, hremapped, -⟩ := remap_of_few asciiLowercase
    (show (threeNamed.map id).Nodup by decide)
    (show ∀ p ∈ threeNamed, 1 ≤ p.nickname.length ∧ p.nickname.length ≤ 32 by decide) (by decide)
  exact ⟨players', hremap, hremapped.named, hremapped.kept _ (by decide) (by decide),
    hremapped.kept _ (by decide) (by decide)⟩

end NamedPlayer

end Neva
