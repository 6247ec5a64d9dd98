import Neva.Earliest
import Neva.Tables
import Neva.Game.Join
import Neva.Game.Postgres
import Neva.Game.Memory

/-!
# Who is matched with whom

What `try_match` is for: of the players who wait, have not gone stale, have another mother tongue
and share a language with the one who asks, the requester gets the one who has waited longest among
those they have never been paired with, and the one who has waited longest of all when they have
been paired with everyone.  `Db.waiting` is the list of these players' queue rows and `Db.Matched`
says that an answer of `try_match` is the pair just described.

The Postgres store always answers so.  The in-memory store walks the same rows in order, but it
passes over a player it has already seen with the requester as soon as *any* other player waits,
where it should ask for one the requester has not been paired with.  When all who wait are old
acquaintances and there are two of them, it passes over every one: `tryMatch_agree` is the exact
condition under which the two stores do the same.
-/

set_option autoImplicit false

namespace Neva

open Tables

/-! ## The players who wait -/

/-- The queue, the players and the pairs are as the stores keep them: keys are unique, whoever
waits is a registered player, and no two wait since the same instant. -/
structure Db.Matchable (db : Db) : Prop where
  queueKeys : Unique QueueRow.playerId db.queue
  times : (db.queue.map QueueRow.enqueuedAt).Nodup
  registered : ∀ q ∈ db.queue, (db.findPlayer q.playerId).isSome
  joined : ∀ p ∈ db.players, p.Joined

namespace Db

variable (db : Db) (cfg : GameFeatureConfig) (now : Time) (me : PlayerRecord)

/-- The player of a queue row, if `me` can be matched with them: someone else, not stale, with
another mother tongue and a language in common. -/
def partner (q : QueueRow) : Option PlayerRecord :=
  (db.findPlayer q.playerId).filter fun other ↦ q.playerId != me.id &&
    decide (now - cfg.matchmakingQueueTtl ≤ q.enqueuedAt) && Memory.compatible me other

/-- The rows of the players `me` can be matched with. -/
def waiting : List QueueRow := db.queue.filter fun q ↦ (db.partner cfg now me q).isSome

/-- `me` has been in a pair with the player who waits. -/
def acquainted (q : QueueRow) : Bool := Memory.previouslyPaired db me.id q.playerId

/-- `answer` is the pair with the player who waits longest among those `me` has not been paired
with, or among all of them, and there is none when nobody waits.  Whoever was enqueued first is
`player_a`. -/
def Matched (pairId : Uuid) (answer : Option PairRecord) : Prop :=
  (db.waiting cfg now me = [] ∧ answer = none) ∨
  ∃ q other lang, Preferred (db.acquainted me) QueueRow.enqueuedAt (db.waiting cfg now me) q ∧
    db.findPlayer q.playerId = some other ∧
    pickCommonLang (Memory.sharedWith me other) cfg.preferredCommonLang = some lang ∧
    answer = some
      { id := pairId
        playerA := if now ≤ q.enqueuedAt then me.id else q.playerId
        playerB := if now ≤ q.enqueuedAt then q.playerId else me.id
        commonLang := lang
        status := .active
        createdAt := now }

variable {db cfg now me}

theorem mem_waiting {q : QueueRow} : q ∈ db.waiting cfg now me ↔ q ∈ db.queue ∧
    q.playerId ≠ me.id ∧ now - cfg.matchmakingQueueTtl ≤ q.enqueuedAt ∧
    ∃ other, db.findPlayer q.playerId = some other ∧ Memory.compatible me other = true := by
  rw [waiting, List.mem_filter, partner]
  cases db.findPlayer q.playerId <;> simp [Option.filter, and_assoc]

theorem Matchable.nodup_waiting (h : db.Matchable) :
    ((db.waiting cfg now me).map QueueRow.enqueuedAt).Nodup :=
  h.times.sublist (List.filter_sublist.map _)

/-! ## The refreshed queue

Both stores first renew the requester's own row and drop the stale ones, which leaves the rows of
those who can be matched as they were. -/

@[simp] theorem refreshQueue_players (me : Uuid) :
    (db.refreshQueue cfg now me).players = db.players := rfl
@[simp] theorem refreshQueue_pairs (me : Uuid) :
    (db.refreshQueue cfg now me).pairs = db.pairs := rfl

@[simp] theorem findPlayer_refreshQueue (me p : Uuid) :
    (db.refreshQueue cfg now me).findPlayer p = db.findPlayer p := rfl

theorem mem_upsertQueue {p : Uuid} {q : QueueRow} :
    q ∈ (db.upsertQueue p now).queue ↔ q = ⟨p, now⟩ ∨ q ∈ db.queue ∧ q.playerId ≠ p := by
  simp only [upsertQueue]
  split
  · rename_i hany
    obtain ⟨r, hr, hrp⟩ : ∃ r ∈ db.queue, r.playerId = p := by simpa using hany
    rw [List.mem_map]
    constructor
    · rintro ⟨x, hx, rfl⟩
      split
      · exact .inl rfl
      · rename_i hne
        exact .inr ⟨hx, hne⟩
    · rintro (rfl | ⟨hq, hne⟩)
      · exact ⟨r, hr, if_pos hrp⟩
      · exact ⟨q, hq, if_neg hne⟩
  · rename_i hany
    have hnone : ∀ r ∈ db.queue, r.playerId ≠ p := by simpa using hany
    rw [List.mem_append, List.mem_singleton, or_comm]
    exact or_congr_right (iff_self_and.mpr fun hq ↦ hnone q hq)

theorem mem_refreshQueue {me : Uuid} {q : QueueRow} : q ∈ (db.refreshQueue cfg now me).queue ↔
    q = ⟨me, now⟩ ∨ q ∈ db.queue ∧ q.playerId ≠ me ∧
      now - cfg.matchmakingQueueTtl ≤ q.enqueuedAt := by
  rw [refreshQueue, List.mem_filter, mem_upsertQueue]
  constructor
  · rintro ⟨rfl | ⟨hq, hne⟩, hkeep⟩
    · exact .inl rfl
    · exact .inr ⟨hq, hne, by simpa [hne] using hkeep⟩
  · rintro (rfl | ⟨hq, hne, hle⟩)
    · exact ⟨.inl rfl, by simp⟩
    · exact ⟨.inr ⟨hq, hne⟩, by simpa [hne] using hle⟩

theorem mem_waiting_refreshQueue {q : QueueRow} :
    q ∈ (db.refreshQueue cfg now me.id).waiting cfg now me ↔ q ∈ db.waiting cfg now me := by
  rw [mem_waiting, mem_waiting, mem_refreshQueue]
  constructor
  · rintro ⟨rfl | ⟨hq, -, -⟩, hne, hrest⟩
    · exact absurd rfl hne
    · exact ⟨hq, hne, hrest⟩
  · rintro ⟨hq, hne, hle, hrest⟩
    exact ⟨.inr ⟨hq, hne, hle⟩, hne, hle, hrest⟩

theorem unique_refreshQueue (h : Unique QueueRow.playerId db.queue) (me : Uuid) :
    Unique QueueRow.playerId (db.refreshQueue cfg now me).queue := by
  refine Unique.filter ?_ _
  simp only [upsertQueue]
  split
  · have hkeys : (db.queue.map fun r ↦ if r.playerId = me then ⟨me, now⟩ else r).map
        QueueRow.playerId = db.queue.map QueueRow.playerId := by
      rw [List.map_map]
      refine List.map_congr_left fun r _ ↦ ?_
      rw [Function.comp_apply]
      split
      · rename_i hr
        exact hr.symm
      · rfl
    rw [Tables.Unique, hkeys]
    exact h
  · rename_i hany
    exact h.append (by simpa using hany)

theorem findQueued_refreshQueue (h : Unique QueueRow.playerId db.queue) (me : Uuid) :
    (db.refreshQueue cfg now me).findQueued me = some ⟨me, now⟩ :=
  (unique_refreshQueue h me).find?_eq_some.mpr ⟨mem_refreshQueue.mpr (.inl rfl), rfl⟩

end Db

/-! ## The two stores on the refreshed queue -/

section

variable {db : Db} {cfg : GameFeatureConfig} {now : Time} {me : PlayerRecord}

theorem Memory.compatible_iff {other : PlayerRecord} : Memory.compatible me other = true ↔
    other.nativeLang ≠ me.nativeLang ∧ Memory.sharedWith me other ≠ [] := by
  rw [Memory.compatible, Bool.and_eq_true, bne_iff_ne, bne_iff_ne]

/-- The `EXISTS` over the partner's stored languages finds one the requester can use exactly when
they share one. -/
theorem Postgres.speakable_any_iff {other : PlayerRecord} (h : other.Joined) :
    (other.commonLangs ++ [other.nativeLang]).any
      (speakableLanguages me.nativeLang me.commonLangs).contains = true ↔
    Memory.sharedWith me other ≠ [] := by
  rw [List.any_eq_true, Memory.sharedWith, sharedLanguages_ne_nil]
  simp only [List.contains_iff_mem, List.mem_append, List.mem_singleton]
  constructor
  · rintro ⟨lang, hlang, hmine⟩
    have hne : lang ≠ [] := (mem_stripDistinct.mp hmine).choose_spec.2.2
    exact ⟨lang, hmine, h.mem_speakableLanguages.mpr ⟨hlang.symm, hne⟩⟩
  · rintro ⟨lang, hmine, htheirs⟩
    exact ⟨lang, (h.mem_speakableLanguages.mp htheirs).1.symm, hmine⟩

theorem Postgres.previouslyPaired_eq {q : QueueRow} (hne : q.playerId ≠ me.id) :
    Postgres.previouslyPaired db me.id q.playerId = db.acquainted me q := by
  rw [Postgres.previouslyPaired, Db.acquainted, Memory.previouslyPaired]
  congr 1
  funext r
  rw [Bool.eq_iff_iff]
  simp only [Bool.or_eq_true, Bool.and_eq_true, beq_iff_eq, PairRecord.hasMember_iff]
  grind

/-- The `candidates` query returns the rows of those who can be matched, each with its player. -/
theorem Postgres.mem_candidates (hjoined : ∀ p ∈ db.players, p.Joined) {c : Postgres.Candidate} :
    c ∈ Postgres.candidates cfg db now me (speakableLanguages me.nativeLang me.commonLangs) ↔
      c.row ∈ db.waiting cfg now me ∧ db.findPlayer c.row.playerId = some c.player ∧
        c.previouslyPaired = db.acquainted me c.row := by
  rw [Postgres.candidates, List.mem_filterMap]
  constructor
  · rintro ⟨q, hq, hc⟩
    cases hp : db.findPlayer q.playerId with
    | none => simp [hp] at hc
    | some p =>
      rw [hp] at hc
      dsimp only at hc
      split at hc
      · rename_i hcond
        obtain ⟨hne, hle, hnative, hany⟩ := hcond
        cases Option.some.inj hc
        have hshared := (Postgres.speakable_any_iff
          (hjoined p (List.mem_of_find?_eq_some hp))).mp hany
        refine ⟨Db.mem_waiting.mpr ⟨hq, hne, hle, p, hp, ?_⟩, hp, ?_⟩
        · exact Memory.compatible_iff.mpr ⟨hnative, hshared⟩
        · rw [Db.findPlayer_id hp]
          exact Postgres.previouslyPaired_eq hne
      · simp at hc
  · rintro ⟨hwait, hp, hprev⟩
    obtain ⟨hq, hne, hle, other, hother, hcomp⟩ := Db.mem_waiting.mp hwait
    cases hp.symm.trans hother
    obtain ⟨hnative, hshared⟩ := Memory.compatible_iff.mp hcomp
    refine ⟨c.row, hq, ?_⟩
    have hany : (c.player.commonLangs ++ [c.player.nativeLang]).any
        (speakableLanguages me.nativeLang me.commonLangs).contains = true :=
      (Postgres.speakable_any_iff (hjoined _ (List.mem_of_find?_eq_some hp))).mpr hshared
    rw [hp]
    dsimp only
    rw [if_pos ⟨hne, hle, hnative, hany⟩, Db.findPlayer_id hp,
      Postgres.previouslyPaired_eq hne, ← hprev]

theorem Postgres.claimPartner_some (hjoined : ∀ p ∈ db.players, p.Joined)
    {c : Postgres.Candidate} (h : Postgres.claimPartner cfg db now me
      (speakableLanguages me.nativeLang me.commonLangs) = some c) :
    Preferred (db.acquainted me) QueueRow.enqueuedAt (db.waiting cfg now me) c.row ∧
      db.findPlayer c.row.playerId = some c.player := by
  have hc := (Postgres.mem_candidates hjoined).mp (List.argmin_mem h)
  refine ⟨(preferred_of_argmin h).image Postgres.Candidate.row (fun q ↦ ?_) (fun c hc ↦ ?_)
    fun _ _ ↦ rfl, hc.2.1⟩
  · constructor
    · intro hq
      obtain ⟨-, -, -, other, hother, -⟩ := Db.mem_waiting.mp hq
      exact ⟨⟨q, other, db.acquainted me q⟩,
        (Postgres.mem_candidates hjoined).mpr ⟨hq, hother, rfl⟩, rfl⟩
    · rintro ⟨c, hc, rfl⟩
      exact ((Postgres.mem_candidates hjoined).mp hc).1
  · exact ((Postgres.mem_candidates hjoined).mp hc).2.2

theorem Postgres.claimPartner_none (hjoined : ∀ p ∈ db.players, p.Joined)
    (h : Postgres.claimPartner cfg db now me
      (speakableLanguages me.nativeLang me.commonLangs) = none) :
    db.waiting cfg now me = [] := by
  rw [Postgres.claimPartner, List.argmin_eq_none] at h
  refine List.eq_nil_iff_forall_not_mem.mpr fun q hq ↦ ?_
  obtain ⟨-, -, -, other, hother, -⟩ := Db.mem_waiting.mp hq
  have : ⟨q, other, db.acquainted me q⟩ ∈ Postgres.candidates cfg db now me
      (speakableLanguages me.nativeLang me.commonLangs) :=
    (Postgres.mem_candidates hjoined).mpr ⟨hq, hother, rfl⟩
  simp [h] at this

theorem Memory.isActivelyQueued_iff (h : Unique QueueRow.playerId db.queue) {q : QueueRow}
    (hq : q ∈ db.queue) : Memory.isActivelyQueued cfg db now q.playerId = true ↔
      now - cfg.matchmakingQueueTtl ≤ q.enqueuedAt := by
  have hfind : db.findQueued q.playerId = some q := h.find?_eq_some.mpr ⟨hq, rfl⟩
  rw [Memory.isActivelyQueued, hfind, decide_eq_true_eq]

theorem Memory.hasAlternate_iff (h : Unique QueueRow.playerId db.queue) {exclude : Uuid} :
    Memory.hasAlternate cfg db now me exclude = true ↔
      ∃ q ∈ db.waiting cfg now me, q.playerId ≠ exclude := by
  rw [Memory.hasAlternate, List.any_eq_true]
  refine exists_congr fun q ↦ ?_
  rw [Db.mem_waiting]
  constructor
  · rintro ⟨hq, htest⟩
    simp only [Bool.and_eq_true, bne_iff_ne] at htest
    obtain ⟨⟨⟨hne, hexclude⟩, hactive⟩, hother⟩ := htest
    refine ⟨⟨hq, hne, (Memory.isActivelyQueued_iff h hq).mp hactive, ?_⟩, hexclude⟩
    cases hp : db.findPlayer q.playerId with
    | none => simp [hp] at hother
    | some other => exact ⟨other, rfl, by simpa [hp] using hother⟩
  · rintro ⟨⟨hq, hne, hle, other, hother, hcomp⟩, hexclude⟩
    refine ⟨hq, ?_⟩
    have hactive : Memory.isActivelyQueued cfg db now q.playerId = true :=
      (Memory.isActivelyQueued_iff h hq).mpr hle
    simp [hne, hexclude, hactive, hother, hcomp]

/-- What the matching loop makes of one row: the partner, unless it passes the row over. -/
def Memory.candidate (cfg : GameFeatureConfig) (db : Db) (now : Time) (me : PlayerRecord)
    (q : QueueRow) : Option (QueueRow × PlayerRecord) :=
  match db.findPlayer q.playerId with
  | none => none
  | some other =>
    if Memory.compatible me other &&
        !(Memory.previouslyPaired db me.id other.id && Memory.hasAlternate cfg db now me other.id)
    then some (q, other) else none

theorem Memory.claimPartner_eq : Memory.claimPartner cfg db now me =
    (Memory.candidates cfg db now me.id).findSome? (Memory.candidate cfg db now me) := rfl

/-- It takes the rows that are not passed over while anyone else waits. -/
theorem Memory.candidate_eq_some (h : Unique QueueRow.playerId db.queue) {q : QueueRow}
    {r : QueueRow × PlayerRecord} (hq : q ∈ db.queue) (hne : q.playerId ≠ me.id)
    (hle : now - cfg.matchmakingQueueTtl ≤ q.enqueuedAt) :
    Memory.candidate cfg db now me q = some r ↔
      q ∈ unspared (db.acquainted me) (db.waiting cfg now me) ∧ q = r.1 ∧
        db.findPlayer q.playerId = some r.2 := by
  have halt : Memory.hasAlternate cfg db now me q.playerId = true ↔
      ∃ z ∈ db.waiting cfg now me, z ≠ q := by
    refine (Memory.hasAlternate_iff h).trans (exists_congr fun z ↦ and_congr_right fun hz ↦ ?_)
    exact not_congr ⟨fun hk ↦ h.eq (Db.mem_waiting.mp hz).1 hq hk, congrArg _⟩
  have hspared : q ∈ unspared (db.acquainted me) (db.waiting cfg now me) ↔
      q ∈ db.waiting cfg now me ∧ ¬ (db.acquainted me q = true ∧
        Memory.hasAlternate cfg db now me q.playerId = true) := by
    rw [mem_unspared, halt]
    push Not
    rfl
  rw [hspared, Db.mem_waiting, Memory.candidate]
  cases hp : db.findPlayer q.playerId with
  | none => simp
  | some other =>
    have hprev : Memory.previouslyPaired db me.id other.id = db.acquainted me q := by
      rw [Db.findPlayer_id hp, Db.acquainted]
    dsimp only
    rw [hprev, Db.findPlayer_id hp]
    simp [hq, hne, hle, Prod.ext_iff]
    grind

theorem Memory.mem_candidates (h : Unique QueueRow.playerId db.queue) {p : Uuid} {q : QueueRow} :
    (q ∈ db.queue.filter fun q ↦ q.playerId != p &&
      Memory.isActivelyQueued cfg db now q.playerId) ↔
    q ∈ db.queue ∧ q.playerId ≠ p ∧ now - cfg.matchmakingQueueTtl ≤ q.enqueuedAt := by
  rw [List.mem_filter, Bool.and_eq_true, bne_iff_ne]
  exact and_congr_right fun hq ↦ and_congr_right fun _ ↦ Memory.isActivelyQueued_iff h hq

theorem Memory.mem_of_waiting {q : QueueRow} (hq : q ∈ db.waiting cfg now me) : q ∈ db.queue ∧
    q.playerId ≠ me.id ∧ now - cfg.matchmakingQueueTtl ≤ q.enqueuedAt :=
  ⟨(Db.mem_waiting.mp hq).1, (Db.mem_waiting.mp hq).2.1, (Db.mem_waiting.mp hq).2.2.1⟩

theorem Memory.claimPartner_some (h : Unique QueueRow.playerId db.queue)
    {r : QueueRow × PlayerRecord} (hr : Memory.claimPartner cfg db now me = some r) :
    Preferred (db.acquainted me) QueueRow.enqueuedAt (db.waiting cfg now me) r.1 ∧
      db.findPlayer r.1.playerId = some r.2 := by
  rw [Memory.claimPartner_eq, Memory.candidates] at hr
  obtain ⟨q, hq, hqr⟩ := earliest_of_findSome? hr
  obtain ⟨hmem, hne, hle⟩ := (Memory.mem_candidates h).mp (List.mem_filter.mp hq.mem).1
  obtain ⟨-, rfl, hfind⟩ := (Memory.candidate_eq_some h hmem hne hle).mp hqr
  refine ⟨preferred_of_unspared (hq.congr fun y ↦ ?_), hfind⟩
  rw [List.mem_filter, Memory.mem_candidates h, Option.isSome_iff_exists]
  constructor
  · rintro ⟨⟨hy, hne, hle⟩, r, hr⟩
    exact ((Memory.candidate_eq_some h hy hne hle).mp hr).1
  · intro hy
    obtain ⟨hmem, hne, hle⟩ := Memory.mem_of_waiting (mem_unspared.mp hy).1
    obtain ⟨-, -, -, other, hother, -⟩ := Db.mem_waiting.mp (mem_unspared.mp hy).1
    exact ⟨⟨hmem, hne, hle⟩, ⟨y, other⟩,
      (Memory.candidate_eq_some h hmem hne hle).mpr ⟨hy, rfl, hother⟩⟩

theorem Memory.claimPartner_eq_none (h : Unique QueueRow.playerId db.queue) :
    Memory.claimPartner cfg db now me = none ↔
      unspared (db.acquainted me) (db.waiting cfg now me) = [] := by
  rw [Memory.claimPartner_eq, Memory.candidates, findSome?_insertionSort_eq_none,
    List.eq_nil_iff_forall_not_mem]
  refine forall_congr' fun q ↦ ?_
  rw [Memory.mem_candidates h]
  constructor
  · intro hnone hq
    obtain ⟨hmem, hne, hle⟩ := Memory.mem_of_waiting (mem_unspared.mp hq).1
    obtain ⟨-, -, -, other, hother, -⟩ := Db.mem_waiting.mp (mem_unspared.mp hq).1
    have := (Memory.candidate_eq_some (r := ⟨q, other⟩) h hmem hne hle).mpr ⟨hq, rfl, hother⟩
    simp [hnone ⟨hmem, hne, hle⟩] at this
  · rintro hq ⟨hmem, hne, hle⟩
    refine Option.eq_none_iff_forall_ne_some.mpr fun r hr ↦ ?_
    exact hq ((Memory.candidate_eq_some h hmem hne hle).mp hr).1

end

/-! ## What `try_match` answers -/

section

variable {db : Db} {cfg : GameFeatureConfig} {d : Draw} {me : Uuid} {player : PlayerRecord}

/-- Whoever can be matched shares a language with the requester, so one is picked. -/
theorem exists_lang {now : Time} {q : QueueRow} {other : PlayerRecord}
    (hq : q ∈ db.waiting cfg now player) (hother : db.findPlayer q.playerId = some other) :
    ∃ lang, pickCommonLang (Memory.sharedWith player other) cfg.preferredCommonLang =
      some lang := by
  obtain ⟨-, -, -, other', hother', hcomp⟩ := Db.mem_waiting.mp hq
  cases hother.symm.trans hother'
  exact Option.isSome_iff_exists.mp
    (pickCommonLang_isSome _ (Memory.compatible_iff.mp hcomp).2)

theorem Db.insertPair_fst (h : db.findQueued me = some ⟨me, d.now⟩) {q : QueueRow} {l : Text} :
    (db.insertPair d me q l).1 =
      { id := d.uuid
        playerA := if d.now ≤ q.enqueuedAt then me else q.playerId
        playerB := if d.now ≤ q.enqueuedAt then q.playerId else me
        commonLang := l
        status := .active
        createdAt := d.now } := by
  have hfirst : db.enqueuedFirst me q = decide (d.now ≤ q.enqueuedAt) := by
    rw [Db.enqueuedFirst, h]
  by_cases hle : d.now ≤ q.enqueuedAt <;> simp [Db.insertPair, hfirst, hle]

/-- What either store answers and leaves behind once it has claimed the row `q`, or none. -/
def Db.claimed (db : Db) (cfg : GameFeatureConfig) (d : Draw) (player : PlayerRecord) :
    Option (QueueRow × PlayerRecord) → Except Failure (Option PairRecord) × Db
  | none => (.ok none, db)
  | some (q, other) =>
    match pickCommonLang (Memory.sharedWith player other) cfg.preferredCommonLang with
    | none => (.ok none, db)
    | some lang => (.ok (some (db.insertPair d player.id q lang).1),
        (db.insertPair d player.id q lang).2)

theorem Memory.tryMatch_eq (hfree : db.activePair me = none)
    (hplayer : db.findPlayer me = some player)
    (hkeys : Unique QueueRow.playerId db.queue) :
    Memory.tryMatch cfg db d me = (db.refreshQueue cfg d.now me).claimed cfg d player
      (Memory.claimPartner cfg (db.refreshQueue cfg d.now me) d.now player) := by
  cases Db.findPlayer_id hplayer
  rw [Memory.tryMatch, hfree, hplayer]
  dsimp only
  cases hclaim : Memory.claimPartner cfg (db.refreshQueue cfg d.now player.id) d.now player with
  | none => rfl
  | some r =>
    obtain ⟨hpref, hfind⟩ := Memory.claimPartner_some (Db.unique_refreshQueue hkeys _) hclaim
    obtain ⟨lang, hlang⟩ := exists_lang hpref.mem hfind
    simp [Db.claimed, hlang]

theorem Postgres.tryMatch_eq (hfree : db.activePair me = none)
    (hplayer : db.findPlayer me = some player) :
    Postgres.tryMatch cfg db d me = (db.refreshQueue cfg d.now me).claimed cfg d player
      ((Postgres.claimPartner cfg (db.refreshQueue cfg d.now me) d.now player
        (speakableLanguages player.nativeLang player.commonLangs)).map
          fun c ↦ (c.row, c.player)) := by
  cases Db.findPlayer_id hplayer
  rw [Postgres.tryMatch, hfree, hplayer]
  simp only [speakableLanguages_normalizeCommonLangs]
  cases Postgres.claimPartner cfg (db.refreshQueue cfg d.now player.id) d.now player
      (speakableLanguages player.nativeLang player.commonLangs) with
  | none => rfl
  | some c => rfl

/-- The row a store claims, once for each store, makes the pair the matching is for. -/
theorem Db.matched_of_claimed (hdb : db.Matchable) (hplayer : db.findPlayer me = some player)
    {claim : Option (QueueRow × PlayerRecord)}
    (hnone : claim = none → db.waiting cfg d.now player = [])
    (hsome : ∀ r, claim = some r →
      Preferred (db.acquainted player) QueueRow.enqueuedAt (db.waiting cfg d.now player) r.1 ∧
        db.findPlayer r.1.playerId = some r.2) :
    ∃ answer, ((db.refreshQueue cfg d.now me).claimed cfg d player claim).1 = .ok answer ∧
      db.Matched cfg d.now player d.uuid answer := by
  cases Db.findPlayer_id hplayer
  cases claim with
  | none => exact ⟨none, rfl, .inl ⟨hnone rfl, rfl⟩⟩
  | some r =>
    obtain ⟨q, other⟩ := r
    obtain ⟨hpref, hfind⟩ := hsome _ rfl
    obtain ⟨lang, hlang⟩ := exists_lang hpref.mem hfind
    have hqueued : (db.refreshQueue cfg d.now player.id).findQueued player.id =
        some ⟨player.id, d.now⟩ := findQueued_refreshQueue hdb.queueKeys player.id
    have hpair := Db.insertPair_fst hqueued (q := q) (l := lang)
    refine ⟨_, ?_, .inr ⟨q, other, lang, hpref, hfind, hlang, rfl⟩⟩
    rw [← hpair]
    simp [Db.claimed, hlang]

end

/-! ## The two stores side by side -/

/-- There is someone new to match `me` with, or at most one player to match them with. -/
def Db.HasChoice (db : Db) (cfg : GameFeatureConfig) (now : Time) (me : PlayerRecord) : Prop :=
  (∃ q ∈ db.waiting cfg now me, db.acquainted me q = false) ∨
    (db.waiting cfg now me).length ≤ 1

section

variable {db : Db} {cfg : GameFeatureConfig} {d : Draw} {me : Uuid} {player : PlayerRecord}

/-- Refreshing the queue keeps what the matching looks at. -/
theorem Db.preferred_refreshQueue {now : Time} {q : QueueRow}
    (h : Preferred ((db.refreshQueue cfg now player.id).acquainted player) QueueRow.enqueuedAt
      ((db.refreshQueue cfg now player.id).waiting cfg now player) q) :
    Preferred (db.acquainted player) QueueRow.enqueuedAt (db.waiting cfg now player) q :=
  h.congr fun _ ↦ mem_waiting_refreshQueue

/-- The in-memory store finds nobody when nobody can be matched, and when several can but the
requester knows all of them. -/
theorem Memory.claimPartner_refreshQueue_eq_none {now : Time} (hdb : db.Matchable) :
    Memory.claimPartner cfg (db.refreshQueue cfg now player.id) now player = none ↔
      db.waiting cfg now player = [] ∨ ¬ db.HasChoice cfg now player := by
  have hkeys : Unique QueueRow.playerId (db.refreshQueue cfg now player.id).queue :=
    Db.unique_refreshQueue hdb.queueKeys player.id
  have hnodup : ((db.refreshQueue cfg now player.id).waiting cfg now player).Nodup :=
    (Unique.filter hkeys _).of_map
  have hperm := (List.perm_ext_iff_of_nodup hnodup hdb.nodup_waiting.of_map).mpr
    fun _ ↦ Db.mem_waiting_refreshQueue
  have hall : (∀ q ∈ (db.refreshQueue cfg now player.id).waiting cfg now player,
      (db.refreshQueue cfg now player.id).acquainted player q = true) ↔
      ∀ q ∈ db.waiting cfg now player, db.acquainted player q = true :=
    forall_congr' fun q ↦ imp_congr_left Db.mem_waiting_refreshQueue
  have hnil : (db.refreshQueue cfg now player.id).waiting cfg now player = [] ↔
      db.waiting cfg now player = [] := by
    rw [← List.length_eq_zero_iff, hperm.length_eq, List.length_eq_zero_iff]
  rw [Memory.claimPartner_eq_none hkeys, unspared_eq_nil hnodup, hperm.length_eq, hall, hnil,
    Db.HasChoice]
  simp

theorem Postgres.claimPartner_refreshQueue_none {now : Time} (hdb : db.Matchable)
    (h : Postgres.claimPartner cfg (db.refreshQueue cfg now player.id) now player
      (speakableLanguages player.nativeLang player.commonLangs) = none) :
    db.waiting cfg now player = [] := by
  have hjoined : ∀ p ∈ (db.refreshQueue cfg now player.id).players, p.Joined := hdb.joined
  refine List.eq_nil_iff_forall_not_mem.mpr fun q hq ↦ ?_
  simpa [Postgres.claimPartner_none hjoined h] using Db.mem_waiting_refreshQueue.mpr hq

theorem Postgres.claimPartner_refreshQueue_some {now : Time} (hdb : db.Matchable)
    {c : Postgres.Candidate}
    (h : Postgres.claimPartner cfg (db.refreshQueue cfg now player.id) now player
      (speakableLanguages player.nativeLang player.commonLangs) = some c) :
    Preferred (db.acquainted player) QueueRow.enqueuedAt (db.waiting cfg now player) c.row ∧
      db.findPlayer c.row.playerId = some c.player := by
  have hjoined : ∀ p ∈ (db.refreshQueue cfg now player.id).players, p.Joined := hdb.joined
  obtain ⟨hpref, hfind⟩ := Postgres.claimPartner_some hjoined h
  exact ⟨Db.preferred_refreshQueue hpref, hfind⟩

/-- A claimed row is a pair, so it is not what a store answers that claims none. -/
theorem Db.claimed_ne_none {now : Time} {db' : Db} {q : QueueRow} {other : PlayerRecord}
    (hq : q ∈ db.waiting cfg now player) (hother : db.findPlayer q.playerId = some other) :
    db'.claimed cfg d player none ≠ db'.claimed cfg d player (some (q, other)) := by
  obtain ⟨lang, hlang⟩ := exists_lang hq hother
  simp [Db.claimed, hlang]

/-- **The stores match alike while there is someone new, or no choice.**  The Postgres store
always makes the pair it should.  The in-memory store does the same as it — the same answer, and
the same tables afterwards — if and only if some player who can be matched has not been paired
with the requester, or no two players can be matched. -/
theorem tryMatch_agree (cfg : GameFeatureConfig) (d : Draw) (hdb : db.Matchable)
    (hplayer : db.findPlayer me = some player) (hfree : db.activePair me = none) :
    (∃ answer, (Postgres.tryMatch cfg db d me).1 = .ok answer ∧
      db.Matched cfg d.now player d.uuid answer) ∧
    (Memory.tryMatch cfg db d me = Postgres.tryMatch cfg db d me ↔
      db.HasChoice cfg d.now player) := by
  rw [Postgres.tryMatch_eq hfree hplayer, Memory.tryMatch_eq hfree hplayer hdb.queueKeys]
  cases Db.findPlayer_id hplayer
  have hmemory : Memory.claimPartner cfg (db.refreshQueue cfg d.now player.id) d.now player = none ↔
      db.waiting cfg d.now player = [] ∨ ¬ db.HasChoice cfg d.now player :=
    Memory.claimPartner_refreshQueue_eq_none hdb
  constructor
  · refine Db.matched_of_claimed hdb hplayer (fun hnone ↦ ?_) fun r hr ↦ ?_
    · exact Postgres.claimPartner_refreshQueue_none hdb (Option.map_eq_none_iff.mp hnone)
    · obtain ⟨c, hc, rfl⟩ := Option.map_eq_some_iff.mp hr
      exact Postgres.claimPartner_refreshQueue_some hdb hc
  · cases hpostgres : Postgres.claimPartner cfg (db.refreshQueue cfg d.now player.id) d.now player
        (speakableLanguages player.nativeLang player.commonLangs) with
    | none =>
      have hnil := Postgres.claimPartner_refreshQueue_none hdb hpostgres
      rw [hmemory.mpr (.inl hnil)]
      exact iff_of_true rfl (.inr (by simp [hnil]))
    | some c =>
      obtain ⟨hpref, hfind⟩ := Postgres.claimPartner_refreshQueue_some hdb hpostgres
      cases hclaim :
          Memory.claimPartner cfg (db.refreshQueue cfg d.now player.id) d.now player with
      | none =>
        have hno : ¬ db.HasChoice cfg d.now player :=
          (hmemory.mp hclaim).resolve_left (List.ne_nil_of_mem hpref.mem)
        exact iff_of_false (Db.claimed_ne_none hpref.mem hfind) hno
      | some r =>
        have hkeys : Unique QueueRow.playerId (db.refreshQueue cfg d.now player.id).queue :=
          Db.unique_refreshQueue hdb.queueKeys player.id
        obtain ⟨hpref', hfind'⟩ := Memory.claimPartner_some hkeys hclaim
        have hrow : r.1 = c.row :=
          Preferred.eq hdb.nodup_waiting (Db.preferred_refreshQueue hpref') hpref
        have hsame : r = (c.row, c.player) := by
          refine Prod.ext hrow ?_
          rw [Db.findPlayer_refreshQueue, hrow, hfind] at hfind'
          exact (Option.some.inj hfind').symm
        have hyes : db.HasChoice cfg d.now player := by
          by_contra hno
          simp [hmemory.mpr (.inr hno)] at hclaim
        rw [hsame]
        exact iff_of_true rfl hyes

end

/-! ## Two old acquaintances -/

/-- Three players who share English, the first of whom has played with both of the others. -/
def oldAcquaintances : Db where
  players := [⟨1, ['a'], ['h', 'i'], [['e', 'n']]⟩, ⟨2, ['b'], ['t', 'a'], [['e', 'n']]⟩,
    ⟨3, ['c'], ['t', 'e'], [['e', 'n']]⟩]
  queue := [⟨2, 10⟩, ⟨3, 20⟩]
  pairs := [⟨4, 1, 2, ['e', 'n'], .completed, 1⟩, ⟨5, 1, 3, ['e', 'n'], .completed, 2⟩]
  decks := []
  cards := []
  turns := []
  jobs := []
  fingerprints := []

/-- The same players before the first two have met. -/
def oneNewcomer : Db :=
  { oldAcquaintances with pairs := [⟨5, 1, 3, ['e', 'n'], .completed, 2⟩] }

theorem oldAcquaintances_matchable : oldAcquaintances.Matchable where
  queueKeys := show [2, 3].Nodup by decide
  times := by decide
  registered := by decide
  joined := by
    simp only [oldAcquaintances, List.forall_mem_cons]
    exact ⟨⟨⟨['a'], ['h', 'i'], [['e', 'n']]⟩, 1, ['a'], ⟨by decide, by decide, by decide⟩, rfl⟩,
      ⟨⟨['b'], ['t', 'a'], [['e', 'n']]⟩, 2, ['b'], ⟨by decide, by decide, by decide⟩, rfl⟩,
      ⟨⟨['c'], ['t', 'e'], [['e', 'n']]⟩, 3, ['c'], ⟨by decide, by decide, by decide⟩, rfl⟩,
      by simp⟩

/-- Both stores match the first player with the one they have not met. -/
theorem tryMatch_agree_newcomer :
    Memory.tryMatch {} oneNewcomer ⟨30, 6, 7, 0, false, false⟩ 1 =
      Postgres.tryMatch {} oneNewcomer ⟨30, 6, 7, 0, false, false⟩ 1 := by
  have hdb : oneNewcomer.Matchable := ⟨oldAcquaintances_matchable.queueKeys,
    oldAcquaintances_matchable.times, oldAcquaintances_matchable.registered,
    oldAcquaintances_matchable.joined⟩
  have hplayer : oneNewcomer.findPlayer 1 = some ⟨1, ['a'], ['h', 'i'], [['e', 'n']]⟩ := rfl
  refine (tryMatch_agree {} ⟨30, 6, 7, 0, false, false⟩ hdb hplayer rfl).2.mpr ?_
  exact .inl ⟨⟨2, 10⟩, by decide, by decide⟩

/-- **Among old acquaintances only one of the stores finds a partner.**  The Postgres store pairs
the first player with the one who has waited longer; the in-memory store leaves all three
waiting. -/
theorem tryMatch_disagree : oldAcquaintances.Matchable ∧
    oldAcquaintances.activePair 1 = none ∧
    (Memory.tryMatch {} oldAcquaintances ⟨30, 6, 7, 0, false, false⟩ 1).1 = .ok none ∧
    (Postgres.tryMatch {} oldAcquaintances ⟨30, 6, 7, 0, false, false⟩ 1).1 =
      .ok (some ⟨6, 2, 1, ['e', 'n'], .active, 30⟩) :=
  ⟨oldAcquaintances_matchable, rfl, by decide, by decide⟩

end Neva
