import Neva.Cliques
import Neva.Worker.Duplicates

/-!
# Triaging a turn again

A triage job that is retried, or recovered after its claim went stale, stores the result of the same
turn once more, with the same fingerprint.  `Db.Steady` is when this leaves the verdict as it was:
a turn that was kept must have no rival, and one that was not must still have one, or be kept out of
the table.

`Db.Group` is a largest set of recordings of a speaker that all match each other.  Matching is not
transitive, and a recording that matches a duplicate only is a duplicate too; so a group may be left
without a recording that is kept by the first triage of a turn as well as by a repeated one.
`Db.Sheltered` is when a triage leaves no group so (`retriage_verdict`).  `retriageFlips` is what
happens otherwise, to two recordings of the same utterance.
-/

set_option autoImplicit false

namespace Neva

open Cliques Tables

variable {limits : GauntletLimits}

/-! ## The verdict on a turn -/

/-- Triaging the turn again with the fingerprint will not change the verdict. -/
def Db.Steady (limits : GauntletLimits) (db : Db) (t : TurnRecord) (fp : AcousticFingerprint) :
    Prop :=
  ∀ q, t.quality = some q → (q.duplicate = false → ¬db.Rivalled limits t fp) ∧
    (q.duplicate = true → db.Free t fp → db.Rivalled limits t fp)

/-- The duplicate flag of the turn and its row in the table of fingerprints are as they were. -/
def VerdictKept (db db' : Db) (t : TurnRecord) (q : Quality) : Prop :=
  (∃ t' ∈ db'.turns, t'.id = t.id ∧ ∃ q', t'.quality = some q' ∧ q'.duplicate = q.duplicate) ∧
    ∀ r : FingerprintRow, r.turnId = t.id → (r ∈ db'.fingerprints ↔ r ∈ db.fingerprints)

namespace Repository.Persisted

variable {db db' : Db} {t : TurnRecord} {fp : AcousticFingerprint} {flacPath : AudioPath}
  {quality : Quality} {owned : Bool}

/-- The verdict is kept when the turn owns its fingerprint now if and only if it did before. -/
theorem verdictKept_iff (h : Persisted limits db t fp flacPath quality owned db') (hl : db.Ledger)
    (ht : t ∈ db.turns) {q : Quality} (hq : t.quality = some q) (hs : q.Stores fp) :
    VerdictKept db db' t q ↔ (owned = true ↔ q.duplicate = false) := by
  have hkept : q.duplicate = false ↔ t.ownRow fp ∈ db.fingerprints := by
    rw [hl.kept t ht q hq, hs.1]
    rfl
  constructor
  · rintro ⟨-, hrows⟩
    rw [hkept, ← h.mem_ownRow]
    exact hrows _ rfl
  · intro hsame
    refine ⟨⟨_, (h.mem_turns ht).mpr (.inl rfl), rfl, _, rfl, ?_⟩, fun r _ ↦ ?_⟩
    · rw [Quality.settled, Bool.eq_iff_iff, Bool.not_eq_true']
      rw [← Bool.not_eq_true, hsame, Bool.not_eq_false]
    · by_cases hr : r = t.ownRow fp
      · rw [hr, h.mem_ownRow, hsame, hkept]
      · exact h.mem_rows_of_ne hr

end Repository.Persisted

/-- **When a triage that is repeated leaves the verdict as it was.** -/
theorem verdictKept_iff_steady {db : Db} (hl : db.Ledger) {t : TurnRecord} (ht : t ∈ db.turns)
    {q : Quality} {fp : AcousticFingerprint} (hq : t.quality = some q) (hs : q.Stores fp) (d : Draw)
    (flacPath : AudioPath) (quality : Quality) :
    VerdictKept db (Repository.persistTriage limits db d t.id flacPath quality
      (some (t.speakerId, fp))).2 t q ↔ db.Steady limits t fp := by
  obtain ⟨owned, hp⟩ := @Repository.persistTriage_spec limits db t fp hl ht d flacPath quality
  rw [hp.verdictKept_iff hl ht hq hs, hp.verdict]
  have hkept : q.duplicate = false ↔ t.ownRow fp ∈ db.fingerprints := by
    rw [hl.kept t ht q hq, hs.1]
    rfl
  have hsteady : db.Steady limits t fp ↔ (q.duplicate = false → ¬db.Rivalled limits t fp) ∧
      (q.duplicate = true → db.Free t fp → db.Rivalled limits t fp) := by
    refine ⟨fun h ↦ h q hq, fun h q' hq' ↦ ?_⟩
    rw [hq] at hq'
    cases hq'
    exact h
  rw [hsteady]
  cases hd : q.duplicate with
  | false =>
    have hrow := hkept.mp hd
    exact ⟨fun h ↦ ⟨fun _ ↦ (h.mpr rfl).2, nofun⟩,
      fun h ↦ ⟨fun _ ↦ rfl, fun _ ↦ ⟨.inl hrow, h.1 rfl⟩⟩⟩
  | true =>
    have hrow : t.ownRow fp ∉ db.fingerprints := fun hmem ↦ by
      rw [hkept.mpr hmem] at hd
      cases hd
    constructor
    · refine fun h ↦ ⟨nofun, fun _ hfree ↦ ?_⟩
      by_contra hnone
      exact absurd (h.mp ⟨.inr hfree, hnone⟩) nofun
    · refine fun h ↦ ⟨fun hown ↦ ?_, nofun⟩
      exact absurd (h.2 rfl (hown.1.resolve_left hrow)) hown.2

/-! ## Groups of recordings -/

namespace Db

variable (limits : GauntletLimits) (db : Db)

/-- Something is stored for a turn, of which `p` holds. -/
def Storing (p : Uuid → Uuid → Quality → Prop) : Prop :=
  ∃ t ∈ db.turns, ∃ q, t.quality = some q ∧ p t.id t.speakerId q

/-- The turns of a speaker that have been triaged. -/
def triagedOf (speakerId : Uuid) : Set Uuid :=
  {turnId | db.Storing fun id speaker _ ↦ id = turnId ∧ speaker = speakerId}

/-- What is stored for the turn matches the fingerprint. -/
def Matches (fp : AcousticFingerprint) (turnId : Uuid) : Prop :=
  db.Storing fun id _ q ↦ id = turnId ∧
    ∃ fp', q.Stores fp' ∧ Repository.matching limits fp' fp = true

/-- What is stored for two turns matches. -/
def Alike (a b : Uuid) : Prop :=
  db.Storing fun id _ q ↦ id = b ∧ ∃ fp, q.Stores fp ∧ db.Matches limits fp a

/-- A group of mutually matching recordings of a speaker, with all that match the whole of it. -/
def Group (speakerId : Uuid) (G : Set Uuid) : Prop :=
  G.Nonempty ∧ MaxClique (db.Alike limits) (db.triagedOf speakerId) G

/-- One of the turns is kept. -/
def KeepsOne (G : Set Uuid) : Prop := db.Storing fun id _ q ↦ id ∈ G ∧ q.duplicate = false

/-- Each group keeps a recording. -/
def KeepsAll : Prop := ∀ speakerId G, db.Group limits speakerId G → db.KeepsOne G

/-- The hash is the turn's own or nobody's, and no other turn stores anything that matches. -/
def Claims (t : TurnRecord) (fp : AcousticFingerprint) : Prop :=
  (t.ownRow fp ∈ db.fingerprints ∨ db.Free t fp) ∧ ¬db.Rivalled limits t fp

/-- The other triaged turns of the speaker. -/
def others (t : TurnRecord) : Set Uuid := db.triagedOf t.speakerId \ {t.id}

/-- Triaging the turn with the fingerprint leaves no group without a recording that is kept: the
turn can claim the fingerprint, or each group it comes into has such a recording; and so has each
group it has been in and, with another fingerprint than it has stored, does not match any more. -/
structure Sheltered (t : TurnRecord) (fp : AcousticFingerprint) : Prop where
  joins : db.Claims limits t fp ∨
    ∀ G, MaxCliqueIn (db.Alike limits) (db.others t) (db.Matches limits fp) G → db.KeepsOne G
  leaves : ∀ G : Set Uuid, G.Nonempty → MaxClique (db.Alike limits) (db.others t) G →
    (∀ a ∈ G, db.Alike limits a t.id) → (∃ a ∈ G, ¬db.Matches limits fp a) → db.KeepsOne G

variable {limits db}

theorem Alike.symm {a b : Uuid} (h : db.Alike limits a b) : db.Alike limits b a := by
  obtain ⟨t, ht, q, hq, hb, fp, hst, u, hu, q', hq', ha, fp', hst', hm⟩ := h
  exact ⟨u, hu, q', hq', ha, fp', hst', t, ht, q, hq, hb, fp, hst,
    (Repository.matching_comm ..).trans hm⟩

theorem mem_triagedOf {speakerId turnId : Uuid} : turnId ∈ db.triagedOf speakerId ↔
    db.Storing fun id speaker _ ↦ id = turnId ∧ speaker = speakerId := Iff.rfl

theorem not_mem_others (t : TurnRecord) : t.id ∉ db.others t := fun h ↦ h.2 rfl

end Db

namespace Repository.Persisted

variable {db db' : Db} {t : TurnRecord} {fp : AcousticFingerprint} {flacPath : AudioPath}
  {quality : Quality} {owned : Bool} {a b : Uuid} {G : Set Uuid}

/-! ### What a triage changes -/

/-- What is stored afterwards: the new quality of the turn, and what was stored for the others. -/
theorem storing_iff (h : Persisted limits db t fp flacPath quality owned db') (ht : t ∈ db.turns)
    {p : Uuid → Uuid → Quality → Prop} : db'.Storing p ↔
      p t.id t.speakerId (quality.settled owned fp) ∨
        db.Storing fun id speaker q ↦ id ≠ t.id ∧ p id speaker q := by
  constructor
  · rintro ⟨x, hx, q, hq, hp⟩
    rcases (h.mem_turns ht).mp hx with rfl | ⟨hx, hne⟩
    · cases hq
      exact .inl hp
    · exact .inr ⟨x, hx, q, hq, hne, hp⟩
  · rintro (hp | ⟨x, hx, q, hq, hne, hp⟩)
    · exact ⟨_, (h.mem_turns ht).mpr (.inl rfl), _, rfl, hp⟩
    · exact ⟨x, (h.mem_turns ht).mpr (.inr ⟨hx, hne⟩), q, hq, hp⟩

/-- What does not hold of the turn that is triaged, with either quality, is as it was. -/
theorem storing_of_not (h : Persisted limits db t fp flacPath quality owned db')
    (ht : t ∈ db.turns) {p : Uuid → Uuid → Quality → Prop} (hp : ∀ s q, ¬p t.id s q) :
    db'.Storing p ↔ db.Storing p := by
  rw [h.storing_iff ht, or_iff_right (hp _ _)]
  refine exists_congr fun x ↦ and_congr_right fun _ ↦ exists_congr fun q ↦
    and_congr_right fun _ ↦ and_iff_right_of_imp fun hx hid ↦ hp x.speakerId q ?_
  rwa [← hid]

theorem triagedOf_eq (h : Persisted limits db t fp flacPath quality owned db')
    (ht : t ∈ db.turns) : db'.triagedOf t.speakerId = insert t.id (db.others t) := by
  ext turnId
  have hothers : (db.Storing fun id s _ ↦ id ≠ t.id ∧ id = turnId ∧ s = t.speakerId) ↔
      turnId ∈ db.others t := by
    constructor
    · rintro ⟨x, hx, q, hq, hne, rfl, hs⟩
      exact ⟨⟨x, hx, q, hq, rfl, hs⟩, hne⟩
    · rintro ⟨⟨x, hx, q, hq, rfl, hs⟩, hne⟩
      exact ⟨x, hx, q, hq, hne, rfl, hs⟩
  refine Db.mem_triagedOf.trans ((h.storing_iff ht).trans (or_congr ?_ hothers))
  exact (and_iff_left rfl).trans eq_comm

theorem triagedOf_of_ne (h : Persisted limits db t fp flacPath quality owned db') (hl : db.Ledger)
    (ht : t ∈ db.turns) {speakerId : Uuid} (hne : speakerId ≠ t.speakerId) :
    db'.triagedOf speakerId = db.triagedOf speakerId := by
  ext turnId
  have hnot : ¬(t.id = turnId ∧ t.speakerId = speakerId) := fun hp ↦ hne hp.2.symm
  refine Db.mem_triagedOf.trans ((h.storing_iff ht).trans ((or_iff_right hnot).trans ?_))
  refine exists_congr fun x ↦ and_congr_right fun hx ↦ exists_congr fun q ↦
    and_congr_right fun _ ↦ and_iff_right_of_imp fun hp hid ↦ hne ?_
  rw [← hp.2, hl.ids.eq hx ht hid]

theorem matches_of_ne (h : Persisted limits db t fp flacPath quality owned db')
    (ht : t ∈ db.turns) {fp' : AcousticFingerprint} (ha : a ≠ t.id) :
    db'.Matches limits fp' a ↔ db.Matches limits fp' a :=
  h.storing_of_not ht fun _ _ hp ↦ ha hp.1.symm

theorem alike_of_ne (h : Persisted limits db t fp flacPath quality owned db')
    (ht : t ∈ db.turns) (ha : a ≠ t.id) (hb : b ≠ t.id) :
    db'.Alike limits a b ↔ db.Alike limits a b := by
  rw [Db.Alike, h.storing_of_not ht fun _ _ hp ↦ hb hp.1.symm]
  simp only [h.matches_of_ne ht ha]
  rfl

/-- Only the fingerprint it has been triaged with is stored for the turn. -/
theorem alike_self (h : Persisted limits db t fp flacPath quality owned db')
    (ht : t ∈ db.turns) (ha : a ≠ t.id) :
    db'.Alike limits a t.id ↔ db.Matches limits fp a := by
  have hnone : ¬db.Storing fun id _ q ↦ id ≠ t.id ∧ id = t.id ∧
      ∃ fp, q.Stores fp ∧ db'.Matches limits fp a := fun ⟨_, _, _, _, hne, hid, _⟩ ↦ hne hid
  rw [Db.Alike, h.storing_iff ht, or_iff_left hnone, and_iff_right rfl]
  simp only [h.matches_of_ne ht ha]
  constructor
  · rintro ⟨fp', hst, u, hu, q, hq, hid, fp'', hst', hm⟩
    refine ⟨u, hu, q, hq, hid, fp'', hst', ?_⟩
    rw [matching_comm, (quality.stores_settled owned fp).matching_eq hst, matching_comm]
    exact hm
  · exact fun hm ↦ ⟨fp, quality.stores_settled owned fp, hm⟩

theorem keepsOne_of_not_mem (h : Persisted limits db t fp flacPath quality owned db')
    (ht : t ∈ db.turns) (hG : t.id ∉ G) : db'.KeepsOne G ↔ db.KeepsOne G :=
  h.storing_of_not ht fun _ _ hp ↦ hG hp.1

theorem keepsOne_insert (h : Persisted limits db t fp flacPath quality owned db')
    (ht : t ∈ db.turns) (hG : t.id ∉ G) :
    db'.KeepsOne (insert t.id G) ↔ owned = true ∨ db.KeepsOne G := by
  refine (h.storing_iff ht).trans (or_congr ?_ ?_)
  · rw [and_iff_right (Set.mem_insert _ _), Quality.settled, Bool.not_eq_false']
  · refine exists_congr fun x ↦ and_congr_right fun _ ↦ exists_congr fun q ↦
      and_congr_right fun _ ↦ ?_
    refine ⟨fun hx ↦ ⟨hx.2.1.resolve_left hx.1, hx.2.2⟩, fun hx ↦ ⟨fun hid ↦ ?_, .inr hx.1, hx.2⟩⟩
    exact hG (hid ▸ hx.1)

/-- A group the turn comes into. -/
theorem group_insert (h : Persisted limits db t fp flacPath quality owned db')
    (ht : t ∈ db.turns) (hG : G ⊆ db.others t) :
    db'.Group limits t.speakerId (insert t.id G) ↔
      MaxCliqueIn (db.Alike limits) (db.others t) (db.Matches limits fp) G := by
  rw [Db.Group, and_iff_right (Set.insert_nonempty _ _), h.triagedOf_eq ht,
    maxClique_insert_insert (fun _ _ ↦ Db.Alike.symm) (Db.not_mem_others t) hG]
  exact maxCliqueIn_congr (fun a ha b hb ↦ h.alike_of_ne ht ha.2 hb.2) fun a ha ↦
    h.alike_self ht ha.2

/-- A group without the turn. -/
theorem group_of_not_mem (h : Persisted limits db t fp flacPath quality owned db')
    (ht : t ∈ db.turns) (hG : t.id ∉ G) :
    db'.Group limits t.speakerId G ↔ G.Nonempty ∧
      MaxClique (db.Alike limits) (db.others t) G ∧ ∃ a ∈ G, ¬db.Matches limits fp a := by
  rw [Db.Group, h.triagedOf_eq ht, maxClique_insert (fun _ _ ↦ Db.Alike.symm) hG,
    maxClique_congr fun a ha b hb ↦ h.alike_of_ne ht ha.2 hb.2]
  refine and_congr_right fun _ ↦ and_congr_right fun _ ↦ ?_
  push Not
  exact exists_congr fun a ↦ and_congr_right fun ha ↦
    not_congr (h.alike_self ht fun hid ↦ hG (hid ▸ ha))

/-- The groups of the other speakers. -/
theorem group_of_ne (h : Persisted limits db t fp flacPath quality owned db') (hl : db.Ledger)
    (ht : t ∈ db.turns) {speakerId : Uuid} (hne : speakerId ≠ t.speakerId) :
    (db'.Group limits speakerId G ↔ db.Group limits speakerId G) ∧
      (db'.Group limits speakerId G → t.id ∉ G) := by
  have hid : ∀ a ∈ db.triagedOf speakerId, a ≠ t.id := by
    rintro a ⟨x, hx, _, -, rfl, hs⟩ hxt
    exact hne (hs.symm.trans (congrArg TurnRecord.speakerId (hl.ids.eq hx ht hxt)))
  rw [Db.Group, Db.Group, h.triagedOf_of_ne hl ht hne]
  refine ⟨and_congr_right fun _ ↦ maxClique_congr fun a ha b hb ↦
    h.alike_of_ne ht (hid a ha) (hid b hb), fun hG hmem ↦ hid _ (hG.2.subset hmem) rfl⟩

/-- A group of the others that the turn does not match as a whole has been there before. -/
theorem group_before (hG : t.id ∉ G) (hne : G.Nonempty)
    (hmax : MaxClique (db.Alike limits) (db.others t) G)
    (hnot : ¬∀ a ∈ G, db.Alike limits a t.id) : db.Group limits t.speakerId G := by
  refine ⟨hne, ?_⟩
  by_cases hmem : t.id ∈ db.triagedOf t.speakerId
  · rw [← Set.insert_sdiff_self_of_mem hmem]
    exact (maxClique_insert (fun _ _ ↦ Db.Alike.symm) hG).mpr ⟨hmax, hnot⟩
  · rw [← Set.sdiff_singleton_eq_self hmem]
    exact hmax

/-- **When a triage leaves each group a recording that is kept.** -/
theorem keepsAll_iff (h : Persisted limits db t fp flacPath quality owned db') (hl : db.Ledger)
    (ht : t ∈ db.turns) (hall : db.KeepsAll limits) :
    db'.KeepsAll limits ↔ db.Sheltered limits t fp := by
  have hclaims : owned = true ↔ db.Claims limits t fp := h.verdict
  constructor
  · intro hall'
    refine ⟨or_iff_not_imp_left.mpr fun hnot G hG ↦ ?_, fun G hne hmax _ hleft ↦ ?_⟩
    · have hid : t.id ∉ G := fun hmem ↦ Db.not_mem_others t (hG.prop.1 hmem)
      have hkept := hall' _ _ ((h.group_insert ht hG.prop.1).mpr hG)
      exact ((h.keepsOne_insert ht hid).mp hkept).resolve_left fun ho ↦ hnot (hclaims.mp ho)
    · have hid : t.id ∉ G := fun hmem ↦ Db.not_mem_others t (hmax.subset hmem)
      exact (h.keepsOne_of_not_mem ht hid).mp
        (hall' _ _ ((h.group_of_not_mem ht hid).mpr ⟨hne, hmax, hleft⟩))
  · intro hsheltered speakerId G hG
    by_cases hs : speakerId = t.speakerId
    · subst hs
      by_cases hmem : t.id ∈ G
      · -- the turn is in the group, with others that it matches
        have hsub : G \ {t.id} ⊆ db.others t := fun a ha ↦ by
          have hin := h.triagedOf_eq ht ▸ hG.2.subset ha.1
          exact hin.resolve_left ha.2
        rw [← Set.insert_sdiff_self_of_mem hmem] at hG ⊢
        rw [h.keepsOne_insert ht fun hn ↦ hn.2 rfl, hclaims]
        exact hsheltered.joins.imp_right fun hjoins ↦ hjoins _ ((h.group_insert ht hsub).mp hG)
      · obtain ⟨hne, hmax, hleft⟩ := (h.group_of_not_mem ht hmem).mp hG
        rw [h.keepsOne_of_not_mem ht hmem]
        by_cases hwas : ∀ a ∈ G, db.Alike limits a t.id
        · exact hsheltered.leaves G hne hmax hwas hleft
        · exact hall _ _ (group_before hmem hne hmax hwas)
    · obtain ⟨hiff, hnot⟩ := h.group_of_ne (G := G) hl ht hs
      rw [h.keepsOne_of_not_mem ht (hnot hG)]
      exact hall _ _ (hiff.mp hG)

end Repository.Persisted

/-- What goes on elsewhere leaves everything stored as it is. -/
theorem Db.Elsewhere.storing_iff {db db' : Db} (he : db.Elsewhere db')
    {p : Uuid → Uuid → Quality → Prop} : db'.Storing p ↔ db.Storing p := by
  constructor
  · rintro ⟨t', ht', q, hq, hp⟩
    obtain ⟨t, ht, hid, hs, hq'⟩ := he.quality_origin ht' hq
    exact ⟨t, ht, q, hq', hid ▸ hs ▸ hp⟩
  · rintro ⟨t, ht, q, hq, hp⟩
    obtain ⟨t', ht', hid, hs, hq'⟩ := he.kept t ht (by rw [hq]; rfl)
    exact ⟨t', ht', q, hq'.trans hq, hid ▸ hs ▸ hp⟩

theorem Db.Elsewhere.keepsAll {db db' : Db} (he : db.Elsewhere db') (hall : db.KeepsAll limits) :
    db'.KeepsAll limits := by
  rintro speakerId G ⟨hne, hG⟩
  have hmatches : ∀ fp a, db'.Matches limits fp a ↔ db.Matches limits fp a := fun _ _ ↦
    he.storing_iff
  have halike : ∀ a b, db'.Alike limits a b ↔ db.Alike limits a b := fun a b ↦ by
    rw [Db.Alike, he.storing_iff]
    simp only [hmatches]
    rfl
  have htriaged : db'.triagedOf speakerId = db.triagedOf speakerId :=
    Set.ext fun _ ↦ Db.mem_triagedOf.trans (he.storing_iff.trans Db.mem_triagedOf.symm)
  rw [htriaged, maxClique_congr fun a _ b _ ↦ halike a b] at hG
  exact he.storing_iff.mpr (hall speakerId G ⟨hne, hG⟩)

/-- **Each group keeps a recording** as long as every triage leaves it one. -/
theorem Triages.keepsAll {db : Db} (h : Triages limits (Db.Sheltered limits) db) :
    db.KeepsAll limits := by
  induction h with
  | start hids hq hf =>
    rintro speakerId G ⟨⟨turnId, hmem⟩, hG⟩
    obtain ⟨t, ht, q, hq', -⟩ := hG.subset hmem
    rw [hq t ht] at hq'
    cases hq'
  | triage h d ht flacPath quality hm ih =>
    obtain ⟨owned, hp⟩ := Repository.persistTriage_spec h.ledger ht d flacPath quality
    exact (hp.keepsAll_iff h.ledger ht ih).mpr hm
  | elsewhere h he ih => exact he.keepsAll ih

/-! ## The result -/

/-- **When a repeated triage is idempotent.**  After any history, triaging a turn again with the
fingerprint it stores leaves its duplicate flag and its row in the table of fingerprints as they
were if and only if the turn is steady.  And while each group of mutually matching recordings keeps
one that is not a duplicate, it is the triages that find the turn sheltered that leave it so, and no
others; so that in any history of them each group keeps one. -/
theorem retriage_verdict (limits : GauntletLimits) :
    (∀ db, Triages limits (fun _ _ _ ↦ True) db → ∀ t ∈ db.turns, ∀ q fp, t.quality = some q →
      q.Stores fp → ∀ d flacPath quality,
        (VerdictKept db (Repository.persistTriage limits db d t.id flacPath quality
          (some (t.speakerId, fp))).2 t q ↔ db.Steady limits t fp)) ∧
    (∀ db, Triages limits (fun _ _ _ ↦ True) db → db.KeepsAll limits → ∀ t ∈ db.turns,
      ∀ fp d flacPath quality,
        ((Repository.persistTriage limits db d t.id flacPath quality
          (some (t.speakerId, fp))).2.KeepsAll limits ↔ db.Sheltered limits t fp)) ∧
    ∀ db, Triages limits (Db.Sheltered limits) db → db.KeepsAll limits := by
  refine ⟨fun _ h _ ht _ _ hq hs d flacPath quality ↦
    verdictKept_iff_steady h.ledger ht hq hs d flacPath quality,
    fun _ h hall _ ht fp d flacPath quality ↦ ?_, fun _ h ↦ h.keepsAll⟩
  obtain ⟨_, hp⟩ := @Repository.persistTriage_spec limits _ _ fp h.ledger ht d flacPath quality
  exact hp.keepsAll_iff h.ledger ht hall

/-- What is stored when the first of the two takes has been triaged. -/
theorem storing_take {fp : AcousticFingerprint} {p : Uuid → Uuid → Quality → Prop} :
    (twoTakes.take 10 fp).Storing p ↔ p 10 1 (goodTake.settled true fp) := by
  have hturns : (twoTakes.take 10 fp).turns = [takenTurn 10 fp true, .initial 11 20 1 2 0 0] := rfl
  constructor
  · rintro ⟨t, ht, q, hq, hp⟩
    rw [hturns, List.mem_cons, List.mem_singleton] at ht
    rcases ht with rfl | rfl <;> cases hq
    exact hp
  · refine fun hp ↦ ⟨takenTurn 10 fp true, ?_, _, rfl, hp⟩
    rw [hturns]
    exact List.mem_cons_self

/-- The first take is kept, and the second one, which is the same, comes into its group. -/
theorem sheltered_takes (fp : AcousticFingerprint) :
    Triages {} (Db.Sheltered {}) ((twoTakes.take 10 fp).take 11 fp) := by
  have hfirst : twoTakes.Sheltered {} (.initial 10 20 1 2 0 0) fp := by
    have hnone : ∀ p, ¬twoTakes.Storing p := by
      rintro p ⟨t, ht, q, hq, -⟩
      have hall : (twoTakes.turns.all fun t ↦ t.quality.isNone) = true := rfl
      rw [Option.isNone_iff_eq_none.mp (List.all_eq_true.mp hall t ht)] at hq
      cases hq
    refine ⟨.inl ⟨.inr fun r hr ↦ absurd hr List.not_mem_nil, ?_⟩, fun G ⟨a, ha⟩ _ halike _ ↦ ?_⟩
    · rintro ⟨t, ht, -, -, q, fp', hq, -⟩
      exact hnone (fun _ _ _ ↦ True) ⟨t, ht, q, hq, trivial⟩
    · exact absurd (halike a ha) (hnone _)
  have hsecond : (twoTakes.take 10 fp).Sheltered {} (.initial 11 20 1 2 0 0) fp := by
    refine ⟨.inr fun G hG ↦ ?_, fun G ⟨a, ha⟩ hG halike _ ↦ ?_⟩
    · have hsub : G ⊆ {10} := fun a ha ↦
        (storing_take.mp (Db.mem_triagedOf.mp (hG.prop.1 ha).1)).1.symm
      have hother : 10 ∈ (twoTakes.take 10 fp).others (.initial 11 20 1 2 0 0) :=
        ⟨Db.mem_triagedOf.mpr (storing_take.mpr ⟨rfl, rfl⟩), fun h ↦ absurd h (by decide)⟩
      -- without the first take the group would not be a largest one
      have hmem : 10 ∈ G := hG.le_of_ge (y := {10}) ⟨Set.singleton_subset_iff.mpr hother,
        Set.pairwise_singleton _ _, fun a ha ↦ storing_take.mpr ⟨Eq.symm ha, fp,
          goodTake.stores_settled _ _, Repository.matching_of_hash rfl⟩⟩ hsub rfl
      exact storing_take.mpr ⟨hmem, rfl⟩
    · exact absurd (storing_take.mp (halike a ha)).1 (by decide)
  exact (Triages.twoTakes.take (show twoTakes.findTurn 10 = some (.initial 10 20 1 2 0 0) from rfl)
    rfl hfirst).take (show (twoTakes.take 10 fp).findTurn 11 = some (.initial 11 20 1 2 0 0) from
      rfl) rfl hsecond

/-- The only recording of a speaker is triaged again, and still kept; and so is one of two that are
the same. -/
theorem retriage_verdict_kept :
    (∃ db, Triages {} (fun _ _ _ ↦ True) db ∧ ∃ t ∈ db.turns, ∃ q fp,
      t.quality = some q ∧ q.Stores fp ∧ q.duplicate = false ∧
        VerdictKept db (Repository.persistTriage {} db (.nth 1) t.id (.flac t.id) goodTake
          (some (t.speakerId, fp))).2 t q) ∧
    ∀ fp, ((twoTakes.take 10 fp).take 11 fp).KeepsAll {} := by
  let fp : AcousticFingerprint := ⟨['a'], [], 20⟩
  have h : Triages {} (fun _ _ _ ↦ True) (twoTakes.take 10 fp) :=
    Triages.twoTakes.take (show twoTakes.findTurn 10 = some (.initial 10 20 1 2 0 0) from rfl) rfl
      trivial
  have hturns : (twoTakes.take 10 fp).turns = [takenTurn 10 fp true, .initial 11 20 1 2 0 0] := by
    decide +kernel
  have ht : takenTurn 10 fp true ∈ (twoTakes.take 10 fp).turns := by
    rw [hturns]
    exact List.mem_cons_self
  refine ⟨⟨_, h, _, ht, _, fp, rfl, goodTake.stores_settled _ _, rfl, ?_⟩, fun fp ↦
    (retriage_verdict {}).2.2 _ (sheltered_takes fp)⟩
  refine ((retriage_verdict {}).1 _ h _ ht _ fp rfl (goodTake.stores_settled _ _) _ _ _).mpr ?_
  intro q hq
  refine ⟨fun _ hrival ↦ ?_, fun hd ↦ ?_⟩
  · -- the other turn has not been triaged
    obtain ⟨t', ht', -, hne, q', -, hq', -⟩ := hrival
    rw [hturns, List.mem_cons, List.mem_singleton] at ht'
    rcases ht' with rfl | rfl
    · exact hne rfl
    · cases hq'
  · cases hq
    cases hd

/-- **A repeated triage can lose the last copy.**  Two turns record the same utterance; the first is
kept and the second is a duplicate of it.  When the first is triaged again the scan finds the second
one, and both are duplicates. -/
theorem retriageFlips : ∃ db, Triages {} (fun _ _ _ ↦ True) db ∧ ∃ t ∈ db.turns, ∃ q fp,
    t.quality = some q ∧ q.Stores fp ∧ q.duplicate = false ∧ ∃ d flacPath quality,
      ¬VerdictKept db (Repository.persistTriage {} db d t.id flacPath quality
        (some (t.speakerId, fp))).2 t q ∧
      ∀ t' ∈ (Repository.persistTriage {} db d t.id flacPath quality
        (some (t.speakerId, fp))).2.turns,
          ∃ q', t'.quality = some q' ∧ q'.Stores fp ∧ q'.duplicate = true := by
  let fp : AcousticFingerprint := ⟨['a'], [], 20⟩
  have h₁ : Triages {} (fun _ _ _ ↦ True) (twoTakes.take 10 fp) :=
    Triages.twoTakes.take (show twoTakes.findTurn 10 = some (.initial 10 20 1 2 0 0) from rfl) rfl
      trivial
  have h₂ : Triages {} (fun _ _ _ ↦ True) ((twoTakes.take 10 fp).take 11 fp) :=
    h₁.take (show (twoTakes.take 10 fp).findTurn 11 = some (.initial 11 20 1 2 0 0) from
      by decide +kernel) rfl trivial
  have hbefore : ((twoTakes.take 10 fp).take 11 fp).turns =
      [takenTurn 10 fp true, takenTurn 11 fp false] := by
    decide +kernel
  have hafter : (((twoTakes.take 10 fp).take 11 fp).take 10 fp).turns =
      [takenTurn 10 fp false, takenTurn 11 fp false] := by
    decide +kernel
  have hall : ∀ t' ∈ (((twoTakes.take 10 fp).take 11 fp).take 10 fp).turns,
      ∃ q', t'.quality = some q' ∧ q'.Stores fp ∧ q'.duplicate = true := by
    intro t' ht'
    rw [hafter, List.mem_cons, List.mem_singleton] at ht'
    rcases ht' with rfl | rfl <;> exact ⟨_, rfl, goodTake.stores_settled _ _, rfl⟩
  refine ⟨_, h₂, takenTurn 10 fp true, ?_, _, fp, rfl, goodTake.stores_settled _ _, rfl, .nth 0,
    .flac 10, goodTake, ?_, hall⟩
  · rw [hbefore]
    exact List.mem_cons_self
  · rintro ⟨⟨t', ht', -, q, hq, hd⟩, -⟩
    obtain ⟨q', hq', -, hd'⟩ := hall t' ht'
    rw [hq] at hq'
    cases hq'
    exact absurd (hd.symm.trans hd') Bool.false_ne_true

end Neva
