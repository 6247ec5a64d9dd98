import Neva.Deeds

/-!
# Duplicate recordings

What any number of `persist_triage` transactions, in any order, make of the recordings of a speaker.
The transactions of one speaker are serialised by the advisory lock, so each is one step.  A turn is
*kept* when its stored quality says `duplicate = false`.

`Persisted` is what one transaction does, read off the code: the turn is kept if it owns its hash
or can claim it, and if no other turn of the speaker stores a fingerprint that matches.  From this
two invariants follow.  `Ledger` says that the table of fingerprints is the list of the kept turns,
and `Apart` that no two of them match.

The scan compares with *every* other turn, whatever its own verdict was.  So a turn that is triaged
again is compared with the very recordings that were found to be duplicates of it, and loses
(`retriage_verdict`).
-/

set_option autoImplicit false

namespace Neva

open Tables

/-! ## Stored fingerprints -/

/-- The quality was stored with this fingerprint. -/
def Quality.Stores (q : Quality) (fp : AcousticFingerprint) : Prop :=
  q.dedupHash = fp.contentHash ∧ q.acousticEnvelope = some (encodeEnvelope fp.envelope)

/-- The quality `persist_triage` stores. -/
def Quality.settled (q : Quality) (owned : Bool) (fp : AcousticFingerprint) : Quality :=
  { q with
    duplicate := !owned
    dedupHash := fp.contentHash
    acousticEnvelope := some (encodeEnvelope fp.envelope) }

theorem Quality.stores_settled (q : Quality) (owned : Bool) (fp : AcousticFingerprint) :
    (q.settled owned fp).Stores fp :=
  ⟨rfl, rfl⟩

/-- What is stored is all that matching looks at. -/
theorem Quality.Stores.matching_eq {q : Quality} {fp fp' : AcousticFingerprint} (h : q.Stores fp)
    (h' : q.Stores fp') (limits : GauntletLimits) (other : AcousticFingerprint) :
    Repository.matching limits fp other = Repository.matching limits fp' other := by
  refine fingerprintsMatch_congr_left (h.1.symm.trans h'.1) ?_ other _ _
  exact encodeEnvelope_injective (Option.some.inj (h.2.symm.trans h'.2))

theorem Repository.matching_comm (limits : GauntletLimits) (left right : AcousticFingerprint) :
    matching limits left right = matching limits right left :=
  fingerprintsMatch_comm left right _ _

theorem Repository.matching_of_hash {limits : GauntletLimits} {left right : AcousticFingerprint}
    (h : left.contentHash = right.contentHash) : matching limits left right = true :=
  if_pos h

/-- The turn has been triaged, and what it stores matches. -/
def TurnRecord.Rivals (limits : GauntletLimits) (fp : AcousticFingerprint) (t : TurnRecord) :
    Prop :=
  ∃ q fp', t.quality = some q ∧ q.Stores fp' ∧ Repository.matching limits fp' fp = true

/-- The row with which the turn owns a hash. -/
def TurnRecord.ownRow (t : TurnRecord) (fp : AcousticFingerprint) : FingerprintRow :=
  ⟨t.speakerId, fp.contentHash, t.id⟩

namespace Db

/-- Another turn of the speaker stores a fingerprint that matches. -/
def Rivalled (limits : GauntletLimits) (db : Db) (t : TurnRecord) (fp : AcousticFingerprint) :
    Prop :=
  ∃ t' ∈ db.turns, t'.speakerId = t.speakerId ∧ t'.id ≠ t.id ∧ t'.Rivals limits fp

/-- Neither the hash nor the turn is in the table of fingerprints. -/
def Free (db : Db) (t : TurnRecord) (fp : AcousticFingerprint) : Prop :=
  ∀ r ∈ db.fingerprints, ¬(r.speakerId = t.speakerId ∧ r.fingerprint = fp.contentHash) ∧
    r.turnId ≠ t.id

/-- **The table of fingerprints is the list of the kept turns.** -/
structure Ledger (db : Db) : Prop where
  ids : Unique TurnRecord.id db.turns
  hashes : Unique (fun r : FingerprintRow ↦ (r.speakerId, r.fingerprint)) db.fingerprints
  owners : Unique FingerprintRow.turnId db.fingerprints
  stored : ∀ t ∈ db.turns, ∀ q, t.quality = some q → ∃ fp, q.Stores fp
  kept : ∀ t ∈ db.turns, ∀ q, t.quality = some q →
    (q.duplicate = false ↔ ⟨t.speakerId, q.dedupHash, t.id⟩ ∈ db.fingerprints)

/-- **No two kept turns of a speaker match.** -/
def Apart (limits : GauntletLimits) (db : Db) : Prop :=
  ∀ t ∈ db.turns, ∀ t' ∈ db.turns, t.speakerId = t'.speakerId → t.id ≠ t'.id →
    ∀ q q' fp fp', t.quality = some q → t'.quality = some q' → q.duplicate = false →
      q'.duplicate = false → q.Stores fp → q'.Stores fp' →
        Repository.matching limits fp fp' = false

end Db

/-! ## One transaction -/

namespace Repository

variable {limits : GauntletLimits} {db : Db} {t : TurnRecord} {fp : AcousticFingerprint}

/-- The scan comes back clear exactly when none of the rows matches. -/
theorem scanRows_spec (fp : AcousticFingerprint) {rows : List TurnRecord}
    (hstored : ∀ t ∈ rows, ∀ q, t.quality = some q → ∃ fp, q.Stores fp) :
    ∃ clear, scanRows limits fp rows = .ok clear ∧
      (clear = true ↔ ∀ t ∈ rows, ¬t.Rivals limits fp) := by
  induction rows with
  | nil => exact ⟨true, rfl, fun _ _ h ↦ absurd h List.not_mem_nil, fun _ ↦ rfl⟩
  | cons t rest ih =>
    obtain ⟨clear, hrest, hclear⟩ := ih fun t ht ↦ hstored t (List.mem_cons_of_mem _ ht)
    have hpass : ¬t.Rivals limits fp →
        (clear = true ↔ ∀ t' ∈ t :: rest, ¬t'.Rivals limits fp) := by
      intro ht
      rw [hclear, List.forall_mem_cons]
      exact ⟨fun h ↦ ⟨ht, h⟩, fun h ↦ h.2⟩
    have hfail : t.Rivals limits fp →
        (false = true ↔ ∀ t' ∈ t :: rest, ¬t'.Rivals limits fp) := fun ht ↦
      ⟨fun h ↦ absurd h Bool.false_ne_true, fun h ↦ absurd ht (h t List.mem_cons_self)⟩
    rw [scanRows]
    cases hq : t.quality with
    | none =>
      refine ⟨clear, hrest, hpass ?_⟩
      rintro ⟨q, fp', hq', -⟩
      rw [hq] at hq'
      cases hq'
    | some q =>
      obtain ⟨own, hown⟩ := hstored t List.mem_cons_self q hq
      have hrivals : t.Rivals limits fp ↔ matching limits own fp = true := by
        constructor
        · rintro ⟨q', fp', hq', hs, hm⟩
          rw [hq] at hq'
          cases hq'
          rw [hown.matching_eq hs]
          exact hm
        · exact fun hm ↦ ⟨q, own, hq, hown, hm⟩
      dsimp only
      split
      · rename_i hash
        exact ⟨false, rfl, hfail (hrivals.mpr (matching_of_hash (hown.1.symm.trans hash)))⟩
      · rename_i hash
        have hmatch : matching limits own fp =
            envelopesNearDuplicate own.envelope fp.envelope limits.fingerprintMaxShiftFrames
              limits.fingerprintNearDistanceRatio :=
          if_neg fun he ↦ hash (hown.1.trans he)
        rw [hown.2]
        dsimp only
        split
        · rename_i hnil
          refine ⟨clear, hrest, hpass fun h ↦ ?_⟩
          rw [hrivals, hmatch, envelopesNearDuplicate,
            if_pos (.inl (encodeEnvelope_eq_nil.mp hnil))] at h
          cases h
        · rw [decodeEnvelope_encodeEnvelope]
          dsimp only
          have hsame : matching limits ⟨q.dedupHash, own.envelope, fp.frameMs⟩ fp =
              matching limits own fp :=
            @fingerprintsMatch_congr_left
              ⟨q.dedupHash, own.envelope, fp.frameMs⟩ own hown.1 rfl fp _ _
          rw [hsame]
          split
          · rename_i hm
            exact ⟨false, rfl, hfail (hrivals.mpr hm)⟩
          · rename_i hm
            exact ⟨clear, hrest, hpass fun h ↦ hm (hrivals.mp h)⟩

/-- Whose the hash is, when it is somebody's. -/
theorem fingerprintOwner_eq_some (h : db.Ledger) :
    fingerprintOwner db t.speakerId fp.contentHash = some t.id ↔ t.ownRow fp ∈ db.fingerprints := by
  rw [fingerprintOwner, Option.map_eq_some_iff]
  constructor
  · rintro ⟨r, hr, hid⟩
    have hp := List.find?_some hr
    rw [Bool.and_eq_true, beq_iff_eq, beq_iff_eq] at hp
    have hrow : r = t.ownRow fp := by
      rw [TurnRecord.ownRow, ← hp.1, ← hp.2, ← hid]
    exact hrow ▸ List.mem_of_find?_eq_some hr
  · intro hrow
    have hsome : (db.fingerprints.find? fun r ↦
        r.speakerId == t.speakerId && r.fingerprint == fp.contentHash).isSome := by
      rw [List.find?_isSome]
      refine ⟨t.ownRow fp, hrow, ?_⟩
      rw [Bool.and_eq_true, beq_iff_eq, beq_iff_eq]
      exact ⟨rfl, rfl⟩
    obtain ⟨r, hr⟩ := Option.isSome_iff_exists.mp hsome
    have hp := List.find?_some hr
    rw [Bool.and_eq_true, beq_iff_eq, beq_iff_eq] at hp
    refine ⟨r, hr, ?_⟩
    rw [h.hashes.eq (List.mem_of_find?_eq_some hr) hrow (Prod.ext hp.1 hp.2)]
    rfl

/-- Claiming the hash: it is the turn's own already, or free, and then there is a row for it. -/
theorem registerFingerprintTable_spec (h : db.Ledger) :
    ∃ exactOwned rows, registerFingerprintTable db t.speakerId fp t.id =
        (exactOwned, { db with fingerprints := rows }) ∧
      (exactOwned = true ↔ t.ownRow fp ∈ db.fingerprints ∨ db.Free t fp) ∧
      (∀ r, r ∈ rows ↔ r ∈ db.fingerprints ∨ exactOwned = true ∧ r = t.ownRow fp) ∧
      Unique (fun r : FingerprintRow ↦ (r.speakerId, r.fingerprint)) rows ∧
      Unique FingerprintRow.turnId rows := by
  rw [registerFingerprintTable]
  have hconflict : (db.fingerprints.any fun r ↦ (r.speakerId == t.speakerId &&
      r.fingerprint == fp.contentHash) || r.turnId == t.id) = true ↔ ¬db.Free t fp := by
    rw [List.any_eq_true, Db.Free]
    push Not
    refine exists_congr fun r ↦ and_congr_right fun _ ↦ ?_
    rw [Bool.or_eq_true, Bool.and_eq_true, beq_iff_eq, beq_iff_eq, beq_iff_eq]
    exact or_iff_not_imp_left.trans ⟨fun h hn ↦ h fun hk ↦ hn hk.1 hk.2, fun h hn ↦
      h fun h1 h2 ↦ hn ⟨h1, h2⟩⟩
  split
  · rename_i hany
    have hfree := hconflict.mp hany
    have howner := @fingerprintOwner_eq_some db t fp h
    refine ⟨_, db.fingerprints, rfl, ?_, fun r ↦ ?_, h.hashes, h.owners⟩
    · rw [beq_iff_eq, howner]
      exact (or_iff_left hfree).symm
    · rw [beq_iff_eq, howner]
      exact ⟨.inl, fun hr ↦ hr.elim id fun hr ↦ hr.2 ▸ hr.1⟩
  · rename_i hany
    have hfree : db.Free t fp := not_not.mp fun hn ↦ hany (hconflict.mpr hn)
    refine ⟨true, _, rfl, ⟨fun _ ↦ .inr hfree, fun _ ↦ rfl⟩, fun r ↦ ?_, ?_, ?_⟩
    · rw [List.mem_append, List.mem_singleton]
      exact or_congr_right ⟨fun hr ↦ ⟨rfl, hr⟩, fun hr ↦ hr.2⟩
    · refine h.hashes.append fun hmem ↦ ?_
      obtain ⟨r, hr, hk⟩ := List.mem_map.mp hmem
      exact (hfree r hr).1 ⟨congrArg Prod.fst hk, congrArg Prod.snd hk⟩
    · refine h.owners.append fun hmem ↦ ?_
      obtain ⟨r, hr, hk⟩ := List.mem_map.mp hmem
      exact (hfree r hr).2 hk

theorem scanFingerprintUnowned_spec (h : db.Ledger) {rows : List FingerprintRow} :
    ∃ clear, scanFingerprintUnowned limits { db with fingerprints := rows } t.speakerId fp t.id =
      .ok clear ∧ (clear = true ↔ ¬db.Rivalled limits t fp) := by
  obtain ⟨clear, hclear, hiff⟩ := @scanRows_spec limits fp
    (db.turns.filter fun t' ↦ t'.speakerId == t.speakerId && t'.id != t.id && t'.quality.isSome)
    fun t' ht' ↦ h.stored t' (List.mem_of_mem_filter ht')
  refine ⟨clear, hclear, hiff.trans ?_⟩
  constructor
  · rintro hall ⟨t', ht', hs, hne, hr⟩
    refine hall t' (List.mem_filter.mpr ⟨ht', ?_⟩) hr
    obtain ⟨q, -, hq, -⟩ := hr
    rw [Bool.and_eq_true, Bool.and_eq_true, beq_iff_eq, bne_iff_ne, hq]
    exact ⟨⟨hs, hne⟩, rfl⟩
  · intro hnone t' ht' hr
    obtain ⟨hmem, hp⟩ := List.mem_filter.mp ht'
    rw [Bool.and_eq_true, Bool.and_eq_true, beq_iff_eq, bne_iff_ne] at hp
    exact hnone ⟨t', hmem, hp.1.1, hp.1.2, hr⟩

/-- **The verdict on a fingerprint**, and what it leaves in the table: the turn's row for the hash
is there if and only if the turn owns it. -/
theorem registerSpeakerFingerprint_spec (h : db.Ledger) :
    ∃ owned rows, registerSpeakerFingerprint limits db t.speakerId fp t.id =
        .ok (owned, { db with fingerprints := rows }) ∧
      (owned = true ↔ (t.ownRow fp ∈ db.fingerprints ∨ db.Free t fp) ∧ ¬db.Rivalled limits t fp) ∧
      (∀ r, r ∈ rows ↔ if r = t.ownRow fp then owned = true else r ∈ db.fingerprints) ∧
      Unique (fun r : FingerprintRow ↦ (r.speakerId, r.fingerprint)) rows ∧
      Unique FingerprintRow.turnId rows := by
  obtain ⟨exactOwned, rows, htable, hexact, hrows, hhashes, howners⟩ :=
    @registerFingerprintTable_spec db t fp h
  obtain ⟨clear, hscan, hclear⟩ := @scanFingerprintUnowned_spec limits db t fp h rows
  rw [registerSpeakerFingerprint, htable]
  dsimp only
  cases exactOwned with
  | false =>
    have hnot : ¬(t.ownRow fp ∈ db.fingerprints ∨ db.Free t fp) := fun hor ↦
      Bool.false_ne_true (hexact.mpr hor)
    refine ⟨false, rows, rfl, ⟨fun hf ↦ absurd hf Bool.false_ne_true, fun hor ↦
      absurd hor.1 hnot⟩, fun r ↦ ?_, hhashes, howners⟩
    rw [hrows]
    split
    · rename_i hr
      subst hr
      exact ⟨fun hor ↦ absurd (hor.elim .inl fun hf ↦ absurd hf.1 Bool.false_ne_true) hnot,
        fun hf ↦ absurd hf Bool.false_ne_true⟩
    · exact or_iff_left fun hf ↦ Bool.false_ne_true hf.1
  | true =>
    have hor := hexact.mp rfl
    rw [hscan]
    cases clear with
    | true =>
      refine ⟨true, rows, rfl, ⟨fun _ ↦ ⟨hor, hclear.mp rfl⟩, fun _ ↦ rfl⟩, fun r ↦ ?_, hhashes,
        howners⟩
      rw [hrows]
      split
      · rename_i hr
        exact ⟨fun _ ↦ rfl, fun _ ↦ .inr ⟨rfl, hr⟩⟩
      · rename_i hr
        exact or_iff_left fun hf ↦ hr hf.2
    | false =>
      refine ⟨false, _, rfl, ⟨fun hf ↦ absurd hf Bool.false_ne_true, fun hn ↦ hclear.mpr hn.2⟩,
        fun r ↦ ?_, hhashes.filter _, howners.filter _⟩
      rw [List.mem_filter, hrows, Bool.not_eq_true', Bool.and_eq_false_iff, Bool.and_eq_false_iff,
        beq_eq_false_iff_ne, beq_eq_false_iff_ne, beq_eq_false_iff_ne]
      split
      · rename_i hr
        subst hr
        refine ⟨fun hf ↦ ?_, fun hf ↦ absurd hf Bool.false_ne_true⟩
        rcases hf.2 with (hne | hne) | hne <;> exact absurd rfl hne
      · rename_i hr
        constructor
        · exact fun hf ↦ hf.1.elim id fun hf ↦ absurd hf.2 hr
        · refine fun hf ↦ ⟨.inl hf, ?_⟩
          by_contra hall
          push Not at hall
          exact hr (by rw [TurnRecord.ownRow, ← hall.1.1, ← hall.1.2, ← hall.2])

/-- What a `persist_triage` transaction does to a database. -/
structure Persisted (limits : GauntletLimits) (db : Db) (t : TurnRecord)
    (fp : AcousticFingerprint) (flacPath : AudioPath) (quality : Quality) (owned : Bool)
    (db' : Db) : Prop where
  verdict : owned = true ↔
    (t.ownRow fp ∈ db.fingerprints ∨ db.Free t fp) ∧ ¬db.Rivalled limits t fp
  turns : db'.turns = (db.putTurn (t.triaged flacPath (quality.settled owned fp))).turns
  rows : ∀ r, r ∈ db'.fingerprints ↔
    if r = t.ownRow fp then owned = true else r ∈ db.fingerprints
  hashes : Unique (fun r : FingerprintRow ↦ (r.speakerId, r.fingerprint)) db'.fingerprints
  owners : Unique FingerprintRow.turnId db'.fingerprints

theorem persistTriage_spec (h : db.Ledger) (ht : t ∈ db.turns) (d : Draw) (flacPath : AudioPath)
    (quality : Quality) : ∃ owned, Persisted limits db t fp flacPath quality owned
      (persistTriage limits db d t.id flacPath quality (some (t.speakerId, fp))).2 := by
  obtain ⟨owned, rows, hreg, hverdict, hrows, hhashes, howners⟩ :=
    @registerSpeakerFingerprint_spec limits db t fp h
  refine ⟨owned, ?_⟩
  have hfound : (db.findTurn t.id).isNone = false := by
    rw [(Db.findTurn_eq_some h.ids).mpr ⟨ht, rfl⟩]
    rfl
  rw [persistTriage, hfound, if_neg Bool.false_ne_true, hreg]
  dsimp only
  rw [@storeQuality_eq { db with fingerprints := rows } h.ids t ht]
  split
  · refine ⟨hverdict, Db.insertJob_turns .., ?_, ?_, ?_⟩
    all_goals rw [Db.insertJob_fingerprints]
    · exact hrows
    · exact hhashes
    · exact howners
  · exact ⟨hverdict, rfl, hrows, hhashes, howners⟩

namespace Persisted

variable {flacPath : AudioPath} {quality : Quality} {owned : Bool} {db' : Db}

/-- The turns afterwards: the one that was triaged, and the others. -/
theorem mem_turns (h : Persisted limits db t fp flacPath quality owned db') (ht : t ∈ db.turns)
    {x : TurnRecord} : x ∈ db'.turns ↔
      x = t.triaged flacPath (quality.settled owned fp) ∨ x ∈ db.turns ∧ x.id ≠ t.id := by
  rw [h.turns]
  exact Db.mem_putTurn ht (t.triaged_id _ _)

/-- The rows of other turns are not touched. -/
theorem mem_rows_of_ne (h : Persisted limits db t fp flacPath quality owned db')
    {r : FingerprintRow} (hr : r ≠ t.ownRow fp) : r ∈ db'.fingerprints ↔ r ∈ db.fingerprints := by
  rw [h.rows, if_neg hr]

theorem mem_ownRow (h : Persisted limits db t fp flacPath quality owned db') :
    t.ownRow fp ∈ db'.fingerprints ↔ owned = true := by
  rw [h.rows, if_pos rfl]

theorem ledger (h : Persisted limits db t fp flacPath quality owned db') (hl : db.Ledger)
    (ht : t ∈ db.turns) : db'.Ledger where
  ids := by
    rw [h.turns]
    exact hl.ids.put _
  hashes := h.hashes
  owners := h.owners
  stored x hx q hq := by
    rcases (h.mem_turns ht).mp hx with rfl | ⟨hx, -⟩
    · cases hq
      exact ⟨fp, quality.stores_settled owned fp⟩
    · exact hl.stored x hx q hq
  kept x hx q hq := by
    rcases (h.mem_turns ht).mp hx with rfl | ⟨hx, hne⟩
    · cases hq
      refine Iff.trans ?_ h.mem_ownRow.symm
      rw [Quality.settled, Bool.not_eq_false']
    · rw [hl.kept x hx q hq]
      refine (h.mem_rows_of_ne fun he ↦ hne ?_).symm
      exact congrArg FingerprintRow.turnId he

/-- A turn that is kept has just been compared with all the others. -/
theorem apart (h : Persisted limits db t fp flacPath quality owned db') (ht : t ∈ db.turns)
    (ha : db.Apart limits) : db'.Apart limits := by
  -- the turn that was triaged against any other
  have hnew : owned = true → ∀ x ∈ db.turns, x.id ≠ t.id → x.speakerId = t.speakerId →
      ∀ q fp', x.quality = some q → q.Stores fp' → matching limits fp' fp = false := by
    intro howned x hx hne hs q fp' hq hstores
    rw [← Bool.not_eq_true]
    exact fun hm ↦ (h.verdict.mp howned).2 ⟨x, hx, hs, hne, q, fp', hq, hstores, hm⟩
  have howned : (quality.settled owned fp).duplicate = false → owned = true := fun hd ↦ by
    rw [Quality.settled, Bool.not_eq_false'] at hd
    exact hd
  intro x hx y hy hs hne q q' fp₁ fp₂ hq hq' hd hd' hst hst'
  rcases (h.mem_turns ht).mp hx with rfl | ⟨hx, hxt⟩
  · rcases (h.mem_turns ht).mp hy with rfl | ⟨hy, hyt⟩
    · exact absurd rfl hne
    · cases hq
      rw [hst.matching_eq (quality.stores_settled owned fp), matching_comm]
      exact hnew (howned hd) y hy hyt hs.symm q' fp₂ hq' hst'
  · rcases (h.mem_turns ht).mp hy with rfl | ⟨hy, hyt⟩
    · cases hq'
      rw [matching_comm, hst'.matching_eq (quality.stores_settled owned fp), matching_comm]
      exact hnew (howned hd') x hx hxt hs q fp₁ hq hst
    · exact ha x hx y hy hs hne q q' fp₁ fp₂ hq hq' hd hd' hst hst'

end Persisted

end Repository

/-! ## Histories -/

/-- What everything else that goes on leaves alone: who speaks in a turn, what has been stored for
it, and the table of fingerprints. -/
structure Db.Elsewhere (db db' : Db) : Prop where
  ids : Unique TurnRecord.id db'.turns
  fingerprints : db'.fingerprints = db.fingerprints
  kept : ∀ t ∈ db.turns, t.quality.isSome → ∃ t' ∈ db'.turns, t'.id = t.id ∧
    t'.speakerId = t.speakerId ∧ t'.quality = t.quality
  origin : ∀ t' ∈ db'.turns, t'.quality.isSome → ∃ t ∈ db.turns, t'.id = t.id ∧
    t'.speakerId = t.speakerId ∧ t'.quality = t.quality

/-- A turn that has been triaged, before and after what goes on elsewhere. -/
theorem Db.Elsewhere.quality_origin {db db' : Db} (he : db.Elsewhere db')
    {t' : TurnRecord} (ht' : t' ∈ db'.turns) {q : Quality} (hq : t'.quality = some q) :
    ∃ t ∈ db.turns, t'.id = t.id ∧ t'.speakerId = t.speakerId ∧ t.quality = some q := by
  obtain ⟨t, ht, hid, hs, hq'⟩ := he.origin t' ht' (by rw [hq]; rfl)
  exact ⟨t, ht, hid, hs, hq'.symm.trans hq⟩

/-- **The databases that triage transactions reach**, in any order and any number, from one in which
nothing has been triaged.  `may` says when a turn may be triaged with a fingerprint. -/
inductive Triages (limits : GauntletLimits) (may : Db → TurnRecord → AcousticFingerprint → Prop) :
    Db → Prop
  | start {db : Db} (hids : Unique TurnRecord.id db.turns) (hq : ∀ t ∈ db.turns, t.quality = none)
      (hf : db.fingerprints = []) : Triages limits may db
  | triage {db : Db} (h : Triages limits may db) (d : Draw) {t : TurnRecord} (ht : t ∈ db.turns)
      (flacPath : AudioPath) (quality : Quality) {fp : AcousticFingerprint} (hm : may db t fp) :
      Triages limits may
        (Repository.persistTriage limits db d t.id flacPath quality (some (t.speakerId, fp))).2
  | elsewhere {db db' : Db} (h : Triages limits may db) (he : db.Elsewhere db') :
      Triages limits may db'

namespace Triages

variable {limits : GauntletLimits} {may : Db → TurnRecord → AcousticFingerprint → Prop} {db : Db}

theorem ledger (h : Triages limits may db) : db.Ledger := by
  induction h with
  | start hids hq hf =>
    refine ⟨hids, hf ▸ Unique.nil, hf ▸ Unique.nil, fun t ht q hq' ↦ ?_, fun t ht q hq' ↦ ?_⟩
    all_goals
      rw [hq t ht] at hq'
      cases hq'
  | triage h d ht flacPath quality hm ih =>
    obtain ⟨owned, hp⟩ := Repository.persistTriage_spec ih ht d flacPath quality
    exact hp.ledger ih ht
  | elsewhere h he ih =>
    refine ⟨he.ids, he.fingerprints ▸ ih.hashes, he.fingerprints ▸ ih.owners, ?_, ?_⟩
    · intro t' ht' q hq
      obtain ⟨t, ht, -, -, hq'⟩ := he.quality_origin ht' hq
      exact ih.stored t ht q hq'
    · intro t' ht' q hq
      obtain ⟨t, ht, hid, hs, hq'⟩ := he.quality_origin ht' hq
      rw [he.fingerprints, hid, hs]
      exact ih.kept t ht q hq'

theorem apart (h : Triages limits may db) : db.Apart limits := by
  induction h with
  | start hids hq hf =>
    intro t ht t' ht' _ _ q q' fp fp' hq'
    rw [hq t ht] at hq'
    cases hq'
  | triage h d ht flacPath quality hm ih =>
    obtain ⟨owned, hp⟩ := Repository.persistTriage_spec h.ledger ht d flacPath quality
    exact hp.apart ht ih
  | elsewhere h he ih =>
    intro x hx y hy hs hne q q' fp fp' hq hq' hd hd' hst hst'
    obtain ⟨x₀, hx₀, hidx, hsx, hqx⟩ := he.quality_origin hx hq
    obtain ⟨y₀, hy₀, hidy, hsy, hqy⟩ := he.quality_origin hy hq'
    refine ih x₀ hx₀ y₀ hy₀ ?_ ?_ q q' fp fp' hqx hqy hd hd' hst hst'
    · rw [← hsx, ← hsy, hs]
    · rw [← hidx, ← hidy]
      exact hne

end Triages

/-- **No two kept copies of one utterance.**  Whatever has been triaged, in whatever order and
however often, two different turns of a speaker that are both kept store different hashes and
envelopes that are not near each other; and every quality there is stores a fingerprint. -/
theorem kept_apart {limits : GauntletLimits} {db : Db}
    (h : Triages limits (fun _ _ _ ↦ True) db) :
    (∀ t ∈ db.turns, ∀ q, t.quality = some q → ∃ fp, q.Stores fp) ∧
    ∀ t ∈ db.turns, ∀ t' ∈ db.turns, t.speakerId = t'.speakerId → t.id ≠ t'.id →
      ∀ q q' fp fp', t.quality = some q → t'.quality = some q' → q.duplicate = false →
        q'.duplicate = false → q.Stores fp → q'.Stores fp' →
          fingerprintsMatch fp fp' limits.fingerprintMaxShiftFrames
            limits.fingerprintNearDistanceRatio = false :=
  ⟨h.ledger.stored, h.apart⟩

/-! ## Two turns to triage -/

/-- Two turns of player 1, neither of them triaged. -/
def twoTakes : Db where
  players := []
  queue := []
  pairs := []
  decks := []
  cards := []
  turns := [.initial 10 20 1 2 0 0, .initial 11 20 1 2 0 0]
  jobs := []
  fingerprints := []

/-- What the model says of a good take. -/
def goodTake : Quality where
  isSpeech := true
  singleSpeaker := true
  audioQualityOk := true
  durationS := 2
  dedupHash := []
  duplicate := false
  contaminationFlag := false
  apparentLanguageNote := []
  confidence := 1
  readoutReasoning := []
  acousticEnvelope := none

/-- Player 1's turn is triaged with the fingerprint. -/
def Db.take (db : Db) (turnId : Uuid) (fp : AcousticFingerprint) : Db :=
  (Repository.persistTriage {} db (.nth 0) turnId (.flac turnId) goodTake (some (1, fp))).2

theorem Triages.twoTakes {limits : GauntletLimits}
    {may : Db → TurnRecord → AcousticFingerprint → Prop} : Triages limits may Neva.twoTakes := by
  refine .start (show (_ : List Uuid).Nodup from ?_) (fun t ht ↦ ?_) rfl
  · exact (by decide : ([10, 11] : List Uuid).Nodup)
  · have hall : (Neva.twoTakes.turns.all fun t ↦ t.quality.isNone) = true := rfl
    exact Option.isNone_iff_eq_none.mp (List.all_eq_true.mp hall t ht)

theorem Triages.take {may : Db → TurnRecord → AcousticFingerprint → Prop} {db : Db}
    (h : Triages {} may db) {turnId : Uuid} {fp : AcousticFingerprint} {t : TurnRecord}
    (ht : db.findTurn turnId = some t) (hs : t.speakerId = 1) (hm : may db t fp) :
    Triages {} may (db.take turnId fp) := by
  obtain ⟨hmem, rfl⟩ := (Db.findTurn_eq_some h.ledger.ids).mp ht
  have htake := h.triage (.nth 0) hmem (.flac t.id) goodTake hm
  rw [hs] at htake
  exact htake

/-- A turn of player 1 as a triage with the fingerprint leaves it. -/
def takenTurn (turnId : Uuid) (fp : AcousticFingerprint) (owned : Bool) : TurnRecord :=
  (TurnRecord.initial turnId 20 1 2 0 0).triaged (.flac turnId) (goodTake.settled owned fp)

/-- Two recordings that do not match are both kept. -/
theorem kept_apart_takes : ∃ db, Triages {} (fun _ _ _ ↦ True) db ∧
    ∃ t ∈ db.turns, ∃ t' ∈ db.turns, t.id ≠ t'.id ∧ ∃ q q' fp fp', t.quality = some q ∧
      t'.quality = some q' ∧ q.duplicate = false ∧ q'.duplicate = false ∧ q.Stores fp ∧
        q'.Stores fp' ∧ fingerprintsMatch fp fp' 6 (12 / 100) = false := by
  let fp : AcousticFingerprint := ⟨['a'], [0, 0, 0], 20⟩
  let fp' : AcousticFingerprint := ⟨['b'], [15, 15, 15], 20⟩
  have h₁ : Triages {} (fun _ _ _ ↦ True) (twoTakes.take 10 fp) :=
    Triages.twoTakes.take (show twoTakes.findTurn 10 = some (.initial 10 20 1 2 0 0) from rfl) rfl
      trivial
  have h₂ : Triages {} (fun _ _ _ ↦ True) ((twoTakes.take 10 fp).take 11 fp') :=
    h₁.take (show (twoTakes.take 10 fp).findTurn 11 = some (.initial 11 20 1 2 0 0) from
      by decide +kernel) rfl trivial
  have hturns : ((twoTakes.take 10 fp).take 11 fp').turns =
      [takenTurn 10 fp true, takenTurn 11 fp' true] := by
    decide +kernel
  have ht : takenTurn 10 fp true ∈ ((twoTakes.take 10 fp).take 11 fp').turns := by
    rw [hturns]
    exact List.mem_cons_self
  have ht' : takenTurn 11 fp' true ∈ ((twoTakes.take 10 fp).take 11 fp').turns := by
    rw [hturns]
    exact List.mem_cons_of_mem _ List.mem_cons_self
  have hne : (takenTurn 10 fp true).id ≠ (takenTurn 11 fp' true).id :=
    (by decide : (10 : Uuid) ≠ 11)
  exact ⟨_, h₂, _, ht, _, ht', hne, _, _, fp, fp', rfl, rfl, rfl, rfl, goodTake.stores_settled _ _,
    goodTake.stores_settled _ _, (kept_apart h₂).2 _ ht _ ht' rfl hne _ _ _ _ rfl rfl rfl rfl
      (goodTake.stores_settled _ _) (goodTake.stores_settled _ _)⟩

end Neva
