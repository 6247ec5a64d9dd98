import Neva.Deeds

/-!
# What a deed does to turns and pairs

The first consequences of `Did`, in the form the proofs about runs use them: what becomes of a row
that is there, and where a row that is there has come from.

For a turn the answer is `TurnRecord.Later`.  A step may move its status on by one, and it may store
a quality; the identifier, the pair and the two seats never change, and neither does the outcome of
a scored turn.  `TurnsStep` sorts the deeds by what they do to the table as a whole.
-/

set_option autoImplicit false

namespace Neva

open Calls Tables

/-! ## What becomes of a turn -/

/-- `t'` is `t`, or what a step has made of it. -/
structure TurnRecord.Later (t t' : TurnRecord) : Prop where
  id : t'.id = t.id
  pairId : t'.pairId = t.pairId
  speakerId : t'.speakerId = t.speakerId
  guesserId : t'.guesserId = t.guesserId
  /-- The status stays or moves on by one. -/
  status : t'.status = t.status ∨ t.status.next = some t'.status
  /-- A scored turn keeps its outcome. -/
  outcome : t.status = .scored → t'.outcome = t.outcome
  quality : t.quality.isSome → t'.quality.isSome

namespace TurnRecord

/-- Once scored, always scored. -/
theorem Later.scored {t t' : TurnRecord} (h : t.Later t') (hs : t.status = .scored) :
    t'.status = .scored := by
  rcases h.status with he | he
  · exact he.trans hs
  · rw [hs] at he
    cases he

/-- Audio is accepted for good. -/
theorem Later.past {t t' : TurnRecord} (h : t.Later t') (hs : t.status ≠ .awaitingAudio) :
    t'.status ≠ .awaitingAudio := by
  rcases h.status with he | he
  · rw [he]
    exact hs
  · intro hs'
    rw [hs'] at he
    cases hst : t.status <;> rw [hst] at he <;> cases he

theorem Later.refl (t : TurnRecord) : t.Later t :=
  ⟨rfl, rfl, rfl, rfl, .inl rfl, fun _ ↦ rfl, fun h ↦ h⟩

theorem later_accepted {t : TurnRecord} (hs : t.status = .awaitingAudio) (path : AudioPath)
    (durationS : ℚ) : t.Later (t.accepted path durationS) :=
  ⟨rfl, rfl, rfl, rfl, .inr (by rw [hs]; rfl), fun _ ↦ rfl, fun h ↦ h⟩

theorem later_labelled {t : TurnRecord} (hs : t.status = .awaitingLabelConfirm) :
    t.Later t.labelled :=
  ⟨rfl, rfl, rfl, rfl, .inr (by rw [hs]; rfl), fun _ ↦ rfl, fun h ↦ h⟩

theorem later_triaged (t : TurnRecord) (path : AudioPath) (quality : Quality) :
    t.Later (t.triaged path quality) :=
  ⟨rfl, rfl, rfl, rfl, .inl rfl, fun _ ↦ rfl, fun _ ↦ rfl⟩

theorem Guessed.later {cfg : GameFeatureConfig} {t t' : TurnRecord} {correct : Bool}
    (h : t.Guessed cfg correct t') (hs : t.status = .awaitingGuess) : t.Later t' := by
  have hns : t.status ≠ .scored := by
    rw [hs]
    exact nofun
  cases h with
  | right => exact ⟨rfl, rfl, rfl, rfl, .inr (by rw [hs]; rfl), fun h ↦ absurd h hns, fun h ↦ h⟩
  | last => exact ⟨rfl, rfl, rfl, rfl, .inr (by rw [hs]; rfl), fun h ↦ absurd h hns, fun h ↦ h⟩
  | again => exact ⟨rfl, rfl, rfl, rfl, .inl rfl, fun _ ↦ rfl, fun h ↦ h⟩

/-- A row as `INSERT INTO turns` makes it. -/
structure IsInitial (t : TurnRecord) : Prop where
  status : t.status = .awaitingAudio
  quality : t.quality = none
  attempts : t.attempts = 0
  audioPath : t.audioPath = none

theorem isInitial_initial (id pairId speakerId guesserId cardId : Uuid) (now : Time) :
    (TurnRecord.initial id pairId speakerId guesserId cardId now).IsInitial :=
  ⟨rfl, rfl, rfl, rfl⟩

end TurnRecord

/-- The deed makes a turn or decides one. -/
def Deed.isTurning : Deed → Bool
  | .created _ | .guessed _ => true
  | _ => false

/-- **What a deed does to the table of turns**: nothing, a new row, or a row replaced by a later
one. -/
inductive TurnsStep (cfg : GameFeatureConfig) (d : Draw) (db db' : Db) : Deed → Prop
  | same {a : Deed} (ha : a.isTurning = false) (h : db'.turns = db.turns) :
      TurnsStep cfg d db db' a
  /-- The first turn of a new pair. -/
  | dealt {a : Deed} {n : TurnRecord} (ha : a.isTurning = false) (hn : n.IsInitial)
      (hid : n.id = d.uuid') (hp : n.pairId = d.uuid)
      (hpair : ⟨n.pairId, n.speakerId, n.guesserId⟩ ∈
        db'.pairs.map fun pair ↦ (pair.id, pair.playerA, pair.playerB))
      (h : db'.turns = db.turns ++ [n]) : TurnsStep cfg d db db' a
  | created {n : TurnRecord} (hn : n.IsInitial) (hid : n.id = d.uuid)
      (h : db'.turns = db.turns ++ [n]) : TurnsStep cfg d db db' (.created n)
  /-- A turn moved on, but not to its end. -/
  | moved {a : Deed} {t t' : TurnRecord} (ha : a.isTurning = false) (ht : t ∈ db.turns)
      (hl : t.Later t') (hs : t'.status = .scored → t.status = .scored)
      (hattempts : t'.attempts = t.attempts) (h : db'.turns = (db.putTurn t').turns) :
      TurnsStep cfg d db db' a
  | guessed {t t' : TurnRecord} {correct : Bool} (ht : t ∈ db.turns)
      (hs : t.status = .awaitingGuess) (hg : t.Guessed cfg correct t')
      (h : db'.turns = (db.putTurn t').turns) : TurnsStep cfg d db db' (.guessed t')

theorem Did.turnsStep {su : Setup} {d : Draw} {v v' : Venue} {a : Deed} (hd : Did su d v a v') :
    TurnsStep su.cfg d v.db v'.db a := by
  cases hd with
  | quiet hplayers hqueue hpairs hcards hturns hjobs => exact .same rfl hturns
  | queued => exact .same rfl rfl
  | already => exact .same rfl rfl
  | waiting => exact .same rfl rfl
  | @paired a b lang queue hactive hactive' hne ha hb hq =>
    cases hcard : v.db.pickCard d.uuid d.rand with
    | none =>
      refine .same rfl ?_
      rw [Option.map_none, Option.toList_none, List.append_nil]
    | some card =>
      refine .dealt rfl (TurnRecord.isInitial_initial d.uuid' d.uuid a b card.id d.now)
        rfl rfl ?_ rfl
      rw [List.map_append]
      exact List.mem_append_right _ List.mem_cons_self
  | created => exact .created (TurnRecord.isInitial_initial ..) rfl rfl
  | picked => exact .same rfl rfl
  | saved => exact .same rfl rfl
  | accepted path durationS ht hs =>
    exact .moved rfl ht (TurnRecord.later_accepted hs path _) nofun rfl rfl
  | labelled ht hs => exact .moved rfl ht (TurnRecord.later_labelled hs) nofun rfl rfl
  | guessed ht hs hg => exact .guessed ht hs hg rfl
  | enqueued kind turnId => exact .same rfl (Db.insertJob_turns ..)
  | completed => exact .same rfl rfl
  | triaged ht hplayers hqueue hpairs hcards hturns hjobs =>
    exact .moved rfl ht (TurnRecord.later_triaged _ _ _) (fun h ↦ h) rfl hturns
  | untriaged => exact .same rfl rfl

/-- Every turn is still there after a step, as it was or later. -/
theorem TurnsStep.kept {cfg : GameFeatureConfig} {d : Draw} {db db' : Db} {a : Deed}
    (h : TurnsStep cfg d db db' a) (htidy : db.Tidy) {t : TurnRecord} (ht : t ∈ db.turns) :
    ∃ t' ∈ db'.turns, t.Later t' := by
  have hput : ∀ {u u' : TurnRecord}, u ∈ db.turns → u.Later u' →
      db'.turns = (db.putTurn u').turns → ∃ t' ∈ db'.turns, t.Later t' := by
    intro u u' hu hl he
    rw [he]
    by_cases hid : t.id = u.id
    · rw [htidy.turnIds.eq ht hu hid]
      exact ⟨u', (Db.mem_putTurn hu hl.id).mpr (.inl rfl), hl⟩
    · exact ⟨t, (Db.mem_putTurn hu hl.id).mpr (.inr ⟨ht, hid⟩), .refl t⟩
  cases h with
  | same ha he => exact ⟨t, he ▸ ht, .refl t⟩
  | dealt ha hn hid hp hpair he => exact ⟨t, he ▸ List.mem_append_left _ ht, .refl t⟩
  | created hn hid he => exact ⟨t, he ▸ List.mem_append_left _ ht, .refl t⟩
  | moved ha hu hl hs hattempts he => exact hput hu hl he
  | guessed hu hs hg he => exact hput hu (hg.later hs) he

/-- Every turn there is after a step was there before it, or is new. -/
theorem TurnsStep.origin {cfg : GameFeatureConfig} {d : Draw} {db db' : Db} {a : Deed}
    (h : TurnsStep cfg d db db' a) {t' : TurnRecord} (ht' : t' ∈ db'.turns) :
    (∃ t ∈ db.turns, t.Later t') ∨ t'.IsInitial ∧ (t'.pairId = d.uuid ∨ a = .created t') := by
  have hput : ∀ {u u' : TurnRecord}, u ∈ db.turns → u.Later u' →
      db'.turns = (db.putTurn u').turns → ∃ t ∈ db.turns, t.Later t' := by
    intro u u' hu hl he
    rw [he] at ht'
    rcases (Db.mem_putTurn hu hl.id).mp ht' with rfl | ⟨ht', -⟩
    · exact ⟨u, hu, hl⟩
    · exact ⟨t', ht', .refl t'⟩
  cases h with
  | same ha he => exact .inl ⟨t', he ▸ ht', .refl t'⟩
  | dealt ha hn hid hp hpair he =>
    rw [he] at ht'
    rcases List.mem_append.mp ht' with ht' | ht'
    · exact .inl ⟨t', ht', .refl t'⟩
    · rw [List.mem_singleton.mp ht']
      exact .inr ⟨hn, .inl hp⟩
  | created hn hid he =>
    rw [he] at ht'
    rcases List.mem_append.mp ht' with ht' | ht'
    · exact .inl ⟨t', ht', .refl t'⟩
    · rw [List.mem_singleton.mp ht']
      exact .inr ⟨hn, .inr rfl⟩
  | moved ha hu hl hs hattempts he => exact .inl (hput hu hl he)
  | guessed hu hs hg he => exact .inl (hput hu (hg.later hs) he)

/-- A turn that is being played still is after a step, or a guess has just scored it. -/
theorem TurnsStep.unscored {cfg : GameFeatureConfig} {d : Draw} {db db' : Db} {a : Deed}
    (h : TurnsStep cfg d db db' a) (htidy : db.Tidy) {t : TurnRecord} (ht : t ∈ db.turns)
    (hs : t.status ≠ .scored) : ∃ t', t.Later t' ∧
      (t' ∈ db'.turns ∧ t'.status ≠ .scored ∨ a = .guessed t' ∧ t'.status = .scored) := by
  obtain ⟨t', ht', hl⟩ := h.kept htidy ht
  refine ⟨t', hl, ?_⟩
  by_cases hs' : t'.status = .scored
  · refine .inr ⟨?_, hs'⟩
    -- the row that stood for the turn is not scored, so it has been replaced
    have hold : t' ∉ db.turns := fun hmem ↦
      hs (htidy.turnIds.eq hmem ht hl.id ▸ hs')
    have hnew : ∀ n : TurnRecord, n.IsInitial → t' ∉ db.turns ++ [n] := by
      intro n hn hmem
      rcases List.mem_append.mp hmem with hmem | hmem
      · exact hold hmem
      · rw [List.mem_singleton.mp hmem, hn.status] at hs'
        cases hs'
    cases h with
    | same ha he => exact absurd (he ▸ ht') hold
    | dealt ha hn hid hp hpair he => exact absurd (he ▸ ht') (hnew _ hn)
    | created hn hid he => exact absurd (he ▸ ht') (hnew _ hn)
    | moved ha hu hl' hsame hattempts he =>
      rw [he] at ht'
      rcases (Db.mem_putTurn hu hl'.id).mp ht' with rfl | ⟨hmem, -⟩
      · rw [htidy.turnIds.eq ht hu (hl.id.symm.trans hl'.id)] at hs
        exact absurd (hsame hs') hs
      · exact absurd hmem hold
    | guessed hu hsu hg he =>
      rw [he] at ht'
      rcases (Db.mem_putTurn hu hg.id).mp ht' with rfl | ⟨hmem, -⟩
      · rfl
      · exact absurd hmem hold
  · exact .inl ⟨ht', hs'⟩

/-! ## Counting rounds -/

/-- What the deed adds to the rounds the player has played. -/
def Deed.rounds (p : Uuid) : Deed → ℕ
  | .guessed t => if t.status == .scored && t.involves p then 1 else 0
  | _ => 0

/-- **Only a guess that scores adds a round, and only to the two players.** -/
theorem TurnsStep.roundsPlayed {cfg : GameFeatureConfig} {d : Draw} {db db' : Db} {a : Deed}
    (h : TurnsStep cfg d db db' a) (htidy : db.Tidy) (p : Uuid) :
    db'.roundsPlayed p = db.roundsPlayed p + a.rounds p := by
  have hzero : a.isTurning = false → a.rounds p = 0 := fun ha ↦ by
    cases a <;> first | rfl | cases ha
  have happend : ∀ n : TurnRecord, n.IsInitial → db'.turns = db.turns ++ [n] →
      db'.roundsPlayed p = db.roundsPlayed p := by
    intro n hn he
    rw [Db.roundsPlayed, he, List.countP_append, List.countP_singleton, hn.status]
    rfl
  have hput : ∀ u ∈ db.turns, ∀ u', u'.id = u.id → db'.turns = (db.putTurn u').turns →
      db'.roundsPlayed p + (if u.status == .scored && u.involves p then 1 else 0) =
        db.roundsPlayed p + if u'.status == .scored && u'.involves p then 1 else 0 := by
    intro u hu u' hid he
    rw [Db.roundsPlayed, he]
    exact htidy.turnIds.countP_put hu hid _
  cases h with
  | same ha he =>
    rw [hzero ha, Db.roundsPlayed, he]
    rfl
  | dealt ha hn hid hp hpair he =>
    rw [hzero ha]
    exact happend _ hn he
  | created hn hid he => exact happend _ hn he
  | @moved a t t' ha ht hl hs hattempts he =>
    have hcount := hput t ht t' hl.id he
    have hsame :
        (t'.status == .scored && t'.involves p) = (t.status == .scored && t.involves p) := by
      have hstatus : (t'.status == .scored) = (t.status == .scored) := by
        rw [Bool.eq_iff_iff, beq_iff_eq, beq_iff_eq]
        exact ⟨hs, hl.scored⟩
      rw [hstatus, TurnRecord.involves, TurnRecord.involves, hl.speakerId, hl.guesserId]
    rw [hsame] at hcount
    rw [hzero ha]
    omega
  | @guessed t t' correct ht hs hg he =>
    have hcount := hput t ht t' hg.id he
    rw [hs] at hcount
    exact hcount

theorem TurnsStep.roundsPlayed_le {cfg : GameFeatureConfig} {d : Draw} {db db' : Db} {a : Deed}
    (h : TurnsStep cfg d db db' a) (htidy : db.Tidy) (p : Uuid) :
    db.roundsPlayed p ≤ db'.roundsPlayed p := by
  rw [h.roundsPlayed htidy]
  exact Nat.le_add_right _ _

/-! ## What becomes of a pair, and of the queue -/

/-- No step touches the cards. -/
theorem Did.cards {su : Setup} {d : Draw} {v v' : Venue} {a : Deed} (hd : Did su d v a v') :
    v'.db.cards = v.db.cards := by
  cases hd with
  | quiet hplayers hqueue hpairs hcards hturns hjobs => exact hcards
  | enqueued => exact Db.insertJob_cards ..
  | triaged ht hplayers hqueue hpairs hcards hturns hjobs => exact hcards
  | _ => rfl

/-- Every pair is still there after a step, with the same members. -/
theorem Did.pair_kept {su : Setup} {d : Draw} {v v' : Venue} {a : Deed} (hd : Did su d v a v')
    {pair : PairRecord} (hp : pair ∈ v.db.pairs) : ∃ pair' ∈ v'.db.pairs,
      pair'.id = pair.id ∧ pair'.playerA = pair.playerA ∧ pair'.playerB = pair.playerB := by
  have hsame : v'.db.pairs = v.db.pairs → ∃ pair' ∈ v'.db.pairs,
      pair'.id = pair.id ∧ pair'.playerA = pair.playerA ∧ pair'.playerB = pair.playerB :=
    fun he ↦ ⟨pair, he ▸ hp, rfl, rfl, rfl⟩
  cases hd with
  | quiet hplayers hqueue hpairs hcards hturns hjobs => exact hsame hpairs
  | paired => exact ⟨pair, List.mem_append_left _ hp, rfl, rfl, rfl⟩
  | enqueued => exact hsame (Db.insertJob_pairs ..)
  | completed =>
    refine ⟨_, List.mem_map_of_mem hp, ?_⟩
    split <;> exact ⟨rfl, rfl, rfl⟩
  | triaged ht hplayers hqueue hpairs hcards hturns hjobs => exact hsame hpairs
  | queued => exact hsame rfl
  | already => exact hsame rfl
  | waiting => exact hsame rfl
  | created => exact hsame rfl
  | picked => exact hsame rfl
  | saved => exact hsame rfl
  | accepted => exact hsame rfl
  | labelled => exact hsame rfl
  | guessed => exact hsame rfl
  | untriaged => exact hsame rfl

/-- Every active pair there is after a step was there before it, or is new. -/
theorem Did.pair_origin {su : Setup} {d : Draw} {v v' : Venue} {a : Deed} (hd : Did su d v a v')
    {pair : PairRecord} (hp : pair ∈ v'.db.pairs) (hs : pair.status = .active) :
    pair ∈ v.db.pairs ∨ pair.id = d.uuid ∧ a = .matched (some pair) := by
  have hsame : v'.db.pairs = v.db.pairs → pair ∈ v.db.pairs := fun he ↦ he ▸ hp
  cases hd with
  | quiet hplayers hqueue hpairs hcards hturns hjobs => exact .inl (hsame hpairs)
  | paired =>
    rcases List.mem_append.mp hp with hp | hp
    · exact .inl hp
    · rw [List.mem_singleton] at hp
      subst hp
      exact .inr ⟨rfl, rfl⟩
  | enqueued => exact .inl (hsame (Db.insertJob_pairs ..))
  | completed =>
    obtain ⟨pair₀, hp₀, rfl⟩ := List.mem_map.mp hp
    split at hs
    · cases hs
    · rename_i hne
      rw [if_neg hne]
      exact .inl hp₀
  | triaged ht hplayers hqueue hpairs hcards hturns hjobs => exact .inl (hsame hpairs)
  | queued => exact .inl (hsame rfl)
  | already => exact .inl (hsame rfl)
  | waiting => exact .inl (hsame rfl)
  | created => exact .inl (hsame rfl)
  | picked => exact .inl (hsame rfl)
  | saved => exact .inl (hsame rfl)
  | accepted => exact .inl (hsame rfl)
  | labelled => exact .inl (hsame rfl)
  | guessed => exact .inl (hsame rfl)
  | untriaged => exact .inl (hsame rfl)

/-- Whoever is queued after a step was queued before it, or has been enqueued or matched. -/
theorem Did.queued_origin {su : Setup} {d : Draw} {v v' : Venue} {a : Deed} (hd : Did su d v a v')
    {p : Uuid} (hp : v'.db.Queued p) :
    v.db.Queued p ∨ a = .queued p ∨ ∃ pair, a = .matched pair := by
  have hsame : v'.db.queue = v.db.queue → v.db.Queued p := fun he ↦ by
    rw [Db.Queued, he] at hp
    exact hp
  cases hd with
  | quiet hplayers hqueue hpairs hcards hturns hjobs => exact .inl (hsame hqueue)
  | queued p' =>
    rcases Db.queued_upsertQueue hp with rfl | hp
    · exact .inr (.inl rfl)
    · exact .inl hp
  | already => exact .inr (.inr ⟨_, rfl⟩)
  | waiting => exact .inr (.inr ⟨_, rfl⟩)
  | paired => exact .inr (.inr ⟨_, rfl⟩)
  | enqueued => exact .inl (hsame (Db.insertJob_queue ..))
  | triaged ht hplayers hqueue hpairs hcards hturns hjobs => exact .inl (hsame hqueue)
  | created => exact .inl (hsame rfl)
  | picked => exact .inl (hsame rfl)
  | saved => exact .inl (hsame rfl)
  | accepted => exact .inl (hsame rfl)
  | labelled => exact .inl (hsame rfl)
  | guessed => exact .inl (hsame rfl)
  | completed => exact .inl (hsame rfl)
  | untriaged => exact .inl (hsame rfl)

/-! ## What becomes of a job -/

theorem Db.mem_insertJob {db : Db} {kind : JobKind} {turnId id : Uuid} {now : Time} {j : JobRow}
    (h : j ∈ (db.insertJob kind turnId id now).jobs) :
    j ∈ db.jobs ∨ j.kind = kind ∧ j.turnId = turnId := by
  rw [Db.insertJob_jobs] at h
  split at h
  · exact .inl h
  · rcases List.mem_append.mp h with h | h
    · exact .inl h
    · rw [List.mem_singleton.mp h]
      exact .inr ⟨rfl, rfl⟩

theorem Db.hasJob_iff {db : Db} {kind : JobKind} {turnId : Uuid} :
    db.hasJob kind turnId = true ↔ ∃ j ∈ db.jobs, j.kind = kind ∧ j.turnId = turnId := by
  rw [hasJob, List.any_eq_true]
  refine exists_congr fun j ↦ and_congr_right fun _ ↦ ?_
  rw [Bool.and_eq_true, beq_iff_eq, beq_iff_eq]

theorem Db.hasJob_insertJob (db : Db) (kind : JobKind) (turnId id : Uuid) (now : Time) :
    (db.insertJob kind turnId id now).hasJob kind turnId = true := by
  rw [insertJob]
  split
  · assumption
  · exact Db.hasJob_iff.mpr ⟨_, List.mem_append_right _ List.mem_cons_self, rfl, rfl⟩

theorem Db.subset_insertJob (db : Db) (kind : JobKind) (turnId id : Uuid) (now : Time) :
    db.jobs ⊆ (db.insertJob kind turnId id now).jobs := by
  rw [Db.insertJob_jobs]
  split
  · exact fun _ h ↦ h
  · exact fun _ h ↦ List.mem_append_left _ h

/-- A job stays in the table. -/
theorem Did.job_kept {su : Setup} {d : Draw} {v v' : Venue} {a : Deed} (hd : Did su d v a v') :
    v.db.jobs ⊆ v'.db.jobs := by
  cases hd with
  | quiet hplayers hqueue hpairs hcards hturns hjobs => exact hjobs ▸ fun _ h ↦ h
  | enqueued => exact Db.subset_insertJob ..
  | @triaged t quality db ht hplayers hqueue hpairs hcards hturns hjobs =>
    show v.db.jobs ⊆ db.jobs
    rw [hjobs]
    split
    · exact Db.subset_insertJob ..
    · exact fun _ h ↦ h
  | _ => exact fun _ h ↦ h

theorem Did.hasJob_kept {su : Setup} {d : Draw} {v v' : Venue} {a : Deed} (hd : Did su d v a v')
    {kind : JobKind} {turnId : Uuid} (h : v.db.hasJob kind turnId = true) :
    v'.db.hasJob kind turnId = true := by
  obtain ⟨j, hj, hkind, hturn⟩ := Db.hasJob_iff.mp h
  exact Db.hasJob_iff.mpr ⟨j, hd.job_kept hj, hkind, hturn⟩

/-- A new job has been enqueued, or is the package job of a scored turn that has been triaged. -/
theorem Did.job_origin {su : Setup} {d : Draw} {v v' : Venue} {a : Deed} (hd : Did su d v a v')
    {j : JobRow} (hj : j ∈ v'.db.jobs) :
    j ∈ v.db.jobs ∨ a = .enqueued j.kind j.turnId ∨ j.kind = .package ∧
      ∃ t ∈ v'.db.turns, t.id = j.turnId ∧ t.status = .scored ∧ t.quality.isSome := by
  cases hd with
  | quiet hplayers hqueue hpairs hcards hturns hjobs => exact .inl (hjobs ▸ hj)
  | enqueued kind turnId =>
    rcases Db.mem_insertJob hj with hj | ⟨rfl, rfl⟩
    · exact .inl hj
    · exact .inr (.inl rfl)
  | @triaged t quality db ht hplayers hqueue hpairs hcards hturns hjobs =>
    have hmem : j ∈ db.jobs := hj
    rw [hjobs] at hmem
    split at hmem
    · rename_i hs
      rcases Db.mem_insertJob hmem with hmem | ⟨hkind, hturn⟩
      · exact .inl hmem
      · refine .inr (.inr ⟨hkind, t.triaged (.flac t.id) quality, ?_, hturn.symm, hs, rfl⟩)
        show _ ∈ db.turns
        rw [hturns]
        exact (Db.mem_putTurn ht (t.triaged_id _ _)).mpr (.inl rfl)
    · exact .inl hmem
  | _ => exact .inl hj

theorem Did.hasJob_enqueued {su : Setup} {d : Draw} {v v' : Venue} {kind : JobKind} {turnId : Uuid}
    (hd : Did su d v (.enqueued kind turnId) v') : v'.db.hasJob kind turnId = true := by
  cases hd with
  | enqueued => exact Db.hasJob_insertJob ..

/-- Only `enqueue_job` adds a triage job. -/
theorem Did.hasJob_triage {su : Setup} {d : Draw} {v v' : Venue} {a : Deed} (hd : Did su d v a v')
    {turnId : Uuid} (h : v'.db.hasJob .triage turnId = true) :
    v.db.hasJob .triage turnId = true ∨ a = .enqueued .triage turnId := by
  obtain ⟨j, hj, hkind, hturn⟩ := Db.hasJob_iff.mp h
  rcases hd.job_origin hj with hold | hnew | ⟨hpackage, -⟩
  · exact .inl (Db.hasJob_iff.mpr ⟨j, hold, hkind, hturn⟩)
  · rw [hkind, hturn] at hnew
    exact .inr hnew
  · rw [hkind] at hpackage
    cases hpackage

/-! ## Where audio and quality come from -/

/-- `apply_guess` finds a turn that awaits one. -/
theorem Did.guessed_turn {su : Setup} {d : Draw} {v v' : Venue} {t' : TurnRecord}
    (hd : Did su d v (.guessed t') v') : t' ∈ v'.db.turns ∧
      ∃ t ∈ v.db.turns, t.status = .awaitingGuess ∧ t.Later t' := by
  cases hd with
  | @guessed t t' correct ht hs hg =>
    exact ⟨(Db.mem_putTurn ht hg.id).mpr (.inl rfl), t, ht, hs, hg.later hs⟩

theorem Did.created_turn {su : Setup} {d : Draw} {v v' : Venue} {t : TurnRecord}
    (hd : Did su d v (.created t) v') : t ∈ v'.db.turns ∧ t.status = .awaitingAudio := by
  cases hd with
  | created => exact ⟨List.mem_append_right _ List.mem_cons_self, rfl⟩

/-- What `accept_audio` does to the status of the turn. -/
theorem Did.accepted_turn {su : Setup} {d : Draw} {v v' : Venue} {t : TurnRecord}
    (hd : Did su d v (.accepted t) v') :
    (∃ t₀ ∈ v.db.turns, t₀.id = t.id ∧ t₀.status = .awaitingAudio) ∧
      t ∈ v'.db.turns ∧ t.status = .awaitingLabelConfirm := by
  cases hd with
  | @accepted t path durationS ht hs =>
    exact ⟨⟨t, ht, rfl, hs⟩, (Db.mem_putTurn ht (t.accepted_id path _)).mpr (.inl rfl), rfl⟩

/-- A turn past `awaiting_audio` was past it before, with the same audio, or has just been
accepted. -/
theorem Did.audio_origin {su : Setup} {d : Draw} {v v' : Venue} {a : Deed} (hd : Did su d v a v')
    {t' : TurnRecord} (ht' : t' ∈ v'.db.turns) (hs' : t'.status ≠ .awaitingAudio) :
    (∃ t ∈ v.db.turns, t.id = t'.id ∧ t.status ≠ .awaitingAudio ∧ t.audioPath = t'.audioPath ∧
      t.durationS = t'.durationS) ∨ a = .accepted t' := by
  have hold : t' ∈ v.db.turns → ∃ t ∈ v.db.turns, t.id = t'.id ∧ t.status ≠ .awaitingAudio ∧
      t.audioPath = t'.audioPath ∧ t.durationS = t'.durationS :=
    fun h ↦ ⟨t', h, rfl, hs', rfl, rfl⟩
  have hnew : ∀ {n : TurnRecord}, n.IsInitial → t' ∈ v.db.turns ++ [n] → t' ∈ v.db.turns := by
    intro n hn h
    rcases List.mem_append.mp h with h | h
    · exact h
    · rw [List.mem_singleton.mp h] at hs'
      exact absurd hn.status hs'
  cases hd with
  | quiet hplayers hqueue hpairs hcards hturns hjobs => exact .inl (hold (hturns ▸ ht'))
  | @paired a b lang queue hactive hactive' hne ha hb hq =>
    rcases List.mem_append.mp ht' with ht' | ht'
    · exact .inl (hold ht')
    · obtain ⟨card, -, rfl⟩ := Option.map_eq_some_iff.mp (Option.mem_toList.mp ht')
      exact absurd rfl hs'
  | created => exact .inl (hold (hnew (TurnRecord.isInitial_initial ..) ht'))
  | @accepted t path durationS ht hs =>
    rcases (Db.mem_putTurn ht (t.accepted_id path _)).mp ht' with rfl | ⟨ht', -⟩
    · exact .inr rfl
    · exact .inl (hold ht')
  | @labelled t ht hs =>
    rcases (Db.mem_putTurn ht t.labelled_id).mp ht' with rfl | ⟨ht', -⟩
    · exact .inl ⟨t, ht, rfl, hs.trans_ne nofun, rfl, rfl⟩
    · exact .inl (hold ht')
  | @guessed t t'' correct ht hs hg =>
    rcases (Db.mem_putTurn ht hg.id).mp ht' with rfl | ⟨ht', -⟩
    · refine .inl ⟨t, ht, hg.id.symm, hs.trans_ne nofun, ?_⟩
      cases hg <;> exact ⟨rfl, rfl⟩
    · exact .inl (hold ht')
  | enqueued => exact .inl (hold (Db.insertJob_turns .. ▸ ht'))
  | @triaged t quality db ht hplayers hqueue hpairs hcards hturns hjobs =>
    have hmem : t' ∈ db.turns := ht'
    rw [hturns] at hmem
    rcases (Db.mem_putTurn ht (t.triaged_id _ _)).mp hmem with rfl | ⟨ht', -⟩
    · exact .inl ⟨t, ht, rfl, hs', rfl, rfl⟩
    · exact .inl (hold ht')
  | queued => exact .inl (hold ht')
  | already => exact .inl (hold ht')
  | waiting => exact .inl (hold ht')
  | picked => exact .inl (hold ht')
  | saved => exact .inl (hold ht')
  | completed => exact .inl (hold ht')
  | untriaged => exact .inl (hold ht')

/-- A turn with a quality had one before, or has just been triaged; if it was scored by then, its
package job is there. -/
theorem Did.quality_origin {su : Setup} {d : Draw} {v v' : Venue} {a : Deed} (hd : Did su d v a v')
    {t' : TurnRecord} (ht' : t' ∈ v'.db.turns) (hq : t'.quality.isSome) :
    (∃ t ∈ v.db.turns, t.id = t'.id ∧ t.quality.isSome) ∨
      a = .triaged t'.id ∧ (t'.status = .scored → v'.db.hasJob .package t'.id = true) := by
  have hold : ∀ {db : Db}, db.turns = v.db.turns → t' ∈ db.turns →
      ∃ t ∈ v.db.turns, t.id = t'.id ∧ t.quality.isSome :=
    fun he h ↦ ⟨t', he ▸ h, rfl, hq⟩
  have hlater : ∀ {t u : TurnRecord}, t ∈ v.db.turns → u.id = t.id → u.quality = t.quality →
      t' ∈ (v.db.putTurn u).turns → ∃ t ∈ v.db.turns, t.id = t'.id ∧ t.quality.isSome := by
    intro t u ht hid hqu h
    rcases (Db.mem_putTurn ht hid).mp h with rfl | ⟨h, -⟩
    · exact ⟨t, ht, hid.symm, hqu ▸ hq⟩
    · exact ⟨t', h, rfl, hq⟩
  have hnew : ∀ n : TurnRecord, n.IsInitial → t' ∈ v.db.turns ++ [n] →
      ∃ t ∈ v.db.turns, t.id = t'.id ∧ t.quality.isSome := by
    intro n hn h
    rcases List.mem_append.mp h with h | h
    · exact ⟨t', h, rfl, hq⟩
    · rw [List.mem_singleton.mp h, hn.quality] at hq
      cases hq
  cases hd with
  | quiet hplayers hqueue hpairs hcards hturns hjobs => exact .inl (hold hturns ht')
  | @paired a b lang queue hactive hactive' hne ha hb hq =>
    rcases List.mem_append.mp ht' with ht' | ht'
    · exact .inl (hold rfl ht')
    · obtain ⟨card, -, rfl⟩ := Option.map_eq_some_iff.mp (Option.mem_toList.mp ht')
      cases hq
  | created => exact .inl (hnew _ (TurnRecord.isInitial_initial ..) ht')
  | @accepted t path durationS ht hs => exact .inl (hlater ht (t.accepted_id path _) rfl ht')
  | @labelled t ht hs => exact .inl (hlater ht t.labelled_id rfl ht')
  | @guessed t t'' correct ht hs hg => exact .inl (hlater ht hg.id hg.quality ht')
  | enqueued => exact .inl (hold (Db.insertJob_turns ..) ht')
  | @triaged t quality db ht hplayers hqueue hpairs hcards hturns hjobs =>
    have hmem : t' ∈ db.turns := ht'
    rw [hturns] at hmem
    rcases (Db.mem_putTurn ht (t.triaged_id _ _)).mp hmem with rfl | ⟨hmem, -⟩
    · refine .inr ⟨rfl, fun hs ↦ ?_⟩
      have hs : t.status = .scored := hs
      show db.hasJob .package t.id = true
      rw [Db.hasJob, hjobs, if_pos hs]
      exact Db.hasJob_insertJob ..
    · exact .inl ⟨t', hmem, rfl, hq⟩
  | queued => exact .inl (hold rfl ht')
  | already => exact .inl (hold rfl ht')
  | waiting => exact .inl (hold rfl ht')
  | picked => exact .inl (hold rfl ht')
  | saved => exact .inl (hold rfl ht')
  | completed => exact .inl (hold rfl ht')
  | untriaged => exact .inl (hold rfl ht')

/-! ## Seats -/

/-- The two seats of the turn are the members of its pair. -/
def Db.Seated (db : Db) (t : TurnRecord) : Prop :=
  ∃ pair ∈ db.pairs, pair.id = t.pairId ∧
    (t.speakerId = pair.playerA ∧ t.guesserId = pair.playerB ∨
      t.speakerId = pair.playerB ∧ t.guesserId = pair.playerA)

theorem Did.seated_kept {su : Setup} {d : Draw} {v v' : Venue} {a : Deed} (hd : Did su d v a v')
    {t t' : TurnRecord} (ht : v.db.Seated t) (hl : t.Later t') : v'.db.Seated t' := by
  obtain ⟨pair, hpair, hid, hseats⟩ := ht
  obtain ⟨pair', hpair', hid', ha, hb⟩ := hd.pair_kept hpair
  refine ⟨pair', hpair', hid'.trans (hid.trans hl.pairId.symm), ?_⟩
  rw [hl.speakerId, hl.guesserId, ha, hb]
  exact hseats

/-- Everybody stays seated, if the players of a turn that `create_turn` makes are. -/
theorem Did.seated {su : Setup} {d : Draw} {v v' : Venue} {a : Deed} (hd : Did su d v a v')
    (h : ∀ t ∈ v.db.turns, v.db.Seated t) (hcreated : ∀ t, a = .created t → v'.db.Seated t) :
    ∀ t ∈ v'.db.turns, v'.db.Seated t := by
  intro t ht
  have hold : ∀ t₀ ∈ v.db.turns, t₀.Later t → v'.db.Seated t := fun t₀ ht₀ hl ↦
    hd.seated_kept (h t₀ ht₀) hl
  cases hd.turnsStep with
  | same ha he => exact hold t (he ▸ ht) (.refl t)
  | dealt ha hn hid hp hpair he =>
    rw [he] at ht
    rcases List.mem_append.mp ht with ht | ht
    · exact hold t ht (.refl t)
    · rw [List.mem_singleton] at ht
      subst ht
      obtain ⟨pair, hmem, hpair⟩ := List.mem_map.mp hpair
      rw [Prod.mk.injEq, Prod.mk.injEq] at hpair
      exact ⟨pair, hmem, hpair.1, .inl ⟨hpair.2.1.symm, hpair.2.2.symm⟩⟩
  | created hn hid he =>
    rw [he] at ht
    rcases List.mem_append.mp ht with ht | ht
    · exact hold t ht (.refl t)
    · rw [List.mem_singleton] at ht
      subst ht
      exact hcreated t rfl
  | moved ha hu hl hs hattempts he =>
    rw [he] at ht
    rcases (Db.mem_putTurn hu hl.id).mp ht with rfl | ⟨ht, -⟩
    · exact hold _ hu hl
    · exact hold t ht (.refl t)
  | guessed hu hs hg he =>
    have hl := hg.later hs
    rw [he] at ht
    rcases (Db.mem_putTurn hu hl.id).mp ht with rfl | ⟨ht, -⟩
    · exact hold _ hu hl
    · exact hold t ht (.refl t)

end Neva
