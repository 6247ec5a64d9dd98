import Neva.Pact

/-!
# Accepted audio is triaged

`upload_audio` accepts the audio and enqueues its triage in two commits.  Between the two the upload
*owes* the job: nobody else will ever insert it, for the turn has left `awaiting_audio` and every
later upload of it is refused.  `owing i` reads the debt of program `i` off the story.

So a turn past `awaiting_audio` either has its triage job or is owed one by an upload, and a turn
that is owed one has none.  If uploads are never lost while they owe a job, then whenever none is in
progress every such turn has its job; that is `accepted_triaged`.  `acceptedUntriaged` is a run in
which one is lost.
-/

set_option autoImplicit false

namespace Neva

open Calls Tables

/-! ## Who owes a job -/

/-- The turn whose audio program `i` has accepted and not yet handed to triage. -/
def owing (i : ℕ) : Story → Option Uuid
  | [] => none
  | (j, a) :: st =>
    if j = i then
      match a with
      | .accepted t => some t.id
      | .enqueued .triage _ => none
      | _ => owing i st
    else owing i st

/-- The deed is the acceptance or the enqueueing of an upload. -/
def Deed.isUploading : Deed → Bool
  | .accepted _ => true
  | .enqueued kind _ => kind == .triage
  | _ => false

theorem owing_ne {i j : ℕ} (h : j ≠ i) (a : Deed) (st : Story) :
    owing i ((j, a) :: st) = owing i st :=
  if_neg h

theorem owing_other {i j : ℕ} {a : Deed} (ha : a.isUploading = false) (st : Story) :
    owing i ((j, a) :: st) = owing i st := by
  by_cases hj : j = i
  · cases a with
    | accepted t => cases ha
    | enqueued kind turnId =>
      cases kind with
      | triage => cases ha
      | package => exact if_pos hj
    | _ => exact if_pos hj
  · exact owing_ne hj a st

theorem owing_accepted (i : ℕ) (t : TurnRecord) (st : Story) :
    owing i ((i, .accepted t) :: st) = some t.id :=
  if_pos rfl

theorem owing_enqueued (i : ℕ) (turnId : Uuid) (st : Story) :
    owing i ((i, .enqueued .triage turnId) :: st) = none :=
  if_pos rfl

theorem owing_eq_none {i : ℕ} {st : Story} (h : ∀ x ∈ st, x.1 < i) : owing i st = none := by
  induction st with
  | nil => rfl
  | cons x st ih =>
    rw [show owing i (x :: st) = owing i st from owing_ne (h x List.mem_cons_self).ne x.2 st]
    exact ih fun y hy ↦ h y (List.mem_cons_of_mem _ hy)

/-! ## The pact -/

/-- The turn is past `awaiting_audio` and has no triage job. -/
def Db.Untriaged (db : Db) (turnId : Uuid) : Prop :=
  (∃ t ∈ db.turns, t.id = turnId ∧ t.status ≠ .awaitingAudio) ∧ db.hasJob .triage turnId = false

/-- **A turn past `awaiting_audio` has its triage job, or is owed one.** -/
structure Accepted (sc : Scene) : Prop where
  jobs : ∀ turnId, sc.venue.db.hasJob .triage turnId = true →
    ∃ t ∈ sc.venue.db.turns, t.id = turnId ∧ t.status ≠ .awaitingAudio
  paid : ∀ t ∈ sc.venue.db.turns, t.status ≠ .awaitingAudio →
    sc.venue.db.hasJob .triage t.id = true ∨ ∃ i, owing i sc.story = some t.id
  owed : ∀ i turnId, owing i sc.story = some turnId → sc.venue.db.Untriaged turnId
  /-- A job is owed by one upload only. -/
  alone : ∀ i j turnId, owing i sc.story = some turnId → owing j sc.story = some turnId → i = j
  upload : ∀ i turnId, owing i sc.story = some turnId →
    ∃ player payload, sc.requests[i]? = some (.uploadAudio player payload)

/-- No program is lost while it owes a job. -/
def Conditions.Paying (C : Conditions) : Prop := ∀ i sc, C.lose i sc → owing i sc.story = none

/-- The pact of the uploads: whoever enqueues a triage job owes it. -/
def accepted (C : Conditions) : Pact where
  inv := Accepted
  pre i a sc :=
    match a with
    | .accepted _ => owing i sc.story = none ∧
      ∃ player payload, sc.requests[i]? = some (.uploadAudio player payload)
    | .enqueued kind turnId => kind = .triage → owing i sc.story = some turnId
    | _ => True
  post q i _ sc :=
    match q with
    | .uploadAudio _ _ => C.Paying → owing i sc.story = none
    | _ => True
  gone i sc := C.Paying → owing i sc.story = none

namespace Accepted

variable {su : Setup} {C : Conditions} {i : ℕ} {q : Request}

section

variable {a : Deed} {d : Draw} {sc : Scene} {v : Venue}

theorem past_kept (h : (accepted C).Step su C i a d sc v) {turnId : Uuid}
    (hp : ∃ t ∈ sc.venue.db.turns, t.id = turnId ∧ t.status ≠ .awaitingAudio) :
    ∃ t ∈ v.db.turns, t.id = turnId ∧ t.status ≠ .awaitingAudio := by
  obtain ⟨t, ht, hid, hs⟩ := hp
  obtain ⟨t', ht', hl⟩ := h.did.turnsStep.kept h.tidy ht
  exact ⟨t', ht', hl.id.trans hid, hl.past hs⟩

/-- Only the one who owes a job enqueues it. -/
theorem untriaged_kept (h : (accepted C).Step su C i a d sc v) {turnId : Uuid}
    (hu : sc.venue.db.Untriaged turnId) (hne : a ≠ .enqueued .triage turnId) :
    v.db.Untriaged turnId := by
  refine ⟨past_kept h hu.1, Bool.eq_false_iff.mpr fun hjob ↦ ?_⟩
  rcases h.did.hasJob_triage hjob with hold | hnew
  · rw [hu.2] at hold
    cases hold
  · exact hne hnew

/-- Where a debt comes from: it is old, and not the program's own to pay, or it is new. -/
theorem owing_origin (h : (accepted C).Step su C i a d sc v) {j : ℕ} {turnId : Uuid}
    (ho : owing j ((i, a) :: sc.story) = some turnId) :
    (owing j sc.story = some turnId ∧ a ≠ .enqueued .triage turnId) ∨
      ∃ t, j = i ∧ a = .accepted t ∧ t.id = turnId := by
  by_cases hj : j = i
  · subst hj
    cases a with
    | accepted t =>
      rw [owing_accepted] at ho
      exact .inr ⟨t, rfl, rfl, Option.some.inj ho⟩
    | enqueued kind turnId' =>
      cases kind with
      | triage =>
        rw [owing_enqueued] at ho
        cases ho
      | package =>
        rw [owing_other rfl] at ho
        exact .inl ⟨ho, nofun⟩
    | _ =>
      rw [owing_other rfl] at ho
      exact .inl ⟨ho, nofun⟩
  · rw [owing_ne (Ne.symm hj)] at ho
    refine .inl ⟨ho, ?_⟩
    rintro rfl
    -- somebody else's debt is not the program's to pay
    exact hj (h.inv.alone j i turnId ho (h.pre rfl))

/-- A turn whose audio is being accepted has no job, and nobody owes it one. -/
theorem not_past_of_accepted {t : TurnRecord}
    (h : (accepted C).Step su C i (.accepted t) d sc v) :
    ¬∃ t' ∈ sc.venue.db.turns, t'.id = t.id ∧ t'.status ≠ .awaitingAudio := by
  rintro ⟨t', ht', hid, hs'⟩
  obtain ⟨t₀, ht₀, hid₀, hs₀⟩ := h.did.accepted_turn.1
  rw [h.tidy.turnIds.eq ht' ht₀ (hid.trans hid₀.symm)] at hs'
  exact hs' hs₀

theorem not_owing_of_accepted {t : TurnRecord} (h : (accepted C).Step su C i (.accepted t) d sc v)
    (j : ℕ) : owing j sc.story ≠ some t.id :=
  fun ho ↦ not_past_of_accepted h (h.inv.owed j t.id ho).1

/-- A debt that is not paid stays. -/
theorem owing_kept (h : (accepted C).Step su C i a d sc v) {j : ℕ} {turnId : Uuid}
    (ho : owing j sc.story = some turnId) (hne : a ≠ .enqueued .triage turnId) :
    owing j ((i, a) :: sc.story) = some turnId := by
  by_cases hj : j = i
  · subst hj
    cases a with
    | accepted t =>
      have hnone : owing j sc.story = none := h.pre.1
      rw [hnone] at ho
      cases ho
    | enqueued kind turnId' =>
      cases kind with
      | triage =>
        have hpre : owing j sc.story = some turnId' := h.pre rfl
        rw [hpre] at ho
        exact absurd (by rw [Option.some.inj ho]) hne
      | package => exact (owing_other rfl _).trans ho
    | _ => exact (owing_other rfl _).trans ho
  · exact (owing_ne (Ne.symm hj) a _).trans ho

theorem after (h : (accepted C).Step su C i a d sc v) : Accepted (sc.after i a v) where
  jobs turnId hjob := by
    rcases h.did.hasJob_triage hjob with hold | rfl
    · exact past_kept h (h.inv.jobs turnId hold)
    · exact past_kept h (h.inv.owed i turnId (h.pre rfl)).1
  paid t ht hs := by
    rcases h.did.audio_origin ht hs with ⟨t₀, ht₀, hid, hs₀, -⟩ | rfl
    · rw [← hid]
      rcases h.inv.paid t₀ ht₀ hs₀ with hjob | ⟨j, ho⟩
      · exact .inl (h.did.hasJob_kept hjob)
      · by_cases ha : a = .enqueued .triage t₀.id
        · subst ha
          exact .inl h.did.hasJob_enqueued
        · exact .inr ⟨j, owing_kept h ho ha⟩
    · exact .inr ⟨i, owing_accepted i t _⟩
  owed j turnId ho := by
    rcases owing_origin h ho with ⟨hold, hne⟩ | ⟨t, rfl, rfl, rfl⟩
    · exact untriaged_kept h (h.inv.owed j turnId hold) hne
    · obtain ⟨-, ht, hs⟩ := h.did.accepted_turn
      refine ⟨⟨t, ht, rfl, hs.trans_ne nofun⟩, Bool.eq_false_iff.mpr fun hjob ↦ ?_⟩
      rcases h.did.hasJob_triage hjob with hold | hnew
      · exact not_past_of_accepted h (h.inv.jobs t.id hold)
      · cases hnew
  alone j k turnId hj hk := by
    rcases owing_origin h hj with ⟨hj', -⟩ | ⟨t, rfl, rfl, rfl⟩
    · rcases owing_origin h hk with ⟨hk', -⟩ | ⟨t, rfl, rfl, rfl⟩
      · exact h.inv.alone j k turnId hj' hk'
      · exact absurd hj' (not_owing_of_accepted h j)
    · rcases owing_origin h hk with ⟨hk', -⟩ | ⟨t', rfl, -⟩
      · exact absurd hk' (not_owing_of_accepted h k)
      · rfl
  upload j turnId ho := by
    rcases owing_origin h ho with ⟨hold, -⟩ | ⟨t, rfl, rfl, rfl⟩
    · exact h.inv.upload j turnId hold
    · exact h.pre.2

end

/-! ### The upload -/

theorem stable_owing (o : Option Uuid) :
    (accepted C).Stable su C i fun sc ↦ owing i sc.story = o :=
  .own (owing i) (fun _ hj a st ↦ owing_ne hj a st) (· = o)

theorem stable_post (q : Request) (r : Except Failure Reply) :
    (accepted C).Stable su C i ((accepted C).post q i r) := by
  cases q with
  | uploadAudio player payload =>
    exact .own (owing i) (fun _ hj a st ↦ owing_ne hj a st) (fun o ↦ C.Paying → o = none)
  | requestPair | confirmLabel | guess | completePair | triage | setDeckStatus => exact .true i

/-- What an upload knows while it owes nothing. -/
theorem carried_upload (player : Uuid) (payload : Bytes) :
    (accepted C).Carried su C (·.isUploading = false) i (.uploadAudio player payload) fun sc ↦
      sc.requests[i]? = some (.uploadAudio player payload) ∧ owing i sc.story = none where
  stable := (Pact.Stable.request i i _).and (stable_owing none)
  pre a sc ha _ _ := by
    cases a with
    | accepted t => cases ha
    | enqueued kind turnId =>
      cases kind with
      | triage => cases ha
      | package => exact nofun
    | _ => exact trivial
  own a d sc v ha _ hP := ⟨hP.1, (owing_other ha _).trans hP.2⟩
  gone _ _ hP _ _ := hP.2
  error _ _ hP _ := hP.2
  errorStable _ := stable_post _ _

/-- The insertion of the job, which settles the debt. -/
theorem safe_enqueue (player : Uuid) (payload : Bytes) (turnId : Uuid) :
    (accepted C).Safe su C i (.uploadAudio player payload)
      (GameService.store (.enqueueJob .triage turnId) >>= fun _ ↦ pure .ok)
      fun sc ↦ owing i sc.story = some turnId := by
  refine Pact.safe_call (stable_owing _) (fun e ↦ stable_post _ _) ?_ ?_ ?_ ?_
  · exact fun sc _ _ _ hl ↦ ⟨fun hp ↦ hp i sc hl, fun e hp ↦ hp i sc hl⟩
  · intro sc d htidy _ _ _ ho
    obtain ⟨hr, -⟩ := su.backend.promise su.cfg htidy d (.enqueueJob .triage turnId)
    rw [VenueOp.exec, hr]
    exact fun _ ↦ ho
  · intro sc d e h _ he
    obtain ⟨hr, -⟩ := su.backend.promise su.cfg h.tidy d (.enqueueJob .triage turnId)
    rw [VenueOp.exec, hr] at he
    cases he
  · intro sc d b h _ hr
    rw [hr]
    exact ⟨_, owing_enqueued i turnId sc.story,
      Pact.safe_return (stable_owing none) fun _ _ ho _ ↦ ho⟩

theorem safe_upload (player : Uuid) (payload : Bytes) :
    (accepted C).Safe su C i (.uploadAudio player payload)
      ((Request.uploadAudio player payload).body su) fun sc ↦
      sc.requests[i]? = some (.uploadAudio player payload) ∧ owing i sc.story = none := by
  have hc := @carried_upload su C i player payload
  have hreturn : ∀ reply, (accepted C).Safe su C i (.uploadAudio player payload) (pure reply) _ :=
    fun _ ↦ Pact.safe_return hc.stable fun _ _ hP _ ↦ hP.2
  rw [Request.body, GameService.uploadAudio]
  split_ifs
  · exact hreturn _
  · refine Pact.safe_requireSpeakerTurn hc rfl player _ fun turn ↦ ?_
    refine Pact.safe_quiet hc (fun r ↦ by cases r <;> rfl) fun result ↦ ?_
    split_ifs
    · exact hreturn _
    · refine Pact.safe_call hc.stable hc.errorStable ?_ ?_ ?_ ?_
      · exact fun sc _ _ hP _ ↦ ⟨fun _ ↦ hP.2, fun _ _ ↦ hP.2⟩
      · intro sc d _ _ _ _ hP
        cases ((VenueOp.store (.acceptAudio turn.id (.webm turn.id) (result.durationS.getD 0))).exec
          su d sc.venue).1 with
        | ok t => exact ⟨hP.2, player, payload, hP.1⟩
        | error e => exact trivial
      · intro sc d e h hP hr
        rw [hr]
        exact fun _ ↦ (owing_other rfl _).trans hP.2
      · intro sc d t h hP hr
        refine ⟨_, ?_, safe_enqueue player payload turn.id⟩
        rcases su.backend.promise su.cfg h.tidy d
          (.acceptAudio turn.id (.webm turn.id) (result.durationS.getD 0)) with
          ⟨⟨e, he⟩, -⟩ | ⟨t₀, t', -, hid, ⟨-, rfl⟩, hok, -⟩
        · rw [VenueOp.exec, he] at hr
          cases hr
        · have ht : t = t₀.accepted (.webm turn.id)
              (su.backend.keepDuration (result.durationS.getD 0)) := by
            rw [VenueOp.exec, hok] at hr
            exact (Except.ok.inj hr).symm
          rw [hr, ht, ← hid]
          exact owing_accepted ..

theorem body_of_not_uploading (hq : ∀ a, q.Does a → a.isUploading = false)
    (hpost : ∀ r sc, (accepted C).post q i r sc) :
    ∃ P : Scene → Prop, (accepted C).Safe su C i q (q.body su) P ∧
      ∀ sc : Scene, (accepted C).known sc → (accepted C).inv sc → (∀ x ∈ sc.story, x.1 < i) →
        sc.requests.length = i → P (sc.spawned q) := by
  refine Pact.body_of_idle ?_ (fun sc _ _ hl hp ↦ hp i sc hl) hpost
  intro a sc ha _ _
  cases a with
  | accepted t => exact absurd (hq _ ha) nofun
  | enqueued kind turnId =>
    rintro rfl
    exact absurd (hq _ ha) nofun
  | _ => exact trivial

theorem sound (su : Setup) (C : Conditions) : (accepted C).Sound su C where
  spawn sc r h := by
    refine ⟨h.jobs, h.paid, h.owed, h.alone, fun i turnId ho ↦ ?_⟩
    obtain ⟨player, payload, hq⟩ := h.upload i turnId ho
    exact ⟨player, payload, Scene.getElem?_spawned hq r⟩
  after _ _ _ _ _ h := after h
  gone i := .own (owing i) (fun _ hj a st ↦ owing_ne hj a st) (fun o ↦ C.Paying → o = none)
  body i q := by
    cases q with
    | uploadAudio player payload =>
      refine ⟨_, safe_upload player payload, fun sc _ _ hold hlen ↦ ⟨?_, owing_eq_none hold⟩⟩
      rw [← hlen]
      exact List.getElem?_concat_length
    | guess player optionId =>
      refine body_of_not_uploading (fun a ha ↦ ?_) fun _ _ ↦ trivial
      cases a with
      | enqueued kind turnId =>
        have hkind : kind = .package := ha
        rw [hkind]
        rfl
      | accepted t => exact ha.elim
      | _ => rfl
    | requestPair | confirmLabel | completePair | triage | setDeckStatus =>
      refine body_of_not_uploading (fun a ha ↦ ?_) fun _ _ ↦ trivial
      cases a <;> first | rfl | exact ha.elim

theorem opening {v : Venue} (hv : v.Opening) : Accepted ⟨[], v, []⟩ := by
  refine ⟨fun turnId hjob ↦ ?_, fun t ht ↦ ?_, nofun, nofun, nofun⟩
  · obtain ⟨j, hj, -⟩ := Db.hasJob_iff.mp hjob
    rw [hv.jobs] at hj
    exact absurd hj List.not_mem_nil
  · rw [hv.turns] at ht
    exact absurd ht List.not_mem_nil

end Accepted

/-! ## The result -/

/-- **Accepted audio is triaged**, in every run in which no program is lost while it owes a job:
whenever no upload is in progress, every turn past `awaiting_audio` has its triage job.  The
condition is what it takes, for a turn that is owed a job has none. -/
theorem accepted_triaged {su : Setup} {C : Conditions}
    {c : Config VenueOp Failure Request Venue Reply} (h : (venue su).Reach (C.terms su) c) :
    ((∀ i sc, C.lose i sc → owing i sc.story = none) →
      (∀ (i : ℕ) player payload t, c.world.requests[i]? = some (.uploadAudio player payload) →
        c.threads[i]? = some t → t.running = false) →
      ∀ t ∈ c.world.state.db.turns, t.status ≠ .awaitingAudio →
        c.world.state.db.hasJob .triage t.id = true) ∧
    ∀ i turnId, owing i (story c.world.trace) = some turnId →
      (∃ t ∈ c.world.state.db.turns, t.id = turnId ∧ t.status ≠ .awaitingAudio) ∧
        c.world.state.db.hasJob .triage turnId = false := by
  have hgood : (accepted C).Good su C c :=
    (Accepted.sound su C).good (fun _ hv ↦ Accepted.opening hv) (fun _ _ ↦ trivial) h
  have hinv : Accepted (scene c.world) := hgood.here.2
  refine ⟨fun hpaying hquiet t ht hs ↦ ?_, hinv.owed⟩
  rcases hinv.paid t ht hs with hjob | ⟨i, ho⟩
  · exact hjob
  · -- the upload that owes the job has ended or died, and neither leaves a debt
    obtain ⟨player, payload, hq⟩ := hinv.upload i t.id ho
    have hnone : owing i (story c.world.trace) = none := by
      rcases hgood.ended hq (hquiet i player payload · hq ·) with ⟨r, hpost⟩ | hgone
      · exact hpost hpaying
      · exact hgone hpaying
    exact absurd (hnone.symm.trans ho) nofun

/-! ## A run on the condition, and one that is not -/

/-- Programs are lost only while they owe nothing. -/
def losesUnowing : Conditions where
  lose i sc := owing i sc.story = none

instance (i : ℕ) (a : Deed) (sc : Scene) : Decidable (losesUnowing.may i a sc) := isTrue trivial

instance (i : ℕ) (sc : Scene) : Decidable (losesUnowing.lose i sc) :=
  inferInstanceAs (Decidable (owing i sc.story = none))

/-- An upload dies before its audio is accepted, and is repeated. -/
theorem accepted_triaged_again :
    ∃ c, (venue defaultSetup).Reach (losesUnowing.terms defaultSetup) c ∧
    ∃ t ∈ c.world.state.db.turns, t.status ≠ .awaitingAudio ∧
      c.world.state.db.hasJob .triage t.id = true := by
  obtain ⟨c, hc, hrun⟩ := System.exists_reach_of_runOn
    (losesUnowing.allows_of_permits defaultSetup) opening_threePlayers
    (show ((venue defaultSetup).runOn (losesUnowing.permits defaultSetup)
      (System.start threePlayers) (pairUp ++ .spawn (.uploadAudio 1 [0, 0]) :: calls 2 8 3 ++
        .kill 2 :: .spawn (.uploadAudio 1 [0, 0]) :: calls 3 11 5)).map (fun c ↦ c.quiet &&
        c.world.state.db.turns.any fun t ↦ t.status != .awaitingAudio) = some true
      by decide +kernel)
  rw [Bool.and_eq_true] at hrun
  obtain ⟨t, ht, hs⟩ := List.any_eq_true.mp hrun.2
  have hjob := (accepted_triaged hc).1 (fun _ _ hl ↦ hl)
    (fun _ _ _ _ _ ht ↦ Config.running_of_quiet hrun.1 ht) t ht (bne_iff_ne.mp hs)
  exact ⟨c, hc, t, ht, bne_iff_ne.mp hs, hjob⟩

/-- An upload dies between accepting its audio and enqueueing the triage.  Nothing is in progress,
and the turn has no triage job. -/
theorem acceptedUntriaged : ∃ c, (venue defaultSetup).Reachable c ∧
    (∀ (i : ℕ) t, c.threads[i]? = some t → t.running = false) ∧
    ∃ t ∈ c.world.state.db.turns, t.status ≠ .awaitingAudio ∧
      c.world.state.db.hasJob .triage t.id = false := by
  obtain ⟨c, hc, hrun⟩ := System.exists_reachable_of_run opening_threePlayers
    (show ((venue defaultSetup).run (System.start threePlayers)
      (pairUp ++ .spawn (.uploadAudio 1 [0, 0]) :: calls 2 8 4 ++ [.kill 2])).map
        (fun c ↦ c.quiet &&
        c.world.state.db.turns.any fun t ↦ t.status != .awaitingAudio &&
          !c.world.state.db.hasJob .triage t.id) = some true by decide +kernel)
  rw [Bool.and_eq_true] at hrun
  obtain ⟨t, ht, hs⟩ := List.any_eq_true.mp hrun.2
  rw [Bool.and_eq_true, Bool.not_eq_true'] at hs
  exact ⟨c, hc, fun i t ht ↦ Config.running_of_quiet hrun.1 ht, t, ht, bne_iff_ne.mp hs.1, hs.2⟩

end Neva
