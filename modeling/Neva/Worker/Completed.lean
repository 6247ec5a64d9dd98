import Neva.Worker.Jobs

/-!
# Completed jobs

Of all the steps that move a job, only `fail_job` may take it out of `complete`: a claim needs a
pending job, a recovery one that is being processed, and completing twice changes nothing.  So a
completed job stays completed exactly as long as no worker fails a job that has been completed in
the meantime (`job_stays_complete`), and `completedReopened` is a run in which one does: its claim
went stale and was recovered while it was still at work, and a second worker was faster.

Nothing like this happens when a claim is only recovered from a worker that is no longer running.
That takes an invariant of the interleaving, `Held`: a job somebody is still at work on is being
processed, and by nobody else.  The contract `claims` supplies the half of it that is about the
programs: a worker completes and fails only the job it has claimed.
-/

set_option autoImplicit false

namespace Neva

open Calls Tables

/-- The configurations of a gauntlet. -/
abbrev Shift := Config GauntletOp Failure Errand Venue Unit

/-- **A completed job is still completed.** -/
def Db.CompleteKept (db db' : Db) : Prop :=
  ∀ j ∈ db.jobs, j.status = .complete → ∃ j' ∈ db'.jobs, j'.id = j.id ∧ j'.status = .complete

namespace Db

variable {db db' db'' : Db}

theorem CompleteKept.refl (db : Db) : db.CompleteKept db := fun j hj hs ↦ ⟨j, hj, rfl, hs⟩

theorem CompleteKept.trans (h : db.CompleteKept db') (h' : db'.CompleteKept db'') :
    db.CompleteKept db'' := by
  intro j hj hs
  obtain ⟨j', hj', hid, hs'⟩ := h j hj hs
  obtain ⟨j'', hj'', hid', hs''⟩ := h' j' hj' hs'
  exact ⟨j'', hj'', hid'.trans hid, hs''⟩

theorem completeKept_of_subset (h : db.jobs ⊆ db'.jobs) : db.CompleteKept db' :=
  fun j hj hs ↦ ⟨j, h hj, rfl, hs⟩

theorem completeKept_mapJobs {f : JobRow → JobRow} (hf : JobRow.Keeps f)
    (h : ∀ j ∈ db.jobs, j.status = .complete → (f j).status = .complete) :
    db.CompleteKept (db.mapJobs f) :=
  fun j hj hs ↦ ⟨f j, mem_mapJobs.mpr ⟨j, hj, rfl⟩, hf.id j, h j hj hs⟩

/-- After an update of the job with an identifier: that job, and the others. -/
theorem mem_updateJob {id : Uuid} {f : JobRow → JobRow} {j' : JobRow} :
    j' ∈ (db.updateJob id f).jobs ↔
      (∃ j ∈ db.jobs, j.id = id ∧ f j = j') ∨ j' ∈ db.jobs ∧ j'.id ≠ id := by
  rw [updateJob, mem_mapJobs]
  constructor
  · rintro ⟨j, hj, rfl⟩
    split
    · rename_i hid
      exact .inl ⟨j, hj, hid, rfl⟩
    · rename_i hid
      exact .inr ⟨hj, hid⟩
  · rintro (⟨j, hj, hid, rfl⟩ | ⟨hj, hid⟩)
    · exact ⟨j, hj, if_pos hid⟩
    · exact ⟨j', hj, if_neg hid⟩

end Db

/-! ## Which step reopens a job -/

/-- The call does not fail a job that is complete. -/
def OnTime (db : Db) : {β : Type} → GauntletOp β → Prop
  | _, .jobs (.failJob job _ _ _) => ∀ j ∈ db.jobs, j.id = job.id → j.status ≠ .complete
  | _, _ => True

/-- No worker fails a job that has been completed in the meantime. -/
def noLateFailure : Terms GauntletOp Failure JobDraw Errand Venue where
  may _ op _ w := OnTime w.state.db op
  lose _ _ := True

/-- Failing a job that is complete is what reopens it. -/
theorem Repository.completeKept_failJob (db : Db) (now : Time)
    (job : Job) (error : Text) (retryDelay : Time) (maxTries : ℕ) :
    db.CompleteKept (failJob db now job error retryDelay maxTries).2 ↔
      ∀ j ∈ db.jobs, j.id = job.id → j.status ≠ .complete := by
  obtain ⟨f, hf, hstatus, heq⟩ := failJob_spec db now job error retryDelay maxTries
  rw [heq]
  constructor
  · intro hkept j hj hid hs
    obtain ⟨j', hj', hid', hs'⟩ := hkept j hj hs
    rcases Db.mem_updateJob.mp hj' with ⟨j₀, -, -, rfl⟩ | ⟨-, hne⟩
    · rcases hstatus j₀ with h₀ | h₀ <;> exact absurd (h₀.symm.trans hs') nofun
    · exact hne (hid'.trans hid)
  · intro hnone j hj hs
    refine ⟨j, Db.mem_updateJob.mpr (.inr ⟨hj, fun hid ↦ hnone j hj hid hs⟩), rfl, hs⟩

/-- **One step keeps the completed jobs if and only if it is not a late failure.** -/
theorem GauntletOp.completeKept_iff {g : Gauntlet} {i : ℕ} {d : JobDraw} {β : Type}
    (op : GauntletOp β) {w : World GauntletOp Failure Errand Venue} (h : w.state.db.Sorted) :
    w.state.db.CompleteKept (op.exec g d w.state).2.db ↔ noLateFailure.may i op d w := by
  cases op with
  | venue op =>
    have hdid := op.did g.setup d.draw h.tidy
    exact ⟨fun _ ↦ trivial, fun _ ↦ Db.completeKept_of_subset hdid.job_kept⟩
  | jobs op =>
    show w.state.db.CompleteKept (op.exec d w.state.db).2 ↔ _
    cases op with
    | failJob job error retryDelay maxTries =>
      exact Repository.completeKept_failJob w.state.db d.draw.now job error retryDelay maxTries
    | recoverStaleClaims staleAfter =>
      have hf : JobRow.Keeps JobRow.recovered := ⟨fun _ ↦ rfl, fun _ ↦ rfl⟩
      refine ⟨fun _ ↦ trivial, fun _ ↦ Db.completeKept_mapJobs
        (hf.ite fun j ↦ j.stale staleAfter d.draw.now = true) fun j hj hs ↦ ?_⟩
      refine (congrArg JobRow.status (if_neg fun hstale ↦ ?_)).trans hs
      rw [JobRow.stale, hs] at hstale
      cases hstale
    | claimNextJob =>
      refine ⟨fun _ ↦ trivial, fun _ ↦ ?_⟩
      rcases Repository.claimNextJob_spec w.state.db d.draw.now d.locked with
        heq | ⟨row, hrow, hpending, heq⟩
      · rw [JobOp.exec, heq]
        exact .refl _
      · rw [JobOp.exec, heq]
        intro j hj hs
        refine ⟨j, Db.mem_updateJob.mpr (.inr ⟨hj, fun hid ↦ ?_⟩), rfl, hs⟩
        rw [h.jobIds.eq hj hrow hid, hpending] at hs
        cases hs
    | completeJob jobId =>
      have hf : JobRow.Keeps (·.completed d.draw.now) := ⟨fun _ ↦ rfl, fun _ ↦ rfl⟩
      refine ⟨fun _ ↦ trivial, fun _ ↦ Db.completeKept_mapJobs (hf.ite fun j ↦ j.id = jobId)
        fun j hj hs ↦ ?_⟩
      split
      · rfl
      · exact hs

/-- The same of an event. -/
theorem completeKept_iff_allows {g : Gauntlet} {c c' : Shift} {e : Event Errand JobDraw Failure}
    (h : c.world.state.db.Sorted) (he : (gauntlet g).fire c e = some c') :
    c.world.state.db.CompleteKept c'.world.state.db ↔ noLateFailure.Allows c e := by
  exact System.iff_allows_of_fire (T := noLateFailure)
    (R := fun w ↦ c.world.state.db.CompleteKept w.state.db) he (fun _ _ ↦ trivial) (.refl _)
    (fun _ ↦ .refl _) fun _ _ op _ _ _ _ ↦ op.completeKept_iff h

/-! ## Who holds a claim -/

/-- What a call makes of the claim of the program that makes it. -/
def claimAfter : {β : Type} → GauntletOp β → Except Failure β → Option Job → Option Job
  | _, .jobs .claimNextJob, .ok job, _ => job
  | _, .jobs (.completeJob _), _, _ => none
  | _, .jobs (.failJob _ _ _ _), _, _ => none
  | _, _, _, held => held

/-- The job program `i` has claimed, and neither completed nor failed. -/
def held (i : ℕ) : List (ℕ × Past GauntletOp Failure) → Option Job
  | [] => none
  | (j, a) :: trace => if j = i then claimAfter a.op a.answer (held i trace) else held i trace

theorem held_own (i : ℕ) (a : Past GauntletOp Failure)
    (trace : List (ℕ × Past GauntletOp Failure)) :
    held i ((i, a) :: trace) = claimAfter a.op a.answer (held i trace) :=
  if_pos rfl

theorem held_other {i j : ℕ} (h : j ≠ i) (a : Past GauntletOp Failure)
    (trace : List (ℕ × Past GauntletOp Failure)) : held i ((j, a) :: trace) = held i trace :=
  if_neg h

/-- A program that has not made a call holds no claim. -/
theorem held_eq_none {i : ℕ} {trace : List (ℕ × Past GauntletOp Failure)}
    (h : ∀ x ∈ trace, x.1 < i) : held i trace = none := by
  induction trace with
  | nil => rfl
  | cons x trace ih =>
    obtain ⟨j, a⟩ := x
    have hj : j ≠ i := (h (j, a) List.mem_cons_self).ne
    rw [held_other hj]
    exact ih fun x hx ↦ h x (List.mem_cons_of_mem _ hx)

/-- A worker that holds the claim may make the call. -/
def Rightful (limits : GauntletLimits) (held : Option Job) : {β : Type} → GauntletOp β → Prop
  | _, .jobs (.completeJob jobId) => ∃ job, held = some job ∧ job.id = jobId
  | _, .jobs (.failJob job _ _ maxTries) => held = some job ∧ maxTries = limits.maxTries
  | _, _ => True

/-- A worker completes and fails only the job it has claimed. -/
def claims (limits : GauntletLimits) : Contract GauntletOp Failure Errand Venue Unit where
  known _ := True
  inv _ := True
  pre i op w := Rightful limits (held i w.trace) op
  post _ _ _ _ := True
  gone _ _ := True

namespace Claims

variable {g : Gauntlet} {i : ℕ}
    {Q : Except Failure Unit → World GauntletOp Failure Errand Venue → Prop}

/-- What a program holds, no other program can take from it. -/
theorem stable (i : ℕ) (p : Option Job → Prop) :
    (claims g.setup.limits).Stable (gauntlet g) .any i fun w ↦ p (held i w.trace) :=
  Contract.Stable.of_own (held i) (fun _ hj a trace ↦ held_other hj a trace) p

/-- A program whose calls need nothing. -/
theorem safe_lift {α : Type} (p : Prog VenueOp Failure α) :
    (claims g.setup.limits).Safe (gauntlet g) .any i (fun _ _ ↦ True)
      (p.lift GauntletOp.venue >>= fun _ ↦ pure ()) fun _ ↦ True := by
  induction p with
  | done r =>
    cases r with
    | ok a => exact ⟨.true i, fun _ _ _ ↦ trivial⟩
    | error e => exact ⟨.true i, fun _ _ _ ↦ trivial⟩
  | call op k ih =>
    exact ⟨.true i, fun w _ _ ↦ ⟨trivial, fun _ ↦ ⟨trivial, fun e ↦ ⟨_, trivial, ih (.error e)⟩⟩,
      fun d _ _ ↦ ⟨_, trivial, ih _⟩⟩⟩

/-- The attempt at a job that has been claimed. -/
theorem safe_attempt (job : Job) (handler : Prog VenueOp Failure Reply) :
    (claims g.setup.limits).Safe (gauntlet g) .any i (fun _ _ ↦ True)
      ((GauntletService.attempt g job handler >>= fun _ ↦ pure true) >>= fun _ ↦ pure ())
      fun w ↦ held i w.trace = some job := by
  have hstable := @stable g i (· = some job)
  have hdone : ∀ r,
      (claims g.setup.limits).Safe (gauntlet g) .any i (fun _ _ ↦ True) (.done r) fun _ ↦ True :=
    fun r ↦ ⟨.true i, fun _ _ _ ↦ trivial⟩
  -- whatever went wrong, the job is failed
  have hfail : ∀ e, (claims g.setup.limits).Safe (gauntlet g) .any i (fun _ _ ↦ True)
      ((((Prog.perform (.jobs (.failJob job (GauntletService.safeError g e)
        (g.setup.limits.retryBase * 2 ^ (job.tries - 1)) g.setup.limits.maxTries)) >>= fun _ ↦
          pure ()) : Prog GauntletOp Failure Unit) >>= fun _ ↦ pure true) >>= fun _ ↦ pure ())
      fun w ↦ held i w.trace = some job := by
    exact fun e ↦ ⟨hstable, fun w _ hw ↦ ⟨⟨hw, rfl⟩, fun _ ↦ ⟨trivial, fun e ↦
      ⟨fun _ ↦ True, trivial, hdone (.error e)⟩⟩, fun d _ _ ↦ ⟨_, trivial, hdone _⟩⟩⟩
  rw [GauntletService.attempt]
  induction handler with
  | done r =>
    cases r with
    | ok reply =>
      refine ⟨hstable, fun w _ hw ↦ ⟨⟨job, hw, rfl⟩, fun _ ↦ ⟨trivial, fun e ↦ ⟨_, hw, hfail e⟩⟩,
        fun d _ _ ↦ ⟨_, trivial, hdone _⟩⟩⟩
    | error e => exact hfail e
  | call op k ih =>
    refine ⟨hstable, fun w _ hw ↦ ⟨trivial, fun _ ↦ ⟨trivial, fun e ↦ ⟨_, hw, ih (.error e)⟩⟩,
      fun d _ _ ↦ ⟨_, ?_, ih _⟩⟩⟩
    exact (held_own i _ w.trace).trans hw

theorem sound (g : Gauntlet) : (claims g.setup.limits).Sound (gauntlet g) .any where
  spawn _ _ _ := trivial
  call _ _ _ _ _ _ _ _ _ := trivial
  gone i := .true i
  body w errand _ _ := by
    refine ⟨fun _ ↦ True, trivial, ?_⟩
    cases errand with
    | request r => exact safe_lift _
    | recoverStaleClaims =>
      show (claims g.setup.limits).Safe _ _ _ _
        (GauntletService.recoverStaleClaims g >>= fun _ ↦ pure ()) _
      refine Contract.safe_perform (.true _) (fun _ ↦ .true _) (fun _ _ _ ↦ trivial)
        (fun _ _ _ _ ↦ ⟨trivial, fun _ ↦ trivial⟩) (fun _ _ _ _ _ _ _ _ ↦ trivial) ?_
      exact fun _ _ _ _ _ _ _ _ ↦ ⟨_, trivial, Contract.safe_pure (.true _) fun _ _ _ ↦ trivial⟩
    | processOnce found =>
      show (claims g.setup.limits).Safe _ _ _ _
        (GauntletService.processOnce g found >>= fun _ ↦ pure ()) _
      rw [GauntletService.processOnce, Prog.bind_assoc]
      refine Contract.safe_perform (.true _) (fun _ ↦ .true _) (fun _ _ _ ↦ trivial)
        (fun _ _ _ _ ↦ ⟨trivial, fun _ ↦ trivial⟩) (fun _ _ _ _ _ _ _ _ ↦ trivial) ?_
      intro w' d job _ _ _ _ hjob
      cases job with
      | none =>
        exact ⟨fun _ ↦ True, trivial, Contract.safe_pure (.true _) fun _ _ _ ↦ trivial⟩
      | some job =>
        refine ⟨_, ?_, safe_attempt job (GauntletService.handle job found)⟩
        show held _ ((_, ⟨_, _⟩) :: w'.trace) = some job
        rw [hjob]
        exact held_own _ _ w'.trace

end Claims

/-- Program `i` is still at work on the job it has claimed. -/
def AtWork (c : Shift) (i : ℕ) (job : Job) : Prop :=
  held i c.world.trace = some job ∧ ∃ t, c.threads[i]? = some t ∧ t.running = true

/-- **A job somebody is at work on is being processed, and by nobody else.** -/
structure Held (c : Shift) : Prop where
  processing : ∀ i job, AtWork c i job →
    ∃ j ∈ c.world.state.db.jobs, j.id = job.id ∧ j.status = .processing
  alone : ∀ i i' job job', AtWork c i job → AtWork c i' job' → job.id = job'.id → i = i'

/-- A claim is only recovered from a worker that is no longer running. -/
def sparesRunning (c : Shift) : Event Errand JobDraw Failure → Prop
  | .step i d => ∀ staleAfter k, c.threads[i]? = some (.live (.call
      (.jobs (.recoverStaleClaims staleAfter)) k)) → ∀ j ∈ c.world.state.db.jobs,
        j.stale staleAfter d.draw.now = true → ∀ i' job, AtWork c i' job → job.id ≠ j.id
  | _ => True

namespace Held

variable {g : Gauntlet} {c : Shift} {i : ℕ} {d : JobDraw}

/-- Nothing that is known about the workers depends on more than who is at work on what. -/
theorem of_atWork {c' : Shift} (h : Held c)
    (hwork : ∀ i job, AtWork c' i job → AtWork c i job)
    (hjobs : ∀ i job, AtWork c' i job → ∀ j ∈ c.world.state.db.jobs, j.id = job.id →
      j.status = .processing → ∃ j' ∈ c'.world.state.db.jobs, j'.id = job.id ∧
        j'.status = .processing) : Held c' where
  processing i job hw := by
    obtain ⟨j, hj, hid, hs⟩ := h.processing i job (hwork i job hw)
    exact hjobs i job hw j hj hid hs
  alone i i' job job' hw hw' := h.alone i i' job job' (hwork i job hw) (hwork i' job' hw')

/-- After a call of program `i`, the others are at work on what they were. -/
theorem atWork_other {t : Thread GauntletOp Failure Unit} {a : Past GauntletOp Failure}
    {v : Venue} {i' : ℕ} {job : Job} (hne : i ≠ i')
    (hw : AtWork ⟨⟨v, (i, a) :: c.world.trace, c.world.requests⟩, c.threads.set i t⟩ i' job) :
    AtWork c i' job := by
  obtain ⟨hheld, t', ht', hrun⟩ := hw
  refine ⟨(held_other hne a _).symm.trans hheld, t', ?_, hrun⟩
  rw [← ht']
  exact (List.getElem?_set_ne hne).symm

/-- Program `i` itself is at work on what its call has made of its claim. -/
theorem held_of_atWork {t : Thread GauntletOp Failure Unit} {a : Past GauntletOp Failure}
    {v : Venue} {job : Job}
    (hw : AtWork ⟨⟨v, (i, a) :: c.world.trace, c.world.requests⟩, c.threads.set i t⟩ i job) :
    claimAfter a.op a.answer (held i c.world.trace) = some job :=
  (held_own i a _).symm.trans hw.1

/-- A call that leaves the claims alone, and every job somebody is at work on. -/
theorem keep {t : Thread GauntletOp Failure Unit} {a : Past GauntletOp Failure} {v : Venue}
    (h : Held c) (hrun : ∀ job, held i c.world.trace = some job → AtWork c i job)
    (ha : ∀ job, claimAfter a.op a.answer (held i c.world.trace) = some job →
      held i c.world.trace = some job)
    (hjobs : ∀ i' job, AtWork c i' job → ∀ j ∈ c.world.state.db.jobs, j.id = job.id →
      j.status = .processing → j ∈ v.db.jobs) :
    Held ⟨⟨v, (i, a) :: c.world.trace, c.world.requests⟩, c.threads.set i t⟩ := by
  have hwork : ∀ i' job, AtWork ⟨⟨v, (i, a) :: c.world.trace, c.world.requests⟩,
      c.threads.set i t⟩ i' job → AtWork c i' job := by
    intro i' job hw
    by_cases hi : i = i'
    · subst hi
      exact hrun job (ha job (held_of_atWork hw))
    · exact atWork_other hi hw
  exact h.of_atWork hwork fun i' job hw j hj hid hs ↦
    ⟨j, hjobs i' job (hwork i' job hw) j hj hid hs, hid, hs⟩

/-- Completing or failing a job ends the work on it. -/
theorem release {t : Thread GauntletOp Failure Unit} {a : Past GauntletOp Failure} {v : Venue}
    {job : Job} {f : JobRow → JobRow} (h : Held c) (hw : AtWork c i job)
    (ha : claimAfter a.op a.answer (held i c.world.trace) = none)
    (hv : v.db = c.world.state.db.updateJob job.id f) :
    Held ⟨⟨v, (i, a) :: c.world.trace, c.world.requests⟩, c.threads.set i t⟩ := by
  have hother : ∀ i' job', AtWork ⟨⟨v, (i, a) :: c.world.trace, c.world.requests⟩,
      c.threads.set i t⟩ i' job' → i ≠ i' ∧ AtWork c i' job' := by
    intro i' job' hw'
    have hi : i ≠ i' := by
      rintro rfl
      have hheld := held_of_atWork hw'
      rw [ha] at hheld
      cases hheld
    exact ⟨hi, atWork_other hi hw'⟩
  refine h.of_atWork (fun i' job' hw' ↦ (hother i' job' hw').2) fun i' job' hw' j hj hid hs ↦ ?_
  refine ⟨j, ?_, hid, hs⟩
  show j ∈ v.db.jobs
  rw [hv]
  refine Db.mem_updateJob.mpr (.inr ⟨hj, fun he ↦ (hother i' job' hw').1 ?_⟩)
  exact h.alone i i' job job' hw (hother i' job' hw').2 (he.symm.trans hid)

/-- Claiming a pending job, which nobody is at work on. -/
theorem claim {t : Thread GauntletOp Failure Unit} {a : Past GauntletOp Failure} {v : Venue}
    {row : JobRow} {now : Time} (h : Held c) (hs : c.world.state.db.Sorted)
    (hrow : row ∈ c.world.state.db.jobs) (hpending : row.status = .pending)
    (ha : claimAfter a.op a.answer (held i c.world.trace) = some (row.claimed now).job)
    (hv : v.db = c.world.state.db.updateJob row.id (·.claimed now)) :
    Held ⟨⟨v, (i, a) :: c.world.trace, c.world.requests⟩, c.threads.set i t⟩ := by
  -- nobody else is at work on the job
  have hfree : ∀ i' job, AtWork c i' job → job.id ≠ row.id := by
    intro i' job hw hid
    obtain ⟨j, hj, hjid, hprocessing⟩ := h.processing i' job hw
    rw [hs.jobIds.eq hj hrow (hjid.trans hid), hpending] at hprocessing
    cases hprocessing
  have hown : ∀ job, AtWork ⟨⟨v, (i, a) :: c.world.trace, c.world.requests⟩,
      c.threads.set i t⟩ i job → job.id = row.id := by
    intro job hw
    have hheld := held_of_atWork hw
    rw [ha] at hheld
    cases hheld
    rfl
  refine ⟨fun i' job hw ↦ ?_, fun i₁ i₂ job₁ job₂ hw₁ hw₂ hid ↦ ?_⟩
  · show ∃ j ∈ v.db.jobs, _
    rw [hv]
    by_cases hi : i = i'
    · subst hi
      exact ⟨_, Db.mem_updateJob.mpr (.inl ⟨row, hrow, rfl, rfl⟩), (hown job hw).symm, rfl⟩
    · have hw' := atWork_other hi hw
      obtain ⟨j, hj, hjid, hprocessing⟩ := h.processing i' job hw'
      have hne : j.id ≠ row.id := fun he ↦ hfree i' job hw' (hjid.symm.trans he)
      exact ⟨j, Db.mem_updateJob.mpr (.inr ⟨hj, hne⟩), hjid, hprocessing⟩
  · by_cases h₁ : i = i₁
    · subst h₁
      by_contra h₂
      exact hfree i₂ job₂ (atWork_other h₂ hw₂) (hid.symm.trans (hown job₁ hw₁))
    · by_cases h₂ : i = i₂
      · subst h₂
        exact absurd (hid.trans (hown job₂ hw₂)) (hfree i₁ job₁ (atWork_other h₁ hw₁))
      · exact h.alone i₁ i₂ job₁ job₂ (atWork_other h₁ hw₁) (atWork_other h₂ hw₂) hid

/-- A call of a program that keeps to its claim. -/
theorem step {β : Type} {op : GauntletOp β} {k : Except Failure β → Prog GauntletOp Failure Unit}
    (h : Held c) (hs : c.world.state.db.Sorted) (ht : c.threads[i]? = some (.live (.call op k)))
    (hpre : Rightful g.setup.limits (held i c.world.trace) op)
    (hspare : sparesRunning c (.step i d)) :
    Held ⟨(gauntlet g).after i op d c.world, c.threads.set i
      (.live (k (op.exec g d c.world.state).1))⟩ := by
  have hrun : ∀ job, held i c.world.trace = some job → AtWork c i job :=
    fun job hheld ↦ ⟨hheld, _, ht, rfl⟩
  cases op with
  | venue op =>
    have hdid := op.did g.setup d.draw hs.tidy
    exact h.keep hrun (fun _ hheld ↦ hheld) fun _ _ _ j hj _ _ ↦ hdid.job_kept hj
  | jobs op =>
    cases op with
    | recoverStaleClaims staleAfter =>
      refine h.keep hrun (fun _ hheld ↦ hheld) fun i' job hw j hj hid hprocessing ↦ ?_
      refine List.mem_map.mpr ⟨j, hj, if_neg fun hstale ↦ ?_⟩
      exact hspare staleAfter k ht j hj hstale i' job hw hid.symm
    | claimNextJob =>
      rcases Repository.claimNextJob_spec c.world.state.db d.draw.now d.locked with
        heq | ⟨row, hrow, hpending, heq⟩
      · refine h.keep hrun (fun job hjob ↦ ?_) fun i' job _ j hj _ _ ↦ ?_
        · exact absurd ((congrArg Prod.fst heq).symm.trans hjob) nofun
        · show j ∈ (Repository.claimNextJob _ _ _).2.jobs
          rw [heq]
          exact hj
      · exact @claim c i _ _ _ row d.draw.now h hs hrow hpending (congrArg Prod.fst heq)
          (congrArg Prod.snd heq)
    | completeJob jobId =>
      obtain ⟨job, hheld, rfl⟩ := hpre
      exact h.release (hrun job hheld) rfl rfl
    | failJob job error retryDelay maxTries =>
      obtain ⟨f, -, -, heq⟩ :=
        Repository.failJob_spec c.world.state.db d.draw.now job error retryDelay maxTries
      exact h.release (hrun job hpre.1) rfl heq

/-- An event that changes nothing but what is left to run of a program that was running. -/
theorem set_thread {t t' : Thread GauntletOp Failure Unit} (h : Held c)
    (ht : c.threads[i]? = some t) (hrun : t.running = true) :
    Held ⟨c.world, c.threads.set i t'⟩ := by
  refine h.of_atWork (fun i' job hw ↦ ⟨hw.1, ?_⟩) fun _ _ _ j hj hid hs ↦ ⟨j, hj, hid, hs⟩
  by_cases hi : i = i'
  · exact hi ▸ ⟨t, ht, hrun⟩
  · obtain ⟨t'', ht'', hrun'⟩ := hw.2
    exact ⟨t'', (List.getElem?_set_ne hi).symm.trans ht'', hrun'⟩

/-- A program that has just been started holds nothing. -/
theorem spawn (h : Held c) (hgood : (claims g.setup.limits).Good (gauntlet g) .any c) (r : Errand) :
    Held ⟨c.world.spawned r, c.threads ++ [.live ((gauntlet g).body r)]⟩ := by
  refine h.of_atWork (fun i job hw ↦ ⟨hw.1, ?_⟩) fun _ _ _ j hj hid hs ↦ ⟨j, hj, hid, hs⟩
  obtain ⟨t, ht, hrun⟩ := hw.2
  rcases Nat.lt_or_ge i c.threads.length with hi | hi
  · exact ⟨t, (List.getElem?_append_left hi).symm.trans ht, hrun⟩
  · have hnone : held i c.world.trace = none :=
      held_eq_none fun x hx ↦ (hgood.old x hx).trans_le (hgood.length ▸ hi)
    exact absurd (hnone.symm.trans hw.1) nofun

theorem fire {c' : Shift} {e : Event Errand JobDraw Failure} (h : Held c)
    (hc : (gauntlet g).Reachable c) (hspare : sparesRunning c e)
    (he : (gauntlet g).fire c e = some c') : Held c' := by
  have hgood := (Claims.sound g).good (fun _ _ ↦ trivial) (fun _ _ ↦ trivial) hc
  cases e with
  | spawn r =>
    cases he
    exact h.spawn hgood r
  | step i d =>
    obtain ⟨β, op, k, ht, -, rfl⟩ := System.fire_step he
    exact h.step (sorted_of_reach hc) ht (hgood.pre ht) hspare
  | fault i e =>
    obtain ⟨β, op, k, ht, rfl⟩ := System.fire_fault he
    exact h.set_thread ht rfl
  | kill i =>
    obtain ⟨β, op, k, ht, rfl⟩ := System.fire_kill he
    exact h.set_thread ht rfl

theorem start (v : Venue) : Held (System.start v) where
  processing _ _ hw := absurd hw.1 nofun
  alone _ _ _ _ hw := absurd hw.1 nofun

/-- While claims are only recovered from workers that are no longer running, no job is failed
late. -/
theorem allows (h : Held c) (hc : (gauntlet g).Reachable c) (e : Event Errand JobDraw Failure) :
    noLateFailure.Allows c e := by
  have hgood := (Claims.sound g).good (fun _ _ ↦ trivial) (fun _ _ ↦ trivial) hc
  cases e with
  | spawn | fault | kill => exact trivial
  | step i d =>
    intro β op k ht
    have hpre := hgood.pre ht
    cases op with
    | venue op => exact trivial
    | jobs op =>
      cases op with
      | failJob job error retryDelay maxTries =>
        intro j hj hid hs
        obtain ⟨j', hj', hid', hs'⟩ := h.processing i job ⟨hpre.1, _, ht, rfl⟩
        rw [(sorted_of_reach hc).jobIds.eq hj hj' (hid.trans hid'.symm), hs'] at hs
        cases hs
      | recoverStaleClaims | claimNextJob | completeJob => exact trivial

theorem leads {c' : Shift} (h : Held c) (hc : (gauntlet g).Reachable c)
    (hl : (gauntlet g).Leads sparesRunning c c') : Held c' := by
  induction hl with
  | refl => exact h
  | fire hl hspare he ih => exact ih.fire (hl.reachable hc) hspare he

end Held

/-! ## The result -/

/-- Runs without a late failure keep every completed job. -/
theorem completeKept_of_leads {g : Gauntlet} {P : Shift → Event Errand JobDraw Failure → Prop}
    {c c' : Shift} (hc : (gauntlet g).Reachable c)
    (hP : ∀ c', (gauntlet g).Leads P c c' → ∀ e, P c' e → noLateFailure.Allows c' e)
    (h : (gauntlet g).Leads P c c') : c.world.state.db.CompleteKept c'.world.state.db := by
  induction h with
  | refl => exact .refl _
  | fire h hp he ih =>
    exact ih.trans ((completeKept_iff_allows (sorted_of_reach (h.reachable hc)) he).mpr
      (hP _ h _ hp))

/-- **A completed job stays completed as long as no job is failed late.**  An event leaves every
completed job completed if and only if it is not the failure of a job that is complete; so a run
without such events keeps all of them.  And no such event occurs in a run in which claims are only
recovered from workers that are no longer running. -/
theorem job_stays_complete (g : Gauntlet) :
    (∀ c, (gauntlet g).Reachable c → ∀ e c', (gauntlet g).fire c e = some c' →
      (c.world.state.db.CompleteKept c'.world.state.db ↔ noLateFailure.Allows c e)) ∧
    (∀ c c', (gauntlet g).Reachable c → (gauntlet g).Leads noLateFailure.Allows c c' →
      c.world.state.db.CompleteKept c'.world.state.db) ∧
    ∀ v c c', v.Opening → (gauntlet g).Leads sparesRunning (System.start v) c →
      (gauntlet g).Leads sparesRunning c c' →
        c.world.state.db.CompleteKept c'.world.state.db := by
  refine ⟨fun c hc e c' he ↦ completeKept_iff_allows (sorted_of_reach hc) he,
    fun c c' hc h ↦ completeKept_of_leads hc (fun _ _ _ he ↦ he) h, fun v c c' hv h h' ↦ ?_⟩
  have hc := h.reachable (.start hv)
  have hheld := (Held.start v).leads (.start hv) h
  exact completeKept_of_leads hc
    (fun c'' h'' e _ ↦ (hheld.leads hc h'').allows (h''.reachable hc) e) h'

/-! ## A run on the conditions, and one that is not -/

instance (db : Db) : {β : Type} → (op : GauntletOp β) → Decidable (OnTime db op)
  | _, .jobs (.failJob job _ _ _) =>
    inferInstanceAs (Decidable (∀ j ∈ db.jobs, j.id = job.id → j.status ≠ .complete))
  | _, .venue _ | _, .jobs (.recoverStaleClaims _) | _, .jobs .claimNextJob
  | _, .jobs (.completeJob _) => isTrue trivial

instance (β : Type) (i : ℕ) (op : GauntletOp β) (d : JobDraw)
    (w : World GauntletOp Failure Errand Venue) : Decidable (noLateFailure.may i op d w) :=
  inferInstanceAs (Decidable (OnTime w.state.db op))

instance (i : ℕ) (w : World GauntletOp Failure Errand Venue) :
    Decidable (noLateFailure.lose i w) := isTrue trivial

def defaultGauntlet : Gauntlet where
  setup := defaultSetup
  describe _ := ([], [])

/-- `count` calls of program `i`, the first of them the `n`-th of the run. -/
def shiftCalls (i n count : ℕ) : List (Event Errand JobDraw Failure) :=
  (List.range count).map fun k ↦ .step i ⟨.nth (n + k), []⟩

/-- Players 1 and 2 are paired and player 1 uploads; program 3 claims the triage job. -/
def firstClaim (found : Findings) : List (Event Errand JobDraw Failure) :=
  .spawn (.request (.requestPair 1)) :: shiftCalls 0 0 4 ++
    .spawn (.request (.requestPair 2)) :: shiftCalls 1 4 4 ++
    .spawn (.request (.uploadAudio 1 [0, 0])) :: shiftCalls 2 8 5 ++
    .spawn (.processOnce found) :: shiftCalls 3 13 1

/-- The claim goes stale and is recovered, and program 5 claims and completes the job. -/
def secondClaim (found : Findings) : List (Event Errand JobDraw Failure) :=
  .spawn .recoverStaleClaims :: shiftCalls 4 120000014 1 ++
    .spawn (.processOnce found) :: shiftCalls 5 120000015 4

/-- What the work on a good recording comes to. -/
def goodFindings : Findings where
  triaged := .ok (⟨true, true, true, 2, [], false, false, [], 1, [], none⟩, ⟨['a'], [], 20⟩)
  packaged := .ok ()

/-- The first worker dies, a second one completes the job, and a third finds nothing to do. -/
theorem job_stays_complete_recovered : ∃ c c', (gauntlet defaultGauntlet).Reachable c ∧
    (gauntlet defaultGauntlet).Leads noLateFailure.Allows c c' ∧
      (∃ j ∈ c.world.state.db.jobs, j.status = .complete ∧ j.tries = 2) ∧
        c.world.state.db.CompleteKept c'.world.state.db := by
  obtain ⟨c, hc, hrun⟩ := System.exists_reachable_of_run opening_threePlayers
    (show ((gauntlet defaultGauntlet).run (System.start threePlayers)
      (firstClaim goodFindings ++ .kill 3 :: secondClaim goodFindings)).map
        (fun c ↦ c.world.state.db.jobs.any (fun j ↦ j.status == .complete && j.tries == 2) &&
          ((gauntlet defaultGauntlet).runOn noLateFailure.permits c
            (.spawn (.processOnce goodFindings) :: shiftCalls 6 120000030 1)).isSome) =
        some true by decide +kernel)
  rw [Bool.and_eq_true, List.any_eq_true] at hrun
  obtain ⟨⟨j, hj, hdone⟩, hmore⟩ := hrun
  rw [Bool.and_eq_true, beq_iff_eq, beq_iff_eq] at hdone
  obtain ⟨c', hc'⟩ := Option.isSome_iff_exists.mp hmore
  have hl := System.leads_of_runOn noLateFailure.allows_of_permits (.refl c) hc'
  exact ⟨c, c', hc, hl, ⟨j, hj, hdone⟩, (job_stays_complete defaultGauntlet).2.1 c c' hc hl⟩

/-- The first worker is only slow.  Its claim is recovered and the second worker completes the job;
then the first one fails, and the job is pending again. -/
theorem completedReopened : ∃ c e c', (gauntlet defaultGauntlet).Reachable c ∧
    (gauntlet defaultGauntlet).fire c e = some c' ∧
      ¬c.world.state.db.CompleteKept c'.world.state.db := by
  obtain ⟨c, hc, hrun⟩ := System.exists_reachable_of_run opening_threePlayers
    (show ((gauntlet defaultGauntlet).run (System.start threePlayers)
      (firstClaim goodFindings ++ secondClaim goodFindings ++ [.fault 3 .unavailable])).map
        (fun c ↦ c.world.state.db.jobs.any (fun j ↦ j.status == .complete) &&
          ((gauntlet defaultGauntlet).fire c (.step 3 ⟨.nth 120000030, []⟩)).any
            fun c' ↦ c'.world.state.db.jobs.all fun j ↦ j.status == .pending) =
        some true by decide +kernel)
  rw [Bool.and_eq_true, List.any_eq_true] at hrun
  obtain ⟨⟨j, hj, hdone⟩, hlate⟩ := hrun
  cases he : (gauntlet defaultGauntlet).fire c (.step 3 ⟨.nth 120000030, []⟩) with
  | none =>
    rw [he] at hlate
    cases hlate
  | some c' =>
    rw [he] at hlate
    refine ⟨c, _, c', hc, he, fun hkept ↦ ?_⟩
    obtain ⟨j', hj', -, hs'⟩ := hkept j hj (beq_iff_eq.mp hdone)
    rw [beq_iff_eq.mp (List.all_eq_true.mp hlate j' hj')] at hs'
    cases hs'

end Neva
