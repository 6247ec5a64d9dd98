import Neva.Worker.Completed

/-!
# How often a job is claimed

`fail_job` parks a job when the worker that fails it made the last of `max_tries` claims.  Two steps
go round this: `recover_stale_claims` puts a job back to `pending` however often it has been
claimed, and a worker whose claim is long out of date may `fail_job` with the try count it was
handed then.

`withinTries` are the runs without these two.  In such a run every pending job has a try left, which
is the invariant that keeps `tries` within bounds and a parked job parked (`attempts_bounded`).
`claimedTooOften` is a job that kills its worker at every attempt.
-/

set_option autoImplicit false

namespace Neva

open Calls Tables

/-! ## The steps that give a try back -/

/-- The call does not put a job back to `pending` that has no try left. -/
def LeavesTries (limits : GauntletLimits) (now : Time) (db : Db) : {β : Type} → GauntletOp β → Prop
  | _, .jobs (.recoverStaleClaims staleAfter) =>
    ∀ j ∈ db.jobs, j.stale staleAfter now = true → j.tries < limits.maxTries
  | _, .jobs (.failJob job _ _ maxTries) =>
    job.tries < maxTries → ∀ j ∈ db.jobs, j.id = job.id → j.tries < limits.maxTries
  | _, _ => True

/-- The runs in which no job without a try left is put back to `pending`. -/
def withinTries (limits : GauntletLimits) : Terms GauntletOp Failure JobDraw Errand Venue where
  may _ op d w := LeavesTries limits d.draw.now w.state.db op
  lose _ _ := True

/-! ## Counting the tries -/

/-- **Every pending job has a try left**, and only a job without one is parked. -/
structure Db.WithinTries (limits : GauntletLimits) (db : Db) : Prop where
  bound : ∀ j ∈ db.jobs, j.tries ≤ limits.maxTries
  pending : ∀ j ∈ db.jobs, j.status = .pending → j.tries < limits.maxTries
  parked : ∀ j ∈ db.jobs, j.status = .failed → limits.maxTries ≤ j.tries

/-- The claim is on a job that has been claimed at least as often as it says. -/
def Db.Covers (db : Db) (job : Job) : Prop :=
  ∃ j ∈ db.jobs, j.id = job.id ∧ job.tries ≤ j.tries

theorem Db.WithinTries.mapJobs {limits : GauntletLimits} {db : Db} {f : JobRow → JobRow}
    (h : db.WithinTries limits) (hf : ∀ j ∈ db.jobs, f j = j ∨ (f j).tries ≤ limits.maxTries ∧
      ((f j).status = .pending → (f j).tries < limits.maxTries) ∧
      ((f j).status = .failed → limits.maxTries ≤ (f j).tries)) :
    (db.mapJobs f).WithinTries limits := by
  have hall : ∀ j' ∈ (db.mapJobs f).jobs, j'.tries ≤ limits.maxTries ∧
      (j'.status = .pending → j'.tries < limits.maxTries) ∧
      (j'.status = .failed → limits.maxTries ≤ j'.tries) := by
    intro j' hj'
    obtain ⟨j, hj, rfl⟩ := Db.mem_mapJobs.mp hj'
    rcases hf j hj with heq | hnew
    · rw [heq]
      exact ⟨h.bound j hj, h.pending j hj, h.parked j hj⟩
    · exact hnew
  exact ⟨fun j hj ↦ (hall j hj).1, fun j hj ↦ (hall j hj).2.1, fun j hj ↦ (hall j hj).2.2⟩

theorem Db.Covers.mapJobs {db : Db} {f : JobRow → JobRow} {job : Job} (h : db.Covers job)
    (hid : ∀ j, (f j).id = j.id) (htries : ∀ j, j.tries ≤ (f j).tries) :
    (db.mapJobs f).Covers job := by
  obtain ⟨j, hj, hjid, hle⟩ := h
  exact ⟨f j, Db.mem_mapJobs.mpr ⟨j, hj, rfl⟩, (hid j).trans hjid, hle.trans (htries j)⟩

/-- The two ways `fail_job` goes. -/
theorem Repository.failJob_cases (db : Db) (now : Time) (job : Job) (error : Text)
    (retryDelay : Time) (maxTries : ℕ) :
    (maxTries ≤ job.tries ∧ (failJob db now job error retryDelay maxTries).2 =
      db.updateJob job.id (·.parked (error.take 500) now)) ∨
    (job.tries < maxTries ∧ (failJob db now job error retryDelay maxTries).2 =
      db.updateJob job.id (·.retried (error.take 500) (now + retryDelay))) := by
  rw [failJob]
  split
  · rename_i hle
    exact .inl ⟨hle, rfl⟩
  · rename_i hlt
    exact .inr ⟨by omega, rfl⟩

/-- The claims never go back. -/
theorem JobOp.covers {β : Type} (op : JobOp β) (d : JobDraw) {db : Db} {job : Job}
    (h : db.Covers job) : (op.exec d db).2.Covers job := by
  have hupdate : ∀ (id : Uuid) (f : JobRow → JobRow), (∀ j, (f j).id = j.id) →
      (∀ j, j.tries ≤ (f j).tries) → (db.updateJob id f).Covers job := by
    intro id f hid htries
    refine h.mapJobs (fun j ↦ ?_) fun j ↦ ?_
    all_goals
      split
    exacts [hid j, rfl, htries j, Nat.le_refl _]
  cases op with
  | recoverStaleClaims staleAfter =>
    refine h.mapJobs (fun j ↦ ?_) fun j ↦ ?_
    all_goals
      split
    exacts [rfl, rfl, Nat.le_refl _, Nat.le_refl _]
  | claimNextJob =>
    rcases Repository.claimNextJob_spec db d.draw.now d.locked with heq | ⟨row, -, -, heq⟩
    · rw [JobOp.exec, heq]
      exact h
    · rw [JobOp.exec, heq]
      exact hupdate _ _ (fun _ ↦ rfl) fun j ↦ Nat.le_succ j.tries
  | completeJob jobId => exact hupdate _ _ (fun _ ↦ rfl) fun _ ↦ Nat.le_refl _
  | failJob failed error retryDelay maxTries =>
    rw [JobOp.exec]
    rcases Repository.failJob_cases db d.draw.now failed error retryDelay maxTries with
      ⟨-, heq⟩ | ⟨-, heq⟩
    all_goals
      rw [heq]
      exact hupdate _ _ (fun _ ↦ rfl) fun _ ↦ Nat.le_refl _

/-- What is known of the tries in a run. -/
structure Counted (limits : GauntletLimits) (w : World GauntletOp Failure Errand Venue) : Prop where
  within : w.state.db.WithinTries limits
  covers : ∀ i job, held i w.trace = some job → w.state.db.Covers job

namespace Counted

variable {g : Gauntlet} {i : ℕ} {d : JobDraw} {w : World GauntletOp Failure Errand Venue}

theorem within_after {β : Type} {op : GauntletOp β} (h : Counted g.setup.limits w)
    (hs : w.state.db.Sorted) (hmax : 0 < g.setup.limits.maxTries)
    (hpre : Rightful g.setup.limits (held i w.trace) op)
    (hm : LeavesTries g.setup.limits d.draw.now w.state.db op) :
    (op.exec g d w.state).2.db.WithinTries g.setup.limits := by
  cases op with
  | venue op =>
    have hdid := op.did g.setup d.draw hs.tidy
    rcases hdid.jobs with heq | ⟨kind, turnId, heq⟩
    · exact ⟨heq ▸ h.within.bound, heq ▸ h.within.pending, heq ▸ h.within.parked⟩
    · have hnew : ∀ j ∈ (op.exec g.setup d.draw w.state).2.db.jobs, j ∈ w.state.db.jobs ∨
          j = JobRow.initial d.draw.uuid kind turnId d.draw.now := by
        simp [heq]
      refine ⟨fun j hj ↦ ?_, fun j hj hp ↦ ?_, fun j hj hf ↦ ?_⟩
      all_goals rcases hnew j hj with hj | rfl
      · exact h.within.bound j hj
      · exact Nat.zero_le _
      · exact h.within.pending j hj hp
      · exact hmax
      · exact h.within.parked j hj hf
      · cases hf
  | jobs op =>
    show (op.exec d w.state.db).2.WithinTries g.setup.limits
    cases op with
    | recoverStaleClaims staleAfter =>
      refine h.within.mapJobs fun j hj ↦ ?_
      split
      · rename_i hstale
        exact .inr ⟨h.within.bound j hj, fun _ ↦ hm j hj hstale, by simp [JobRow.recovered]⟩
      · exact .inl rfl
    | claimNextJob =>
      rcases Repository.claimNextJob_spec w.state.db d.draw.now d.locked with
        heq | ⟨row, hrow, hpending, heq⟩
      · rw [JobOp.exec, heq]
        exact h.within
      · rw [JobOp.exec, heq]
        refine h.within.mapJobs fun j hj ↦ ?_
        split
        · rename_i hid
          have hlt := h.within.pending row hrow hpending
          rw [← hs.jobIds.eq hj hrow hid] at hlt
          exact .inr ⟨hlt, by simp [JobRow.claimed]⟩
        · exact .inl rfl
    | completeJob jobId =>
      refine h.within.mapJobs fun j hj ↦ ?_
      split
      · exact .inr ⟨h.within.bound j hj, by simp [JobRow.completed]⟩
      · exact .inl rfl
    | failJob job error retryDelay maxTries =>
      obtain ⟨hheld, rfl⟩ := hpre
      obtain ⟨row, hrow, hrowid, hle⟩ := h.covers i job hheld
      rw [JobOp.exec]
      rcases Repository.failJob_cases w.state.db d.draw.now job error retryDelay
        g.setup.limits.maxTries with ⟨hlast, heq⟩ | ⟨hleft, heq⟩
      · rw [heq]
        refine h.within.mapJobs fun j hj ↦ ?_
        split
        · rename_i hid
          have hsame := hs.jobIds.eq hj hrow (hid.trans hrowid.symm)
          refine .inr ⟨h.within.bound j hj, by simp [JobRow.parked], fun _ ↦ ?_⟩
          exact hlast.trans (hsame ▸ hle)
        · exact .inl rfl
      · rw [heq]
        refine h.within.mapJobs fun j hj ↦ ?_
        split
        · rename_i hid
          exact .inr ⟨h.within.bound j hj, fun _ ↦ hm hleft j hj hid, by simp [JobRow.retried]⟩
        · exact .inl rfl

theorem covers_after {β : Type} {op : GauntletOp β} (h : Counted g.setup.limits w)
    (hs : w.state.db.Sorted) {i' : ℕ} {job : Job}
    (hheld : held i' ((gauntlet g).after i op d w).trace = some job) :
    (op.exec g d w.state).2.db.Covers job := by
  have hkept : ∀ job, w.state.db.Covers job → (op.exec g d w.state).2.db.Covers job := by
    intro job hcovers
    cases op with
    | venue op =>
      obtain ⟨j, hj, hid⟩ := hcovers
      exact ⟨j, (op.did g.setup d.draw hs.tidy).job_kept hj, hid⟩
    | jobs op => exact op.covers d hcovers
  by_cases hi : i = i'
  · subst hi
    have hclaim := (held_own i _ w.trace).symm.trans hheld
    cases op with
    | venue op => exact hkept job (h.covers i job hclaim)
    | jobs op =>
      cases op with
      | recoverStaleClaims staleAfter => exact hkept job (h.covers i job hclaim)
      | claimNextJob =>
        have hjob : (Repository.claimNextJob w.state.db d.draw.now d.locked).1 = some job := hclaim
        show (Repository.claimNextJob w.state.db d.draw.now d.locked).2.Covers job
        rcases Repository.claimNextJob_spec w.state.db d.draw.now d.locked with
          heq | ⟨row, hrow, -, heq⟩
        all_goals rw [heq] at hjob ⊢
        · cases hjob
        · cases hjob
          exact ⟨_, Db.mem_updateJob.mpr (.inl ⟨row, hrow, rfl, rfl⟩), rfl, Nat.le_refl _⟩
      | completeJob => cases hclaim
      | failJob => cases hclaim
  · exact hkept job (h.covers i' job ((held_other hi _ w.trace).symm.trans hheld))

theorem of_reach {c : Shift} (hmax : 0 < g.setup.limits.maxTries)
    (h : (gauntlet g).Reach (withinTries g.setup.limits) c) : Counted g.setup.limits c.world := by
  induction h with
  | start hv =>
    refine ⟨⟨?_, ?_, ?_⟩, fun _ _ hheld ↦ absurd hheld nofun⟩
    all_goals simp [System.start, hv.jobs]
  | @fire c c' e hc ha he ih =>
    have hgood := (Claims.sound g).good (fun _ _ ↦ trivial) (fun _ _ ↦ trivial) hc.reachable
    cases e with
    | spawn r =>
      cases he
      exact ⟨ih.within, ih.covers⟩
    | step i d =>
      obtain ⟨β, op, k, ht, -, rfl⟩ := System.fire_step he
      have hs := sorted_of_reach hc
      exact ⟨ih.within_after hs hmax (hgood.pre ht) (ha β op k ht), fun _ _ ↦ ih.covers_after hs⟩
    | fault i e =>
      obtain ⟨β, op, k, -, rfl⟩ := System.fire_fault he
      exact ih
    | kill i =>
      obtain ⟨β, op, k, -, rfl⟩ := System.fire_kill he
      exact ih

end Counted

/-! ## Parked jobs -/

/-- The job has used up its tries and is not going to be claimed again. -/
def Db.Settled (limits : GauntletLimits) (db : Db) (id : Uuid) (tries : ℕ) : Prop :=
  limits.maxTries ≤ tries ∧ ∃ j ∈ db.jobs, j.id = id ∧ j.tries = tries ∧
    (j.status = .failed ∨ j.status = .complete)

theorem Db.Settled.mapJobs {limits : GauntletLimits} {db : Db} {f : JobRow → JobRow} {id : Uuid}
    {tries : ℕ} (h : db.Settled limits id tries) (hid : ∀ j, (f j).id = j.id)
    (hf : ∀ j ∈ db.jobs, j.id = id → j.tries = tries → j.status = .failed ∨ j.status = .complete →
      (f j).tries = tries ∧ ((f j).status = .failed ∨ (f j).status = .complete)) :
    (db.mapJobs f).Settled limits id tries := by
  obtain ⟨hle, j, hj, hjid, htries, hstatus⟩ := h
  exact ⟨hle, f j, Db.mem_mapJobs.mpr ⟨j, hj, rfl⟩, (hid j).trans hjid,
    hf j hj hjid htries hstatus⟩

/-- No step on these terms brings a parked job back. -/
theorem GauntletOp.settled {g : Gauntlet} {i : ℕ} {d : JobDraw} {β : Type} {op : GauntletOp β}
    {w : World GauntletOp Failure Errand Venue} {id : Uuid} {tries : ℕ} (hs : w.state.db.Sorted)
    (hpre : Rightful g.setup.limits (held i w.trace) op)
    (hm : LeavesTries g.setup.limits d.draw.now w.state.db op)
    (h : w.state.db.Settled g.setup.limits id tries) :
    (op.exec g d w.state).2.db.Settled g.setup.limits id tries := by
  cases op with
  | venue op =>
    obtain ⟨hle, j, hj, hrest⟩ := h
    exact ⟨hle, j, (op.did g.setup d.draw hs.tidy).job_kept hj, hrest⟩
  | jobs op =>
    show (op.exec d w.state.db).2.Settled g.setup.limits id tries
    have hid : ∀ (f : JobRow → JobRow) (p : JobRow → Prop) [DecidablePred p],
        (∀ j, (f j).id = j.id) → ∀ j, (if p j then f j else j).id = j.id := by
      intro f p _ hf j
      split
      exacts [hf j, rfl]
    cases op with
    | recoverStaleClaims staleAfter =>
      refine h.mapJobs (hid _ _ fun _ ↦ rfl) fun j _ _ htries hstatus ↦ ?_
      split
      · rename_i hstale
        rcases hstatus with hstatus | hstatus <;> simp [JobRow.stale, hstatus] at hstale
      · exact ⟨htries, hstatus⟩
    | claimNextJob =>
      rcases Repository.claimNextJob_spec w.state.db d.draw.now d.locked with
        heq | ⟨row, hrow, hpending, heq⟩
      · rw [JobOp.exec, heq]
        exact h
      · rw [JobOp.exec, heq]
        refine h.mapJobs (hid _ _ fun _ ↦ rfl) fun j hj _ htries hstatus ↦ ?_
        split
        · rename_i hsame
          rw [hs.jobIds.eq hj hrow hsame, hpending] at hstatus
          simp at hstatus
        · exact ⟨htries, hstatus⟩
    | completeJob jobId =>
      refine h.mapJobs (hid _ _ fun _ ↦ rfl) fun j _ _ htries hstatus ↦ ?_
      split
      · exact ⟨htries, .inr rfl⟩
      · exact ⟨htries, hstatus⟩
    | failJob job error retryDelay maxTries =>
      obtain ⟨-, rfl⟩ := hpre
      rw [JobOp.exec]
      rcases Repository.failJob_cases w.state.db d.draw.now job error retryDelay
        g.setup.limits.maxTries with ⟨-, heq⟩ | ⟨hleft, heq⟩
      · rw [heq]
        refine h.mapJobs (hid _ _ fun _ ↦ rfl) fun j _ _ htries hstatus ↦ ?_
        split
        · exact ⟨htries, .inl rfl⟩
        · exact ⟨htries, hstatus⟩
      · rw [heq]
        have hle := h.1
        refine h.mapJobs (hid _ _ fun _ ↦ rfl) fun j hj _ htries hstatus ↦ ?_
        split
        · rename_i hsame
          have hlt := hm hleft j hj hsame
          omega
        · exact ⟨htries, hstatus⟩

theorem settled_of_leads {g : Gauntlet} {c c' : Shift} {id : Uuid} {tries : ℕ}
    (hc : (gauntlet g).Reachable c)
    (hl : (gauntlet g).Leads (withinTries g.setup.limits).Allows c c')
    (h : c.world.state.db.Settled g.setup.limits id tries) :
    c'.world.state.db.Settled g.setup.limits id tries := by
  induction hl with
  | refl => exact h
  | @fire c₁ c₂ e hl ha he ih =>
    have hgood := (Claims.sound g).good (fun _ _ ↦ trivial) (fun _ _ ↦ trivial) (hl.reachable hc)
    cases e with
    | spawn r =>
      cases he
      exact ih
    | step i d =>
      obtain ⟨β, op, k, ht, -, rfl⟩ := System.fire_step he
      exact GauntletOp.settled (sorted_of_reach (hl.reachable hc)) (hgood.pre ht) (ha β op k ht) ih
    | fault i e =>
      obtain ⟨β, op, k, -, rfl⟩ := System.fire_fault he
      exact ih
    | kill i =>
      obtain ⟨β, op, k, -, rfl⟩ := System.fire_kill he
      exact ih

/-! ## One poll later -/

/-- A worker polls for a job. -/
def Polled (g : Gauntlet) (c c'' : Shift) : Prop :=
  ∃ found d c', (gauntlet g).fire c (.spawn (.processOnce found)) = some c' ∧
    (gauntlet g).fire c' (.step c.threads.length d) = some c''

/-- There are always identifiers that have not been used. -/
theorem Db.exists_fresh (db : Db) : ∃ u, db.fresh u = true ∧ db.fresh (u + 1) = true := by
  let used := db.players.map PlayerRecord.id ++ db.pairs.map PairRecord.id ++
    db.turns.map TurnRecord.id ++ db.jobs.map JobRow.id
  have hfresh : ∀ u, used.sum < u → db.fresh u = true := by
    intro u hu
    have hne : ∀ x ∈ used, x ≠ u := fun x hx ↦ ((List.le_sum_of_mem hx).trans_lt hu).ne
    refine Db.fresh_iff.mpr ⟨fun r hr ↦ hne _ ?_, fun r hr ↦ hne _ ?_, fun r hr ↦ hne _ ?_,
      fun r hr ↦ hne _ ?_⟩
    all_goals
      simp only [used, List.mem_append]
    · exact .inl (.inl (.inl (List.mem_map_of_mem hr)))
    · exact .inl (.inl (.inr (List.mem_map_of_mem hr)))
    · exact .inl (.inr (List.mem_map_of_mem hr))
    · exact .inr (List.mem_map_of_mem hr)
  exact ⟨used.sum + 1, hfresh _ (Nat.lt_succ_self _),
    hfresh _ (Nat.lt_succ_of_lt (Nat.lt_succ_self _))⟩

/-- A pending job is claimed by the next poll that finds all others locked. -/
theorem Repository.claimNextJob_only {db : Db} (h : Unique JobRow.id db.jobs) {j : JobRow}
    (hj : j ∈ db.jobs) (hpending : j.status = .pending) :
    claimNextJob db j.availableAt ((db.jobs.map JobRow.id).filter (· ≠ j.id)) =
      (some (j.claimed j.availableAt).job, db.updateJob j.id (·.claimed j.availableAt)) := by
  have hdue : ∀ x ∈ db.jobs.filter fun x ↦
      x.due j.availableAt ((db.jobs.map JobRow.id).filter (· ≠ j.id)), x = j := by
    intro x hx
    simp only [List.mem_filter, JobRow.due, Bool.and_eq_true, decide_eq_true_eq, List.mem_map] at hx
    exact h.eq hx.1 hj (by_contra fun hne ↦ hx.2.2 ⟨⟨x, hx.1, rfl⟩, hne⟩)
  have hmem : j ∈ db.jobs.filter fun x ↦
      x.due j.availableAt ((db.jobs.map JobRow.id).filter (· ≠ j.id)) := by
    simp [JobRow.due, hj, hpending]
  rw [claimNextJob]
  split
  · rename_i hnone
    rw [List.argmin_eq_none] at hnone
    rw [hnone] at hmem
    exact absurd hmem List.not_mem_nil
  · rename_i x hx
    rw [hdue x (List.argmin_mem hx)]

/-- So a pending job can always be claimed once more. -/
theorem exists_polled {g : Gauntlet} {c : Shift} (hs : c.world.state.db.Sorted) {j : JobRow}
    (hj : j ∈ c.world.state.db.jobs) (hpending : j.status = .pending) :
    ∃ c'', Polled g c c'' ∧ j.claimed j.availableAt ∈ c''.world.state.db.jobs := by
  obtain ⟨u, hu, hu'⟩ := c.world.state.db.exists_fresh
  let d : JobDraw := ⟨⟨j.availableAt, u, u + 1, 0, false, false⟩,
    (c.world.state.db.jobs.map JobRow.id).filter (· ≠ j.id)⟩
  have hadmits : (gauntlet g).admits d c.world.state = true := by
    simp [gauntlet, venue, d, hu, hu']
  refine ⟨_, ⟨⟨.error .keyError, .ok ()⟩, d, _, rfl, System.fire_of_thread
    List.getElem?_concat_length hadmits⟩, ?_⟩
  show j.claimed j.availableAt ∈ (Repository.claimNextJob c.world.state.db j.availableAt
    ((c.world.state.db.jobs.map JobRow.id).filter (· ≠ j.id))).2.jobs
  rw [Repository.claimNextJob_only hs.jobIds hj hpending]
  exact Db.mem_updateJob.mpr (.inl ⟨j, hj, rfl, rfl⟩)

/-- **A claim too many is one poll away** exactly after the events that are not on the terms. -/
theorem allows_iff_polled {g : Gauntlet} {c c' : Shift} {e : Event Errand JobDraw Failure}
    (hmax : 0 < g.setup.limits.maxTries)
    (hc : (gauntlet g).Reach (withinTries g.setup.limits) c)
    (he : (gauntlet g).fire c e = some c') :
    (withinTries g.setup.limits).Allows c e ↔ ∀ c'', Polled g c' c'' →
      ∀ j ∈ c''.world.state.db.jobs, j.tries ≤ g.setup.limits.maxTries := by
  constructor
  · rintro ha c'' ⟨found, d, c₁, h₁, h₂⟩
    have hc₁ := (hc.fire ha he).fire
      (show (withinTries g.setup.limits).Allows c' (.spawn (.processOnce found)) from trivial) h₁
    cases h₁
    refine (Counted.of_reach hmax (hc₁.fire (fun β op k ht ↦ ?_) h₂)).within.bound
    rw [List.getElem?_concat_length] at ht
    cases ht
    exact trivial
  · intro hpoll
    -- a job that is pending afterwards has a try left
    have hleft : ∀ j ∈ c'.world.state.db.jobs, j.status = .pending →
        j.tries < g.setup.limits.maxTries := by
      intro j hj hpending
      have hs := sorted_of_reach (hc.reachable.fire (Terms.any_allows c e) he)
      obtain ⟨c'', hc'', hclaimed⟩ := exists_polled hs hj hpending
      exact hpoll c'' hc'' _ hclaimed
    cases e with
    | spawn | fault | kill => exact trivial
    | step i d =>
      obtain ⟨β, op, k, ht, -, rfl⟩ := System.fire_step he
      intro β' op' k' ht'
      rw [ht] at ht'
      cases ht'
      have hgood := (Claims.sound g).good (fun _ _ ↦ trivial) (fun _ _ ↦ trivial) hc.reachable
      have hpre := hgood.pre ht
      cases op with
      | venue op => exact trivial
      | jobs op =>
        cases op with
        | recoverStaleClaims staleAfter =>
          exact fun j hj hstale ↦ hleft j.recovered (Db.mem_mapJobs.mpr ⟨j, hj, if_pos hstale⟩) rfl
        | failJob job error retryDelay maxTries =>
          intro hlt j hj hid
          rcases Repository.failJob_cases c.world.state.db d.draw.now job error retryDelay maxTries
            with ⟨hle, -⟩ | ⟨-, heq⟩
          · omega
          · refine hleft (j.retried (error.take 500) (d.draw.now + retryDelay)) ?_ rfl
            show _ ∈ (Repository.failJob _ _ _ _ _ _).2.jobs
            rw [heq]
            exact Db.mem_updateJob.mpr (.inl ⟨j, hj, hid, rfl⟩)
        | claimNextJob | completeJob => exact trivial

/-! ## The result -/

/-- **The attempts are bounded as long as no job without a try left is put back.**  In a run on
these terms no job is claimed more than `max_tries` times, and a job that has been parked is not
claimed again.  And the terms ask for no more than that: an event is allowed if and only if the
first poll after it leaves every job within its tries. -/
theorem attempts_bounded (g : Gauntlet) (hmax : 0 < g.setup.limits.maxTries) :
    (∀ c, (gauntlet g).Reach (withinTries g.setup.limits) c →
      ∀ j ∈ c.world.state.db.jobs, j.tries ≤ g.setup.limits.maxTries) ∧
    (∀ c c', (gauntlet g).Reach (withinTries g.setup.limits) c →
      (gauntlet g).Leads (withinTries g.setup.limits).Allows c c' →
        ∀ j ∈ c.world.state.db.jobs, j.status = .failed →
          ∃ j' ∈ c'.world.state.db.jobs, j'.id = j.id ∧ j'.tries = j.tries ∧
            (j'.status = .failed ∨ j'.status = .complete)) ∧
    ∀ c e c', (gauntlet g).Reach (withinTries g.setup.limits) c →
      (gauntlet g).fire c e = some c' →
        ((withinTries g.setup.limits).Allows c e ↔ ∀ c'', Polled g c' c'' →
          ∀ j ∈ c''.world.state.db.jobs, j.tries ≤ g.setup.limits.maxTries) := by
  refine ⟨fun c hc ↦ (Counted.of_reach hmax hc).within.bound, fun c c' hc hl j hj hfailed ↦ ?_,
    fun c e c' hc he ↦ allows_iff_polled hmax hc he⟩
  have hstart : c.world.state.db.Settled g.setup.limits j.id j.tries :=
    ⟨(Counted.of_reach hmax hc).within.parked j hj hfailed, j, hj, rfl, rfl, .inl hfailed⟩
  exact (settled_of_leads hc.reachable hl hstart).2

/-! ## A run on the terms, and one that is not -/

instance (limits : GauntletLimits) (now : Time) (db : Db) :
    {β : Type} → (op : GauntletOp β) → Decidable (LeavesTries limits now db op)
  | _, .jobs (.recoverStaleClaims staleAfter) => inferInstanceAs (Decidable
    (∀ j ∈ db.jobs, j.stale staleAfter now = true → j.tries < limits.maxTries))
  | _, .jobs (.failJob job _ _ maxTries) => inferInstanceAs (Decidable (job.tries < maxTries →
    ∀ j ∈ db.jobs, j.id = job.id → j.tries < limits.maxTries))
  | _, .venue _ | _, .jobs .claimNextJob | _, .jobs (.completeJob _) => isTrue trivial

instance (limits : GauntletLimits) (β : Type) (i : ℕ) (op : GauntletOp β) (d : JobDraw)
    (w : World GauntletOp Failure Errand Venue) :
    Decidable ((withinTries limits).may i op d w) :=
  inferInstanceAs (Decidable (LeavesTries limits d.draw.now w.state.db op))

instance (limits : GauntletLimits) (i : ℕ) (w : World GauntletOp Failure Errand Venue) :
    Decidable ((withinTries limits).lose i w) := isTrue trivial

/-- Program `i` is a worker that polls at the `n`-th call of the run and fails at its job. -/
def failingPoll (i n : ℕ) : List (Event Errand JobDraw Failure) :=
  .spawn (.processOnce goodFindings) :: shiftCalls i n 1 ++ [.fault i .unavailable] ++
    shiftCalls i (n + 1) 1

/-- The triage of a recording fails three times, and the job is parked. -/
theorem attempts_bounded_parked : ∃ c,
    (gauntlet defaultGauntlet).Reach (withinTries defaultGauntlet.setup.limits) c ∧
      (∃ j ∈ c.world.state.db.jobs, j.status = .failed ∧ j.tries = 3) ∧
        ∀ j ∈ c.world.state.db.jobs, j.tries ≤ 3 := by
  obtain ⟨c, hc, hrun⟩ := System.exists_reach_of_runOn
    (withinTries defaultGauntlet.setup.limits).allows_of_permits opening_threePlayers
    (show ((gauntlet defaultGauntlet).runOn (withinTries defaultGauntlet.setup.limits).permits
      (System.start threePlayers) (firstClaim goodFindings ++ [.fault 3 .unavailable] ++
        shiftCalls 3 14 1 ++ failingPoll 4 3000000 ++ failingPoll 5 9000000)).map
        (fun c ↦ c.world.state.db.jobs.any fun j ↦ j.status == .failed && j.tries == 3) =
        some true by decide +kernel)
  simp only [List.any_eq_true, Bool.and_eq_true, beq_iff_eq] at hrun
  exact ⟨c, hc, hrun, (attempts_bounded defaultGauntlet (by decide)).1 c hc⟩

/-- Program `i` is a worker that dies at its job, and program `i + 1` recovers the claim after two
minutes. -/
def deadlyPoll (i n : ℕ) : List (Event Errand JobDraw Failure) :=
  .spawn (.processOnce goodFindings) :: shiftCalls i n 1 ++ [.kill i] ++
    .spawn .recoverStaleClaims :: shiftCalls (i + 1) (n + 120000001) 1

/-- **A job that kills its worker is claimed without end.**  The fourth worker claims it although
there are three attempts. -/
theorem claimedTooOften : ∃ c, (gauntlet defaultGauntlet).Reachable c ∧
    ∃ j ∈ c.world.state.db.jobs, defaultGauntlet.setup.limits.maxTries < j.tries := by
  obtain ⟨c, hc, hrun⟩ := System.exists_reachable_of_run opening_threePlayers
    (show ((gauntlet defaultGauntlet).run (System.start threePlayers)
      (firstClaim goodFindings ++ .kill 3 :: .spawn .recoverStaleClaims ::
        shiftCalls 4 130000000 1 ++ deadlyPoll 5 200000000 ++ deadlyPoll 7 400000000 ++
          .spawn (.processOnce goodFindings) :: shiftCalls 9 600000000 1)).map
        (fun c ↦ c.world.state.db.jobs.any fun j ↦
          decide (defaultGauntlet.setup.limits.maxTries < j.tries)) = some true by decide +kernel)
  simp only [List.any_eq_true, decide_eq_true_eq] at hrun
  exact ⟨c, hc, hrun⟩

end Neva
