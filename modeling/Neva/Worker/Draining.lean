import Neva.Calls.Alone
import Neva.Worker.Attempts

/-!
# A worker drains the queue

`attempts_bounded` is about what workers do too often.  This is about what they do at all: a worker
that is left alone with the jobs brings every one of them to an end.

Each round that claims a job uses up one of its tries, or ends it.  `Db.work` counts the claims that
can still be taken: those of the jobs there are, and those of the package job that a triage job may
bring.  A round that claims nothing although every pending job is due finds no work left
(`Db.Progress.of_round`), so after `Db.work` rounds all jobs are complete or have been parked
(`jobs_drain`), whatever the handlers find and wherever the queue was left by its former workers.
-/

set_option autoImplicit false

namespace Neva

open Calls Tables

/-- A sum one term of which is less by `c`, and no term more, is less by `c`. -/
theorem sum_map_add_le {α : Type*} [DecidableEq α] {l : List α} {f g : α → ℕ} {a : α} {c : ℕ}
    (ha : a ∈ l) (h : ∀ x ∈ l, f x ≤ g x) (hc : f a + c ≤ g a) :
    (l.map f).sum + c ≤ (l.map g).sum := by
  have hrest : ((l.erase a).map f).sum ≤ ((l.erase a).map g).sum :=
    List.sum_le_sum fun x hx ↦ h x (List.mem_of_mem_erase hx)
  rw [← List.sum_map_erase f ha, ← List.sum_map_erase g ha]
  omega

/-! ## The work that is left -/

/-- The job is complete, or parked. -/
def JobRow.finished (j : JobRow) : Bool := j.status == .complete || j.status == .failed

/-- The claims a job may still take, and those of the package job its triage may bring. -/
def JobRow.work (maxTries : ℕ) (db : Db) (j : JobRow) : ℕ :=
  if j.finished then 0
  else max 1 (maxTries - j.tries) +
    if j.kind = .triage ∧ db.hasJob .package j.turnId = false then max 1 maxTries else 0

theorem JobRow.work_of_finished {m : ℕ} {db : Db} {j : JobRow} (h : j.finished = true) :
    j.work m db = 0 :=
  if_pos h

theorem JobRow.one_le_work (m : ℕ) (db : Db) {j : JobRow} (h : j.finished = false) :
    1 ≤ j.work m db := by
  rw [JobRow.work, h]
  simp only [Bool.false_eq_true, if_false]
  omega

namespace Db

variable {m : ℕ} {db db' db'' : Db} {job : Job} {f : JobRow → JobRow}

/-- The claims that may still be taken. -/
def work (m : ℕ) (db : Db) : ℕ := (db.jobs.map (JobRow.work m db)).sum

/-- Nobody is at work on a job. -/
def Unclaimed (db : Db) : Prop := ∀ j ∈ db.jobs, j.status ≠ .processing

/-- The job has been claimed, and it is the only one. -/
structure InHand (db : Db) (job : Job) : Prop where
  row : ∃ j ∈ db.jobs, j.job = job ∧ j.status = .processing
  only : ∀ j ∈ db.jobs, j.status = .processing → j.id = job.id

/-- No job is lost or reopened, and none is parked before it has had its tries. -/
structure Advances (m : ℕ) (db db' : Db) : Prop where
  kept : ∀ j ∈ db.jobs, ∃ j' ∈ db'.jobs, j'.id = j.id ∧ j'.kind = j.kind ∧ j'.turnId = j.turnId ∧
    (j.finished = true → j' = j)
  parked : ∀ j' ∈ db'.jobs, j'.status = .failed → j' ∈ db.jobs ∨ m ≤ j'.tries

theorem Advances.refl (m : ℕ) (db : Db) : db.Advances m db :=
  ⟨fun j hj ↦ ⟨j, hj, rfl, rfl, rfl, fun _ ↦ rfl⟩, fun _ hj' _ ↦ .inl hj'⟩

theorem Advances.trans (h : db.Advances m db') (h' : db'.Advances m db'') :
    db.Advances m db'' where
  kept j hj := by
    obtain ⟨j', hj', hid, hkind, hturn, hfin⟩ := h.kept j hj
    obtain ⟨j'', hj'', hid', hkind', hturn', hfin'⟩ := h'.kept j' hj'
    refine ⟨j'', hj'', hid'.trans hid, hkind'.trans hkind, hturn'.trans hturn, fun hj ↦ ?_⟩
    cases hfin hj
    exact hfin' hj
  parked j'' hj'' hs := by
    rcases h'.parked j'' hj'' hs with hj' | hle
    · exact h.parked j'' hj' hs
    · exact .inr hle

/-- An update of the jobs that leaves the finished ones alone and parks none too early. -/
theorem Advances.mapJobs (hf : JobRow.Keeps f)
    (hfin : ∀ j ∈ db.jobs, j.finished = true → f j = j)
    (hparked : ∀ j ∈ db.jobs, (f j).status = .failed → f j = j ∨ m ≤ (f j).tries) :
    db.Advances m (db.mapJobs f) where
  kept j hj := by
    obtain ⟨hkind, hturn⟩ := Prod.mk.inj (hf.key j)
    exact ⟨f j, mem_mapJobs.mpr ⟨j, hj, rfl⟩, hf.id j, hkind, hturn, hfin j hj⟩
  parked j' hj' hs := by
    obtain ⟨j, hj, rfl⟩ := mem_mapJobs.mp hj'
    rcases hparked j hj hs with heq | hle
    · exact .inl (heq.symm ▸ hj)
    · exact .inr hle

theorem hasJob_mapJobs (hf : JobRow.Keeps f) (kind : JobKind) (turnId : Uuid) :
    (db.mapJobs f).hasJob kind turnId = db.hasJob kind turnId := by
  rw [hasJob, Db.mapJobs, List.any_map, hasJob]
  congr 1
  funext j
  obtain ⟨hkind, hturn⟩ := Prod.mk.inj (hf.key j)
  rw [Function.comp_apply, hkind, hturn]

/-- An update that adds no work, and takes `c` from one of the jobs. -/
theorem work_mapJobs_add_le (hf : JobRow.Keeps f) {j : JobRow} {c : ℕ} (hj : j ∈ db.jobs)
    (h : ∀ x ∈ db.jobs, (f x).work m db ≤ x.work m db)
    (hc : (f j).work m db + c ≤ j.work m db) : (db.mapJobs f).work m + c ≤ db.work m := by
  have hwork : (db.mapJobs f).work m = (db.jobs.map fun x ↦ (f x).work m db).sum := by
    rw [work, Db.mapJobs, List.map_map, ← Db.mapJobs]
    congr 1
    refine List.map_congr_left fun x _ ↦ ?_
    rw [Function.comp_apply, JobRow.work, JobRow.work, hasJob_mapJobs hf]
  rw [hwork]
  exact sum_map_add_le hj h hc

/-! ## What one step does -/

/-- A worker claims a job: one of its tries is gone. -/
theorem claim_step (h : db.Unclaimed) (hids : Unique JobRow.id db.jobs) {j : JobRow} (now : Time)
    (hj : j ∈ db.jobs) (hs : j.status = .pending) :
    (db.updateJob j.id (·.claimed now)).InHand (j.claimed now).job ∧
      db.Advances m (db.updateJob j.id (·.claimed now)) ∧
      (db.updateJob j.id (·.claimed now)).work m + (if j.tries + 1 < m then 1 else 0) ≤
        db.work m := by
  have hkeeps : JobRow.Keeps (·.claimed now) := ⟨fun _ ↦ rfl, fun _ ↦ rfl⟩
  refine ⟨⟨⟨j.claimed now, mem_updateJob.mpr (.inl ⟨j, hj, rfl, rfl⟩), rfl, rfl⟩, ?_⟩, ?_, ?_⟩
  · intro x hx hxs
    rcases mem_updateJob.mp hx with ⟨x, -, hid, rfl⟩ | ⟨hx, -⟩
    · exact hid
    · exact absurd hxs (h x hx)
  · refine .mapJobs (hkeeps.ite _) (fun x hx hfin ↦ if_neg fun hid ↦ ?_) fun x _ hxs ↦ ?_
    · rw [hids.eq hx hj hid, JobRow.finished, hs] at hfin
      cases hfin
    · split at hxs
      · cases hxs
      · rename_i hid
        exact .inl (if_neg hid)
  · have hle : ∀ x ∈ db.jobs, x.id = j.id → (x.claimed now).work m db +
        (if j.tries + 1 < m then 1 else 0) ≤ x.work m db := by
      intro x hx hid
      rw [hids.eq hx hj hid]
      have hopen : j.finished = false := by rw [JobRow.finished, hs]; rfl
      have hopen' : (j.claimed now).finished = false := rfl
      simp only [JobRow.work, hopen, hopen', Bool.false_eq_true, if_false]
      show max 1 (m - (j.tries + 1)) + (if j.kind = .triage ∧ db.hasJob .package j.turnId = false
        then max 1 m else 0) + _ ≤ _
      split_ifs <;> omega
    refine work_mapJobs_add_le (hkeeps.ite _) hj (fun x hx ↦ ?_) ?_
    · split
      · rename_i hid
        have := hle x hx hid
        omega
      · exact Nat.le_refl _
    · simpa using hle j hj rfl

/-- A worker lets go of the job it has in hand. -/
theorem release_step (h : db.InHand job) (hids : Unique JobRow.id db.jobs) {c : ℕ}
    (hf : JobRow.Keeps f) (hnot : ∀ j, (f j).status ≠ .processing)
    (hparked : ∀ j, j.tries = job.tries → (f j).status = .failed → m ≤ (f j).tries)
    (hwork : ∀ j, j.status = .processing → j.tries = job.tries →
      (f j).work m db + c ≤ j.work m db) :
    (db.updateJob job.id f).Unclaimed ∧ db.Advances m (db.updateJob job.id f) ∧
      (db.updateJob job.id f).work m + c ≤ db.work m := by
  obtain ⟨j, hj, rfl, hs⟩ := h.row
  have heq : ∀ x ∈ db.jobs, x.id = j.id → x = j := fun x hx hid ↦ hids.eq hx hj hid
  refine ⟨fun x hx ↦ ?_, .mapJobs (hf.ite _) (fun x hx hfin ↦ if_neg fun hid ↦ ?_)
    fun x hx hxs ↦ ?_, work_mapJobs_add_le (hf.ite _) hj (fun x hx ↦ ?_) ?_⟩
  · rcases mem_updateJob.mp hx with ⟨x, -, -, rfl⟩ | ⟨hx, hid⟩
    · exact hnot x
    · exact fun hxs ↦ hid (h.only x hx hxs)
  · rw [heq x hx hid, JobRow.finished, hs] at hfin
    cases hfin
  · split at hxs
    · rename_i hid
      rw [if_pos hid]
      exact .inr (hparked x (by rw [heq x hx hid]; rfl) hxs)
    · rename_i hid
      exact .inl (if_neg hid)
  · split
    · rename_i hid
      rw [heq x hx hid]
      have := hwork j hs rfl
      omega
    · exact Nat.le_refl _
  · simpa [JobRow.job] using hwork j hs rfl

/-- What the handler of a job does to the jobs: nothing, or its triage brings the package job. -/
def Handled (job : Job) (db db' : Db) : Prop :=
  db'.jobs = db.jobs ∨ job.kind = .triage ∧ db.hasJob .package job.turnId = false ∧
    ∃ id now, db'.jobs = db.jobs ++ [JobRow.initial id .package job.turnId now]

/-- The package job has been counted with its triage job. -/
theorem Handled.step (h : Handled job db db') (hin : db.InHand job) :
    db'.InHand job ∧ db.Advances m db' ∧ db'.work m ≤ db.work m := by
  rcases h with heq | ⟨hkind, hnone, id, now, heq⟩
  · have hwork : db'.work m = db.work m := by
      rw [work, work, heq]
      congr 2
      funext j
      rw [JobRow.work, JobRow.work, hasJob, hasJob, heq]
    exact ⟨⟨heq ▸ hin.row, heq ▸ hin.only⟩, ⟨heq ▸ (Advances.refl m db).kept,
      heq ▸ (Advances.refl m db).parked⟩, hwork.le⟩
  · obtain ⟨j, hj, rfl, hs⟩ := hin.row
    have hmem : ∀ x ∈ db'.jobs, x ∈ db.jobs ∨ x = JobRow.initial id .package j.turnId now := by
      simp [heq, JobRow.job]
    refine ⟨⟨⟨j, by simp [heq, hj], rfl, hs⟩, fun x hx hxs ↦ ?_⟩,
      ⟨fun x hx ↦ ⟨x, by simp [heq, hx], rfl, rfl, rfl, fun _ ↦ rfl⟩, fun x hx hxs ↦ ?_⟩, ?_⟩
    · rcases hmem x hx with hx | rfl
      · exact hin.only x hx hxs
      · cases hxs
    · rcases hmem x hx with hx | rfl
      · exact .inl hx
      · cases hxs
    · have hhas : ∀ turnId, db'.hasJob .package turnId =
          (db.hasJob .package turnId || j.turnId == turnId) := by
        intro turnId
        simp [hasJob, heq, JobRow.initial, JobRow.job]
      have hle : ∀ x ∈ db.jobs, x.work m db' ≤ x.work m db := by
        intro x _
        rw [JobRow.work, JobRow.work, hhas]
        split_ifs <;> simp_all
      have hmine : j.work m db' + max 1 m ≤ j.work m db := by
        rw [JobRow.work, JobRow.work, hhas]
        have hfin : j.finished = false := by rw [JobRow.finished, hs]; rfl
        simp only [JobRow.job] at hkind hnone
        simp [hfin, hkind, hnone]
      have hnew : (JobRow.initial id .package j.turnId now).work m db' = max 1 m := by
        simp [JobRow.work, JobRow.finished, JobRow.initial]
      have hsum := sum_map_add_le hj hle hmine
      have hlist : db'.jobs = db.jobs ++ [JobRow.initial id .package j.turnId now] := heq
      rw [work, hlist, List.map_append, List.sum_append, List.map_singleton, List.sum_singleton,
        hnew]
      exact hsum

end Db

/-! ## One round -/

/-- A worker that is left alone: whenever it looks, all pending jobs are due and no row is locked.
-/
def punctual (g : Gauntlet) : System GauntletOp Failure JobDraw Venue Errand Unit where
  exec d op v := op.exec g d v
  admits d v := (gauntlet g).admits d v && d.locked.isEmpty &&
    v.db.jobs.all fun j ↦ j.status != .pending || decide (j.availableAt ≤ d.draw.now)
  body := Errand.body g
  init := Venue.Opening

/-- What a round comes to: the queue advances, and there is less work left unless all is done. -/
structure Db.Progress (m : ℕ) (db db' : Db) : Prop where
  sorted : db'.Sorted
  unclaimed : db'.Unclaimed
  advances : db.Advances m db'
  work : db'.work m < db.work m ∨ ∀ j ∈ db'.jobs, j.finished = true

/-- A poll that finds nothing has looked at all jobs. -/
theorem Repository.claimNextJob_none {db : Db} {now : Time} {locked : List Uuid}
    (h : (claimNextJob db now locked).1 = none) : ∀ j ∈ db.jobs, j.due now locked = false := by
  rw [claimNextJob] at h
  split at h
  · rename_i hnone
    intro j hj
    rw [← Bool.not_eq_true]
    exact List.filter_eq_nil_iff.mp (List.argmin_eq_none.mp hnone) j hj
  · cases h

theorem Did.jobs_of_triaging {su : Setup} {d : Draw} {v v' : Venue} {a : Deed}
    (hd : Did su d v a v') {turnId : Uuid} (ha : a = .other ∨ a = .triaged turnId) :
    v'.db.jobs = v.db.jobs ∨ v.db.hasJob .package turnId = false ∧
      v'.db.jobs = v.db.jobs ++ [JobRow.initial d.uuid .package turnId d.now] := by
  cases hd with
  | quiet hplayers hqueue hpairs hcards hturns hjobs => exact .inl hjobs
  | labelled => exact .inl rfl
  | completed => exact .inl rfl
  | untriaged => exact .inl rfl
  | @triaged t quality db ht hplayers hqueue hpairs hcards hturns hjobs =>
    obtain rfl : t.id = turnId := by simpa using ha
    split_ifs at hjobs
    · rw [Db.insertJob_jobs] at hjobs
      split_ifs at hjobs with hhas
      · exact .inl hjobs
      · exact .inr ⟨by simpa using hhas, hjobs⟩
    · exact .inl hjobs
  | _ => simp at ha

section

variable {g : Gauntlet} {v : Venue} {job : Job}

theorem sorted_of_punctual {β : Type} (op : GauntletOp β) {d : JobDraw} (hs : v.db.Sorted)
    (hd : (punctual g).admits d v = true) : (op.exec g d v).2.db.Sorted :=
  op.sorted hs (Bool.and_eq_true_iff.mp (Bool.and_eq_true_iff.mp hd).1).1

/-- Storing the result of a triage, and the package job with it if the turn has been scored. -/
theorem Db.Handled.persistTriage (hs : v.db.Sorted) {turnId : Uuid} {quality : Quality}
    {ownership : Option (Uuid × AcousticFingerprint)} {d : JobDraw} (hkind : job.kind = .triage)
    (hid : turnId = job.turnId) : Db.Handled job v.db
      ((VenueOp.site (.persistTriage turnId quality ownership)).exec g.setup d.draw v).2.db := by
  have hdid := (VenueOp.site (.persistTriage turnId quality ownership)).did g.setup d.draw hs.tidy
  generalize ((VenueOp.site (.persistTriage turnId quality ownership)).exec g.setup d.draw v).1 = r
    at hdid
  have ha : deed (.site (.persistTriage turnId quality ownership)) r = .other ∨
      deed (.site (.persistTriage turnId quality ownership)) r = .triaged job.turnId := by
    cases r with
    | ok => exact .inr (congrArg Deed.triaged hid)
    | error e => exact .inl rfl
  exact (hdid.jobs_of_triaging ha).imp_right fun h ↦ ⟨hkind, h.1, d.draw.uuid, d.draw.now, h.2⟩

/-- The handlers leave the queue alone, but for the package job. -/
theorem GauntletService.ends_handle (hs : v.db.Sorted) (found : Findings) :
    (punctual g).Ends (fun _ v' ↦ v'.db.Sorted ∧ Db.Handled job v.db v'.db)
      ((handle job found).lift .venue) v := by
  have hidle : v.db.Sorted ∧ Db.Handled job v.db v.db := ⟨hs, .inl rfl⟩
  rw [handle]
  cases hkind : job.kind with
  | package =>
    refine System.ends_lift (fun d e _ _ ↦ hidle) fun d context _ _ ↦ ?_
    cases context with
    | none => exact hidle
    | some turn =>
      dsimp only
      split_ifs
      · exact hidle
      · cases found.packaged <;> exact hidle
  | triage =>
    dsimp only [runTriage]
    cases found.triaged with
    | error e => exact System.ends_lift (fun d e _ _ ↦ hidle) fun d context _ _ ↦ hidle
    | ok r =>
      refine System.ends_lift (fun d e _ _ ↦ hidle) fun d context _ hcontext ↦ ?_
      cases context with
      | none => exact hidle
      | some turn =>
        have hturn := (Option.filter_eq_some_iff.mp (Except.ok.inj hcontext)).1
        have hid := ((Db.findTurn_eq_some hs.tidy.turnIds).mp hturn).2
        exact System.ends_lift
          (fun d e hd _ ↦ ⟨sorted_of_punctual _ hs hd, .persistTriage hs hkind hid⟩)
          fun d persisted hd _ ↦ ⟨sorted_of_punctual _ hs hd, .persistTriage hs hkind hid⟩

/-- The worker still has the job in hand. -/
structure AtHand (m : ℕ) (job : Job) (db db' : Db) : Prop where
  sorted : db'.Sorted
  inHand : db'.InHand job
  advances : db.Advances m db'
  work : db'.work m ≤ db.work m

/-- The worker has let go of the job, and this much is done. -/
structure Released (m c : ℕ) (db db' : Db) : Prop where
  sorted : db'.Sorted
  unclaimed : db'.Unclaimed
  advances : db.Advances m db'
  work : db'.work m + c ≤ db.work m

/-- A claim that leaves no try is made good by what the worker does with it. -/
theorem AtHand.release {m : ℕ} {db db' : Db} (h : AtHand m job db db') {c : ℕ}
    {f : JobRow → JobRow} (hsorted : (db'.updateJob job.id f).Sorted) (hf : JobRow.Keeps f)
    (hnot : ∀ j, (f j).status ≠ .processing)
    (hparked : ∀ j, j.tries = job.tries → (f j).status = .failed → m ≤ (f j).tries)
    (hwork : ∀ j, j.status = .processing → j.tries = job.tries →
      (f j).work m db' + c ≤ j.work m db') :
    Released m c db (db'.updateJob job.id f) := by
  obtain ⟨hunclaimed, hadvances, hless⟩ :=
    Db.release_step h.inHand h.sorted.jobIds hf hnot hparked hwork
  exact ⟨hsorted, hunclaimed, h.advances.trans hadvances, hless.trans h.work⟩

/-- What the worker's call leaves of the tries it claimed with. -/
def owed (m : ℕ) (job : Job) : ℕ := if job.tries < m then 0 else 1

theorem processing_not_finished {j : JobRow} (h : j.status = .processing) :
    j.finished = false := by
  rw [JobRow.finished, h]
  rfl

/-- The attempt at a job ends it, or puts it back with a try left. -/
theorem GauntletService.ends_attempt {m : ℕ} (hm : g.setup.limits.maxTries = m)
    (hs : v.db.Sorted) (hin : v.db.InHand job) (found : Findings) :
    (punctual g).Ends (fun _ v' ↦ Released m (owed m job) v.db v'.db)
      (attempt g job (handle job found)) v := by
  have hfinished : ∀ {db : Db} {j j' : JobRow}, j'.finished = true → j.status = .processing →
      j'.work m db + owed m job ≤ j.work m db := by
    intro db j j' hj' hj
    rw [JobRow.work_of_finished hj']
    have := JobRow.one_le_work m db (processing_not_finished hj)
    rw [owed]
    split <;> omega
  have hhandled : (punctual g).Ends (fun _ v' ↦ AtHand m job v.db v'.db)
      ((handle job found).lift .venue) v := by
    refine (ends_handle hs found).post fun r v' h ↦ ?_
    obtain ⟨hinHand, hadvances, hwork⟩ := h.2.step hin
    exact ⟨h.1, hinHand, hadvances, hwork⟩
  rw [attempt]
  refine System.Ends.tryCatch (M := System.Outcome
    (fun _ (v' : Venue) ↦ Released m (owed m job) v.db v'.db)
    fun (v' : Venue) ↦ AtHand m job v.db v'.db) ?_ (fun _ _ h ↦ h) fun e v' h ↦ ?_
  · refine System.Ends.bind hhandled (fun reply v' h d hd ↦ ?_) fun e v' h ↦ h
    have hsorted := sorted_of_punctual (.jobs (.completeJob job.id)) h.sorted hd
    exact h.release hsorted ⟨fun _ ↦ rfl, fun _ ↦ rfl⟩ (fun _ ↦ by simp [JobRow.completed])
      (fun _ _ hj ↦ by cases hj) fun j hj _ ↦ hfinished rfl hj
  · rw [Prog.perform_bind]
    intro d hd
    generalize g.setup.limits.retryBase * 2 ^ (job.tries - 1) = delay
    have hsorted := sorted_of_punctual
      (.jobs (.failJob job (safeError g e) delay g.setup.limits.maxTries)) h.sorted hd
    replace hsorted : (Repository.failJob v'.db d.draw.now job (safeError g e) delay
      g.setup.limits.maxTries).2.Sorted := hsorted
    show Released m (owed m job) v.db (Repository.failJob _ _ _ _ _ _).2
    rcases Repository.failJob_cases v'.db d.draw.now job (safeError g e) delay
      g.setup.limits.maxTries with ⟨hle, heq⟩ | ⟨hlt, heq⟩
    · rw [heq] at hsorted ⊢
      exact h.release hsorted ⟨fun _ ↦ rfl, fun _ ↦ rfl⟩ (fun _ ↦ by simp [JobRow.parked])
        (fun j hj _ ↦ hm ▸ hle.trans hj.ge) fun j hj _ ↦ hfinished rfl hj
    · rw [heq] at hsorted ⊢
      refine h.release hsorted ⟨fun _ ↦ rfl, fun _ ↦ rfl⟩ (fun _ ↦ by simp [JobRow.retried])
        (fun _ _ hj ↦ by cases hj) fun j hj _ ↦ ?_
      -- it was pending when it was claimed, and has as many tries left as then
      rw [owed, if_pos (hm ▸ hlt), JobRow.work, JobRow.work, processing_not_finished hj]
      exact Nat.le_refl _

/-- Nothing is due for a worker that is left alone when nothing is pending. -/
theorem finished_of_claimNextJob (hu : v.db.Unclaimed) {d : JobDraw}
    (hd : (punctual g).admits d v = true)
    (hnone : (Repository.claimNextJob v.db d.draw.now d.locked).1 = none) :
    ∀ j ∈ v.db.jobs, j.finished = true := by
  obtain ⟨hd, hdue⟩ := Bool.and_eq_true_iff.mp hd
  have hlocked : d.locked = [] := List.isEmpty_iff.mp (Bool.and_eq_true_iff.mp hd).2
  intro j hj
  have hnot := Repository.claimNextJob_none hnone j hj
  have hready := List.all_eq_true.mp hdue j hj
  rw [JobRow.finished]
  cases hs : j.status with
  | pending =>
    have hlate : j.availableAt ≤ d.draw.now := by simpa [hs] using hready
    rw [JobRow.due, hlocked, hs, decide_eq_true hlate] at hnot
    cases hnot
  | processing => exact absurd hs (hu j hj)
  | complete | failed => rfl

/-- **A round** leaves less work, unless all was done before. -/
theorem Db.Progress.of_round {m : ℕ} (hm : g.setup.limits.maxTries = m) (hs : v.db.Sorted)
    (hu : v.db.Unclaimed) (found : Findings) :
    (punctual g).Ends (fun _ v' ↦ Db.Progress m v.db v'.db)
      (Errand.body g (.processOnce found)) v := by
  show (punctual g).Ends _ (GauntletService.processOnce g found >>= fun _ ↦ pure ()) v
  rw [GauntletService.processOnce, Prog.bind_assoc, Prog.perform_bind]
  intro d hd
  have hsorted : (Repository.claimNextJob v.db d.draw.now d.locked).2.Sorted :=
    sorted_of_punctual (.jobs .claimNextJob) hs hd
  have hexec : (punctual g).exec d (.jobs .claimNextJob) v =
      (.ok (Repository.claimNextJob v.db d.draw.now d.locked).1,
        { v with db := (Repository.claimNextJob v.db d.draw.now d.locked).2 }) := rfl
  rw [hexec]
  rcases Repository.claimNextJob_spec v.db d.draw.now d.locked with heq | ⟨j, hj, hpending, heq⟩
  · rw [heq]
    exact ⟨hs, hu, .refl m v.db, .inr (finished_of_claimNextJob hu hd (by rw [heq]))⟩
  · rw [heq] at hsorted ⊢
    obtain ⟨hin, hadvances, hclaimed⟩ :=
      Db.claim_step (m := m) hu hs.jobIds d.draw.now hj hpending
    have hprogress : ∀ v' : Venue, Released m (owed m (j.claimed d.draw.now).job)
        (v.db.updateJob j.id (·.claimed d.draw.now)) v'.db → Db.Progress m v.db v'.db := by
      refine fun v' h ↦ ⟨h.sorted, h.unclaimed, hadvances.trans h.advances, .inl ?_⟩
      have hless := h.work
      have htries : (j.claimed d.draw.now).job.tries = j.tries + 1 := rfl
      rw [owed, htries] at hless
      split_ifs at hclaimed hless <;> omega
    refine System.Ends.bind (M := fun _ (v' : Venue) ↦ Db.Progress m v.db v'.db)
      ((GauntletService.ends_attempt hm hsorted hin found).bind
        (fun _ v' h ↦ System.ends_pure (hprogress v' h)) fun _ v' h ↦ hprogress v' h)
      (fun _ _ h ↦ System.ends_pure h) fun _ _ h ↦ h

end

/-! ## All rounds -/

/-- So many rounds of a worker that is left alone, whatever its handlers find. -/
inductive Rounds (g : Gauntlet) (v : Venue) : ℕ → Venue → Prop
  | none : Rounds g v 0 v
  | next {n : ℕ} {v' v'' : Venue} {r : Except Failure Unit} (h : Rounds g v n v')
      (found : Findings) (ha : (punctual g).Alone v' (Errand.body g (.processOnce found)) r v'') :
      Rounds g v (n + 1) v''

section

variable {g : Gauntlet} {v v' : Venue} {m n : ℕ}

/-- There is always a later moment, and an identifier that has not been used. -/
theorem exists_punctual (v : Venue) : ∃ d, (punctual g).admits d v = true := by
  obtain ⟨u, hu, hu'⟩ := v.db.exists_fresh
  refine ⟨⟨⟨(v.db.jobs.map JobRow.availableAt).sum, u, u + 1, 0, false, false⟩, []⟩, ?_⟩
  have hdue : ∀ j ∈ v.db.jobs, j.availableAt ≤ (v.db.jobs.map JobRow.availableAt).sum :=
    fun j hj ↦ List.le_sum_of_mem (List.mem_map_of_mem hj)
  simpa [punctual, gauntlet, venue, hu, hu'] using fun j hj ↦ .inr (hdue j hj)

/-- There can always be another round. -/
theorem exists_rounds (g : Gauntlet) (v : Venue) (n : ℕ) : ∃ v', Rounds g v n v' := by
  induction n with
  | zero => exact ⟨v, .none⟩
  | succ n ih =>
    obtain ⟨v', h⟩ := ih
    obtain ⟨r, v'', ha⟩ := System.exists_alone exists_punctual
      (Errand.body g (.processOnce ⟨.error .keyError, .ok ()⟩)) v'
    exact ⟨v'', h.next _ ha⟩

namespace Db

variable {db : Db}

/-- No work is left exactly when all jobs are finished. -/
theorem work_eq_zero : db.work m = 0 ↔ ∀ j ∈ db.jobs, j.finished = true := by
  rw [work, List.sum_eq_zero_iff]
  constructor
  · intro h j hj
    by_contra hopen
    have := JobRow.one_le_work m db (Bool.not_eq_true _ ▸ hopen)
    rw [h _ (List.mem_map_of_mem hj)] at this
    omega
  · rintro h _ hx
    obtain ⟨j, hj, rfl⟩ := List.mem_map.mp hx
    exact JobRow.work_of_finished (h j hj)

/-- A job takes its tries, and those of the package job after it. -/
theorem work_le : db.work m ≤ db.jobs.length * (2 * max 1 m) := by
  rw [work, ← List.length_map (JobRow.work m db), ← smul_eq_mul]
  refine List.sum_le_card_nsmul _ _ fun x hx ↦ ?_
  obtain ⟨j, -, rfl⟩ := List.mem_map.mp hx
  rw [JobRow.work]
  split_ifs <;> omega

/-- Every claim of a former worker has gone stale, and is given up. -/
theorem recover_step {staleAfter now : Time} (hs : db.Sorted)
    (hstale : ∀ j ∈ db.jobs, j.status = .processing → j.stale staleAfter now = true) :
    (Repository.recoverStaleClaims db now staleAfter).2.Sorted ∧
      (Repository.recoverStaleClaims db now staleAfter).2.Unclaimed ∧
      db.Advances m (Repository.recoverStaleClaims db now staleAfter).2 := by
  have hkeeps : JobRow.Keeps JobRow.recovered := ⟨fun _ ↦ rfl, fun _ ↦ rfl⟩
  have hite := hkeeps.ite fun j ↦ j.stale staleAfter now = true
  refine ⟨⟨hs.tidy.mapJobs hite, unique_mapJobs hs.jobIds hite⟩, fun j hj hj' ↦ ?_,
    .mapJobs hite (fun j hj hfin ↦ if_neg fun hold ↦ ?_) fun j hj hparked ↦ ?_⟩
  · obtain ⟨x, hx, rfl⟩ := mem_mapJobs.mp hj
    split at hj'
    · cases hj'
    · rename_i hnot
      exact hnot (hstale x hx hj')
  · rw [JobRow.stale, Bool.and_eq_true, beq_iff_eq] at hold
    rw [JobRow.finished, hold.1] at hfin
    cases hfin
  · split at hparked
    · cases hparked
    · rename_i hnot
      exact .inl (if_neg hnot)

end Db

/-- What so many rounds come to. -/
theorem Rounds.progress (h : Rounds g v n v') (hm : g.setup.limits.maxTries = m)
    (hs : v.db.Sorted) (hu : v.db.Unclaimed) :
    v'.db.Sorted ∧ v'.db.Unclaimed ∧ v.db.Advances m v'.db ∧
      (v'.db.work m + n ≤ v.db.work m ∨ v'.db.work m = 0) := by
  induction h with
  | none => exact ⟨hs, hu, .refl m v.db, .inl le_rfl⟩
  | next _ found ha ih =>
    obtain ⟨hs', hu', hadvances, hwork⟩ := ih
    have hround := (Db.Progress.of_round hm hs' hu' found).ensures.sound ha
    refine ⟨hround.sorted, hround.unclaimed, hadvances.trans hround.advances, ?_⟩
    rcases hround.work with hless | hdone
    · omega
    · exact .inr (Db.work_eq_zero.mpr hdone)

/-- The venue, when the claims that have gone stale have been given up. -/
def Gauntlet.recovered (g : Gauntlet) (now : Time) (v : Venue) : Venue :=
  { v with db := (Repository.recoverStaleClaims v.db now g.setup.limits.staleClaim).2 }

/-- **A worker drains the queue.**  Let all claims of former workers have gone stale and be given
up, whatever has gone on before.  Then a worker that is left alone, and polls when all jobs are due,
can always make another round, and after `2 * max_tries` rounds for each job every job is complete
or has been parked, whatever the handlers find: no job has been lost or reopened, and none parked
before `max_tries` claims. -/
theorem jobs_drain {c : Shift} (h : (gauntlet g).Reachable c) {now : Time}
    (hstale : ∀ j ∈ c.world.state.db.jobs, j.status = .processing →
      j.stale g.setup.limits.staleClaim now = true) :
    (∀ n, ∃ v', Rounds g (g.recovered now c.world.state) n v') ∧
    ∀ n v', Rounds g (g.recovered now c.world.state) n v' →
      c.world.state.db.jobs.length * (2 * max 1 g.setup.limits.maxTries) ≤ n →
        (∀ j ∈ v'.db.jobs, j.status = .complete ∨ j.status = .failed) ∧
        (∀ j ∈ c.world.state.db.jobs, ∃ j' ∈ v'.db.jobs, j'.id = j.id ∧ j'.kind = j.kind ∧
          j'.turnId = j.turnId ∧ (j.finished = true → j' = j)) ∧
        ∀ j' ∈ v'.db.jobs, j'.status = .failed →
          j' ∈ c.world.state.db.jobs ∨ g.setup.limits.maxTries ≤ j'.tries := by
  refine ⟨exists_rounds g _, fun n v' hrounds hn ↦ ?_⟩
  obtain ⟨hs, hu, hrecovered⟩ := Db.recover_step (sorted_of_reach h) hstale
  obtain ⟨-, -, hadvances, hwork⟩ := hrounds.progress rfl hs hu
  have hle : (g.recovered now c.world.state).db.work g.setup.limits.maxTries ≤ _ := Db.work_le
  have hlength : (g.recovered now c.world.state).db.jobs.length = c.world.state.db.jobs.length :=
    List.length_map _
  rw [hlength] at hle
  have hdone : v'.db.work g.setup.limits.maxTries = 0 := by omega
  have hall := hrecovered.trans hadvances
  refine ⟨fun j hj ↦ ?_, hall.kept, hall.parked⟩
  simpa [JobRow.finished] using Db.work_eq_zero.mp hdone j hj

end

/-- A worker dies with the only job there is; two minutes later another one takes over. -/
theorem jobs_drain_died : ∃ c v', (gauntlet defaultGauntlet).Reachable c ∧
    (∃ j ∈ c.world.state.db.jobs, j.status = .processing) ∧
    Rounds defaultGauntlet (defaultGauntlet.recovered 200000000 c.world.state) 6 v' ∧
    ∀ j ∈ v'.db.jobs, j.status = .complete ∨ j.status = .failed := by
  obtain ⟨c, hc, hrun⟩ := System.exists_reachable_of_run opening_threePlayers
    (show ((gauntlet defaultGauntlet).run (System.start threePlayers)
      (firstClaim goodFindings ++ [.kill 3])).map (fun c ↦ decide
        (c.world.state.db.jobs.length = 1 ∧
          (∃ j ∈ c.world.state.db.jobs, j.status = .processing) ∧
          ∀ j ∈ c.world.state.db.jobs, j.status = .processing →
            j.stale defaultGauntlet.setup.limits.staleClaim 200000000 = true)) = some true by
      decide +kernel)
  obtain ⟨hlength, hclaimed, hstale⟩ := of_decide_eq_true hrun
  obtain ⟨hrounds, hdrained⟩ := jobs_drain hc hstale
  obtain ⟨v', h⟩ := hrounds 6
  exact ⟨c, v', hc, hclaimed, h, (hdrained 6 v' h (by rw [hlength]; decide)).1⟩

end Neva
