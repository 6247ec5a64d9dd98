import Neva.Turns

/-!
# The job queue

How `worker/repository.py` claims, completes, fails and recovers jobs, and the loop body
`GauntletService.process_once` around it.

A claim is nothing but the status `processing` and the time in `claimed_at`; who made it is not
recorded.  `complete_job` and `fail_job` find the job by its identifier alone, while
`recover_stale_claims` goes by the age of the claim, so a worker may find that the job it is about
to complete or fail has long been somebody else's.

`gauntlet` is any number of workers and recoveries next to the whole venue, on one database.
-/

set_option autoImplicit false

namespace Neva

open Calls Tables

/-! ## Jobs -/

/-- `worker.models.Job` -/
structure Job where
  id : Uuid
  kind : JobKind
  turnId : Uuid
  tries : ℕ
  deriving DecidableEq, Repr

namespace JobRow

variable (j : JobRow)

/-- What `RETURNING` makes of the row. -/
def job : Job := ⟨j.id, j.kind, j.turnId, j.tries⟩

/-- `SET status = 'processing', claimed_at = now(), tries = job.tries + 1` -/
def claimed (now : Time) : JobRow :=
  { j with status := .processing, claimedAt := some now, tries := j.tries + 1 }

/-- `SET status = 'pending', claimed_at = NULL` -/
def recovered : JobRow := { j with status := .pending, claimedAt := none }

/-- `SET status = 'complete', completed_at = now()` -/
def completed (now : Time) : JobRow := { j with status := .complete, completedAt := some now }

/-- `SET status='failed', last_error=$2, completed_at=now()` -/
def parked (error : Text) (now : Time) : JobRow :=
  { j with status := .failed, lastError := some error, completedAt := some now }

/-- `SET status='pending', claimed_at=NULL, last_error=$2, available_at = …` -/
def retried (error : Text) (available : Time) : JobRow :=
  { j with
    status := .pending, claimedAt := none, lastError := some error, availableAt := available }

/-- `status = 'processing' AND claimed_at < now() - $1::interval` -/
def stale (staleAfter now : Time) : Bool :=
  j.status == .processing && j.claimedAt.any fun claimedAt ↦ decide (claimedAt + staleAfter < now)

/-- The job can be claimed: it is pending, due, and its row not locked. -/
def due (now : Time) (locked : List Uuid) : Bool :=
  j.status == .pending && decide (j.availableAt ≤ now) && decide (j.id ∉ locked)

end JobRow

/-- `UPDATE jobs SET …` -/
def Db.mapJobs (db : Db) (f : JobRow → JobRow) : Db := { db with jobs := db.jobs.map f }

/-- `UPDATE jobs SET … WHERE id = $1` -/
def Db.updateJob (db : Db) (id : Uuid) (f : JobRow → JobRow) : Db :=
  db.mapJobs fun j ↦ if j.id = id then f j else j

namespace Repository

variable (db : Db) (now : Time)

/-- `recover_stale_claims` -/
def recoverStaleClaims (staleAfter : Time) : ℕ × Db :=
  (db.jobs.countP fun j ↦ j.stale staleAfter now,
    db.mapJobs fun j ↦ if j.stale staleAfter now then j.recovered else j)

/-- `claim_next_job`.  `FOR UPDATE SKIP LOCKED` passes over the rows another transaction has
locked. -/
def claimNextJob (locked : List Uuid) : Option Job × Db :=
  match (db.jobs.filter fun j ↦ j.due now locked).argmin fun j ↦
      toLex (j.availableAt, j.createdAt) with
  | none => (none, db)
  | some j => (some (j.claimed now).job, db.updateJob j.id (·.claimed now))

/-- `complete_job` -/
def completeJob (jobId : Uuid) : Db := db.updateJob jobId (·.completed now)

/-- `fail_job` -/
def failJob (job : Job) (error : Text) (retryDelay : Time) (maxTries : ℕ) : Bool × Db :=
  if maxTries ≤ job.tries then (true, db.updateJob job.id (·.parked (error.take 500) now))
  else (false, db.updateJob job.id (·.retried (error.take 500) (now + retryDelay)))

end Repository

/-! ## The worker -/

/-- The methods of the repository that move a job. -/
inductive JobOp : Type → Type
  | recoverStaleClaims (staleAfter : Time) : JobOp ℕ
  | claimNextJob : JobOp (Option Job)
  | completeJob (jobId : Uuid) : JobOp Unit
  | failJob (job : Job) (error : Text) (retryDelay : Time) (maxTries : ℕ) : JobOp Bool

/-- One step at the venue or on its jobs. -/
inductive GauntletOp (β : Type) : Type
  | venue (op : VenueOp β)
  | jobs (op : JobOp β)

/-- A venue with its workers. -/
structure Gauntlet where
  setup : Setup
  /-- `type(error).__name__` and `str(error)` -/
  describe : Failure → Text × Text

/-- What the work on a job comes to outside the tables: the transcoding, the fingerprint and the
model's answer for a triage job, the record and its shard for a package job. -/
structure Findings where
  triaged : Except Failure (Quality × AcousticFingerprint)
  packaged : Except Failure Unit

namespace GauntletService

variable (g : Gauntlet)

/-- `_triage` -/
def runTriage (turnId : Uuid) (found : Findings) : Prog VenueOp Failure Reply :=
  match found.triaged with
  | .ok (quality, fingerprint) => triage turnId quality (some fingerprint)
  | .error e => do
    let context ← Prog.perform (.site (.getTurnContext turnId))
    Prog.raise (if context.isNone then .lookupError else e)

/-- `_package`, which is deferred until the turn has been scored and triaged. -/
def runPackage (turnId : Uuid) (found : Findings) : Prog VenueOp Failure Reply := do
  let context ← Prog.perform (.site (.getTurnContext turnId))
  match context with
  | none => Prog.raise .lookupError
  | some turn =>
    if turn.status ≠ .scored ∨ turn.quality = none then return .ok
    else match found.packaged with
      | .ok _ => return .ok
      | .error e => Prog.raise e

/-- The handler of a job.  The schema admits no other kinds. -/
def handle (job : Job) (found : Findings) : Prog VenueOp Failure Reply :=
  match job.kind with
  | .triage => runTriage job.turnId found
  | .package => runPackage job.turnId found

/-- `_safe_error` -/
def safeError (e : Failure) : Text :=
  let (name, message) := g.describe e
  name ++ [':', ' '] ++ (message.map fun c ↦ if c = '\\' then '/' else c).take 400

/-- The `try` statement of `process_once`: handle the job and complete it, or fail it. -/
def attempt (job : Job) (handler : Prog VenueOp Failure Reply) : Prog GauntletOp Failure Unit :=
  Prog.tryCatch
    (handler.lift .venue >>= fun _ ↦ Prog.perform (.jobs (.completeJob job.id)))
    fun e ↦ do
      let _ ← Prog.perform (.jobs (.failJob job (safeError g e)
        (g.setup.limits.retryBase * 2 ^ (job.tries - 1)) g.setup.limits.maxTries))
      return ()

/-- `process_once` -/
def processOnce (found : Findings) : Prog GauntletOp Failure Bool := do
  let job ← Prog.perform (.jobs .claimNextJob)
  match job with
  | none => return false
  | some job => do
    attempt g job (handle job found)
    return true

/-- `recover_stale_claims` -/
def recoverStaleClaims : Prog GauntletOp Failure ℕ :=
  Prog.perform (.jobs (.recoverStaleClaims g.setup.limits.staleClaim))

end GauntletService

/-! ## The system -/

/-- What goes on: a request at the venue, a round of a worker's loop, a recovery. -/
inductive Errand
  | request (r : Request)
  | processOnce (found : Findings)
  | recoverStaleClaims

/-- What a step reads from outside, and the rows other transactions have locked. -/
structure JobDraw where
  draw : Draw
  locked : List Uuid := []

/-- What one method answers and leaves behind. -/
def JobOp.exec {β : Type} (d : JobDraw) : JobOp β → Db → β × Db
  | .recoverStaleClaims staleAfter, db => Repository.recoverStaleClaims db d.draw.now staleAfter
  | .claimNextJob, db => Repository.claimNextJob db d.draw.now d.locked
  | .completeJob jobId, db => ((), Repository.completeJob db d.draw.now jobId)
  | .failJob job error retryDelay maxTries, db =>
    Repository.failJob db d.draw.now job error retryDelay maxTries

/-- What one step answers and leaves behind. -/
def GauntletOp.exec {β : Type} (g : Gauntlet) (d : JobDraw) :
    GauntletOp β → Venue → Except Failure β × Venue
  | .venue op, v => op.exec g.setup d.draw v
  | .jobs op, v => (.ok (op.exec d v.db).1, { v with db := (op.exec d v.db).2 })

/-- The program of an errand.  What it answers does not matter here. -/
def Errand.body (g : Gauntlet) : Errand → Prog GauntletOp Failure Unit
  | .request r => do
    let _ ← (r.body g.setup).lift .venue
    return ()
  | .processOnce found => do
    let _ ← GauntletService.processOnce g found
    return ()
  | .recoverStaleClaims => do
    let _ ← GauntletService.recoverStaleClaims g
    return ()

/-- **Workers and the venue, interleaved.** -/
def gauntlet (g : Gauntlet) : System GauntletOp Failure JobDraw Venue Errand Unit where
  exec d op v := op.exec g d v
  admits d v := (venue g.setup).admits d.draw v
  body := Errand.body g
  init := Venue.Opening

/-! ## What a step does to the jobs -/

/-- The update leaves alone what identifies a job. -/
structure JobRow.Keeps (f : JobRow → JobRow) : Prop where
  id : ∀ j, (f j).id = j.id
  key : ∀ j, ((f j).kind, (f j).turnId) = (j.kind, j.turnId)

theorem JobRow.Keeps.ite {f : JobRow → JobRow} (h : JobRow.Keeps f) (p : JobRow → Prop)
    [DecidablePred p] : JobRow.Keeps fun j ↦ if p j then f j else j where
  id j := by
    split
    · exact h.id j
    · rfl
  key j := by
    split
    · exact h.key j
    · rfl

namespace Db

variable {db : Db} {f : JobRow → JobRow}

theorem mem_mapJobs {j' : JobRow} : j' ∈ (db.mapJobs f).jobs ↔ ∃ j ∈ db.jobs, f j = j' :=
  List.mem_map

theorem Tidy.mapJobs (h : db.Tidy) (hf : JobRow.Keeps f) : (db.mapJobs f).Tidy where
  playerIds := h.playerIds
  pairIds := h.pairIds
  turnIds := h.turnIds
  jobKeys := by
    have hmap : (db.mapJobs f).jobs.map (fun j : JobRow ↦ (j.kind, j.turnId)) =
        db.jobs.map fun j : JobRow ↦ (j.kind, j.turnId) := by
      rw [Db.mapJobs, List.map_map]
      exact List.map_congr_left fun j _ ↦ hf.key j
    rw [Tables.Unique, hmap]
    exact h.jobKeys
  apart := h.apart
  members := h.members
  turn := h.turn

theorem unique_mapJobs (h : Unique JobRow.id db.jobs) (hf : JobRow.Keeps f) :
    Unique JobRow.id (db.mapJobs f).jobs := by
  have hmap : (db.mapJobs f).jobs.map JobRow.id = db.jobs.map JobRow.id := by
    rw [Db.mapJobs, List.map_map]
    exact List.map_congr_left fun j _ ↦ hf.id j
  rw [Tables.Unique, hmap]
  exact h

end Db

/-- The job that is claimed was pending. -/
theorem Repository.claimNextJob_spec (db : Db) (now : Time) (locked : List Uuid) :
    claimNextJob db now locked = (none, db) ∨ ∃ j ∈ db.jobs, j.status = .pending ∧
      claimNextJob db now locked =
        (some (j.claimed now).job, db.updateJob j.id (·.claimed now)) := by
  rw [claimNextJob]
  split
  · exact .inl rfl
  · rename_i j hj
    obtain ⟨hmem, hdue⟩ := List.mem_filter.mp (List.argmin_mem hj)
    rw [JobRow.due, Bool.and_eq_true, Bool.and_eq_true, beq_iff_eq] at hdue
    exact .inr ⟨j, hmem, hdue.1.1, rfl⟩

/-- What `fail_job` makes of the row. -/
theorem Repository.failJob_spec (db : Db) (now : Time) (job : Job) (error : Text)
    (retryDelay : Time) (maxTries : ℕ) : ∃ f : JobRow → JobRow, JobRow.Keeps f ∧
      (∀ j, (f j).status = .failed ∨ (f j).status = .pending) ∧
      (failJob db now job error retryDelay maxTries).2 = db.updateJob job.id f := by
  rw [failJob]
  split
  · exact ⟨(·.parked (error.take 500) now), ⟨fun _ ↦ rfl, fun _ ↦ rfl⟩, fun _ ↦ .inl rfl, rfl⟩
  · exact ⟨(·.retried (error.take 500) (now + retryDelay)), ⟨fun _ ↦ rfl, fun _ ↦ rfl⟩,
      fun _ ↦ .inr rfl, rfl⟩

/-- A method of the repository updates jobs and nothing else. -/
theorem JobOp.exec_eq_mapJobs {β : Type} (op : JobOp β) (d : JobDraw) (db : Db) :
    ∃ f, JobRow.Keeps f ∧ (op.exec d db).2 = db.mapJobs f := by
  cases op with
  | recoverStaleClaims staleAfter =>
    have hf : JobRow.Keeps JobRow.recovered := ⟨fun _ ↦ rfl, fun _ ↦ rfl⟩
    exact ⟨_, hf.ite fun j ↦ j.stale staleAfter d.draw.now = true, rfl⟩
  | claimNextJob =>
    rcases Repository.claimNextJob_spec db d.draw.now d.locked with h | ⟨j, -, -, h⟩
    · refine ⟨id, ⟨fun _ ↦ rfl, fun _ ↦ rfl⟩, ?_⟩
      rw [JobOp.exec, h, Db.mapJobs, List.map_id]
    · have hf : JobRow.Keeps (·.claimed d.draw.now) := ⟨fun _ ↦ rfl, fun _ ↦ rfl⟩
      refine ⟨_, hf.ite fun x ↦ x.id = j.id, ?_⟩
      rw [JobOp.exec, h]
      rfl
  | completeJob jobId =>
    have hf : JobRow.Keeps (·.completed d.draw.now) := ⟨fun _ ↦ rfl, fun _ ↦ rfl⟩
    exact ⟨_, hf.ite fun x ↦ x.id = jobId, rfl⟩
  | failJob job error retryDelay maxTries =>
    obtain ⟨f, hf, -, h⟩ := Repository.failJob_spec db d.draw.now job error retryDelay maxTries
    refine ⟨_, hf.ite fun x ↦ x.id = job.id, ?_⟩
    rw [JobOp.exec, h]
    rfl

/-- A step at the venue inserts a job at most. -/
theorem Did.jobs {su : Setup} {d : Draw} {v v' : Venue} {a : Deed} (hd : Did su d v a v') :
    v'.db.jobs = v.db.jobs ∨
      ∃ kind turnId, v'.db.jobs = v.db.jobs ++ [JobRow.initial d.uuid kind turnId d.now] := by
  have hinsert : ∀ kind turnId, (v.db.insertJob kind turnId d.uuid d.now).jobs = v.db.jobs ∨
      (v.db.insertJob kind turnId d.uuid d.now).jobs =
        v.db.jobs ++ [JobRow.initial d.uuid kind turnId d.now] := by
    intro kind turnId
    rw [Db.insertJob_jobs]
    split
    · exact .inl rfl
    · exact .inr rfl
  cases hd with
  | quiet hplayers hqueue hpairs hcards hturns hjobs => exact .inl hjobs
  | enqueued kind turnId => exact (hinsert kind turnId).imp_right fun h ↦ ⟨kind, turnId, h⟩
  | @triaged t quality db ht hplayers hqueue hpairs hcards hturns hjobs =>
    by_cases hs : t.status = .scored
    · rw [if_pos hs] at hjobs
      exact (hinsert .package t.id).imp hjobs.trans fun h ↦ ⟨.package, t.id, hjobs.trans h⟩
    · exact .inl (hjobs.trans (if_neg hs))
  | _ => exact .inl rfl

/-- What the rest goes by: the database is tidy, and a job is its identifier. -/
structure Db.Sorted (db : Db) : Prop where
  tidy : db.Tidy
  jobIds : Unique JobRow.id db.jobs

theorem GauntletOp.sorted {g : Gauntlet} {d : JobDraw} {v : Venue} {β : Type} (op : GauntletOp β)
    (h : v.db.Sorted) (hd : (gauntlet g).admits d v = true) : (op.exec g d v).2.db.Sorted := by
  cases op with
  | venue op =>
    have hdid := op.did g.setup d.draw h.tidy
    refine ⟨hdid.tidy h.tidy (@new_of_admits g.setup _ _ hd), ?_⟩
    rcases hdid.jobs with hjobs | ⟨kind, turnId, hjobs⟩
    · exact hjobs ▸ h.jobIds
    · show Unique JobRow.id (op.exec g.setup d.draw v).2.db.jobs
      rw [hjobs]
      refine h.jobIds.append fun hmem ↦ ?_
      obtain ⟨j, hj, hid⟩ := List.mem_map.mp hmem
      have hfresh : v.db.fresh d.draw.uuid = true :=
        (Bool.and_eq_true_iff.mp (Bool.and_eq_true_iff.mp hd).1).1
      exact (Db.fresh_iff.mp hfresh).2.2.2 j hj hid
  | jobs op =>
    obtain ⟨f, hf, heq⟩ := op.exec_eq_mapJobs d v.db
    show (op.exec d v.db).2.Sorted
    rw [heq]
    exact ⟨h.tidy.mapJobs hf, Db.unique_mapJobs h.jobIds hf⟩

theorem sorted_of_reach {g : Gauntlet} {T : Terms GauntletOp Failure JobDraw Errand Venue}
    {c : Config GauntletOp Failure Errand Venue Unit} (h : (gauntlet g).Reach T c) :
    c.world.state.db.Sorted := by
  refine @System.Reach.state_inv _ _ _ _ _ _ _ _ (fun w ↦ w.state.db.Sorted) ?_ ?_ ?_ c h
  · refine fun s hs ↦ ⟨hs.tidy, ?_⟩
    rw [hs.jobs]
    exact Unique.nil
  · exact fun w r hw ↦ hw
  · exact fun i β op d w hw _ hd ↦ op.sorted hw hd

end Neva
