import Neva.Calls.Ensures
import Neva.Schema

/-!
# One GPU job at a time

`TuneAdminRepository.enqueue` of `app/tune_admin/repository.py`: a job is queued under a lock, which
is a file created with `O_EXCL`, and only if no status file says that another one is queued or
running.  A lock that is older than `queue_lock_stale_seconds` is removed by whoever finds it, and
nobody who releases a lock looks whose it is.  The supervisor writes status files as it goes, and
any program may fail or die at any call.

So the lock excludes only in time.  On `timely` terms a program that holds the lock makes its calls
before the lock is stale, or makes none; a lock that somebody else made is stale when it is
removed, and not only when its age was read; and the supervisor takes up no job that is over.  Then
at most one program holds the lock and may still act, and at most one job is queued or running
(`one_job`).  The second of these terms is not one that the code sees to: between `stat` and
`unlink` the lock may have become another one, and then two programs are inside
(`two_inside_of_late`).
-/

set_option autoImplicit false

namespace Neva.TuneQueue

open Calls Calls.Prog

/-! ## Files -/

/-- `status` of a job file. -/
inductive JobState
  | queued
  | running
  | completed
  | failed
  deriving DecidableEq, Repr

/-- `payload.get("status") in {"queued", "running"}` -/
def JobState.active : JobState → Bool
  | queued | running => true
  | completed | failed => false

/-- The lock file, the status files that are named by a UUID, and the queued requests.  A file that
was created keeps its modification time, also when its name is gone. -/
structure Runtime where
  /-- `time.time()` when it was last read. -/
  clock : Time
  /-- The file that has the name of the lock. -/
  lock : Option ℕ
  /-- How many lock files have been created. -/
  created : ℕ
  mtime : ℕ → Time
  jobs : List (Uuid × JobState)
  requests : List Uuid

/-- What a call raises. -/
inductive QueueError
  | fileNotFound
  | osError
  /-- `TuneAdminBusyError` -/
  | busy
  /-- `TuneAdminRepositoryError` -/
  | repository
  deriving DecidableEq, Repr

def QueueError.isOSError : QueueError → Bool
  | fileNotFound | osError => true
  | busy | repository => false

/-- `TuneAdminBusyError` is a `TuneAdminRepositoryError`. -/
def QueueError.isRepositoryError : QueueError → Bool
  | busy | repository => true
  | fileNotFound | osError => false

inductive QueueOp : Type → Type
  /-- `ensure_runtime_directories` -/
  | makeDirs : QueueOp Unit
  /-- `os.open(lock_path, O_CREAT | O_EXCL | O_WRONLY)`: the file, or none for `FileExistsError`. -/
  | createLock : QueueOp (Option ℕ)
  /-- `os.write(descriptor, …)`, and it is closed. -/
  | writeLock (file : ℕ) : QueueOp Unit
  /-- `time.time()` -/
  | time : QueueOp Time
  /-- `lock_path.stat().st_mtime` -/
  | lockMtime : QueueOp Time
  /-- `lock_path.unlink(missing_ok=True)` -/
  | unlinkLock : QueueOp Unit
  /-- `jobs_dir.glob("*.json")`, the names that are UUIDs. -/
  | jobNames : QueueOp (List Uuid)
  /-- `_read_json_object` of a status file. -/
  | readStatus (jobId : Uuid) : QueueOp JobState
  /-- `path.parent.mkdir(parents=True, exist_ok=True)` -/
  | makeParent : QueueOp Unit
  /-- The queued status takes its place. -/
  | placeJob (jobId : Uuid) : QueueOp Unit
  | placeRequest (jobId : Uuid) : QueueOp Unit
  | unlinkRequest (jobId : Uuid) : QueueOp Unit
  | unlinkJob (jobId : Uuid) : QueueOp Unit
  /-- A status file is replaced by the supervisor. -/
  | publish (jobId : Uuid) (state : JobState) : QueueOp Unit

abbrev QueueProg (α : Type) := Prog QueueOp QueueError α

/-! ## Enqueueing -/

/-- `except OSError as exc: raise TuneAdminRepositoryError(…) from exc` -/
def orUnavailable {α : Type} (p : QueueProg α) : QueueProg α :=
  p.tryCatch fun e ↦ raise (if e.isOSError then QueueError.repository else e)

variable (staleSeconds : Time)

/-- One attempt of `_queue_lock`: whether the lock has been taken. -/
def takeLock (attempt : ℕ) : QueueProg Bool := do
  let created ← orUnavailable (perform .createLock)
  match created with
  | some file => do
    orUnavailable (perform (.writeLock file))
    return true
  | none => do
    let now ← perform .time
    let mtime ← orUnavailable (perform .lockMtime)
    if attempt = 0 ∧ staleSeconds < now - mtime then do
      perform .unlinkLock
      return false
    else raise .busy

/-- `_queue_lock` up to its `yield` -/
def acquireLock : QueueProg Unit := do
  perform .makeDirs
  let taken ← takeLock staleSeconds 0
  if taken then return ()
  else do
    let taken ← takeLock staleSeconds 1
    if taken then return () else raise .busy

/-- The loop of `_active_job_exists` -/
def anyActive : List Uuid → QueueProg Bool
  | [] => pure false
  | jobId :: rest => do
    let state ← orUnavailable (perform (.readStatus jobId))
    if state.active then return true else anyActive rest

/-- `_active_job_exists` -/
def activeJobExists : QueueProg Bool := do
  let names ← perform .jobNames
  anyActive names

/-- `_atomic_write_json`; only what is done inside the `try` is wrapped. -/
def atomicWrite (place : QueueOp Unit) : QueueProg Unit := do
  perform .makeParent
  orUnavailable (perform place)

/-- What `enqueue` does under the lock. -/
def publishQueued (jobId : Uuid) : QueueProg Unit := do
  let busy ← activeJobExists
  if busy then raise .busy
  else
    (do
      atomicWrite (.placeJob jobId)
      atomicWrite (.placeRequest jobId)).tryCatch fun e ↦
        if e.isRepositoryError then do
          perform (.unlinkRequest jobId)
          perform (.unlinkJob jobId)
          raise e
        else raise e

/-- `enqueue` -/
def enqueue (jobId : Uuid) : QueueProg Unit := do
  acquireLock staleSeconds
  (publishQueued jobId).ensuring .unlinkLock

/-! ## The system -/

namespace Runtime

variable (rt : Runtime)

/-- A status file is replaced, or created. -/
def put (jobId : Uuid) (state : JobState) : Runtime :=
  { rt with jobs := (jobId, state) :: rt.jobs.filter fun j ↦ j.1 ≠ jobId }

/-- The job is queued or running. -/
def Active (jobId : Uuid) : Prop := ∃ j ∈ rt.jobs, j.1 = jobId ∧ j.2.active = true

/-- The lock file is older than `queue_lock_stale_seconds`. -/
def Stale (file : ℕ) : Prop := rt.mtime file + staleSeconds < rt.clock

/-- What a call answers and leaves behind, at the time that is. -/
def exec {β : Type} : QueueOp β → Except QueueError β × Runtime
  | .makeDirs | .makeParent => (.ok (), rt)
  | .createLock =>
    match rt.lock with
    | some _ => (.ok none, rt)
    | none => (.ok (some rt.created), { rt with
        lock := some rt.created
        created := rt.created + 1
        mtime := Function.update rt.mtime rt.created rt.clock })
  | .writeLock file => (.ok (), { rt with mtime := Function.update rt.mtime file rt.clock })
  | .time => (.ok rt.clock, rt)
  | .lockMtime =>
    match rt.lock with
    | some file => (.ok (rt.mtime file), rt)
    | none => (.error .fileNotFound, rt)
  | .unlinkLock => (.ok (), { rt with lock := none })
  | .jobNames => (.ok (rt.jobs.map Prod.fst), rt)
  | .readStatus jobId =>
    match rt.jobs.find? fun j ↦ j.1 = jobId with
    | some j => (.ok j.2, rt)
    | none => (.error .fileNotFound, rt)
  | .placeJob jobId => (.ok (), rt.put jobId .queued)
  | .placeRequest jobId => (.ok (), { rt with requests := jobId :: rt.requests })
  | .unlinkRequest jobId => (.ok (), { rt with requests := rt.requests.filter (· ≠ jobId) })
  | .unlinkJob jobId => (.ok (), { rt with jobs := rt.jobs.filter fun j ↦ j.1 ≠ jobId })
  | .publish jobId state => (.ok (), rt.put jobId state)

end Runtime

/-- What arrives: a job is to be enqueued, or the supervisor writes a status. -/
inductive Request
  | enqueue (jobId : Uuid)
  | publish (jobId : Uuid) (state : JobState)

/-- Any number of API processes, and the supervisor.  The clock does not go back. -/
def queue : System QueueOp QueueError Time Runtime Request Unit where
  exec now op rt := { rt with clock := now }.exec op
  admits now rt := decide (rt.clock ≤ now)
  body
    | .enqueue jobId => enqueue staleSeconds jobId
    | .publish jobId state => perform (.publish jobId state)
  init rt := (∀ file, rt.lock = some file → file < rt.created) ∧ (rt.jobs.map Prod.fst).Nodup ∧
    ∀ a b, rt.Active a → rt.Active b → a = b

/-- A run of the queue. -/
abbrev Site := World QueueOp QueueError Request Runtime

/-- The lock file that a call has created. -/
def lockMade : Past QueueOp QueueError → Option ℕ
  | ⟨.createLock, .ok made⟩ => made
  | _ => none

/-- Program `i` has created the file. -/
def Made (i file : ℕ) (w : Site) : Prop := ∃ x ∈ w.trace, x.1 = i ∧ lockMade x.2 = some file

/-- Whose lock may be removed, and which statuses may be written. -/
def rightful (i : ℕ) (now : Time) (w : Site) : {β : Type} → QueueOp β → Prop
  -- a lock that somebody else has made is still stale
  | _, .unlinkLock => ∀ file, w.state.lock = some file → ¬Made i file w →
      w.state.mtime file + staleSeconds < now
  -- the supervisor does not take up a job that is over
  | _, .publish jobId state => state.active = true → w.state.Active jobId
  | _, _ => True

/-- Who has made a lock makes no call once it is stale, and a lock is only removed by who has made
it, or while it is stale; and only an active job is reported to be active. -/
def timely : Terms QueueOp QueueError Time Request Runtime where
  may i op now w := (∀ file, Made i file w → now ≤ w.state.mtime file + staleSeconds) ∧
    rightful staleSeconds i now w op
  lose _ _ := True

/-! ## The argument -/

/-- The lock is the one that was made, unless that is stale; and then its maker makes no call. -/
def Holds (file : ℕ) (w : Site) : Prop :=
  w.state.Stale staleSeconds file ∨ w.state.lock = some file

/-- Files are made by one program each, and at most one job is active. -/
structure Sound (w : Site) : Prop where
  made : ∀ i file, Made i file w → file < w.state.created
  lock : ∀ file, w.state.lock = some file → file < w.state.created
  alone : ∀ i j file, Made i file w → Made j file w → i = j
  names : (w.state.jobs.map Prod.fst).Nodup
  single : ∀ a b, w.state.Active a → w.state.Active b → a = b

/-- What a program has to know to write to its lock, and to place a job. -/
def entitled (i : ℕ) (w : Site) : {β : Type} → QueueOp β → Prop
  | _, .writeLock file => Made i file w
  | _, .placeJob _ => ∃ file, Made i file w ∧
      (w.state.Stale staleSeconds file ∨ ∀ jobId, ¬w.state.Active jobId)
  | _, _ => True

/-- The contract of the queue: whoever has made a lock holds it, and places a job when there is no
other one. -/
def exclusion : Contract QueueOp QueueError Request Runtime Unit where
  known _ := True
  inv := Sound
  pre i op w := (∀ file, Made i file w → Holds staleSeconds file w) ∧ entitled staleSeconds i w op
  post _ _ _ _ := True
  gone _ _ := True

/-- Program `i` has made the file and no other one, and either that is stale, or it is the lock and
the active jobs are among those in `l`. -/
structure Inside (i file : ℕ) (l : Set Uuid) (w : Site) : Prop where
  made : ∀ f, Made i f w ↔ f = file
  holds : w.state.Stale staleSeconds file ∨
    w.state.lock = some file ∧ ∀ jobId, w.state.Active jobId → jobId ∈ l

/-- Program `i` has made no lock. -/
def Free (i : ℕ) (w : Site) : Prop := ∀ file, ¬Made i file w

namespace Runtime

/-- A step that leaves the lock alone and adds no active job. -/
structure Quiet (rt rt' : Runtime) : Prop where
  clock : rt.clock ≤ rt'.clock
  lock : rt'.lock = rt.lock
  created : rt'.created = rt.created
  mtime : rt'.mtime = rt.mtime
  names : (rt.jobs.map Prod.fst).Nodup → (rt'.jobs.map Prod.fst).Nodup
  active : ∀ jobId, rt'.Active jobId → rt.Active jobId

variable {rt rt' : Runtime} {jobId a : Uuid} {state : JobState} {now : Time} {staleSeconds : Time}

theorem active_put : (rt.put jobId state).Active a ↔
    (a = jobId ∧ state.active = true) ∨ (a ≠ jobId ∧ rt.Active a) := by
  simp only [Active, put, List.mem_cons, List.mem_filter, decide_eq_true_eq]
  constructor
  · rintro ⟨j, rfl | ⟨hj, hne⟩, rfl, hact⟩
    · exact .inl ⟨rfl, hact⟩
    · exact .inr ⟨hne, j, hj, rfl, hact⟩
  · rintro (⟨rfl, hact⟩ | ⟨hne, j, hj, rfl, hact⟩)
    · exact ⟨(a, state), .inl rfl, rfl, hact⟩
    · exact ⟨j, .inr ⟨hj, hne⟩, rfl, hact⟩

theorem names_put (h : (rt.jobs.map Prod.fst).Nodup) :
    ((rt.put jobId state).jobs.map Prod.fst).Nodup := by
  rw [put, List.map_cons, List.nodup_cons]
  refine ⟨fun hmem ↦ ?_, (List.filter_sublist.map _).nodup h⟩
  obtain ⟨j, hj, heq⟩ := List.mem_map.mp hmem
  have hne := of_decide_eq_true (List.mem_filter.mp hj).2
  exact hne heq

/-- A status that was read tells whether the job is active. -/
theorem active_iff_of_find? {j : Uuid × JobState} (h : (rt.jobs.map Prod.fst).Nodup)
    (hj : rt.jobs.find? (fun j ↦ j.1 = jobId) = some j) :
    rt.Active jobId ↔ j.2.active = true := by
  have hmem := List.mem_of_find?_eq_some hj
  have hid : j.1 = jobId := by simpa using List.find?_some hj
  refine ⟨fun ⟨j', hj', hid', hact⟩ ↦ ?_, fun hact ↦ ⟨j, hmem, hid, hact⟩⟩
  have heq : j' = j := List.inj_on_of_nodup_map h hj' hmem (hid'.trans hid.symm)
  exact heq ▸ hact

/-- The calls that leave the lock alone and add no active job. -/
def quiet (rt : Runtime) : {β : Type} → QueueOp β → Prop
  | _, .createLock => rt.lock ≠ none
  | _, .writeLock _ | _, .unlinkLock | _, .placeJob _ => False
  | _, .publish jobId state => state.active = true → rt.Active jobId
  | _, _ => True

theorem quiet_exec {β : Type} {op : QueueOp β} (hop : rt.quiet op) (hnow : rt.clock ≤ now) :
    Quiet rt ({ rt with clock := now }.exec op).2 := by
  have hsame : Quiet rt { rt with clock := now } :=
    ⟨hnow, rfl, rfl, rfl, id, fun _ ↦ id⟩
  cases op with
  | createLock =>
    obtain ⟨file, hfile⟩ := Option.ne_none_iff_exists'.mp hop
    simpa [exec, hfile] using hsame
  | writeLock | unlinkLock | placeJob => exact hop.elim
  | lockMtime => cases hlock : rt.lock <;> simpa [exec, hlock] using hsame
  | readStatus jobId =>
    cases hfind : rt.jobs.find? (fun j ↦ j.1 = jobId) <;> simpa [exec, hfind] using hsame
  | placeRequest jobId | unlinkRequest jobId => exact ⟨hnow, rfl, rfl, rfl, id, fun _ ↦ id⟩
  | unlinkJob jobId =>
    refine ⟨hnow, rfl, rfl, rfl, (List.filter_sublist.map _).nodup, ?_⟩
    rintro a ⟨j, hj, h⟩
    exact ⟨j, (List.mem_filter.mp hj).1, h⟩
  | publish jobId state =>
    refine ⟨hnow, rfl, rfl, rfl, names_put, fun a ha ↦ ?_⟩
    rcases active_put.mp ha with ⟨rfl, hact⟩ | ⟨-, ha⟩
    · exact hop hact
    · exact ha
  | makeDirs | makeParent | time | jobNames => exact hsame

end Runtime

section

variable {staleSeconds} {w : Site} {i j file f : ℕ} {l : Set Uuid} {now : Time} {β : Type}
  {op : QueueOp β}

theorem made_after : Made i f ((queue staleSeconds).after j op now w) ↔
    (j = i ∧ lockMade ⟨op, ((queue staleSeconds).exec now op w.state).1⟩ = some f) ∨
      Made i f w := by
  rw [Made, System.after_trace]
  simp only [List.mem_cons, or_and_right, exists_or, exists_eq_left]
  rfl

/-- The lock that a call creates. -/
def creates (rt : Runtime) : {β : Type} → QueueOp β → Option ℕ
  | _, .createLock => if rt.lock = none then some rt.created else none
  | _, _ => none

theorem lockMade_exec :
    lockMade ⟨op, ((queue staleSeconds).exec now op w.state).1⟩ = creates w.state op := by
  cases op with
  | createLock =>
    cases hlock : w.state.lock <;> simp [queue, Runtime.exec, hlock, creates, lockMade]
  | _ => rfl

theorem made_after_of_none (h : creates w.state op = none) :
    Made i f ((queue staleSeconds).after j op now w) ↔ Made i f w := by
  simp [made_after, lockMade_exec, h]

theorem made_after_of_ne (h : j ≠ i) :
    Made i f ((queue staleSeconds).after j op now w) ↔ Made i f w := by
  simp [made_after, h]

theorem creates_of_quiet (h : w.state.quiet op) : creates w.state op = none := by
  cases op with
  | createLock => exact if_neg h
  | _ => rfl

/-- Calls that leave the lock alone change nothing for who is inside. -/
theorem Inside.after_quiet (h : Inside staleSeconds i file l w) (hop : w.state.quiet op)
    (hnow : w.state.clock ≤ now) :
    Inside staleSeconds i file l ((queue staleSeconds).after j op now w) := by
  have hq := Runtime.quiet_exec hop hnow
  refine ⟨fun f ↦ (made_after_of_none (creates_of_quiet hop)).trans (h.made f), ?_⟩
  refine h.holds.imp (fun hstale ↦ ?_) fun ⟨hlock, hl⟩ ↦
    ⟨hq.lock.trans hlock, fun jobId hact ↦ hl jobId (hq.active jobId hact)⟩
  show (_ : Runtime).mtime file + staleSeconds < (_ : Runtime).clock
  rw [System.after_state]
  exact hq.mtime ▸ hstale.trans_le hq.clock

/-- On timely terms who is inside has the lock. -/
theorem Inside.has (h : Inside staleSeconds i file l w) (hnow : w.state.clock ≤ now)
    (hmay : (timely staleSeconds).may i op now w) :
    w.state.lock = some file ∧ ∀ jobId, w.state.Active jobId → jobId ∈ l := by
  refine h.holds.resolve_left fun hstale ↦ ?_
  have hle : now ≤ w.state.mtime file + staleSeconds := hmay.1 file ((h.made file).mpr rfl)
  exact absurd (hle.trans_lt hstale) (not_lt.mpr hnow)

/-! ### The invariant -/

/-- What a call keeps of `Sound` when it leaves the lock alone. -/
theorem Sound.after_quiet (h : Sound w) (hop : w.state.quiet op) (hnow : w.state.clock ≤ now) :
    Sound ((queue staleSeconds).after j op now w) := by
  have hq := Runtime.quiet_exec hop hnow
  have hmade : ∀ i f, Made i f ((queue staleSeconds).after j op now w) ↔ Made i f w := fun _ _ ↦
    made_after_of_none (creates_of_quiet hop)
  exact {
    made := fun i f hf ↦ (h.made i f ((hmade i f).mp hf)).trans_eq hq.created.symm
    lock := fun f hf ↦ (h.lock f (hq.lock.symm.trans hf)).trans_eq hq.created.symm
    alone := fun i k f hi hk ↦ h.alone i k f ((hmade i f).mp hi) ((hmade k f).mp hk)
    names := hq.names h.names
    single := fun a b ha hb ↦ h.single a b (hq.active a ha) (hq.active b hb) }

theorem Sound.after_createLock (h : Sound w) (hfree : w.state.lock = none) :
    Sound ((queue staleSeconds).after j .createLock now w) := by
  have hstate : ((queue staleSeconds).exec now .createLock w.state).2 = { w.state with
      clock := now
      lock := some w.state.created
      created := w.state.created + 1
      mtime := Function.update w.state.mtime w.state.created now } := by
    simp [queue, Runtime.exec, hfree]
  have hmade : ∀ i f, Made i f ((queue staleSeconds).after j .createLock now w) ↔
      (j = i ∧ w.state.created = f) ∨ Made i f w := fun i f ↦ by
    simp [made_after, lockMade_exec, creates, hfree]
  have hnew : ∀ i, ¬Made i w.state.created w := fun i hi ↦ lt_irrefl _ (h.made i _ hi)
  refine ⟨fun i f hf ↦ ?_, fun f hf ↦ ?_, fun i k f hi hk ↦ ?_, ?_, ?_⟩
  · rw [System.after_state, hstate]
    rcases (hmade i f).mp hf with ⟨-, rfl⟩ | hf
    · exact Nat.lt_succ_self _
    · exact (h.made i f hf).trans (Nat.lt_succ_self _)
  · rw [System.after_state, hstate] at hf ⊢
    exact Option.some.inj hf ▸ Nat.lt_succ_self _
  · rcases (hmade i f).mp hi with ⟨rfl, rfl⟩ | hi <;> rcases (hmade k _).mp hk with ⟨rfl, hf⟩ | hk
    · rfl
    · exact absurd hk (hnew k)
    · exact absurd (hf ▸ hi) (hnew i)
    · exact h.alone i k f hi hk
  · rw [System.after_state, hstate]
    exact h.names
  · rw [System.after_state, hstate]
    exact h.single

/-- On timely terms who makes a call has no lock that is stale. -/
theorem not_stale (hf : Made i f w) (hnow : w.state.clock ≤ now)
    (hmay : (timely staleSeconds).may i op now w) : ¬w.state.Stale staleSeconds f :=
  fun hstale ↦ absurd ((hmay.1 f hf).trans_lt hstale) (not_lt.mpr hnow)

/-- What a call is made with keeps `Sound`. -/
theorem Sound.after_call (h : Sound w) (hpre : (exclusion staleSeconds).pre j op w)
    (hmay : (timely staleSeconds).may j op now w) (hnow : w.state.clock ≤ now) :
    Sound ((queue staleSeconds).after j op now w) := by
  cases op with
  | createLock =>
    by_cases hfree : w.state.lock = none
    · exact h.after_createLock hfree
    · exact h.after_quiet hfree hnow
  | writeLock f =>
    have hmade : ∀ i g, Made i g ((queue staleSeconds).after j (.writeLock f) now w) ↔ Made i g w :=
      fun _ _ ↦ made_after_of_none rfl
    exact {
      made := fun i g hg ↦ h.made i g ((hmade i g).mp hg)
      lock := h.lock
      alone := fun i k g hi hk ↦ h.alone i k g ((hmade i g).mp hi) ((hmade k g).mp hk)
      names := h.names
      single := h.single }
  | unlinkLock =>
    have hmade : ∀ i g, Made i g ((queue staleSeconds).after j .unlinkLock now w) ↔ Made i g w :=
      fun _ _ ↦ made_after_of_none rfl
    exact {
      made := fun i g hg ↦ h.made i g ((hmade i g).mp hg)
      lock := fun g hg ↦ absurd hg.symm (Option.some_ne_none g)
      alone := fun i k g hi hk ↦ h.alone i k g ((hmade i g).mp hi) ((hmade k g).mp hk)
      names := h.names
      single := h.single }
  | placeJob jobId =>
    have hmade : ∀ i g, Made i g ((queue staleSeconds).after j (.placeJob jobId) now w) ↔
        Made i g w := fun _ _ ↦ made_after_of_none rfl
    obtain ⟨f, hf, hidle⟩ := hpre.2
    have hidle := hidle.resolve_left (not_stale hf hnow hmay)
    -- there was no active job, so the new one is the only one
    have honly : ∀ a, (w.state.put jobId .queued).Active a → a = jobId := fun a ha ↦ by
      rcases Runtime.active_put.mp ha with ⟨rfl, -⟩ | ⟨-, ha⟩
      · rfl
      · exact absurd ha (hidle a)
    exact {
      made := fun i g hg ↦ h.made i g ((hmade i g).mp hg)
      lock := h.lock
      alone := fun i k g hi hk ↦ h.alone i k g ((hmade i g).mp hi) ((hmade k g).mp hk)
      names := Runtime.names_put h.names
      single := fun a b ha hb ↦ (honly a ha).trans (honly b hb).symm }
  | publish jobId state => exact h.after_quiet hmay.2 hnow
  | _ => exact h.after_quiet trivial hnow

/-- What others do leaves who is inside there. -/
theorem Inside.after_other (h : Inside staleSeconds i file l w) (hji : j ≠ i) (hs : Sound w)
    (hpre : (exclusion staleSeconds).pre j op w) (hmay : (timely staleSeconds).may j op now w)
    (hnow : w.state.clock ≤ now) :
    Inside staleSeconds i file l ((queue staleSeconds).after j op now w) := by
  have hmine : Made i file w := (h.made file).mpr rfl
  have hmade : ∀ f, Made i f ((queue staleSeconds).after j op now w) ↔ f = file := fun f ↦
    (made_after_of_ne hji).trans (h.made f)
  have hnot : ∀ f, Made j f w → f ≠ file := fun f hf heq ↦ hji (hs.alone j i file (heq ▸ hf) hmine)
  cases op with
  | createLock =>
    by_cases hfree : w.state.lock = none
    · refine ⟨hmade, .inl ?_⟩
      have hstale := h.holds.resolve_right fun hlock ↦ by simp [hfree] at hlock
      have hne : file ≠ w.state.created := (hs.made i file hmine).ne
      have hexec : ((queue staleSeconds).exec now .createLock w.state).2 = { w.state with
          clock := now
          lock := some w.state.created
          created := w.state.created + 1
          mtime := Function.update w.state.mtime w.state.created now } := by
        simp [queue, Runtime.exec, hfree]
      rw [System.after_state, hexec, Runtime.Stale]
      simpa only [Function.update_of_ne hne] using hstale.trans_le hnow
    · exact h.after_quiet hfree hnow
  | writeLock f =>
    refine ⟨hmade, h.holds.imp (fun hstale ↦ ?_) id⟩
    have hne : file ≠ f := (hnot f hpre.2).symm
    show Function.update w.state.mtime f now file + staleSeconds < now
    rw [Function.update_of_ne hne]
    exact hstale.trans_le hnow
  | unlinkLock =>
    refine ⟨hmade, .inl ?_⟩
    rcases h.holds with hstale | ⟨hlock, -⟩
    · exact hstale.trans_le hnow
    · exact hmay.2 file hlock fun hj ↦ hnot file hj rfl
  | placeJob jobId =>
    refine ⟨hmade, .inl ?_⟩
    rcases h.holds with hstale | ⟨hlock, -⟩
    · exact hstale.trans_le hnow
    · -- whoever places a job has the lock as well
      obtain ⟨f, hf, -⟩ := hpre.2
      have hlock' := (hpre.1 f hf).resolve_left (not_stale hf hnow hmay)
      exact absurd (Option.some.inj (hlock'.symm.trans hlock)) (hnot f hf)
  | publish jobId state => exact h.after_quiet hmay.2 hnow
  | _ => exact h.after_quiet trivial hnow

/-! ### The programs -/

theorem Inside.mono {l' : Set Uuid} (h : Inside staleSeconds i file l w) (hl : l ⊆ l') :
    Inside staleSeconds i file l' w :=
  ⟨h.made, h.holds.imp_right fun hlock ↦ ⟨hlock.1, fun jobId hact ↦ hl (hlock.2 jobId hact)⟩⟩

theorem Inside.holds_of_made (h : Inside staleSeconds i file l w) (hf : Made i f w) :
    Holds staleSeconds f w := by
  obtain rfl := (h.made f).mp hf
  exact h.holds.imp_right And.left

end

/-- Program `i` is inside with some lock. -/
def Within (i : ℕ) (l : Set Uuid) (w : Site) : Prop := ∃ file, Inside staleSeconds i file l w

/-- What holds of a part that returns, when nothing is asked of one that raises. -/
def OnOk {β : Type} (P : β → Site → Prop) : Except QueueError β → Site → Prop
  | .ok b, w => P b w
  | .error _, _ => True

/-- Program `i` knows `P`, and makes the calls of the part as it should. -/
abbrev Keeps {β : Type} (i : ℕ) (Q : Except QueueError β → Site → Prop) (p : QueueProg β)
    (P : Site → Prop) : Prop :=
  (exclusion staleSeconds).Ensures (queue staleSeconds) (timely staleSeconds) i Q p P

/-- What program `i` knows stays true. -/
abbrev Stays (i : ℕ) (P : Site → Prop) : Prop :=
  (exclusion staleSeconds).Stable (queue staleSeconds) (timely staleSeconds) i P

section

variable {staleSeconds} {i file : ℕ} {l : Set Uuid} {β : Type}

theorem stays_inside : Stays staleSeconds i (Inside staleSeconds i file l) where
  spawned _ _ h := ⟨h.made, h.holds⟩
  called _ hji _ _ _ _ hh hpre hmay hnow h :=
    h.after_other hji hh.2 hpre hmay (of_decide_eq_true hnow)

theorem stays_within : Stays staleSeconds i (Within staleSeconds i l) where
  spawned w r h := h.imp fun _ hfile ↦ stays_inside.spawned w r hfile
  called j hji _ op now w hh hpre hmay hnow h :=
    h.imp fun _ hfile ↦ stays_inside.called j hji op now w hh hpre hmay hnow hfile

theorem stays_free : Stays staleSeconds i (Free i) where
  spawned _ _ h := h
  called _ hji _ _ _ _ _ _ _ _ h f hf := h f ((made_after_of_ne hji).mp hf)

theorem stays_onOk {P : β → Site → Prop} (h : ∀ b, Stays staleSeconds i (P b))
    (r : Except QueueError β) : Stays staleSeconds i (OnOk P r) := by
  cases r with
  | ok b => exact h b
  | error e => exact .true i

/-- A call before a lock has been made. -/
theorem keeps_free (op : QueueOp β) (hop : ∀ rt, creates rt op = none)
    (hent : ∀ w, entitled staleSeconds i w op) :
    Keeps staleSeconds i (OnOk fun _ ↦ Free i) (perform op) (Free i) := by
  refine Contract.ensures_perform stays_free (stays_onOk fun _ ↦ stays_free)
    (fun w _ hw ↦ ⟨fun file hfile ↦ absurd hfile (hw file), hent w⟩)
    (fun _ _ _ _ ↦ ⟨trivial, fun _ ↦ trivial⟩) fun w now _ hw _ _ ↦ ?_
  have hafter : Free i ((queue staleSeconds).after i op now w) := fun file hfile ↦
    hw file ((made_after_of_none (hop _)).mp hfile)
  cases ((queue staleSeconds).exec now op w.state).1 with
  | ok b => exact hafter
  | error e => trivial

/-- A call under the lock. -/
theorem keeps_within {op : QueueOp β} {l' : Except QueueError β → Set Uuid}
    (hent : ∀ file w, Inside staleSeconds i file l w → entitled staleSeconds i w op)
    (hfault : ∀ e, l ⊆ l' (.error e))
    (hnext : ∀ file w now, Sound w → Inside staleSeconds i file l w → w.state.clock ≤ now →
      (timely staleSeconds).may i op now w → Inside staleSeconds i file
        (l' ((queue staleSeconds).exec now op w.state).1) ((queue staleSeconds).after i op now w)) :
    Keeps staleSeconds i (fun r ↦ Within staleSeconds i (l' r)) (perform op)
      (Within staleSeconds i l) := by
  refine Contract.ensures_perform stays_within (fun _ ↦ stays_within) ?_ ?_ ?_
  · rintro w - ⟨file, hw⟩
    exact ⟨fun _ ↦ hw.holds_of_made, hent file w hw⟩
  · rintro w - ⟨file, hw⟩ -
    exact ⟨trivial, fun e ↦ ⟨file, hw.mono (hfault e)⟩⟩
  · rintro w now hh ⟨file, hw⟩ hmay hnow
    exact ⟨file, hnext file w now hh.2 hw (of_decide_eq_true hnow) hmay⟩

/-- A call under the lock that leaves it alone. -/
theorem keeps_quiet (op : QueueOp β) (hop : ∀ rt : Runtime, rt.quiet op)
    (hent : ∀ w, entitled staleSeconds i w op) :
    Keeps staleSeconds i (fun _ ↦ Within staleSeconds i l) (perform op)
      (Within staleSeconds i l) :=
  keeps_within (fun _ w _ ↦ hent w) (fun _ ↦ subset_rfl)
    fun _ w _ _ hw hnow _ ↦ hw.after_quiet (hop w.state) hnow

/-- A part whose exceptions are replaced. -/
theorem keeps_orUnavailable {Q : Except QueueError β → Site → Prop} {p : QueueProg β}
    {P : Site → Prop} (hp : Keeps staleSeconds i Q p P) (hQ : ∀ r, Stays staleSeconds i (Q r))
    (herr : ∀ e e' w, Q (.error e) w → Q (.error e') w) :
    Keeps staleSeconds i Q (orUnavailable p) P :=
  hp.tryCatch (fun e ↦ Contract.ensures_raise (hQ _) fun w _ ↦ herr e _ w) fun _ _ _ ↦ id

/-! #### Taking the lock -/

/-- What an attempt to create the lock leaves behind. -/
def Created (staleSeconds : Time) (i : ℕ) : Option ℕ → Site → Prop
  | some file => Inside staleSeconds i file Set.univ
  | none => Free i

/-- What an attempt to take the lock leaves behind. -/
def Took (staleSeconds : Time) (i : ℕ) : Bool → Site → Prop
  | true => Within staleSeconds i Set.univ
  | false => Free i

theorem keeps_createLock :
    Keeps staleSeconds i (OnOk (Created staleSeconds i)) (perform .createLock) (Free i) := by
  have hstays : ∀ o, Stays staleSeconds i (Created staleSeconds i o) := fun o ↦ by
    cases o with
    | some file => exact stays_inside
    | none => exact stays_free
  refine Contract.ensures_perform stays_free (stays_onOk hstays)
    (fun w _ hw ↦ ⟨fun file hfile ↦ absurd hfile (hw file), trivial⟩)
    (fun _ _ _ _ ↦ ⟨trivial, fun _ ↦ trivial⟩) fun w now _ hw _ _ ↦ ?_
  by_cases hfree : w.state.lock = none
  · have hmade : ∀ f, Made i f ((queue staleSeconds).after i .createLock now w) ↔
        f = w.state.created := fun f ↦ by
      simp [made_after, lockMade_exec, creates, hfree, hw f, eq_comm]
    have hanswer : ((queue staleSeconds).exec now .createLock w.state).1 =
        .ok (some w.state.created) := by simp [queue, Runtime.exec, hfree]
    rw [hanswer]
    refine ⟨hmade, .inr ⟨?_, fun _ _ ↦ trivial⟩⟩
    simp [queue, Runtime.exec, hfree]
  · obtain ⟨file, hfile⟩ := Option.ne_none_iff_exists'.mp hfree
    have hanswer : ((queue staleSeconds).exec now .createLock w.state).1 = .ok none := by
      simp [queue, Runtime.exec, hfile]
    rw [hanswer]
    have hquiet : w.state.quiet .createLock := hfree
    exact fun f hf ↦ hw f ((made_after_of_none (creates_of_quiet hquiet)).mp hf)

/-- The lock is as old as what has been written to it last. -/
theorem keeps_writeLock : Keeps staleSeconds i (OnOk fun _ ↦ Within staleSeconds i Set.univ)
    (perform (.writeLock file)) (Inside staleSeconds i file Set.univ) := by
  refine Contract.ensures_perform stays_inside (stays_onOk fun _ ↦ stays_within)
    (fun w _ hw ↦ ⟨fun _ ↦ hw.holds_of_made, (hw.made _).mpr rfl⟩)
    (fun _ _ _ _ ↦ ⟨trivial, fun _ ↦ trivial⟩) fun w now _ hw hmay hnow ↦ ?_
  exact ⟨file, fun f ↦ (made_after_of_none rfl).trans (hw.made f),
    .inr (hw.has (of_decide_eq_true hnow) hmay)⟩

theorem keeps_takeLock (attempt : ℕ) : Keeps staleSeconds i (OnOk (Took staleSeconds i))
    (takeLock staleSeconds attempt) (Free i) := by
  refine (keeps_orUnavailable keeps_createLock (stays_onOk fun o ↦ ?_) fun _ _ _ _ ↦ trivial).bind
    (fun created ↦ ?_) fun _ _ _ _ ↦ trivial
  · cases o with
    | some file => exact stays_inside
    | none => exact stays_free
  · cases created with
    | some file =>
      refine (keeps_orUnavailable keeps_writeLock (stays_onOk fun _ ↦ stays_within)
        fun _ _ _ _ ↦ trivial).bind (fun _ ↦ ?_) fun _ _ _ _ ↦ trivial
      exact Contract.ensures_pure stays_within fun _ _ hw ↦ hw
    | none =>
      -- the lock is there, and its age is read
      refine (keeps_free .time (fun _ ↦ rfl) fun _ ↦ trivial).bind (fun now ↦ ?_)
        fun _ _ _ _ ↦ trivial
      refine (keeps_orUnavailable (keeps_free .lockMtime (fun _ ↦ rfl) fun _ ↦ trivial)
        (stays_onOk fun _ ↦ stays_free) fun _ _ _ _ ↦ trivial).bind (fun mtime ↦ ?_)
        fun _ _ _ _ ↦ trivial
      split_ifs
      · refine (keeps_free .unlinkLock (fun _ ↦ rfl) fun _ ↦ trivial).bind (fun _ ↦ ?_)
          fun _ _ _ _ ↦ trivial
        exact Contract.ensures_pure stays_free fun _ _ hw ↦ hw
      · exact Contract.ensures_raise stays_free fun _ _ _ ↦ trivial

theorem keeps_acquireLock : Keeps staleSeconds i (OnOk fun _ ↦ Within staleSeconds i Set.univ)
    (acquireLock staleSeconds) (Free i) := by
  have hbusy : Keeps staleSeconds i (OnOk fun _ ↦ Within staleSeconds i Set.univ)
      (raise .busy : QueueProg Unit) (Free i) :=
    Contract.ensures_raise stays_free fun _ _ _ ↦ trivial
  have htaken : Keeps staleSeconds i (OnOk fun _ ↦ Within staleSeconds i Set.univ)
      (pure () : QueueProg Unit) (Within staleSeconds i Set.univ) :=
    Contract.ensures_pure stays_within fun _ _ hw ↦ hw
  refine (keeps_free .makeDirs (fun _ ↦ rfl) fun _ ↦ trivial).bind (fun _ ↦ ?_)
    fun _ _ _ _ ↦ trivial
  refine (keeps_takeLock 0).bind (fun taken ↦ ?_) fun _ _ _ _ ↦ trivial
  cases taken with
  | true => exact htaken
  | false =>
    refine (keeps_takeLock 1).bind (fun taken ↦ ?_) fun _ _ _ _ ↦ trivial
    cases taken with
    | true => exact htaken
    | false => exact hbusy

/-! #### Under the lock -/

/-- Which jobs may be active once a status has been read. -/
def remaining (rest : List Uuid) : Except QueueError JobState → Set Uuid
  | .ok state => if state.active then Set.univ else {a | a ∈ rest}
  | .error _ => Set.univ

/-- Which jobs may be active once all have been looked at. -/
def looked : Except QueueError Bool → Set Uuid
  | .ok false => ∅
  | _ => Set.univ

theorem keeps_readStatus (jobId : Uuid) (rest : List Uuid) :
    Keeps staleSeconds i (fun r ↦ Within staleSeconds i (remaining rest r))
      (perform (.readStatus jobId)) (Within staleSeconds i {a | a ∈ jobId :: rest}) := by
  refine keeps_within (fun _ _ _ ↦ trivial) (fun _ ↦ Set.subset_univ _)
    fun file w now hs hw hnow hmay ↦ ?_
  have hafter : Inside staleSeconds i file {a | a ∈ jobId :: rest}
      ((queue staleSeconds).after i (.readStatus jobId) now w) := hw.after_quiet trivial hnow
  cases hfind : w.state.jobs.find? fun j ↦ j.1 = jobId with
  | none =>
    have hanswer : ((queue staleSeconds).exec now (.readStatus jobId) w.state).1 =
        .error .fileNotFound := by simp [queue, Runtime.exec, hfind]
    rw [hanswer]
    exact hafter.mono (Set.subset_univ _)
  | some j =>
    have hanswer : ((queue staleSeconds).exec now (.readStatus jobId) w.state).1 = .ok j.2 := by
      simp [queue, Runtime.exec, hfind]
    rw [hanswer, remaining]
    split_ifs with hact
    · exact hafter.mono (Set.subset_univ _)
    · -- the job that was read is not active, so the active ones are among the rest
      have hstate : ((queue staleSeconds).exec now (.readStatus jobId) w.state).2 =
          { w.state with clock := now } := by simp [queue, Runtime.exec, hfind]
      refine ⟨hafter.made, .inr ?_⟩
      rw [System.after_state, hstate]
      refine ⟨(hw.has hnow hmay).1, fun a ha ↦ ?_⟩
      rcases List.mem_cons.mp ((hw.has hnow hmay).2 a ha) with rfl | hmem
      · exact absurd ((Runtime.active_iff_of_find? hs.names hfind).mp ha) hact
      · exact hmem

theorem keeps_anyActive (names : List Uuid) :
    Keeps staleSeconds i (fun r ↦ Within staleSeconds i (looked r)) (anyActive names)
      (Within staleSeconds i {a | a ∈ names}) := by
  induction names with
  | nil =>
    refine Contract.ensures_pure stays_within fun _ _ hw ↦ ?_
    exact hw.imp fun _ hfile ↦ hfile.mono fun _ hmem ↦ absurd hmem List.not_mem_nil
  | cons jobId rest ih =>
    refine (keeps_orUnavailable (keeps_readStatus jobId rest) (fun _ ↦ stays_within)
      fun _ _ _ ↦ id).bind (fun state ↦ ?_) fun _ _ _ ↦ id
    simp only [remaining]
    split_ifs
    · exact Contract.ensures_pure stays_within fun _ _ hw ↦ hw
    · exact ih

theorem keeps_activeJobExists :
    Keeps staleSeconds i (fun r ↦ Within staleSeconds i (looked r)) activeJobExists
      (Within staleSeconds i Set.univ) := by
  have hnames : Keeps staleSeconds i (fun r ↦ Within staleSeconds i
      {a | ∀ names, r = .ok names → a ∈ names}) (perform .jobNames)
      (Within staleSeconds i Set.univ) := by
    refine keeps_within (fun _ _ _ ↦ trivial) (fun _ _ _ _ h ↦ by cases h)
      fun file w now _ hw hnow hmay ↦ ?_
    refine ⟨fun _ ↦ (made_after_of_none rfl).trans (hw.made _), .inr ⟨(hw.has hnow hmay).1, ?_⟩⟩
    rintro a ⟨j, hj, rfl, -⟩ names heq
    obtain rfl : w.state.jobs.map Prod.fst = names := Except.ok.inj heq
    exact List.mem_map_of_mem hj
  refine hnames.bind (fun names ↦ ?_) fun e _ _ hw ↦ ?_
  · refine (keeps_anyActive names).pre stays_within fun _ _ hw ↦ ?_
    exact hw.imp fun _ hfile ↦ hfile.mono fun a ha ↦ ha names rfl
  · exact hw.imp fun _ hfile ↦ hfile.mono (Set.subset_univ _)

/-- Placing a file under the lock, where that leaves who is inside there. -/
theorem keeps_atomicWrite {place : QueueOp Unit}
    (hent : ∀ file w, Inside staleSeconds i file l w → entitled staleSeconds i w place)
    (hplace : ∀ file w now, Inside staleSeconds i file l w → w.state.clock ≤ now →
      (timely staleSeconds).may i place now w →
      Inside staleSeconds i file Set.univ ((queue staleSeconds).after i place now w)) :
    Keeps staleSeconds i (fun _ ↦ Within staleSeconds i Set.univ) (atomicWrite place)
      (Within staleSeconds i l) := by
  refine (keeps_quiet .makeParent (fun _ ↦ trivial) fun _ ↦ trivial).bind (fun _ ↦ ?_)
    fun _ _ _ hw ↦ ?_
  · refine keeps_orUnavailable (keeps_within hent (fun _ ↦ Set.subset_univ _) ?_)
      (fun _ ↦ stays_within) fun _ _ _ ↦ id
    exact fun file w now _ ↦ hplace file w now
  · exact hw.imp fun _ hfile ↦ hfile.mono (Set.subset_univ _)

theorem keeps_publishQueued (jobId : Uuid) :
    Keeps staleSeconds i (fun _ ↦ Within staleSeconds i Set.univ) (publishQueued jobId)
      (Within staleSeconds i Set.univ) := by
  have hraise : ∀ e, Keeps staleSeconds i (fun _ ↦ Within staleSeconds i Set.univ)
      (raise e : QueueProg Unit) (Within staleSeconds i Set.univ) := fun _ ↦
    Contract.ensures_raise stays_within fun _ _ hw ↦ hw
  -- no job is active while the queued one takes its place
  have hwrite : Keeps staleSeconds i (fun _ ↦ Within staleSeconds i Set.univ)
      (atomicWrite (.placeJob jobId) >>= fun _ ↦ atomicWrite (.placeRequest jobId))
      (Within staleSeconds i ∅) := by
    refine (keeps_atomicWrite (fun file w hw ↦ ?_) fun file w now hw hnow hmay ↦ ?_).bind
      (fun _ ↦ ?_) fun _ _ _ hw ↦ hw
    · exact ⟨file, (hw.made file).mpr rfl, hw.holds.imp_right And.right⟩
    · exact ⟨fun _ ↦ (made_after_of_none rfl).trans (hw.made _),
        .inr ⟨(hw.has hnow hmay).1, fun _ _ ↦ trivial⟩⟩
    · exact keeps_atomicWrite (fun _ _ _ ↦ trivial) fun _ _ _ hw hnow _ ↦
        hw.after_quiet trivial hnow
  refine keeps_activeJobExists.bind (fun busy ↦ ?_) fun _ _ _ hw ↦ hw
  cases busy with
  | true => exact hraise _
  | false =>
    refine hwrite.tryCatch (fun e ↦ ?_) fun _ _ _ hw ↦ hw
    split_ifs
    · refine (keeps_quiet (.unlinkRequest jobId) (fun _ ↦ trivial) fun _ ↦ trivial).bind
        (fun _ ↦ ?_) fun _ _ _ hw ↦ hw
      exact (keeps_quiet (.unlinkJob jobId) (fun _ ↦ trivial) fun _ ↦ trivial).bind
        (fun _ ↦ hraise e) fun _ _ _ hw ↦ hw
    · exact hraise e

theorem keeps_enqueue (jobId : Uuid) :
    Keeps staleSeconds i (fun _ _ ↦ True) (enqueue staleSeconds jobId) (Free i) := by
  refine keeps_acquireLock.bind (fun _ ↦ ?_) fun _ _ _ _ ↦ trivial
  refine (keeps_publishQueued jobId).lastCall (fun _ ↦ .true i) (fun _ w _ hw ↦ ?_)
    (fun _ _ _ _ _ ↦ ⟨trivial, fun _ ↦ trivial⟩) fun _ _ _ _ _ _ _ ↦ ⟨trivial, fun _ ↦ trivial⟩
  obtain ⟨file, hw⟩ := hw
  exact ⟨fun _ ↦ hw.holds_of_made, trivial⟩

end

/-- The contract of the queue is sound. -/
theorem sound_exclusion : (exclusion staleSeconds).Sound (queue staleSeconds)
    (timely staleSeconds) where
  spawn _ _ h := ⟨h.2.made, h.2.lock, h.2.alone, h.2.names, h.2.single⟩
  call _ _ _ _ _ h hpre hmay hnow := h.2.after_call hpre hmay (of_decide_eq_true hnow)
  body w r _ hold := by
    have hfree : Free w.requests.length (w.spawned r) := by
      rintro f ⟨x, hx, hi, -⟩
      exact absurd (hold x hx) (by omega)
    refine ⟨Free w.requests.length, hfree, ?_⟩
    cases r with
    | enqueue jobId => exact (keeps_enqueue jobId).safe
    | publish jobId state =>
      refine ((keeps_free (.publish jobId state) (fun _ ↦ rfl) fun _ ↦ trivial).post ?_).safe
      exact fun _ _ _ _ ↦ trivial
  gone i := .true i

/-- The contract is kept by every run on timely terms. -/
theorem good_of_reach {c : Config QueueOp QueueError Request Runtime Unit}
    (h : (queue staleSeconds).Reach (timely staleSeconds) c) :
    (exclusion staleSeconds).Good (queue staleSeconds) (timely staleSeconds) c := by
  refine (sound_exclusion staleSeconds).good (fun s hs ↦ ?_) (fun _ _ ↦ trivial) h
  exact ⟨fun i f ⟨x, hx, _⟩ ↦ absurd hx List.not_mem_nil, hs.1,
    fun i j f ⟨x, hx, _⟩ ↦ absurd hx List.not_mem_nil, hs.2.1,
    hs.2.2⟩

/-- Program `i` is inside: it has made a lock that is not stale, and it is running. -/
def Working (i : ℕ) (c : Config QueueOp QueueError Request Runtime Unit) : Prop :=
  ∃ t file, c.threads[i]? = some t ∧ t.running = true ∧ Made i file c.world ∧
    ¬c.world.state.Stale staleSeconds file

/-- **One GPU job at a time.**  In every run on timely terms, whoever is interrupted or dies, no two
programs are inside the lock, and no two jobs are queued or running.  The terms are about the calls
that are made, each at the moment it is made. -/
theorem one_job {c : Config QueueOp QueueError Request Runtime Unit}
    (h : (queue staleSeconds).Reach (timely staleSeconds) c) :
    (∀ i j, Working staleSeconds i c → Working staleSeconds j c → i = j) ∧
      ∀ a b, c.world.state.Active a → c.world.state.Active b → a = b := by
  have hgood := good_of_reach staleSeconds h
  -- who is running has the lock, when that is not stale
  have hlock : ∀ i, Working staleSeconds i c →
      ∃ file, Made i file c.world ∧ c.world.state.lock = some file := by
    rintro i ⟨t, file, ht, hrun, hmade, hfresh⟩
    match t with
    | .live (.call op k) => exact ⟨file, hmade, ((hgood.pre ht).1 file hmade).resolve_left hfresh⟩
  refine ⟨fun i j hi hj ↦ ?_, hgood.here.2.single⟩
  obtain ⟨f, hf, hlockf⟩ := hlock i hi
  obtain ⟨g, hg, hlockg⟩ := hlock j hj
  obtain rfl := Option.some.inj (hlockf.symm.trans hlockg)
  exact hgood.here.2.alone i j f hf hg

/-! ### A run -/

instance (rt : Runtime) (jobId : Uuid) : Decidable (rt.Active jobId) :=
  inferInstanceAs (Decidable (∃ j ∈ rt.jobs, j.1 = jobId ∧ j.2.active = true))

instance (rt : Runtime) (file : ℕ) : Decidable (rt.Stale staleSeconds file) :=
  inferInstanceAs (Decidable (rt.mtime file + staleSeconds < rt.clock))

instance (i file : ℕ) (w : Site) : Decidable (Made i file w) :=
  inferInstanceAs (Decidable (∃ x ∈ w.trace, x.1 = i ∧ lockMade x.2 = some file))

instance decidableInTime (i : ℕ) (now : Time) (w : Site) :
    Decidable (∀ file, Made i file w → now ≤ w.state.mtime file + staleSeconds) :=
  decidable_of_iff
    (∀ x ∈ w.trace, x.1 = i → ∀ file ∈ lockMade x.2, now ≤ w.state.mtime file + staleSeconds)
    ⟨fun h file ⟨x, hx, hi, hf⟩ ↦ h x hx hi file hf,
      fun h x hx hi file hf ↦ h file ⟨x, hx, hi, hf⟩⟩

instance (i : ℕ) (now : Time) (w : Site) {β : Type} (op : QueueOp β) :
    Decidable (rightful staleSeconds i now w op) :=
  match op with
  | .unlinkLock => inferInstanceAs (Decidable (∀ file, w.state.lock = some file →
      ¬Made i file w → w.state.mtime file + staleSeconds < now))
  | .publish jobId state =>
    inferInstanceAs (Decidable (state.active = true → w.state.Active jobId))
  | .makeDirs | .createLock | .writeLock _ | .time | .lockMtime | .jobNames | .readStatus _
  | .makeParent | .placeJob _ | .placeRequest _ | .unlinkRequest _ | .unlinkJob _ => .isTrue trivial

instance (i : ℕ) (now : Time) (w : Site) {β : Type} (op : QueueOp β) :
    Decidable ((timely staleSeconds).may i op now w) :=
  @instDecidableAnd _ _ (decidableInTime staleSeconds i now w) inferInstance

instance (i : ℕ) (w : Site) : Decidable ((timely staleSeconds).lose i w) := .isTrue trivial

/-- A program dies with the lock, another one finds it stale and takes its place, and a third one
is turned away. -/
def abandoned : List (Event Request Time QueueError) :=
  [.spawn (.enqueue 7), .step 0 1, .step 0 1, .kill 0, .spawn (.enqueue 8), .step 1 20, .step 1 20,
    .step 1 20, .step 1 20, .step 1 20, .step 1 21, .step 1 21, .spawn (.enqueue 9), .step 2 22,
    .step 2 22, .step 2 22, .step 2 22, .step 1 23, .step 1 23, .step 1 23]

theorem one_job_abandoned : ∃ c, (queue 10).Reach (timely 10) c ∧ Working 10 1 c ∧
    (∀ i, Working 10 i c → i = 1) ∧ c.world.state.Active 8 ∧
    ∀ a, c.world.state.Active a → a = 8 := by
  obtain ⟨c, hc, hcheck⟩ := System.exists_reach_of_runOn (timely 10).allows_of_permits
    (show (queue 10).init ⟨0, none, 0, fun _ ↦ 0, [], []⟩ by
      simp [queue, Runtime.Active])
    (show ((queue 10).runOn (timely 10).permits (System.start _) abandoned).map (fun c ↦
      (c.threads[1]?.any Thread.running && decide (Made 1 1 c.world ∧
        ¬c.world.state.Stale 10 1 ∧ c.world.state.Active 8))) = some true by decide)
  rw [Bool.and_eq_true] at hcheck
  obtain ⟨t, ht, hrun⟩ := (Option.any_eq_true _ _).mp hcheck.1
  obtain ⟨hmade, hfresh, hact⟩ := of_decide_eq_true hcheck.2
  have hworking : Working 10 1 c := ⟨t, 1, ht, hrun, hmade, hfresh⟩
  exact ⟨c, hc, hworking, fun i hi ↦ (one_job 10 hc).1 i 1 hi hworking, hact,
    fun a ha ↦ (one_job 10 hc).2 a 8 ha hact⟩

/-! ### A lock that is removed too late -/

/-- Timely terms, but a lock whose age was read is removed whenever its reader comes to it. -/
def late : Terms QueueOp QueueError Time Request Runtime where
  may i op now w := (∀ file, Made i file w → now ≤ w.state.mtime file + staleSeconds) ∧
    match op with
    | .publish jobId state => state.active = true → w.state.Active jobId
    | _ => True
  lose _ _ := True

instance (i : ℕ) (now : Time) (w : Site) {β : Type} (op : QueueOp β) :
    Decidable ((late staleSeconds).may i op now w) :=
  @instDecidableAnd _ _ (decidableInTime staleSeconds i now w)
    (match op with
    | .publish jobId state =>
      inferInstanceAs (Decidable (state.active = true → w.state.Active jobId))
    | .makeDirs | .createLock | .writeLock _ | .time | .lockMtime | .unlinkLock | .jobNames
    | .readStatus _ | .makeParent | .placeJob _ | .placeRequest _ | .unlinkRequest _
    | .unlinkJob _ => .isTrue trivial)

instance (i : ℕ) (w : Site) : Decidable ((late staleSeconds).lose i w) := .isTrue trivial

/-- A lock has been left behind, and two programs find that it is stale.  One of them replaces it,
and then the other one removes the new lock and makes its own. -/
def overtaken : List (Event Request Time QueueError) :=
  [.spawn (.enqueue 7), .step 0 1, .step 0 1, .kill 0, .spawn (.enqueue 8), .step 1 20, .step 1 20,
    .step 1 20, .step 1 20, .spawn (.enqueue 9), .step 2 20, .step 2 20, .step 2 20, .step 2 20,
    .step 2 20, .step 2 21, .step 2 21, .step 1 22, .step 1 22]

theorem two_inside_of_late :
    ∃ c, (queue 10).Reach (late 10) c ∧ Working 10 1 c ∧ Working 10 2 c := by
  obtain ⟨c, hc, hcheck⟩ := System.exists_reach_of_runOn (late 10).allows_of_permits
    (show (queue 10).init ⟨0, none, 0, fun _ ↦ 0, [], []⟩ by
      simp [queue, Runtime.Active])
    (show ((queue 10).runOn (late 10).permits (System.start _) overtaken).map (fun c ↦
      (c.threads[1]?.any Thread.running && c.threads[2]?.any Thread.running &&
        decide (Made 1 2 c.world ∧ ¬c.world.state.Stale 10 2 ∧ Made 2 1 c.world ∧
          ¬c.world.state.Stale 10 1))) = some true by decide)
  simp only [Bool.and_eq_true] at hcheck
  obtain ⟨⟨h1, h2⟩, hmade⟩ := hcheck
  obtain ⟨t, ht, hrun⟩ := (Option.any_eq_true _ _).mp h1
  obtain ⟨t', ht', hrun'⟩ := (Option.any_eq_true _ _).mp h2
  obtain ⟨hm, hfresh, hm', hfresh'⟩ := of_decide_eq_true hmade
  exact ⟨c, hc, ⟨t, 2, ht, hrun, hm, hfresh⟩, t', 1, ht', hrun', hm', hfresh'⟩

end Neva.TuneQueue
