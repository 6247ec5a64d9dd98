import Neva.Window
import Mathlib.Algebra.Order.Field.Rat
import Mathlib.Tactic.Linarith

/-!
# The model gate

`_ModelGate` of `app/gemini_client.py` and the tasks that go through it in `_run_with_policy`: a
semaphore, a lock, and a queue of the times at which calls were admitted.  A task runs without
interruption from one `await` to the next (`Await`), and what it awaits may return, raise, or be
cancelled, which is the `CancelledError` that `except Exception` does not catch.  Time is rational,
and the clock is read when a task goes on and once more before it awaits again.

The queue holds every call of the last minute, so the rate limit is kept however the tasks
interleave and whatever becomes of them (`rate_limited`).  The permits of the semaphore are another
matter.  A task that is cancelled while it waits for the lock, or sleeps until the rate limit lets
it go on, leaves `acquire` by an exception `except Exception` passes by, and its permit is lost;
`permits_conserved_iff` says that nothing else loses one.
-/

set_option autoImplicit false

namespace Neva.Gemini

/-! ## The gate -/

/-- The settings of a gate and of the client that goes through it. -/
structure GateConfig where
  maxConcurrency : ℤ
  rpm : ℤ
  /-- `gemini_max_retries + 1` -/
  maxAttempts : ℕ
  deriving DecidableEq, Repr

/-- `max(1, max_concurrency)` -/
def GateConfig.permits (cfg : GateConfig) : ℕ := (max 1 cfg.maxConcurrency).toNat

/-- `max(1, rpm)` -/
def GateConfig.limit (cfg : GateConfig) : ℕ := (max 1 cfg.rpm).toNat

theorem GateConfig.limit_pos (cfg : GateConfig) : 0 < cfg.limit := by
  rw [GateConfig.limit]
  omega

/-- What a task awaits. -/
inductive Await
  /-- `await self._semaphore.acquire()` -/
  | semaphore
  /-- `async with self._lock`, which another task holds. -/
  | lock
  /-- `await asyncio.sleep(…)` inside the lock, until `wake`. -/
  | rateLimit (wake : ℚ)
  /-- `await call()` -/
  | call
  /-- `await self._safe_record(…)` after a success. -/
  | recordSuccess
  /-- `await self._safe_record(…)` after a failure. -/
  | recordError (transient : Bool)
  /-- `await self._sleep(delay)` -/
  | backoff
  /-- Nothing: `_run_with_policy` has returned or raised. -/
  | done
  deriving DecidableEq, Repr

/-- A call of `_run_with_policy`: the attempt it is at, counted from 1, and what it awaits. -/
structure Task where
  attempt : ℕ
  await : Await
  deriving DecidableEq, Repr

/-- The gate, the clock, and the tasks there are. -/
structure Gate where
  /-- `_semaphore._value` -/
  free : ℕ
  locked : Bool
  timestamps : List ℚ
  /-- The last reading of `time.monotonic()`. -/
  clock : ℚ
  tasks : List Task
  /-- The times at which `acquire` admitted a call, since the gate was opened. -/
  admitted : List ℚ
  deriving DecidableEq, Repr

/-- How an `await` ends. -/
inductive Outcome
  | returns
  /-- An `Exception`, and what `is_transient_error` says of it. -/
  | raises (transient : Bool)
  /-- `CancelledError` -/
  | cancelled
  deriving DecidableEq, Repr

inductive Event
  /-- A task calls `_run_with_policy`. -/
  | spawn
  /-- What task `i` awaits ends, at `now`, and at `later` the task awaits again. -/
  | wakes (i : ℕ) (outcome : Outcome) (now later : ℚ)
  deriving DecidableEq, Repr

namespace Gate

/-- A gate nobody has gone through. -/
def opened (cfg : GateConfig) (clock : ℚ) : Gate := ⟨cfg.permits, false, [], clock, [], []⟩

/-- `_ModelGate.release` -/
def release (g : Gate) : Gate := { g with free := g.free + 1 }

/-- `while self._timestamps and now - self._timestamps[0] >= 60.0: self._timestamps.popleft()` -/
def prune (now : ℚ) (timestamps : List ℚ) : List ℚ :=
  timestamps.dropWhile fun t ↦ decide (60 ≤ now - t)

/-- The gate after the loop that drops what is a minute old. -/
def pruned (g : Gate) (now : ℚ) : Gate := { g with timestamps := prune now g.timestamps }

/-- `self._timestamps.append(time.monotonic())`, and the lock is given back. -/
def stamp (g : Gate) (later : ℚ) : Gate :=
  { g with
    locked := false
    timestamps := g.timestamps ++ [later]
    admitted := g.admitted ++ [later] }

/-- The block that holds the lock, up to the sleep if it comes to that. -/
def enter (cfg : GateConfig) (g : Gate) (now later : ℚ) : Gate × Await :=
  let g := g.pruned now
  match g.timestamps with
  | [] => (g.stamp later, .call)
  | first :: _ =>
    if cfg.limit ≤ g.timestamps.length then
      ({ g with locked := true }, .rateLimit (later + max (60 - (now - first) + 1 / 1000) 0))
    else (g.stamp later, .call)

/-- The block that holds the lock, from the sleep on. -/
def resume (g : Gate) (now later : ℚ) : Gate := (g.pruned now).stamp later

/-- What a task does when the thing it awaits ends, up to its next `await`; nothing when it cannot
end so. -/
def proceed (cfg : GateConfig) (g : Gate) (task : Task) (outcome : Outcome) (now later : ℚ) :
    Option (Gate × Task) :=
  let awaiting (await : Await) : Task := { task with await := await }
  match task.await, outcome with
  | .semaphore, .returns =>
    if g.free = 0 then none
    else
      let g := { g with free := g.free - 1 }
      if g.locked then some (g, awaiting .lock)
      else some ((g.enter cfg now later).1, awaiting (g.enter cfg now later).2)
  | .semaphore, _ => some (g, awaiting .done)
  | .lock, .returns =>
    if g.locked then none
    else some ((g.enter cfg now later).1, awaiting (g.enter cfg now later).2)
  -- `except Exception: self._semaphore.release()`
  | .lock, .raises _ => some (g.release, awaiting .done)
  | .lock, .cancelled => some (g, awaiting .done)
  | .rateLimit wake, .returns =>
    if wake ≤ now then some (g.resume now later, awaiting .call) else none
  | .rateLimit _, .raises _ => some ({ g with locked := false }.release, awaiting .done)
  | .rateLimit _, .cancelled => some ({ g with locked := false }, awaiting .done)
  | .call, .returns => some (g, awaiting .recordSuccess)
  | .call, .raises transient => some (g, awaiting (.recordError transient))
  | .recordSuccess, .raises transient => some (g, awaiting (.recordError transient))
  | .recordError transient, .returns =>
    if transient ∧ task.attempt < cfg.maxAttempts then some (g, awaiting .backoff)
    else some (g.release, awaiting .done)
  | .backoff, .returns => some (g.release, ⟨task.attempt + 1, .semaphore⟩)
  | .done, _ => none
  -- `finally: gate.release()`
  | _, _ => some (g.release, awaiting .done)

/-- One event.  The clock does not go back. -/
def step (cfg : GateConfig) (g : Gate) : Event → Option Gate
  | .spawn =>
    some { g with tasks := g.tasks ++ [⟨1, if cfg.maxAttempts = 0 then .done else .semaphore⟩] }
  | .wakes i outcome now later =>
    if g.clock ≤ now ∧ now ≤ later then
      g.tasks[i]?.bind fun task ↦
        (g.proceed cfg task outcome now later).map fun went ↦
          { went.1 with clock := later, tasks := g.tasks.set i went.2 }
    else none

/-- One event after the other. -/
def run (cfg : GateConfig) (g : Gate) (events : List Event) : Option Gate :=
  events.foldlM (step cfg) g

end Gate

/-- The task has a permit. -/
def Await.holds : Await → Bool
  | .semaphore | .done => false
  | _ => true

/-- The task sleeps in the block that holds the lock. -/
def Await.sleeps : Await → Bool
  | .rateLimit _ => true
  | _ => false

/-- The permit of the task is lost: it is cancelled while it waits for the lock or sleeps. -/
def Await.losesPermit : Await → Outcome → Bool
  | .lock, .cancelled | .rateLimit _, .cancelled => true
  | _, _ => false

namespace Gate

/-- The number of tasks that have a permit. -/
def inside (g : Gate) : ℕ := g.tasks.countP fun task ↦ task.await.holds

/-- The event loses a permit. -/
def losesPermit (g : Gate) : Event → Bool
  | .spawn => false
  | .wakes i outcome _ _ => g.tasks[i]?.any fun task ↦ task.await.losesPermit outcome

variable {cfg : GateConfig} {g g' : Gate} {task task' : Task} {outcome : Outcome} {now later : ℚ}

/-! ## What a task does -/

/-- Whoever holds the lock admits the call at once or goes to sleep. -/
theorem enter_cases (cfg : GateConfig) (g : Gate) (now later : ℚ) :
    (g.pruned now).timestamps.length < cfg.limit ∧
        g.enter cfg now later = ((g.pruned now).stamp later, .call) ∨
      ∃ first rest, (g.pruned now).timestamps = first :: rest ∧
        g.enter cfg now later = ({ g.pruned now with locked := true },
          .rateLimit (later + max (60 - (now - first) + 1 / 1000) 0)) := by
  cases hts : (g.pruned now).timestamps with
  | nil =>
    refine .inl ⟨cfg.limit_pos, ?_⟩
    simp [enter, hts]
  | cons first rest =>
    by_cases hfull : cfg.limit ≤ rest.length + 1
    · refine .inr ⟨first, rest, rfl, ?_⟩
      simp [enter, hts, hfull]
    · refine .inl ⟨by simpa using hfull, ?_⟩
      simp [enter, hts, hfull]

@[simp] theorem enter_free : (g.enter cfg now later).1.free = g.free := by
  rcases enter_cases cfg g now later with ⟨-, h⟩ | ⟨first, rest, -, h⟩ <;> rw [h] <;> rfl

@[simp] theorem enter_holds : (g.enter cfg now later).2.holds = true := by
  rcases enter_cases cfg g now later with ⟨-, h⟩ | ⟨first, rest, -, h⟩ <;> rw [h] <;> rfl

/-! ## The permits -/

/-- A permit goes from the semaphore to the task and back, unless it is lost. -/
theorem proceed_free (h : g.proceed cfg task outcome now later = some (g', task')) :
    g'.free + task'.await.holds.toNat + (task.await.losesPermit outcome).toNat =
      g.free + task.await.holds.toNat := by
  rcases task with ⟨attempt, await⟩
  cases await <;> cases outcome <;> simp only [proceed] at h
  case semaphore.returns =>
    split_ifs at h with hfree hlocked
    · cases h
      show g.free - 1 + 1 + 0 = g.free + 0
      omega
    · cases h
      rw [enter_free, enter_holds]
      show g.free - 1 + 1 + 0 = g.free + 0
      omega
  case lock.returns =>
    split_ifs at h
    cases h
    rw [enter_free, enter_holds]
    rfl
  case rateLimit.returns =>
    split_ifs at h
    cases h
    rfl
  case recordError.returns =>
    split_ifs at h <;> cases h <;> rfl
  all_goals
    cases h
    try rfl

/-- Replacing a row changes a count by that row. -/
theorem countP_set_add {α : Type} {p : α → Bool} {xs : List α} {i : ℕ} {x : α} (y : α)
    (h : xs[i]? = some x) :
    (xs.set i y).countP p + (p x).toNat = xs.countP p + (p y).toNat := by
  obtain ⟨hi, rfl⟩ := List.getElem?_eq_some_iff.mp h
  rw [List.countP_set hi]
  have hle : (p xs[i]).toNat ≤ xs.countP p := by
    cases hp : p xs[i] with
    | false => exact Nat.zero_le _
    | true => exact List.countP_pos_iff.mpr ⟨xs[i], List.getElem_mem hi, hp⟩
  have hone : ∀ z, (if p z = true then 1 else 0) = (p z).toNat := fun z ↦ by cases p z <;> rfl
  rw [hone, hone]
  omega

/-- What an event does: a task is added, or one goes on. -/
theorem step_cases {e : Event} (h : step cfg g e = some g') :
    (e = .spawn ∧ ∃ await, await.holds = false ∧ await.sleeps = false ∧
      g' = { g with tasks := g.tasks ++ [⟨1, await⟩] }) ∨
    ∃ i outcome now later task task' went, e = .wakes i outcome now later ∧
      g.clock ≤ now ∧ now ≤ later ∧ g.tasks[i]? = some task ∧
      g.proceed cfg task outcome now later = some (went, task') ∧
      g' = { went with clock := later, tasks := g.tasks.set i task' } := by
  cases e with
  | spawn =>
    refine .inl ⟨rfl, if cfg.maxAttempts = 0 then .done else .semaphore, ?_, ?_, ?_⟩
    · split_ifs <;> rfl
    · split_ifs <;> rfl
    · exact (Option.some.inj h).symm
  | wakes i outcome now later =>
    rw [step] at h
    split_ifs at h with htime
    obtain ⟨task, htask, hwent⟩ := Option.bind_eq_some_iff.mp h
    obtain ⟨⟨went, task'⟩, hproceed, rfl⟩ := Option.map_eq_some_iff.mp hwent
    exact .inr ⟨i, outcome, now, later, task, task', went, rfl, htime.1, htime.2, htask, hproceed,
      rfl⟩

theorem step_free {e : Event} (h : step cfg g e = some g') :
    g'.free + g'.inside + (g.losesPermit e).toNat = g.free + g.inside := by
  rcases step_cases h with ⟨rfl, await, hholds, -, rfl⟩ |
    ⟨i, outcome, now, later, task, task', went, rfl, -, -, htask, hwent, rfl⟩
  · simp [inside, losesPermit, List.countP_append, hholds]
  · have hcount := countP_set_add (p := fun task ↦ task.await.holds) task' htask
    have hfree := proceed_free hwent
    simp only [inside, losesPermit, htask, Option.any_some]
    omega

/-! ## Runs -/

/-- How many permits a run loses. -/
def lostPermits (cfg : GateConfig) : Gate → List Event → ℕ
  | _, [] => 0
  | g, e :: events =>
    (g.losesPermit e).toNat + ((step cfg g e).map fun g ↦ lostPermits cfg g events).getD 0

/-- No task is cancelled while it waits for the lock or sleeps. -/
def Spared (cfg : GateConfig) (g : Gate) (events : List Event) : Prop :=
  ∀ before e after g', events = before ++ e :: after → run cfg g before = some g' →
    g'.losesPermit e = false

theorem run_cons {e : Event} {events : List Event} :
    run cfg g (e :: events) = (step cfg g e).bind fun g ↦ run cfg g events := rfl

theorem run_free {events : List Event} (h : run cfg g events = some g') :
    g'.free + g'.inside + lostPermits cfg g events = g.free + g.inside := by
  induction events generalizing g with
  | nil =>
    obtain rfl : g = g' := Option.some.inj h
    rfl
  | cons e events ih =>
    rw [run_cons] at h
    obtain ⟨g₁, hstep, hrun⟩ := Option.bind_eq_some_iff.mp h
    have htail := ih hrun
    have hhead := step_free hstep
    simp only [lostPermits, hstep, Option.map_some, Option.getD_some]
    omega

theorem lostPermits_eq_zero_iff {events : List Event} (h : run cfg g events = some g') :
    lostPermits cfg g events = 0 ↔ Spared cfg g events := by
  induction events generalizing g with
  | nil => simp [lostPermits, Spared]
  | cons e events ih =>
    rw [run_cons] at h
    obtain ⟨g₁, hstep, hrun⟩ := Option.bind_eq_some_iff.mp h
    have hspared : Spared cfg g (e :: events) ↔ g.losesPermit e = false ∧ Spared cfg g₁ events := by
      constructor
      · refine fun hall ↦ ⟨hall [] e events g rfl rfl, fun before e' after g₂ heq hbefore ↦ ?_⟩
        refine hall (e :: before) e' after g₂ (by rw [heq, List.cons_append]) ?_
        rw [run_cons, hstep, Option.bind_some, hbefore]
      · rintro ⟨he, hall⟩ before e' after g₂ heq hbefore
        cases before with
        | nil =>
          obtain ⟨rfl, rfl⟩ := List.cons.inj heq
          obtain rfl : g = g₂ := Option.some.inj hbefore
          exact he
        | cons e'' before =>
          obtain ⟨rfl, htail⟩ := List.cons.inj heq
          rw [run_cons, hstep, Option.bind_some] at hbefore
          exact hall before e' after g₂ htail hbefore
    rw [hspared, ← ih hrun]
    simp only [lostPermits, hstep, Option.map_some, Option.getD_some, Nat.add_eq_zero_iff]
    cases g.losesPermit e <;> simp

end Gate

/-- **When no permit is lost.**  In every state of a run the free permits and those of the tasks are
all there are, and without a task at work all are free, exactly when no task was cancelled while it
waited for the lock or slept. -/
theorem permits_conserved_iff (cfg : GateConfig) (clock : ℚ) {events : List Event} {g : Gate}
    (h : Gate.run cfg (Gate.opened cfg clock) events = some g) :
    (g.free + g.inside = cfg.permits ∧
        ((∀ task ∈ g.tasks, task.await = .done) → g.free = cfg.permits)) ↔
      Gate.Spared cfg (Gate.opened cfg clock) events := by
  have hfree := Gate.run_free h
  have hopened : (Gate.opened cfg clock).free + (Gate.opened cfg clock).inside = cfg.permits := rfl
  rw [← Gate.lostPermits_eq_zero_iff h]
  constructor
  · rintro ⟨hall, -⟩
    omega
  · intro hlost
    refine ⟨by omega, fun hdone ↦ ?_⟩
    have hinside : g.inside = 0 :=
      List.countP_eq_zero.mpr fun task htask ↦ by simp [hdone task htask, Await.holds]
    omega

/-- One call at a time, one call a minute. -/
def oneAMinute : GateConfig := ⟨1, 1, 1⟩

/-- A call is made, and the next one is cancelled while it waits for its minute. -/
def cancelledInSleep : List Event :=
  [.spawn, .wakes 0 .returns 0 0, .wakes 0 .returns 1 1, .wakes 0 .returns 1 1,
    .spawn, .wakes 1 .returns 2 2, .wakes 1 .cancelled 3 3]

theorem run_cancelledInSleep : Gate.run oneAMinute (Gate.opened oneAMinute 0) cancelledInSleep =
    some ⟨0, false, [0], 3, [⟨1, .done⟩, ⟨1, .done⟩], [0]⟩ := by decide +kernel

/-- While the second task still sleeps nothing is lost; its cancellation loses the permit. -/
theorem permits_conserved_iff_cancelledInSleep :
    Gate.Spared oneAMinute (Gate.opened oneAMinute 0) (cancelledInSleep.take 6) ∧
      ¬ Gate.Spared oneAMinute (Gate.opened oneAMinute 0) cancelledInSleep := by
  have hasleep : Gate.run oneAMinute (Gate.opened oneAMinute 0) (cancelledInSleep.take 6) =
      some ⟨0, true, [0], 2, [⟨1, .done⟩, ⟨1, .rateLimit (60001 / 1000)⟩], [0]⟩ := by
    decide +kernel
  constructor
  · exact (permits_conserved_iff oneAMinute 0 hasleep).mp (by decide)
  · intro hspared
    have hall := (permits_conserved_iff oneAMinute 0 run_cancelledInSleep).mpr hspared
    exact absurd hall.1 (by decide)

/-- No task is at work and no permit is free: the gate lets nobody through again. -/
theorem permit_lost :
    ∃ g, Gate.run oneAMinute (Gate.opened oneAMinute 0) cancelledInSleep = some g ∧
    (∀ task ∈ g.tasks, task.await = .done) ∧ g.free = 0 ∧ oneAMinute.permits = 1 :=
  ⟨_, run_cancelledInSleep, by decide, rfl, rfl⟩

/-! ## The rate limit -/

namespace Gate

variable {cfg : GateConfig} {g g' : Gate} {task task' : Task} {outcome : Outcome} {now later : ℚ}

/-- What the limiter knows: the queue bounds every window, and whoever sleeps in the lock wakes when
the oldest call of the queue is a minute old. -/
structure Limited (cfg : GateConfig) (g : Gate) : Prop where
  paced : Paced 60 cfg.limit g.clock g.admitted g.timestamps
  asleep : (g.tasks.countP fun task ↦ task.await.sleeps) = g.locked.toNat
  wakes : ∀ task ∈ g.tasks, ∀ wake, task.await = .rateLimit wake →
    ∃ first rest, g.timestamps = first :: rest ∧ first + 60 ≤ wake

/-- What becomes of the lock and the queue when a task goes on. -/
theorem proceed_cases (h : g.proceed cfg task outcome now later = some (g', task')) :
    (task.await.sleeps = false ∧ g.locked = false ∧ ∃ free,
      (g', task'.await) = { g with free := free }.enter cfg now later) ∨
    (∃ wake, task.await = .rateLimit wake ∧ wake ≤ now ∧ g' = g.resume now later ∧
      task'.await = .call) ∨
    (task'.await.sleeps = false ∧ g'.timestamps = g.timestamps ∧ g'.admitted = g.admitted ∧
      (task.await.sleeps = true ∧ g'.locked = false ∨
        task.await.sleeps = false ∧ g'.locked = g.locked)) := by
  rcases task with ⟨attempt, await⟩
  cases await <;> cases outcome <;> simp only [proceed] at h
  case semaphore.returns =>
    split_ifs at h with hfree hlocked
    · cases h
      exact .inr (.inr ⟨rfl, rfl, rfl, .inr ⟨rfl, rfl⟩⟩)
    · cases h
      exact .inl ⟨rfl, by simpa using hlocked, _, rfl⟩
  case lock.returns =>
    split_ifs at h with hlocked
    cases h
    exact .inl ⟨rfl, by simpa using hlocked, _, rfl⟩
  case rateLimit.returns =>
    split_ifs at h with hwake
    cases h
    exact .inr (.inl ⟨_, rfl, hwake, rfl, rfl⟩)
  case rateLimit.raises | rateLimit.cancelled =>
    cases h
    exact .inr (.inr ⟨rfl, rfl, rfl, .inl ⟨rfl, rfl⟩⟩)
  case recordError.returns =>
    split_ifs at h <;> cases h <;> exact .inr (.inr ⟨rfl, rfl, rfl, .inr ⟨rfl, rfl⟩⟩)
  all_goals
    cases h
    try exact .inr (.inr ⟨rfl, rfl, rfl, .inr ⟨rfl, rfl⟩⟩)

theorem limited_opened (cfg : GateConfig) (clock : ℚ) : (opened cfg clock).Limited cfg :=
  ⟨Paced.nil _ _ _, rfl, fun _ htask ↦ absurd htask List.not_mem_nil⟩

/-- Nobody sleeps while the lock is free. -/
theorem Limited.awake (h : g.Limited cfg) (hlocked : g.locked = false) (htask : task ∈ g.tasks) :
    task.await.sleeps = false := by
  have hnone : (g.tasks.countP fun task ↦ task.await.sleeps) = 0 := by
    rw [h.asleep, hlocked]
    rfl
  simpa using List.countP_eq_zero.mp hnone task htask

/-- The queue after a task has gone on is still all that matters of the log. -/
theorem Limited.proceed (h : g.Limited cfg) (htask : task ∈ g.tasks) (hnow : g.clock ≤ now)
    (hlater : now ≤ later) (hp : g.proceed cfg task outcome now later = some (g', task')) :
    Paced 60 cfg.limit later g'.admitted g'.timestamps := by
  have hpruned : Paced 60 cfg.limit now g.admitted (prune now g.timestamps) :=
    (h.paced.later hnow).prune
  rcases proceed_cases hp with ⟨-, -, free, henter⟩ | ⟨wake, hwake, hle, rfl, -⟩ |
    ⟨-, hts, hadm, -⟩
  · rcases enter_cases cfg { g with free := free } now later with ⟨hlt, heq⟩ | ⟨first, rest, -, heq⟩
    · rw [heq] at henter
      obtain rfl := (Prod.mk.inj henter).1
      exact hpruned.push hlt hlater
    · rw [heq] at henter
      obtain rfl := (Prod.mk.inj henter).1
      exact hpruned.later hlater
  · obtain ⟨first, rest, hts, hold⟩ := h.wakes task htask wake hwake
    -- the oldest call is a minute old by now, so there is room for one more
    refine hpruned.push ?_ hlater
    have hshort := h.paced.short
    rw [hts, List.length_cons] at hshort
    have hage : (60 : ℚ) ≤ now - first := by linarith
    have hdrop : prune now g.timestamps = prune now rest := by simp [prune, hts, hage]
    rw [hdrop]
    exact lt_of_le_of_lt (List.dropWhile_sublist _).length_le hshort
  · rw [hts, hadm]
    exact h.paced.later (hnow.trans hlater)

/-- As many tasks sleep as hold the lock. -/
theorem Limited.asleep_proceed (h : g.Limited cfg) {i : ℕ} (htask : g.tasks[i]? = some task)
    (hp : g.proceed cfg task outcome now later = some (g', task')) :
    ((g.tasks.set i task').countP fun task ↦ task.await.sleeps) = g'.locked.toNat := by
  have hcount : ((g.tasks.set i task').countP fun task ↦ task.await.sleeps) +
      task.await.sleeps.toNat = g.locked.toNat + task'.await.sleeps.toNat := by
    rw [← h.asleep]
    exact countP_set_add task' htask
  have hone : g.locked.toNat ≤ 1 := by cases g.locked <;> decide
  rcases proceed_cases hp with ⟨hs, hlocked, free, henter⟩ | ⟨wake, hwake, -, rfl, hs'⟩ |
    ⟨hs', -, -, ⟨hs, hlocked'⟩ | ⟨hs, hlocked'⟩⟩
  · rw [hs, hlocked] at hcount
    rcases enter_cases cfg { g with free := free } now later with ⟨-, heq⟩ | ⟨first, rest, -, heq⟩
    · rw [heq] at henter
      obtain ⟨rfl, hs'⟩ := Prod.mk.inj henter
      rw [hs'] at hcount
      exact hcount
    · rw [heq] at henter
      obtain ⟨rfl, hs'⟩ := Prod.mk.inj henter
      rw [hs'] at hcount
      exact hcount
  · have hbefore : task.await.sleeps.toNat = 1 := by rw [hwake]; rfl
    have hafter : task'.await.sleeps.toNat = 0 := by rw [hs']; rfl
    show _ = 0
    omega
  · rw [hs, hs', Bool.toNat_true, Bool.toNat_false] at hcount
    rw [hlocked', Bool.toNat_false]
    omega
  · rw [hs, hs'] at hcount
    rw [hlocked']
    simpa using hcount

theorem Limited.step {e : Event} (h : g.Limited cfg) (hs : step cfg g e = some g') :
    g'.Limited cfg := by
  rcases step_cases hs with ⟨rfl, await, -, hsleeps, rfl⟩ |
    ⟨i, outcome, now, later, task, task', went, rfl, hnow, hlater, htask, hwent, rfl⟩
  · refine ⟨h.paced, ?_, fun task htask wake hwake ↦ ?_⟩
    · simpa [List.countP_append, hsleeps] using h.asleep
    · rcases List.mem_append.mp htask with htask | htask
      · exact h.wakes task htask wake hwake
      · rw [List.mem_singleton.mp htask] at hwake
        rw [show await = .rateLimit wake from hwake] at hsleeps
        simp [Await.sleeps] at hsleeps
  · have hmem : task ∈ g.tasks := List.mem_of_getElem? htask
    have hasleep := h.asleep_proceed htask hwent
    have hpaced : Paced 60 cfg.limit later went.admitted went.timestamps :=
      h.proceed hmem hnow hlater hwent
    refine ⟨hpaced, hasleep, fun u hu wake hwake ↦ ?_⟩
    -- whoever sleeps holds the lock: the task itself, or one that has not moved
    have hlocked : went.locked = true := by
      by_contra hfree
      rw [Bool.not_eq_true] at hfree
      rw [hfree] at hasleep
      have := List.countP_eq_zero.mp hasleep u hu
      simp [hwake, Await.sleeps] at this
    rcases proceed_cases hwent with ⟨-, hfree, free, henter⟩ | ⟨_, -, -, rfl, -⟩ |
      ⟨hs', hts, -, ⟨-, hlocked'⟩ | ⟨hsleeps, hlocked'⟩⟩
    · rcases enter_cases cfg { g with free := free } now later with ⟨-, heq⟩ |
        ⟨first, rest, hts, heq⟩
      · rw [heq] at henter
        obtain ⟨rfl, -⟩ := Prod.mk.inj henter
        exact absurd hlocked (by simp [stamp])
      · rw [heq] at henter
        obtain ⟨rfl, hawait⟩ := Prod.mk.inj henter
        refine ⟨first, rest, hts, ?_⟩
        have hwakes : u = task' := by
          rcases List.mem_or_eq_of_mem_set hu with hu | rfl
          · have := h.awake hfree hu
            simp [hwake, Await.sleeps] at this
          · rfl
        rw [hwakes, hawait, Await.rateLimit.injEq] at hwake
        have hmax := le_max_left (60 - (now - first) + 1 / 1000) 0
        linarith
    · exact absurd hlocked (by simp [resume, stamp])
    · exact absurd hlocked (by simp [hlocked'])
    · rcases List.mem_or_eq_of_mem_set hu with hu | rfl
      · show ∃ first rest, went.timestamps = first :: rest ∧ first + 60 ≤ wake
        rw [hts]
        exact h.wakes u hu wake hwake
      · rw [hwake] at hs'
        simp [Await.sleeps] at hs'

theorem Limited.run {events : List Event} (h : g.Limited cfg) (hr : run cfg g events = some g') :
    g'.Limited cfg := by
  induction events generalizing g with
  | nil =>
    obtain rfl : g = g' := Option.some.inj hr
    exact h
  | cons e events ih =>
    rw [run_cons] at hr
    obtain ⟨g₁, hstep, hrun⟩ := Option.bind_eq_some_iff.mp hr
    exact ih (h.step hstep) hrun

end Gate

/-- **The rate limit is kept.**  In every run the queue never holds more than `max(1, rpm)` entries,
and no more calls than that are admitted in a minute, whichever end of it is left out. -/
theorem rate_limited (cfg : GateConfig) (clock : ℚ) {events : List Event} {g : Gate}
    (h : Gate.run cfg (Gate.opened cfg clock) events = some g) :
    g.timestamps.length ≤ cfg.limit ∧
      ∀ a, (g.admitted.countP fun t ↦ decide (a ≤ t ∧ t < a + 60)) ≤ cfg.limit ∧
        (g.admitted.countP fun t ↦ decide (a < t ∧ t ≤ a + 60)) ≤ cfg.limit := by
  have hlimited := (Gate.limited_opened cfg clock).run h
  exact ⟨hlimited.paced.short, hlimited.paced.bounded⟩

theorem rate_limited_cancelledInSleep :
    ([0] : List ℚ).length ≤ oneAMinute.limit ∧
      ∀ a : ℚ, (([0] : List ℚ).countP fun t ↦ decide (a ≤ t ∧ t < a + 60)) ≤ oneAMinute.limit ∧
        (([0] : List ℚ).countP fun t ↦ decide (a < t ∧ t ≤ a + 60)) ≤ oneAMinute.limit :=
  rate_limited oneAMinute 0 run_cancelledInSleep

end Neva.Gemini
