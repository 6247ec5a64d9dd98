import Mathlib.Data.Rat.Floor
import Mathlib.Tactic.Common
import Neva.Schema

/-!
# The pair-request loop

`createPairRequestRetryLoop` of `lib/pairRequestRetry.js` sends one pair request at a time until
the backend has paired the player.  A `Loop` is its variables, together with what it has asked of
the browser: the requests in flight and the timers that are pending.  The four things that can
happen are an `Event`; each callback runs to its end before the next one.

The loop is stopped by a flag and by aborting the request, and the request settles later.  If the
loop is started again before that, the new start finds a request in flight and sends none; the old
request then settles, with an `AbortError`, and leaves a running loop with nothing to wait for.
`loop_sound_iff` says that this is all that can go wrong, `restart_stalls` is the run.
-/

set_option autoImplicit false

namespace Neva.PairRetry

/-! ## Delays -/

def pairRequestQueueRetryMs : ℤ := 2000

def pairRequestRetryBaseMs : ℤ := 1500

def pairRequestRetryMaxMs : ℤ := 8000

def pairRequestRetryJitterMs : ℤ := 500

/-- `Math.floor(Math.max(0, Math.min(random, 1)) * PAIR_REQUEST_RETRY_JITTER_MS)` -/
def jitter (random : ℚ) : ℤ := ⌊max 0 (min random 1) * pairRequestRetryJitterMs⌋

/-- A bounded exponential retry delay. -/
def pairRequestRetryDelay (failureIndex : ℕ) (randomValue : ℚ) : ℤ :=
  let exponentialDelay :=
    min (pairRequestRetryBaseMs * 2 ^ min failureIndex 16) pairRequestRetryMaxMs
  min (exponentialDelay + jitter randomValue) pairRequestRetryMaxMs

/-! ## Outcomes -/

/-- The `status` of an error. -/
inductive ErrorStatus
  /-- None, or the error is no object. -/
  | absent
  | number (n : ℚ)
  /-- Something that is no number. -/
  | other
  deriving DecidableEq

structure RequestError where
  name : Option Text
  status : ErrorStatus
  deriving DecidableEq

/-- How a request settles. -/
inductive Outcome
  /-- With a result that has this status. -/
  | result (status : Option Text)
  | error (e : RequestError)
  deriving DecidableEq

/-- A failed pair request is safe to retry. -/
def isTransientPairRequestError (e : RequestError) : Bool :=
  match e.status with
  | .absent => true
  | .number n => decide (500 ≤ n)
  | .other => false

/-- `error?.name === 'AbortError'` -/
def RequestError.isAbort (e : RequestError) : Bool := e.name == some "AbortError".toList

/-! ## The loop -/

/-- A request in flight. -/
structure Request where
  /-- Its `AbortController`. -/
  controller : ℕ
  /-- Which start of the loop it was issued after. -/
  start : ℕ
  deriving DecidableEq

structure Loop where
  running : Bool
  inFlight : Bool
  retryTimer : Option ℕ
  failureIndex : ℕ
  abortController : Option ℕ
  /-- The requests that have not settled. -/
  requests : List Request
  /-- The timers that are pending, with their delays. -/
  timers : List (ℕ × ℤ)
  /-- The controllers that have been told to abort. -/
  aborted : List ℕ
  /-- A name for the next controller or timer. -/
  fresh : ℕ
  /-- How often the loop has been set running. -/
  starts : ℕ
  /-- How many requests were issued while the loop was stopped. -/
  strayRequests : ℕ
  deriving DecidableEq

namespace Loop

/-- The loop as it is created. -/
def created : Loop where
  running := false
  inFlight := false
  retryTimer := none
  failureIndex := 0
  abortController := none
  requests := []
  timers := []
  aborted := []
  fresh := 0
  starts := 0
  strayRequests := 0

/-- Schedule one non-overlapping follow-up request. -/
def scheduleNext (w : Loop) (delay : ℤ) : Loop :=
  if !w.running || w.retryTimer.isSome then w
  else { w with
    retryTimer := some w.fresh
    timers := w.timers ++ [(w.fresh, delay)]
    fresh := w.fresh + 1 }

/-- `request(controller.signal)` -/
def issue (w : Loop) : Loop :=
  { w with
    requests := w.requests ++ [⟨w.fresh, w.starts⟩]
    strayRequests := w.strayRequests + if w.running then 0 else 1 }

/-- `attempt`, until the request is awaited. -/
def attempt (w : Loop) : Loop :=
  if !w.running || w.inFlight then w
  else
    let issued := ({ w with inFlight := true, abortController := some w.fresh } : Loop).issue
    { issued with fresh := w.fresh + 1 }

/-- The rest of `attempt`, up to `finally`. -/
def onSettled (w : Loop) (outcome : Outcome) (random : ℚ) : Loop :=
  match outcome with
  | .result status =>
    if status = some "queued".toList then
      ({ w with failureIndex := 0 } : Loop).scheduleNext (pairRequestQueueRetryMs + jitter random)
    else { w with failureIndex := 0, running := false }
  | .error e =>
    if !w.running || e.isAbort then w
    else if !isTransientPairRequestError e then { w with running := false }
    else
      ({ w with failureIndex := w.failureIndex + 1 } : Loop).scheduleNext
        (pairRequestRetryDelay w.failureIndex random)

/-- The `finally` block of the attempt with this controller. -/
def finish (w : Loop) (controller : ℕ) : Loop :=
  { w with
    inFlight := false
    abortController := if w.abortController = some controller then none else w.abortController }

/-- A request settles. -/
def settle (w : Loop) (controller : ℕ) (outcome : Outcome) (random : ℚ) : Loop :=
  if w.requests.any fun r ↦ r.controller == controller then
    ((({ w with requests := w.requests.filter fun r ↦ r.controller != controller } : Loop).onSettled
      outcome random).finish controller)
  else w

/-- A timer fires. -/
def fire (w : Loop) (timer : ℕ) : Loop :=
  if w.timers.any fun t ↦ t.1 == timer then
    ({ w with
      timers := w.timers.filter fun t ↦ t.1 != timer
      retryTimer := none } : Loop).attempt
  else w

/-- Start the retry loop. -/
def start (w : Loop) : Loop :=
  if w.running then w
  else ({ w with running := true, starts := w.starts + 1 } : Loop).attempt

/-- Stop retries immediately, clear timers, and abort an active fetch. -/
def stop (w : Loop) : Loop :=
  { w with
    running := false
    retryTimer := none
    timers := w.timers.filter fun t ↦ some t.1 != w.retryTimer
    aborted := w.aborted ++ w.abortController.toList
    abortController := none }

end Loop

/-- What can happen. -/
inductive Event
  | start
  | stop
  | fire (timer : ℕ)
  | settle (controller : ℕ) (outcome : Outcome) (random : ℚ)
  deriving DecidableEq

def step (w : Loop) : Event → Loop
  | .start => w.start
  | .stop => w.stop
  | .fire timer => w.fire timer
  | .settle controller outcome random => w.settle controller outcome random

/-- The loop after some events. -/
def run (events : List Event) : Loop := events.foldl step Loop.created

/-! ## What is asked of the loop -/

/-- The loop waits for a request of its own, or for a timer. -/
def Alive (w : Loop) : Prop :=
  w.running = true → (∃ r ∈ w.requests, r.start = w.starts) ∨ w.timers ≠ []

/-- The loop neither overlaps nor stalls. -/
structure Sound (w : Loop) : Prop where
  one_request : w.requests.length ≤ 1
  one_timer : w.timers.length ≤ 1
  no_stray : w.strayRequests = 0
  alive : Alive w

/-- A start finds no request in flight, and no request of a running loop is aborted. -/
def Meets (w : Loop) : Event → Prop
  | .start => w.running = false → w.inFlight = false
  | .settle controller (.error e) _ =>
    w.running = true → e.isAbort = true → ∀ r ∈ w.requests, r.controller ≠ controller
  | _ => True

/-! ## What always holds -/

/-- The variables of the loop agree with what the browser was asked. -/
structure Agrees (w : Loop) : Prop where
  flying : w.inFlight = !w.requests.isEmpty
  one_request : w.requests.length ≤ 1
  timer : w.timers.map Prod.fst = w.retryTimer.toList
  exclusive : w.inFlight = true → w.retryTimer = none
  stopped : w.running = false → w.retryTimer = none
  no_stray : w.strayRequests = 0
  earlier : ∀ r ∈ w.requests, r.start ≤ w.starts

section

variable {w : Loop}

theorem Agrees.timers_eq_nil (h : Agrees w) (hnone : w.retryTimer = none) : w.timers = [] := by
  have htimer := h.timer
  rw [hnone] at htimer
  simpa using htimer

theorem Agrees.one_timer (h : Agrees w) : w.timers.length ≤ 1 := by
  have hlength := congrArg List.length h.timer
  rw [List.length_map] at hlength
  rw [hlength]
  cases w.retryTimer <;> simp

/-- What an attempt does: nothing, or it sends the one request. -/
theorem attempt_cases (w : Loop) :
    ((w.running = false ∨ w.inFlight = true) ∧ w.attempt = w) ∨
      (w.running = true ∧ w.inFlight = false ∧
        w.attempt = { w with
          inFlight := true
          abortController := some w.fresh
          requests := w.requests ++ [⟨w.fresh, w.starts⟩]
          fresh := w.fresh + 1 }) := by
  rw [Loop.attempt]
  cases hrunning : w.running <;> cases hflying : w.inFlight <;> simp [Loop.issue]

/-- What scheduling does: nothing, or it sets the one timer. -/
theorem scheduleNext_cases (w : Loop) (delay : ℤ) :
    ((w.running = false ∨ w.retryTimer.isSome = true) ∧ w.scheduleNext delay = w) ∨
      (w.running = true ∧ w.retryTimer = none ∧
        w.scheduleNext delay = { w with
          retryTimer := some w.fresh
          timers := w.timers ++ [(w.fresh, delay)]
          fresh := w.fresh + 1 }) := by
  rw [Loop.scheduleNext]
  cases hrunning : w.running <;> cases htimer : w.retryTimer <;> simp

theorem Agrees.attempt (h : Agrees w) (htimer : w.retryTimer = none) : Agrees w.attempt := by
  rcases attempt_cases w with ⟨-, heq⟩ | ⟨hrunning, hflying, heq⟩
  · rwa [heq]
  · have hnone : w.requests = [] := by
      have := h.flying
      rw [hflying] at this
      simpa using this.symm
    rw [heq]
    constructor
    · simp
    · simp [hnone]
    · exact h.timer
    · exact fun _ ↦ htimer
    · exact fun hstopped ↦ h.stopped hstopped
    · exact h.no_stray
    · simp [hnone]

/-- What settling does to a loop without a timer: it sets one and goes on, or it stops, or the
request was aborted and nothing happens. -/
theorem onSettled_cases (w : Loop) (outcome : Outcome) (random : ℚ) (htimer : w.retryTimer = none) :
    (w.onSettled outcome random).requests = w.requests ∧
    (w.onSettled outcome random).strayRequests = w.strayRequests ∧
    (w.onSettled outcome random).starts = w.starts ∧
    ((w.onSettled outcome random).running = true ∧
        (∃ timer delay, (w.onSettled outcome random).retryTimer = some timer ∧
          (w.onSettled outcome random).timers = w.timers ++ [(timer, delay)]) ∨
      (w.onSettled outcome random).retryTimer = none ∧
        (w.onSettled outcome random).timers = w.timers ∧
        ((w.onSettled outcome random).running = true →
          ∃ e, outcome = .error e ∧ e.isAbort = true)) := by
  have hschedule (u : Loop) (delay : ℤ) (hu : u.retryTimer = none) :
      (u.scheduleNext delay).requests = u.requests ∧
      (u.scheduleNext delay).strayRequests = u.strayRequests ∧
      (u.scheduleNext delay).starts = u.starts ∧
      ((u.scheduleNext delay).running = true ∧
          (∃ timer d, (u.scheduleNext delay).retryTimer = some timer ∧
            (u.scheduleNext delay).timers = u.timers ++ [(timer, d)]) ∨
        (u.scheduleNext delay).retryTimer = none ∧ (u.scheduleNext delay).timers = u.timers ∧
          (u.scheduleNext delay).running = false) := by
    rcases scheduleNext_cases u delay with ⟨hstopped, heq⟩ | ⟨hrunning, -, heq⟩
    · have hoff : u.running = false := hstopped.resolve_right (by simp [hu])
      rw [heq]
      exact ⟨rfl, rfl, rfl, .inr ⟨hu, rfl, hoff⟩⟩
    · rw [heq]
      exact ⟨rfl, rfl, rfl, .inl ⟨hrunning, _, _, rfl, rfl⟩⟩
  cases outcome with
  | result status =>
    simp only [Loop.onSettled]
    split
    · obtain ⟨h1, h2, h3, h4⟩ := hschedule { w with failureIndex := 0 } _ htimer
      refine ⟨h1, h2, h3, h4.imp_right fun h ↦ ⟨h.1, h.2.1, fun hon ↦ ?_⟩⟩
      rw [h.2.2] at hon
      cases hon
    · exact ⟨rfl, rfl, rfl, .inr ⟨htimer, rfl, fun hon ↦ by cases hon⟩⟩
  | error e =>
    simp only [Loop.onSettled]
    split
    · rename_i hleft
      refine ⟨rfl, rfl, rfl, .inr ⟨htimer, rfl, fun hon ↦ ⟨e, rfl, ?_⟩⟩⟩
      simpa [hon] using hleft
    · split
      · exact ⟨rfl, rfl, rfl, .inr ⟨htimer, rfl, fun hon ↦ by cases hon⟩⟩
      · obtain ⟨h1, h2, h3, h4⟩ :=
          hschedule { w with failureIndex := w.failureIndex + 1 } _ htimer
        refine ⟨h1, h2, h3, h4.imp_right fun h ↦ ⟨h.1, h.2.1, fun hon ↦ ?_⟩⟩
        rw [h.2.2] at hon
        cases hon

/-- What a settled request leaves behind. -/
theorem settle_cases (h : Agrees w) (controller : ℕ) (outcome : Outcome) (random : ℚ) :
    ((∀ r ∈ w.requests, r.controller ≠ controller) ∧ w.settle controller outcome random = w) ∨
      (∃ r, w.requests = [r] ∧ r.controller = controller ∧
        w.settle controller outcome random =
          (({ w with requests := [] } : Loop).onSettled outcome random).finish controller) := by
  rw [Loop.settle]
  by_cases hany : (w.requests.any fun r ↦ r.controller == controller) = true
  · right
    obtain ⟨r, hr, hcontroller⟩ := List.any_eq_true.mp hany
    have hone : w.requests = [r] := by
      obtain ⟨r', hr'⟩ := List.length_eq_one_iff.mp
        (le_antisymm h.one_request (List.length_pos_of_mem hr))
      rw [hr', List.mem_singleton] at hr
      rw [hr', hr]
    have hcontroller : r.controller = controller := by simpa using hcontroller
    refine ⟨r, hone, hcontroller, ?_⟩
    have hrest : (w.requests.filter fun r ↦ r.controller != controller) = [] := by
      simp [hone, hcontroller]
    rw [if_pos hany, hrest]
  · left
    refine ⟨fun r hr hc ↦ hany ?_, if_neg hany⟩
    exact List.any_eq_true.mpr ⟨r, hr, by simpa using hc⟩

theorem Agrees.settle (h : Agrees w) (controller : ℕ) (outcome : Outcome) (random : ℚ) :
    Agrees (w.settle controller outcome random) := by
  rcases settle_cases h controller outcome random with ⟨-, heq⟩ | ⟨r, hone, -, heq⟩
  · rwa [heq]
  · have htimer : w.retryTimer = none := h.exclusive (by rw [h.flying, hone]; rfl)
    obtain ⟨hrequests, hstray, hstarts, hcases⟩ :=
      onSettled_cases { w with requests := [] } outcome random htimer
    have htimers := h.timers_eq_nil htimer
    rw [heq]
    constructor
    · simp [Loop.finish, hrequests]
    · simp [Loop.finish, hrequests]
    · rw [Loop.finish]
      dsimp only
      rcases hcases with ⟨-, timer, delay, hset, hpending⟩ | ⟨hset, hpending, -⟩
      · rw [hset, hpending]
        simp [htimers]
      · rw [hset, hpending]
        simp [htimers]
    · exact fun hflying ↦ by cases hflying
    · rcases hcases with ⟨hon, -⟩ | ⟨hset, -, -⟩
      · exact fun hoff ↦ by simp [Loop.finish, hon] at hoff
      · exact fun _ ↦ hset
    · exact hstray.trans h.no_stray
    · simp [Loop.finish, hrequests]

theorem Agrees.fire (h : Agrees w) (timer : ℕ) : Agrees (w.fire timer) := by
  rw [Loop.fire]
  split
  · rename_i hany
    obtain ⟨t, ht, htimer⟩ := List.any_eq_true.mp hany
    -- the timer that fires is the one there is
    have hset : w.retryTimer = some timer := by
      have hmem : t.1 ∈ w.retryTimer.toList := h.timer ▸ List.mem_map_of_mem ht
      rw [Option.mem_toList] at hmem
      rw [show w.retryTimer = some t.1 from hmem, show t.1 = timer by simpa using htimer]
    have hflying : w.inFlight = false := by
      by_contra hon
      have := h.exclusive (by simpa using hon)
      rw [hset] at this
      cases this
    have hrest : (w.timers.filter fun t ↦ t.1 != timer) = [] := by
      rw [List.filter_eq_nil_iff]
      intro u hu
      have hmem : u.1 ∈ w.retryTimer.toList := h.timer ▸ List.mem_map_of_mem hu
      rw [hset, Option.mem_toList] at hmem
      simp [Option.some_injective _ hmem]
    refine Agrees.attempt ?_ rfl
    constructor
    · exact h.flying
    · exact h.one_request
    · simp [hrest]
    · exact fun _ ↦ rfl
    · exact fun _ ↦ rfl
    · exact h.no_stray
    · exact h.earlier
  · exact h

theorem Agrees.start (h : Agrees w) : Agrees w.start := by
  rw [Loop.start]
  split
  · exact h
  · rename_i hoff
    have htimer := h.stopped (by simpa using hoff)
    refine Agrees.attempt ?_ htimer
    constructor
    · exact h.flying
    · exact h.one_request
    · exact h.timer
    · exact h.exclusive
    · exact fun hstopped ↦ by cases hstopped
    · exact h.no_stray
    · exact fun r hr ↦ (h.earlier r hr).trans (Nat.le_succ _)

theorem Agrees.stop (h : Agrees w) : Agrees w.stop := by
  have hrest : (w.timers.filter fun t ↦ some t.1 != w.retryTimer) = [] := by
    rw [List.filter_eq_nil_iff]
    intro t ht
    have hmem : t.1 ∈ w.retryTimer.toList := h.timer ▸ List.mem_map_of_mem ht
    rw [Option.mem_toList] at hmem
    simp [show w.retryTimer = some t.1 from hmem]
  constructor
  · exact h.flying
  · exact h.one_request
  · simp [Loop.stop, hrest]
  · exact fun _ ↦ rfl
  · exact fun _ ↦ rfl
  · exact h.no_stray
  · exact h.earlier

/-- **No event makes the loop and the browser disagree.** -/
theorem Agrees.step (h : Agrees w) (e : Event) : Agrees (step w e) := by
  cases e with
  | start => exact h.start
  | stop => exact h.stop
  | fire timer => exact h.fire timer
  | settle controller outcome random => exact h.settle controller outcome random

end

theorem agrees_created : Agrees Loop.created := by
  constructor <;> simp [Loop.created]

theorem agrees_run (events : List Event) : Agrees (run events) := by
  induction events using List.reverseRecOn with
  | nil => exact agrees_created
  | append_singleton events e ih =>
    rw [run, List.foldl_append]
    exact ih.step e

/-! ## When the loop stays alive -/

/-- A running loop that is alive has sent its request since its last start, or has its timer. -/
theorem Alive.attempt {w : Loop} (hflying : w.inFlight = false) : Alive w.attempt := by
  rcases attempt_cases w with ⟨hoff | hon, heq⟩ | ⟨-, -, heq⟩
  · rw [heq]
    intro hrunning
    rw [hoff] at hrunning
    cases hrunning
  · rw [hflying] at hon
    cases hon
  · rw [heq]
    exact fun _ ↦ .inl ⟨⟨w.fresh, w.starts⟩, by simp, rfl⟩

theorem Alive.fire {w : Loop} (hw : Agrees w) (h : Alive w) (timer : ℕ) : Alive (w.fire timer) := by
  by_cases hany : (w.timers.any fun t ↦ t.1 == timer) = true
  · rw [Loop.fire, if_pos hany]
    apply Alive.attempt
    -- a timer is pending, so no request is
    show w.inFlight = false
    by_contra hon
    have hnone := hw.timers_eq_nil (hw.exclusive (by simpa using hon))
    rw [hnone] at hany
    cases hany
  · rw [Loop.fire, if_neg hany]
    exact h

/-- A start keeps the loop alive exactly when it finds no request in flight. -/
theorem alive_start_iff {w : Loop} (hw : Agrees w) (h : Alive w) :
    Alive w.start ↔ Meets w .start := by
  by_cases hrunning : w.running = true
  · rw [Loop.start, if_pos hrunning]
    exact ⟨fun _ hoff ↦ absurd (hrunning.symm.trans hoff) (by decide), fun _ ↦ h⟩
  · have hoff : w.running = false := by simpa using hrunning
    rw [Loop.start, if_neg hrunning]
    constructor
    · intro halive _
      by_contra hflying
      -- the start sends nothing, and what is in flight is older
      have hflying : w.inFlight = true := by simpa using hflying
      have hsame : ({ w with running := true, starts := w.starts + 1 } : Loop).attempt =
          { w with running := true, starts := w.starts + 1 } := by
        simp [Loop.attempt, hflying]
      rw [hsame] at halive
      rcases halive rfl with ⟨r, hr, hlast⟩ | htimer
      · have := hw.earlier r hr
        dsimp only at hlast
        omega
      · exact htimer (hw.timers_eq_nil (hw.stopped hoff))
    · intro hmeets
      exact Alive.attempt (hmeets hoff)

/-- A request that settles keeps the loop alive unless it was aborted under a running loop. -/
theorem alive_settle_iff {w : Loop} (hw : Agrees w) (h : Alive w) (controller : ℕ)
    (outcome : Outcome) (random : ℚ) :
    Alive (w.settle controller outcome random) ↔ Meets w (.settle controller outcome random) := by
  rcases settle_cases hw controller outcome random with ⟨hnone, heq⟩ | ⟨r, hone, hcontroller, heq⟩
  · rw [heq]
    refine ⟨fun _ ↦ ?_, fun _ ↦ h⟩
    cases outcome with
    | result status => trivial
    | error e => exact fun _ _ ↦ hnone
  · have htimer : w.retryTimer = none := hw.exclusive (by rw [hw.flying, hone]; rfl)
    have htimers := hw.timers_eq_nil htimer
    obtain ⟨hrequests, -, -, hcases⟩ :=
      onSettled_cases { w with requests := [] } outcome random htimer
    rw [heq]
    constructor
    · intro halive
      cases outcome with
      | result status => trivial
      | error e =>
        intro hrunning habort
        -- the aborted request is gone, and nothing was scheduled
        have hsame : ({ w with requests := [] } : Loop).onSettled (.error e) random =
            { w with requests := [] } := by
          simp [Loop.onSettled, habort]
        rw [hsame] at halive
        rcases halive hrunning with ⟨r', hr', -⟩ | hpending
        · cases hr'
        · exact absurd htimers hpending
    · intro hmeets hrunning
      rcases hcases with ⟨-, timer, delay, -, hpending⟩ | ⟨-, -, haborted⟩
      · exact .inr (by simp [Loop.finish, hpending])
      · obtain ⟨e, rfl, habort⟩ := haborted hrunning
        -- the loop was running before, so this request was not to be aborted
        have hbefore : w.running = true := by
          simpa [Loop.finish, Loop.onSettled, habort] using hrunning
        exact absurd hcontroller (hmeets hbefore habort r (by simp [hone]))

/-- **An event keeps a loop alive exactly when it meets the condition.** -/
theorem alive_step_iff {w : Loop} (hw : Agrees w) (h : Alive w) (e : Event) :
    Alive (step w e) ↔ Meets w e := by
  cases e with
  | start => exact alive_start_iff hw h
  | stop => exact ⟨fun _ ↦ trivial, fun _ hrunning ↦ by cases hrunning⟩
  | fire timer => exact ⟨fun _ ↦ trivial, fun _ ↦ h.fire hw timer⟩
  | settle controller outcome random => exact alive_settle_iff hw h controller outcome random

theorem run_append_singleton (events : List Event) (e : Event) :
    run (events ++ [e]) = step (run events) e := by
  rw [run, List.foldl_append]
  rfl

theorem sound_iff_alive (events : List Event) : Sound (run events) ↔ Alive (run events) := by
  have h := agrees_run events
  exact ⟨fun hsound ↦ hsound.alive, fun halive ↦ ⟨h.one_request, h.one_timer, h.no_stray, halive⟩⟩

/-- **The loop neither overlaps nor stalls in any run** in which every start of a stopped loop finds
no request in flight, and no request is aborted while the loop is running; and in no other. -/
theorem loop_sound_iff (events : List Event) :
    (∀ past, past <+: events → Sound (run past)) ↔
      ∀ past e, past ++ [e] <+: events → Meets (run past) e := by
  constructor
  · intro h past e hprefix
    have hpast : past <+: events := (List.prefix_append past [e]).trans hprefix
    have hnext := (h _ hprefix).alive
    rw [run_append_singleton] at hnext
    exact (alive_step_iff (agrees_run past) (h past hpast).alive e).mp hnext
  · intro h past
    induction past using List.reverseRecOn with
    | nil => exact fun _ ↦ (sound_iff_alive []).mpr fun hrunning ↦ by cases hrunning
    | append_singleton past e ih =>
      intro hprefix
      have hpast : past <+: events := (List.prefix_append past [e]).trans hprefix
      rw [sound_iff_alive, run_append_singleton]
      exact (alive_step_iff (agrees_run past) (ih hpast).alive e).mpr (h past e hprefix)

/-- The loop is stopped and started again while its request is in flight; the request is aborted. -/
def restarted : List Event :=
  [.start, .stop, .start, .settle 0 (.error ⟨some "AbortError".toList, .absent⟩) 0]

/-- The loop is running, and waits for nothing. -/
theorem restart_stalls :
    (run restarted).running = true ∧ (run restarted).requests = [] ∧
      (run restarted).timers = [] ∧ ¬ Sound (run restarted) := by
  refine ⟨by decide, by decide, by decide, fun hsound ↦ ?_⟩
  rcases hsound.alive (by decide) with ⟨r, hr, -⟩ | htimer
  · have hnone : (run restarted).requests = [] := by decide
    rw [hnone] at hr
    cases hr
  · exact htimer (by decide)

end Neva.PairRetry
