import Mathlib.Data.Rat.Defs
import Mathlib.Order.MinMax
import Neva.Calls.Always
import Neva.Schema

/-!
# Retries

`_run_with_policy` of `app/gemini_client.py`: a call of the model goes through the gate, is made,
and is entered into `api_calls`, and as long as it fails for a passing reason it is made again after
a while.  A recorder that fails is passed over, and what is cancelled leaves by an exception that
nothing here catches.

`policy_followed` says of every run, whatever the calls answer, that the gate is released as often
as it was acquired, and of every run that is not disturbed that the table has one row for each
attempt and the caller is given what the last attempt gave.
-/

set_option autoImplicit false

namespace Neva.Gemini

open Calls Calls.Prog

/-! ## Exceptions -/

/-- An exception, as far as `is_transient_error` and the recorder look at it. -/
inductive Exn
  /-- `TimeoutError`, `ConnectionError` or `httpx.TransportError`, or a class below one of them. -/
  | network (typeName : Text)
  /-- `genai_errors.APIError`; a code that is no integer is none. -/
  | api (typeName : Text) (code : Option ℤ) (status : Text)
  | other (typeName : Text)
  /-- `asyncio.CancelledError`, which is no `Exception`. -/
  | cancelled
  deriving DecidableEq

namespace Exn

/-- `type(exc).__name__` -/
def typeName : Exn → Text
  | network typeName | api typeName _ _ | other typeName => typeName
  | cancelled => "CancelledError".toList

/-- `_TRANSIENT_STATUS_CODES` -/
def transientStatusCodes : List ℤ := [408, 429, 500, 502, 503, 504]

def transientStatuses : List Text :=
  ["RESOURCE_EXHAUSTED".toList, "UNAVAILABLE".toList, "DEADLINE_EXCEEDED".toList,
    "ABORTED".toList]

/-- `is_transient_error`; `upper` is `str.upper`. -/
def isTransient (upper : Text → Text) : Exn → Bool
  | network _ => true
  | api _ code status =>
    code.any (transientStatusCodes.contains ·) || transientStatuses.contains (upper status)
  | other _ | cancelled => false

end Exn

/-! ## The calls -/

/-- What is entered into `api_calls` of an attempt. -/
structure ApiCall where
  /-- `response_meta["attempt"]` -/
  attempt : ℕ
  /-- `error_type` and `transient` of a row with status `error`. -/
  error : Option (Text × Bool)
  estimatedCostMicrousd : Option ℤ
  deriving DecidableEq

/-- The calls of `_run_with_policy`; `ρ` is what the model answers. -/
inductive PolicyOp (ρ : Type) : Type → Type
  /-- `await gate.acquire()` -/
  | acquire : PolicyOp ρ Unit
  /-- `await call()` -/
  | call : PolicyOp ρ ρ
  /-- `await self._recorder.record(…)` -/
  | record (row : ApiCall) : PolicyOp ρ Unit
  /-- `await self._sleep(delay * (0.5 + random.random()))` -/
  | sleep (delay : ℚ) : PolicyOp ρ Unit
  /-- `gate.release()` -/
  | release : PolicyOp ρ Unit

abbrev PolicyProg (ρ α : Type) := Prog (PolicyOp ρ) Exn α

/-- The settings of a client, and what it is given with a request. -/
structure Policy (ρ : Type) where
  /-- `gemini_max_retries` -/
  maxRetries : ℤ := 3
  /-- `gemini_retry_base_delay_s` -/
  retryBaseDelay : ℚ := 1 / 2
  /-- `gemini_retry_max_delay_s` -/
  retryMaxDelay : ℚ := 8
  /-- `self._recorder is not None` -/
  recording : Bool := true
  upper : Text → Text
  /-- `_build_success_response_meta` and `cost_fn`, for a result of the model. -/
  cost : ρ → Except Exn (Option ℤ)

variable {ρ : Type} (P : Policy ρ)

/-- `max_attempts` -/
def Policy.maxAttempts : ℕ := (P.maxRetries + 1).toNat

/-- The delay before the next attempt, less the jitter. -/
def Policy.delay (attempt : ℕ) : ℚ := min (P.retryBaseDelay * 2 ^ (attempt - 1)) P.retryMaxDelay

/-- `_safe_record` -/
def safeRecord (row : ApiCall) : PolicyProg ρ Unit :=
  if !P.recording then pure ()
  else (perform (.record row)).tryCatch fun e ↦ if e = .cancelled then raise e else pure ()

/-- How an attempt ends. -/
inductive Ended (ρ : Type)
  /-- `return result, latency_ms, attempt` -/
  | returned (result : ρ)
  /-- `break` -/
  | failed (e : Exn)
  /-- The loop goes on. -/
  | again (e : Exn)

/-- The row of an attempt that gave a result. -/
def successRow (attempt : ℕ) (cost : Option ℤ) : ApiCall := ⟨attempt, none, cost⟩

/-- The row of an attempt that raised. -/
def errorRow (attempt : ℕ) (e : Exn) : ApiCall :=
  ⟨attempt, some (e.typeName, e.isTransient P.upper), none⟩

/-- The `try` block: the call is made and entered. -/
def tryCall (attempt : ℕ) : PolicyProg ρ (Ended ρ) := do
  let result ← perform .call
  match P.cost result with
  | .error e => raise e
  | .ok cost => do
    safeRecord P (successRow attempt cost)
    return .returned result

/-- The `except Exception` block. -/
def handle (attempt : ℕ) (e : Exn) : PolicyProg ρ (Ended ρ) :=
  if e = .cancelled then raise e
  else do
    safeRecord P (errorRow P attempt e)
    if !e.isTransient P.upper ∨ P.maxAttempts ≤ attempt then return .failed e
    else do
      perform (.sleep (P.delay attempt))
      return .again e

/-- One round of the loop. -/
def attemptOnce (attempt : ℕ) : PolicyProg ρ (Ended ρ) := do
  perform .acquire
  ((tryCall P attempt).tryCatch (handle P attempt)).ensuring .release

/-- The loop, with so many attempts left; `lastExc` is the exception of the one before. -/
def loop (lastExc : Option Exn) : ℕ → ℕ → PolicyProg ρ (ρ × ℕ)
  | 0, _ =>
    match lastExc with
    | none => raise (.other "AssertionError".toList)
    | some e => raise e
  | left + 1, attempt => do
    let ended ← attemptOnce P attempt
    match ended with
    | .returned result => return (result, attempt)
    | .failed e => raise e
    | .again e => loop (some e) left (attempt + 1)

/-- `_run_with_policy` -/
def runWithPolicy : PolicyProg ρ (ρ × ℕ) := loop P none P.maxAttempts 1

/-! ## What a run has been -/

/-- What an attempt came to: the result with its cost, or the exception. -/
abbrev Attempt (ρ : Type) := Except Exn (ρ × Option ℤ)

/-- What an answer of the model comes to. -/
def Policy.attempted : Except Exn ρ → Attempt ρ
  | .ok result => (P.cost result).map fun cost ↦ (result, cost)
  | .error e => .error e

/-- What a history amounts to.  The newest comes first. -/
structure Tally (ρ : Type) where
  attempts : List (Attempt ρ) := []
  /-- The rows that were to be entered. -/
  rows : List ApiCall := []
  delays : List ℚ := []
  /-- How often the gate let the run through. -/
  acquired : ℕ := 0
  released : ℕ := 0
  /-- The run was cancelled, or the gate or a pause failed. -/
  disturbed : Bool := false

/-- One more call. -/
def Tally.after (t : Tally ρ) : Past (PolicyOp ρ) Exn → Tally ρ
  | ⟨.acquire, .ok _⟩ => { t with acquired := t.acquired + 1 }
  | ⟨.acquire, .error _⟩ => { t with disturbed := true }
  | ⟨.call, answer⟩ =>
    { t with
      attempts := P.attempted answer :: t.attempts
      disturbed := t.disturbed || (match P.attempted answer with
        | .error .cancelled => true
        | _ => false) }
  | ⟨.record row, answer⟩ =>
    { t with
      rows := row :: t.rows
      disturbed := t.disturbed || (match answer with
        | .error .cancelled => true
        | _ => false) }
  | ⟨.sleep delay, .ok _⟩ => { t with delays := delay :: t.delays }
  | ⟨.sleep _, .error _⟩ => { t with disturbed := true }
  | ⟨.release, .ok _⟩ => { t with released := t.released + 1 }
  | ⟨.release, .error _⟩ => { t with released := t.released + 1, disturbed := true }

def tally : List (Past (PolicyOp ρ) Exn) → Tally ρ
  | [] => {}
  | c :: h => (tally h).after P c

/-- The row of an attempt. -/
def Policy.row (attempt : ℕ) : Attempt ρ → ApiCall
  | .ok (_, cost) => successRow attempt cost
  | .error e => errorRow P attempt e

/-- The rows, with one more if there is a recorder. -/
def Policy.entered (row : ApiCall) (rows : List ApiCall) : List ApiCall :=
  if P.recording then row :: rows else rows

section

variable {P} {h : List (Past (PolicyOp ρ) Exn)} {attempt : ℕ}

/-- No more is said of the calls than what they answer. -/
abbrev Runs {α : Type} (Q : List (Past (PolicyOp ρ) Exn) → Except Exn α → Prop)
    (h : List (Past (PolicyOp ρ) Exn)) (p : PolicyProg ρ α) : Prop :=
  p.Always (fun _ _ _ ↦ True) Q h

/-- A recorder enters the row, and only a cancellation gets past it. -/
theorem runs_safeRecord (row : ApiCall) :
    Runs (fun h' r ↦ ∃ cancelled, tally P h' = { tally P h with
        rows := P.entered row (tally P h).rows
        disturbed := (tally P h).disturbed || cancelled } ∧
      r = if cancelled then .error .cancelled else .ok ()) h (safeRecord P row) := by
  rw [safeRecord]
  cases hr : P.recording with
  | false => exact ⟨false, by simp [Policy.entered, hr], rfl⟩
  | true =>
    refine ⟨trivial, fun r ↦ ?_⟩
    cases r with
    | ok u => exact ⟨false, by simp [tally, Tally.after, Policy.entered, hr], rfl⟩
    | error e =>
      cases e with
      | cancelled => exact ⟨true, by simp [tally, Tally.after, Policy.entered, hr], rfl⟩
      | network | api | other =>
        exact ⟨false, by simp [tally, Tally.after, Policy.entered, hr], rfl⟩

/-- The call is made, and a result is entered. -/
theorem runs_tryCall : Runs (fun h' r ↦ ∃ answer, match P.attempted answer with
    | .error e => r = .error e ∧ tally P h' = tally P (⟨.call, answer⟩ :: h)
    | .ok (x, cost) => ∃ cancelled, tally P h' = { tally P (⟨.call, answer⟩ :: h) with
          rows := P.entered (successRow attempt cost) (tally P h).rows
          disturbed := (tally P (⟨.call, answer⟩ :: h)).disturbed || cancelled } ∧
        r = if cancelled then .error .cancelled else .ok (.returned x))
    h (tryCall P attempt) := by
  rw [tryCall, perform_bind]
  refine ⟨trivial, fun answer ↦ ?_⟩
  cases answer with
  | error e => exact ⟨.error e, rfl, rfl⟩
  | ok x =>
    show Runs _ _ (match P.cost x with
      | .error e => raise e
      | .ok cost => safeRecord P (successRow attempt cost) >>= fun _ ↦ pure (Ended.returned x))
    cases hcost : P.cost x with
    | error e => exact ⟨.ok x, by simp [Policy.attempted, hcost, Except.map]⟩
    | ok cost =>
      have hattempted : P.attempted (.ok x) = .ok (x, cost) := by
        simp [Policy.attempted, hcost, Except.map]
      refine (runs_safeRecord (successRow attempt cost)).bind ?_ ?_
      · rintro h' u - ⟨cancelled, htally, hr⟩
        refine ⟨.ok x, ?_⟩
        rw [hattempted]
        cases cancelled with
        | true => cases hr
        | false => exact ⟨false, htally, rfl⟩
      · rintro h' e - ⟨cancelled, htally, hr⟩
        refine ⟨.ok x, ?_⟩
        rw [hattempted]
        cases cancelled with
        | true =>
          obtain rfl : e = .cancelled := by simpa using hr
          exact ⟨true, htally, rfl⟩
        | false => cases hr

/-- A failure is entered, and then it is seen whether to go on. -/
theorem runs_handle {e : Exn} (he : e ≠ .cancelled) : Runs (fun h' r ↦
    ∃ cancelled, let t := { tally P h with
        rows := P.entered (errorRow P attempt e) (tally P h).rows
        disturbed := (tally P h).disturbed || cancelled }
      if cancelled then r = .error .cancelled ∧ tally P h' = t
      else if !e.isTransient P.upper ∨ P.maxAttempts ≤ attempt then
        r = .ok (.failed e) ∧ tally P h' = t
      else r = .ok (.again e) ∧ tally P h' = { t with delays := P.delay attempt :: t.delays } ∨
        ∃ e', r = .error e' ∧ tally P h' = { t with disturbed := true })
    h (handle P attempt e) := by
  rw [handle, if_neg he]
  refine (runs_safeRecord (errorRow P attempt e)).bind ?_ ?_
  · rintro h' u - ⟨cancelled, htally, hr⟩
    cases cancelled with
    | true => cases hr
    | false =>
      by_cases hstop : !e.isTransient P.upper ∨ P.maxAttempts ≤ attempt
      · rw [if_pos hstop]
        refine ⟨false, ?_⟩
        dsimp only
        rw [if_neg Bool.false_ne_true, if_pos hstop]
        exact ⟨rfl, htally⟩
      · rw [if_neg hstop, perform_bind]
        refine ⟨trivial, fun answer ↦ ?_⟩
        cases answer with
        | ok u =>
          refine ⟨false, ?_⟩
          dsimp only
          rw [if_neg Bool.false_ne_true, if_neg hstop]
          exact .inl ⟨rfl, by simp [tally, Tally.after, htally]⟩
        | error e' =>
          refine ⟨false, ?_⟩
          dsimp only
          rw [if_neg Bool.false_ne_true, if_neg hstop]
          exact .inr ⟨e', rfl, by simp [tally, Tally.after, htally]⟩
  · rintro h' e' - ⟨cancelled, htally, hr⟩
    cases cancelled with
    | true =>
      refine ⟨true, ?_⟩
      dsimp only
      rw [if_pos rfl]
      obtain rfl : e' = .cancelled := by simpa using hr
      exact ⟨rfl, htally⟩
    | false => cases hr

/-! ## An attempt -/

/-- What an attempt adds to the tally, unless it is disturbed. -/
def Tally.Attempted (P : Policy ρ) (attempt : ℕ) (t t' : Tally ρ) (r : Except Exn (Ended ρ)) :
    Prop :=
  t'.disturbed = false → t.disturbed = false ∧
    ∃ a, t'.attempts = a :: t.attempts ∧ t'.rows = P.entered (P.row attempt a) t.rows ∧
      match r with
      | .ok (.returned x) => (∃ cost, a = .ok (x, cost)) ∧ t'.delays = t.delays
      | .ok (.failed e) => a = .error e ∧ t'.delays = t.delays ∧
          (e.isTransient P.upper = true → P.maxAttempts ≤ attempt)
      | .ok (.again e) => a = .error e ∧ t'.delays = P.delay attempt :: t.delays ∧
          e.isTransient P.upper = true ∧ attempt < P.maxAttempts
      | .error _ => False

theorem runs_attempt : Runs (fun h' r ↦ (tally P h').acquired = (tally P h).acquired ∧
      (tally P h').released = (tally P h).released ∧
      Tally.Attempted P attempt (tally P h) (tally P h') r)
    h ((tryCall P attempt).tryCatch (handle P attempt)) := by
  refine runs_tryCall.tryCatch ?_ ?_
  · rintro h' ended - ⟨answer, hanswer⟩
    cases ha : P.attempted answer with
    | error e =>
      rw [ha] at hanswer
      cases hanswer.1
    | ok x =>
      rw [ha] at hanswer
      obtain ⟨cancelled, htally, hr⟩ := hanswer
      cases cancelled with
      | true => cases hr
      | false =>
        cases hr
        rw [htally]
        refine ⟨rfl, rfl, fun hd ↦ ?_⟩
        simp [tally, Tally.after, ha, Policy.row] at hd ⊢
        exact ⟨hd, x.2, rfl⟩
  · rintro h' e - ⟨answer, hanswer⟩
    cases ha : P.attempted answer with
    | ok x =>
      rw [ha] at hanswer
      obtain ⟨cancelled, htally, hr⟩ := hanswer
      cases cancelled with
      | false => cases hr
      | true =>
        obtain rfl : e = .cancelled := by simpa using hr
        rw [handle, if_pos rfl]
        refine ⟨?_, ?_, fun hd ↦ ?_⟩
        · rw [htally]; rfl
        · rw [htally]; rfl
        · rw [htally] at hd
          simp at hd
    | error e' =>
      rw [ha] at hanswer
      obtain ⟨hr, htally⟩ := hanswer
      cases hr
      by_cases he : e = .cancelled
      · subst he
        rw [handle, if_pos rfl]
        refine ⟨?_, ?_, fun hd ↦ ?_⟩
        · rw [htally]; rfl
        · rw [htally]; rfl
        · rw [htally] at hd
          simp [tally, Tally.after, ha] at hd
      · refine (runs_handle he).mono fun h'' r _ hend ↦ ?_
        rw [htally] at hend
        obtain ⟨cancelled, hend⟩ := hend
        have hcall : tally P (⟨.call, answer⟩ :: h) =
            { tally P h with attempts := .error e :: (tally P h).attempts } := by
          cases e with
          | cancelled => exact absurd rfl he
          | network | api | other => simp [tally, Tally.after, ha]
        rw [hcall] at hend
        cases cancelled with
        | true =>
          obtain ⟨rfl, htally⟩ := hend
          rw [htally]
          refine ⟨rfl, rfl, fun hd ↦ ?_⟩
          simp at hd
        | false =>
          dsimp only at hend
          rw [if_neg Bool.false_ne_true] at hend
          split_ifs at hend with hstop
          · obtain ⟨rfl, htally⟩ := hend
            rw [htally]
            refine ⟨rfl, rfl, fun hd ↦ ⟨by simpa using hd, _, rfl, rfl, rfl, rfl, fun htrans ↦ ?_⟩⟩
            simpa [htrans] using hstop
          · rcases hend with ⟨rfl, htally⟩ | ⟨e', rfl, htally⟩
            · rw [htally]
              refine ⟨rfl, rfl, fun hd ↦ ⟨by simpa using hd, _, rfl, rfl, rfl, rfl, ?_⟩⟩
              simpa [not_or] using hstop
            · rw [htally]
              exact ⟨rfl, rfl, fun hd ↦ by cases hd⟩

theorem runs_attemptOnce : Runs (fun h' r ↦
      (tally P h').acquired + (tally P h).released = (tally P h').released + (tally P h).acquired ∧
      Tally.Attempted P attempt (tally P h) (tally P h') r)
    h (attemptOnce P attempt) := by
  rw [attemptOnce, perform_bind]
  refine ⟨trivial, fun answer ↦ ?_⟩
  cases answer with
  | error e =>
    refine ⟨?_, fun hd ↦ ?_⟩
    · simp [tally, Tally.after]
      omega
    · simp [tally, Tally.after] at hd
  | ok u =>
    refine runs_attempt.ensuring (fun _ _ _ _ ↦ trivial) ?_ ?_
    · rintro h' r u' ⟨hacquired, hreleased, hattempted⟩
      refine ⟨?_, hattempted⟩
      simp only [tally, Tally.after] at hacquired hreleased ⊢
      omega
    · rintro h' r e ⟨hacquired, hreleased, -⟩
      refine ⟨?_, fun hd ↦ ?_⟩
      · simp only [tally, Tally.after] at hacquired hreleased ⊢
        omega
      · simp [tally, Tally.after] at hd

end

/-! ## The loop -/

/-- The rows of attempts. -/
def Policy.rowsOf : List (Attempt ρ) → List ApiCall
  | [] => []
  | a :: earlier => P.entered (P.row (earlier.length + 1) a) (Policy.rowsOf earlier)

/-- The delays between so many attempts and the next. -/
def Policy.delaysOf : ℕ → List ℚ
  | 0 => []
  | n + 1 => P.delay (n + 1) :: Policy.delaysOf n

/-- The attempts so far have failed for a passing reason. -/
structure Tally.Failed (P : Policy ρ) (t : Tally ρ) : Prop where
  failed : ∀ a ∈ t.attempts, ∃ e, a = .error e ∧ e.isTransient P.upper = true
  rows : t.rows = P.rowsOf t.attempts
  delays : t.delays = P.delaysOf t.attempts.length

/-- The policy has been followed, and the result is that of the last attempt. -/
def Tally.Followed (P : Policy ρ) (t : Tally ρ) (r : Except Exn (ρ × ℕ)) : Prop :=
  ∃ last earlier, t.attempts = last :: earlier ∧ earlier.length < P.maxAttempts ∧
    (∀ a ∈ earlier, ∃ e, a = .error e ∧ e.isTransient P.upper = true) ∧
    (∀ e, last = .error e → e.isTransient P.upper = true → earlier.length + 1 = P.maxAttempts) ∧
    r = last.map (fun x ↦ (x.1, earlier.length + 1)) ∧
    t.rows = P.rowsOf t.attempts

section

variable {P} {h : List (Past (PolicyOp ρ) Exn)}

/-- What the loop starts each round with. -/
structure Between (P : Policy ρ) (lastExc : Option Exn) (left attempt : ℕ)
    (h : List (Past (PolicyOp ρ) Exn)) : Prop where
  balanced : (tally P h).acquired = (tally P h).released
  count : attempt + left = P.maxAttempts + 1
  failed : (tally P h).disturbed = false → (tally P h).Failed P
  attempts : (tally P h).disturbed = false → (tally P h).attempts.length + 1 = attempt
  last : (tally P h).disturbed = false →
    (tally P h).attempts.head? = lastExc.map Except.error
  going : (tally P h).disturbed = false → lastExc.isSome = true → 0 < left

/-- **The loop follows the policy**: by induction on the attempts that are left. -/
theorem runs_loop (hmax : 1 ≤ P.maxAttempts) {lastExc : Option Exn} {left attempt : ℕ}
    (hb : Between P lastExc left attempt h) :
    Runs (fun h' r ↦ (tally P h').acquired = (tally P h').released ∧
      ((tally P h').disturbed = false → (tally P h').Followed P r ∧
        (tally P h').delays = P.delaysOf ((tally P h').attempts.length - 1)))
      h (loop P lastExc left attempt) := by
  induction left generalizing lastExc attempt h with
  | zero =>
    cases lastExc with
    | none =>
      refine ⟨hb.balanced, fun hd ↦ ?_⟩
      -- there has been an attempt
      have hcount := hb.count
      have hlen := hb.attempts hd
      rw [List.head?_eq_none_iff.mp (hb.last hd), List.length_nil] at hlen
      omega
    | some e => exact ⟨hb.balanced, fun hd ↦ absurd (hb.going hd rfl) (lt_irrefl 0)⟩
  | succ left ih =>
    rw [loop]
    refine runs_attemptOnce.bind ?_ ?_
    · rintro h' ended - ⟨hbalanced, hattempted⟩
      have hb' : (tally P h').acquired = (tally P h').released := by
        have := hb.balanced
        omega
      have hcount := hb.count
      cases ended with
      | returned x =>
        refine ⟨hb', fun hd ↦ ?_⟩
        obtain ⟨hd₀, a, hattempts, hrows, ⟨cost, rfl⟩, hdelays⟩ := hattempted hd
        have hfailed := hb.failed hd₀
        have hlen := hb.attempts hd₀
        refine ⟨⟨_, _, hattempts, by omega, hfailed.failed, nofun, ?_, ?_⟩, ?_⟩
        · simp [Except.map, hlen]
        · rw [hrows, hattempts, Policy.rowsOf, hfailed.rows, hlen]
        · rw [hdelays, hattempts, hfailed.delays]
          simp
      | failed e =>
        refine ⟨hb', fun hd ↦ ?_⟩
        obtain ⟨hd₀, a, hattempts, hrows, rfl, hdelays, hstop⟩ := hattempted hd
        have hfailed := hb.failed hd₀
        have hlen := hb.attempts hd₀
        refine ⟨⟨_, _, hattempts, by omega, hfailed.failed, ?_, rfl, ?_⟩, ?_⟩
        · rintro e' heq htrans
          cases heq
          have := hstop htrans
          omega
        · rw [hrows, hattempts, Policy.rowsOf, hfailed.rows, hlen]
        · rw [hdelays, hattempts, hfailed.delays]
          simp
      | again e =>
        refine ih ⟨hb', by omega, fun hd ↦ ?_, fun hd ↦ ?_, fun hd ↦ ?_, fun hd _ ↦ ?_⟩
        · obtain ⟨hd₀, a, hattempts, hrows, rfl, hdelays, htrans, -⟩ := hattempted hd
          have hfailed := hb.failed hd₀
          have hlen := hb.attempts hd₀
          refine ⟨fun a ha ↦ ?_, ?_, ?_⟩
          · rw [hattempts] at ha
            rcases List.mem_cons.mp ha with rfl | ha
            · exact ⟨e, rfl, htrans⟩
            · exact hfailed.failed a ha
          · rw [hrows, hattempts, Policy.rowsOf, hfailed.rows, hlen]
          · rw [hdelays, hattempts, hfailed.delays, List.length_cons, Policy.delaysOf, hlen]
        · obtain ⟨hd₀, a, hattempts, -⟩ := hattempted hd
          rw [hattempts, List.length_cons, hb.attempts hd₀]
        · obtain ⟨hd₀, a, hattempts, -, rfl, -⟩ := hattempted hd
          rw [hattempts]
          rfl
        · obtain ⟨-, a, -, -, rfl, -, -, hlt⟩ := hattempted hd
          omega
    · rintro h' e - ⟨hbalanced, hattempted⟩
      refine ⟨?_, fun hd ↦ ?_⟩
      · have := hb.balanced
        omega
      · obtain ⟨-, a, -, -, hfalse⟩ := hattempted hd
        exact hfalse.elim

end

/-! ## The result -/

/-- **The policy is followed**, whatever the calls answer.  The gate is released as often as it has
let the run through.  A run that is not cancelled, and whose gate and pauses do their work, makes at
least one and at most `gemini_max_retries + 1` attempts; all but the last have failed for a passing
reason, and so has the last one only if it was the last there could be.  The caller is given the
result or the exception of the last attempt, with its number; one row was to be entered for each
attempt, in order; and there was one pause between any two, each twice as long up to the limit. -/
theorem policy_followed {ρ : Type} (P : Policy ρ) (hmax : 0 ≤ P.maxRetries)
    (answers : List (Past (PolicyOp ρ) Exn) → {β : Type} → PolicyOp ρ β → Except Exn β) :
    let run := outcome answers [] (runWithPolicy P)
    let t := tally P run.1
    t.acquired = t.released ∧ (t.disturbed = false →
      ∃ last earlier, t.attempts = last :: earlier ∧ earlier.length < P.maxAttempts ∧
        (∀ a ∈ earlier, ∃ e, a = .error e ∧ e.isTransient P.upper = true) ∧
        (∀ e, last = .error e → e.isTransient P.upper = true →
          earlier.length + 1 = P.maxAttempts) ∧
        run.2 = last.map (fun x ↦ (x.1, earlier.length + 1)) ∧
        t.rows = P.rowsOf (last :: earlier) ∧ t.delays = P.delaysOf earlier.length) := by
  intro run t
  have hattempts : 1 ≤ P.maxAttempts := by
    rw [Policy.maxAttempts]
    omega
  have hstart : Between P none P.maxAttempts 1 [] :=
    ⟨rfl, Nat.add_comm .., fun _ ↦ ⟨fun _ ha ↦ absurd ha List.not_mem_nil, rfl, rfl⟩, fun _ ↦ rfl,
      fun _ ↦ rfl, fun _ h ↦ absurd h Bool.false_ne_true⟩
  obtain ⟨hbalanced, hfollowed⟩ := (runs_loop hattempts hstart).result answers
  refine ⟨hbalanced, fun hd ↦ ?_⟩
  obtain ⟨⟨last, earlier, hall, hlt, hfailed, hlast, hr, hrows⟩, hdelays⟩ := hfollowed hd
  rw [hall] at hrows hdelays
  exact ⟨last, earlier, hall, hlt, hfailed, hlast, hr, hrows, hdelays⟩

/-- A model that answers yes or no and costs nothing. -/
def yesNo : Policy Bool where
  upper := List.map Char.toUpper
  cost _ := .ok none

/-- The model is overloaded when it is first called, and the recorder always fails. -/
def overloaded (h : List (Past (PolicyOp Bool) Exn)) {β : Type} : PolicyOp Bool β → Except Exn β
  | .acquire | .sleep _ | .release => .ok ()
  | .record _ => .error (.other "PostgresError".toList)
  | .call =>
    if (tally yesNo h).attempts = [] then .error (.api "ServerError".toList (some 503) [])
    else .ok true

/-- It answers when it is called again. -/
theorem policy_followed_overloaded :
    let run := outcome (fun h ↦ overloaded h) [] (runWithPolicy yesNo)
    run.2 = .ok (true, 2) ∧ (tally yesNo run.1).rows.length = 2 ∧
      (tally yesNo run.1).acquired = (tally yesNo run.1).released := by
  intro run
  obtain ⟨hbalanced, hfollowed⟩ := policy_followed yesNo (by decide) fun h ↦ overloaded h
  obtain ⟨last, earlier, hattempts, -, -, -, hr, hrows, -⟩ := hfollowed (by decide +kernel)
  have hrun : (tally yesNo run.1).attempts =
      [.ok (true, none), .error (.api "ServerError".toList (some 503) [])] := by decide +kernel
  obtain ⟨rfl, rfl⟩ := List.cons.inj (hattempts.symm.trans hrun)
  exact ⟨hr, by rw [hrows]; rfl, hbalanced⟩

end Neva.Gemini
