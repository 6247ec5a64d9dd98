import Mathlib.Data.List.Nodup
import Mathlib.Data.Rat.Floor
import Mathlib.Tactic.Common

/-!
# Hold to talk

`useRecorder` of `lib/useRecorder.js` is driven by the pointer, by the microphone permission, which
the user may give at any later time, and by callbacks of the recorder.  A `Talk` is its state,
together with what it has asked of the browser: the permission requests, the streams, the recorders
and their timers, and the uploads.  An `Event` is what can happen; between two events the hook
does not run.

A press and a recording each remember in `kept` whether the press still stands.  That is no part of
the hook: it says what the clip should have been, and `Sound` compares what was uploaded with it.

The hook looks at the status it has last rendered, and a recorder that is stopped with nothing else
said sends its clip.  So a release that comes before the permission is overlooked, two presses
before a permission open two streams, and leaving the page sends what was recorded.
`recorder_sound` gives the runs that are sound, `offending_runs` those three.
-/

set_option autoImplicit false

namespace Neva.HoldToTalk

def minMs : ℚ := 1000

inductive Status
  | idle
  | recording
  | uploading
  deriving DecidableEq

/-- What a recording is stopped for. -/
inductive Intent
  | send
  | discard
  | auto
  deriving DecidableEq

/-- Where a `MediaRecorder` is. -/
inductive Recorder
  | recording
  /-- It has been stopped, or its tracks have ended, and its stop callback is pending. -/
  | stopping
  /-- The stop callback has run. -/
  | inactive
  deriving DecidableEq

/-- The timer of the hard cap. -/
inductive Timer
  | pending
  | cleared
  | expired
  deriving DecidableEq

/-- A permission request that has not been answered. -/
structure Request where
  id : ℕ
  /-- The press that asked for it still stands. -/
  kept : Bool
  deriving DecidableEq

/-- What `recRef` points to, `r` in the source. -/
structure Recording where
  id : ℕ
  recorder : Recorder
  /-- Its stream is open. -/
  streaming : Bool
  hardStop : Timer
  intent : Intent
  stopping : Bool
  /-- The press that asked for it stood until the recording was stopped, or still does. -/
  kept : Bool
  deriving DecidableEq

structure Talk where
  /-- `status`, as it was last set. -/
  status : Status
  /-- `status`, as the handlers see it. -/
  rendered : Status
  mounted : Bool
  /-- `recRef.current` -/
  recRef : Option ℕ
  requests : List Request
  recordings : List Recording
  /-- The uploads that have not settled. -/
  sending : List ℕ
  /-- Every recording that was uploaded, as it was then. -/
  uploads : List Recording
  /-- A name for the next request or recording. -/
  fresh : ℕ
  deriving DecidableEq

/-- The recorder is told to stop, or its tracks end. -/
def Recorder.finish : Recorder → Recorder
  | .recording => .stopping
  | r => r

/-- `clearTimeout` -/
def Timer.clear : Timer → Timer
  | .pending => .cleared
  | t => t

namespace Recording

/-- The tracks of the stream end. -/
def endTracks (r : Recording) : Recording :=
  { r with streaming := false, recorder := r.recorder.finish }

/-- `teardown`, where this is the current recording. -/
def release (r : Recording) : Recording := { r.endTracks with hardStop := r.hardStop.clear }

/-- `stop`, where this is the current recording. -/
def stop (r : Recording) (intent : Intent) : Recording :=
  if r.stopping then r
  else { r with stopping := true, intent := intent, recorder := r.recorder.finish }

/-- The press no longer stands. -/
def letGo (r : Recording) : Recording := if r.stopping then r else { r with kept := false }

end Recording

namespace Talk

/-- The hook as it is mounted. -/
def mount : Talk where
  status := .idle
  rendered := .idle
  mounted := true
  recRef := none
  requests := []
  recordings := []
  sending := []
  uploads := []
  fresh := 0

/-- What happens to the recording with this name. -/
def modify (s : Talk) (id : ℕ) (f : Recording → Recording) : Talk :=
  { s with recordings := s.recordings.map fun r ↦ if r.id = id then f r else r }

def teardown (s : Talk) : Talk :=
  match s.recRef with
  | none => s
  | some id => { s.modify id Recording.release with recRef := none }

def stop (s : Talk) (intent : Intent) : Talk :=
  match s.recRef with
  | none => s
  | some id => s.modify id fun r ↦ r.stop intent

/-- Nothing that was pressed still stands. -/
def letGo (s : Talk) : Talk :=
  { s with
    requests := s.requests.map fun p ↦ { p with kept := false }
    recordings := s.recordings.map Recording.letGo }

/-- `start`, until the permission is awaited. -/
def start (s : Talk) : Talk :=
  if s.recRef.isSome || s.rendered = .uploading then s
  else { s with requests := s.requests ++ [⟨s.fresh, true⟩], fresh := s.fresh + 1 }

/-- The rest of `start`, once the stream is there. -/
def record (s : Talk) (kept : Bool) : Talk :=
  let r : Recording :=
    { id := s.fresh
      recorder := .recording
      streaming := true
      hardStop := .pending
      intent := .send
      stopping := false
      kept := kept }
  { s with
    recordings := s.recordings ++ [r]
    recRef := some r.id
    status := .recording
    fresh := s.fresh + 1 }

/-- The permission is granted. -/
def grant (s : Talk) (id : ℕ) : Talk :=
  match s.requests.find? fun p ↦ p.id = id with
  | none => s
  | some p => ({ s with requests := s.requests.erase p } : Talk).record p.kept

/-- The permission is refused. -/
def refuse (s : Talk) (id : ℕ) : Talk :=
  match s.requests.find? fun p ↦ p.id = id with
  | none => s
  | some p => { s with requests := s.requests.erase p }

/-- `upload`, until the answer is awaited. -/
def upload (s : Talk) (r : Recording) : Talk :=
  { s with status := .uploading, uploads := s.uploads ++ [r], sending := s.sending ++ [r.id] }

/-- `recorder.onstop` -/
def onStop (s : Talk) (id : ℕ) (elapsed : ℚ) : Talk :=
  match s.recordings.find? fun r ↦ r.id = id ∧ r.recorder = .stopping with
  | none => s
  | some r =>
    let after := (s.modify id fun r ↦ { r with recorder := .inactive }).teardown
    if r.intent = .discard then { after with status := .idle }
    else if elapsed < minMs then { after with status := .idle }
    else after.upload r

/-- An upload settles. -/
def settle (s : Talk) (id : ℕ) : Talk :=
  if id ∈ s.sending then { s with sending := s.sending.erase id, status := .idle } else s

/-- The hard cap of a recording is reached. -/
def expire (s : Talk) (id : ℕ) : Talk :=
  if s.recordings.any fun r ↦ r.id = id ∧ r.hardStop = .pending then
    (s.modify id fun r ↦ { r with hardStop := .expired }).stop .auto
  else s

/-- The tracks of a recording end by themselves. -/
def lose (s : Talk) (id : ℕ) : Talk := s.modify id Recording.endTracks

def onPointerDown (s : Talk) : Talk := if s.mounted then s.start else s

def onPointerUp (s : Talk) : Talk :=
  if s.mounted ∧ s.rendered = .recording then s.stop .send else s

def discardWithNudge (s : Talk) : Talk :=
  if s.mounted ∧ s.rendered = .recording then s.stop .discard else s

def onHide (s : Talk) : Talk :=
  if s.mounted ∧ s.recRef.isSome then { s.stop .discard with status := .idle } else s

def unmount (s : Talk) : Talk :=
  if s.mounted then { s.teardown with mounted := false } else s

end Talk

/-- What can happen. -/
inductive Event
  | down
  | up
  | leave
  | cancel
  | grant (request : ℕ)
  | refuse (request : ℕ)
  | hide
  | expire (recording : ℕ)
  | lose (recording : ℕ)
  | onStop (recording : ℕ) (elapsed : ℚ)
  | settle (recording : ℕ)
  | render
  | unmount
  deriving DecidableEq

/-- What the hook does, and whether the presses stand.  A release first stops the recording it
releases. -/
def step (s : Talk) : Event → Talk
  | .down => s.onPointerDown
  | .up => s.onPointerUp.letGo
  | .leave => s.letGo.discardWithNudge
  | .cancel => s.letGo.discardWithNudge
  | .grant id => s.grant id
  | .refuse id => s.refuse id
  | .hide => s.letGo.onHide
  | .expire id => s.expire id
  | .lose id => s.lose id
  | .onStop id elapsed => s.onStop id elapsed
  | .settle id => s.settle id
  | .render => { s with rendered := s.status }
  | .unmount => s.letGo.unmount

def run (s : Talk) (events : List Event) : Talk := events.foldl step s

/-! ## What is asked of the hook -/

/-- The recording was stopped by its release, or by its own hard cap, and until then the press that
asked for it stood. -/
def Recording.Held (r : Recording) : Prop :=
  r.stopping = true ∧ r.kept = true ∧ (r.intent = .auto → r.hardStop = .expired)

/-- Something is still to come that can close a stream. -/
def Talk.Busy (s : Talk) : Prop :=
  s.requests ≠ [] ∨ s.recRef ≠ none ∨ ∃ r ∈ s.recordings, r.recorder = .stopping

structure Sound (s : Talk) : Prop where
  one_stream : (s.recordings.filter fun r ↦ r.streaming).length ≤ 1
  closed : ¬ s.Busy → ∀ r ∈ s.recordings, r.streaming = false
  uploads : ∀ r ∈ s.uploads, r.Held

/-- What the hook relies on: a permission is granted to a press that still stands, while nothing is
recorded; a release and the like find the recording rendered; and nothing but `stop` ends it. -/
def Meets (s : Talk) : Event → Prop
  | .up | .leave | .cancel =>
    (∃ r ∈ s.recordings, r.stopping = false) → s.rendered = .recording
  | .grant id => ∀ p ∈ s.requests, p.id = id → p.kept = true ∧ s.recRef = none
  | .lose id => ∀ r ∈ s.recordings, r.id = id → r.stopping = true
  | .unmount => ∀ r ∈ s.recordings, r.stopping = true
  | _ => True

/-- A run whose events all meet the condition. -/
def Regular (s : Talk) : List Event → Prop
  | [] => True
  | e :: events => Meets s e ∧ Regular (step s e) events

instance decidableMeets (s : Talk) : (e : Event) → Decidable (Meets s e)
  | .up | .leave | .cancel =>
    inferInstanceAs (Decidable ((∃ r ∈ s.recordings, r.stopping = false) → s.rendered = .recording))
  | .grant id =>
    inferInstanceAs (Decidable (∀ p ∈ s.requests, p.id = id → p.kept = true ∧ s.recRef = none))
  | .lose id => inferInstanceAs (Decidable (∀ r ∈ s.recordings, r.id = id → r.stopping = true))
  | .unmount => inferInstanceAs (Decidable (∀ r ∈ s.recordings, r.stopping = true))
  | .down | .refuse _ | .hide | .expire _ | .onStop _ _ | .settle _ | .render => isTrue trivial

instance decidableRegular : (s : Talk) → (events : List Event) → Decidable (Regular s events)
  | _, [] => isTrue trivial
  | s, e :: events =>
    have := decidableRegular (step s e) events
    inferInstanceAs (Decidable (Meets s e ∧ Regular (step s e) events))

/-! ## What always holds -/

/-- What is known of a recording, where `current` is the one in `recRef`. -/
structure Fine (mounted : Bool) (current : Option ℕ) (r : Recording) : Prop where
  live : r.streaming = true → current = some r.id
  timer : r.hardStop = .pending → current = some r.id
  unstopped : r.stopping = false → current = some r.id ∧ r.recorder = .recording ∧ r.kept = true
  stopped : r.stopping = true → r.recorder ≠ .recording
  awaited : r.recorder = .stopping → current = some r.id ∨ mounted = false
  fate : r.kept = true ∨ r.intent = .discard
  capped : r.intent = .auto → r.hardStop = .expired

structure Good (s : Talk) : Prop where
  fine : ∀ r ∈ s.recordings, Fine s.mounted s.recRef r
  names : (s.recordings.map Recording.id).Nodup
  old : ∀ r ∈ s.recordings, r.id < s.fresh
  away : s.mounted = false → s.recRef = none ∧ ∀ p ∈ s.requests, p.kept = false
  uploads : ∀ r ∈ s.uploads, r.Held

theorem good_mount : Good Talk.mount := by
  constructor <;> simp [Talk.mount]

theorem Good.sound {s : Talk} (h : Good s) : Sound s := by
  refine ⟨?_, fun hidle r hr ↦ ?_, h.uploads⟩
  · -- the streams that are open are those of the current recording
    by_contra hmany
    have hdistinct := (List.filter_sublist (p := fun r : Recording ↦ r.streaming)
      (l := s.recordings)).map Recording.id |>.nodup h.names
    have hcurrent : ∀ r ∈ s.recordings.filter (fun r ↦ r.streaming), s.recRef = some r.id := by
      intro r hr
      obtain ⟨hr, hlive⟩ := List.mem_filter.mp hr
      exact (h.fine r hr).live hlive
    rcases hopen : s.recordings.filter (fun r ↦ r.streaming) with _ | ⟨r, _ | ⟨r', rest⟩⟩
    · simp [hopen] at hmany
    · simp [hopen] at hmany
    · rw [hopen] at hdistinct hcurrent
      have hsame : some r.id = some r'.id :=
        (hcurrent r (by simp)).symm.trans (hcurrent r' (by simp))
      simp_all
  · by_contra hlive
    have hcurrent := (h.fine r hr).live (by simpa using hlive)
    exact hidle (.inr (.inl (by simp [hcurrent])))

/-! ## One event -/

section

variable {s : Talk} {m : Bool} {current : Option ℕ} {r : Recording}

@[simp]
theorem Recorder.finish_ne (r : Recorder) : r.finish ≠ .recording := by
  cases r <;> simp [Recorder.finish]

@[simp]
theorem Timer.clear_ne (t : Timer) : t.clear ≠ .pending := by
  cases t <;> simp [Timer.clear]

theorem Timer.clear_eq_expired {t : Timer} (h : t = .expired) : t.clear = .expired := by
  rw [h]
  rfl

@[simp]
theorem Recording.stop_id (r : Recording) (intent : Intent) : (r.stop intent).id = r.id := by
  rw [Recording.stop]
  split <;> rfl

@[simp]
theorem Recording.letGo_id (r : Recording) : r.letGo.id = r.id := by
  rw [Recording.letGo]
  split <;> rfl

@[simp]
theorem Recording.letGo_stopping (r : Recording) : r.letGo.stopping = r.stopping := by
  rw [Recording.letGo]
  split <;> rfl

theorem Recording.stop_of_stopping (h : r.stopping = true) (intent : Intent) :
    r.stop intent = r := by
  simp [Recording.stop, h]

theorem Recording.letGo_of_stopping (h : r.stopping = true) : r.letGo = r := by
  simp [Recording.letGo, h]

theorem Recording.stopping_stop (r : Recording) (intent : Intent) :
    (r.stop intent).stopping = true := by
  rw [Recording.stop]
  split
  · assumption
  · rfl

/-- Stopping a recording leaves it fine, if its press stands or it is discarded. -/
theorem Fine.stop (h : Fine m current r) (intent : Intent)
    (hcap : r.stopping = false → intent = .auto → r.hardStop = .expired) :
    Fine m current (r.stop intent) := by
  by_cases hstopping : r.stopping = true
  · rwa [Recording.stop_of_stopping hstopping]
  · have hrunning : r.stopping = false := by simpa using hstopping
    obtain ⟨hcurrent, -, hkept⟩ := h.unstopped hrunning
    rw [Recording.stop, if_neg hstopping]
    constructor
    · exact h.live
    · exact h.timer
    · exact fun hoff ↦ by cases hoff
    · exact fun _ ↦ Recorder.finish_ne _
    · exact fun _ ↦ .inl hcurrent
    · exact .inl hkept
    · exact hcap hrunning

/-- A recording that is let go and discarded is fine. -/
theorem Fine.drop (h : Fine m current r) : Fine m current (r.letGo.stop .discard) := by
  by_cases hstopping : r.stopping = true
  · rwa [Recording.letGo_of_stopping hstopping, Recording.stop_of_stopping hstopping]
  · have hrunning : r.stopping = false := by simpa using hstopping
    obtain ⟨hcurrent, -, -⟩ := h.unstopped hrunning
    rw [Recording.letGo, if_neg hstopping, Recording.stop, if_neg hstopping]
    constructor
    · exact h.live
    · exact h.timer
    · exact fun hoff ↦ by cases hoff
    · exact fun _ ↦ Recorder.finish_ne _
    · exact fun _ ↦ .inl hcurrent
    · exact .inr rfl
    · exact fun hauto ↦ by cases hauto

/-- Where nothing is current, everything has been stopped. -/
theorem Fine.stopping_of_none (h : Fine m none r) : r.stopping = true := by
  by_contra hoff
  exact absurd (h.unstopped (by simpa using hoff)).1 (by simp)

/-- The hook knows the recordings that have not been stopped. -/
def Talk.Tracked (s : Talk) : Prop :=
  ∀ r ∈ s.recordings, r.stopping = false → s.recRef = some r.id

theorem Good.tracked (h : Good s) : s.Tracked :=
  fun r hr hrunning ↦ ((h.fine r hr).unstopped hrunning).1

/-- Stopping the current recording stops every recording. -/
theorem Talk.Tracked.stop_eq (h : s.Tracked) (intent : Intent) :
    s.stop intent = { s with recordings := s.recordings.map fun r ↦ r.stop intent } := by
  have hother (r : Recording) (hr : r ∈ s.recordings) (hne : s.recRef ≠ some r.id) :
      r.stop intent = r := by
    apply Recording.stop_of_stopping
    by_contra hoff
    exact hne (h r hr (by simpa using hoff))
  rw [Talk.stop]
  split
  · rename_i hcurrent
    have hsame : s.recordings.map (fun r ↦ r.stop intent) = s.recordings :=
      (List.map_congr_left (g := id) fun r hr ↦ hother r hr (by simp [hcurrent])).trans
        (List.map_id _)
    rw [hsame]
  · rename_i id hcurrent
    have hsame : s.recordings.map (fun r ↦ if r.id = id then r.stop intent else r) =
        s.recordings.map fun r ↦ r.stop intent := by
      refine List.map_congr_left fun r hr ↦ ?_
      split
      · rfl
      · rename_i hne
        exact (hother r hr (by rw [hcurrent]; simpa [eq_comm] using hne)).symm
    rw [Talk.modify, hsame]

theorem Talk.Tracked.letGo (h : s.Tracked) : s.letGo.Tracked := by
  intro r hr hrunning
  obtain ⟨r₀, hr₀, rfl⟩ := List.mem_map.mp hr
  rw [Recording.letGo_stopping] at hrunning
  rw [Recording.letGo_id]
  exact h r₀ hr₀ hrunning

/-- What `teardown` does: the current recording is released. -/
theorem teardown_eq (s : Talk) :
    s.teardown = { s with
      recordings := s.recordings.map fun r ↦ if s.recRef = some r.id then r.release else r
      recRef := none } := by
  rw [Talk.teardown]
  split
  · rename_i hcurrent
    simp only [hcurrent, reduceCtorEq, if_false, List.map_id']
    rw [← hcurrent]
  · rename_i id hcurrent
    simp only [hcurrent, Option.some.injEq, eq_comm (a := id), Talk.modify]

/-- A step that changes each recording by itself, keeping its name. -/
theorem Good.map (h : Good s) {s' : Talk} (f : Recording → Recording) (hid : ∀ r, (f r).id = r.id)
    (hrecordings : s'.recordings = s.recordings.map f) (hfresh : s.fresh ≤ s'.fresh)
    (hfine : ∀ r ∈ s.recordings, Fine s'.mounted s'.recRef (f r))
    (haway : s'.mounted = false → s'.recRef = none ∧ ∀ p ∈ s'.requests, p.kept = false)
    (huploads : ∀ r ∈ s'.uploads, r.Held) : Good s' := by
  constructor
  · intro r hr
    rw [hrecordings] at hr
    obtain ⟨r₀, hr₀, rfl⟩ := List.mem_map.mp hr
    exact hfine r₀ hr₀
  · have hnames : s'.recordings.map Recording.id = s.recordings.map Recording.id := by
      rw [hrecordings, List.map_map]
      exact List.map_congr_left fun r _ ↦ hid r
    rw [hnames]
    exact h.names
  · intro r hr
    rw [hrecordings] at hr
    obtain ⟨r₀, hr₀, rfl⟩ := List.mem_map.mp hr
    rw [hid]
    exact (h.old r₀ hr₀).trans_le hfresh
  · exact haway
  · exact huploads

theorem mem_letGo_requests {p : Request} (hp : p ∈ s.letGo.requests) : p.kept = false := by
  obtain ⟨p₀, -, rfl⟩ := List.mem_map.mp hp
  rfl

theorem Good.down (h : Good s) : Good s.onPointerDown := by
  rw [Talk.onPointerDown]
  split
  · rename_i hmounted
    rw [Talk.start]
    split
    · exact h
    · refine h.map id (fun _ ↦ rfl) (List.map_id _).symm (Nat.le_succ _) h.fine (fun hoff ↦ ?_)
        h.uploads
      exact absurd (hmounted.symm.trans hoff) (by decide)
  · exact h

/-- A release stops the recording it releases. -/
theorem Good.up (h : Good s) (hmeets : Meets s .up) : Good s.onPointerUp.letGo := by
  have haway : s.mounted = false → s.recRef = none ∧ ∀ p ∈ s.letGo.requests, p.kept = false :=
    fun hoff ↦ ⟨(h.away hoff).1, fun p hp ↦ mem_letGo_requests hp⟩
  by_cases hon : s.mounted = true ∧ s.rendered = .recording
  · rw [Talk.onPointerUp, if_pos hon, h.tracked.stop_eq]
    refine h.map (fun r ↦ r.stop .send) (fun r ↦ Recording.stop_id r _) ?_ le_rfl ?_ haway h.uploads
    · simp only [Talk.letGo, List.map_map]
      exact List.map_congr_left fun r _ ↦ Recording.letGo_of_stopping (Recording.stopping_stop r _)
    · exact fun r hr ↦ (h.fine r hr).stop .send fun _ hauto ↦ by cases hauto
  · rw [Talk.onPointerUp, if_neg hon]
    have hstopping (r : Recording) (hr : r ∈ s.recordings) : r.stopping = true := by
      by_contra hoff
      have hoff : r.stopping = false := by simpa using hoff
      have hcurrent := h.tracked r hr hoff
      refine hon ⟨?_, hmeets ⟨r, hr, hoff⟩⟩
      by_contra haway
      rw [(h.away (by simpa using haway)).1] at hcurrent
      cases hcurrent
    refine h.map id (fun _ ↦ rfl) ?_ le_rfl h.fine haway h.uploads
    exact List.map_congr_left fun r hr ↦ Recording.letGo_of_stopping (hstopping r hr)

/-- Letting go of the button discards the recording. -/
theorem Good.discarded (h : Good s) {s' : Talk}
    (hs' : s' = s.letGo.stop .discard ∨ s' = s.letGo ∧ ∀ r ∈ s.recordings, r.stopping = true) :
    Good s' ∧ s'.mounted = s.mounted ∧ s'.recRef = s.recRef := by
  have haway : s.mounted = false → s.recRef = none ∧ ∀ p ∈ s.letGo.requests, p.kept = false :=
    fun hoff ↦ ⟨(h.away hoff).1, fun p hp ↦ mem_letGo_requests hp⟩
  rcases hs' with rfl | ⟨rfl, hstopping⟩
  · rw [h.tracked.letGo.stop_eq]
    refine ⟨h.map (fun r ↦ r.letGo.stop .discard) (fun r ↦ ?_) ?_ le_rfl ?_ haway h.uploads,
      rfl, rfl⟩
    · rw [Recording.stop_id, Recording.letGo_id]
    · simp only [Talk.letGo, List.map_map]
      rfl
    · exact fun r hr ↦ (h.fine r hr).drop
  · refine ⟨h.map id (fun _ ↦ rfl) ?_ le_rfl h.fine haway h.uploads, rfl, rfl⟩
    exact List.map_congr_left fun r hr ↦ Recording.letGo_of_stopping (hstopping r hr)

theorem Good.stopping_of_unmounted (h : Good s) (haway : s.mounted = false) :
    ∀ r ∈ s.recordings, r.stopping = true := by
  intro r hr
  have hfine := h.fine r hr
  rw [(h.away haway).1] at hfine
  exact hfine.stopping_of_none

theorem Good.leave (h : Good s) (hmeets : Meets s .leave) : Good s.letGo.discardWithNudge := by
  refine (h.discarded ?_).1
  rw [Talk.discardWithNudge]
  split
  · exact .inl rfl
  · rename_i hoff
    refine .inr ⟨rfl, fun r hr ↦ ?_⟩
    by_contra hrunning
    refine hoff ⟨?_, hmeets ⟨r, hr, by simpa using hrunning⟩⟩
    by_contra haway
    have haway : s.mounted = false := by
      simpa using (show s.mounted ≠ true from haway)
    exact hrunning (h.stopping_of_unmounted haway r hr)

/-- A change of the status, and of nothing else that matters here. -/
theorem Good.of_status (h : Good s) (status : Status) : Good { s with status := status } :=
  ⟨h.fine, h.names, h.old, h.away, h.uploads⟩

theorem Good.hide (h : Good s) : Good s.letGo.onHide := by
  rw [Talk.onHide]
  split
  · exact (h.discarded (.inl rfl)).1.of_status .idle
  · rename_i hoff
    refine (h.discarded (.inr ⟨rfl, ?_⟩)).1
    by_cases hmounted : s.mounted = true
    · -- nothing is current
      have hnone : s.recRef = none := by
        have : s.recRef.isSome ≠ true := fun hsome ↦ hoff ⟨hmounted, hsome⟩
        simpa using this
      intro r hr
      have hfine := h.fine r hr
      rw [hnone] at hfine
      exact hfine.stopping_of_none
    · exact h.stopping_of_unmounted (by simpa using hmounted)

/-- Releasing the current recording, when all have been stopped, leaves nothing current. -/
theorem Fine.released {m' : Bool} (h : Fine m current r) (hstopping : r.stopping = true)
    (hpending : r.recorder = .stopping → m' = false) :
    Fine m' none (if current = some r.id then r.release else r) := by
  have hrecorder := h.stopped hstopping
  split
  · constructor
    · exact fun hlive ↦ by cases hlive
    · exact fun htimer ↦ absurd htimer (Timer.clear_ne _)
    · exact fun hoff ↦ absurd (hstopping.symm.trans hoff) (by decide)
    · exact fun _ ↦ Recorder.finish_ne _
    · intro hawaited
      refine .inr (hpending ?_)
      cases hr : r.recorder with
      | recording => exact absurd hr hrecorder
      | stopping => rfl
      | inactive => simp [Recording.release, Recording.endTracks, hr, Recorder.finish] at hawaited
    · exact h.fate
    · exact fun hauto ↦ Timer.clear_eq_expired (h.capped hauto)
  · rename_i hother
    constructor
    · exact fun hlive ↦ absurd (h.live hlive) hother
    · exact fun htimer ↦ absurd (h.timer htimer) hother
    · exact fun hoff ↦ absurd (hstopping.symm.trans hoff) (by decide)
    · exact h.stopped
    · exact fun hawaited ↦ .inr (hpending hawaited)
    · exact h.fate
    · exact h.capped

theorem released_id (current : Option ℕ) (r : Recording) :
    (if current = some r.id then r.release else r).id = r.id := by
  split <;> rfl

theorem Good.unmount (h : Good s) (hmeets : Meets s .unmount) : Good s.letGo.unmount := by
  have hgone := h.discarded (.inr ⟨rfl, hmeets⟩)
  rw [Talk.unmount]
  split
  · rw [teardown_eq]
    refine hgone.1.map (fun r ↦ if s.recRef = some r.id then r.release else r) (released_id _) rfl
      le_rfl (fun r hr ↦ ?_) (fun _ ↦ ⟨rfl, fun p hp ↦ mem_letGo_requests hp⟩) h.uploads
    have hstopping : r.stopping = true := by
      obtain ⟨r₀, hr₀, rfl⟩ := List.mem_map.mp hr
      rw [Recording.letGo_stopping]
      exact hmeets r₀ hr₀
    exact (hgone.1.fine r hr).released hstopping fun _ ↦ rfl
  · exact hgone.1

/-- The hard cap stops the recording whose timer it is. -/
theorem Good.expire (h : Good s) (id : ℕ) : Good (s.expire id) := by
  rw [Talk.expire]
  split
  · rename_i hany
    obtain ⟨r₀, hr₀, htimer⟩ := List.any_eq_true.mp hany
    obtain ⟨hid, hpending⟩ : r₀.id = id ∧ r₀.hardStop = .pending := by simpa using htimer
    have hcurrent : s.recRef = some id := hid ▸ (h.fine r₀ hr₀).timer hpending
    have htracked : (s.modify id fun r ↦ { r with hardStop := .expired }).Tracked := by
      intro r hr hrunning
      obtain ⟨r₁, hr₁, rfl⟩ := List.mem_map.mp hr
      dsimp only at hrunning ⊢
      split at hrunning
      · rename_i hsame
        rw [if_pos hsame]
        exact h.tracked r₁ hr₁ hrunning
      · rename_i hother
        rw [if_neg hother]
        exact h.tracked r₁ hr₁ hrunning
    have hexpired (r : Recording) (hr : r ∈ s.recordings) :
        Fine s.mounted s.recRef (if r.id = id then { r with hardStop := .expired } else r) := by
      have hfine := h.fine r hr
      split
      · constructor
        · exact hfine.live
        · exact fun htimer ↦ by cases htimer
        · exact hfine.unstopped
        · exact hfine.stopped
        · exact hfine.awaited
        · exact hfine.fate
        · exact fun _ ↦ rfl
      · exact hfine
    rw [htracked.stop_eq]
    refine h.map
      (fun r ↦ (if r.id = id then { r with hardStop := .expired } else r : Recording).stop .auto)
      (fun r ↦ ?_) ?_ le_rfl (fun r hr ↦ ?_) h.away h.uploads
    · rw [Recording.stop_id]
      split <;> rfl
    · simp only [Talk.modify, List.map_map]
      rfl
    · refine (hexpired r hr).stop .auto fun hrunning _ ↦ ?_
      split at hrunning
      · rename_i hsame
        rw [if_pos hsame]
      · rename_i hother
        have := h.tracked r hr hrunning
        rw [hcurrent] at this
        exact absurd (Option.some_injective _ this).symm hother
  · exact h

theorem Good.lose (h : Good s) {id : ℕ} (hmeets : Meets s (.lose id)) : Good (s.lose id) := by
  refine h.map (fun r ↦ if r.id = id then r.endTracks else r) (fun r ↦ ?_) rfl le_rfl
    (fun r hr ↦ ?_) h.away h.uploads
  · split <;> rfl
  · have hfine := h.fine r hr
    split
    · rename_i hid
      have hstopping := hmeets r hr hid
      constructor
      · exact fun hlive ↦ by cases hlive
      · exact hfine.timer
      · exact fun hrunning ↦ absurd (hstopping.symm.trans hrunning) (by decide)
      · exact fun _ ↦ Recorder.finish_ne _
      · refine fun hawaited ↦ hfine.awaited ?_
        cases hr : r.recorder with
        | recording => exact absurd hr (hfine.stopped hstopping)
        | stopping => rfl
        | inactive => simp [Recording.endTracks, hr, Recorder.finish] at hawaited
      · exact hfine.fate
      · exact hfine.capped
    · exact hfine

/-- A request that has been answered. -/
theorem Good.answered (h : Good s) (p : Request) :
    Good { s with requests := s.requests.erase p } :=
  ⟨h.fine, h.names, h.old,
    fun hoff ↦ ⟨(h.away hoff).1, fun q hq ↦ (h.away hoff).2 q (List.mem_of_mem_erase hq)⟩,
    h.uploads⟩

theorem Good.refuse (h : Good s) (id : ℕ) : Good (s.refuse id) := by
  rw [Talk.refuse]
  split
  · exact h
  · exact h.answered _

/-- A recording starts where nothing is recorded. -/
theorem Good.record (h : Good s) (hmounted : s.mounted = true) (hnone : s.recRef = none) :
    Good (s.record true) := by
  constructor
  · intro r hr
    rcases List.mem_append.mp hr with hr | hr
    · have hfine := h.fine r hr
      rw [hnone] at hfine
      have hstopping := hfine.stopping_of_none
      constructor
      · exact fun hlive ↦ by cases hfine.live hlive
      · exact fun htimer ↦ by cases hfine.timer htimer
      · exact fun hrunning ↦ absurd (hstopping.symm.trans hrunning) (by decide)
      · exact hfine.stopped
      · intro hawaited
        rcases hfine.awaited hawaited with hcurrent | haway
        · cases hcurrent
        · exact absurd (hmounted.symm.trans haway) (by decide)
      · exact hfine.fate
      · exact hfine.capped
    · rw [List.mem_singleton] at hr
      subst hr
      constructor
      · exact fun _ ↦ rfl
      · exact fun _ ↦ rfl
      · exact fun _ ↦ ⟨rfl, rfl, rfl⟩
      · exact fun hon ↦ by cases hon
      · exact fun hon ↦ by cases hon
      · exact .inl rfl
      · exact fun hon ↦ by cases hon
  · have hnew : ∀ n ∈ s.recordings.map Recording.id, n ≠ s.fresh := by
      intro n hn
      obtain ⟨r, hr, rfl⟩ := List.mem_map.mp hn
      exact (h.old r hr).ne
    rw [Talk.record, List.map_append]
    refine List.nodup_append.mpr ⟨h.names, List.nodup_singleton _, fun n hn n' hn' ↦ ?_⟩
    rw [List.map_singleton, List.mem_singleton] at hn'
    exact hn' ▸ hnew n hn
  · intro r hr
    rcases List.mem_append.mp hr with hr | hr
    · exact (h.old r hr).trans (Nat.lt_succ_self _)
    · rw [List.mem_singleton] at hr
      subst hr
      exact Nat.lt_succ_self _
  · exact fun hoff ↦ absurd (hmounted.symm.trans hoff) (by decide)
  · exact h.uploads

theorem Good.grant (h : Good s) {id : ℕ} (hmeets : Meets s (.grant id)) : Good (s.grant id) := by
  rw [Talk.grant]
  split
  · exact h
  · rename_i p hp
    have hmem := List.mem_of_find?_eq_some hp
    obtain ⟨hkept, hnone⟩ := hmeets p hmem (by simpa using List.find?_some hp)
    have hmounted : s.mounted = true := by
      by_contra haway
      have := (h.away (by simpa using haway)).2 p hmem
      exact absurd (hkept.symm.trans this) (by decide)
    rw [hkept]
    exact (h.answered p).record hmounted hnone

/-- The stop callback of a recording has run. -/
theorem Good.inactive (h : Good s) (id : ℕ) (hstopping : ∀ r ∈ s.recordings, r.stopping = true) :
    Good (s.modify id fun r ↦ { r with recorder := .inactive }) := by
  refine h.map (fun r ↦ if r.id = id then { r with recorder := .inactive } else r) (fun r ↦ ?_) rfl
    le_rfl (fun r hr ↦ ?_) h.away h.uploads
  · split <;> rfl
  · have hfine := h.fine r hr
    split
    · constructor
      · exact hfine.live
      · exact hfine.timer
      · exact fun hoff ↦ absurd ((hstopping r hr).symm.trans hoff) (by decide)
      · exact fun _ hon ↦ by cases hon
      · exact fun hon ↦ by cases hon
      · exact hfine.fate
      · exact hfine.capped
    · exact hfine

theorem Good.teardown (h : Good s) (hstopping : ∀ r ∈ s.recordings, r.stopping = true)
    (hpending : ∀ r ∈ s.recordings, r.recorder = .stopping → s.mounted = false) :
    Good s.teardown := by
  rw [teardown_eq]
  exact h.map (fun r ↦ if s.recRef = some r.id then r.release else r) (released_id _) rfl le_rfl
    (fun r hr ↦ (h.fine r hr).released (hstopping r hr) (hpending r hr))
    (fun hoff ↦ ⟨rfl, (h.away hoff).2⟩) h.uploads

/-- What the stop callback uploads was held. -/
theorem Good.onStop (h : Good s) (id : ℕ) (elapsed : ℚ) : Good (s.onStop id elapsed) := by
  rw [Talk.onStop]
  split
  · exact h
  · rename_i r₀ hfind
    have hmem := List.mem_of_find?_eq_some hfind
    obtain ⟨hid, hawaited⟩ : r₀.id = id ∧ r₀.recorder = .stopping := by
      simpa using List.find?_some hfind
    have hfine₀ := h.fine r₀ hmem
    -- the recording whose callback runs is the only one that could be running
    have hstopping (r : Recording) (hr : r ∈ s.recordings) : r.stopping = true := by
      by_contra hoff
      obtain ⟨hcurrent, hrecorder, -⟩ := (h.fine r hr).unstopped (by simpa using hoff)
      rcases hfine₀.awaited hawaited with hsame | haway
      · rw [hsame] at hcurrent
        have heq : r₀ = r := List.inj_on_of_nodup_map h.names hmem hr
          (Option.some_injective _ hcurrent)
        rw [← heq, hawaited] at hrecorder
        cases hrecorder
      · rw [(h.away haway).1] at hcurrent
        cases hcurrent
    have hafter : Good (s.modify id fun r ↦ { r with recorder := .inactive }).teardown := by
      refine (h.inactive id hstopping).teardown (fun r hr ↦ ?_) (fun r hr hr' ↦ ?_)
      · obtain ⟨r₁, hr₁, rfl⟩ := List.mem_map.mp hr
        dsimp only
        split <;> exact hstopping r₁ hr₁
      · obtain ⟨r₁, hr₁, rfl⟩ := List.mem_map.mp hr
        dsimp only at hr'
        split at hr'
        · cases hr'
        · rename_i hother
          rcases (h.fine r₁ hr₁).awaited hr' with hcurrent | haway
          · refine hfine₀.awaited hawaited |>.resolve_left fun hcurrent₀ ↦ ?_
            rw [hcurrent₀, hid] at hcurrent
            exact hother (Option.some_injective _ hcurrent).symm
          · exact haway
    dsimp only
    split
    · exact hafter.of_status .idle
    · rename_i hsent
      split
      · exact hafter.of_status .idle
      · refine ⟨hafter.fine, hafter.names, hafter.old, hafter.away, fun r hr ↦ ?_⟩
        rcases List.mem_append.mp hr with hr | hr
        · exact hafter.uploads r hr
        · rw [List.mem_singleton] at hr
          subst hr
          exact ⟨hstopping _ hmem, hfine₀.fate.resolve_right hsent, hfine₀.capped⟩

theorem Good.settle (h : Good s) (id : ℕ) : Good (s.settle id) := by
  rw [Talk.settle]
  split
  · exact ⟨h.fine, h.names, h.old, h.away, h.uploads⟩
  · exact h

/-- **An event that meets the condition leaves a good state good.** -/
theorem Good.step (h : Good s) (e : Event) (hmeets : Meets s e) : Good (step s e) := by
  cases e with
  | down => exact h.down
  | up => exact h.up hmeets
  | leave => exact h.leave hmeets
  | cancel => exact h.leave hmeets
  | grant id => exact h.grant hmeets
  | refuse id => exact h.refuse id
  | hide => exact h.hide
  | expire id => exact h.expire id
  | lose id => exact h.lose hmeets
  | onStop id elapsed => exact h.onStop id elapsed
  | settle id => exact h.settle id
  | render => exact ⟨h.fine, h.names, h.old, h.away, h.uploads⟩
  | unmount => exact h.unmount hmeets

theorem Good.run (h : Good s) (events past : List Event) (hregular : Regular s events)
    (hpast : past <+: events) : Good (run s past) := by
  induction events generalizing s past with
  | nil => rwa [List.prefix_nil.mp hpast]
  | cons e events ih =>
    cases past with
    | nil => exact h
    | cons e' past =>
      obtain ⟨rfl, hrest⟩ := List.cons_prefix_cons.mp hpast
      exact ih (h.step e' hregular.1) past hregular.2 hrest

end

/-- **Holding to talk is safe in every state of every run** in which permissions come to presses
that still stand, while nothing is recorded; releases find the recording rendered; and the page is
left, or the microphone lost, only when the recording has been stopped. -/
theorem recorder_sound (events past : List Event) (hregular : Regular Talk.mount events)
    (hpast : past <+: events) : Sound (run Talk.mount past) :=
  (good_mount.run events past hregular hpast).sound

/-- A press of two and a half seconds, and what follows it. -/
def pressed : List Event :=
  [.down, .grant 0, .render, .up, .onStop 1 2500, .render, .settle 1, .render, .unmount]

theorem recorder_sound_pressed :
    (run Talk.mount pressed).uploads.length = 1 ∧ Sound (run Talk.mount pressed) :=
  ⟨by decide, recorder_sound pressed pressed (by decide) (List.prefix_refl _)⟩

/-- Two presses before the permission open two streams; a press that was released before the
permission is uploaded at the hard cap; and so is one that the user left the page in. -/
theorem offending_runs :
    ¬ Sound (run Talk.mount [.down, .down, .grant 0, .grant 1]) ∧
    ¬ Sound (run Talk.mount [.down, .up, .grant 0, .render, .expire 1, .onStop 1 8000]) ∧
    ¬ Sound (run Talk.mount [.down, .grant 0, .render, .unmount, .onStop 1 2500]) := by
  refine ⟨fun h ↦ ?_, fun h ↦ ?_, fun h ↦ ?_⟩
  · exact absurd h.one_stream (by decide)
  · exact absurd (fun r hr ↦ (h.uploads r hr).2.1) (by decide)
  · exact absurd (fun r hr ↦ (h.uploads r hr).1) (by decide)

end Neva.HoldToTalk
