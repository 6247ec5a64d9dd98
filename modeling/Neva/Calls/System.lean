import Neva.Calls.Prog
import Mathlib.Data.List.Basic
import Mathlib.Tactic.Common

/-!
# Systems of interleaved programs

`Calls.System` says what the calls of an interface do to a shared state, which program answers
each kind of request, and from which states the system may start.  Two semantics come with it.

* **Interleaved** (`System.fire`, `System.Reach`).  Any number of requests may be in flight.  One
  event is the arrival of a request, one call of one of the programs in flight, a call that raises
  without having done anything, or the death of a program between two of its calls.  Calls are
  atomic; nothing is assumed about the order of events.
* **Serial** (`System.Serial`).  Each request runs to its end before the next one arrives.

What a call reads from outside the shared state — the clock, a random draw, a fresh identifier —
is the `ι` it is handed, chosen anew by the environment for each call among the values `admits`
allows.

A `World` also records the calls that have been answered, newest first, and which request each
program serves.  Neither is read by any program; they are there to be talked about.

`Terms` restrict a run: `may` says which calls may be made and `lose` when a call may fail or a
program may die.  `System.Reachable` puts no restriction at all.
-/

set_option autoImplicit false

namespace Calls

/-- A call together with its answer. -/
structure Past (Op : Type → Type) (ε : Type) : Type 1 where
  {β : Type}
  /-- The call. -/
  op : Op β
  /-- What it answered. -/
  answer : Except ε β

/-- The shared state, with what has happened so far. -/
structure World (Op : Type → Type) (ε ρ σ : Type) : Type 1 where
  /-- The shared state. -/
  state : σ
  /-- The calls answered so far, newest first, with the number of the program that made them. -/
  trace : List (ℕ × Past Op ε)
  /-- The requests that have arrived; the number of a program is its position here. -/
  requests : List ρ

/-- A program in flight, or one that died before its end. -/
inductive Thread (Op : Type → Type) (ε α : Type) : Type 1
  | live (p : Prog Op ε α)
  | dead

/-- There are calls left to make. -/
def Thread.running {Op : Type → Type} {ε α : Type} : Thread Op ε α → Bool
  | .live (.call _ _) => true
  | _ => false

/-- Reading a list one entry of which has been replaced. -/
theorem getElem?_set_cases {γ : Type*} {l : List γ} {i j : ℕ} {x t : γ}
    (h : (l.set i x)[j]? = some t) : (j = i ∧ t = x) ∨ (j ≠ i ∧ l[j]? = some t) := by
  rw [List.getElem?_set] at h
  split at h
  · rename_i hij
    split at h
    · exact .inl ⟨hij.symm, (Option.some.inj h).symm⟩
    · cases h
  · rename_i hij
    exact .inr ⟨fun h' ↦ hij h'.symm, h⟩

/-- A configuration: the world, and what is left to run of each program. -/
structure Config (Op : Type → Type) (ε ρ σ α : Type) : Type 1 where
  world : World Op ε ρ σ
  threads : List (Thread Op ε α)

/-- Nothing is left to run. -/
def Config.quiet {Op : Type → Type} {ε ρ σ α : Type} (c : Config Op ε ρ σ α) : Bool :=
  c.threads.all fun t ↦ !t.running

theorem Config.running_of_quiet {Op : Type → Type} {ε ρ σ α : Type} {c : Config Op ε ρ σ α}
    (h : c.quiet = true) {i : ℕ} {t : Thread Op ε α} (ht : c.threads[i]? = some t) :
    t.running = false := by
  have hq := List.all_eq_true.mp h t (List.mem_of_getElem? ht)
  rw [Bool.not_eq_true'] at hq
  exact hq

/-- What can happen next. -/
inductive Event (ρ ι ε : Type)
  /-- A request arrives. -/
  | spawn (r : ρ)
  /-- Program `i` makes its next call. -/
  | step (i : ℕ) (d : ι)
  /-- The next call of program `i` raises `e`, having done nothing. -/
  | fault (i : ℕ) (e : ε)
  /-- Program `i` dies before its next call. -/
  | kill (i : ℕ)

/-- What the calls do, what the requests run, and where it starts. -/
structure System (Op : Type → Type) (ε ι σ ρ α : Type) : Type 1 where
  /-- What a call answers and what it leaves behind. -/
  exec {β : Type} : ι → Op β → σ → Except ε β × σ
  /-- What a call may be handed in a given state. -/
  admits : ι → σ → Bool
  /-- The program a request runs. -/
  body : ρ → Prog Op ε α
  /-- The states the system may start in. -/
  init : σ → Prop

variable {Op : Type → Type} {ε ι σ ρ α : Type}

namespace World

/-- The world after a request has arrived. -/
def spawned (w : World Op ε ρ σ) (r : ρ) : World Op ε ρ σ :=
  { w with requests := w.requests ++ [r] }

@[simp] theorem spawned_state (w : World Op ε ρ σ) (r : ρ) : (w.spawned r).state = w.state := rfl
@[simp] theorem spawned_trace (w : World Op ε ρ σ) (r : ρ) : (w.spawned r).trace = w.trace := rfl

theorem getElem?_spawned {w : World Op ε ρ σ} {i : ℕ} {r : ρ} (h : w.requests[i]? = some r)
    (r' : ρ) : (w.spawned r').requests[i]? = some r := by
  have hi : i < w.requests.length := (List.getElem?_eq_some_iff.mp h).1
  rw [spawned, List.getElem?_append_left hi, h]

end World

namespace System

variable (S : System Op ε ι σ ρ α)

/-- The world after program `i` has made the call `op`. -/
def after (i : ℕ) {β : Type} (op : Op β) (d : ι) (w : World Op ε ρ σ) : World Op ε ρ σ where
  state := (S.exec d op w.state).2
  trace := (i, ⟨op, (S.exec d op w.state).1⟩) :: w.trace
  requests := w.requests

@[simp] theorem after_requests (i : ℕ) {β : Type} (op : Op β) (d : ι) (w : World Op ε ρ σ) :
    (S.after i op d w).requests = w.requests := rfl

@[simp] theorem after_state (i : ℕ) {β : Type} (op : Op β) (d : ι) (w : World Op ε ρ σ) :
    (S.after i op d w).state = (S.exec d op w.state).2 := rfl

@[simp] theorem after_trace (i : ℕ) {β : Type} (op : Op β) (d : ι) (w : World Op ε ρ σ) :
    (S.after i op d w).trace = (i, ⟨op, (S.exec d op w.state).1⟩) :: w.trace := rfl

/-! ## The interleaved semantics -/

/-- One event, if it can happen. -/
def fire (c : Config Op ε ρ σ α) : Event ρ ι ε → Option (Config Op ε ρ σ α)
  | .spawn r => some ⟨c.world.spawned r, c.threads ++ [.live (S.body r)]⟩
  | .step i d =>
    match c.threads[i]? with
    | some (.live (.call op k)) =>
      if S.admits d c.world.state then
        some ⟨S.after i op d c.world,
          c.threads.set i (.live (k (S.exec d op c.world.state).1))⟩
      else none
    | _ => none
  | .fault i e =>
    match c.threads[i]? with
    | some (.live (.call _ k)) => some ⟨c.world, c.threads.set i (.live (k (.error e)))⟩
    | _ => none
  | .kill i =>
    match c.threads[i]? with
    | some (.live (.call _ _)) => some ⟨c.world, c.threads.set i .dead⟩
    | _ => none

/-- Several events in a row, if they can all happen. -/
def run (c : Config Op ε ρ σ α) (es : List (Event ρ ι ε)) : Option (Config Op ε ρ σ α) :=
  es.foldlM S.fire c

/-- The configuration before the first request. -/
def start (s : σ) : Config Op ε ρ σ α := ⟨⟨s, [], []⟩, []⟩

end System

/-- What a run is restricted to. -/
structure Terms (Op : Type → Type) (ε ι ρ σ : Type) : Type 1 where
  /-- The calls program `i` may make. -/
  may {β : Type} : ℕ → Op β → ι → World Op ε ρ σ → Prop
  /-- When a call of program `i` may fail, or program `i` die. -/
  lose : ℕ → World Op ε ρ σ → Prop

namespace Terms

/-- No restriction. -/
def any : Terms Op ε ι ρ σ := ⟨fun _ _ _ _ ↦ True, fun _ _ ↦ True⟩

/-- An event a run on these terms may contain. -/
def Allows (T : Terms Op ε ι ρ σ) (c : Config Op ε ρ σ α) : Event ρ ι ε → Prop
  | .spawn _ => True
  | .step i d => ∀ (β : Type) (op : Op β) (k : Except ε β → Prog Op ε α),
      c.threads[i]? = some (.live (.call op k)) → T.may i op d c.world
  | .fault i _ => T.lose i c.world
  | .kill i => T.lose i c.world

theorem any_allows (c : Config Op ε ρ σ α) (e : Event ρ ι ε) :
    (any : Terms Op ε ι ρ σ).Allows c e := by
  cases e with
  | spawn r => trivial
  | step i d => exact fun _ _ _ _ ↦ trivial
  | fault i e => trivial
  | kill i => trivial

/-- The terms let the event through, where they can be decided. -/
def permits (T : Terms Op ε ι ρ σ)
    [∀ (β : Type) (i : ℕ) (op : Op β) (d : ι) (w : World Op ε ρ σ), Decidable (T.may i op d w)]
    [∀ (i : ℕ) (w : World Op ε ρ σ), Decidable (T.lose i w)] (c : Config Op ε ρ σ α) :
    Event ρ ι ε → Bool
  | .spawn _ => true
  | .step i d =>
    match c.threads[i]? with
    | some (.live (.call op _)) => decide (T.may i op d c.world)
    | _ => false
  | .fault i _ => decide (T.lose i c.world)
  | .kill i => decide (T.lose i c.world)

theorem allows_of_permits (T : Terms Op ε ι ρ σ)
    [∀ (β : Type) (i : ℕ) (op : Op β) (d : ι) (w : World Op ε ρ σ), Decidable (T.may i op d w)]
    [∀ (i : ℕ) (w : World Op ε ρ σ), Decidable (T.lose i w)] (c : Config Op ε ρ σ α)
    (e : Event ρ ι ε) (h : T.permits c e = true) : T.Allows c e := by
  match e with
  | .spawn r => trivial
  | .step i d =>
    intro β op k ht
    rw [permits, ht] at h
    exact @of_decide_eq_true (T.may i op d c.world) _ h
  | .fault i e => exact @of_decide_eq_true (T.lose i c.world) _ h
  | .kill i => exact @of_decide_eq_true (T.lose i c.world) _ h

end Terms

namespace System

variable (S : System Op ε ι σ ρ α)

/-- The configurations a run on the terms `T` reaches. -/
inductive Reach (T : Terms Op ε ι ρ σ) : Config Op ε ρ σ α → Prop
  | start {s : σ} (hs : S.init s) : Reach T (start s)
  | fire {c c' : Config Op ε ρ σ α} {e : Event ρ ι ε} (h : Reach T c) (ha : T.Allows c e)
      (he : S.fire c e = some c') : Reach T c'

/-- The configurations some run reaches. -/
abbrev Reachable (c : Config Op ε ρ σ α) : Prop := S.Reach Terms.any c

/-- `c'` is reached from `c` by events that satisfy `P` where they happen. -/
inductive Leads (P : Config Op ε ρ σ α → Event ρ ι ε → Prop) :
    Config Op ε ρ σ α → Config Op ε ρ σ α → Prop
  | refl (c : Config Op ε ρ σ α) : Leads P c c
  | fire {c c' c'' : Config Op ε ρ σ α} {e : Event ρ ι ε} (h : Leads P c c') (hp : P c' e)
      (he : S.fire c' e = some c'') : Leads P c c''

variable {S}

theorem reachable_of_run {c c' : Config Op ε ρ σ α} {es : List (Event ρ ι ε)}
    (hc : S.Reachable c) (h : S.run c es = some c') : S.Reachable c' := by
  induction es generalizing c with
  | nil =>
    rw [run, List.foldlM_nil] at h
    cases h
    exact hc
  | cons e es ih =>
    rw [run, List.foldlM_cons] at h
    cases he : S.fire c e with
    | none => rw [he] at h; cases h
    | some c₁ =>
      rw [he] at h
      exact ih (hc.fire (Terms.any_allows c e) he) h

/-- A run that ends in a configuration passing a check reaches such a configuration. -/
theorem exists_reachable_of_run {s : σ} (hs : S.init s) {es : List (Event ρ ι ε)}
    {check : Config Op ε ρ σ α → Bool} (h : (S.run (start s) es).map check = some true) :
    ∃ c, S.Reachable c ∧ check c = true := by
  obtain ⟨c, hc, hcheck⟩ := Option.map_eq_some_iff.mp h
  exact ⟨c, reachable_of_run (.start hs) hc, hcheck⟩

variable (S) in
/-- Several events in a row, each of which `permits` lets through. -/
def runOn (permits : Config Op ε ρ σ α → Event ρ ι ε → Bool) (c : Config Op ε ρ σ α)
    (es : List (Event ρ ι ε)) : Option (Config Op ε ρ σ α) :=
  es.foldlM (fun c e ↦ if permits c e then S.fire c e else none) c

/-- A run each of whose events the terms let through stays on them. -/
theorem reach_of_runOn {T : Terms Op ε ι ρ σ} {permits : Config Op ε ρ σ α → Event ρ ι ε → Bool}
    (hp : ∀ c e, permits c e = true → T.Allows c e) {c c' : Config Op ε ρ σ α}
    {es : List (Event ρ ι ε)} (hc : S.Reach T c) (h : S.runOn permits c es = some c') :
    S.Reach T c' := by
  induction es generalizing c with
  | nil =>
    rw [runOn, List.foldlM_nil] at h
    cases h
    exact hc
  | cons e es ih =>
    rw [runOn, List.foldlM_cons] at h
    split at h
    · rename_i hpe
      cases he : S.fire c e with
      | none => rw [he] at h; cases h
      | some c₁ =>
        rw [he] at h
        exact ih (hc.fire (hp c e hpe) he) h
    · cases h

/-- A run each of whose events a test lets through. -/
theorem leads_of_runOn {P : Config Op ε ρ σ α → Event ρ ι ε → Prop}
    {permits : Config Op ε ρ σ α → Event ρ ι ε → Bool} (hp : ∀ c e, permits c e = true → P c e)
    {c c' c'' : Config Op ε ρ σ α} {es : List (Event ρ ι ε)} (hc : S.Leads P c c')
    (h : S.runOn permits c' es = some c'') : S.Leads P c c'' := by
  induction es generalizing c' with
  | nil =>
    rw [runOn, List.foldlM_nil] at h
    cases h
    exact hc
  | cons e es ih =>
    rw [runOn, List.foldlM_cons] at h
    split at h
    · rename_i hpe
      cases he : S.fire c' e with
      | none => rw [he] at h; cases h
      | some c₁ =>
        rw [he] at h
        exact ih (hc.fire (hp c' e hpe) he) h
    · cases h

/-- A permitted run that ends in a configuration passing a check. -/
theorem exists_reach_of_runOn {T : Terms Op ε ι ρ σ}
    {permits : Config Op ε ρ σ α → Event ρ ι ε → Bool}
    (hp : ∀ c e, permits c e = true → T.Allows c e) {s : σ} (hs : S.init s)
    {es : List (Event ρ ι ε)} {check : Config Op ε ρ σ α → Bool}
    (h : (S.runOn permits (start s) es).map check = some true) :
    ∃ c, S.Reach T c ∧ check c = true := by
  obtain ⟨c, hc, hcheck⟩ := Option.map_eq_some_iff.mp h
  exact ⟨c, reach_of_runOn hp (.start hs) hc, hcheck⟩

/-! ## What one event does -/

/-- The three things an event can do to the world. -/
inductive Moves (S : System Op ε ι σ ρ α) (T : Terms Op ε ι ρ σ) (c : Config Op ε ρ σ α) :
    World Op ε ρ σ → Prop
  | idle : Moves S T c c.world
  | spawned (r : ρ) : Moves S T c (c.world.spawned r)
  | called {i : ℕ} {β : Type} {op : Op β} {k : Except ε β → Prog Op ε α} {d : ι}
      (ht : c.threads[i]? = some (.live (.call op k))) (hm : T.may i op d c.world)
      (hd : S.admits d c.world.state = true) : Moves S T c (S.after i op d c.world)

/-- The thread a `step`, `fault` or `kill` finds, when it can happen. -/
theorem fire_step {c c' : Config Op ε ρ σ α} {i : ℕ} {d : ι}
    (h : S.fire c (.step i d) = some c') :
    ∃ (β : Type) (op : Op β) (k : Except ε β → Prog Op ε α),
      c.threads[i]? = some (.live (.call op k)) ∧ S.admits d c.world.state = true ∧
        c' = ⟨S.after i op d c.world,
          c.threads.set i (.live (k (S.exec d op c.world.state).1))⟩ := by
  rw [fire] at h
  split at h
  · rename_i β op k ht
    split at h
    · rename_i hd
      exact ⟨β, op, k, ht, hd, (Option.some.inj h).symm⟩
    · cases h
  · cases h

/-- A call that may be handed `d` is made. -/
theorem fire_of_thread {c : Config Op ε ρ σ α} {i : ℕ} {d : ι} {β : Type} {op : Op β}
    {k : Except ε β → Prog Op ε α} (ht : c.threads[i]? = some (.live (.call op k)))
    (hd : S.admits d c.world.state = true) : S.fire c (.step i d) =
      some ⟨S.after i op d c.world, c.threads.set i (.live (k (S.exec d op c.world.state).1))⟩ := by
  rw [fire, ht]
  exact if_pos hd

theorem fire_fault {c c' : Config Op ε ρ σ α} {i : ℕ} {e : ε}
    (h : S.fire c (.fault i e) = some c') :
    ∃ (β : Type) (op : Op β) (k : Except ε β → Prog Op ε α),
      c.threads[i]? = some (.live (.call op k)) ∧
        c' = ⟨c.world, c.threads.set i (.live (k (.error e)))⟩ := by
  rw [fire] at h
  split at h
  · rename_i β op k ht
    exact ⟨β, op, k, ht, (Option.some.inj h).symm⟩
  · cases h

theorem fire_kill {c c' : Config Op ε ρ σ α} {i : ℕ} (h : S.fire c (.kill i) = some c') :
    ∃ (β : Type) (op : Op β) (k : Except ε β → Prog Op ε α),
      c.threads[i]? = some (.live (.call op k)) ∧ c' = ⟨c.world, c.threads.set i .dead⟩ := by
  rw [fire] at h
  split at h
  · rename_i β op k ht
    exact ⟨β, op, k, ht, (Option.some.inj h).symm⟩
  · cases h

theorem moves_of_fire {T : Terms Op ε ι ρ σ} {c c' : Config Op ε ρ σ α} {e : Event ρ ι ε}
    (ha : T.Allows c e) (h : S.fire c e = some c') : Moves S T c c'.world := by
  cases e with
  | spawn r => cases h; exact .spawned r
  | step i d =>
    obtain ⟨β, op, k, ht, hd, rfl⟩ := fire_step h
    exact .called ht (ha β op k ht) hd
  | fault i e =>
    obtain ⟨β, op, k, ht, rfl⟩ := fire_fault h
    exact .idle
  | kill i =>
    obtain ⟨β, op, k, ht, rfl⟩ := fire_kill h
    exact .idle

/-- Terms that look at calls only, and at each call exactly for what it does to the world, are right
about every event. -/
theorem iff_allows_of_fire {T : Terms Op ε ι ρ σ} {R : World Op ε ρ σ → Prop}
    {c c' : Config Op ε ρ σ α} {e : Event ρ ι ε} (he : S.fire c e = some c')
    (hlose : ∀ i w, T.lose i w) (hidle : R c.world) (hspawn : ∀ r, R (c.world.spawned r))
    (hcall : ∀ (i : ℕ) (β : Type) (op : Op β) (k : Except ε β → Prog Op ε α) (d : ι),
      c.threads[i]? = some (.live (.call op k)) → S.admits d c.world.state = true →
        (R (S.after i op d c.world) ↔ T.may i op d c.world)) :
    R c'.world ↔ T.Allows c e := by
  cases e with
  | spawn r =>
    cases he
    exact iff_of_true (hspawn r) trivial
  | step i d =>
    obtain ⟨β, op, k, ht, hd, rfl⟩ := fire_step he
    refine (hcall i β op k d ht hd).trans ⟨fun hm β' op' k' ht' ↦ ?_, fun ha ↦ ha β op k ht⟩
    rw [ht] at ht'
    cases ht'
    exact hm
  | fault i e =>
    obtain ⟨β, op, k, ht, rfl⟩ := fire_fault he
    exact iff_of_true hidle (hlose i _)
  | kill i =>
    obtain ⟨β, op, k, ht, rfl⟩ := fire_kill he
    exact iff_of_true hidle (hlose i _)

/-- Fewer restrictions, more runs. -/
theorem Reach.mono {T T' : Terms Op ε ι ρ σ}
    (hm : ∀ {β : Type} (i : ℕ) (op : Op β) (d : ι) (w : World Op ε ρ σ),
      T.may i op d w → T'.may i op d w)
    (hl : ∀ i w, T.lose i w → T'.lose i w) {c : Config Op ε ρ σ α} (h : S.Reach T c) :
    S.Reach T' c := by
  induction h with
  | start hs => exact .start hs
  | @fire c c' e _ ha he ih =>
    refine .fire ih ?_ he
    cases e with
    | spawn r => trivial
    | step i d => exact fun β op k ht ↦ hm i op d c.world (ha β op k ht)
    | fault i e => exact hl i c.world ha
    | kill i => exact hl i c.world ha

/-- What follows a reachable configuration is reachable. -/
theorem Leads.reachable {P : Config Op ε ρ σ α → Event ρ ι ε → Prop} {c c' : Config Op ε ρ σ α}
    (h : S.Leads P c c') (hc : S.Reachable c) : S.Reachable c' := by
  induction h with
  | refl => exact hc
  | fire _ _ he ih => exact ih.fire (Terms.any_allows _ _) he

theorem Reach.reachable {T : Terms Op ε ι ρ σ} {c : Config Op ε ρ σ α} (h : S.Reach T c) :
    S.Reachable c :=
  h.mono (fun _ _ _ _ _ ↦ trivial) fun _ _ _ ↦ trivial

/-- **An invariant of the shared state that every call keeps holds in every reachable
configuration**, whatever the programs are. -/
theorem Reach.state_inv {T : Terms Op ε ι ρ σ} {I : World Op ε ρ σ → Prop}
    (hinit : ∀ s, S.init s → I ⟨s, [], []⟩) (hspawn : ∀ w r, I w → I (w.spawned r))
    (hcall : ∀ (i : ℕ) {β : Type} (op : Op β) (d : ι) (w : World Op ε ρ σ), I w →
      T.may i op d w → S.admits d w.state = true → I (S.after i op d w))
    {c : Config Op ε ρ σ α} (h : S.Reach T c) : I c.world := by
  induction h with
  | start hs => exact hinit _ hs
  | @fire c c' e _ ha he ih =>
    have hmv := moves_of_fire ha he
    generalize c'.world = w' at hmv
    cases hmv with
    | idle => exact ih
    | spawned r => exact hspawn _ r ih
    | called ht hm hd => exact hcall _ _ _ _ ih hm hd

/-! ## The serial semantics -/

variable (S) in
/-- Program `p`, run alone from `s`, ends with `r` and leaves `s'`. -/
inductive Alone : σ → Prog Op ε α → Except ε α → σ → Prop
  | done (s : σ) (r : Except ε α) : Alone s (.done r) r s
  | call {s s' : σ} {β : Type} {op : Op β} {k : Except ε β → Prog Op ε α} {d : ι}
      {r : Except ε α} (hd : S.admits d s = true)
      (h : Alone (S.exec d op s).2 (k (S.exec d op s).1) r s') : Alone s (.call op k) r s'

variable (S) in
/-- The states reached by requests satisfying `P` that run one at a time to their end. -/
inductive Serial (P : ρ → Prop) : σ → Prop
  | start {s : σ} (hs : S.init s) : Serial P s
  | request {s s' : σ} {q : ρ} {r : Except ε α} (h : Serial P s) (hq : P q)
      (ha : S.Alone s (S.body q) r s') : Serial P s'

variable (S) in
/-- However its calls turn out, `p` run alone from `s` ends in a state satisfying `Q`. -/
def Ensures (Q : Except ε α → σ → Prop) : Prog Op ε α → σ → Prop
  | .done r, s => Q r s
  | .call op k, s => ∀ d, S.admits d s = true →
      Ensures Q (k (S.exec d op s).1) (S.exec d op s).2

theorem Ensures.sound {Q : Except ε α → σ → Prop} {p : Prog Op ε α} {s s' : σ}
    {r : Except ε α} (h : S.Ensures Q p s) (ha : S.Alone s p r s') : Q r s' := by
  induction ha with
  | done s r => exact h
  | call hd _ ih => exact ih (h _ hd)

/-- A state property every request keeps holds after any number of them. -/
theorem Serial.inv {P : ρ → Prop} {I : σ → Prop} (hinit : ∀ s, S.init s → I s)
    (hbody : ∀ q s, P q → I s → S.Ensures (fun _ s' ↦ I s') (S.body q) s) {s : σ}
    (h : S.Serial P s) : I s := by
  induction h with
  | start hs => exact hinit _ hs
  | request _ hq ha ih => exact (hbody _ _ hq ih).sound ha

variable (S) in
/-- Run a program alone on the given draws, one for each call. -/
def playAlone : List ι → Prog Op ε α → σ → Option σ
  | _, .done _, s => some s
  | [], .call _ _, _ => none
  | d :: ds, .call op k, s =>
    if S.admits d s then playAlone ds (k (S.exec d op s).1) (S.exec d op s).2 else none

theorem alone_of_playAlone {ds : List ι} {p : Prog Op ε α} {s s' : σ}
    (h : S.playAlone ds p s = some s') : ∃ r, S.Alone s p r s' := by
  induction ds generalizing p s with
  | nil =>
    cases p with
    | done r =>
      cases h
      exact ⟨r, .done _ r⟩
    | call op k => cases h
  | cons d ds ih =>
    cases p with
    | done r =>
      cases h
      exact ⟨r, .done _ r⟩
    | call op k =>
      rw [playAlone] at h
      split at h
      · rename_i hd
        obtain ⟨r, hr⟩ := ih h
        exact ⟨r, .call hd hr⟩
      · cases h

variable (S) in
/-- Run requests one at a time. -/
def play (s : σ) (qs : List (ρ × List ι)) : Option σ :=
  qs.foldlM (fun s q ↦ S.playAlone q.2 (S.body q.1) s) s

theorem serial_of_play {P : ρ → Prop} {s s' : σ} (hs : S.Serial P s) {qs : List (ρ × List ι)}
    (hqs : ∀ q ∈ qs, P q.1) (h : S.play s qs = some s') : S.Serial P s' := by
  induction qs generalizing s with
  | nil =>
    rw [play, List.foldlM_nil] at h
    cases h
    exact hs
  | cons q qs ih =>
    rw [play, List.foldlM_cons] at h
    cases hq : S.playAlone q.2 (S.body q.1) s with
    | none => rw [hq] at h; cases h
    | some s₁ =>
      rw [hq] at h
      obtain ⟨r, hr⟩ := alone_of_playAlone hq
      exact ih (hs.request (hqs q List.mem_cons_self) hr)
        (fun q' hq' ↦ hqs q' (List.mem_cons_of_mem _ hq')) h

/-- The first call of a program, run alone. -/
theorem ensures_perform {β : Type} {Q : Except ε α → σ → Prop} {op : Op β}
    {f : β → Prog Op ε α} {s : σ}
    (herr : ∀ d e, S.admits d s = true → (S.exec d op s).1 = .error e →
      Q (.error e) (S.exec d op s).2)
    (hok : ∀ d b, S.admits d s = true → (S.exec d op s).1 = .ok b →
      S.Ensures Q (f b) (S.exec d op s).2) :
    S.Ensures Q (Prog.perform op >>= f) s := by
  rw [Prog.perform_bind]
  intro d hd
  cases hr : (S.exec d op s).1 with
  | ok b => exact hok d b hd hr
  | error e => exact herr d e hd hr

end System

end Calls
