import Mathlib.Algebra.BigOperators.Fin
import Neva.Calls.Always

/-!
# What one program of many has called

In a system of interleaved programs, the calls of one program are a part of the trace,
`callsOf i`.  Whatever the other programs did in between, that part is a history the program could
have had alone, so what `Prog.Always` says of a program holds of it in every run (`Reach.history`).

`Prog.Returns R` is the case in which nothing is said about a program that raises: if it returns
`a`, having made the calls `h`, then `R h a`.  `Reach.returned` carries that over to runs.

A count over the whole trace is the sum of the counts over the programs (`countP_trace`).
-/

set_option autoImplicit false

namespace Calls

variable {Op : Type → Type} {ε ι σ ρ α : Type}

/-- The calls of program `i`, newest first. -/
def callsOf (i : ℕ) (trace : List (ℕ × Past Op ε)) : List (Past Op ε) :=
  trace.filterMap fun t ↦ if t.1 = i then some t.2 else none

theorem callsOf_cons_self (i : ℕ) (p : Past Op ε) (trace : List (ℕ × Past Op ε)) :
    callsOf i ((i, p) :: trace) = p :: callsOf i trace := by
  simp [callsOf]

theorem callsOf_cons_of_ne {i j : ℕ} (hne : j ≠ i) (p : Past Op ε)
    (trace : List (ℕ × Past Op ε)) : callsOf i ((j, p) :: trace) = callsOf i trace := by
  simp [callsOf, hne]

theorem callsOf_eq_nil {i : ℕ} {trace : List (ℕ × Past Op ε)} (h : ∀ t ∈ trace, t.1 ≠ i) :
    callsOf i trace = [] := by
  rw [callsOf, List.filterMap_eq_nil_iff]
  intro t ht
  rw [if_neg (h t ht)]

/-- A count over the trace is the sum of the counts over the programs. -/
theorem countP_trace {n : ℕ} {trace : List (ℕ × Past Op ε)} (h : ∀ t ∈ trace, t.1 < n)
    (q : Past Op ε → Bool) :
    trace.countP (fun t ↦ q t.2) = ∑ i ∈ Finset.range n, (callsOf i trace).countP q := by
  induction trace with
  | nil => simp [callsOf]
  | cons t trace ih =>
    obtain ⟨j, p⟩ := t
    have hone : ∀ i ∈ Finset.range n, (callsOf i ((j, p) :: trace)).countP q =
        (callsOf i trace).countP q + if j = i then (if q p then 1 else 0) else 0 := by
      intro i _
      by_cases hij : j = i
      · subst hij
        rw [callsOf_cons_self, List.countP_cons, if_pos rfl]
      · rw [callsOf_cons_of_ne hij, if_neg hij, Nat.add_zero]
    have hj : j ∈ Finset.range n := Finset.mem_range.mpr (h (j, p) List.mem_cons_self)
    rw [List.countP_cons, ih fun t ht ↦ h t (List.mem_cons_of_mem _ ht), Finset.sum_congr rfl hone,
      Finset.sum_add_distrib, Finset.sum_ite_eq, if_pos hj]

/-- The count over the trace, when the count over each program is known. -/
theorem countP_trace_eq {γ : Type} {xs : List γ} {g : γ → ℕ} {trace : List (ℕ × Past Op ε)}
    {q : Past Op ε → Bool} (h : ∀ t ∈ trace, t.1 < xs.length)
    (hg : ∀ i x, xs[i]? = some x → (callsOf i trace).countP q = g x) :
    trace.countP (fun t ↦ q t.2) = (xs.map g).sum := by
  rw [countP_trace h, Finset.sum_range, ← Fin.sum_univ_fun_getElem]
  exact Finset.sum_congr rfl fun i _ ↦ hg i xs[i] (List.getElem?_eq_getElem i.2)

/-- What is collected from the trace is what is collected from the programs, in some order. -/
theorem perm_filterMap_trace {γ δ : Type} [DecidableEq δ] {xs : List γ} {g : γ → List δ}
    {trace : List (ℕ × Past Op ε)} {f : Past Op ε → Option δ} (h : ∀ t ∈ trace, t.1 < xs.length)
    (hg : ∀ i x, xs[i]? = some x → (callsOf i trace).filterMap f = g x) :
    (trace.filterMap fun t ↦ f t.2).Perm (xs.flatMap g) := by
  refine List.perm_iff_count.mpr fun d ↦ ?_
  rw [List.count_filterMap, List.count_flatMap,
    countP_trace_eq (q := fun p ↦ f p == some d) (g := List.count d ∘ g) h]
  intro i x hx
  rw [Function.comp_apply, ← hg i x hx, List.count_filterMap]

/-! ## When a program returns -/

/-- Every call of the history has returned. -/
def Answered (h : List (Past Op ε)) : Prop := ∀ c ∈ h, ∃ b, c.answer = .ok b

theorem answered_nil : Answered ([] : List (Past Op ε)) := fun _ hc ↦ by cases hc

theorem Answered.cons {h : List (Past Op ε)} (hh : Answered h) {β : Type} (op : Op β) (b : β) :
    Answered (⟨op, .ok b⟩ :: h) := by
  intro c hc
  rcases List.mem_cons.mp hc with rfl | hc
  · exact ⟨b, rfl⟩
  · exact hh c hc

namespace Prog

variable {β : Type} {R : List (Past Op ε) → α → Prop} {h : List (Past Op ε)}

/-- If the program returns `a`, after the calls `h'`, then `R h' a`. -/
def Returns (R : List (Past Op ε) → α → Prop) (h : List (Past Op ε)) (p : Prog Op ε α) : Prop :=
  p.Always (fun _ _ _ ↦ True) (fun h' r ↦ ∀ a, r = .ok a → R h' a) h

theorem returns_pure {a : α} (hR : R h a) : (pure a : Prog Op ε α).Returns R h := by
  intro a' ha
  cases ha
  exact hR

theorem returns_raise (e : ε) : (raise e : Prog Op ε α).Returns R h := fun _ ha ↦ by cases ha

theorem returns_perform {op : Op α} (hR : ∀ a, R (⟨op, .ok a⟩ :: h) a) :
    (perform op : Prog Op ε α).Returns R h := by
  refine ⟨trivial, fun r a ha ↦ ?_⟩
  subst ha
  exact hR a

theorem Returns.bind {R₁ : List (Past Op ε) → β → Prop} {p : Prog Op ε β} {f : β → Prog Op ε α}
    (hp : p.Returns R₁ h) (hf : ∀ h' b, R₁ h' b → (f b).Returns R h') :
    (p >>= f).Returns R h :=
  Always.bind hp (fun h' b _ hb ↦ hf h' b (hb b rfl)) fun _ _ _ _ _ ha ↦ by cases ha

theorem returns_perform_bind {op : Op β} {f : β → Prog Op ε α}
    (hf : ∀ b, (f b).Returns R (⟨op, .ok b⟩ :: h)) : (perform op >>= f).Returns R h := by
  rw [perform_bind]
  refine ⟨trivial, fun r ↦ ?_⟩
  cases r with
  | ok b => exact hf b
  | error e => exact returns_raise e

theorem Returns.ensuring {S : List (Past Op ε) → α → Prop} {p : Prog Op ε α} {final : Op Unit}
    (hp : p.Returns S h) (hR : ∀ h' a, S h' a → R (⟨final, .ok ()⟩ :: h') a) :
    (p.ensuring final).Returns R h := by
  induction p generalizing h with
  | done r =>
    refine ⟨trivial, fun r' ↦ ?_⟩
    cases r' with
    | ok u => exact fun a ha ↦ hR h a (hp a ha)
    | error e => exact returns_raise e
  | call op k ih => exact ⟨trivial, fun r ↦ ih r (hp.2 r)⟩

end Prog

/-- The request that arrives with an event. -/
def Event.arrival : Event ρ ι ε → Option ρ
  | spawn r => some r
  | _ => none

namespace System

variable {S : System Op ε ι σ ρ α} {T : Terms Op ε ι ρ σ} {c : Config Op ε ρ σ α}

theorem requests_of_fire {c' : Config Op ε ρ σ α} {e : Event ρ ι ε} (h : S.fire c e = some c') :
    c'.world.requests = c.world.requests ++ e.arrival.toList := by
  cases e with
  | spawn r =>
    cases h
    rfl
  | step i d =>
    obtain ⟨β, op, k, -, -, rfl⟩ := fire_step h
    exact (List.append_nil _).symm
  | fault i e =>
    obtain ⟨β, op, k, -, rfl⟩ := fire_fault h
    exact (List.append_nil _).symm
  | kill i =>
    obtain ⟨β, op, k, -, rfl⟩ := fire_kill h
    exact (List.append_nil _).symm

theorem requests_of_runOn {permits : Config Op ε ρ σ α → Event ρ ι ε → Bool}
    {c' : Config Op ε ρ σ α} {es : List (Event ρ ι ε)} (h : S.runOn permits c es = some c') :
    c'.world.requests = c.world.requests ++ es.filterMap Event.arrival := by
  induction es generalizing c with
  | nil =>
    rw [runOn, List.foldlM_nil] at h
    cases h
    exact (List.append_nil _).symm
  | cons e es ih =>
    rw [runOn, List.foldlM_cons] at h
    split at h
    · cases he : S.fire c e with
      | none => rw [he] at h; cases h
      | some c₁ =>
        rw [he] at h
        rw [ih h, requests_of_fire he, List.append_assoc, List.filterMap_cons]
        cases e.arrival with
        | none => rfl
        | some r => rfl
    · cases h

theorem Reach.threads_length (hc : S.Reach T c) : c.threads.length = c.world.requests.length := by
  induction hc with
  | start hs => rfl
  | @fire c c' e _ _ he ih =>
    cases e with
    | spawn r =>
      cases he
      simpa [World.spawned] using ih
    | step i d =>
      obtain ⟨β, op, k, -, -, rfl⟩ := fire_step he
      simpa using ih
    | fault i e =>
      obtain ⟨β, op, k, -, rfl⟩ := fire_fault he
      simpa using ih
    | kill i =>
      obtain ⟨β, op, k, -, rfl⟩ := fire_kill he
      simpa using ih

/-- Only programs that have been spawned make calls. -/
theorem Reach.trace_lt (hc : S.Reach T c) : ∀ t ∈ c.world.trace, t.1 < c.threads.length := by
  induction hc with
  | start hs => simp [System.start]
  | @fire c c' e _ _ he ih =>
    cases e with
    | spawn r =>
      cases he
      intro t ht
      rw [List.length_append]
      exact (ih t ht).trans_le (Nat.le_add_right _ _)
    | step i d =>
      obtain ⟨β, op, k, hthread, -, rfl⟩ := fire_step he
      intro t ht
      rw [List.length_set]
      rcases List.mem_cons.mp ht with rfl | ht
      · exact (List.getElem?_eq_some_iff.mp hthread).1
      · exact ih t ht
    | fault i e =>
      obtain ⟨β, op, k, -, rfl⟩ := fire_fault he
      intro t ht
      rw [List.length_set]
      exact ih t ht
    | kill i =>
      obtain ⟨β, op, k, -, rfl⟩ := fire_kill he
      intro t ht
      rw [List.length_set]
      exact ih t ht

/-- A program without calls has ended, and has called nothing. -/
theorem Reach.idle {r : ρ} {result : Except ε α} (hbody : S.body r = .done result)
    (hc : S.Reach T c) {i : ℕ} (hr : c.world.requests[i]? = some r) :
    c.threads[i]? = some (.live (.done result)) ∧ ∀ t ∈ c.world.trace, t.1 ≠ i := by
  induction hc generalizing i with
  | start hs => simp [System.start] at hr
  | @fire c c' e hreach _ he ih =>
    have hlt := hreach.trace_lt
    have hlength := hreach.threads_length
    -- what another program is replaced by
    have hother : ∀ {j : ℕ} {β : Type} {op : Op β} {k : Except ε β → Prog Op ε α} {t},
        c.threads[j]? = some (.live (.call op k)) → c.world.requests[i]? = some r →
        (c.threads.set j t)[i]? = some (.live (.done result)) ∧ j ≠ i := by
      intro j β op k t hthread hr
      have hne : j ≠ i := by
        rintro rfl
        rw [(ih hr).1] at hthread
        cases hthread
      exact ⟨(List.getElem?_set_ne hne).trans (ih hr).1, hne⟩
    cases e with
    | spawn r' =>
      cases he
      rcases Nat.lt_or_ge i c.threads.length with hi | hi
      · rw [World.spawned, List.getElem?_append_left (hlength ▸ hi)] at hr
        rw [List.getElem?_append_left hi]
        exact ih hr
      · have hi' : i = c.threads.length := by
          have := (List.getElem?_eq_some_iff.mp hr).1
          rw [World.spawned, List.length_append, List.length_singleton, ← hlength] at this
          omega
        subst hi'
        rw [World.spawned, hlength, List.getElem?_concat_length] at hr
        cases hr
        rw [List.getElem?_concat_length, hbody]
        exact ⟨rfl, fun t ht ↦ (hlt t ht).ne⟩
    | step j d =>
      obtain ⟨β, op, k, hthread, -, rfl⟩ := fire_step he
      obtain ⟨hkept, hne⟩ := hother hthread hr
      refine ⟨hkept, fun t ht ↦ ?_⟩
      rcases List.mem_cons.mp ht with rfl | ht
      · exact hne
      · exact (ih hr).2 t ht
    | fault j e =>
      obtain ⟨β, op, k, hthread, rfl⟩ := fire_fault he
      exact ⟨(hother hthread hr).1, (ih hr).2⟩
    | kill j =>
      obtain ⟨β, op, k, hthread, rfl⟩ := fire_kill he
      exact ⟨(hother hthread hr).1, (ih hr).2⟩

/-- **What every program does alone, whatever its calls answer, it does among the others.**  Where
all its calls have returned, its history is its part of the trace. -/
theorem Reach.history {P : ρ → List (Past Op ε) → {β : Type} → Op β → Prop}
    {Q : ρ → List (Past Op ε) → Except ε α → Prop}
    (halways : ∀ r, (S.body r).Always (P r) (Q r) []) (hc : S.Reach T c) {i : ℕ} {r : ρ}
    {p : Prog Op ε α} (hr : c.world.requests[i]? = some r)
    (hp : c.threads[i]? = some (.live p)) :
    ∃ h, p.Always (P r) (Q r) h ∧ (Answered h → h = callsOf i c.world.trace) := by
  induction hc generalizing i r p with
  | start hs => cases hp
  | @fire c c' e hreach _ he ih =>
    have hlt := hreach.trace_lt
    have hlength := hreach.threads_length
    cases e with
    | spawn r' =>
      cases he
      rcases Nat.lt_or_ge i c.threads.length with hi | hi
      · rw [List.getElem?_append_left hi] at hp
        rw [World.spawned, List.getElem?_append_left (hlength ▸ hi)] at hr
        exact ih hr hp
      · -- the new program has called nothing
        have hi' : i = c.threads.length := by
          have := (List.getElem?_eq_some_iff.mp hp).1
          rw [List.length_append, List.length_singleton] at this
          omega
        subst hi'
        rw [List.getElem?_concat_length] at hp
        rw [World.spawned, hlength, List.getElem?_concat_length] at hr
        cases hp
        cases hr
        exact ⟨[], halways r, fun _ ↦ (callsOf_eq_nil fun t ht ↦ (hlt t ht).ne).symm⟩
    | step j d =>
      obtain ⟨β, op, k, hthread, -, rfl⟩ := fire_step he
      rcases getElem?_set_cases hp with ⟨rfl, heq⟩ | ⟨hij, hp⟩
      · cases heq
        obtain ⟨h, halw, hcalls⟩ := ih hr hthread
        refine ⟨_, halw.2 _, fun hanswered ↦ ?_⟩
        rw [after_trace, callsOf_cons_self,
          ← hcalls fun c' hc' ↦ hanswered c' (List.mem_cons_of_mem _ hc')]
      · obtain ⟨h, halw, hcalls⟩ := ih hr hp
        refine ⟨h, halw, fun hanswered ↦ ?_⟩
        rw [after_trace, callsOf_cons_of_ne hij.symm, hcalls hanswered]
    | fault j e =>
      obtain ⟨β, op, k, hthread, rfl⟩ := fire_fault he
      rcases getElem?_set_cases hp with ⟨rfl, heq⟩ | ⟨-, hp⟩
      · cases heq
        obtain ⟨h, halw, -⟩ := ih hr hthread
        refine ⟨_, halw.2 _, fun hanswered ↦ ?_⟩
        obtain ⟨b, hb⟩ := hanswered _ List.mem_cons_self
        cases hb
      · exact ih hr hp
    | kill j =>
      obtain ⟨β, op, k, hthread, rfl⟩ := fire_kill he
      rcases getElem?_set_cases hp with ⟨rfl, heq⟩ | ⟨-, hp⟩
      · cases heq
      · exact ih hr hp

/-- What holds of a program when it returns. -/
theorem Reach.returned {R : ρ → List (Past Op ε) → α → Prop}
    (hreturns : ∀ r, (S.body r).Returns (R r) []) (hanswered : ∀ r h a, R r h a → Answered h)
    (hc : S.Reach T c) {i : ℕ} {r : ρ} {a : α} (hr : c.world.requests[i]? = some r)
    (hp : c.threads[i]? = some (.live (.done (.ok a)))) : R r (callsOf i c.world.trace) a := by
  obtain ⟨h, hR, hcalls⟩ := hc.history hreturns hr hp
  have ha : R r h a := hR a rfl
  rwa [← hcalls (hanswered r h a ha)]

end System

end Calls
