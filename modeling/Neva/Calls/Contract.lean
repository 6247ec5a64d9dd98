import Neva.Calls.System

/-!
# Proving an invariant of interleaved programs

Some invariants are kept by every call whoever makes it; for those `Reach.state_inv` is enough.
Others hold because of what the *programs* do: a call that would break the invariant is only ever
made by a program that has earned the right to make it, and nothing another program does in the
meantime takes that right away.  A `Calls.Contract` is such an argument, in five parts.

* `inv` is the invariant of the world; `known` is what has been proved of the reachable worlds
  before, and may be used.
* `pre i op w` is what program `i` has to know when it makes the call `op`.
* `post q i r` is what holds once program `i`, serving the request `q`, has ended with `r`.
* `gone i` is what holds once program `i` has died.

`Contract.Sound` collects the proof obligations.  The calls keep `inv`, given `pre`; the programs
establish `pre`, which is `Safe`; and what a program knows between two of its calls is `Stable`
under the calls of the others — calls made with *their* `pre`, which is where the argument closes.
`Contract.Sound.good` puts them together.  A contract may also be entered into later, at a
configuration with nothing in flight; `Contract.Good.leads` follows it from there.
-/

set_option autoImplicit false

namespace Calls

variable {Op : Type → Type} {ε ι σ ρ α : Type}

/-- An invariant, and what each program has to know and to establish. -/
structure Contract (Op : Type → Type) (ε ρ σ α : Type) : Type 1 where
  /-- What is known of the reachable worlds already. -/
  known : World Op ε ρ σ → Prop
  /-- The invariant. -/
  inv : World Op ε ρ σ → Prop
  /-- What program `i` knows when it makes a call. -/
  pre {β : Type} : ℕ → Op β → World Op ε ρ σ → Prop
  /-- What holds once program `i` has ended. -/
  post : ρ → ℕ → Except ε α → World Op ε ρ σ → Prop
  /-- What holds once program `i` has died. -/
  gone : ℕ → World Op ε ρ σ → Prop

namespace Contract

/-- What may be used at any time. -/
def here (K : Contract Op ε ρ σ α) (w : World Op ε ρ σ) : Prop := K.known w ∧ K.inv w

variable (S : System Op ε ι σ ρ α) (T : Terms Op ε ι ρ σ) (K : Contract Op ε ρ σ α)

/-- What program `i` knows is stable when no arrival and no call of another program undoes it. -/
structure Stable (i : ℕ) (P : World Op ε ρ σ → Prop) : Prop where
  spawned : ∀ w r, P w → P (w.spawned r)
  called : ∀ j, j ≠ i → ∀ {β : Type} (op : Op β) (d : ι) (w : World Op ε ρ σ), K.here w →
    K.pre j op w → T.may j op d w → S.admits d w.state = true → P w → P (S.after j op d w)

/-- Program `i`, knowing `P`, makes its calls with their preconditions and ends with `Q`. -/
def Safe (i : ℕ) (Q : Except ε α → World Op ε ρ σ → Prop) :
    Prog Op ε α → (World Op ε ρ σ → Prop) → Prop
  | .done r, P => Stable S T K i P ∧ ∀ w, K.here w → P w → Q r w
  | .call op k, P => Stable S T K i P ∧ ∀ w, K.here w → P w → K.pre i op w ∧
      (T.lose i w → K.gone i w ∧ ∀ e, ∃ P', P' w ∧ Safe i Q (k (.error e)) P') ∧
      (∀ d, S.admits d w.state = true → T.may i op d w →
        ∃ P', P' (S.after i op d w) ∧ Safe i Q (k (S.exec d op w.state).1) P')

/-- The proof obligations of a contract. -/
structure Sound : Prop where
  spawn : ∀ w r, K.here w → K.inv (w.spawned r)
  call : ∀ (i : ℕ) {β : Type} (op : Op β) (d : ι) (w : World Op ε ρ σ), K.here w →
    K.pre i op w → T.may i op d w → S.admits d w.state = true → K.inv (S.after i op d w)
  body : ∀ (w : World Op ε ρ σ) (r : ρ), K.here w →
    (∀ x ∈ w.trace, x.1 < w.requests.length) →
    ∃ P, P (w.spawned r) ∧
      Safe S T K w.requests.length (K.post r w.requests.length) (S.body r) P
  gone : ∀ i, Stable S T K i (K.gone i)

/-- What is known of a thread. -/
def Holds (q : ρ) (i : ℕ) (w : World Op ε ρ σ) : Thread Op ε α → Prop
  | .live p => ∃ P, P w ∧ Safe S T K i (K.post q i) p P
  | .dead => K.gone i w

/-- A configuration in which the contract is being kept. -/
structure Good (c : Config Op ε ρ σ α) : Prop where
  here : K.here c.world
  length : c.threads.length = c.world.requests.length
  old : ∀ x ∈ c.world.trace, x.1 < c.world.requests.length
  threads : ∀ i q t, c.world.requests[i]? = some q → c.threads[i]? = some t →
    Holds S T K q i c.world t

variable {S T K}

/-! ## Stability -/

theorem Stable.const (i : ℕ) (a : Prop) : Stable S T K i fun _ ↦ a where
  spawned _ _ h := h
  called _ _ _ _ _ _ _ _ _ _ h := h

theorem Stable.true (i : ℕ) : Stable S T K i fun _ ↦ True := Stable.const i True

/-- What a program knows of its own past is stable: a reading `g` of the trace that ignores the
calls of the others does not change when they make one. -/
theorem Stable.of_own {γ : Type} {i : ℕ} (g : List (ℕ × Past Op ε) → γ)
    (hg : ∀ j, j ≠ i → ∀ a tr, g ((j, a) :: tr) = g tr) (p : γ → Prop) :
    Stable S T K i fun w ↦ p (g w.trace) where
  spawned _ _ h := h
  called j hj _ op d w _ _ _ _ h := by
    show p (g ((j, _) :: w.trace))
    rw [hg j hj]
    exact h

/-! ## Rules for programs -/

theorem Safe.stable {i : ℕ} {Q : Except ε α → World Op ε ρ σ → Prop} {p : Prog Op ε α}
    {P : World Op ε ρ σ → Prop} (h : Safe S T K i Q p P) : Stable S T K i P := by
  cases p with
  | done r => exact h.1
  | call op k => exact h.1

/-- A program may know more than it has to. -/
theorem Safe.imp {i : ℕ} {Q : Except ε α → World Op ε ρ σ → Prop} {p : Prog Op ε α}
    {P P' : World Op ε ρ σ → Prop} (h : Safe S T K i Q p P) (hP' : Stable S T K i P')
    (himp : ∀ w, P' w → P w) : Safe S T K i Q p P' := by
  cases p with
  | done r => exact ⟨hP', fun w hw hPw ↦ h.2 w hw (himp w hPw)⟩
  | call op k => exact ⟨hP', fun w hw hPw ↦ h.2 w hw (himp w hPw)⟩

theorem safe_done {i : ℕ} {Q : Except ε α → World Op ε ρ σ → Prop} {r : Except ε α}
    (hQ : Stable S T K i (Q r)) : Safe S T K i Q (.done r) (Q r) :=
  ⟨hQ, fun _ _ h ↦ h⟩

theorem safe_pure {i : ℕ} {Q : Except ε α → World Op ε ρ σ → Prop} {a : α}
    {P : World Op ε ρ σ → Prop} (hP : Stable S T K i P)
    (hQ : ∀ w, K.here w → P w → Q (.ok a) w) : Safe S T K i Q (pure a : Prog Op ε α) P :=
  ⟨hP, hQ⟩

theorem safe_raise {i : ℕ} {Q : Except ε α → World Op ε ρ σ → Prop} {e : ε}
    {P : World Op ε ρ σ → Prop} (hP : Stable S T K i P)
    (hQ : ∀ w, K.here w → P w → Q (.error e) w) :
    Safe S T K i Q (Prog.raise e : Prog Op ε α) P :=
  ⟨hP, hQ⟩

/-- The first call of a program that does not catch what the call may raise. -/
theorem safe_perform {i : ℕ} {β : Type} {Q : Except ε α → World Op ε ρ σ → Prop} {op : Op β}
    {f : β → Prog Op ε α} {P : World Op ε ρ σ → Prop} (hP : Stable S T K i P)
    (hQ : ∀ e, Stable S T K i (Q (.error e)))
    (hpre : ∀ w, K.here w → P w → K.pre i op w)
    (hlose : ∀ w, K.here w → P w → T.lose i w → K.gone i w ∧ ∀ e, Q (.error e) w)
    (herr : ∀ w d e, K.here w → P w → T.may i op d w → S.admits d w.state = true →
      (S.exec d op w.state).1 = .error e → Q (.error e) (S.after i op d w))
    (hok : ∀ w d b, K.here w → P w → T.may i op d w → S.admits d w.state = true →
      (S.exec d op w.state).1 = .ok b →
      ∃ P', P' (S.after i op d w) ∧ Safe S T K i Q (f b) P') :
    Safe S T K i Q (Prog.perform op >>= f) P := by
  rw [Prog.perform_bind]
  refine ⟨hP, fun w hi hw ↦ ⟨hpre w hi hw, fun hl ↦ ?_, fun d hd hm ↦ ?_⟩⟩
  · obtain ⟨hg, he⟩ := hlose w hi hw hl
    exact ⟨hg, fun e ↦ ⟨Q (.error e), he e, safe_done (hQ e)⟩⟩
  · cases hr : (S.exec d op w.state).1 with
    | ok b => exact hok w d b hi hw hm hd hr
    | error e => exact ⟨Q (.error e), herr w d e hi hw hm hd hr, safe_done (hQ e)⟩

/-- A last call that may always be made, where nothing is asked of the end. -/
theorem safe_ensuring {i : ℕ} {p : Prog Op ε α} {op : Op Unit} {P : World Op ε ρ σ → Prop}
    (hpre : ∀ w, K.here w → K.pre i op w) (hgone : ∀ w, K.here w → T.lose i w → K.gone i w)
    (h : Safe S T K i (fun _ _ ↦ True) p P) :
    Safe S T K i (fun _ _ ↦ True) (p.ensuring op) P := by
  have hdone : ∀ r : Except ε α, Safe S T K i (fun _ _ ↦ True) (.done r) fun _ ↦ True :=
    fun _ ↦ safe_done (Stable.true i)
  induction p generalizing P with
  | done r =>
    refine ⟨h.1, fun w hw _ ↦ ⟨hpre w hw, fun hl ↦ ⟨hgone w hw hl, fun e ↦ ?_⟩, fun d _ _ ↦ ?_⟩⟩
    · exact ⟨fun _ ↦ True, trivial, hdone _⟩
    · refine ⟨fun _ ↦ True, trivial, ?_⟩
      cases (S.exec d op w.state).1 with
      | ok b => exact hdone _
      | error e => exact hdone _
  | call op' k ih =>
    refine ⟨h.1, fun w hw hP ↦ ?_⟩
    obtain ⟨hp, hlose, hnext⟩ := h.2 w hw hP
    refine ⟨hp, fun hl ↦ ⟨(hlose hl).1, fun e ↦ ?_⟩, fun d hd hm ↦ ?_⟩
    · obtain ⟨P', hP', hs⟩ := (hlose hl).2 e
      exact ⟨P', hP', ih _ hs⟩
    · obtain ⟨P', hP', hs⟩ := hnext d hd hm
      exact ⟨P', hP', ih _ hs⟩

/-! ## The contract is kept -/

/-- What is known of the threads an event does not touch. -/
theorem Holds.called {q : ρ} {i j : ℕ} {w : World Op ε ρ σ} {t : Thread Op ε α} {β : Type}
    {op : Op β} {d : ι} (hK : Sound S T K) (h : Holds S T K q i w t) (hj : j ≠ i)
    (hi : K.here w) (hp : K.pre j op w) (hm : T.may j op d w) (hd : S.admits d w.state = true) :
    Holds S T K q i (S.after j op d w) t := by
  cases t with
  | live p =>
    obtain ⟨P, hP, hs⟩ := h
    exact ⟨P, hs.stable.called j hj op d w hi hp hm hd hP, hs⟩
  | dead => exact (hK.gone i).called j hj op d w hi hp hm hd h

theorem Holds.spawned {q : ρ} {i : ℕ} {w : World Op ε ρ σ} {t : Thread Op ε α}
    (hK : Sound S T K) (h : Holds S T K q i w t) (r : ρ) :
    Holds S T K q i (w.spawned r) t := by
  cases t with
  | live p =>
    obtain ⟨P, hP, hs⟩ := h
    exact ⟨P, hs.stable.spawned w r hP, hs⟩
  | dead => exact (hK.gone i).spawned w r h

theorem Good.fire {c c' : Config Op ε ρ σ α} {e : Event ρ ι ε} (hK : Sound S T K)
    (h : Good S T K c) (ha : T.Allows c e) (he : S.fire c e = some c')
    (hknown : K.known c'.world) : Good S T K c' := by
  cases e with
  | spawn r =>
    cases he
    refine ⟨⟨hknown, hK.spawn _ r h.here⟩, by simp [World.spawned, h.length], fun x hx ↦ ?_, ?_⟩
    · have := h.old x hx
      simp only [World.spawned, List.length_append, List.length_singleton]
      omega
    · intro i q t hq ht
      rcases Nat.lt_or_ge i c.threads.length with hi | hi
      · rw [World.spawned, List.getElem?_append_left (h.length ▸ hi)] at hq
        rw [List.getElem?_append_left hi] at ht
        exact (h.threads i q t hq ht).spawned hK r
      · rw [List.getElem?_append_right hi] at ht
        have hi' : i = c.world.requests.length := by
          have hlt := (List.getElem?_eq_some_iff.mp ht).1
          simp only [List.length_singleton] at hlt
          have := h.length
          omega
        subst hi'
        rw [World.spawned, List.getElem?_append_right (Nat.le_refl _), Nat.sub_self,
          List.getElem?_cons_zero] at hq
        rw [h.length, Nat.sub_self, List.getElem?_cons_zero] at ht
        cases hq
        cases ht
        exact hK.body c.world r h.here h.old
  | step i d =>
    obtain ⟨β, op, k, ht, hd, rfl⟩ := System.fire_step he
    have hm := ha β op k ht
    have hi : i < c.world.requests.length :=
      h.length ▸ (List.getElem?_eq_some_iff.mp ht).1
    obtain ⟨P, hP, hs⟩ := h.threads i _ _ (List.getElem?_eq_getElem hi) ht
    obtain ⟨hpre, -, hnext⟩ := hs.2 c.world h.here hP
    obtain ⟨P', hP', hs'⟩ := hnext d hd hm
    refine ⟨⟨hknown, hK.call i op d c.world h.here hpre hm hd⟩, by simpa using h.length, ?_, ?_⟩
    · intro x hx
      rcases List.mem_cons.mp hx with rfl | hx
      · exact hi
      · exact h.old x hx
    · intro j q t hq htj
      rcases getElem?_set_cases htj with ⟨rfl, rfl⟩ | ⟨hji, htj⟩
      · have hq' : q = c.world.requests[j] := by
          rw [System.after_requests, List.getElem?_eq_getElem hi] at hq
          exact (Option.some.inj hq).symm
        subst hq'
        exact ⟨P', hP', hs'⟩
      · exact (h.threads j q t hq htj).called hK (Ne.symm hji) h.here hpre hm hd
  | fault i e =>
    obtain ⟨β, op, k, ht, rfl⟩ := System.fire_fault he
    refine ⟨h.here, by simpa using h.length, h.old, fun j q t hq htj ↦ ?_⟩
    rcases getElem?_set_cases htj with ⟨rfl, rfl⟩ | ⟨-, htj⟩
    · obtain ⟨P, hP, hs⟩ := h.threads j q _ hq ht
      exact ((hs.2 c.world h.here hP).2.1 ha).2 e
    · exact h.threads j q t hq htj
  | kill i =>
    obtain ⟨β, op, k, ht, rfl⟩ := System.fire_kill he
    refine ⟨h.here, by simpa using h.length, h.old, fun j q t hq htj ↦ ?_⟩
    rcases getElem?_set_cases htj with ⟨rfl, rfl⟩ | ⟨-, htj⟩
    · obtain ⟨P, hP, hs⟩ := h.threads j q _ hq ht
      exact ((hs.2 c.world h.here hP).2.1 ha).1
    · exact h.threads j q t hq htj

/-- **A sound contract whose invariant holds at the start is kept in every configuration reached on
its terms.** -/
theorem Sound.good (hK : Sound S T K) (hinit : ∀ s, S.init s → K.inv ⟨s, [], []⟩)
    (hknown : ∀ c, S.Reach T c → K.known c.world) {c : Config Op ε ρ σ α} (h : S.Reach T c) :
    Good S T K c := by
  induction h with
  | @start s hs =>
    refine ⟨⟨hknown _ (.start hs), hinit s hs⟩, rfl, fun x hx ↦ absurd hx List.not_mem_nil, ?_⟩
    intro i q t hq
    simp [System.start] at hq
  | fire h ha he ih => exact ih.fire hK ha he (hknown _ (h.fire ha he))

/-- A program that is about to make a call has established its precondition. -/
theorem Good.pre {c : Config Op ε ρ σ α} (h : Good S T K c) {i : ℕ} {β : Type} {op : Op β}
    {k : Except ε β → Prog Op ε α} (ht : c.threads[i]? = some (.live (.call op k))) :
    K.pre i op c.world := by
  have hi : i < c.world.requests.length := h.length ▸ (List.getElem?_eq_some_iff.mp ht).1
  obtain ⟨P, hP, hs⟩ := h.threads i _ _ (List.getElem?_eq_getElem hi) ht
  exact (hs.2 c.world h.here hP).1

/-- A program that has ended has established its postcondition. -/
theorem Good.post {c : Config Op ε ρ σ α} (h : Good S T K c) {i : ℕ} {q : ρ}
    {r : Except ε α} (hq : c.world.requests[i]? = some q)
    (ht : c.threads[i]? = some (.live (.done r))) : K.post q i r c.world := by
  obtain ⟨P, hP, hs⟩ := h.threads i q _ hq ht
  exact hs.2 c.world h.here hP

theorem Good.dead {c : Config Op ε ρ σ α} (h : Good S T K c) {i : ℕ} {q : ρ}
    (hq : c.world.requests[i]? = some q) (ht : c.threads[i]? = some .dead) :
    K.gone i c.world :=
  h.threads i q _ hq ht

/-- A program without calls left has ended or died. -/
theorem Good.ended {c : Config Op ε ρ σ α} (h : Good S T K c) {i : ℕ} {q : ρ}
    (hq : c.world.requests[i]? = some q)
    (hrun : ∀ t, c.threads[i]? = some t → t.running = false) :
    (∃ r, K.post q i r c.world) ∨ K.gone i c.world := by
  have hi : i < c.threads.length := by
    rw [h.length]
    exact (List.getElem?_eq_some_iff.mp hq).1
  have ht := List.getElem?_eq_getElem hi
  match hthread : c.threads[i] with
  | .live (.done r) => exact .inl ⟨r, h.post hq (hthread ▸ ht)⟩
  | .live (.call op k) =>
    have hr := hrun _ ht
    rw [hthread] at hr
    cases hr
  | .dead => exact .inr (h.dead hq (hthread ▸ ht))

/-- A contract that asks nothing of a program that has ended may be entered into whenever nothing
is running. -/
theorem Good.of_ended {K' : Contract Op ε ρ σ α} {T' : Terms Op ε ι ρ σ}
    {c : Config Op ε ρ σ α} (h : Good S T' K' c) (hhere : K.here c.world)
    (hrun : ∀ (i : ℕ) t, c.threads[i]? = some t → t.running = false)
    (hpost : ∀ q i r w, K.post q i r w) (hgone : ∀ i w, K.gone i w) : Good S T K c := by
  refine ⟨hhere, h.length, h.old, fun i q t _ ht ↦ ?_⟩
  match t with
  | .live (.done r) => exact ⟨fun _ ↦ True, trivial, Stable.true i, fun w _ _ ↦ hpost q i r w⟩
  | .live (.call op k) => cases hrun i _ ht
  | .dead => exact hgone i c.world

/-- The events that follow a configuration in which a contract is kept keep it. -/
theorem Good.leads {c c' : Config Op ε ρ σ α} {A : Config Op ε ρ σ α → Event ρ ι ε → Prop}
    (hK : Sound S T K) (h : Good S T K c)
    (hT : ∀ (c : Config Op ε ρ σ α) (e : Event ρ ι ε), A c e → T.Allows c e)
    (hknown : ∀ c', S.Leads A c c' → K.known c'.world) (hl : S.Leads A c c') :
    Good S T K c' := by
  induction hl with
  | refl => exact h
  | fire hl hp he ih => exact ih.fire hK (hT _ _ hp) he (hknown _ (hl.fire hp he))

end Contract

end Calls
