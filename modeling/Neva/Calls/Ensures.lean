import Neva.Calls.Contract

/-!
# Rules for the parts of a program

`Contract.Safe` is about whole programs, which end with what the contract asks of them.  The parts
a program is made of end with results of their own types, and what one part establishes the next
one uses.  `Contract.Ensures i Q p P` says this of a part: program `i`, knowing `P`, makes the calls
of `p` with their preconditions and ends knowing `Q`.

There is one rule for each way of putting programs together: `Ensures.bind`, `Ensures.tryCatch`,
`Ensures.ensuring` for `finally`, and `ensures_perform` for a single call.  As everywhere in a
contract, what is known between two calls has to be stable under the calls of the others.
-/

set_option autoImplicit false

namespace Calls.Contract

variable {Op : Type → Type} {ε ι σ ρ α β γ : Type}
variable (S : System Op ε ι σ ρ α) (T : Terms Op ε ι ρ σ) (K : Contract Op ε ρ σ α)

/-- Program `i`, knowing `P`, makes the calls of `p` with their preconditions and ends with `Q`. -/
def Ensures (i : ℕ) (Q : Except ε β → World Op ε ρ σ → Prop) :
    Prog Op ε β → (World Op ε ρ σ → Prop) → Prop
  | .done r, P => Stable S T K i P ∧ ∀ w, K.here w → P w → Q r w
  | .call op k, P => Stable S T K i P ∧ ∀ w, K.here w → P w → K.pre i op w ∧
      (T.lose i w → K.gone i w ∧ ∀ e, ∃ P', P' w ∧ Ensures i Q (k (.error e)) P') ∧
      (∀ d, S.admits d w.state = true → T.may i op d w →
        ∃ P', P' (S.after i op d w) ∧ Ensures i Q (k (S.exec d op w.state).1) P')

variable {S T K} {i : ℕ} {P : World Op ε ρ σ → Prop}

/-- A whole program that ends as the contract asks is safe. -/
theorem Ensures.safe {Q : Except ε α → World Op ε ρ σ → Prop} {p : Prog Op ε α}
    (h : Ensures S T K i Q p P) : Safe S T K i Q p P := by
  induction p generalizing P with
  | done r => exact h
  | call op k ih =>
    refine ⟨h.1, fun w hw hP ↦ ?_⟩
    obtain ⟨hpre, hlose, hnext⟩ := h.2 w hw hP
    refine ⟨hpre, fun hl ↦ ⟨(hlose hl).1, fun e ↦ ?_⟩, fun d hd hm ↦ ?_⟩
    · obtain ⟨P', hP', hs⟩ := (hlose hl).2 e
      exact ⟨P', hP', ih _ hs⟩
    · obtain ⟨P', hP', hs⟩ := hnext d hd hm
      exact ⟨P', hP', ih _ hs⟩

theorem Ensures.stable {Q : Except ε β → World Op ε ρ σ → Prop} {p : Prog Op ε β}
    (h : Ensures S T K i Q p P) : Stable S T K i P := by
  cases p with
  | done r => exact h.1
  | call op k => exact h.1

/-- More may be known before. -/
theorem Ensures.pre {P' : World Op ε ρ σ → Prop} {Q : Except ε β → World Op ε ρ σ → Prop}
    {p : Prog Op ε β} (h : Ensures S T K i Q p P) (hP' : Stable S T K i P')
    (himp : ∀ w, K.here w → P' w → P w) : Ensures S T K i Q p P' := by
  cases p with
  | done r => exact ⟨hP', fun w hw hPw ↦ h.2 w hw (himp w hw hPw)⟩
  | call op k => exact ⟨hP', fun w hw hPw ↦ h.2 w hw (himp w hw hPw)⟩

/-- A call is made as before, and what follows it is changed. -/
theorem Ensures.call {δ : Type} {Q : Except ε β → World Op ε ρ σ → Prop}
    {Q' : Except ε γ → World Op ε ρ σ → Prop} {op : Op δ} {k : Except ε δ → Prog Op ε β}
    {k' : Except ε δ → Prog Op ε γ} (h : Ensures S T K i Q (.call op k) P)
    (hk : ∀ r P', Ensures S T K i Q (k r) P' → Ensures S T K i Q' (k' r) P') :
    Ensures S T K i Q' (.call op k') P := by
  refine ⟨h.1, fun w hw hP ↦ ?_⟩
  obtain ⟨hpre, hlose, hnext⟩ := h.2 w hw hP
  refine ⟨hpre, fun hl ↦ ⟨(hlose hl).1, fun e ↦ ?_⟩, fun d hd hm ↦ ?_⟩
  · obtain ⟨P', hP', hs⟩ := (hlose hl).2 e
    exact ⟨P', hP', hk _ _ hs⟩
  · obtain ⟨P', hP', hs⟩ := hnext d hd hm
    exact ⟨P', hP', hk _ _ hs⟩

/-- Less may be said afterwards. -/
theorem Ensures.post {Q Q' : Except ε β → World Op ε ρ σ → Prop} {p : Prog Op ε β}
    (h : Ensures S T K i Q p P) (himp : ∀ r w, K.here w → Q r w → Q' r w) :
    Ensures S T K i Q' p P := by
  induction p generalizing P with
  | done r => exact ⟨h.1, fun w hw hP ↦ himp r w hw (h.2 w hw hP)⟩
  | call op k ih => exact h.call fun r P' hs ↦ ih r hs

theorem ensures_done {Q : Except ε β → World Op ε ρ σ → Prop} {r : Except ε β}
    (hP : Stable S T K i P) (hQ : ∀ w, K.here w → P w → Q r w) :
    Ensures S T K i Q (.done r) P := ⟨hP, hQ⟩

theorem ensures_pure {Q : Except ε β → World Op ε ρ σ → Prop} {b : β}
    (hP : Stable S T K i P) (hQ : ∀ w, K.here w → P w → Q (.ok b) w) :
    Ensures S T K i Q (pure b : Prog Op ε β) P := ⟨hP, hQ⟩

theorem ensures_raise {Q : Except ε β → World Op ε ρ σ → Prop} {e : ε}
    (hP : Stable S T K i P) (hQ : ∀ w, K.here w → P w → Q (.error e) w) :
    Ensures S T K i Q (Prog.raise e : Prog Op ε β) P := ⟨hP, hQ⟩

/-- What follows from what is known may be used. -/
theorem ensures_of_fact {φ : Prop} {Q : Except ε β → World Op ε ρ σ → Prop} {p : Prog Op ε β}
    (hP : Stable S T K i P) (hφ : ∀ w, K.here w → P w → φ) (h : φ → Ensures S T K i Q p P) :
    Ensures S T K i Q p P := by
  by_cases hfact : φ
  · exact h hfact
  · -- nothing is known to be the case
    cases p with
    | done r => exact ⟨hP, fun w hw hPw ↦ absurd (hφ w hw hPw) hfact⟩
    | call op k => exact ⟨hP, fun w hw hPw ↦ absurd (hφ w hw hPw) hfact⟩

/-- A single call. -/
theorem ensures_perform {Q : Except ε β → World Op ε ρ σ → Prop} {op : Op β}
    (hP : Stable S T K i P) (hQ : ∀ r, Stable S T K i (Q r))
    (hpre : ∀ w, K.here w → P w → K.pre i op w)
    (hlose : ∀ w, K.here w → P w → T.lose i w → K.gone i w ∧ ∀ e, Q (.error e) w)
    (hnext : ∀ w d, K.here w → P w → T.may i op d w → S.admits d w.state = true →
      Q (S.exec d op w.state).1 (S.after i op d w)) :
    Ensures S T K i Q (Prog.perform op) P := by
  refine ⟨hP, fun w hw hPw ↦ ⟨hpre w hw hPw, fun hl ↦ ?_, fun d hd hm ↦ ?_⟩⟩
  · obtain ⟨hgone, he⟩ := hlose w hw hPw hl
    exact ⟨hgone, fun e ↦ ⟨_, he e, ensures_done (hQ _) fun _ _ h ↦ h⟩⟩
  · exact ⟨_, hnext w d hw hPw hm hd, ensures_done (hQ _) fun _ _ h ↦ h⟩

/-- One part after the other. -/
theorem Ensures.bind {Q₁ : Except ε β → World Op ε ρ σ → Prop}
    {Q : Except ε γ → World Op ε ρ σ → Prop} {p : Prog Op ε β} {f : β → Prog Op ε γ}
    (hp : Ensures S T K i Q₁ p P) (hf : ∀ b, Ensures S T K i Q (f b) (Q₁ (.ok b)))
    (he : ∀ e w, K.here w → Q₁ (.error e) w → Q (.error e) w) :
    Ensures S T K i Q (p >>= f) P := by
  induction p generalizing P with
  | done r =>
    cases r with
    | ok b => exact (hf b).pre hp.1 hp.2
    | error e => exact ensures_done hp.1 fun w hw hP ↦ he e w hw (hp.2 w hw hP)
  | call op k ih => exact hp.call fun r P' hs ↦ ih r hs

/-- A part whose exceptions are caught. -/
theorem Ensures.tryCatch {Q₁ Q : Except ε β → World Op ε ρ σ → Prop} {p : Prog Op ε β}
    {h : ε → Prog Op ε β} (hp : Ensures S T K i Q₁ p P)
    (hh : ∀ e, Ensures S T K i Q (h e) (Q₁ (.error e)))
    (hok : ∀ b w, K.here w → Q₁ (.ok b) w → Q (.ok b) w) :
    Ensures S T K i Q (p.tryCatch h) P := by
  induction p generalizing P with
  | done r =>
    cases r with
    | ok b => exact ensures_done hp.1 fun w hw hP ↦ hok b w hw (hp.2 w hw hP)
    | error e => exact (hh e).pre hp.1 hp.2
  | call op k ih => exact hp.call fun r P' hs ↦ ih r hs

/-- A part with a last call, which may raise itself. -/
theorem Ensures.lastCall {M Q : Except ε β → World Op ε ρ σ → Prop} {p : Prog Op ε β} {op : Op Unit}
    (hp : Ensures S T K i M p P) (hQ : ∀ r, Stable S T K i (Q r))
    (hpre : ∀ r w, K.here w → M r w → K.pre i op w)
    (hlose : ∀ r w, K.here w → M r w → T.lose i w → K.gone i w ∧ ∀ e, Q (.error e) w)
    (hnext : ∀ r w d, K.here w → M r w → T.may i op d w → S.admits d w.state = true →
      Q r (S.after i op d w) ∧ ∀ e, Q (.error e) (S.after i op d w)) :
    Ensures S T K i Q (p.ensuring op) P := by
  induction p generalizing P with
  | done r =>
    refine ⟨hp.1, fun w hw hP ↦ ?_⟩
    have hr := hp.2 w hw hP
    refine ⟨hpre r w hw hr, fun hl ↦ ?_, fun d hd hm ↦ ?_⟩
    · obtain ⟨hgone, he⟩ := hlose r w hw hr hl
      exact ⟨hgone, fun e ↦ ⟨_, he e, ensures_done (hQ _) fun _ _ h ↦ h⟩⟩
    · obtain ⟨hok, he⟩ := hnext r w d hw hr hm hd
      cases (S.exec d op w.state).1 with
      | ok _ => exact ⟨_, hok, ensures_done (hQ _) fun _ _ h ↦ h⟩
      | error e => exact ⟨_, he e, ensures_done (hQ _) fun _ _ h ↦ h⟩
  | call op' k ih => exact hp.call fun r P' hs ↦ ih r hs

/-- The same, when the last call leaves what is known. -/
theorem Ensures.ensuring {Q : Except ε β → World Op ε ρ σ → Prop} {p : Prog Op ε β} {op : Op Unit}
    (hp : Ensures S T K i Q p P) (hQ : ∀ r, Stable S T K i (Q r))
    (hpre : ∀ r w, K.here w → Q r w → K.pre i op w)
    (hlose : ∀ r w, K.here w → Q r w → T.lose i w → K.gone i w ∧ ∀ e, Q (.error e) w)
    (hnext : ∀ r w d, K.here w → Q r w → T.may i op d w → S.admits d w.state = true →
      Q r (S.after i op d w) ∧ ∀ e, Q (.error e) (S.after i op d w)) :
    Ensures S T K i Q (p.ensuring op) P := hp.lastCall hQ hpre hlose hnext

end Calls.Contract
