import Neva.Calls.System

/-!
# Rules for programs that run alone

`System.Ensures` is about a whole request that runs alone.  `System.Ends Q p s` says the same of a
part of one, which ends with a result of its own type: from `s`, however its calls turn out, `p`
ends in a state satisfying `Q`.

There is one rule for each way of putting programs together, as there is for programs that
interleave, but no stability to prove: between two calls nothing happens.
-/

set_option autoImplicit false

namespace Calls.System

variable {Op : Type → Type} {ε ι σ ρ α β γ : Type} (S : System Op ε ι σ ρ α)

/-- However its calls turn out, the part `p` run alone from `s` ends in a state satisfying `Q`. -/
def Ends (Q : Except ε β → σ → Prop) : Prog Op ε β → σ → Prop
  | .done r, s => Q r s
  | .call op k, s => ∀ d, S.admits d s = true →
      Ends Q (k (S.exec d op s).1) (S.exec d op s).2

/-- What holds after a part that returns, and what holds after one that raises. -/
def Outcome (returned : β → σ → Prop) (raised : σ → Prop) : Except ε β → σ → Prop
  | .ok b, s => returned b s
  | .error _, s => raised s

variable {S} {Q Q' : Except ε β → σ → Prop} {p : Prog Op ε β} {s : σ}

@[simp] theorem outcome_ok {returned : β → σ → Prop} {raised : σ → Prop} {b : β} :
    Outcome returned raised (.ok b : Except ε β) s = returned b s := rfl

@[simp] theorem outcome_error {returned : β → σ → Prop} {raised : σ → Prop} {e : ε} :
    Outcome returned raised (.error e : Except ε β) s = raised s := rfl

theorem Ends.ensures {Q : Except ε α → σ → Prop} {p : Prog Op ε α} (h : S.Ends Q p s) :
    S.Ensures Q p s := by
  induction p generalizing s with
  | done r => exact h
  | call op k ih => exact fun d hd ↦ ih _ (h d hd)

/-- A program that is never at a loss for a draw runs to its end. -/
theorem exists_alone (hd : ∀ s, ∃ d, S.admits d s = true) (p : Prog Op ε α) (s : σ) :
    ∃ r s', S.Alone s p r s' := by
  induction p generalizing s with
  | done r => exact ⟨r, s, .done s r⟩
  | call op k ih =>
    obtain ⟨d, hd⟩ := hd s
    obtain ⟨r, s', h⟩ := ih (S.exec d op s).1 (S.exec d op s).2
    exact ⟨r, s', .call hd h⟩

/-- Less may be said afterwards. -/
theorem Ends.post (h : S.Ends Q p s) (himp : ∀ r s', Q r s' → Q' r s') : S.Ends Q' p s := by
  induction p generalizing s with
  | done r => exact himp r s h
  | call op k ih => exact fun d hd ↦ ih _ (h d hd)

theorem ends_perform {op : Op β}
    (h : ∀ d, S.admits d s = true → Q (S.exec d op s).1 (S.exec d op s).2) :
    S.Ends Q (Prog.perform op) s := h

/-- The first call of a part that is written over a smaller interface. -/
theorem ends_lift {Op' : Type → Type} {f : {β : Type} → Op' β → Op β} {op : Op' β}
    {k : β → Prog Op' ε γ} {Q : Except ε γ → σ → Prop}
    (herr : ∀ d e, S.admits d s = true → (S.exec d (f op) s).1 = .error e →
      Q (.error e) (S.exec d (f op) s).2)
    (hok : ∀ d b, S.admits d s = true → (S.exec d (f op) s).1 = .ok b →
      S.Ends Q ((k b).lift f) (S.exec d (f op) s).2) :
    S.Ends Q ((Prog.perform op >>= k).lift f) s := by
  rw [Prog.perform_bind]
  intro d hd
  cases hr : (S.exec d (f op) s).1 with
  | ok b => exact hok d b hd hr
  | error e => exact herr d e hd hr

theorem ends_pure {b : β} (h : Q (.ok b) s) : S.Ends Q (pure b : Prog Op ε β) s := h

theorem ends_raise {e : ε} (h : Q (.error e) s) : S.Ends Q (Prog.raise e : Prog Op ε β) s := h

/-- One part after the other. -/
theorem Ends.bind {M : Except ε β → σ → Prop} {Q : Except ε γ → σ → Prop} {f : β → Prog Op ε γ}
    (hp : S.Ends M p s) (hf : ∀ b s', M (.ok b) s' → S.Ends Q (f b) s')
    (he : ∀ e s', M (.error e) s' → Q (.error e) s') : S.Ends Q (p >>= f) s := by
  induction p generalizing s with
  | done r =>
    cases r with
    | ok b => exact hf b s hp
    | error e => exact he e s hp
  | call op k ih => exact fun d hd ↦ ih _ (hp d hd)

/-- One part after the other, when both leave the same behind if they raise. -/
theorem Ends.andThen {R : β → σ → Prop} {R' : γ → σ → Prop} {raised : σ → Prop}
    {f : β → Prog Op ε γ} (hp : S.Ends (Outcome R raised) p s)
    (hf : ∀ b s', R b s' → S.Ends (Outcome R' raised) (f b) s') :
    S.Ends (Outcome R' raised) (p >>= f) s :=
  hp.bind hf fun _ _ h ↦ h

/-- A part whose exceptions are caught. -/
theorem Ends.tryCatch {M : Except ε β → σ → Prop} {handle : ε → Prog Op ε β}
    (hp : S.Ends M p s) (hok : ∀ b s', M (.ok b) s' → Q (.ok b) s')
    (he : ∀ e s', M (.error e) s' → S.Ends Q (handle e) s') : S.Ends Q (p.tryCatch handle) s := by
  induction p generalizing s with
  | done r =>
    cases r with
    | ok b => exact hok b s hp
    | error e => exact he e s hp
  | call op k ih => exact fun d hd ↦ ih _ (hp d hd)

/-- A part with a last call. -/
theorem Ends.ensuring {M : Except ε β → σ → Prop} {op : Op Unit} (hp : S.Ends M p s)
    (hfinal : ∀ r s' d, M r s' → S.admits d s' = true →
      (∀ u, (S.exec d op s').1 = .ok u → Q r (S.exec d op s').2) ∧
      ∀ e, (S.exec d op s').1 = .error e → Q (.error e) (S.exec d op s').2) :
    S.Ends Q (p.ensuring op) s := by
  induction p generalizing s with
  | done r =>
    intro d hd
    obtain ⟨hok, he⟩ := hfinal r s d hp hd
    cases h : (S.exec d op s).1 with
    | ok u => exact hok u h
    | error e => exact he e h
  | call op' k ih => exact fun d hd ↦ ih _ (hp d hd)

end Calls.System
