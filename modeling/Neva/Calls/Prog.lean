import Mathlib.Logic.Basic

/-!
# Programs that make calls

A service method talks to the world only through the calls of some interface: a query, an update,
a file write.  Between two calls it computes; during a call anything else may happen.  A
`Calls.Prog Op ε α` is such a method with everything but the calls evaluated away: it has either
finished, with a value or an exception, or it makes one call and goes on with what the call
answered — which may itself be an exception, since a call can raise.

`Op : Type → Type` is the interface: `op : Op β` is a call together with its arguments, and `β` is
what it answers.  What the calls *do* is not part of a program; `Calls.System` supplies that, and
decides how the calls of several programs interleave.
-/

set_option autoImplicit false

namespace Calls

/-- A program over the interface `Op`, raising exceptions in `ε` and returning an `α`. -/
inductive Prog (Op : Type → Type) (ε α : Type) : Type 1
  /-- The program has returned or raised. -/
  | done (r : Except ε α)
  /-- The program makes the call `op` and continues with its answer. -/
  | call {β : Type} (op : Op β) (k : Except ε β → Prog Op ε α)

namespace Prog

variable {Op : Type → Type} {ε α β : Type}

/-- Sequencing.  An exception skips the rest. -/
def bind : Prog Op ε α → (α → Prog Op ε β) → Prog Op ε β
  | done (.ok a), f => f a
  | done (.error e), _ => done (.error e)
  | call op k, f => call op fun r ↦ (k r).bind f

/-- `try p except e: h e`. -/
def tryCatch : Prog Op ε α → (ε → Prog Op ε α) → Prog Op ε α
  | done (.ok a), _ => done (.ok a)
  | done (.error e), h => h e
  | call op k, h => call op fun r ↦ (k r).tryCatch h

/-- `try p finally op`: the call `op` is made however `p` ends. -/
def ensuring : Prog Op ε α → Op Unit → Prog Op ε α
  | done r, op => call op fun
    | .ok _ => done r
    | .error e => done (.error e)
  | call op k, final => call op fun r ↦ (k r).ensuring final

/-- The program over a larger interface. -/
def lift {Op' : Type → Type} (f : {β : Type} → Op β → Op' β) : Prog Op ε α → Prog Op' ε α
  | done r => done r
  | call op k => call (f op) fun r ↦ (k r).lift f

instance : Monad (Prog Op ε) where
  pure a := done (.ok a)
  bind := Prog.bind

/-- Raise an exception. -/
def raise (e : ε) : Prog Op ε α := done (.error e)

/-- The program that makes one call and returns its answer. -/
def perform (op : Op β) : Prog Op ε β := call op done

@[simp] theorem pure_bind' (a : α) (f : α → Prog Op ε β) :
    ((pure a : Prog Op ε α) >>= f) = f a := rfl

/-- What follows a call, once it has answered. -/
def after (f : β → Prog Op ε α) : Except ε β → Prog Op ε α
  | .ok b => f b
  | .error e => done (.error e)

theorem perform_bind (op : Op β) (f : β → Prog Op ε α) :
    (perform op >>= f) = call op (after f) := by
  show call op (fun r ↦ (done r).bind f) = call op (after f)
  congr 1
  ext r
  cases r with
  | ok b => rfl
  | error e => rfl

theorem bind_assoc {γ : Type} (p : Prog Op ε α) (f : α → Prog Op ε β) (g : β → Prog Op ε γ) :
    ((p >>= f) >>= g) = (p >>= fun a ↦ f a >>= g) := by
  induction p with
  | done r =>
    cases r with
    | ok a => rfl
    | error e => rfl
  | call op k ih =>
    show call op (fun r ↦ ((k r).bind f).bind g) = call op (fun r ↦ (k r).bind fun a ↦ (f a).bind g)
    congr 1
    ext r
    exact ih r

end Prog

end Calls
