import Neva.Calls.System

/-!
# What a program does, whatever its calls answer

`Prog.Always P Q h p` says of a program alone, with nothing said about what its calls do: whatever
they answer, every call of `p` satisfies `P`, and its result satisfies `Q`.  Both are told what has
been called so far, newest first, with the answers; `h` is what was called before.

There is one rule for each way of putting programs together.  `Always.mem_past` draws the
consequence for a single run, in which the calls are answered by `answers`.  `Prog.Completes` is
about the other extreme: nothing raises, and the answers are what one would wish for.
-/

set_option autoImplicit false

namespace Calls

namespace Prog

variable {Op : Type → Type} {ε α β : Type}

/-- The result of a program, whether it returns or raises. -/
def catching : Prog Op ε α → Prog Op ε (Except ε α)
  | done r => done (.ok r)
  | call op k => call op fun r ↦ (k r).catching

/-- `try p finally cleanup` -/
def finallyDo (p : Prog Op ε α) (cleanup : Prog Op ε Unit) : Prog Op ε α := do
  let r ← p.catching
  cleanup
  done r

/-- One call after the other. -/
def forEach (xs : List β) (f : β → Prog Op ε Unit) : Prog Op ε Unit :=
  match xs with
  | [] => pure ()
  | x :: xs => f x >>= fun _ ↦ forEach xs f

/-- Every call satisfies `P`, and the result satisfies `Q`. -/
def Always (P : List (Past Op ε) → {β : Type} → Op β → Prop)
    (Q : List (Past Op ε) → Except ε α → Prop) : List (Past Op ε) → Prog Op ε α → Prop
  | h, done r => Q h r
  | h, call op k => P h op ∧ ∀ r, Always P Q (⟨op, r⟩ :: h) (k r)

variable {P : List (Past Op ε) → {β : Type} → Op β → Prop} {h : List (Past Op ε)}

theorem Always.mono {Q Q' : List (Past Op ε) → Except ε α → Prop} {p : Prog Op ε α}
    (hp : Always P Q h p) (himp : ∀ h' r, h <:+ h' → Q h' r → Q' h' r) : Always P Q' h p := by
  induction p generalizing h with
  | done r => exact himp h r (List.suffix_refl h) hp
  | call op k ih =>
    exact ⟨hp.1, fun r ↦ ih r (hp.2 r) fun h' r' hh' ↦
      himp h' r' ((List.suffix_cons _ _).trans hh')⟩

/-- Calls are only added. -/
theorem always_suffix (p : Prog Op ε α) :
    Always (fun _ _ _ ↦ True) (fun h' _ ↦ h <:+ h') h p := by
  induction p generalizing h with
  | done r => exact List.suffix_refl h
  | call op k ih =>
    exact ⟨trivial, fun r ↦ (ih r).mono fun _ _ _ hh' ↦ (List.suffix_cons _ _).trans hh'⟩

/-- Two things that are true of the result. -/
theorem Always.and {P' : List (Past Op ε) → {β : Type} → Op β → Prop}
    {Q Q' : List (Past Op ε) → Except ε α → Prop} {p : Prog Op ε α} (hp : Always P Q h p)
    (hp' : Always P' Q' h p) : Always P (fun h' r ↦ Q h' r ∧ Q' h' r) h p := by
  induction p generalizing h with
  | done r => exact ⟨hp, hp'⟩
  | call op k ih => exact ⟨hp.1, fun r ↦ ih r (hp.2 r) (hp'.2 r)⟩

theorem always_perform {Q : List (Past Op ε) → Except ε β → Prop} {op : Op β} (hop : P h op)
    (hQ : ∀ r, Q (⟨op, r⟩ :: h) r) : Always P Q h (perform op) :=
  ⟨hop, hQ⟩

/-- One part after the other.  A part that raises ends the program. -/
theorem Always.bind {I : List (Past Op ε) → Except ε α → Prop}
    {Q : List (Past Op ε) → Except ε β → Prop} {p : Prog Op ε α} {f : α → Prog Op ε β}
    (hp : Always P I h p)
    (hf : ∀ h' a, h <:+ h' → I h' (.ok a) → Always P Q h' (f a))
    (he : ∀ h' e, h <:+ h' → I h' (.error e) → Q h' (.error e)) : Always P Q h (p >>= f) := by
  induction p generalizing h with
  | done r =>
    cases r with
    | ok a => exact hf h a (List.suffix_refl h) hp
    | error e => exact he h e (List.suffix_refl h) hp
  | call op k ih =>
    exact ⟨hp.1, fun r ↦ ih r (hp.2 r)
      (fun h' a hh' ↦ hf h' a ((List.suffix_cons _ _).trans hh'))
      fun h' e hh' ↦ he h' e ((List.suffix_cons _ _).trans hh')⟩

/-- A part whose exceptions are caught. -/
theorem Always.tryCatch {I Q : List (Past Op ε) → Except ε α → Prop} {p : Prog Op ε α}
    {handler : ε → Prog Op ε α} (hp : Always P I h p)
    (hok : ∀ h' a, h <:+ h' → I h' (.ok a) → Q h' (.ok a))
    (he : ∀ h' e, h <:+ h' → I h' (.error e) → Always P Q h' (handler e)) :
    Always P Q h (p.tryCatch handler) := by
  induction p generalizing h with
  | done r =>
    cases r with
    | ok a => exact hok h a (List.suffix_refl h) hp
    | error e => exact he h e (List.suffix_refl h) hp
  | call op k ih =>
    exact ⟨hp.1, fun r ↦ ih r (hp.2 r)
      (fun h' a hh' ↦ hok h' a ((List.suffix_cons _ _).trans hh'))
      fun h' e hh' ↦ he h' e ((List.suffix_cons _ _).trans hh')⟩

theorem Always.catching {Q : List (Past Op ε) → Except ε α → Prop} {p : Prog Op ε α}
    (hp : Always P Q h p) : Always P (fun h' r ↦ ∃ a, r = .ok a ∧ Q h' a) h p.catching := by
  induction p generalizing h with
  | done r => exact ⟨r, rfl, hp⟩
  | call op k ih => exact ⟨hp.1, fun r ↦ ih r (hp.2 r)⟩

/-- A part with something that is done in any case. -/
theorem Always.finallyDo {I Q : List (Past Op ε) → Except ε α → Prop} {p : Prog Op ε α}
    {cleanup : Prog Op ε Unit} (hp : Always P I h p)
    (hc : ∀ h' r, h <:+ h' → I h' r →
      Always P (fun h'' c ↦ Q h'' (c >>= fun _ ↦ r)) h' cleanup) :
    Always P Q h (p.finallyDo cleanup) := by
  refine hp.catching.bind (fun h' r hh' hr ↦ ?_) fun h' e _ hr ↦ ?_
  · obtain ⟨r, heq, hr⟩ := hr
    cases heq
    exact (hc h' _ hh' hr).bind (fun _ _ _ hQ ↦ hQ) fun _ _ _ hQ ↦ hQ
  · obtain ⟨r, heq, -⟩ := hr
    cases heq

/-- A part with a last call. -/
theorem Always.ensuring {I Q : List (Past Op ε) → Except ε α → Prop} {p : Prog Op ε α}
    {op : Op Unit} (hp : Always P I h p)
    (hcall : ∀ h' r, h <:+ h' → I h' r → P h' op)
    (hok : ∀ h' r u, I h' r → Q (⟨op, .ok u⟩ :: h') r)
    (he : ∀ h' r e, I h' r → Q (⟨op, .error e⟩ :: h') (.error e)) :
    Always P Q h (p.ensuring op) := by
  induction p generalizing h with
  | done r =>
    refine ⟨hcall h r (List.suffix_refl h) hp, fun answer ↦ ?_⟩
    cases answer with
    | ok u => exact hok h r u hp
    | error e => exact he h r e hp
  | call op' k ih =>
    exact ⟨hp.1,
      fun r ↦ ih r (hp.2 r) fun h' r' hh' ↦ hcall h' r' ((List.suffix_cons _ _).trans hh')⟩

/-! ## What a program can come to -/

/-- If its calls return what they can, the program returns a value in `Q`. -/
def Completes (Q : α → Prop) : Prog Op ε α → Prop
  | done (.ok a) => Q a
  | done (.error _) => False
  | call _ k => ∃ b, Completes Q (k (.ok b))

theorem completes_perform {Q : β → Prop} {op : Op β} {b : β} (hb : Q b) :
    (perform op : Prog Op ε β).Completes Q :=
  ⟨b, hb⟩

theorem Completes.bind {R : α → Prop} {Q : β → Prop} {p : Prog Op ε α} {f : α → Prog Op ε β}
    (hp : p.Completes R) (hf : ∀ a, R a → (f a).Completes Q) : (p >>= f).Completes Q := by
  induction p with
  | done r =>
    cases r with
    | ok a => exact hf a hp
    | error e => exact hp.elim
  | call op k ih =>
    obtain ⟨b, hb⟩ := hp
    exact ⟨b, ih (.ok b) hb⟩

theorem Completes.tryCatch {Q : α → Prop} {p : Prog Op ε α} {handler : ε → Prog Op ε α}
    (hp : p.Completes Q) : (p.tryCatch handler).Completes Q := by
  induction p with
  | done r =>
    cases r with
    | ok a => exact hp
    | error e => exact hp.elim
  | call op k ih =>
    obtain ⟨b, hb⟩ := hp
    exact ⟨b, ih (.ok b) hb⟩

theorem Completes.ensuring {Q : α → Prop} {p : Prog Op ε α} {op : Op Unit} (hp : p.Completes Q) :
    (p.ensuring op).Completes Q := by
  induction p with
  | done r =>
    cases r with
    | ok a => exact ⟨(), hp⟩
    | error e => exact hp.elim
  | call op' k ih =>
    obtain ⟨b, hb⟩ := hp
    exact ⟨b, ih (.ok b) hb⟩

theorem not_completes_raise {Q : α → Prop} {e : ε} : ¬(raise e : Prog Op ε α).Completes Q := id

/-! ## Runs -/

/-- The run in which the calls are answered so: what was called, and the result. -/
def outcome (answers : List (Past Op ε) → {β : Type} → Op β → Except ε β) :
    List (Past Op ε) → Prog Op ε α → List (Past Op ε) × Except ε α
  | h, done r => (h, r)
  | h, call op k => outcome answers (⟨op, answers h op⟩ :: h) (k (answers h op))

/-- In every run, the result satisfies what all results do. -/
theorem Always.result {Q : List (Past Op ε) → Except ε α → Prop} {p : Prog Op ε α}
    (hp : Always P Q h p) (answers : List (Past Op ε) → {β : Type} → Op β → Except ε β) :
    Q (outcome answers h p).1 (outcome answers h p).2 := by
  induction p generalizing h with
  | done r => exact hp
  | call op k ih => exact ih (answers h op) (hp.2 (answers h op))

/-- In every run, every call satisfies what all calls do. -/
theorem Always.mem_past {C : {β : Type} → Op β → Prop}
    {Q : List (Past Op ε) → Except ε α → Prop} {p : Prog Op ε α} (hp : Always P Q h p)
    (himp : ∀ h' {β : Type} (op : Op β), P h' op → C op)
    (answers : List (Past Op ε) → {β : Type} → Op β → Except ε β) (hh : ∀ c ∈ h, C c.op) :
    ∀ c ∈ (outcome answers h p).1, C c.op := by
  induction p generalizing h with
  | done r => exact hh
  | call op k ih =>
    refine ih _ (hp.2 _) fun c hc ↦ ?_
    rcases List.mem_cons.mp hc with rfl | hc
    · exact himp h op hp.1
    · exact hh c hc

end Prog

end Calls
