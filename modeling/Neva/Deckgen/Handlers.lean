import Neva.Calls.Histories
import Neva.Deckgen.Build

/-!
# When a build comes to its handlers

A handler that marks a deck failed runs after an exception.  `Careful` says what this means for the
calls of a program, whatever they answer: a handler runs only if a call has raised or nothing has
been published, and nothing is published once a call has raised.  `Commission.careful` says that
every program keeps to it, with one rule for each part of a build, in the order of
`Neva.Deckgen.Build`.
-/

set_option autoImplicit false

namespace Neva.Deckgen

open Calls

/-! ## What a history says -/

/-- The deck a transaction publishes. -/
def Transaction.publishes : Transaction → Option Uuid
  | .finalizeProgressive deckId _ _ | .publish deckId _ _ _ _ => some deckId
  | _ => none

/-- The deck a call publishes. -/
def DeckOp.publishes : {β : Type} → DeckOp β → Option Uuid
  | _, .commit tx => tx.publishes
  | _, _ => none

/-- The identifier of a new deck. -/
def drawnDeck : {β : Type} → DeckOp β → Except DeckError β → Option Uuid
  | _, .uuid4, .ok u => some u
  | _, _, _ => none

/-- A build that has been given `deck`, and has made these calls, is about the deck `u`. -/
def About (deck : Option Uuid) (h : List (Past DeckOp DeckError)) (u : Uuid) : Prop :=
  deck = some u ∨ ∃ a ∈ h, drawnDeck a.op a.answer = some u

/-- The deck a build is to fill. -/
def Target.deck : Target → Option Uuid
  | .atomic deckId => deckId
  | .progressive deckId => some deckId

/-- The deck a program is given. -/
def Commission.deck : Commission → Option Uuid
  | .runGeneration deckId _ => some deckId
  | .runPromptGeneration o | .buildFromPrompt o => some o.deckId
  | .build o => o.deckId
  | .startGeneration _ | .activate _ => none

/-- A deck has been published, and no call has raised. -/
structure Smooth (h : List (Past DeckOp DeckError)) : Prop where
  answered : Answered h
  published : ∃ a ∈ h, a.op.publishes ≠ none

/-- No deck has been published, and no call has raised. -/
structure Underway (h : List (Past DeckOp DeckError)) : Prop where
  answered : Answered h
  unpublished : ∀ a ∈ h, a.op.publishes = none

variable {h h' : List (Past DeckOp DeckError)} {deck : Option Uuid} {u : Uuid}

theorem About.mono (ha : About deck h u) (hh : h <:+ h') : About deck h' u :=
  ha.imp_right fun ⟨a, hmem, hdrawn⟩ ↦ ⟨a, hh.subset hmem, hdrawn⟩

theorem Underway.not_smooth (hu : Underway h) : ¬Smooth h := by
  rintro ⟨-, a, ha, hpublishes⟩
  exact hpublishes (hu.unpublished a ha)

theorem not_smooth_of_error {β : Type} (op : DeckOp β) (e : DeckError) :
    ¬Smooth (⟨op, .error e⟩ :: h) := by
  rintro ⟨hanswered, -⟩
  obtain ⟨b, hb⟩ := hanswered _ List.mem_cons_self
  cases hb

/-- What a call that publishes nothing leaves true when it returns. -/
def Kept (G : List (Past DeckOp DeckError) → Prop) : Prop :=
  ∀ h {β : Type} (op : DeckOp β) (b : β), op.publishes = none → G h → G (⟨op, .ok b⟩ :: h)

theorem answered_kept : Kept Answered := fun _ _ op b _ hh ↦ hh.cons op b

theorem underway_kept : Kept Underway := fun _ _ op b hop hh ↦
  ⟨hh.answered.cons op b, List.forall_mem_cons.mpr ⟨hop, hh.unpublished⟩⟩

theorem not_smooth_kept : Kept fun h ↦ ¬Smooth h := by
  rintro h β op b hop hh ⟨hanswered, a, ha, hpublishes⟩
  refine hh ⟨fun a ha ↦ hanswered a (List.mem_cons_of_mem _ ha), a, ?_, hpublishes⟩
  rcases List.mem_cons.mp ha with rfl | ha
  · exact absurd hop hpublishes
  · exact ha

/-! ## Handlers and publications -/

/-- A handler runs only in a build that has not gone smoothly, and a build publishes its deck only
as long as no call has raised. -/
def Careful (deck : Option Uuid) (h : List (Past DeckOp DeckError)) :
    {β : Type} → DeckOp β → Prop
  | _, .commit (.adminMarkFailed deckId _) | _, .commit (.failPublication deckId _ _ _) =>
    ¬Smooth h ∧ About deck h deckId
  | _, .commit (.finalizeProgressive deckId _ _) | _, .commit (.publish deckId _ _ _ _) =>
    Answered h ∧ About deck h deckId
  | _, _ => True

theorem Careful.answered {β : Type} {op : DeckOp β} (hc : Careful deck h op)
    (hop : op.publishes ≠ none) : Answered h := by
  cases op with
  | commit tx =>
    cases tx with
    | finalizeProgressive | publish => exact hc.1
    | updateGenerationState | persistCard | failPublication | publisherMarkFailed
    | adminMarkFailed => exact absurd rfl hop
  | await | createGenerating | activate | uuid4 | imageVerified | inventConcepts | selectDecoys =>
    exact absurd rfl hop

/-- A call that is neither of a handler nor a publication. -/
def DeckOp.Plain : {β : Type} → DeckOp β → Prop
  | _, .commit (.updateGenerationState _ _) | _, .commit (.persistCard _ _)
  | _, .commit (.publisherMarkFailed _ _) => True
  | _, .commit _ => False
  | _, _ => True

theorem DeckOp.Plain.careful {β : Type} {op : DeckOp β} (hop : op.Plain) : Careful deck h op := by
  cases op with
  | commit tx =>
    cases tx with
    | updateGenerationState | persistCard | publisherMarkFailed => trivial
    | finalizeProgressive | publish | failPublication | adminMarkFailed => exact hop.elim
  | await | createGenerating | activate | uuid4 | imageVerified | inventConcepts | selectDecoys =>
    trivial

theorem DeckOp.Plain.publishes {β : Type} {op : DeckOp β} (hop : op.Plain) :
    op.publishes = none := by
  cases op with
  | commit tx =>
    cases tx with
    | updateGenerationState | persistCard | publisherMarkFailed => rfl
    | finalizeProgressive | publish | failPublication | adminMarkFailed => exact hop.elim
  | await | createGenerating | activate | uuid4 | imageVerified | inventConcepts | selectDecoys =>
    rfl

/-- A part of a build that returns with `G`, or raises and has not gone smoothly. -/
abbrev Heeds (deck : Option Uuid) (G : List (Past DeckOp DeckError) → Prop) {β : Type}
    (h : List (Past DeckOp DeckError)) (p : Build β) : Prop :=
  p.Always (Careful deck) (fun h' r ↦ (∀ b, r = .ok b → G h') ∧ ∀ e, r = .error e → ¬Smooth h') h

namespace Heeds

variable {G G' : List (Past DeckOp DeckError) → Prop} {β γ : Type}

theorem pure (b : β) (hh : G h) : Heeds deck G h (Pure.pure b : Build β) :=
  ⟨fun _ _ ↦ hh, fun _ he ↦ by cases he⟩

theorem raise (e : DeckError) (hh : ¬Smooth h) : Heeds deck G h (Prog.raise e : Build β) :=
  ⟨fun _ hb ↦ (by cases hb), fun _ _ ↦ hh⟩

theorem perform {op : DeckOp β} (hop : Careful deck h op) (hG : ∀ b, G (⟨op, .ok b⟩ :: h)) :
    Heeds deck G h (Prog.perform op) := by
  refine Prog.always_perform hop fun r ↦ ⟨?_, ?_⟩
  · rintro b rfl
    exact hG b
  · rintro e rfl
    exact not_smooth_of_error op e

theorem plain {op : DeckOp β} (hop : op.Plain) (hG : Kept G) (hh : G h) :
    Heeds deck G h (Prog.perform op) :=
  perform hop.careful fun b ↦ hG h op b hop.publishes hh

theorem andThen {p : Build β} {f : β → Build γ} (hp : Heeds deck G' h p)
    (hf : ∀ h' b, h <:+ h' → G' h' → Heeds deck G h' (f b)) : Heeds deck G h (p >>= f) :=
  Prog.Always.bind hp (fun h' b hh' hb ↦ hf h' b hh' (hb.1 b rfl))
    fun _ e _ he ↦ ⟨fun _ hb ↦ (by cases hb), fun _ _ ↦ he.2 e rfl⟩

theorem tryCatch {p : Build β} {handler : DeckError → Build β} (hp : Heeds deck G h p)
    (hh : ∀ h' e, h <:+ h' → ¬Smooth h' → Heeds deck G h' (handler e)) :
    Heeds deck G h (p.tryCatch handler) :=
  Prog.Always.tryCatch hp (fun _ _ _ hb ↦ hb) fun h' e hh' he ↦ hh h' e hh' (he.2 e rfl)

theorem closing {p : Build β} (hp : Heeds deck G h p) (hG : Kept G) :
    Heeds deck G h (p.ensuring (.await .close)) := by
  refine Prog.Always.ensuring hp (fun _ _ _ _ ↦ trivial) (fun h' r u hr ↦ ⟨fun b hb ↦ ?_,
    fun e he ↦ ?_⟩) fun h' r e hr ↦ ⟨fun _ hb ↦ (by cases hb), fun _ _ ↦ not_smooth_of_error _ e⟩
  · exact hG h' _ u rfl (hr.1 b hb)
  · exact not_smooth_kept h' _ u rfl (hr.2 e he)

/-! ### The publisher -/

theorem connected {p : Build Unit} (hG : Kept G) (hG' : Kept G') (hh : G h)
    (hp : ∀ h', h <:+ h' → G h' → Heeds deck G' h' p) : Heeds deck G' h (Deckgen.connected p) :=
  andThen (plain trivial hG hh) fun h' _ hh' hG ↦ (hp h' hh' hG).closing hG'

/-- A single statement with a connection of its own. -/
theorem statement {op : DeckOp Unit} (hop : op.Plain) (hG : Kept G) (hh : G h) :
    Heeds deck G h (Deckgen.connected (Prog.perform op)) :=
  connected hG hG hh fun _ _ hh' ↦ plain hop hG hh'

/-- In a handler, whose build has not gone smoothly, nothing else can go wrong. -/
theorem swallow {p : Build Unit} (hp : Heeds deck (fun h ↦ ¬Smooth h) h p) :
    Heeds deck (fun h ↦ ¬Smooth h) h (Deckgen.swallow p) :=
  hp.tryCatch fun _ _ _ hh' ↦ pure () hh'

/-- The publisher marks the deck failed, and the error goes on. -/
theorem markFailed (deckId : Uuid) (reason : Text) (e : DeckError) (hh : ¬Smooth h) :
    Heeds deck G h (do
      Deckgen.swallow (PostgresPublisher.markFailed deckId reason)
      Prog.raise e : Build β) :=
  andThen (swallow (statement trivial not_smooth_kept hh)) fun _ _ _ hh' ↦ raise e hh'

theorem markFailedAndRaise (deckId : Option Uuid) (e : DeckError) (hh : ¬Smooth h) :
    Heeds deck G h (Deckgen.markFailedAndRaise deckId e : Build β) := by
  cases deckId with
  | none => exact raise e hh
  | some deckId => exact markFailed deckId _ e hh

theorem publishInto {deckId : Uuid} {provided : Bool} {doc : Json} {cards : List CardRow}
    {final : FinalStatus} (hdeck : About deck h deckId) (hh : Underway h) :
    Heeds deck Answered h (PostgresPublisher.publishInto deckId provided doc cards final) := by
  have hbefore : Heeds deck Underway h (do
      Prog.perform (.await .stageImages)
      Prog.perform (.await .connect)) :=
    andThen (plain trivial underway_kept hh) fun _ _ _ hh' ↦ plain trivial underway_kept hh'
  refine andThen (hbefore.tryCatch fun h' e _ hh' ↦ ?_) fun h' _ hsuffix hh' ↦ ?_
  · cases provided with
    | true => exact markFailed deckId _ e hh'
    | false => exact raise e hh'
  · have hdeck' := hdeck.mono hsuffix
    have htx : Heeds deck Answered h' (do
        Prog.perform (.commit (.publish deckId provided doc cards final))
        Prog.perform (.await .report)) :=
      andThen (perform ⟨hh'.answered, hdeck'⟩ fun b ↦ hh'.answered.cons _ b)
        fun _ _ _ hanswered ↦ plain trivial answered_kept hanswered
    refine (htx.tryCatch fun h'' e hsuffix' hsmooth ↦ ?_).closing answered_kept
    exact andThen (swallow (perform ⟨hsmooth, hdeck'.mono hsuffix'⟩ fun b ↦
      not_smooth_kept h'' _ b rfl hsmooth)) fun _ _ _ hsmooth' ↦ raise e hsmooth'

theorem publish {deckId : Option Uuid} {doc : Json} {cards : Uuid → List CardRow}
    {final : FinalStatus} (hh : Underway h) :
    Heeds deckId Answered h (PostgresPublisher.publish deckId doc cards final) := by
  cases deckId with
  | some deckId => exact publishInto (.inl rfl) hh
  | none =>
    rw [PostgresPublisher.publish, Prog.perform_bind]
    refine ⟨trivial, fun r ↦ ?_⟩
    cases r with
    | ok deckId =>
      exact publishInto (.inr ⟨_, List.mem_cons_self, rfl⟩) (underway_kept h .uuid4 deckId rfl hh)
    | error e => exact raise e (not_smooth_of_error _ e)

/-! ### The pipeline -/

theorem persist (target : Target) (card : BuiltCard) (hh : Underway h) :
    Heeds deck Underway h (target.persist card) := by
  cases target with
  | atomic deckId => exact pure () hh
  | progressive deckId =>
    exact andThen (plain trivial underway_kept hh) fun _ _ _ hh' ↦
      statement trivial underway_kept hh'

theorem gather (target : Target) (n : ℕ) (tasks : List Task) (hh : Underway h) :
    Heeds deck Underway h (Deckgen.gather target n tasks) := by
  induction n generalizing tasks h with
  | zero => exact pure _ hh
  | succ n ih =>
    refine andThen (plain trivial underway_kept hh) fun h' drawn _ hh' ↦ ?_
    obtain ⟨m, cardId⟩ := drawn
    dsimp only
    cases tasks[m]? with
    | none => exact raise _ hh'.not_smooth
    | some task => exact andThen (persist target _ hh') fun _ _ _ hh'' ↦ ih _ hh''

theorem assignDecoys (built : List BuiltCard) (hh : Underway h) :
    Heeds deck Underway h (Deckgen.assignDecoys built) := by
  refine andThen (plain trivial underway_kept hh) fun h' rows _ hh' ↦ ?_
  cases selectDecoysBatch built rows >>= mapDecoyConceptsToCardUuids built with
  | error e => exact raise _ hh'.not_smooth
  | ok mapping => exact pure _ hh'

theorem finish (target : Target) (doc : Json) (built : List BuiltCard) (mapping : Mapping)
    (final : FinalStatus) (hh : Underway h) :
    Heeds target.deck Answered h (target.finish doc built mapping final) := by
  cases target with
  | atomic deckId => exact publish hh
  | progressive deckId =>
    refine connected underway_kept answered_kept hh fun h' _ hh' ↦ ?_
    exact andThen (perform ⟨hh'.answered, .inl rfl⟩ fun b ↦ hh'.answered.cons _ b)
      fun _ _ _ hanswered ↦ plain trivial answered_kept hanswered

theorem buildCards (o : BuildOrder) (target : Target) (concepts : List Concept)
    (hh : Underway h) : Heeds target.deck Answered h (Deckgen.buildCards o target concepts) := by
  have hstate (deckId : Uuid) (doc : Option Json) {h : List (Past DeckOp DeckError)}
      (hh : Underway h) :
      Heeds target.deck Underway h (PostgresPublisher.updateGenerationState deckId doc) :=
    statement trivial underway_kept hh
  have hcards (describe recount : Build Unit) (hdescribe : Heeds target.deck Underway h describe)
      (hrecount : ∀ h', Underway h' → Heeds target.deck Underway h' recount) :
      Heeds target.deck Answered h (do
        describe
        Prog.perform (.await .translateLabels)
        let built ← Deckgen.gather target concepts.length (concepts.map fun concept ↦ { concept })
        recount
        let decoyUuids ← Deckgen.assignDecoys built
        target.finish (Json.obj (buildGenerationInput o.details concepts)) built decoyUuids
          o.final) :=
    andThen hdescribe fun _ _ _ hh ↦ andThen (plain trivial underway_kept hh) fun _ _ _ hh ↦
      andThen (gather target _ _ hh) fun _ built _ hh ↦ andThen (hrecount _ hh) fun _ _ _ hh ↦
        andThen (assignDecoys built hh) fun _ mapping _ hh ↦ finish target _ built mapping _ hh
  cases target with
  | atomic deckId => exact hcards _ _ (pure () hh) fun _ hh ↦ pure () hh
  | progressive deckId => exact hcards _ _ (hstate deckId _ hh) fun _ hh ↦ hstate deckId none hh

theorem buildAttempt (o : BuildOrder) (target : Target) (hh : Underway h) :
    Heeds target.deck Answered h (Deckgen.buildAttempt o target) := by
  rw [Deckgen.buildAttempt]
  split
  · exact raise _ hh.not_smooth
  · exact buildCards o target _ hh

theorem buildInto (o : BuildOrder) (target : Target) (hh : Underway h) :
    Heeds target.deck Answered h (Deckgen.buildInto o target) :=
  andThen (plain trivial underway_kept hh) fun _ _ _ hh ↦
    andThen ((buildAttempt o target hh).tryCatch fun _ e _ hh ↦ markFailedAndRaise o.deckId e hh)
      fun _ _ _ hh ↦ plain trivial answered_kept hh

theorem buildFor (o : BuildOrder) (target : Target) (hh : Underway h) :
    Heeds target.deck Answered h (Deckgen.buildFor o target) := by
  rw [Deckgen.buildFor]
  split
  · exact raise _ hh.not_smooth
  · exact buildInto o target hh

theorem buildDeck (o : BuildOrder) (hh : Underway h) :
    Heeds o.deckId Answered h (Deckgen.buildDeck o) := by
  rw [Deckgen.buildDeck]
  split
  · exact raise _ hh.not_smooth
  · rename_i deckId _ hdeck
    rw [hdeck]
    exact buildFor o (.progressive deckId) hh
  · exact buildFor o (.atomic o.deckId) hh

theorem buildDeckFromPrompt (o : PromptOrder) (hh : Underway h) :
    Heeds (some o.deckId) Answered h (Deckgen.buildDeckFromPrompt o) := by
  refine andThen (plain trivial underway_kept hh) fun h' _ _ hh ↦ ?_
  have hinvent : Heeds (some o.deckId) Underway h' (Deckgen.inventAttempt o) := by
    refine andThen (statement trivial underway_kept hh) fun _ _ _ hh ↦ ?_
    split
    · exact raise _ hh.not_smooth
    · exact plain trivial underway_kept hh
  exact andThen (hinvent.tryCatch fun _ e _ hh ↦ markFailedAndRaise _ e hh)
    fun _ concepts _ hh ↦ buildDeck (o.order concepts) hh

/-! ### The background tasks -/

/-- Here the error ends. -/
theorem guarded {deckId : Uuid} {p : Build Unit} (hp : Heeds (some deckId) Answered h p) :
    (DeckAdminService.guarded deckId p).Always (Careful (some deckId)) (fun _ _ ↦ True) h :=
  Prog.Always.tryCatch hp (fun _ _ _ _ ↦ trivial) fun _ _ _ he ↦
    Prog.always_perform ⟨he.2 _ rfl, .inl rfl⟩ fun _ ↦ trivial

theorem generate (deckId : Uuid) (request : AdminDeckGenerateRequest) (hh : Underway h) :
    Heeds (some deckId) Answered h (DeckAdminService.generate deckId request) := by
  rw [DeckAdminService.generate]
  split
  · exact raise _ hh.not_smooth
  · exact andThen (buildDeck (DeckAdminService.order deckId request _) hh)
      fun _ _ _ hh ↦ plain trivial answered_kept hh

end Heeds

/-- **Every program is careful with its handlers.** -/
theorem Commission.careful (r : Commission) :
    r.body.Always (Careful r.deck) (fun _ _ ↦ True) [] := by
  have hnew : Underway [] := ⟨answered_nil, by simp⟩
  have hany {G : List (Past DeckOp DeckError) → Prop} (hr : Heeds r.deck G [] r.body) :
      r.body.Always (Careful r.deck) (fun _ _ ↦ True) [] := hr.mono fun _ _ _ _ ↦ trivial
  cases r with
  | startGeneration doc => exact hany (.andThen (.plain trivial underway_kept hnew)
      fun _ _ _ hh ↦ .pure () hh)
  | runGeneration deckId request => exact Heeds.guarded (.generate deckId request hnew)
  | runPromptGeneration o =>
    exact Heeds.guarded (.andThen (.buildDeckFromPrompt { o with final := .ready } hnew)
      fun _ _ _ hh ↦ .plain trivial answered_kept hh)
  | activate deckId => exact hany (.andThen (.plain trivial underway_kept hnew)
      fun _ _ _ hh ↦ .pure () hh)
  | build o => exact hany (.buildDeck o hnew)
  | buildFromPrompt o => exact hany (.buildDeckFromPrompt o hnew)

end Neva.Deckgen
