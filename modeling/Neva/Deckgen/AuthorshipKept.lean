import Neva.Deckgen.Authorship

/-!
# Builds keep the contract `authorship`

One rule for each part of a build, in the order of `Neva.Deckgen.Build`.  The invariant of the loop
is `Collected`: the cards that are done are exactly the ones this build has drawn, and each has been
offered to the deck or is still in no table.  `draw` adds an identifier nobody has seen, `persist`
deals with it, and `gather` puts the two together for all tasks in whatever order they get done.
After that comes what the decoys add, `finish`, and the error handlers, which have nothing to
establish.
-/

set_option autoImplicit false

namespace Neva.Deckgen

open Calls Tables

namespace Authorship

variable {jsonb : Json.Store} {i : ℕ} {P : Shop → Prop}

/-- A part of a build of program `i`, under the contract. -/
abbrev Does (jsonb : Json.Store) (i : ℕ) {β : Type} (Q : Except DeckError β → Shop → Prop)
    (p : Build β) (P : Shop → Prop) : Prop :=
  authorship.Ensures (workshop jsonb) .any i Q p P

/-- A call of its own that changes nothing program `i` cares about. -/
theorem quiet {β : Type} {op : DeckOp β} (hP : Lasting i P) (hq : op.Quiet)
    (hpre : ∀ w, P w → Rightful i w op) : Does jsonb i (fun _ ↦ P) (Prog.perform op) P :=
  Contract.ensures_perform hP.stable (fun _ ↦ hP.stable) (fun w _ h ↦ hpre w h)
    (fun _ _ h _ ↦ ⟨trivial, fun _ ↦ h⟩)
    fun w _ hw h _ hd ↦ hP w _ (onward_quiet hw.2 (hpre w h) hq hd) h

theorem await (what : Await) (hP : Lasting i P) :
    Does jsonb i (fun _ ↦ P) (Prog.perform (.await what)) P :=
  quiet hP trivial fun _ _ ↦ trivial

/-- Two parts, the first of which establishes something however it ends. -/
theorem andThen {β γ : Type} {P₁ : Shop → Prop} {p : Build β} {f : β → Build γ}
    {Q : Except DeckError γ → Shop → Prop} (hp : Does jsonb i (fun _ ↦ P₁) p P)
    (hf : ∀ b, Does jsonb i Q (f b) P₁) (he : ∀ e w, P₁ w → Q (.error e) w) :
    Does jsonb i Q (p >>= f) P :=
  hp.bind hf fun e w _ h ↦ he e w h

/-- The connection is closed behind a part. -/
theorem connected {Q : Except DeckError Unit → Shop → Prop} {p : Build Unit} (hP : Lasting i P)
    (hp : Does jsonb i Q p P) (hQ : ∀ r, Lasting i (Q r)) (he : ∀ e w, P w → Q (.error e) w)
    (hr : ∀ r e w, Q r w → Q (.error e) w) : Does jsonb i Q (Deckgen.connected p) P := by
  refine andThen (await .connect hP) (fun _ ↦ ?_) he
  refine hp.ensuring (fun r ↦ (hQ r).stable) (fun _ _ _ _ ↦ trivial)
    (fun r w _ h _ ↦ ⟨trivial, fun e ↦ hr r e w h⟩) fun r w d hw h _ hd ↦ ?_
  have ho : Onward i w ((workshop jsonb).after i (.await .close) d w) :=
    onward_quiet hw.2 trivial trivial hd
  exact ⟨hQ r w _ ho h, fun e ↦ hQ _ w _ ho (hr r e w h)⟩

/-- The same for a part that keeps what is known. -/
theorem connected_keeps {p : Build Unit} (hP : Lasting i P) (hp : Does jsonb i (fun _ ↦ P) p P) :
    Does jsonb i (fun _ ↦ P) (Deckgen.connected p) P :=
  connected hP hp (fun _ ↦ hP) (fun _ _ h ↦ h) fun _ _ _ h ↦ h

theorem swallow {p : Build Unit} (hP : Lasting i P) (hp : Does jsonb i (fun _ ↦ P) p P) :
    Does jsonb i (fun _ ↦ P) (Deckgen.swallow p) P :=
  hp.tryCatch (fun _ ↦ Contract.ensures_pure hP.stable fun _ _ h ↦ h) fun _ _ _ h ↦ h

theorem raise {β : Type} (e : DeckError) (hP : Lasting i P) :
    Does jsonb i (fun _ ↦ P) (Prog.raise e : Build β) P :=
  Contract.ensures_raise hP.stable fun _ _ h ↦ h

theorem markFailed (deckId : Uuid) (reason : Text) (hP : Lasting i P) :
    Does jsonb i (fun _ ↦ P) (PostgresPublisher.markFailed deckId reason) P :=
  connected_keeps hP (quiet hP ⟨rfl, rfl⟩ fun _ _ ↦ trivial)

theorem updateGenerationState (deckId : Uuid) (doc : Option Json) (hP : Lasting i P) :
    Does jsonb i (fun _ ↦ P) (PostgresPublisher.updateGenerationState deckId doc) P :=
  connected_keeps hP (quiet hP ⟨rfl, rfl⟩ fun _ _ ↦ trivial)

theorem markFailedAndRaise {β : Type} (deckId : Option Uuid) (e : DeckError) (hP : Lasting i P) :
    Does jsonb i (fun _ ↦ P) (Deckgen.markFailedAndRaise deckId e : Build β) P := by
  cases deckId with
  | none => exact raise e hP
  | some deckId =>
    exact andThen (swallow hP (markFailed deckId _ hP)) (fun _ ↦ raise e hP) fun _ _ h ↦ h

/-! ### Publishing -/

/-- Publishing cards nobody else has, in a deck that exists or is new. -/
theorem publishInto {deckId : Uuid} {provided : Bool} {doc : Json} {cards : List CardRow}
    {final : FinalStatus} (hP : Lasting i P)
    (hcards : ∀ w, P w → (cards.map CardRow.id).Nodup)
    (hunused : ∀ w, P w → ∀ card ∈ cards, Unused i w card.id)
    (hdeck : ∀ w, P w → provided = false → NewDeck i w deckId) :
    Does jsonb i (fun _ _ ↦ True)
      (PostgresPublisher.publishInto deckId provided doc cards final) P := by
  have htrue := Lasting.true i
  have howns : Lasting i fun w ↦ provided = false → Owns i w deckId := (Lasting.owns deckId).imp
  -- what is left after the transaction, for the upsert in the handler
  have htx : Does jsonb i (fun _ w ↦ provided = false → Owns i w deckId)
      (Prog.perform (.commit (.publish deckId provided doc cards final))) P := by
    refine Contract.ensures_perform hP.stable (fun _ ↦ howns.stable)
      (fun w _ h ↦ ⟨hunused w h, hcards w h, hdeck w h⟩)
      (fun w _ h _ ↦ ⟨trivial, fun _ hp ↦ (hdeck w h hp).1⟩) fun w d _ h _ _ hp ↦ ?_
    exact issues_subset_after jsonb i _ d w (hdeck w h hp).1
  have hbefore : Does jsonb i (fun _ ↦ P)
      (Prog.tryCatch (do
        Prog.perform (.await .stageImages)
        Prog.perform (.await .connect)) fun e ↦ do
          if provided then
            Deckgen.swallow (PostgresPublisher.markFailed deckId
              ("publication failed: ".toList ++ e.typeName))
          Prog.raise e) P := by
    refine (andThen (await .stageImages hP) (fun _ ↦ await .connect hP)
      fun _ _ h ↦ h).tryCatch (fun e ↦ ?_) fun _ _ _ h ↦ h
    cases provided with
    | true =>
      exact andThen (swallow hP (markFailed deckId _ hP)) (fun _ ↦ raise e hP) fun _ _ h ↦ h
    | false => exact raise e hP
  refine andThen hbefore (fun _ ↦ ?_) fun _ _ _ ↦ trivial
  -- the handler: it may insert the deck as a failed one
  have hhandler (e : DeckError) : Does jsonb i (fun _ _ ↦ True) (do
      Deckgen.swallow (Prog.perform (.commit (.failPublication deckId provided doc
        (safeFailureReason ("publication failed: ".toList ++ e.typeName)))))
      Prog.raise e : Build Unit) fun w ↦ provided = false → Owns i w deckId := by
    have hfail (reason : Text) : Does jsonb i (fun _ _ ↦ True)
        (Prog.perform (.commit (.failPublication deckId provided doc reason)))
        fun w ↦ provided = false → Owns i w deckId :=
      Contract.ensures_perform howns.stable (fun _ ↦ htrue.stable) (fun _ _ h ↦ h)
        (fun _ _ _ _ ↦ ⟨trivial, fun _ ↦ trivial⟩) fun _ _ _ _ _ _ ↦ trivial
    exact andThen ((hfail _).tryCatch (fun _ ↦ Contract.ensures_pure htrue.stable fun _ _ h ↦ h)
      fun _ _ _ h ↦ h) (fun _ ↦ raise e htrue) fun _ _ h ↦ h
  refine Contract.Ensures.ensuring
    ((andThen htx (fun _ ↦ await .report howns) fun _ _ h ↦ h).tryCatch hhandler
      fun _ _ _ _ ↦ trivial)
    (fun _ ↦ htrue.stable) (fun _ _ _ _ ↦ trivial) (fun _ _ _ _ _ ↦ ⟨trivial, fun _ ↦ trivial⟩)
    fun _ _ _ _ _ _ _ ↦ ⟨trivial, fun _ ↦ trivial⟩

/-- `publish`, with a new deck if none is given. -/
theorem publish {deckId : Option Uuid} {doc : Json} {cards : Uuid → List CardRow}
    {final : FinalStatus} (hP : Lasting i P)
    (hcards : ∀ w, P w → ∀ deckId, ((cards deckId).map CardRow.id).Nodup)
    (hunused : ∀ w, P w → ∀ deckId, ∀ card ∈ cards deckId, Unused i w card.id) :
    Does jsonb i (fun _ _ ↦ True) (PostgresPublisher.publish deckId doc cards final) P := by
  cases deckId with
  | some deckId =>
    exact publishInto hP (fun w h ↦ hcards w h deckId) (fun w h ↦ hunused w h deckId)
      fun _ _ h ↦ nomatch h
  | none =>
    have hdrawn (r : Except DeckError Uuid) :
        Lasting i fun w ↦ P w ∧ ∀ deckId, r = .ok deckId → NewDeck i w deckId := by
      rintro w w' ho ⟨h, hnew⟩
      exact ⟨hP w w' ho h, fun deckId hr ↦ Lasting.newDeck deckId w w' ho (hnew deckId hr)⟩
    have huuid : Does jsonb i
        (fun r w ↦ P w ∧ ∀ deckId, r = .ok deckId → NewDeck i w deckId)
        (Prog.perform .uuid4) P := by
      refine Contract.ensures_perform hP.stable (fun r ↦ (hdrawn r).stable) (fun _ _ _ ↦ trivial)
        (fun w _ h _ ↦ ⟨trivial, fun e ↦ ⟨h, nofun⟩⟩) fun w d hw h _ hd ↦ ?_
      have ho : Onward i w ((workshop jsonb).after i .uuid4 d w) :=
        onward_quiet hw.2 trivial trivial hd
      refine ⟨hP w _ ho h, fun deckId hr ↦ ?_⟩
      cases hr
      have hfresh : d.uuid ∉ w.state.issued := of_decide_eq_true hd
      exact ⟨List.mem_cons_self, fun d' hd' heq ↦ hfresh (heq ▸ hw.2.opening.issuedDecks d' hd')⟩
    refine huuid.bind (fun deckId ↦ ?_) fun _ _ _ _ ↦ trivial
    refine publishInto (hdrawn (.ok deckId)) (fun w h ↦ hcards w h.1 deckId)
      (fun w h ↦ hunused w h.1 deckId) fun w h _ ↦ h.2 deckId rfl

/-! ### Building the cards -/

/-- A card that has been drawn, and not dealt with. -/
structure Drawn (i : ℕ) (target : Target) (built : List BuiltCard) (card : BuiltCard)
    (w : Shop) : Prop where
  own : ∀ u, u ∈ cardsOf i w.trace ↔ u = card.cardId ∨ ∃ c ∈ built, c.cardId = u
  holds : ∀ c ∈ built, target.Holds i w c
  apart : ∀ c ∈ built, ∀ c' ∈ built, c.cardId = c'.cardId → c = c'
  new : ∀ c ∈ built, c.cardId ≠ card.cardId
  unused : Unused i w card.cardId

theorem lasting_drawn (target : Target) (built : List BuiltCard) (card : BuiltCard) :
    Lasting i (Drawn i target built card) := by
  rintro w w' ho ⟨hown, hholds, hapart, hnew, hunused⟩
  refine ⟨fun u ↦ ?_, fun c hc ↦ Lasting.holds target c w w' ho (hholds c hc), hapart, hnew,
    Lasting.unused card.cardId w w' ho hunused⟩
  rw [ho.cardsOf]
  exact hown u

/-- Once it has been dealt with, it is one of the cards that are collected. -/
theorem Drawn.collected {target : Target} {built : List BuiltCard} {card : BuiltCard} {w w' : Shop}
    (h : Drawn i target built card w) (hcards : cardsOf i w'.trace = cardsOf i w.trace)
    (hbuilt : ∀ c ∈ built, target.Holds i w' c) (hcard : target.Holds i w' card) :
    Collected i target (card :: built) w' where
  own u := by
    rw [hcards, h.own]
    simp only [List.mem_cons, exists_eq_or_imp]
    exact or_congr_left eq_comm
  holds := List.forall_mem_cons.mpr ⟨hcard, hbuilt⟩
  apart := by
    rintro c (_ | ⟨_, hc⟩) c' (_ | ⟨_, hc'⟩) heq
    · rfl
    · exact absurd heq.symm (h.new c' hc')
    · exact absurd heq (h.new c hc)
    · exact h.apart c hc c' hc' heq

/-- The transaction that offers a card to the deck. -/
theorem offer {deckId : Uuid} {built : List BuiltCard} {card : BuiltCard} {w : Shop}
    {d : DeckDraw} (h : Drawn i (.progressive deckId) built card w)
    (hok : (DeckOp.exec jsonb d (.commit (.persistCard deckId (card.row deckId []))) w.state).1 =
      .ok ()) : Collected i (.progressive deckId) (card :: built)
        ((workshop jsonb).after i (.commit (.persistCard deckId (card.row deckId []))) d w) := by
  have hright : Rightful i w (.commit (.persistCard deckId (card.row deckId []))) := h.unused
  have howns {u : Uuid} (hu : Owns i w u) : Owns i ((workshop jsonb).after i
      (.commit (.persistCard deckId (card.row deckId []))) d w) u :=
    issues_subset_after jsonb i _ d w hu
  -- the rows afterwards: those before, and perhaps the row of the card
  have hrows : ∀ r' ∈ ((workshop jsonb).after i
      (.commit (.persistCard deckId (card.row deckId []))) d w).state.db.cards,
      (∃ r ∈ w.state.db.cards, r.key = r'.key) ∨
        r'.key = (card.cardId, deckId, some card.concept.id) := by
    intro r' hr'
    rcases cards_after hright hr' with hold | ⟨⟨c, hc, hkey⟩, -⟩
    · exact .inl hold
    · cases List.mem_singleton.mp hc
      exact .inr hkey.symm
  have hkept := fun r hr ↦ cards_kept jsonb i
    (.commit (.persistCard deckId (card.row deckId []))) d (w := w) (r := r) hr
  refine h.collected (cardsOf_own i _ _) (fun c hc ↦ ⟨howns (h.holds c hc).owns, ?_, ?_⟩)
    ⟨howns h.unused.1, ?_, ?_⟩
  · intro r' hr' hid
    rcases hrows r' hr' with ⟨r, hr, hkey⟩ | hkey
    · have hid' : r.id = r'.id := congrArg Prod.fst hkey
      exact hkey ▸ (h.holds c hc).row r hr (hid'.trans hid)
    · have hid' : r'.id = card.cardId := congrArg Prod.fst hkey
      exact absurd (hid.symm.trans hid') (h.new c hc)
  · obtain ⟨r, hr, hdeck, hconcept⟩ := (h.holds c hc).covered
    obtain ⟨r', hr', hkey⟩ := hkept r hr
    have hdeck' : r'.deckId = r.deckId := congrArg (fun k ↦ k.2.1) hkey
    have hconcept' : r'.conceptId = r.conceptId := congrArg (fun k ↦ k.2.2) hkey
    exact ⟨r', hr', hdeck'.trans hdeck, hconcept'.trans hconcept⟩
  · intro r' hr' hid
    rcases hrows r' hr' with ⟨r, hr, hkey⟩ | hkey
    · have hid' : r.id = r'.id := congrArg Prod.fst hkey
      exact absurd (hid'.trans hid) (h.unused.2 r hr)
    · exact hkey
  · -- the deck had a card of this concept already, or has this one now
    show ∃ r ∈ (Transaction.exec jsonb d.now (.persistCard deckId (card.row deckId []))
      w.state.db).2.cards, _
    replace hok : (Transaction.exec jsonb d.now (.persistCard deckId (card.row deckId []))
      w.state.db).1 = .ok () := hok
    rw [Transaction.exec] at hok ⊢
    cases hrun : Transaction.run jsonb d.now w.state.db
        (.persistCard deckId (card.row deckId [])) with
    | error e =>
      rw [hrun] at hok
      cases hok
    | ok db' =>
      obtain ⟨-, -, hrest⟩ := Raising.bind_eq_ok.mp hrun
      split at hrest
      · rename_i hany
        cases hrest
        obtain ⟨r, hr, hmatch⟩ := List.any_eq_true.mp hany
        rw [Bool.and_eq_true, beq_iff_eq, beq_iff_eq] at hmatch
        exact ⟨r, hr, hmatch⟩
      · rw [Decks.insertCard, Raising.ite_error_eq_ok] at hrest
        cases hrest.2
        exact ⟨card.row deckId [], List.mem_append_right _ List.mem_cons_self, rfl, rfl⟩

/-- What `_build_one` does with a card deals with it. -/
theorem persist (target : Target) (built : List BuiltCard) (card : BuiltCard) :
    Does jsonb i (fun r w ↦ r = .ok () → Collected i target (card :: built) w)
      (target.persist card) (Drawn i target built card) := by
  have hdrawn := lasting_drawn (i := i) target built card
  have hcollected (r : Except DeckError Unit) :
      Lasting i fun w ↦ r = .ok () → Collected i target (card :: built) w :=
    (Lasting.collected target (card :: built)).imp
  cases target with
  | atomic deckId =>
    exact Contract.ensures_pure hdrawn.stable fun w _ h _ ↦ h.collected rfl h.holds h.unused
  | progressive deckId =>
    refine andThen (await .stageImages hdrawn) (fun _ ↦ ?_) fun _ _ _ ↦ nofun
    refine connected hdrawn ?_ hcollected (fun _ _ _ ↦ nofun) fun _ _ _ _ ↦ nofun
    exact Contract.ensures_perform hdrawn.stable (fun r ↦ (hcollected r).stable)
      (fun _ _ h ↦ h.unused) (fun _ _ _ _ ↦ ⟨trivial, fun _ ↦ nofun⟩)
      fun w d _ h _ _ hok ↦ offer h hok

/-- The cards of the tasks that are done. -/
abbrev builtOf (tasks : List Task) : List BuiltCard := tasks.filterMap Task.built

/-- Only the set of cards matters. -/
theorem collected_congr {target : Target} {built built' : List BuiltCard} {w : Shop}
    (h : Collected i target built w) (hmem : ∀ c, c ∈ built' ↔ c ∈ built) :
    Collected i target built' w where
  own u := by
    rw [h.own]
    simp only [hmem]
  holds c hc := h.holds c ((hmem c).mp hc)
  apart c hc c' hc' := h.apart c ((hmem c).mp hc) c' ((hmem c').mp hc')

/-- A task that gets done adds its card. -/
theorem mem_builtOf_set {tasks : List Task} {n : ℕ} {task : Task} (ht : tasks[n]? = some task)
    (hpending : task.cardId = none) (u : Uuid) (c : BuiltCard) :
    c ∈ builtOf (tasks.set n { task with cardId := some u }) ↔
      c ∈ (⟨u, task.concept⟩ : BuiltCard) :: builtOf tasks := by
  have hn : n < tasks.length := (List.getElem?_eq_some_iff.mp ht).1
  have htask : tasks[n] = task := (List.getElem?_eq_some_iff.mp ht).2
  have hsplit : tasks = tasks.take n ++ task :: tasks.drop (n + 1) := by
    rw [← htask, List.getElem_cons_drop, List.take_append_drop]
  have hnone : task.built = none := by rw [Task.built, hpending, Option.map_none]
  rw [List.set_eq_take_append_cons_drop, if_pos hn]
  conv_rhs => rw [builtOf, hsplit]
  rw [builtOf, List.filterMap_append, List.filterMap_append, List.filterMap_cons_none hnone,
    List.filterMap_cons_some (show Task.built { task with cardId := some u } = some _ from rfl)]
  simp only [List.mem_append, List.mem_cons]
  tauto

theorem pending_of_mem {tasks : List Task} {n : ℕ} {task : Task} (h : n ∈ pendingTasks tasks)
    (ht : tasks[n]? = some task) : task.cardId = none := by
  have hany := (List.mem_filter.mp h).2
  rw [ht, Option.any_some, Option.isNone_iff_eq_none] at hany
  exact hany

/-- The next task gets its image, and its card an identifier nobody has seen. -/
theorem draw (target : Target) (tasks : List Task) :
    Does jsonb i (fun r w ↦ ∀ n u, r = .ok (n, u) → n ∈ pendingTasks tasks ∧
        ∀ concept, Drawn i target (builtOf tasks) ⟨u, concept⟩ w)
      (Prog.perform (.imageVerified (pendingTasks tasks)))
      (Collected i target (builtOf tasks)) := by
  have hcollected := Lasting.collected (i := i) target (builtOf tasks)
  refine Contract.ensures_perform hcollected.stable (fun r ↦ Lasting.stable ?_)
    (fun _ _ _ ↦ trivial) (fun _ _ _ _ ↦ ⟨trivial, fun _ ↦ nofun⟩) fun w d hw h _ hd n u hok ↦ ?_
  · exact fun w w' ho h n u hr ↦ ⟨(h n u hr).1, fun concept ↦
      lasting_drawn target (builtOf tasks) ⟨u, concept⟩ w w' ho ((h n u hr).2 concept)⟩
  have hfresh : d.uuid ∉ w.state.issued := of_decide_eq_true hd
  have hexec : (DeckOp.exec jsonb d (.imageVerified (pendingTasks tasks)) w.state).1 =
      .ok (n, u) := hok
  -- the answer
  obtain ⟨hpick, rfl⟩ : (pendingTasks tasks)[d.pick]? = some n ∧ d.uuid = u := by
    cases hpick : (pendingTasks tasks)[d.pick]? with
    | none =>
      simp only [DeckOp.exec, hpick] at hexec
      cases hexec
    | some m =>
      simp only [DeckOp.exec, hpick] at hexec
      cases hexec
      exact ⟨rfl, rfl⟩
  have howned : ∀ c ∈ builtOf tasks, Owns i w c.cardId := by
    intro c hc
    have hc' := h.holds c hc
    cases target with
    | atomic deckId => exact hc'.1
    | progressive deckId => exact hc'.owns
  have hnew : ∀ c ∈ builtOf tasks, c.cardId ≠ d.uuid :=
    fun c hc heq ↦ hfresh (heq ▸ hw.2.issued _ (howned c hc))
  have hgrow := issues_subset_after jsonb i (.imageVerified (pendingTasks tasks)) d w
  have hholds (c : BuiltCard) (hc : target.Holds i w c) : target.Holds i ((workshop jsonb).after i
      (.imageVerified (pendingTasks tasks)) d w) c := by
    cases target with
    | atomic deckId => exact ⟨hgrow hc.1, hc.2⟩
    | progressive deckId => exact ⟨hgrow hc.owns, hc.row, hc.covered⟩
  refine ⟨List.mem_of_getElem? hpick, fun concept ↦ ⟨fun v ↦ ?_, fun c hc ↦ hholds c (h.holds c hc),
    h.apart, hnew, ?_, fun r hr heq ↦ hfresh ?_⟩⟩
  · rw [System.after_trace, cardsOf_own]
    show v ∈ (drawnCard _ (DeckOp.exec jsonb d _ w.state).1).toList ++ _ ↔ _
    rw [hexec, List.mem_append, h.own]
    simp [drawnCard]
  · show (i, d.uuid) ∈ issues ((i, _) :: w.trace)
    rw [issues]
    show _ ∈ ((drawn _ (DeckOp.exec jsonb d _ w.state).1).map _).toList ++ _
    rw [hexec]
    exact List.mem_cons_self
  · rw [← show r.id = d.uuid from heq]
    exact hw.2.opening.issuedCards r hr

/-- **All tasks get done, and their cards are collected.** -/
theorem gather (target : Target) (n : ℕ) (tasks : List Task) :
    Does jsonb i (fun r w ↦ ∀ built, r = .ok built → Collected i target built w ∧
        ∃ tasks', tasks'.map Task.concept = tasks.map Task.concept ∧ built = builtOf tasks')
      (gather target n tasks) (Collected i target (builtOf tasks)) := by
  induction n generalizing tasks with
  | zero =>
    refine Contract.ensures_pure (Lasting.collected target _).stable fun w _ h built hb ↦ ?_
    cases hb
    exact ⟨h, tasks, rfl, rfl⟩
  | succ n ih =>
    refine (draw target tasks).bind (fun drawn ↦ ?_) fun _ _ _ _ _ ↦ nofun
    obtain ⟨m, u⟩ := drawn
    have hlasting : Lasting i fun w ↦ ∀ n v, (Except.ok (m, u) : Except DeckError (ℕ × Uuid)) =
        .ok (n, v) → n ∈ pendingTasks tasks ∧
          ∀ concept, Drawn i target (builtOf tasks) ⟨v, concept⟩ w :=
      fun w w' ho h n v hr ↦ ⟨(h n v hr).1, fun concept ↦
        lasting_drawn target (builtOf tasks) ⟨v, concept⟩ w w' ho ((h n v hr).2 concept)⟩
    dsimp only
    cases htask : tasks[m]? with
    | none => exact Contract.ensures_raise hlasting.stable fun _ _ _ _ ↦ nofun
    | some task =>
      -- the task was pending, so its card is not among those that are done
      have hpersist : Does jsonb i _ (target.persist ⟨u, task.concept⟩) _ :=
        persist target (builtOf tasks) ⟨u, task.concept⟩
      refine Contract.ensures_of_fact hlasting.stable (fun w _ h ↦ (h m u rfl).1) fun hpending ↦ ?_
      have hadd := mem_builtOf_set htask (pending_of_mem hpending htask) u
      refine (hpersist.pre hlasting.stable fun w _ h ↦ (h m u rfl).2 task.concept).bind
        (fun _ ↦ ?_) fun _ _ _ _ _ ↦ nofun
      have hconcepts : (tasks.set m { task with cardId := some u }).map Task.concept =
          tasks.map Task.concept := by
        obtain ⟨hm, rfl⟩ := List.getElem?_eq_some_iff.mp htask
        rw [List.map_set, ← List.getElem_map Task.concept, List.set_getElem_self]
        rw [List.length_map]
        exact hm
      refine ((ih (tasks.set m { task with cardId := some u })).pre ?_ fun w _ h ↦
        collected_congr (h rfl) hadd).post fun r w _ h built hb ↦ ?_
      · exact ((Lasting.collected target _).imp).stable
      · obtain ⟨hcollected, tasks', htasks', hbuilt⟩ := h built hb
        exact ⟨hcollected, tasks', htasks'.trans hconcepts, hbuilt⟩

/-- The cards of tasks with different concepts have different concepts. -/
theorem nodup_builtOf {tasks : List Task}
    (h : ((tasks.map Task.concept).map Concept.id).Nodup) :
    ((builtOf tasks).map fun c ↦ c.concept.id).Nodup := by
  induction tasks with
  | nil => exact List.nodup_nil
  | cons task tasks ih =>
    obtain ⟨hnew, htasks⟩ := List.nodup_cons.mp h
    cases hbuilt : task.built with
    | none =>
      rw [builtOf, List.filterMap_cons_none hbuilt]
      exact ih htasks
    | some card =>
      have hcard : card.concept = task.concept := by
        obtain ⟨u, -, rfl⟩ := Option.map_eq_some_iff.mp hbuilt
        rfl
      rw [builtOf, List.filterMap_cons_some hbuilt, List.map_cons, List.nodup_cons, hcard]
      refine ⟨fun hmem ↦ hnew ?_, ih htasks⟩
      obtain ⟨c, hc, hid⟩ := List.mem_map.mp hmem
      obtain ⟨task', htask', hbuilt'⟩ := List.mem_filterMap.mp hc
      obtain ⟨u, -, rfl⟩ := Option.map_eq_some_iff.mp hbuilt'
      rw [← hid]
      exact List.mem_map_of_mem (List.mem_map_of_mem htask')

/-! ### The end of a build -/

theorem assignDecoys {built : List BuiltCard} (hP : Lasting i P)
    (hids : ∀ w, P w → ∀ c ∈ built, ∀ c' ∈ built, c.cardId = c'.cardId → c = c') :
    Does jsonb i (fun r w ↦ P w ∧ ∀ mapping, r = .ok mapping → Decoyed built mapping)
      (Deckgen.assignDecoys built) P := by
  refine andThen (quiet hP trivial fun _ _ ↦ trivial) (fun rows ↦ ?_) fun _ _ h ↦ ⟨h, nofun⟩
  cases hanswer : selectDecoysBatch built rows >>= mapDecoyConceptsToCardUuids built with
  | error e =>
    exact Contract.ensures_raise hP.stable fun _ _ h ↦ ⟨h, nofun⟩
  | ok mapping =>
    obtain ⟨concepts, hrows, hmap⟩ := Raising.bind_eq_ok.mp hanswer
    refine Contract.ensures_pure hP.stable fun w _ h ↦ ⟨h, fun mapping' heq ↦ ?_⟩
    cases heq
    exact decoyed_of_answer hrows hmap (hids w h)

/-- What a build knows when all its cards are there. -/
theorem finish {target : Target} {doc : Json} {built : List BuiltCard} {mapping : Mapping}
    {final : FinalStatus} (hconcepts : (built.map fun c ↦ c.concept.id).Nodup) :
    Does jsonb i (fun _ _ ↦ True) (target.finish doc built mapping final)
      fun w ↦ Collected i target built w ∧ Decoyed built mapping := by
  have hP : Lasting i fun w ↦ Collected i target built w ∧ Decoyed built mapping :=
    (Lasting.collected target built).and (Lasting.const _)
  cases target with
  | progressive deckId =>
    refine connected hP ?_ (fun _ ↦ Lasting.true i) (fun _ _ _ ↦ trivial) fun _ _ _ _ ↦ trivial
    refine andThen (quiet hP ⟨rfl, rfl⟩ fun w h ↦ ⟨built, h.1, ?_, h.2⟩)
      (fun _ ↦ (await .report hP).post fun _ _ _ _ ↦ trivial) fun _ _ _ ↦ trivial
    exact fun c hc c' hc' heq ↦ List.inj_on_of_nodup_map hconcepts hc hc' heq
  | atomic deckId =>
    refine publish hP (fun w h deckId ↦ ?_) fun w h deckId row hrow ↦ ?_
    · rw [List.map_map]
      exact (List.Nodup.of_map _ hconcepts).map_on h.1.apart
    · obtain ⟨c, hc, rfl⟩ := List.mem_map.mp hrow
      exact h.1.holds c hc

/-! ### Whole programs -/

/-- Nothing has been drawn yet. -/
abbrev Fresh (i : ℕ) (w : Shop) : Prop := cardsOf i w.trace = []

theorem lasting_fresh (i : ℕ) : Lasting i (Fresh i) := fun _ _ ho h ↦ ho.cardsOf.trans h

theorem collected_nil {target : Target} {w : Shop} (h : Fresh i w) :
    Collected i target [] w where
  own u := by simp [show cardsOf i w.trace = [] from h]
  holds := by simp
  apart := by simp

theorem buildCards {o : BuildOrder} {target : Target} {concepts : List Concept}
    (hids : (concepts.map Concept.id).Nodup) :
    Does jsonb i (fun _ _ ↦ True) (Deckgen.buildCards o target concepts) (Fresh i) := by
  have hfresh := lasting_fresh i
  have hend (doc : Json) (built : List BuiltCard)
      (hnodup : (built.map fun c ↦ c.concept.id).Nodup) :
      Does jsonb i (fun _ _ ↦ True) (do
        let decoyUuids ← Deckgen.assignDecoys built
        target.finish doc built decoyUuids o.final) (Collected i target built) := by
    refine Contract.Ensures.bind (assignDecoys (Lasting.collected target built) fun w h ↦ h.apart)
      (fun mapping ↦ ?_) fun _ _ _ _ ↦ trivial
    refine (finish hnodup).pre (Lasting.stable ?_) fun w _ h ↦ ⟨h.1, h.2 mapping rfl⟩
    exact (Lasting.collected target built).and (Lasting.const _)
  -- the cards that have been gathered, with what comes before and after them
  have hcards (describe : Build Unit) (recount : Build Unit)
      (hdescribe : Does jsonb i (fun _ ↦ Fresh i) describe (Fresh i))
      (hrecount : ∀ built, Does jsonb i (fun _ ↦ Collected i target built) recount
        (Collected i target built)) :
      Does jsonb i (fun _ _ ↦ True) (do
        describe
        Prog.perform (.await .translateLabels)
        let built ← Deckgen.gather target concepts.length (concepts.map fun concept ↦ { concept })
        recount
        let decoyUuids ← Deckgen.assignDecoys built
        target.finish (Json.obj (buildGenerationInput o.details concepts)) built decoyUuids o.final)
        (Fresh i) := by
    refine andThen hdescribe (fun _ ↦ ?_) fun _ _ _ ↦ trivial
    refine andThen (await .translateLabels hfresh) (fun _ ↦ ?_) fun _ _ _ ↦ trivial
    have hstart : builtOf (concepts.map fun concept ↦ ({ concept } : Task)) = [] := by
      rw [builtOf, List.filterMap_map]
      exact List.filterMap_eq_nil_iff.mpr fun _ _ ↦ rfl
    refine ((gather target _ _).pre hfresh.stable fun w _ h ↦ hstart ▸ collected_nil h).bind
      (fun built ↦ ?_) fun _ _ _ _ ↦ trivial
    have hgathered : Lasting i fun w ↦ ∀ b, (Except.ok built : Except DeckError _) = .ok b →
        Collected i target b w ∧ ∃ tasks', tasks'.map Task.concept =
          (concepts.map fun concept ↦ ({ concept } : Task)).map Task.concept ∧
            b = builtOf tasks' :=
      fun w w' ho h b hb ↦ ⟨Lasting.collected target b w w' ho (h b hb).1, (h b hb).2⟩
    refine Contract.ensures_of_fact hgathered.stable (fun w _ h ↦ (h built rfl).2) fun hfact ↦ ?_
    obtain ⟨tasks', htasks', rfl⟩ := hfact
    have hnodup : ((builtOf tasks').map fun c ↦ c.concept.id).Nodup := by
      refine nodup_builtOf ?_
      rw [htasks', List.map_map, List.map_map]
      exact hids
    exact (andThen (hrecount _) (fun _ ↦ hend _ _ hnodup) fun _ _ _ ↦ trivial).pre
      hgathered.stable fun w _ h ↦ (h _ rfl).1
  cases target with
  | atomic deckId =>
    exact hcards (pure ()) (pure ()) (Contract.ensures_pure hfresh.stable fun _ _ h ↦ h)
      fun built ↦ Contract.ensures_pure (Lasting.collected _ _).stable fun _ _ h ↦ h
  | progressive deckId =>
    exact hcards _ _ (updateGenerationState deckId _ hfresh)
      fun built ↦ updateGenerationState deckId _ (Lasting.collected _ _)

theorem buildAttempt (o : BuildOrder) (target : Target) :
    Does jsonb i (fun _ _ ↦ True) (Deckgen.buildAttempt o target) (Fresh i) := by
  have hfresh := lasting_fresh i
  rw [Deckgen.buildAttempt]
  cases hselected : selectedConcepts o.cards o.concepts o.shuffled with
  | error e => exact Contract.ensures_raise hfresh.stable fun _ _ _ ↦ trivial
  | ok concepts => exact buildCards (nodup_selectedConcepts hselected)

theorem buildInto (o : BuildOrder) (target : Target) :
    Does jsonb i (fun _ _ ↦ True) (Deckgen.buildInto o target) (Fresh i) := by
  have htrue := Lasting.true i
  refine andThen (await .prepare (lasting_fresh i)) (fun _ ↦ ?_) fun _ _ _ ↦ trivial
  exact ((buildAttempt o target).tryCatch (fun e ↦ markFailedAndRaise o.deckId e htrue)
    fun _ _ _ _ ↦ trivial).bind (fun _ ↦ await .report htrue) fun _ _ _ _ ↦ trivial

theorem buildFor (o : BuildOrder) (target : Target) :
    Does jsonb i (fun _ _ ↦ True) (Deckgen.buildFor o target) (Fresh i) := by
  rw [Deckgen.buildFor]
  split
  · exact Contract.ensures_raise (lasting_fresh i).stable fun _ _ _ ↦ trivial
  · exact buildInto o target

theorem buildDeck (o : BuildOrder) :
    Does jsonb i (fun _ _ ↦ True) (Deckgen.buildDeck o) (Fresh i) := by
  rw [Deckgen.buildDeck]
  split
  · exact Contract.ensures_raise (lasting_fresh i).stable fun _ _ _ ↦ trivial
  · exact buildFor o _
  · exact buildFor o _

theorem buildDeckFromPrompt (o : PromptOrder) :
    Does jsonb i (fun _ _ ↦ True) (Deckgen.buildDeckFromPrompt o) (Fresh i) := by
  have hfresh := lasting_fresh i
  refine andThen (await .prepare hfresh) (fun _ ↦ ?_) fun _ _ _ ↦ trivial
  have hinvent : Does jsonb i (fun _ ↦ Fresh i) (Deckgen.inventAttempt o) (Fresh i) := by
    refine andThen (updateGenerationState o.deckId _ hfresh) (fun _ ↦ ?_) fun _ _ h ↦ h
    split
    · exact Contract.ensures_raise hfresh.stable fun _ _ h ↦ h
    · exact quiet hfresh trivial fun _ _ ↦ trivial
  have hconcepts : Does jsonb i (fun _ ↦ Fresh i)
      ((Deckgen.inventAttempt o).tryCatch (Deckgen.markFailedAndRaise (some o.deckId)))
      (Fresh i) :=
    hinvent.tryCatch (fun e ↦ markFailedAndRaise (some o.deckId) e hfresh) fun _ _ _ h ↦ h
  exact andThen hconcepts (fun _ ↦ buildDeck _) fun _ _ _ ↦ trivial

/-- The background tasks mark their deck failed. -/
theorem guarded {deckId : Uuid} {p : Build Unit}
    (hp : Does jsonb i (fun _ _ ↦ True) p (Fresh i)) :
    Does jsonb i (fun _ _ ↦ True) (DeckAdminService.guarded deckId p) (Fresh i) :=
  hp.tryCatch (fun _ ↦ quiet (Lasting.true i) ⟨rfl, rfl⟩ fun _ _ ↦ trivial) fun _ _ _ _ ↦ trivial

theorem generate (deckId : Uuid) (request : AdminDeckGenerateRequest) :
    Does jsonb i (fun _ _ ↦ True) (DeckAdminService.generate deckId request) (Fresh i) := by
  rw [DeckAdminService.generate]
  split
  · exact Contract.ensures_raise (lasting_fresh i).stable fun _ _ _ ↦ trivial
  · exact andThen (buildDeck _) (fun _ ↦ await .report (Lasting.true i)) fun _ _ h ↦ h

theorem body (r : Commission) : Does jsonb i (fun _ _ ↦ True) r.body (Fresh i) := by
  have hfresh := lasting_fresh i
  have htrue := Lasting.true i
  have hdone {β : Type} {op : DeckOp β} (hq : op.Quiet) (hpre : ∀ w, Rightful i w op) :
      Does jsonb i (fun _ _ ↦ True) (Prog.perform op >>= fun _ ↦ pure ()) (Fresh i) :=
    andThen (quiet hfresh hq fun w _ ↦ hpre w)
      (fun _ ↦ Contract.ensures_pure hfresh.stable fun _ _ _ ↦ trivial) fun _ _ _ ↦ trivial
  cases r with
  | startGeneration generationInput => exact hdone trivial fun _ ↦ trivial
  | runGeneration deckId request => exact guarded (generate deckId request)
  | runPromptGeneration o =>
    exact guarded (andThen (buildDeckFromPrompt _) (fun _ ↦ await .report htrue) fun _ _ h ↦ h)
  | activate deckId => exact hdone trivial fun _ ↦ trivial
  | build o => exact buildDeck o
  | buildFromPrompt o => exact buildDeckFromPrompt o

end Authorship

open Authorship in
/-- **Everybody keeps to what he has drawn.** -/
theorem authorship_sound (jsonb : Json.Store) : authorship.Sound (workshop jsonb) .any where
  spawn _ _ hw := ⟨hw.2.opening, hw.2.once, hw.2.issued⟩
  call _ _ _ _ _ hw hpre _ hd := hw.2.after hpre hd
  body w r _ hold :=
    ⟨Fresh w.requests.length, cardsOf_eq_nil hold, (body r).safe⟩
  gone _ := (Lasting.true _).stable

end Neva.Deckgen
