import Neva.Deckgen.Handlers
import Neva.Deckgen.OneLive

/-!
# Runs in which nothing goes wrong with a finished deck

`undisturbed` are the runs in which a build is started for a deck that is not finished, no other
program is about the deck it publishes, and none of its calls raises once the deck is finished.  In
these runs, whatever is left to run of a program that has not gone smoothly, its deck is not
finished (`Heeding`); so a handler never finds a finished deck.
-/

set_option autoImplicit false

namespace Neva.Deckgen

open Calls Tables

/-! ## What finishes a deck -/

/-- The deck has been published. -/
def DeckStatus.Finished (s : DeckStatus) : Prop := s = .ready ∨ s = .live

instance (s : DeckStatus) : Decidable (DeckStatus.Finished s) :=
  inferInstanceAs (Decidable (_ ∨ _))

theorem FinalStatus.finished (final : FinalStatus) : DeckStatus.Finished final.status := by
  cases final with
  | ready => exact .inl rfl
  | live => exact .inr rfl

namespace Transaction

variable {tx : Transaction} {jsonb : Json.Store} {now : Time} {db db' : Decks} {u : Uuid}
  {s : DeckStatus}

theorem finished_of_turn (h : DeckStatus.Finished (tx.turn u s)) :
    DeckStatus.Finished s ∨ tx.publishes = some u := by
  cases tx with
  | updateGenerationState | persistCard => exact .inl h
  | finalizeProgressive | publish =>
    rw [turn] at h
    split at h
    · rename_i hid
      exact .inr (congrArg some hid.symm)
    · exact .inl h
  | failPublication | publisherMarkFailed | adminMarkFailed =>
    rw [turn] at h
    split at h
    · rcases h with h | h <;> cases h
    · exact .inl h

theorem finished_of_run (h : tx.run jsonb now db = .ok db') (hmem : (u, s) ∈ db'.statuses)
    (hfin : DeckStatus.Finished s) :
    (∃ s', (u, s') ∈ db.statuses ∧ DeckStatus.Finished s') ∨ tx.publishes = some u := by
  rw [statuses_run h, List.mem_append, List.mem_map] at hmem
  rcases hmem with ⟨⟨u', s'⟩, hmem, heq⟩ | hentered
  · obtain ⟨rfl, rfl⟩ := Prod.mk.inj heq
    exact (finished_of_turn hfin).imp_left fun hfin ↦ ⟨s', hmem, hfin⟩
  · -- what a handler inserts has failed
    cases tx with
    | publish deckId provided doc cards final =>
      rw [entered] at hentered
      split at hentered
      · cases hentered
      · cases List.mem_singleton.mp hentered
        exact .inr rfl
    | failPublication deckId provided doc reason =>
      rw [entered] at hentered
      split at hentered
      · cases hentered
      · cases List.mem_singleton.mp hentered
        rcases hfin with h | h <;> cases h
    | updateGenerationState | persistCard | finalizeProgressive | publisherMarkFailed
    | adminMarkFailed => cases hentered

end Transaction

/-- Only a finished deck is activated. -/
theorem Decks.finished_of_activate {db : Decks} {now : Time} {deckId u : Uuid} {s : DeckStatus}
    (hmem : (u, s) ∈ (db.activate now deckId).2.statuses) (hfin : DeckStatus.Finished s) :
    ∃ s', (u, s') ∈ db.statuses ∧ DeckStatus.Finished s' := by
  by_cases hready : ∃ target, db.deck? deckId = some target ∧ DeckStatus.Finished target.status
  · obtain ⟨target, htarget, htargetfin⟩ := hready
    rcases db.statuses_activate now deckId with hsame | hturned
    · exact ⟨s, hsame ▸ hmem, hfin⟩
    · rw [hturned] at hmem
      obtain ⟨⟨u', s'⟩, hmem', heq⟩ := List.mem_map.mp hmem
      obtain ⟨rfl, rfl⟩ := Prod.mk.inj heq
      rw [turnActivated] at hfin
      split at hfin
      · rename_i hid
        have hid' : target.id = deckId := by
          rw [deck?] at htarget
          simpa using List.find?_some htarget
        exact ⟨_, mem_statuses.mpr ⟨target, List.mem_of_find?_eq_some htarget,
          hid'.trans hid.symm, rfl⟩, htargetfin⟩
      · split at hfin
        · rename_i hlive
          exact ⟨s', hmem', .inr hlive⟩
        · exact ⟨s', hmem', hfin⟩
  · -- nothing is activated
    have hsame : (db.activate now deckId).2 = db := by
      rw [activate]
      split
      · rfl
      · rename_i target htarget
        refine congrArg Prod.snd (if_pos ?_)
        exact ⟨fun h ↦ hready ⟨target, htarget, .inl h⟩, fun h ↦ hready ⟨target, htarget, .inr h⟩⟩
    exact ⟨s, hsame ▸ hmem, hfin⟩

/-- A deck is finished because it was before, or because a call that returns publishes it. -/
theorem finished_exec {β : Type} {op : DeckOp β} {jsonb : Json.Store} {d : DeckDraw} {s : Studio}
    {u : Uuid} {status : DeckStatus} (hmem : (u, status) ∈ (op.exec jsonb d s).2.db.statuses)
    (hfin : DeckStatus.Finished status) :
    (∃ status', (u, status') ∈ s.db.statuses ∧ DeckStatus.Finished status') ∨
      op.publishes = some u ∧ ∃ b, (op.exec jsonb d s).1 = .ok b := by
  cases op with
  | commit tx =>
    replace hmem : (u, status) ∈ (tx.exec jsonb d.now s.db).2.statuses := hmem
    show _ ∨ tx.publishes = some u ∧ ∃ b, (tx.exec jsonb d.now s.db).1 = .ok b
    rw [Transaction.exec] at hmem ⊢
    split at hmem
    · rename_i db' hrun
      rcases Transaction.finished_of_run hrun hmem hfin with hold | hpublishes
      · exact .inl hold
      · exact .inr ⟨hpublishes, (), rfl⟩
    · exact .inl ⟨status, hmem, hfin⟩
  | createGenerating doc =>
    replace hmem : (u, status) ∈ (s.db.createGenerating jsonb d.uuid doc).2.statuses := hmem
    rw [Decks.statuses_createGenerating, List.mem_append] at hmem
    refine .inl ⟨status, hmem.resolve_right fun hnew ↦ ?_, hfin⟩
    split at hnew
    · cases hnew
    · cases List.mem_singleton.mp hnew
      rcases hfin with h | h <;> cases h
  | activate deckId => exact .inl (Decks.finished_of_activate hmem hfin)
  | await | uuid4 | imageVerified | inventConcepts | selectDecoys =>
    exact .inl ⟨status, hmem, hfin⟩

/-! ## Undisturbed runs -/

/-- Program `i` has been given the deck, or has drawn its identifier. -/
def Concerns (w : Shop) (i : ℕ) (u : Uuid) : Prop :=
  ∃ r, w.requests[i]? = some r ∧ About r.deck (callsOf i w.trace) u

/-- The deck is there and finished. -/
def FinishedDeck (w : Shop) (u : Uuid) : Prop :=
  ∃ d ∈ w.state.db.decks, d.id = u ∧ DeckStatus.Finished d.status

/-- A program is started for a deck that is not finished, it publishes a deck no other program is
about, and no call of it raises when its deck is finished. -/
def undisturbed (jsonb : Json.Store) (c : Config DeckOp DeckError Commission Studio Unit) :
    Event Commission DeckDraw DeckError → Prop
  | .spawn r => ∀ u, r.deck = some u → ¬FinishedDeck c.world u
  | .step i d => ∀ (β : Type) (op : DeckOp β) (k : Except DeckError β → Build Unit),
      c.threads[i]? = some (.live (.call op k)) →
        (∀ u, op.publishes = some u → ∀ j, Concerns c.world j u → j = i) ∧
        ∀ e, (op.exec jsonb d c.world.state).1 = .error e →
          ∀ u, Concerns c.world i u → ¬FinishedDeck c.world u
  | .fault i _ => ∀ u, Concerns c.world i u → ¬FinishedDeck c.world u
  | .kill _ => True

variable {jsonb : Json.Store} {i j : ℕ} {w : Shop} {u : Uuid} {deck : Option Uuid}
  {h : List (Past DeckOp DeckError)}

theorem finishedDeck_iff : FinishedDeck w u ↔
    ∃ s, (u, s) ∈ w.state.db.statuses ∧ DeckStatus.Finished s := by
  constructor
  · rintro ⟨d, hd, hid, hfin⟩
    exact ⟨d.status, Decks.mem_statuses.mpr ⟨d, hd, hid, rfl⟩, hfin⟩
  · rintro ⟨s, hmem, hfin⟩
    obtain ⟨d, hd, hid, rfl⟩ := Decks.mem_statuses.mp hmem
    exact ⟨d, hd, hid, hfin⟩

theorem finishedDeck_after {β : Type} {op : DeckOp β} {d : DeckDraw}
    (h : FinishedDeck ((workshop jsonb).after i op d w) u) :
    FinishedDeck w u ∨
      op.publishes = some u ∧ ∃ b, (op.exec jsonb d w.state).1 = .ok b := by
  obtain ⟨s, hmem, hfin⟩ := finishedDeck_iff.mp h
  exact (finished_exec hmem hfin).imp_left finishedDeck_iff.mpr

theorem concerns_after_of_ne {β : Type} {op : DeckOp β} {d : DeckDraw} (hne : j ≠ i) :
    Concerns ((workshop jsonb).after i op d w) j u ↔ Concerns w j u := by
  rw [Concerns, System.after_trace, callsOf_cons_of_ne hne.symm]
  rfl

theorem concerns_after_self {β : Type} {op : DeckOp β} {d : DeckDraw} :
    Concerns ((workshop jsonb).after i op d w) i u ↔ Concerns w i u ∨
      (∃ r, w.requests[i]? = some r) ∧ drawnDeck op (op.exec jsonb d w.state).1 = some u := by
  simp only [Concerns, About, System.after_trace, System.after_requests, callsOf_cons_self,
    List.exists_mem_cons_iff]
  constructor
  · rintro ⟨r, hr, h | h | h⟩
    · exact .inl ⟨r, hr, .inl h⟩
    · exact .inr ⟨⟨r, hr⟩, h⟩
    · exact .inl ⟨r, hr, .inr h⟩
  · rintro (⟨r, hr, h | h⟩ | ⟨⟨r, hr⟩, h⟩)
    · exact ⟨r, hr, .inl h⟩
    · exact ⟨r, hr, .inr (.inr h)⟩
    · exact ⟨r, hr, .inr (.inl h)⟩

/-- Program `i` has `p` left to run.  It is careful, and as long as it has not gone smoothly no deck
it is about is finished. -/
structure Heeding (w : Shop) (i : ℕ) (r : Commission) (p : Build Unit)
    (h : List (Past DeckOp DeckError)) : Prop where
  careful : p.Always (Careful r.deck) (fun _ _ ↦ True) h
  about : ∀ u, About r.deck h u → Concerns w i u
  unfinished : ¬Smooth h → ∀ u, Concerns w i u → ¬FinishedDeck w u

namespace Heeding

variable {r : Commission} {p : Build Unit} {β : Type} {op : DeckOp β}
  {k : Except DeckError β → Build Unit} {d : DeckDraw}

/-- A program that has just been started. -/
theorem new (hold : ∀ x ∈ w.trace, x.1 < w.requests.length)
    (hr : ∀ u, r.deck = some u → ¬FinishedDeck w u) :
    Heeding (w.spawned r) w.requests.length r r.body [] := by
  have hget : (w.spawned r).requests[w.requests.length]? = some r := by simp [World.spawned]
  refine ⟨r.careful, fun u hu ↦ ⟨r, hget, hu.mono (List.nil_suffix)⟩, fun _ u hu ↦ ?_⟩
  obtain ⟨r', hr', hu⟩ := hu
  cases hget.symm.trans hr'
  rw [World.spawned_trace, callsOf_eq_nil fun t ht ↦ (hold t ht).ne] at hu
  rcases hu with hu | ⟨a, ha, -⟩
  · exact hr u hu
  · cases ha

theorem spawned (hp : Heeding w i r p h) (hi : i < w.requests.length) (r' : Commission) :
    Heeding (w.spawned r') i r p h := by
  have hconcerns (u : Uuid) : Concerns (w.spawned r') i u ↔ Concerns w i u := by
    rw [Concerns, World.spawned, List.getElem?_append_left hi]
    rfl
  exact ⟨hp.careful, fun u hu ↦ (hconcerns u).mpr (hp.about u hu),
    fun hs u hu ↦ hp.unfinished hs u ((hconcerns u).mp hu)⟩

/-- Its next call raises, having done nothing. -/
theorem raised (hp : Heeding w i r (.call op k) h) (e : DeckError)
    (hnone : ∀ u, Concerns w i u → ¬FinishedDeck w u) :
    Heeding w i r (k (.error e)) (⟨op, .error e⟩ :: h) := by
  refine ⟨hp.careful.2 _, fun u hu ↦ hp.about u (hu.imp_right fun ⟨a, ha, hdrawn⟩ ↦ ?_),
    fun _ ↦ hnone⟩
  rcases List.mem_cons.mp ha with rfl | ha
  · cases op <;> cases hdrawn
  · exact ⟨a, ha, hdrawn⟩

/-- Another program makes a call. -/
theorem other (hp : Heeding w j r p h) (hne : j ≠ i)
    (halone : ∀ u, op.publishes = some u → ∀ j, Concerns w j u → j = i) :
    Heeding ((workshop jsonb).after i op d w) j r p h := by
  refine ⟨hp.careful, fun u hu ↦ (concerns_after_of_ne hne).mpr (hp.about u hu),
    fun hs u hu hfin ↦ ?_⟩
  have hu' := (concerns_after_of_ne hne).mp hu
  rcases finishedDeck_after hfin with hfin' | ⟨hpublishes, -⟩
  · exact hp.unfinished hs u hu' hfin'
  · exact hne (halone u hpublishes j hu')

/-- It makes its next call. -/
theorem own (hp : Heeding w i r (.call op k) h) (hr : w.requests[i]? = some r)
    (hopening : w.state.Opening) (hfresh : d.uuid ∉ w.state.issued)
    (hnone : ∀ e, (op.exec jsonb d w.state).1 = .error e →
      ∀ u, Concerns w i u → ¬FinishedDeck w u) :
    Heeding ((workshop jsonb).after i op d w) i r (k (op.exec jsonb d w.state).1)
      (⟨op, (op.exec jsonb d w.state).1⟩ :: h) := by
  refine ⟨hp.careful.2 _, fun u hu ↦ ?_, fun hs u hu hfin ↦ ?_⟩
  · rw [concerns_after_self]
    rcases hu with hu | ⟨a, ha, hdrawn⟩
    · exact .inl (hp.about u (.inl hu))
    · rcases List.mem_cons.mp ha with rfl | ha
      · exact .inr ⟨⟨r, hr⟩, hdrawn⟩
      · exact .inl (hp.about u (.inr ⟨a, ha, hdrawn⟩))
  · -- a publication that returns goes smoothly
    have hold : FinishedDeck w u := by
      refine (finishedDeck_after hfin).resolve_right fun ⟨hpublishes, b, hb⟩ ↦ hs ?_
      rw [hb]
      have hpub : op.publishes ≠ none := by simp [hpublishes]
      exact ⟨(hp.careful.1.answered hpub).cons op b, _, List.mem_cons_self, hpub⟩
    rcases concerns_after_self.mp hu with hu | ⟨-, hdrawn⟩
    · cases hanswer : (op.exec jsonb d w.state).1 with
      | error e => exact hnone e hanswer u hu hold
      | ok b =>
        refine hp.unfinished (fun hsmooth ↦ hs ?_) u hu hold
        rw [hanswer]
        obtain ⟨hanswered, a, ha, hpublishes⟩ := hsmooth
        exact ⟨hanswered.cons op b, a, List.mem_cons_of_mem _ ha, hpublishes⟩
    · -- the identifier of a deck that exists is not drawn
      obtain ⟨deck, hdeck, hid, -⟩ := hold
      have hu : u = d.uuid := by
        cases op with
        | uuid4 => exact (Option.some.inj hdrawn).symm
        | await | commit | createGenerating | activate | imageVerified | inventConcepts
        | selectDecoys => cases hdrawn
      exact hfresh (hu ▸ hid ▸ hopening.issuedDecks deck hdeck)

end Heeding

/-- All programs are careful. -/
def Heeded (c : Config DeckOp DeckError Commission Studio Unit) : Prop :=
  ∀ (i : ℕ) r p, c.world.requests[i]? = some r → c.threads[i]? = some (.live p) →
    ∃ h, Heeding c.world i r p h

theorem heeded_start (s : Studio) : Heeded (System.start s) := fun i r p hr ↦ by
  simp [System.start] at hr

/-- An event that disturbs nothing leaves them so. -/
theorem Heeded.fire {c c' : Config DeckOp DeckError Commission Studio Unit}
    {e : Event Commission DeckDraw DeckError} (hc : (workshop jsonb).Reachable c) (hh : Heeded c)
    (ha : undisturbed jsonb c e) (he : (workshop jsonb).fire c e = some c') : Heeded c' := by
  have hgood := good_of_reachable hc
  intro j r p hr ht
  cases e with
  | spawn r' =>
    cases he
    rcases Nat.lt_or_ge j c.world.requests.length with hj | hj
    · rw [World.spawned, List.getElem?_append_left hj] at hr
      rw [List.getElem?_append_left (hgood.length ▸ hj)] at ht
      obtain ⟨h, hp⟩ := hh j r p hr ht
      exact ⟨h, hp.spawned hj r'⟩
    · have hj' : j = c.world.requests.length := by
        have := (List.getElem?_eq_some_iff.mp hr).1
        rw [World.spawned, List.length_append, List.length_singleton] at this
        omega
      subst hj'
      rw [World.spawned, List.getElem?_concat_length] at hr
      rw [← hgood.length, List.getElem?_concat_length] at ht
      cases hr
      cases ht
      exact ⟨[], .new hgood.old ha⟩
  | step i d =>
    obtain ⟨β, op, k, hthread, hd, rfl⟩ := System.fire_step he
    obtain ⟨halone, hnone⟩ := ha β op k hthread
    rcases getElem?_set_cases ht with ⟨rfl, heq⟩ | ⟨hij, ht⟩
    · cases heq
      obtain ⟨h, hp⟩ := hh j r _ hr hthread
      exact ⟨_, hp.own hr hgood.here.2.opening (of_decide_eq_true hd) hnone⟩
    · obtain ⟨h, hp⟩ := hh j r p hr ht
      exact ⟨h, hp.other hij halone⟩
  | fault i e =>
    obtain ⟨β, op, k, hthread, rfl⟩ := System.fire_fault he
    rcases getElem?_set_cases ht with ⟨rfl, heq⟩ | ⟨-, ht⟩
    · cases heq
      obtain ⟨h, hp⟩ := hh j r _ hr hthread
      exact ⟨_, hp.raised e ha⟩
    · exact hh j r p hr ht
  | kill i =>
    obtain ⟨β, op, k, hthread, rfl⟩ := System.fire_kill he
    rcases getElem?_set_cases ht with ⟨rfl, heq⟩ | ⟨-, ht⟩
    · cases heq
    · exact hh j r p hr ht

theorem Heeded.leads {c c' : Config DeckOp DeckError Commission Studio Unit} (hh : Heeded c)
    (hc : (workshop jsonb).Reachable c) (hl : (workshop jsonb).Leads (undisturbed jsonb) c c') :
    Heeded c' := by
  induction hl with
  | refl => exact hh
  | fire hl ha he ih => exact ih.fire (hl.reachable hc) ha he

/-- **In an undisturbed run all programs are careful.** -/
theorem heeded_of_undisturbed {s : Studio} (hs : s.Opening)
    {c : Config DeckOp DeckError Commission Studio Unit}
    (hl : (workshop jsonb).Leads (undisturbed jsonb) (System.start s) c) : Heeded c :=
  (heeded_start s).leads (.start hs) hl

/-! ## Testing a run -/

instance : Decidable (About deck h u) := inferInstanceAs (Decidable (_ ∨ _))

instance : Decidable (FinishedDeck w u) := inferInstanceAs (Decidable (∃ d ∈ _, _))

theorem concerns_iff : Concerns w i u ↔
    w.requests[i]?.any fun r ↦ decide (About r.deck (callsOf i w.trace) u) := by
  simp only [Concerns, Option.any_eq_true, decide_eq_true_eq]

instance : Decidable (Concerns w i u) := decidable_of_iff _ concerns_iff.symm

/-- No deck of program `i` is finished. -/
def unfinished (w : Shop) (i : ℕ) : Bool :=
  w.state.db.decks.all fun d ↦ !decide (DeckStatus.Finished d.status ∧ Concerns w i d.id)

/-- Whether an event disturbs nothing. -/
def disturbsNothing (jsonb : Json.Store) (c : Config DeckOp DeckError Commission Studio Unit) :
    Event Commission DeckDraw DeckError → Bool
  | .spawn r => r.deck.all fun u ↦ !decide (FinishedDeck c.world u)
  | .step i d =>
    match c.threads[i]? with
    | some (.live (.call op _)) =>
      (op.publishes.all fun u ↦ (List.range c.world.requests.length).all fun j ↦
        decide (Concerns c.world j u → j = i)) &&
        ((op.exec jsonb d c.world.state).1.isOk || unfinished c.world i)
    | _ => false
  | .fault i _ => unfinished c.world i
  | .kill _ => true

theorem not_finishedDeck_of_unfinished (hu : unfinished w i = true) (hc : Concerns w i u) :
    ¬FinishedDeck w u := by
  rintro ⟨d, hd, rfl, hfin⟩
  have hd' : DeckStatus.Finished d.status → ¬Concerns w i d.id := by
    simpa [imp_iff_not_or] using List.all_eq_true.mp hu d hd
  exact hd' hfin hc

theorem undisturbed_of_disturbsNothing {c : Config DeckOp DeckError Commission Studio Unit}
    {e : Event Commission DeckDraw DeckError} (he : disturbsNothing jsonb c e = true) :
    undisturbed jsonb c e := by
  cases e with
  | spawn r =>
    intro u hu
    rw [disturbsNothing, hu] at he
    simpa using he
  | step i d =>
    intro β op k ht
    rw [disturbsNothing, ht, Bool.and_eq_true, Bool.or_eq_true] at he
    refine ⟨fun u hu j hj ↦ ?_, fun e hanswer u hu ↦ ?_⟩
    · rw [hu, Option.all_some, List.all_eq_true] at he
      obtain ⟨r, hr, -⟩ := id hj
      have hlt := (List.getElem?_eq_some_iff.mp hr).1
      exact of_decide_eq_true (he.1 j (List.mem_range.mpr hlt)) hj
    · rw [hanswer] at he
      exact not_finishedDeck_of_unfinished (he.2.resolve_left Bool.false_ne_true) hu
  | fault i e => exact fun u hu ↦ not_finishedDeck_of_unfinished he hu
  | kill i => trivial

end Neva.Deckgen
