import Neva.Deckgen.Statuses

/-!
# At most one live deck

Activating a deck demotes the others; publishing one does not.  So with `final_status = 'live'`,
which is the default of `build_deck` and of the command line, a second deck becomes live whenever
there is one already.  `noSecondLive` are the terms under which this does not happen, and
`one_live` says that they are exactly right.
-/

set_option autoImplicit false

namespace Neva.Deckgen

open Calls Tables

/-- At most one deck is live. -/
def Decks.AtMostOneLive (db : Decks) : Prop :=
  (db.decks.filter fun d ↦ d.status == .live).length ≤ 1

instance (db : Decks) : Decidable db.AtMostOneLive := inferInstanceAs (Decidable (_ ≤ 1))

theorem Decks.atMostOneLive_iff {db : Decks} (hu : Unique DeckRecord.id db.decks) :
    db.AtMostOneLive ↔ ∀ u u', (u, DeckStatus.live) ∈ db.statuses →
      (u', DeckStatus.live) ∈ db.statuses → u = u' := by
  constructor
  · intro h u u' hlive hlive'
    obtain ⟨d, hd, rfl, hs⟩ := mem_statuses.mp hlive
    obtain ⟨d', hd', rfl, hs'⟩ := mem_statuses.mp hlive'
    rw [eq_of_length_filter_le_one h hd hd' (beq_iff_eq.mpr hs) (beq_iff_eq.mpr hs')]
  · exact fun h ↦ hu.length_filter_le_one fun d hd d' hd' hs hs' ↦ hu.eq hd hd' <|
      h d.id d'.id (mem_statuses.mpr ⟨d, hd, rfl, beq_iff_eq.mp hs⟩)
        (mem_statuses.mpr ⟨d', hd', rfl, beq_iff_eq.mp hs'⟩)

/-! ## Going live -/

/-- The deck a transaction publishes as live. -/
def Transaction.goesLive : Transaction → Option Uuid
  | .finalizeProgressive deckId _ .live | .publish deckId _ _ _ .live => some deckId
  | _ => none

namespace Transaction

variable {tx : Transaction} {jsonb : Json.Store} {now : Time} {db db' : Decks} {u v : Uuid}
  {s : DeckStatus}

theorem live_of_turn (h : tx.turn u s = .live) : s = .live ∨ tx.goesLive = some u := by
  cases tx with
  | updateGenerationState | persistCard => exact .inl h
  | finalizeProgressive deckId mapping final | publish deckId provided doc cards final =>
    rw [turn] at h
    split at h
    · rename_i hid
      cases final with
      | ready => cases h
      | live => exact .inr (congrArg some hid.symm)
    · exact .inl h
  | failPublication | publisherMarkFailed | adminMarkFailed =>
    rw [turn] at h
    split at h
    · cases h
    · exact .inl h

theorem goesLive_of_entered (h : (u, .live) ∈ tx.entered db) : tx.goesLive = some u := by
  cases tx with
  | publish deckId provided doc cards final =>
    rw [entered] at h
    split at h
    · cases h
    · cases final with
      | ready => simp [FinalStatus.status] at h
      | live => simpa [goesLive, FinalStatus.status, eq_comm] using h
  | failPublication deckId provided doc reason =>
    rw [entered] at h
    split at h
    · cases h
    · simp at h
  | updateGenerationState | persistCard | finalizeProgressive | publisherMarkFailed
  | adminMarkFailed => cases h

/-- A deck is live after a transaction if it was before, or has been published. -/
theorem live_of_run (h : tx.run jsonb now db = .ok db') (hlive : (u, .live) ∈ db'.statuses) :
    (u, .live) ∈ db.statuses ∨ tx.goesLive = some u := by
  rw [statuses_run h, List.mem_append, List.mem_map] at hlive
  rcases hlive with ⟨⟨u', s⟩, hmem, heq⟩ | hentered
  · obtain ⟨rfl, hturn⟩ := Prod.mk.inj heq
    rcases live_of_turn hturn with hs | hgoes
    · exact .inl (hs ▸ hmem)
    · exact .inr hgoes
  · exact .inr (goesLive_of_entered hentered)

/-- A deck that is published as live is live afterwards and was not before, and those that were
still are. -/
theorem live_run (hu : Unique DeckRecord.id db.decks) (h : tx.run jsonb now db = .ok db')
    (hv : tx.goesLive = some v) : (v, .live) ∈ db'.statuses ∧ (v, .live) ∉ db.statuses ∧
      ∀ u, (u, .live) ∈ db.statuses → (u, .live) ∈ db'.statuses := by
  have hstarts := starts_of_run hu h
  have hgenerating (hg : db.Generating v) : (v, .generating) ∈ db.statuses :=
    Decks.mem_statuses.mpr hg
  have hturned {u : Uuid} {s : DeckStatus} (hmem : (u, s) ∈ db.statuses)
      (hs : tx.turn u s = .live) : (u, .live) ∈ db'.statuses := by
    rw [statuses_run h]
    exact List.mem_append_left _ (List.mem_map.mpr ⟨(u, s), hmem, Prod.ext rfl hs⟩)
  cases tx with
  | finalizeProgressive deckId mapping final =>
    cases final with
    | ready => cases hv
    | live =>
      cases hv
      refine ⟨hturned (hgenerating hstarts) (if_pos rfl), fun hlive ↦ ?_, fun u hlive ↦
        hturned hlive (by simp [turn, FinalStatus.status])⟩
      exact absurd (Decks.status_unique hu hlive (hgenerating hstarts)) (by decide)
  | publish deckId provided doc cards final =>
    cases final with
    | ready => cases hv
    | live =>
      cases hv
      refine ⟨?_, fun hlive ↦ ?_, fun u hlive ↦
        hturned hlive (by simp [turn, FinalStatus.status])⟩
      · cases provided with
        | true => exact hturned (hgenerating (hstarts.1 rfl)) (if_pos rfl)
        | false =>
          rw [statuses_run h]
          exact List.mem_append_right _ (List.mem_singleton.mpr rfl)
      · cases provided with
        | true =>
          exact absurd (Decks.status_unique hu hlive (hgenerating (hstarts.1 rfl))) (by decide)
        | false =>
          obtain ⟨d, hd, hid, -⟩ := Decks.mem_statuses.mp hlive
          exact hstarts.2 rfl d hd hid
  | updateGenerationState | persistCard | failPublication | publisherMarkFailed
  | adminMarkFailed => cases hv

end Transaction

/-- A deck that is published as live finds no live deck. -/
def SoleLive (db : Decks) : {β : Type} → DeckOp β → Prop
  | _, .commit tx =>
    tx.goesLive.isSome = true → tx.Starts db → ∀ d ∈ db.decks, d.status ≠ .live
  | _, _ => True

/-- The runs in which a deck is only published as live when none is. -/
def noSecondLive : Terms DeckOp DeckError DeckDraw Commission Studio where
  may _ op _ w := SoleLive w.state.db op
  lose _ _ := True

/-- **A call leaves at most one deck live exactly if it publishes none beside a live one.** -/
theorem atMostOneLive_exec {i : ℕ} {w : Shop} {β : Type} {op : DeckOp β} {jsonb : Json.Store}
    {d : DeckDraw} (htidy : w.Tidy) (hr : Rightful i w op)
    (hafter : Shop.Tidy ((workshop jsonb).after i op d w)) (hone : w.state.db.AtMostOneLive) :
    (op.exec jsonb d w.state).2.db.AtMostOneLive ↔ SoleLive w.state.db op := by
  have hu := htidy.opening.deckIds
  have hu' : Unique DeckRecord.id (op.exec jsonb d w.state).2.db.decks := hafter.opening.deckIds
  have hone' := (Decks.atMostOneLive_iff hu).mp hone
  cases op with
  | commit tx =>
    show (tx.exec jsonb d.now w.state.db).2.AtMostOneLive ↔ _
    replace hu' : Unique DeckRecord.id (tx.exec jsonb d.now w.state.db).2.decks := hu'
    cases hrun : tx.run jsonb d.now w.state.db with
    | error e =>
      rw [Transaction.exec, hrun]
      refine iff_of_true hone fun _ hstarts ↦ ?_
      obtain ⟨db', hrun'⟩ : ∃ db', tx.run jsonb d.now w.state.db = .ok db' :=
        Transaction.exists_run hu hr hstarts
      rw [hrun] at hrun'
      cases hrun'
    | ok db' =>
      rw [Transaction.exec, hrun] at hu' ⊢
      rw [Decks.atMostOneLive_iff hu']
      cases hv : tx.goesLive with
      | none =>
        refine iff_of_true (fun u u' hlive hlive' ↦ hone' u u' ?_ ?_) fun hsome _ ↦ ?_
        · exact (Transaction.live_of_run hrun hlive).resolve_right (by simp [hv])
        · exact (Transaction.live_of_run hrun hlive').resolve_right (by simp [hv])
        · rw [hv] at hsome
          cases hsome
      | some v =>
        obtain ⟨hlive, hnew, hkept⟩ := Transaction.live_run hu hrun hv
        constructor
        · intro h _ _ d hd hs
          have hold : (d.id, .live) ∈ w.state.db.statuses := Decks.mem_statuses.mpr ⟨d, hd, rfl, hs⟩
          exact hnew (h d.id v (hkept d.id hold) hlive ▸ hold)
        · intro h u u' hu hu'
          have hnone := h (by rw [hv]; rfl) (Transaction.starts_of_run htidy.opening.deckIds hrun)
          have hsole (u : Uuid) (hu : (u, .live) ∈ db'.statuses) : u = v := by
            rcases Transaction.live_of_run hrun hu with hold | hgoes
            · obtain ⟨d, hd, -, hs⟩ := Decks.mem_statuses.mp hold
              exact absurd hs (hnone d hd)
            · exact (Option.some.inj (hv.symm.trans hgoes)).symm
          exact (hsole u hu).trans (hsole u' hu').symm
  | createGenerating doc =>
    refine iff_of_true ?_ trivial
    rw [Decks.atMostOneLive_iff hu']
    have hlive (u : Uuid)
        (h : (u, .live) ∈ (w.state.db.createGenerating jsonb d.uuid doc).2.statuses) :
        (u, .live) ∈ w.state.db.statuses := by
      rw [Decks.statuses_createGenerating, List.mem_append] at h
      refine h.resolve_right fun hmem ↦ ?_
      split at hmem
      · cases hmem
      · simp at hmem
    exact fun u u' h h' ↦ hone' u u' (hlive u h) (hlive u' h')
  | activate deckId =>
    refine iff_of_true ?_ trivial
    rw [Decks.atMostOneLive_iff hu']
    show ∀ u u', (u, .live) ∈ (w.state.db.activate d.now deckId).2.statuses →
      (u', .live) ∈ (w.state.db.activate d.now deckId).2.statuses → u = u'
    rcases w.state.db.statuses_activate d.now deckId with hsame | hturned
    · rw [hsame]
      exact hone'
    · rw [hturned]
      have hlive (u : Uuid) (h : (u, .live) ∈ w.state.db.statuses.map fun e ↦
          (e.1, turnActivated deckId e.1 e.2)) : u = deckId := by
        obtain ⟨⟨u', s⟩, -, heq⟩ := List.mem_map.mp h
        obtain ⟨rfl, hs⟩ := Prod.mk.inj heq
        by_contra hne
        simp only [turnActivated, if_neg hne] at hs
        split at hs
        · cases hs
        · contradiction
      exact fun u u' h h' ↦ (hlive u h).trans (hlive u' h').symm
  | await | uuid4 | imageVerified | inventConcepts | selectDecoys => exact iff_of_true hone trivial

/-- In a run the tables are tidy, and every call is a rightful one. -/
theorem good_of_reachable {jsonb : Json.Store}
    {c : Config DeckOp DeckError Commission Studio Unit} (hc : (workshop jsonb).Reachable c) :
    authorship.Good (workshop jsonb) .any c :=
  (authorship_sound jsonb).good (fun _ hs ↦ ⟨hs, List.nodup_nil, nofun⟩) (fun _ _ ↦ trivial) hc

/-- The same for an event of a run. -/
theorem atMostOneLive_fire {jsonb : Json.Store}
    {c c' : Config DeckOp DeckError Commission Studio Unit}
    {e : Event Commission DeckDraw DeckError} (hc : (workshop jsonb).Reachable c)
    (hone : c.world.state.db.AtMostOneLive) (he : (workshop jsonb).fire c e = some c') :
    c'.world.state.db.AtMostOneLive ↔ noSecondLive.Allows c e := by
  have hgood := good_of_reachable hc
  exact System.iff_allows_of_fire (T := noSecondLive) (R := fun w ↦ w.state.db.AtMostOneLive) he
    (fun _ _ ↦ trivial) hone (fun _ ↦ hone) fun i _ op k d ht hd ↦
      atMostOneLive_exec hgood.here.2 (hgood.pre ht)
      (hgood.here.2.after (hgood.pre ht) hd) hone

/-- **At most one deck is live as long as none is published as live while another one is.**  In a
configuration with at most one live deck, an event leaves it so if and only if it does not publish a
deck as live, finding it as it should be, while a deck is live; so a run without such events never
has two live decks. -/
theorem one_live (jsonb : Json.Store) :
    (∀ c, (workshop jsonb).Reachable c → c.world.state.db.AtMostOneLive →
      ∀ e c', (workshop jsonb).fire c e = some c' →
        (c'.world.state.db.AtMostOneLive ↔ noSecondLive.Allows c e)) ∧
    ∀ s c, s.Opening → s.db.AtMostOneLive →
      (workshop jsonb).Leads noSecondLive.Allows (System.start s) c →
        c.world.state.db.AtMostOneLive := by
  refine ⟨fun c hc hone e c' he ↦ atMostOneLive_fire hc hone he, fun s c hs hone hl ↦ ?_⟩
  induction hl with
  | refl => exact hone
  | fire hl ha he ih => exact (atMostOneLive_fire (hl.reachable (.start hs)) ih he).mpr ha

/-! ## A run with one live deck, and one with two -/

instance (db : Decks) : {β : Type} → (op : DeckOp β) → Decidable (SoleLive db op)
  | _, .commit tx => inferInstanceAs (Decidable
    (tx.goesLive.isSome = true → tx.Starts db → ∀ d ∈ db.decks, d.status ≠ .live))
  | _, .await _ | _, .createGenerating _ | _, .activate _ | _, .uuid4 | _, .imageVerified _
  | _, .inventConcepts _ | _, .selectDecoys _ => isTrue trivial

instance (β : Type) (i : ℕ) (op : DeckOp β) (d : DeckDraw)
    (w : World DeckOp DeckError Commission Studio) : Decidable (noSecondLive.may i op d w) :=
  inferInstanceAs (Decidable (SoleLive w.state.db op))

instance (i : ℕ) (w : World DeckOp DeckError Commission Studio) :
    Decidable (noSecondLive.lose i w) := isTrue trivial

/-- Deck 1, and no cards. -/
def oneDeck (status : DeckStatus) : Studio :=
  ⟨⟨[⟨1, status, .null, none, none⟩], []⟩, [1]⟩

theorem opening_oneDeck (status : DeckStatus) : (oneDeck status).Opening where
  deckIds := List.nodup_singleton _
  cardIds := List.nodup_nil
  issuedDecks d hd := by
    rw [List.mem_singleton.mp hd]
    exact List.mem_singleton.mpr rfl
  issuedCards _ hc := absurd hc List.not_mem_nil

/-- A deck of six cards, published as live. -/
def liveOrder : BuildOrder where
  region := "assam".toList
  concepts := some operatorDeck
  deckId := none

/-- For each of six cards, the concepts of the others; the first card has identifier `n`. -/
def sixRows (n : ℕ) : List DecoyRow :=
  (List.range 6).map fun k ↦ ⟨uuidText (n + k), (operatorDeck.map Concept.id).eraseIdx k⟩

/-- `count` calls of program `i`, the first of them with identifier `n`. -/
def deckCalls (i n count : ℕ) (rows : List DecoyRow := []) :
    List (Event Commission DeckDraw DeckError) :=
  (List.range count).map fun k ↦ .step i { now := n + k, uuid := n + k, rows }

/-- Program `i` builds a deck; its cards are `n + 2` and the next five, the deck is `n + 9`. -/
def liveBuild (i n : ℕ) : List (Event Commission DeckDraw DeckError) :=
  .spawn (.build liveOrder) :: deckCalls i n 16 (sixRows (n + 2))

/-- A deck is built while there is a ready one, which is activated after that. -/
theorem one_live_activated : ∃ c, (workshop .verbatim).Leads noSecondLive.Allows
    (System.start (oneDeck .ready)) c ∧ c.world.state.db.AtMostOneLive ∧
      ∃ d ∈ c.world.state.db.decks, d.id = 1 ∧ d.status = .live := by
  obtain ⟨c, hc, hrun⟩ := Option.map_eq_some_iff.mp
    (show ((workshop .verbatim).runOn noSecondLive.permits (System.start (oneDeck .ready))
      (liveBuild 0 10 ++ .spawn (.activate 1) :: deckCalls 1 30 1)).map
        (fun c ↦ decide (c.world.state.db.decks.map (fun d ↦ (d.id, d.status)) =
          [(1, .live), (19, .ready)])) = some true by decide +kernel)
  have hl := System.leads_of_runOn noSecondLive.allows_of_permits (.refl _) hc
  have hdecks := of_decide_eq_true hrun
  have hmem : (1, DeckStatus.live) ∈ c.world.state.db.decks.map fun d ↦ (d.id, d.status) := by
    rw [hdecks]
    exact List.mem_cons_self
  obtain ⟨d, hd, heq⟩ := List.mem_map.mp hmem
  exact ⟨c, hl, (one_live .verbatim).2 _ c (opening_oneDeck _) (by decide) hl, d, hd,
    Prod.mk.inj heq⟩

/-- A deck is built while there is a live one. -/
theorem two_live_decks : ∃ s c, s.Opening ∧ s.db.AtMostOneLive ∧
    (workshop .verbatim).Leads (fun _ _ ↦ True) (System.start s) c ∧
      ¬c.world.state.db.AtMostOneLive := by
  obtain ⟨c, hc, hrun⟩ := Option.map_eq_some_iff.mp
    (show ((workshop .verbatim).runOn (fun _ _ ↦ true) (System.start (oneDeck .live))
      (liveBuild 0 10)).map
        (fun c ↦ decide ((c.world.state.db.decks.filter fun d ↦ d.status == .live).length = 2)) =
        some true by decide +kernel)
  refine ⟨oneDeck .live, c, opening_oneDeck _, by decide,
    System.leads_of_runOn (fun _ _ _ ↦ trivial) (.refl _) hc, fun hone ↦ ?_⟩
  rw [Decks.AtMostOneLive, of_decide_eq_true hrun] at hone
  exact absurd hone (by decide)

end Neva.Deckgen
