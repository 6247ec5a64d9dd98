import Neva.Deckgen.Undisturbed

/-!
# A finished deck, and the failure handlers

A deck that has been published is ready or live.  What can go wrong after that, while the log is
written or the connection closed, reaches handlers that mean to mark a deck failed which never got
that far.  The publisher's `mark_failed` looks whether the deck is still being generated.  The other
two do not look closely enough: the one of the background tasks spares live decks only, and the
upsert of `publish` spares none.  They meet no finished deck as long as nothing raises once a deck
is finished.
-/

set_option autoImplicit false

namespace Neva.Deckgen

open Calls Tables

namespace Decks

/-- No deck that was finished is failed. -/
def NoneFailed (db db' : Decks) : Prop :=
  ∀ d ∈ db.decks, DeckStatus.Finished d.status → ∀ d' ∈ db'.decks, d'.id = d.id →
    d'.status ≠ .failed

/-- Every finished deck still is. -/
def FinishedKept (db db' : Decks) : Prop :=
  ∀ u s, (u, s) ∈ db.statuses → DeckStatus.Finished s →
    ∃ s', (u, s') ∈ db'.statuses ∧ DeckStatus.Finished s'

variable {db db' db'' : Decks}

theorem FinishedKept.of_eq (h : db'.statuses = db.statuses) : db.FinishedKept db' :=
  fun _ s hs hfin ↦ ⟨s, h ▸ hs, hfin⟩

theorem FinishedKept.refl (db : Decks) : db.FinishedKept db := .of_eq rfl

theorem FinishedKept.trans (h : db.FinishedKept db') (h' : db'.FinishedKept db'') :
    db.FinishedKept db'' := by
  intro u s hs hfin
  obtain ⟨s', hs', hfin'⟩ := h u s hs hfin
  exact h' u s' hs' hfin'

/-- A deck has one status, so one that is still finished has not been failed. -/
theorem FinishedKept.noneFailed (hu : Unique DeckRecord.id db'.decks) (h : db.FinishedKept db') :
    db.NoneFailed db' := by
  intro d hd hfin d' hd' hid hfailed
  obtain ⟨s', hs', hfin'⟩ := h d.id d.status (mem_statuses.mpr ⟨d, hd, rfl, rfl⟩) hfin
  rw [← hid] at hs'
  rw [status_unique hu hs' (mem_statuses.mpr ⟨d', hd', rfl, hfailed⟩)] at hfin'
  rcases hfin' with h | h <;> cases h

end Decks

/-! ## The handlers -/

/-- The handlers that look too little do not meet a finished deck. -/
def SparesFinished (db : Decks) : {β : Type} → DeckOp β → Prop
  | _, .commit (.adminMarkFailed deckId _) => ∀ d ∈ db.decks, d.id = deckId → d.status ≠ .ready
  | _, .commit (.failPublication deckId provided _ _) =>
    provided = false → ∀ d ∈ db.decks, d.id = deckId → ¬DeckStatus.Finished d.status
  | _, _ => True

/-- The runs in which they never do. -/
def finishedSpared : Terms DeckOp DeckError DeckDraw Commission Studio where
  may _ op _ w := SparesFinished w.state.db op
  lose _ _ := True

namespace Transaction

variable {tx : Transaction} {jsonb : Json.Store} {now : Time} {db db' : Decks}

/-- What a transaction makes of the status of a finished deck. -/
theorem finished_turn (hspares : SparesFinished db (.commit tx)) {d : DeckRecord}
    (hd : d ∈ db.decks) (h : DeckStatus.Finished d.status) :
    DeckStatus.Finished (tx.turn d.id d.status) := by
  cases tx with
  | updateGenerationState | persistCard => exact h
  | finalizeProgressive deckId mapping final | publish deckId provided doc cards final =>
    rw [turn]
    split
    · exact final.finished
    · exact h
  | failPublication deckId provided doc reason =>
    rw [turn, if_neg]
    · exact h
    · rintro ⟨hid, hgenerating⟩
      cases provided with
      | false => exact hspares rfl d hd hid h
      | true =>
        rw [hgenerating rfl] at h
        rcases h with h | h <;> cases h
  | publisherMarkFailed deckId reason =>
    rw [turn, if_neg]
    · exact h
    · rintro ⟨-, hgenerating⟩
      rw [hgenerating] at h
      rcases h with h | h <;> cases h
  | adminMarkFailed deckId reason =>
    rw [turn, if_neg]
    · exact h
    · rintro ⟨hid, hlive⟩
      exact h.elim (hspares d hd hid) hlive

theorem mem_statuses_run (h : tx.run jsonb now db = .ok db') {d : DeckRecord}
    (hd : d ∈ db.decks) : (d.id, tx.turn d.id d.status) ∈ db'.statuses := by
  rw [statuses_run h]
  exact List.mem_append_left _ (List.mem_map.mpr
    ⟨(d.id, d.status), Decks.mem_statuses.mpr ⟨d, hd, rfl, rfl⟩, rfl⟩)

/-- A transaction that makes a finished deck a failed one is one of the two. -/
theorem spares_of_noneFailed (h : tx.run jsonb now db = .ok db') (hnone : db.NoneFailed db') :
    SparesFinished db (.commit tx) := by
  have hfailed {d : DeckRecord} (hd : d ∈ db.decks) (hfin : DeckStatus.Finished d.status) :
      tx.turn d.id d.status ≠ .failed := by
    intro hturn
    have hmem := mem_statuses_run h hd
    rw [hturn] at hmem
    obtain ⟨d', hd', hid, hs⟩ := Decks.mem_statuses.mp hmem
    exact hnone d hd hfin d' hd' hid hs
  cases tx with
  | adminMarkFailed deckId reason =>
    intro d hd hid hs
    exact hfailed hd (.inl hs) (if_pos ⟨hid, by rw [hs]; exact nofun⟩)
  | failPublication deckId provided doc reason =>
    intro hprovided d hd hid hfin
    exact hfailed hd hfin (if_pos ⟨hid, fun htrue ↦ by rw [htrue] at hprovided; cases hprovided⟩)
  | updateGenerationState | persistCard | finalizeProgressive | publish | publisherMarkFailed =>
    trivial

end Transaction

/-- A call spares the finished decks exactly if it fails none of them, and then they are kept. -/
theorem finishedKept_exec {w : Shop} {β : Type} {op : DeckOp β} {jsonb : Json.Store} {d : DeckDraw}
    (hspares : SparesFinished w.state.db op) :
    w.state.db.FinishedKept (op.exec jsonb d w.state).2.db := by
  cases op with
  | commit tx =>
    show w.state.db.FinishedKept (tx.exec jsonb d.now w.state.db).2
    rw [Transaction.exec]
    split
    · rename_i db' hrun
      intro u s hs hfin
      obtain ⟨d, hd, rfl, rfl⟩ := Decks.mem_statuses.mp hs
      exact ⟨_, Transaction.mem_statuses_run hrun hd, Transaction.finished_turn hspares hd hfin⟩
    · exact .refl _
  | createGenerating doc =>
    intro u s hs hfin
    refine ⟨s, ?_, hfin⟩
    show (u, s) ∈ (w.state.db.createGenerating jsonb d.uuid doc).2.statuses
    rw [Decks.statuses_createGenerating]
    exact List.mem_append_left _ hs
  | activate deckId =>
    show w.state.db.FinishedKept (w.state.db.activate d.now deckId).2
    rcases w.state.db.statuses_activate d.now deckId with hsame | hturned
    · exact .of_eq hsame
    · intro u s hs hfin
      refine ⟨turnActivated deckId u s, ?_, ?_⟩
      · rw [hturned]
        exact List.mem_map.mpr ⟨(u, s), hs, rfl⟩
      · rw [turnActivated]
        split
        · exact .inr rfl
        · split
          · exact .inl rfl
          · exact hfin
  | await | uuid4 | imageVerified | inventConcepts | selectDecoys => exact .refl _

theorem spares_of_noneFailed {w : Shop} {β : Type} {op : DeckOp β} {jsonb : Json.Store}
    {d : DeckDraw} (h : w.state.db.NoneFailed (op.exec jsonb d w.state).2.db) :
    SparesFinished w.state.db op := by
  cases op with
  | commit tx =>
    replace h : w.state.db.NoneFailed (tx.exec jsonb d.now w.state.db).2 := h
    cases hrun : tx.run jsonb d.now w.state.db with
    | ok db' =>
      rw [Transaction.exec, hrun] at h
      exact Transaction.spares_of_noneFailed hrun h
    | error e =>
      -- neither of the two handlers can raise
      cases tx with
      | adminMarkFailed | failPublication => cases hrun
      | updateGenerationState | persistCard | finalizeProgressive | publish
      | publisherMarkFailed => trivial
  | await | createGenerating | activate | uuid4 | imageVerified | inventConcepts
  | selectDecoys => trivial

/-- The same for an event of a run. -/
theorem noneFailed_fire {jsonb : Json.Store}
    {c c' : Config DeckOp DeckError Commission Studio Unit}
    {e : Event Commission DeckDraw DeckError} (hc : (workshop jsonb).Reachable c)
    (he : (workshop jsonb).fire c e = some c') :
    (c.world.state.db.NoneFailed c'.world.state.db ↔ finishedSpared.Allows c e) ∧
      (c.world.state.db.FinishedKept c'.world.state.db ↔ finishedSpared.Allows c e) := by
  have hgood := good_of_reachable hc
  have hidle := Decks.FinishedKept.refl c.world.state.db
  have hnone : c.world.state.db.NoneFailed c.world.state.db :=
    hidle.noneFailed hgood.here.2.opening.deckIds
  have hcall {i : ℕ} {β : Type} {op : DeckOp β} {k : Except DeckError β → Build Unit}
      {d : DeckDraw} (ht : c.threads[i]? = some (.live (.call op k)))
      (hd : (workshop jsonb).admits d c.world.state = true)
      (hkept : c.world.state.db.FinishedKept ((workshop jsonb).after i op d c.world).state.db) :
      c.world.state.db.NoneFailed ((workshop jsonb).after i op d c.world).state.db :=
    hkept.noneFailed (hgood.here.2.after (hgood.pre ht) hd).opening.deckIds
  constructor
  · exact System.iff_allows_of_fire (T := finishedSpared)
      (R := fun w ↦ c.world.state.db.NoneFailed w.state.db) he (fun _ _ ↦ trivial) hnone
      (fun _ ↦ hnone) fun i _ op k d ht hd ↦
        ⟨spares_of_noneFailed, fun hspares ↦ hcall ht hd (finishedKept_exec hspares)⟩
  · exact System.iff_allows_of_fire (T := finishedSpared)
      (R := fun w ↦ c.world.state.db.FinishedKept w.state.db) he (fun _ _ ↦ trivial) hidle
      (fun _ ↦ hidle) fun i _ op k d ht hd ↦
        ⟨fun hkept ↦ spares_of_noneFailed (hcall ht hd hkept), finishedKept_exec⟩

/-- A program that has been careful spares the finished decks with its next call. -/
theorem Heeding.spares {w : Shop} {i : ℕ} {r : Commission} {β : Type} {op : DeckOp β}
    {k : Except DeckError β → Build Unit} {h : List (Past DeckOp DeckError)}
    (hp : Heeding w i r (.call op k) h) : SparesFinished w.state.db op := by
  have hnone {u : Uuid} (hcareful : ¬Smooth h ∧ About r.deck h u) : ¬FinishedDeck w u :=
    hp.unfinished hcareful.1 u (hp.about u hcareful.2)
  have hcareful := hp.careful.1
  cases op with
  | commit tx =>
    cases tx with
    | adminMarkFailed deckId reason =>
      exact fun d hd hid hready ↦ hnone hcareful ⟨d, hd, hid, .inl hready⟩
    | failPublication deckId provided doc reason =>
      exact fun _ d hd hid hfin ↦ hnone hcareful ⟨d, hd, hid, hfin⟩
    | updateGenerationState | persistCard | finalizeProgressive | publish
    | publisherMarkFailed => trivial
  | await | createGenerating | activate | uuid4 | imageVerified | inventConcepts | selectDecoys =>
    trivial

/-- Where all programs are careful, every event spares the finished decks. -/
theorem Heeded.allows {jsonb : Json.Store} {c : Config DeckOp DeckError Commission Studio Unit}
    (hc : (workshop jsonb).Reachable c) (hh : Heeded c) (e : Event Commission DeckDraw DeckError) :
    finishedSpared.Allows c e := by
  cases e with
  | spawn | fault | kill => trivial
  | step i d =>
    intro β op k ht
    have hi := (List.getElem?_eq_some_iff.mp ht).1
    rw [(good_of_reachable hc).length] at hi
    obtain ⟨h, hp⟩ := hh i _ _ (List.getElem?_eq_getElem hi) ht
    exact hp.spares

theorem noneFailed_of_leads {jsonb : Json.Store}
    {c c' : Config DeckOp DeckError Commission Studio Unit}
    {P : Config DeckOp DeckError Commission Studio Unit →
      Event Commission DeckDraw DeckError → Prop}
    (hc : (workshop jsonb).Reachable c)
    (hP : ∀ c'', (workshop jsonb).Leads P c c'' → ∀ e, P c'' e → finishedSpared.Allows c'' e)
    (hl : (workshop jsonb).Leads P c c') : c.world.state.db.NoneFailed c'.world.state.db := by
  have hkept : c.world.state.db.FinishedKept c'.world.state.db := by
    induction hl with
    | refl => exact .refl _
    | fire hl hp he ih =>
      exact ih.trans ((noneFailed_fire (hl.reachable hc) he).2.mpr (hP _ hl _ hp))
  exact hkept.noneFailed (good_of_reachable (hl.reachable hc)).here.2.opening.deckIds

/-- **A finished deck does not become failed as long as the two handlers do not meet one.**  An
event fails no finished deck if and only if it is neither `mark_failed` of the background task for a
deck that is ready, nor the upsert of `publish` for a deck that is ready or live; so in a run
without such events a deck that is finished is never failed later.  And no such event occurs in a
run in which every deck has one build, started before it is finished, and no call of the build
raises after that. -/
theorem finished_not_failed (jsonb : Json.Store) :
    (∀ c, (workshop jsonb).Reachable c → ∀ e c', (workshop jsonb).fire c e = some c' →
      (c.world.state.db.NoneFailed c'.world.state.db ↔ finishedSpared.Allows c e)) ∧
    (∀ c c', (workshop jsonb).Reachable c → (workshop jsonb).Leads finishedSpared.Allows c c' →
      c.world.state.db.NoneFailed c'.world.state.db) ∧
    ∀ s c c', s.Opening → (workshop jsonb).Leads (undisturbed jsonb) (System.start s) c →
      (workshop jsonb).Leads (undisturbed jsonb) c c' →
        c.world.state.db.NoneFailed c'.world.state.db := by
  refine ⟨fun c hc e c' he ↦ (noneFailed_fire hc he).1,
    fun c c' hc h ↦ noneFailed_of_leads hc (fun _ _ _ he ↦ he) h, fun s c c' hs h h' ↦ ?_⟩
  have hc := h.reachable (.start hs)
  have hheeded := heeded_of_undisturbed hs h
  exact noneFailed_of_leads hc
    (fun c'' h'' e _ ↦ (hheeded.leads hc h'').allows (h''.reachable hc) e) h'

/-! ## A run that spares the finished deck, and one that does not -/

theorem regionTag_assam : regionTagField.Admits "assam".toList := by decide

theorem labelEn_kite : labelEnField.Admits "kite".toList := by decide

theorem locale_assam : localeField.Admits "Assam".toList := by decide

theorem culturalHint_kite : culturalHintField.Admits "a red kite".toList := by decide

/-- A concept of a request. -/
def adminInput (conceptId : String) (h : conceptIdField.Admits conceptId.toList) :
    AdminConceptInput where
  conceptId := conceptId.toList
  labelEn := "kite".toList
  locale := "Assam".toList
  culturalHint := "a red kite".toList
  conceptId_admitted := h
  labelEn_admitted := labelEn_kite
  locale_admitted := locale_assam
  culturalHint_admitted := culturalHint_kite

/-- A request of six concepts. -/
def sixInputs : AdminDeckGenerateRequest where
  regionTag := "assam".toList
  regionTag_admitted := regionTag_assam
  concepts := [adminInput "kite" (by decide), adminInput "drum" (by decide),
    adminInput "goat" (by decide), adminInput "boat" (by decide), adminInput "loom" (by decide),
    adminInput "bell" (by decide)]
  minLength := by decide
  maxLength := by decide
  unique := by decide

/-- Deck 10 is created, and its cards are published as ready. -/
def readyRun : List (Event Commission DeckDraw DeckError) :=
  .spawn (.startGeneration .null) :: deckCalls 0 10 1 ++
    .spawn (.runGeneration 10 sixInputs) :: deckCalls 1 11 12 (sixRows 13)

instance (db : Decks) : {β : Type} → (op : DeckOp β) → Decidable (SparesFinished db op)
  | _, .commit (.adminMarkFailed deckId _) =>
    inferInstanceAs (Decidable (∀ d ∈ db.decks, d.id = deckId → d.status ≠ .ready))
  | _, .commit (.failPublication deckId provided _ _) => inferInstanceAs (Decidable
    (provided = false → ∀ d ∈ db.decks, d.id = deckId → ¬DeckStatus.Finished d.status))
  | _, .commit (.updateGenerationState _ _) | _, .commit (.persistCard _ _)
  | _, .commit (.finalizeProgressive _ _ _) | _, .commit (.publish _ _ _ _ _)
  | _, .commit (.publisherMarkFailed _ _) | _, .await _ | _, .createGenerating _ | _, .activate _
  | _, .uuid4 | _, .imageVerified _ | _, .inventConcepts _ | _, .selectDecoys _ => isTrue trivial

instance (β : Type) (i : ℕ) (op : DeckOp β) (d : DeckDraw)
    (w : World DeckOp DeckError Commission Studio) : Decidable (finishedSpared.may i op d w) :=
  inferInstanceAs (Decidable (SparesFinished w.state.db op))

instance (i : ℕ) (w : World DeckOp DeckError Commission Studio) :
    Decidable (finishedSpared.lose i w) := isTrue trivial

theorem opening_empty : Studio.Opening ⟨⟨[], []⟩, []⟩ where
  deckIds := List.nodup_nil
  cardIds := List.nodup_nil
  issuedDecks _ hd := absurd hd List.not_mem_nil
  issuedCards _ hc := absurd hc List.not_mem_nil

/-- The background task comes to its end, and the deck is activated. -/
theorem finished_not_failed_activated : ∃ s c c', s.Opening ∧
    (workshop .verbatim).Leads (undisturbed .verbatim) (System.start s) c ∧
    (workshop .verbatim).Leads (undisturbed .verbatim) c c' ∧
    (workshop .verbatim).Leads finishedSpared.Allows c c' ∧
      (∃ d ∈ c.world.state.db.decks, d.status = .ready) ∧
      c.world.state.db.NoneFailed c'.world.state.db := by
  obtain ⟨c, hc, hrun⟩ := Option.map_eq_some_iff.mp
    (show ((workshop .verbatim).runOn (disturbsNothing .verbatim)
        (System.start ⟨⟨[], []⟩, []⟩) readyRun).map
      (fun c ↦ c.world.state.db.decks.any (fun d ↦ d.status == .ready) &&
        ((workshop .verbatim).runOn (fun c e ↦ disturbsNothing .verbatim c e &&
          finishedSpared.permits c e) c
          (deckCalls 1 23 4 ++ .spawn (.activate 10) :: deckCalls 2 27 1)).isSome) =
      some true by decide +kernel)
  rw [Bool.and_eq_true, List.any_eq_true] at hrun
  obtain ⟨⟨d, hd, hready⟩, hmore⟩ := hrun
  obtain ⟨c', hc'⟩ := Option.isSome_iff_exists.mp hmore
  have hl := System.leads_of_runOn (P := undisturbed .verbatim)
    (fun _ _ ↦ undisturbed_of_disturbsNothing) (.refl _) hc
  have hl' := System.leads_of_runOn (P := undisturbed .verbatim)
    (fun _ _ hp ↦ undisturbed_of_disturbsNothing (Bool.and_eq_true_iff.mp hp).1) (.refl c) hc'
  have hspared := System.leads_of_runOn (P := finishedSpared.Allows)
    (fun _ _ hp ↦ finishedSpared.allows_of_permits _ _ (Bool.and_eq_true_iff.mp hp).2)
    (.refl c) hc'
  exact ⟨_, c, c', opening_empty, hl, hl', hspared, ⟨d, hd, beq_iff_eq.mp hready⟩,
    (finished_not_failed .verbatim).2.2 _ c c' opening_empty hl hl'⟩

/-- The deck is ready, and then writing the log raises: the publisher leaves the deck alone, twice,
and the background task marks it failed. -/
theorem ready_deck_failed : ∃ c c', (workshop .verbatim).Reachable c ∧
    (workshop .verbatim).Leads (fun _ _ ↦ True) c c' ∧
      ¬c.world.state.db.NoneFailed c'.world.state.db := by
  obtain ⟨c, hc, hrun⟩ := System.exists_reachable_of_run opening_empty
    (show ((workshop .verbatim).run (System.start _) readyRun).map (fun c ↦
      c.world.state.db.decks.any (fun d ↦ d.id == 10 && d.status == .ready) &&
        ((workshop .verbatim).runOn (fun _ _ ↦ true) c
          (.fault 1 (.raised "OSError".toList) :: deckCalls 1 23 6)).any fun c' ↦
            c'.world.state.db.decks.any fun d ↦ d.id == 10 && d.status == .failed) =
      some true by decide +kernel)
  rw [Bool.and_eq_true, List.any_eq_true, Option.any_eq_true] at hrun
  obtain ⟨⟨d, hd, hready⟩, c', hc', hfailed⟩ := hrun
  rw [Bool.and_eq_true, beq_iff_eq, beq_iff_eq] at hready
  obtain ⟨d', hd', hd'failed⟩ := List.any_eq_true.mp hfailed
  rw [Bool.and_eq_true, beq_iff_eq, beq_iff_eq] at hd'failed
  refine ⟨c, c', hc, System.leads_of_runOn (fun _ _ _ ↦ trivial) (.refl c) hc', fun hnone ↦ ?_⟩
  exact hnone d hd (.inl hready.2) d' hd' (hd'failed.1.trans hready.1.symm) hd'failed.2

end Neva.Deckgen
