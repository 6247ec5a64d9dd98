import Neva.Deckgen.AuthorshipKept

/-!
# How the status of a deck changes

Every transaction moves the status of a deck by a rule of its own, `Transaction.turn`, whatever the
rest of the row is, and `Transaction.statuses_run` says that this is all a transaction does to the
statuses, apart from the deck it inserts.  What holds of the statuses of all decks at any time is
read off these rules.
-/

set_option autoImplicit false

namespace Neva.Deckgen

open Calls Tables

/-- What a deck is known by here. -/
def DeckRecord.entry (d : DeckRecord) : Uuid × DeckStatus := (d.id, d.status)

/-- The decks and their statuses. -/
def Decks.statuses (db : Decks) : List (Uuid × DeckStatus) := db.decks.map DeckRecord.entry

namespace Decks

variable {db db' : Decks}

theorem mem_statuses {u : Uuid} {s : DeckStatus} :
    (u, s) ∈ db.statuses ↔ ∃ d ∈ db.decks, d.id = u ∧ d.status = s := by
  simp only [statuses, List.mem_map, DeckRecord.entry, Prod.mk.injEq]

/-- A deck has one status. -/
theorem status_unique (hu : Unique DeckRecord.id db.decks) {u : Uuid} {s s' : DeckStatus}
    (h : (u, s) ∈ db.statuses) (h' : (u, s') ∈ db.statuses) : s = s' := by
  obtain ⟨d, hd, hid, rfl⟩ := mem_statuses.mp h
  obtain ⟨d', hd', hid', rfl⟩ := mem_statuses.mp h'
  rw [hu.eq hd hd' (hid.trans hid'.symm)]

theorem statuses_updateDecks {p : DeckRecord → Bool} {f : DeckRecord → DeckRecord}
    {g : Uuid × DeckStatus → Uuid × DeckStatus}
    (h : ∀ d, (if p d then f d else d).entry = g d.entry) :
    (db.updateDecks p f).statuses = db.statuses.map g := by
  rw [statuses, updateDecks, statuses, List.map_map, List.map_map]
  exact List.map_congr_left fun d _ ↦ h d

theorem decks_insertCards {cards : List CardRow} (h : insertCards cards db = .ok db') :
    db'.decks = db.decks := by
  induction cards generalizing db with
  | nil =>
    cases h
    rfl
  | cons c rest ih =>
    obtain ⟨db₁, h₁, h⟩ := Raising.bind_eq_ok.mp h
    rw [insertCard, Raising.ite_error_eq_ok] at h₁
    obtain ⟨-, h₁⟩ := h₁
    cases h₁
    exact (ih h).trans rfl

/-- The deck is there and being generated. -/
def Generating (db : Decks) (deckId : Uuid) : Prop :=
  ∃ d ∈ db.decks, d.id = deckId ∧ d.status = .generating

instance (deckId : Uuid) : Decidable (db.Generating deckId) :=
  inferInstanceAs (Decidable (∃ d ∈ db.decks, d.id = deckId ∧ d.status = .generating))

theorem lockGenerating_eq_ok (hu : Unique DeckRecord.id db.decks) {deckId : Uuid} :
    db.lockGenerating deckId = .ok () ↔ db.Generating deckId := by
  have hfind {d : DeckRecord} : db.deck? deckId = some d ↔ d ∈ db.decks ∧ d.id = deckId :=
    hu.find?_eq_some
  rw [lockGenerating]
  constructor
  · intro h
    split at h
    · cases h
    · rename_i d hd
      obtain ⟨hs, -⟩ := Raising.ite_else_error_eq_ok.mp h
      exact ⟨d, (hfind.mp hd).1, (hfind.mp hd).2, hs⟩
  · rintro ⟨d, hd, hid, hs⟩
    rw [hfind.mpr ⟨hd, hid⟩]
    exact if_pos hs

end Decks

/-! ## The rule of a transaction -/

namespace Transaction

/-- What a transaction that goes through makes of the status of a deck. -/
def turn (u : Uuid) (s : DeckStatus) : Transaction → DeckStatus
  | .updateGenerationState _ _ | .persistCard _ _ => s
  | .finalizeProgressive deckId _ final | .publish deckId _ _ _ final =>
    if u = deckId then final.status else s
  | .failPublication deckId provided _ _ =>
    if u = deckId ∧ (provided = true → s = .generating) then .failed else s
  | .publisherMarkFailed deckId _ => if u = deckId ∧ s = .generating then .failed else s
  | .adminMarkFailed deckId _ => if u = deckId ∧ s ≠ .live then .failed else s

/-- The deck a transaction that goes through inserts. -/
def entered (db : Decks) : Transaction → List (Uuid × DeckStatus)
  | .publish deckId provided _ _ final => if provided then [] else [(deckId, final.status)]
  | .failPublication deckId provided _ _ =>
    if provided || db.decks.any fun d ↦ d.id == deckId then [] else [(deckId, .failed)]
  | _ => []

variable {tx : Transaction} {jsonb : Json.Store} {now : Time} {db db' : Decks}

/-- **All a transaction does to the statuses.** -/
theorem statuses_run (h : tx.run jsonb now db = .ok db') :
    db'.statuses = db.statuses.map (fun e ↦ (e.1, tx.turn e.1 e.2)) ++ tx.entered db := by
  cases tx with
  | updateGenerationState deckId generationInput =>
    cases generationInput with
    | none =>
      cases h
      simp [turn, entered]
    | some doc =>
      cases h
      refine (Decks.statuses_updateDecks fun d ↦ ?_).trans (List.append_nil _).symm
      split <;> rfl
  | persistCard deckId card =>
    obtain ⟨-, -, h⟩ := Raising.bind_eq_ok.mp h
    have hdecks : db'.decks = db.decks := by
      split at h
      · cases h
        rfl
      · rw [Decks.insertCard, Raising.ite_error_eq_ok] at h
        cases h.2
        rfl
    rw [Decks.statuses, hdecks]
    simp [turn, entered, Decks.statuses]
  | finalizeProgressive deckId mapping final =>
    obtain ⟨-, -, h⟩ := Raising.bind_eq_ok.mp h
    cases h
    refine (Decks.statuses_updateDecks fun d ↦ ?_).trans (List.append_nil _).symm
    by_cases hid : d.id = deckId <;> simp [turn, DeckRecord.entry, DeckRecord.finished, hid]
  | publish deckId provided generationInput cards final =>
    obtain ⟨opened, hopened, h⟩ := Raising.bind_eq_ok.mp h
    obtain ⟨filled, hfilled, h⟩ := Raising.bind_eq_ok.mp h
    cases h
    have hdecks : filled.statuses = opened.statuses := by
      rw [Decks.statuses, Decks.decks_insertCards hfilled, Decks.statuses]
    have hfinished : (filled.updateDecks (fun d ↦ d.id == deckId) (·.finished final now)).statuses =
        opened.statuses.map fun e ↦ (e.1, if e.1 = deckId then final.status else e.2) := by
      rw [← hdecks]
      refine Decks.statuses_updateDecks fun d ↦ ?_
      by_cases hid : d.id = deckId <;> simp [DeckRecord.entry, DeckRecord.finished, hid]
    rw [hfinished]
    cases provided with
    | true =>
      obtain ⟨-, -, hopened⟩ := Raising.bind_eq_ok.mp hopened
      cases hopened
      have hsame : (db.updateDecks (fun d ↦ d.id == deckId) fun d ↦
          { d.described (jsonb.read generationInput) with failureReason := none }).statuses =
          db.statuses.map id := by
        refine Decks.statuses_updateDecks fun d ↦ ?_
        split <;> rfl
      rw [hsame, List.map_id]
      exact (List.append_nil _).symm
    | false =>
      have hnew : opened.statuses = db.statuses ++ [(deckId, .generating)] := by
        rw [Decks.openDeck, if_neg Bool.false_ne_true, Decks.insertDeck, Raising.ite_error_eq_ok]
          at hopened
        cases hopened.2
        simp [Decks.statuses, DeckRecord.entry]
      rw [hnew, List.map_append]
      simp [turn, entered]
  | failPublication deckId provided generationInput reason =>
    cases provided with
    | true =>
      cases h
      refine (Decks.statuses_updateDecks fun d ↦ ?_).trans (List.append_nil _).symm
      by_cases hid : d.id = deckId <;> by_cases hs : d.status = .generating <;>
        simp [turn, DeckRecord.entry, DeckRecord.failed, hid, hs]
    | false =>
      cases h
      show (db.upsertFailed jsonb deckId generationInput reason).statuses = _
      rw [Decks.upsertFailed]
      by_cases hany : db.decks.any fun d ↦ d.id == deckId
      · rw [if_pos hany, entered, if_pos (by rw [hany, Bool.or_true]), List.append_nil]
        refine Decks.statuses_updateDecks fun d ↦ ?_
        by_cases hid : d.id = deckId <;> simp [turn, DeckRecord.entry, DeckRecord.failed, hid]
      · rw [if_neg hany, entered, if_neg (by simpa using hany)]
        simp only [Decks.statuses, List.map_append, List.map_map]
        refine congrArg₂ _ (List.map_congr_left fun d hd ↦ ?_) rfl
        have hid : d.id ≠ deckId := by
          rw [List.any_eq_true] at hany
          exact fun heq ↦ hany ⟨d, hd, beq_iff_eq.mpr heq⟩
        simp [turn, DeckRecord.entry, hid]
  | publisherMarkFailed deckId reason =>
    cases h
    refine (Decks.statuses_updateDecks fun d ↦ ?_).trans (List.append_nil _).symm
    by_cases hid : d.id = deckId <;> by_cases hs : d.status = .generating <;>
      simp [turn, DeckRecord.entry, DeckRecord.failed, hid, hs]
  | adminMarkFailed deckId reason =>
    cases h
    refine (Decks.statuses_updateDecks fun d ↦ ?_).trans (List.append_nil _).symm
    by_cases hid : d.id = deckId <;> by_cases hs : d.status = .live <;>
      simp [turn, DeckRecord.entry, DeckRecord.failed, hid, hs]

/-! ## When a transaction goes through -/

/-- The deck is as the transaction wants it. -/
def Starts (db : Decks) : Transaction → Prop
  | .persistCard deckId _ | .finalizeProgressive deckId _ _ => db.Generating deckId
  | .publish deckId provided _ _ _ =>
    (provided = true → db.Generating deckId) ∧ (provided = false → ∀ d ∈ db.decks, d.id ≠ deckId)
  | .updateGenerationState _ _ | .failPublication _ _ _ _ | .publisherMarkFailed _ _
  | .adminMarkFailed _ _ => True

instance (db : Decks) : (tx : Transaction) → Decidable (tx.Starts db)
  | .persistCard _ _ | .finalizeProgressive _ _ _ => inferInstanceAs (Decidable (db.Generating _))
  | .publish _ _ _ _ _ => inferInstanceAs (Decidable (_ ∧ _))
  | .updateGenerationState _ _ | .failPublication _ _ _ _ | .publisherMarkFailed _ _
  | .adminMarkFailed _ _ => isTrue trivial

theorem starts_of_run (hu : Unique DeckRecord.id db.decks) (h : tx.run jsonb now db = .ok db') :
    tx.Starts db := by
  cases tx with
  | persistCard deckId card =>
    obtain ⟨_, hlock, -⟩ := Raising.bind_eq_ok.mp h
    exact (Decks.lockGenerating_eq_ok hu).mp hlock
  | finalizeProgressive deckId mapping final =>
    obtain ⟨_, hlock, -⟩ := Raising.bind_eq_ok.mp h
    exact (Decks.lockGenerating_eq_ok hu).mp hlock
  | publish deckId provided generationInput cards final =>
    obtain ⟨opened, hopened, -⟩ := Raising.bind_eq_ok.mp h
    cases provided with
    | true =>
      obtain ⟨_, hlock, -⟩ := Raising.bind_eq_ok.mp hopened
      exact ⟨fun _ ↦ (Decks.lockGenerating_eq_ok hu).mp hlock, fun h ↦ absurd h (by decide)⟩
    | false =>
      rw [Decks.openDeck, if_neg Bool.false_ne_true, Decks.insertDeck, Raising.ite_error_eq_ok]
        at hopened
      exact ⟨fun h ↦ absurd h (by decide),
        fun _ d hd heq ↦ hopened.1 (List.any_eq_true.mpr ⟨d, hd, beq_iff_eq.mpr heq⟩)⟩
  | updateGenerationState | failPublication | publisherMarkFailed | adminMarkFailed => trivial

/-- Cards with new identifiers can be inserted. -/
theorem exists_insertCards {cards : List CardRow} (hnew : ∀ c ∈ cards, ∀ r ∈ db.cards, r.id ≠ c.id)
    (hnodup : (cards.map CardRow.id).Nodup) : ∃ db', Decks.insertCards cards db = .ok db' := by
  induction cards generalizing db with
  | nil => exact ⟨db, rfl⟩
  | cons c rest ih =>
    obtain ⟨hc, hrest⟩ := List.nodup_cons.mp hnodup
    have hinsert : db.insertCard c = .ok { db with cards := db.cards ++ [c] } := by
      rw [Decks.insertCard, if_neg]
      simpa using hnew c List.mem_cons_self
    rw [Decks.insertCards, hinsert]
    refine ih (fun c' hc' r hr heq ↦ ?_) hrest
    rcases List.mem_append.mp hr with hr | hr
    · exact hnew c' (List.mem_cons_of_mem c hc') r hr heq
    · rw [List.mem_singleton.mp hr] at heq
      exact hc (heq ▸ List.mem_map_of_mem hc')

/-- **A transaction of its rightful author goes through if the deck is as it wants it.** -/
theorem exists_run {i : ℕ} {w : Shop} (hu : Unique DeckRecord.id w.state.db.decks)
    (hr : Rightful i w (.commit tx)) (hs : tx.Starts w.state.db) :
    ∃ db', tx.run jsonb now w.state.db = .ok db' := by
  cases tx with
  | persistCard deckId card =>
    have hlock : w.state.db.lockGenerating deckId = .ok () := (Decks.lockGenerating_eq_ok hu).mpr hs
    rw [run, hlock]
    by_cases hany : w.state.db.cards.any fun c ↦ c.deckId == deckId && c.conceptId == card.conceptId
    · exact ⟨_, if_pos hany⟩
    · refine ⟨_, (if_neg hany).trans (if_neg ?_)⟩
      simpa using hr.2
  | finalizeProgressive deckId mapping final =>
    have hlock : w.state.db.lockGenerating deckId = .ok () := (Decks.lockGenerating_eq_ok hu).mpr hs
    rw [run, hlock]
    exact ⟨_, rfl⟩
  | publish deckId provided generationInput cards final =>
    have hopen : ∃ opened, w.state.db.openDeck jsonb deckId provided generationInput =
        .ok opened ∧ opened.cards = w.state.db.cards := by
      cases provided with
      | true =>
        rw [Decks.openDeck, if_pos rfl, (Decks.lockGenerating_eq_ok hu).mpr (hs.1 rfl)]
        exact ⟨_, rfl, rfl⟩
      | false =>
        rw [Decks.openDeck, if_neg Bool.false_ne_true, Decks.insertDeck, if_neg]
        · exact ⟨_, rfl, rfl⟩
        · simpa using hs.2 rfl
    obtain ⟨opened, hopened, hcards⟩ := hopen
    obtain ⟨filled, hfilled⟩ := exists_insertCards (fun c hc r hmem ↦
      (hr.1 c hc).2 r (hcards ▸ hmem)) hr.2.1
    rw [run, hopened]
    show ∃ db', (opened.insertCards cards >>= _) = _
    rw [hfilled]
    exact ⟨_, rfl⟩
  | updateGenerationState | failPublication | publisherMarkFailed | adminMarkFailed =>
    exact ⟨_, rfl⟩

end Transaction

/-! ## The other calls -/

theorem Decks.statuses_createGenerating (db : Decks) (jsonb : Json.Store) (u : Uuid) (doc : Json) :
    (db.createGenerating jsonb u doc).2.statuses =
      db.statuses ++ if db.decks.any fun d ↦ d.id == u then [] else [(u, .generating)] := by
  rw [createGenerating, insertDeck]
  split
  · rename_i db' h
    obtain ⟨hnew, h⟩ := Raising.ite_error_eq_ok.mp h
    cases h
    rw [if_neg hnew]
    simp [statuses, DeckRecord.entry]
  · rename_i e h
    have hany : db.decks.any (fun d ↦ d.id == u) = true := by
      by_contra hnew
      rw [if_neg hnew] at h
      cases h
    rw [if_pos hany, List.append_nil]

/-- What activating a deck makes of the status of a deck. -/
def turnActivated (deckId u : Uuid) (s : DeckStatus) : DeckStatus :=
  if u = deckId then .live else if s = .live then .ready else s

theorem Decks.statuses_activate (db : Decks) (now : Time) (deckId : Uuid) :
    (db.activate now deckId).2.statuses = db.statuses ∨ (db.activate now deckId).2.statuses =
      db.statuses.map fun e ↦ (e.1, turnActivated deckId e.1 e.2) := by
  rw [activate]
  split
  · exact .inl rfl
  · split
    · exact .inl rfl
    · refine .inr ?_
      have hdemoted : (db.updateDecks (fun d ↦ d.status == .live && d.id != deckId)
          DeckRecord.demoted).statuses = db.statuses.map fun e ↦
            (e.1, if e.1 ≠ deckId ∧ e.2 = .live then .ready else e.2) := by
        refine statuses_updateDecks fun d ↦ ?_
        by_cases hid : d.id = deckId <;> by_cases hs : d.status = .live <;>
          simp [DeckRecord.entry, DeckRecord.demoted, hid, hs]
      have hpromoted (db' : Decks) : (db'.updateDecks (fun d ↦ d.id == deckId)
          (·.promoted now)).statuses = db'.statuses.map fun e ↦
            (e.1, if e.1 = deckId then .live else e.2) := by
        refine statuses_updateDecks fun d ↦ ?_
        by_cases hid : d.id = deckId <;> simp [DeckRecord.entry, DeckRecord.promoted, hid]
      rw [hpromoted, hdemoted, List.map_map]
      refine List.map_congr_left fun e _ ↦ ?_
      by_cases hid : e.1 = deckId <;> by_cases hs : e.2 = .live <;> simp [turnActivated, hid, hs]

end Neva.Deckgen
