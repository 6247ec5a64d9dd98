import Neva.Calls.Ensures
import Neva.Deckgen.Build

/-!
# Who has made which card

An identifier is given out once, so a card has one author: the build that drew its identifier.  The
contract `authorship` says what follows from that.  A build inserts only cards and decks whose
identifiers it has drawn, and it finalizes a deck only when every card it has drawn has been offered
to the deck and has checked decoys.

What a build knows about its own cards is not undone by the others.  They insert cards of their own,
and nobody deletes a card or changes its deck or its concept; `Onward` is this relation between an
earlier and a later state, and what is `Lasting` is kept along it.
-/

set_option autoImplicit false

namespace Neva.Deckgen

open Calls Tables

/-- The state of a run. -/
abbrev Shop := World DeckOp DeckError Commission Studio

/-! ## What a call adds to the tables -/

/-- What a card keeps. -/
def CardRow.key (c : CardRow) : Uuid × Uuid × Option Text := (c.id, c.deckId, c.conceptId)

/-- The cards a transaction may insert. -/
def Transaction.cardsIn : Transaction → List CardRow
  | .persistCard _ card => [card]
  | .publish _ _ _ cards _ => cards
  | _ => []

/-- The decks a transaction may insert. -/
def Transaction.decksIn : Transaction → List Uuid
  | .publish deckId provided _ _ _ => if provided then [] else [deckId]
  | .failPublication deckId provided _ _ => if provided then [] else [deckId]
  | _ => []

/-- The tables keep their rows, and get no others than some of these. -/
structure Decks.Grows (db db' : Decks) (cards : List CardRow) (decks : List Uuid) : Prop where
  cards : ∃ added : List CardRow, added ⊆ cards ∧
    db'.cards.map CardRow.key = db.cards.map CardRow.key ++ added.map CardRow.key
  decks : ∃ added : List Uuid, added ⊆ decks ∧
    db'.decks.map DeckRecord.id = db.decks.map DeckRecord.id ++ added
  cardIds : Unique CardRow.id db.cards → Unique CardRow.id db'.cards
  deckIds : Unique DeckRecord.id db.decks → Unique DeckRecord.id db'.decks

namespace Decks

variable {db db' db'' : Decks} {cards : List CardRow} {decks : List Uuid}

theorem Grows.refl (db : Decks) (cards : List CardRow) (decks : List Uuid) :
    db.Grows db cards decks where
  cards := ⟨[], List.nil_subset _, (List.append_nil _).symm⟩
  decks := ⟨[], List.nil_subset _, (List.append_nil _).symm⟩
  cardIds h := h
  deckIds h := h

theorem Grows.trans (h : db.Grows db' cards decks) (h' : db'.Grows db'' cards decks) :
    db.Grows db'' cards decks where
  cards := by
    obtain ⟨added, hsub, heq⟩ := h.cards
    obtain ⟨added', hsub', heq'⟩ := h'.cards
    refine ⟨added ++ added', List.append_subset.mpr ⟨hsub, hsub'⟩, ?_⟩
    rw [heq', heq, List.map_append, List.append_assoc]
  decks := by
    obtain ⟨added, hsub, heq⟩ := h.decks
    obtain ⟨added', hsub', heq'⟩ := h'.decks
    refine ⟨added ++ added', List.append_subset.mpr ⟨hsub, hsub'⟩, ?_⟩
    rw [heq', heq, List.append_assoc]
  cardIds hu := h'.cardIds (h.cardIds hu)
  deckIds hu := h'.deckIds (h.deckIds hu)

theorem Grows.mono {cards' : List CardRow} {decks' : List Uuid} (h : db.Grows db' cards decks)
    (hc : cards ⊆ cards') (hd : decks ⊆ decks') : db.Grows db' cards' decks' where
  cards := h.cards.imp fun _ h ↦ ⟨List.Subset.trans h.1 hc, h.2⟩
  decks := h.decks.imp fun _ h ↦ ⟨List.Subset.trans h.1 hd, h.2⟩
  cardIds := h.cardIds
  deckIds := h.deckIds

/-- An update of decks that keeps their identifiers. -/
theorem grows_updateDecks (p : DeckRecord → Bool) {f : DeckRecord → DeckRecord}
    (hf : ∀ d, (f d).id = d.id) : db.Grows (db.updateDecks p f) cards decks := by
  have hids : (db.updateDecks p f).decks.map DeckRecord.id = db.decks.map DeckRecord.id := by
    rw [updateDecks, List.map_map]
    refine List.map_congr_left fun d _ ↦ ?_
    rw [Function.comp_apply]
    split
    · exact hf d
    · rfl
  refine ⟨⟨[], List.nil_subset _, (List.append_nil _).symm⟩, ⟨[], List.nil_subset _, ?_⟩,
    fun h ↦ h, fun h ↦ ?_⟩
  · rw [hids, List.append_nil]
  · rw [Tables.Unique, hids]
    exact h

theorem grows_insertDeck {d : DeckRecord} (h : db.insertDeck d = .ok db') :
    db.Grows db' cards [d.id] := by
  rw [insertDeck, Raising.ite_error_eq_ok] at h
  obtain ⟨hnew, h⟩ := h
  cases h
  refine ⟨⟨[], List.nil_subset _, (List.append_nil _).symm⟩,
    ⟨[d.id], List.Subset.refl _, by rw [List.map_append, List.map_singleton]⟩, fun h ↦ h,
    fun h ↦ h.append ?_⟩
  simpa using hnew

theorem grows_insertCard {c : CardRow} (h : db.insertCard c = .ok db') :
    db.Grows db' [c] decks := by
  rw [insertCard, Raising.ite_error_eq_ok] at h
  obtain ⟨hnew, h⟩ := h
  cases h
  refine ⟨⟨[c], List.Subset.refl _, by rw [List.map_append]⟩,
    ⟨[], List.nil_subset _, (List.append_nil _).symm⟩, fun h ↦ h.append ?_, fun h ↦ h⟩
  simpa using hnew

theorem grows_insertCards (h : insertCards cards db = .ok db') : db.Grows db' cards decks := by
  induction cards generalizing db with
  | nil =>
    cases h
    exact .refl _ _ _
  | cons c rest ih =>
    obtain ⟨db₁, h₁, h⟩ := Raising.bind_eq_ok.mp h
    have hc : [c] ⊆ c :: rest := List.cons_subset_cons c (List.nil_subset _)
    exact ((grows_insertCard h₁).mono hc (List.Subset.refl _)).trans
      ((ih h).mono (List.subset_cons_self c rest) (List.Subset.refl _))

theorem grows_backfill (deckId : Uuid) (mapping : Mapping) :
    db.Grows (db.backfill deckId mapping) cards decks := by
  have hkeys {γ : Type} (key : CardRow → γ) (hkey : ∀ c decoys, key { c with decoys } = key c) :
      (db.backfill deckId mapping).cards.map key = db.cards.map key := by
    rw [backfill, List.map_map]
    refine List.map_congr_left fun c _ ↦ ?_
    rw [Function.comp_apply]
    split
    · exact hkey c _
    · rfl
  refine ⟨⟨[], List.nil_subset _, ?_⟩, ⟨[], List.nil_subset _, (List.append_nil _).symm⟩,
    fun h ↦ ?_, fun h ↦ h⟩
  · rw [hkeys CardRow.key fun _ _ ↦ rfl, List.map_nil, List.append_nil]
  · rw [Tables.Unique, hkeys CardRow.id fun _ _ ↦ rfl]
    exact h

end Decks

/-- **What a transaction adds.** -/
theorem Transaction.grows {tx : Transaction} {jsonb : Json.Store} {now : Time} {db db' : Decks}
    (h : tx.run jsonb now db = .ok db') : db.Grows db' tx.cardsIn tx.decksIn := by
  cases tx with
  | updateGenerationState deckId generationInput =>
    cases generationInput with
    | none =>
      cases h
      exact .refl _ _ _
    | some doc =>
      cases h
      exact Decks.grows_updateDecks _ fun _ ↦ rfl
  | persistCard deckId card =>
    obtain ⟨-, -, h⟩ := Raising.bind_eq_ok.mp h
    split at h
    · cases h
      exact .refl _ _ _
    · exact Decks.grows_insertCard h
  | finalizeProgressive deckId mapping final =>
    obtain ⟨-, -, h⟩ := Raising.bind_eq_ok.mp h
    cases h
    exact (Decks.grows_backfill deckId mapping).trans (Decks.grows_updateDecks _ fun _ ↦ rfl)
  | publish deckId provided generationInput cards final =>
    obtain ⟨opened, hopened, h⟩ := Raising.bind_eq_ok.mp h
    obtain ⟨filled, hfilled, h⟩ := Raising.bind_eq_ok.mp h
    cases h
    have hopen : db.Grows opened cards (Transaction.decksIn
        (.publish deckId provided generationInput cards final)) := by
      cases provided with
      | true =>
        obtain ⟨-, -, hopened⟩ := Raising.bind_eq_ok.mp hopened
        cases hopened
        exact Decks.grows_updateDecks _ fun _ ↦ rfl
      | false => exact Decks.grows_insertDeck hopened
    exact (hopen.trans (Decks.grows_insertCards hfilled)).trans
      (Decks.grows_updateDecks _ fun _ ↦ rfl)
  | failPublication deckId provided generationInput reason =>
    cases provided with
    | true =>
      cases h
      exact Decks.grows_updateDecks _ fun _ ↦ rfl
    | false =>
      cases h
      show db.Grows (db.upsertFailed jsonb deckId generationInput reason) _ [deckId]
      rw [Decks.upsertFailed]
      split
      · exact Decks.grows_updateDecks _ fun _ ↦ rfl
      · rename_i hnew
        have hinsert : db.insertDeck
            ⟨deckId, .failed, jsonb.read generationInput, some reason, none⟩ = .ok _ := if_neg hnew
        exact Decks.grows_insertDeck hinsert
  | publisherMarkFailed deckId reason =>
    cases h
    exact Decks.grows_updateDecks _ fun _ ↦ rfl
  | adminMarkFailed deckId reason =>
    cases h
    exact Decks.grows_updateDecks _ fun _ ↦ rfl

/-- The cards a call may insert. -/
def DeckOp.cardsIn : {β : Type} → DeckOp β → List CardRow
  | _, .commit tx => tx.cardsIn
  | _, _ => []

/-- The decks a call may insert. -/
def DeckOp.decksIn (d : DeckDraw) : {β : Type} → DeckOp β → List Uuid
  | _, .commit tx => tx.decksIn
  | _, .createGenerating _ => [d.uuid]
  | _, _ => []

theorem DeckOp.grows {β : Type} (op : DeckOp β) (jsonb : Json.Store) (d : DeckDraw) (s : Studio) :
    s.db.Grows (op.exec jsonb d s).2.db op.cardsIn (op.decksIn d) := by
  cases op with
  | commit tx =>
    show s.db.Grows (tx.exec jsonb d.now s.db).2 tx.cardsIn tx.decksIn
    rw [Transaction.exec]
    split
    · rename_i db' h
      exact Transaction.grows h
    · exact .refl _ _ _
  | createGenerating generationInput =>
    show s.db.Grows (s.db.createGenerating jsonb d.uuid generationInput).2 _ [d.uuid]
    rw [Decks.createGenerating]
    split
    · rename_i db' h
      exact Decks.grows_insertDeck h
    · exact .refl _ _ _
  | activate deckId =>
    show s.db.Grows (s.db.activate d.now deckId).2 _ _
    rw [Decks.activate]
    split
    · exact .refl _ _ _
    · split
      · exact .refl _ _ _
      · have hdemoted (p : DeckRecord → Bool) :
            s.db.Grows (s.db.updateDecks p DeckRecord.demoted) [] [] :=
          Decks.grows_updateDecks p fun _ ↦ rfl
        exact (hdemoted _).trans (Decks.grows_updateDecks _ fun _ ↦ rfl)
  | await | uuid4 | imageVerified | inventConcepts | selectDecoys => exact .refl _ _ _

/-! ## Whose identifier it is -/

/-- The identifier a call has drawn. -/
def drawn : {β : Type} → DeckOp β → Except DeckError β → Option Uuid
  | _, .uuid4, .ok u => some u
  | _, .imageVerified _, .ok (_, u) => some u
  | _, _, _ => none

/-- The identifier of a card a call has drawn. -/
def drawnCard : {β : Type} → DeckOp β → Except DeckError β → Option Uuid
  | _, .imageVerified _, .ok (_, u) => some u
  | _, _, _ => none

/-- The identifiers that have been drawn, and by which program. -/
def issues : List (ℕ × Past DeckOp DeckError) → List (ℕ × Uuid)
  | [] => []
  | (i, a) :: trace => ((drawn a.op a.answer).map fun u ↦ (i, u)).toList ++ issues trace

/-- The identifiers of cards program `i` has drawn. -/
def cardsOf (i : ℕ) : List (ℕ × Past DeckOp DeckError) → List Uuid
  | [] => []
  | (j, a) :: trace =>
    if j = i then (drawnCard a.op a.answer).toList ++ cardsOf i trace else cardsOf i trace

theorem cardsOf_other {i j : ℕ} (h : j ≠ i) (a : Past DeckOp DeckError)
    (trace : List (ℕ × Past DeckOp DeckError)) : cardsOf i ((j, a) :: trace) = cardsOf i trace :=
  if_neg h

theorem cardsOf_own (i : ℕ) (a : Past DeckOp DeckError)
    (trace : List (ℕ × Past DeckOp DeckError)) : cardsOf i ((i, a) :: trace) =
      (drawnCard a.op a.answer).toList ++ cardsOf i trace :=
  if_pos rfl

/-- A program that has not made a call has drawn nothing. -/
theorem cardsOf_eq_nil {i : ℕ} {trace : List (ℕ × Past DeckOp DeckError)}
    (h : ∀ x ∈ trace, x.1 < i) : cardsOf i trace = [] := by
  induction trace with
  | nil => rfl
  | cons x trace ih =>
    obtain ⟨j, a⟩ := x
    have hj : j ≠ i := (h (j, a) List.mem_cons_self).ne
    rw [cardsOf_other hj]
    exact ih fun x hx ↦ h x (List.mem_cons_of_mem _ hx)

/-- An identifier that is drawn is the one the call was handed. -/
theorem drawn_exec {β : Type} {op : DeckOp β} {jsonb : Json.Store} {d : DeckDraw} {s : Studio}
    {u : Uuid} (h : drawn op (op.exec jsonb d s).1 = some u) :
    u = d.uuid ∧ (op.exec jsonb d s).2.issued = d.uuid :: s.issued := by
  cases op with
  | uuid4 =>
    cases h
    exact ⟨rfl, rfl⟩
  | imageVerified pending =>
    refine ⟨?_, rfl⟩
    cases hpick : pending[d.pick]? with
    | none =>
      simp only [DeckOp.exec, hpick] at h
      cases h
    | some i =>
      simp only [DeckOp.exec, hpick] at h
      cases h
      rfl
  | await | commit | createGenerating | activate | inventConcepts | selectDecoys => cases h

/-- What has been given out stays given out. -/
theorem issued_subset_exec {β : Type} (op : DeckOp β) (jsonb : Json.Store) (d : DeckDraw)
    (s : Studio) : s.issued ⊆ (op.exec jsonb d s).2.issued := by
  cases op with
  | uuid4 | imageVerified | createGenerating => exact List.subset_cons_self _ _
  | await | commit | activate | inventConcepts | selectDecoys => exact List.Subset.refl _

/-- Program `i` has drawn the identifier. -/
def Owns (i : ℕ) (w : Shop) (u : Uuid) : Prop := (i, u) ∈ issues w.trace

/-- The tables have their primary keys, an identifier in use has been given out, and none has been
drawn twice. -/
structure Shop.Tidy (w : Shop) : Prop where
  opening : w.state.Opening
  once : ((issues w.trace).map Prod.snd).Nodup
  issued : ∀ x ∈ issues w.trace, x.2 ∈ w.state.issued

/-- An identifier has one owner. -/
theorem Shop.Tidy.owner {w : Shop} (h : w.Tidy) {i j : ℕ} {u : Uuid} (hi : Owns i w u)
    (hj : Owns j w u) : i = j :=
  congrArg Prod.fst (List.inj_on_of_nodup_map h.once hi hj rfl)

/-! ## What a program knows -/

/-- The card a program has drawn is in no table yet. -/
def Unused (i : ℕ) (w : Shop) (u : Uuid) : Prop := Owns i w u ∧ ∀ r ∈ w.state.db.cards, r.id ≠ u

/-- The deck a program has drawn is in no table yet. -/
def NewDeck (i : ℕ) (w : Shop) (u : Uuid) : Prop := Owns i w u ∧ ∀ d ∈ w.state.db.decks, d.id ≠ u

/-- The card has been offered to the deck: the identifier is in the table for this card or not at
all, and the deck has a card of this concept. -/
structure Offered (i : ℕ) (deckId : Uuid) (w : Shop) (card : BuiltCard) : Prop where
  owns : Owns i w card.cardId
  row : ∀ r ∈ w.state.db.cards, r.id = card.cardId →
    r.key = (card.cardId, deckId, some card.concept.id)
  covered : ∃ r ∈ w.state.db.cards, r.deckId = deckId ∧ r.conceptId = some card.concept.id

/-- What is known of a card that has been built. -/
def Target.Holds (i : ℕ) (w : Shop) (card : BuiltCard) : Target → Prop
  | .atomic _ => Unused i w card.cardId
  | .progressive deckId => Offered i deckId w card

/-- Every card program `i` has drawn is among these, and has been dealt with. -/
structure Collected (i : ℕ) (target : Target) (built : List BuiltCard) (w : Shop) : Prop where
  own : ∀ u, u ∈ cardsOf i w.trace ↔ ∃ card ∈ built, card.cardId = u
  holds : ∀ card ∈ built, target.Holds i w card
  apart : ∀ card ∈ built, ∀ card' ∈ built, card.cardId = card'.cardId → card = card'

/-- What a build knows when it finalizes a deck. -/
structure Prepared (i : ℕ) (deckId : Uuid) (built : List BuiltCard) (mapping : Mapping)
    (w : Shop) : Prop where
  collected : Collected i (.progressive deckId) built w
  concepts : ∀ card ∈ built, ∀ card' ∈ built, card.concept.id = card'.concept.id → card = card'
  decoyed : Decoyed built mapping

/-- What a program knows when it makes a call. -/
def Rightful (i : ℕ) (w : Shop) : {β : Type} → DeckOp β → Prop
  | _, .commit (.persistCard _ card) => Unused i w card.id
  | _, .commit (.publish deckId provided _ cards _) =>
    (∀ card ∈ cards, Unused i w card.id) ∧ (cards.map CardRow.id).Nodup ∧
      (provided = false → NewDeck i w deckId)
  | _, .commit (.failPublication deckId provided _ _) => provided = false → Owns i w deckId
  | _, .commit (.finalizeProgressive deckId mapping _) =>
    ∃ built, Prepared i deckId built mapping w
  | _, _ => True

/-- **Cards and decks are inserted by those who have drawn their identifiers.** -/
def authorship : Contract DeckOp DeckError Commission Studio Unit where
  known _ := True
  inv w := Shop.Tidy w
  pre i op w := Rightful i w op
  post _ _ _ _ := True
  gone _ _ := True

theorem Rightful.cardsIn {i : ℕ} {w : Shop} {β : Type} {op : DeckOp β} (h : Rightful i w op) :
    ∀ card ∈ op.cardsIn, Owns i w card.id := by
  cases op with
  | commit tx =>
    cases tx with
    | persistCard deckId card => exact fun c hc ↦ List.mem_singleton.mp hc ▸ h.1
    | publish deckId provided generationInput cards final => exact fun c hc ↦ (h.1 c hc).1
    | updateGenerationState | finalizeProgressive | failPublication | publisherMarkFailed
    | adminMarkFailed => exact fun _ hc ↦ absurd hc List.not_mem_nil
  | await | createGenerating | activate | uuid4 | imageVerified | inventConcepts | selectDecoys =>
    exact fun _ hc ↦ absurd hc List.not_mem_nil

/-- A deck that is inserted has been drawn before, or is drawn by the database. -/
theorem Rightful.decksIn {i : ℕ} {w : Shop} {β : Type} {op : DeckOp β} (h : Rightful i w op)
    (jsonb : Json.Store) (d : DeckDraw) : ∀ u ∈ op.decksIn d, Owns i w u ∨
      u = d.uuid ∧ (op.exec jsonb d w.state).2.issued = d.uuid :: w.state.issued := by
  cases op with
  | commit tx =>
    cases tx with
    | publish deckId provided generationInput cards final =>
      cases provided with
      | true => exact fun _ hu ↦ absurd hu List.not_mem_nil
      | false => exact fun u hu ↦ .inl (List.mem_singleton.mp hu ▸ (h.2.2 rfl).1)
    | failPublication deckId provided generationInput reason =>
      cases provided with
      | true => exact fun _ hu ↦ absurd hu List.not_mem_nil
      | false => exact fun u hu ↦ .inl (List.mem_singleton.mp hu ▸ h rfl)
    | updateGenerationState | finalizeProgressive | persistCard | publisherMarkFailed
    | adminMarkFailed => exact fun _ hu ↦ absurd hu List.not_mem_nil
  | createGenerating generationInput => exact fun u hu ↦ .inr ⟨List.mem_singleton.mp hu, rfl⟩
  | await | activate | uuid4 | imageVerified | inventConcepts | selectDecoys =>
    exact fun _ hu ↦ absurd hu List.not_mem_nil

section Calls

variable {jsonb : Json.Store} {i j : ℕ} {w w' : Shop} {d : DeckDraw} {β : Type} {op : DeckOp β}

/-- The rows after a call: those before it, and some the caller has drawn. -/
theorem cards_after (h : Rightful j w op) {r' : CardRow}
    (hr' : r' ∈ ((workshop jsonb).after j op d w).state.db.cards) :
    (∃ r ∈ w.state.db.cards, r.key = r'.key) ∨ (∃ c ∈ op.cardsIn, c.key = r'.key) ∧
      Owns j w r'.id := by
  obtain ⟨added, hsub, heq⟩ := (op.grows jsonb d w.state).cards
  have hkey := List.mem_map_of_mem (f := CardRow.key) hr'
  rw [System.after_state] at hkey
  rw [show ((workshop jsonb).exec d op w.state).2.db.cards.map CardRow.key = _ from heq] at hkey
  rcases List.mem_append.mp hkey with hold | hnew
  · obtain ⟨r, hr, hrk⟩ := List.mem_map.mp hold
    exact .inl ⟨r, hr, hrk⟩
  · obtain ⟨c, hc, hck⟩ := List.mem_map.mp hnew
    have hid : c.id = r'.id := congrArg Prod.fst hck
    exact .inr ⟨⟨c, hsub hc, hck⟩, hid ▸ h.cardsIn c (hsub hc)⟩

theorem cards_kept (jsonb : Json.Store) (j : ℕ) (op : DeckOp β) (d : DeckDraw) {r : CardRow}
    (hr : r ∈ w.state.db.cards) :
    ∃ r' ∈ ((workshop jsonb).after j op d w).state.db.cards, r'.key = r.key := by
  obtain ⟨added, -, heq⟩ := (op.grows jsonb d w.state).cards
  have hkey : r.key ∈ (op.exec jsonb d w.state).2.db.cards.map CardRow.key := by
    rw [heq]
    exact List.mem_append_left _ (List.mem_map_of_mem hr)
  obtain ⟨r', hr', hrk⟩ := List.mem_map.mp hkey
  exact ⟨r', hr', hrk⟩

/-- The decks after a call: those before it, and some the caller or the database has drawn. -/
theorem decks_after (h : Rightful j w op) {d' : DeckRecord}
    (hd' : d' ∈ ((workshop jsonb).after j op d w).state.db.decks) :
    (∃ d₀ ∈ w.state.db.decks, d₀.id = d'.id) ∨ d'.id ∈ op.decksIn d ∧ (Owns j w d'.id ∨
      d'.id = d.uuid ∧ (op.exec jsonb d w.state).2.issued = d.uuid :: w.state.issued) := by
  obtain ⟨added, hsub, heq⟩ := (op.grows jsonb d w.state).decks
  have hid := List.mem_map_of_mem (f := DeckRecord.id) hd'
  rw [System.after_state] at hid
  rw [show ((workshop jsonb).exec d op w.state).2.db.decks.map DeckRecord.id = _ from heq] at hid
  rcases List.mem_append.mp hid with hold | hnew
  · obtain ⟨d₀, hd₀, hid⟩ := List.mem_map.mp hold
    exact .inl ⟨d₀, hd₀, hid⟩
  · exact .inr ⟨hsub hnew, h.decksIn jsonb d _ (hsub hnew)⟩

/-- A call draws the identifier it was handed, or none. -/
theorem issues_after (jsonb : Json.Store) (j : ℕ) (op : DeckOp β) (d : DeckDraw) (w : Shop) :
    issues ((workshop jsonb).after j op d w).trace = issues w.trace ∨
      issues ((workshop jsonb).after j op d w).trace = (j, d.uuid) :: issues w.trace ∧
        (op.exec jsonb d w.state).2.issued = d.uuid :: w.state.issued := by
  rw [System.after_trace, issues]
  cases hdraw : drawn op (op.exec jsonb d w.state).1 with
  | none =>
    rw [show drawn op ((workshop jsonb).exec d op w.state).1 = none from hdraw]
    exact .inl rfl
  | some u =>
    obtain ⟨rfl, hissued⟩ := drawn_exec hdraw
    refine .inr ⟨?_, hissued⟩
    rw [show drawn op ((workshop jsonb).exec d op w.state).1 = some d.uuid from hdraw]
    rfl

theorem issues_subset_after (jsonb : Json.Store) (j : ℕ) (op : DeckOp β) (d : DeckDraw)
    (w : Shop) : issues w.trace ⊆ issues ((workshop jsonb).after j op d w).trace := by
  rcases issues_after jsonb j op d w with h | ⟨h, -⟩
  · rw [h]
    exact List.Subset.refl _
  · rw [h]
    exact List.subset_cons_self _ _

/-- **A rightful call keeps the tables tidy.** -/
theorem Shop.Tidy.after (hw : w.Tidy) (h : Rightful j w op)
    (hd : (workshop jsonb).admits d w.state = true) :
    Shop.Tidy ((workshop jsonb).after j op d w) := by
  have hfresh : d.uuid ∉ w.state.issued := of_decide_eq_true hd
  have hgrows := op.grows jsonb d w.state
  have hsub := issued_subset_exec op jsonb d w.state
  refine ⟨⟨hgrows.deckIds hw.opening.deckIds, hgrows.cardIds hw.opening.cardIds, fun d' hd' ↦ ?_,
    fun r' hr' ↦ ?_⟩, ?_, fun x hx ↦ ?_⟩
  · rcases decks_after h hd' with ⟨d₀, hd₀, hid⟩ | ⟨-, howns | ⟨hid, hissued⟩⟩
    · exact hsub (hid ▸ hw.opening.issuedDecks d₀ hd₀)
    · exact hsub (hw.issued _ howns)
    · rw [hid]
      show d.uuid ∈ (op.exec jsonb d w.state).2.issued
      rw [hissued]
      exact List.mem_cons_self
  · rcases cards_after h hr' with ⟨r, hr, hkey⟩ | ⟨-, howns⟩
    · have hid : r.id = r'.id := congrArg Prod.fst hkey
      exact hsub (hid ▸ hw.opening.issuedCards r hr)
    · exact hsub (hw.issued _ howns)
  · rcases issues_after jsonb j op d w with hsame | ⟨hnew, -⟩
    · rw [hsame]
      exact hw.once
    · rw [hnew, List.map_cons, List.nodup_cons]
      refine ⟨fun hmem ↦ hfresh ?_, hw.once⟩
      obtain ⟨x, hx, hxu⟩ := List.mem_map.mp hmem
      rw [← show x.2 = d.uuid from hxu]
      exact hw.issued x hx
  · rcases issues_after jsonb j op d w with hsame | ⟨hnew, hissued⟩
    · rw [hsame] at hx
      exact hsub (hw.issued x hx)
    · rw [hnew] at hx
      rcases List.mem_cons.mp hx with rfl | hx
      · show d.uuid ∈ (op.exec jsonb d w.state).2.issued
        rw [hissued]
        exact List.mem_cons_self
      · exact hsub (hw.issued x hx)

/-! ## What lasts -/

/-- What may have happened in the meantime, as far as program `i` is concerned. -/
structure Onward (i : ℕ) (w w' : Shop) : Prop where
  issues : issues w.trace ⊆ issues w'.trace
  cardsOf : cardsOf i w'.trace = cardsOf i w.trace
  kept : ∀ r ∈ w.state.db.cards, ∃ r' ∈ w'.state.db.cards, r'.key = r.key
  cards : ∀ r' ∈ w'.state.db.cards, (∃ r ∈ w.state.db.cards, r.key = r'.key) ∨
    ∀ u, Owns i w u → r'.id ≠ u
  decks : ∀ d' ∈ w'.state.db.decks, (∃ d ∈ w.state.db.decks, d.id = d'.id) ∨
    ∀ u, Owns i w u → d'.id ≠ u

/-- The call inserts no card and no deck of its own, and draws no card. -/
def DeckOp.Quiet : {β : Type} → DeckOp β → Prop
  | _, .commit tx => tx.cardsIn = [] ∧ tx.decksIn = []
  | _, .imageVerified _ => False
  | _, _ => True

theorem onward_spawned (i : ℕ) (w : Shop) (r : Commission) : Onward i w (w.spawned r) where
  issues := List.Subset.refl _
  cardsOf := rfl
  kept r hr := ⟨r, hr, rfl⟩
  cards r' hr' := .inl ⟨r', hr', rfl⟩
  decks d' hd' := .inl ⟨d', hd', rfl⟩

/-- **The calls of the others leave alone what is mine.** -/
theorem onward_after (hw : w.Tidy) (h : Rightful j w op) (hj : j ≠ i)
    (hd : (workshop jsonb).admits d w.state = true) :
    Onward i w ((workshop jsonb).after j op d w) where
  issues := issues_subset_after jsonb j op d w
  cardsOf := by
    rw [System.after_trace]
    exact cardsOf_other hj _ _
  kept r hr := cards_kept jsonb j op d hr
  cards r' hr' := by
    rcases cards_after h hr' with hold | ⟨-, howns⟩
    · exact .inl hold
    · refine .inr fun u hu heq ↦ hj (hw.owner howns ?_)
      rw [heq]
      exact hu
  decks d' hd' := by
    have hfresh : d.uuid ∉ w.state.issued := of_decide_eq_true hd
    rcases decks_after h hd' with hold | ⟨-, howns | ⟨hid, -⟩⟩
    · exact .inl hold
    · refine .inr fun u hu heq ↦ hj (hw.owner howns ?_)
      rw [heq]
      exact hu
    · refine .inr fun u hu heq ↦ hfresh ?_
      rw [← hid, heq]
      exact hw.issued _ hu

/-- So do the quiet ones of my own. -/
theorem onward_quiet (hw : w.Tidy) (h : Rightful i w op) (hq : op.Quiet)
    (hd : (workshop jsonb).admits d w.state = true) :
    Onward i w ((workshop jsonb).after i op d w) where
  issues := issues_subset_after jsonb i op d w
  cardsOf := by
    rw [System.after_trace, cardsOf_own]
    cases op with
    | imageVerified => cases hq
    | await | commit | createGenerating | activate | uuid4 | inventConcepts | selectDecoys => rfl
  kept r hr := cards_kept jsonb i op d hr
  cards r' hr' := by
    rcases cards_after h hr' with hold | ⟨⟨c, hc, -⟩, -⟩
    · exact .inl hold
    · cases op with
      | commit tx =>
        rw [show DeckOp.cardsIn (.commit tx) = [] from hq.1] at hc
        cases hc
      | await | createGenerating | activate | uuid4 | imageVerified | inventConcepts
      | selectDecoys => cases hc
  decks d' hd' := by
    have hfresh : d.uuid ∉ w.state.issued := of_decide_eq_true hd
    rcases decks_after h hd' with hold | ⟨hmem, -⟩
    · exact .inl hold
    · cases op with
      | commit tx =>
        rw [show DeckOp.decksIn d (.commit tx) = [] from hq.2] at hmem
        cases hmem
      | createGenerating generationInput =>
        refine .inr fun u hu heq ↦ hfresh ?_
        rw [← List.mem_singleton.mp hmem, heq]
        exact hw.issued _ hu
      | await | activate | uuid4 | imageVerified | inventConcepts | selectDecoys => cases hmem

end Calls

/-- Knowledge that is not undone. -/
def Lasting (i : ℕ) (P : Shop → Prop) : Prop := ∀ w w', Onward i w w' → P w → P w'

theorem Lasting.stable {jsonb : Json.Store} {i : ℕ} {P : Shop → Prop} (h : Lasting i P) :
    authorship.Stable (workshop jsonb) .any i P where
  spawned w r hP := h w _ (onward_spawned i w r) hP
  called _ hj _ _ _ w hw hpre _ hd hP := h w _ (onward_after hw.2 hpre hj hd) hP

namespace Lasting

variable {i : ℕ}

theorem true (i : ℕ) : Lasting i fun _ ↦ True := fun _ _ _ h ↦ h

theorem and {P P' : Shop → Prop} (h : Lasting i P) (h' : Lasting i P') :
    Lasting i fun w ↦ P w ∧ P' w :=
  fun w w' ho hw ↦ ⟨h w w' ho hw.1, h' w w' ho hw.2⟩

theorem imp {p : Prop} {P : Shop → Prop} (h : Lasting i P) : Lasting i fun w ↦ p → P w :=
  fun w w' ho hw hp ↦ h w w' ho (hw hp)

theorem const (p : Prop) : Lasting i fun _ ↦ p := fun _ _ _ h ↦ h

theorem owns (u : Uuid) : Lasting i fun w ↦ Owns i w u := fun _ _ ho h ↦ ho.issues h

theorem newDeck (u : Uuid) : Lasting i fun w ↦ NewDeck i w u := by
  rintro w w' ho ⟨howns, hnew⟩
  refine ⟨ho.issues howns, fun d' hd' ↦ ?_⟩
  rcases ho.decks d' hd' with ⟨d, hd, hid⟩ | hother
  · exact hid ▸ hnew d hd
  · exact hother u howns

theorem unused (u : Uuid) : Lasting i fun w ↦ Unused i w u := by
  rintro w w' ho ⟨howns, hunused⟩
  refine ⟨ho.issues howns, fun r' hr' ↦ ?_⟩
  rcases ho.cards r' hr' with ⟨r, hr, hkey⟩ | hother
  · have hid : r.id = r'.id := congrArg Prod.fst hkey
    exact hid ▸ hunused r hr
  · exact hother u howns

theorem offered (deckId : Uuid) (card : BuiltCard) :
    Lasting i fun w ↦ Offered i deckId w card := by
  rintro w w' ho ⟨howns, hrow, r₀, hr₀, hdeck, hconcept⟩
  refine ⟨ho.issues howns, fun r' hr' hid ↦ ?_, ?_⟩
  · rcases ho.cards r' hr' with ⟨r, hr, hkey⟩ | hother
    · have hid' : r.id = r'.id := congrArg Prod.fst hkey
      exact hkey ▸ hrow r hr (hid'.trans hid)
    · exact absurd hid (hother _ howns)
  · obtain ⟨r', hr', hkey⟩ := ho.kept r₀ hr₀
    have hdeck' : r'.deckId = r₀.deckId := congrArg (fun k ↦ k.2.1) hkey
    have hconcept' : r'.conceptId = r₀.conceptId := congrArg (fun k ↦ k.2.2) hkey
    exact ⟨r', hr', hdeck'.trans hdeck, hconcept'.trans hconcept⟩

theorem holds (target : Target) (card : BuiltCard) : Lasting i fun w ↦ target.Holds i w card := by
  cases target with
  | atomic deckId => exact unused card.cardId
  | progressive deckId => exact offered deckId card

theorem collected (target : Target) (built : List BuiltCard) :
    Lasting i (Collected i target built) := by
  rintro w w' ho ⟨hown, hholds, hapart⟩
  refine ⟨fun u ↦ ?_, fun card hc ↦ holds target card w w' ho (hholds card hc), hapart⟩
  rw [ho.cardsOf]
  exact hown u

end Lasting

end Neva.Deckgen
