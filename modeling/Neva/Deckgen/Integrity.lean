import Neva.Deckgen.AuthorshipKept
import Neva.Deckgen.Finished

/-!
# The decoys of a deck that is published card by card

`finalize_progressive` gives every row of the deck the decoys that the build has assigned to the
card with this identifier.  A card is offered to the deck under a new identifier, but a deck that
has a card of the same concept, from an attempt that did not come to its end, keeps the old row.
The build knows nothing of that row: it goes without decoys, and where its concept is a decoy of
another card, the identifier there belongs to no card.

So `decoy_integrity` says when all is well: when every row of the deck is one this build has drawn.
-/

set_option autoImplicit false

namespace Neva.Deckgen

open Calls Tables

/-- Every card of the deck has five different decoys, other cards of the deck. -/
def Decks.DecoysIntact (db : Decks) (deckId : Uuid) : Prop :=
  ∀ r ∈ db.cards, r.deckId = deckId → r.decoys.length = nDecoys ∧ r.decoys.Nodup ∧
    ∀ decoy ∈ r.decoys, decoy ≠ uuidText r.id ∧
      ∃ r' ∈ db.cards, r'.deckId = deckId ∧ uuidText r'.id = decoy

/-- Every card of the deck has been drawn by program `i`. -/
def AllDrawn (i : ℕ) (deckId : Uuid) (w : Shop) : Prop :=
  ∀ r ∈ w.state.db.cards, r.deckId = deckId → r.id ∈ cardsOf i w.trace

namespace Prepared

variable {i : ℕ} {deckId : Uuid} {built : List BuiltCard} {mapping : Mapping} {w : Shop}

/-- A row the build has drawn is the row of one of its cards. -/
theorem card_of_row (h : Prepared i deckId built mapping w) (hall : AllDrawn i deckId w)
    {r : CardRow} (hr : r ∈ w.state.db.cards) (hdeck : r.deckId = deckId) :
    ∃ card ∈ built, card.cardId = r.id ∧ r.conceptId = some card.concept.id := by
  obtain ⟨card, hcard, hid⟩ := (h.collected.own r.id).mp (hall r hr hdeck)
  have hkey := (h.collected.holds card hcard).row r hr hid.symm
  exact ⟨card, hcard, hid, congrArg (fun k ↦ k.2.2) hkey⟩

/-- When all rows are its own, every card of the build has one. -/
theorem row_of_card (h : Prepared i deckId built mapping w) (hall : AllDrawn i deckId w)
    {card : BuiltCard} (hcard : card ∈ built) :
    ∃ r ∈ w.state.db.cards, r.deckId = deckId ∧ r.id = card.cardId := by
  obtain ⟨r, hr, hdeck, hconcept⟩ := (h.collected.holds card hcard).covered
  obtain ⟨card', hcard', hid, hconcept'⟩ := h.card_of_row hall hr hdeck
  have hsame : card' = card :=
    h.concepts card' hcard' card hcard (Option.some.inj (hconcept'.symm.trans hconcept))
  exact ⟨r, hr, hdeck, hid.symm.trans (congrArg BuiltCard.cardId hsame)⟩

end Prepared

/-- What the backfill makes of a row. -/
def CardRow.filled (deckId : Uuid) (mapping : Mapping) (r : CardRow) : CardRow :=
  if r.deckId = deckId then { r with decoys := (mapping.get? (uuidText r.id)).getD [] } else r

@[simp] theorem CardRow.filled_id (deckId : Uuid) (mapping : Mapping) (r : CardRow) :
    (r.filled deckId mapping).id = r.id := by
  rw [filled]
  split <;> rfl

@[simp] theorem CardRow.filled_deckId (deckId : Uuid) (mapping : Mapping) (r : CardRow) :
    (r.filled deckId mapping).deckId = r.deckId := by
  rw [filled]
  split <;> rfl

/-- The decoys after the backfill. -/
theorem Decks.decoysIntact_backfill {db db' : Decks} {deckId : Uuid} {mapping : Mapping}
    (h : db'.cards = db.cards.map (CardRow.filled deckId mapping)) :
    db'.DecoysIntact deckId ↔ ∀ r ∈ db.cards, r.deckId = deckId →
      ((mapping.get? (uuidText r.id)).getD []).length = nDecoys ∧
      ((mapping.get? (uuidText r.id)).getD []).Nodup ∧
      ∀ decoy ∈ (mapping.get? (uuidText r.id)).getD [], decoy ≠ uuidText r.id ∧
        ∃ r' ∈ db.cards, r'.deckId = deckId ∧ uuidText r'.id = decoy := by
  rw [DecoysIntact, h, List.forall_mem_map]
  refine forall₂_congr fun r _ ↦ ?_
  rw [CardRow.filled_deckId, CardRow.filled_id]
  refine imp_congr_right fun hdeck ↦ ?_
  rw [CardRow.filled, if_pos hdeck]
  simp

/-- Program `i` finalizes the deck in this step. -/
def Finalizes (jsonb : Json.Store) (c c' : Config DeckOp DeckError Commission Studio Unit) (i : ℕ)
    (deckId : Uuid) : Prop :=
  ∃ (mapping : Mapping) (final : FinalStatus) (k : Except DeckError Unit → Build Unit)
    (d : DeckDraw),
    c.threads[i]? = some (.live (.call
      (.commit (.finalizeProgressive deckId mapping final)) k)) ∧
    (workshop jsonb).fire c (.step i d) = some c' ∧
    (Transaction.exec jsonb d.now (.finalizeProgressive deckId mapping final)
      c.world.state.db).1 = .ok ()

/-- **The decoys are intact after `finalize_progressive` exactly if no card of the deck was left
behind by another attempt.** -/
theorem decoy_integrity {jsonb : Json.Store}
    {c c' : Config DeckOp DeckError Commission Studio Unit} {i : ℕ} {deckId : Uuid}
    (hc : (workshop jsonb).Reachable c) (h : Finalizes jsonb c c' i deckId) :
    c'.world.state.db.DecoysIntact deckId ↔ AllDrawn i deckId c.world := by
  obtain ⟨mapping, final, k, d, ht, he, hok⟩ := h
  obtain ⟨built, hprepared⟩ := (good_of_reachable hc).pre ht
  have hcards : c'.world.state.db.cards =
      c.world.state.db.cards.map (CardRow.filled deckId mapping) := by
    obtain ⟨β, op, k', ht', -, rfl⟩ := System.fire_step he
    rw [ht] at ht'
    cases ht'
    show (Transaction.exec jsonb d.now (.finalizeProgressive deckId mapping final)
      c.world.state.db).2.cards = _
    rw [Transaction.exec] at hok ⊢
    cases hrun : Transaction.run jsonb d.now c.world.state.db
        (.finalizeProgressive deckId mapping final) with
    | error e =>
      rw [hrun] at hok
      cases hok
    | ok db' =>
      obtain ⟨-, -, hrun⟩ := Raising.bind_eq_ok.mp hrun
      cases hrun
      rfl
  rw [Decks.decoysIntact_backfill hcards]
  constructor
  · -- a row with decoys is the row of a card that was built
    intro h r hr hdeck
    obtain ⟨hlength, -, -⟩ := h r hr hdeck
    cases hget : mapping.get? (uuidText r.id) with
    | none =>
      rw [hget] at hlength
      cases hlength
    | some decoys =>
      obtain ⟨card, hcard, htext⟩ := hprepared.decoyed.known _ _ hget
      exact (hprepared.collected.own r.id).mpr ⟨card, hcard, uuidText_injective htext⟩
  · intro hall r hr hdeck
    obtain ⟨card, hcard, hid, -⟩ := hprepared.card_of_row hall hr hdeck
    obtain ⟨decoys, hget, hlength, hnodup, hothers⟩ := hprepared.decoyed.complete card hcard
    rw [← hid, hget, Option.getD_some]
    refine ⟨hlength, hnodup, fun decoy hdecoy ↦ ?_⟩
    obtain ⟨card', hcard', rfl, hne⟩ := hothers decoy hdecoy
    obtain ⟨r', hr', hdeck', hid'⟩ := hprepared.row_of_card hall hcard'
    exact ⟨fun heq ↦ hne (uuidText_injective heq), r', hr', hdeck', congrArg uuidText hid'⟩

/-! ## A deck that is built in one go, and one with a row from an earlier attempt -/

instance (db : Decks) (deckId : Uuid) : Decidable (db.DecoysIntact deckId) :=
  inferInstanceAs (Decidable (∀ r ∈ db.cards, _ → _ ∧ _ ∧ ∀ decoy ∈ r.decoys, _ ∧
    ∃ r' ∈ db.cards, _))

instance (i : ℕ) (deckId : Uuid) (w : Shop) : Decidable (AllDrawn i deckId w) :=
  inferInstanceAs (Decidable (∀ r ∈ w.state.db.cards, _ → r.id ∈ cardsOf i w.trace))

/-- The deck that program `i` is about to finalize, with the decoys and the status. -/
def finalizing (c : Config DeckOp DeckError Commission Studio Unit) (i : ℕ) :
    Option (Uuid × Mapping × FinalStatus) :=
  match c.threads[i]? with
  | some (.live (.call (.commit (.finalizeProgressive deckId mapping final)) _)) =>
    some (deckId, mapping, final)
  | _ => none

theorem thread_of_finalizing {c : Config DeckOp DeckError Commission Studio Unit} {i : ℕ}
    {deckId : Uuid} {mapping : Mapping} {final : FinalStatus}
    (h : finalizing c i = some (deckId, mapping, final)) :
    ∃ k : Except DeckError Unit → Build Unit, c.threads[i]? = some (.live (.call
      (.commit (.finalizeProgressive deckId mapping final)) k)) := by
  rw [finalizing] at h
  split at h
  · rename_i k ht
    cases h
    exact ⟨k, ht⟩
  · cases h

/-- A theme, for six cards of deck 10. -/
def kitePrompt : PromptOrder where
  region := "assam".toList
  prompt := "kites".toList
  cardCount := 6
  deckId := 10

/-- `count` calls of a task for `kitePrompt`, the first of them with identifier `n`; its cards are
`n + 10` and every fifth after that. -/
def promptCalls (i n count : ℕ) : List (Event Commission DeckDraw DeckError) :=
  (List.range count).map fun k ↦ .step i
    { now := n + k, uuid := n + k
      answers := [.obj [("concepts".toList, .arr (sixInputs.concepts.map (·.modelDump)))]]
      rows := (List.range 6).map fun j ↦
        ⟨uuidText (n + 10 + 5 * j), (operatorDeck.map Concept.id).eraseIdx j⟩ }

/-- Deck 10 is created, and program 1 is about to finalize it. -/
def oneAttempt : List (Event Commission DeckDraw DeckError) :=
  .spawn (.startGeneration .null) :: deckCalls 0 10 1 ++
    .spawn (.runPromptGeneration kitePrompt) :: promptCalls 1 20 45

/-- Program 1 dies when its first card is in the table, and program 2 tries again. -/
def secondAttempt : List (Event Commission DeckDraw DeckError) :=
  .spawn (.startGeneration .null) :: deckCalls 0 10 1 ++
    .spawn (.runPromptGeneration kitePrompt) :: promptCalls 1 20 15 ++
    .kill 1 :: .spawn (.runPromptGeneration kitePrompt) :: promptCalls 2 100 45

/-- What is checked at the end of a run: program `i` finalizes deck 10, and `p` holds of the
configurations before and after. -/
def finalizesWith (i n : ℕ) (p : Config DeckOp DeckError Commission Studio Unit →
    Config DeckOp DeckError Commission Studio Unit → Bool)
    (c : Config DeckOp DeckError Commission Studio Unit) : Bool :=
  (finalizing c i).any fun f ↦ f.1 == 10 &&
    ((workshop .verbatim).fire c (.step i { now := n, uuid := n })).any fun c' ↦
      (Transaction.exec .verbatim n (.finalizeProgressive f.1 f.2.1 f.2.2)
        c.world.state.db).1.isOk && p c c'

theorem finalizes_of_check {i n : ℕ} {p : Config DeckOp DeckError Commission Studio Unit →
    Config DeckOp DeckError Commission Studio Unit → Bool}
    {c : Config DeckOp DeckError Commission Studio Unit} (h : finalizesWith i n p c = true) :
    ∃ c', Finalizes .verbatim c c' i 10 ∧ p c c' = true := by
  obtain ⟨⟨deckId, mapping, final⟩, hf, h⟩ := (Option.any_eq_true _ _).mp h
  rw [Bool.and_eq_true, beq_iff_eq] at h
  obtain ⟨hdeck, h⟩ := h
  obtain ⟨c', he, h⟩ := (Option.any_eq_true _ _).mp h
  rw [Bool.and_eq_true] at h
  obtain ⟨k, ht⟩ := thread_of_finalizing hf
  cases hdeck
  refine ⟨c', ⟨mapping, final, k, _, ht, he, ?_⟩, h.2⟩
  cases hexec : (Transaction.exec .verbatim n (.finalizeProgressive 10 mapping final)
      c.world.state.db).1 with
  | ok _ => rfl
  | error e =>
    rw [hexec] at h
    cases h.1

/-- The only attempt finalizes the deck. -/
theorem decoy_integrity_kites : ∃ c c', Finalizes .verbatim c c' 1 10 ∧
    c'.world.state.db.DecoysIntact 10 := by
  obtain ⟨c, hc, hrun⟩ := System.exists_reachable_of_run opening_empty
    (show ((workshop .verbatim).run (System.start _) oneAttempt).map
      (finalizesWith 1 65 fun c _ ↦ decide (AllDrawn 1 10 c.world)) = some true by decide +kernel)
  obtain ⟨c', hfinal, hall⟩ := finalizes_of_check hrun
  exact ⟨c, c', hfinal, (decoy_integrity hc hfinal).mpr (of_decide_eq_true hall)⟩

/-- The second attempt finalizes the deck, and the card of the first one goes without decoys. -/
theorem decoys_missing : ∃ c c', (workshop .verbatim).Reachable c ∧
    Finalizes .verbatim c c' 2 10 ∧ ¬c'.world.state.db.DecoysIntact 10 := by
  obtain ⟨c, hc, hrun⟩ := System.exists_reachable_of_run opening_empty
    (show ((workshop .verbatim).run (System.start _) secondAttempt).map
      (finalizesWith 2 145 fun _ c' ↦ decide ¬c'.world.state.db.DecoysIntact 10) = some true by
        decide +kernel)
  obtain ⟨c', hfinal, hbroken⟩ := finalizes_of_check hrun
  exact ⟨c, c', hc, hfinal, of_decide_eq_true hbroken⟩

end Neva.Deckgen
