import Neva.Raising
import Neva.Rendering
import Neva.Deckgen.Concepts

/-!
# Decoys

Every card of a deck comes with five wrong answers, which are other cards of the same deck.  A model
picks them, as concepts; `select_decoys_batch` of `deckgen/pipeline.py` checks the answer, and
`map_decoy_concepts_to_card_uuids` turns concepts into the identifiers of cards.

`Decoyed` is what an answer that passes the checks comes to: the cards that were built, and no
others, have five different decoys each, all of them cards that were built and never the card
itself.
-/

set_option autoImplicit false

namespace Neva.Deckgen

open Raising

/-- `deckgen.pipeline.BuiltCard`, without its image and labels. -/
structure BuiltCard where
  cardId : Uuid
  concept : Concept
  deriving DecidableEq

/-- A row of the answer of `select_decoys`. -/
structure DecoyRow where
  cardId : Text
  decoyConceptIds : List Text

/-- What is wrong with the answer. -/
inductive DecoyError
  | unknownCard (cardId : Text)
  | wrongCount (cardId : Text) (count : ℕ)
  | ownConcept (cardId own : Text)
  | outsidePool (cardId : Text) (unknown : List Text)
  | duplicates (cardId : Text)
  | missingCards (cards : List Text)
  /-- The `KeyError` of a dictionary. -/
  | keyError (key : Text)
  deriving DecidableEq, Repr

/-- `N_DECOYS` -/
def nDecoys : ℕ := 5

/-- A dictionary: the entry that was made last for a key comes first. -/
abbrev Mapping := List (Text × List Text)

/-- `mapping.get(key)` -/
def Mapping.get? (mapping : Mapping) (key : Text) : Option (List Text) :=
  (mapping.find? fun m ↦ m.1 == key).map Prod.snd

/-- The checks on one row: the decoys of the card it is about. -/
def checkDecoys (cards : List BuiltCard) (row : DecoyRow) : Except DecoyError (List Text) :=
  match cards.reverse.find? fun c ↦ uuidText c.cardId == row.cardId with
  | none => .error (.unknownCard row.cardId)
  | some card =>
    let unknown := row.decoyConceptIds.filter fun d ↦ d ∉ cards.map fun c ↦ c.concept.id
    if row.decoyConceptIds.length ≠ nDecoys then
      .error (.wrongCount row.cardId row.decoyConceptIds.length)
    else if card.concept.id ∈ row.decoyConceptIds then
      .error (.ownConcept row.cardId card.concept.id)
    else if unknown ≠ [] then .error (.outsidePool row.cardId unknown)
    else if ¬row.decoyConceptIds.Nodup then .error (.duplicates row.cardId)
    else .ok row.decoyConceptIds

/-- The loop over the rows. -/
def checkRows (cards : List BuiltCard) (mapping : Mapping) :
    List DecoyRow → Except DecoyError Mapping
  | [] => .ok mapping
  | row :: rest => do
    let decoys ← checkDecoys cards row
    checkRows cards ((row.cardId, decoys) :: mapping) rest

/-- `select_decoys_batch`, given the answer. -/
def selectDecoysBatch (cards : List BuiltCard) (rows : List DecoyRow) :
    Except DecoyError Mapping := do
  let mapping ← checkRows cards [] rows
  let missing := (cards.map fun c ↦ uuidText c.cardId).filter fun key ↦ key ∉ mapping.map Prod.fst
  if missing ≠ [] then .error (.missingCards (missing.mergeSort fun a b ↦ decide (a ≤ b)))
  else return mapping

/-- `concept_to_card[concept_id]` -/
def conceptToCard (cards : List BuiltCard) (conceptId : Text) : Except DecoyError Text :=
  match cards.reverse.find? fun c ↦ c.concept.id == conceptId with
  | none => .error (.keyError conceptId)
  | some card => .ok (uuidText card.cardId)

/-- One entry of `map_decoy_concepts_to_card_uuids`. -/
def mapEntry (cards : List BuiltCard) (entry : Text × List Text) :
    Except DecoyError (Text × List Text) := do
  let cardIds ← entry.2.mapM (conceptToCard cards)
  return (entry.1, cardIds)

/-- `map_decoy_concepts_to_card_uuids` -/
def mapDecoyConceptsToCardUuids (cards : List BuiltCard) (decoyConceptsByCard : Mapping) :
    Except DecoyError Mapping :=
  decoyConceptsByCard.mapM (mapEntry cards)

/-! ## What the checks establish -/

/-- **Five different decoys for every card, among the other cards.** -/
structure Decoyed (cards : List BuiltCard) (mapping : Mapping) : Prop where
  /-- Decoys are given to cards that were built. -/
  known : ∀ key decoys, mapping.get? key = some decoys → ∃ c ∈ cards, uuidText c.cardId = key
  /-- Every card that was built has them. -/
  complete : ∀ c ∈ cards, ∃ decoys, mapping.get? (uuidText c.cardId) = some decoys ∧
    decoys.length = nDecoys ∧ decoys.Nodup ∧
      ∀ d ∈ decoys, ∃ c' ∈ cards, d = uuidText c'.cardId ∧ c'.cardId ≠ c.cardId

/-- A row that passes the checks. -/
structure RowChecked (cards : List BuiltCard) (entry : Text × List Text) : Prop where
  length : entry.2.length = nDecoys
  nodup : entry.2.Nodup
  pool : ∀ d ∈ entry.2, ∃ c ∈ cards, c.concept.id = d
  card : ∃ c ∈ cards, uuidText c.cardId = entry.1 ∧ c.concept.id ∉ entry.2

variable {cards : List BuiltCard} {mapping mapping' : Mapping}

theorem checkDecoys_eq_ok {row : DecoyRow} {decoys : List Text}
    (h : checkDecoys cards row = .ok decoys) : RowChecked cards (row.cardId, decoys) := by
  rw [checkDecoys] at h
  split at h
  · cases h
  · rename_i card hcard
    simp only at h
    rw [ite_error_eq_ok, ite_error_eq_ok, ite_error_eq_ok, ite_error_eq_ok, not_not, not_not,
      not_not] at h
    obtain ⟨hlen, hown, hunknown, hnodup, h⟩ := h
    cases h
    have hmem := List.mem_reverse.mp (List.mem_of_find?_eq_some hcard)
    have hkey := List.find?_some hcard
    refine ⟨hlen, hnodup, fun d hd ↦ ?_, card, hmem, beq_iff_eq.mp hkey, hown⟩
    have hpool := List.filter_eq_nil_iff.mp hunknown d hd
    simpa using hpool

theorem checkRows_eq_ok {rows : List DecoyRow} (hm : ∀ m ∈ mapping, RowChecked cards m)
    (h : checkRows cards mapping rows = .ok mapping') : ∀ m ∈ mapping', RowChecked cards m := by
  induction rows generalizing mapping with
  | nil =>
    cases h
    exact hm
  | cons row rest ih =>
    obtain ⟨decoys, hdecoys, h⟩ := bind_eq_ok.mp h
    exact ih (List.forall_mem_cons.mpr ⟨checkDecoys_eq_ok hdecoys, hm⟩) h

/-- The answer has a checked entry for every card. -/
theorem selectDecoysBatch_eq_ok {rows : List DecoyRow}
    (h : selectDecoysBatch cards rows = .ok mapping) :
    (∀ m ∈ mapping, RowChecked cards m) ∧
      ∀ c ∈ cards, uuidText c.cardId ∈ mapping.map Prod.fst := by
  obtain ⟨mapping', hrows, h⟩ := bind_eq_ok.mp h
  rw [ite_error_eq_ok, not_not] at h
  obtain ⟨hmissing, h⟩ := h
  cases h
  refine ⟨checkRows_eq_ok (by simp) hrows, fun c hc ↦ ?_⟩
  have hin := List.filter_eq_nil_iff.mp hmissing _ (List.mem_map_of_mem hc)
  simpa using hin

theorem conceptToCard_eq_ok {conceptId : Text} {cardId : Text}
    (h : conceptToCard cards conceptId = .ok cardId) :
    ∃ c ∈ cards, c.concept.id = conceptId ∧ cardId = uuidText c.cardId := by
  rw [conceptToCard] at h
  split at h
  · cases h
  · rename_i card hcard
    cases h
    have hkey := List.find?_some hcard
    exact ⟨card, List.mem_reverse.mp (List.mem_of_find?_eq_some hcard), beq_iff_eq.mp hkey, rfl⟩

/-- Different concepts are different cards. -/
theorem nodup_of_forall₂ {conceptIds cardIds : List Text}
    (h : List.Forall₂ (fun a b ↦ conceptToCard cards a = .ok b) conceptIds cardIds)
    (hids : ∀ c ∈ cards, ∀ c' ∈ cards, c.cardId = c'.cardId → c = c')
    (hn : conceptIds.Nodup) : cardIds.Nodup := by
  induction h with
  | nil => exact List.nodup_nil
  | @cons a b as bs hab hrest ih =>
    obtain ⟨ha, has⟩ := List.nodup_cons.mp hn
    refine List.nodup_cons.mpr ⟨fun hb ↦ ha ?_, ih has⟩
    obtain ⟨a', ha', hab'⟩ := exists_of_mem_right hrest hb
    obtain ⟨c, hc, rfl, rfl⟩ := conceptToCard_eq_ok hab
    obtain ⟨c', hc', rfl, hcc⟩ := conceptToCard_eq_ok hab'
    rw [hids c hc c' hc' (uuidText_injective hcc)]
    exact ha'

theorem Mapping.mem_of_get? {key : Text} {decoys : List Text}
    (h : mapping.get? key = some decoys) : (key, decoys) ∈ mapping := by
  obtain ⟨entry, hentry, rfl⟩ := Option.map_eq_some_iff.mp h
  have hkey := List.find?_some hentry
  rw [← beq_iff_eq.mp hkey]
  exact List.mem_of_find?_eq_some hentry

theorem Mapping.exists_get? {key : Text} (h : key ∈ mapping.map Prod.fst) :
    ∃ decoys, mapping.get? key = some decoys := by
  obtain ⟨entry, hentry, rfl⟩ := List.mem_map.mp h
  cases hfind : mapping.find? fun m ↦ m.1 == entry.1 with
  | none => exact absurd (beq_self_eq_true _) (List.find?_eq_none.mp hfind entry hentry)
  | some m => exact ⟨m.2, by rw [get?, hfind, Option.map_some]⟩

/-- The entries after the concepts have been replaced by cards. -/
theorem forall₂_of_mapDecoyConcepts (h : mapDecoyConceptsToCardUuids cards mapping = .ok mapping') :
    List.Forall₂ (fun e e' ↦ e'.1 = e.1 ∧
      List.Forall₂ (fun a b ↦ conceptToCard cards a = .ok b) e.2 e'.2) mapping mapping' := by
  refine (mapM_eq_ok.mp h).imp fun e e' hentry ↦ ?_
  obtain ⟨cardIds, hids, hentry⟩ := bind_eq_ok.mp hentry
  cases hentry
  exact ⟨rfl, mapM_eq_ok.mp hids⟩

theorem keys_mapDecoyConcepts (h : mapDecoyConceptsToCardUuids cards mapping = .ok mapping') :
    mapping'.map Prod.fst = mapping.map Prod.fst := by
  have hkeys : List.Forall₂ (fun (e e' : Text × List Text) ↦ e.1 = e'.1) mapping mapping' :=
    (forall₂_of_mapDecoyConcepts h).imp fun _ _ he ↦ he.1.symm
  exact (List.forall₂_eq_eq_eq ▸ List.forall₂_map_left_iff.mpr
    (List.forall₂_map_right_iff.mpr hkeys) : mapping.map Prod.fst = mapping'.map Prod.fst).symm

/-- **Whatever answer passes the checks, the cards get the decoys they should.** -/
theorem decoyed_of_answer {rows : List DecoyRow}
    (hrows : selectDecoysBatch cards rows = .ok mapping)
    (hmap : mapDecoyConceptsToCardUuids cards mapping = .ok mapping')
    (hids : ∀ c ∈ cards, ∀ c' ∈ cards, c.cardId = c'.cardId → c = c') :
    Decoyed cards mapping' := by
  obtain ⟨hchecked, hcomplete⟩ := selectDecoysBatch_eq_ok hrows
  have hforall := forall₂_of_mapDecoyConcepts hmap
  refine ⟨fun key decoys hget ↦ ?_, fun c hc ↦ ?_⟩
  · obtain ⟨e, he, hkey, -⟩ := exists_of_mem_right hforall (Mapping.mem_of_get? hget)
    obtain ⟨c, hc, hcard, -⟩ := (hchecked e he).card
    exact ⟨c, hc, hcard.trans hkey.symm⟩
  · have hkey : uuidText c.cardId ∈ mapping'.map Prod.fst := by
      rw [keys_mapDecoyConcepts hmap]
      exact hcomplete c hc
    obtain ⟨decoys, hget⟩ := Mapping.exists_get? hkey
    obtain ⟨e, he, hkey, hmapped⟩ := exists_of_mem_right hforall (Mapping.mem_of_get? hget)
    have hrow := hchecked e he
    refine ⟨decoys, hget, hmapped.length_eq.symm.trans hrow.length,
      nodup_of_forall₂ hmapped hids hrow.nodup, fun d hd ↦ ?_⟩
    obtain ⟨conceptId, hconcept, hcard⟩ := exists_of_mem_right hmapped hd
    obtain ⟨c', hc', rfl, rfl⟩ := conceptToCard_eq_ok hcard
    refine ⟨c', hc', rfl, fun heq ↦ ?_⟩
    -- the entry is the one of `c`, whose own concept is not among its decoys
    obtain ⟨c'', hc'', hcard'', hown⟩ := hrow.card
    have hsame : c'' = c := hids c'' hc'' c hc (uuidText_injective (hcard''.trans hkey.symm))
    rw [hsame, ← hids c' hc' c hc heq] at hown
    exact hown hconcept

/-! ## An answer that passes -/

/-- Five of the other concepts. -/
def BuiltCard.others (cards : List BuiltCard) (card : BuiltCard) : List Text :=
  ((cards.map fun c ↦ c.concept.id).filter (· ≠ card.concept.id)).take nDecoys

/-- The row that gives them to the card. -/
def BuiltCard.decoyRow (cards : List BuiltCard) (card : BuiltCard) : DecoyRow :=
  ⟨uuidText card.cardId, card.others cards⟩

theorem checkDecoys_decoyRow (hids : (cards.map BuiltCard.cardId).Nodup)
    (hconcepts : (cards.map fun c ↦ c.concept.id).Nodup) (hlen : nDecoys < cards.length)
    {card : BuiltCard} (hcard : card ∈ cards) :
    checkDecoys cards (card.decoyRow cards) = .ok (card.others cards) := by
  have hfind : cards.reverse.find? (fun c ↦ uuidText c.cardId == uuidText card.cardId) =
      some card := by
    cases hfound : cards.reverse.find? fun c ↦ uuidText c.cardId == uuidText card.cardId with
    | none =>
      exact absurd (beq_self_eq_true _)
        (List.find?_eq_none.mp hfound card (List.mem_reverse.mpr hcard))
    | some c =>
      have hc := List.mem_reverse.mp (List.mem_of_find?_eq_some hfound)
      have hkey := List.find?_some hfound
      rw [List.inj_on_of_nodup_map hids hc hcard (uuidText_injective (beq_iff_eq.mp hkey))]
  have hothers : (card.others cards).length = nDecoys := by
    have herase := hconcepts.erase_eq_filter card.concept.id
    have hmem : card.concept.id ∈ cards.map fun c ↦ c.concept.id := List.mem_map_of_mem hcard
    have hlast := List.length_erase_of_mem hmem
    rw [herase, List.length_map] at hlast
    have hfilter : ((cards.map fun c ↦ c.concept.id).filter (· ≠ card.concept.id)).length =
        cards.length - 1 := by
      simpa only [ne_eq, decide_not, Bool.beq_eq_decide_eq, bne] using hlast
    rw [BuiltCard.others, List.length_take, hfilter]
    omega
  have hsub := List.take_sublist nDecoys
    ((cards.map fun c ↦ c.concept.id).filter (· ≠ card.concept.id))
  have hown : card.concept.id ∉ card.others cards := fun h ↦ by
    simpa using (List.mem_filter.mp (hsub.subset h)).2
  have hunknown : (card.others cards).filter (fun d ↦ d ∉ cards.map fun c ↦ c.concept.id) = [] :=
    List.filter_eq_nil_iff.mpr fun d hd ↦ by
      simpa using (List.mem_filter.mp (hsub.subset hd)).1
  have hnodup : (card.others cards).Nodup := (hconcepts.filter _).sublist hsub
  simp only [checkDecoys, BuiltCard.decoyRow, hfind, hothers, hown, hunknown, hnodup, ne_eq,
    not_true_eq_false, if_false]

/-- The rows of some of the cards. -/
theorem checkRows_decoyRow (hids : (cards.map BuiltCard.cardId).Nodup)
    (hconcepts : (cards.map fun c ↦ c.concept.id).Nodup) (hlen : nDecoys < cards.length)
    {chosen : List BuiltCard} (hchosen : ∀ c ∈ chosen, c ∈ cards) :
    ∃ mapping', checkRows cards mapping (chosen.map (BuiltCard.decoyRow cards)) = .ok mapping' ∧
      ∀ key, key ∈ mapping.map Prod.fst ∨ (∃ c ∈ chosen, uuidText c.cardId = key) →
        key ∈ mapping'.map Prod.fst := by
  induction chosen generalizing mapping with
  | nil => exact ⟨mapping, rfl, fun key h ↦ by simpa using h⟩
  | cons card rest ih =>
    rw [List.forall_mem_cons] at hchosen
    obtain ⟨mapping', hrest, hkeys⟩ :=
      @ih ((uuidText card.cardId, card.others cards) :: mapping) hchosen.2
    refine ⟨mapping', bind_eq_ok.mpr ⟨_, checkDecoys_decoyRow hids hconcepts hlen hchosen.1, hrest⟩,
      fun key h ↦ hkeys key ?_⟩
    rcases h with h | ⟨c, hc, rfl⟩
    · exact .inl (List.mem_cons_of_mem _ h)
    · rcases List.mem_cons.mp hc with rfl | hc
      · exact .inl List.mem_cons_self
      · exact .inr ⟨c, hc, rfl⟩

/-- **The checks can be passed**, by any deck of more than five cards. -/
theorem exists_decoys (hids : (cards.map BuiltCard.cardId).Nodup)
    (hconcepts : (cards.map fun c ↦ c.concept.id).Nodup) (hlen : nDecoys < cards.length) :
    ∃ rows decoyUuids, (selectDecoysBatch cards rows >>= mapDecoyConceptsToCardUuids cards) =
      .ok decoyUuids := by
  obtain ⟨mapping, hrows, hkeys⟩ :=
    @checkRows_decoyRow cards [] hids hconcepts hlen cards fun _ hc ↦ hc
  have hselect : selectDecoysBatch cards (cards.map (BuiltCard.decoyRow cards)) = .ok mapping := by
    refine bind_eq_ok.mpr ⟨mapping, hrows, ite_error_eq_ok.mpr ⟨not_not.mpr ?_, rfl⟩⟩
    refine List.filter_eq_nil_iff.mpr fun key hkey ↦ ?_
    obtain ⟨c, hc, rfl⟩ := List.mem_map.mp hkey
    simpa using hkeys _ (.inr ⟨c, hc, rfl⟩)
  have hentry : ∀ entry ∈ mapping, ∃ mapped, mapEntry cards entry = .ok mapped := by
    intro entry hentry
    have hchecked := (selectDecoysBatch_eq_ok hselect).1 entry hentry
    obtain ⟨cardIds, hcardIds⟩ := exists_mapM_eq_ok (f := conceptToCard cards) (l := entry.2)
      fun d hd ↦ by
        obtain ⟨c, hc, rfl⟩ := hchecked.pool d hd
        rw [conceptToCard]
        split
        · rename_i hnone
          exact absurd (beq_self_eq_true _)
            (List.find?_eq_none.mp hnone c (List.mem_reverse.mpr hc))
        · exact ⟨_, rfl⟩
    exact ⟨_, bind_eq_ok.mpr ⟨cardIds, hcardIds, rfl⟩⟩
  obtain ⟨decoyUuids, hmapped⟩ := exists_mapM_eq_ok hentry
  exact ⟨_, decoyUuids, bind_eq_ok.mpr ⟨mapping, hselect, hmapped⟩⟩

end Neva.Deckgen
