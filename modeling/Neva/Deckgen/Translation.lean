import Neva.Dict
import Neva.Raising
import Neva.Deckgen.Concepts

/-!
# Translating the labels

`translate_labels_batch` sends the English labels of a deck to a model and merges the rows of the
answer into a map from concept to labels, in the order they come.  A row that has no English label
is given the one the map has for its concept at the time; a row that has one keeps it, whatever it
says, and a row for a concept that is not in the deck is merged as well if it has one.
`keepsIdentity_iff` says exactly which answers leave the deck with its own concepts and its own
English labels.

`str` and the comparison of keys of a Python dictionary are parameters: no result here depends on
how a number is spelled.
-/

set_option autoImplicit false

namespace Neva.Deckgen

open Raising

/-- The label of each language. -/
abbrev Labels := List (Text × Text)

/-- The language every label map has to have. -/
def en : Text := "en".toList

/-- `Concept.labels` -/
structure SeedLabels where
  labels : Concept → Labels
  english : ∀ c, Dict.get (labels c) en = some c.labelEn

/-- What Python makes of JSON values. -/
structure Reading where
  /-- `str` -/
  str : Json → Text
  /-- Two keys of a dictionary are the same. -/
  same : Json → Json → Bool

/-- What reading an answer raises. -/
inductive TranslateError
  | typeError
  | valueError
  | keyError (key : Text)
  deriving DecidableEq, Repr

/-! ## Reading a row -/

/-- The value can be a key. -/
def hashable : Json → Bool
  | .arr _ | .obj _ => false
  | _ => true

/-- One element of the argument of `dict`, if that is not a dictionary already. -/
def dictPair : Json → Except TranslateError (Json × Json)
  | .arr [k, v] => if hashable k then .ok (k, v) else .error .typeError
  | .arr _ => .error .valueError
  | .str [a, b] => .ok (.str [a], .str [b])
  | .str _ => .error .valueError
  -- a dictionary is the sequence of its keys
  | .obj [m, m'] => .ok (.str m.1, .str m'.1)
  | .obj _ => .error .valueError
  | _ => .error .typeError

/-- The pairs `dict` is made from. -/
def dictPairs : Json → Except TranslateError (List (Json × Json))
  | .obj members => .ok (members.map fun m ↦ (.str m.1, m.2))
  | .arr items => items.mapM dictPair
  | .str [] => .ok []
  | .str _ => .error .valueError
  | _ => .error .typeError

/-- `dict`; the first of two keys that are the same is kept, with the value of the second. -/
def pyDict (r : Reading) (pairs : List (Json × Json)) : List (Json × Json) :=
  pairs.foldl (fun out p ↦
    if out.any fun m ↦ r.same m.1 p.1 then
      out.map fun m ↦ if r.same m.1 p.1 then (m.1, p.2) else m
    else out ++ [p]) []

/-- `{str(k): str(v) for k, v in dict(row["labels"]).items()}` -/
def rowLabels (r : Reading) (labels : Json) : Except TranslateError Labels := do
  let pairs ← dictPairs labels
  return Dict.ofPairs ((pyDict r pairs).map fun p ↦ (r.str p.1, r.str p.2))

/-- `str(row["id"])`, and the labels. -/
def readRow (r : Reading) : Json → Except TranslateError (Text × Labels)
  | .obj members =>
    match Json.lookup members "id".toList with
    | none => .error (.keyError "id".toList)
    | some id =>
      match Json.lookup members "labels".toList with
      | none => .error (.keyError "labels".toList)
      | some labels => do
        let labels ← rowLabels r labels
        return (r.str id, labels)
  | _ => .error .typeError

/-! ## Merging -/

/-- A row is merged into the map. -/
def mergeRow (byId : List (Text × Labels)) (cid : Text) (labels : Labels) :
    Except TranslateError (List (Text × Labels)) :=
  if (Dict.get labels en).isSome then .ok (Dict.set byId cid labels)
  else match Dict.get byId cid with
    | none => .error (.keyError cid)
    | some old => match Dict.get old en with
      | none => .error (.keyError en)
      | some label => .ok (Dict.set byId cid (Dict.set labels en label))

/-- The rows, one after the other. -/
def mergeRows (r : Reading) :
    List Json → List (Text × Labels) → Except TranslateError (List (Text × Labels))
  | [], byId => .ok byId
  | row :: rows, byId => do
    let (cid, labels) ← readRow r row
    let byId ← mergeRow byId cid labels
    mergeRows r rows byId

/-- `translate_labels_batch`, after the model has answered. -/
def translateLabelsBatch (r : Reading) (seed : SeedLabels) (concepts : List Concept) :
    Json → Except TranslateError (List (Text × Labels))
  | .arr rows => mergeRows r rows (Dict.ofPairs (concepts.map fun c ↦ (c.id, seed.labels c)))
  | _ => .error .typeError

/-! ## What is in the map -/

/-- The concept a row is for. -/
def rowId (r : Reading) (row : Json) : Option Text := ((readRow r row).toOption).map Prod.fst

/-- The English label a row brings along for a concept. -/
def suppliedEnglish (r : Reading) (id : Text) (row : Json) : Option Text :=
  ((readRow r row).toOption).bind fun x ↦ if x.1 = id then Dict.get x.2 en else none

/-- The last English label the rows bring along for a concept. -/
def lastEnglish (r : Reading) (id : Text) (rows : List Json) : Option Text :=
  (rows.filterMap (suppliedEnglish r id)).getLast?

/-- The English label the map has for a concept. -/
def englishOf (byId : List (Text × Labels)) (id : Text) : Option Text :=
  (Dict.get byId id).bind fun labels ↦ Dict.get labels en

variable {r : Reading} {byId byId' : List (Text × Labels)} {cid id : Text} {labels : Labels}

/-- What one row changes. -/
theorem mergeRow_spec (h : mergeRow byId cid labels = .ok byId') :
    (∀ k, k ∈ byId'.map Prod.fst ↔ k = cid ∨ k ∈ byId.map Prod.fst) ∧
      ∀ k, englishOf byId' k =
        if k = cid then (Dict.get labels en).or (englishOf byId cid) else englishOf byId k := by
  have hset (new : Labels) : (∀ k, k ∈ (Dict.set byId cid new).map Prod.fst ↔
      k = cid ∨ k ∈ byId.map Prod.fst) ∧ ∀ k, englishOf (Dict.set byId cid new) k =
        if k = cid then Dict.get new en else englishOf byId k := by
    refine ⟨fun k ↦ Dict.mem_keys_set, fun k ↦ ?_⟩
    rw [englishOf, Dict.get_set]
    split <;> rfl
  rw [mergeRow] at h
  split at h
  · rename_i hsupplied
    obtain ⟨label, hlabel⟩ := Option.isSome_iff_exists.mp hsupplied
    cases h
    rw [hlabel, Option.some_or, ← hlabel]
    exact hset labels
  · rename_i hmissing
    have hnone : Dict.get labels en = none := by simpa using hmissing
    split at h
    · cases h
    · rename_i old hold
      split at h
      · cases h
      · rename_i label hlabel
        cases h
        have henglish : englishOf byId cid = some label := by
          rw [englishOf, hold, Option.bind_some, hlabel]
        have hown : Dict.get (Dict.set labels en label) en = some label := by
          rw [Dict.get_set, if_pos rfl]
        rw [hnone, Option.none_or, henglish, ← hown]
        exact hset (Dict.set labels en label)

/-- What all rows together change. -/
theorem mergeRows_spec {rows : List Json} (h : mergeRows r rows byId = .ok byId') :
    (∀ k, k ∈ byId'.map Prod.fst ↔ k ∈ byId.map Prod.fst ∨ ∃ row ∈ rows, rowId r row = some k) ∧
      ∀ k, englishOf byId' k = (lastEnglish r k rows).or (englishOf byId k) := by
  induction rows generalizing byId with
  | nil =>
    cases h
    simp [lastEnglish]
  | cons row rows ih =>
    rw [mergeRows] at h
    obtain ⟨⟨cid, labels⟩, hrow, h⟩ := bind_eq_ok.mp h
    obtain ⟨byId₁, hmerge, h⟩ := bind_eq_ok.mp h
    obtain ⟨hkeys, henglish⟩ := mergeRow_spec hmerge
    obtain ⟨hkeys', henglish'⟩ := ih h
    have hid : rowId r row = some cid := by rw [rowId, hrow]; rfl
    have hsupplied (k : Text) :
        suppliedEnglish r k row = if cid = k then Dict.get labels en else none := by
      rw [suppliedEnglish, hrow]
      rfl
    refine ⟨fun k ↦ ?_, fun k ↦ ?_⟩
    · rw [hkeys', hkeys, List.exists_mem_cons_iff, hid, Option.some.injEq, eq_comm]
      tauto
    · have hlast : lastEnglish r k (row :: rows) =
          (lastEnglish r k rows).or (suppliedEnglish r k row) := by
        rw [lastEnglish, lastEnglish, List.filterMap_cons]
        cases hs : suppliedEnglish r k row with
        | none => rw [Option.or_none]
        | some label => rw [List.getLast?_cons, Option.or_some]
      rw [henglish', henglish, hlast, Option.or_assoc, hsupplied]
      by_cases hk : k = cid
      · rw [if_pos hk, if_pos hk.symm, hk]
      · rw [if_neg hk, if_neg (Ne.symm hk), Option.none_or]

/-! ## The identity of the deck -/

/-- The keys of the map are the concepts of the deck, and each has its own English label. -/
def KeepsIdentity (concepts : List Concept) (byId : List (Text × Labels)) : Prop :=
  (∀ id, id ∈ byId.map Prod.fst ↔ id ∈ concepts.map Concept.id) ∧
    ∀ c ∈ concepts, englishOf byId c.id = some c.labelEn

/-- **Which translations keep the identity of the deck.**  Every row is for a concept of the deck,
and the last English label that comes along for a concept, if any does, is its own. -/
theorem keepsIdentity_iff (r : Reading) (seed : SeedLabels) (concepts : List Concept)
    (rows : List Json) (byId : List (Text × Labels)) (hids : (concepts.map Concept.id).Nodup)
    (h : translateLabelsBatch r seed concepts (.arr rows) = .ok byId) :
    KeepsIdentity concepts byId ↔
      (∀ row ∈ rows, ∀ id, rowId r row = some id → id ∈ concepts.map Concept.id) ∧
        ∀ c ∈ concepts, ∀ label, lastEnglish r c.id rows = some label → label = c.labelEn := by
  obtain ⟨hkeys, henglish⟩ := mergeRows_spec h
  have hfst :
      (concepts.map fun c ↦ (c.id, seed.labels c)).map Prod.fst = concepts.map Concept.id := by
    rw [List.map_map]
    rfl
  have hstart : ∀ c ∈ concepts,
      englishOf (Dict.ofPairs (concepts.map fun c ↦ (c.id, seed.labels c))) c.id =
        some c.labelEn := by
    intro c hc
    have hget := Dict.get_ofPairs_of_mem (hfst ▸ hids)
      (List.mem_map_of_mem (f := fun c ↦ (c.id, seed.labels c)) hc)
    rw [englishOf, hget, Option.bind_some, seed.english]
  simp only [Dict.mem_keys_ofPairs, hfst] at hkeys
  refine and_congr ?_ (forall₂_congr fun c hc ↦ ?_)
  · simp only [hkeys]
    constructor
    · exact fun hall row hrow id hid ↦ (hall id).mp (.inr ⟨row, hrow, hid⟩)
    · intro hall id
      refine ⟨fun hmem ↦ ?_, .inl⟩
      rcases hmem with hmem | ⟨row, hrow, hid⟩
      · exact hmem
      · exact hall row hrow id hid
  · rw [henglish, hstart c hc]
    cases lastEnglish r c.id rows with
    | none => simp
    | some label => simp

/-! ## An answer that renames a concept -/

/-- Numbers are not looked at. -/
def plainReading : Reading where
  str
    | .str s => s
    | _ => []
  same
    | .str a, .str b => a == b
    | _, _ => false

def englishOnly : SeedLabels := ⟨fun c ↦ [(en, c.labelEn)], fun _ ↦ rfl⟩

/-- A row of the answer for a kite. -/
def kiteTranslation (id english : String) : Json :=
  .obj [("id".toList, .str id.toList),
    ("labels".toList,
      .obj [("en".toList, .str english.toList), ("hi".toList, .str "patang".toList)])]

/-- The model calls the kite a bird, and the translation is accepted. -/
theorem keepsIdentity_bird : ∃ byId,
    translateLabelsBatch plainReading englishOnly [curated "kite" "kite"]
      (.arr [kiteTranslation "kite" "bird"]) = .ok byId ∧
    ¬ KeepsIdentity [curated "kite" "kite"] byId := by
  refine ⟨_, rfl, fun h ↦ ?_⟩
  have hkite := h.2 _ List.mem_cons_self
  revert hkite
  decide +kernel

/-- A translation that repeats the English label. -/
theorem keepsIdentity_kite : ∃ byId,
    translateLabelsBatch plainReading englishOnly [curated "kite" "kite"]
      (.arr [kiteTranslation "kite" "kite"]) = .ok byId ∧
    KeepsIdentity [curated "kite" "kite"] byId := by
  have h : translateLabelsBatch plainReading englishOnly [curated "kite" "kite"]
      (.arr [kiteTranslation "kite" "kite"]) = .ok _ := rfl
  refine ⟨_, h, (keepsIdentity_iff _ _ _ _ _ (by decide) h).mpr ⟨?_, ?_⟩⟩
  · intro row hrow id hid
    rw [List.mem_singleton.mp hrow] at hid
    have hkite : rowId plainReading (kiteTranslation "kite" "kite") = some "kite".toList := rfl
    rw [← Option.some.inj (hkite.symm.trans hid)]
    exact List.mem_singleton_self _
  · intro c hc label hlabel
    rw [List.mem_singleton.mp hc] at hlabel ⊢
    have hkite : lastEnglish plainReading (curated "kite" "kite").id
        [kiteTranslation "kite" "kite"] = some "kite".toList := rfl
    exact (Option.some.inj (hkite.symm.trans hlabel)).symm

end Neva.Deckgen
