import Neva.Raising
import Neva.Json.Stored
import Neva.Game.Languages

/-!
# Where the concepts of a deck come from

A deck is built from a list of concepts, and there are four ways to come by one: the curated list
of `deckgen/concepts.py`, a file an operator hands to `deckgen/cli.py`, the rows of an admin
request, and what a model invents for a one-line theme (`deckgen/concept_gen.py`).  The last three
pass through `concepts_from_operator_mappings`, and the last two, before that, through the
validation of `AdminConceptInput` in `contracts/api_types.py`.  `Source.concepts` is what a build
gets to see.

Of the labels of a concept only the English one is kept; the phrase and the noun of the image
prompt and the category are left out.
-/

set_option autoImplicit false

namespace Neva.Deckgen

/-- `deckgen.concepts.Concept` -/
structure Concept where
  id : Text
  /-- `labels["en"]` -/
  labelEn : Text
  locale : Option Text := none
  culturalHint : Option Text := none
  deriving DecidableEq, Repr

/-- What is wrong with a field of an `AdminConceptInput`. -/
inductive Problem
  | missing
  | stringType
  | tooShort
  | tooLong
  | patternMismatch
  deriving DecidableEq, Repr

/-- What the validation of concepts raises. -/
inductive ConceptError
  | tooManyCards (count : ℕ)
  | notAnObject (index : ℕ)
  | missingFields (index : ℕ) (fields : List Text)
  | unknownFields (index : ℕ) (fields : List Text)
  | notAString (index : ℕ) (field : Text)
  | blank (index : ℕ) (field : Text)
  | tooLong (index : ℕ) (field : Text)
  | invalidId (index : ℕ) (conceptId : Text)
  | duplicateId (conceptId : Text)
  /-- pydantic's `ValidationError`: what is wrong with which field; no field if it is the whole. -/
  | validation (problems : List (Text × Problem))
  | unknownFileFields (fields : List Text)
  | wrongCount (returned expected : ℕ)
  | cardsMismatch (cards count : ℕ)
  | cardCountRange (cardCount : ℕ)
  | unknownRegion (region : Text)
  | typeError (message : String)
  | valueError (message : String)
  | inventionFailed (attempts : ℕ)
  deriving DecidableEq, Repr

/-! ## Curated concepts -/

/-- A curated concept has neither a locale nor a hint. -/
def curated (id labelEn : String) : Concept := { id := id.toList, labelEn := labelEn.toList }

/-- `CONCEPTS` -/
def CONCEPTS : List Concept := [
  curated "pink_elephant" "pink elephant",
  curated "goat_on_bicycle" "goat on bicycle",
  curated "cow_in_gamosa" "cow in gamosa",
  curated "crow_stealing_jalebi" "crow stealing jalebi",
  curated "peacock_on_handcart" "peacock on handcart",
  curated "duck_in_jaapi" "duck in jaapi",
  curated "buffalo_in_boat" "buffalo in boat",
  curated "frog_on_dhol" "frog on dhol",
  curated "monkey_with_kalash" "monkey with water pot",
  curated "rooster_on_hand_pump" "rooster on hand pump",
  curated "cat_in_loom" "cat in handloom",
  curated "goat_eating_banana_leaf_meal" "goat eating meal",
  curated "crow_on_lantern" "crow on lantern",
  curated "tortoise_in_slippers" "tortoise in slippers",
  curated "fish_under_umbrella" "fish under umbrella",
  curated "peacock_in_rickshaw" "peacock in rickshaw",
  curated "monkey_rolling_roti" "monkey rolling dough",
  curated "cow_at_potter_wheel" "cow at potter's wheel",
  curated "duck_on_charpai" "duck on rope cot",
  curated "goat_at_water_pump" "goat at hand pump",
  curated "crow_on_temple_bell" "crow on temple bell",
  curated "buffalo_with_jaapi" "buffalo with jaapi",
  curated "monkey_with_oil_lamp" "monkey with oil lamp",
  curated "peacock_under_banyan" "peacock with umbrella",
  curated "frog_in_kulhad" "frog in clay cup",
  curated "goat_pulling_rickshaw" "goat pulling rickshaw",
  curated "cat_on_sewing_machine" "cat on sewing machine",
  curated "crow_with_gamosa_cape" "crow with gamosa",
  curated "duck_rowing_boat" "duck rowing boat",
  curated "monkey_on_sugarcane" "monkey on sugarcane",
  curated "rooster_chasing_handcart" "rooster chasing handcart",
  curated "frog_with_sickle" "frog with sickle",
  curated "cat_in_mortar" "cat in mortar",
  curated "peacock_fanning_jalebi" "peacock fanning jalebi",
  curated "buffalo_under_lotus" "buffalo with lotus",
  curated "pink_elephant_on_bridge" "pink elephant on bridge"]

/-- The pool of `select_concepts` after it has been shuffled. -/
structure Shuffled where
  pool : List Concept
  perm : pool.Perm CONCEPTS

/-- `select_concepts` -/
def selectConcepts (count : ℕ) (shuffled : Shuffled) : Except ConceptError (List Concept) :=
  if CONCEPTS.length < count then .error (.tooManyCards count)
  else .ok (shuffled.pool.take count)

/-! ## Regions -/

/-- `REGION_CONTEXTS` -/
def REGION_CONTEXTS : List (String × String) := [
  ("andhra-pradesh", "Andhra Pradesh coastal town and temple-town streets"),
  ("arunachal-pradesh", "Arunachal Pradesh mountain village and hillside paths"),
  ("assam", "Assamese village and Brahmaputra riverside"),
  ("bihar", "Bihar village courtyard and riverside ghat"),
  ("chhattisgarh", "Chhattisgarh forest-edge village and tribal market"),
  ("goa", "Goan coastal village and spice-market lanes"),
  ("gujarat", "Gujarati town market and courtyard"),
  ("haryana", "Haryana village farmyard and dusty market lane"),
  ("himachal-pradesh", "Himachal Pradesh mountain village and apple-orchard paths"),
  ("jharkhand", "Jharkhand forest village and tribal market"),
  ("karnataka", "Karnataka town street and temple-town lanes"),
  ("kerala", "Kerala coastal town and backwater village"),
  ("madhya-pradesh", "Madhya Pradesh town market and fort-town streets"),
  ("maharashtra", "Maharashtra village courtyard and busy town lane"),
  ("manipur", "Manipur valley town and riverside market"),
  ("meghalaya", "Meghalaya hill village and misty market path"),
  ("mizoram", "Mizoram hill town and bamboo-lined village street"),
  ("nagaland", "Nagaland hill village and market courtyard"),
  ("odisha", "Odisha coastal town and temple-town street"),
  ("punjab", "Punjabi village courtyard and mustard-field edge"),
  ("rajasthan", "Rajasthan desert-town market and courtyard"),
  ("sikkim", "Sikkim mountain village and monastery-town path"),
  ("tamil-nadu", "Tamil Nadu temple-town street and coastal village"),
  ("telangana", "Telangana town market and Deccan village lane"),
  ("tripura", "Tripura hill-town market and bamboo courtyard"),
  ("uttar-pradesh", "Uttar Pradesh town ghat and village courtyard"),
  ("uttarakhand", "Uttarakhand mountain village and hill-town path"),
  ("west-bengal", "West Bengal town market and riverside lane"),
  ("bengal", "Bengali town market"),
  ("bangalore", "Bengaluru urban street"),
  ("north", "North Indian market"),
  ("northeast", "rural Northeast Indian riverside"),
  ("tamil", "Tamil Nadu temple-town street")]

/-- `resolve_region_context`.  Callers have lowered the tag before, so that only the letters of
ASCII matter here. -/
def resolveRegionContext (region : Text) : Except ConceptError Text :=
  let key := (strip region).map Char.toLower
  match REGION_CONTEXTS.find? fun r ↦ r.1.toList == key with
  | none => .error (.unknownRegion region)
  | some r => .ok r.2.toList

/-! ## Operator concepts -/

/-- `OPERATOR_CONCEPT_MAX_TEXT_LENGTH` -/
def operatorConceptMaxTextLength : ℕ := 500

/-- `[A-Za-z0-9_-]` -/
def isIdChar (c : Char) : Bool := c.isAlphanum || c == '_' || c == '-'

/-- `OPERATOR_CONCEPT_ID_PATTERN`: `[A-Za-z0-9][A-Za-z0-9_-]{0,63}` -/
def operatorConceptIdPattern : Text → Bool
  | [] => false
  | c :: rest => c.isAlphanum && decide (rest.length ≤ 63) && rest.all isIdChar

/-- `sorted(required)` -/
def requiredFields : List Text :=
  ["concept_id".toList, "cultural_hint".toList, "label_en".toList, "locale".toList]

/-- The loop body over the fields of a row: a string that is not blank, stripped. -/
def operatorField (index : ℕ) (members : List (Text × Json)) (field : Text) :
    Except ConceptError Text :=
  match Json.lookup members field with
  | some (.str raw) =>
    if strip raw = [] then .error (.blank index field)
    else if operatorConceptMaxTextLength < (strip raw).length then .error (.tooLong index field)
    else .ok (strip raw)
  | _ => .error (.notAString index field)

/-- One row of `concepts_from_operator_mappings`. -/
def operatorConcept (index : ℕ) : Json → Except ConceptError Concept
  | .obj members =>
    let missing := requiredFields.filter fun field ↦ field ∉ members.map Prod.fst
    let unknown := (members.map Prod.fst).filter fun name ↦ name ∉ requiredFields
    if missing ≠ [] then .error (.missingFields index missing)
    else if unknown ≠ [] then
      .error (.unknownFields index (unknown.mergeSort fun a b ↦ decide (a ≤ b)))
    else do
      let conceptId ← operatorField index members "concept_id".toList
      let culturalHint ← operatorField index members "cultural_hint".toList
      let labelEn ← operatorField index members "label_en".toList
      let locale ← operatorField index members "locale".toList
      if operatorConceptIdPattern conceptId then
        return ⟨conceptId, labelEn, some locale, some culturalHint⟩
      else .error (.invalidId index conceptId)
  | _ => .error (.notAnObject index)

/-- The loop of `concepts_from_operator_mappings`. -/
def operatorConcepts (index : ℕ) (seenIds : List Text) :
    List Json → Except ConceptError (List Concept)
  | [] => .ok []
  | mapping :: rest => do
    let concept ← operatorConcept index mapping
    if concept.id ∈ seenIds then .error (.duplicateId concept.id)
    else do
      let concepts ← operatorConcepts (index + 1) (concept.id :: seenIds) rest
      return concept :: concepts

/-- `concepts_from_operator_mappings` -/
def conceptsFromOperatorMappings (mappings : List Json) : Except ConceptError (List Concept) :=
  operatorConcepts 0 [] mappings

/-! ## Rows of an admin request -/

/-- A field of `AdminConceptInput`: at least one character, at most `maxLength`, and a pattern. -/
structure FieldSpec where
  name : Text
  maxLength : ℕ
  pattern : Text → Bool := fun _ ↦ true

/-- The value passes the checks of the field. -/
def FieldSpec.Admits (f : FieldSpec) (value : Text) : Prop :=
  1 ≤ value.length ∧ value.length ≤ f.maxLength ∧ f.pattern value = true

instance (f : FieldSpec) (value : Text) : Decidable (f.Admits value) :=
  inferInstanceAs (Decidable (_ ∧ _ ∧ _))

/-- `[a-z0-9]` -/
def isSlugStart (c : Char) : Bool := c.isLower || c.isDigit

/-- `^[a-z0-9][a-z0-9_-]*$` -/
def slugPattern : Text → Bool
  | [] => false
  | c :: rest => isSlugStart c && rest.all fun c ↦ isSlugStart c || c == '_' || c == '-'

def conceptIdField : FieldSpec := ⟨"concept_id".toList, 80, slugPattern⟩
def labelEnField : FieldSpec := { name := "label_en".toList, maxLength := 120 }
def localeField : FieldSpec := { name := "locale".toList, maxLength := 120 }
def culturalHintField : FieldSpec := { name := "cultural_hint".toList, maxLength := 500 }
def regionTagField : FieldSpec := ⟨"region_tag".toList, 80, slugPattern⟩

/-- `contracts.api_types.AdminConceptInput`: an instance has passed its validation. -/
structure AdminConceptInput where
  conceptId : Text
  labelEn : Text
  locale : Text
  culturalHint : Text
  conceptId_admitted : conceptIdField.Admits conceptId
  labelEn_admitted : labelEnField.Admits labelEn
  locale_admitted : localeField.Admits locale
  culturalHint_admitted : culturalHintField.Admits culturalHint

/-- The check of one field. -/
def FieldSpec.check (f : FieldSpec) (members : List (Text × Json)) :
    Except Problem {value : Text // f.Admits value} :=
  match Json.lookup members f.name with
  | none => .error .missing
  | some (.str value) =>
    if h : f.Admits value then .ok ⟨value, h⟩
    else if value.length < 1 then .error .tooShort
    else if f.maxLength < value.length then .error .tooLong
    else .error .patternMismatch
  | some _ => .error .stringType

/-- The problem of a field, if it has one. -/
def FieldSpec.problem (f : FieldSpec) (members : List (Text × Json)) : Option (Text × Problem) :=
  match f.check members with
  | .ok _ => none
  | .error problem => some (f.name, problem)

/-- `AdminConceptInput.model_validate`.  Every field is checked, and other members are ignored. -/
def AdminConceptInput.modelValidate : Json → Except ConceptError AdminConceptInput
  | .obj members =>
    match conceptIdField.check members, labelEnField.check members, localeField.check members,
      culturalHintField.check members with
    | .ok conceptId, .ok labelEn, .ok locale, .ok culturalHint =>
      .ok ⟨conceptId.1, labelEn.1, locale.1, culturalHint.1, conceptId.2, labelEn.2, locale.2,
        culturalHint.2⟩
    | _, _, _, _ =>
      .error (.validation ([conceptIdField, labelEnField, localeField, culturalHintField].filterMap
        fun f ↦ f.problem members))
  | _ => .error (.validation [])

/-- `model_dump(mode="json")` -/
def AdminConceptInput.modelDump (c : AdminConceptInput) : Json :=
  .obj [("concept_id".toList, .str c.conceptId), ("label_en".toList, .str c.labelEn),
    ("locale".toList, .str c.locale), ("cultural_hint".toList, .str c.culturalHint)]

/-- `AdminDeckGenerateRequest`, after its validation: between 6 and 60 concepts, no two with one
id. -/
structure AdminDeckGenerateRequest where
  regionTag : Text
  concepts : List AdminConceptInput
  regionTag_admitted : regionTagField.Admits regionTag
  minLength : 6 ≤ concepts.length
  maxLength : concepts.length ≤ 60
  unique : (concepts.map AdminConceptInput.conceptId).Nodup

/-- The conversion in `run_generation` and `DeckgenGateway.generate`. -/
def AdminDeckGenerateRequest.toConcepts (request : AdminDeckGenerateRequest) :
    Except ConceptError (List Concept) :=
  conceptsFromOperatorMappings (request.concepts.map AdminConceptInput.modelDump)

/-! ## Invented concepts -/

/-- `_operator_rows_from_payload` -/
def operatorRowsFromPayload (payload : Json) (expectedCount : ℕ) :
    Except ConceptError (List Json) :=
  match payload with
  | .obj members =>
    match Json.lookup members "concepts".toList with
    | some (.arr rawConcepts) =>
      if rawConcepts.length ≠ expectedCount then
        .error (.wrongCount rawConcepts.length expectedCount)
      else do
        let concepts ← rawConcepts.mapM AdminConceptInput.modelValidate
        if ¬(concepts.map AdminConceptInput.conceptId).Nodup then
          .error (.valueError "invent_concepts returned duplicate concept_id values")
        else return concepts.map AdminConceptInput.modelDump
    | _ => .error (.typeError "invent_concepts.concepts must be an array")
  | _ => .error (.typeError "invent_concepts expected a JSON object")

/-- `MAX_CONCEPT_GEN_RETRIES + 1` -/
def inventionAttempts : ℕ := 3

/-- `len(raw.get("concepts", []))` does not raise. -/
def isCountable : Json → Bool
  | .obj members =>
    match Json.lookup members "concepts".toList with
    | some .null | some (.bool _) | some (.num _) => false
    | _ => true
  | _ => true

/-- The attempts of `invent_concepts_from_prompt`, each on one answer of the model. -/
def inventAttempts (cardCount : ℕ) : List Json → Except ConceptError (List Concept)
  | [] => .error (.inventionFailed inventionAttempts)
  | answer :: rest =>
    if isCountable answer then
      match operatorRowsFromPayload answer cardCount >>= conceptsFromOperatorMappings with
      | .ok concepts => .ok concepts
      | .error _ => inventAttempts cardCount rest
    else .error (.typeError "object has no len()")

/-- `invent_concepts_from_prompt`, given what the model would answer to each attempt. -/
def inventConceptsFromPrompt (cardCount : ℕ) (answers : List Json) :
    Except ConceptError (List Concept) :=
  if cardCount < 6 ∨ 20 < cardCount then .error (.cardCountRange cardCount)
  else inventAttempts cardCount (answers.take inventionAttempts)

/-! ## The command line -/

/-- The list in a concepts file, which may be wrapped in an object. -/
def deckFileConcepts : Json → Except ConceptError Json
  | .obj members =>
    let unknown := (members.map Prod.fst).filter fun name ↦
      name ≠ "concepts".toList ∧ name ≠ "region_tag".toList
    if unknown ≠ [] then
      .error (.unknownFileFields (unknown.mergeSort fun a b ↦ decide (a ≤ b)))
    else match Json.lookup members "concepts".toList, Json.lookup members "region_tag".toList with
      | none, _ => .error (.valueError "concepts file object must contain 'concepts'")
      | some concepts, none | some concepts, some .null => .ok concepts
      | some concepts, some (.str rawRegion) =>
        if strip rawRegion = [] then
          .error (.valueError "concepts file region_tag must be a non-blank string")
        else .ok concepts
      | some _, some _ => .error (.valueError "concepts file region_tag must be a non-blank string")
  | payload => .ok payload

/-- `load_operator_deck_file`, after the file has been read. -/
def loadOperatorDeckFile (payload : Json) : Except ConceptError (List Concept) :=
  deckFileConcepts payload >>= fun
    | .arr mappings => do
      let concepts ← conceptsFromOperatorMappings mappings
      if concepts = [] then .error (.valueError "concepts file must contain at least one concept")
      else return concepts
    | _ => .error (.typeError "concepts file must contain a list of concept objects")

/-- `DEFAULT_CARD_COUNT` -/
def defaultCardCount : ℕ := 30

/-- The number of cards `main` settles on. -/
def cliCardCount (cards : Option ℕ) (concepts : Option (List Concept)) :
    Except ConceptError ℕ :=
  let count := match cards, concepts with
    | some cards, _ => cards
    | none, some concepts => concepts.length
    | none, none => defaultCardCount
  if concepts.any fun concepts ↦ count ≠ concepts.length then
    .error (.cardsMismatch count (concepts.elim 0 List.length))
  else if count < 6 ∨ 60 < count then .error (.valueError "--cards must be between 6 and 60")
  else .ok count

/-! ## What a build is given -/

/-- The checks of `build_deck` on explicit concepts. -/
def explicitConcepts (cards : Option ℕ) (concepts : List Concept) :
    Except ConceptError (List Concept) :=
  if cards.any (· ≠ concepts.length) then
    .error (.cardsMismatch (cards.getD 0) concepts.length)
  else if ¬(concepts.map Concept.id).Nodup then
    .error (.valueError "explicit concepts contain duplicate ids")
  else .ok concepts

/-- The choice of concepts at the beginning of `build_deck`. -/
def selectedConcepts (cards : Option ℕ) (concepts : Option (List Concept)) (shuffled : Shuffled) :
    Except ConceptError (List Concept) :=
  match concepts with
  | none => selectConcepts (cards.getD defaultCardCount) shuffled
  | some concepts => explicitConcepts cards concepts

/-- Where the concepts of a deck come from. -/
inductive Source
  /-- `python -m deckgen`, with the document in `--concepts-file` if there is one. -/
  | cli (cards : Option ℕ) (file : Option Json) (shuffled : Shuffled)
  /-- An admin request with explicit concepts. -/
  | request (rows : AdminDeckGenerateRequest)
  /-- An admin request with a theme, and what the model answers to each attempt. -/
  | prompt (cardCount : ℕ) (answers : List Json)

/-- The concepts a build is given, or why there is none. -/
def Source.concepts : Source → Except ConceptError (List Concept)
  | .cli cards file shuffled => do
    let concepts ← file.mapM loadOperatorDeckFile
    let count ← cliCardCount cards concepts
    selectedConcepts (some count) concepts shuffled
  | .request rows => do
    let concepts ← rows.toConcepts
    explicitConcepts none concepts
  | .prompt cardCount answers => do
    let concepts ← inventConceptsFromPrompt cardCount answers
    explicitConcepts none concepts

theorem nodup_CONCEPTS : (CONCEPTS.map Concept.id).Nodup := by decide +kernel

/-- No two concepts of a build have one id. -/
theorem nodup_selectedConcepts {cards : Option ℕ} {concepts : Option (List Concept)}
    {shuffled : Shuffled} {selected : List Concept}
    (h : selectedConcepts cards concepts shuffled = .ok selected) :
    (selected.map Concept.id).Nodup := by
  cases concepts with
  | none =>
    rw [selectedConcepts, selectConcepts, Raising.ite_error_eq_ok] at h
    obtain ⟨-, h⟩ := h
    cases h
    exact (((shuffled.perm.map Concept.id).nodup_iff).mpr nodup_CONCEPTS).sublist
      ((List.take_sublist _ _).map Concept.id)
  | some concepts =>
    rw [selectedConcepts, explicitConcepts, Raising.ite_error_eq_ok, Raising.ite_error_eq_ok,
      not_not] at h
    obtain ⟨-, hnodup, h⟩ := h
    cases h
    exact hnodup

end Neva.Deckgen
