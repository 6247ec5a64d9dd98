import Neva.Game.Languages

/-!
# Labels

The text of a card.  `cards.label_common` is a JSON object that holds the text in several
languages, and `resolve_label_text` of `app/game/types.py` picks the one the two players of a pair
see: the speaker reads it before the recording is handed on, the guesser finds it among the
options.
-/

set_option autoImplicit false

namespace Neva

/-- A card's `label_common`: an object of strings, in the order they are stored. -/
structure LabelMap where
  members : List (Text × Text)
  nodup : (members.map Prod.fst).Nodup
  deriving DecidableEq

namespace LabelMap

variable (labels : LabelMap)

/-- `label_common.get(key)` -/
def get? (key : Text) : Option Text := (labels.members.find? fun m ↦ m.1 == key).map Prod.snd

/-- `label_common.values()` -/
def values : List Text := labels.members.map Prod.snd

/-- The map without a label. -/
def empty : LabelMap := ⟨[], by simp⟩

/-- The map with one label. -/
def single (key value : Text) : LabelMap := ⟨[(key, value)], by simp⟩

variable {labels}

theorem mem_values_of_get? {key value : Text} (h : labels.get? key = some value) :
    value ∈ labels.values := by
  obtain ⟨m, hm, rfl⟩ := Option.map_eq_some_iff.mp h
  exact List.mem_map_of_mem (List.mem_of_find?_eq_some hm)

theorem values_eq_nil : labels.values = [] ↔ labels.members = [] := List.map_eq_nil_iff

end LabelMap

/-- A value that is not blank, stripped. -/
def nonBlank (value : Text) : Option Text := if strip value ≠ [] then some (strip value) else none

/-- `resolve_label_text` -/
def resolveLabelText (labels : LabelMap) (commonLang : Text) : Text :=
  match [commonLang, "en".toList, "text".toList].findSome? fun key ↦
      (labels.get? key).bind nonBlank with
  | some text => text
  | none => (labels.values.findSome? nonBlank).getD []

theorem nonBlank_eq_some {value text : Text} :
    nonBlank value = some text ↔ strip value = text ∧ text ≠ [] := by
  rw [nonBlank]
  split
  · rename_i h
    rw [Option.some.injEq]
    exact ⟨fun heq ↦ ⟨heq, heq ▸ h⟩, And.left⟩
  · rename_i h
    rw [not_not] at h
    simp +contextual [h, eq_comm]

theorem nonBlank_eq_none {value : Text} : nonBlank value = none ↔ strip value = [] := by
  rw [nonBlank]
  split <;> simp_all

/-- What is shown is one of the labels, stripped, or nothing when all of them are blank. -/
theorem resolveLabelText_cases (labels : LabelMap) (commonLang : Text) :
    (∃ value ∈ labels.values, strip value = resolveLabelText labels commonLang ∧
      resolveLabelText labels commonLang ≠ []) ∨
    (∀ value ∈ labels.values, strip value = []) ∧ resolveLabelText labels commonLang = [] := by
  rw [resolveLabelText]
  split
  · rename_i text htext
    obtain ⟨key, -, hkey⟩ := List.exists_of_findSome?_eq_some htext
    obtain ⟨value, hvalue, htext⟩ := Option.bind_eq_some_iff.mp hkey
    exact .inl ⟨value, LabelMap.mem_values_of_get? hvalue, nonBlank_eq_some.mp htext⟩
  · cases hfirst : labels.values.findSome? nonBlank with
    | some text =>
      obtain ⟨value, hvalue, htext⟩ := List.exists_of_findSome?_eq_some hfirst
      exact .inl ⟨value, hvalue, nonBlank_eq_some.mp htext⟩
    | none =>
      refine .inr ⟨fun value hvalue ↦ ?_, rfl⟩
      exact nonBlank_eq_none.mp (List.findSome?_eq_none_iff.mp hfirst value hvalue)

/-! ## Phases and roles -/

/-- `contracts.api_types.Phase` -/
inductive Phase
  | onboarding
  | queued
  | speakingViewImage
  | speakingConfirmLabel
  | waitingPartner
  | guessing
  | roundResult
  | sessionDone
  deriving DecidableEq, Repr

/-- The role of a player in the latest turn. -/
inductive Role
  | speaker
  | guesser
  deriving DecidableEq, Repr

end Neva
