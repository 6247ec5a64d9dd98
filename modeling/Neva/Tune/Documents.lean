import Neva.Tune.Supervisor

/-!
# Documents with lone surrogates

`json.loads` answers what the escapes of a document say, also where they are one half of a
surrogate pair.  Python holds such a string as any other.  A pattern sees a symbol in it that is
none of those it looks for, and `datetime.fromisoformat` takes any symbol between the date and the
time; but UTF-8 has no way of writing the string (`writable`).

A `Content` is a value with such strings, and `Content.shown` what the patterns see of it, with
U+FFFD in the place of a lone surrogate.  `validateClaim` is `validate_request` for these values;
`shown_validateClaim` says that it is `validateRequest` of what is shown.
-/

set_option autoImplicit false

namespace Neva.Supervisor

/-! ## Strings -/

/-- A symbol of a Python string. -/
inductive Point
  | char (c : Char)
  /-- U+D800 and the 2047 that follow. -/
  | surrogate (n : Fin 2048)
  deriving DecidableEq

/-- A Python string. -/
abbrev Points := List Point

/-- A text as a Python string. -/
def points (text : Text) : Points := text.map .char

/-- U+FFFD -/
def replacement : Char := Char.ofNat 0xFFFD

/-- A symbol, as the patterns see it. -/
def Point.shown : Point → Char
  | .char c => c
  | .surrogate _ => replacement

/-- The string, as the patterns see it. -/
def shownText (s : Points) : Text := s.map Point.shown

/-- The string has a UTF-8 encoding. -/
def writable (s : Points) : Bool := s.all fun
  | .char _ => true
  | .surrogate _ => false

@[simp] theorem shownText_points (text : Text) : shownText (points text) = text := by
  rw [shownText, points, List.map_map]
  exact List.map_id text

@[simp] theorem writable_points (text : Text) : writable (points text) = true := by
  simp [writable, points]

/-- A text without U+FFFD is shown by itself only. -/
theorem shownText_eq_iff {s : Points} {text : Text} (h : replacement ∉ text) :
    shownText s = text ↔ s = points text := by
  constructor
  · rintro rfl
    rw [shownText, points, List.map_map]
    refine ((List.map_congr_left fun p hp ↦ ?_).trans (List.map_id s)).symm
    cases p with
    | char c => rfl
    | surrogate n => exact absurd (List.mem_map_of_mem hp) h
  · rintro rfl
    exact shownText_points text

/-! ## Values -/

/-- What `json.loads` answers. -/
inductive Content
  | null
  | bool (b : Bool)
  | num (n : Json.Number)
  | str (s : Points)
  | arr (items : List Content)
  | obj (members : List (Points × Content))

/-- A JSON object. -/
abbrev Members := List (Points × Content)

namespace Content

/-- `members.get(key)` -/
def lookup (members : Members) (key : Text) : Option Content :=
  (members.find? fun m ↦ m.1 == points key).map Prod.snd

mutual

/-- The value, as the patterns see it. -/
def shown : Content → Json
  | .null => .null
  | .bool b => .bool b
  | .num n => .num n
  | .str s => .str (shownText s)
  | .arr items => .arr (shownItems items)
  | .obj members => .obj (shownMembers members)

def shownItems : List Content → List Json
  | [] => []
  | v :: rest => v.shown :: shownItems rest

def shownMembers : Members → List (Text × Json)
  | [] => []
  | (key, v) :: rest => (shownText key, v.shown) :: shownMembers rest

end

mutual

/-- Every string of the value has an encoding. -/
def isWritable : Content → Bool
  | .str s => writable s
  | .arr items => itemsWritable items
  | .obj members => membersWritable members
  | _ => true

def itemsWritable : List Content → Bool
  | [] => true
  | v :: rest => v.isWritable && itemsWritable rest

def membersWritable : Members → Bool
  | [] => true
  | (key, v) :: rest => writable key && v.isWritable && membersWritable rest

end

@[simp] theorem isWritable_str (s : Points) : (str s).isWritable = Supervisor.writable s := by
  rw [isWritable]

theorem isWritable_of_lookup {members : Members} (h : membersWritable members = true) {key : Text}
    {v : Content} (hv : lookup members key = some v) : v.isWritable = true := by
  induction members with
  | nil => cases hv
  | cons m rest ih =>
    obtain ⟨name, value⟩ := m
    rw [membersWritable, Bool.and_eq_true, Bool.and_eq_true] at h
    rw [lookup, List.find?_cons] at hv
    split at hv
    · cases hv
      exact h.1.2
    · exact ih h.2 hv

/-- What is looked up in what is shown. -/
theorem lookup_shownMembers (members : Members) {key : Text} (hkey : replacement ∉ key) :
    Json.lookup (shownMembers members) key = (lookup members key).map shown := by
  induction members with
  | nil => rfl
  | cons m rest ih =>
    obtain ⟨name, value⟩ := m
    have hname : (shownText name == key) = (name == points key) := by
      rw [Bool.eq_iff_iff, beq_iff_eq, beq_iff_eq, shownText_eq_iff hkey]
    rw [shownMembers, Json.lookup, lookup, List.find?_cons, List.find?_cons, hname]
    cases name == points key with
    | true => rfl
    | false => exact ih

/-- The string at a key; nothing if there is none. -/
def textAt (members : Members) (key : Text) : Points :=
  match lookup members key with
  | some (.str s) => s
  | _ => []

theorem shownText_textAt {members : Members} {key value : Text} (hkey : replacement ∉ key)
    (h : Json.lookup (shownMembers members) key = some (.str value)) :
    shownText (textAt members key) = value := by
  rw [lookup_shownMembers members hkey, Option.map_eq_some_iff] at h
  obtain ⟨v, hv, hshown⟩ := h
  cases v with
  | str s =>
    rw [textAt, hv]
    rw [shown] at hshown
    exact Json.str.inj hshown
  | _ => simp [shown] at hshown

end Content

/-! ## Bounded texts -/

/-- `ABSOLUTE_PATH_PATTERN.sub("[redacted-path]", …)`, from a place that is in a match or not. -/
def redactPoints (previous : Option Char) (inMatch : Bool) : Points → Points
  | [] => []
  | p :: rest =>
    if inMatch && !isSpace p.shown then redactPoints (some p.shown) true rest
    else if pathBegins previous (shownText (p :: rest)) then
      points "[redacted-path]".toList ++ redactPoints (some p.shown) true rest
    else p :: redactPoints (some p.shown) false rest

/-- `bounded_text` -/
def boundedPoints (value : Points) (limit : ℕ) : Points :=
  (redactPoints none false (oneLine (fun p ↦ isSpace p.shown) (.char ' ') value)).take limit

theorem shownText_redactPoints (previous : Option Char) (inMatch : Bool) (s : Points) :
    shownText (redactPoints previous inMatch s) = redactPaths previous inMatch (shownText s) := by
  induction s generalizing previous inMatch with
  | nil => rfl
  | cons p s ih =>
    have hcons : shownText (p :: s) = p.shown :: shownText s := rfl
    rw [redactPoints, hcons, redactPaths]
    split
    · exact ih _ _
    · split
      · rw [← ih, ← shownText_points "[redacted-path]".toList]
        exact List.map_append
      · exact congrArg _ (ih _ _)

theorem shownText_boundedPoints (s : Points) (limit : ℕ) :
    shownText (boundedPoints s limit) = boundedText (shownText s) limit := by
  have hline : shownText (oneLine (fun p ↦ isSpace p.shown) (.char ' ') s) =
      oneLine isSpace ' ' (shownText s) := oneLine_map Point.shown (.char ' ') s
  rw [boundedText, ← hline, ← shownText_redactPoints]
  exact List.map_take

/-! ## Requests -/

/-- A request that has been validated, with the strings it came with. -/
structure ClaimedRequest where
  jobId : Text
  createdAt : Points
  /-- `upload_name` and `native_language`. -/
  live : Option (Text × Points)

/-- The request, as the patterns see it. -/
def ClaimedRequest.shown (request : ClaimedRequest) : SupervisorRequest :=
  ⟨request.jobId, shownText request.createdAt, request.live.map fun l ↦ (l.1, shownText l.2)⟩

/-- `validate_request`.  Whether a request is valid is seen from what is shown of it; the time and
the language are passed on as they are. -/
def validateClaim (py : Python) (payload : Members) (source : Text) :
    Except Text ClaimedRequest :=
  (validateRequest py (Content.shownMembers payload) source).map fun request ↦
    { jobId := request.jobId
      createdAt := Content.textAt payload "created_at".toList
      live := request.live.map fun l ↦
        (l.1, boundedPoints (Content.textAt payload "native_language".toList) maxLanguageChars) }

theorem lookup_of_parseCreatedAt {py : Python} {value : Option Json} {createdAt : Text}
    (h : parseCreatedAt py value = .ok createdAt) : value = some (.str createdAt) := by
  unfold parseCreatedAt at h
  split at h
  · split at h
    · cases h
    · cases h
    · cases h
      rfl
  · cases h

theorem lookup_of_parseLanguage {value : Option Json} {language : Text}
    (h : parseLanguage value = .ok language) :
    ∃ raw, value = some (.str raw) ∧ boundedText raw maxLanguageChars = language := by
  unfold parseLanguage at h
  split at h
  · split at h
    · cases h
    · cases h
      exact ⟨_, rfl, rfl⟩
  · cases h

/-- Where the time and the language of a valid request come from. -/
theorem fields_of_validateRequest {py : Python} {payload : List (Text × Json)} {source : Text}
    {request : SupervisorRequest} (h : validateRequest py payload source = .ok request) :
    Json.lookup payload "created_at".toList = some (.str request.createdAt) ∧
      ∀ uploadName language, request.live = some (uploadName, language) →
        ∃ raw, Json.lookup payload "native_language".toList = some (.str raw) ∧
          boundedText raw maxLanguageChars = language := by
  obtain ⟨jobId, -, h⟩ := Raising.bind_eq_ok.mp h
  dsimp only at h
  split at h
  · cases h
  · obtain ⟨isLive, -, h⟩ := Raising.bind_eq_ok.mp h
    obtain ⟨createdAt, hcreated, h⟩ := Raising.bind_eq_ok.mp h
    have hcreated := lookup_of_parseCreatedAt hcreated
    split at h
    · obtain ⟨uploadName, -, h⟩ := Raising.bind_eq_ok.mp h
      obtain ⟨language, hlanguage, h⟩ := Raising.bind_eq_ok.mp h
      split at h
      · cases h
      · cases h
        refine ⟨hcreated, fun u l heq ↦ ?_⟩
        cases heq
        exact lookup_of_parseLanguage hlanguage
    · split at h
      · cases h
      · cases h
        exact ⟨hcreated, fun u l heq ↦ by cases heq⟩

theorem shown_validateClaim (py : Python) (payload : Members) (source : Text) :
    (validateClaim py payload source).map ClaimedRequest.shown =
      validateRequest py (Content.shownMembers payload) source := by
  rw [validateClaim]
  cases hrequest : validateRequest py (Content.shownMembers payload) source with
  | error e => rfl
  | ok request =>
    obtain ⟨hcreated, hlive⟩ := fields_of_validateRequest hrequest
    have hcreatedAt := Content.shownText_textAt (by decide) hcreated
    refine congrArg Except.ok ?_
    obtain ⟨jobId, createdAt, live⟩ := request
    cases live with
    | none =>
      show SupervisorRequest.mk jobId (shownText _) none = _
      rw [hcreatedAt]
    | some l =>
      obtain ⟨language, hlanguage, hbounded⟩ := hlive l.1 l.2 rfl
      have hshown := Content.shownText_textAt (by decide) hlanguage
      show SupervisorRequest.mk jobId (shownText _) (some (l.1, shownText _)) = _
      rw [hcreatedAt, shownText_boundedPoints, hshown, hbounded]

end Neva.Supervisor
