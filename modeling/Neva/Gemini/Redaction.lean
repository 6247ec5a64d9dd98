import Neva.Json.Indented
import Neva.Schema

/-!
# What logs and traces show

`sanitize_for_log` of `app/gemini_client.py` and `redact_admin_meta` of `app/admin_ops/redaction.py`
take the payload out of a value before it is logged or shown.  Both go through nested mappings and
lists, and decide by the key a value stands under; inside a list there is no key.

`Alike` relates two values that differ only in what is to be hidden: strings below certain keys
and, for the log, contents of binary values.  `sanitizeForLog_eq` and `redactAdminMeta_eq` go
through both values at once, and find no difference: where a key hides a value nothing below it is
looked at, and where it does not, no string may differ yet.
-/

set_option autoImplicit false

namespace Neva.Redaction

/-! ## Values -/

/-- The types of a binary value. -/
inductive BinaryType
  | bytes
  | bytearray
  | memoryview
  deriving DecidableEq

/-- A value to be logged. -/
inductive Value
  | null
  | bool (b : Bool)
  | int (n : ℤ)
  /-- A float, by its bits. -/
  | float (bits : UInt64)
  | str (s : Text)
  | binary (type : BinaryType) (data : Bytes)
  | mediaBlob (data : Bytes) (mimeType : Text)
  | list (items : List Value)
  | dict (members : List (Text × Value))

/-- `type(value).__name__` -/
def Value.typeName : Value → Text
  | .null => "NoneType".toList
  | .bool _ => "bool".toList
  | .int _ => "int".toList
  | .float _ => "float".toList
  | .str _ => "str".toList
  | .binary .bytes _ => "bytes".toList
  | .binary .bytearray _ => "bytearray".toList
  | .binary .memoryview _ => "memoryview".toList
  | .mediaBlob _ _ => "MediaBlob".toList
  | .list _ => "list".toList
  | .dict _ => "dict".toList

/-- A dictionary with the names as they are written. -/
def fields (members : List (String × Value)) : Value :=
  .dict (members.map fun m ↦ (m.1.toList, m.2))

def ofLength (n : ℕ) : Value := .int n

/-- `sorted(str(k) for k in value.keys())` -/
def sortedKeys (members : List (Text × Value)) : Value :=
  .list (((members.map Prod.fst).mergeSort Json.nameLe).map .str)

/-- `frag in key` -/
def containsText (key frag : Text) : Bool := decide (frag <:+: key)

/-! ## The log -/

/-- Keys whose values must never appear in logs. -/
def secretKeyFragments : List Text :=
  ["api_key".toList, "apikey".toList, "authorization".toList, "password".toList, "secret".toList,
    "token".toList, "credential".toList]

/-- Keys that typically hold inline media. -/
def mediaKeyFragments : List Text :=
  ["image_bytes".toList, "inline_data".toList, "data".toList, "audio".toList, "base64".toList,
    "blob".toList, "bytes".toList, "file_data".toList]

def base64Alphabet : Text :=
  "ABCDEFGHIJKLMNOPQRSTUVWXYZabcdefghijklmnopqrstuvwxyz0123456789+/=".toList

/-- Long strings without spaces may be base64 media. -/
def looksLikeBase64 (text : Text) : Bool :=
  if text.length < 256 || (text.take 64).contains ' ' then false
  else ((text.take 80).filter fun c ↦ c != '\n').all fun c ↦ base64Alphabet.contains c

section

-- `str.lower`, of which nothing is asked
variable (lower : Text → Text)

def isSecretKey (key : Text) : Bool := secretKeyFragments.any (containsText (lower key))

def isMediaKey (key : Text) : Bool := mediaKeyFragments.any (containsText (lower key))

mutual

/-- Recursively redact secrets and inline media.  `key` is the key of the parent mapping. -/
def sanitizeForLog (key : Option Text) : Value → Value
  | .str s =>
    if key.any (isSecretKey lower) then
      fields [("redacted", .bool true), ("length", ofLength s.length)]
    else if key.any (isMediaKey lower) then
      fields [("type", .str "media_string".toList), ("char_length", ofLength s.length),
        ("looks_base64", .bool (looksLikeBase64 s))]
    else if 4000 < s.length then
      fields [("type", .str "str".toList), ("char_length", ofLength s.length),
        ("preview", .str (s.take 256))]
    else .str s
  | .binary type data =>
    if key.any (isSecretKey lower) then
      fields [("redacted", .bool true), ("type", .str (Value.binary type data).typeName)]
    else fields [("type", .str "bytes".toList), ("byte_length", ofLength data.length)]
  | .mediaBlob data mimeType =>
    if key.any (isSecretKey lower) then
      fields [("redacted", .bool true), ("type", .str "MediaBlob".toList)]
    else
      fields [("type", .str "MediaBlob".toList), ("mime_type", .str mimeType),
        ("byte_length", ofLength data.length)]
  | .dict members =>
    if key.any (isSecretKey lower) then
      fields [("redacted", .bool true), ("type", .str "dict".toList)]
    else if key.any (isMediaKey lower) then
      fields [("type", .str "dict".toList), ("keys", sortedKeys members)]
    else .dict (sanitizeMembers members)
  | .list items =>
    if key.any (isSecretKey lower) then
      fields [("redacted", .bool true), ("type", .str "list".toList)]
    else if key.any (isMediaKey lower) then
      fields [("type", .str "list".toList), ("redacted_media", .bool true)]
    else .list (sanitizeItems items)
  | value =>
    if key.any (isSecretKey lower) then
      fields [("redacted", .bool true), ("type", .str value.typeName)]
    else if key.any (isMediaKey lower) then
      fields [("type", .str value.typeName), ("redacted_media", .bool true)]
    else value

/-- `[sanitize_for_log(item) for item in value]` -/
def sanitizeItems : List Value → List Value
  | [] => []
  | v :: rest => sanitizeForLog none v :: sanitizeItems rest

/-- `{str(k): sanitize_for_log(v, _key=str(k)) for k, v in value.items()}` -/
def sanitizeMembers : List (Text × Value) → List (Text × Value)
  | [] => []
  | (k, v) :: rest => (k, sanitizeForLog (some k) v) :: sanitizeMembers rest

end

/-! ## The traces -/

def adminPromptPreviewChars : ℕ := 0

def adminMetaStringMaxChars : ℕ := 120

def promptKeys : List Text :=
  ["prompt".toList, "contents".toList, "text".toList, "input_text".toList, "message".toList]

def secretFragments : List Text :=
  ["key".toList, "token".toList, "secret".toList, "password".toList, "authorization".toList,
    "credential".toList]

def mediaFragments : List Text :=
  ["audio".toList, "image".toList, "bytes".toList, "base64".toList, "data".toList, "blob".toList,
    "flac".toList, "webm".toList]

def isAdminSecretKey (key : Text) : Bool := secretFragments.any (containsText (lower key))

def isPromptKey (key : Text) : Bool := promptKeys.contains (lower key)

def isAdminMediaKey (key : Text) : Bool := mediaFragments.any (containsText (lower key))

/-- What is shown of a prompt. -/
def redactedPrompt (s : Text) : Value :=
  if 0 < adminPromptPreviewChars then
    fields [("redacted", .bool true), ("char_length", ofLength s.length),
      ("preview", .str (s.take adminPromptPreviewChars))]
  else fields [("redacted", .bool true), ("char_length", ofLength s.length)]

mutual

/-- A privacy-preserving copy of stored call metadata. -/
def redactAdminMeta (key : Option Text) : Value → Value
  | .str s =>
    if key.any (isAdminSecretKey lower) then
      fields [("redacted", .bool true), ("length", ofLength s.length)]
    else if key.any (isPromptKey lower) then redactedPrompt s
    else if key.any (isAdminMediaKey lower) then
      fields [("type", .str "media_string".toList), ("char_length", ofLength s.length)]
    else if adminMetaStringMaxChars < s.length then
      fields [("type", .str "str".toList), ("char_length", ofLength s.length),
        ("preview", .str (s.take adminMetaStringMaxChars))]
    else .str s
  | .dict members =>
    if key.any (isAdminSecretKey lower) then
      fields [("redacted", .bool true), ("type", .str "dict".toList)]
    else if key.any (isPromptKey lower) then
      fields [("redacted", .bool true), ("type", .str "dict".toList), ("keys", sortedKeys members)]
    else if key.any (isAdminMediaKey lower) then
      fields [("type", .str "dict".toList), ("redacted_media", .bool true)]
    else .dict (redactMembers members)
  | .list items =>
    if key.any (isAdminSecretKey lower) || key.any (isPromptKey lower) then
      fields [("redacted", .bool true), ("type", .str "list".toList)]
    else if key.any (isAdminMediaKey lower) then
      fields [("type", .str "list".toList), ("redacted_media", .bool true)]
    else .list (redactItems items)
  | .binary type data =>
    if key.any (isAdminSecretKey lower) || key.any (isPromptKey lower) then
      fields [("redacted", .bool true), ("type", .str (Value.binary type data).typeName)]
    else if key.any (isAdminMediaKey lower) then
      fields [("type", .str "bytes".toList), ("byte_length", ofLength data.length)]
    else
      match type with
      | .memoryview => .list (data.map fun b ↦ .int b.toNat)
      | _ => fields [("type", .str (Value.binary type data).typeName)]
  | .mediaBlob data mimeType =>
    if key.any (isAdminSecretKey lower) || key.any (isPromptKey lower) then
      fields [("redacted", .bool true), ("type", .str (Value.mediaBlob data mimeType).typeName)]
    else if key.any (isAdminMediaKey lower) then
      fields [("type", .str (Value.mediaBlob data mimeType).typeName),
        ("redacted_media", .bool true)]
    else fields [("type", .str (Value.mediaBlob data mimeType).typeName)]
  | value =>
    if key.any (isAdminSecretKey lower) || key.any (isPromptKey lower) then
      fields [("redacted", .bool true), ("type", .str value.typeName)]
    else if key.any (isAdminMediaKey lower) then
      fields [("type", .str value.typeName), ("redacted_media", .bool true)]
    else value

/-- `[redact_admin_meta(item) for item in value]` -/
def redactItems : List Value → List Value
  | [] => []
  | v :: rest => redactAdminMeta none v :: redactItems rest

/-- `{str(k): redact_admin_meta(v, _key=str(k)) for k, v in value.items()}` -/
def redactMembers : List (Text × Value) → List (Text × Value)
  | [] => []
  | (k, v) :: rest => (k, redactAdminMeta (some k) v) :: redactMembers rest

end

end

/-! ## Values that differ in payload only -/

section

variable (hides : Text → Bool) (binaryToo : Bool)

mutual

/-- The values have one shape, and differ only in strings of equal length below keys that are to
be hidden and, if `binaryToo` is set, in binary contents of equal length.  The first argument says
that the values stand below such a key. -/
inductive Alike : Bool → Value → Value → Prop
  | same (below : Bool) (v : Value) : Alike below v v
  | str {s s' : Text} (h : s.length = s'.length) : Alike true (.str s) (.str s')
  | binary (below : Bool) (type : BinaryType) {data data' : Bytes} (too : binaryToo = true)
      (h : data.length = data'.length) : Alike below (.binary type data) (.binary type data')
  | mediaBlob (below : Bool) (mimeType : Text) {data data' : Bytes} (too : binaryToo = true)
      (h : data.length = data'.length) :
      Alike below (.mediaBlob data mimeType) (.mediaBlob data' mimeType)
  | list {below : Bool} {items items' : List Value} (h : AlikeItems below items items') :
      Alike below (.list items) (.list items')
  | dict {below : Bool} {members members' : List (Text × Value)}
      (h : AlikeMembers below members members') : Alike below (.dict members) (.dict members')

inductive AlikeItems : Bool → List Value → List Value → Prop
  | nil (below : Bool) : AlikeItems below [] []
  | cons {below : Bool} {v v' : Value} {rest rest' : List Value} (hv : Alike below v v')
      (hrest : AlikeItems below rest rest') : AlikeItems below (v :: rest) (v' :: rest')

inductive AlikeMembers : Bool → List (Text × Value) → List (Text × Value) → Prop
  | nil (below : Bool) : AlikeMembers below [] []
  | cons {below : Bool} (k : Text) {v v' : Value} {rest rest' : List (Text × Value)}
      (hv : Alike (below || hides k) v v') (hrest : AlikeMembers below rest rest') :
      AlikeMembers below ((k, v) :: rest) ((k, v') :: rest')

end

end

/-! ## What is shown of them -/

section

variable {hides : Text → Bool} {binaryToo : Bool}

/-- The shape of a mapping includes its keys. -/
theorem AlikeMembers.keys_eq {below : Bool} {members members' : List (Text × Value)}
    (h : AlikeMembers hides binaryToo below members members') :
    members.map Prod.fst = members'.map Prod.fst := by
  induction members generalizing members' with
  | nil =>
    cases h
    rfl
  | cons m rest ih =>
    cases h with
    | cons k hv hrest => rw [List.map_cons, List.map_cons, ih hrest]

theorem AlikeMembers.sortedKeys_eq {below : Bool} {members members' : List (Text × Value)}
    (h : AlikeMembers hides binaryToo below members members') :
    sortedKeys members = sortedKeys members' := by
  rw [sortedKeys, sortedKeys, h.keys_eq]

end

section

variable (lower : Text → Text)

mutual

/-- **The log shows nothing of a payload.** -/
theorem sanitizeForLog_eq {below : Bool} {v v' : Value} (key : Option Text)
    (h : Alike (isSecretKey lower) true below v v')
    (hkey : below = true → key.any (isSecretKey lower) = true) :
    sanitizeForLog lower key v = sanitizeForLog lower key v' := by
  match h with
  | .same _ _ => rfl
  | .str hlength =>
    rw [sanitizeForLog, sanitizeForLog, if_pos (hkey rfl), if_pos (hkey rfl), hlength]
  | .binary _ type _ hlength =>
    rw [sanitizeForLog, sanitizeForLog, hlength]
    cases type <;> rfl
  | .mediaBlob _ mimeType _ hlength => rw [sanitizeForLog, sanitizeForLog, hlength]
  | .list hitems =>
    rw [sanitizeForLog, sanitizeForLog]
    by_cases hsecret : key.any (isSecretKey lower) = true
    · rw [if_pos hsecret, if_pos hsecret]
    · rw [sanitizeItems_eq hitems fun hb ↦ hsecret (hkey hb)]
  | .dict hmembers =>
    rw [sanitizeForLog, sanitizeForLog, hmembers.sortedKeys_eq]
    by_cases hsecret : key.any (isSecretKey lower) = true
    · rw [if_pos hsecret, if_pos hsecret]
    · rw [sanitizeMembers_eq hmembers fun hb ↦ hsecret (hkey hb)]

theorem sanitizeItems_eq {below : Bool} {items items' : List Value}
    (h : AlikeItems (isSecretKey lower) true below items items') (hbelow : ¬below = true) :
    sanitizeItems lower items = sanitizeItems lower items' := by
  match h with
  | .nil _ => rfl
  | .cons hv hrest =>
    rw [sanitizeItems, sanitizeItems, sanitizeItems_eq hrest hbelow,
      sanitizeForLog_eq none hv fun hb ↦ absurd hb hbelow]

theorem sanitizeMembers_eq {below : Bool} {members members' : List (Text × Value)}
    (h : AlikeMembers (isSecretKey lower) true below members members') (hbelow : ¬below = true) :
    sanitizeMembers lower members = sanitizeMembers lower members' := by
  match h with
  | .nil _ => rfl
  | .cons k hv hrest =>
    rw [sanitizeMembers, sanitizeMembers, sanitizeMembers_eq hrest hbelow,
      sanitizeForLog_eq (some k) hv fun hb ↦ by simpa [hbelow] using hb]

end

/-- The keys whose values a trace hides: secrets, prompts and media. -/
def isHiddenKey (key : Text) : Bool :=
  isAdminSecretKey lower key || isPromptKey lower key || isAdminMediaKey lower key

theorem any_isHiddenKey {key : Option Text} : key.any (isHiddenKey lower) =
    (key.any (isAdminSecretKey lower) || key.any (isPromptKey lower) ||
      key.any (isAdminMediaKey lower)) := by
  cases key <;> rfl

/-- No part of a prompt is shown. -/
theorem redactedPrompt_eq {s s' : Text} (h : s.length = s'.length) :
    redactedPrompt s = redactedPrompt s' := by
  rw [redactedPrompt, redactedPrompt, if_neg (by decide), if_neg (by decide), h]

mutual

/-- **A trace shows nothing of a payload.** -/
theorem redactAdminMeta_eq {below : Bool} {v v' : Value} (key : Option Text)
    (h : Alike (isHiddenKey lower) false below v v')
    (hkey : below = true → key.any (isHiddenKey lower) = true) :
    redactAdminMeta lower key v = redactAdminMeta lower key v' := by
  match h with
  | .same _ _ => rfl
  | .str hlength =>
    have hhidden := hkey rfl
    rw [any_isHiddenKey, Bool.or_eq_true, Bool.or_eq_true] at hhidden
    rw [redactAdminMeta, redactAdminMeta, hlength, redactedPrompt_eq hlength]
    rcases hhidden with (hsecret | hprompt) | hmedia
    · rw [if_pos hsecret, if_pos hsecret]
    · rw [if_pos hprompt, if_pos hprompt]
    · rw [if_pos hmedia, if_pos hmedia]
  | .list hitems =>
    rw [redactAdminMeta, redactAdminMeta]
    by_cases hshown : (key.any (isAdminSecretKey lower) || key.any (isPromptKey lower)) = true
    · rw [if_pos hshown, if_pos hshown]
    by_cases hmedia : key.any (isAdminMediaKey lower) = true
    · rw [if_neg hshown, if_neg hshown, if_pos hmedia, if_pos hmedia]
    · have hbelow : ¬below = true := fun hb ↦ by
        have := hkey hb
        simp_all [any_isHiddenKey]
      rw [redactItems_eq hitems hbelow]
  | .dict hmembers =>
    rw [redactAdminMeta, redactAdminMeta, hmembers.sortedKeys_eq]
    by_cases hhidden : key.any (isHiddenKey lower) = true
    · rw [any_isHiddenKey, Bool.or_eq_true, Bool.or_eq_true] at hhidden
      rcases hhidden with (hsecret | hprompt) | hmedia
      · rw [if_pos hsecret, if_pos hsecret]
      · rw [if_pos hprompt, if_pos hprompt]
      · rw [if_pos hmedia, if_pos hmedia]
    · rw [redactMembers_eq hmembers fun hb ↦ hhidden (hkey hb)]

theorem redactItems_eq {below : Bool} {items items' : List Value}
    (h : AlikeItems (isHiddenKey lower) false below items items') (hbelow : ¬below = true) :
    redactItems lower items = redactItems lower items' := by
  match h with
  | .nil _ => rfl
  | .cons hv hrest =>
    rw [redactItems, redactItems, redactItems_eq hrest hbelow,
      redactAdminMeta_eq none hv fun hb ↦ absurd hb hbelow]

theorem redactMembers_eq {below : Bool} {members members' : List (Text × Value)}
    (h : AlikeMembers (isHiddenKey lower) false below members members') (hbelow : ¬below = true) :
    redactMembers lower members = redactMembers lower members' := by
  match h with
  | .nil _ => rfl
  | .cons k hv hrest =>
    rw [redactMembers, redactMembers, redactMembers_eq hrest hbelow,
      redactAdminMeta_eq (some k) hv fun hb ↦ by simpa [hbelow] using hb]

end

/-- **Logs and traces do not reveal payloads.**  Values that differ in binary contents of one
length, or in strings of one length below secret keys, are logged alike; values that differ in
strings of one length below prompt, secret or media keys are shown alike. -/
theorem payload_hidden :
    (∀ v v', Alike (isSecretKey lower) true false v v' →
      sanitizeForLog lower none v = sanitizeForLog lower none v') ∧
    (∀ v v', Alike (isHiddenKey lower) false false v v' →
      redactAdminMeta lower none v = redactAdminMeta lower none v') :=
  ⟨fun _ _ h ↦ sanitizeForLog_eq lower none h fun hb ↦ absurd hb (by decide),
    fun _ _ h ↦ redactAdminMeta_eq lower none h fun hb ↦ absurd hb (by decide)⟩

end

/-- A call with a token, and a recording below a prompt. -/
def callMeta (token prompt : Text) : Value :=
  .dict [("Api_Token".toList, .str token), ("contents".toList, .list [.str prompt])]

theorem payload_hidden_kite :
    sanitizeForLog (List.map Char.toLower) none
        (.dict [("token".toList, .str "abc".toList), ("part".toList, .binary .bytes [1, 2])]) =
      sanitizeForLog (List.map Char.toLower) none
        (.dict [("token".toList, .str "xyz".toList), ("part".toList, .binary .bytes [3, 4])]) ∧
    redactAdminMeta (List.map Char.toLower) none (callMeta "abc".toList "kite".toList) =
      redactAdminMeta (List.map Char.toLower) none (callMeta "xyz".toList "drum".toList) := by
  have htoken : (false || isSecretKey (List.map Char.toLower) "token".toList) = true := by decide
  have hsecret : (false || isHiddenKey (List.map Char.toLower) "Api_Token".toList) = true := by
    decide
  have hprompt : (false || isHiddenKey (List.map Char.toLower) "contents".toList) = true := by
    decide
  constructor
  · exact (payload_hidden (List.map Char.toLower)).1 _ _ (.dict (.cons _ (htoken ▸ .str rfl)
      (.cons _ (.binary _ _ rfl rfl) (.nil _))))
  · exact (payload_hidden (List.map Char.toLower)).2 _ _ (.dict (.cons _ (hsecret ▸ .str rfl)
      (.cons _ (hprompt ▸ .list (.cons (.str rfl) (.nil _))) (.nil _))))

end Neva.Redaction
