import Neva.Json.Value

/-!
# Reading JSON

`Json.loads` reads a text one character at a time.  A `Json.State` is what has been read so far:
the arrays and objects that are still open, innermost first, and the place inside the innermost
one.  `State.step` takes the next character, or none when no JSON text goes on like this.  Reading
by steps makes it plain what follows a text that is cut off: `State.feed` of a text in two parts
is `State.feed` of the one after the other.

The language is the one of Python's `json.loads`: control characters may not stand in a string,
`NaN` and the infinities are numbers, a repeated name keeps its first place and takes the last
value.  A `\u` escape of half a surrogate pair stands for no character, and is not accepted.

`feed_dumps` is the round trip: the text of a value, read where a value is expected, is that
value.
-/

set_option autoImplicit false

namespace Json

/-! ## The machine -/

/-- What may stand between two tokens. -/
def isBlank (c : Char) : Bool := c == ' ' || c == '\t' || c == '\n' || c == '\r'

/-- An array or object that is still open, with what it contains so far, newest first. -/
inductive Frame
  | arr (items : List Json)
  /-- `name` is the name whose value is being read. -/
  | obj (members : List (List Char × Json)) (name : Option (List Char))

/-- Where the reading stands. -/
inductive Mode
  /-- A value must follow; right after `[` the array may also end. -/
  | value (first : Bool)
  /-- A name must follow; right after `{` the object may also end. -/
  | name (first : Bool)
  | colon
  /-- A value has ended. -/
  | after
  /-- Inside a number or the name of a constant, read backwards. -/
  | atom (read : List Char)
  /-- Inside a string, read backwards. -/
  | str (isName : Bool) (read : List Char)
  /-- After a backslash. -/
  | esc (isName : Bool) (read : List Char)
  /-- `left` hexadecimal digits of an escape are missing; `high` is the first half of a pair. -/
  | hex (isName : Bool) (read : List Char) (left code : ℕ) (high : Option ℕ)
  /-- After the first half of a pair: a backslash, or the `u` after it. -/
  | low (isName : Bool) (read : List Char) (high : ℕ) (slash : Bool)

/-- What has been read. -/
inductive State
  | run (stack : List Frame) (mode : Mode)
  /-- The text was a value, and may only go on with blanks. -/
  | done (value : Json)

/-- The value an atom is. -/
def atomValue (s : List Char) : Option Json :=
  if s = ['n', 'u', 'l', 'l'] then some .null
  else if s = ['t', 'r', 'u', 'e'] then some (.bool true)
  else if s = ['f', 'a', 'l', 's', 'e'] then some (.bool false)
  else if h : isNumeral s = true then some (.num ⟨s, h⟩)
  else none

/-- The value of a hexadecimal digit. -/
def hexValue (c : Char) : Option ℕ :=
  if isDigit c then some (c.toNat - 48)
  else if 'a'.toNat ≤ c.toNat ∧ c.toNat ≤ 'f'.toNat then some (c.toNat - 87)
  else if 'A'.toNat ≤ c.toNat ∧ c.toNat ≤ 'F'.toNat then some (c.toNat - 55)
  else none

/-- The character a short escape stands for. -/
def unescape (c : Char) : Option Char :=
  if c = '"' ∨ c = '\\' ∨ c = '/' then some c
  else if c = 'n' then some '\n'
  else if c = 'r' then some '\r'
  else if c = 't' then some '\t'
  else if c = 'b' then some (Char.ofNat 8)
  else if c = 'f' then some (Char.ofNat 12)
  else none

namespace State

/-- A value has ended. -/
def finish (value : Json) : List Frame → Option State
  | [] => some (done value)
  | .arr items :: stack => some (run (.arr (value :: items) :: stack) .after)
  | .obj members (some name) :: stack =>
    some (run (.obj ((name, value) :: members) none :: stack) .after)
  | .obj _ none :: _ => none

/-- A string has ended. -/
def finishString (isName : Bool) (read : List Char) (stack : List Frame) : Option State :=
  if isName then
    match stack with
    | .obj members _ :: stack => some (run (.obj members (some read.reverse) :: stack) .colon)
    | _ => none
  else finish (.str read.reverse) stack

/-- The first character of a value. -/
def openValue (c : Char) (stack : List Frame) : Option State :=
  if c = '"' then some (run stack (.str false []))
  else if c = '[' then some (run (.arr [] :: stack) (.value true))
  else if c = '{' then some (run (.obj [] none :: stack) (.name true))
  else if isAtomChar c then some (run stack (.atom [c]))
  else none

/-- The first character after a value. -/
def close (c : Char) : List Frame → Option State
  | .arr items :: stack =>
    if c = ',' then some (run (.arr items :: stack) (.value false))
    else if c = ']' then finish (.arr items.reverse) stack
    else none
  | .obj members name :: stack =>
    if c = ',' then some (run (.obj members name :: stack) (.name false))
    else if c = '}' then finish (.obj (dict members.reverse)) stack
    else none
  | [] => none

/-- The escape with the code `code` is complete. -/
def finishHex (isName : Bool) (read : List Char) (stack : List Frame) (code : ℕ) :
    Option ℕ → Option State
  | none =>
    if 0xD800 ≤ code ∧ code ≤ 0xDBFF then some (run stack (.low isName read code false))
    else if 0xDC00 ≤ code ∧ code ≤ 0xDFFF then none
    else some (run stack (.str isName (Char.ofNat code :: read)))
  | some high =>
    if 0xDC00 ≤ code ∧ code ≤ 0xDFFF then
      some (run stack (.str isName
        (Char.ofNat (0x10000 + (high - 0xD800) * 0x400 + (code - 0xDC00)) :: read)))
    else none

/-- After a value: blanks, or what ends it. -/
def stepAfter (c : Char) : State → Option State
  | done v => if isBlank c then some (done v) else none
  | run stack _ => if isBlank c then some (run stack .after) else close c stack

/-- The next character. -/
def step (c : Char) : State → Option State
  | done v => stepAfter c (done v)
  | run stack .after => stepAfter c (run stack .after)
  | run stack (.value first) =>
    if isBlank c then some (run stack (.value first))
    else if first && c == ']' then close c stack
    else openValue c stack
  | run stack (.name first) =>
    if isBlank c then some (run stack (.name first))
    else if first && c == '}' then close c stack
    else if c = '"' then some (run stack (.str true []))
    else none
  | run stack .colon =>
    if isBlank c then some (run stack .colon)
    else if c = ':' then some (run stack (.value false))
    else none
  | run stack (.atom read) =>
    if isAtomChar c then some (run stack (.atom (c :: read)))
    else (atomValue read.reverse).bind fun v ↦ (finish v stack).bind (stepAfter c)
  | run stack (.str isName read) =>
    if c = '"' then finishString isName read stack
    else if c = '\\' then some (run stack (.esc isName read))
    else if c.toNat < 32 then none
    else some (run stack (.str isName (c :: read)))
  | run stack (.esc isName read) =>
    if c = 'u' then some (run stack (.hex isName read 4 0 none))
    else (unescape c).map fun c ↦ run stack (.str isName (c :: read))
  | run stack (.hex isName read left code high) =>
    (hexValue c).bind fun n ↦
      if left ≤ 1 then finishHex isName read stack (code * 16 + n) high
      else some (run stack (.hex isName read (left - 1) (code * 16 + n) high))
  | run stack (.low isName read high slash) =>
    if !slash && c == '\\' then some (run stack (.low isName read high true))
    else if slash && c == 'u' then some (run stack (.hex isName read 4 0 (some high)))
    else none

/-- Several characters. -/
def feed (s : State) (text : List Char) : Option State := text.foldlM (fun s c ↦ step c s) s

/-- The value, at the end of the text. -/
def result : State → Option Json
  | done v => some v
  | run [] (.atom read) => atomValue read.reverse
  | _ => none

/-- Before the first character. -/
def start : State := run [] (.value false)

@[simp] theorem feed_nil (s : State) : s.feed [] = some s := rfl

theorem feed_cons (s : State) (c : Char) (text : List Char) :
    s.feed (c :: text) = (s.step c).bind (·.feed text) := List.foldlM_cons

theorem feed_append (s : State) (a b : List Char) :
    s.feed (a ++ b) = (s.feed a).bind (·.feed b) := List.foldlM_append

end State

/-- `json.loads`, none when it raises a `JSONDecodeError`. -/
def loads (text : List Char) : Option Json := (State.start.feed text).bind State.result

/-! ## Strings -/

namespace State

variable {stack : List Frame} {isName : Bool} {read : List Char}

theorem hexValue_hexDigit : ∀ n < 16, hexValue (hexDigit n) = some n := by decide

/-- A character that needs no escape. -/
theorem step_plain {c : Char} (hquote : c ≠ '"') (hslash : c ≠ '\\') (hcontrol : ¬ c.toNat < 32) :
    (run stack (.str isName read)).step c = some (run stack (.str isName (c :: read))) := by
  rw [step, if_neg hquote, if_neg hslash, if_neg hcontrol]

/-- An escape with a letter. -/
theorem feed_escape {c d : Char} (hd : unescape d = some c) (hu : d ≠ 'u') :
    (run stack (.str isName read)).feed ['\\', d] = some (run stack (.str isName (c :: read))) := by
  simp [feed_cons, step, hd, hu]

/-- What `escape` writes for a character is read as that character. -/
theorem feed_escape_char (c : Char) :
    (run stack (.str isName read)).feed (escape c) =
      some (run stack (.str isName (c :: read))) := by
  rw [escape]
  by_cases hquote : c = '"'
  · subst hquote
    exact feed_escape rfl (by decide)
  by_cases hslash : c = '\\'
  · subst hslash
    exact feed_escape rfl (by decide)
  by_cases hn : c = '\n'
  · subst hn
    exact feed_escape rfl (by decide)
  by_cases hr : c = '\r'
  · subst hr
    exact feed_escape rfl (by decide)
  by_cases ht : c = '\t'
  · subst ht
    exact feed_escape rfl (by decide)
  have hcode : Char.ofNat c.toNat = c := Char.ofNat_toNat c
  rw [if_neg hquote, if_neg hslash, if_neg hn, if_neg hr, if_neg ht]
  by_cases hb : c.toNat = 8
  · rw [if_pos hb]
    refine feed_escape ?_ (by decide)
    rw [← hcode, hb]
    rfl
  by_cases hf : c.toNat = 12
  · rw [if_neg hb, if_pos hf]
    refine feed_escape ?_ (by decide)
    rw [← hcode, hf]
    rfl
  rw [if_neg hb, if_neg hf]
  by_cases hcontrol : c.toNat < 32
  · rw [if_pos hcontrol]
    have h1 := hexValue_hexDigit (c.toNat / 16) (by omega)
    have h2 := hexValue_hexDigit (c.toNat % 16) (by omega)
    have hsum : c.toNat / 16 * 16 + c.toNat % 16 = c.toNat := by omega
    have hz : hexValue '0' = some 0 := rfl
    have hlow : ¬ (0xD800 ≤ c.toNat ∧ c.toNat ≤ 0xDBFF) := by omega
    have hlow' : ¬ (0xDC00 ≤ c.toNat ∧ c.toNat ≤ 0xDFFF) := by omega
    simp [feed_cons, step, finishHex, h1, h2, hz, hsum, hlow, hlow', hcode]
  · rw [if_neg hcontrol]
    simp [feed_cons, step_plain hquote hslash hcontrol]

theorem feed_escape_all (s : List Char) :
    (run stack (.str isName read)).feed (s.flatMap escape) =
      some (run stack (.str isName (s.reverse ++ read))) := by
  induction s generalizing read with
  | nil => rfl
  | cons c s ih => simp [feed_append, feed_escape_char, ih]

/-- The text of a string, from its opening quote. -/
theorem feed_quote {s : State} (hopen : s.step '"' = some (run stack (.str isName [])))
    (text : List Char) : s.feed (quote text) = finishString isName text.reverse stack := by
  rw [quote, List.cons_append, feed_cons, hopen, Option.bind_some, feed_append, feed_escape_all,
    Option.bind_some, feed_cons, step]
  simp

/-! ## Atoms -/

/-- The value `v` has been read: it has ended, or it is an atom, which ends with the next
character. -/
def Ended (v : Json) (stack : List Frame) (s : State) : Prop :=
  finish v stack = some s ∨ ∃ read, s = run stack (.atom read) ∧ atomValue read.reverse = some v

theorem finish_step {v : Json} {s : State} (h : finish v stack = some s) (c : Char) :
    s.step c = stepAfter c s := by
  match stack, h with
  | [], h => cases h; rfl
  | .arr _ :: _, h => cases h; rfl
  | .obj _ (some _) :: _, h => cases h; rfl

theorem Ended.step {v : Json} {s : State} (h : Ended v stack s) {c : Char}
    (hc : isAtomChar c = false) : s.step c = (finish v stack).bind (stepAfter c) := by
  rcases h with h | ⟨read, rfl, hread⟩
  · rw [finish_step h, h, Option.bind_some]
  · rw [State.step, if_neg (by simp [hc]), hread, Option.bind_some]

theorem Ended.result {v : Json} {s : State} (h : Ended v [] s) : s.result = some v := by
  rcases h with h | ⟨read, rfl, hread⟩
  · cases h
    rfl
  · exact hread

theorem not_blank_of_isAtomChar {c : Char} (h : isAtomChar c = true) : isBlank c = false := by
  by_contra hb
  rw [Bool.not_eq_false, isBlank] at hb
  simp only [Bool.or_eq_true, beq_iff_eq] at hb
  rcases hb with ((rfl | rfl) | rfl) | rfl <;> revert h <;> decide

theorem step_value_atom {first : Bool} {c : Char} (h : isAtomChar c = true) :
    (run stack (.value first)).step c = some (run stack (.atom [c])) := by
  have hne (d : Char) (hd : isAtomChar d = false) : c ≠ d := by
    rintro rfl
    simp [hd] at h
  rw [step, if_neg (by simp [not_blank_of_isAtomChar h]),
    if_neg (by simp [hne ']' (by decide)]), openValue, if_neg (hne _ (by decide)),
    if_neg (hne _ (by decide)), if_neg (hne _ (by decide)), if_pos h]

theorem feed_atom {s : List Char} (h : ∀ c ∈ s, isAtomChar c = true) :
    (run stack (.atom read)).feed s = some (run stack (.atom (s.reverse ++ read))) := by
  induction s generalizing read with
  | nil => rfl
  | cons c s ih =>
    obtain ⟨hc, hs⟩ := List.forall_mem_cons.mp h
    rw [feed_cons, step, if_pos hc, Option.bind_some, ih hs]
    simp

/-- An atom, read where a value is expected. -/
theorem feed_value_atom {first : Bool} {s : List Char} {v : Json} (hne : s ≠ [])
    (hs : ∀ c ∈ s, isAtomChar c = true) (hv : atomValue s = some v) :
    ∃ t, (run stack (.value first)).feed s = some t ∧ Ended v stack t := by
  cases s with
  | nil => exact absurd rfl hne
  | cons c s =>
    obtain ⟨hc, hrest⟩ := List.forall_mem_cons.mp hs
    refine ⟨_, ?_, .inr ⟨s.reverse ++ [c], rfl, by simpa using hv⟩⟩
    rw [feed_cons, step_value_atom hc, Option.bind_some, feed_atom hrest]

theorem atomValue_numeral (n : Number) : atomValue n.text = some (.num n) := by
  have h := n.numeral
  have hne (s : List Char) (hs : isNumeral s = false) : n.text ≠ s := by
    rintro rfl
    simp [h] at hs
  rw [atomValue, if_neg (hne _ (by decide)), if_neg (hne _ (by decide)), if_neg (hne _ (by decide)),
    dif_pos h]

/-! ## The round trip -/

/-- The character after a value is not part of it. -/
theorem Ended.feed_cons {v : Json} {s : State} (h : Ended v stack s) {c : Char}
    (hc : isAtomChar c = false) (text : List Char) :
    s.feed (c :: text) = ((finish v stack).bind (stepAfter c)).bind (·.feed text) := by
  rw [State.feed_cons, h.step hc]

theorem step_value_open {first : Bool} (c : Char) (hblank : isBlank c = false) (hc : c ≠ ']') :
    (run stack (.value first)).step c = openValue c stack := by
  rw [step, if_neg (by simp [hblank]), if_neg (by simp [hc])]

theorem step_value_quote (first : Bool) :
    (run stack (.value first)).step '"' = some (run stack (.str false [])) :=
  step_value_open '"' (by decide) (by decide)

theorem step_name_quote (first : Bool) :
    (run stack (.name first)).step '"' = some (run stack (.str true [])) := by
  rw [step, if_neg (by decide), if_neg (by simp), if_pos rfl]

/-- The name of a member and the colon after it. -/
theorem feed_name (members : List (List Char × Json)) (name : Option (List Char)) (first : Bool)
    (k text : List Char) :
    (run (.obj members name :: stack) (.name first)).feed (quote k ++ ':' :: text) =
      (run (.obj members (some k) :: stack) (.value false)).feed text := by
  rw [feed_append, feed_quote (step_name_quote first)]
  simp [finishString, State.feed_cons, State.step, isBlank]

/-- A value may stand here. -/
def Ready (stack : List Frame) : Prop := ∀ v, ∃ s, finish v stack = some s

theorem ready_nil : Ready [] := fun v ↦ ⟨done v, rfl⟩

theorem ready_arr (read : List Json) : Ready (.arr read :: stack) := fun _ ↦ ⟨_, rfl⟩

theorem ready_obj (read : List (List Char × Json)) (k : List Char) :
    Ready (.obj read (some k) :: stack) := fun _ ↦ ⟨_, rfl⟩

section

variable (v : Json) (read : List Json) (members : List (List Char × Json)) (k : List Char)
  (stack : List Frame)

theorem arr_comma : (finish v (.arr read :: stack)).bind (stepAfter ',') =
    some (run (.arr (v :: read) :: stack) (.value false)) := rfl

theorem arr_close : (finish v (.arr read :: stack)).bind (stepAfter ']') =
    finish (.arr (v :: read).reverse) stack := rfl

theorem arr_empty : (run (.arr read :: stack) (.value true)).step ']' =
    finish (.arr read.reverse) stack := rfl

theorem obj_comma : (finish v (.obj members (some k) :: stack)).bind (stepAfter ',') =
    some (run (.obj ((k, v) :: members) none :: stack) (.name false)) := rfl

theorem obj_close : (finish v (.obj members (some k) :: stack)).bind (stepAfter '}') =
    finish (.obj (dict ((k, v) :: members).reverse)) stack := rfl

theorem obj_empty (name : Option (List Char)) :
    (run (.obj members name :: stack) (.name true)).step '}' =
      finish (.obj (dict members.reverse)) stack := rfl

theorem bind_feed_nil (s : Option State) : (s.bind fun s ↦ s.feed []) = s := by
  cases s <;> rfl

end

mutual

/-- **The text of a value, where a value is expected, is read as that value.** -/
theorem feed_dumps : ∀ (v : Json), v.Proper → ∀ (stack : List Frame), Ready stack →
    ∀ first : Bool, ∃ s, (run stack (.value first)).feed v.dumps = some s ∧ Ended v stack s
  | .null, _, _, _, _ => feed_value_atom (by decide) (List.all_eq_true.mp rfl) rfl
  | .bool true, _, _, _, _ => feed_value_atom (by decide) (List.all_eq_true.mp rfl) rfl
  | .bool false, _, _, _, _ => feed_value_atom (by decide) (List.all_eq_true.mp rfl) rfl
  | .num n, _, _, _, _ => feed_value_atom (ne_nil_of_isNumeral n.numeral)
      (isAtomChar_of_isNumeral n.numeral) (atomValue_numeral n)
  | .str s, _, stack, hready, first => by
    obtain ⟨t, ht⟩ := hready (.str s)
    refine ⟨t, ?_, .inl ht⟩
    rw [dumps, feed_quote (step_value_quote first)]
    show finish (.str s.reverse.reverse) stack = some t
    rw [List.reverse_reverse, ht]
  | .arr items, h, stack, hready, first => by
    obtain ⟨t, ht⟩ := hready (.arr items)
    refine ⟨t, ?_, .inl ht⟩
    rw [Proper] at h
    rw [dumps, State.feed_cons, step_value_open '[' (by decide) (by decide)]
    exact (feed_dumpsItems items h stack [] true fun _ ↦ rfl).trans ht
  | .obj members, h, stack, hready, first => by
    obtain ⟨t, ht⟩ := hready (.obj members)
    refine ⟨t, ?_, .inl ht⟩
    rw [Proper] at h
    rw [dumps, State.feed_cons, step_value_open '{' (by decide) (by decide)]
    refine (feed_dumpsMembers members h.2 stack [] none true fun _ ↦ rfl).trans ?_
    rw [List.reverse_nil, List.nil_append, dict_eq_self h.1]
    exact ht

theorem feed_dumpsItems : ∀ (items : List Json), ProperItems items →
    ∀ (stack : List Frame) (read : List Json) (first : Bool), (items = [] → first = true) →
      (run (.arr read :: stack) (.value first)).feed (dumpsItems items) =
        finish (.arr (read.reverse ++ items)) stack
  | [], _, stack, read, first, hfirst => by
    rw [hfirst rfl, dumpsItems, State.feed_cons, bind_feed_nil, arr_empty, List.append_nil]
  | [v], h, stack, read, first, _ => by
    rw [ProperItems] at h
    obtain ⟨s, hs, hended⟩ := feed_dumps v h.1 (.arr read :: stack) (ready_arr read) first
    rw [dumpsItems, feed_append, hs, Option.bind_some, hended.feed_cons (by decide),
      bind_feed_nil, arr_close, List.reverse_cons]
  | v :: w :: rest, h, stack, read, first, _ => by
    rw [ProperItems] at h
    obtain ⟨s, hs, hended⟩ := feed_dumps v h.1 (.arr read :: stack) (ready_arr read) first
    have hrest := feed_dumpsItems (w :: rest) h.2 stack (v :: read) false (by simp)
    rw [dumpsItems, feed_append, hs, Option.bind_some, hended.feed_cons (by decide), arr_comma,
      Option.bind_some, hrest, List.reverse_cons, List.append_assoc, List.singleton_append]

theorem feed_dumpsMembers : ∀ (members : List (List Char × Json)), ProperMembers members →
    ∀ (stack : List Frame) (read : List (List Char × Json)) (name : Option (List Char))
      (first : Bool), (members = [] → first = true) →
      (run (.obj read name :: stack) (.name first)).feed (dumpsMembers members) =
        finish (.obj (dict (read.reverse ++ members))) stack
  | [], _, stack, read, name, first, hfirst => by
    rw [hfirst rfl, dumpsMembers, State.feed_cons, bind_feed_nil, obj_empty, List.append_nil]
  | [(k, v)], h, stack, read, name, first, _ => by
    rw [ProperMembers] at h
    obtain ⟨s, hs, hended⟩ :=
      feed_dumps v h.1 (.obj read (some k) :: stack) (ready_obj read k) false
    rw [dumpsMembers, List.append_assoc, List.cons_append, feed_name, feed_append, hs,
      Option.bind_some, hended.feed_cons (by decide), bind_feed_nil, obj_close, List.reverse_cons]
  | (k, v) :: m :: rest, h, stack, read, name, first, _ => by
    rw [ProperMembers] at h
    obtain ⟨s, hs, hended⟩ :=
      feed_dumps v h.1 (.obj read (some k) :: stack) (ready_obj read k) false
    have hrest := feed_dumpsMembers (m :: rest) h.2 stack ((k, v) :: read) none false (by simp)
    rw [dumpsMembers, List.append_assoc, List.cons_append, feed_name, feed_append, hs,
      Option.bind_some, hended.feed_cons (by decide), obj_comma, Option.bind_some, hrest,
      List.reverse_cons, List.append_assoc, List.singleton_append]

end

end State

/-- **Reading back what was written.** -/
theorem loads_dumps {v : Json} (h : v.Proper) : loads v.dumps = some v := by
  obtain ⟨s, hs, hended⟩ := State.feed_dumps v h [] State.ready_nil false
  rw [loads, State.start, hs, Option.bind_some, hended.result]

end Json
