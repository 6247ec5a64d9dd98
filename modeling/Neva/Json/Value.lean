import Mathlib

/-!
# JSON values and their text

`Json` is the type of JSON values, `Json.dumps` the compact text of one: no blanks between the
tokens, and no escape that is not needed.  An object is the list of its members in the order they
were inserted; `Json.Proper` says that no object, at any depth, has a name twice, which is what
makes it a dictionary.

A number is its numeral.  Python's floating point numbers print as numerals too, the three values
`NaN`, `Infinity` and `-Infinity` included.
-/

set_option autoImplicit false

namespace Json

/-! ## Numerals -/

def isDigit (c : Char) : Bool := decide ('0'.toNat ≤ c.toNat ∧ c.toNat ≤ '9'.toNat)

/-- The characters numerals and the names of constants are made of. -/
def isAtomChar (c : Char) : Bool :=
  isDigit c || decide ('a'.toNat ≤ c.toNat ∧ c.toNat ≤ 'z'.toNat) ||
    decide ('A'.toNat ≤ c.toNat ∧ c.toNat ≤ 'Z'.toNat) || c == '-' || c == '+' || c == '.'

/-- `[0-9]+` -/
def areDigits (s : List Char) : Bool := !s.isEmpty && s.all isDigit

/-- `([eE][-+]?[0-9]+)?` -/
def isExponent : List Char → Bool
  | [] => true
  | e :: s => (e == 'e' || e == 'E') &&
    match s with
    | '-' :: s => areDigits s
    | '+' :: s => areDigits s
    | s => areDigits s

/-- `(\.[0-9]+)?` and an exponent. -/
def isFraction : List Char → Bool
  | '.' :: s => areDigits (s.takeWhile isDigit) && isExponent (s.dropWhile isDigit)
  | s => isExponent s

/-- `(0|[1-9][0-9]*)` with a fraction and an exponent. -/
def isUnsigned (s : List Char) : Bool :=
  areDigits (s.takeWhile isDigit) &&
    (s.takeWhile isDigit == ['0'] || !(s.takeWhile isDigit).head?.any (· == '0')) &&
    isFraction (s.dropWhile isDigit)

/-- The text of a number. -/
def isNumeral (s : List Char) : Bool :=
  s == "NaN".toList || s == "Infinity".toList || s == "-Infinity".toList ||
    match s with
    | '-' :: s => isUnsigned s
    | s => isUnsigned s

/-- A number, as it is written. -/
structure Number where
  text : List Char
  numeral : isNumeral text = true
  deriving DecidableEq

end Json

/-- A JSON value. -/
inductive Json
  | null
  | bool (b : Bool)
  | num (n : Json.Number)
  | str (s : List Char)
  | arr (items : List Json)
  | obj (members : List (List Char × Json))

namespace Json

/-! ## Access -/

/-- `members.get(name)` -/
def lookup (members : List (List Char × Json)) (name : List Char) : Option Json :=
  (members.find? fun m ↦ m.1 == name).map Prod.snd

/-- `value.get(name)`; nothing for what is no object. -/
def get? : Json → List Char → Option Json
  | obj members, name => lookup members name
  | _, _ => none

/-- The name is given a new value, in its old place if it has one. -/
def insert (members : List (List Char × Json)) (name : List Char) (value : Json) :
    List (List Char × Json) :=
  if members.any fun m ↦ m.1 == name then
    members.map fun m ↦ if m.1 == name then (name, value) else m
  else members ++ [(name, value)]

/-- The dictionary made from a list of members; a later value replaces an earlier one. -/
def dict (members : List (List Char × Json)) : List (List Char × Json) :=
  members.foldl (fun out m ↦ insert out m.1 m.2) []

mutual

/-- No object has a name twice. -/
def Proper : Json → Prop
  | .arr items => ProperItems items
  | .obj members => (members.map Prod.fst).Nodup ∧ ProperMembers members
  | _ => True

def ProperItems : List Json → Prop
  | [] => True
  | v :: rest => v.Proper ∧ ProperItems rest

def ProperMembers : List (List Char × Json) → Prop
  | [] => True
  | (_, v) :: rest => v.Proper ∧ ProperMembers rest

end

/-- A list of members in which no name is used twice is a dictionary already. -/
theorem dict_eq_self {members : List (List Char × Json)} (h : (members.map Prod.fst).Nodup) :
    dict members = members := by
  have hfold : ∀ rest out : List (List Char × Json), ((out ++ rest).map Prod.fst).Nodup →
      rest.foldl (fun out m ↦ insert out m.1 m.2) out = out ++ rest := by
    intro rest
    induction rest with
    | nil => simp
    | cons m rest ih =>
      intro out hnodup
      have hnew : m.1 ∉ out.map Prod.fst := by
        rw [List.map_append, List.nodup_append'] at hnodup
        exact fun hm ↦ hnodup.2.2 hm (by simp)
      have hinsert : insert out m.1 m.2 = out ++ [m] := by
        rw [insert, if_neg]
        simp only [List.any_eq_true, beq_iff_eq, not_exists, not_and]
        exact fun x hx hxm ↦ hnew (hxm ▸ List.mem_map_of_mem hx)
      rw [List.foldl_cons, hinsert, ih _ (by simpa using hnodup)]
      simp
  simpa [dict] using hfold members [] (by simpa using h)

theorem mem_of_lookup {members : List (List Char × Json)} {name : List Char} {value : Json}
    (h : lookup members name = some value) : (name, value) ∈ members := by
  obtain ⟨m, hm, rfl⟩ := Option.map_eq_some_iff.mp h
  have hname : m.1 = name := by simpa using List.find?_some hm
  rw [← hname]
  exact List.mem_of_find?_eq_some hm

/-! ## Text -/

/-- A lower case hexadecimal digit. -/
def hexDigit (n : ℕ) : Char := if n < 10 then Char.ofNat (48 + n) else Char.ofNat (87 + n)

/-- One character inside a string. -/
def escape (c : Char) : List Char :=
  if c = '"' then ['\\', '"']
  else if c = '\\' then ['\\', '\\']
  else if c = '\n' then ['\\', 'n']
  else if c = '\r' then ['\\', 'r']
  else if c = '\t' then ['\\', 't']
  else if c.toNat = 8 then ['\\', 'b']
  else if c.toNat = 12 then ['\\', 'f']
  else if c.toNat < 32 then
    ['\\', 'u', '0', '0', hexDigit (c.toNat / 16), hexDigit (c.toNat % 16)]
  else [c]

/-- The text of a string. -/
def quote (s : List Char) : List Char := '"' :: s.flatMap escape ++ ['"']

mutual

/-- `json.dumps(value, ensure_ascii=False, separators=(",", ":"))` -/
def dumps : Json → List Char
  | .null => ['n', 'u', 'l', 'l']
  | .bool true => ['t', 'r', 'u', 'e']
  | .bool false => ['f', 'a', 'l', 's', 'e']
  | .num n => n.text
  | .str s => quote s
  | .arr items => '[' :: dumpsItems items
  | .obj members => '{' :: dumpsMembers members

/-- The rest of an array. -/
def dumpsItems : List Json → List Char
  | [] => [']']
  | [v] => v.dumps ++ [']']
  | v :: w :: rest => v.dumps ++ ',' :: dumpsItems (w :: rest)

/-- The rest of an object. -/
def dumpsMembers : List (List Char × Json) → List Char
  | [] => ['}']
  | [(k, v)] => quote k ++ ':' :: v.dumps ++ ['}']
  | (k, v) :: m :: rest => quote k ++ ':' :: v.dumps ++ ',' :: dumpsMembers (m :: rest)

end

/-! ## The characters of a numeral -/

theorem isAtomChar_of_isDigit {c : Char} (h : isDigit c = true) : isAtomChar c = true := by
  simp [isAtomChar, h]

theorem isAtomChar_of_areDigits {s : List Char} (h : areDigits s = true) :
    ∀ c ∈ s, isAtomChar c = true := by
  rw [areDigits, Bool.and_eq_true, List.all_eq_true] at h
  exact fun c hc ↦ isAtomChar_of_isDigit (h.2 c hc)

theorem isAtomChar_of_isExponent {s : List Char} (h : isExponent s = true) :
    ∀ c ∈ s, isAtomChar c = true := by
  cases s with
  | nil => simp
  | cons e s =>
    rw [isExponent.eq_def] at h
    dsimp only at h
    rw [Bool.and_eq_true] at h
    refine List.forall_mem_cons.mpr ⟨?_, ?_⟩
    · rcases Bool.or_eq_true_iff.mp h.1 with he | he <;> rw [beq_iff_eq.mp he] <;> decide
    · have hdigits := h.2
      split at hdigits
      · exact List.forall_mem_cons.mpr ⟨by decide, isAtomChar_of_areDigits hdigits⟩
      · exact List.forall_mem_cons.mpr ⟨by decide, isAtomChar_of_areDigits hdigits⟩
      · exact isAtomChar_of_areDigits hdigits

/-- The digits at the front of a text, and the rest. -/
theorem isAtomChar_of_span {s : List Char}
    (hdrop : ∀ c ∈ s.dropWhile isDigit, isAtomChar c = true) : ∀ c ∈ s, isAtomChar c = true := by
  intro c hc
  rw [← List.takeWhile_append_dropWhile (p := isDigit) (l := s), List.mem_append] at hc
  rcases hc with hc | hc
  · exact isAtomChar_of_isDigit (List.mem_takeWhile_imp hc)
  · exact hdrop c hc

theorem isAtomChar_of_isFraction {s : List Char} (h : isFraction s = true) :
    ∀ c ∈ s, isAtomChar c = true := by
  rw [isFraction.eq_def] at h
  split at h
  · rw [Bool.and_eq_true] at h
    refine List.forall_mem_cons.mpr ⟨by decide, isAtomChar_of_span ?_⟩
    exact isAtomChar_of_isExponent h.2
  · exact isAtomChar_of_isExponent h

theorem isAtomChar_of_isUnsigned {s : List Char} (h : isUnsigned s = true) :
    ∀ c ∈ s, isAtomChar c = true := by
  rw [isUnsigned, Bool.and_eq_true] at h
  exact isAtomChar_of_span (isAtomChar_of_isFraction h.2)

/-- A numeral is an atom. -/
theorem isAtomChar_of_isNumeral {s : List Char} (h : isNumeral s = true) :
    ∀ c ∈ s, isAtomChar c = true := by
  rw [isNumeral.eq_def, Bool.or_eq_true, Bool.or_eq_true, Bool.or_eq_true, beq_iff_eq, beq_iff_eq,
    beq_iff_eq] at h
  rcases h with ((rfl | rfl) | rfl) | h
  · exact List.all_eq_true.mp rfl
  · exact List.all_eq_true.mp rfl
  · exact List.all_eq_true.mp rfl
  · split at h
    · exact List.forall_mem_cons.mpr ⟨by decide, isAtomChar_of_isUnsigned h⟩
    · exact isAtomChar_of_isUnsigned h

theorem ne_nil_of_isNumeral {s : List Char} (h : isNumeral s = true) : s ≠ [] := by
  rintro rfl
  revert h
  decide

/-! ## The characters of a text -/

theorem newline_not_mem_escape (c : Char) : '\n' ∉ escape c := by
  have hhex : ∀ n < 16, hexDigit n ≠ '\n' := by decide
  rw [escape]
  split_ifs with h1 h2 h3 h4 h5 h6 h7 h8
  · decide
  · decide
  · decide
  · decide
  · decide
  · decide
  · decide
  · have hhigh := hhex (c.toNat / 16) (by omega)
    have hlow := hhex (c.toNat % 16) (by omega)
    simp [Ne.symm hhigh, Ne.symm hlow]
  · simpa using Ne.symm h3

theorem newline_not_mem_quote (s : List Char) : '\n' ∉ quote s := by
  simp [quote, newline_not_mem_escape]

mutual

/-- The text of a value is one line. -/
theorem newline_not_mem_dumps : ∀ v : Json, '\n' ∉ v.dumps
  | .null => by decide
  | .bool true => by decide
  | .bool false => by decide
  | .num n => fun h ↦ by
    have := isAtomChar_of_isNumeral n.numeral _ h
    revert this
    decide
  | .str s => by
    rw [dumps]
    exact newline_not_mem_quote s
  | .arr items => by
    rw [dumps]
    simpa using newline_not_mem_dumpsItems items
  | .obj members => by
    rw [dumps]
    simpa using newline_not_mem_dumpsMembers members

theorem newline_not_mem_dumpsItems : ∀ items : List Json, '\n' ∉ dumpsItems items
  | [] => by decide
  | [v] => by
    rw [dumpsItems]
    simpa using newline_not_mem_dumps v
  | v :: w :: rest => by
    rw [dumpsItems]
    simpa using ⟨newline_not_mem_dumps v, newline_not_mem_dumpsItems (w :: rest)⟩

theorem newline_not_mem_dumpsMembers : ∀ members : List (List Char × Json),
    '\n' ∉ dumpsMembers members
  | [] => by decide
  | [(k, v)] => by
    rw [dumpsMembers]
    simpa using ⟨newline_not_mem_quote k, newline_not_mem_dumps v⟩
  | (k, v) :: m :: rest => by
    rw [dumpsMembers]
    simpa using ⟨newline_not_mem_quote k, newline_not_mem_dumps v,
      newline_not_mem_dumpsMembers (m :: rest)⟩

end

/-- The text of an object stands between braces. -/
theorem exists_dumps_obj (members : List (List Char × Json)) :
    ∃ body, (obj members).dumps = '{' :: body ++ ['}'] := by
  have hmembers :
      ∀ members : List (List Char × Json), ∃ body, dumpsMembers members = body ++ ['}'] := by
    intro members
    induction members with
    | nil => exact ⟨[], rfl⟩
    | cons m rest ih =>
      obtain ⟨k, v⟩ := m
      cases rest with
      | nil => exact ⟨quote k ++ ':' :: v.dumps, by rw [dumpsMembers]⟩
      | cons m' rest =>
        obtain ⟨body, hbody⟩ := ih
        exact ⟨quote k ++ ':' :: v.dumps ++ ',' :: body, by rw [dumpsMembers, hbody]; simp⟩
  obtain ⟨body, hbody⟩ := hmembers members
  exact ⟨body, by rw [dumps, hbody, List.cons_append]⟩

/-! ## Natural numbers -/

theorem isDigit_eq (c : Char) : isDigit c = c.isDigit := by
  rw [Bool.eq_iff_iff, isDigit, decide_eq_true_eq, Char.isDigit, Bool.and_eq_true,
    decide_eq_true_eq, decide_eq_true_eq]
  exact Iff.rfl

theorem all_isDigit_toDigits (n : ℕ) : ∀ c ∈ Nat.toDigits 10 n, isDigit c = true := by
  intro c hc
  rw [isDigit_eq]
  exact Nat.isDigit_of_mem_toDigits (by omega) (by omega) hc

/-- A number of more than one digit does not begin with zero. -/
theorem head?_toDigits (n : ℕ) (h : 0 < n) : (Nat.toDigits 10 n).head? ≠ some '0' := by
  induction n using Nat.strongRecOn with
  | ind n ih =>
    rcases Nat.lt_or_ge n 10 with hlt | hge
    · rw [Nat.toDigits_of_lt_base hlt]
      interval_cases n <;> decide
    · rw [Nat.toDigits_of_base_le (by omega) hge]
      have := ih (n / 10) (by omega) (by omega)
      cases hd : Nat.toDigits 10 (n / 10) with
      | nil => exact absurd hd Nat.toDigits_ne_nil
      | cons c rest => simpa [hd] using this

/-- `str(n)` -/
def Number.ofNat (n : ℕ) : Number where
  text := Nat.toDigits 10 n
  numeral := by
    have hall := all_isDigit_toDigits n
    have htake : (Nat.toDigits 10 n).takeWhile isDigit = Nat.toDigits 10 n :=
      List.takeWhile_eq_self_iff.mpr hall
    have hdrop : (Nat.toDigits 10 n).dropWhile isDigit = [] := by
      rw [List.dropWhile_eq_nil_iff]
      exact hall
    have hunsigned : isUnsigned (Nat.toDigits 10 n) = true := by
      rw [isUnsigned, htake, hdrop]
      have hdigits : areDigits (Nat.toDigits 10 n) = true := by
        simpa [areDigits, Nat.toDigits_ne_nil] using hall
      rcases Nat.eq_zero_or_pos n with rfl | hpos
      · decide
      · have hhead := head?_toDigits n hpos
        simp only [hdigits, Bool.true_and, isFraction, isExponent, Bool.and_true, Bool.or_eq_true]
        right
        cases hd : (Nat.toDigits 10 n).head? with
        | none => rfl
        | some c => simp_all
    rw [isNumeral, Bool.or_eq_true]
    · exact .inr hunsigned
    · intro rest heq
      have := hall '-' (by simp [heq])
      simp [isDigit] at this

end Json
