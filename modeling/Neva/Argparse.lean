import Mathlib.Data.List.Basic
import Mathlib.Data.List.Infix
import Mathlib.Tactic.Common

/-!
# Command lines

The part of Python's `argparse` that a parser without positional arguments uses: options that take
one value, flags, and `--help`.  `Parser.parse` reads a command line; it answers nothing where the
program exits instead, be it with an error or after printing its help.

Before anything is consumed, every token is classified on its own (`Parser.parseOptional`), and a
token that looks like an option is never the value of one.  What begins with a dash looks like an
option unless it is a dash alone, a negative number, or has a blank in it — and even then if an
option can be recognised in it.  So a command line of options with their values is read back if
and only if each value is one (`Parser.consume_flatMap_eq_some`).

Flags of one letter, which can be run together behind one dash, are left out; `-h` exits at once.
-/

set_option autoImplicit false

namespace Argparse

/-- What an option does. -/
inductive Action
  | store
  | storeTrue
  | help
  deriving DecidableEq

/-- `parser.add_argument(…)` -/
structure Argument where
  /-- The long option string, which the value is stored under. -/
  name : List Char
  short : List (List Char) := []
  action : Action := .store
  required : Bool := false
  /-- The values that `type` converts. -/
  accepts : List Char → Bool := fun _ ↦ true

/-- `-h`, `--help` -/
def Argument.help : Argument where
  name := "--help".toList
  short := ["-h".toList]
  action := .help

structure Parser where
  arguments : List Argument
  /-- `\d` -/
  isDecimal : Char → Bool

/-- The values by the names of their options, in the order they were given. -/
abbrev Namespace := List (List Char × List Char)

/-- `getattr(args, …)`; the last value counts. -/
def Namespace.get? (args : Namespace) (name : List Char) : Option (List Char) :=
  (args.reverse.find? fun m ↦ m.1 == name).map Prod.snd

/-- What a token is taken for. -/
inductive Token
  | argument
  /-- An option, and the value that is attached to it. -/
  | option (a : Argument) (explicit : Option (List Char))
  /-- An unknown option, or one that could be several. -/
  | unrecognized

/-- `^-\d+$|^-\d*\.\d+$` -/
def isNegativeNumber (isDecimal : Char → Bool) : List Char → Bool
  | '-' :: s =>
    match s.dropWhile isDecimal with
    | [] => s ≠ []
    | '.' :: fraction => fraction ≠ [] && fraction.all isDecimal
    | _ => false
  | _ => false

namespace Parser

variable (p : Parser)

/-- `_option_string_actions` -/
def optionStrings : List (List Char × Argument) :=
  (Argument.help :: p.arguments).flatMap fun a ↦ (a.short ++ [a.name]).map (·, a)

def named? (t : List Char) : Option Argument :=
  (p.optionStrings.find? fun o ↦ o.1 == t).map Prod.snd

/-- `_get_option_tuples` -/
def optionTuples : List Char → List (Argument × Option (List Char))
  | '-' :: '-' :: s =>
    let t := '-' :: '-' :: s
    let start := t.takeWhile (· ≠ '=')
    (p.optionStrings.filter fun o ↦ start.isPrefixOf o.1).map fun o ↦
      (o.2, if '=' ∈ t then some ((t.dropWhile (· ≠ '=')).drop 1) else none)
  | '-' :: c :: s =>
    p.optionStrings.filterMap fun o ↦
      if o.1 = ['-', c] then some (o.2, some s)
      else if ('-' :: c :: s).isPrefixOf o.1 then some (o.2, none)
      else none
  | _ => []

/-- The end of `_parse_optional`: what is an option only by its looks. -/
def looksLike (t : List Char) : Token :=
  if isNegativeNumber p.isDecimal t then .argument
  else if ' ' ∈ t then .argument
  else .unrecognized

/-- `_parse_optional` -/
def parseOptional (t : List Char) : Token :=
  if t.head? ≠ some '-' then .argument
  else match p.named? t with
    | some a => .option a none
    | none =>
      if t.length = 1 then .argument
      else match if '=' ∈ t then p.named? (t.takeWhile (· ≠ '=')) else none with
        | some a => .option a (some ((t.dropWhile (· ≠ '=')).drop 1))
        | none =>
          match p.optionTuples t with
          | [] => p.looksLike t
          | [(a, explicit)] => .option a explicit
          | _ => .unrecognized

/-- A token that can be the value of an option. -/
def isValue (t : List Char) : Bool :=
  t ≠ "--".toList &&
    match p.parseOptional t with
    | .argument => true
    | _ => false

/-- The loop of `_parse_known_args`.  An option may be waiting for its value. -/
def consume : Option Argument → List (List Char) → Option Namespace
  | none, [] => some []
  | some _, [] => none
  | some a, t :: rest =>
    if p.isValue t && a.accepts t then (consume none rest).map ((a.name, t) :: ·) else none
  | none, t :: rest =>
    match p.parseOptional t with
    | .option a none =>
      match a.action with
      | .store => consume (some a) rest
      | .storeTrue => (consume none rest).map ((a.name, []) :: ·)
      | .help => none
    | .option a (some value) =>
      if a.action = .store ∧ a.accepts value then (consume none rest).map ((a.name, value) :: ·)
      else none
    | _ => none

/-- `parse_args` -/
def parse (argv : List (List Char)) : Option Namespace :=
  (p.consume none argv).filter fun args ↦
    p.arguments.all fun a ↦ !a.required || args.any fun m ↦ m.1 == a.name

variable {p}

/-! ## Tokens -/

theorem isValue_of_head {t : List Char} (h : t.head? ≠ some '-') : p.isValue t = true := by
  have hne : t ≠ "--".toList := by
    rintro rfl
    exact h rfl
  rw [isValue, parseOptional, if_pos h]
  simpa using hne

/-- What looks like an option, and is none, is a value if its looks deceive. -/
theorem isValue_of_optionTuples {t : List Char} (hhead : t.head? = some '-')
    (hexact : p.named? t = none) (hlen : t.length ≠ 1) (heq : '=' ∉ t)
    (htuples : p.optionTuples t = []) (hne : t ≠ "--".toList) :
    p.isValue t = (isNegativeNumber p.isDecimal t || decide (' ' ∈ t)) := by
  rw [isValue, parseOptional, if_neg (by simpa using hhead), hexact]
  dsimp only
  rw [if_neg hlen, if_neg heq]
  dsimp only
  rw [htuples]
  dsimp only
  rw [looksLike]
  by_cases hn : isNegativeNumber p.isDecimal t = true
  · simpa [hn] using hne
  · by_cases hb : ' ' ∈ t
    · simpa [hn, hb] using hne
    · simp [hn, hb]

/-- What an option is recognised in is no value. -/
theorem isValue_eq_false {t : List Char} (hhead : t.head? = some '-') (hexact : p.named? t = none)
    (hlen : t.length ≠ 1) (heq : '=' ∉ t) (htuples : p.optionTuples t ≠ []) :
    p.isValue t = false := by
  rw [isValue, parseOptional, if_neg (by simpa using hhead), hexact]
  dsimp only
  rw [if_neg hlen, if_neg heq]
  dsimp only
  rcases h : p.optionTuples t with - | ⟨⟨a, explicit⟩, - | ⟨b, rest⟩⟩
  · exact absurd h htuples
  · simp
  · simp

theorem isValue_of_exact {t : List Char} {a : Argument} (hhead : t.head? = some '-')
    (hexact : p.named? t = some a) : p.isValue t = false := by
  rw [isValue, parseOptional, if_neg (by simpa using hhead), hexact]
  simp

/-! ## Options and their values -/

/-- The token is the option string of the argument. -/
def Names (p : Parser) (a : Argument) : Prop :=
  p.parseOptional a.name = .option a none ∧ a.action = .store

/-- **A command line is read back** if and only if every value is one and has its type. -/
theorem consume_flatMap_eq_some {given : List (Argument × List Char)}
    (hnames : ∀ m ∈ given, p.Names m.1) {args : Namespace} :
    p.consume none (given.flatMap fun m ↦ [m.1.name, m.2]) = some args ↔
      (∀ m ∈ given, p.isValue m.2 = true ∧ m.1.accepts m.2 = true) ∧
        args = given.map fun m ↦ (m.1.name, m.2) := by
  induction given generalizing args with
  | nil =>
    rw [List.flatMap_nil, consume, Option.some_inj]
    simp
  | cons m rest ih =>
    obtain ⟨⟨hoption, hstore⟩, hrest⟩ := List.forall_mem_cons.mp hnames
    have hstep : p.consume none ((m :: rest).flatMap fun m ↦ [m.1.name, m.2]) =
        if p.isValue m.2 && m.1.accepts m.2 then
          (p.consume none (rest.flatMap fun m ↦ [m.1.name, m.2])).map ((m.1.name, m.2) :: ·)
        else none := by
      rw [List.flatMap_cons, List.cons_append, consume, hoption]
      dsimp only
      rw [hstore]
      dsimp only
      rw [List.cons_append, consume, List.nil_append]
    rw [hstep, List.forall_mem_cons, List.map_cons]
    split
    · rename_i hvalue
      rw [Bool.and_eq_true] at hvalue
      rw [Option.map_eq_some_iff]
      simp only [ih hrest]
      constructor
      · rintro ⟨args', ⟨hall, rfl⟩, rfl⟩
        exact ⟨⟨hvalue, hall⟩, rfl⟩
      · rintro ⟨⟨-, hall⟩, rfl⟩
        exact ⟨_, ⟨hall, rfl⟩, rfl⟩
    · rename_i hvalue
      rw [Bool.and_eq_true] at hvalue
      simp [hvalue]

end Parser
end Argparse
