import Neva.Json.Torn
import Neva.Game.Languages

/-!
# The corpus

`CorpusWriter` of `worker/corpus.py`: records are appended, one JSON text a line, to numbered
shards, and a shard is full when it has `shard_record_limit` lines.  Before a record is appended
every line of every shard is read, so that a record that is there already is not written twice.

A shard is kept as the text in it.  Text is written in UTF-8, and a write that is cut off may end
inside a character; `Shard.broken` says that some, but not all, bytes of a character follow the
text, and a reader that gets there raises.  A `Cut` is the place where a write ends when the
process dies; `Corpus.appendCut` is the call with a cut, or with none.
-/

set_option autoImplicit false

namespace Neva

/-! ## Lines -/

/-- The lines that end with a newline, without it, and what follows the last one. -/
def splitLines : Text → List Text × Text
  | [] => ([], [])
  | c :: s =>
    if c = '\n' then ([] :: (splitLines s).1, (splitLines s).2)
    else match (splitLines s).1 with
      | [] => ([], c :: (splitLines s).2)
      | l :: rest => ((c :: l) :: rest, (splitLines s).2)

theorem splitLines_append {t : Text} (ht : '\n' ∉ t) (s : Text) :
    splitLines (s ++ t) = ((splitLines s).1, (splitLines s).2 ++ t) := by
  induction s with
  | nil =>
    induction t with
    | nil => rfl
    | cons c t ih =>
      rw [List.mem_cons, not_or] at ht
      have := ih ht.2
      rw [List.nil_append] at this ⊢
      simp [splitLines, this, Ne.symm ht.1]
  | cons c s ih =>
    rw [List.cons_append, splitLines, splitLines, ih]
    split
    · rfl
    · cases (splitLines s).1 <;> rfl

/-- A line is complete once its newline has been written. -/
theorem splitLines_append_line {t : Text} (ht : '\n' ∉ t) (s : Text) :
    splitLines (s ++ (t ++ ['\n'])) = ((splitLines s).1 ++ [(splitLines s).2 ++ t], []) := by
  have hline (s : Text) :
      splitLines (s ++ ['\n']) = ((splitLines s).1 ++ [(splitLines s).2], []) := by
    induction s with
    | nil => rfl
    | cons c s ih =>
      rw [List.cons_append, splitLines, splitLines, ih]
      split
      · rfl
      · cases (splitLines s).1 <;> rfl
  rw [← List.append_assoc, hline, splitLines_append ht]

/-! ## Shards -/

/-- The exceptions the reading of a corpus can end with. -/
inductive CorpusError
  | unicodeDecodeError
  /-- `'list' object has no attribute 'get'` -/
  | attributeError
  | valueError (message : String)
  deriving DecidableEq, Repr

/-- A file `shard_<number>.jsonl`. -/
structure Shard where
  number : ℕ
  text : Text
  /-- The last character is cut off. -/
  broken : Bool
  deriving DecidableEq, Repr

/-- `f"shard_{number:04d}.jsonl"` -/
def shardName (number : ℕ) : Text :=
  "shard_".toList ++ (List.replicate (4 - (Nat.toDigits 10 number).length) '0' ++
    Nat.toDigits 10 number) ++ ".jsonl".toList

/-- Different shards have different names. -/
theorem shardName_injective {m n : ℕ} (h : shardName m = shardName n) : m = n := by
  have hzeros (k : ℕ) (ds : List Char) :
      Nat.ofDigitChars 10 (List.replicate k '0' ++ ds) 0 = Nat.ofDigitChars 10 ds 0 := by
    induction k with
    | zero => rfl
    | succ k ih => exact ih
  have hnumber (k : ℕ) : Nat.ofDigitChars 10
      (List.replicate (4 - (Nat.toDigits 10 k).length) '0' ++ Nat.toDigits 10 k) 0 = k := by
    rw [hzeros, Nat.ofDigitChars_ten_toDigits]
  have hdigits := List.append_cancel_left (List.append_cancel_right h)
  rw [← hnumber m, ← hnumber n, hdigits]

namespace Shard

variable (f : Shard)

def name : Text := shardName f.number

/-- The lines that end with a newline. -/
def lines : List Text := (splitLines f.text).1

/-- What follows the last newline. -/
def tail : Text := (splitLines f.text).2

/-- `_line_count` -/
def lineCount : Except CorpusError ℕ :=
  if f.broken then .error .unicodeDecodeError
  else .ok (f.lines.length + if f.tail = [] then 0 else 1)

end Shard

/-- `payload.get("utterance_id") == utterance_id` for one line. -/
def lineHas (utteranceId line : Text) : Except CorpusError Bool :=
  if strip line = [] then .ok false
  else match Json.loads (strip line) with
    | none => .ok false
    | some (.obj members) => .ok <|
      match Json.lookup members "utterance_id".toList with
      | some (.str s) => s == utteranceId
      | _ => false
    | some _ => .error .attributeError

/-- The loop over the lines: it stops at the first that has the utterance, or raises. -/
def anyLine (utteranceId : Text) : List Text → Except CorpusError Bool
  | [] => .ok false
  | l :: rest =>
    match lineHas utteranceId l with
    | .ok false => anyLine utteranceId rest
    | r => r

/-- `_shard_contains`.  What follows the last newline is the last line. -/
def Shard.contains (f : Shard) (utteranceId : Text) : Except CorpusError Bool :=
  match anyLine utteranceId f.lines with
  | .ok false =>
    if f.broken then .error .unicodeDecodeError
    else if f.tail = [] then .ok false
    else lineHas utteranceId f.tail
  | r => r

/-- The shards in the corpus directory. -/
abbrev Corpus := List Shard

namespace Corpus

variable (c : Corpus)

/-- `sorted(glob("shard_*.jsonl"))` -/
def sorted : List Shard := c.insertionSort fun a b ↦ a.name ≤ b.name

/-- The loop over the shards. -/
def firstWith (utteranceId : Text) : List Shard → Except CorpusError (Option Text)
  | [] => .ok none
  | f :: rest =>
    match f.contains utteranceId with
    | .ok false => firstWith utteranceId rest
    | .ok true => .ok (some f.name)
    | .error e => .error e

/-- `find_utterance` -/
def findUtterance (utteranceId : Text) : Except CorpusError (Option Text) :=
  firstWith utteranceId c.sorted

/-- The shard with a number. -/
def shard? (number : ℕ) : Option Shard := c.find? fun f ↦ f.number == number

/-- `_current_shard` -/
def currentShard (limit : ℕ) : Except CorpusError ℕ :=
  let number := (c.map Shard.number).max?.getD 1
  match c.shard? number with
  | none => .ok number
  | some f =>
    match f.lineCount with
    | .error e => .error e
    | .ok count => .ok (if limit ≤ count then number + 1 else number)

/-- The file after something has been written at its end; it is created when it is not there. -/
def write (number : ℕ) (text : Text) (broken : Bool) : Corpus :=
  if c.any fun f ↦ f.number == number then
    c.map fun f ↦ if f.number = number then ⟨number, f.text ++ text, broken⟩ else f
  else c ++ [⟨number, text, broken⟩]

end Corpus

/-- Where a write ends: after some characters of the line, and possibly inside the next one. -/
structure Cut where
  chars : ℕ
  inside : Bool
  deriving DecidableEq, Repr

/-- The line is cut before its newline, and inside a character only where one has several bytes. -/
structure Cut.Within (cut : Cut) (line : Text) : Prop where
  short : cut.chars ≤ line.length
  wide : cut.inside = true → ∃ ch ∈ (line.drop cut.chars).head?, 128 ≤ ch.toNat

/-- What gets written of a line. -/
def Cut.written (line : Text) : Option Cut → Text × Bool
  | none => (line ++ ['\n'], false)
  | some cut => (line.take cut.chars, cut.inside)

namespace Corpus

/-- `append`, of which the write may be cut off. -/
def appendCut (limit : ℕ) (c : Corpus) (golden : Json) (cut : Option Cut) :
    Except CorpusError Text × Corpus :=
  match golden.get? "utterance_id".toList with
  | some (.str utteranceId) =>
    if utteranceId = [] then (.error (.valueError "golden record requires utterance_id"), c)
    else match c.findUtterance utteranceId with
      | .error e => (.error e, c)
      | .ok (some existing) => (.ok existing, c)
      | .ok none =>
        match c.currentShard limit with
        | .error e => (.error e, c)
        | .ok number =>
          let (text, broken) := Cut.written golden.dumps cut
          (.ok (shardName number), c.write number text broken)
  | _ => (.error (.valueError "golden record requires utterance_id"), c)

/-- `append` -/
def append (limit : ℕ) (c : Corpus) (golden : Json) : Except CorpusError Text × Corpus :=
  c.appendCut limit golden none

end Corpus

end Neva
