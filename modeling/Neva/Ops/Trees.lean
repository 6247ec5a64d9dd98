import Mathlib.Data.List.Basic
import Mathlib.Data.List.Nodup
import Mathlib.Tactic.Common
import Neva.Dict
import Neva.Schema

/-!
# Directory trees

A `Tree` is what a process finds below a directory: a path for every entry, and what stands there.
A path is the list of its components, and a component is the text Python decodes a file name to.
Such a text is not always one that UTF-8 can write, see `Sym`.

A symbolic link is described by what is found through it, since that is all `is_file`, `exists`
and `open` tell about it.  `Tree.rglob` lists what is below a directory; links are listed, and not
followed.
-/

set_option autoImplicit false

namespace Neva.Ops

/-! ## Names and paths -/

/-- A character of a decoded file name.  `os.fsdecode` keeps a byte that belongs to no UTF-8
character as a lone surrogate. -/
inductive Sym
  | char (c : Char)
  | surrogate (byte : UInt8)
  deriving DecidableEq

/-- A component of a path. -/
abbrev Name := List Sym

instance : LawfulBEq Name := List.instLawfulBEq

/-- A relative path: its `parts`. -/
abbrev Path := List Name

/-- A text as a name. -/
def name (text : Text) : Name := text.map .char

theorem name_injective : Function.Injective name :=
  List.map_injective_iff.mpr fun _ _ h ↦ Sym.char.inj h

/-- The names a file system has. -/
structure Name.Allowed (n : Name) : Prop where
  nonempty : n ≠ []
  not_dot : n ≠ name ['.']
  not_dots : n ≠ name ['.', '.']
  no_slash : .char '/' ∉ n
  no_nul : .char (Char.ofNat 0) ∉ n

instance (n : Name) : Decidable n.Allowed :=
  decidable_of_iff (n ≠ [] ∧ n ≠ name ['.'] ∧ n ≠ name ['.', '.'] ∧ .char '/' ∉ n ∧
    .char (Char.ofNat 0) ∉ n)
    ⟨fun h ↦ ⟨h.1, h.2.1, h.2.2.1, h.2.2.2.1, h.2.2.2.2⟩, fun h ↦ ⟨h.1, h.2, h.3, h.4, h.5⟩⟩

/-- `path.relative_to(root)`, for what is below `root`. -/
def relativeTo (root p : Path) : Option Path :=
  if root <+: p ∧ p ≠ root then some (p.drop root.length) else none

theorem relativeTo_eq_some {root p q : Path} :
    relativeTo root p = some q ↔ p = root ++ q ∧ q ≠ [] := by
  rw [relativeTo]
  constructor
  · intro h
    split at h
    · rename_i hroot
      obtain ⟨⟨q', rfl⟩, hne⟩ := hroot
      rw [List.drop_left, Option.some.injEq] at h
      subst h
      exact ⟨rfl, by simpa using hne⟩
    · cases h
  · rintro ⟨rfl, hne⟩
    rw [if_pos ⟨List.prefix_append _ _, by simpa using hne⟩, List.drop_left]

/-! ## Trees -/

/-- What stands at the end of a symbolic link. -/
inductive Target
  | file (bytes : Bytes)
  /-- A directory, with the files that are found below it. -/
  | dir (files : List Path)
  /-- Nothing, or what is neither file nor directory. -/
  | other
  deriving DecidableEq

/-- An entry of a directory. -/
inductive Node
  | file (bytes : Bytes)
  | dir
  | link (leadsTo : Target)
  /-- A device, a socket or a pipe. -/
  | special
  deriving DecidableEq

namespace Node

/-- What `open` reads. -/
def bytes? : Node → Option Bytes
  | .file bytes => some bytes
  | .link (.file bytes) => some bytes
  | _ => none

/-- `path.is_file()` -/
def isFile (n : Node) : Bool := n.bytes?.isSome

/-- `path.is_dir()` -/
def isDir : Node → Bool
  | .dir => true
  | .link (.dir _) => true
  | _ => false

/-- `path.is_symlink()` -/
def isSymlink : Node → Bool
  | .link _ => true
  | _ => false

/-- The contents of a regular file. -/
def regular? : Node → Option Bytes
  | .file bytes => some bytes
  | _ => none

theorem regular?_eq_bytes? {n : Node} (h : n.isSymlink = false) : n.regular? = n.bytes? := by
  cases n with
  | link t => cases h
  | _ => rfl

end Node

/-- The entries below a directory.  Every name is one a file system has, and every entry stands
in a directory that is an entry too. -/
structure Tree where
  entries : List (Path × Node)
  nodup : (entries.map Prod.fst).Nodup
  allowed : ∀ e ∈ entries, e.1 ≠ [] ∧ ∀ n ∈ e.1, n.Allowed
  parent : ∀ e ∈ entries, ∀ p n, e.1 = p ++ [n] → p = [] ∨ (p, Node.dir) ∈ entries

namespace Tree

variable (t : Tree)

/-- The entry at a path. -/
def node? (p : Path) : Option Node := Dict.get t.entries p

/-- `path.is_file()` -/
def isFile (p : Path) : Bool := (t.node? p).any Node.isFile

/-- `path.is_dir()` -/
def isDir (p : Path) : Bool := (t.node? p).any Node.isDir

/-- What `open` reads at a path. -/
def bytes? (p : Path) : Option Bytes := (t.node? p).bind Node.bytes?

/-- The contents of the regular file at a path. -/
def regular? (p : Path) : Option Bytes := (t.node? p).bind Node.regular?

/-- `root.rglob("*")`, with the paths relative to `root`. -/
def rglob (root : Path) : List (Path × Node) :=
  t.entries.filterMap fun e ↦ (relativeTo root e.1).map fun q ↦ (q, e.2)

theorem node?_eq_some {p : Path} {n : Node} : t.node? p = some n ↔ (p, n) ∈ t.entries := by
  constructor
  · intro h
    obtain ⟨e, he, rfl⟩ := Option.map_eq_some_iff.mp h
    have hpath : e.1 = p := by simpa using List.find?_some he
    rw [← hpath]
    exact List.mem_of_find?_eq_some he
  · intro h
    cases hfind : t.node? p with
    | none =>
      rw [node?, Dict.get_eq_none] at hfind
      exact absurd (List.mem_map_of_mem h) hfind
    | some n' =>
      obtain ⟨e, he, rfl⟩ := Option.map_eq_some_iff.mp hfind
      have hpath : e.1 = p := by simpa using List.find?_some he
      have heq := List.inj_on_of_nodup_map t.nodup (List.mem_of_find?_eq_some he) h hpath
      rw [heq]

theorem mem_rglob {root q : Path} {n : Node} :
    (q, n) ∈ t.rglob root ↔ (root ++ q, n) ∈ t.entries ∧ q ≠ [] := by
  rw [rglob, List.mem_filterMap]
  constructor
  · rintro ⟨e, he, hq⟩
    obtain ⟨q', hq', heq⟩ := Option.map_eq_some_iff.mp hq
    cases heq
    obtain ⟨hpath, hne⟩ := relativeTo_eq_some.mp hq'
    exact ⟨by rwa [← hpath], hne⟩
  · rintro ⟨he, hne⟩
    exact ⟨_, he, by rw [relativeTo_eq_some.mpr ⟨rfl, hne⟩]; rfl⟩

theorem isFile_iff {p : Path} : t.isFile p = true ↔ ∃ b, t.bytes? p = some b := by
  rw [isFile, bytes?]
  cases t.node? p with
  | none => simp
  | some n => simp [Node.isFile, Option.isSome_iff_exists]

/-- The regular file at a path is an entry of the tree. -/
theorem regular?_eq_some {p : Path} {b : Bytes} :
    t.regular? p = some b ↔ (p, Node.file b) ∈ t.entries := by
  rw [← node?_eq_some, regular?]
  cases t.node? p with
  | none => simp
  | some n => cases n <;> simp [Node.regular?]

end Tree

/-! ## Text files -/

/-- `text.encode("utf-8")` -/
def encode (text : Text) : Bytes := (String.ofList text).toByteArray.data.toList

/-- `data.decode("utf-8")`, none when it raises a `UnicodeDecodeError`. -/
def decode (data : Bytes) : Option Text := (String.fromUTF8? ⟨data.toArray⟩).map String.toList

@[simp] theorem decode_encode (text : Text) : decode (encode text) = some text := by
  have hdata : (⟨(encode text).toArray⟩ : ByteArray) = (String.ofList text).toByteArray := by
    rw [encode, Array.toArray_toList]
  rw [decode, hdata, String.fromUTF8?, dif_pos (String.ofList text).isValidUTF8]
  exact congrArg some String.toList_ofList

theorem encode_injective : Function.Injective encode := fun text text' h ↦
  Option.some.inj
    ((decode_encode text).symm.trans ((congrArg decode h).trans (decode_encode text')))

theorem encode_eq_flatMap (text : Text) : encode text = text.flatMap String.utf8EncodeChar := by
  show text.utf8Encode.data.toList = _
  rw [List.utf8Encode]
  simp

/-- UTF-8 has a zero byte for the character NUL only. -/
theorem zero_notMem_utf8EncodeChar {c : Char} (h : c ≠ Char.ofNat 0) :
    (0 : UInt8) ∉ String.utf8EncodeChar c := by
  have hpos : 0 < c.toNat := by
    rcases Nat.eq_zero_or_pos c.toNat with hz | hp
    · exact absurd (by rw [← Char.ofNat_toNat c, hz]) h
    · exact hp
  have hbyte {n : ℕ} (h : 0 < n) (h' : n < 256) : (0 : UInt8) ≠ UInt8.ofNat n := by
    intro heq
    have := congrArg UInt8.toNat heq
    simp at this
    omega
  have hval : c.val.toNat = c.toNat := rfl
  rw [String.utf8EncodeChar]
  simp only [hval]
  split_ifs <;> simp only [List.mem_cons, List.not_mem_nil, or_false, not_or]
  · exact hbyte hpos (by omega)
  · exact ⟨hbyte (by omega) (by omega), hbyte (by omega) (by omega)⟩
  · exact ⟨hbyte (by omega) (by omega), hbyte (by omega) (by omega), hbyte (by omega) (by omega)⟩
  · exact ⟨hbyte (by omega) (by omega), hbyte (by omega) (by omega), hbyte (by omega) (by omega),
      hbyte (by omega) (by omega)⟩

theorem zero_notMem_encode {text : Text} (h : Char.ofNat 0 ∉ text) : (0 : UInt8) ∉ encode text := by
  rw [encode_eq_flatMap, List.mem_flatMap]
  rintro ⟨c, hc, hzero⟩
  exact zero_notMem_utf8EncodeChar (fun hc' ↦ h (hc' ▸ hc)) hzero

/-- The characters at which `str.splitlines` ends a line. -/
def isLineBreak (c : Char) : Bool :=
  c ∈ ['\n', '\r', '\x0b', '\x0c', '\x1c', '\x1d', '\x1e', '\x85', '\u2028', '\u2029']

/-- `text.splitlines()` -/
def splitlines : Text → List Text
  | [] => []
  | '\r' :: '\n' :: s => [] :: splitlines s
  | c :: s =>
    if isLineBreak c then [] :: splitlines s
    else
      match splitlines s with
      | [] => [[c]]
      | line :: lines => (c :: line) :: lines

end Neva.Ops
