import Mathlib.Data.List.Basic
import Mathlib.Tactic.Common
import Neva.Dict

/-!
# Paths and symbolic links

A `FileSystem` gives what stands at each absolute path: a file, a directory, or a symbolic link with
what it says.  `FileSystem.walk` follows a path from a directory, through the links it meets; a
link whose own target cannot be followed without it is a loop, and is followed nowhere.

`FileSystem.resolve` gives the place a path means, whether or not something stands there, and
`FileSystem.stat` what stands there.  A place that was resolved resolves to itself
(`plain_of_resolve`, `Plain.resolvePath`), and nothing stands below what is no directory
(`resolvePath_append_of_bare`).
-/

set_option autoImplicit false

namespace Links

variable {α : Type*} [DecidableEq α]

/-- A component of a path. -/
inductive Part (α : Type*)
  | up
  | into (name : α)
  deriving DecidableEq

structure Location (α : Type*) where
  absolute : Bool
  parts : List (Part α)
  deriving DecidableEq

inductive Entry (α : Type*)
  | file
  | dir
  | link (target : Location α)
  /-- A device, a socket or a pipe. -/
  | other
  deriving DecidableEq

/-- What stands where.  Every entry stands in a directory. -/
structure FileSystem (α : Type*) where
  entries : List (List α × Entry α)
  nonempty : ∀ e ∈ entries, e.1 ≠ []
  parent : ∀ e ∈ entries, ∀ p n, e.1 = p ++ [n] → p = [] ∨ (p, Entry.dir) ∈ entries
  nodup : (entries.map Prod.fst).Nodup

/-- The path that goes down through these names. -/
def down (names : List α) : List (Part α) := names.map .into

namespace FileSystem

variable (fs : FileSystem α)

/-- What stands at a place. -/
def lookup (p : List α) : Option (Entry α) := if p = [] then some .dir else Dict.get fs.entries p

/-- The symbolic link at a place. -/
def link? (p : List α) : Option (Location α) :=
  match fs.lookup p with
  | some (.link target) => some target
  | _ => none

/-- Whether a step that follows no link may be taken: always, or only to what stands in a
directory. -/
def passable (strict : Bool) (place : List α) : Part α → Bool
  | .up => !strict || fs.lookup place = some .dir
  | .into n => !strict || (fs.lookup (place ++ [n])).isSome

/-- One component from a place; a link is followed. -/
def advance (strict : Bool) (follow : List α → List (Part α) → Option (List α)) (place : List α)
    (part : Part α) : Option (List α) :=
  if fs.passable strict place part then
    match part with
    | .up => some place.dropLast
    | .into n =>
      match fs.link? (place ++ [n]) with
      | none => some (place ++ [n])
      | some target => follow (if target.absolute then [] else place) target.parts
  else none

/-- Where a path leads from a place, with fewer than so many links inside one another. -/
def walk (strict : Bool) : ℕ → List α → List (Part α) → Option (List α)
  | 0, _, _ => none
  | fuel + 1, place, parts => parts.foldlM (fs.advance strict (walk strict fuel)) place

/-- No more links than there are can be inside one another. -/
def depth : ℕ := fs.entries.length + 1

/-- The place a path means, in a working directory. -/
def resolve (cwd : List α) (path : Location α) : Option (List α) :=
  fs.walk false fs.depth [] (if path.absolute then path.parts else down cwd ++ path.parts)

/-- The place that a path of names means. -/
def resolvePath (path : List α) : Option (List α) := fs.walk false fs.depth [] (down path)

/-- What stands where a path of names leads. -/
def stat (path : List α) : Option (Entry α) :=
  (fs.walk true fs.depth [] (down path)).bind fs.lookup

/-- The names in a directory. -/
def names (dir : List α) : List α :=
  fs.entries.filterMap fun e ↦ if e.1.dropLast = dir then e.1.getLast? else none

/-- The names in the directory to which a path of names leads. -/
def listdir (path : List α) : Option (List α) :=
  (fs.walk true fs.depth [] (down path)).bind fun p ↦
    if fs.lookup p = some .dir then some (fs.names p) else none

/-- No part of a place is a link. -/
def Plain (p : List α) : Prop := ∀ q, q <+: p → fs.link? q = none

/-! ## What stands where -/

variable {fs}

@[simp]
theorem lookup_nil : fs.lookup [] = some .dir := if_pos rfl

theorem lookup_append_singleton {p : List α} {n : α} {e : Entry α}
    (h : fs.lookup (p ++ [n]) = some e) : fs.lookup p = some .dir := by
  rw [lookup, if_neg (by simp)] at h
  have hmem := Dict.get_eq_some fs.nodup |>.mp h
  rcases fs.parent _ hmem p n rfl with rfl | hdir
  · exact lookup_nil
  · rw [lookup]
    split
    · rfl
    · exact (Dict.get_eq_some fs.nodup).mpr hdir

/-- Something stands only in directories. -/
theorem lookup_of_le {p q : List α} {e : Entry α} (h : fs.lookup (p ++ q) = some e)
    (hq : q ≠ []) : fs.lookup p = some .dir := by
  induction q using List.reverseRecOn generalizing e with
  | nil => exact absurd rfl hq
  | append_singleton q n ih =>
    rw [← List.append_assoc] at h
    have hdir := lookup_append_singleton h
    by_cases hnil : q = []
    · simpa [hnil] using hdir
    · exact ih hdir hnil

theorem link?_eq_some {p : List α} {target : Location α} :
    fs.link? p = some target ↔ fs.lookup p = some (.link target) := by
  rw [link?]
  split
  · rename_i t h
    simp [h]
  · rename_i h
    refine ⟨fun h' ↦ ?_, fun h' ↦ absurd h' (h target)⟩
    cases h'

@[simp]
theorem link?_nil : fs.link? [] = none := by
  simp [link?]

/-- A name stands in a directory exactly when it is listed there. -/
theorem mem_names {dir : List α} {n : α} :
    n ∈ fs.names dir ↔ (fs.lookup (dir ++ [n])).isSome := by
  rw [lookup, if_neg (by simp), Dict.get_isSome, names, List.mem_filterMap]
  constructor
  · rintro ⟨e, he, hn⟩
    split at hn
    · rename_i hdir
      rw [List.mem_map]
      exact ⟨e, he, by rw [← hdir]; exact (List.dropLast_append_getLast? n hn).symm⟩
    · cases hn
  · intro h
    obtain ⟨e, he, heq⟩ := List.mem_map.mp h
    exact ⟨e, he, by simp [heq]⟩

/-! ## Walking -/

theorem walk_append {strict : Bool} {fuel : ℕ} {place : List α} {parts parts' : List (Part α)} :
    fs.walk strict (fuel + 1) place (parts ++ parts') =
      (fs.walk strict (fuel + 1) place parts).bind fun q ↦ fs.walk strict (fuel + 1) q parts' :=
  List.foldlM_append

theorem walk_cons {strict : Bool} {fuel : ℕ} {place : List α} {part : Part α}
    {parts : List (Part α)} :
    fs.walk strict (fuel + 1) place (part :: parts) =
      (fs.advance strict (fs.walk strict fuel) place part).bind fun q ↦
        fs.walk strict (fuel + 1) q parts :=
  List.foldlM_cons

theorem advance_eq_some {strict : Bool} {follow : List α → List (Part α) → Option (List α)}
    {place r : List α} {part : Part α} :
    fs.advance strict follow place part = some r ↔ fs.passable strict place part = true ∧
      (part = .up ∧ r = place.dropLast ∨
        ∃ n, part = .into n ∧ (fs.link? (place ++ [n]) = none ∧ r = place ++ [n] ∨
          ∃ target, fs.link? (place ++ [n]) = some target ∧
            follow (if target.absolute then [] else place) target.parts = some r)) := by
  rw [advance.eq_def]
  by_cases hpass : fs.passable strict place part = true
  · cases part with
    | up => simp [hpass, @eq_comm _ r]
    | into n => cases hlink : fs.link? (place ++ [n]) <;> simp [hpass, hlink, @eq_comm _ r]
  · simp [hpass]

/-- What every step keeps, every walk keeps. -/
theorem walk_induction {strict : Bool} (P : List α → Prop) (hnil : P [])
    (hup : ∀ p, P p → P p.dropLast)
    (hinto : ∀ p n, P p → fs.passable strict p (.into n) = true → fs.link? (p ++ [n]) = none →
      P (p ++ [n]))
    {fuel : ℕ} {place r : List α} {parts : List (Part α)} (hplace : P place)
    (h : fs.walk strict fuel place parts = some r) : P r := by
  induction fuel generalizing place parts r with
  | zero => cases h
  | succ fuel ih =>
    induction parts generalizing place with
    | nil =>
      cases h
      exact hplace
    | cons part parts ihparts =>
      rw [walk_cons] at h
      obtain ⟨q, hq, hrest⟩ := Option.bind_eq_some_iff.mp h
      refine ihparts ?_ hrest
      obtain ⟨hpass, ⟨rfl, rfl⟩ | ⟨n, rfl, ⟨hlink, rfl⟩ | ⟨target, -, hfollow⟩⟩⟩ :=
        advance_eq_some.mp hq
      · exact hup _ hplace
      · exact hinto _ _ hplace hpass hlink
      · refine ih ?_ hfollow
        split
        · exact hnil
        · exact hplace

/-- Where a strict walk leads, any walk leads. -/
theorem walk_of_strict {fuel : ℕ} {place r : List α} {parts : List (Part α)}
    (h : fs.walk true fuel place parts = some r) : fs.walk false fuel place parts = some r := by
  induction fuel generalizing place parts r with
  | zero => cases h
  | succ fuel ih =>
    induction parts generalizing place with
    | nil => exact h
    | cons part parts ihparts =>
      rw [walk_cons] at h ⊢
      obtain ⟨q, hq, hrest⟩ := Option.bind_eq_some_iff.mp h
      refine Option.bind_eq_some_iff.mpr ⟨q, ?_, ihparts hrest⟩
      obtain ⟨-, hstep⟩ := advance_eq_some.mp hq
      refine advance_eq_some.mpr ⟨by cases part <;> rfl, hstep.imp_right ?_⟩
      rintro ⟨n, hn, hlink | ⟨target, hlink, hfollow⟩⟩
      · exact ⟨n, hn, .inl hlink⟩
      · exact ⟨n, hn, .inr ⟨target, hlink, ih hfollow⟩⟩

/-- A path that meets no link leads where it says. -/
theorem walk_down {strict : Bool} {fuel : ℕ} {place names : List α}
    (h : ∀ q n, q ++ [n] <+: names →
      fs.passable strict (place ++ q) (.into n) = true ∧ fs.link? (place ++ q ++ [n]) = none) :
    fs.walk strict (fuel + 1) place (down names) = some (place ++ names) := by
  induction names generalizing place with
  | nil => simp [down, walk]
  | cons n names ih =>
    obtain ⟨hpass, hlink⟩ := h [] n ⟨names, rfl⟩
    rw [List.append_nil] at hpass hlink
    have hrest : fs.walk strict (fuel + 1) (place ++ [n]) (down names) =
        some (place ++ [n] ++ names) := by
      refine ih fun q n' hle ↦ ?_
      rw [List.append_assoc place]
      exact h ([n] ++ q) n' (List.cons_prefix_cons.mpr ⟨rfl, hle⟩)
    rw [List.append_assoc] at hrest
    rw [down, List.map_cons, walk_cons]
    exact Option.bind_eq_some_iff.mpr ⟨place ++ [n],
      advance_eq_some.mpr ⟨hpass, .inr ⟨n, rfl, .inl ⟨hlink, rfl⟩⟩⟩, hrest⟩

/-! ## Plain places -/

theorem plain_nil : fs.Plain [] := by
  intro q hq
  rw [List.prefix_nil.mp hq]
  exact link?_nil

theorem Plain.of_prefix {p q : List α} (h : fs.Plain p) (hq : q <+: p) : fs.Plain q :=
  fun q' hq' ↦ h q' (hq'.trans hq)

theorem Plain.append_singleton {p : List α} {n : α} (h : fs.Plain p)
    (hlink : fs.link? (p ++ [n]) = none) : fs.Plain (p ++ [n]) := by
  intro q hq
  rcases List.prefix_concat_iff.mp hq with rfl | hq
  · exact hlink
  · exact h q hq

/-- A walk from a plain place leads to a plain place. -/
theorem Plain.walk {strict : Bool} {fuel : ℕ} {place r : List α} {parts : List (Part α)}
    (hplace : fs.Plain place) (h : fs.walk strict fuel place parts = some r) : fs.Plain r :=
  walk_induction fs.Plain plain_nil (fun p hp ↦ hp.of_prefix (List.dropLast_prefix p))
    (fun _ _ hp _ hlink ↦ hp.append_singleton hlink) hplace h

/-- A place that was resolved is plain. -/
theorem plain_of_resolve {cwd r : List α} {path : Location α} (h : fs.resolve cwd path = some r) :
    fs.Plain r :=
  plain_nil.walk h

theorem plain_of_resolvePath {p r : List α} (h : fs.resolvePath p = some r) : fs.Plain r :=
  plain_nil.walk h

/-- A plain place resolves to itself. -/
theorem Plain.resolvePath {p : List α} (h : fs.Plain p) : fs.resolvePath p = some p :=
  walk_down fun _ _ hq ↦ ⟨rfl, h _ hq⟩

theorem Plain.walk_strict {p : List α} (h : fs.Plain p) (hsome : (fs.lookup p).isSome) :
    fs.walk true fs.depth [] (down p) = some p := by
  obtain ⟨e, hlookup⟩ := Option.isSome_iff_exists.mp hsome
  refine walk_down fun q n hq ↦ ⟨?_, h _ hq⟩
  obtain ⟨rest, hrest⟩ := hq
  rw [passable, Bool.not_true, Bool.false_or]
  by_cases hnil : rest = []
  · rw [hnil, List.append_nil] at hrest
    rw [List.nil_append, hrest, hlookup]
    rfl
  · rw [← hrest] at hlookup
    rw [List.nil_append, lookup_of_le hlookup hnil]
    rfl

/-- What stands at a plain place is found there. -/
theorem Plain.stat {p : List α} (h : fs.Plain p) : fs.stat p = fs.lookup p := by
  cases hlookup : fs.lookup p with
  | none =>
    rw [FileSystem.stat, Option.bind_eq_none_iff]
    intro r hr
    have hsame := (walk_of_strict hr).symm.trans h.resolvePath
    rw [Option.some.inj hsame, hlookup]
  | some e => rw [FileSystem.stat, h.walk_strict (by simp [hlookup]), Option.bind_some, hlookup]

/-- What is in a directory that is a plain place. -/
theorem Plain.listdir {p : List α} (h : fs.Plain p) (hdir : fs.lookup p = some .dir) :
    fs.listdir p = some (fs.names p) := by
  rw [FileSystem.listdir, h.walk_strict (by simp [hdir]), Option.bind_some, if_pos hdir]

/-- Nothing stands below what is no directory, so a path through it says where it leads. -/
theorem walk_below {fuel : ℕ} {p names : List α} (h : fs.lookup p ≠ some .dir) :
    fs.walk false (fuel + 1) p (down names) = some (p ++ names) := by
  refine walk_down fun q n _ ↦ ⟨rfl, ?_⟩
  rw [link?]
  split
  · rename_i target htarget
    rw [List.append_assoc] at htarget
    exact absurd (lookup_of_le htarget (by simp)) h
  · rfl

theorem resolvePath_append_of_bare {p q : List α} (hp : fs.resolvePath p = some q)
    (hbare : fs.lookup q ≠ some .dir) (below : List α) :
    fs.resolvePath (p ++ below) = some (q ++ below) := by
  have hwalk : fs.walk false (fs.entries.length + 1) [] (down p) = some q := hp
  have hparts : down (p ++ below) = down p ++ down below := List.map_append
  rw [FileSystem.resolvePath, depth, hparts, walk_append, hwalk, Option.bind_some,
    walk_below hbare]

/-- What is found along a path stands where the path leads. -/
theorem resolvePath_of_stat {p : List α} {e : Entry α} (h : fs.stat p = some e) :
    ∃ q, fs.resolvePath p = some q ∧ fs.lookup q = some e := by
  obtain ⟨q, hq, he⟩ := Option.bind_eq_some_iff.mp h
  exact ⟨q, walk_of_strict hq, he⟩

/-- What is found by a name in a plain place is an entry there. -/
theorem Plain.isSome_of_stat {p : List α} {n : α} {e : Entry α} (h : fs.Plain p)
    (hstat : fs.stat (p ++ [n]) = some e) : (fs.lookup (p ++ [n])).isSome := by
  obtain ⟨q, hq, -⟩ := Option.bind_eq_some_iff.mp hstat
  have hparts : down (p ++ [n]) = down p ++ [.into n] := List.map_append
  rw [hparts, depth, walk_append] at hq
  obtain ⟨place, hplace, hlast⟩ := Option.bind_eq_some_iff.mp hq
  have hsame := (walk_of_strict hplace).symm.trans h.resolvePath
  rw [Option.some.inj hsame, walk_cons] at hlast
  obtain ⟨q', hq', -⟩ := Option.bind_eq_some_iff.mp hlast
  simpa [passable] using (advance_eq_some.mp hq').1

end FileSystem

end Links
