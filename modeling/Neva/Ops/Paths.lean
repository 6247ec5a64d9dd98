import Neva.Links
import Neva.Ops.Integrity
import Neva.Raising

/-!
# Where a backup may go, and a restore

`scripts/ops/paths.py` keeps a recovery away from the live data tree.  A backup goes to a place
that does not exist and is not inside that tree; a restore goes to a place that is marked isolated,
contains nothing but the marker, and is not that tree.

For a backup that is enough.  A restore may still go to a place *inside* the live tree, since only
equality is tested there: `recovery_apart_iff` says when it stays apart, `restore_inside_live` is a
restore that does not.
-/

set_option autoImplicit false

namespace Neva.Ops

open Links Raising

/-! ## The machine -/

/-- What the scripts find when they run. -/
structure Machine where
  fs : FileSystem Name
  cwd : Path
  environ : Text → Option Text
  /-- `urlparse(url).path` -/
  urlPath : Text → Text

/-- How a check fails. -/
inductive Refusal
  /-- An `OpsPathError`. -/
  | path (text : Text)
  /-- The `RuntimeError` of a loop of links. -/
  | loop
  /-- The `NotADirectoryError` of a listing. -/
  | notADirectory
  deriving DecidableEq

/-- `Path(text)` -/
def parseLocation (text : Name) : Location Name where
  absolute := text.head? = some (.char '/')
  parts := ((text.splitOn (.char '/')).filter fun part ↦ part ≠ [] ∧ part ≠ name ['.']).map
    fun part ↦ if part = name ['.', '.'] then .up else .into part

def isolatedEnvFlag : Text := "NEVA_OPS_ISOLATED".toList

def liveDataDirDefault : Location Name where
  absolute := false
  parts := [.into (name "data".toList)]

def liveDatabaseDefault : Text := "dialect_factory".toList

def isolatedDatabaseSuffix : Text := "_isolated".toList

def isolatedComposeSuffix : Text := "_isolated".toList

namespace Machine

variable (m : Machine)

/-! ## The checks -/

/-- What a computation that may loop gives. -/
def orLoop {β : Type} : Option β → Except Refusal β
  | none => .error .loop
  | some b => .ok b

/-- Resolve a path to an absolute, normalized location. -/
def resolvePath (text : Name) : Except Refusal Path :=
  orLoop (m.fs.resolve m.cwd (parseLocation text))

/-- `child` is equal to or nested under `parent`. -/
def isPathInside (child parent : Path) : Except Refusal Bool := do
  let child ← orLoop (m.fs.resolvePath child)
  let parent ← orLoop (m.fs.resolvePath parent)
  return decide (parent <+: child)

/-- Extract the database name from a DSN. -/
def databaseNameFromUrl (url : Text) : Text :=
  let database := (m.urlPath url).dropWhile (· == '/')
  if database = [] then liveDatabaseDefault else database

def validateBackupDestination (destination dataDir : Path) (present : Bool) :
    Except Refusal Unit := do
  let inside ← m.isPathInside destination dataDir
  if inside then .error (.path "backup destination must be outside DATA_DIR".toList)
  else if present then
    .error (.path "backup destination already exists; refusing overwrite".toList)
  else if isSecretFilename (destination.getLast?.getD []) then
    .error (.path "backup destination cannot be a secret file".toList)
  else .ok ()

def validateBackupSource (dataDir : Path) : Except Refusal Unit :=
  if m.fs.stat dataDir = none then
    .error (.path "backup source DATA_DIR does not exist".toList)
  else if m.fs.stat dataDir ≠ some .dir then
    .error (.path "backup source DATA_DIR is not a directory".toList)
  else .ok ()

/-- The live root, `./data` if none is given. -/
def liveRoot (liveDataDir : Option Path) : Except Refusal Path :=
  match liveDataDir with
  | some p => orLoop (m.fs.resolvePath p)
  | none => orLoop (m.fs.resolve m.cwd liveDataDirDefault)

def isLiveDataDir (dataDir : Path) (liveDataDir : Option Path) : Except Refusal Bool := do
  let liveRoot ← m.liveRoot liveDataDir
  let dataDir ← orLoop (m.fs.resolvePath dataDir)
  return decide (dataDir = liveRoot)

def hasIsolatedMarker (dataDir : Path) : Bool :=
  m.fs.stat (dataDir ++ [isolatedMarkerFilename]) = some .file

/-- A text, or what is used if it is not given or empty. -/
def orElse (text : Option Text) (default : Text) : Text :=
  if text.getD [] = [] then default else text.getD []

/-- The arguments of a restore, apart from its paths. -/
structure RestoreOptions where
  databaseUrl : Text
  composeProject : Text
  isolatedEnv : Option Text
  liveDatabaseUrl : Option Text

/-- Refuse restore targets that are not explicitly marked isolated. -/
def validateRestoreTarget (dataDir : Path) (options : RestoreOptions) (liveDataDir : Option Path) :
    Except Refusal Unit :=
  let envFlag := options.isolatedEnv.getD ((m.environ isolatedEnvFlag).getD [])
  let database := m.databaseNameFromUrl options.databaseUrl
  let liveDb := m.databaseNameFromUrl
    (orElse options.liveDatabaseUrl ((m.environ "DATABASE_URL".toList).getD []))
  if envFlag ∉ ["1".toList, "true".toList, "TRUE".toList, "yes".toList, "YES".toList] then
    .error (.path "restore verification requires NEVA_OPS_ISOLATED=1".toList)
  else if ¬ m.hasIsolatedMarker dataDir then
    .error (.path "restore target DATA_DIR must contain marker file .neva-isolated".toList)
  else if ¬ isolatedComposeSuffix <:+ options.composeProject then
    .error (.path "compose project name must end with _isolated".toList)
  else if ¬ isolatedDatabaseSuffix <:+ database then
    .error (.path "database name must end with _isolated".toList)
  else do
    let live ← m.isLiveDataDir dataDir liveDataDir
    if live then .error (.path "restore target DATA_DIR matches live development path".toList)
    else if liveDb ≠ [] ∧ database = liveDb then
      .error (.path "restore target database matches live development database".toList)
    else .ok ()

/-- Refuse restore when the destination directory already contains data. -/
def validateRestoreDestinationEmpty (destination : Path) : Except Refusal Unit :=
  if m.fs.stat destination = none then .ok ()
  else
    match m.fs.listdir destination with
    | none => .error .notADirectory
    | some entries =>
      if entries ≠ [] ∧ entries ≠ [isolatedMarkerFilename] then
        .error (.path "restore destination already contains data; refusing overwrite".toList)
      else .ok ()

/-! ## The commands -/

/-- `_cmd_validate_backup`, until the backup is planned: its destination, and the live data. -/
def cmdValidateBackup (destination dataDir : Name) : Except Refusal (Path × Path) := do
  let destination ← m.resolvePath destination
  let dataDir ← m.resolvePath dataDir
  m.validateBackupSource dataDir
  m.validateBackupDestination destination dataDir (m.fs.stat destination).isSome
  return (destination, dataDir)

/-- A path that is given and not empty, resolved. -/
def optionalPath (text : Option Name) : Except Refusal (Option Path) :=
  if text.getD [] = [] then .ok none else some <$> m.resolvePath (text.getD [])

/-- `_cmd_validate_restore`, until the source is verified: its target, and the live data.  The
target is always required to be empty. -/
def cmdValidateRestore (dataDir : Name) (options : RestoreOptions) (liveDataDir : Option Name) :
    Except Refusal (Path × Path) := do
  let dataDir ← m.resolvePath dataDir
  let liveDataDir ← m.optionalPath liveDataDir
  m.validateRestoreTarget dataDir options liveDataDir
  m.validateRestoreDestinationEmpty dataDir
  let live ← m.liveRoot liveDataDir
  return (dataDir, live)

/-! ## What is known of what was accepted -/

theorem orLoop_eq_ok {β : Type} {x : Option β} {b : β} : orLoop x = .ok b ↔ x = some b := by
  cases x <;> simp [orLoop]

variable {m}

theorem plain_of_resolvePath {text : Name} {p : Path} (h : m.resolvePath text = .ok p) :
    m.fs.Plain p :=
  FileSystem.plain_of_resolve (orLoop_eq_ok.mp h)

theorem isPathInside_eq_ok {child parent : Path} {b : Bool} (hchild : m.fs.Plain child)
    (hparent : m.fs.Plain parent) :
    m.isPathInside child parent = .ok b ↔ decide (parent <+: child) = b := by
  simp [isPathInside, hchild.resolvePath, hparent.resolvePath, orLoop, bind_eq_ok]

/-- A backup is accepted only for a place where nothing stands, which is outside the live data. -/
theorem cmdValidateBackup_ok {destination dataDir : Name} {d live : Path}
    (h : m.cmdValidateBackup destination dataDir = .ok (d, live)) :
    m.fs.Plain d ∧ m.fs.lookup d = none ∧ m.fs.lookup live = some .dir ∧ ¬ live <+: d := by
  obtain ⟨d', hd, h⟩ := bind_eq_ok.mp h
  obtain ⟨live', hlive, h⟩ := bind_eq_ok.mp h
  obtain ⟨⟨⟩, hsource, h⟩ := bind_eq_ok.mp h
  obtain ⟨⟨⟩, hdestination, h⟩ := bind_eq_ok.mp h
  obtain ⟨rfl, rfl⟩ := Prod.mk.inj (pure_eq_ok.mp h)
  have hd := plain_of_resolvePath hd
  have hlive := plain_of_resolvePath hlive
  rw [validateBackupSource, ite_error_eq_ok, ite_error_eq_ok, not_not, hlive.stat] at hsource
  obtain ⟨inside, hinside, h⟩ := bind_eq_ok.mp hdestination
  rw [ite_error_eq_ok, ite_error_eq_ok, hd.stat] at h
  rw [isPathInside_eq_ok hd hlive] at hinside
  refine ⟨hd, ?_, hsource.2.1, ?_⟩
  · simpa using h.2.1
  · simpa [← hinside] using h.1

/-- A restore is accepted only for a directory other than the live data, with nothing but the
marker in it. -/
theorem cmdValidateRestore_ok {dataDir : Name} {options : RestoreOptions}
    {liveDataDir : Option Name} {target live : Path}
    (h : m.cmdValidateRestore dataDir options liveDataDir = .ok (target, live)) :
    m.fs.Plain target ∧ m.fs.Plain live ∧ target ≠ live ∧
      m.fs.stat (target ++ [isolatedMarkerFilename]) = some .file ∧
      ∀ n, (m.fs.lookup (target ++ [n])).isSome → n = isolatedMarkerFilename := by
  obtain ⟨target', htarget, h⟩ := bind_eq_ok.mp h
  obtain ⟨given, hgiven, h⟩ := bind_eq_ok.mp h
  obtain ⟨⟨⟩, hisolated, h⟩ := bind_eq_ok.mp h
  obtain ⟨⟨⟩, hempty, h⟩ := bind_eq_ok.mp h
  obtain ⟨live', hlive, h⟩ := bind_eq_ok.mp h
  obtain ⟨rfl, rfl⟩ := Prod.mk.inj (pure_eq_ok.mp h)
  have htarget := plain_of_resolvePath htarget
  have hlive' : m.fs.Plain live' := by
    cases given with
    | none => exact FileSystem.plain_of_resolve (orLoop_eq_ok.mp hlive)
    | some p => exact FileSystem.plain_of_resolvePath (orLoop_eq_ok.mp hlive)
  simp only [validateRestoreTarget, ite_error_eq_ok, bind_eq_ok, not_not] at hisolated
  obtain ⟨-, hmarker, -, -, isLive, hisLive, hother, -⟩ := hisolated
  have hmarker : m.fs.stat (target' ++ [isolatedMarkerFilename]) = some .file := by
    simpa [hasIsolatedMarker] using hmarker
  -- the marker stands in the target, so the target is a directory
  have hsome : (m.fs.lookup (target' ++ [isolatedMarkerFilename])).isSome :=
    htarget.isSome_of_stat hmarker
  obtain ⟨e, he⟩ := Option.isSome_iff_exists.mp hsome
  have hdir := FileSystem.lookup_append_singleton he
  refine ⟨htarget, hlive', ?_, hmarker, fun n hn ↦ ?_⟩
  · obtain ⟨root, hroot, hisLive⟩ := bind_eq_ok.mp hisLive
    obtain ⟨place, hplace, hisLive⟩ := bind_eq_ok.mp hisLive
    obtain rfl : live' = root := Except.ok.inj (hlive.symm.trans hroot)
    obtain rfl : target' = place :=
      Option.some.inj (htarget.resolvePath.symm.trans (orLoop_eq_ok.mp hplace))
    rw [← pure_eq_ok.mp hisLive] at hother
    simpa using hother
  · rw [validateRestoreDestinationEmpty, htarget.stat, if_neg (by simp [hdir]),
      htarget.listdir hdir] at hempty
    dsimp only at hempty
    rw [ite_error_eq_ok, not_and_or, not_not, not_not] at hempty
    have hlisted := FileSystem.mem_names.mpr hn
    rcases hempty.1 with hnone | hone
    · rw [hnone] at hlisted
      cases hlisted
    · rw [hone] at hlisted
      exact List.mem_singleton.mp hlisted

/-! ## Apart from the live data -/

/-- Neither place is inside the other. -/
def Separate (p q : Path) : Prop := ¬ q <+: p ∧ ¬ p <+: q

/-- A place that is below one of two separate places. -/
theorem Separate.below {p q : Path} (h : Separate p q) (below : Path) :
    Separate (p ++ below) q := by
  constructor
  · intro hq
    rcases List.prefix_or_prefix_of_prefix hq (List.prefix_append p below) with h' | h'
    · exact h.1 h'
    · exact h.2 h'
  · exact fun hq ↦ h.2 ((List.prefix_append p below).trans hq)

variable (m) in
/-- The target is not inside the live data; where there are no live data, it is not around their
place; and if its marker is a link, that leads to neither. -/
structure Apart (target live : Path) : Prop where
  outside : ¬ live <+: target
  around : m.fs.lookup live ≠ some .dir → ¬ target <+: live
  marker : ∀ link, m.fs.link? (target ++ [isolatedMarkerFilename]) = some link →
    ∀ p, m.fs.resolvePath (target ++ [isolatedMarkerFilename]) = some p → Separate p live

/-- A target that is accepted is not around live data that are there. -/
theorem Apart.separate {dataDir : Name} {options : RestoreOptions} {liveDataDir : Option Name}
    {target live : Path} (h : m.cmdValidateRestore dataDir options liveDataDir = .ok (target, live))
    (hapart : m.Apart target live) : Separate target live := by
  obtain ⟨-, hlive, hne, hmarker, hempty⟩ := cmdValidateRestore_ok h
  refine ⟨hapart.outside, fun hinside ↦ ?_⟩
  by_cases hdir : m.fs.lookup live = some .dir
  · obtain ⟨rest, rfl⟩ := hinside
    cases rest with
    | nil => exact hne (List.append_nil _).symm
    | cons n rest =>
      -- on the way to the live data stands the marker, which is a file
      have hway : m.fs.lookup (target ++ [n]) = some .dir := by
        by_cases hnil : rest = []
        · rwa [hnil] at hdir
        · exact FileSystem.lookup_of_le (q := rest) (by simpa using hdir) hnil
      have hname : n = isolatedMarkerFilename := hempty n (by simp [hway])
      subst hname
      have hplain : m.fs.Plain (target ++ [isolatedMarkerFilename]) :=
        hlive.of_prefix ⟨rest, by simp⟩
      rw [hplain.stat, hway] at hmarker
      cases hmarker
  · exact hapart.around hdir hinside

/-- What a path below an accepted target leads to. -/
theorem separate_below {dataDir : Name} {options : RestoreOptions} {liveDataDir : Option Name}
    {target live : Path} (h : m.cmdValidateRestore dataDir options liveDataDir = .ok (target, live))
    (hapart : m.Apart target live) {below p : Path}
    (hp : m.fs.resolvePath (target ++ below) = some p) : Separate p live := by
  have hseparate := hapart.separate h
  obtain ⟨htarget, -, -, hmarker, hempty⟩ := cmdValidateRestore_ok h
  cases below with
  | nil =>
    rw [List.append_nil, htarget.resolvePath] at hp
    cases hp
    exact hseparate
  | cons n below =>
    -- whatever the first name leads to is no directory
    have hfirst : ∃ q, m.fs.resolvePath (target ++ [n]) = some q ∧ Separate q live ∧
        m.fs.lookup q ≠ some .dir := by
      cases hlink : m.fs.link? (target ++ [n]) with
      | none =>
        have hplain := htarget.append_singleton hlink
        refine ⟨_, hplain.resolvePath, hseparate.below [n], fun hdir ↦ ?_⟩
        have hname : n = isolatedMarkerFilename := hempty n (by simp [hdir])
        rw [hname] at hplain hdir
        rw [hplain.stat, hdir] at hmarker
        cases hmarker
      | some link =>
        have hname : n = isolatedMarkerFilename :=
          hempty n (by simp [FileSystem.link?_eq_some.mp hlink])
        subst hname
        obtain ⟨q, hq, hfile⟩ := FileSystem.resolvePath_of_stat hmarker
        exact ⟨q, hq, hapart.marker link hlink q hq, by simp [hfile]⟩
    obtain ⟨q, hq, hsep, hbare⟩ := hfirst
    have hwalk := FileSystem.resolvePath_append_of_bare hq hbare below
    rw [List.append_assoc, List.singleton_append, hp] at hwalk
    rw [Option.some.inj hwalk]
    exact hsep.below below

/-- **A backup never touches the live data, and a restore does not exactly when its target is apart
from them.** -/
theorem recovery_apart_iff (m : Machine) :
    (∀ destination dataDir d live, m.cmdValidateBackup destination dataDir = .ok (d, live) →
      ∀ below p, m.fs.resolvePath (d ++ below) = some p → ¬ live <+: p) ∧
    (∀ dataDir options liveDataDir target live,
      m.cmdValidateRestore dataDir options liveDataDir = .ok (target, live) →
        ((∀ below p, m.fs.resolvePath (target ++ below) = some p →
          ¬ live <+: p ∧ ¬ p <+: live) ↔ m.Apart target live)) := by
  constructor
  · intro destination dataDir d live h below p hp hinside
    obtain ⟨hplain, hnothing, hlive, houtside⟩ := cmdValidateBackup_ok h
    have hbelow :=
      FileSystem.resolvePath_append_of_bare hplain.resolvePath (by simp [hnothing]) below
    obtain rfl : p = d ++ below := Option.some.inj (hp.symm.trans hbelow)
    rcases List.prefix_or_prefix_of_prefix hinside (List.prefix_append d below) with hd | hd
    · exact houtside hd
    · -- the destination would be around the live data, and so exist
      obtain ⟨rest, rfl⟩ := hd
      by_cases hnil : rest = []
      · rw [hnil, List.append_nil, hnothing] at hlive
        cases hlive
      · rw [FileSystem.lookup_of_le hlive hnil] at hnothing
        cases hnothing
  · intro dataDir options liveDataDir target live h
    obtain ⟨htarget, -, -, -, -⟩ := cmdValidateRestore_ok h
    constructor
    · intro hall
      have hself := hall [] target (by rw [List.append_nil]; exact htarget.resolvePath)
      exact ⟨hself.1, fun _ ↦ hself.2, fun _ _ p hp ↦ hall [isolatedMarkerFilename] p hp⟩
    · exact fun hapart below p hp ↦ separate_below h hapart hp

end Machine

/-- Live data in `/srv/data`, and in them a directory with nothing but the marker. -/
def nestedFileSystem : FileSystem Name where
  entries := [
    ([name "srv".toList], .dir),
    ([name "srv".toList, name "data".toList], .dir),
    ([name "srv".toList, name "data".toList, name "restore".toList], .dir),
    ([name "srv".toList, name "data".toList, name "restore".toList, isolatedMarkerFilename],
      .file)]
  nonempty := by decide
  parent := by
    intro e he p n heq
    have hp : p = e.1.dropLast := by rw [heq, List.dropLast_concat]
    rw [hp]
    clear hp heq
    revert e
    decide
  nodup := by decide

def nestedMachine : Machine where
  fs := nestedFileSystem
  cwd := [name "srv".toList]
  environ := fun _ ↦ none
  urlPath := fun url ↦ ((url.dropWhile (· ≠ '/')).drop 2).dropWhile (· ≠ '/')

/-- A restore into the live data is accepted. -/
theorem restore_inside_live :
    nestedMachine.cmdValidateRestore (name "/srv/data/restore".toList)
        ⟨"postgresql://dialect@localhost/neva_isolated".toList, "neva_isolated".toList,
          some "1".toList, none⟩ (some (name "data".toList)) =
      .ok ([name "srv".toList, name "data".toList, name "restore".toList],
        [name "srv".toList, name "data".toList]) ∧
    nestedMachine.fs.resolvePath
        ([name "srv".toList, name "data".toList, name "restore".toList] ++ []) =
      some [name "srv".toList, name "data".toList, name "restore".toList] ∧
    [name "srv".toList, name "data".toList] <+:
      [name "srv".toList, name "data".toList, name "restore".toList] := by
  decide

end Neva.Ops
