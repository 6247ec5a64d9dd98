import Neva.Ops.Manifest
import Neva.Raising

/-!
# Verifying a backup and what was restored from it

`scripts/ops/integrity.py`.  `verifyBackupSource` accepts a backup directory, and
`verifyRestoredRuntime` the directory its runtime files were copied to.  Both read the same
`checksums.sha256`; the file is parsed into a dictionary from paths to digests, and everything
that is accepted is accepted because of it.
-/

set_option autoImplicit false

namespace Neva.Ops

open Raising

/-! ## The manifest -/

def coreTables : List Text :=
  ["players".toList, "pairs".toList, "matchmaking_queue".toList, "decks".toList, "cards".toList,
    "turns".toList, "jobs".toList, "records".toList, "metrics_counters".toList,
    "api_calls".toList, "speaker_audio_fingerprints".toList, "worker_heartbeats".toList]

def requiredManifestKeys : List Text :=
  ["manifest_version".toList, "backup_id".toList, "source".toList, "database".toList,
    "database_counts".toList, "artifacts".toList, "excluded".toList]

/-- `set(a) == set(b)` -/
def sameSet {α : Type} [DecidableEq α] (a b : List α) : Bool :=
  a.all (fun x ↦ b.contains x) && b.all (fun x ↦ a.contains x)

theorem sameSet_iff {α : Type} [DecidableEq α] {a b : List α} :
    sameSet a b = true ↔ ∀ x, x ∈ a ↔ x ∈ b := by
  rw [sameSet, Bool.and_eq_true, List.all_eq_true, List.all_eq_true]
  simp only [List.contains_iff_mem]
  exact ⟨fun h x ↦ ⟨h.1 x, h.2 x⟩, fun h ↦ ⟨fun x ↦ (h x).mp, fun x ↦ (h x).mpr⟩⟩

section

variable (lib : Library)

/-- The checks on a manifest that has been parsed. -/
def checkManifest (parsed : List (Text × Json)) : Except Error Unit :=
  let missing := requiredManifestKeys.filter fun k ↦ (Json.lookup parsed k).isNone
  if missing ≠ [] then .error (.missingKeys (missing.mergeSort Json.nameLe))
  else if !equalsNat lib (Json.lookup parsed "manifest_version".toList) 2 then
    .error (.integrity "backup manifest version is unsupported".toList)
  else if
      match Json.lookup parsed "dry_run".toList with | some (.bool true) => true | _ => false then
    .error (.integrity "dry-run manifest cannot be restored".toList)
  else
    match Json.lookup parsed "database_counts".toList with
    | some (.obj (m :: rest)) =>
      if !(m :: rest).all fun m ↦ isCount m.2 then
        .error (.integrity "backup manifest database counts are invalid".toList)
      else if !sameSet ((m :: rest).map Prod.fst) coreTables then
        .error (.integrity "backup manifest core-table counts are incomplete".toList)
      else
        match Json.lookup parsed "artifacts".toList with
        | some (.obj artifacts) =>
          if !isText (Json.lookup artifacts "postgres_dump".toList)
              "postgres/dump.sql.gz".toList then
            .error (.integrity "backup manifest Postgres dump path is invalid".toList)
          else if !isText (Json.lookup artifacts "runtime_root".toList) "runtime".toList then
            .error (.integrity "backup manifest runtime root is invalid".toList)
          else .ok ()
        | _ => .error (.integrity "backup manifest artifacts metadata is invalid".toList)
    | _ => .error (.integrity "backup manifest database counts are missing".toList)
where
  /-- `value == text` -/
  isText : Option Json → Text → Bool
    | some (.str s), text => s == text
    | _, _ => false

/-- Load and structurally validate a metadata-only backup manifest. -/
def loadManifest (source : Tree) : Except Error (List (Text × Json)) :=
  match source.bytes? [manifestFilename] with
  | none => .error (.integrity "backup source missing manifest.json".toList)
  | some data =>
    match (decode data).bind Json.loads with
    | none => .error (.integrity "backup manifest is not valid JSON".toList)
    | some (.obj parsed) => do
      checkManifest lib parsed
      return parsed
    | some _ => .error (.integrity "backup manifest must be a JSON object".toList)

end

/-! ## The checksum index -/

/-- `CHECKSUM_LINE.fullmatch(line)`: the digest and the path. -/
def checksumLine? (line : Text) : Option (Text × Text) :=
  let path := line.drop 66
  if (line.take 64).length = 64 ∧ (line.take 64).all isLowerHex = true ∧
      (line.drop 64).take 2 = [' ', ' '] ∧ path ≠ [] ∧
      path.all (fun c ↦ c ≠ '\r' ∧ c ≠ '\n') = true then
    some (line.take 64, path)
  else none

/-- `Path(text).parts`, for a text that does not begin with a slash. -/
def parts (text : Text) : Path :=
  ((text.splitOnP (· == '/')).filter fun n ↦ n ≠ [] ∧ n ≠ ['.']).map name

/-- Some path segment is a forbidden secret filename. -/
def isSecretPath (p : Path) : Bool := p.any isSecretFilename

/-- The lines from number `n` on, after `entries`. -/
def parseLines : ℕ → List (Path × Text) → List Text → Except Error (List (Path × Text))
  | _, entries, [] => .ok entries
  | n, entries, line :: lines =>
    match checksumLine? line with
    | none => .error (.malformedLine n)
    | some (digest, text) =>
      if text.head? = some '/' ∨ name ['.', '.'] ∈ parts text then
        .error (.integrity "checksum path must remain inside backup source".toList)
      else if isSecretPath (parts text) then
        .error (.integrity "secret file appears in checksum index".toList)
      else if parts text ∈ entries.map Prod.fst then
        .error (.integrity "duplicate path in checksum index".toList)
      else parseLines (n + 1) (entries ++ [(parts text, digest)]) lines

/-- Parse and validate the aggregate checksum index.  `read_text` makes a line feed of every
carriage return, which is a line break to `splitlines` either way. -/
def parseChecksums (source : Tree) : Except Error (List (Path × Text)) :=
  match source.bytes? [checksumsFilename] with
  | none => .error (.integrity "backup source missing checksums.sha256".toList)
  | some data =>
    match decode data with
    | none => .error (.integrity "checksum index is not valid UTF-8 text".toList)
    | some text => do
      let entries ← parseLines 1 [] (splitlines text)
      if entries = [] then .error (.integrity "checksum index is empty".toList)
      else return entries

/-! ## The backup -/

/-- The files below one of the two protected directories. -/
def protectedFiles (source : Tree) (root : Name) : Except Error (List Path) :=
  if !source.isDir [root] then
    .error (.integrity
      ("backup source missing ".toList ++ root.filterMap Sym.char? ++ "/".toList))
  else
    let files := (source.rglob [root]).filter fun e ↦ e.2.isFile
    if files.any fun e ↦ isSecretPath (root :: e.1) || !shouldIncludeInBackup (root :: e.1) then
      .error (.integrity "secret file appears in backup artifacts".toList)
    else .ok (files.map fun e ↦ root :: e.1)

/-- The exact dump and runtime files that checksums must protect.  No path is there twice. -/
def expectedBackupFiles (source : Tree) : Except Error (List Path) := do
  let dump ← protectedFiles source postgresName
  let runtime ← protectedFiles source runtimeName
  return dump ++ runtime

/-- Read a gzip stream fully to validate its framing and trailer. -/
def verifyGzipStream (lib : Library) (source : Tree) (p : Path) : Except Error ℕ :=
  match source.bytes? p with
  | none => .error (.integrity "backup source missing Postgres dump".toList)
  | some data =>
    match lib.gunzip data with
    | .corrupt => .error (.integrity "Postgres dump gzip stream is corrupt".toList)
    | .broken => .error .raised
    | .read 0 => .error (.integrity "Postgres dump gzip stream is empty".toList)
    | .read (n + 1) => .ok (n + 1)

/-- `counts == value`, for a dictionary of counts. -/
def sameCounts (lib : Library) (counts : List (Text × ℕ)) : Option Json → Bool
  | some (.obj members) =>
    members.length == counts.length &&
      counts.all fun c ↦ equalsNat lib (Json.lookup members c.1) c.2
  | _ => false

/-- `manifest["source"].get("runtime_counts")` against the counts of a directory. -/
def checkCounts (lib : Library) (counts : List (Text × ℕ)) (manifest : List (Text × Json))
    (text : Text) : Except Error Unit :=
  match Json.lookup manifest "source".toList with
  | some (.obj members) =>
    if sameCounts lib counts (Json.lookup members "runtime_counts".toList) then .ok ()
    else .error (.integrity text)
  | _ => .error .raised

/-- The entries a backup may not have: links, and files with a secret name. -/
def checkEntries (source : Tree) : List (Path × Node) → Except Error Unit
  | [] => .ok ()
  | e :: rest =>
    if e.2.isSymlink then
      .error (.integrity "symbolic links are not allowed in backup source".toList)
    else if e.2.isFile && isSecretPath e.1 then
      .error (.integrity "secret file appears in backup source".toList)
    else checkEntries source rest

/-- `for relative, expected_digest in checksums.items()` -/
def checkDigests (lib : Library) (t : Tree) (wrong : Path → Error) :
    List (Path × Text) → Except Error Unit
  | [] => .ok ()
  | (p, digest) :: rest =>
    match t.bytes? p with
    | none => .error .raised
    | some data =>
      if lib.sha256 data ≠ digest then .error (wrong p) else checkDigests lib t wrong rest

/-- The order of paths in a message. -/
def posixLe (a b : Path) : Bool := textLe (asPosix a) (asPosix b)

/-- Metadata-only verification summary. -/
structure Summary where
  backupId : Option Json
  checkedFileCount : ℕ
  runtimeCounts : List (Text × ℕ)
  databaseCounts : Option Json
  gzipUncompressedBytes : ℕ

/-- Verify manifest, exact checksums, gzip validity, counts, and exclusions. -/
def verifyBackupSource (lib : Library) (source : Tree) : Except Error Summary := do
  checkEntries source source.entries
  let manifest ← loadManifest lib source
  let checksums ← parseChecksums source
  let expected ← expectedBackupFiles source
  if !sameSet (checksums.map Prod.fst) expected then
    .error (.coverage ((expected.filter (· ∉ checksums.map Prod.fst)).mergeSort posixLe)
      (((checksums.map Prod.fst).filter (· ∉ expected)).mergeSort posixLe))
  else if !equalsNat lib
      ((Json.lookup manifest "artifacts".toList).bind (·.get? "expected_file_count".toList))
      expected.length then
    .error (.integrity "manifest expected file count does not match backup artifacts".toList)
  else do
    checkDigests lib source .mismatch checksums
    let gzipBytes ← verifyGzipStream lib source postgresDumpRelative
    let runtimeCounts := countRuntimeEntries source runtimeRootRelative
    checkCounts lib runtimeCounts manifest "runtime file counts do not match manifest".toList
    return {
      backupId := Json.lookup manifest "backup_id".toList
      checkedFileCount := expected.length
      runtimeCounts := runtimeCounts
      databaseCounts := Json.lookup manifest "database_counts".toList
      gzipUncompressedBytes := gzipBytes }

/-! ## What was restored -/

def isolatedMarkerFilename : Name := name ".neva-isolated".toList

/-- The files of a restored directory, after `found`; the marker of the root is not one of them. -/
def restoredFiles : List Path → List (Path × Node) → Except Error (List Path)
  | found, [] => .ok found
  | found, e :: rest =>
    if e.2.isSymlink then
      .error (.integrity "symbolic links are not allowed in restored runtime data".toList)
    else if !e.2.isFile then restoredFiles found rest
    else if e.1 = [isolatedMarkerFilename] then restoredFiles found rest
    else if isSecretPath e.1 then
      .error (.integrity "secret file appears in restored runtime data".toList)
    else restoredFiles (found ++ [e.1]) rest

/-- The part of the index that is about the runtime files, relative to `runtime/`. -/
def runtimeChecksums (checksums : List (Path × Text)) : List (Path × Text) :=
  checksums.filterMap fun c ↦
    match c.1 with
    | [] => none
    | n :: p => if n = runtimeName then some (p, c.2) else none

/-- Compare restored runtime files to protected backup checksums and counts. -/
def verifyRestoredRuntime (lib : Library) (source target : Tree) (manifest : List (Text × Json)) :
    Except Error (List (Text × ℕ)) := do
  let checksums ← parseChecksums source
  let actual ← restoredFiles [] target.entries
  if !sameSet actual ((runtimeChecksums checksums).map Prod.fst) then
    .error (.integrity "restored runtime file set differs from backup".toList)
  else do
    checkDigests lib target .restoredMismatch (runtimeChecksums checksums)
    let counts := countRuntimeEntries target []
    checkCounts lib counts manifest "restored runtime counts do not match manifest".toList
    if !target.isFile [isolatedMarkerFilename] then
      .error (.integrity "isolated marker did not survive runtime restore".toList)
    else return counts

end Neva.Ops
