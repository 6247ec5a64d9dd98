import Neva.Json.Indented
import Neva.Ops.Trees

/-!
# Manifests, checksums and the end of a backup

`scripts/ops/manifest.py` counts and hashes what a backup contains, and
`_cmd_finalize_backup` writes the two files that describe it: `manifest.json`, and
`checksums.sha256` with one line for each file.  A backup is a `Tree`; what the scripts take from
the library they run on and do not compute themselves is a `Library`.
-/

set_option autoImplicit false

namespace Neva.Ops

/-! ## The library -/

/-- A lower case hexadecimal digit. -/
def isLowerHex (c : Char) : Bool :=
  Json.isDigit c || decide ('a'.toNat ≤ c.toNat ∧ c.toNat ≤ 'f'.toNat)

/-- What comes of reading a gzip stream to its end. -/
inductive Unpacked
  | read (byteCount : ℕ)
  /-- An `OSError` or an `EOFError`. -/
  | corrupt
  /-- Another error, from inside the compressed data. -/
  | broken
  deriving DecidableEq

/-- What the scripts rely on. -/
structure Library where
  /-- `hashlib.sha256(data).hexdigest()` -/
  sha256 : Bytes → Text
  sha256_hex : ∀ data, (sha256 data).length = 64 ∧ (sha256 data).all isLowerHex = true
  gunzip : Bytes → Unpacked
  /-- Whether a number that is not written as a natural number equals one. -/
  floatIs : Json.Number → ℕ → Bool

/-! ## Errors -/

/-- How a script fails. -/
inductive Error
  /-- A `BackupIntegrityError`. -/
  | integrity (text : Text)
  /-- `malformed checksum line 3` -/
  | malformedLine (number : ℕ)
  /-- `backup manifest missing keys: ['source']` -/
  | missingKeys (keys : List Text)
  /-- `checksum coverage mismatch missing=[] unexpected=[]` -/
  | coverage (missing unexpected : List Path)
  /-- `checksum mismatch for runtime/audio/a.flac` -/
  | mismatch (path : Path)
  /-- `restored checksum mismatch for audio/a.flac` -/
  | restoredMismatch (path : Path)
  /-- A `ValueError`, which ends the command with its text. -/
  | value (text : Text)
  /-- Another exception. -/
  | raised
  deriving DecidableEq

/-! ## Names -/

/-- `.env` and every `.env.*` variant. -/
def isSecretFilename (n : Name) : Bool :=
  n == name ".env".toList || (name ".env.".toList).isPrefixOf n

/-- Files that appear in checksums and runtime copies. -/
def shouldIncludeInBackup (p : Path) : Bool := !p.any isSecretFilename

def manifestFilename : Name := name "manifest.json".toList

def checksumsFilename : Name := name "checksums.sha256".toList

def postgresName : Name := name "postgres".toList

def runtimeName : Name := name "runtime".toList

def postgresDumpRelative : Path := [postgresName, name "dump.sql.gz".toList]

def runtimeRootRelative : Path := [runtimeName]

/-- `path.as_posix()` -/
def asPosix (p : Path) : List Sym := [Sym.char '/'].intercalate p

/-! ## The order of names -/

def Sym.code : Sym → ℕ
  | .char c => c.toNat
  | .surrogate byte => 0xDC00 + byte.toNat

/-- The order of texts. -/
def textLe (a b : List Sym) : Bool := decide (a.map Sym.code ≤ b.map Sym.code)

/-- The order of paths: component by component. -/
def pathLe (a b : Path) : Bool :=
  decide (a.map (List.map Sym.code) ≤ b.map (List.map Sym.code))

theorem Sym.code_injective : Function.Injective Sym.code := by
  intro a b h
  -- no character has the code of a surrogate
  have hchar (c : Char) : c.toNat < 0xD800 ∨ 0xDFFF < c.toNat := c.valid.imp_right And.left
  cases a with
  | char c =>
    cases b with
    | char d => rw [← Char.ofNat_toNat c, ← Char.ofNat_toNat d, show c.toNat = d.toNat from h]
    | surrogate byte =>
      have hlt := byte.toNat_lt
      have hc := hchar c
      simp only [code] at h
      omega
  | surrogate byte =>
    cases b with
    | char d =>
      have hlt := byte.toNat_lt
      have hd := hchar d
      simp only [code] at h
      omega
    | surrogate byte' =>
      simp only [code, Nat.add_left_cancel_iff] at h
      rw [UInt8.toNat_inj.mp h]

theorem pathLe_trans (a b c : Path) (hab : pathLe a b = true) (hbc : pathLe b c = true) :
    pathLe a c = true := by
  rw [pathLe, decide_eq_true_eq] at *
  exact le_trans hab hbc

theorem pathLe_total (a b : Path) : (pathLe a b || pathLe b a) = true := by
  rw [Bool.or_eq_true, pathLe, pathLe, decide_eq_true_eq, decide_eq_true_eq]
  exact le_total _ _

theorem pathLe_antisymm {a b : Path} (hab : pathLe a b = true) (hba : pathLe b a = true) :
    a = b := by
  rw [pathLe, decide_eq_true_eq] at hab hba
  exact List.map_injective_iff.mpr (List.map_injective_iff.mpr Sym.code_injective)
    (le_antisymm hab hba)

theorem mem_asPosix {p : Path} {a : Sym} (h : a ∈ asPosix p) :
    a = .char '/' ∨ ∃ n ∈ p, a ∈ n := by
  rw [asPosix, List.intercalate, List.mem_flatten] at h
  obtain ⟨l, hl, ha⟩ := h
  induction p with
  | nil => simp at hl
  | cons n p ih =>
    cases p with
    | nil =>
      rw [List.intersperse_singleton, List.mem_singleton] at hl
      exact .inr ⟨n, List.mem_cons_self, hl ▸ ha⟩
    | cons m p =>
      rw [List.intersperse_cons_cons, List.mem_cons, List.mem_cons] at hl
      rcases hl with rfl | rfl | hl
      · exact .inr ⟨l, List.mem_cons_self, ha⟩
      · exact .inl (List.mem_singleton.mp ha)
      · rcases ih hl with heq | ⟨k, hk, hak⟩
        · exact .inl heq
        · exact .inr ⟨k, List.mem_cons_of_mem _ hk, hak⟩

/-- A path can be read off its text, when no name has a slash in it. -/
theorem asPosix_injective {p q : Path} (hp : p ≠ []) (hq : q ≠ [])
    (hps : ∀ n ∈ p, Sym.char '/' ∉ n) (hqs : ∀ n ∈ q, Sym.char '/' ∉ n)
    (h : asPosix p = asPosix q) : p = q := by
  rw [← List.splitOn_intercalate (Sym.char '/') hps hp,
    ← List.splitOn_intercalate (Sym.char '/') hqs hq]
  exact congrArg (List.splitOn (Sym.char '/')) h

/-! ## Checksums and counts -/

section

variable (lib : Library) (t : Tree)

/-- `f"{digest}  {display}"` -/
def displayLine (digest : Text) (p : Path) : List Sym :=
  name digest ++ Sym.char ' ' :: Sym.char ' ' :: asPosix p

/-- Checksum lines for every included file under `root`, named by `pre`. -/
def collectChecksumLines (root pre : Path) : List (List Sym) :=
  if t.node? root = none then []
  else
    ((t.rglob root).mergeSort fun a b ↦ pathLe a.1 b.1).filterMap fun e ↦
      if shouldIncludeInBackup e.1 then
        e.2.bytes?.map fun data ↦ displayLine (lib.sha256 data) (pre ++ e.1)
      else none

/-- The number of included files below a directory. -/
def countBelow (root : Path) : ℕ :=
  match t.node? root with
  | none => 0
  | some (.link (.dir files)) => files.countP shouldIncludeInBackup
  | some _ => (t.rglob root).countP fun e ↦ e.2.isFile && shouldIncludeInBackup e.1

/-- Counts files under contract runtime directories. -/
def countRuntimeEntries (dataDir : Path) : List (Text × ℕ) :=
  ["audio".toList, "decks".toList, "corpus".toList].map fun sub ↦
    (sub, countBelow t (dataDir ++ [name sub]))

end

/-! ## Numbers -/

/-- The value of a number that is written as a natural number. -/
def naturalOf (n : Json.Number) : Option ℕ :=
  if n.text.all Json.isDigit then some (Nat.ofDigitChars 10 n.text 0)
  else if n.text = ['-', '0'] then some 0
  else none

@[simp] theorem naturalOf_ofNat (n : ℕ) : naturalOf (.ofNat n) = some n := by
  have hall : (Json.Number.ofNat n).text.all Json.isDigit = true :=
    List.all_eq_true.mpr (Json.all_isDigit_toDigits n)
  rw [naturalOf, if_pos hall]
  exact congrArg some Nat.ofDigitChars_ten_toDigits

/-- `value == n` -/
def equalsNat (lib : Library) (value : Option Json) (n : ℕ) : Bool :=
  match value with
  | some (.num k) =>
    match naturalOf k with
    | some m => m == n
    | none => lib.floatIs k n
  | some (.bool b) => b.toNat == n
  | _ => false

/-- `isinstance(value, int) and value >= 0` -/
def isCount : Json → Bool
  | .num k => (naturalOf k).isSome
  | .bool _ => true
  | _ => false

/-! ## The manifest -/

/-- `database_log_meta` -/
structure DatabaseMeta where
  scheme : Text
  host : Text
  port : ℕ
  database : Option Text

def optionalText : Option Text → Json
  | some text => .str text
  | none => .null

def DatabaseMeta.json (m : DatabaseMeta) : Json := .obj [
  ("scheme".toList, .str m.scheme),
  ("host".toList, .str m.host),
  ("port".toList, .num (.ofNat m.port)),
  ("database".toList, optionalText m.database)]

def countsJson (counts : List (Text × ℕ)) : Json :=
  .obj (counts.map fun c ↦ (c.1, .num (.ofNat c.2)))

/-- What `build_manifest` is called with. -/
structure ManifestInput where
  backupId : Text
  createdAt : Text
  dataDir : Text
  destination : Text
  databaseMeta : DatabaseMeta
  dryRun : Bool
  runtimeCounts : List (Text × ℕ)
  databaseCounts : List (Text × Json)
  expectedFileCount : Option ℕ

def consistencyBoundary : Json := .obj [
  ("database_counts".toList, .str "captured immediately before pg_dump".toList),
  ("database_dump".toList, .str "transaction-consistent pg_dump snapshot".toList),
  ("runtime_copy".toList, .str "begins only after pg_dump completes".toList),
  ("active_writes_note".toList, .str
    ("For exact database-count comparison, quiesce API and worker writes ".toList ++
      "during count capture and pg_dump.".toList))]

/-- The metadata-only manifest of a backup. -/
def buildManifest (m : ManifestInput) : List (Text × Json) := [
  ("manifest_version".toList, .num (.ofNat 2)),
  ("backup_id".toList, .str m.backupId),
  ("created_at".toList, .str m.createdAt),
  ("dry_run".toList, .bool m.dryRun),
  ("source".toList, .obj [
    ("data_dir".toList, .str m.dataDir),
    ("runtime_subdirs".toList, .arr [.str "audio".toList, .str "decks".toList,
      .str "corpus".toList]),
    ("runtime_counts".toList, countsJson m.runtimeCounts)]),
  ("destination".toList, .str m.destination),
  ("database".toList, m.databaseMeta.json),
  ("database_counts".toList, .obj m.databaseCounts),
  ("consistency_boundary".toList, consistencyBoundary),
  ("artifacts".toList, .obj [
    ("postgres_dump".toList, .str "postgres/dump.sql.gz".toList),
    ("runtime_root".toList, .str "runtime".toList),
    ("checksums".toList, .str "checksums.sha256".toList),
    ("expected_file_count".toList,
      match m.expectedFileCount with
      | some n => .num (.ofNat n)
      | none => .null)]),
  ("excluded".toList, .arr [.str ".env*".toList])]

/-! ## Writing -/

theorem manifestFilename_allowed : manifestFilename.Allowed := by decide

theorem checksumsFilename_allowed : checksumsFilename.Allowed := by decide

/-- A file is written right below the root, over what stood there. -/
def Tree.put (t : Tree) (n : Name) (hn : n.Allowed) (data : Bytes) : Tree where
  entries := (t.entries.filter fun e ↦ e.1.head? ≠ some n) ++ [([n], .file data)]
  nodup := by
    rw [List.map_append, List.nodup_append']
    refine ⟨t.nodup.sublist (List.filter_sublist.map _), List.nodup_singleton _, ?_⟩
    simp only [List.map_cons, List.map_nil, List.disjoint_singleton, List.mem_map]
    rintro ⟨e, he, hpath⟩
    have hhead := (List.mem_filter.mp he).2
    simp [hpath] at hhead
  allowed := by
    intro e he
    rcases List.mem_append.mp he with he | he
    · exact t.allowed e (List.mem_of_mem_filter he)
    · rw [List.mem_singleton] at he
      subst he
      exact ⟨by simp, by simpa using hn⟩
  parent := by
    intro e he p m hpath
    rcases List.mem_append.mp he with he | he
    · obtain ⟨hmem, hhead⟩ := List.mem_filter.mp he
      rcases t.parent e hmem p m hpath with hnil | hdir
      · exact .inl hnil
      · cases p with
        | nil => exact .inl rfl
        | cons a p =>
          rw [hpath] at hhead
          exact .inr (List.mem_append_left _ (List.mem_filter.mpr ⟨hdir, by simpa using hhead⟩))
    · rw [List.mem_singleton] at he
      subst he
      left
      cases p with
      | nil => rfl
      | cons a p => simp at hpath

def Sym.char? : Sym → Option Char
  | .char c => some c
  | .surrogate _ => none

/-- The text as characters, none when it cannot be encoded. -/
def plainText (s : List Sym) : Option Text := s.mapM Sym.char?

theorem plainText_eq_some {s : List Sym} {text : Text} :
    plainText s = some text ↔ s = name text := by
  induction s generalizing text with
  | nil => cases text <;> simp [plainText, name]
  | cons a s ih =>
    rw [plainText, List.mapM_cons]
    simp only [Option.bind_eq_bind, Option.bind_eq_some_iff, Option.pure_def, Option.some.injEq]
    constructor
    · rintro ⟨c, hc, rest, hrest, rfl⟩
      cases a with
      | char d =>
        cases hc
        rw [ih.mp hrest]
        rfl
      | surrogate byte => cases hc
    · intro h
      cases text with
      | nil => cases h
      | cons c text =>
        obtain ⟨rfl, hs⟩ := List.cons.inj h
        exact ⟨c, rfl, text, ih.mpr hs, rfl⟩

/-- `"\n".join(lines) + ("\n" if lines else "")` -/
def checksumsText (lines : List (List Sym)) : List Sym :=
  [Sym.char '\n'].intercalate lines ++ if lines = [] then [] else [.char '\n']

def writeManifest (destination : Tree) (manifest : List (Text × Json)) : Tree :=
  destination.put manifestFilename manifestFilename_allowed
    (encode ((Json.obj manifest).indented ++ ['\n']))

/-- Fails on a file name that is not UTF-8. -/
def writeChecksums (destination : Tree) (lines : List (List Sym)) : Except Error Tree :=
  match plainText (checksumsText lines) with
  | none => .error .raised
  | some text =>
    .ok (destination.put checksumsFilename checksumsFilename_allowed (encode text))

/-! ## Finalizing -/

/-- A JSON object containing non-negative integer counts only. -/
def parseCountJson (raw : Text) : Except Error (List (Text × Json)) :=
  match Json.loads raw with
  | none => .error .raised
  | some (.obj members) =>
    if members.all fun m ↦ isCount m.2 then .ok members
    else .error (.value "database counts must contain non-negative integer counts".toList)
  | some _ => .error (.value "database counts must be a JSON object".toList)

/-- The arguments of `finalize-backup`. -/
structure FinalizeArgs where
  /-- The time at which the manifest is built. -/
  createdAt : Text
  destination : Text
  dataDir : Text
  databaseMeta : DatabaseMeta
  backupId : Text
  databaseCountsJson : Text

/-- Manifest and checksum metadata for a completed backup directory. -/
def cmdFinalizeBackup (lib : Library) (args : FinalizeArgs) (destination : Tree) :
    Except Error Tree := do
  let runtimeCounts := countRuntimeEntries destination runtimeRootRelative
  let databaseCounts ← parseCountJson args.databaseCountsJson
  let lines := collectChecksumLines lib destination [postgresName] [postgresName] ++
    collectChecksumLines lib destination runtimeRootRelative runtimeRootRelative
  let manifest := buildManifest {
    backupId := args.backupId
    createdAt := args.createdAt
    dataDir := args.dataDir
    destination := args.destination
    databaseMeta := args.databaseMeta
    dryRun := false
    runtimeCounts := runtimeCounts
    databaseCounts := databaseCounts
    expectedFileCount := some lines.length }
  writeChecksums (writeManifest destination manifest) (lines.mergeSort textLe)

end Neva.Ops
