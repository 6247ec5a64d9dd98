import Neva.Digests
import Neva.Framed
import Neva.Grouping
import Neva.Ops.Manifest
import Neva.Raising

/-!
# Digests of corpora and of adapters

`sha256_file`, `sha256_files` and `sha256_directory` of `tune/manifest.py`.  The digest of several
files is the digest of their records, one after the other: the name, a zero byte, the digest of the
contents, a zero byte.  A digest may have zero bytes in it, but it is always of one length, so the
records can be told apart (`Framed.selfDelimiting_record`).

`digests_unambiguous` says that the value determines what was hashed, and conversely.
-/

set_option autoImplicit false

namespace Neva.Tune

open Neva.Ops Raising

/-! ## Digests as text -/

/-- SHA-256: a digest of 32 bytes. -/
structure Sha256 where
  digest : Bytes → Bytes
  length : ∀ data, (digest data).length = 32

/-- `digest.hexdigest()` -/
def hexdigest (digest : Bytes) : Text :=
  digest.flatMap fun b ↦ [Json.hexDigit (b.toNat / 16), Json.hexDigit (b.toNat % 16)]

/-- `bytes.fromhex(text)`, for a text without blanks. -/
def fromhex : Text → Option Bytes
  | [] => some []
  | [_] => none
  | high :: low :: rest =>
    match Json.hexValue high, Json.hexValue low, fromhex rest with
    | some h, some l, some bytes => some (UInt8.ofNat (h * 16 + l) :: bytes)
    | _, _, _ => none

theorem fromhex_hexdigest (digest : Bytes) : fromhex (hexdigest digest) = some digest := by
  induction digest with
  | nil => rfl
  | cons b digest ih =>
    have hlt := b.toNat_lt
    have hhigh := Json.State.hexValue_hexDigit (b.toNat / 16) (by omega)
    have hlow := Json.State.hexValue_hexDigit (b.toNat % 16) (by omega)
    have hb : UInt8.ofNat (b.toNat / 16 * 16 + b.toNat % 16) = b := by
      rw [Nat.div_add_mod']
      exact UInt8.ofNat_toNat
    rw [hexdigest, List.flatMap_cons, List.cons_append, List.cons_append, List.nil_append, fromhex,
      hhigh, hlow, ← hexdigest, ih]
    simp only [hb]

theorem hexdigest_injective : Function.Injective hexdigest := fun d d' h ↦
  Option.some.inj ((fromhex_hexdigest d).symm.trans ((congrArg fromhex h).trans
    (fromhex_hexdigest d')))

/-! ## Records -/

/-- How hashing fails. -/
inductive DigestError
  /-- `manifest input file does not exist: {path}` -/
  | missingFile
  /-- `at least one file is required for a corpus hash` -/
  | noFiles
  /-- `adapter directory does not exist: {path}` -/
  | noDirectory
  /-- `adapter directory is empty` -/
  | emptyDirectory
  /-- The name of a file is not UTF-8. -/
  | unicodeEncodeError
  deriving DecidableEq

section

variable (sha : Sha256)

/-- `sha256_file`, for what is found at a path. -/
def sha256File : Option Bytes → Except DigestError Text
  | none => .error .missingFile
  | some data => .ok (hexdigest (sha.digest data))

/-- What is hashed for one file. -/
def fileRecord (file : List Sym × Option Bytes) : Except DigestError Bytes :=
  match plainText file.1 with
  | none => .error .unicodeEncodeError
  | some text => do
    let hex ← sha256File sha file.2
    return encode text ++ 0 :: ((fromhex hex).getD [] ++ [0])

/-- The digest of the records. -/
def sha256Records (files : List (List Sym × Option Bytes)) : Except DigestError Text := do
  let records ← files.mapM (fileRecord sha)
  return hexdigest (sha.digest records.flatten)

/-! ## Directories -/

/-- The files of a directory, as `is_file` has them, and what is read of them, in the order of
their paths.  The paths of one directory are ordered as the relative ones are. -/
def directoryFiles (t : Tree) : List (Path × Bytes) :=
  (t.entries.filterMap fun e ↦ e.2.bytes?.map fun data ↦ (e.1, data)).mergeSort
    fun a b ↦ pathLe a.1 b.1

/-- `sha256_directory`; `none` is what is no directory. -/
def sha256Directory : Option Tree → Except DigestError Text
  | none => .error .noDirectory
  | some t =>
    if directoryFiles t = [] then .error .emptyDirectory
    else sha256Records sha ((directoryFiles t).map fun f ↦ (asPosix f.1, some f.2))

/-! ## Collections of files -/

/-- The file system, as far as it answers for paths. -/
structure Disk where
  /-- `path.resolve()` -/
  resolve : Text → Path
  /-- What is read of the file at a resolved path, if there is one. -/
  read : Path → Option Bytes
  allowed : ∀ p data, read p = some data → ∀ n ∈ p, n.Allowed

/-- The resolved paths, in order. -/
def resolvedPaths (disk : Disk) (paths : List Text) : List Path :=
  (paths.map disk.resolve).mergeSort pathLe

/-- The names and the contents, in the order of the resolved paths. -/
def namedContents (disk : Disk) (paths : List Text) : List (List Sym × Option Bytes) :=
  (resolvedPaths disk paths).map fun p ↦ (p.getLastD [], disk.read p)

/-- `sha256_files` -/
def sha256Files (disk : Disk) (paths : List Text) : Except DigestError Text :=
  if resolvedPaths disk paths = [] then .error .noFiles
  else sha256Records sha (namedContents disk paths)

end

/-! ## What a record determines -/

section

variable {sha : Sha256}

theorem fileRecord_eq_ok {file : List Sym × Option Bytes} {r : Bytes}
    (h : fileRecord sha file = .ok r) : ∃ text data, file = (name text, some data) ∧
      r = Framed.record 0 (encode text, sha.digest data) := by
  obtain ⟨s, content⟩ := file
  rw [fileRecord] at h
  cases htext : plainText s with
  | none =>
    rw [htext] at h
    cases h
  | some text =>
    rw [htext] at h
    obtain ⟨hex, hhex, h⟩ := bind_eq_ok.mp h
    cases content with
    | none => cases hhex
    | some data =>
      cases hhex
      refine ⟨text, data, by rw [plainText_eq_some.mp htext], ?_⟩
      rw [← pure_eq_ok.mp h, fromhex_hexdigest, Option.getD_some, Framed.record]

/-- What is hashed for files that can all be read and named. -/
def recordsOf (sha : Sha256) (files : List (Text × Bytes)) : Bytes :=
  files.flatMap fun f ↦ Framed.record 0 (encode f.1, sha.digest f.2)

theorem flatten_of_mapM {files : List (List Sym × Option Bytes)} {records : List Bytes}
    (h : files.mapM (fileRecord sha) = .ok records) : ∃ read : List (Text × Bytes),
      files = read.map (fun f ↦ (name f.1, some f.2)) ∧ records.flatten = recordsOf sha read := by
  have hall := mapM_eq_ok.mp h
  clear h
  induction hall with
  | nil => exact ⟨[], rfl, rfl⟩
  | cons hr _ ih =>
    obtain ⟨text, data, rfl, rfl⟩ := fileRecord_eq_ok hr
    obtain ⟨read, rfl, hflat⟩ := ih
    exact ⟨(text, data) :: read, rfl, by rw [List.flatten_cons, hflat]; rfl⟩

theorem mapM_fileRecord (read : List (Text × Bytes)) :
    (read.map fun f ↦ (name f.1, some f.2)).mapM (fileRecord sha) =
      .ok (read.map fun f ↦ Framed.record 0 (encode f.1, sha.digest f.2)) := by
  refine mapM_eq_ok.mpr (List.forall₂_map_left_iff.mpr (List.forall₂_map_right_iff.mpr
    (List.forall₂_same.mpr fun f _ ↦ ?_)))
  rw [fileRecord, plainText_eq_some.mpr rfl]
  refine bind_eq_ok.mpr ⟨_, rfl, ?_⟩
  rw [fromhex_hexdigest]
  rfl

/-- Files that can all be read and named are hashed. -/
theorem sha256Records_eq (read : List (Text × Bytes)) :
    sha256Records sha (read.map fun f ↦ (name f.1, some f.2)) =
      .ok (hexdigest (sha.digest (recordsOf sha read))) := by
  rw [sha256Records, mapM_fileRecord]
  rfl

/-- The bytes that are hashed in all. -/
def hashed (sha : Sha256) (files : List (Text × Bytes)) : Set Bytes :=
  {data | data = recordsOf sha files ∨ ∃ f ∈ files, data = f.2}

/-- **The records determine the files.** -/
theorem recordsOf_inj {files files' : List (Text × Bytes)}
    (hnul : ∀ f ∈ files, Char.ofNat 0 ∉ f.1) (hnul' : ∀ f ∈ files', Char.ofNat 0 ∉ f.1)
    (hfree : Set.InjOn sha.digest (hashed sha files ∪ hashed sha files'))
    (h : recordsOf sha files = recordsOf sha files') : files = files' := by
  have hlist (files : List (Text × Bytes)) : recordsOf sha files =
      (files.map fun f ↦ (encode f.1, sha.digest f.2)).flatMap (Framed.record 0) := by
    rw [recordsOf, List.flatMap_map]
  have hgood {files : List (Text × Bytes)} (hnul : ∀ f ∈ files, Char.ofNat 0 ∉ f.1) :
      ∀ r ∈ files.map fun f ↦ (encode f.1, sha.digest f.2),
        (0 : UInt8) ∉ r.1 ∧ r.2.length = 32 := by
    intro r hr
    obtain ⟨f, hf, rfl⟩ := List.mem_map.mp hr
    exact ⟨zero_notMem_encode (hnul f hf), sha.length f.2⟩
  rw [hlist, hlist] at h
  have hrecords := (Framed.selfDelimiting_record 0 32).flatMap_inj (Framed.record_ne_nil 0)
    (hgood hnul) (hgood hnul') h
  refine Framed.map_inj_of_mem (fun f hf f' hf' heq ↦ ?_) hrecords
  obtain ⟨hname, hdigest⟩ := Prod.mk.inj heq
  refine Prod.ext (encode_injective hname) (hfree ?_ ?_ hdigest)
  · exact .inl (.inr ⟨f, hf, rfl⟩)
  · exact .inr (.inr ⟨f', hf', rfl⟩)

/-- The bytes that are hashed for a list of files: the contents of each, and all the records. -/
def hashedInputs (sha : Sha256) (files : List (List Sym × Option Bytes)) : Set Bytes :=
  {data | (∃ f ∈ files, f.2 = some data) ∨
    ∃ records, files.mapM (fileRecord sha) = .ok records ∧ data = records.flatten}

theorem hashedInputs_eq (read : List (Text × Bytes)) :
    hashedInputs sha (read.map fun f ↦ (name f.1, some f.2)) = hashed sha read := by
  ext data
  constructor
  · rintro (⟨f, hf, hdata⟩ | ⟨records, hok, rfl⟩)
    · obtain ⟨g, hg, rfl⟩ := List.mem_map.mp hf
      exact .inr ⟨g, hg, (Option.some.inj hdata).symm⟩
    · rw [mapM_fileRecord, Except.ok.injEq] at hok
      exact .inl (hok ▸ rfl)
  · rintro (rfl | ⟨f, hf, rfl⟩)
    · exact .inr ⟨_, mapM_fileRecord read, rfl⟩
    · exact .inl ⟨_, List.mem_map_of_mem hf, rfl⟩

/-- The value determines the names and the contents, and conversely. -/
theorem sha256Records_eq_iff {files files' : List (List Sym × Option Bytes)} {v v' : Text}
    (h : sha256Records sha files = .ok v) (h' : sha256Records sha files' = .ok v')
    (hnul : ∀ f ∈ files, Sym.char (Char.ofNat 0) ∉ f.1)
    (hnul' : ∀ f ∈ files', Sym.char (Char.ofNat 0) ∉ f.1)
    (hfree : Set.InjOn sha.digest (hashedInputs sha files ∪ hashedInputs sha files')) :
    v = v' ↔ files = files' := by
  constructor
  · intro hv
    have hinputs {files : List (List Sym × Option Bytes)} {v : Text}
        (h : sha256Records sha files = .ok v) : ∃ read : List (Text × Bytes),
          files = read.map (fun f ↦ (name f.1, some f.2)) ∧
            v = hexdigest (sha.digest (recordsOf sha read)) := by
      obtain ⟨records, hrecords, hok⟩ := bind_eq_ok.mp h
      obtain ⟨read, hfiles, hflat⟩ := flatten_of_mapM hrecords
      exact ⟨read, hfiles, by rw [← pure_eq_ok.mp hok, hflat]⟩
    obtain ⟨read, rfl, hdigest⟩ := hinputs h
    obtain ⟨read', rfl, hdigest'⟩ := hinputs h'
    rw [hashedInputs_eq, hashedInputs_eq] at hfree
    have hno {read : List (Text × Bytes)}
        (hnul : ∀ f ∈ read.map (fun f ↦ (name f.1, some f.2)), Sym.char (Char.ofNat 0) ∉ f.1) :
        ∀ f ∈ read, Char.ofNat 0 ∉ f.1 :=
      fun f hf hzero ↦ hnul _ (List.mem_map_of_mem hf) (List.mem_map_of_mem hzero)
    have hrecords := hfree (.inl (.inl rfl)) (.inr (.inl rfl))
      (hexdigest_injective (hdigest.symm.trans (hv.trans hdigest')))
    rw [recordsOf_inj (hno hnul) (hno hnul') hfree hrecords]
  · rintro rfl
    exact Except.ok.inj (h.symm.trans h')

end

/-! ## Directories and collections -/

theorem mem_directoryFiles {t : Tree} {p : Path} {data : Bytes} :
    (p, data) ∈ directoryFiles t ↔ t.bytes? p = some data := by
  rw [directoryFiles, List.mem_mergeSort, List.mem_filterMap, Tree.bytes?]
  constructor
  · rintro ⟨e, he, hdata⟩
    obtain ⟨data', hbytes, heq⟩ := Option.map_eq_some_iff.mp hdata
    cases heq
    rw [t.node?_eq_some.mpr he]
    exact hbytes
  · intro h
    obtain ⟨n, hn, hbytes⟩ := Option.bind_eq_some_iff.mp h
    exact ⟨(p, n), t.node?_eq_some.mp hn, by rw [hbytes]; rfl⟩

/-- The list is a function of the files. -/
theorem directoryFiles_eq_iff {t t' : Tree} :
    directoryFiles t = directoryFiles t' ↔ ∀ p, t.bytes? p = t'.bytes? p := by
  constructor
  · intro h p
    refine Option.ext fun data ↦ ?_
    rw [← mem_directoryFiles, ← mem_directoryFiles, h]
  · intro h
    have hnodup (t : Tree) :
        (t.entries.filterMap fun e ↦ e.2.bytes?.map fun data ↦ (e.1, data)).Nodup := by
      refine List.Nodup.of_map Prod.fst (t.nodup.sublist ?_)
      rw [List.map_filterMap]
      induction t.entries with
      | nil => exact .slnil
      | cons e es ih =>
        rw [List.filterMap_cons, List.map_cons]
        cases e.2.bytes? with
        | none => exact ih.cons _
        | some data => exact ih.cons_cons _
    have hmem (t : Tree) (f : Path × Bytes) :
        f ∈ t.entries.filterMap (fun e ↦ e.2.bytes?.map fun data ↦ (e.1, data)) ↔
          t.bytes? f.1 = some f.2 := by
      rw [← mem_directoryFiles, directoryFiles, List.mem_mergeSort]
    rw [directoryFiles, directoryFiles]
    refine Grouping.mergeSort_eq_of_perm (fun a b c ↦ pathLe_trans a.1 b.1 c.1)
      (fun a b ↦ pathLe_total a.1 b.1) ?_ fun a ha b hb hab hba ↦ ?_
    · refine (List.perm_ext_iff_of_nodup (hnodup t) (hnodup t')).mpr fun f ↦ ?_
      rw [hmem, hmem, h]
    · have hpath := pathLe_antisymm hab hba
      have hdata := (hmem t a).mp ha
      rw [hpath, (hmem t b).mp hb] at hdata
      exact Prod.ext hpath (Option.some.inj hdata).symm

/-- A path of a tree can be read off its text. -/
theorem directoryRecords_inj {t t' : Tree}
    (h : ((directoryFiles t).map fun f ↦ (asPosix f.1, some f.2)) =
      (directoryFiles t').map fun f ↦ (asPosix f.1, some f.2)) :
    directoryFiles t = directoryFiles t' := by
  refine Framed.map_inj_of_mem (fun f hf f' hf' heq ↦ ?_) h
  have hpath {t : Tree} {f : Path × Bytes} (hf : f ∈ directoryFiles t) :
      f.1 ≠ [] ∧ ∀ n ∈ f.1, Sym.char '/' ∉ n := by
    obtain ⟨n, hn, -⟩ := Option.bind_eq_some_iff.mp (mem_directoryFiles.mp hf)
    obtain ⟨hne, hnames⟩ := t.allowed _ (t.node?_eq_some.mp hn)
    exact ⟨hne, fun m hm ↦ (hnames m hm).no_slash⟩
  obtain ⟨hposix, hdata⟩ := Prod.mk.inj heq
  exact Prod.ext (asPosix_injective (hpath hf).1 (hpath hf').1 (hpath hf).2 (hpath hf').2 hposix)
    (Option.some.inj hdata)

section

variable (sha : Sha256)

/-- The records of a directory. -/
def directoryRecords (t : Tree) : List (List Sym × Option Bytes) :=
  (directoryFiles t).map fun f ↦ (asPosix f.1, some f.2)

theorem sha256Directory_eq_ok {t : Tree} {v : Text} (h : sha256Directory sha (some t) = .ok v) :
    sha256Records sha (directoryRecords t) = .ok v := by
  rw [sha256Directory, ite_error_eq_ok] at h
  exact h.2

theorem sha256Files_eq_ok {disk : Disk} {paths : List Text} {v : Text}
    (h : sha256Files sha disk paths = .ok v) :
    sha256Records sha (namedContents disk paths) = .ok v := by
  rw [sha256Files, ite_error_eq_ok] at h
  exact h.2

theorem nul_notMem_directoryRecords {t : Tree} :
    ∀ f ∈ directoryRecords t, Sym.char (Char.ofNat 0) ∉ f.1 := by
  intro f hf hnul
  obtain ⟨g, hg, rfl⟩ := List.mem_map.mp hf
  obtain ⟨n, hn, -⟩ := Option.bind_eq_some_iff.mp (mem_directoryFiles.mp hg)
  rcases mem_asPosix hnul with heq | ⟨m, hm, hnul⟩
  · exact absurd heq (by decide)
  · exact ((t.allowed _ (t.node?_eq_some.mp hn)).2 m hm).no_nul hnul

/-- A file that was hashed is there, and its name is one a file system has. -/
theorem nul_notMem_namedContents {disk : Disk} {paths : List Text} {v : Text}
    (h : sha256Records sha (namedContents disk paths) = .ok v) :
    ∀ f ∈ namedContents disk paths, Sym.char (Char.ofNat 0) ∉ f.1 := by
  obtain ⟨records, hrecords, -⟩ := bind_eq_ok.mp h
  obtain ⟨read, hfiles, -⟩ := flatten_of_mapM hrecords
  intro f hf hnul
  obtain ⟨g, -, hg⟩ := List.mem_map.mp (hfiles ▸ hf)
  obtain ⟨p, -, rfl⟩ := List.mem_map.mp hf
  have hread : disk.read p = some g.2 := (congrArg Prod.snd hg).symm
  cases p using List.reverseRecOn with
  | nil => simp at hnul
  | append_singleton q n =>
    rw [List.getLastD_concat] at hnul
    exact (disk.allowed _ _ hread n (by simp)).no_nul hnul

/-- **Directory digests are unambiguous.**  Two directories have one digest exactly when they have
the same files, and two collections exactly when they have the same names and contents in the
order of their paths. -/
theorem digests_unambiguous :
    (∀ (t t' : Tree) (v v' : Text), sha256Directory sha (some t) = .ok v →
      sha256Directory sha (some t') = .ok v' →
      Set.InjOn sha.digest
        (hashedInputs sha (directoryRecords t) ∪ hashedInputs sha (directoryRecords t')) →
      (v = v' ↔ ∀ p, t.bytes? p = t'.bytes? p)) ∧
    (∀ (disk disk' : Disk) (paths paths' : List Text) (v v' : Text),
      sha256Files sha disk paths = .ok v → sha256Files sha disk' paths' = .ok v' →
      Set.InjOn sha.digest
        (hashedInputs sha (namedContents disk paths) ∪
          hashedInputs sha (namedContents disk' paths')) →
      (v = v' ↔ namedContents disk paths = namedContents disk' paths')) := by
  constructor
  · intro t t' v v' h h' hfree
    have hrecords := sha256Records_eq_iff (sha256Directory_eq_ok sha h)
      (sha256Directory_eq_ok sha h') nul_notMem_directoryRecords nul_notMem_directoryRecords hfree
    rw [hrecords, ← directoryFiles_eq_iff]
    exact ⟨directoryRecords_inj, fun hfiles ↦ by rw [directoryRecords, hfiles, directoryRecords]⟩
  · intro disk disk' paths paths' v v' h h' hfree
    have hok := sha256Files_eq_ok sha h
    have hok' := sha256Files_eq_ok sha h'
    exact sha256Records_eq_iff hok hok' (nul_notMem_namedContents sha hok)
      (nul_notMem_namedContents sha hok') hfree

end

/-! ### Two files -/

/-- The digest of the byte `x`. -/
def digestX : Bytes :=
  [45, 113, 22, 66, 183, 38, 176, 68, 1, 98, 124, 169, 251, 172, 50, 245, 200, 83, 15, 177, 144,
    60, 196, 219, 2, 37, 135, 23, 146, 26, 72, 129]

/-- The digest of the byte `y`. -/
def digestY : Bytes :=
  [161, 252, 228, 54, 56, 84, 255, 136, 140, 255, 75, 142, 120, 117, 214, 0, 194, 104, 35, 144,
    65, 42, 140, 247, 155, 55, 208, 177, 17, 72, 176, 250]

/-- The records of a file `v` with the byte `x` and a file `w` with the byte `y`. -/
def recordsXY : Bytes := 118 :: 0 :: (digestX ++ 0 :: 119 :: 0 :: (digestY ++ [0]))

/-- Their digest. -/
def digestXY : Bytes :=
  [82, 116, 36, 111, 231, 24, 178, 154, 164, 85, 71, 231, 57, 97, 194, 39, 180, 167, 248, 244,
    153, 246, 116, 28, 228, 88, 163, 22, 50, 11, 111, 51]

/-- The records of the two files with their contents exchanged. -/
def recordsYX : Bytes := 118 :: 0 :: (digestY ++ 0 :: 119 :: 0 :: (digestX ++ [0]))

/-- Their digest. -/
def digestYX : Bytes :=
  [218, 189, 28, 153, 156, 206, 8, 135, 82, 221, 124, 249, 91, 47, 27, 114, 96, 58, 157, 122,
    103, 102, 207, 103, 14, 5, 59, 78, 190, 37, 150, 201]

/-- SHA-256, on the two bytes and on the records. -/
def sampleSha256 : Sha256 where
  digest data :=
    if data = [120] then digestX
    else if data = [121] then digestY
    else if data = recordsXY then digestXY
    else if data = recordsYX then digestYX
    else List.replicate 32 0
  length data := by
    repeat' split
    all_goals rfl

/-- In a directory without directories every entry stands at the root. -/
theorem parent_of_flat {entries : List (Path × Node)} (h : ∀ e ∈ entries, e.1.length = 1) :
    ∀ e ∈ entries, ∀ p n, e.1 = p ++ [n] → p = [] ∨ (p, Node.dir) ∈ entries := by
  intro e he p n hpath
  have hlength := h e he
  rw [hpath, List.length_append, List.length_singleton] at hlength
  exact .inl (List.length_eq_zero_iff.mp (by omega))

/-- A directory with the files `v` and `w`. -/
def filesVW (contents contents' : Bytes) : Tree where
  entries := [([name ['v']], .file contents), ([name ['w']], .file contents')]
  nodup := show [[name ['v']], [name ['w']]].Nodup by decide
  allowed := by simp only [List.forall_mem_cons]; decide
  parent := parent_of_flat (by simp)

/-- The same, listed in another order and beside an empty directory. -/
def filesWVAndDir : Tree where
  entries := [([name ['w']], .file [121]), ([name ['d']], .dir), ([name ['v']], .file [120])]
  nodup := by decide
  allowed := by decide
  parent := parent_of_flat (by decide)

/-- A disk with the files `v` and `w`. -/
def diskVW (contents contents' : Bytes) : Disk where
  resolve text := [name text]
  read p :=
    if p = [name ['v']] then some contents
    else if p = [name ['w']] then some contents' else none
  allowed p data h := by
    split at h
    · subst p
      decide
    · split at h
      · subst p
        decide
      · cases h

theorem encode_v : encode ['v'] = [118] := by
  rw [encode_eq_flatMap]
  decide

theorem encode_w : encode ['w'] = [119] := by
  rw [encode_eq_flatMap]
  decide

/-- What is read of the two files. -/
abbrev readVW (contents contents' : Bytes) : List (Text × Bytes) :=
  [(['v'], contents), (['w'], contents')]

/-- The two files as they are hashed. -/
abbrev namedVW (contents contents' : Bytes) : List (List Sym × Option Bytes) :=
  (readVW contents contents').map fun f ↦ (name f.1, some f.2)

theorem recordsOf_xy : recordsOf sampleSha256 (readVW [120] [121]) = recordsXY := by
  rw [recordsOf, List.flatMap_cons, List.flatMap_cons, encode_v, encode_w]
  decide

theorem recordsOf_yx : recordsOf sampleSha256 (readVW [121] [120]) = recordsYX := by
  rw [recordsOf, List.flatMap_cons, List.flatMap_cons, encode_v, encode_w]
  decide

/-- No two of the bytes that are hashed for the two files have one digest. -/
theorem injOn_sampleSha256 {files files' : List (List Sym × Option Bytes)}
    (h : files ∈ [namedVW [120] [121], namedVW [121] [120]])
    (h' : files' ∈ [namedVW [120] [121], namedVW [121] [120]]) :
    Set.InjOn sampleSha256.digest
      (hashedInputs sampleSha256 files ∪ hashedInputs sampleSha256 files') := by
  have hxy : hashed sampleSha256 (readVW [120] [121]) ⊆ {[120], [121], recordsXY, recordsYX} := by
    rintro data (rfl | ⟨f, hf, rfl⟩)
    · exact .inr (.inr (.inl recordsOf_xy))
    · rcases List.mem_pair.mp hf with rfl | rfl
      · exact .inl rfl
      · exact .inr (.inl rfl)
  have hyx : hashed sampleSha256 (readVW [121] [120]) ⊆ {[120], [121], recordsXY, recordsYX} := by
    rintro data (rfl | ⟨f, hf, rfl⟩)
    · exact .inr (.inr (.inr recordsOf_yx))
    · rcases List.mem_pair.mp hf with rfl | rfl
      · exact .inr (.inl rfl)
      · exact .inl rfl
  have hsub {files : List (List Sym × Option Bytes)}
      (h : files ∈ [namedVW [120] [121], namedVW [121] [120]]) :
      hashedInputs sampleSha256 files ⊆ {[120], [121], recordsXY, recordsYX} := by
    rcases List.mem_pair.mp h with rfl | rfl
    · exact (hashedInputs_eq _).trans_subset hxy
    · exact (hashedInputs_eq _).trans_subset hyx
  refine Set.InjOn.mono (Set.union_subset (hsub h) (hsub h')) ?_
  rintro a (rfl | rfl | rfl | rfl) b (rfl | rfl | rfl | rfl) hab <;>
    first | rfl | exact absurd hab (by decide)

/-- The order of the two paths. -/
theorem pathLe_vw : pathLe [name ['v']] [name ['w']] = true := by decide

theorem directoryRecords_filesVW (contents contents' : Bytes) :
    directoryRecords (filesVW contents contents') = namedVW contents contents' := by
  have hfiles : directoryFiles (filesVW contents contents') =
      [([name ['v']], contents), ([name ['w']], contents')] := by
    show List.mergeSort [([name ['v']], contents), ([name ['w']], contents')] _ = _
    exact List.mergeSort_of_pairwise (by simpa using pathLe_vw)
  rw [directoryRecords, hfiles]
  rfl

theorem bytes?_filesWVAndDir (p : Path) :
    filesWVAndDir.bytes? p = (filesVW [120] [121]).bytes? p := by
  refine Option.ext fun data ↦ ?_
  rw [← mem_directoryFiles, ← mem_directoryFiles, directoryFiles, directoryFiles,
    List.mem_mergeSort, List.mem_mergeSort]
  exact (List.Perm.swap _ _ _).mem_iff

theorem namedContents_diskVW (contents contents' : Bytes) {paths : List Text}
    (h : paths.Perm [['v'], ['w']]) :
    namedContents (diskVW contents contents') paths = namedVW contents contents' := by
  have hsorted : resolvedPaths (diskVW contents contents') paths =
      [[name ['v']], [name ['w']]] := by
    rw [resolvedPaths, Grouping.mergeSort_eq_of_perm pathLe_trans pathLe_total (h.map _)
      fun a _ b _ ↦ pathLe_antisymm]
    exact List.mergeSort_of_pairwise (by simpa [diskVW] using pathLe_vw)
  rw [namedContents, hsorted]
  have hne : ([name ['w']] : Path) ≠ [name ['v']] := by decide
  simp [diskVW, hne]

theorem exists_sha256Directory {t : Tree} {contents contents' : Bytes}
    (h : directoryRecords t = namedVW contents contents') :
    ∃ v, sha256Directory sampleSha256 (some t) = .ok v := by
  have hfiles : directoryFiles t ≠ [] := by
    intro hnil
    rw [directoryRecords, hnil] at h
    cases h
  exact ⟨_, (if_neg hfiles).trans ((congrArg (sha256Records sampleSha256) h).trans
    (sha256Records_eq _))⟩

theorem exists_sha256Files {disk : Disk} {paths : List Text} {contents contents' : Bytes}
    (h : namedContents disk paths = namedVW contents contents') :
    ∃ v, sha256Files sampleSha256 disk paths = .ok v := by
  have hpaths : resolvedPaths disk paths ≠ [] := by
    intro hnil
    rw [namedContents, hnil] at h
    cases h
  exact ⟨_, (if_neg hpaths).trans ((congrArg (sha256Records sampleSha256) h).trans
    (sha256Records_eq _))⟩

/-- An empty directory beside the files, and the order in which they are listed, make no difference;
exchanging the contents of two files does. -/
theorem digests_unambiguous_w :
    (∃ v v', sha256Directory sampleSha256 (some (filesVW [120] [121])) = .ok v ∧
      sha256Directory sampleSha256 (some filesWVAndDir) = .ok v ∧
      sha256Directory sampleSha256 (some (filesVW [121] [120])) = .ok v' ∧ v ≠ v') ∧
    ∃ v v', sha256Files sampleSha256 (diskVW [120] [121]) [['v'], ['w']] = .ok v ∧
      sha256Files sampleSha256 (diskVW [120] [121]) [['w'], ['v']] = .ok v ∧
      sha256Files sampleSha256 (diskVW [121] [120]) [['v'], ['w']] = .ok v' ∧ v ≠ v' := by
  obtain ⟨hdirectories, hcollections⟩ := digests_unambiguous sampleSha256
  have hxy : namedVW [120] [121] ∈ [namedVW [120] [121], namedVW [121] [120]] :=
    List.mem_cons_self
  have hyx : namedVW [121] [120] ∈ [namedVW [120] [121], namedVW [121] [120]] :=
    List.mem_cons_of_mem _ List.mem_cons_self
  constructor
  · have hrecords := directoryRecords_filesVW [120] [121]
    have hrecords' := directoryRecords_filesVW [121] [120]
    have hbeside : directoryRecords filesWVAndDir = namedVW [120] [121] := by
      rw [directoryRecords, directoryFiles_eq_iff.mpr bytes?_filesWVAndDir]
      exact hrecords
    obtain ⟨v, hv⟩ := exists_sha256Directory hrecords
    obtain ⟨w, hw⟩ := exists_sha256Directory hbeside
    obtain ⟨v', hv'⟩ := exists_sha256Directory hrecords'
    have hsame := (hdirectories _ _ w v hw hv (by
      rw [hbeside, hrecords]
      exact injOn_sampleSha256 hxy hxy)).mpr bytes?_filesWVAndDir
    have hdiffer := hdirectories _ _ v v' hv hv' (by
      rw [hrecords, hrecords']
      exact injOn_sampleSha256 hxy hyx)
    exact ⟨v, v', hv, hsame ▸ hw, hv',
      fun heq ↦ absurd (hdiffer.mp heq [name ['v']]) (by decide)⟩
  · have hnamed := namedContents_diskVW [120] [121] (.refl _)
    have hswapped := namedContents_diskVW [120] [121] (List.Perm.swap ['v'] ['w'] [])
    have hnamed' := namedContents_diskVW [121] [120] (.refl _)
    obtain ⟨v, hv⟩ := exists_sha256Files hnamed
    obtain ⟨w, hw⟩ := exists_sha256Files hswapped
    obtain ⟨v', hv'⟩ := exists_sha256Files hnamed'
    have hsame := (hcollections _ _ _ _ w v hw hv (by
      rw [hswapped, hnamed]
      exact injOn_sampleSha256 hxy hxy)).mpr (hswapped.trans hnamed.symm)
    have hdiffer := hcollections _ _ _ _ v v' hv hv' (by
      rw [hnamed, hnamed']
      exact injOn_sampleSha256 hxy hyx)
    refine ⟨v, v', hv, hsame ▸ hw, hv', fun heq ↦ ?_⟩
    have hcontents := hnamed.symm.trans ((hdiffer.mp heq).trans hnamed')
    exact absurd hcontents (by decide)

end Neva.Tune
