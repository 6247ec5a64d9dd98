import Neva.Json.Loaded
import Neva.Ops.Copies
import Neva.Ops.Exact
import Neva.Ops.Index

/-!
# What `finalize-backup` leaves behind

`Finalized` is the directory of a backup after `finalize-backup`: the dump and the copy of the
runtime data, with the manifest and the checksum index that were written for them.  What was written
is read back, by the loader of the manifest, by the parser of the index and by the walk over the
files, and so `verifyBackupSource` accepts the directory (`Finalized.verifyBackupSource_ok`), if the
copy has no links in it and every path in it can be listed.
-/

set_option autoImplicit false

namespace Neva.Ops

open Raising

variable {lib : Library} {dump : Bytes} {runtime : Tree}

/-! ## What stands in the backup directory -/

theorem backupTree_entries : (backupTree dump runtime).entries =
    ([postgresName], .dir) :: (postgresDumpRelative, .file dump) :: (runtimeRootRelative, .dir) ::
      runtime.entries.map fun e ↦ (runtimeName :: e.1, e.2) := rfl

/-- An entry that is not below a directory right under the root. -/
theorem below_eq_none {root : Name} {p : Path} (h : p.head? ≠ some root ∨ p = [root]) (n : Node) :
    ((relativeTo [root] p).map fun q ↦ (q, n)) = none := by
  rw [Option.map_eq_none_iff, Option.eq_none_iff_forall_ne_some]
  intro q hq
  obtain ⟨rfl, hne⟩ := relativeTo_eq_some.mp hq
  rcases h with h | h
  · exact h rfl
  · exact hne (List.append_right_eq_self.mp h)

theorem head?_dump : postgresDumpRelative.head? ≠ some runtimeName := by decide

theorem head?_postgres : [postgresName].head? ≠ some runtimeName := by decide

theorem head?_runtime (p : Path) : (runtimeName :: p).head? ≠ some postgresName :=
  fun h ↦ postgresName_ne_runtimeName (Option.some.inj h).symm

theorem rglob_runtime : (backupTree dump runtime).rglob runtimeRootRelative = runtime.entries := by
  rw [Tree.rglob, backupTree_entries, runtimeRootRelative]
  simp only [List.filterMap_cons, below_eq_none (.inl head?_postgres),
    below_eq_none (.inl head?_dump), below_eq_none (.inr rfl), List.filterMap_map]
  refine (List.filterMap_congr fun e he ↦ ?_).trans List.filterMap_some
  have hrel : relativeTo [runtimeName] (runtimeName :: e.1) = some e.1 :=
    relativeTo_eq_some.mpr ⟨rfl, (runtime.allowed e he).1⟩
  show (relativeTo [runtimeName] (runtimeName :: e.1)).map _ = _
  rw [hrel]
  rfl

theorem rglob_postgres : (backupTree dump runtime).rglob [postgresName] =
    [([name "dump.sql.gz".toList], .file dump)] := by
  have hdump : relativeTo [postgresName] postgresDumpRelative = some [name "dump.sql.gz".toList] :=
    relativeTo_eq_some.mpr ⟨rfl, List.cons_ne_nil _ _⟩
  rw [Tree.rglob, backupTree_entries, runtimeRootRelative]
  simp only [List.filterMap_cons, below_eq_none (.inr rfl), hdump,
    below_eq_none (.inl (head?_runtime [])), List.filterMap_map, Option.map_some]
  congr 1
  exact List.filterMap_eq_nil_iff.mpr fun e _ ↦ below_eq_none (.inl (head?_runtime e.1)) e.2

theorem node?_runtime {p : Path} (hp : p ≠ []) :
    (backupTree dump runtime).node? (runtimeName :: p) = runtime.node? p := by
  refine Option.ext fun n ↦ ?_
  rw [Tree.node?_eq_some, Tree.node?_eq_some, ← List.singleton_append]
  have hmem : (p, n) ∈ (backupTree dump runtime).rglob runtimeRootRelative ↔
      (runtimeRootRelative ++ p, n) ∈ (backupTree dump runtime).entries ∧ p ≠ [] :=
    Tree.mem_rglob _
  rw [rglob_runtime] at hmem
  exact ⟨fun h ↦ hmem.mpr ⟨h, hp⟩, fun h ↦ (hmem.mp h).1⟩

/-! ## The lines that are written -/

/-- The files of a backup with their digests, in the order in which they are found. -/
def foundFiles (lib : Library) (dump : Bytes) (runtime : Tree) : List (Path × Text) :=
  (postgresDumpRelative, lib.sha256 dump) ::
    (runtime.entries.mergeSort fun a b ↦ pathLe a.1 b.1).filterMap fun e ↦
      e.2.bytes?.map fun data ↦ (runtimeName :: e.1, lib.sha256 data)

/-- The line of a file. -/
def fileLine (e : Path × Text) : List Sym := displayLine e.2 e.1

/-- The files, in the order of their lines. -/
def writtenIndex (lib : Library) (dump : Bytes) (runtime : Tree) : List (Path × Text) :=
  (foundFiles lib dump runtime).mergeSort fun a b ↦ textLe (fileLine a) (fileLine b)

theorem writtenIndex_perm : (writtenIndex lib dump runtime).Perm (foundFiles lib dump runtime) :=
  List.mergeSort_perm _ _

theorem mem_foundFiles {e : Path × Text} : e ∈ foundFiles lib dump runtime ↔
    e = (postgresDumpRelative, lib.sha256 dump) ∨ ∃ q n data, (q, n) ∈ runtime.entries ∧
      n.bytes? = some data ∧ e = (runtimeName :: q, lib.sha256 data) := by
  rw [foundFiles, List.mem_cons, List.mem_filterMap]
  refine or_congr_right ⟨?_, ?_⟩
  · rintro ⟨x, hx, he⟩
    obtain ⟨data, hdata, rfl⟩ := Option.map_eq_some_iff.mp he
    exact ⟨x.1, x.2, data, (List.mergeSort_perm _ _).mem_iff.mp hx, hdata, rfl⟩
  · rintro ⟨q, n, data, hmem, hdata, rfl⟩
    exact ⟨(q, n), (List.mergeSort_perm _ _).mem_iff.mpr hmem, by rw [hdata]; rfl⟩

/-- The paths of the files that are found. -/
theorem paths_foundFiles : ((foundFiles lib dump runtime).map Prod.fst).Perm
    (postgresDumpRelative ::
      (runtime.entries.filter fun e ↦ e.2.isFile).map fun e ↦ runtimeName :: e.1) := by
  rw [foundFiles, List.map_cons, List.map_filterMap]
  refine .cons _ (((List.mergeSort_perm runtime.entries _).filterMap _).trans ?_)
  rw [← List.filterMap_eq_map, List.filterMap_filter]
  refine .of_eq (List.filterMap_congr fun e _ ↦ ?_)
  rw [Node.isFile]
  cases e.2.bytes? with
  | none => rfl
  | some data => rfl

theorem nodup_foundFiles : ((foundFiles lib dump runtime).map Prod.fst).Nodup := by
  rw [paths_foundFiles.nodup_iff, List.nodup_cons]
  constructor
  · intro h
    obtain ⟨e, -, he⟩ := List.mem_map.mp h
    exact postgresName_ne_runtimeName (List.cons.inj he).1.symm
  · have hmap : (runtime.entries.filter fun e ↦ e.2.isFile).map (fun e ↦ runtimeName :: e.1) =
        ((runtime.entries.filter fun e ↦ e.2.isFile).map Prod.fst).map (List.cons runtimeName) := by
      rw [List.map_map]
      rfl
    rw [hmap]
    exact (runtime.nodup.sublist (List.filter_sublist.map _)).map List.cons_injective

theorem shouldInclude_of {p : Path} (h : isSecretPath p = false) :
    shouldIncludeInBackup p = true := by
  rw [shouldIncludeInBackup, ← isSecretPath, h]
  rfl

/-- The lines `finalize-backup` collects. -/
theorem collected_lines (hsecret : ∀ e ∈ runtime.entries, isSecretPath e.1 = false) :
    collectChecksumLines lib (backupTree dump runtime) [postgresName] [postgresName] ++
        collectChecksumLines lib (backupTree dump runtime) runtimeRootRelative runtimeRootRelative =
      (foundFiles lib dump runtime).map fileLine := by
  have hpostgres : (backupTree dump runtime).node? [postgresName] = some .dir :=
    Tree.node?_eq_some _ |>.mpr List.mem_cons_self
  have hruntime : (backupTree dump runtime).node? runtimeRootRelative = some .dir :=
    Tree.node?_eq_some _ |>.mpr
      (List.mem_cons_of_mem _ (List.mem_cons_of_mem _ List.mem_cons_self))
  have hdump : shouldIncludeInBackup [name "dump.sql.gz".toList] = true := by decide
  have hone : collectChecksumLines lib (backupTree dump runtime) [postgresName] [postgresName] =
      [fileLine (postgresDumpRelative, lib.sha256 dump)] := by
    rw [collectChecksumLines, if_neg (by rw [hpostgres]; simp), rglob_postgres,
      List.mergeSort_singleton, List.filterMap_cons, if_pos hdump]
    rfl
  rw [hone, collectChecksumLines, if_neg (by rw [hruntime]; simp), rglob_runtime, foundFiles,
    List.map_cons, List.map_filterMap, List.singleton_append]
  congr 1
  refine List.filterMap_congr fun e he ↦ ?_
  rw [shouldInclude_of (hsecret e ((List.mergeSort_perm _ _).mem_iff.mp he)), if_pos rfl,
    Option.map_map]
  rfl

theorem sorted_lines : ((foundFiles lib dump runtime).map fileLine).mergeSort textLe =
    (writtenIndex lib dump runtime).map fileLine :=
  (List.map_mergeSort (f := fileLine) fun _ _ _ _ ↦ rfl).symm

/-! ## What `finalize-backup` leaves behind -/

/-- What the manifest is built from. -/
def manifestInput (lib : Library) (args : FinalizeArgs) (dump : Bytes) (runtime : Tree)
    (databaseCounts : List (Text × Json)) : ManifestInput where
  backupId := args.backupId
  createdAt := args.createdAt
  dataDir := args.dataDir
  destination := args.destination
  databaseMeta := args.databaseMeta
  dryRun := false
  runtimeCounts := countRuntimeEntries (backupTree dump runtime) runtimeRootRelative
  databaseCounts := databaseCounts
  expectedFileCount := some (foundFiles lib dump runtime).length

/-- The directory after `finalize-backup`. -/
structure Finalized (lib : Library) (args : FinalizeArgs) (dump : Bytes) (runtime : Tree)
    (source : Tree) (databaseCounts : List (Text × Json)) (texts : List Text) : Prop where
  counts : parseCountJson args.databaseCountsJson = .ok databaseCounts
  lines : texts.map name = (writtenIndex lib dump runtime).map fileLine
  entries : source.entries = (backupTree dump runtime).entries ++
    [([manifestFilename], .file (encode ((Json.obj (buildManifest
        (manifestInput lib args dump runtime databaseCounts))).indented ++ ['\n']))),
      ([checksumsFilename], .file (encode (texts.flatMap fun line ↦ line ++ ['\n'])))]

theorem manifestFilename_ne_checksumsFilename : manifestFilename ≠ checksumsFilename := by decide

/-- A file with a new name is added to the entries. -/
theorem put_entries {t : Tree} {n : Name} {hn : n.Allowed} {data : Bytes}
    (h : ∀ e ∈ t.entries, e.1.head? ≠ some n) :
    (t.put n hn data).entries = t.entries ++ [([n], .file data)] := by
  rw [Tree.put]
  show t.entries.filter _ ++ _ = _
  rw [List.filter_eq_self.mpr fun e he ↦ by simpa using h e he]

theorem head?_backup {e : Path × Node} (he : e ∈ (backupTree dump runtime).entries) :
    e.1.head? = some postgresName ∨ e.1.head? = some runtimeName := by
  rw [backupTree_entries] at he
  rcases List.mem_cons.mp he with rfl | he
  · exact .inl rfl
  rcases List.mem_cons.mp he with rfl | he
  · exact .inl rfl
  rcases List.mem_cons.mp he with rfl | he
  · exact .inr rfl
  · obtain ⟨e', -, rfl⟩ := List.mem_map.mp he
    exact .inr rfl

theorem finalized_of_cmdFinalizeBackup {args : FinalizeArgs} {source : Tree}
    (hsecret : ∀ e ∈ runtime.entries, isSecretPath e.1 = false)
    (h : cmdFinalizeBackup lib args (backupTree dump runtime) = .ok source) :
    ∃ databaseCounts texts, Finalized lib args dump runtime source databaseCounts texts := by
  obtain ⟨databaseCounts, hcounts, h⟩ := bind_eq_ok.mp h
  simp only [collected_lines hsecret, sorted_lines, List.length_map] at h
  rw [writeChecksums] at h
  split at h
  · cases h
  · rename_i text htext
    rw [plainText_eq_some, intercalate_append_newline] at htext
    obtain ⟨texts, hlines, rfl⟩ := exists_name_of_flatMap htext
    cases h
    refine ⟨databaseCounts, texts, hcounts, hlines.symm, ?_⟩
    have hmanifest : ∀ e ∈ (backupTree dump runtime).entries,
        e.1.head? ≠ some manifestFilename := by
      intro e he heq
      rcases head?_backup he with hhead | hhead <;> rw [hhead] at heq <;> revert heq <;> decide
    have hchecksums : ∀ e ∈ (backupTree dump runtime).entries,
        e.1.head? ≠ some checksumsFilename := by
      intro e he heq
      rcases head?_backup he with hhead | hhead <;> rw [hhead] at heq <;> revert heq <;> decide
    rw [writeManifest, put_entries, put_entries hmanifest, List.append_assoc]
    · rfl
    · rw [put_entries hmanifest]
      intro e he
      rcases List.mem_append.mp he with he | he
      · exact hchecksums e he
      · rw [List.mem_singleton.mp he]
        exact fun heq ↦ manifestFilename_ne_checksumsFilename (Option.some.inj heq)

/-! ## The manifest is read back -/

theorem nodup_buildManifest (m : ManifestInput) : ((buildManifest m).map Prod.fst).Nodup := by
  show ["manifest_version".toList, "backup_id".toList, "created_at".toList, "dry_run".toList,
    "source".toList, "destination".toList, "database".toList, "database_counts".toList,
    "consistency_boundary".toList, "artifacts".toList, "excluded".toList].Nodup
  decide

theorem lookup_manifest (m : ManifestInput) (key : Text) :
    Json.lookup (Json.sortMembers (buildManifest m)) key =
      (Json.lookup (buildManifest m) key).map Json.sorted :=
  Json.lookup_sorted (nodup_buildManifest m) key

theorem proper_countsJson {counts : List (Text × ℕ)} (h : (counts.map Prod.fst).Nodup) :
    (countsJson counts).Proper := by
  rw [countsJson, Json.Proper, List.map_map]
  refine ⟨h, Json.properMembers_iff.mpr fun m hm ↦ ?_⟩
  obtain ⟨c, -, rfl⟩ := List.mem_map.mp hm
  simp [Json.Proper]

theorem proper_buildManifest {m : ManifestInput} (hcounts : (m.runtimeCounts.map Prod.fst).Nodup)
    (hdatabase : (Json.obj m.databaseCounts).Proper) : (Json.obj (buildManifest m)).Proper := by
  have hoptional (text : Option Text) : (optionalText text).Proper := by
    cases text <;> simp [optionalText, Json.Proper]
  have hruntime := proper_countsJson hcounts
  rw [Json.Proper] at hdatabase ⊢
  refine ⟨nodup_buildManifest m, ?_⟩
  cases hexpected : m.expectedFileCount with
  | none => simp [buildManifest, Json.Proper, Json.ProperMembers, Json.ProperItems,
      DatabaseMeta.json, consistencyBoundary, hoptional, hruntime, hdatabase, hexpected]
  | some n => simp [buildManifest, Json.Proper, Json.ProperMembers, Json.ProperItems,
      DatabaseMeta.json, consistencyBoundary, hoptional, hruntime, hdatabase, hexpected]

theorem isCount_sorted {v : Json} (h : isCount v = true) : isCount v.sorted = true := by
  cases v with
  | num k => exact h
  | bool b => rfl
  | _ => cases h

/-- What the manifest says about its backup. -/
def artifactsOf (m : ManifestInput) : List (Text × Json) := [
  ("postgres_dump".toList, .str "postgres/dump.sql.gz".toList),
  ("runtime_root".toList, .str "runtime".toList),
  ("checksums".toList, .str "checksums.sha256".toList),
  ("expected_file_count".toList,
    match m.expectedFileCount with
    | some n => .num (.ofNat n)
    | none => .null)]

theorem lookup_artifacts (m : ManifestInput) (key : Text) :
    Json.lookup (Json.sortMembers (artifactsOf m)) key =
      (Json.lookup (artifactsOf m) key).map Json.sorted := by
  refine Json.lookup_sorted ?_ key
  show ["postgres_dump".toList, "runtime_root".toList, "checksums".toList,
    "expected_file_count".toList].Nodup
  decide

theorem lookup_manifest_artifacts (m : ManifestInput) :
    Json.lookup (Json.sortMembers (buildManifest m)) "artifacts".toList =
      some (.obj (Json.sortMembers (artifactsOf m))) := by
  rw [lookup_manifest, ← Json.sorted_obj]
  rfl

theorem lookup_manifest_counts (m : ManifestInput) :
    Json.lookup (Json.sortMembers (buildManifest m)) "database_counts".toList =
      some (.obj (Json.sortMembers m.databaseCounts)) := by
  rw [lookup_manifest, ← Json.sorted_obj]
  rfl

/-- No key of a manifest is missing. -/
theorem manifest_complete (m : ManifestInput) : (requiredManifestKeys.filter fun k ↦
    (Json.lookup (Json.sortMembers (buildManifest m)) k).isNone) = [] := by
  refine List.filter_eq_nil_iff.mpr fun k hk ↦ ?_
  have hkeys : k ∈ (buildManifest m).map Prod.fst := by
    have hall : requiredManifestKeys.all fun k ↦ ["manifest_version".toList, "backup_id".toList,
        "created_at".toList, "dry_run".toList, "source".toList, "destination".toList,
        "database".toList, "database_counts".toList, "consistency_boundary".toList,
        "artifacts".toList, "excluded".toList].contains k := by decide
    exact List.contains_iff_mem.mp (List.all_eq_true.mp hall k hk)
  obtain ⟨x, hx, rfl⟩ := List.mem_map.mp hkeys
  rw [lookup_manifest, Option.isNone_map, (Json.lookup_eq_some (nodup_buildManifest m)).mpr hx]
  simp

/-- The manifest of a backup that is not a plan passes its checks. -/
theorem checkManifest_written {m : ManifestInput} (hdry : m.dryRun = false)
    (hcount : ∀ c ∈ m.databaseCounts, isCount c.2 = true)
    (hcore : sameSet (m.databaseCounts.map Prod.fst) coreTables = true) :
    checkManifest lib (Json.sortMembers (buildManifest m)) = .ok () := by
  have hversion : equalsNat lib
      (Json.lookup (Json.sortMembers (buildManifest m)) "manifest_version".toList) 2 = true := by
    rw [lookup_manifest, show Json.lookup (buildManifest m) "manifest_version".toList =
      some (.num (.ofNat 2)) from rfl]
    simp [equalsNat, Json.sorted]
  have hplan : Json.lookup (Json.sortMembers (buildManifest m)) "dry_run".toList =
      some (.bool false) := by
    rw [lookup_manifest, show Json.lookup (buildManifest m) "dry_run".toList =
      some (.bool m.dryRun) from rfl, hdry]
    rfl
  have hcounts : (Json.sortMembers m.databaseCounts).all (fun c ↦ isCount c.2) = true := by
    refine List.all_eq_true.mpr fun c hc ↦ ?_
    obtain ⟨c', hc', rfl⟩ := List.mem_map.mp ((Json.sortMembers_perm _).mem_iff.mp hc)
    exact isCount_sorted (hcount c' hc')
  have hnames : sameSet ((Json.sortMembers m.databaseCounts).map Prod.fst) coreTables = true := by
    rw [sameSet_iff] at hcore ⊢
    exact fun x ↦ (Json.names_sortMembers _).mem_iff.trans (hcore x)
  have hdump : Json.lookup (Json.sortMembers (artifactsOf m)) "postgres_dump".toList =
      some (.str "postgres/dump.sql.gz".toList) := by
    rw [lookup_artifacts]
    rfl
  have hroot : Json.lookup (Json.sortMembers (artifactsOf m)) "runtime_root".toList =
      some (.str "runtime".toList) := by
    rw [lookup_artifacts]
    rfl
  have htext (text : Text) : checkManifest.isText (some (.str text)) text = true := by
    rw [checkManifest.isText]
    exact beq_self_eq_true text
  rw [checkManifest]
  simp only [manifest_complete, hversion, hplan, lookup_manifest_counts, lookup_manifest_artifacts,
    hdump, hroot]
  cases hsorted : Json.sortMembers m.databaseCounts with
  | nil =>
    rw [hsorted] at hnames
    exact absurd hnames (by decide)
  | cons c rest =>
    rw [hsorted] at hcounts hnames
    rw [if_neg (by simp), if_neg (by simp), if_neg (by simp)]
    dsimp only
    rw [hcounts, hnames, htext, htext]
    rfl

/-- The manifest that was written is loaded. -/
theorem loadManifest_written {source : Tree} {m : ManifestInput}
    (hbytes : source.bytes? [manifestFilename] =
      some (encode ((Json.obj (buildManifest m)).indented ++ ['\n'])))
    (hproper : (Json.obj (buildManifest m)).Proper) (hdry : m.dryRun = false)
    (hcount : ∀ c ∈ m.databaseCounts, isCount c.2 = true)
    (hcore : sameSet (m.databaseCounts.map Prod.fst) coreTables = true) :
    loadManifest lib source = .ok (Json.sortMembers (buildManifest m)) := by
  rw [loadManifest, hbytes]
  simp only [decode_encode, Option.bind_some, Json.loads_indented hproper, Json.sorted_obj]
  rw [checkManifest_written hdry hcount hcore]
  rfl

/-! ## The counts are the same -/

theorem countBelow_congr {t t' : Tree} {root root' : Path} (hnode : t.node? root = t'.node? root')
    (hglob : t.rglob root = t'.rglob root') : countBelow t root = countBelow t' root' := by
  rw [countBelow, countBelow, hnode, hglob]

theorem relativeTo_cons (n : Name) (p q : Path) :
    relativeTo (n :: p) (n :: q) = relativeTo p q := by
  rw [relativeTo, relativeTo]
  simp [List.cons_prefix_cons]

theorem rglob_below {p : Path} (hp : p ≠ []) :
    (backupTree dump runtime).rglob (runtimeName :: p) = runtime.rglob p := by
  have hother {q : Path} (h : q.head? ≠ some runtimeName ∨ q = [runtimeName]) (n : Node) :
      ((relativeTo (runtimeName :: p) q).map fun x ↦ (x, n)) = none := by
    rw [Option.map_eq_none_iff, Option.eq_none_iff_forall_ne_some]
    intro x hx
    obtain ⟨rfl, -⟩ := relativeTo_eq_some.mp hx
    rcases h with h | h
    · exact h rfl
    · exact hp (List.append_eq_nil_iff.mp (List.cons.inj h).2).1
  rw [Tree.rglob, backupTree_entries, runtimeRootRelative, Tree.rglob]
  simp only [List.filterMap_cons, hother (.inl head?_postgres), hother (.inl head?_dump),
    hother (.inr rfl), List.filterMap_map]
  refine List.filterMap_congr fun e _ ↦ ?_
  rw [Function.comp_apply, relativeTo_cons]

theorem countRuntimeEntries_backup :
    countRuntimeEntries (backupTree dump runtime) runtimeRootRelative =
      countRuntimeEntries runtime [] := by
  refine List.map_congr_left fun sub _ ↦ ?_
  congr 1
  exact countBelow_congr (node?_runtime (List.cons_ne_nil _ _)) (rglob_below (List.cons_ne_nil _ _))

theorem nodup_runtimeCounts (t : Tree) (dataDir : Path) :
    ((countRuntimeEntries t dataDir).map Prod.fst).Nodup := by
  show ["audio".toList, "decks".toList, "corpus".toList].Nodup
  decide

/-- The counts in a manifest are those it was built from. -/
theorem checkCounts_written {m : ManifestInput} {counts : List (Text × ℕ)} {text : Text}
    (hcounts : m.runtimeCounts = counts) (hnodup : (counts.map Prod.fst).Nodup) :
    checkCounts lib counts (Json.sortMembers (buildManifest m)) text = .ok () := by
  have hsource : Json.lookup (Json.sortMembers (buildManifest m)) "source".toList =
      some (.obj (Json.sortMembers [("data_dir".toList, .str m.dataDir),
        ("runtime_subdirs".toList, .arr [.str "audio".toList, .str "decks".toList,
          .str "corpus".toList]),
        ("runtime_counts".toList, countsJson counts)])) := by
    rw [lookup_manifest, ← Json.sorted_obj, ← hcounts]
    rfl
  have hinner : Json.lookup (Json.sortMembers [("data_dir".toList, .str m.dataDir),
      ("runtime_subdirs".toList, .arr [.str "audio".toList, .str "decks".toList,
        .str "corpus".toList]),
      ("runtime_counts".toList, countsJson counts)]) "runtime_counts".toList =
      some (countsJson counts).sorted := by
    rw [Json.lookup_sorted]
    · rfl
    · show ["data_dir".toList, "runtime_subdirs".toList, "runtime_counts".toList].Nodup
      decide
  have hnames : ((counts.map fun c ↦ (c.1, Json.num (.ofNat c.2))).map Prod.fst).Nodup := by
    rwa [List.map_map]
  have hsame : sameCounts lib counts (some (countsJson counts).sorted) = true := by
    rw [countsJson, Json.sorted_obj, sameCounts, Bool.and_eq_true, beq_iff_eq, List.all_eq_true]
    refine ⟨?_, fun c hc ↦ ?_⟩
    · rw [(Json.sortMembers_perm _).length_eq, List.length_map, List.length_map]
    · rw [Json.lookup_sorted hnames, (Json.lookup_eq_some hnames).mpr (List.mem_map_of_mem hc)]
      simp [equalsNat, Json.sorted]
  rw [checkCounts, hsource]
  simp only
  rw [hinner, hsame]
  rfl

/-- A path that the index describes: one under `postgres/` or `runtime/`. -/
def Protected (p : Path) : Prop := p.head? = some postgresName ∨ p.head? = some runtimeName

theorem manifestFilename_not_protected : ¬ Protected [manifestFilename] := by
  rw [Protected]
  decide

theorem checksumsFilename_not_protected : ¬ Protected [checksumsFilename] := by
  rw [Protected]
  decide

/-- What is below a protected directory is protected. -/
theorem Protected.of_append {root q : Path} (h : Protected root) : Protected (root ++ q) := by
  cases root with
  | nil => rcases h with h | h <;> cases h
  | cons n root => exact h

/-- A digest has no line breaks in it. -/
theorem not_break_of_hex {c : Char} (hc : isLowerHex c = true) : isLineBreak c = false := by
  have hhex : 48 ≤ c.toNat ∧ c.toNat < 103 := by
    simp only [isLowerHex, Json.isDigit, Bool.or_eq_true, decide_eq_true_eq,
      Char.reduceToNat] at hc
    omega
  rw [isLineBreak, decide_eq_false_iff_not]
  intro hbreak
  have hout : c.toNat < 48 ∨ 103 ≤ c.toNat := by
    simp only [List.mem_cons, List.not_mem_nil, or_false] at hbreak
    rcases hbreak with rfl | rfl | rfl | rfl | rfl | rfl | rfl | rfl | rfl | rfl <;> simp
  omega

theorem isSecretPath_cons {n : Name} (hn : isSecretFilename n = false) {p : Path}
    (hp : isSecretPath p = false) : isSecretPath (n :: p) = false := by
  rw [isSecretPath, List.any_cons, hn, Bool.false_or]
  exact hp

/-- The first step of a script succeeds, and then the rest does. -/
theorem exists_ok_bind {α β : Type} {x : Except Error α} {f : α → Except Error β} {a : α}
    (hx : x = .ok a) (hf : ∃ b, f a = .ok b) : ∃ b, (x >>= f) = .ok b := by
  obtain ⟨b, hb⟩ := hf
  exact ⟨b, bind_eq_ok.mpr ⟨a, hx, hb⟩⟩

theorem checkEntries_of {source : Tree} {es : List (Path × Node)}
    (h : ∀ e ∈ es, e.2.isSymlink = false ∧ isSecretPath e.1 = false) :
    checkEntries source es = .ok () := by
  induction es with
  | nil => rfl
  | cons e es ih =>
    obtain ⟨⟨hlink, hsecret⟩, hes⟩ := List.forall_mem_cons.mp h
    rw [checkEntries, hlink, hsecret, Bool.and_false, if_neg (by simp), if_neg (by simp), ih hes]

/-- The files of a directory that has no secret files. -/
theorem protectedFiles_of {source : Tree} {root : Name} {L : List (Path × Node)}
    (hdir : source.isDir [root] = true) (hglob : source.rglob [root] = L)
    (hsecret : ∀ e ∈ L, isSecretPath (root :: e.1) = false) :
    protectedFiles source root =
      .ok ((L.filter fun e ↦ e.2.isFile).map fun e ↦ root :: e.1) := by
  rw [protectedFiles, hdir, hglob, if_neg (by simp)]
  dsimp only
  rw [if_neg]
  rw [Bool.not_eq_true, List.any_eq_false]
  intro e he
  have hkept := hsecret e (List.mem_of_mem_filter he)
  rw [hkept, shouldInclude_of hkept]
  simp

namespace Finalized

variable {args : FinalizeArgs} {source : Tree} {databaseCounts : List (Text × Json)}
  {texts : List Text}

/-- The protected entries are those of the backup. -/
theorem mem_iff (F : Finalized lib args dump runtime source databaseCounts texts) {p : Path}
    (hp : Protected p) (n : Node) :
    (p, n) ∈ source.entries ↔ (p, n) ∈ (backupTree dump runtime).entries := by
  rw [F.entries, List.mem_append, List.mem_cons, List.mem_singleton]
  refine or_iff_left ?_
  rintro (h | h)
  · rw [(Prod.mk.inj h).1] at hp
    exact manifestFilename_not_protected hp
  · rw [(Prod.mk.inj h).1] at hp
    exact checksumsFilename_not_protected hp

theorem node?_eq (F : Finalized lib args dump runtime source databaseCounts texts) {p : Path}
    (hp : Protected p) : source.node? p = (backupTree dump runtime).node? p := by
  refine Option.ext fun n ↦ ?_
  rw [Tree.node?_eq_some, Tree.node?_eq_some, F.mem_iff hp]

theorem rglob_eq (F : Finalized lib args dump runtime source databaseCounts texts) {root : Path}
    (hroot : Protected root) : source.rglob root = (backupTree dump runtime).rglob root := by
  have hother {p : Path} (hp : ¬ Protected p) (n : Node) :
      ((relativeTo root p).map fun q ↦ (q, n)) = none := by
    rw [Option.map_eq_none_iff, Option.eq_none_iff_forall_ne_some]
    intro q hq
    obtain ⟨rfl, -⟩ := relativeTo_eq_some.mp hq
    exact hp hroot.of_append
  rw [Tree.rglob, F.entries, List.filterMap_append, Tree.rglob]
  simp only [List.filterMap_cons, List.filterMap_nil, hother manifestFilename_not_protected,
    hother checksumsFilename_not_protected, List.append_nil]

theorem bytes?_manifest (F : Finalized lib args dump runtime source databaseCounts texts) :
    source.bytes? [manifestFilename] = some (encode ((Json.obj (buildManifest
      (manifestInput lib args dump runtime databaseCounts))).indented ++ ['\n'])) := by
  have hmem := source.node?_eq_some.mpr (F.entries ▸ List.mem_append_right _ List.mem_cons_self)
  rw [Tree.bytes?, hmem]
  rfl

theorem bytes?_index (F : Finalized lib args dump runtime source databaseCounts texts) :
    source.bytes? [checksumsFilename] =
      some (encode (texts.flatMap fun line ↦ line ++ ['\n'])) := by
  have hmem := source.node?_eq_some.mpr (F.entries ▸ List.mem_append_right _
    (List.mem_cons_of_mem _ List.mem_cons_self))
  rw [Tree.bytes?, hmem]
  rfl

/-- The index is read back as it was written, if all its paths can be listed. -/
theorem parseChecksums_eq (F : Finalized lib args dump runtime source databaseCounts texts)
    (hlist : ∀ e ∈ foundFiles lib dump runtime, Listable e.1) :
    parseChecksums source = .ok (writtenIndex lib dump runtime) := by
  have hwritten : ∀ e ∈ writtenIndex lib dump runtime,
      Listable e.1 ∧ e.2.length = 64 ∧ e.2.all isLowerHex = true := by
    intro e he
    have he := writtenIndex_perm.mem_iff.mp he
    refine ⟨hlist e he, ?_⟩
    rcases mem_foundFiles.mp he with rfl | ⟨q, n, data, -, -, rfl⟩
    · exact lib.sha256_hex dump
    · exact lib.sha256_hex data
  have hbreak : ∀ line ∈ texts, ∀ c ∈ line, isLineBreak c = false := by
    intro line hline c hc
    have hmem : name line ∈ (writtenIndex lib dump runtime).map fileLine :=
      F.lines ▸ List.mem_map_of_mem hline
    obtain ⟨e, he, heq⟩ := List.mem_map.mp hmem
    have hc : Sym.char c ∈ fileLine e := heq ▸ List.mem_map_of_mem hc
    rcases List.mem_append.mp hc with hc | hc
    · obtain ⟨c', hc', hcc⟩ := List.mem_map.mp hc
      cases hcc
      exact not_break_of_hex (List.all_eq_true.mp (hwritten e he).2.2 c hc')
    · rcases List.mem_cons.mp hc with hc | hc
      · cases hc
        decide
      rcases List.mem_cons.mp hc with hc | hc
      · cases hc
        decide
      · exact unbroken_asPosix (hwritten e he).1.unbroken c hc
  have hnodup : ((writtenIndex lib dump runtime).map Prod.fst).Nodup :=
    (writtenIndex_perm.map _).nodup_iff.mpr nodup_foundFiles
  have hne : writtenIndex lib dump runtime ≠ [] := fun h ↦ by
    have hperm : (writtenIndex lib dump runtime).Perm (foundFiles lib dump runtime) :=
      writtenIndex_perm
    rw [h] at hperm
    exact List.cons_ne_nil _ _ hperm.nil_eq.symm
  have hparse := parseLines_of_lines F.lines hwritten 1 [] hnodup
  rw [List.nil_append] at hparse
  rw [parseChecksums, F.bytes?_index]
  simp only [decode_encode]
  rw [splitlines_lines hbreak, hparse]
  show (if _ then _ else _) = _
  rw [if_neg hne]
  rfl

/-- The files that are expected are those that were found. -/
theorem expected_eq (F : Finalized lib args dump runtime source databaseCounts texts)
    (hsecret : ∀ e ∈ runtime.entries, isSecretPath e.1 = false) :
    expectedBackupFiles source = .ok (postgresDumpRelative ::
      (runtime.entries.filter fun e ↦ e.2.isFile).map fun e ↦ runtimeName :: e.1) := by
  have hdir {root : Name} (hroot : Protected [root])
      (hmem : ([root], Node.dir) ∈ (backupTree dump runtime).entries) :
      source.isDir [root] = true := by
    rw [Tree.isDir, F.node?_eq hroot, Tree.node?_eq_some _ |>.mpr hmem]
    rfl
  have hpostgres : protectedFiles source postgresName = .ok [postgresDumpRelative] := by
    have hdump : isSecretPath postgresDumpRelative = false := by decide
    refine protectedFiles_of (hdir (.inl rfl) List.mem_cons_self)
      ((F.rglob_eq (.inl rfl)).trans rglob_postgres) fun e he ↦ ?_
    rw [List.mem_singleton.mp he]
    exact hdump
  have hruntime : protectedFiles source runtimeName =
      .ok ((runtime.entries.filter fun e ↦ e.2.isFile).map fun e ↦ runtimeName :: e.1) := by
    have hname : isSecretFilename runtimeName = false := by decide
    exact protectedFiles_of
      (hdir (.inr rfl) (List.mem_cons_of_mem _ (List.mem_cons_of_mem _ List.mem_cons_self)))
      ((F.rglob_eq (.inr rfl)).trans rglob_runtime) fun e he ↦
        isSecretPath_cons hname (hsecret e he)
  rw [expectedBackupFiles, hpostgres, hruntime]
  rfl

theorem countRuntimeEntries_eq
    (F : Finalized lib args dump runtime source databaseCounts texts) :
    countRuntimeEntries source runtimeRootRelative = countRuntimeEntries runtime [] := by
  have hbackup : countRuntimeEntries (backupTree dump runtime) runtimeRootRelative =
      countRuntimeEntries runtime [] := countRuntimeEntries_backup
  rw [← hbackup]
  refine List.map_congr_left fun sub _ ↦ ?_
  congr 1
  exact countBelow_congr (F.node?_eq (.inr rfl)) (F.rglob_eq (.inr rfl))

/-- The manifest of the backup is loaded as it was built. -/
theorem loadManifest_eq (F : Finalized lib args dump runtime source databaseCounts texts)
    (hcore : sameSet (databaseCounts.map Prod.fst) coreTables = true) :
    loadManifest lib source = .ok (Json.sortMembers (buildManifest
      (manifestInput lib args dump runtime databaseCounts))) := by
  have hcounts := F.counts
  rw [parseCountJson] at hcounts
  split at hcounts
  · cases hcounts
  · rename_i members hloads
    split at hcounts
    · rename_i hall
      cases hcounts
      exact loadManifest_written F.bytes?_manifest
        (proper_buildManifest (nodup_runtimeCounts _ _) (Json.loads_proper hloads)) rfl
        (List.all_eq_true.mp hall) hcore
    · cases hcounts
  · cases hcounts

/-- What a listed file contains. -/
theorem bytes?_of_mem (F : Finalized lib args dump runtime source databaseCounts texts) {p : Path}
    {d : Text} (h : (p, d) ∈ writtenIndex lib dump runtime) :
    ∃ data, source.bytes? p = some data ∧ lib.sha256 data = d := by
  rcases mem_foundFiles.mp (writtenIndex_perm.mem_iff.mp h) with heq | ⟨q, n, data, hq, hn, heq⟩
  · cases heq
    have hmem : (postgresDumpRelative, Node.file dump) ∈ (backupTree dump runtime).entries :=
      List.mem_cons_of_mem _ List.mem_cons_self
    refine ⟨dump, ?_, rfl⟩
    rw [Tree.bytes?, F.node?_eq (.inl rfl), Tree.node?_eq_some _ |>.mpr hmem]
    rfl
  · cases heq
    refine ⟨data, ?_, rfl⟩
    rw [Tree.bytes?, F.node?_eq (.inr rfl), node?_runtime (runtime.allowed _ hq).1,
      runtime.node?_eq_some.mpr hq]
    exact hn

/-- A backup of files that can be listed is accepted. -/
theorem verifyBackupSource_ok (F : Finalized lib args dump runtime source databaseCounts texts)
    (hlinks : ∀ e ∈ runtime.entries, e.2.isSymlink = false)
    (hsecret : ∀ e ∈ runtime.entries, isSecretPath e.1 = false)
    (hlist : ∀ e ∈ foundFiles lib dump runtime, Listable e.1)
    (hcore : sameSet (databaseCounts.map Prod.fst) coreTables = true) {k : ℕ}
    (hdump : lib.gunzip dump = .read (k + 1)) :
    ∃ summary, verifyBackupSource lib source = .ok summary := by
  have hentries : ∀ e ∈ source.entries, e.2.isSymlink = false ∧ isSecretPath e.1 = false := by
    intro e he
    rw [F.entries, backupTree_entries] at he
    simp only [List.cons_append, List.mem_cons, List.mem_append, List.mem_map, List.not_mem_nil,
      or_false] at he
    rcases he with rfl | rfl | rfl | ⟨e', he', rfl⟩ | rfl | rfl
    · exact ⟨rfl, by decide⟩
    · exact ⟨rfl, show isSecretPath postgresDumpRelative = false by decide⟩
    · exact ⟨rfl, by decide⟩
    · exact ⟨hlinks e' he', isSecretPath_cons (by decide) (hsecret e' he')⟩
    · exact ⟨rfl, show isSecretPath [manifestFilename] = false by decide⟩
    · exact ⟨rfl, show isSecretPath [checksumsFilename] = false by decide⟩
  have hfound : ((foundFiles lib dump runtime).map Prod.fst).Perm (postgresDumpRelative ::
      (runtime.entries.filter fun e ↦ e.2.isFile).map fun e ↦ runtimeName :: e.1) :=
    paths_foundFiles
  have hpaths := (writtenIndex_perm.map Prod.fst).trans hfound
  have hlength : (foundFiles lib dump runtime).length = (postgresDumpRelative ::
      (runtime.entries.filter fun e ↦ e.2.isFile).map fun e ↦ runtimeName :: e.1).length := by
    rw [← hfound.length_eq, List.length_map]
  have hset : ¬ (!sameSet ((writtenIndex lib dump runtime).map Prod.fst) (postgresDumpRelative ::
      (runtime.entries.filter fun e ↦ e.2.isFile).map fun e ↦ runtimeName :: e.1)) = true := by
    rw [sameSet_iff.mpr fun p ↦ hpaths.mem_iff]
    simp
  have hgzip : verifyGzipStream lib source postgresDumpRelative = .ok (k + 1) := by
    have hmem : (postgresDumpRelative, Node.file dump) ∈ (backupTree dump runtime).entries :=
      List.mem_cons_of_mem _ List.mem_cons_self
    rw [verifyGzipStream, Tree.bytes?, F.node?_eq (.inl rfl), Tree.node?_eq_some _ |>.mpr hmem]
    simp only [Option.bind_some, Node.bytes?, hdump]
  have hcounts (text : Text) : checkCounts lib (countRuntimeEntries source runtimeRootRelative)
      (Json.sortMembers (buildManifest (manifestInput lib args dump runtime databaseCounts))) text =
        .ok () := by
    rw [F.countRuntimeEntries_eq]
    exact checkCounts_written countRuntimeEntries_backup (nodup_runtimeCounts _ _)
  refine exists_ok_bind (checkEntries_of hentries) (exists_ok_bind (F.loadManifest_eq hcore)
    (exists_ok_bind (F.parseChecksums_eq hlist) (exists_ok_bind (F.expected_eq hsecret) ?_)))
  rw [if_neg hset, lookup_manifest_artifacts, if_neg]
  · exact exists_ok_bind (checkDigests_eq_ok.mpr fun p d h ↦ F.bytes?_of_mem h)
      (exists_ok_bind hgzip (exists_ok_bind (hcounts _) ⟨_, rfl⟩))
  · simp only [Option.bind_some, Json.get?]
    rw [lookup_artifacts, ← hlength]
    show ¬ (!equalsNat lib (some (Json.num (.ofNat (foundFiles lib dump runtime).length))) _) = true
    simp [equalsNat]

end Finalized

end Neva.Ops
