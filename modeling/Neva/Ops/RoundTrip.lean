import Neva.Ops.Finalized

/-!
# From a backup to a restore

The runtime data is copied, the copy is described by `finalize-backup`, and copied again into a
restore target.  The backup is accepted and what is restored from it is accepted as well, if the
data is `Restorable`, and only then (`accepted_of_restorable`, `restorable_of_accepted`).  Symbolic
links are refused, and nothing may have the name of the marker.  Nor may the path of a file have a
character in it at which `splitlines` ends a line: the reader of the index ends a line there, and
the writer does not.
-/

set_option autoImplicit false

namespace Neva.Ops

open Raising Digests

variable {lib : Library} {dump : Bytes} {runtime source : Tree} {args : FinalizeArgs}
  {databaseCounts : List (Text × Json)} {texts : List Text} {marker : Node}

/-! ## The restored directory is accepted -/

theorem entries_restored (hmarker : runtime.node? [isolatedMarkerFilename] = none) :
    (restoreTree marker runtime).entries =
      ([isolatedMarkerFilename], marker) :: runtime.entries := by
  show (if _ then _ else _) = _
  rw [if_neg (by rw [hmarker]; simp)]

/-- What has the name of the marker is left as it is. -/
theorem node?_restored_of_some {n : Node}
    (hmarker : runtime.node? [isolatedMarkerFilename] = some n) (p : Path) :
    (restoreTree marker runtime).node? p = runtime.node? p := by
  have hentries : (restoreTree marker runtime).entries = runtime.entries := by
    show (if _ then _ else _) = _
    rw [if_pos (by rw [hmarker]; rfl)]
  rw [Tree.node?, hentries, Tree.node?]

theorem node?_restored (hmarker : runtime.node? [isolatedMarkerFilename] = none) {p : Path}
    (hp : p ≠ [isolatedMarkerFilename]) :
    (restoreTree marker runtime).node? p = runtime.node? p := by
  rw [Tree.node?, entries_restored hmarker, Dict.get_cons, if_neg (Ne.symm hp), Tree.node?]

theorem countRuntimeEntries_restored (hmarker : runtime.node? [isolatedMarkerFilename] = none) :
    countRuntimeEntries (restoreTree marker runtime) [] = countRuntimeEntries runtime [] := by
  refine List.map_congr_left fun sub hsub ↦ ?_
  have hne : ∀ sub ∈ ["audio".toList, "decks".toList, "corpus".toList],
      name sub ≠ isolatedMarkerFilename := by decide
  have hsub := hne sub hsub
  congr 1
  refine countBelow_congr (node?_restored hmarker fun h ↦ hsub (List.cons.inj h).1) ?_
  have hhead : [isolatedMarkerFilename].head? ≠ some (name sub) :=
    fun h ↦ hsub (Option.some.inj h).symm
  have hother : ((relativeTo ([] ++ [name sub]) [isolatedMarkerFilename]).map fun q ↦ (q, marker)) =
      none := below_eq_none (.inl hhead) marker
  rw [Tree.rglob, entries_restored hmarker, List.filterMap_cons]
  simp only [hother]
  rfl

theorem restoredFiles_of {found : List Path} {es : List (Path × Node)}
    (h : ∀ e ∈ es, e.2.isSymlink = false ∧ isSecretPath e.1 = false ∧
      e.1 ≠ [isolatedMarkerFilename]) :
    restoredFiles found es = .ok (found ++ (es.filter fun e ↦ e.2.isFile).map Prod.fst) := by
  induction es generalizing found with
  | nil => rw [restoredFiles, List.filter_nil, List.map_nil, List.append_nil]
  | cons e es ih =>
    obtain ⟨⟨hlink, hsecret, hname⟩, hes⟩ := List.forall_mem_cons.mp h
    rw [restoredFiles, hlink, if_neg (by simp)]
    cases hfile : e.2.isFile with
    | false => rw [if_pos (by simp), ih hes, List.filter_cons_of_neg (by simp [hfile])]
    | true =>
      rw [if_neg (by simp), if_neg hname, hsecret, if_neg (by simp), ih hes,
        List.filter_cons_of_pos (p := fun e : Path × Node ↦ e.2.isFile) hfile, List.map_cons,
        List.append_assoc, List.singleton_append]

/-- A copy of the files into the target is accepted. -/
theorem Finalized.verifyRestoredRuntime_ok
    (F : Finalized lib args dump runtime source databaseCounts texts)
    (hlinks : ∀ e ∈ runtime.entries, e.2.isSymlink = false)
    (hsecret : ∀ e ∈ runtime.entries, isSecretPath e.1 = false)
    (hlist : ∀ e ∈ foundFiles lib dump runtime, Listable e.1)
    (hname : runtime.node? [isolatedMarkerFilename] = none) (hfile : marker.isFile = true)
    (hlink : marker.isSymlink = false) :
    ∃ counts, verifyRestoredRuntime lib source (restoreTree marker runtime)
      (Json.sortMembers (buildManifest (manifestInput lib args dump runtime databaseCounts))) =
        .ok counts := by
  have hkept : ∀ e ∈ runtime.entries, e.2.isSymlink = false ∧ isSecretPath e.1 = false ∧
      e.1 ≠ [isolatedMarkerFilename] := by
    refine fun e he ↦ ⟨hlinks e he, hsecret e he, fun h ↦ ?_⟩
    rw [Tree.node?, Dict.get_eq_none] at hname
    exact hname (h ▸ List.mem_map_of_mem he)
  have hfiles : restoredFiles [] (restoreTree marker runtime).entries =
      .ok ((runtime.entries.filter fun e ↦ e.2.isFile).map Prod.fst) := by
    rw [entries_restored hname, restoredFiles, hlink, hfile, if_neg (by simp), if_neg (by simp),
      if_pos rfl, restoredFiles_of hkept, List.nil_append]
  have hindexed (p : Path) (d : Text) : (p, d) ∈ runtimeChecksums (writtenIndex lib dump runtime) ↔
      ∃ n data, (p, n) ∈ runtime.entries ∧ n.bytes? = some data ∧ lib.sha256 data = d := by
    rw [mem_runtimeChecksums, writtenIndex_perm.mem_iff, mem_foundFiles]
    constructor
    · rintro (h | ⟨q, n, data, hq, hn, h⟩)
      · exact absurd (List.cons.inj (Prod.mk.inj h).1).1.symm postgresName_ne_runtimeName
      · cases h
        exact ⟨n, data, hq, hn, rfl⟩
    · rintro ⟨n, data, hq, hn, rfl⟩
      exact .inr ⟨p, n, data, hq, hn, rfl⟩
  have hset : ¬ (!sameSet ((runtime.entries.filter fun e ↦ e.2.isFile).map Prod.fst)
      ((runtimeChecksums (writtenIndex lib dump runtime)).map Prod.fst)) = true := by
    rw [sameSet_iff.mpr]
    · simp
    · intro p
      rw [List.mem_map, List.mem_map]
      constructor
      · rintro ⟨e, he, rfl⟩
        obtain ⟨hmem, hisfile⟩ := List.mem_filter.mp he
        obtain ⟨data, hdata⟩ := Option.isSome_iff_exists.mp hisfile
        exact ⟨(e.1, lib.sha256 data), (hindexed _ _).mpr ⟨e.2, data, hmem, hdata, rfl⟩, rfl⟩
      · rintro ⟨⟨q, d⟩, hq, rfl⟩
        obtain ⟨n, data, hmem, hn, -⟩ := (hindexed _ _).mp hq
        exact ⟨(q, n), List.mem_filter.mpr ⟨hmem, Option.isSome_iff_exists.mpr ⟨data, hn⟩⟩, rfl⟩
  have hdigests : checkDigests lib (restoreTree marker runtime) .restoredMismatch
      (runtimeChecksums (writtenIndex lib dump runtime)) = .ok () := by
    refine checkDigests_eq_ok.mpr fun p d h ↦ ?_
    obtain ⟨n, data, hmem, hn, hd⟩ := (hindexed p d).mp h
    refine ⟨data, ?_, hd⟩
    rw [Tree.bytes?, node?_restored hname (hkept _ hmem).2.2, runtime.node?_eq_some.mpr hmem]
    exact hn
  have hcounts (text : Text) : checkCounts lib (countRuntimeEntries (restoreTree marker runtime) [])
      (Json.sortMembers (buildManifest (manifestInput lib args dump runtime databaseCounts))) text =
        .ok () := by
    rw [countRuntimeEntries_restored hname]
    exact checkCounts_written countRuntimeEntries_backup (nodup_runtimeCounts _ _)
  have hstands : (restoreTree marker runtime).isFile [isolatedMarkerFilename] = true := by
    rw [Tree.isFile, Tree.node?, entries_restored hname, Dict.get_cons, if_pos rfl]
    exact hfile
  refine exists_ok_bind (F.parseChecksums_eq hlist) (exists_ok_bind hfiles ?_)
  rw [if_neg hset]
  refine exists_ok_bind hdigests (exists_ok_bind (hcounts _) ?_)
  rw [hstands]
  exact ⟨_, rfl⟩

/-! ## When a backup can be restored -/

/-- No line that is written has anything in it but characters. -/
theorem exists_text_of_lines {L : List (Path × Text)}
    (h : ∀ e ∈ L, ∃ text, asPosix e.1 = name text) :
    ∃ text, checksumsText (L.map fileLine) = name text := by
  rw [intercalate_append_newline]
  induction L with
  | nil => exact ⟨[], rfl⟩
  | cons e L ih =>
    obtain ⟨⟨path, hpath⟩, hL⟩ := List.forall_mem_cons.mp h
    obtain ⟨rest, hrest⟩ := ih hL
    refine ⟨e.2 ++ ' ' :: ' ' :: path ++ ['\n'] ++ rest, ?_⟩
    rw [List.map_cons, List.flatMap_cons, hrest, name_append, name_append, name_append, fileLine,
      displayLine, hpath]
    rfl

/-- `finalize-backup` reports success, when every path can be written. -/
theorem exists_cmdFinalizeBackup
    (hcounts : parseCountJson args.databaseCountsJson = .ok databaseCounts)
    (hsecret : ∀ e ∈ runtime.entries, isSecretPath e.1 = false)
    (hplain : ∀ e ∈ foundFiles lib dump runtime, ∃ text, asPosix e.1 = name text) :
    ∃ source, cmdFinalizeBackup lib args (backupTree dump runtime) = .ok source := by
  obtain ⟨text, htext⟩ := exists_text_of_lines (L := writtenIndex lib dump runtime)
    fun e he ↦ hplain e (writtenIndex_perm.mem_iff.mp he)
  refine exists_ok_bind hcounts ?_
  simp only [collected_lines hsecret, sorted_lines]
  rw [writeChecksums, plainText_eq_some.mpr htext]
  exact ⟨_, rfl⟩

/-- No entry of an accepted backup is a link. -/
theorem Finalized.no_links (F : Finalized lib args dump runtime source databaseCounts texts)
    {summary : Summary} (h : verifyBackupSource lib source = .ok summary) :
    ∀ e ∈ runtime.entries, e.2.isSymlink = false := by
  intro e he
  obtain ⟨index, hv⟩ := verified_of_verifyBackupSource h
  refine hv.no_links (runtimeName :: e.1, e.2) ?_
  rw [F.mem_iff (.inr rfl), ← Tree.node?_eq_some, node?_runtime (runtime.allowed _ he).1,
    Tree.node?_eq_some]
  exact he

/-- The backup is accepted, and so is what has been restored from it. -/
def Accepted (lib : Library) (source target : Tree) : Prop :=
  (∃ summary, verifyBackupSource lib source = .ok summary) ∧
    ∃ manifest counts, loadManifest lib source = .ok manifest ∧
      verifyRestoredRuntime lib source target manifest = .ok counts

/-- **Data that can be restored from its backup**, beside a marker.  What the copy leaves out does
not matter. -/
structure Restorable (data : Tree) (marker : Node) : Prop where
  no_links : ∀ e ∈ data.entries, e.1.any isExcluded = false → e.2.isSymlink = false
  /-- No file has a path with a line break in it. -/
  unbroken : ∀ e ∈ data.entries, e.1.any isExcluded = false → e.2.isFile = true →
    ∀ n ∈ e.1, Unbroken n
  /-- Nothing has the name of the marker. -/
  no_marker : data.node? [isolatedMarkerFilename] = none
  marker : marker.isSymlink = false

variable {data : Tree} {relink relink' : Path → Target}

theorem secret_rsync : ∀ e ∈ (data.rsync relink).entries, isSecretPath e.1 = false :=
  fun _ he ↦ isSecretPath_of_kept (Tree.mem_rsync.mp he).1

theorem kept_marker : [isolatedMarkerFilename].any isExcluded = false := by decide

theorem node?_rsync_marker :
    (data.rsync relink).node? [isolatedMarkerFilename] = none ↔
      data.node? [isolatedMarkerFilename] = none := by
  rw [Option.eq_none_iff_forall_ne_some, Option.eq_none_iff_forall_ne_some]
  constructor
  · intro h n hn
    refine h (n.copied (relink [isolatedMarkerFilename])) ?_
    rw [Tree.node?_eq_some, Tree.mem_rsync]
    exact ⟨kept_marker, n, data.node?_eq_some.mp hn, rfl⟩
  · intro h n hn
    obtain ⟨-, m, hm, -⟩ := Tree.mem_rsync.mp ((data.rsync relink).node?_eq_some.mp hn)
    exact h m (data.node?_eq_some.mpr hm)

theorem unbroken_name {text : Text} (h : text.any isLineBreak = false) :
    Unbroken (name text) := by
  intro c hc
  obtain ⟨c', hc', heq⟩ := List.mem_map.mp hc
  cases heq
  exact Bool.eq_false_iff.mpr (List.any_eq_false.mp h c hc')

theorem listable_dump : Listable postgresDumpRelative where
  nonempty := List.cons_ne_nil _ _
  allowed := List.forall_mem_cons.mpr ⟨postgresName_allowed, by simpa using dumpName_allowed⟩
  unbroken := by
    refine List.forall_mem_cons.mpr ⟨unbroken_name (by decide), ?_⟩
    exact List.forall_mem_cons.mpr
      ⟨unbroken_name (by decide), fun n hn ↦ absurd hn List.not_mem_nil⟩
  not_secret := by decide

/-- The files of restorable data can be listed. -/
theorem Restorable.listable (h : Restorable data marker) :
    ∀ e ∈ foundFiles lib dump (data.rsync relink), Listable e.1 := by
  rintro e he
  rcases mem_foundFiles.mp he with rfl | ⟨q, n, bytes, hq, hn, rfl⟩
  · exact listable_dump
  · obtain ⟨hkept, m, hm, rfl⟩ := Tree.mem_rsync.mp hq
    have hlink := h.no_links _ hm hkept
    rw [Node.copied_eq hlink] at hn
    have hfile : m.isFile = true := Option.isSome_iff_exists.mpr ⟨bytes, hn⟩
    refine ⟨List.cons_ne_nil _ _, ?_, ?_, isSecretPath_cons (by decide) (secret_rsync _ hq)⟩
    · exact List.forall_mem_cons.mpr ⟨runtimeName_allowed, (data.allowed _ hm).2⟩
    · exact List.forall_mem_cons.mpr ⟨unbroken_name (by decide), h.unbroken _ hm hkept hfile⟩

theorem Restorable.links_rsync (h : Restorable data marker) :
    ∀ e ∈ (data.rsync relink).entries, e.2.isSymlink = false := by
  rintro ⟨p, n⟩ he
  obtain ⟨hkept, m, hm, rfl⟩ := Tree.mem_rsync.mp he
  rw [Node.isSymlink_copied]
  exact h.no_links _ hm hkept

theorem Tree.eq_of_entries {t t' : Tree} (h : t.entries = t'.entries) : t = t' := by
  cases t
  cases t'
  cases h
  rfl

/-- Restorable data is restored. -/
theorem accepted_of_restorable (h : Restorable data marker) {k : ℕ}
    (hdump : lib.gunzip dump = .read (k + 1)) (hfile : marker.isFile = true)
    (hcounts : parseCountJson args.databaseCountsJson = .ok databaseCounts)
    (hcore : sameSet (databaseCounts.map Prod.fst) coreTables = true)
    (hfin : cmdFinalizeBackup lib args (backupTree dump (data.rsync relink)) = .ok source) :
    Accepted lib source (restoreTree marker ((data.rsync relink).rsync relink')) := by
  obtain ⟨databaseCounts', texts, F⟩ := finalized_of_cmdFinalizeBackup secret_rsync hfin
  cases hcounts.symm.trans F.counts
  have hcopy : (data.rsync relink).rsync relink' = data.rsync relink :=
    Tree.eq_of_entries (Tree.rsync_rsync h.links_rsync)
  have hname : (data.rsync relink).node? [isolatedMarkerFilename] = none :=
    node?_rsync_marker.mpr h.no_marker
  refine ⟨F.verifyBackupSource_ok h.links_rsync secret_rsync h.listable hcore hdump, ?_⟩
  obtain ⟨counts, hok⟩ := F.verifyRestoredRuntime_ok h.links_rsync secret_rsync h.listable hname
    hfile h.marker
  rw [hcopy]
  exact ⟨_, counts, F.loadManifest_eq hcore, hok⟩

/-- The marker stands in a directory that is accepted. -/
theorem isFile_of_verifyRestoredRuntime {target : Tree} {manifest : List (Text × Json)}
    {counts : List (Text × ℕ)} (h : verifyRestoredRuntime lib source target manifest = .ok counts) :
    target.isFile [isolatedMarkerFilename] = true := by
  obtain ⟨_, -, h⟩ := bind_eq_ok.mp h
  obtain ⟨_, -, h⟩ := bind_eq_ok.mp h
  rw [ite_error_eq_ok] at h
  obtain ⟨_, -, h⟩ := bind_eq_ok.mp h.2
  obtain ⟨_, -, h⟩ := bind_eq_ok.mp h
  rw [ite_error_eq_ok] at h
  simpa using h.1

/-- Only restorable data is. -/
theorem restorable_of_accepted
    (hfin : cmdFinalizeBackup lib args (backupTree dump (data.rsync relink)) = .ok source)
    (h : Accepted lib source (restoreTree marker ((data.rsync relink).rsync relink'))) :
    Restorable data marker := by
  obtain ⟨databaseCounts, texts, F⟩ := finalized_of_cmdFinalizeBackup secret_rsync hfin
  obtain ⟨⟨summary, hsummary⟩, manifest, counts, -, hrestored⟩ := h
  obtain ⟨index, hv⟩ := verified_of_verifyBackupSource hsummary
  have hcopylinks := F.no_links hsummary
  have hmem {p : Path} {n : Node} (hp : (p, n) ∈ (data.rsync relink).entries) :
      (runtimeName :: p, n) ∈ source.entries := by
    rw [F.mem_iff (.inr rfl), ← Tree.node?_eq_some,
      node?_runtime ((data.rsync relink).allowed _ hp).1,
      Tree.node?_eq_some]
    exact hp
  have hlinks : ∀ e ∈ data.entries, e.1.any isExcluded = false → e.2.isSymlink = false := by
    intro e he hkept
    have hlink := hcopylinks _ (Tree.mem_rsync.mpr ⟨hkept, e.2, he, rfl⟩)
    rwa [Node.isSymlink_copied] at hlink
  have hcopied {p : Path} {n : Node} (hp : (p, n) ∈ data.entries)
      (hkept : p.any isExcluded = false) : (p, n) ∈ (data.rsync relink).entries :=
    Tree.mem_rsync.mpr ⟨hkept, n, hp, (Node.copied_eq (hlinks _ hp hkept)).symm⟩
  have hcopy : (data.rsync relink).rsync relink' = data.rsync relink :=
    Tree.eq_of_entries (Tree.rsync_rsync hcopylinks)
  rw [hcopy] at hrestored
  have hregular {p : Path} {n : Node} {bytes : Bytes} (hp : (p, n) ∈ (data.rsync relink).entries)
      (hn : n.bytes? = some bytes) : source.runtime? p = some bytes := by
    rw [Tree.runtime?, Tree.regular?, source.node?_eq_some.mpr (hmem hp), Option.bind_some,
      Node.regular?_eq_bytes? (hcopylinks _ hp), hn]
  have hname : (data.rsync relink).node? [isolatedMarkerFilename] = none := by
    cases hn : (data.rsync relink).node? [isolatedMarkerFilename] with
    | none => rfl
    | some n =>
      -- what has the name of the marker has to be a file, and is a file that is not restored
      have hfile : n.isFile = true := by
        have hstands := isFile_of_verifyRestoredRuntime hrestored
        rwa [Tree.isFile, node?_restored_of_some hn, hn] at hstands
      obtain ⟨bytes, hbytes⟩ := Option.isSome_iff_exists.mp hfile
      obtain ⟨d, hd⟩ := hv.describes_runtime.covers _ _
        (hregular ((data.rsync relink).node?_eq_some.mp hn) hbytes)
      obtain ⟨b, hb, -⟩ := (describes_restored hv.parsed hrestored).agrees _ _ hd
      rw [Tree.restored?, if_pos rfl] at hb
      cases hb
  refine ⟨hlinks, ?_, node?_rsync_marker.mp hname, ?_⟩
  · intro e he hkept hfile
    obtain ⟨bytes, hbytes⟩ := Option.isSome_iff_exists.mp hfile
    obtain ⟨d, hd⟩ := hv.describes_runtime.covers _ _ (hregular (hcopied he hkept) hbytes)
    have hpath := unbroken_of_parseChecksums hv.parsed _ (mem_runtimeChecksums.mp hd)
    exact fun n hn ↦ hpath n (List.mem_cons_of_mem _ hn)
  · obtain ⟨_, -, hrestored⟩ := bind_eq_ok.mp hrestored
    obtain ⟨files, hfiles, -⟩ := bind_eq_ok.mp hrestored
    refine (restoredFiles_eq_ok hfiles).1 ([isolatedMarkerFilename], marker) ?_
    rw [entries_restored hname]
    exact List.mem_cons_self

/-- **The way from a backup to a restore.**  After a `finalize-backup` that reported success, for
data that has no line break in the path of a file, the backup is accepted and so is what was
restored from it, if no entry that was copied is a link, nothing has the name of the marker, and
the marker is no link. -/
theorem backup_restores (lib : Library) (args : FinalizeArgs) (dump : Bytes) (data source : Tree)
    (relink relink' : Path → Target) (marker : Node) (databaseCounts : List (Text × Json)) (k : ℕ)
    (hdump : lib.gunzip dump = .read (k + 1))
    (hcounts : parseCountJson args.databaseCountsJson = .ok databaseCounts)
    (hcore : sameSet (databaseCounts.map Prod.fst) coreTables = true)
    (hmarker : marker.isFile = true)
    (hunbroken : ∀ e ∈ data.entries, e.1.any isExcluded = false → e.2.isFile = true →
      ∀ n ∈ e.1, Unbroken n)
    (hfin : cmdFinalizeBackup lib args (backupTree dump (data.rsync relink)) = .ok source) :
    Accepted lib source (restoreTree marker ((data.rsync relink).rsync relink')) ↔
      (∀ e ∈ data.entries, e.1.any isExcluded = false → e.2.isSymlink = false) ∧
        data.node? [isolatedMarkerFilename] = none ∧ marker.isSymlink = false := by
  constructor
  · intro h
    have hdata := restorable_of_accepted hfin h
    exact ⟨hdata.no_links, hdata.no_marker, hdata.marker⟩
  · rintro ⟨hlinks, hname, hlink⟩
    exact accepted_of_restorable ⟨hlinks, hunbroken, hname, hlink⟩ hdump hmarker hcounts hcore hfin

/-! ## One recording -/

def clip : Bytes := [0x66, 0x4c, 0x61, 0x43]

def clipName : Name := name "clip.flac".toList

/-- A dump of ten characters, compressed. -/
def smallDump : Bytes := [31, 139, 8, 0, 0, 0, 0, 0, 2, 3, 11, 118, 245, 113, 117, 14, 81, 48, 180,
  230, 2, 0, 127, 169, 14, 80, 10, 0, 0, 0]

def clipDigest : Text :=
  "70bf93310284b039f237e82db4407df3e3ca642fac2b9ebb02973764424c7418".toList

def dumpDigest : Text :=
  "9c775aecebfbc416dc99d3cd62ad3a36252477e6db0590b31c95a0ecd941134f".toList

/-- A library that knows the recording and the dump. -/
def smallLibrary : Library where
  sha256 data :=
    if data = clip then clipDigest
    else if data = smallDump then dumpDigest
    else List.replicate 64 '0'
  sha256_hex data := by
    split
    · decide
    · split <;> decide
  gunzip data := if data = smallDump then .read 10 else .corrupt
  floatIs _ _ := false

/-- Every table is empty. -/
def noRows : List (Text × Json) := coreTables.map fun table ↦ (table, .num (.ofNat 0))

def smallArgs : FinalizeArgs where
  createdAt := "2026-07-16T10:00:00+00:00".toList
  destination := "/backups/20260716T100000Z".toList
  dataDir := "/data".toList
  databaseMeta := {
    scheme := "postgresql".toList
    host := "db".toList
    port := 5432
    database := some "dialect_factory".toList }
  backupId := "20260716T100000Z".toList
  databaseCountsJson := (Json.obj noRows).indented ++ ['\n']

/-- What stands at `audio/clip.flac`. -/
def oneClip (n : Node) : Tree where
  entries := [([name "audio".toList], .dir), ([name "audio".toList, clipName], n)]
  nodup := by
    show [[name "audio".toList], [name "audio".toList, clipName]].Nodup
    decide
  allowed := by
    refine List.forall_mem_cons.mpr ⟨by decide, List.forall_mem_cons.mpr ⟨?_, by simp⟩⟩
    show [name "audio".toList, clipName] ≠ [] ∧ ∀ m ∈ [name "audio".toList, clipName], m.Allowed
    decide
  parent := by
    intro e he p m hpath
    rcases List.mem_cons.mp he with rfl | he
    · cases p with
      | nil => exact .inl rfl
      | cons a p => simp at hpath
    · rw [List.mem_singleton] at he
      subst he
      have hp : p = [name "audio".toList] := by
        have h := congrArg List.dropLast hpath
        rw [List.dropLast_concat] at h
        exact h.symm
      rw [hp]
      exact .inr List.mem_cons_self

theorem parse_noRows :
    parseCountJson smallArgs.databaseCountsJson = .ok (Json.sortMembers noRows) := by
  have hproper : (Json.obj noRows).Proper := by
    rw [Json.Proper, noRows, List.map_map]
    refine ⟨by decide, Json.properMembers_iff.mpr fun m hm ↦ ?_⟩
    obtain ⟨table, -, rfl⟩ := List.mem_map.mp hm
    simp [Json.Proper]
  have hall : (Json.sortMembers noRows).all (fun m ↦ isCount m.2) = true := by
    rw [List.all_eq_true]
    intro m hm
    obtain ⟨m', hm', rfl⟩ := List.mem_map.mp ((Json.sortMembers_perm _).mem_iff.mp hm)
    obtain ⟨table, -, rfl⟩ := List.mem_map.mp hm'
    exact isCount_sorted (v := Json.num (.ofNat 0)) (by simp [isCount])
  rw [parseCountJson, show smallArgs.databaseCountsJson = (Json.obj noRows).indented ++ ['\n'] from
    rfl, Json.loads_indented hproper, Json.sorted_obj]
  exact if_pos hall

theorem sameSet_noRows :
    sameSet ((Json.sortMembers noRows).map Prod.fst) coreTables = true := by
  refine sameSet_iff.mpr fun table ↦ (Json.names_sortMembers noRows).mem_iff.trans ?_
  rw [noRows, List.map_map,
    show Prod.fst ∘ (fun table ↦ (table, Json.num (.ofNat 0))) = id from rfl,
    List.map_id]

/-- A backup of what stands at `audio/clip.flac` is finalized. -/
theorem finalize_oneClip (n : Node) (relink : Path → Target) : ∃ source,
    cmdFinalizeBackup smallLibrary smallArgs (backupTree smallDump ((oneClip n).rsync relink)) =
      .ok source := by
  have htext : ∀ e ∈ foundFiles smallLibrary smallDump ((oneClip n).rsync relink),
      ∃ text, asPosix e.1 = name text := by
    intro e he
    rcases mem_foundFiles.mp he with rfl | ⟨q, m, bytes, hq, -, rfl⟩
    · exact ⟨"postgres/dump.sql.gz".toList, by decide⟩
    · obtain ⟨-, m', hm', -⟩ := Tree.mem_rsync.mp hq
      rcases List.mem_cons.mp hm' with heq | hm'
      · cases heq
        exact ⟨"runtime/audio".toList,
          show asPosix [runtimeName, name "audio".toList] = _ by decide⟩
      · rw [List.mem_singleton] at hm'
        cases hm'
        exact ⟨"runtime/audio/clip.flac".toList,
          show asPosix [runtimeName, name "audio".toList, clipName] = _ by decide⟩
  exact exists_cmdFinalizeBackup parse_noRows secret_rsync htext

theorem gunzip_smallDump : smallLibrary.gunzip smallDump = .read 10 := by decide

theorem restorable_oneClip : Restorable (oneClip (.file clip)) (.file []) where
  no_links := by
    intro e he _
    rcases List.mem_cons.mp he with rfl | he
    · rfl
    · rw [List.mem_singleton] at he
      subst he
      rfl
  unbroken := by
    intro e he _ _
    rcases List.mem_cons.mp he with rfl | he
    · exact List.forall_mem_singleton.mpr (unbroken_name (by decide))
    · rw [List.mem_singleton] at he
      subst he
      exact List.forall_mem_cons.mpr ⟨unbroken_name (by decide),
        List.forall_mem_singleton.mpr (unbroken_name (by decide))⟩
  no_marker := by
    rw [Tree.node?, Dict.get_eq_none]
    show [isolatedMarkerFilename] ∉ [[name "audio".toList], [name "audio".toList, clipName]]
    decide
  marker := rfl

/-- The recording is backed up and restored. -/
theorem backup_restores_oneClip : ∃ source,
    cmdFinalizeBackup smallLibrary smallArgs
      (backupTree smallDump ((oneClip (.file clip)).rsync fun _ ↦ .other)) = .ok source ∧
    Accepted smallLibrary source (restoreTree (.file [])
      (((oneClip (.file clip)).rsync fun _ ↦ .other).rsync fun _ ↦ .other)) := by
  obtain ⟨source, hsource⟩ := finalize_oneClip (.file clip) fun _ ↦ .other
  have h := restorable_oneClip
  exact ⟨source, hsource, (backup_restores smallLibrary smallArgs smallDump (oneClip (.file clip))
    source _ _ _ (Json.sortMembers noRows) 9 gunzip_smallDump parse_noRows sameSet_noRows rfl
      h.unbroken hsource).mpr ⟨h.no_links, h.no_marker, h.marker⟩⟩

/-- **A link is backed up, and the backup is refused**: `finalize-backup` reports success. -/
theorem link_refused : ∃ source,
    cmdFinalizeBackup smallLibrary smallArgs
      (backupTree smallDump ((oneClip (.link (.file clip))).rsync fun _ ↦ .file clip)) =
        .ok source ∧
    ¬ ∃ summary, verifyBackupSource smallLibrary source = .ok summary := by
  obtain ⟨source, hsource⟩ := finalize_oneClip (.link (.file clip)) fun _ ↦ .file clip
  refine ⟨source, hsource, ?_⟩
  rintro ⟨summary, hsummary⟩
  obtain ⟨databaseCounts, texts, F⟩ := finalized_of_cmdFinalizeBackup secret_rsync hsource
  have hmem : ([name "audio".toList, clipName], Node.link (.file clip)) ∈
      ((oneClip (.link (.file clip))).rsync fun _ ↦ .file clip).entries := by
    refine Tree.mem_rsync.mpr ⟨by decide, .link (.file clip), ?_, rfl⟩
    exact List.mem_cons_of_mem _ List.mem_cons_self
  have hlink := F.no_links hsummary _ hmem
  cases hlink

theorem bytes_oneClip {p : Path} {b : Bytes}
    (h : (p, Node.file b) ∈ ((oneClip (.file clip)).rsync relink).entries) : b = clip := by
  obtain ⟨-, n, hn, heq⟩ := Tree.mem_rsync.mp h
  rcases List.mem_cons.mp hn with hn | hn
  · cases hn
    cases heq
  · rw [List.mem_singleton] at hn
    cases hn
    cases heq
    rfl

/-- The files of the runtime copy in a backup. -/
theorem Finalized.runtime?_eq_some
    (F : Finalized lib args dump runtime source databaseCounts texts) {p : Path} {b : Bytes}
    (h : source.runtime? p = some b) : (p, Node.file b) ∈ runtime.entries := by
  rw [Tree.runtime?, source.regular?_eq_some, F.mem_iff (.inr rfl), backupTree_entries] at h
  rcases List.mem_cons.mp h with h | h
  · cases h
  rcases List.mem_cons.mp h with h | h
  · cases h
  rcases List.mem_cons.mp h with h | h
  · cases h
  · obtain ⟨⟨q, n⟩, he, heq⟩ := List.mem_map.mp h
    cases heq
    exact he

/-- What is restored of the recording is what was backed up. -/
theorem restore_exact_oneClip : ∃ source summary manifest counts,
    verifyBackupSource smallLibrary source = .ok summary ∧
    verifyRestoredRuntime smallLibrary source
      (restoreTree (.file []) ((oneClip (.file clip)).rsync fun _ ↦ .other)) manifest =
        .ok counts ∧
    (restoreTree (.file []) ((oneClip (.file clip)).rsync fun _ ↦ .other)).restored? =
      source.runtime? := by
  obtain ⟨source, hsource⟩ := finalize_oneClip (.file clip) fun _ ↦ .other
  have h := restorable_oneClip
  have haccepted : Accepted smallLibrary source (restoreTree (.file [])
      (((oneClip (.file clip)).rsync fun _ ↦ .other).rsync fun _ ↦ .other)) :=
    accepted_of_restorable h gunzip_smallDump rfl parse_noRows sameSet_noRows hsource
  obtain ⟨⟨summary, hsummary⟩, manifest, counts, -, hcounts⟩ := haccepted
  rw [Tree.eq_of_entries (Tree.rsync_rsync h.links_rsync)] at hcounts
  refine ⟨source, summary, manifest, counts, hsummary, hcounts, ?_⟩
  refine (restore_exact smallLibrary).2 source _ summary manifest counts hsummary hcounts ?_
  obtain ⟨databaseCounts, texts, F⟩ := finalized_of_cmdFinalizeBackup secret_rsync hsource
  intro p q b b' hb hb' _
  rw [bytes_oneClip (F.runtime?_eq_some hb)]
  rw [Tree.restored?] at hb'
  split at hb'
  · cases hb'
  · rename_i hq
    rw [Tree.regular?_eq_some, entries_restored (node?_rsync_marker.mpr h.no_marker)] at hb'
    rcases List.mem_cons.mp hb' with heq | hb'
    · cases heq
      exact absurd rfl hq
    · rw [bytes_oneClip hb']

end Neva.Ops
