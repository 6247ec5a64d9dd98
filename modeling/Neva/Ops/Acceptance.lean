import Neva.Ops.RoundTrip

/-!
# When a backup is accepted

`finalize-backup` describes what it finds.  It does not look into the dump of the database, nor at
which tables were counted, nor at whether what it describes can be restored.  The checks of the
restore do, and `accepted_iff_of_finalized` says what of: of a backup that was finalized with
success, exactly the one whose dump decompresses to something, whose counts are those of the core
tables, and whose data is `Restorable`.
-/

set_option autoImplicit false

namespace Neva.Ops

open Raising

variable {lib : Library} {dump : Bytes} {runtime source data : Tree} {args : FinalizeArgs}
  {databaseCounts : List (Text × Json)} {texts : List Text} {marker : Node}
  {relink relink' : Path → Target}

/-- An accepted manifest has counts for the core tables. -/
theorem counts_of_checkManifest {parsed : List (Text × Json)}
    (h : checkManifest lib parsed = .ok ()) :
    ∃ counts, Json.lookup parsed "database_counts".toList = some (.obj counts) ∧
      sameSet (counts.map Prod.fst) coreTables = true := by
  rw [checkManifest] at h
  simp only [ite_error_eq_ok] at h
  obtain ⟨-, -, -, h⟩ := h
  split at h
  · rename_i m rest hcounts
    rw [ite_error_eq_ok, ite_error_eq_ok] at h
    exact ⟨m :: rest, hcounts, by simpa using h.2.1⟩
  · cases h

/-- A manifest that was written and is loaded counts the core tables. -/
theorem core_of_loadManifest {m : ManifestInput} {manifest : List (Text × Json)}
    (hbytes : source.bytes? [manifestFilename] =
      some (encode ((Json.obj (buildManifest m)).indented ++ ['\n'])))
    (hproper : (Json.obj (buildManifest m)).Proper)
    (h : loadManifest lib source = .ok manifest) :
    sameSet (m.databaseCounts.map Prod.fst) coreTables = true := by
  rw [loadManifest, hbytes] at h
  simp only [decode_encode, Option.bind_some, Json.loads_indented hproper, Json.sorted_obj] at h
  obtain ⟨u, hcheck, -⟩ := bind_eq_ok.mp h
  obtain ⟨counts, hlookup, hsame⟩ := counts_of_checkManifest hcheck
  rw [lookup_manifest_counts] at hlookup
  cases hlookup
  rw [sameSet_iff] at hsame ⊢
  exact fun table ↦ (Json.names_sortMembers _).mem_iff.symm.trans (hsame table)

namespace Finalized

/-- The counts of a finalized backup are proper JSON. -/
theorem proper_manifest (F : Finalized lib args dump runtime source databaseCounts texts) :
    (Json.obj (buildManifest (manifestInput lib args dump runtime databaseCounts))).Proper := by
  have hcounts := F.counts
  rw [parseCountJson] at hcounts
  split at hcounts
  · cases hcounts
  · rename_i members hloads
    split at hcounts
    · cases hcounts
      exact proper_buildManifest (nodup_runtimeCounts _ _) (Json.loads_proper hloads)
    · cases hcounts
  · cases hcounts

theorem core_of_accepted (F : Finalized lib args dump runtime source databaseCounts texts)
    {manifest : List (Text × Json)} (h : loadManifest lib source = .ok manifest) :
    sameSet (databaseCounts.map Prod.fst) coreTables = true :=
  core_of_loadManifest F.bytes?_manifest F.proper_manifest h

/-- The dump of an accepted backup decompresses to something. -/
theorem gunzip_of_accepted (F : Finalized lib args dump runtime source databaseCounts texts)
    {summary : Summary} (h : verifyBackupSource lib source = .ok summary) :
    ∃ k, lib.gunzip dump = .read (k + 1) := by
  obtain ⟨_, -, h⟩ := bind_eq_ok.mp h
  obtain ⟨_, -, h⟩ := bind_eq_ok.mp h
  obtain ⟨_, -, h⟩ := bind_eq_ok.mp h
  obtain ⟨_, -, h⟩ := bind_eq_ok.mp h
  rw [ite_error_eq_ok, ite_error_eq_ok] at h
  obtain ⟨_, -, h⟩ := bind_eq_ok.mp h.2.2
  obtain ⟨n, hgzip, -⟩ := bind_eq_ok.mp h
  have hmem : (postgresDumpRelative, Node.file dump) ∈ (backupTree dump runtime).entries :=
    List.mem_cons_of_mem _ List.mem_cons_self
  have hbytes : source.bytes? postgresDumpRelative = some dump := by
    rw [Tree.bytes?, F.node?_eq (.inl rfl), Tree.node?_eq_some _ |>.mpr hmem]
    rfl
  rw [verifyGzipStream, hbytes] at hgzip
  dsimp only at hgzip
  split at hgzip
  · cases hgzip
  · cases hgzip
  · cases hgzip
  · rename_i k hread
    exact ⟨k, hread⟩

end Finalized

/-- The marker of an accepted restore is a file. -/
theorem isFile_marker (hname : data.node? [isolatedMarkerFilename] = none)
    {manifest : List (Text × Json)} {counts : List (Text × ℕ)}
    (h : verifyRestoredRuntime lib source (restoreTree marker data) manifest = .ok counts) :
    marker.isFile = true := by
  have hstands := isFile_of_verifyRestoredRuntime h
  rwa [Tree.isFile, Tree.node?, entries_restored hname, Dict.get_cons, if_pos rfl] at hstands

/-- **What is asked of a finalized backup.**  Whatever was backed up, and however the restored
copies have come about, the backup and what is restored from it are accepted exactly when the dump
decompresses to something, the tables that were counted are the core tables, the marker is a file
and the data is restorable. -/
theorem accepted_iff_of_finalized (lib : Library) (args : FinalizeArgs) (dump : Bytes)
    (data source : Tree) (relink relink' : Path → Target) (marker : Node)
    (hfin : cmdFinalizeBackup lib args (backupTree dump (data.rsync relink)) = .ok source) :
    ∃ databaseCounts, parseCountJson args.databaseCountsJson = .ok databaseCounts ∧
      (Accepted lib source (restoreTree marker ((data.rsync relink).rsync relink')) ↔
        (∃ k, lib.gunzip dump = .read (k + 1)) ∧
          sameSet (databaseCounts.map Prod.fst) coreTables = true ∧
          marker.isFile = true ∧ Restorable data marker) := by
  obtain ⟨databaseCounts, texts, F⟩ := finalized_of_cmdFinalizeBackup secret_rsync hfin
  refine ⟨databaseCounts, F.counts, fun h ↦ ?_, ?_⟩
  · have hdata := restorable_of_accepted hfin h
    obtain ⟨⟨summary, hsummary⟩, manifest, counts, hmanifest, hrestored⟩ := h
    exact ⟨F.gunzip_of_accepted hsummary, F.core_of_accepted hmanifest,
      isFile_marker (node?_rsync_marker.mpr (node?_rsync_marker.mpr hdata.no_marker)) hrestored,
      hdata⟩
  · rintro ⟨⟨k, hdump⟩, hcore, hfile, hdata⟩
    exact accepted_of_restorable hdata hdump hfile F.counts hcore hfin

/-- The recording is backed up, and accepted. -/
theorem accepted_iff_of_finalized_oneClip : ∃ source,
    cmdFinalizeBackup smallLibrary smallArgs
      (backupTree smallDump ((oneClip (.file clip)).rsync fun _ ↦ .other)) = .ok source ∧
    Accepted smallLibrary source (restoreTree (.file [])
      (((oneClip (.file clip)).rsync fun _ ↦ .other).rsync fun _ ↦ .other)) := by
  obtain ⟨source, hsource⟩ := finalize_oneClip (.file clip) fun _ ↦ .other
  obtain ⟨databaseCounts, hcounts, hiff⟩ := accepted_iff_of_finalized smallLibrary smallArgs
    smallDump (oneClip (.file clip)) source _ (fun _ ↦ .other) (.file []) hsource
  cases parse_noRows.symm.trans hcounts
  exact ⟨source, hsource,
    hiff.mpr ⟨⟨9, gunzip_smallDump⟩, sameSet_noRows, rfl, restorable_oneClip⟩⟩

end Neva.Ops
