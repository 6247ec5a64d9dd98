import Neva.Digests
import Neva.Ops.Integrity

/-!
# What a verified backup and a verified restore contain

A backup that `verifyBackupSource` accepts has, under `postgres/` and `runtime/`, exactly the files
its checksum index lists, and a directory that `verifyRestoredRuntime` accepts has exactly the
runtime files of the index beside its marker.  So the index describes both, and what one index
describes is the same wherever it stands (`Digests.Describes.unique`).
-/

set_option autoImplicit false

namespace Neva.Ops

open Raising Digests

/-- The files under the two protected directories. -/
def Tree.protected? (t : Tree) (p : Path) : Option Bytes :=
  if p.head? = some postgresName ∨ p.head? = some runtimeName then t.regular? p else none

/-- The files of the runtime copy. -/
def Tree.runtime? (t : Tree) (p : Path) : Option Bytes := t.regular? (runtimeName :: p)

/-- The files of a restored directory, without the marker at its root. -/
def Tree.restored? (t : Tree) (p : Path) : Option Bytes :=
  if p = [isolatedMarkerFilename] then none else t.regular? p

/-! ## Each step of the verification -/

section

variable {lib : Library} {source target : Tree}

/-- A backup that passes has no links, and no secret files. -/
theorem checkEntries_eq_ok {es : List (Path × Node)} (h : checkEntries source es = .ok ()) :
    ∀ e ∈ es, e.2.isSymlink = false ∧ ¬ (e.2.isFile && isSecretPath e.1) = true := by
  induction es with
  | nil => simp
  | cons e rest ih =>
    rw [checkEntries, ite_error_eq_ok, ite_error_eq_ok] at h
    obtain ⟨hlink, hsecret, hrest⟩ := h
    refine List.forall_mem_cons.mpr ⟨⟨by simpa using hlink, hsecret⟩, ih hrest⟩

theorem protectedFiles_eq_ok {root : Name} {files : List Path}
    (h : protectedFiles source root = .ok files) (p : Path) :
    p ∈ files ↔ p.head? = some root ∧ p ≠ [root] ∧ source.isFile p = true := by
  rw [protectedFiles, ite_error_eq_ok] at h
  obtain ⟨-, h⟩ := h
  rw [ite_error_eq_ok] at h
  have hfiles := Except.ok.inj h.2
  rw [← hfiles, List.mem_map]
  constructor
  · rintro ⟨e, he, rfl⟩
    obtain ⟨hmem, hfile⟩ := List.mem_filter.mp he
    obtain ⟨hentry, hne⟩ := source.mem_rglob.mp hmem
    refine ⟨rfl, by simpa using hne, ?_⟩
    rw [Tree.isFile, ← List.singleton_append, source.node?_eq_some.mpr hentry]
    exact hfile
  · rintro ⟨hhead, hne, hfile⟩
    cases p with
    | nil => cases hhead
    | cons n q =>
      cases hhead
      rw [Tree.isFile, Option.any_eq_true] at hfile
      obtain ⟨node, hnode, hisfile⟩ := hfile
      refine ⟨(q, node), List.mem_filter.mpr ⟨source.mem_rglob.mpr ⟨?_, ?_⟩, hisfile⟩, rfl⟩
      · exact source.node?_eq_some.mp hnode
      · simpa using hne

theorem isDir_of_protectedFiles {root : Name} {files : List Path}
    (h : protectedFiles source root = .ok files) : source.isDir [root] = true := by
  rw [protectedFiles, ite_error_eq_ok] at h
  simpa using h.1

theorem checkDigests_eq_ok {wrong : Path → Error} {index : List (Path × Text)} :
    checkDigests lib target wrong index = .ok () ↔
      ∀ p d, (p, d) ∈ index → ∃ data, target.bytes? p = some data ∧ lib.sha256 data = d := by
  induction index with
  | nil => simp [checkDigests]
  | cons m rest ih =>
    obtain ⟨p, d⟩ := m
    rw [checkDigests]
    cases hdata : target.bytes? p with
    | none =>
      simp only [reduceCtorEq, false_iff, not_forall]
      exact ⟨p, d, List.mem_cons_self, by simp [hdata]⟩
    | some data =>
      simp only [ite_error_eq_ok, ih, not_not]
      constructor
      · rintro ⟨hd, hrest⟩ q e hmem
        rcases List.mem_cons.mp hmem with heq | hmem
        · cases heq
          exact ⟨data, hdata, hd⟩
        · exact hrest q e hmem
      · intro h
        refine ⟨?_, fun q e hmem ↦ h q e (List.mem_cons_of_mem _ hmem)⟩
        obtain ⟨data', hdata', hd⟩ := h p d List.mem_cons_self
        cases hdata.symm.trans hdata'
        exact hd

theorem restoredFiles_eq_ok {found files : List Path} {es : List (Path × Node)}
    (h : restoredFiles found es = .ok files) :
    (∀ e ∈ es, e.2.isSymlink = false) ∧
      ∀ p, p ∈ files ↔ p ∈ found ∨
        p ≠ [isolatedMarkerFilename] ∧ ∃ n, (p, n) ∈ es ∧ n.isFile = true := by
  induction es generalizing found with
  | nil =>
    cases h
    simp
  | cons e rest ih =>
    obtain ⟨q, n⟩ := e
    rw [restoredFiles, ite_error_eq_ok] at h
    obtain ⟨hlink, h⟩ := h
    have hlink : n.isSymlink = false := by simpa using hlink
    by_cases hfile : n.isFile = true
    · rw [if_neg (by simp [hfile])] at h
      by_cases hmarker : q = [isolatedMarkerFilename]
      · rw [if_pos hmarker] at h
        obtain ⟨hlinks, hfiles⟩ := ih h
        refine ⟨List.forall_mem_cons.mpr ⟨hlink, hlinks⟩, fun p ↦ (hfiles p).trans ?_⟩
        simp only [List.mem_cons, Prod.mk.injEq]
        grind
      · rw [if_neg hmarker, ite_error_eq_ok] at h
        obtain ⟨hlinks, hfiles⟩ := ih h.2
        refine ⟨List.forall_mem_cons.mpr ⟨hlink, hlinks⟩, fun p ↦ (hfiles p).trans ?_⟩
        simp only [List.mem_cons, Prod.mk.injEq, List.mem_append, List.not_mem_nil, or_false]
        grind
    · rw [if_pos (by simpa using hfile)] at h
      obtain ⟨hlinks, hfiles⟩ := ih h
      refine ⟨List.forall_mem_cons.mpr ⟨hlink, hlinks⟩, fun p ↦ (hfiles p).trans ?_⟩
      simp only [List.mem_cons, Prod.mk.injEq]
      grind

end

/-! ## The index describes what was accepted -/

/-- Without links, what `open` reads at a path is the regular file there. -/
theorem Tree.bytes?_eq_regular? {t : Tree} (h : ∀ e ∈ t.entries, e.2.isSymlink = false) (p : Path) :
    t.bytes? p = t.regular? p := by
  rw [Tree.bytes?, Tree.regular?]
  cases hnode : t.node? p with
  | none => rfl
  | some n => exact (Node.regular?_eq_bytes? (h _ (t.node?_eq_some.mp hnode))).symm

/-- What a verified backup is known to satisfy. -/
structure Verified (lib : Library) (source : Tree) (index : List (Path × Text)) : Prop where
  parsed : parseChecksums source = .ok index
  no_links : ∀ e ∈ source.entries, e.2.isSymlink = false
  describes : Describes lib.sha256 index source.protected?

theorem verified_of_verifyBackupSource {lib : Library} {source : Tree} {summary : Summary}
    (h : verifyBackupSource lib source = .ok summary) : ∃ index, Verified lib source index := by
  obtain ⟨_, hentries, h⟩ := bind_eq_ok.mp h
  obtain ⟨manifest, -, h⟩ := bind_eq_ok.mp h
  obtain ⟨index, hindex, h⟩ := bind_eq_ok.mp h
  obtain ⟨expected, hexpected, h⟩ := bind_eq_ok.mp h
  rw [ite_error_eq_ok] at h
  obtain ⟨hset, h⟩ := h
  rw [ite_error_eq_ok] at h
  obtain ⟨-, h⟩ := h
  obtain ⟨_, hdigests, -⟩ := bind_eq_ok.mp h
  have hlinks : ∀ e ∈ source.entries, e.2.isSymlink = false :=
    fun e he ↦ (checkEntries_eq_ok hentries e he).1
  have hset : ∀ p, p ∈ index.map Prod.fst ↔ p ∈ expected := sameSet_iff.mp (by simpa using hset)
  obtain ⟨dump, hdump, hexpected⟩ := bind_eq_ok.mp hexpected
  obtain ⟨runtime, hruntime, hexpected⟩ := bind_eq_ok.mp hexpected
  cases hexpected
  -- the expected files are those under the two directories
  have hmem (p : Path) : p ∈ dump ++ runtime ↔ ∃ b, source.protected? p = some b := by
    have hroot (root : Name) (hdir : source.isDir [root] = true) :
        source.regular? [root] = none := by
      rw [Tree.isDir, Option.any_eq_true] at hdir
      obtain ⟨n, hn, hnd⟩ := hdir
      rw [Tree.regular?, hn]
      cases n <;> first | rfl | cases hnd
    have hpg := hroot _ (isDir_of_protectedFiles hdump)
    have hrt := hroot _ (isDir_of_protectedFiles hruntime)
    rw [List.mem_append, protectedFiles_eq_ok hdump, protectedFiles_eq_ok hruntime,
      Tree.isFile_iff, Tree.bytes?_eq_regular? hlinks, Tree.protected?]
    constructor
    · rintro (⟨hhead, -, hb⟩ | ⟨hhead, -, hb⟩)
      · rwa [if_pos (.inl hhead)]
      · rwa [if_pos (.inr hhead)]
    · rintro ⟨b, hb⟩
      split at hb
      · rename_i hhead
        rcases hhead with hhead | hhead
        · exact .inl ⟨hhead, fun hp ↦ by simp [hp, hpg] at hb, b, hb⟩
        · exact .inr ⟨hhead, fun hp ↦ by simp [hp, hrt] at hb, b, hb⟩
      · cases hb
  refine ⟨index, hindex, hlinks, ?_, ?_⟩
  · intro p b hb
    have hkey := (hset p).mpr ((hmem p).mpr ⟨b, hb⟩)
    obtain ⟨m, hm, rfl⟩ := List.mem_map.mp hkey
    exact ⟨m.2, hm⟩
  · intro p d hd
    obtain ⟨data, hdata, hsha⟩ := checkDigests_eq_ok.mp hdigests p d hd
    obtain ⟨b, hb⟩ := (hmem p).mp ((hset p).mp (List.mem_map_of_mem hd))
    refine ⟨b, hb, ?_⟩
    rw [Tree.bytes?_eq_regular? hlinks] at hdata
    rw [Tree.protected?] at hb
    split at hb
    · cases hdata.symm.trans hb
      exact hsha
    · cases hb

theorem mem_runtimeChecksums {index : List (Path × Text)} {p : Path} {d : Text} :
    (p, d) ∈ runtimeChecksums index ↔ (runtimeName :: p, d) ∈ index := by
  rw [runtimeChecksums, List.mem_filterMap]
  constructor
  · rintro ⟨⟨q, e⟩, hmem, hq⟩
    dsimp only at hq
    split at hq
    · cases hq
    · split at hq
      · rename_i hn
        cases hq
        rwa [← hn]
      · cases hq
  · intro h
    exact ⟨_, h, if_pos rfl⟩

/-- The runtime part of the index describes the runtime copy. -/
theorem Verified.describes_runtime {lib : Library} {source : Tree} {index : List (Path × Text)}
    (h : Verified lib source index) :
    Describes lib.sha256 (runtimeChecksums index) source.runtime? := by
  have hsame (p : Path) : source.protected? (runtimeName :: p) = source.runtime? p := by
    rw [Tree.protected?, if_pos (.inr rfl), Tree.runtime?]
  refine ⟨fun p b hb ↦ ?_, fun p d hd ↦ ?_⟩
  · rw [← hsame] at hb
    obtain ⟨d, hd⟩ := h.describes.covers _ _ hb
    exact ⟨d, mem_runtimeChecksums.mpr hd⟩
  · rw [← hsame]
    exact h.describes.agrees _ _ (mem_runtimeChecksums.mp hd)

/-- The runtime part of the index describes what was restored. -/
theorem describes_restored {lib : Library} {source target : Tree} {manifest : List (Text × Json)}
    {counts : List (Text × ℕ)} {index : List (Path × Text)}
    (hindex : parseChecksums source = .ok index)
    (h : verifyRestoredRuntime lib source target manifest = .ok counts) :
    Describes lib.sha256 (runtimeChecksums index) target.restored? := by
  obtain ⟨_, hindex', h⟩ := bind_eq_ok.mp h
  cases hindex.symm.trans hindex'
  obtain ⟨actual, hactual, h⟩ := bind_eq_ok.mp h
  rw [ite_error_eq_ok] at h
  obtain ⟨hset, h⟩ := h
  obtain ⟨_, hdigests, -⟩ := bind_eq_ok.mp h
  obtain ⟨hlinks, hfiles⟩ := restoredFiles_eq_ok hactual
  have hset : ∀ p, p ∈ actual ↔ p ∈ (runtimeChecksums index).map Prod.fst :=
    sameSet_iff.mp (by simpa using hset)
  have hactual (p : Path) : p ∈ actual ↔ ∃ b, target.restored? p = some b := by
    rw [hfiles, Tree.restored?]
    simp only [List.not_mem_nil, false_or]
    constructor
    · rintro ⟨hmarker, n, hn, hfile⟩
      obtain ⟨b, hb⟩ := Option.isSome_iff_exists.mp hfile
      have hbytes : target.bytes? p = some b := by
        rw [Tree.bytes?, target.node?_eq_some.mpr hn]
        exact hb
      rw [if_neg hmarker, ← Tree.bytes?_eq_regular? hlinks]
      exact ⟨b, hbytes⟩
    · rintro ⟨b, hb⟩
      split at hb
      · cases hb
      · rename_i hmarker
        exact ⟨hmarker, _, target.regular?_eq_some.mp hb, rfl⟩
  refine ⟨fun p b hb ↦ ?_, fun p d hd ↦ ?_⟩
  · obtain ⟨m, hm, rfl⟩ := List.mem_map.mp ((hset p).mp ((hactual p).mpr ⟨b, hb⟩))
    exact ⟨m.2, hm⟩
  · obtain ⟨data, hdata, hsha⟩ := checkDigests_eq_ok.mp hdigests p d hd
    obtain ⟨b, hb⟩ := (hactual p).mp ((hset p).mpr (List.mem_map_of_mem hd))
    refine ⟨b, hb, ?_⟩
    rw [Tree.bytes?_eq_regular? hlinks] at hdata
    rw [Tree.restored?] at hb
    split at hb
    · cases hb
    · cases hdata.symm.trans hb
      exact hsha

/-- Two backups with the same two descriptions have the same protected files. -/
theorem Verified.protected?_eq {lib : Library} {s s' : Tree} {index index' : List (Path × Text)}
    (h : Verified lib s index) (h' : Verified lib s' index')
    (hsame : s.node? [checksumsFilename] = s'.node? [checksumsFilename])
    (hcol : NoCollision lib.sha256 s.protected? s'.protected?) : s.protected? = s'.protected? := by
  have hparse : parseChecksums s = parseChecksums s' := by
    rw [parseChecksums, parseChecksums, Tree.bytes?, Tree.bytes?, hsame]
  have hindex : index = index' :=
    Except.ok.inj (h.parsed.symm.trans (hparse.trans h'.parsed))
  exact h.describes.unique (hindex ▸ h'.describes) hcol

/-- **Restore verification is exact.**  Two backups that are accepted with one manifest and one
checksum index have the same protected files, and a directory is accepted as restored from a
backup only if it has the backup's runtime files, and no others. -/
theorem restore_exact (lib : Library) :
    (∀ (s s' : Tree) (summary summary' : Summary), verifyBackupSource lib s = .ok summary →
      verifyBackupSource lib s' = .ok summary' →
      s.node? [manifestFilename] = s'.node? [manifestFilename] →
      s.node? [checksumsFilename] = s'.node? [checksumsFilename] →
      NoCollision lib.sha256 s.protected? s'.protected? → s.protected? = s'.protected?) ∧
    (∀ (source target : Tree) (summary : Summary) (manifest : List (Text × Json))
      (counts : List (Text × ℕ)), verifyBackupSource lib source = .ok summary →
      verifyRestoredRuntime lib source target manifest = .ok counts →
      NoCollision lib.sha256 source.runtime? target.restored? →
      target.restored? = source.runtime?) := by
  constructor
  · intro s s' summary summary' h h' _ hsame hcol
    obtain ⟨index, hv⟩ := verified_of_verifyBackupSource h
    obtain ⟨index', hv'⟩ := verified_of_verifyBackupSource h'
    exact hv.protected?_eq hv' hsame hcol
  · intro source target summary manifest counts h hrestored hcol
    obtain ⟨index, hv⟩ := verified_of_verifyBackupSource h
    exact (hv.describes_runtime.unique (describes_restored hv.parsed hrestored) hcol).symm

end Neva.Ops
