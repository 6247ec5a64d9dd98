import Neva.Ops.Integrity

/-!
# What is copied

A backup is a database dump, and a copy of the runtime data made by `rsync -a --exclude '.env*'`.
A restore makes the same copy of the copy, into a directory where only the marker stands.

`rsync -a` copies symbolic links as links; what a copied link leads to is not what the link led to,
and anything is possible (`relink`).
-/

set_option autoImplicit false

namespace Neva.Ops

/-! ## Copies -/

/-- `--exclude '.env*'` -/
def isExcluded (n : Name) : Bool := (name ".env".toList).isPrefixOf n

/-- The copy of an entry. -/
def Node.copied (leadsTo : Target) : Node → Node
  | .link _ => .link leadsTo
  | n => n

theorem Node.isSymlink_copied (leadsTo : Target) (n : Node) :
    (n.copied leadsTo).isSymlink = n.isSymlink := by
  cases n <;> rfl

theorem Node.copied_eq {leadsTo : Target} {n : Node} (h : n.isSymlink = false) :
    n.copied leadsTo = n := by
  cases n with
  | link t => cases h
  | _ => rfl

/-- `rsync -a --exclude '.env*'`, into an empty directory. -/
def Tree.rsync (relink : Path → Target) (t : Tree) : Tree where
  entries := (t.entries.filter fun e ↦ !e.1.any isExcluded).map fun e ↦
    (e.1, e.2.copied (relink e.1))
  nodup := by
    rw [List.map_map, show Prod.fst ∘ (fun e : Path × Node ↦ (e.1, e.2.copied (relink e.1))) =
      Prod.fst from rfl]
    exact t.nodup.sublist (List.filter_sublist.map _)
  allowed := by
    intro e he
    obtain ⟨e', he', rfl⟩ := List.mem_map.mp he
    exact t.allowed e' (List.mem_of_mem_filter he')
  parent := by
    intro e he p n hpath
    obtain ⟨e', he', rfl⟩ := List.mem_map.mp he
    obtain ⟨hmem, hkept⟩ := List.mem_filter.mp he'
    refine (t.parent e' hmem p n hpath).imp id fun hdir ↦ ?_
    refine List.mem_map.mpr ⟨(p, .dir), List.mem_filter.mpr ⟨hdir, ?_⟩, rfl⟩
    have hpath : e'.1 = p ++ [n] := hpath
    rw [hpath, List.any_append] at hkept
    simp only [Bool.not_eq_true', Bool.or_eq_false_iff] at hkept ⊢
    exact hkept.1

theorem Tree.mem_rsync {relink : Path → Target} {t : Tree} {p : Path} {n : Node} :
    (p, n) ∈ (t.rsync relink).entries ↔
      p.any isExcluded = false ∧ ∃ m, (p, m) ∈ t.entries ∧ n = m.copied (relink p) := by
  rw [rsync]
  constructor
  · intro h
    obtain ⟨e, he, heq⟩ := List.mem_map.mp h
    cases heq
    obtain ⟨hmem, hkept⟩ := List.mem_filter.mp he
    exact ⟨by simpa using hkept, e.2, hmem, rfl⟩
  · rintro ⟨hkept, m, hm, rfl⟩
    exact List.mem_map.mpr ⟨(p, m), List.mem_filter.mpr ⟨hm, by simpa using hkept⟩, rfl⟩

/-- A secret file is not copied. -/
theorem isSecretFilename_le {n : Name} (h : isSecretFilename n = true) : isExcluded n = true := by
  rw [isSecretFilename, Bool.or_eq_true, beq_iff_eq] at h
  rw [isExcluded, List.isPrefixOf_iff_prefix]
  rcases h with rfl | h
  · exact List.prefix_refl _
  · refine List.IsPrefix.trans ⟨name ['.'], ?_⟩ (List.isPrefixOf_iff_prefix.mp h)
    decide

theorem isSecretPath_of_kept {p : Path} (h : p.any isExcluded = false) :
    isSecretPath p = false := by
  rw [isSecretPath, List.any_eq_false]
  intro n hn hsecret
  exact (List.any_eq_false.mp h) n hn (isSecretFilename_le hsecret)

/-- A copy of a copy, when nothing in it is a link. -/
theorem Tree.rsync_rsync {relink relink' : Path → Target} {t : Tree}
    (h : ∀ e ∈ (t.rsync relink).entries, e.2.isSymlink = false) :
    ((t.rsync relink).rsync relink').entries = (t.rsync relink).entries := by
  have hkept : ∀ e ∈ (t.rsync relink).entries, (!e.1.any isExcluded) = true := by
    rintro ⟨p, n⟩ he
    rw [(mem_rsync.mp he).1]
    rfl
  show ((t.rsync relink).entries.filter _).map _ = _
  rw [List.filter_eq_self.mpr hkept]
  refine (List.map_congr_left fun e he ↦ ?_).trans (List.map_id _)
  rw [Node.copied_eq (h e he)]
  rfl

/-! ## The backup directory -/

theorem postgresName_allowed : postgresName.Allowed := by decide

theorem dumpName_allowed : (name "dump.sql.gz".toList).Allowed := by decide

theorem runtimeName_allowed : runtimeName.Allowed := by decide

theorem postgresName_ne_runtimeName : postgresName ≠ runtimeName := by decide

theorem postgresRoot_ne_dump : [postgresName] ≠ postgresDumpRelative := by decide

/-- The dump, beside a copy of the runtime data. -/
def backupTree (dump : Bytes) (runtime : Tree) : Tree where
  entries := ([postgresName], .dir) :: (postgresDumpRelative, .file dump) ::
    (runtimeRootRelative, .dir) :: runtime.entries.map fun e ↦ (runtimeName :: e.1, e.2)
  nodup := by
    have hmap : (runtime.entries.map fun e ↦ (runtimeName :: e.1, e.2)).map Prod.fst =
        (runtime.entries.map Prod.fst).map (List.cons runtimeName) := by
      rw [List.map_map, List.map_map]
      rfl
    have hne (p : Path) (hp : p ∈ (runtime.entries.map Prod.fst).map (List.cons runtimeName)) :
        p.head? = some runtimeName ∧ p ≠ [runtimeName] := by
      obtain ⟨q, hq, rfl⟩ := List.mem_map.mp hp
      obtain ⟨e, he, rfl⟩ := List.mem_map.mp hq
      exact ⟨rfl, fun h ↦ (runtime.allowed e he).1 (List.cons.inj h).2⟩
    rw [List.map_cons, List.map_cons, List.map_cons, hmap, List.nodup_cons, List.nodup_cons,
      List.nodup_cons, List.mem_cons, List.mem_cons, List.mem_cons]
    refine ⟨?_, ?_, fun h ↦ (hne _ h).2 rfl, runtime.nodup.map List.cons_injective⟩
    · rintro (h | h | h)
      · exact postgresRoot_ne_dump h
      · exact postgresName_ne_runtimeName (List.cons.inj h).1
      · exact postgresName_ne_runtimeName (Option.some.inj (hne _ h).1)
    · rintro (h | h)
      · exact postgresName_ne_runtimeName (List.cons.inj h).1
      · exact postgresName_ne_runtimeName (Option.some.inj (hne _ h).1)
  allowed := by
    intro e he
    rcases List.mem_cons.mp he with rfl | he
    · exact ⟨List.cons_ne_nil _ _, by simpa using postgresName_allowed⟩
    rcases List.mem_cons.mp he with rfl | he
    · exact ⟨List.cons_ne_nil _ _, by
        simpa [postgresDumpRelative] using ⟨postgresName_allowed, dumpName_allowed⟩⟩
    rcases List.mem_cons.mp he with rfl | he
    · exact ⟨List.cons_ne_nil _ _, by simpa [runtimeRootRelative] using runtimeName_allowed⟩
    · obtain ⟨e', he', rfl⟩ := List.mem_map.mp he
      exact ⟨List.cons_ne_nil _ _, List.forall_mem_cons.mpr ⟨runtimeName_allowed,
        (runtime.allowed e' he').2⟩⟩
  parent := by
    intro e he p n hpath
    rcases List.mem_cons.mp he with rfl | he
    · left
      cases p with
      | nil => rfl
      | cons a p => simp at hpath
    rcases List.mem_cons.mp he with rfl | he
    · right
      have hp : p = [postgresName] := by
        have h := congrArg List.dropLast hpath
        rw [List.dropLast_concat] at h
        exact h.symm
      rw [hp]
      exact List.mem_cons_self
    rcases List.mem_cons.mp he with rfl | he
    · left
      cases p with
      | nil => rfl
      | cons a p => simp [runtimeRootRelative] at hpath
    · right
      obtain ⟨e', he', rfl⟩ := List.mem_map.mp he
      cases p with
      | nil =>
        rw [List.nil_append, List.cons.injEq] at hpath
        exact absurd hpath.2 (runtime.allowed e' he').1
      | cons a p =>
        rw [List.cons_append, List.cons.injEq] at hpath
        rw [← hpath.1]
        rcases runtime.parent e' he' p n hpath.2 with rfl | hdir
        · exact List.mem_cons_of_mem _ (List.mem_cons_of_mem _ List.mem_cons_self)
        · exact List.mem_cons_of_mem _ (List.mem_cons_of_mem _ (List.mem_cons_of_mem _
            (List.mem_map.mpr ⟨(p, .dir), hdir, rfl⟩)))

/-! ## The restored directory -/

theorem isolatedMarkerFilename_allowed : isolatedMarkerFilename.Allowed := by decide

/-- A copy of the runtime data, into a directory where only the marker stands.  What has the name of
the marker takes its place. -/
def restoreTree (marker : Node) (runtime : Tree) : Tree where
  entries :=
    if (runtime.node? [isolatedMarkerFilename]).isSome then runtime.entries
    else ([isolatedMarkerFilename], marker) :: runtime.entries
  nodup := by
    split
    · exact runtime.nodup
    · rename_i h
      rw [List.map_cons, List.nodup_cons]
      refine ⟨?_, runtime.nodup⟩
      rwa [Tree.node?, Dict.get_isSome] at h
  allowed := by
    intro e he
    split at he
    · exact runtime.allowed e he
    · rcases List.mem_cons.mp he with rfl | he
      · exact ⟨List.cons_ne_nil _ _, by simpa using isolatedMarkerFilename_allowed⟩
      · exact runtime.allowed e he
  parent := by
    intro e he p n hpath
    split at he
    · rename_i h
      rw [if_pos h]
      exact runtime.parent e he p n hpath
    · rename_i h
      rw [if_neg h]
      rcases List.mem_cons.mp he with rfl | he
      · left
        cases p with
        | nil => rfl
        | cons a p => simp at hpath
      · exact (runtime.parent e he p n hpath).imp id (List.mem_cons_of_mem _)

end Neva.Ops
