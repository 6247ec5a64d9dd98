import Neva.Calls.Ensures
import Neva.Calls.Histories
import Neva.Game.Languages
import Neva.Raising

/-!
# Migrations of the database

`scripts/bootstrap_database.py` and `scripts/apply_migrations.py`.  Both bring a database to the
revision of a release, and both record in `schema_migrations` which files they have executed.
`apply_migrations` executes each file in a transaction of its own and takes no lock;
`bootstrap_database` does everything in one transaction, and installs the schema when there are no
tables yet.  A dry run of either looks at the files only.

What SQL does is the engine's business (`Engine`), and it is about what the tables are like, not
about what is in them: a migration that fails over the rows it finds is a call that fails.  What the
files of the releases are relied on for is `Releases`: a later release has all the migrations of an
earlier one, before its own, there are players from the start, and the first migration has something
to alter.  Nothing says that a schema is what the migrations make of the first revision, and it need
not be: tables that a schema has created are told from others (`Releases.Built`).
`revision_of_reachable` says that the ledger is then right about the tables at any time, whoever is
at work and whatever fails.
-/

set_option autoImplicit false

namespace Neva.Migrations

open Calls

/-! ## The scripts -/

/-- What Postgres does with a text of SQL. -/
structure Engine (δ : Type) where
  /-- The tables afterwards, none when a statement fails. -/
  execute : Text → δ → Option δ
  /-- `to_regclass('public.players') IS NOT NULL` -/
  hasPlayers : δ → Bool

/-- A file in `contracts/migrations`. -/
structure Migration where
  filename : Text
  sql : Text
  deriving DecidableEq

structure Release where
  /-- `contracts/schema.sql` -/
  schema : Text
  /-- `discover_migrations`: in the order of their names. -/
  migrations : List Migration
  /-- They are files of one directory. -/
  distinct : (migrations.map Migration.filename).Nodup

/-- `[path.name for path in migrations]` -/
def Release.names (r : Release) : List Text := r.migrations.map Migration.filename

structure Database (δ : Type) where
  tables : δ
  /-- The rows of `schema_migrations`, in the order they were inserted, if there is that table. -/
  ledger : Option (List Text)

inductive ScriptError
  /-- A statement of a file fails. -/
  | failed
  | undefinedTable
  | uniqueViolation
  | valueError (message : String)
  deriving DecidableEq

/-- `summary["action"]` -/
inductive Action
  | schema
  | migrations
  | inspect
  deriving DecidableEq

/-- What `bootstrap_database` returns, without what it says of the connection. -/
structure Summary where
  dryRun : Bool
  migrations : List Text
  action : Action
  applied : Option (List Text)
  deriving DecidableEq

/-- What one of the scripts returns. -/
inductive Report
  /-- `apply_migrations` -/
  | filenames (names : List Text)
  /-- `bootstrap_database` -/
  | summary (s : Summary)
  deriving DecidableEq

namespace Database

variable {δ : Type} (E : Engine δ) (db : Database δ)

/-- `SELECT array_agg(filename) FROM schema_migrations`, or nothing. -/
def recorded : List Text := db.ledger.getD []

/-- `CREATE TABLE IF NOT EXISTS schema_migrations` -/
def createLedger : Database δ := { db with ledger := some db.recorded }

def execute (sql : Text) : Except ScriptError (Database δ) :=
  match E.execute sql db.tables with
  | none => .error .failed
  | some tables => .ok { db with tables := tables }

/-- `INSERT INTO schema_migrations` -/
def insert (filename : Text) : Except ScriptError (Database δ) :=
  match db.ledger with
  | none => .error .undefinedTable
  | some rows =>
    if filename ∈ rows then .error .uniqueViolation
    else .ok { db with ledger := some (rows ++ [filename]) }

/-- The same, with `ON CONFLICT (filename) DO NOTHING`. -/
def insertNew (filename : Text) : Database δ :=
  if filename ∈ db.recorded then db
  else { db with ledger := some (db.recorded ++ [filename]) }

/-- The transaction of a single file. -/
def migrate (m : Migration) : Except ScriptError (Database δ) := do
  let db ← db.execute E m.sql
  db.insert m.filename

/-- `_install_fresh_schema` -/
def installFreshSchema (r : Release) : Except ScriptError (Database δ) := do
  let db ← db.execute E r.schema
  return r.names.foldl insertNew db

/-- `_apply_pending_migrations`, with what was recorded before. -/
def applyPending (existing : List Text) :
    List Migration → Database δ → Except ScriptError (Database δ × List Text)
  | [], db => .ok (db, [])
  | m :: ms, db =>
    if m.filename ∈ existing then applyPending existing ms db
    else do
      let db ← db.migrate E m
      let (db, applied) ← applyPending existing ms db
      return (db, m.filename :: applied)

/-- The transaction of `bootstrap_database`. -/
def bootstrap (r : Release) : Except ScriptError (Database δ × Action × List Text) :=
  let db := db.createLedger
  if E.hasPlayers db.tables then do
    let (db, applied) ← applyPending E db.recorded r.migrations db
    return (db, .migrations, applied)
  else do
    let db ← db.installFreshSchema E r
    return (db, .schema, r.names)

end Database

/-- The calls of the two scripts, each of them a transaction. -/
inductive DbOp : Type → Type
  | createLedger : DbOp Unit
  | recorded : DbOp (List Text)
  | migrate (m : Migration) : DbOp Unit
  | bootstrap (r : Release) : DbOp (Action × List Text)

abbrev Script (α : Type) := Prog DbOp ScriptError α

/-- The loop of `apply_migrations`. -/
def applyEach (existing : List Text) : List Migration → Script (List Text)
  | [] => pure []
  | m :: ms =>
    if m.filename ∈ existing then applyEach existing ms
    else do
      Prog.perform (.migrate m)
      let applied ← applyEach existing ms
      return m.filename :: applied

/-- `apply_migrations`: the files that were executed, or those there are. -/
def applyMigrations (r : Release) (dryRun : Bool) : Script Report :=
  if dryRun then pure (.filenames r.names)
  else do
    Prog.perform .createLedger
    let existing ← Prog.perform .recorded
    let applied ← applyEach existing r.migrations
    return .filenames applied

/-- `bootstrap_database` -/
def bootstrapDatabase (r : Release) (dryRun : Bool) : Script Report :=
  if dryRun then
    if strip r.schema = [] then Prog.raise (.valueError "schema file is empty")
    else pure (.summary ⟨true, r.names, .inspect, none⟩)
  else do
    let (action, applied) ← Prog.perform (.bootstrap r)
    return .summary ⟨false, r.names, action, some applied⟩

/-! ## Releases -/

section

variable {δ : Type} (E : Engine δ)

/-- The tables after some migrations. -/
def migrated (ms : List Migration) (tables : δ) : Option δ :=
  ms.foldlM (fun tables m ↦ E.execute m.sql tables) tables

theorem migrated_append (ms ms' : List Migration) (tables : δ) :
    migrated E (ms ++ ms') tables = (migrated E ms tables).bind (migrated E ms') :=
  List.foldlM_append

theorem migrated_singleton (m : Migration) (tables : δ) :
    migrated E [m] tables = E.execute m.sql tables := by
  simp [migrated]

/-- **The releases of a program**, and what its files are relied on for.  `blank` is a database
without tables, and `baseline` one of the revision before the first migration. -/
structure Releases (blank baseline : δ) where
  mem : Set Release
  /-- A later release keeps the migrations there are, and new ones come after them. -/
  comparable : ∀ r ∈ mem, ∀ r' ∈ mem,
    r.migrations <+: r'.migrations ∨ r'.migrations <+: r.migrations
  blank_bare : E.hasPlayers blank = false
  /-- There is a table of players from the start. -/
  baseline_players : E.hasPlayers baseline = true
  schema_players : ∀ r ∈ mem, ∀ tables, E.execute r.schema blank = some tables →
    E.hasPlayers tables = true
  keeps_players : ∀ r ∈ mem, ∀ m ∈ r.migrations, ∀ tables tables', E.hasPlayers tables = true →
    E.execute m.sql tables = some tables' → E.hasPlayers tables' = true
  /-- The first migration alters tables that have to be there. -/
  alters : ∀ r ∈ mem, ∀ m ∈ r.migrations.head?, E.execute m.sql blank = none

end

variable {δ : Type} {E : Engine δ} {blank baseline : δ}

/-- A run of one of the scripts, of one of the releases. -/
inductive Request (R : Releases E blank baseline)
  | apply (r : R.mem) (dryRun : Bool)
  | bootstrap (r : R.mem) (dryRun : Bool)

namespace Request

variable {R : Releases E blank baseline}

def release : Request R → Release
  | .apply r _ => r
  | .bootstrap r _ => r

def dryRun : Request R → Bool
  | .apply _ dryRun => dryRun
  | .bootstrap _ dryRun => dryRun

end Request

def DbOp.exec (E : Engine δ) {β : Type} : DbOp β → Database δ → Except ScriptError β × Database δ
  | .createLedger, db => (.ok (), db.createLedger)
  | .recorded, db =>
    match db.ledger with
    | none => (.error .undefinedTable, db)
    | some rows => (.ok rows, db)
  | .migrate m, db =>
    match db.migrate E m with
    | .error e => (.error e, db)
    | .ok db' => (.ok (), db')
  | .bootstrap r, db =>
    match db.bootstrap E r with
    | .error e => (.error e, db)
    | .ok (db', done) => (.ok done, db')

/-- Any number of runs of the scripts, on a database that is new or from before the ledger. -/
def maintenance (R : Releases E blank baseline) :
    System DbOp ScriptError Unit (Database δ) (Request R) Report where
  exec _ op := op.exec E
  admits _ _ := true
  body
    | .apply r dryRun => applyMigrations r dryRun
    | .bootstrap r dryRun => bootstrapDatabase r dryRun
  init db := (db.tables = blank ∨ db.tables = baseline) ∧ db.ledger = none

/-! ## Revisions -/

namespace Releases

variable (R : Releases E blank baseline)

/-- Migrations some release begins with. -/
def Begins (ms : List Migration) : Prop := ms = [] ∨ ∃ r ∈ R.mem, ms <+: r.migrations

/-- The tables have these migrations behind them: either they are the first revision after all of
them, or a schema has created them, and they are that after those the schema comes without. -/
def Built (ms : List Migration) (tables : δ) : Prop :=
  migrated E ms baseline = some tables ∨
    ∃ r ∈ R.mem, ∃ later created, ms = r.migrations ++ later ∧
      E.execute r.schema blank = some created ∧ migrated E later created = some tables

/-- The database is at the revision after these migrations, and says so. -/
structure At (db : Database δ) (ms : List Migration) : Prop where
  begins : R.Begins ms
  tables : R.Built ms db.tables
  recorded : db.recorded = ms.map Migration.filename

/-- The ledger is right about the tables. -/
def Right (db : Database δ) : Prop :=
  (db.tables = blank ∧ db.recorded = []) ∨ ∃ ms, R.At db ms

variable {R}

theorem begins_of_le {r : Release} (hr : r ∈ R.mem) {ms : List Migration}
    (h : ms <+: r.migrations) : R.Begins ms := .inr ⟨r, hr, h⟩

/-- Any two revisions come one after the other. -/
theorem Begins.comparable {ms ms' : List Migration} (h : R.Begins ms) (h' : R.Begins ms') :
    ms <+: ms' ∨ ms' <+: ms := by
  rcases h with rfl | ⟨r, hr, hms⟩
  · exact .inl List.nil_prefix
  rcases h' with rfl | ⟨r', hr', hms'⟩
  · exact .inr List.nil_prefix
  rcases R.comparable r hr r' hr' with hle | hle
  · exact List.prefix_or_prefix_of_prefix (hms.trans hle) hms'
  · exact List.prefix_or_prefix_of_prefix hms (hms'.trans hle)

theorem Begins.nodup {ms : List Migration} (h : R.Begins ms) :
    (ms.map Migration.filename).Nodup := by
  rcases h with rfl | ⟨r, hr, hms⟩
  · exact List.nodup_nil
  · exact r.distinct.sublist (hms.map Migration.filename).sublist

theorem Begins.mem {ms : List Migration} (h : R.Begins ms) {m : Migration} (hm : m ∈ ms) :
    ∃ r ∈ R.mem, m ∈ r.migrations := by
  rcases h with rfl | ⟨r, hr, hms⟩
  · cases hm
  · exact ⟨r, hr, hms.subset hm⟩

/-- The next migration is executed behind the others. -/
theorem Built.snoc {ms : List Migration} {tables tables' : δ} (h : R.Built ms tables)
    {m : Migration} (hm : E.execute m.sql tables = some tables') : R.Built (ms ++ [m]) tables' := by
  rcases h with h | ⟨r, hr, later, created, rfl, hcreated, h⟩
  · exact .inl (by rw [migrated_append, h, Option.bind_some, migrated_singleton, hm])
  · refine .inr ⟨r, hr, later ++ [m], created, List.append_assoc .., hcreated, ?_⟩
    rw [migrated_append, h, Option.bind_some, migrated_singleton, hm]

/-- Migrations of the releases keep the players. -/
theorem players_migrated {ms : List Migration} (hms : ∀ m ∈ ms, ∃ r ∈ R.mem, m ∈ r.migrations)
    {tables tables' : δ} (hplayers : E.hasPlayers tables = true)
    (h : migrated E ms tables = some tables') : E.hasPlayers tables' = true := by
  induction ms generalizing tables with
  | nil => exact Option.some.inj h ▸ hplayers
  | cons m ms ih =>
    rw [← List.singleton_append, migrated_append, migrated_singleton, Option.bind_eq_some_iff] at h
    obtain ⟨between, hm, h⟩ := h
    obtain ⟨r, hr, hmem⟩ := hms m List.mem_cons_self
    exact ih (fun m' hm' ↦ hms m' (List.mem_cons_of_mem _ hm'))
      (R.keeps_players r hr m hmem _ _ hplayers hm) h

/-- The migrations before the first one that is not recorded are those that are. -/
theorem eq_of_next {ms done rest : List Migration} {m : Migration} {r : Release} (hr : r ∈ R.mem)
    (hms : R.Begins ms) (hsplit : r.migrations = done ++ m :: rest)
    (hdone : ∀ m' ∈ done, m'.filename ∈ ms.map Migration.filename)
    (hm : m.filename ∉ ms.map Migration.filename) : ms = done := by
  have hdone' : R.Begins done := begins_of_le hr ⟨m :: rest, hsplit.symm⟩
  have hnext : R.Begins (done ++ [m]) :=
    begins_of_le hr ⟨rest, by rw [hsplit, List.append_assoc, List.singleton_append]⟩
  rcases hms.comparable hnext with hle | hle
  · rcases List.prefix_concat_iff.mp hle with rfl | hle
    · exact absurd (List.mem_map_of_mem (List.mem_append_right _ List.mem_cons_self)) hm
    · -- a migration beyond `ms` would be recorded twice
      obtain ⟨more, rfl⟩ := hle
      cases more with
      | nil => rw [List.append_nil]
      | cons m' more =>
        have hnodup := hdone'.nodup
        rw [List.map_append, List.nodup_append'] at hnodup
        exact absurd (List.mem_map_of_mem List.mem_cons_self) (hnodup.2.2
          (hdone m' (List.mem_append_right _ List.mem_cons_self)))
  · obtain ⟨more, rfl⟩ := hle
    refine absurd (List.mem_map_of_mem ?_) hm
    simp

/-! ### What one call does -/

section

variable {db db' : Database δ}

theorem At.right {ms : List Migration} (h : R.At db ms) : R.Right db := .inr ⟨ms, h⟩

/-- There are players at every revision. -/
theorem At.players {ms : List Migration} (h : R.At db ms) : E.hasPlayers db.tables = true := by
  rcases h.tables with htables | ⟨r, hr, later, created, rfl, hcreated, htables⟩
  · exact players_migrated (fun _ hm ↦ h.begins.mem hm) R.baseline_players htables
  · exact players_migrated (fun _ hm ↦ h.begins.mem (List.mem_append_right _ hm))
      (R.schema_players r hr created hcreated) htables

theorem Right.createLedger (h : R.Right db) : R.Right db.createLedger := by
  rcases h with h | ⟨ms, h⟩
  · exact .inl h
  · exact .inr ⟨ms, h.begins, h.tables, h.recorded⟩

end

end Releases

namespace Database

variable {db db' : Database δ}

@[simp] theorem recorded_createLedger : db.createLedger.recorded = db.recorded := rfl

/-- A file's transaction executes it and records a name that was not there. -/
theorem migrate_eq_ok {m : Migration} (h : db.migrate E m = .ok db') :
    E.execute m.sql db.tables = some db'.tables ∧ m.filename ∉ db.recorded ∧
      db'.recorded = db.recorded ++ [m.filename] := by
  obtain ⟨db₁, hexec, hinsert⟩ := Raising.bind_eq_ok.mp h
  rw [execute] at hexec
  split at hexec
  · cases hexec
  rename_i tables htables
  cases hexec
  rw [insert] at hinsert
  split at hinsert
  · cases hinsert
  rename_i rows hrows
  split at hinsert
  · cases hinsert
  rename_i hnew
  cases hinsert
  have hrows : db.recorded = rows := by
    rw [recorded]
    exact congrArg (Option.getD · []) hrows
  rw [hrows]
  exact ⟨htables, hnew, rfl⟩

theorem recorded_insertNew (filename : Text) :
    (db.insertNew filename).recorded =
      if filename ∈ db.recorded then db.recorded else db.recorded ++ [filename] := by
  rw [insertNew]
  split <;> rfl

theorem tables_foldl_insertNew (names : List Text) :
    (names.foldl insertNew db).tables = db.tables := by
  induction names generalizing db with
  | nil => rfl
  | cons name names ih =>
    rw [List.foldl_cons, ih, insertNew]
    split <;> rfl

/-- New names are recorded in their order. -/
theorem recorded_foldl_insertNew {names : List Text} (hnodup : names.Nodup)
    (hnew : ∀ name ∈ names, name ∉ db.recorded) :
    (names.foldl insertNew db).recorded = db.recorded ++ names := by
  induction names generalizing db with
  | nil => simp
  | cons name names ih =>
    have hname := hnew name List.mem_cons_self
    obtain ⟨hfirst, hrest⟩ := List.nodup_cons.mp hnodup
    have hstep : (db.insertNew name).recorded = db.recorded ++ [name] := by
      rw [recorded_insertNew, if_neg hname]
    rw [List.foldl_cons, ih hrest, hstep, List.append_assoc, List.singleton_append]
    intro other hother
    rw [hstep]
    have hne : other ≠ name := fun h ↦ hfirst (h ▸ hother)
    simpa [hne] using hnew other (List.mem_cons_of_mem _ hother)

/-- A new database has the schema's tables, and all migrations count as executed. -/
theorem installFreshSchema_eq_ok {r : Release} (hnone : db.recorded = [])
    (h : db.installFreshSchema E r = .ok db') :
    E.execute r.schema db.tables = some db'.tables ∧ db'.recorded = r.names := by
  obtain ⟨db₁, hexec, h⟩ := Raising.bind_eq_ok.mp h
  cases h
  rw [execute] at hexec
  split at hexec
  · cases hexec
  rename_i tables htables
  cases hexec
  rw [htables, tables_foldl_insertNew]
  refine ⟨rfl, ?_⟩
  have hnone' : ({ db with tables := tables } : Database δ).recorded = [] := hnone
  rw [Release.names, recorded_foldl_insertNew r.distinct (by simp [hnone']), hnone',
    List.nil_append]

end Database

namespace Releases

variable {R : Releases E blank baseline} {db db' : Database δ}

/-- A file whose predecessors are recorded takes the database to the next revision. -/
theorem At.migrate {ms done rest : List Migration} {m : Migration} {r : Release} (hr : r ∈ R.mem)
    (hat : R.At db ms) (hsplit : r.migrations = done ++ m :: rest)
    (hdone : ∀ m' ∈ done, m'.filename ∈ db.recorded) (h : db.migrate E m = .ok db') :
    R.At db' (done ++ [m]) := by
  obtain ⟨htables, hnew, hrecorded⟩ := Database.migrate_eq_ok h
  rw [hat.recorded] at hdone hnew
  have hms : ms = done := eq_of_next hr hat.begins hsplit hdone hnew
  subst hms
  refine ⟨begins_of_le hr ⟨rest, by simp [hsplit]⟩, hat.tables.snoc htables, ?_⟩
  rw [hrecorded, hat.recorded, List.map_append, List.map_singleton]

theorem Right.migrate {done rest : List Migration} {m : Migration} {r : Release} (hr : r ∈ R.mem)
    (h : R.Right db) (hsplit : r.migrations = done ++ m :: rest)
    (hdone : ∀ m' ∈ done, m'.filename ∈ db.recorded) (hm : db.migrate E m = .ok db') :
    R.Right db' := by
  rcases h with ⟨hblank, hnone⟩ | ⟨ms, hat⟩
  · -- nothing is recorded, so the file is the first one, and there is nothing to alter
    obtain rfl : done = [] := List.eq_nil_iff_forall_not_mem.mpr fun m' hm' ↦ by
      simpa [hnone] using hdone m' hm'
    have halter := R.alters r hr m (by simp [hsplit])
    rw [← hblank, (Database.migrate_eq_ok hm).1] at halter
    cases halter
  · exact (hat.migrate hr hsplit hdone hm).right

/-- The loop over the files, those before having been recorded. -/
theorem At.applyPending {existing applied : List Text} {done rest : List Migration} {r : Release}
    (hr : r ∈ R.mem) {ms : List Migration} (hat : R.At db ms)
    (hsplit : r.migrations = done ++ rest) (hdone : ∀ m ∈ done, m.filename ∈ db.recorded)
    (hexisting : ∀ name ∈ existing, name ∈ db.recorded)
    (h : Database.applyPending E existing rest db = .ok (db', applied)) :
    (∃ ms', R.At db' ms') ∧ (∀ name ∈ db.recorded, name ∈ db'.recorded) ∧
      ∀ m ∈ r.migrations, m.filename ∈ db'.recorded := by
  induction rest generalizing db done ms applied with
  | nil =>
    cases h
    rw [List.append_nil] at hsplit
    exact ⟨⟨ms, hat⟩, fun _ hname ↦ hname, hsplit ▸ hdone⟩
  | cons m rest ih =>
    have hsplit' : r.migrations = (done ++ [m]) ++ rest := by simp [hsplit]
    rw [Database.applyPending] at h
    split at h
    · rename_i hskip
      refine ih hat hsplit' (fun m' hm' ↦ ?_) hexisting h
      rcases List.mem_append.mp hm' with hm' | hm'
      · exact hdone m' hm'
      · rw [List.mem_singleton.mp hm']
        exact hexisting _ hskip
    · obtain ⟨db₁, hm, h⟩ := Raising.bind_eq_ok.mp h
      obtain ⟨⟨db₂, applied'⟩, hrest, h⟩ := Raising.bind_eq_ok.mp h
      cases h
      have hat₁ := hat.migrate hr hsplit hdone hm
      have hgrows : ∀ name ∈ db.recorded, name ∈ db₁.recorded := by
        rw [(Database.migrate_eq_ok hm).2.2]
        exact fun _ hname ↦ List.mem_append_left _ hname
      obtain ⟨hright, hkept, hall⟩ := ih hat₁ hsplit'
        (fun m' hm' ↦ hat₁.recorded ▸ List.mem_map_of_mem hm')
        (fun name hname ↦ hgrows name (hexisting name hname)) hrest
      exact ⟨hright, fun name hname ↦ hkept name (hgrows name hname), hall⟩

/-- The transaction of `bootstrap_database`. -/
theorem Right.bootstrap {r : Release} (hr : r ∈ R.mem) (h : R.Right db) {a : Action × List Text}
    (hb : db.bootstrap E r = .ok (db', a)) :
    R.Right db' ∧ (∀ name ∈ db.recorded, name ∈ db'.recorded) ∧
      ∀ m ∈ r.migrations, m.filename ∈ db'.recorded := by
  rw [Database.bootstrap] at hb
  rcases h.createLedger with ⟨hblank, hnone⟩ | ⟨ms, hat⟩
  · rw [hblank, R.blank_bare, if_neg Bool.false_ne_true] at hb
    obtain ⟨db₁, hinstall, h⟩ := Raising.bind_eq_ok.mp hb
    cases h
    obtain ⟨htables, hrecorded⟩ :=
      Database.installFreshSchema_eq_ok hnone hinstall
    rw [hblank] at htables
    have hbuilt : R.Built r.migrations db'.tables :=
      .inr ⟨r, hr, [], _, (List.append_nil _).symm, htables, rfl⟩
    have hat : R.At db' r.migrations := ⟨begins_of_le hr List.prefix_rfl, hbuilt, hrecorded⟩
    refine ⟨hat.right, fun name hname ↦ ?_, fun m hm ↦ hrecorded ▸ List.mem_map_of_mem hm⟩
    rw [← Database.recorded_createLedger, hnone] at hname
    exact absurd hname List.not_mem_nil
  · rw [hat.players, if_pos rfl] at hb
    obtain ⟨⟨db₁, applied⟩, hpending, hb⟩ := Raising.bind_eq_ok.mp hb
    cases hb
    obtain ⟨⟨ms', hat'⟩, hkept, hall⟩ := hat.applyPending hr (List.nil_append _).symm
      (fun m hm ↦ absurd hm List.not_mem_nil) (fun _ hname ↦ hname) hpending
    exact ⟨hat'.right, hkept, hall⟩

end Releases

/-! ## Runs -/

section

open Contract

variable (R : Releases E blank baseline)

/-- What a part of a program has answered may count on these names in the ledger. -/
def Recorded {β : Type} (names : β → List Text) (result : Except ScriptError β)
    (w : World DbOp ScriptError (Request R) (Database δ)) : Prop :=
  ∀ b, result = .ok b → ∀ name ∈ names b, name ∈ w.state.recorded

/-- The transactions a run of a release of the program asks for. -/
def DbOp.Due (db : Database δ) : {β : Type} → DbOp β → Prop
  | _, .createLedger => True
  | _, .recorded => True
  | _, .migrate m => ∃ r ∈ R.mem, ∃ done rest, r.migrations = done ++ m :: rest ∧
      ∀ m' ∈ done, m'.filename ∈ db.recorded
  | _, .bootstrap r => r ∈ R.mem

/-- The ledger stays right, and who has returned finds all files of its release in it. -/
def revision : Contract DbOp ScriptError (Request R) (Database δ) Report where
  known _ := True
  inv w := R.Right w.state
  pre _ op w := op.Due R w.state
  post q _ result w := q.dryRun = false → Recorded R (fun _ ↦ q.release.names) result w
  gone _ _ := True

variable {R}

/-- **A transaction keeps the ledger right, and what it records.** -/
theorem Releases.Right.exec {db : Database δ} (h : R.Right db) {β : Type} {op : DbOp β}
    (hdue : op.Due R db) : R.Right (op.exec E db).2 ∧
      ∀ name ∈ db.recorded, name ∈ (op.exec E db).2.recorded := by
  cases op with
  | createLedger => exact ⟨h.createLedger, fun _ hname ↦ hname⟩
  | recorded =>
    rw [DbOp.exec]
    split <;> exact ⟨h, fun _ hname ↦ hname⟩
  | migrate m =>
    obtain ⟨r, hr, done, rest, hsplit, hdone⟩ := hdue
    rw [DbOp.exec]
    split
    · exact ⟨h, fun _ hname ↦ hname⟩
    · rename_i db' hm
      refine ⟨h.migrate hr hsplit hdone hm, fun name hname ↦ ?_⟩
      rw [(Database.migrate_eq_ok hm).2.2]
      exact List.mem_append_left _ hname
  | bootstrap r =>
    rw [DbOp.exec]
    split
    · exact ⟨h, fun _ hname ↦ hname⟩
    · rename_i db' applied hb
      obtain ⟨hright, hkept, -⟩ := h.bootstrap hdue hb
      exact ⟨hright, hkept⟩

variable {i : ℕ}

theorem recorded_error {β : Type} (names : β → List Text) (e : ScriptError)
    (w : World DbOp ScriptError (Request R) (Database δ)) : Recorded R names (.error e) w :=
  fun _ h ↦ by cases h

/-- What is recorded stays so whatever the others do. -/
theorem stable_recorded {β : Type} (names : β → List Text) (result : Except ScriptError β) :
    Stable (maintenance R) Terms.any (revision R) i (Recorded R names result) where
  spawned _ _ h := h
  called _ _ _ _ _ _ hhere hdue _ _ h b hok name hname :=
    (hhere.2.exec hdue).2 name (h b hok name hname)

/-- A file whose predecessors are recorded is recorded itself. -/
theorem ensures_migrate (r : R.mem) (existing : List Text) {done rest : List Migration}
    {m : Migration} (hsplit : r.1.migrations = done ++ m :: rest) :
    Ensures (maintenance R) Terms.any (revision R) i
      (Recorded R fun _ ↦ existing ++ (done ++ [m]).map Migration.filename)
      (Prog.perform (.migrate m))
      (Recorded R (fun _ ↦ existing ++ done.map Migration.filename) (.ok ())) := by
  refine ensures_perform (stable_recorded _ _) (stable_recorded _) ?_ ?_ ?_
  · refine fun w _ hw ↦ ⟨r, r.2, done, rest, hsplit, fun m' hm' ↦ hw () rfl _ ?_⟩
    exact List.mem_append_right _ (List.mem_map_of_mem hm')
  · exact fun w _ _ _ ↦ ⟨trivial, fun e ↦ recorded_error _ e w⟩
  · intro w d _ hw _ _ u hok name hname
    simp only [maintenance, DbOp.exec] at hok
    rw [System.after_state]
    simp only [maintenance, DbOp.exec]
    split at hok
    · cases hok
    rename_i db' hm
    have hrecorded := (Database.migrate_eq_ok hm).2.2
    simp only [List.map_append, List.map_cons, List.map_nil, ← List.append_assoc] at hname
    rw [hrecorded]
    rcases List.mem_append.mp hname with hname | hname
    · exact List.mem_append_left _ (hw () rfl name hname)
    · exact List.mem_append_right _ hname

/-- The loop over the files: those before have been recorded. -/
theorem ensures_applyEach (r : R.mem) {existing : List Text} {done rest : List Migration}
    (hsplit : r.1.migrations = done ++ rest) :
    Ensures (maintenance R) Terms.any (revision R) i (Recorded R fun _ ↦ r.1.names)
      (applyEach existing rest)
      (Recorded R (fun _ ↦ existing ++ done.map Migration.filename) (.ok ())) := by
  induction rest generalizing done with
  | nil =>
    refine ensures_pure (stable_recorded _ _) fun w _ hw _ _ name hname ↦ hw () rfl name ?_
    rw [Release.names, hsplit, List.append_nil] at hname
    exact List.mem_append_right _ hname
  | cons m rest ih =>
    have hsplit' : r.1.migrations = (done ++ [m]) ++ rest := by simp [hsplit]
    rw [applyEach]
    split
    · rename_i hskip
      refine (ih hsplit').pre (stable_recorded _ _) fun w _ hw _ _ name hname ↦ hw () rfl name ?_
      simp only [List.map_append, List.map_cons, List.map_nil, ← List.append_assoc,
        List.mem_append (t := [_]), List.mem_singleton] at hname
      rcases hname with hname | rfl
      · exact hname
      · exact List.mem_append_left _ hskip
    · refine (ensures_migrate r existing hsplit).bind (fun _ ↦ ?_)
        fun e w _ _ ↦ recorded_error _ e w
      refine ((ih hsplit').bind (fun applied ↦ ?_) fun e w _ _ ↦ recorded_error _ e w).pre
        (stable_recorded _ _) fun w _ h ↦ h
      exact ensures_pure (stable_recorded _ _) fun w _ h _ _ ↦ h applied rfl

theorem ensures_applyMigrations (r : R.mem) (dryRun : Bool) :
    Ensures (maintenance R) Terms.any (revision R) i ((revision R).post (.apply r dryRun) i)
      (applyMigrations r dryRun) fun _ ↦ True := by
  rw [applyMigrations]
  split
  · rename_i hdry
    exact ensures_pure (Stable.true i) fun _ _ _ hwet ↦ by simp [Request.dryRun, hdry] at hwet
  have hcreate : Ensures (maintenance R) Terms.any (revision R) i (fun _ _ ↦ True)
      (Prog.perform .createLedger) fun _ ↦ True :=
    ensures_perform (Stable.true i) (fun _ ↦ Stable.true i) (fun _ _ _ ↦ trivial)
      (fun _ _ _ _ ↦ ⟨trivial, fun _ ↦ trivial⟩) fun _ _ _ _ _ _ ↦ trivial
  have hread : Ensures (maintenance R) Terms.any (revision R) i
      (Recorded R fun existing ↦ existing) (Prog.perform .recorded) fun _ ↦ True := by
    refine ensures_perform (Stable.true i) (stable_recorded _) (fun _ _ _ ↦ trivial) ?_ ?_
    · exact fun w _ _ _ ↦ ⟨trivial, fun e ↦ recorded_error _ e w⟩
    · intro w d _ _ _ _ existing hok name hname
      simp only [maintenance, DbOp.exec] at hok
      rw [System.after_state]
      simp only [maintenance, DbOp.exec]
      split at hok
      · cases hok
      · rename_i rows hrows
        cases hok
        rw [Database.recorded, hrows]
        exact hname
  have herror : ∀ (e : ScriptError) w, (revision R).post (.apply r dryRun) i (.error e) w :=
    fun e w _ ↦ recorded_error _ e w
  refine hcreate.bind (fun _ ↦ ?_) fun e w _ _ ↦ herror e w
  refine hread.bind (fun existing ↦ ?_) fun e w _ _ ↦ herror e w
  have hloop : r.1.migrations = [] ++ r.1.migrations := rfl
  refine ((ensures_applyEach r hloop).pre (stable_recorded _ _) fun w _ h _ _ ↦ ?_).bind
    (fun applied ↦ ?_) fun e w _ _ ↦ herror e w
  · simpa using h existing rfl
  · exact ensures_pure (stable_recorded _ _) fun w _ h _ _ _ ↦ h applied rfl

theorem ensures_bootstrapDatabase (r : R.mem) (dryRun : Bool) :
    Ensures (maintenance R) Terms.any (revision R) i ((revision R).post (.bootstrap r dryRun) i)
      (bootstrapDatabase r dryRun) fun _ ↦ True := by
  have hpost : ∀ result w, Recorded R (fun _ : Report ↦ r.1.names) result w →
      (revision R).post (.bootstrap r dryRun) i result w := fun _ _ h _ ↦ h
  rw [bootstrapDatabase]
  split_ifs with hdry hempty
  · exact ensures_raise (Stable.true i) fun w _ _ ↦ hpost _ w (recorded_error _ _ w)
  · exact ensures_pure (Stable.true i) fun _ _ _ hwet ↦ by simp [Request.dryRun, hdry] at hwet
  · have hbootstrap : Ensures (maintenance R) Terms.any (revision R) i
        (Recorded R fun _ ↦ r.1.names) (Prog.perform (.bootstrap r.1)) fun _ ↦ True := by
      refine ensures_perform (Stable.true i) (stable_recorded _) (fun _ _ _ ↦ r.2)
        (fun w _ _ _ ↦ ⟨trivial, fun e ↦ recorded_error _ e w⟩) ?_
      intro w d hhere _ _ _ a hok name hname
      simp only [maintenance, DbOp.exec] at hok
      rw [System.after_state]
      simp only [maintenance, DbOp.exec]
      split at hok
      · cases hok
      · rename_i db' a' hb
        obtain ⟨m, hm, rfl⟩ := List.mem_map.mp hname
        exact (hhere.2.bootstrap r.2 hb).2.2 m hm
    refine hbootstrap.bind (fun a ↦ ?_) fun e w _ _ ↦ hpost _ w (recorded_error _ e w)
    exact ensures_pure (stable_recorded _ _) fun w _ h ↦ hpost _ w fun _ _ ↦ h a rfl

theorem sound_revision : Sound (maintenance R) Terms.any (revision R) where
  spawn _ _ h := h.2
  call _ _ _ _ _ hhere hdue _ _ := (hhere.2.exec hdue).1
  body w q _ _ := by
    cases q with
    | apply r dryRun => exact ⟨_, trivial, (ensures_applyMigrations r dryRun).safe⟩
    | bootstrap r dryRun => exact ⟨_, trivial, (ensures_bootstrapDatabase r dryRun).safe⟩
  gone _ := Stable.true _

/-- A dry run ends without a call. -/
theorem body_of_dryRun {q : Request R} (h : q.dryRun = true) :
    ∃ result, (maintenance R).body q = .done result := by
  cases q with
  | apply r dryRun =>
    obtain rfl : dryRun = true := h
    exact ⟨_, rfl⟩
  | bootstrap r dryRun =>
    obtain rfl : dryRun = true := h
    by_cases hempty : strip r.1.schema = []
    · exact ⟨.error (.valueError "schema file is empty"), by
        simp [maintenance, bootstrapDatabase, hempty, Prog.raise]⟩
    · exact ⟨_, by
        simp only [maintenance, bootstrapDatabase, hempty, if_true, if_false]
        rfl⟩

/-- **The ledger is right about the tables in every reachable state**: either the database is new
and nothing is recorded, or its tables have exactly the recorded migrations behind them, each once
and in order.  And a run of either script that has returned and was not a dry run leaves all
migrations of its release recorded, whatever happens after; a dry run has made no call. -/
theorem revision_of_reachable
    {c : Config DbOp ScriptError (Request R) (Database δ) Report}
    (h : (maintenance R).Reachable c) :
    ((c.world.state.tables = blank ∧ c.world.state.recorded = []) ∨
      ∃ ms, R.Begins ms ∧ R.Built ms c.world.state.tables ∧
        c.world.state.recorded = ms.map Migration.filename) ∧
    (∀ (i : ℕ) (q : Request R) (report : Report), c.world.requests[i]? = some q →
      q.dryRun = false → c.threads[i]? = some (.live (.done (.ok report))) →
        ∀ m ∈ q.release.migrations, m.filename ∈ c.world.state.recorded) ∧
    ∀ (i : ℕ) (q : Request R), c.world.requests[i]? = some q → q.dryRun = true →
      ∀ x ∈ c.world.trace, x.1 ≠ i := by
  have hgood : Good (maintenance R) Terms.any (revision R) c := by
    refine sound_revision.good (fun db hdb ↦ ?_) (fun _ _ ↦ trivial) h
    obtain ⟨htables, hledger⟩ := hdb
    have hnone : db.recorded = [] := by simp [Database.recorded, hledger]
    rcases htables with htables | htables
    · exact .inl ⟨htables, hnone⟩
    · exact .inr ⟨[], .inl rfl, .inl (congrArg some htables.symm), hnone⟩
  refine ⟨?_, fun i q report hq hwet ht m hm ↦ ?_, fun i q hq hdry ↦ ?_⟩
  · exact hgood.here.2.imp id fun ⟨ms, hat⟩ ↦ ⟨ms, hat.begins, hat.tables, hat.recorded⟩
  · exact hgood.post hq ht hwet report rfl _ (List.mem_map_of_mem hm)
  · obtain ⟨result, hbody⟩ := body_of_dryRun hdry
    exact (System.Reach.idle hbody h hq).2

end

/-! ### Two releases at work -/

/-- Tables have columns and comments.  A schema says how many columns there are, and a migration
adds one of each. -/
def columns : Engine (Option (ℕ × ℕ)) where
  execute
    | 's' :: marks, none => some (some (marks.length, 0))
    | ['+'], some (n, comments) => some (some (n + 1, comments + 1))
    | _, _ => none
  hasPlayers := Option.isSome

def firstRelease : Release where
  schema := "s+".toList
  migrations := [⟨"0002".toList, "+".toList⟩]
  distinct := by decide

def secondRelease : Release where
  schema := "s++".toList
  migrations := [⟨"0002".toList, "+".toList⟩, ⟨"0003".toList, "+".toList⟩]
  distinct := by decide

/-- What has been executed leaves columns behind. -/
theorem isSome_of_columns {sql : Text} {tables tables' : Option (ℕ × ℕ)}
    (h : columns.execute sql tables = some tables') : tables'.isSome = true := by
  simp only [columns] at h
  split at h <;> cases h <;> rfl

/-- The second release has one migration more.  Its schema does without the comments. -/
def twoReleases : Releases columns none (some (0, 0)) where
  mem := {firstRelease, secondRelease}
  comparable := by
    rintro r (rfl | rfl) r' (rfl | rfl) <;> decide
  blank_bare := rfl
  baseline_players := rfl
  schema_players _ _ _ h := isSome_of_columns h
  keeps_players _ _ _ _ _ _ _ h := isSome_of_columns h
  alters := by
    rintro r (rfl | rfl) <;> decide

/-- The first release creates the tables.  While the second one migrates them it is started once
more, and is the first to execute the file; then the migration fails, and a dry run comes after. -/
def overlapping : List (Event (Request twoReleases) Unit ScriptError) :=
  [.spawn (.bootstrap ⟨firstRelease, .inl rfl⟩ false), .step 0 (),
    .spawn (.apply ⟨secondRelease, .inr rfl⟩ false), .step 1 (), .step 1 (),
    .spawn (.bootstrap ⟨secondRelease, .inr rfl⟩ false), .step 2 (), .step 1 (),
    .spawn (.apply ⟨firstRelease, .inl rfl⟩ true)]

theorem revision_of_reachable_overlapping : ∃ c, (maintenance twoReleases).Reachable c ∧
    c.world.state.tables = some (2, 1) ∧
    (∃ ms, twoReleases.Built ms c.world.state.tables ∧
      c.world.state.recorded = ms.map Migration.filename) ∧
    ∀ x ∈ c.world.trace, x.1 ≠ 3 := by
  have hinit : (maintenance twoReleases).init ⟨none, none⟩ := ⟨.inl rfl, rfl⟩
  obtain ⟨c, hc, hcheck⟩ := System.exists_reachable_of_run hinit
    (show ((maintenance twoReleases).run (System.start ⟨none, none⟩) overlapping).map
      (fun c ↦ decide (c.world.state.tables = some (2, 1) ∧
        (c.world.requests[3]?.map Request.dryRun) = some true)) = some true by decide)
  obtain ⟨htables, hdry⟩ := of_decide_eq_true hcheck
  obtain ⟨q, hq, hdry⟩ := Option.map_eq_some_iff.mp hdry
  obtain ⟨hledger, -, hcalls⟩ := revision_of_reachable hc
  rcases hledger with ⟨hblank, -⟩ | ⟨ms, -, hbuilt, hrecorded⟩
  · rw [htables] at hblank
    cases hblank
  · exact ⟨c, hc, htables, ⟨ms, hbuilt, hrecorded⟩, hcalls 3 q hq hdry⟩

end Neva.Migrations
