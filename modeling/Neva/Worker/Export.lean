import Neva.Calls.Contract
import Neva.Worker.Corpus
import Neva.Worker.Golden

/-!
# Packaging a turn

`GauntletService._package` and `_export_eligible_record` of `worker/service.py`: the record of a
turn is created once, and if it is eligible its line is appended to the corpus and the shard
written down in the record.  These are three effects, and a worker may die between any two of them;
the next worker that packages the turn picks up where the last one left off.

`packaging` is any number of such workers at once.  The tables they read are rewritten at any time,
as the game and the triage do.  A call of `append` is one step.  The lock of the flusher is taken
and given back, but nothing keeps two programs out of it at the same time: the runs in which it is
exclusive are among the runs of the system, and what is proved of all of them holds of these.
-/

set_option autoImplicit false

namespace Neva

open Calls

/-! ## Records -/

/-- A `records` row. -/
structure RecordRow where
  turnId : Uuid
  golden : Json
  trainingEligible : Bool
  shardFile : Option Text

/-- `worker.repository.RecordExportState` -/
structure RecordExportState where
  turnId : Uuid
  trainingEligible : Bool
  shardFile : Option Text
  golden : List (Text × Json)

/-- What the workers share: the tables of the game, which are somebody else's, the records, the
corpus directory and the counters. -/
structure Archive where
  db : Db
  records : List RecordRow
  corpus : Corpus
  metrics : Text → ℕ

/-- What packaging depends on. -/
structure Packaging where
  /-- The column `cards.label_common`. -/
  labels : Uuid → LabelMap
  /-- The spelling of a floating point number. -/
  repr : ℚ → Json.Number
  /-- What a `jsonb` column makes of a document. -/
  jsonb : Json.Store
  shardRecordLimit : ℕ

/-- The calls of `_package` and `_export_eligible_record`. -/
inductive ExportOp : Type → Type
  | getTurnContext (turnId : Uuid) : ExportOp (Option TurnContext)
  /-- `datetime.now(UTC)` -/
  | utcNow : ExportOp Time
  | getRecordExportState (turnId : Uuid) : ExportOp (Option RecordExportState)
  | createRecord (turnId : Uuid) (golden : List (Text × Json)) (eligible : Bool) : ExportOp Bool
  | setRecordShard (turnId : Uuid) (shardFile : Text) : ExportOp Unit
  | incrementMetric (key : Text) : ExportOp Unit
  | acquireFlusherLock : ExportOp Unit
  | releaseFlusherLock : ExportOp Unit
  | findUtterance (utteranceId : Text) : ExportOp (Option Text)
  | append (golden : List (Text × Json)) : ExportOp Text
  /-- Whatever the game and the triage make of their tables. -/
  | rewriteTables (db : Db) : ExportOp Unit

namespace Repository

variable (records : List RecordRow)

/-- `SELECT … FROM records WHERE turn_id = $1` -/
def findRecord (turnId : Uuid) : Option RecordRow := records.find? fun r ↦ r.turnId == turnId

/-- `get_record_export_state` -/
def getRecordExportState (turnId : Uuid) : Except PackageError (Option RecordExportState) :=
  match findRecord records turnId with
  | none => .ok none
  | some r =>
    match r.golden with
    | .obj golden => .ok (some ⟨r.turnId, r.trainingEligible, r.shardFile, golden⟩)
    | _ => .error (.valueError "golden must decode to a JSON object")

/-- `create_record`: `INSERT … ON CONFLICT (turn_id) DO NOTHING` -/
def createRecord (jsonb : Json.Store) (turnId : Uuid) (golden : List (Text × Json))
    (eligible : Bool) : Bool × List RecordRow :=
  if records.any fun r ↦ r.turnId == turnId then (false, records)
  else (true, records ++ [⟨turnId, jsonb.read (.obj golden), eligible, none⟩])

/-- `SET shard_file = $2 WHERE turn_id = $1 AND training_eligible AND (shard_file IS NULL OR
shard_file = $2)` -/
def setRecordShard (turnId : Uuid) (shardFile : Text) : List RecordRow :=
  records.map fun r ↦
    if r.turnId = turnId ∧ r.trainingEligible = true ∧
        (r.shardFile = none ∨ r.shardFile = some shardFile)
    then { r with shardFile := some shardFile } else r

end Repository

/-- What a call answers and what it leaves behind. -/
def ExportOp.exec {β : Type} (p : Packaging) (now : Time) :
    ExportOp β → Archive → Except PackageError β × Archive
  | .getTurnContext turnId, a => (.ok (Repository.turnContext p.labels a.db turnId), a)
  | .utcNow, a => (.ok now, a)
  | .getRecordExportState turnId, a => (Repository.getRecordExportState a.records turnId, a)
  | .createRecord turnId golden eligible, a =>
    (.ok (Repository.createRecord a.records p.jsonb turnId golden eligible).1,
      { a with records := (Repository.createRecord a.records p.jsonb turnId golden eligible).2 })
  | .setRecordShard turnId shardFile, a =>
    (.ok (), { a with records := Repository.setRecordShard a.records turnId shardFile })
  | .incrementMetric key, a =>
    (.ok (), { a with metrics := Function.update a.metrics key (a.metrics key + 1) })
  | .acquireFlusherLock, a => (.ok (), a)
  | .releaseFlusherLock, a => (.ok (), a)
  | .findUtterance utteranceId, a =>
    ((a.corpus.findUtterance utteranceId).mapError fun _ ↦ .corpus, a)
  | .append golden, a =>
    ((a.corpus.append p.shardRecordLimit (.obj golden)).1.mapError fun _ ↦ .corpus,
      { a with corpus := (a.corpus.append p.shardRecordLimit (.obj golden)).2 })
  | .rewriteTables db, a => (.ok (), { a with db })

/-! ## The worker -/

namespace GauntletService

/-- The body of `_export_eligible_record`, under the lock. -/
def flush (turnId : Uuid) (golden : List (Text × Json)) : Prog ExportOp PackageError Unit := do
  let state ← Prog.perform (.getRecordExportState turnId)
  match state with
  | none => Prog.raise (.runtimeError "eligible record disappeared")
  | some state =>
    if state.trainingEligible = false ∨ state.shardFile.any (· ≠ []) = true then return ()
    else do
      let found ← Prog.perform (.findUtterance (uuidText turnId))
      match found with
      | some shard => Prog.perform (.setRecordShard turnId shard)
      | none => do
        let shard ← Prog.perform (.append golden)
        Prog.perform (.setRecordShard turnId shard)
        Prog.perform (.incrementMetric "gauntlet_training_eligible_total".toList)

/-- `_export_eligible_record` -/
def exportEligibleRecord (turnId : Uuid) (golden : List (Text × Json)) :
    Prog ExportOp PackageError Unit := do
  Prog.perform .acquireFlusherLock
  (flush turnId golden).ensuring .releaseFlusherLock

/-- The end of `_package`, when the record is there. -/
def reconcile (turnId : Uuid) (golden : List (Text × Json)) (eligible : Bool)
    (existing : RecordExportState) : Prog ExportOp PackageError Unit :=
  if existing.trainingEligible = false ∨ eligible = false then return ()
  else if existing.shardFile.any (· ≠ []) = true then return ()
  else exportEligibleRecord turnId (if existing.golden = [] then golden else existing.golden)

/-- `_package` once the record has been built: it is created unless there is one already. -/
def store (turnId : Uuid) (golden : List (Text × Json)) (eligible : Bool) :
    Prog ExportOp PackageError Unit := do
  let existing ← Prog.perform (.getRecordExportState turnId)
  match existing with
  | some existing => reconcile turnId golden eligible existing
  | none => do
    let inserted ← Prog.perform (.createRecord turnId golden eligible)
    if inserted then Prog.perform (.incrementMetric "gauntlet_records_total".toList)
    let existing ← Prog.perform (.getRecordExportState turnId)
    match existing with
    | some existing => reconcile turnId golden eligible existing
    | none => Prog.raise (.runtimeError "record missing after create")

/-- `_package` -/
def package (p : Packaging) (turnId : Uuid) : Prog ExportOp PackageError Unit := do
  let context ← Prog.perform (.getTurnContext turnId)
  match context with
  | none => Prog.raise .lookupError
  | some context =>
    if context.status ≠ .scored ∨ context.quality = none then return ()
    else do
      let now ← Prog.perform .utcNow
      match goldenRecord p.repr context now with
      | .error e => Prog.raise e
      | .ok golden => store context.turnId golden (trainingEligible context)

end GauntletService

/-! ## The system -/

/-- What goes on: a package job is handled, or somebody else writes to the tables. -/
inductive Handling
  | package (turnId : Uuid)
  | rewriteTables (db : Db)

/-- The program of a request. -/
def Handling.body (p : Packaging) : Handling → Prog ExportOp PackageError Unit
  | .package turnId => GauntletService.package p turnId
  | .rewriteTables db => Prog.perform (.rewriteTables db)

/-- **Workers that package turns, interleaved.**  At first there are no records and no shards. -/
def packaging (p : Packaging) : System ExportOp PackageError Time Archive Handling Unit where
  exec now op a := op.exec p now a
  admits _ _ := true
  body := Handling.body p
  init a := a.records = [] ∧ a.corpus = []

end Neva
