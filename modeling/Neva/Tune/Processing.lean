import Neva.Calls.Always
import Neva.Ops.Trees
import Neva.Tune.Documents

/-!
# What becomes of a queued request

`TuneDemoSupervisor` of `scripts/tune_demo_supervisor.py`, from the claim of a request to the end
of its job.  Everything a method asks of the host is a `HostOp`: it reads, writes and deletes files,
and it starts the two programs.  What a call answers is left open, an exception included, and so is
what the programs do while they run (`Child`).  One exception comes from the code itself: a status
document that UTF-8 has no way of writing is not written.

A file is named by its directory and its name in it.  The name of a queued request is any that a
file system has; `FileName.text` is what the patterns and comparisons see of it.

Of what the status documents and the overview say only what decides something is kept.
-/

set_option autoImplicit false

namespace Neva.Supervisor

open Calls Calls.Prog
open Ops (Sym Name name)

/-! ## Files -/

/-- The name of a file. -/
structure FileName where
  name : Name
  allowed : name.Allowed

/-- A character, as an ASCII pattern sees it. -/
def shownChar : Sym → Char
  | .char c => c
  | .surrogate _ => Char.ofNat 0xFFFD

def FileName.text (file : FileName) : Text := file.name.map shownChar

/-- What `tempfile` puts at the end of a name. -/
structure TemporarySuffix where
  text : Text
  safe : text.length = 8 ∧ text.all (fun c ↦ c.isAlphanum || c == '_') = true

/-- `SAMPLE_ID_PATTERN.fullmatch` -/
def sampleIdPattern : Text → Bool
  | [] => false
  | c :: rest => c.isAlphanum && rest.all (fun c ↦ c.isAlphanum || c == '_' || c == '-') &&
      rest.length ≤ 79

/-- The supervisor's settings, and the host it runs on. -/
structure Host where
  settings : SupervisorSettings
  approvedPredictions : HostPath
  /-- In order. -/
  approvedSampleIds : List Text
  approved_valid : ∀ id ∈ approvedSampleIds, sampleIdPattern id = true
  python : Python
  /-- `tempfile.gettempdir()` -/
  temporaryDirectory : HostPath

namespace Host

variable (host : Host)

def requestsDir : HostPath := host.settings.runtimeRoot.child "requests".toList

def jobsDir : HostPath := host.settings.runtimeRoot.child "jobs".toList

def uploadsDir : HostPath := host.settings.uploadsDir

def publishedDir : HostPath := host.settings.runtimeRoot.child "published".toList

def publishedAudioDir : HostPath := host.publishedDir.child "audio".toList

end Host

/-! ## Calls -/

/-- The exception that was raised, by the name of its type. -/
abbrev Raised := Text

/-- What `build_status` says. -/
structure JobStatus where
  jobId : Text
  kind : Text
  status : Text
  stage : Text
  failureReason : Option Text
  createdAt : Content

/-- What is written into a file. -/
inductive Document
  | status (s : JobStatus)
  | overview
  /-- A copy of this file. -/
  | audio (source : Text)

/-- The document can be written.  Of the overview that is left to the call. -/
def Document.isWritable : Document → Bool
  | .status s => s.createdAt.isWritable
  | _ => true

/-- A program that was started, and what it will have done. -/
structure Child where
  /-- Each time it is found running: whether a heartbeat is due. -/
  polls : List Bool
  /-- It is killed when its time is over. -/
  timedOut : Bool
  returncode : ℤ
  /-- What it wrote, if that is JSON. -/
  stdout : Option Json

inductive HostOp : Type → Type
  /-- `sorted(requests_dir.glob("*.json"), …)` -/
  | queued : HostOp (List FileName)
  /-- `read_json_object` -/
  | readJson (dir : HostPath) (file : Name) : HostOp Members
  /-- `read_events`: the stages of the events. -/
  | readEvents (eventPath : HostPath) : HostOp (List Text)
  /-- `_read_jsonl` -/
  | readJsonl (path : HostPath) : HostOp (List (List (Text × Json)))
  | isFile (dir : HostPath) (file : Name) : HostOp Bool
  | isSymlink (dir : HostPath) (file : Name) : HostOp Bool
  | isFileAt (path : Text) : HostOp Bool
  | isSymlinkAt (path : Text) : HostOp Bool
  | isDir (dir : HostPath) : HostOp Bool
  | iterdir (dir : HostPath) : HostOp (List FileName)
  /-- Whatever else `publish_overview` reads. -/
  | survey : HostOp Unit
  /-- `dir.mkdir(parents=True, exist_ok=True)` -/
  | makeDirs (dir : HostPath) : HostOp Unit
  /-- `(dir / file).mkdir(parents=True, exist_ok=False)` -/
  | makeNewDir (dir : HostPath) (file : Name) : HostOp Unit
  /-- `NamedTemporaryFile(dir=dir, prefix=begin)` -/
  | createTemporary (dir : HostPath) (begin : Name) : HostOp TemporarySuffix
  | fill (dir : HostPath) (file : Name) (document : Document) : HostOp Unit
  /-- `os.replace` -/
  | replace (dir : HostPath) (source target : Name) : HostOp Unit
  /-- `unlink(missing_ok=True)` -/
  | unlink (dir : HostPath) (file : Name) : HostOp Unit
  /-- `TemporaryFile()`, which has no name in the directory. -/
  | temporaryFile (dir : HostPath) : HostOp Unit
  /-- `Popen` -/
  | launch (argv : List Points) : HostOp Child
  /-- `int(time.time())` -/
  | time : HostOp ℤ
  | utcNow : HostOp Text

abbrev HostProg (α : Type) := Prog HostOp Raised α

/-! ## Documents -/

/-- A sibling temporary file is filled and then put in the place of the file.  What cannot be
written raises, and leaves the temporary file. -/
def atomicPlace (dir : HostPath) (file : Name) (document : Document) : HostProg Unit := do
  perform (.makeDirs dir)
  let begin := name ".".toList ++ file ++ name ".".toList
  let random ← perform (.createTemporary dir begin)
  let temporary := begin ++ name random.text
  if document.isWritable then
    perform (.fill dir temporary document)
    perform (.replace dir temporary file)
  else raise "UnicodeEncodeError".toList

/-- `atomic_write_json` -/
def atomicWriteJson (dir : HostPath) (file : Name) (document : Document) : HostProg Unit :=
  atomicPlace dir file document

/-- `_atomic_copy` -/
def atomicCopy (source : Text) (dir : HostPath) (file : Name) : HostProg Unit :=
  atomicPlace dir file (.audio source)

/-! ## The overview -/

/-- The last component of `Path(value)`. -/
def lastComponent (value : Text) : Text :=
  (((value.splitOn '/').filter fun part ↦ part ≠ [] ∧ part ≠ ['.']).getLast?).getD []

/-- The audio item of a holdout row, where the row has one. -/
def audioItem (row : List (Text × Json)) : Option (List (Text × Json)) :=
  match Json.lookup row "messages".toList with
  | some (.arr (.obj message :: _)) =>
    match Json.lookup message "content".toList with
    | some (.arr (.obj item :: _)) => some item
    | _ => none
  | _ => none

def isText (text : Text) : Option Json → Bool
  | some (.str s) => s = text
  | _ => false

/-- `_holdout_audio_path`, with the suffix in lower case. -/
def holdoutAudioPath (host : Host) (row : List (Text × Json)) : HostProg (Option (Text × Text)) :=
  match (audioItem row).bind fun item ↦ (Json.lookup item "audio".toList).map fun a ↦ (item, a) with
  | some (item, .str value) =>
    let suffix := host.python.lower (pathSuffix (lastComponent value))
    if !isText "audio".toList (Json.lookup row "input_mode".toList) ∨
        !isText "audio".toList (Json.lookup item "type".toList) ∨ value.head? ≠ some '/' then
      pure none
    else do
      let file ← perform (.isFileAt value)
      if !file then return none
      else
        let link ← perform (.isSymlinkAt value)
        if link ∨ suffix ∉ allowedUploadSuffixes then return none
        else return some (value, suffix)
  | _ => pure none

/-- The value of a key can be looked for in a set. -/
def hashable : Option Json → Bool
  | some (.arr _) | some (.obj _) => false
  | _ => true

/-- `row.get("sample_id", row.get("utterance_id"))` -/
def predictionKey (row : List (Text × Json)) : Option Json :=
  (Json.lookup row "sample_id".toList).or (Json.lookup row "utterance_id".toList)

/-- The last row with a key. -/
def rowOf (key : List (Text × Json) → Option Json) (rows : List (List (Text × Json)))
    (id : Text) : Option (List (Text × Json)) :=
  (rows.filter fun row ↦ isText id (key row)).getLast?

/-- The audio of the approved samples that have a row and a prediction is copied. -/
def copyApproved (host : Host) (holdout predictions : List (List (Text × Json))) :
    List Text → HostProg (List Name)
  | [] => pure []
  | id :: ids =>
    match rowOf (fun row ↦ Json.lookup row "utterance_id".toList) holdout id,
        rowOf predictionKey predictions id with
    | some row, some _ => do
      let audio ← holdoutAudioPath host row
      match audio with
      | none => copyApproved host holdout predictions ids
      | some (path, suffix) =>
        let audioName := name (id ++ suffix)
        atomicCopy path host.publishedAudioDir audioName
        let names ← copyApproved host holdout predictions ids
        return audioName :: names
    | _, _ => copyApproved host holdout predictions ids

/-- `_remove_unapproved_audio` -/
def removeUnapprovedAudio (host : Host) (approved : List Name) : HostProg Unit := do
  let there ← perform (.isDir host.publishedAudioDir)
  if !there then return ()
  else
    let files ← perform (.iterdir host.publishedAudioDir)
    forEach files fun file ↦ do
      let regular ← perform (.isFile host.publishedAudioDir file.name)
      if !regular then return ()
      else
        let link ← perform (.isSymlink host.publishedAudioDir file.name)
        if link ∨ file.name ∈ approved then return ()
        else perform (.unlink host.publishedAudioDir file.name)

def maxPredictions : ℕ := 10

/-- `approved_publications`, of which the audio is kept. -/
def approvedPublications (host : Host) : HostProg Unit := do
  if host.approvedSampleIds = [] then removeUnapprovedAudio host []
  else
    let there ← perform (.isFileAt host.approvedPredictions.text)
    if !there then removeUnapprovedAudio host []
    else
      let holdout ← perform
        (.readJsonl (host.settings.preparedDir.child "holdout.jsonl".toList))
      let predictions ← perform (.readJsonl host.approvedPredictions)
      if !(holdout.all fun row ↦ hashable (Json.lookup row "utterance_id".toList)) ∨
          !(predictions.all fun row ↦ hashable (predictionKey row)) then
        raise "TypeError".toList
      else
        let names ← copyApproved host holdout predictions
          (host.approvedSampleIds.take maxPredictions)
        removeUnapprovedAudio host names

def publishOverview (host : Host) : HostProg Unit := do
  perform .survey
  approvedPublications host
  let _ ← perform .utcNow
  perform .survey
  atomicWriteJson host.publishedDir (name "overview.json".toList) .overview

/-! ## A job -/

def ClaimedRequest.kind (request : ClaimedRequest) : Text :=
  if request.live.isSome then "infer_live".toList else "train_smoke".toList

/-- `prior.get("created_at", request["created_at"])` -/
def createdAt (previous : Option Members) (request : ClaimedRequest) : Content :=
  (previous.bind fun prior ↦ Content.lookup prior "created_at".toList).getD
    (.str request.createdAt)

@[simp] theorem createdAt_none (request : ClaimedRequest) :
    createdAt none request = .str request.createdAt := rfl

/-- `build_status`, and `atomic_write_json` at `status_path`. -/
def writeStatus (host : Host) (request : ClaimedRequest) (previous : Option Members)
    (status stage : Text) (failureReason : Option Text) : HostProg JobStatus := do
  let _ ← perform .utcNow
  let s : JobStatus :=
    { jobId := request.jobId
      kind := request.kind
      status := status
      stage := boundedText stage 64
      failureReason := failureReason.map fun reason ↦ boundedText reason 500
      createdAt := createdAt previous request }
  atomicWriteJson host.jobsDir (name (request.jobId ++ ".json".toList)) (.status s)
  return s

/-- `heartbeat_preflight` and `update_running`.  The status before has the time of the request, so
that it makes no difference to this one. -/
def publishRunning (host : Host) (request : ClaimedRequest) (stage : Text) : HostProg Unit := do
  let _ ← writeStatus host request none "running".toList stage none
  publishOverview host

def preflightCommand : List Points :=
  (common ++ ["tune.preflight".toList, "--json".toList]).map points

/-- `isinstance(item, dict) and item.get("passed") is True` -/
def hasPassed : Json → Bool
  | .obj members =>
    match Json.lookup members "passed".toList with
    | some (.bool passed) => passed
    | _ => false
  | _ => false

/-- Every item of the preflight's report has passed. -/
def passing : Json → Bool
  | .arr items => items.all hasPassed
  | _ => false

/-- `preflight`, with `run_captured_heartbeat_subprocess`. -/
def preflight (host : Host) (request : ClaimedRequest) : HostProg Unit := do
  perform (.temporaryFile host.temporaryDirectory)
  let child ← perform (.launch preflightCommand)
  forEach child.polls fun due ↦
    if due then publishRunning host request "preflight".toList else pure ()
  if child.timedOut then raise "TimeoutExpired".toList
  else if child.returncode ≠ 0 then raise "RuntimeError".toList
  else
    match child.stdout with
    | none => raise "JSONDecodeError".toList
    | some payload => if passing payload then return () else raise "RuntimeError".toList

/-- `update_running` -/
def updateRunning (host : Host) (request : ClaimedRequest) (events : List Text) :
    HostProg Unit :=
  publishRunning host request (events.getLast?.getD "executing".toList)

/-- The loop of `run_streaming_subprocess`; `observed` is the number of events last seen. -/
def stream (host : Host) (request : ClaimedRequest) (eventPath : HostPath) :
    Option ℕ → List Bool → HostProg (Option ℕ)
  | observed, [] => pure observed
  | observed, due :: polls => do
    let events ← perform (.readEvents eventPath)
    if observed ≠ some events.length ∨ due then
      updateRunning host request events
      stream host request eventPath (some events.length) polls
    else stream host request eventPath observed polls

/-- `run_streaming_subprocess`: the return code. -/
def runStreaming (host : Host) (request : ClaimedRequest) (eventPath : HostPath)
    (argv : List Points) : HostProg ℤ := do
  let child ← perform (.launch argv)
  let observed ← stream host request eventPath none child.polls
  if child.timedOut then raise "TimeoutExpired".toList
  else
    let events ← perform (.readEvents eventPath)
    if observed ≠ some events.length then
      updateRunning host request events
      return child.returncode
    else return child.returncode

/-- The upload of a request is a file, and no link. -/
def uploadThere (host : Host) (request : ClaimedRequest) : HostProg Bool :=
  match request.live with
  | none => pure true
  | some (uploadName, _) => do
    let file ← perform (.isFile host.uploadsDir (name uploadName))
    if !file then return false
    else
      let link ← perform (.isSymlink host.uploadsDir (name uploadName))
      return !link

/-- The command has ended. -/
def conclude (host : Host) (request : ClaimedRequest) (jobRoot eventPath : HostPath)
    (returncode : ℤ) : HostProg JobStatus := do
  let _ ← perform (.readEvents eventPath)
  if returncode ≠ 0 then
    writeStatus host request none "failed".toList "failed".toList
      (some (request.kind ++ " command exited with code ".toList ++ (toString returncode).toList))
  else
    let there ← perform (.isFile jobRoot (name "result.json".toList))
    if !there then raise "RuntimeError".toList
    else
      let _ ← perform (.readJson jobRoot (name "result.json".toList))
      writeStatus host request none "completed".toList "completed".toList none

def execute (host : Host) (request : ClaimedRequest) : HostProg JobStatus := do
  let (jobRoot, eventPath, resultPath) := host.settings.commandPaths request.jobId
  perform (.makeNewDir host.settings.runRoot (name request.jobId))
  let _ ← writeStatus host request none "queued".toList "queued".toList none
  publishRunning host request "preflight".toList
  preflight host request
  let there ← uploadThere host request
  match buildCommandOf points host.settings (fun _ ↦ there) request.live eventPath resultPath
    jobRoot with
  | .error _ => raise "ValueError".toList
  | .ok (argv, _) =>
    let _ ← perform (.readEvents eventPath)
    let _ ← writeStatus host request none "running".toList "executing".toList none
    let returncode ← runStreaming host request eventPath argv
    conclude host request jobRoot eventPath returncode

/-! ## The queue -/

/-- The name of a request that is being processed. -/
def processingName (file : Name) : Name :=
  (if name ".json".toList <:+ file then file.take (file.length - 5) else file) ++
    name ".processing.json".toList

theorem allowed_append {a b : Name} (ha : ∀ s ∈ a, s ≠ .char '/' ∧ s ≠ .char (Char.ofNat 0))
    (hb : b.Allowed) (hlong : 2 < b.length) : (a ++ b).Allowed where
  nonempty := by simp [hb.nonempty]
  not_dot := fun h ↦ by
    have := congrArg List.length h
    simp [name] at this
    omega
  not_dots := fun h ↦ by
    have := congrArg List.length h
    simp [name] at this
    omega
  no_slash := fun h ↦ by
    rcases List.mem_append.mp h with h | h
    · exact (ha _ h).1 rfl
    · exact hb.no_slash h
  no_nul := fun h ↦ by
    rcases List.mem_append.mp h with h | h
    · exact (ha _ h).2 rfl
    · exact hb.no_nul h

theorem safe_of_allowed {a : Name} (h : a.Allowed) :
    ∀ s ∈ a, s ≠ .char '/' ∧ s ≠ .char (Char.ofNat 0) :=
  fun _ hs ↦ ⟨fun heq ↦ h.no_slash (heq ▸ hs), fun heq ↦ h.no_nul (heq ▸ hs)⟩

theorem processingName_allowed {file : Name} (h : file.Allowed) :
    (processingName file).Allowed := by
  refine allowed_append (fun s hs ↦ safe_of_allowed h s ?_) (by decide) (by decide)
  split at hs
  · exact List.mem_of_mem_take hs
  · exact hs

/-- The first of the candidates that is still there is renamed. -/
def claimFirst (host : Host) : List FileName → HostProg (Option FileName)
  | [] => pure none
  | file :: rest => do
    let renamed ←
      (perform (.replace host.requestsDir file.name (processingName file.name))).catching
    match renamed with
    | .ok _ => return some ⟨processingName file.name, processingName_allowed file.allowed⟩
    | .error e => if e = "FileNotFoundError".toList then claimFirst host rest else raise e

def claimNext (host : Host) : HostProg (Option FileName) := do
  let candidates ← perform .queued
  claimFirst host candidates

/-- The exception of a text that `validate_request` raises. -/
def invalidRequest (message : Text) : Raised :=
  if message = "unhashable type".toList then "TypeError".toList else "ValueError".toList

/-- `validate_request(read_json_object(processing), processing)` -/
def readRequest (host : Host) (file : FileName) : HostProg ClaimedRequest := do
  let payload ← perform (.readJson host.requestsDir file.name)
  match validateClaim host.python payload file.text with
  | .ok request => return request
  | .error message => raise (invalidRequest message)

/-- `str` of an integer -/
def integerText : ℤ → Text
  | .ofNat n => Nat.toDigits 10 n
  | .negSucc n => '-' :: Nat.toDigits 10 (n + 1)

/-- What stands for a request that could not be read. -/
def inferredRequest (file : FileName) : HostProg ClaimedRequest := do
  let inferredId := removeSuffix ".processing.json".toList file.text
  if jobIdPattern inferredId then
    let now ← perform .utcNow
    return ⟨inferredId, points now, some ([], [])⟩
  else
    let seconds ← perform .time
    let now ← perform .utcNow
    return ⟨"invalid-".toList ++ integerText seconds, points now, some ([], [])⟩

/-- The job has failed. -/
def failJob (host : Host) (request : ClaimedRequest) (exc : Raised) : HostProg JobStatus := do
  let file := name (request.jobId ++ ".json".toList)
  let there ← perform (.isFile host.jobsDir file)
  if there then
    let previous ← perform (.readJson host.jobsDir file)
    writeStatus host request (some previous) "failed".toList "failed".toList
      (some (exc ++ ": job could not be completed".toList))
  else
    writeStatus host request none "failed".toList "failed".toList
      (some (exc ++ ": job could not be completed".toList))

/-- What is done in any case: the request is deleted, and its upload. -/
def consume (host : Host) (file : FileName) (uploadName : Option Text) : HostProg Unit := do
  perform (.unlink host.requestsDir file.name)
  match uploadName with
  | none => return ()
  | some uploadName => perform (.unlink host.uploadsDir (name uploadName))

/-- The body of `process_claim`: the request is executed, if it could be read, and consumed. -/
def attend (host : Host) (file : FileName) : Except Raised ClaimedRequest → HostProg JobStatus
  | .ok request =>
    ((execute host request).tryCatch fun exc ↦ failJob host request exc).finallyDo
      (consume host file (request.live.map Prod.fst))
  | .error exc =>
    ((inferredRequest file) >>= fun request ↦ failJob host request exc).finallyDo
      (consume host file none)

def processClaim (host : Host) (file : FileName) : HostProg JobStatus := do
  let claimed ← (readRequest host file).catching
  let final ← attend host file claimed
  publishOverview host
  return final

end Neva.Supervisor
