import Neva.Argparse
import Neva.Tune.Admin

/-!
# The supervisor's side of a request

`validate_request` and `build_command` of `scripts/tune_demo_supervisor.py`: what the supervisor
makes of a document it finds in `requests/`, and the command line it starts.  The two programs it
starts read their command lines with the parsers of `tune/train.py` and `tune/compare.py`.

The supervisor does not take the language as it is.  It puts it on one line, blots out whatever
looks like an absolute path, and cuts the rest off after 80 characters.
-/

set_option autoImplicit false

namespace Neva.Supervisor

open Argparse

/-! ## Text -/

/-- A match of `ABSOLUTE_PATH_PATTERN` begins here, after `previous`.  It goes on to the next blank:
`(?<![A-Za-z0-9:])/(?:[^\s/]+/)*[^\s]+|[A-Za-z]:\\(?:[^\s\\]+\\)*[^\s]+`. -/
def pathBegins (previous : Option Char) : Text → Bool
  | '/' :: c :: _ => !isSpace c && !previous.any fun b ↦ b.isAlphanum || b == ':'
  | d :: ':' :: '\\' :: c :: _ => d.isAlpha && !isSpace c
  | _ => false

/-- `ABSOLUTE_PATH_PATTERN.sub("[redacted-path]", …)`, from a place that is in a match or not. -/
def redactPaths (previous : Option Char) (inMatch : Bool) : Text → Text
  | [] => []
  | c :: rest =>
    if inMatch && !isSpace c then redactPaths (some c) true rest
    else if pathBegins previous (c :: rest) then
      "[redacted-path]".toList ++ redactPaths (some c) true rest
    else c :: redactPaths (some c) false rest

/-- `bounded_text` -/
def boundedText (value : Text) (limit : ℕ) : Text :=
  (redactPaths none false (oneLine isSpace ' ' value)).take limit

def maxLanguageChars : ℕ := 80

/-- `JOB_ID_PATTERN.fullmatch` -/
def jobIdPattern : Text → Bool
  | [] => false
  | c :: rest => c.isAlphanum && rest.all (fun c ↦ c.isAlphanum || c == '_' || c == '-') &&
      rest.length ≤ 63

/-- `UPLOAD_NAME_PATTERN.fullmatch` -/
def uploadNamePattern : Text → Bool
  | [] => false
  | c :: rest => c.isAlphanum &&
      rest.all (fun c ↦ c.isAlphanum || c == '_' || c == '.' || c == '-') && rest.length ≤ 127

/-- `Path(name).suffix`, of a name without a slash. -/
def pathSuffix (name : Text) : Text :=
  let extension := name.rtakeWhile (· ≠ '.')
  match (name.rdropWhile (· ≠ '.')).dropLast with
  | [] => []
  | _ => if extension = [] then [] else '.' :: extension

/-- `ALLOWED_UPLOAD_SUFFIXES` -/
def allowedUploadSuffixes : List Text := [".flac".toList, ".wav".toList, ".webm".toList,
  ".ogg".toList, ".mp3".toList, ".m4a".toList]

/-- `s.removesuffix(suffix)` -/
def removeSuffix (suffix s : Text) : Text :=
  if suffix.isSuffixOf s then s.take (s.length - suffix.length) else s

/-- `s.replace("Z", "+00:00")` -/
def replaceZ (s : Text) : Text := s.flatMap fun c ↦ if c = 'Z' then "+00:00".toList else [c]

/-! ## Requests -/

/-- A request that has been validated; without an upload it is one for smoke training. -/
structure SupervisorRequest where
  jobId : Text
  createdAt : Text
  /-- `upload_name` and `native_language`. -/
  live : Option (Text × Text)
  deriving DecidableEq, Repr

/-- The dictionary `validate_request` answers. -/
def SupervisorRequest.fields (request : SupervisorRequest) : List (Text × Text) :=
  match request.live with
  | none => [("job_id".toList, request.jobId), ("kind".toList, "train_smoke".toList),
      ("created_at".toList, request.createdAt)]
  | some (uploadName, nativeLanguage) =>
    [("job_id".toList, request.jobId), ("kind".toList, "infer_live".toList),
      ("created_at".toList, request.createdAt), ("upload_name".toList, uploadName),
      ("native_language".toList, nativeLanguage)]

/-- `parse_created_at` -/
def parseCreatedAt (py : Python) : Option Json → Except Text Text
  | some (.str value) =>
    match py.fromisoformat (replaceZ value) with
    | none => .error "Invalid isoformat string".toList
    | some none => .error "created_at must include a timezone".toList
    | some (some _) => .ok value
  | _ => .error "created_at must be an ISO timestamp".toList

/-- The name of an upload, if it can be one. -/
def parseUploadName (py : Python) : Option Json → Except Text Text
  | some (.str name) =>
    if uploadNamePattern name && allowedUploadSuffixes.elem (py.lower (pathSuffix name)) then
      .ok name
    else .error "invalid upload_name".toList
  | _ => .error "invalid upload_name".toList

/-- The language, if anything is left of it. -/
def parseLanguage : Option Json → Except Text Text
  | some (.str language) =>
    if boundedText language maxLanguageChars = [] then
      .error "native_language must be non-empty".toList
    else .ok (boundedText language maxLanguageChars)
  | _ => .error "native_language must be non-empty".toList

/-- The job a request is for: a text that `JOB_ID_PATTERN` matches. -/
def parseJobId : Option Json → Except Text Text
  | some (.str jobId) =>
    if jobIdPattern jobId then .ok jobId else .error "invalid job_id".toList
  | _ => .error "invalid job_id".toList

/-- A supported kind: is it `infer_live`? -/
def parseKind : Option Json → Except Text Bool
  | some (.str kind) =>
    if kind = "infer_live".toList then .ok true
    else if kind = "train_smoke".toList then .ok false
    else .error "unsupported request kind".toList
  | some (.arr _) | some (.obj _) => .error "unhashable type".toList
  | _ => .error "unsupported request kind".toList

/-- `set(payload) != allowed` -/
def unsupportedFields (payload : List (Text × Json)) (allowed : List Text) : Bool :=
  !(payload.all (fun m ↦ allowed.elem m.1) && allowed.all fun name ↦ payload.any (·.1 == name))

/-- `validate_request`, of the file with the name `source`. -/
def validateRequest (py : Python) (payload : List (Text × Json)) (source : Text) :
    Except Text SupervisorRequest := do
  let jobId ← parseJobId (Json.lookup payload "job_id".toList)
  if removeSuffix ".json".toList (removeSuffix ".processing.json".toList source) ≠ jobId then
    throw "request filename must match job_id".toList
  let isLive ← parseKind (Json.lookup payload "kind".toList)
  let createdAt ← parseCreatedAt py (Json.lookup payload "created_at".toList)
  let common := ["job_id".toList, "kind".toList, "created_at".toList]
  if isLive then
    let uploadName ← parseUploadName py (Json.lookup payload "upload_name".toList)
    let language ← parseLanguage (Json.lookup payload "native_language".toList)
    if unsupportedFields payload (common ++ ["upload_name".toList, "native_language".toList]) then
      throw "request contains unsupported fields".toList
    return ⟨jobId, createdAt, some (uploadName, language)⟩
  else
    if unsupportedFields payload common then
      throw "request contains unsupported fields".toList
    return ⟨jobId, createdAt, none⟩

/-! ## Commands -/

/-- An absolute path of the host. -/
structure HostPath where
  text : Text
  absolute : text.head? = some '/'

/-- `path / name` -/
def HostPath.child (path : HostPath) (name : Text) : HostPath where
  text := (if path.text = ['/'] then ['/'] else path.text ++ ['/']) ++ name
  absolute := by
    have := path.absolute
    split
    · rfl
    · simp [this]

/-- The host paths and limits of `SupervisorSettings` that commands are made of. -/
structure SupervisorSettings where
  runtimeRoot : HostPath
  preparedDir : HostPath
  fullAdapter : HostPath
  artifactManifest : HostPath
  runRoot : HostPath
  trainTimeoutSeconds : ℕ
  inferTimeoutSeconds : ℕ

def SupervisorSettings.uploadsDir (settings : SupervisorSettings) : HostPath :=
  settings.runtimeRoot.child "uploads".toList

/-- `command_paths` -/
def SupervisorSettings.commandPaths (settings : SupervisorSettings) (jobId : Text) :
    HostPath × HostPath × HostPath :=
  let jobRoot := settings.runRoot.child jobId
  (jobRoot, jobRoot.child "events.jsonl".toList, jobRoot.child "result.json".toList)

/-- What a module is started with. -/
def common : List Text := ["uv".toList, "run".toList, "--project".toList, "tune".toList,
  "python".toList, "-m".toList]

/-- `build_command`, with the timeout.  `isUpload` says which paths are regular files, and `arg`
makes arguments of the texts that are fixed. -/
def buildCommandOf {α : Type} (arg : Text → α) (settings : SupervisorSettings)
    (isUpload : Text → Bool) (live : Option (Text × α)) (eventPath resultPath jobRoot : HostPath) :
    Except Text (List α × ℕ) :=
  let prepared := settings.preparedDir
  match live with
  | none => .ok
    ((common ++ ["tune.train".toList,
      "--train".toList, (prepared.child "train.jsonl".toList).text,
      "--dataset-manifest".toList, (prepared.child "dataset_manifest.json".toList).text,
      "--output".toList, (jobRoot.child "artifacts".toList).text,
      "--max-steps".toList, "1".toList,
      "--events".toList, eventPath.text,
      "--result".toList, resultPath.text]).map arg, settings.trainTimeoutSeconds)
  | some (uploadName, nativeLanguage) =>
    let upload := settings.uploadsDir.child uploadName
    if !isUpload upload.text then .error "temporary upload does not exist".toList
    else .ok
      ((common ++ ["tune.compare".toList,
        "--holdout".toList, (prepared.child "holdout.jsonl".toList).text,
        "--dataset-manifest".toList, (prepared.child "dataset_manifest.json".toList).text,
        "--adapter".toList, settings.fullAdapter.text,
        "--artifact-manifest".toList, settings.artifactManifest.text,
        "--samples".toList, "1".toList,
        "--live-audio".toList, upload.text,
        "--native-language".toList]).map arg ++ nativeLanguage ::
        ["--events".toList, eventPath.text,
        "--result".toList, resultPath.text].map arg, settings.inferTimeoutSeconds)

/-- `build_command`, for a request whose language is a plain text. -/
def buildCommand (settings : SupervisorSettings) (isUpload : Text → Bool)
    (request : SupervisorRequest) (eventPath resultPath jobRoot : HostPath) :
    Except Text (List Text × ℕ) :=
  buildCommandOf id settings isUpload request.live eventPath resultPath jobRoot

/-! ## Parsers -/

/-- The texts `int` converts: digits in groups between underscores. -/
def isInteger (py : Python) (s : Text) : Bool :=
  let digits := match strip s with
    | '+' :: s | '-' :: s => s
    | s => s
  (digits.splitOn '_').all fun group ↦ group ≠ [] && group.all py.isDecimal

/-- `build_parser` of `tune/train.py` -/
def trainParser (py : Python) : Parser where
  arguments := [
    { name := "--train".toList, required := true },
    { name := "--output".toList },
    { name := "--dataset-manifest".toList },
    { name := "--max-steps".toList, accepts := isInteger py },
    { name := "--resume-from-checkpoint".toList },
    { name := "--events".toList },
    { name := "--result".toList },
    { name := "--dry-run".toList, action := .storeTrue }]
  isDecimal := py.isDecimal

/-- `build_parser` of `tune/compare.py` -/
def compareParser (py : Python) : Parser where
  arguments := [
    { name := "--holdout".toList, required := true },
    { name := "--adapter".toList },
    { name := "--dataset-manifest".toList },
    { name := "--artifact-manifest".toList },
    { name := "--samples".toList, accepts := isInteger py },
    { name := "--predictions".toList },
    { name := "--live-audio".toList },
    { name := "--native-language".toList },
    { name := "--events".toList },
    { name := "--result".toList },
    { name := "--dry-run".toList, action := .storeTrue }]
  isDecimal := py.isDecimal

end Neva.Supervisor
