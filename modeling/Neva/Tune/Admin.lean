import Neva.Rendering
import Neva.Words
import Neva.Raising
import Neva.Game.Languages
import Neva.Json.Stored

/-!
# Requests for the GPU

`start_smoke_training` and `start_live_inference` of `app/tune_admin/service.py`.  Each of them
looks at what the supervisor has published, and then leaves a request for it in a file, under the
name of a new job; live inference leaves the recording beside it.

What the methods read from elsewhere is handed to them: the overview, the new identifier, the
instant, and what became of writing the files (`Desk`).  A file that is left in place is read back
as a document of a `Json.Store`; a call that raises leaves none.

Of Unicode and of `datetime` only what is relied on is said (`Python`).
-/

set_option autoImplicit false

namespace Neva

/-! ## The runtime -/

/-- What is relied on of Python's character classes and of its instants. -/
structure Python where
  /-- `\w` -/
  isWord : Char → Bool
  /-- `\d` -/
  isDecimal : Char → Bool
  /-- `str.lower` -/
  lower : Text → Text
  /-- `datetime.fromisoformat`: the offset of what is read, unless it is naive. -/
  fromisoformat : Text → Option (Option ℤ)
  isWord_ascii : ∀ c : Char, c.toNat < 128 → isWord c = (c.isAlphanum || c == '_')
  isWord_blank : ∀ c, isSpace c = true → isWord c = false
  isDecimal_ascii : ∀ c : Char, c.toNat < 128 → isDecimal c = c.isDigit
  lower_ascii : ∀ s : Text, (∀ c ∈ s, c.toNat < 128) → lower s = s.map Char.toLower
  /-- An instant before the year 10000 that has been written is read again. -/
  fromisoformat_isoformat : ∀ t < 253402300800000000, fromisoformat (isoformat t) = some (some 0)

/-- `re.compile(r"^[\w .()'-]+$", re.UNICODE).fullmatch` -/
def Python.language (py : Python) (s : Text) : Bool :=
  s ≠ [] && s.all fun c ↦
    py.isWord c || c == ' ' || c == '.' || c == '(' || c == ')' || c == '\'' || c == '-'

/-- What a language the service lets through is made of. -/
theorem Python.mem_language (py : Python) {s : Text} (h : py.language s = true) {c : Char}
    (hc : c ∈ s) :
    py.isWord c = true ∨ c ∈ [' ', '.', '(', ')', '\'', '-'] := by
  rw [Python.language, Bool.and_eq_true, List.all_eq_true] at h
  have := h.2 c hc
  simp only [Bool.or_eq_true, beq_iff_eq] at this
  simp only [List.mem_cons, List.not_mem_nil, or_false]
  tauto

theorem Python.notMem_language (py : Python) {s : Text} (h : py.language s = true) {c : Char}
    (hascii : c.toNat < 128) (hword : (c.isAlphanum || c == '_') = false)
    (hc : c ∉ [' ', '.', '(', ')', '\'', '-']) : c ∉ s := by
  intro hmem
  rcases py.mem_language h hmem with hw | hw
  · rw [py.isWord_ascii c hascii, hword] at hw
    cases hw
  · exact hc hw

/-- Python on texts of ASCII characters. -/
def Python.ascii : Python where
  isWord c := decide (c.toNat < 128) && (c.isAlphanum || c == '_')
  isDecimal c := c.isDigit
  lower s := s.map Char.toLower
  fromisoformat s := if "+00:00".toList.isSuffixOf s then some (some 0) else none
  isWord_ascii c h := by simp [h]
  isWord_blank c h := by
    have hall : ∀ n < 128, isSpace (Char.ofNat n) = true →
        ((Char.ofNat n).isAlphanum || Char.ofNat n == '_') = false := by decide
    by_cases hlt : c.toNat < 128
    · have := hall c.toNat hlt
      rw [Char.ofNat_toNat] at this
      rw [this h, Bool.and_false]
    · simp [hlt]
  isDecimal_ascii _ _ := rfl
  lower_ascii _ _ := rfl
  fromisoformat_isoformat t _ := by
    rw [if_pos]
    rw [List.isSuffixOf_iff_suffix, isoformat]
    exact List.suffix_append ..

namespace TuneAdmin

/-! ## Configuration -/

/-- The limits of `TuneAdminConfig` on a request. -/
structure TuneAdminConfig where
  maxUploadBytes : ℕ := 2 * 1024 * 1024
  allowedAudioTypes : List Text := ["audio/flac".toList, "audio/x-flac".toList,
    "audio/wav".toList, "audio/x-wav".toList, "audio/webm".toList, "audio/ogg".toList,
    "audio/mp4".toList, "audio/mpeg".toList]
  audioTypeExtensions : List (Text × Text) := [
    ("audio/flac".toList, ".flac".toList), ("audio/x-flac".toList, ".flac".toList),
    ("audio/wav".toList, ".wav".toList), ("audio/x-wav".toList, ".wav".toList),
    ("audio/webm".toList, ".webm".toList), ("audio/ogg".toList, ".ogg".toList),
    ("audio/mp4".toList, ".m4a".toList), ("audio/mpeg".toList, ".mp3".toList)]
  defaultUploadExtension : Text := ".webm".toList
  maxLanguageChars : ℕ := 80

/-- `extension_for_content_type` -/
def TuneAdminConfig.extensionForContentType (config : TuneAdminConfig) (contentType : Text) :
    Text :=
  ((config.audioTypeExtensions.find? fun e ↦ e.1 == contentType).map Prod.snd).getD
    config.defaultUploadExtension

/-! ## What the service meets -/

/-- `TuneAdminServiceError` -/
structure TuneAdminServiceError where
  statusCode : ℕ
  detail : Text
  deriving DecidableEq, Repr

/-- `AdminTuneJobKind` -/
inductive AdminTuneJobKind
  | trainSmoke
  | inferLive
  deriving DecidableEq, Repr

def AdminTuneJobKind.value : AdminTuneJobKind → Text
  | .trainSmoke => "train_smoke".toList
  | .inferLive => "infer_live".toList

/-- What `overview` says of the supervisor, the corpus and the adapter. -/
structure Overview where
  supervisorHealthy : Bool
  corpusReady : Bool
  fullAdapterReady : Bool
  readinessReason : Option Text

/-- `TuneAdminBusyError`, `TuneAdminRepositoryError` -/
inductive QueueError
  | busy
  | repository
  deriving DecidableEq, Repr

/-- What a call is handed from outside. -/
structure Desk where
  overview : Except TuneAdminServiceError Overview
  newUuid : Uuid
  newUuid_lt : newUuid < 2 ^ 128
  now : Time
  now_lt : now < 253402300800000000
  /-- `stage_upload` has not raised. -/
  staged : Bool
  /-- What became of `enqueue`. -/
  enqueued : Except QueueError Unit

/-- What a call that returns has left behind. -/
structure Queued where
  jobId : Uuid
  kind : AdminTuneJobKind
  /-- The document in `requests/`. -/
  request : List (Text × Json)
  /-- The document in `jobs/`. -/
  job : List (Text × Json)
  /-- The file in `uploads/`. -/
  upload : Option (Text × Bytes)

/-! ## The service -/

/-- The error a storage failure is turned into. -/
def QueueError.serviceError : QueueError → TuneAdminServiceError
  | .busy => ⟨409, "A tune GPU job is already active".toList⟩
  | .repository => ⟨503, "Tune runtime storage is unavailable".toList⟩

/-- `job_payload` -/
def jobPayload (jobId : Uuid) (kind : AdminTuneJobKind) (createdAt : Text) : List (Text × Json) :=
  [("job_id".toList, .str (uuidText jobId)),
    ("kind".toList, .str kind.value),
    ("status".toList, .str "queued".toList),
    ("stage".toList, .str "queued".toList),
    ("progress".toList, .num ⟨"0.0".toList, by decide⟩),
    ("events".toList, .arr []),
    ("result".toList, .null),
    ("failure_reason".toList, .null),
    ("created_at".toList, .str createdAt),
    ("started_at".toList, .null),
    ("completed_at".toList, .null)]

/-- `_enqueue`.  The names of the extra fields are new ones. -/
def enqueue (desk : Desk) (kind : AdminTuneJobKind) (extraRequest : List (Text × Json))
    (upload : Option (Text × Bytes)) : Except TuneAdminServiceError Queued :=
  let createdAt := isoformat desk.now
  let requestPayload := [("job_id".toList, Json.str (uuidText desk.newUuid)),
    ("kind".toList, .str kind.value), ("created_at".toList, .str createdAt)] ++ extraRequest
  match desk.enqueued with
  | .error e => .error e.serviceError
  | .ok () => .ok
    ⟨desk.newUuid, kind, requestPayload, jobPayload desk.newUuid kind createdAt, upload⟩

/-- `start_smoke_training` -/
def startSmokeTraining (desk : Desk) : Except TuneAdminServiceError Queued := do
  let overview ← desk.overview
  if !overview.supervisorHealthy then .error ⟨503, "Local GPU supervisor is unavailable".toList⟩
  else if !overview.corpusReady then .error ⟨503, "Frozen tuning corpus is unavailable".toList⟩
  else enqueue desk .trainSmoke [] none

/-- `content_type.partition(";")[0].strip().lower()` -/
def normalizedType (py : Python) (contentType : Text) : Text :=
  py.lower (strip (contentType.takeWhile (· ≠ ';')))

/-- The checks of `start_live_inference` on what it was given: the type and the language. -/
def checkUpload (py : Python) (config : TuneAdminConfig) (audio : Bytes)
    (contentType nativeLanguage : Text) : Except TuneAdminServiceError (Text × Text) :=
  let type := normalizedType py contentType
  let language := oneLine isSpace ' ' nativeLanguage
  if type ∉ config.allowedAudioTypes then .error ⟨415, "Unsupported audio content type".toList⟩
  else if audio = [] then .error ⟨400, "Audio upload is empty".toList⟩
  else if config.maxUploadBytes < audio.length then
    .error ⟨413, "Audio upload exceeds configured limit".toList⟩
  else if language = [] ∨ config.maxLanguageChars < language.length ∨
      py.language language = false then
    .error ⟨422, "native_language is invalid".toList⟩
  else .ok (type, language)

/-- `start_live_inference` -/
def startLiveInference (py : Python) (config : TuneAdminConfig) (desk : Desk) (audio : Bytes)
    (contentType nativeLanguage : Text) : Except TuneAdminServiceError Queued := do
  let (type, language) ← checkUpload py config audio contentType nativeLanguage
  let overview ← desk.overview
  let uploadName := uuidText desk.newUuid ++ config.extensionForContentType type
  if !overview.supervisorHealthy then .error ⟨503, "Local GPU supervisor is unavailable".toList⟩
  else if !overview.fullAdapterReady then
    .error ⟨503, (overview.readinessReason.filter (· ≠ [])).getD
      "Tuned inference is unavailable".toList⟩
  else if !desk.staged then .error QueueError.repository.serviceError
  else
    enqueue desk .inferLive
      [("upload_name".toList, .str uploadName), ("native_language".toList, .str language)]
      (some (uploadName, audio))

/-! ## What a call has left behind -/

theorem enqueue_eq_ok {desk : Desk} {kind : AdminTuneJobKind} {extra : List (Text × Json)}
    {upload : Option (Text × Bytes)} {q : Queued} (h : enqueue desk kind extra upload = .ok q) :
    q.jobId = desk.newUuid ∧ q.upload = upload ∧
      q.request =
        [("job_id".toList, .str (uuidText desk.newUuid)), ("kind".toList, .str kind.value),
        ("created_at".toList, .str (isoformat desk.now))] ++ extra := by
  rw [enqueue] at h
  split at h
  · cases h
  · cases h
    exact ⟨rfl, rfl, rfl⟩

theorem startSmokeTraining_eq_ok {desk : Desk} {q : Queued} (h : startSmokeTraining desk = .ok q) :
    enqueue desk .trainSmoke [] none = .ok q := by
  obtain ⟨overview, -, h⟩ := Raising.bind_eq_ok.mp h
  rw [Raising.ite_error_eq_ok, Raising.ite_error_eq_ok] at h
  exact h.2.2

theorem checkUpload_eq_ok {py : Python} {config : TuneAdminConfig} {audio : Bytes}
    {contentType nativeLanguage type language : Text}
    (h : checkUpload py config audio contentType nativeLanguage = .ok (type, language)) :
    language = oneLine isSpace ' ' nativeLanguage ∧ language ≠ [] ∧
      language.length ≤ config.maxLanguageChars ∧ py.language language = true := by
  rw [checkUpload, Raising.ite_error_eq_ok, Raising.ite_error_eq_ok, Raising.ite_error_eq_ok,
    Raising.ite_error_eq_ok] at h
  obtain ⟨-, -, -, hlang, h⟩ := h
  cases h
  simp only [not_or, not_lt, Bool.not_eq_false] at hlang
  exact ⟨rfl, hlang⟩

theorem startLiveInference_eq_ok {py : Python} {config : TuneAdminConfig} {desk : Desk}
    {audio : Bytes} {contentType nativeLanguage : Text} {q : Queued}
    (h : startLiveInference py config desk audio contentType nativeLanguage = .ok q) :
    ∃ type language, checkUpload py config audio contentType nativeLanguage = .ok (type, language) ∧
      enqueue desk .inferLive
        [("upload_name".toList,
            .str (uuidText desk.newUuid ++ config.extensionForContentType type)),
          ("native_language".toList, .str language)]
        (some (uuidText desk.newUuid ++ config.extensionForContentType type, audio)) = .ok q := by
  obtain ⟨⟨type, language⟩, hcheck, h⟩ := Raising.bind_eq_ok.mp h
  obtain ⟨overview, -, h⟩ := Raising.bind_eq_ok.mp h
  dsimp only at h
  rw [Raising.ite_error_eq_ok, Raising.ite_error_eq_ok, Raising.ite_error_eq_ok] at h
  exact ⟨type, language, hcheck, h.2.2.2⟩

end TuneAdmin
end Neva
