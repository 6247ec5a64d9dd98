import Neva.Game.Version
import Neva.Tune.Processing

/-!
# Where the supervisor's hands are

Whatever a queued request contains, and whatever the host answers, the supervisor writes and
deletes only files with plain names in its own directories, and besides the preflight it starts
only the two commands, with nothing free in them but the language.  `kept_claimNext` and
`kept_processClaim` say so of every call of `claim_next` and of `process_claim`.

One file is not in these directories: the preflight's output goes to a temporary file without a
name, which `tempfile` puts where temporary files go (`preflight_output_elsewhere`).
-/

set_option autoImplicit false

namespace Neva.Supervisor

open Calls Calls.Prog
open Ops (Sym Name name)

/-! ## What is confined to what -/

/-- The directories of the supervisor. -/
def Host.directories (host : Host) : List HostPath :=
  [host.requestsDir, host.jobsDir, host.uploadsDir, host.publishedDir, host.publishedAudioDir,
    host.settings.runRoot]

/-- The file lies in one of the supervisor's directories. -/
def Host.Owns (host : Host) (dir : HostPath) (file : Name) : Prop :=
  dir ∈ host.directories ∧ file.Allowed

/-- The call was made, with this answer. -/
def Called {β : Type} (h : List (Past HostOp Raised)) (op : HostOp β) (answer : Except Raised β) :
    Prop :=
  (⟨op, answer⟩ : Past HostOp Raised) ∈ h

/-- The command for smoke training. -/
def trainTemplate (host : Host) (jobId : Text) : List Points :=
  let jobRoot := host.settings.runRoot.child jobId
  ["uv".toList, "run".toList, "--project".toList, "tune".toList, "python".toList, "-m".toList,
    "tune.train".toList,
    "--train".toList, (host.settings.preparedDir.child "train.jsonl".toList).text,
    "--dataset-manifest".toList,
      (host.settings.preparedDir.child "dataset_manifest.json".toList).text,
    "--output".toList, (jobRoot.child "artifacts".toList).text,
    "--max-steps".toList, "1".toList,
    "--events".toList, (jobRoot.child "events.jsonl".toList).text,
    "--result".toList, (jobRoot.child "result.json".toList).text].map points

/-- The command for live inference. -/
def compareTemplate (host : Host) (jobId uploadName : Text) (language : Points) : List Points :=
  let jobRoot := host.settings.runRoot.child jobId
  ["uv".toList, "run".toList, "--project".toList, "tune".toList, "python".toList, "-m".toList,
    "tune.compare".toList,
    "--holdout".toList, (host.settings.preparedDir.child "holdout.jsonl".toList).text,
    "--dataset-manifest".toList,
      (host.settings.preparedDir.child "dataset_manifest.json".toList).text,
    "--adapter".toList, host.settings.fullAdapter.text,
    "--artifact-manifest".toList, host.settings.artifactManifest.text,
    "--samples".toList, "1".toList,
    "--live-audio".toList, (host.uploadsDir.child uploadName).text,
    "--native-language".toList].map points ++ language ::
    ["--events".toList, (jobRoot.child "events.jsonl".toList).text,
    "--result".toList, (jobRoot.child "result.json".toList).text].map points

/-- One of the two commands, for a job directly under the run directory, and an upload that was
found to be a file directly under the upload directory. -/
def Templated (host : Host) (h : List (Past HostOp Raised)) (argv : List Points) : Prop :=
  ∃ jobId, jobIdPattern jobId = true ∧ (name jobId).Allowed ∧
    (argv = trainTemplate host jobId ∨
      ∃ uploadName language, uploadNamePattern uploadName = true ∧ (name uploadName).Allowed ∧
        argv = compareTemplate host jobId uploadName language ∧
        Called h (.isFile host.uploadsDir (name uploadName)) (.ok true) ∧
        Called h (.isSymlink host.uploadsDir (name uploadName)) (.ok false))

/-- The files that a call creates, replaces or deletes are the supervisor's, and the commands are
the fixed ones.  `unnamed` says where files without a name may be. -/
def Confined (host : Host) (unnamed : HostPath → Prop) (h : List (Past HostOp Raised)) {β : Type} :
    HostOp β → Prop
  | .makeDirs dir => dir ∈ host.directories
  | .makeNewDir dir file => host.Owns dir file
  | .createTemporary dir begin =>
    ∀ random : TemporarySuffix, host.Owns dir (begin ++ name random.text)
  | .fill dir file _ => host.Owns dir file
  | .replace dir source target => host.Owns dir source ∧ host.Owns dir target
  | .unlink dir file => host.Owns dir file
  | .temporaryFile dir => unnamed dir
  | .launch argv => argv = preflightCommand ∨ Templated host h argv
  | _ => True

/-- One of the two commands was started. -/
def Launched (host : Host) (h : List (Past HostOp Raised)) : Prop :=
  ∃ argv child, Templated host h argv ∧ Called h (.launch argv) (.ok child)

/-! ## Names -/

theorem safe_of_isAlphanum {c : Char} (h : c.isAlphanum = true) :
    c ≠ '/' ∧ c ≠ Char.ofNat 0 :=
  ⟨fun heq ↦ absurd h (by rw [heq]; decide), fun heq ↦ absurd h (by rw [heq]; decide)⟩

/-- Nothing in the text separates components or ends a string. -/
def SafeText (text : Text) : Prop := ∀ c ∈ text, c ≠ '/' ∧ c ≠ Char.ofNat 0

theorem safe_name {text : Text} (h : SafeText text) :
    ∀ s ∈ name text, s ≠ .char '/' ∧ s ≠ .char (Char.ofNat 0) := by
  intro s hs
  obtain ⟨c, hc, rfl⟩ := List.mem_map.mp hs
  exact ⟨fun heq ↦ (h c hc).1 (Sym.char.inj heq), fun heq ↦ (h c hc).2 (Sym.char.inj heq)⟩

theorem safeText_append {a b : Text} (ha : SafeText a) (hb : SafeText b) : SafeText (a ++ b) := by
  intro c hc
  rcases List.mem_append.mp hc with hc | hc
  · exact ha c hc
  · exact hb c hc

theorem safeText_of_jobIdPattern {text : Text} (h : jobIdPattern text = true) : SafeText text := by
  cases text with
  | nil => cases h
  | cons c rest =>
    simp only [jobIdPattern, Bool.and_eq_true, List.all_eq_true, Bool.or_eq_true, beq_iff_eq] at h
    intro c' hc'
    rcases List.mem_cons.mp hc' with rfl | hc'
    · exact safe_of_isAlphanum h.1.1
    · rcases h.1.2 c' hc' with (hc' | rfl) | rfl
      · exact safe_of_isAlphanum hc'
      · decide
      · decide

theorem safeText_of_uploadNamePattern {text : Text} (h : uploadNamePattern text = true) :
    SafeText text := by
  cases text with
  | nil => cases h
  | cons c rest =>
    simp only [uploadNamePattern, Bool.and_eq_true, List.all_eq_true, Bool.or_eq_true,
      beq_iff_eq] at h
    intro c' hc'
    rcases List.mem_cons.mp hc' with rfl | hc'
    · exact safe_of_isAlphanum h.1.1
    · rcases h.1.2 c' hc' with ((hc' | rfl) | rfl) | rfl
      · exact safe_of_isAlphanum hc'
      · decide
      · decide
      · decide

/-- A safe text that does not begin with a dot is a name. -/
theorem allowed_of_safe {c : Char} {rest : Text} (hc : c ≠ '.') (h : SafeText (c :: rest)) :
    (name (c :: rest)).Allowed where
  nonempty := by simp [name]
  not_dot := fun heq ↦ hc (List.cons.inj (Ops.name_injective heq)).1
  not_dots := fun heq ↦ hc (List.cons.inj (Ops.name_injective heq)).1
  no_slash := fun hs ↦ (safe_name h _ hs).1 rfl
  no_nul := fun hs ↦ (safe_name h _ hs).2 rfl

theorem safeText_integerText (n : ℤ) : SafeText (integerText n) := by
  have hdigits (m : ℕ) : SafeText (Nat.toDigits 10 m) := by
    intro c hc
    exact ⟨fun heq ↦ absurd (heq ▸ hc) (notMem_toDigits (by decide) m),
      fun heq ↦ absurd (heq ▸ hc) (notMem_toDigits (by decide) m)⟩
  cases n with
  | ofNat m => exact hdigits m
  | negSucc m =>
    intro c hc
    rcases List.mem_cons.mp hc with rfl | hc
    · decide
    · exact hdigits (m + 1) c hc

/-- The name of a status document. -/
theorem allowed_statusName {jobId : Text} (h : SafeText jobId) :
    (name (jobId ++ ".json".toList)).Allowed := by
  rw [name, List.map_append]
  exact allowed_append (safe_name h) (by decide) (by decide)

/-- The name of a temporary file beside a file. -/
theorem allowed_temporary {file : Name} (h : file.Allowed) (random : TemporarySuffix) :
    (name ".".toList ++ file ++ name ".".toList ++ name random.text).Allowed := by
  have hsafe : SafeText random.text := by
    intro c hc
    have := List.all_eq_true.mp random.safe.2 c hc
    rw [Bool.or_eq_true, beq_iff_eq] at this
    rcases this with hc | rfl
    · exact safe_of_isAlphanum hc
    · decide
  obtain ⟨c, rest, heq⟩ := List.exists_cons_of_length_pos (l := random.text)
    (by rw [random.safe.1]; decide)
  refine allowed_append (fun s hs ↦ ?_) ?_ (by simp [name, random.safe.1])
  · rcases List.mem_append.mp hs with hs | hs
    · rcases List.mem_append.mp hs with hs | hs
      · rw [show name ".".toList = [.char '.'] by rfl, List.mem_singleton] at hs
        exact hs ▸ by decide
      · exact safe_of_allowed h s hs
    · rw [show name ".".toList = [.char '.'] by rfl, List.mem_singleton] at hs
      exact hs ▸ by decide
  · have hdot : c ≠ '.' := by
      have := List.all_eq_true.mp random.safe.2 c (by simp [heq])
      rintro rfl
      cases this
    rw [heq] at hsafe ⊢
    exact allowed_of_safe hdot hsafe

/-! ## Parts that know nothing of the job -/

section

variable {host : Host} {h : List (Past HostOp Raised)}

variable (host) in
/-- Whatever is answered, the calls are confined. -/
def Kept {α : Type} (h : List (Past HostOp Raised)) (p : HostProg α) : Prop :=
  p.Always (Confined host (· = host.temporaryDirectory)) (fun _ _ ↦ True) h

theorem Kept.bind {α β : Type} {p : HostProg α} {f : α → HostProg β} (hp : Kept host h p)
    (hf : ∀ h' a, h <:+ h' → Kept host h' (f a)) : Kept host h (p >>= f) :=
  Always.bind hp (fun h' a hh' _ ↦ hf h' a hh') fun _ _ _ _ ↦ trivial

theorem kept_perform {β : Type} {op : HostOp β}
    (hop : Confined host (· = host.temporaryDirectory) h op) : Kept host h (perform op) :=
  always_perform hop fun _ ↦ trivial

/-- A call, and what follows it. -/
theorem Kept.call {α β : Type} {op : HostOp β} {f : β → HostProg α}
    (hop : Confined host (· = host.temporaryDirectory) h op)
    (hf : ∀ h' a, h <:+ h' → Kept host h' (f a)) : Kept host h (perform op >>= f) :=
  (kept_perform hop).bind hf

theorem kept_forEach {β : Type} {xs : List β} {f : β → HostProg Unit}
    (hf : ∀ x ∈ xs, ∀ h', Kept host h' (f x)) : Kept host h (forEach xs f) := by
  induction xs generalizing h with
  | nil => trivial
  | cons x xs ih =>
    exact (hf x List.mem_cons_self h).bind fun h' _ _ ↦
      ih fun y hy ↦ hf y (List.mem_cons_of_mem _ hy)

theorem kept_atomicPlace {dir : HostPath} {file : Name} (hown : host.Owns dir file)
    (document : Document) : Kept host h (atomicPlace dir file document) := by
  refine .call hown.1 fun _ _ _ ↦ ?_
  refine .call (fun random ↦ ⟨hown.1, allowed_temporary hown.2 random⟩) fun _ random _ ↦ ?_
  have htemporary := allowed_temporary hown.2 random
  split
  · refine .call ⟨hown.1, htemporary⟩ fun _ _ _ ↦ ?_
    exact kept_perform ⟨⟨hown.1, htemporary⟩, hown⟩
  · trivial

theorem owns_publishedAudio {file : Name} (hfile : file.Allowed) :
    host.Owns host.publishedAudioDir file :=
  ⟨by simp [Host.directories], hfile⟩

theorem kept_removeUnapprovedAudio (approved : List Name) :
    Kept host h (removeUnapprovedAudio host approved) := by
  refine .call trivial fun _ there _ ↦ ?_
  split
  · trivial
  · refine .call trivial fun _ files _ ↦ kept_forEach fun file _ _ ↦ ?_
    refine .call trivial fun _ regular _ ↦ ?_
    split
    · trivial
    · refine .call trivial fun _ link _ ↦ ?_
      split
      · trivial
      · exact kept_perform (owns_publishedAudio file.allowed)

/-- The suffix of an audio file is one of those that are allowed. -/
theorem holdoutAudioPath_suffix (row : List (Text × Json)) :
    (holdoutAudioPath host row).Always (Confined host (· = host.temporaryDirectory))
      (fun _ r ↦ ∀ path suffix, r = .ok (some (path, suffix)) → suffix ∈ allowedUploadSuffixes)
      h := by
  have hnone {h' : List (Past HostOp Raised)} :
      (pure none : HostProg (Option (Text × Text))).Always
        (Confined host (· = host.temporaryDirectory))
        (fun _ r ↦ ∀ path suffix, r = .ok (some (path, suffix)) →
          suffix ∈ allowedUploadSuffixes) h' := by
    intro path suffix heq
    cases heq
  rw [holdoutAudioPath]
  split
  · dsimp only
    split
    · exact hnone
    · refine (always_perform (Q := fun _ _ ↦ True) trivial fun _ ↦ trivial).bind
        (fun _ file _ _ ↦ ?_) fun _ _ _ _ _ _ heq ↦ by cases heq
      split
      · exact hnone
      · refine (always_perform (Q := fun _ _ ↦ True) trivial fun _ ↦ trivial).bind
          (fun _ link _ _ ↦ ?_) fun _ _ _ _ _ _ heq ↦ by cases heq
        split
        · exact hnone
        · rename_i hallowed
          intro path suffix heq
          cases heq
          exact not_not.mp (not_or.mp hallowed).2
  · exact hnone

theorem safeText_of_sampleIdPattern {text : Text} (h : sampleIdPattern text = true) :
    SafeText text := by
  cases text with
  | nil => cases h
  | cons c rest =>
    simp only [sampleIdPattern, Bool.and_eq_true, List.all_eq_true, Bool.or_eq_true,
      beq_iff_eq] at h
    intro c' hc'
    rcases List.mem_cons.mp hc' with rfl | hc'
    · exact safe_of_isAlphanum h.1.1
    · rcases h.1.2 c' hc' with (hc' | rfl) | rfl
      · exact safe_of_isAlphanum hc'
      · decide
      · decide

/-- The name under which a sample is published. -/
theorem allowed_audioName {id suffix : Text} (hid : sampleIdPattern id = true)
    (hsuffix : suffix ∈ allowedUploadSuffixes) : (name (id ++ suffix)).Allowed := by
  have hlast : (name suffix).Allowed ∧ 2 < (name suffix).length := by
    revert suffix
    decide
  rw [name, List.map_append]
  exact allowed_append (safe_name (safeText_of_sampleIdPattern hid)) hlast.1 hlast.2

theorem kept_copyApproved (holdout predictions : List (List (Text × Json))) {ids : List Text}
    (hids : ∀ id ∈ ids, sampleIdPattern id = true) :
    Kept host h (copyApproved host holdout predictions ids) := by
  induction ids generalizing h with
  | nil => trivial
  | cons id ids ih =>
    have hrest (h' : List (Past HostOp Raised)) :
        Kept host h' (copyApproved host holdout predictions ids) :=
      ih fun id' hid' ↦ hids id' (List.mem_cons_of_mem _ hid')
    rw [copyApproved]
    split
    · rename_i row _ _ _
      refine (holdoutAudioPath_suffix row).bind (fun h' audio _ haudio ↦ ?_) fun _ _ _ _ ↦ trivial
      cases audio with
      | none => exact hrest h'
      | some found =>
        obtain ⟨path, suffix⟩ := found
        have hallowed := allowed_audioName (hids id List.mem_cons_self) (haudio path suffix rfl)
        refine (kept_atomicPlace (owns_publishedAudio hallowed) _).bind fun h'' _ _ ↦ ?_
        exact (hrest h'').bind fun _ _ _ ↦ trivial
    · exact hrest h

theorem kept_approvedPublications : Kept host h (approvedPublications host) := by
  rw [approvedPublications]
  split
  · exact kept_removeUnapprovedAudio []
  · refine .call trivial fun _ there _ ↦ ?_
    split
    · exact kept_removeUnapprovedAudio []
    · refine .call trivial fun _ holdout _ ↦ .call trivial fun _ predictions _ ↦ ?_
      split
      · trivial
      · refine (kept_copyApproved holdout predictions fun id hid ↦ ?_).bind fun _ names _ ↦
          kept_removeUnapprovedAudio names
        exact host.approved_valid id (List.mem_of_mem_take hid)

theorem kept_publishOverview : Kept host h (publishOverview host) := by
  refine .call trivial fun _ _ _ ↦ kept_approvedPublications.bind fun _ _ _ ↦ ?_
  refine .call trivial fun _ _ _ ↦ .call trivial fun _ _ _ ↦ kept_atomicPlace ?_ _
  exact ⟨by simp [Host.directories], by decide⟩

/-- A status document is written under the job's name. -/
theorem kept_writeStatus {request : ClaimedRequest} (hjob : SafeText request.jobId)
    (previous : Option Members) (status stage : Text) (failureReason : Option Text) :
    Kept host h (writeStatus host request previous status stage failureReason) := by
  refine .call trivial fun _ _ _ ↦ (kept_atomicPlace ?_ _).bind fun _ _ _ ↦ trivial
  exact ⟨by simp [Host.directories], allowed_statusName hjob⟩

theorem kept_publishRunning {request : ClaimedRequest} (hjob : SafeText request.jobId)
    (stage : Text) : Kept host h (publishRunning host request stage) :=
  (kept_writeStatus hjob _ _ _ _).bind fun _ _ _ ↦ kept_publishOverview

theorem kept_preflight {request : ClaimedRequest} (hjob : SafeText request.jobId) :
    Kept host h (preflight host request) := by
  refine .call rfl fun _ _ _ ↦ .call (.inl rfl) fun _ child _ ↦ ?_
  refine (kept_forEach fun due _ _ ↦ ?_).bind fun _ _ _ ↦ ?_
  · split
    · exact kept_publishRunning hjob _
    · trivial
  · split
    · trivial
    · split
      · trivial
      · split
        · trivial
        · split <;> trivial

theorem kept_stream {request : ClaimedRequest} (hjob : SafeText request.jobId)
    (eventPath : HostPath) (observed : Option ℕ) (polls : List Bool) :
    Kept host h (stream host request eventPath observed polls) := by
  induction polls generalizing h observed with
  | nil => trivial
  | cons due polls ih =>
    refine .call trivial fun _ events _ ↦ ?_
    split
    · exact (kept_publishRunning hjob _).bind fun _ _ _ ↦ ih _
    · exact ih _

/-! ## Commands -/

theorem Called.mono {β : Type} {h' : List (Past HostOp Raised)} {op : HostOp β}
    {answer : Except Raised β} (hc : Called h op answer) (hh' : h <:+ h') : Called h' op answer :=
  hh'.subset hc

theorem Templated.mono {h' : List (Past HostOp Raised)} {argv : List Points}
    (ht : Templated host h argv) (hh' : h <:+ h') : Templated host h' argv := by
  obtain ⟨jobId, hjob, hname, hargv⟩ := ht
  refine ⟨jobId, hjob, hname, hargv.imp_right ?_⟩
  rintro ⟨uploadName, language, hpattern, hupload, heq, hfile, hlink⟩
  exact ⟨uploadName, language, hpattern, hupload, heq, hfile.mono hh', hlink.mono hh'⟩

/-- What `validate_request` lets through. -/
structure Valid (request : ClaimedRequest) : Prop where
  job : jobIdPattern request.jobId = true
  upload : ∀ uploadName language, request.live = some (uploadName, language) →
    uploadNamePattern uploadName = true

theorem Valid.safe {request : ClaimedRequest} (hv : Valid request) : SafeText request.jobId :=
  safeText_of_jobIdPattern hv.job

theorem allowed_of_jobIdPattern {text : Text} (hp : jobIdPattern text = true) :
    (name text).Allowed := by
  have hsafe := safeText_of_jobIdPattern hp
  cases text with
  | nil => cases hp
  | cons c rest =>
    refine allowed_of_safe ?_ hsafe
    rintro rfl
    simp [jobIdPattern] at hp

theorem allowed_of_uploadNamePattern {text : Text} (hp : uploadNamePattern text = true) :
    (name text).Allowed := by
  have hsafe := safeText_of_uploadNamePattern hp
  cases text with
  | nil => cases hp
  | cons c rest =>
    refine allowed_of_safe ?_ hsafe
    rintro rfl
    simp [uploadNamePattern] at hp

/-- An upload that is there was found to be a file and no link. -/
theorem uploadThere_called (request : ClaimedRequest) :
    (uploadThere host request).Always (Confined host (· = host.temporaryDirectory))
      (fun h' r ↦ r = .ok true → ∀ uploadName language,
        request.live = some (uploadName, language) →
          Called h' (.isFile host.uploadsDir (name uploadName)) (.ok true) ∧
            Called h' (.isSymlink host.uploadsDir (name uploadName)) (.ok false)) h := by
  rw [uploadThere]
  split
  · rename_i hlive
    intro _ uploadName language heq
    rw [hlive] at heq
    cases heq
  · rename_i name₀ _ hlive
    refine (always_perform (Q := fun h' r ↦ ∀ b, r = .ok b →
        Called h' (.isFile host.uploadsDir (name name₀)) (.ok b)) trivial ?_).bind
      (fun h' file hh' hfile ↦ ?_) fun _ _ _ _ heq ↦ by cases heq
    · rintro r b rfl
      exact List.mem_cons_self
    · split
      · intro heq
        cases heq
      · rename_i hthere
        have hcalled : Called h' (.isFile host.uploadsDir (name name₀)) (.ok true) := by
          have htrue : file = true := by simpa using hthere
          exact htrue ▸ hfile file rfl
        refine (always_perform (Q := fun h' r ↦ ∀ b, r = .ok b →
            Called h' (.isSymlink host.uploadsDir (name name₀)) (.ok b)) trivial ?_).bind
          (fun h'' link hh'' hlink ↦ ?_) fun _ _ _ _ heq ↦ by cases heq
        · rintro r b rfl
          exact List.mem_cons_self
        · intro heq uploadName language hrequest
          rw [hlive] at hrequest
          cases hrequest
          have hfalse : link = false := by simpa using Except.ok.inj heq
          exact ⟨hcalled.mono hh'', hfalse ▸ hlink link rfl⟩

/-- What `build_command` builds is one of the two commands. -/
theorem buildCommand_templated {request : ClaimedRequest} (hv : Valid request) {there : Bool}
    (hthere : there = true → ∀ uploadName language,
      request.live = some (uploadName, language) →
        Called h (.isFile host.uploadsDir (name uploadName)) (.ok true) ∧
          Called h (.isSymlink host.uploadsDir (name uploadName)) (.ok false))
    {argv : List Points} {timeout : ℕ}
    (hbuild : buildCommandOf points host.settings (fun _ ↦ there) request.live
      (host.settings.commandPaths request.jobId).2.1 (host.settings.commandPaths request.jobId).2.2
      (host.settings.commandPaths request.jobId).1 = .ok (argv, timeout)) :
    Templated host h argv := by
  refine ⟨request.jobId, hv.job, allowed_of_jobIdPattern hv.job, ?_⟩
  rw [buildCommandOf.eq_def] at hbuild
  dsimp only at hbuild
  split at hbuild
  · left
    exact (Prod.mk.inj (Except.ok.inj hbuild)).1.symm
  · rename_i uploadName language hlive
    split at hbuild
    · cases hbuild
    · rename_i hfound
      obtain ⟨hfile, hlink⟩ := hthere (by simpa using hfound) uploadName language hlive
      have hupload := hv.upload uploadName language hlive
      right
      exact ⟨uploadName, language, hupload, allowed_of_uploadNamePattern hupload,
        (Prod.mk.inj (Except.ok.inj hbuild)).1.symm, hfile, hlink⟩

/-- A command that came to its end was started. -/
theorem runStreaming_called {request : ClaimedRequest} (hjob : SafeText request.jobId)
    (eventPath : HostPath) {argv : List Points} (hargv : Templated host h argv) :
    (runStreaming host request eventPath argv).Always (Confined host (· = host.temporaryDirectory))
      (fun h' r ↦ ∀ code, r = .ok code → ∃ child, Called h' (.launch argv) (.ok child)) h := by
  refine (always_perform (Q := fun h' r ↦ ∀ child, r = .ok child →
      Called h' (.launch argv) (.ok child)) (.inr hargv) ?_).bind (fun h' child _ hcalled ↦ ?_)
    fun _ _ _ _ _ heq ↦ by cases heq
  · rintro r child rfl
    exact List.mem_cons_self
  · have hstarted := hcalled child rfl
    refine Always.bind (kept_stream hjob eventPath none child.polls) (fun h'' observed hh'' _ ↦ ?_)
      fun _ _ _ _ _ heq ↦ by cases heq
    split
    · intro _ heq
      cases heq
    · refine (always_perform (Q := fun _ _ ↦ True) trivial fun _ ↦ trivial).bind
        (fun h₃ events hh₃ _ ↦ ?_) fun _ _ _ _ _ heq ↦ by cases heq
      split
      · refine Always.bind (kept_publishRunning hjob _) (fun h₄ _ hh₄ _ _ _ ↦ ?_)
          fun _ _ _ _ _ heq ↦ by cases heq
        exact ⟨child, ((hstarted.mono hh'').mono hh₃).mono hh₄⟩
      · exact fun _ _ ↦ ⟨child, (hstarted.mono hh'').mono hh₃⟩

theorem kept_conclude {request : ClaimedRequest} (hjob : SafeText request.jobId)
    (jobRoot eventPath : HostPath) (returncode : ℤ) :
    Kept host h (conclude host request jobRoot eventPath returncode) := by
  refine .call trivial fun _ _ _ ↦ ?_
  split
  · exact kept_writeStatus hjob _ _ _ _
  · refine .call trivial fun _ there _ ↦ ?_
    split
    · trivial
    · exact .call trivial fun _ _ _ ↦ kept_writeStatus hjob _ _ _ _

theorem Launched.mono {h' : List (Past HostOp Raised)} (hl : Launched host h) (hh' : h <:+ h') :
    Launched host h' := by
  obtain ⟨argv, child, hargv, hcalled⟩ := hl
  exact ⟨argv, child, hargv.mono hh', hcalled.mono hh'⟩

/-- A job that was executed was executed by one of the two commands. -/
theorem execute_launched {request : ClaimedRequest} (hv : Valid request) :
    (execute host request).Always (Confined host (· = host.temporaryDirectory))
      (fun h' r ↦ ∀ s, r = .ok s → Launched host h') h := by
  have hraised {h' : List (Past HostOp Raised)} (e : Raised) :
      ∀ s : JobStatus, Except.error e = .ok s → Launched host h' := fun _ heq ↦ by cases heq
  refine Always.bind (I := fun _ _ ↦ True) (always_perform ?_ fun _ ↦ trivial)
    (fun h₁ _ _ _ ↦ ?_) fun _ e _ _ ↦ hraised e
  · exact ⟨by simp [Host.directories], allowed_of_jobIdPattern hv.job⟩
  refine Always.bind (kept_writeStatus hv.safe _ _ _ _) (fun h₂ _ _ _ ↦ ?_) fun _ e _ _ ↦ hraised e
  refine Always.bind (kept_publishRunning hv.safe _) (fun h₃ _ _ _ ↦ ?_) fun _ e _ _ ↦ hraised e
  refine Always.bind (kept_preflight hv.safe) (fun h₄ _ _ _ ↦ ?_) fun _ e _ _ ↦ hraised e
  refine Always.bind (uploadThere_called request) (fun h₅ there _ hthere ↦ ?_)
    fun _ e _ _ ↦ hraised e
  split
  · exact hraised _
  · rename_i argv timeout hbuild
    have hargv := buildCommand_templated hv (h := h₅) (fun htrue ↦ hthere (by rw [htrue])) hbuild
    refine Always.bind (I := fun _ _ ↦ True) (always_perform trivial fun _ ↦ trivial)
      (fun h₆ _ hh₆ _ ↦ ?_) fun _ e _ _ ↦ hraised e
    refine Always.bind (kept_writeStatus hv.safe _ _ _ _) (fun h₇ _ hh₇ _ ↦ ?_)
      fun _ e _ _ ↦ hraised e
    have hlater := (hargv.mono hh₆).mono hh₇
    refine Always.bind (runStreaming_called hv.safe _ hlater) (fun h₈ code hh₈ hcalled ↦ ?_)
      fun _ e _ _ ↦ hraised e
    obtain ⟨child, hstarted⟩ := hcalled code rfl
    refine (kept_conclude hv.safe _ _ code).mono fun h₉ r hh₉ _ s _ ↦ ?_
    exact ⟨argv, child, (hlater.mono hh₈).mono hh₉, hstarted.mono hh₉⟩

/-! ## The queue -/

theorem owns_request {file : Name} (hfile : file.Allowed) : host.Owns host.requestsDir file :=
  ⟨by simp [Host.directories], hfile⟩

theorem kept_claimFirst (files : List FileName) : Kept host h (claimFirst host files) := by
  induction files generalizing h with
  | nil => trivial
  | cons file rest ih =>
    have hreplace : Kept host h
        (perform (.replace host.requestsDir file.name (processingName file.name))) :=
      kept_perform ⟨owns_request file.allowed, owns_request (processingName_allowed file.allowed)⟩
    refine Always.bind hreplace.catching (fun h' renamed _ _ ↦ ?_) fun _ _ _ _ ↦ trivial
    cases renamed with
    | ok _ => trivial
    | error e =>
      dsimp only
      split
      · exact ih
      · trivial

theorem kept_claimNext : Kept host h (claimNext host) :=
  .call trivial fun _ files _ ↦ kept_claimFirst files

theorem parseJobId_pattern {value : Option Json} {jobId : Text}
    (hparse : parseJobId value = .ok jobId) : jobIdPattern jobId = true := by
  unfold parseJobId at hparse
  split at hparse
  · split at hparse
    · rename_i hpattern
      cases hparse
      exact hpattern
    · cases hparse
  · cases hparse

theorem parseUploadName_pattern {py : Python} {value : Option Json} {uploadName : Text}
    (hparse : parseUploadName py value = .ok uploadName) : uploadNamePattern uploadName = true := by
  unfold parseUploadName at hparse
  split at hparse
  · split at hparse
    · rename_i hpattern
      cases hparse
      exact (Bool.and_eq_true_iff.mp hpattern).1
    · cases hparse
  · cases hparse

theorem pattern_of_validateRequest {payload : List (Text × Json)} {source : Text}
    {request : SupervisorRequest}
    (hrequest : validateRequest host.python payload source = .ok request) :
    jobIdPattern request.jobId = true ∧ ∀ uploadName language,
      request.live = some (uploadName, language) → uploadNamePattern uploadName = true := by
  obtain ⟨jobId, hjob, hrequest⟩ := Raising.bind_eq_ok.mp hrequest
  dsimp only at hrequest
  split at hrequest
  · cases hrequest
  · obtain ⟨isLive, -, hrequest⟩ := Raising.bind_eq_ok.mp hrequest
    obtain ⟨createdAt, -, hrequest⟩ := Raising.bind_eq_ok.mp hrequest
    split at hrequest
    · obtain ⟨uploadName, hupload, hrequest⟩ := Raising.bind_eq_ok.mp hrequest
      obtain ⟨language, -, hrequest⟩ := Raising.bind_eq_ok.mp hrequest
      split at hrequest
      · cases hrequest
      · cases hrequest
        refine ⟨parseJobId_pattern hjob, fun u l heq ↦ ?_⟩
        cases heq
        exact parseUploadName_pattern hupload
    · split at hrequest
      · cases hrequest
      · cases hrequest
        exact ⟨parseJobId_pattern hjob, fun u l heq ↦ by cases heq⟩

theorem valid_of_validateClaim {payload : Members} {source : Text} {request : ClaimedRequest}
    (hrequest : validateClaim host.python payload source = .ok request) : Valid request := by
  have hshown := shown_validateClaim host.python payload source
  rw [hrequest] at hshown
  obtain ⟨hjob, hupload⟩ := pattern_of_validateRequest hshown.symm
  refine ⟨hjob, fun uploadName language hlive ↦ hupload uploadName (shownText language) ?_⟩
  rw [ClaimedRequest.shown, hlive]
  rfl

theorem readRequest_valid (file : FileName) :
    (readRequest host file).Always (Confined host (· = host.temporaryDirectory))
      (fun _ r ↦ ∀ request, r = .ok request → Valid request) h := by
  refine (always_perform (Q := fun _ _ ↦ True) trivial fun _ ↦ trivial).bind
    (fun _ payload _ _ ↦ ?_) fun _ _ _ _ _ heq ↦ by cases heq
  split
  · rename_i request hrequest
    intro request' heq
    cases heq
    exact valid_of_validateClaim hrequest
  · intro _ heq
    cases heq

theorem inferredRequest_safe (file : FileName) :
    (inferredRequest file).Always (Confined host (· = host.temporaryDirectory))
      (fun _ r ↦ ∀ request, r = .ok request → SafeText request.jobId) h := by
  rw [inferredRequest]
  split
  · rename_i hpattern
    refine (always_perform (Q := fun _ _ ↦ True) trivial fun _ ↦ trivial).bind
      (fun _ _ _ _ _ heq ↦ ?_) fun _ _ _ _ _ heq ↦ by cases heq
    cases heq
    exact safeText_of_jobIdPattern hpattern
  · refine (always_perform (Q := fun _ _ ↦ True) trivial fun _ ↦ trivial).bind
      (fun _ seconds _ _ ↦ ?_) fun _ _ _ _ _ heq ↦ by cases heq
    refine (always_perform (Q := fun _ _ ↦ True) trivial fun _ ↦ trivial).bind
      (fun _ _ _ _ _ heq ↦ ?_) fun _ _ _ _ _ heq ↦ by cases heq
    cases heq
    exact safeText_append (safeText_of_jobIdPattern (by decide)) (safeText_integerText seconds)

theorem kept_failJob {request : ClaimedRequest} (hjob : SafeText request.jobId) (exc : Raised) :
    Kept host h (failJob host request exc) := by
  refine .call trivial fun _ there _ ↦ ?_
  split
  · exact .call trivial fun _ _ _ ↦ kept_writeStatus hjob _ _ _ _
  · exact kept_writeStatus hjob _ _ _ _

theorem kept_consume (file : FileName) {uploadName : Option Text}
    (hupload : ∀ n, uploadName = some n → (name n).Allowed) :
    Kept host h (consume host file uploadName) := by
  refine .call (owns_request file.allowed) fun _ _ _ ↦ ?_
  split
  · trivial
  · rename_i n
    exact kept_perform ⟨by simp [Host.directories], hupload n rfl⟩

/-- A request that could be read is one that was validated. -/
theorem kept_attend (file : FileName) {claimed : Except Raised ClaimedRequest}
    (hvalid : ∀ request, claimed = .ok request → Valid request) :
    Kept host h (attend host file claimed) := by
  cases claimed with
  | ok request =>
    have hv := hvalid request rfl
    refine ((execute_launched hv).tryCatch (Q := fun _ _ ↦ True) (fun _ _ _ _ ↦ trivial)
      fun _ exc _ _ ↦ kept_failJob hv.safe exc).finallyDo fun _ _ _ _ ↦
        kept_consume file fun n hn ↦ ?_
    obtain ⟨⟨uploadName, language⟩, hlive, rfl⟩ := Option.map_eq_some_iff.mp hn
    exact allowed_of_uploadNamePattern (hv.upload uploadName language hlive)
  | error exc =>
    have hfail : Kept host h (inferredRequest file >>= fun request ↦ failJob host request exc) :=
      Always.bind (inferredRequest_safe file)
        (fun _ request _ hsafe ↦ kept_failJob (hsafe request rfl) exc) fun _ _ _ _ ↦ trivial
    exact Always.finallyDo hfail fun _ _ _ _ ↦ kept_consume file fun n hn ↦ by cases hn

theorem kept_processClaim (file : FileName) : Kept host h (processClaim host file) := by
  refine Always.bind (readRequest_valid file).catching (fun h₁ claimed _ hclaimed ↦ ?_)
    fun _ _ _ _ ↦ trivial
  obtain ⟨claimed', heq, hvalid⟩ := hclaimed
  obtain rfl := Except.ok.inj heq
  exact (kept_attend file hvalid).bind fun _ _ _ ↦ kept_publishOverview.bind fun _ _ _ ↦ trivial

end

/-! ## The preflight's output -/

/-- A call that makes a file without a name in this directory. -/
def makesUnnamed (dir : Text) {β : Type} : HostOp β → Bool
  | .temporaryFile d => d.text = dir
  | _ => false

/-- A host with its files below `/srv`. -/
def srvHost : Host where
  settings :=
    { runtimeRoot := ⟨"/srv/tune-demo".toList, rfl⟩
      preparedDir := ⟨"/srv/tune-demo/prepared".toList, rfl⟩
      fullAdapter := ⟨"/srv/tune-demo/full/adapter".toList, rfl⟩
      artifactManifest := ⟨"/srv/tune-demo/full/artifact_manifest.json".toList, rfl⟩
      runRoot := ⟨"/srv/tune-demo/runs".toList, rfl⟩
      trainTimeoutSeconds := 1800
      inferTimeoutSeconds := 600 }
  approvedPredictions := ⟨"/srv/tune-demo/approved-predictions.jsonl".toList, rfl⟩
  approvedSampleIds := []
  approved_valid := by simp
  python := Python.ascii
  temporaryDirectory := ⟨"/tmp".toList, rfl⟩

/-- A request for smoke training is read, and every call succeeds that can. -/
def smokeAnswers (_ : List (Past HostOp Raised)) {β : Type} : HostOp β → Except Raised β
  | .readJson _ _ => .ok [
      (points "job_id".toList, .str (points "job-1".toList)),
      (points "kind".toList, .str (points "train_smoke".toList)),
      (points "created_at".toList, .str (points "2026-07-26T09:00:00+00:00".toList))]
  | .createTemporary _ _ => .ok ⟨"k3v9_x2a".toList, by decide⟩
  | .isDir _ => .ok false
  | .isFile _ _ => .ok false
  | .makeDirs _ | .makeNewDir _ _ | .fill _ _ _ | .replace _ _ _ | .unlink _ _ => .ok ()
  | .temporaryFile _ | .survey => .ok ()
  | .utcNow => .ok "2026-07-26T09:00:01+00:00".toList
  | _ => .error "OSError".toList

def smokeRequest : FileName := ⟨name "job-1.processing.json".toList, by decide⟩

/-- The preflight's output goes to a file that is in none of the supervisor's directories. -/
theorem preflight_output_elsewhere :
    ¬ ∀ (host : Host) (file : FileName), (processClaim host file).Always
      (Confined host (· ∈ host.directories)) (fun _ _ ↦ True) [] := by
  intro hall
  have hmade : (outcome smokeAnswers [] (processClaim srvHost smokeRequest)).1.any
      (fun c ↦ makesUnnamed "/tmp".toList c.op) = true := by decide +kernel
  obtain ⟨c, hc, hunnamed⟩ := List.any_eq_true.mp hmade
  have hnot := (hall srvHost smokeRequest).mem_past
    (C := fun op ↦ makesUnnamed "/tmp".toList op = false) (fun _ _ op hop ↦ ?_) smokeAnswers
    (by simp) c hc
  · rw [hnot] at hunnamed
    cases hunnamed
  · -- the supervisor's directories are not the one of temporary files
    cases op with
    | temporaryFile dir =>
      have helsewhere : ∀ d ∈ srvHost.directories, d.text ≠ "/tmp".toList := by decide
      simpa [makesUnnamed] using helsewhere dir hop
    | _ => rfl

end Neva.Supervisor
