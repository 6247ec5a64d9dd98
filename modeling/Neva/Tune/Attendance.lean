import Neva.Calls.Histories
import Neva.Tune.Confinement

/-!
# Whether a request is attended to

A request has been attended to when its job has been marked failed, or one of the two commands was
started for it.  Of a host that does nothing at all nobody would expect that; so let it be one that
works, which is to say that the directory of the jobs takes what it is given (`Workable`).

Then every request is attended to, with one exception (`requests_confined`).  The time of a request
is passed on to its status documents as it is, and `fromisoformat` takes a lone surrogate between
date and time.  Such a document cannot be written, neither when the job is queued nor when it is to
be marked as failed; unless there is an earlier document of the job, which has a time of its own.
-/

set_option autoImplicit false

namespace Neva.Supervisor

open Calls Calls.Prog
open Ops (Sym Name name)

/-! ## A host that works -/

/-- The call has put a status document in its place. -/
def placesStatus (host : Host) : Past HostOp Raised → Prop
  | ⟨.replace dir _ _, .ok _⟩ => dir = host.jobsDir
  | _ => False

/-- There is a new status document. -/
def Placed (host : Host) (h : List (Past HostOp Raised)) : Prop := ∃ c ∈ h, placesStatus host c

/-- The call was answered as by a host on which the request has the content, and its job the
`earlier` status document until a new one is in its place. -/
def Ordinary (host : Host) (file : FileName) (content : Except Raised Members)
    (earlier : Option Members) (h : List (Past HostOp Raised)) : Past HostOp Raised → Prop
  | ⟨.readJson dir f, r⟩ =>
    (dir = host.requestsDir → f = file.name → r = content) ∧
      (dir = host.jobsDir → Placed host h ∨ earlier.isSome →
        ∃ members, r = .ok members ∧ Content.membersWritable members = true ∧
          (¬Placed host h → earlier = some members))
  | ⟨.isFile dir _, r⟩ => dir = host.jobsDir →
    ∃ there, r = .ok there ∧ (¬Placed host h → there = earlier.isSome)
  | ⟨.makeDirs dir, r⟩ => dir = host.jobsDir → ∃ u, r = .ok u
  | ⟨.createTemporary dir _, r⟩ => dir = host.jobsDir → ∃ random, r = .ok random
  | ⟨.fill dir _ _, r⟩ => dir = host.jobsDir → ∃ u, r = .ok u
  | ⟨.replace dir _ _, r⟩ => dir = host.jobsDir → ∃ u, r = .ok u
  | ⟨.time, r⟩ => ∃ seconds, r = .ok seconds
  | ⟨.utcNow, r⟩ => ∃ now, r = .ok now
  | _ => True

/-- So were all calls. -/
def Workable (host : Host) (file : FileName) (content : Except Raised Members)
    (earlier : Option Members) : List (Past HostOp Raised) → Prop
  | [] => True
  | c :: h => Ordinary host file content earlier h c ∧ Workable host file content earlier h

/-! ## Attended requests -/

/-- A status document says that a job has failed. -/
def Failed (host : Host) (h : List (Past HostOp Raised)) : Prop :=
  ∃ s temporary, s.status = "failed".toList ∧
    Called h (.fill host.jobsDir temporary (.status s)) (.ok ()) ∧
    Called h (.replace host.jobsDir temporary (name (s.jobId ++ ".json".toList))) (.ok ())

/-- The job has failed, or one of the two commands was started. -/
def Attended (host : Host) (h : List (Past HostOp Raised)) : Prop :=
  Failed host h ∨ Launched host h

/-- `validate_request`, of what is found in the file. -/
def claimOf (host : Host) (file : FileName) (content : Except Raised Members) :
    Except Raised ClaimedRequest :=
  content >>= fun payload ↦
    (validateClaim host.python payload file.text).mapError invalidRequest

/-- There is a status document with a time. -/
def Timed (earlier : Option Members) : Prop :=
  ∃ members time, earlier = some members ∧
    Content.lookup members "created_at".toList = some time

/-- If the request is valid, its time can be written, or need not be. -/
def Recordable (host : Host) (file : FileName) (content : Except Raised Members)
    (earlier : Option Members) : Prop :=
  ∀ request, claimOf host file content = .ok request →
    writable request.createdAt = true ∨ Timed earlier

variable {host : Host} {file : FileName} {content : Except Raised Members}
  {earlier : Option Members} {h h' : List (Past HostOp Raised)} {α β : Type}

theorem Workable.mono (hw : Workable host file content earlier h') (hh' : h <:+ h') :
    Workable host file content earlier h := by
  obtain ⟨new, rfl⟩ := hh'
  induction new with
  | nil => exact hw
  | cons c new ih => exact ih hw.2

theorem Failed.mono (hf : Failed host h) (hh' : h <:+ h') : Failed host h' := by
  obtain ⟨s, temporary, hs, hfill, hreplace⟩ := hf
  exact ⟨s, temporary, hs, hfill.mono hh', hreplace.mono hh'⟩

theorem Attended.mono (ha : Attended host h) (hh' : h <:+ h') : Attended host h' :=
  ha.imp (·.mono hh') (·.mono hh')

/-! ## Runs of a host that works -/

/-- What the program comes to on a host that works. -/
def Working (host : Host) (file : FileName) (content : Except Raised Members)
    (earlier : Option Members) (A : List (Past HostOp Raised) → Except Raised α → Prop)
    (h : List (Past HostOp Raised)) (p : HostProg α) : Prop :=
  p.Always (fun _ _ _ ↦ True) (fun h' r ↦ Workable host file content earlier h' → A h' r) h

section

variable {A : List (Past HostOp Raised) → Except Raised α → Prop}

theorem working_of_not (hn : ¬Workable host file content earlier h) (p : HostProg α) :
    Working host file content earlier A h p :=
  (always_suffix p).mono fun _ _ _ hh' hw ↦ absurd (hw.mono hh') hn

/-- A call, and what follows it. -/
theorem Working.call {op : HostOp β} {f : β → HostProg α}
    (hok : ∀ b, Workable host file content earlier (⟨op, .ok b⟩ :: h) →
      Working host file content earlier A (⟨op, .ok b⟩ :: h) (f b))
    (he : ∀ e, Workable host file content earlier (⟨op, .error e⟩ :: h) →
      A (⟨op, .error e⟩ :: h) (.error e)) :
    Working host file content earlier A h (perform op >>= f) := by
  rw [perform_bind]
  refine ⟨trivial, fun r ↦ ?_⟩
  cases r with
  | ok b =>
    by_cases hw : Workable host file content earlier (⟨op, .ok b⟩ :: h)
    · exact hok b hw
    · exact working_of_not hw _
  | error e => exact he e

/-- A call that a host that works does not fail. -/
theorem Working.safely {op : HostOp β} {f : β → HostProg α}
    (hsafe : ∀ r, Ordinary host file content earlier h ⟨op, r⟩ → ∃ b, r = .ok b)
    (hok : ∀ b, Workable host file content earlier (⟨op, .ok b⟩ :: h) →
      Working host file content earlier A (⟨op, .ok b⟩ :: h) (f b)) :
    Working host file content earlier A h (perform op >>= f) := by
  refine .call hok fun e hw ↦ ?_
  obtain ⟨b, hb⟩ := hsafe _ hw.1
  cases hb

/-- One part after the other. -/
theorem Working.bind {B : List (Past HostOp Raised) → Except Raised β → Prop} {p : HostProg β}
    {f : β → HostProg α} (hp : Working host file content earlier B h p)
    (hf : ∀ h' b, h <:+ h' → Workable host file content earlier h' → B h' (.ok b) →
      Working host file content earlier A h' (f b))
    (he : ∀ h' e, Workable host file content earlier h' → B h' (.error e) → A h' (.error e)) :
    Working host file content earlier A h (p >>= f) := by
  refine Always.bind hp (fun h' b hh' hb ↦ ?_) fun h' e _ hB hw ↦ he h' e hw (hB hw)
  by_cases hw : Workable host file content earlier h'
  · exact hf h' b hh' hw (hb hw)
  · exact working_of_not hw _

end

/-! ## Writing a status -/

/-- A document has been written, and is in its place. -/
def PutInPlace (h : List (Past HostOp Raised)) (dir : HostPath) (file : Name)
    (document : Document) : Prop :=
  ∃ temporary, Called h (.fill dir temporary document) (.ok ()) ∧
    Called h (.replace dir temporary file) (.ok ())

theorem returns_atomicPlace (dir : HostPath) (file : Name) (document : Document) :
    (atomicPlace dir file document).Returns (fun h' _ ↦ PutInPlace h' dir file document) h := by
  refine returns_perform_bind fun _ ↦ returns_perform_bind fun random ↦ ?_
  dsimp only
  split
  · refine returns_perform_bind fun _ ↦ returns_perform fun _ ↦ ?_
    exact ⟨_, List.mem_cons_of_mem _ List.mem_cons_self, List.mem_cons_self⟩
  · exact returns_raise _

/-- What can be written is put in its place by a host that works. -/
theorem working_atomicPlace {file' : Name} {document : Document}
    (hdocument : document.isWritable = true) :
    Working host file content earlier (fun _ r ↦ ∃ u, r = .ok u) h
      (atomicPlace host.jobsDir file' document) := by
  refine .safely (fun r hr ↦ hr rfl) fun _ _ ↦ .safely (fun r hr ↦ hr rfl) fun random _ ↦ ?_
  dsimp only
  rw [if_pos hdocument]
  refine .safely (fun r hr ↦ hr rfl) fun _ _ ↦ always_perform trivial fun r hw ↦ ?_
  exact hw.1 rfl

theorem returns_writeStatus {request : ClaimedRequest} {previous : Option Members}
    {stage : Text} {failureReason : Option Text} :
    (writeStatus host request previous "failed".toList stage failureReason).Returns
      (fun h' _ ↦ Failed host h') h := by
  refine returns_perform_bind fun _ ↦ (returns_atomicPlace _ _ _).bind fun h' _ hplace ↦
    returns_pure ?_
  obtain ⟨temporary, hfill, hreplace⟩ := hplace
  exact ⟨_, temporary, rfl, hfill, hreplace⟩

theorem working_writeStatus {request : ClaimedRequest} {previous : Option Members}
    (hcreated : (createdAt previous request).isWritable = true) {status stage : Text}
    {failureReason : Option Text} :
    Working host file content earlier (fun _ r ↦ ∃ s, r = .ok s) h
      (writeStatus host request previous status stage failureReason) := by
  refine .safely (fun r hr ↦ hr) fun _ _ ↦ ?_
  refine Working.bind (working_atomicPlace hcreated) (fun _ _ _ _ _ _ ↦ ⟨_, rfl⟩) ?_
  rintro _ e _ ⟨u, heq⟩
  cases heq

/-! ## Silence -/

/-- The call says something about the job, or starts a program. -/
def speaks (host : Host) : Past HostOp Raised → Prop
  | ⟨.fill _ _ (.status _), _⟩ => True
  | ⟨.launch _, _⟩ => True
  | ⟨.replace dir _ _, _⟩ => dir = host.jobsDir
  | _ => False

/-- Nothing has been said of the job. -/
def Silent (host : Host) (h : List (Past HostOp Raised)) : Prop := ∀ c ∈ h, ¬speaks host c

theorem Silent.cons {c : Past HostOp Raised} (hs : Silent host h) (hc : ¬speaks host c) :
    Silent host (c :: h) :=
  List.forall_mem_cons.mpr ⟨hc, hs⟩

theorem Silent.isFile (hs : Silent host h) (file' : Name) {r : Except Raised Bool} :
    Silent host (⟨.isFile host.jobsDir file', r⟩ :: h) :=
  hs.cons id

theorem Silent.not_placed (hs : Silent host h) : ¬Placed host h := by
  rintro ⟨⟨op, r⟩, hc, hplaces⟩
  cases op with
  | replace dir source target =>
    cases r with
    | ok u => exact hs _ hc hplaces
    | error e => exact hplaces
  | _ => exact hplaces

theorem Silent.not_attended (hs : Silent host h) : ¬Attended host h := by
  rintro (⟨s, temporary, -, hfill, -⟩ | ⟨argv, child, -, hcalled⟩)
  · exact hs _ hfill trivial
  · exact hs _ hcalled trivial

/-- The program raises, and nothing is said of the job. -/
def Hushed (host : Host) (h : List (Past HostOp Raised)) (r : Except Raised α) : Prop :=
  (∃ e, r = .error e) ∧ Silent host h

theorem silently {op : HostOp β} {f : β → HostProg α} (hs : Silent host h)
    (hop : ∀ r : Except Raised β, ¬speaks host ⟨op, r⟩)
    (hf : ∀ b, Silent host (⟨op, .ok b⟩ :: h) →
      (f b).Always (fun _ _ _ ↦ True) (fun h' r ↦ Hushed host h' r) (⟨op, .ok b⟩ :: h)) :
    (perform op >>= f).Always (fun _ _ _ ↦ True) (fun h' r ↦ Hushed host h' r) h := by
  rw [perform_bind]
  refine ⟨trivial, fun r ↦ ?_⟩
  cases r with
  | ok b => exact hf b (hs.cons (hop _))
  | error e => exact ⟨⟨e, rfl⟩, hs.cons (hop _)⟩

theorem writeStatus_hushed {request : ClaimedRequest} {previous : Option Members}
    (hcreated : (createdAt previous request).isWritable = false) {status stage : Text}
    {failureReason : Option Text} (hs : Silent host h) :
    (writeStatus host request previous status stage failureReason).Always (fun _ _ _ ↦ True)
      (fun h' r ↦ Hushed host h' r) h := by
  refine silently hs (fun _ ↦ id) fun _ hs ↦ ?_
  refine Always.bind (I := fun h' r ↦ Hushed host h' r) ?_ (fun _ _ _ hr ↦ ?_)
    fun _ _ _ hr ↦ ⟨⟨_, rfl⟩, hr.2⟩
  · refine silently hs (fun _ ↦ id) fun _ hs ↦ silently hs (fun _ ↦ id) fun random hs ↦ ?_
    dsimp only
    rw [if_neg (by rw [Document.isWritable, hcreated]; decide)]
    exact ⟨⟨_, rfl⟩, hs⟩
  · obtain ⟨⟨e, heq⟩, -⟩ := hr
    cases heq

/-- A request whose time cannot be written is not executed. -/
theorem execute_hushed {request : ClaimedRequest} (hcreated : writable request.createdAt = false)
    (hs : Silent host h) :
    (execute host request).Always (fun _ _ _ ↦ True) (fun h' r ↦ Hushed host h' r) h := by
  refine silently hs (fun _ ↦ id) fun _ hs ↦ ?_
  have hcreated : (createdAt none request).isWritable = false := by
    rw [createdAt_none, Content.isWritable_str, hcreated]
  refine Always.bind (writeStatus_hushed hcreated hs) (fun _ _ _ hr ↦ ?_)
    fun _ _ _ hr ↦ ⟨⟨_, rfl⟩, hr.2⟩
  obtain ⟨⟨e, heq⟩, -⟩ := hr
  cases heq

/-! ## Marking a job as failed -/

theorem returns_failJob (request : ClaimedRequest) (exc : Raised) :
    (failJob host request exc).Returns (fun h' _ ↦ Failed host h') h := by
  refine returns_perform_bind fun there ↦ ?_
  split
  · exact returns_perform_bind fun _ ↦ returns_writeStatus
  · exact returns_writeStatus

/-- The document that is there, if there is one. -/
theorem placed_or_isSome (file' : Name) {there : Bool} (htrue : there = true)
    (hthere : ¬Placed host h → there = earlier.isSome) :
    Placed host ((⟨.isFile host.jobsDir file', .ok there⟩ : Past HostOp Raised) :: h) ∨
      earlier.isSome = true := by
  by_cases hp : Placed host h
  · obtain ⟨c, hc, hplaces⟩ := hp
    exact .inl ⟨c, List.mem_cons_of_mem _ hc, hplaces⟩
  · exact .inr (hthere hp ▸ htrue)

/-- A host that works marks the job as failed, if the time can be written, or an earlier document
has one. -/
theorem working_failJob {request : ClaimedRequest} (exc : Raised)
    (hcreated : writable request.createdAt = true ∨ Timed earlier ∧ Silent host h) :
    Working host file content earlier (fun _ r ↦ ∃ s, r = .ok s) h
      (failJob host request exc) := by
  refine .safely (fun r hr ↦ ?_) fun there hw ↦ ?_
  · obtain ⟨there, hthere, -⟩ := hr rfl
    exact ⟨there, hthere⟩
  obtain ⟨there', heq, hthere⟩ := hw.1 rfl
  cases heq
  split
  · rename_i htrue
    have hplaced := placed_or_isSome (name (request.jobId ++ ".json".toList)) htrue hthere
    refine .safely (fun r hr ↦ ?_) fun previous hw' ↦ working_writeStatus ?_
    · obtain ⟨members, hmembers, -⟩ := hr.2 rfl hplaced
      exact ⟨members, hmembers⟩
    · obtain ⟨members, heq, hwritable, hearlier⟩ := hw'.1.2 rfl hplaced
      cases heq
      rw [createdAt, Option.bind_some]
      cases hlookup : Content.lookup previous "created_at".toList with
      | some time => exact Content.isWritable_of_lookup hwritable hlookup
      | none =>
        rw [Option.getD_none, Content.isWritable_str]
        refine hcreated.resolve_right fun ⟨⟨members, time, hearlier', htime⟩, hs⟩ ↦ ?_
        -- nothing has been put in the place of the earlier document
        rw [hearlier (hs.isFile _).not_placed, Option.some.injEq] at hearlier'
        rw [hearlier', htime] at hlookup
        cases hlookup
  · rename_i hfalse
    refine working_writeStatus ?_
    rw [createdAt_none, Content.isWritable_str]
    refine hcreated.resolve_right fun ⟨⟨members, time, hearlier, htime⟩, hs⟩ ↦ hfalse ?_
    rw [hthere hs.not_placed, hearlier]
    rfl

/-- A host that works cannot mark the job as failed otherwise. -/
theorem failJob_hushed {request : ClaimedRequest} (exc : Raised)
    (hcreated : writable request.createdAt = false) (htimed : ¬Timed earlier)
    (hs : Silent host h) :
    Working host file content earlier (Hushed host) h (failJob host request exc) := by
  refine .call (fun there hw ↦ ?_) fun e _ ↦ ⟨⟨e, rfl⟩, hs.cons id⟩
  have hs' := hs.isFile (name (request.jobId ++ ".json".toList)) (r := .ok there)
  have hunwritable (previous : Option Members)
      (hnone : previous.bind (Content.lookup · "created_at".toList) = none) :
      (createdAt previous request).isWritable = false := by
    rw [createdAt, hnone, Option.getD_none, Content.isWritable_str, hcreated]
  split
  · rename_i htrue
    obtain ⟨there', heq, hthere⟩ := hw.1 rfl
    cases heq
    have hplaced := placed_or_isSome (name (request.jobId ++ ".json".toList)) htrue hthere
    refine .call (fun previous hw' ↦ ?_) fun e _ ↦ ⟨⟨e, rfl⟩, hs'.cons id⟩
    obtain ⟨members, heq, -, hearlier⟩ := hw'.1.2 rfl hplaced
    cases heq
    have hnone : Content.lookup previous "created_at".toList = none := by
      rw [Option.eq_none_iff_forall_ne_some]
      exact fun time htime ↦ htimed ⟨previous, time, hearlier hs'.not_placed, htime⟩
    exact (writeStatus_hushed (hunwritable (some previous) hnone) (hs'.cons id)).mono
      fun _ _ _ hr _ ↦ hr
  · exact (writeStatus_hushed (hunwritable none rfl) hs').mono fun _ _ _ hr _ ↦ hr

/-! ## Processing a request -/

theorem returns_attend (file : FileName) {claimed : Except Raised ClaimedRequest}
    (hvalid : ∀ request, claimed = .ok request → Valid request) :
    (attend host file claimed).Returns (fun h' _ ↦ Attended host h') h := by
  have hconsume {uploadName : Option Text} (h' : List (Past HostOp Raised))
      (r : Except Raised JobStatus) (hr : ∀ s, r = .ok s → Attended host h') :
      (consume host file uploadName).Always (fun _ _ _ ↦ True)
        (fun h'' c ↦ ∀ s, (c >>= fun _ ↦ r) = .ok s → Attended host h'') h' :=
    (always_suffix _).mono fun h'' c _ hh'' s hs ↦ by
      obtain ⟨-, -, hs⟩ := Raising.bind_eq_ok.mp hs
      exact (hr s hs).mono hh''
  cases claimed with
  | ok request =>
    refine Always.finallyDo (I := fun h' r ↦ ∀ s, r = .ok s → Attended host h') ?_
      fun h' r _ hr ↦ hconsume h' r hr
    have hrun : (execute host request).Returns (fun h' _ ↦ Launched host h') h :=
      (always_suffix _).and (execute_launched (hvalid request rfl)) |>.mono fun _ _ _ hr ↦ hr.2
    refine hrun.tryCatch (fun _ _ _ hl s heq ↦ .inr (hl s heq)) fun h' e _ _ ↦ ?_
    exact (returns_failJob request e).mono fun _ _ _ hf s heq ↦ .inl (hf s heq)
  | error exc =>
    refine Always.finallyDo (I := fun h' r ↦ ∀ s, r = .ok s → Attended host h') ?_
      fun h' r _ hr ↦ hconsume h' r hr
    have hinferred : (inferredRequest file).Returns (fun _ _ ↦ True) h :=
      (always_suffix _).mono fun _ _ _ _ _ _ ↦ trivial
    refine hinferred.bind fun h' request _ ↦ ?_
    exact (returns_failJob request exc).mono fun _ _ _ hf s heq ↦ .inl (hf s heq)

/-- What is attended to stays so, whatever comes next. -/
theorem Attended.working (ha : Workable host file content earlier h → Attended host h)
    (p : HostProg α) :
    Working host file content earlier (fun h' _ ↦ Attended host h') h p :=
  (always_suffix p).mono fun _ _ _ hh' hw ↦ (ha (hw.mono hh')).mono hh'

/-- A job that can be marked as failed is. -/
theorem attended_failJob {request : ClaimedRequest} (exc : Raised)
    (hcreated : writable request.createdAt = true ∨ Timed earlier ∧ Silent host h) :
    Working host file content earlier (fun h' _ ↦ Attended host h') h
      (failJob host request exc) :=
  ((working_failJob exc hcreated).and (returns_failJob request exc)).mono fun _ r _ hr hw ↦ by
    obtain ⟨s, hs⟩ := hr.1 hw
    exact .inl (hr.2 s hs)

theorem working_inferredRequest (file' : FileName) :
    Working host file content earlier
      (fun _ r ↦ ∃ request, r = .ok request ∧ writable request.createdAt = true) h
      (inferredRequest file') := by
  rw [inferredRequest]
  split
  · exact .safely (fun _ hr ↦ hr) fun now _ _ ↦ ⟨_, rfl, writable_points now⟩
  · refine .safely (fun _ hr ↦ hr) fun _ _ ↦ .safely (fun _ hr ↦ hr) fun now _ _ ↦ ?_
    exact ⟨_, rfl, writable_points now⟩

theorem working_attend {claimed : Except Raised ClaimedRequest}
    (hvalid : ∀ request, claimed = .ok request → Valid request)
    (hrecordable : ∀ request, claimed = .ok request →
      writable request.createdAt = true ∨ Timed earlier) (hs : Silent host h) :
    Working host file content earlier (fun h' _ ↦ Attended host h') h
      (attend host file claimed) := by
  have hconsume {uploadName : Option Text} (h' : List (Past HostOp Raised))
      (r : Except Raised JobStatus) (_ : h <:+ h')
      (hr : Workable host file content earlier h' → Attended host h') :=
    Attended.working hr (consume host file uploadName)
  cases claimed with
  | ok request =>
    refine Always.finallyDo ?_ hconsume
    have hsilent : (execute host request).Always (fun _ _ _ ↦ True)
        (fun h' _ ↦ writable request.createdAt = false → Silent host h') h := by
      cases hcreated : writable request.createdAt with
      | true => exact (always_suffix _).mono fun _ _ _ _ hfalse ↦ by cases hfalse
      | false => exact (execute_hushed hcreated hs).mono fun _ _ _ hr _ ↦ hr.2
    refine (hsilent.and (execute_launched (hvalid request rfl))).tryCatch
      (fun _ s _ hl _ ↦ .inr (hl.2 s rfl)) fun h' e _ hl ↦ attended_failJob e ?_
    cases hcreated : writable request.createdAt with
    | true => exact .inl rfl
    | false =>
      have htimed := (hrecordable request rfl).resolve_left (by rw [hcreated]; decide)
      exact .inr ⟨htimed, hl.1 hcreated⟩
  | error exc =>
    refine Always.finallyDo ?_ hconsume
    refine Working.bind (working_inferredRequest file) (fun h' request _ _ hrequest ↦ ?_) ?_
    · obtain ⟨request', heq, hwritable⟩ := hrequest
      cases heq
      exact attended_failJob exc (.inl hwritable)
    · rintro _ e _ ⟨request, heq, -⟩
      cases heq

/-- Nothing is said of a request whose time cannot be written. -/
theorem attend_hushed {request : ClaimedRequest} (hcreated : writable request.createdAt = false)
    (htimed : ¬Timed earlier) (hs : Silent host h) :
    Working host file content earlier (Hushed host) h (attend host file (.ok request)) := by
  refine Always.finallyDo (I := fun h' r ↦ Workable host file content earlier h' →
    Hushed host h' r) ?_ fun h' r _ hr ↦ ?_
  · refine (execute_hushed hcreated hs).tryCatch (fun _ s _ hr ↦ ?_) fun _ e _ hr ↦
      failJob_hushed e hcreated htimed hr.2
    obtain ⟨⟨e, heq⟩, -⟩ := hr
    cases heq
  · by_cases hw : Workable host file content earlier h'
    · obtain ⟨⟨e, rfl⟩, hs⟩ := hr hw
      have hsilent : (consume host file (request.live.map Prod.fst)).Always (fun _ _ _ ↦ True)
          (fun h'' _ ↦ Silent host h'') h' := by
        unfold consume
        rw [perform_bind]
        refine ⟨trivial, fun r ↦ ?_⟩
        cases r with
        | ok u =>
          dsimp only [after]
          split
          · exact hs.cons id
          · exact always_perform trivial fun r ↦ (hs.cons id).cons id
        | error e => exact hs.cons id
      refine hsilent.mono fun h'' c _ hs _ ↦ ⟨?_, hs⟩
      cases c with
      | ok u => exact ⟨e, rfl⟩
      | error e' => exact ⟨e', rfl⟩
    · exact working_of_not hw _

/-- What is read is what there is. -/
theorem readRequest_claimOf (file : FileName) (content : Except Raised Members)
    (earlier : Option Members) (hs : Silent host h) :
    (readRequest host file).Always (fun _ _ _ ↦ True)
      (fun h' r ↦ Silent host h' ∧
        (Workable host file content earlier h' → r = claimOf host file content)) h := by
  rw [readRequest, perform_bind]
  refine ⟨trivial, fun r ↦ ?_⟩
  cases r with
  | ok payload =>
    dsimp only [after]
    cases hclaim : validateClaim host.python payload file.text with
    | ok request =>
      refine ⟨hs.cons id, fun hw ↦ ?_⟩
      rw [claimOf, ← hw.1.1 rfl rfl]
      exact (congrArg (Except.mapError invalidRequest) hclaim).symm
    | error message =>
      refine ⟨hs.cons id, fun hw ↦ ?_⟩
      rw [claimOf, ← hw.1.1 rfl rfl]
      exact (congrArg (Except.mapError invalidRequest) hclaim).symm
  | error e =>
    refine ⟨hs.cons id, fun hw ↦ ?_⟩
    rw [claimOf, ← hw.1.1 rfl rfl]
    rfl

/-- Whatever the host does, a request of which a status is returned has been attended to. -/
theorem returns_processClaim (file : FileName) :
    (processClaim host file).Returns (fun h' _ ↦ Attended host h') [] := by
  refine Always.bind ((always_suffix _).and (readRequest_valid file)).catching
    (fun h₁ claimed _ hclaimed ↦ ?_) fun _ _ _ _ _ heq ↦ by cases heq
  obtain ⟨claimed', heq, -, hvalid⟩ := hclaimed
  obtain rfl := Except.ok.inj heq
  refine Prog.Returns.bind (returns_attend file hvalid) fun h₂ final hfinal ↦ ?_
  have hpublish : (publishOverview host).Returns (fun h₃ _ ↦ h₂ <:+ h₃) h₂ :=
    (always_suffix _).mono fun _ _ _ hh _ _ ↦ hh
  exact hpublish.bind fun h₃ _ hh ↦ returns_pure (hfinal.mono hh)

/-- By a host that works, a request is attended to exactly when it is recordable. -/
theorem working_processClaim (file : FileName) (content : Except Raised Members)
    (earlier : Option Members) :
    Working host file content earlier
      (fun h' _ ↦ Attended host h' ↔ Recordable host file content earlier) []
      (processClaim host file) := by
  have hempty : Silent host [] := fun _ hc ↦ by cases hc
  refine Always.bind ((readRequest_claimOf file content earlier hempty).and
    (readRequest_valid file)).catching (fun h₁ claimed _ hclaimed ↦ ?_) fun _ e _ hr ↦ ?_
  · obtain ⟨claimed', heq, ⟨hs, hclaim⟩, hvalid⟩ := hclaimed
    obtain rfl := Except.ok.inj heq
    by_cases hw : Workable host file content earlier h₁
    · have hclaim := hclaim hw
      by_cases hrec : Recordable host file content earlier
      · have hattend : Working host file content earlier (fun h' _ ↦ Attended host h') h₁
            (attend host file claimed) :=
          working_attend hvalid (fun request heq ↦ hrec request (hclaim ▸ heq)) hs
        refine Always.bind hattend (fun h₂ final _ ha ↦ ?_) fun _ _ _ ha hw ↦
          iff_of_true (ha hw) hrec
        exact (Attended.working ha _).mono fun _ _ _ ha hw ↦ iff_of_true (ha hw) hrec
      · obtain ⟨request, hrequest, hnot⟩ : ∃ request, claimed = .ok request ∧
            ¬(writable request.createdAt = true ∨ Timed earlier) := by
          simpa [Recordable, ← hclaim] using hrec
        cases hrequest
        rw [not_or, Bool.not_eq_true] at hnot
        refine Always.bind (attend_hushed hnot.1 hnot.2 hs) (fun h₂ final _ hr ↦ ?_)
          fun _ _ _ hr hw ↦ iff_of_false (hr hw).2.not_attended hrec
        refine (always_suffix _).mono fun _ _ _ hh hw ↦ ?_
        obtain ⟨⟨e, heq⟩, -⟩ := hr (hw.mono hh)
        cases heq
    · exact working_of_not hw _
  · obtain ⟨r, heq, -⟩ := hr
    cases heq

/-- **Request confinement.**  Whatever a request contains and whatever the host answers, every file
that is created, replaced or deleted lies in the supervisor's directories, apart from the
preflight's output, which has no name; nothing is started but the preflight and the two commands;
and a job of which a status is returned has been attended to.  On a host that works, a request is
attended to exactly when it is invalid, or its time can be written, or an earlier status document
of the job has one. -/
theorem requests_confined (host : Host) :
    (claimNext host).Always (Confined host (· = host.temporaryDirectory)) (fun _ _ ↦ True) [] ∧
      ∀ file content earlier, (processClaim host file).Always
        (Confined host (· = host.temporaryDirectory))
        (fun h r ↦ (∀ s, r = .ok s → Attended host h) ∧
          (Workable host file content earlier h →
            (Attended host h ↔ Recordable host file content earlier))) [] :=
  ⟨kept_claimNext, fun file content earlier ↦
    ((kept_processClaim file).and ((returns_processClaim file).and
      (working_processClaim file content earlier))).mono fun _ _ _ hr ↦ hr.2⟩

/-! ## A time that cannot be written -/

/-- Every call is answered as on a host that works. -/
def ordinaryAnswers (host : Host) (file : FileName) (content : Except Raised Members)
    (earlier : Option Members) (_ : List (Past HostOp Raised)) {β : Type} :
    HostOp β → Except Raised β
  | .readJson dir f =>
    if dir.text = host.requestsDir.text ∧ f = file.name then content else .ok (earlier.getD [])
  | .isFile _ _ => .ok earlier.isSome
  | .createTemporary _ _ => .ok ⟨"q7_zu4bd".toList, by decide⟩
  | .makeDirs _ | .makeNewDir _ _ | .fill _ _ _ | .replace _ _ _ | .unlink _ _ => .ok ()
  | .time => .ok 0
  | .utcNow => .ok "2026-07-26T09:00:01+00:00".toList
  | _ => .error "OSError".toList

/-- The directories of the requests and of the jobs are not the same one. -/
theorem Host.requestsDir_ne_jobsDir (host : Host) : host.requestsDir.text ≠ host.jobsDir.text := by
  intro heq
  have hname := List.append_cancel_left heq
  revert hname
  decide

theorem workable_outcome
    (hearlier : ∀ members, earlier = some members → Content.membersWritable members = true)
    (p : HostProg α) (hw : Workable host file content earlier h) :
    Workable host file content earlier
      (outcome (ordinaryAnswers host file content earlier) h p).1 := by
  induction p generalizing h with
  | done r => exact hw
  | call op k ih =>
    refine ih _ ⟨?_, hw⟩
    cases op with
    | readJson dir f =>
      refine ⟨fun hdir hf ↦ if_pos ⟨congrArg _ hdir, hf⟩, fun hdir hthere ↦ ?_⟩
      refine ⟨earlier.getD [], if_neg fun hf ↦ ?_, ?_, fun hplaced ↦ ?_⟩
      · exact host.requestsDir_ne_jobsDir (hf.1.symm.trans (congrArg _ hdir))
      · cases earlier with
        | none => rfl
        | some members => exact hearlier members rfl
      · obtain ⟨members, rfl⟩ := Option.isSome_iff_exists.mp (hthere.resolve_left hplaced)
        rfl
    | isFile dir f => exact fun _ ↦ ⟨_, rfl, fun _ ↦ rfl⟩
    | makeDirs dir => exact fun _ ↦ ⟨_, rfl⟩
    | createTemporary dir begin => exact fun _ ↦ ⟨_, rfl⟩
    | fill dir f document => exact fun _ ↦ ⟨_, rfl⟩
    | replace dir source target => exact fun _ ↦ ⟨_, rfl⟩
    | time => exact ⟨_, rfl⟩
    | utcNow => exact ⟨_, rfl⟩
    | _ => trivial

/-- A time, with a lone surrogate between the date and the time of day. -/
def surrogateTime : Points :=
  points "2026-07-26".toList ++ .surrogate 0 :: points "09:00:00+00:00".toList

/-- A request for smoke training. -/
def surrogateRequest : Members :=
  [(points "job_id".toList, .str (points "job-1".toList)),
    (points "kind".toList, .str (points "train_smoke".toList)),
    (points "created_at".toList, .str surrogateTime)]

/-- It is valid, and on a host that works it is not attended to. -/
theorem surrogate_unattended :
    let run := outcome (ordinaryAnswers srvHost smokeRequest (.ok surrogateRequest) none) []
      (processClaim srvHost smokeRequest)
    Workable srvHost smokeRequest (.ok surrogateRequest) none run.1 ∧
      run.2 = .error "UnicodeEncodeError".toList ∧ ¬Attended srvHost run.1 := by
  intro run
  have hworkable : Workable srvHost smokeRequest (.ok surrogateRequest) none run.1 :=
    workable_outcome (fun _ h ↦ by cases h) _ trivial
  refine ⟨hworkable, by rfl, ?_⟩
  intro hattended
  have hrecordable : Recordable srvHost smokeRequest (.ok surrogateRequest) none :=
    ((working_processClaim smokeRequest (.ok surrogateRequest) none).result _ hworkable).mp
      hattended
  rcases hrecordable ⟨"job-1".toList, surrogateTime, none⟩ rfl with hwritable | ⟨_, _, hnone, -⟩
  · revert hwritable
    decide
  · cases hnone

end Neva.Supervisor
