import Neva.Pact

/-!
# The audio file of a turn

All uploads of a turn are written to the same file, `audio/<turn_id>.webm`, before anything checks
whether the turn still awaits audio; a rejected upload unlinks it.  An upload that has read the
status early therefore writes to, or deletes, a file the turn may point to by now.

`lastSave` reads off the story what was last written for a turn, and `acceptor` whose `accept_audio`
moved it on.  `undisturbed` are the runs in which uploads of one turn do not cut in on each other:
an accepted file is only ever written again with the same bytes, and `accept_audio` succeeds only
for an upload whose bytes were the last to be written.  `audio_intact` says that this keeps every
accepted file intact, and that nothing less does.  `audioDeleted` is a run with two uploads that
overlap.
-/

set_option autoImplicit false

namespace Neva

open Calls Tables

/-! ## Reading the story -/

/-- The upload last written to the file of the turn, and whether it was kept. -/
def lastSave (turnId : Uuid) : Story → Option (Bytes × Bool)
  | [] => none
  | (_, .saved id payload good) :: st =>
    if id = turnId then some (payload, good) else lastSave turnId st
  | _ :: st => lastSave turnId st

/-- The program whose `accept_audio` moved the turn on. -/
def acceptor (turnId : Uuid) : Story → Option ℕ
  | [] => none
  | (i, .accepted t) :: st => if t.id = turnId then some i else acceptor turnId st
  | _ :: st => acceptor turnId st

theorem lastSave_saved (turnId : Uuid) (i : ℕ) (payload : Bytes) (good : Bool) (st : Story) :
    lastSave turnId ((i, .saved turnId payload good) :: st) = some (payload, good) :=
  if_pos rfl

theorem lastSave_of_ne {turnId : Uuid} {a : Deed}
    (h : ∀ payload good, a ≠ .saved turnId payload good)
    (i : ℕ) (st : Story) : lastSave turnId ((i, a) :: st) = lastSave turnId st := by
  cases a with
  | saved id payload good => exact if_neg fun hid : id = turnId ↦ h payload good (by rw [hid])
  | _ => rfl

theorem acceptor_accepted (i : ℕ) (t : TurnRecord) (st : Story) :
    acceptor t.id ((i, .accepted t) :: st) = some i :=
  if_pos rfl

theorem acceptor_of_ne {turnId : Uuid} {a : Deed} (h : ∀ t, a = .accepted t → t.id ≠ turnId) (i : ℕ)
    (st : Story) : acceptor turnId ((i, a) :: st) = acceptor turnId st := by
  cases a with
  | accepted t => exact if_neg (h t rfl)
  | _ => rfl

/-- The deed is the acceptance of an upload. -/
def Deed.isAcceptance : Deed → Bool
  | .accepted _ => true
  | _ => false

/-! ## The files -/

section

variable {su : Setup} {d : Draw} {v v' : Venue} {a : Deed}

/-- Only an upload of the turn changes its file. -/
theorem Did.files_of_ne (hd : Did su d v a v') {turnId : Uuid}
    (h : ∀ payload good, a ≠ .saved turnId payload good) :
    v'.files (.webm turnId) = v.files (.webm turnId) := by
  cases hd with
  | saved id payload =>
    refine Function.update_of_ne (fun he ↦ ?_) _ _
    cases he
    exact h _ _ rfl
  | _ => rfl

theorem Did.files_saved {turnId : Uuid} {payload : Bytes} {good : Bool}
    (hd : Did su d v (.saved turnId payload good) v') :
    v'.files (.webm turnId) = (if good then some payload else none) ∧ v'.db = v.db := by
  cases hd with
  | saved => exact ⟨Function.update_self .., rfl⟩

end

/-! ## What is to be kept -/

/-- The turn is past `awaiting_audio`. -/
def Db.pastAudio (db : Db) (turnId : Uuid) : Bool :=
  db.turns.any fun t ↦ t.id == turnId && t.status != .awaitingAudio

theorem Db.pastAudio_iff {db : Db} {turnId : Uuid} :
    db.pastAudio turnId = true ↔ ∃ t ∈ db.turns, t.id = turnId ∧ t.status ≠ .awaitingAudio := by
  rw [pastAudio, List.any_eq_true]
  refine exists_congr fun t ↦ and_congr_right fun _ ↦ ?_
  rw [Bool.and_eq_true, beq_iff_eq, bne_iff_ne]

/-- **Accepted audio is intact**: the file a turn points to holds the payload of the upload that was
accepted for it, and its duration is the one measured for that payload. -/
def AudioIntact (su : Setup) (sc : Scene) : Prop :=
  ∀ t ∈ sc.venue.db.turns, ∀ path, t.audioPath = some path → ∃ i player payload seconds,
    acceptor t.id sc.story = some i ∧ sc.requests[i]? = some (.uploadAudio player payload) ∧
      sc.venue.files path = some payload ∧ su.probes.duration payload = some seconds ∧
        t.durationS = some (su.backend.keepDuration seconds)

/-- If program `i` is an upload, its bytes are the last that were written for the turn. -/
def WroteLast (i : ℕ) (turnId : Uuid) (sc : Scene) : Prop :=
  match sc.requests[i]? with
  | some (.uploadAudio _ payload) => lastSave turnId sc.story = some (payload, true)
  | _ => True

theorem wroteLast_iff {i : ℕ} {turnId : Uuid} {sc : Scene} {player : Uuid} {payload : Bytes}
    (hq : sc.requests[i]? = some (.uploadAudio player payload)) :
    WroteLast i turnId sc ↔ lastSave turnId sc.story = some (payload, true) := by
  rw [WroteLast, hq]

/-- Uploads of one turn do not cut in on each other. -/
def undisturbed : Conditions where
  may i a sc :=
    match a with
    | .saved turnId payload good => sc.venue.db.pastAudio turnId = true →
      lastSave turnId sc.story = some (payload, true) ∧ good = true
    | .accepted t => WroteLast i t.id sc
    | _ => True

/-! ## The pact -/

/-- The files are what was last written, and for an accepted turn that is its own upload. -/
structure AudioKept (su : Setup) (sc : Scene) : Prop where
  written : ∀ turnId payload good, lastSave turnId sc.story = some (payload, good) →
    sc.venue.files (.webm turnId) = if good then some payload else none
  kept : ∀ t ∈ sc.venue.db.turns, ∀ path, t.audioPath = some path → ∃ i player payload seconds,
    acceptor t.id sc.story = some i ∧ sc.requests[i]? = some (.uploadAudio player payload) ∧
      path = .webm t.id ∧ lastSave t.id sc.story = some (payload, true) ∧
        su.probes.duration payload = some seconds ∧
          t.durationS = some (su.backend.keepDuration seconds)

/-- The pact of the uploads: whoever accepts audio has written it and measured it. -/
def audioKept (su : Setup) : Pact where
  inv := AudioKept su
  pre i a sc :=
    match a with
    | .accepted t => t.audioPath = some (.webm t.id) ∧ (lastSave t.id sc.story).isSome ∧
      ∃ player payload seconds, sc.requests[i]? = some (.uploadAudio player payload) ∧
        su.probes.duration payload = some seconds ∧
          t.durationS = some (su.backend.keepDuration seconds)
    | _ => True

namespace AudioKept

variable {su : Setup} {C : Conditions} {i : ℕ} {q : Request}

theorem intact {sc : Scene} (h : AudioKept su sc) : AudioIntact su sc := by
  intro t ht path hpath
  obtain ⟨i, player, payload, seconds, hacc, hq, rfl, hlast, hdur⟩ := h.kept t ht path hpath
  exact ⟨i, player, payload, seconds, hacc, hq, h.written t.id payload true hlast, hdur⟩

section

variable {a : Deed} {d : Draw} {sc : Scene} {v : Venue}

theorem written_after (h : (audioKept su).Step su C i a d sc v) {turnId : Uuid} {payload : Bytes}
    {good : Bool} (hlast : lastSave turnId ((i, a) :: sc.story) = some (payload, good)) :
    v.files (.webm turnId) = if good then some payload else none := by
  by_cases hne : ∀ payload good, a ≠ .saved turnId payload good
  · rw [lastSave_of_ne hne] at hlast
    rw [h.did.files_of_ne hne]
    exact h.inv.written turnId payload good hlast
  · push Not at hne
    obtain ⟨payload', good', rfl⟩ := hne
    rw [lastSave_saved] at hlast
    cases hlast
    exact h.did.files_saved.1

/-- A turn that points to audio is past `awaiting_audio`. -/
theorem ne_awaitingAudio {db : Db} (h : db.Tidy) {t : TurnRecord} (ht : t ∈ db.turns)
    {path : AudioPath} (hpath : t.audioPath = some path) : t.status ≠ .awaitingAudio := by
  intro hs
  rw [(h.turn t ht).audio.mpr hs] at hpath
  cases hpath

/-- A turn that is past `awaiting_audio` is not accepted again. -/
theorem acceptor_kept (h : (audioKept su).Step su C i a d sc v) {t : TurnRecord}
    (ht : t ∈ sc.venue.db.turns) (hs : t.status ≠ .awaitingAudio) :
    acceptor t.id ((i, a) :: sc.story) = acceptor t.id sc.story := by
  refine acceptor_of_ne ?_ i sc.story
  rintro t' rfl hid
  obtain ⟨⟨t₀, ht₀, hid₀, hs₀⟩, -⟩ := h.did.accepted_turn
  rw [h.tidy.turnIds.eq ht ht₀ (hid.symm.trans hid₀.symm)] at hs
  exact hs hs₀

theorem after (h : (audioKept su).Step su undisturbed i a d sc v) :
    AudioKept su (sc.after i a v) where
  written turnId payload good hlast := written_after h hlast
  kept t ht path hpath := by
    have hs := ne_awaitingAudio (h.did.tidy h.tidy h.new) ht hpath
    rcases h.did.audio_origin ht hs with ⟨t₀, ht₀, hid, hs₀, hpath₀, hdur₀⟩ | rfl
    · rw [← hpath₀] at hpath
      obtain ⟨j, player, payload, seconds, hacc, hq, rfl, hlast, hdur⟩ :=
        h.inv.kept t₀ ht₀ path hpath
      rw [← hdur₀, ← hid]
      refine ⟨j, player, payload, seconds, (acceptor_kept h ht₀ hs₀).trans hacc, hq, rfl, ?_, hdur⟩
      by_cases hne : ∀ payload good, a ≠ .saved t₀.id payload good
      · exact (lastSave_of_ne hne i _).trans hlast
      · push Not at hne
        obtain ⟨payload', good, rfl⟩ := hne
        obtain ⟨hsame, rfl⟩ := h.may (Db.pastAudio_iff.mpr ⟨t₀, ht₀, rfl, hs₀⟩)
        rw [hlast] at hsame
        cases hsame
        exact lastSave_saved ..
    · obtain ⟨hpath', -, player, payload, seconds, hq, hdur⟩ := h.pre
      have hmay := (wroteLast_iff hq).mp h.may
      rw [hpath'] at hpath
      cases hpath
      exact ⟨i, player, payload, seconds, acceptor_accepted i t _, hq, rfl,
        (lastSave_of_ne (fun _ _ h ↦ by cases h) i _).trans hmay, hdur⟩

end

/-! ### The upload -/

/-- What an upload knows is carried past every deed but the acceptance. -/
theorem carried {P : Scene → Prop} (hP : (audioKept su).Stable su C i P)
    (hown : ∀ a sc v, P sc → P (sc.after i a v)) :
    (audioKept su).Carried su C (·.isAcceptance = false) i q P where
  stable := hP
  pre a sc ha _ _ := by
    cases a with
    | accepted t => cases ha
    | _ => exact trivial
  own a _ sc v _ _ h := hown a sc v h
  gone _ _ _ _ := trivial
  error _ _ _ := trivial
  errorStable _ := .true i

theorem lastSave_isSome_cons {turnId : Uuid} {st : Story} (h : (lastSave turnId st).isSome) (i : ℕ)
    (a : Deed) : (lastSave turnId ((i, a) :: st)).isSome := by
  by_cases hne : ∀ payload good, a ≠ .saved turnId payload good
  · rw [lastSave_of_ne hne]
    exact h
  · push Not at hne
    obtain ⟨payload, good, rfl⟩ := hne
    rw [lastSave_saved]
    rfl

/-- What an accepted upload was measured to last. -/
theorem duration_of_accepted {d : Draw} {payload : Bytes}
    (h : (su.check d payload).accepted = true) : ∃ seconds,
      su.probes.duration payload = some seconds ∧
        (su.check d payload).durationS.getD 0 = seconds := by
  obtain ⟨seconds, -, hdur, -, -, -, -, hres⟩ := checkAudioFile_accepted h
  refine ⟨seconds, ?_, ?_⟩
  · split_ifs at hdur
    exact hdur
  · rw [Setup.check, hres]
    rfl

/-- The acceptance of an upload that has been written and measured. -/
theorem safe_accept (player : Uuid) (payload : Bytes) (turnId : Uuid) {seconds : ℚ}
    (hdur : su.probes.duration payload = some seconds) :
    (audioKept su).Safe su C i (.uploadAudio player payload)
      (GameService.store (.acceptAudio turnId (.webm turnId) seconds) >>= fun _ ↦
        GameService.store (.enqueueJob .triage turnId) >>= fun _ ↦ pure .ok) fun sc ↦
      sc.requests[i]? = some (.uploadAudio player payload) ∧
        (lastSave turnId sc.story).isSome := by
  refine Pact.safe_call ?_ (fun _ ↦ .true i) ?_ ?_ ?_ ?_
  · exact ⟨fun sc r h ↦ ⟨Scene.getElem?_spawned h.1 r, h.2⟩,
      fun j a _ _ _ _ _ h ↦ ⟨h.1, lastSave_isSome_cons h.2 j a⟩⟩
  · exact fun _ _ _ _ _ ↦ ⟨trivial, fun _ ↦ trivial⟩
  · intro sc d htidy _ _ _ hP
    rcases su.backend.promise su.cfg htidy d (.acceptAudio turnId (.webm turnId) seconds) with
      ⟨⟨e, he⟩, -⟩ | ⟨t, t', -, rfl, ⟨-, rfl⟩, hok, -⟩
    · rw [VenueOp.exec, he]
      exact trivial
    · rw [VenueOp.exec, hok]
      exact ⟨rfl, hP.2, player, payload, seconds, hP.1, hdur, rfl⟩
  · exact fun _ _ _ _ _ _ ↦ trivial
  · intro sc d _ _ _ _
    refine ⟨fun _ ↦ True, trivial, ?_⟩
    exact Pact.safe_quiet (carried (.true i) fun _ _ _ _ ↦ trivial)
      (fun r ↦ by cases r <;> rfl) fun _ ↦ Pact.safe_return (.true i) fun _ _ _ ↦ trivial

theorem safe_upload (player : Uuid) (payload : Bytes) :
    (audioKept su).Safe su C i (.uploadAudio player payload)
      ((Request.uploadAudio player payload).body su) fun sc ↦
      sc.requests[i]? = some (.uploadAudio player payload) := by
  have hc : (audioKept su).Carried su C (·.isAcceptance = false) i
      (.uploadAudio player payload) fun sc ↦ sc.requests[i]? = some (.uploadAudio player payload) :=
    carried (.request i i _) fun _ _ _ h ↦ h
  have hreturn : ∀ P, (audioKept su).Stable su C i P → ∀ reply,
      (audioKept su).Safe su C i (.uploadAudio player payload) (pure reply) P :=
    fun P hP _ ↦ Pact.safe_return hP fun _ _ _ ↦ trivial
  rw [Request.body, GameService.uploadAudio]
  split_ifs
  · exact hreturn _ hc.stable _
  · refine Pact.safe_requireSpeakerTurn hc rfl player _ fun turn ↦ ?_
    refine Pact.safe_call hc.stable hc.errorStable ?_ ?_ ?_ ?_
    · exact fun _ _ _ _ _ ↦ ⟨trivial, fun _ ↦ trivial⟩
    · exact fun _ _ _ _ _ _ _ ↦ trivial
    · exact fun _ _ _ _ _ _ ↦ trivial
    · intro sc d result _ hP hr
      have hresult : result = su.check d payload := (Except.ok.inj hr).symm
      subst hresult
      split_ifs with hgood
      · exact ⟨fun _ ↦ True, trivial, hreturn _ (.true i) _⟩
      · rw [Bool.not_eq_true', Bool.not_eq_false] at hgood
        obtain ⟨seconds, hdur, hsec⟩ := duration_of_accepted hgood
        rw [hsec]
        refine ⟨_, ⟨hP, ?_⟩, safe_accept player payload turn.id hdur⟩
        rw [hr]
        exact Option.isSome_of_eq_some (lastSave_saved ..)

theorem sound (su : Setup) : (audioKept su).Sound su undisturbed where
  spawn sc r h := by
    refine ⟨h.written, fun t ht path hpath ↦ ?_⟩
    obtain ⟨i, player, payload, seconds, hacc, hq, hrest⟩ := h.kept t ht path hpath
    exact ⟨i, player, payload, seconds, hacc, Scene.getElem?_spawned hq r, hrest⟩
  after _ _ _ _ _ h := after h
  gone i := .true i
  body i q := by
    cases q with
    | uploadAudio player payload =>
      refine ⟨_, safe_upload player payload, fun sc _ _ _ hlen ↦ ?_⟩
      rw [← hlen]
      exact List.getElem?_concat_length
    | requestPair | confirmLabel | guess | completePair | triage | setDeckStatus =>
      refine Pact.body_of_idle (fun a sc ha _ _ ↦ ?_) (fun _ _ _ _ ↦ trivial) fun _ _ ↦ trivial
      cases a <;> first | exact trivial | exact ha.elim

theorem opening {v : Venue} (hv : v.Opening) : AudioKept su ⟨[], v, []⟩ := by
  refine ⟨nofun, fun t ht ↦ ?_⟩
  rw [hv.turns] at ht
  exact absurd ht List.not_mem_nil

/-! ### Nothing less will do -/

private theorem of_ite_eq_some {payload payload' : Bytes} {good : Bool}
    (h : (if good then some payload else none) = some payload') :
    payload = payload' ∧ good = true := by
  cases good with
  | true => exact ⟨Option.some.inj h, rfl⟩
  | false => cases h

/-- A deed that leaves the accepted audio intact is one `undisturbed` allows. -/
theorem may_of_intact {a : Deed} {d : Draw} {sc : Scene} {v : Venue} (h : AudioKept su sc)
    (htidy : sc.venue.db.Tidy) (hpre : (audioKept su).pre i a sc) (hd : Did su d sc.venue a v)
    (hi : AudioIntact su (sc.after i a v)) : undisturbed.may i a sc := by
  cases a with
  | accepted t =>
    obtain ⟨hpath, hlast, player, payload, seconds, hq, -⟩ := hpre
    refine (wroteLast_iff hq).mpr ?_
    obtain ⟨j, player', payload', -, hacc, hq', hfile, -⟩ := hi t hd.accepted_turn.2.1 _ hpath
    have hj : i = j := Option.some.inj ((acceptor_accepted i t sc.story).symm.trans hacc)
    subst hj
    have hsame : some (Request.uploadAudio player payload) = some (.uploadAudio player' payload') :=
      hq.symm.trans hq'
    cases hsame
    obtain ⟨⟨saved, good⟩, hlast⟩ := Option.isSome_iff_exists.mp hlast
    have hfile : sc.venue.files (.webm t.id) = some payload :=
      (hd.files_of_ne fun _ _ h ↦ by cases h).symm.trans hfile
    rw [h.written t.id saved good hlast] at hfile
    obtain ⟨rfl, rfl⟩ := of_ite_eq_some hfile
    exact hlast
  | saved turnId saved good =>
    intro hpast
    obtain ⟨t, ht, rfl, hs⟩ := Db.pastAudio_iff.mp hpast
    obtain ⟨path, hpath⟩ := Option.ne_none_iff_exists'.mp fun hnone ↦
      hs ((htidy.turn t ht).audio.mp hnone)
    obtain ⟨j, player, payload, -, hacc, hq, rfl, hlast, -⟩ := h.kept t ht path hpath
    obtain ⟨hfiles, hdb⟩ := hd.files_saved
    obtain ⟨j', player', payload', -, hacc', hq', hfile, -⟩ := hi t (hdb ▸ ht) _ hpath
    have hj : j = j' := Option.some.inj (hacc.symm.trans hacc')
    subst hj
    have hsame : some (Request.uploadAudio player payload) = some (.uploadAudio player' payload') :=
      hq.symm.trans hq'
    cases hsame
    obtain ⟨rfl, rfl⟩ := of_ite_eq_some (hfiles.symm.trans hfile)
    exact ⟨hlast, rfl⟩
  | _ => exact trivial

end AudioKept

/-! ## The result -/

/-- **Accepted audio stays intact in an undisturbed run**, and the first event that is not allowed
in one is the first that leaves some accepted audio overwritten or deleted. -/
theorem audio_intact {su : Setup} {c : Config VenueOp Failure Request Venue Reply}
    (h : (venue su).Reach (undisturbed.terms su) c) : AudioIntact su (scene c.world) ∧
      ∀ e c', (venue su).fire c e = some c' →
        (AudioIntact su (scene c'.world) ↔ (undisturbed.terms su).Allows c e) := by
  have hgood : ∀ {c}, (venue su).Reach (undisturbed.terms su) c →
      (audioKept su).Good su undisturbed c :=
    (AudioKept.sound su).good (fun _ hv ↦ AudioKept.opening hv) fun _ _ ↦ trivial
  refine ⟨(hgood h).here.2.intact, fun e c' he ↦ ⟨fun hi ↦ ?_, fun ha ↦ ?_⟩⟩
  · cases e with
    | spawn | fault | kill => exact trivial
    | step i d =>
      obtain ⟨β, op, k, ht, hd, rfl⟩ := System.fire_step he
      intro β' op' k' ht'
      rw [ht'] at ht
      cases ht
      exact (hgood h).here.2.may_of_intact (tidy_of_reach h) ((hgood h).pre ht' d hd)
        (op.did su d (tidy_of_reach h)) hi
  · exact (hgood (h.fire ha he)).here.2.intact

/-! ## A run on the conditions, and one that is not -/

instance (i : ℕ) (turnId : Uuid) (sc : Scene) : Decidable (WroteLast i turnId sc) :=
  match h : sc.requests[i]? with
  | some (.uploadAudio _ _) => decidable_of_iff _ (wroteLast_iff h).symm
  | none | some (.requestPair _) | some (.confirmLabel _) | some (.guess _ _)
  | some (.completePair _ _) | some (.triage _ _ _) | some (.setDeckStatus _ _) =>
    isTrue (by rw [WroteLast, h]; trivial)

instance (i : ℕ) (a : Deed) (sc : Scene) : Decidable (undisturbed.may i a sc) :=
  match a with
  | .saved turnId payload good => inferInstanceAs (Decidable (sc.venue.db.pastAudio turnId = true →
      lastSave turnId sc.story = some (payload, true) ∧ good = true))
  | .accepted t => inferInstanceAs (Decidable (WroteLast i t.id sc))
  | .queued _ | .matched _ | .created _ | .picked _ | .guessed _ | .enqueued _ _ | .triaged _
  | .other => isTrue trivial

instance (i : ℕ) (sc : Scene) : Decidable (undisturbed.lose i sc) := isTrue trivial

/-- A rejected upload is followed by one that is accepted. -/
theorem audio_intact_retried : ∃ c, (venue defaultSetup).Reach (undisturbed.terms defaultSetup) c ∧
    c.world.state.db.pastAudio 115 = true ∧ AudioIntact defaultSetup (scene c.world) := by
  obtain ⟨c, hc, hpast⟩ := System.exists_reach_of_runOn
    (undisturbed.allows_of_permits defaultSetup) opening_threePlayers
    (show ((venue defaultSetup).runOn (undisturbed.permits defaultSetup)
      (System.start threePlayers) (pairUp ++ .spawn (.uploadAudio 1 []) :: calls 2 8 3 ++
        .spawn (.uploadAudio 1 [0, 0]) :: calls 3 11 5)).map
        (fun c ↦ c.world.state.db.pastAudio 115) = some true by decide +kernel)
  exact ⟨c, hc, hpast, (audio_intact hc).1⟩

/-- Two uploads of a turn overlap.  The second is too short; its rejection deletes the file of the
first, which has been accepted in between. -/
theorem audioDeleted : ∃ c, (venue defaultSetup).Reachable c ∧
    ¬AudioIntact defaultSetup (scene c.world) := by
  obtain ⟨c, hc, hrun⟩ := System.exists_reachable_of_run opening_threePlayers
    (show ((venue defaultSetup).run (System.start threePlayers)
      (pairUp ++ .spawn (.uploadAudio 1 [0, 0]) :: calls 2 8 2 ++
        .spawn (.uploadAudio 1 []) :: calls 3 10 2 ++ calls 2 12 2 ++ calls 3 14 1)).map
        (fun c ↦ c.world.state.db.turns.any fun t ↦ t.audioPath == some (.webm t.id) &&
          (c.world.state.files (.webm t.id)).isNone) = some true by decide +kernel)
  obtain ⟨t, ht, hcheck⟩ := List.any_eq_true.mp hrun
  rw [Bool.and_eq_true, beq_iff_eq, Option.isNone_iff_eq_none] at hcheck
  refine ⟨c, hc, fun hi ↦ ?_⟩
  obtain ⟨i, player, payload, seconds, -, -, hfile, -⟩ := hi t ht _ hcheck.1
  exact absurd (hcheck.2.symm.trans hfile) nofun

end Neva
