import Neva.Turns

/-!
# Contracts of the venue

`Calls.Contract` speaks of calls; the results about the venue speak of deeds.  A `Pact` is a
contract whose conditions look only at the `Scene` — the story so far, the venue and the requests
— and at the deed a call turns out to be.  `Pact.contract` is the contract it stands for, and
`Pact.Stable.stable` reduces what has to be shown of the calls of the other programs to one case
for each constructor of `Did`.

`Conditions` restrict a run in the same terms: what a program may do, and when it may be lost.

Most requests have no part in a given pact.  `Idle` says that none of a program's calls can turn
out to be a deed of a given kind, and `Pact.safe_of_idle` disposes of such a program.
-/

set_option autoImplicit false

namespace Neva

open Calls

/-- What a pact looks at. -/
structure Scene where
  story : Story
  venue : Venue
  requests : List Request

def scene (w : World VenueOp Failure Request Venue) : Scene := ⟨story w.trace, w.state, w.requests⟩

namespace Scene

/-- The scene after a request has arrived. -/
def spawned (sc : Scene) (r : Request) : Scene := { sc with requests := sc.requests ++ [r] }

/-- The scene after program `i` has done `a`. -/
def after (sc : Scene) (i : ℕ) (a : Deed) (v : Venue) : Scene :=
  ⟨(i, a) :: sc.story, v, sc.requests⟩

@[simp] theorem spawned_story (sc : Scene) (r : Request) : (sc.spawned r).story = sc.story := rfl
@[simp] theorem spawned_venue (sc : Scene) (r : Request) : (sc.spawned r).venue = sc.venue := rfl

@[simp] theorem after_story (sc : Scene) (i : ℕ) (a : Deed) (v : Venue) :
    (sc.after i a v).story = (i, a) :: sc.story := rfl
@[simp] theorem after_venue (sc : Scene) (i : ℕ) (a : Deed) (v : Venue) :
    (sc.after i a v).venue = v := rfl
@[simp] theorem after_requests (sc : Scene) (i : ℕ) (a : Deed) (v : Venue) :
    (sc.after i a v).requests = sc.requests := rfl

theorem getElem?_spawned {sc : Scene} {i : ℕ} {q : Request} (h : sc.requests[i]? = some q)
    (r : Request) : (sc.spawned r).requests[i]? = some q := by
  have hi : i < sc.requests.length := (List.getElem?_eq_some_iff.mp h).1
  rw [spawned, List.getElem?_append_left hi, h]

end Scene

/-- What a run is restricted to. -/
structure Conditions where
  /-- What program `i` may do. -/
  may : ℕ → Deed → Scene → Prop := fun _ _ _ ↦ True
  /-- When program `i` may die, or a call of it fail. -/
  lose : ℕ → Scene → Prop := fun _ _ ↦ True

def Conditions.terms (C : Conditions) (su : Setup) : Terms VenueOp Failure Draw Request Venue where
  may i op d w := C.may i (deed op (op.exec su d w.state).1) (scene w)
  lose i w := C.lose i (scene w)

/-- The conditions let the event through. -/
def Conditions.permits (C : Conditions) [∀ i a sc, Decidable (C.may i a sc)]
    [∀ i sc, Decidable (C.lose i sc)] (su : Setup)
    (c : Config VenueOp Failure Request Venue Reply) : Event Request Draw Failure → Bool
  | .spawn _ => true
  | .step i d =>
    match c.threads[i]? with
    | some (.live (.call op _)) =>
      decide (C.may i (deed op (op.exec su d c.world.state).1) (scene c.world))
    | _ => false
  | .fault i _ => decide (C.lose i (scene c.world))
  | .kill i => decide (C.lose i (scene c.world))

theorem Conditions.allows_of_permits (C : Conditions) [∀ i a sc, Decidable (C.may i a sc)]
    [∀ i sc, Decidable (C.lose i sc)] (su : Setup)
    (c : Config VenueOp Failure Request Venue Reply) (e : Event Request Draw Failure)
    (h : C.permits su c e = true) : (C.terms su).Allows c e := by
  cases e with
  | spawn r => exact trivial
  | step i d =>
    intro β op k ht
    rw [permits, ht] at h
    have hmay := of_decide_eq_true h
    exact hmay
  | fault i e =>
    have hlose := of_decide_eq_true h
    exact hlose
  | kill i =>
    have hlose := of_decide_eq_true h
    exact hlose

/-- A contract in terms of deeds. -/
structure Pact where
  known : Scene → Prop := fun _ ↦ True
  inv : Scene → Prop
  pre : ℕ → Deed → Scene → Prop := fun _ _ _ ↦ True
  post : Request → ℕ → Except Failure Reply → Scene → Prop := fun _ _ _ _ ↦ True
  gone : ℕ → Scene → Prop := fun _ _ ↦ True

namespace Pact

variable (su : Setup) (C : Conditions) (K : Pact)

/-- The contract a pact stands for. -/
def contract : Contract VenueOp Failure Request Venue Reply where
  known w := w.state.db.Tidy ∧ K.known (scene w)
  inv w := K.inv (scene w)
  pre i op w := ∀ d, (venue su).admits d w.state = true →
    K.pre i (deed op (op.exec su d w.state).1) (scene w)
  post q i r w := K.post q i r (scene w)
  gone i w := K.gone i (scene w)

/-- Program `i` is about to do, or another has just done, `a`: all that may be used of it. -/
structure Step (i : ℕ) (a : Deed) (d : Draw) (sc : Scene) (v : Venue) : Prop where
  tidy : sc.venue.db.Tidy
  new : d.New sc.venue.db
  known : K.known sc
  inv : K.inv sc
  pre : K.pre i a sc
  may : C.may i a sc
  did : Did su d sc.venue a v

/-- What program `i` knows is stable when no arrival and no deed of another undoes it. -/
structure Stable (i : ℕ) (P : Scene → Prop) : Prop where
  spawned : ∀ sc r, P sc → P (sc.spawned r)
  after : ∀ j a d sc v, j ≠ i → K.Step su C j a d sc v → P sc → P (sc.after j a v)

/-- What program `i` knows makes its rest safe. -/
def Safe (i : ℕ) (q : Request) (p : Prog VenueOp Failure Reply) (P : Scene → Prop) : Prop :=
  Contract.Safe (venue su) (C.terms su) (K.contract su) i (fun r w ↦ K.post q i r (scene w)) p
    fun w ↦ P (scene w)

/-- The proof obligations of a pact. -/
structure Sound : Prop where
  spawn : ∀ sc r, K.inv sc → K.inv (sc.spawned r)
  after : ∀ i a d sc v, K.Step su C i a d sc v → K.inv (sc.after i a v)
  gone : ∀ i, K.Stable su C i (K.gone i)
  body : ∀ i q, ∃ P : Scene → Prop, K.Safe su C i q (q.body su) P ∧
    ∀ sc : Scene, K.known sc → K.inv sc → (∀ x ∈ sc.story, x.1 < i) → sc.requests.length = i →
      P (sc.spawned q)

variable {su C K}

theorem Stable.stable {i : ℕ} {P : Scene → Prop} (h : K.Stable su C i P) :
    Contract.Stable (venue su) (C.terms su) (K.contract su) i fun w ↦ P (scene w) where
  spawned w r hw := h.spawned (scene w) r hw
  called j hj _ op d w hh hp hm hd hw :=
    h.after j _ d (scene w) _ hj
      ⟨hh.1.1, new_of_admits hd, hh.1.2, hh.2, hp d hd, hm, op.did su d hh.1.1⟩ hw

theorem Stable.const (i : ℕ) (a : Prop) : K.Stable su C i fun _ ↦ a :=
  ⟨fun _ _ h ↦ h, fun _ _ _ _ _ _ _ h ↦ h⟩

theorem Stable.true (i : ℕ) : K.Stable su C i fun _ ↦ True := .const i True

theorem Stable.and {i : ℕ} {P P' : Scene → Prop} (h : K.Stable su C i P)
    (h' : K.Stable su C i P') : K.Stable su C i fun sc ↦ P sc ∧ P' sc :=
  ⟨fun sc r hsc ↦ ⟨h.spawned sc r hsc.1, h'.spawned sc r hsc.2⟩,
    fun j a d sc v hj hs hsc ↦ ⟨h.after j a d sc v hj hs hsc.1, h'.after j a d sc v hj hs hsc.2⟩⟩

theorem Stable.request (i n : ℕ) (q : Request) :
    K.Stable su C i fun sc ↦ sc.requests[n]? = some q :=
  ⟨fun _ r h ↦ Scene.getElem?_spawned h r, fun _ _ _ _ _ _ _ h ↦ h⟩

/-- What a program knows of its own deeds is stable. -/
theorem Stable.own {γ : Type} {i : ℕ} (g : Story → γ)
    (hg : ∀ j, j ≠ i → ∀ a st, g ((j, a) :: st) = g st) (p : γ → Prop) :
    K.Stable su C i fun sc ↦ p (g sc.story) :=
  ⟨fun _ _ h ↦ h, fun j a _ sc _ hj _ h ↦ by
    rw [Scene.after_story, hg j hj]
    exact h⟩

theorem Sound.sound (h : K.Sound su C) :
    Contract.Sound (venue su) (C.terms su) (K.contract su) where
  spawn w r hh := h.spawn (scene w) r hh.2
  call i _ op d w hh hp hm hd := h.after i _ d (scene w) _
    ⟨hh.1.1, new_of_admits hd, hh.1.2, hh.2, hp d hd, hm, op.did su d hh.1.1⟩
  body w q hh hold := by
    obtain ⟨P, hsafe, hP⟩ := h.body w.requests.length q
    refine ⟨fun w ↦ P (scene w), hP (scene w) hh.1.2 hh.2 ?_ rfl, hsafe⟩
    intro x hx
    obtain ⟨y, hy, rfl⟩ := List.mem_map.mp hx
    exact hold y hy
  gone i := (h.gone i).stable

/-- A configuration in which a pact is being kept. -/
abbrev Good (su : Setup) (C : Conditions) (K : Pact)
    (c : Config VenueOp Failure Request Venue Reply) : Prop :=
  Contract.Good (venue su) (C.terms su) (K.contract su) c

/-- **A sound pact is kept in every configuration reached on its conditions.** -/
theorem Sound.good (h : K.Sound su C) (hinit : ∀ v, v.Opening → K.inv ⟨[], v, []⟩)
    (hknown : ∀ c, (venue su).Reach (C.terms su) c → K.known (scene c.world))
    {c : Config VenueOp Failure Request Venue Reply} (hc : (venue su).Reach (C.terms su) c) :
    Good su C K c :=
  h.sound.good (fun v hv ↦ hinit v hv) (fun c hc ↦ ⟨tidy_of_reach hc, hknown c hc⟩) hc

/-! ## Rules for programs -/

theorem safe_return {i : ℕ} {q : Request} {reply : Reply} {P : Scene → Prop}
    (hP : K.Stable su C i P) (hpost : ∀ sc, K.inv sc → P sc → K.post q i (.ok reply) sc) :
    K.Safe su C i q (pure reply) P :=
  Contract.safe_pure hP.stable fun w hh hw ↦ hpost (scene w) hh.2 hw

theorem safe_raise {i : ℕ} {q : Request} {e : Failure} {P : Scene → Prop}
    (hP : K.Stable su C i P) (hpost : ∀ sc, K.inv sc → P sc → K.post q i (.error e) sc) :
    K.Safe su C i q (Prog.raise e) P :=
  Contract.safe_raise hP.stable fun w hh hw ↦ hpost (scene w) hh.2 hw

/-- The next call of a program, when nothing is promised of a program that raises. -/
theorem safe_call {i : ℕ} {q : Request} {β : Type} {op : VenueOp β}
    {f : β → Prog VenueOp Failure Reply} {P : Scene → Prop} (hP : K.Stable su C i P)
    (hQ : ∀ e, K.Stable su C i (K.post q i (.error e)))
    (hlose : ∀ sc, K.known sc → K.inv sc → P sc → C.lose i sc →
      K.gone i sc ∧ ∀ e, K.post q i (.error e) sc)
    (hpre : ∀ sc d, sc.venue.db.Tidy → d.New sc.venue.db → K.known sc → K.inv sc → P sc →
      K.pre i (deed op (op.exec su d sc.venue).1) sc)
    (herr : ∀ sc d e, K.Step su C i (deed op (op.exec su d sc.venue).1) d sc
        (op.exec su d sc.venue).2 → P sc → (op.exec su d sc.venue).1 = .error e →
      K.post q i (.error e) (sc.after i (deed op (op.exec su d sc.venue).1)
        (op.exec su d sc.venue).2))
    (hok : ∀ sc d b, K.Step su C i (deed op (op.exec su d sc.venue).1) d sc
        (op.exec su d sc.venue).2 → P sc → (op.exec su d sc.venue).1 = .ok b →
      ∃ P', P' (sc.after i (deed op (op.exec su d sc.venue).1) (op.exec su d sc.venue).2) ∧
        K.Safe su C i q (f b) P') :
    K.Safe su C i q (Prog.perform op >>= f) P := by
  refine Contract.safe_perform hP.stable (fun e ↦ (hQ e).stable) ?_ ?_ ?_ ?_
  · exact fun w hh hw d hd ↦ hpre (scene w) d hh.1.1 (new_of_admits hd) hh.1.2 hh.2 hw
  · exact fun w hh hw hl ↦ hlose (scene w) hh.1.2 hh.2 hw hl
  · intro w d e hh hw hm hd hr
    exact herr (scene w) d e ⟨hh.1.1, new_of_admits hd, hh.1.2, hh.2,
      hpre (scene w) d hh.1.1 (new_of_admits hd) hh.1.2 hh.2 hw, hm, op.did su d hh.1.1⟩ hw hr
  · intro w d b hh hw hm hd hr
    obtain ⟨P', hP', hs⟩ := hok (scene w) d b ⟨hh.1.1, new_of_admits hd, hh.1.2, hh.2,
      hpre (scene w) d hh.1.1 (new_of_admits hd) hh.1.2 hh.2 hw, hm, op.did su d hh.1.1⟩ hw hr
    exact ⟨fun w ↦ P' (scene w), hP', hs⟩

end Pact

/-! ## Programs without a part -/

/-- Whatever its calls answer, every deed of the program satisfies `ok`. -/
def Idle (ok : Deed → Prop) : Prog VenueOp Failure Reply → Prop
  | .done _ => True
  | .call op k => (∀ r, ok (deed op r)) ∧ ∀ r, Idle ok (k r)

theorem idle_pure {ok : Deed → Prop} (reply : Reply) :
    Idle ok (pure reply : Prog VenueOp Failure Reply) := trivial

theorem idle_raise {ok : Deed → Prop} (e : Failure) : Idle ok (Prog.raise e) := trivial

theorem idle_perform {ok : Deed → Prop} {β : Type} {op : VenueOp β}
    {f : β → Prog VenueOp Failure Reply} (hop : ∀ r, ok (deed op r)) (hf : ∀ b, Idle ok (f b)) :
    Idle ok (Prog.perform op >>= f) := by
  rw [Prog.perform_bind]
  refine ⟨hop, fun r ↦ ?_⟩
  cases r with
  | ok b => exact hf b
  | error e => exact trivial

/-! ## Which request does what -/

/-- The deeds a request may turn out to do. -/
def Request.Does : Request → Deed → Prop
  | _, .other => True
  | .requestPair _, .queued _ => True
  | .requestPair _, .matched _ => True
  | .uploadAudio _ payload, .saved _ payload' _ => payload' = payload
  | .uploadAudio _ _, .accepted _ => True
  | .uploadAudio _ _, .enqueued kind _ => kind = .triage
  | .guess _ _, .guessed _ => True
  | .guess _ _, .enqueued kind _ => kind = .package
  | .guess _ _, .picked _ => True
  | .guess _ _, .created _ => True
  | .triage _ _ _, .triaged _ => True
  | _, _ => False

/-- The two reads of `_require_speaker_turn`. -/
theorem idle_requireSpeakerTurn {ok : Deed → Prop} (hother : ok .other) (player : Uuid)
    (expectedStatus : TurnStatus) {f : TurnRecord → Prog VenueOp Failure Reply}
    (hf : ∀ turn, Idle ok (f turn)) :
    Idle ok (GameService.requireSpeakerTurn player expectedStatus >>= f) := by
  rw [GameService.requireSpeakerTurn, Prog.bind_assoc]
  refine idle_perform (fun _ ↦ hother) fun pair ↦ ?_
  cases pair with
  | none => exact idle_raise _
  | some pair =>
    dsimp only
    rw [Prog.bind_assoc]
    refine idle_perform (fun _ ↦ hother) fun turn ↦ ?_
    cases turn with
    | none => exact idle_raise _
    | some turn =>
      dsimp only
      split_ifs
      · exact idle_raise _
      · exact idle_raise _
      · exact hf turn

theorem idle_advance {ok : Deed → Prop} (hother : ok .other) (hpicked : ∀ card, ok (.picked card))
    (hcreated : ∀ t, ok (.created t)) (roundsCap : ℤ) (turn : TurnRecord) :
    Idle ok (GameService.advance roundsCap turn) := by
  refine idle_perform (fun _ ↦ hother) fun capped ↦ ?_
  split_ifs
  · exact idle_pure _
  · refine idle_perform (fun r ↦ ?_) fun card ↦ ?_
    · cases r with
      | ok card => exact hpicked card
      | error e => exact hother
    · cases card with
      | none => exact idle_pure _
      | some card =>
        refine idle_perform (fun r ↦ ?_) fun _ ↦ idle_pure _
        cases r with
        | ok t => exact hcreated t
        | error e => exact hother

/-- **No request does anything but the deeds it may do.** -/
theorem Request.body_does (su : Setup) (q : Request) : Idle q.Does (q.body su) := by
  cases q with
  | requestPair player =>
    refine idle_perform (fun _ ↦ trivial) fun stats ↦ ?_
    split_ifs
    · exact idle_raise _
    · refine idle_perform (fun _ ↦ trivial) fun existing ↦ ?_
      cases existing with
      | some pair => exact idle_pure _
      | none =>
        refine idle_perform (fun r ↦ ?_) fun _ ↦ idle_perform (fun r ↦ ?_) fun pair ↦ idle_pure _
        · cases r <;> exact trivial
        · cases r <;> exact trivial
  | uploadAudio player payload =>
    rw [Request.body, GameService.uploadAudio]
    split_ifs
    · exact idle_pure _
    · refine idle_requireSpeakerTurn trivial player _ fun turn ↦ ?_
      refine idle_perform (fun r ↦ ?_) fun result ↦ ?_
      · cases r with
        | ok result => exact rfl
        | error e => exact trivial
      · split_ifs
        · exact idle_pure _
        · refine idle_perform (fun r ↦ ?_) fun _ ↦ idle_perform (fun r ↦ ?_) fun _ ↦ idle_pure _
          · cases r <;> exact trivial
          · cases r with
            | ok created => exact rfl
            | error e => exact trivial
  | confirmLabel player =>
    refine idle_requireSpeakerTurn trivial player _ fun turn ↦ ?_
    exact idle_perform (fun _ ↦ trivial) fun _ ↦ idle_pure _
  | guess player optionId =>
    refine idle_perform (fun _ ↦ trivial) fun pair ↦ ?_
    cases pair with
    | none => exact idle_raise _
    | some pair =>
      refine idle_perform (fun _ ↦ trivial) fun turn ↦ ?_
      cases turn with
      | none => exact idle_raise _
      | some turn =>
        dsimp only
        split_ifs
        · exact idle_raise _
        · exact idle_raise _
        · refine idle_perform (fun r ↦ ?_) fun updated ↦ ?_
          · cases r <;> exact trivial
          · split_ifs
            · refine idle_perform (fun _ ↦ trivial) fun fresh ↦ ?_
              have hadvance : Idle (Request.guess player optionId).Does
                  (GameService.advance su.roundsCap updated) :=
                idle_advance trivial (fun _ ↦ trivial) (fun _ ↦ trivial) _ _
              split_ifs
              · refine idle_perform (fun r ↦ ?_) fun _ ↦ hadvance
                cases r with
                | ok created => exact rfl
                | error e => exact trivial
              · exact hadvance
            · exact idle_pure _
  | completePair pairId roundsCap => exact idle_perform (fun _ ↦ trivial) fun _ ↦ idle_pure _
  | triage turnId quality fingerprint =>
    refine idle_perform (fun _ ↦ trivial) fun context ↦ ?_
    cases context with
    | none => exact idle_raise _
    | some turn =>
      refine idle_perform (fun r ↦ ?_) fun _ ↦ idle_pure _
      cases r <;> exact trivial
  | setDeckStatus deckId status => exact idle_perform (fun _ ↦ trivial) fun _ ↦ idle_pure _

/-! ## What a program carries along -/

namespace Pact

/-- What program `i` knows survives its own deeds of the kind `ok`, which need nothing more, and is
all that is asked of it when it is lost or raises. -/
structure Carried (su : Setup) (C : Conditions) (K : Pact) (ok : Deed → Prop) (i : ℕ) (q : Request)
    (P : Scene → Prop) : Prop where
  stable : K.Stable su C i P
  pre : ∀ a sc, ok a → K.inv sc → P sc → K.pre i a sc
  own : ∀ a d sc v, ok a → K.Step su C i a d sc v → P sc → P (sc.after i a v)
  gone : ∀ sc, K.inv sc → P sc → C.lose i sc → K.gone i sc
  error : ∀ e sc, P sc → K.post q i (.error e) sc
  errorStable : ∀ e, K.Stable su C i (K.post q i (.error e))

variable {su : Setup} {C : Conditions} {K : Pact} {ok : Deed → Prop} {i : ℕ} {q : Request}
  {P : Scene → Prop}

/-- A call that is none of the program's business. -/
theorem safe_quiet (hc : K.Carried su C ok i q P) {β : Type} {op : VenueOp β}
    {f : β → Prog VenueOp Failure Reply} (hop : ∀ r, ok (deed op r))
    (hf : ∀ b, K.Safe su C i q (f b) P) : K.Safe su C i q (Prog.perform op >>= f) P := by
  refine safe_call hc.stable hc.errorStable ?_ ?_ ?_ ?_
  · exact fun sc _ hi hP hl ↦ ⟨hc.gone sc hi hP hl, fun e ↦ hc.error e sc hP⟩
  · exact fun sc d _ _ _ hi hP ↦ hc.pre _ sc (hop _) hi hP
  · exact fun sc d e hs hP _ ↦ hc.error e _ (hc.own _ d sc _ (hop _) hs hP)
  · exact fun sc d b hs hP _ ↦ ⟨P, hc.own _ d sc _ (hop _) hs hP, hf b⟩

/-- The two reads of `_require_speaker_turn`. -/
theorem safe_requireSpeakerTurn (hc : K.Carried su C ok i q P) (hother : ok .other)
    (player : Uuid) (expectedStatus : TurnStatus) {f : TurnRecord → Prog VenueOp Failure Reply}
    (hf : ∀ turn, K.Safe su C i q (f turn) P) :
    K.Safe su C i q (GameService.requireSpeakerTurn player expectedStatus >>= f) P := by
  have hraise : ∀ e, K.Safe su C i q (Prog.raise e) P := fun e ↦
    safe_raise hc.stable fun sc _ hP ↦ hc.error e sc hP
  rw [GameService.requireSpeakerTurn, Prog.bind_assoc]
  refine safe_quiet hc (fun _ ↦ hother) fun pair ↦ ?_
  cases pair with
  | none => exact hraise _
  | some pair =>
    dsimp only
    rw [Prog.bind_assoc]
    refine safe_quiet hc (fun _ ↦ hother) fun turn ↦ ?_
    cases turn with
    | none => exact hraise _
    | some turn =>
      dsimp only
      split_ifs
      · exact hraise _
      · exact hraise _
      · exact hf turn

/-- A guess, up to the update. -/
theorem safe_guess (hc : K.Carried su C ok i q P) (hother : ok .other) (player optionId : Uuid)
    (h : ∀ turnId correct, K.Safe su C i q (GameService.store (.applyGuess turnId correct) >>=
      fun updated ↦ if updated.status = .scored then GameService.afterScored su.roundsCap updated
        else return .ok) P) :
    K.Safe su C i q ((Request.guess player optionId).body su) P := by
  have hraise : ∀ e, K.Safe su C i q (Prog.raise e) P := fun e ↦
    safe_raise hc.stable fun sc _ hP ↦ hc.error e sc hP
  refine safe_quiet hc (fun _ ↦ hother) fun pair ↦ ?_
  cases pair with
  | none => exact hraise _
  | some pair =>
    refine safe_quiet hc (fun _ ↦ hother) fun turn ↦ ?_
    cases turn with
    | none => exact hraise _
    | some turn =>
      dsimp only
      split_ifs
      · exact hraise _
      · exact hraise _
      · exact h turn.id _

/-- A program whose deeds are none of its business. -/
theorem safe_of_idle (hc : K.Carried su C ok i q P) {p : Prog VenueOp Failure Reply}
    (hp : Idle ok p) (hpost : ∀ r sc, P sc → K.post q i r sc) : K.Safe su C i q p P := by
  induction p with
  | done r => exact ⟨hc.stable.stable, fun w _ ↦ hpost r (scene w)⟩
  | call op k ih =>
    refine ⟨hc.stable.stable, fun w hh hw ↦ ⟨fun d _ ↦ hc.pre _ _ (hp.1 _) hh.2 hw, ?_, ?_⟩⟩
    · exact fun hl ↦ ⟨hc.gone _ hh.2 hw hl, fun e ↦ ⟨_, hw, ih (.error e) (hp.2 _)⟩⟩
    · intro d hd hm
      have hs : K.Step su C i (deed op (op.exec su d w.state).1) d (scene w)
          (op.exec su d w.state).2 := ⟨hh.1.1, new_of_admits hd, hh.1.2, hh.2,
        hc.pre _ _ (hp.1 _) hh.2 hw, hm, op.did su d hh.1.1⟩
      exact ⟨_, hc.own _ d _ _ (hp.1 _) hs hw, ih _ (hp.2 _)⟩

/-- A request without a part in the pact. -/
theorem body_of_idle (hpre : ∀ a sc, q.Does a → K.inv sc → sc.requests[i]? = some q →
      K.pre i a sc)
    (hgone : ∀ sc, K.inv sc → sc.requests[i]? = some q → C.lose i sc → K.gone i sc)
    (hpost : ∀ r sc, K.post q i r sc) :
    ∃ P : Scene → Prop, K.Safe su C i q (q.body su) P ∧
      ∀ sc : Scene, K.known sc → K.inv sc → (∀ x ∈ sc.story, x.1 < i) → sc.requests.length = i →
        P (sc.spawned q) := by
  have hc : K.Carried su C q.Does i q fun sc ↦ sc.requests[i]? = some q :=
    ⟨.request i i q, hpre, fun _ _ _ _ _ _ h ↦ h, hgone, fun e sc _ ↦ hpost _ sc,
      fun e ↦ ⟨fun sc _ _ ↦ hpost _ _, fun _ _ _ _ _ _ _ _ ↦ hpost _ _⟩⟩
  refine ⟨_, safe_of_idle hc (q.body_does su) fun r sc _ ↦ hpost r sc, ?_⟩
  rintro sc - - - rfl
  exact List.getElem?_concat_length

end Pact

end Neva
