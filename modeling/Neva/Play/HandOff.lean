import Neva.Pact

/-!
# Triage and package

A turn is packaged once it is both scored and triaged, and the two come from different sides: a
guess scores the turn and looks whether a quality is there, `persist_triage` stores the quality and
looks whether the turn is scored.  Each side inserts the job if it finds the other half done.

`persist_triage` writes and looks in one transaction.  The guess does not: it scores, reads the turn
again, and inserts, in three steps.  What makes this enough is that it reads *after* it has scored,
so a triage that the read misses finds the turn scored.  `Db.Packaged` is what the guess has to
establish — the turn is scored, and if it has been triaged its job is there — and every later step
keeps it.
-/

set_option autoImplicit false

namespace Neva

open Calls Tables

namespace Db

def Scored (db : Db) (turnId : Uuid) : Prop := ∃ t ∈ db.turns, t.id = turnId ∧ t.status = .scored

/-- The turn is scored and triaged. -/
def Ready (db : Db) (turnId : Uuid) : Prop :=
  ∃ t ∈ db.turns, t.id = turnId ∧ t.status = .scored ∧ t.quality.isSome

/-- The turn is scored, and if it has been triaged its package job is there. -/
def Packaged (db : Db) (turnId : Uuid) : Prop :=
  db.Scored turnId ∧
    ((∃ t ∈ db.turns, t.id = turnId ∧ t.quality.isSome) → db.hasJob .package turnId = true)

end Db

/-! ## The turns a program has scored -/

/-- The turn the deed has scored. -/
def Deed.scores : Deed → Option Uuid
  | .guessed t => if t.status = .scored then some t.id else none
  | _ => none

/-- The turns program `i` has scored, newest first. -/
def scoredBy (i : ℕ) : Story → List Uuid
  | [] => []
  | (j, a) :: st => if j = i then a.scores.toList ++ scoredBy i st else scoredBy i st

theorem scoredBy_ne {i j : ℕ} (h : j ≠ i) (a : Deed) (st : Story) :
    scoredBy i ((j, a) :: st) = scoredBy i st :=
  if_neg h

theorem scoredBy_self (i : ℕ) (a : Deed) (st : Story) :
    scoredBy i ((i, a) :: st) = a.scores.toList ++ scoredBy i st :=
  if_pos rfl

theorem mem_scoredBy {i : ℕ} {st : Story} {t : TurnRecord} (h : (i, .guessed t) ∈ st)
    (hs : t.status = .scored) : t.id ∈ scoredBy i st := by
  induction st with
  | nil => exact absurd h List.not_mem_nil
  | cons x st ih =>
    obtain ⟨j, a⟩ := x
    rcases List.mem_cons.mp h with heq | h
    · cases heq
      rw [scoredBy_self, Deed.scores, if_pos hs]
      exact List.mem_cons_self
    · rw [scoredBy]
      split
      · exact List.mem_append_right _ (ih h)
      · exact ih h

theorem scoredBy_eq_nil {i : ℕ} {st : Story} (h : ∀ x ∈ st, x.1 < i) : scoredBy i st = [] := by
  induction st with
  | nil => rfl
  | cons x st ih =>
    rw [scoredBy, if_neg (h x List.mem_cons_self).ne]
    exact ih fun y hy ↦ h y (List.mem_cons_of_mem _ hy)

/-! ## What the deeds keep -/

section

variable {su : Setup} {d : Draw} {v v' : Venue} {a : Deed}

theorem Did.scored_kept (hd : Did su d v a v') (h : v.db.Tidy) {turnId : Uuid}
    (hs : v.db.Scored turnId) : v'.db.Scored turnId := by
  obtain ⟨t, ht, hid, hs⟩ := hs
  obtain ⟨t', ht', hl⟩ := hd.turnsStep.kept h ht
  exact ⟨t', ht', hl.id.trans hid, hl.scored hs⟩

theorem Did.ready_kept (hd : Did su d v a v') (h : v.db.Tidy) {turnId : Uuid}
    (hs : v.db.Ready turnId) : v'.db.Ready turnId := by
  obtain ⟨t, ht, hid, hs, hq⟩ := hs
  obtain ⟨t', ht', hl⟩ := hd.turnsStep.kept h ht
  exact ⟨t', ht', hl.id.trans hid, hl.scored hs, hl.quality hq⟩

/-- **What has been handed over stays so**: a triage that comes later finds the turn scored. -/
theorem Did.packaged_kept (hd : Did su d v a v') (h : v.db.Tidy) (hn : d.New v.db) {turnId : Uuid}
    (hs : v.db.Packaged turnId) : v'.db.Packaged turnId := by
  have hscored := hd.scored_kept h hs.1
  refine ⟨hscored, ?_⟩
  rintro ⟨t, ht, rfl, hq⟩
  rcases hd.quality_origin ht hq with ⟨t₀, ht₀, hid, hq₀⟩ | ⟨-, hjob⟩
  · exact hd.hasJob_kept (hs.2 ⟨t₀, ht₀, hid, hq₀⟩)
  · obtain ⟨t', ht', hid, hs'⟩ := hscored
    rw [(hd.tidy h hn).turnIds.eq ht' ht hid] at hs'
    exact hjob hs'

/-- A triage of a turn that is there stores its quality. -/
theorem Did.quality_triaged {turnId : Uuid} (hd : Did su d v (.triaged turnId) v')
    (hthere : ∃ t ∈ v.db.turns, t.id = turnId) :
    ∃ t ∈ v'.db.turns, t.id = turnId ∧ t.quality.isSome := by
  cases hd with
  | @triaged t quality db ht hplayers hqueue hpairs hcards hturns hjobs =>
    refine ⟨t.triaged (.flac t.id) quality, ?_, rfl, rfl⟩
    show _ ∈ db.turns
    rw [hturns]
    exact (Db.mem_putTurn ht (t.triaged_id _ _)).mpr (.inl rfl)
  | untriaged hnone =>
    obtain ⟨t, ht, hid⟩ := hthere
    exact absurd hid (Tables.find?_eq_none.mp hnone t ht)

end

/-! ## The pact -/

/-- Only turns that are ready have a package job, and a triage that has committed is to be seen. -/
structure HandOff (sc : Scene) : Prop where
  ready : ∀ j ∈ sc.venue.db.jobs, j.kind = .package → sc.venue.db.Ready j.turnId
  triaged : ∀ i turnId, (i, .triaged turnId) ∈ sc.story →
    ∃ t ∈ sc.venue.db.turns, t.id = turnId ∧ t.quality.isSome

/-- The program has run to its end: it has returned, or it has raised in a run in which no call
fails and no program dies. -/
def Conditions.Finished (C : Conditions) (r : Except Failure Reply) : Prop :=
  (∃ reply, r = .ok reply) ∨ ∀ i sc, ¬C.lose i sc

/-- The pact of scoring and triage. -/
def handOff (C : Conditions) : Pact where
  inv := HandOff
  pre _ a sc :=
    match a with
    | .enqueued kind turnId => kind = .package → sc.venue.db.Ready turnId
    | .triaged turnId => ∃ t ∈ sc.venue.db.turns, t.id = turnId
    | _ => True
  post q i r sc :=
    match q with
    | .guess _ _ => C.Finished r → ∀ turnId ∈ scoredBy i sc.story, sc.venue.db.Packaged turnId
    | _ => True

namespace HandOff

variable {su : Setup} {C : Conditions} {i : ℕ} {q : Request}

theorem after {a : Deed} {d : Draw} {sc : Scene} {v : Venue}
    (h : (handOff C).Step su C i a d sc v) : HandOff (sc.after i a v) where
  ready j hj hkind := by
    rcases h.did.job_origin hj with hold | rfl | ⟨-, t, ht, hid, hs, hq⟩
    · exact h.did.ready_kept h.tidy (h.inv.ready j hold hkind)
    · exact h.did.ready_kept h.tidy (h.pre hkind)
    · exact ⟨t, ht, hid, hs, hq⟩
  triaged j turnId hmem := by
    rcases List.mem_cons.mp hmem with heq | hmem
    · cases heq
      exact h.did.quality_triaged h.pre
    · obtain ⟨t, ht, hid, hq⟩ := h.inv.triaged j turnId hmem
      obtain ⟨t', ht', hl⟩ := h.did.turnsStep.kept h.tidy ht
      exact ⟨t', ht', hl.id.trans hid, hl.quality hq⟩

/-- What a guess knows: the turns it has scored, and something of the tables. -/
def Knows (i : ℕ) (turnIds : List Uuid) (p : Db → Prop) (sc : Scene) : Prop :=
  scoredBy i sc.story = turnIds ∧ p sc.venue.db

theorem Knows.stable {turnIds : List Uuid} {p : Db → Prop}
    (hp : ∀ {j a d sc v}, (handOff C).Step su C j a d sc v → p sc.venue.db → p v.db) :
    (handOff C).Stable su C i (Knows i turnIds p) where
  spawned _ _ h := h
  after j a d sc v hj h hP := by
    refine ⟨?_, hp h hP.2⟩
    rw [Scene.after_story, scoredBy_ne hj]
    exact hP.1

theorem stable_post (q : Request) (r : Except Failure Reply) :
    (handOff C).Stable su C i ((handOff C).post q i r) := by
  cases q with
  | guess player optionId =>
    refine ⟨fun _ _ h ↦ h, fun j a d sc v hj h hP hr turnId hmem ↦ ?_⟩
    rw [Scene.after_story, scoredBy_ne hj] at hmem
    exact h.did.packaged_kept h.tidy h.new (hP hr turnId hmem)
  | requestPair | uploadAudio | confirmLabel | completePair | triage | setDeckStatus =>
    exact .true i

theorem Knows.own {turnIds : List Uuid} {p : Db → Prop} {sc : Scene} (hP : Knows i turnIds p sc)
    (a : Deed) (p' : Db → Prop) {v : Venue} (hp : p' v.db) :
    Knows i (a.scores.toList ++ turnIds) p' (sc.after i a v) := by
  refine ⟨?_, hp⟩
  rw [Scene.after_story, scoredBy_self, hP.1]

/-- A program that may be lost here need not finish. -/
theorem not_finished {sc : Scene} (hl : C.lose i sc) (e : Failure) : ¬C.Finished (.error e) := by
  rintro (⟨reply, hr⟩ | hnever)
  · cases hr
  · exact hnever i sc hl

/-! ### The guess -/

/-- The deeds that follow the hand-off. -/
def Follows : Deed → Prop
  | .other | .picked _ | .created _ => True
  | _ => False

/-- The hand-off is done. -/
theorem carried_packaged (player optionId turnId : Uuid) :
    (handOff C).Carried su C Follows i (.guess player optionId)
      (Knows i [turnId] (·.Packaged turnId)) where
  stable := Knows.stable fun h hp ↦ h.did.packaged_kept h.tidy h.new hp
  pre a sc ha _ _ := by
    cases a <;> first | exact trivial | exact ha.elim
  own a d sc v ha h hP := by
    have hown := hP.own a (·.Packaged turnId) (h.did.packaged_kept h.tidy h.new hP.2)
    cases a <;> first | exact hown | exact ha.elim
  gone _ _ _ _ := trivial
  error e sc hP _ turnId' hmem := by
    rw [hP.1, List.mem_singleton] at hmem
    exact hmem ▸ hP.2
  errorStable e := stable_post _ _

theorem safe_advance (player optionId : Uuid) (u : TurnRecord) :
    (handOff C).Safe su C i (.guess player optionId) (GameService.advance su.roundsCap u)
      (Knows i [u.id] (·.Packaged u.id)) := by
  have hc := @carried_packaged su C i player optionId u.id
  refine Pact.safe_of_idle hc ?_ fun r sc hP _ turnId hmem ↦ ?_
  · exact idle_advance trivial (fun _ ↦ trivial) (fun _ ↦ trivial) _ _
  · rw [hP.1, List.mem_singleton] at hmem
    exact hmem ▸ hP.2

/-- The insertion of the job, once the turn is seen to be ready. -/
theorem safe_enqueue (player optionId : Uuid) (u : TurnRecord) :
    (handOff C).Safe su C i (.guess player optionId)
      (GameService.store (.enqueueJob .package u.id) >>= fun _ ↦
        GameService.advance su.roundsCap u)
      (Knows i [u.id] (·.Ready u.id)) := by
  refine Pact.safe_call (Knows.stable fun h hp ↦ h.did.ready_kept h.tidy hp)
    (fun e ↦ stable_post _ _) ?_ ?_ ?_ ?_
  · exact fun sc _ _ _ hl ↦ ⟨trivial, fun e hr ↦ absurd hr (not_finished hl e)⟩
  · intro sc d htidy _ _ _ hP
    obtain ⟨hr, -⟩ := su.backend.promise su.cfg htidy d (.enqueueJob .package u.id)
    rw [VenueOp.exec, hr]
    exact fun _ ↦ hP.2
  · intro sc d e h hP he
    obtain ⟨hr, -⟩ := su.backend.promise su.cfg h.tidy d (.enqueueJob .package u.id)
    rw [VenueOp.exec, hr] at he
    cases he
  · intro sc d b h hP hr
    rw [hr] at h ⊢
    obtain ⟨t, ht, hid, hs, -⟩ := h.did.ready_kept h.tidy hP.2
    exact ⟨_, hP.own (.enqueued .package u.id) (·.Packaged u.id)
      ⟨⟨t, ht, hid, hs⟩, fun _ ↦ h.did.hasJob_enqueued⟩, safe_advance player optionId u⟩

/-- The read after scoring decides who inserts the job. -/
theorem safe_afterScored (player optionId : Uuid) (u : TurnRecord) :
    (handOff C).Safe su C i (.guess player optionId) (GameService.afterScored su.roundsCap u)
      (Knows i [u.id] (·.Scored u.id)) := by
  refine Pact.safe_call (Knows.stable fun h hp ↦ h.did.scored_kept h.tidy hp)
    (fun e ↦ stable_post _ _) ?_ ?_ ?_ ?_
  · exact fun sc _ _ _ hl ↦ ⟨trivial, fun e hr ↦ absurd hr (not_finished hl e)⟩
  · intro sc d htidy _ _ _ hP
    cases ((VenueOp.store (.getTurn u.id)).exec su d sc.venue).1 <;> exact trivial
  · intro sc d e h hP he
    obtain ⟨-, hr⟩ := su.backend.promise su.cfg h.tidy d (.getTurn u.id)
    rw [VenueOp.exec, hr] at he
    cases he
  · intro sc d fresh h hP hr
    obtain ⟨t, ht, hid, hs⟩ := hP.2
    have hfresh : fresh = some t := by
      obtain ⟨-, hr'⟩ := su.backend.promise su.cfg h.tidy d (.getTurn u.id)
      rw [VenueOp.exec, hr'] at hr
      rw [← Except.ok.inj hr]
      exact (Db.findTurn_eq_some h.tidy.turnIds).mpr ⟨ht, hid⟩
    subst hfresh
    rw [hr] at h ⊢
    split_ifs with hq
    · exact ⟨_, hP.own .other (·.Ready u.id) (h.did.ready_kept h.tidy ⟨t, ht, hid, hs, hq⟩),
        safe_enqueue player optionId u⟩
    · refine ⟨_, hP.own .other (·.Packaged u.id)
        (h.did.packaged_kept h.tidy h.new ⟨⟨t, ht, hid, hs⟩, ?_⟩), safe_advance player optionId u⟩
      rintro ⟨t', ht', hid', hq'⟩
      rw [h.tidy.turnIds.eq ht' ht (hid'.trans hid.symm)] at hq'
      exact absurd hq' hq

theorem safe_guess (player optionId : Uuid) :
    (handOff C).Safe su C i (.guess player optionId) ((Request.guess player optionId).body su)
      (Knows i [] fun _ ↦ True) := by
  have hpost : ∀ r sc, Knows i [] (fun _ ↦ True) sc →
      (handOff C).post (.guess player optionId) i r sc := by
    rintro r sc ⟨hP, -⟩ _ turnId hmem
    rw [hP] at hmem
    exact absurd hmem List.not_mem_nil
  have hc : (handOff C).Carried su C (fun a ↦ a = .other) i (.guess player optionId)
      (Knows i [] fun _ ↦ True) := by
    refine ⟨Knows.stable fun _ h ↦ h, fun a sc ha _ _ ↦ ha ▸ trivial, ?_,
      fun _ _ _ _ ↦ trivial, fun e sc hP ↦ hpost _ sc hP, fun e ↦ stable_post _ _⟩
    rintro a d sc v rfl _ hP
    exact hP.own .other (fun _ ↦ True) trivial
  refine Pact.safe_guess hc rfl player optionId fun turnId correct ↦ ?_
  refine Pact.safe_call hc.stable hc.errorStable ?_ ?_ ?_ ?_
  · exact fun sc _ _ hP _ ↦ ⟨trivial, fun e ↦ hpost _ sc hP⟩
  · intro sc d _ _ _ _ _
    cases ((VenueOp.store (.applyGuess turnId correct)).exec su d sc.venue).1 <;> exact trivial
  · intro sc d e h hP hr
    rw [hr]
    exact hpost _ _ (hP.own .other (fun _ ↦ True) trivial)
  · intro sc d updated h hP hr
    rw [hr] at h ⊢
    have hscores : (Deed.guessed updated).scores =
      if updated.status = .scored then some updated.id else none := rfl
    split_ifs with hs
    · rw [if_pos hs] at hscores
      refine ⟨Knows i [updated.id] (·.Scored updated.id), ?_,
        safe_afterScored player optionId updated⟩
      have hown := hP.own (.guessed updated) (·.Scored updated.id)
        ⟨updated, h.did.guessed_turn.1, rfl, hs⟩
      rw [hscores] at hown
      exact hown
    · rw [if_neg hs] at hscores
      refine ⟨_, ?_, Pact.safe_return hc.stable fun sc _ hP ↦ hpost _ sc hP⟩
      have hown := @Knows.own i [] _ sc hP (.guessed updated) (fun _ ↦ True)
        ((VenueOp.store (.applyGuess turnId correct)).exec su d sc.venue).2 trivial
      rw [hscores] at hown
      exact hown

/-! ### The triage, and the rest -/

theorem safe_triage (turnId : Uuid) (quality : Quality)
    (fingerprint : Option AcousticFingerprint) :
    (handOff C).Safe su C i (.triage turnId quality fingerprint)
      ((Request.triage turnId quality fingerprint).body su) fun _ ↦ True := by
  have hpost : ∀ r, (handOff C).Stable su C i
      ((handOff C).post (.triage turnId quality fingerprint) i r) := fun _ ↦ .true i
  refine Pact.safe_call (.true i) (fun e ↦ hpost _) ?_ ?_ ?_ ?_
  · exact fun _ _ _ _ _ ↦ ⟨trivial, fun _ ↦ trivial⟩
  · exact fun _ _ _ _ _ _ _ ↦ trivial
  · exact fun _ _ _ _ _ _ ↦ trivial
  · intro sc d context h _ hr
    cases context with
    | none => exact ⟨fun _ ↦ True, trivial, Pact.safe_raise (.true i) fun _ _ _ ↦ trivial⟩
    | some t =>
      -- a turn that has been loaded is there and stays there
      refine ⟨fun sc ↦ ∃ t' ∈ sc.venue.db.turns, t'.id = t.id, ?_, ?_⟩
      · have hfind : (sc.venue.db.findTurn turnId).filter _ = some t := Except.ok.inj hr
        have hmem := List.mem_of_find?_eq_some (Option.filter_eq_some_iff.mp hfind).1
        obtain ⟨t', ht', hl⟩ := h.did.turnsStep.kept h.tidy hmem
        exact ⟨t', ht', hl.id⟩
      · refine Pact.safe_call ⟨fun _ _ h ↦ h, ?_⟩ (fun e ↦ hpost _) ?_ ?_ ?_ ?_
        · rintro j a d sc v - h ⟨t', ht', hid⟩
          obtain ⟨t'', ht'', hl⟩ := h.did.turnsStep.kept h.tidy ht'
          exact ⟨t'', ht'', hl.id.trans hid⟩
        · exact fun _ _ _ _ _ ↦ ⟨trivial, fun _ ↦ trivial⟩
        · intro sc d _ _ _ _ hP
          generalize ((VenueOp.site (.persistTriage t.id quality
            (fingerprint.map fun fp ↦ (t.speakerId, fp)))).exec su d sc.venue).1 = r
          cases r with
          | ok b => exact hP
          | error e => exact trivial
        · exact fun _ _ _ _ _ _ ↦ trivial
        · exact fun _ _ _ _ _ _ ↦ ⟨fun _ ↦ True, trivial,
            Pact.safe_return (.true i) fun _ _ _ ↦ trivial⟩

/-- A request that scores no turn, stores no quality and enqueues no package job. -/
theorem body_of_idle (hq : ∀ a sc, q.Does a → (handOff C).pre i a sc)
    (hpost : ∀ r sc, (handOff C).post q i r sc) :
    ∃ P : Scene → Prop, (handOff C).Safe su C i q (q.body su) P ∧
      ∀ sc : Scene, (handOff C).known sc → (handOff C).inv sc → (∀ x ∈ sc.story, x.1 < i) →
        sc.requests.length = i → P (sc.spawned q) :=
  Pact.body_of_idle (fun a sc ha _ _ ↦ hq a sc ha) (fun _ _ _ _ ↦ trivial) hpost

theorem sound (su : Setup) (C : Conditions) : (handOff C).Sound su C where
  spawn _ _ h := ⟨h.ready, h.triaged⟩
  after _ _ _ _ _ h := after h
  gone i := .true i
  body i q := by
    cases q with
    | guess player optionId =>
      exact ⟨_, safe_guess player optionId, fun sc _ _ hold _ ↦ ⟨scoredBy_eq_nil hold, trivial⟩⟩
    | triage turnId quality fingerprint =>
      exact ⟨_, safe_triage turnId quality fingerprint, fun _ _ _ _ _ ↦ trivial⟩
    | uploadAudio player payload =>
      refine body_of_idle (fun a sc ha ↦ ?_) fun _ _ ↦ trivial
      cases a with
      | enqueued kind turnId =>
        have hkind : kind = .triage := ha
        exact fun h ↦ by rw [hkind] at h; cases h
      | triaged turnId => exact ha.elim
      | _ => exact trivial
    | requestPair | confirmLabel | completePair | setDeckStatus =>
      refine body_of_idle (fun a sc ha ↦ ?_) fun _ _ ↦ trivial
      cases a <;> first | exact trivial | exact ha.elim

theorem opening {v : Venue} (hv : v.Opening) : HandOff ⟨[], v, []⟩ := by
  refine ⟨fun j hj ↦ ?_, fun i turnId h ↦ absurd h List.not_mem_nil⟩
  rw [hv.jobs] at hj
  exact absurd hj List.not_mem_nil

end HandOff

/-! ## The result -/

/-- **The hand-off between scoring and triage**, in whatever order the steps of either side come.
A package job is there only for a turn that is scored and has a quality, and there is never a second
one.  Once the guess that scored a turn has run to its end and some `persist_triage` of the turn has
committed, the job is there. -/
theorem package_handed_off {su : Setup} {C : Conditions}
    {c : Config VenueOp Failure Request Venue Reply} (h : (venue su).Reach (C.terms su) c) :
    (∀ j ∈ c.world.state.db.jobs, j.kind = .package →
      ∃ t ∈ c.world.state.db.turns, t.id = j.turnId ∧ t.status = .scored ∧ t.quality.isSome) ∧
    (∀ turnId, (c.world.state.db.jobs.filter fun j ↦
      j.kind == .package && j.turnId == turnId).length ≤ 1) ∧
    ∀ i j player optionId r t, c.world.requests[i]? = some (.guess player optionId) →
      (i, .guessed t) ∈ story c.world.trace → t.status = .scored →
      c.threads[i]? = some (.live (.done r)) →
      ((∃ reply, r = .ok reply) ∨ ∀ i sc, ¬C.lose i sc) →
      (j, .triaged t.id) ∈ story c.world.trace →
      c.world.state.db.hasJob .package t.id = true := by
  have hgood : (handOff C).Good su C c :=
    (HandOff.sound su C).good (fun _ hv ↦ HandOff.opening hv) (fun _ _ ↦ trivial) h
  have hinv : HandOff (scene c.world) := hgood.here.2
  refine ⟨hinv.ready, fun turnId ↦ ?_, ?_⟩
  · refine (tidy_of_reach h).jobKeys.length_filter_le_one fun x hx y hy hpx hpy ↦ ?_
    rw [Bool.and_eq_true, beq_iff_eq, beq_iff_eq] at hpx hpy
    refine (tidy_of_reach h).jobKeys.eq hx hy (Prod.ext ?_ ?_)
    · exact hpx.1.trans hpy.1.symm
    · exact hpx.2.trans hpy.2.symm
  · intro i j player optionId r t hq hguessed hs hthread hfinished htriaged
    have hpost : C.Finished r → ∀ turnId ∈ scoredBy i (story c.world.trace),
        c.world.state.db.Packaged turnId := hgood.post hq hthread
    exact (hpost hfinished t.id (mem_scoredBy hguessed hs)).2 (hinv.triaged j t.id htriaged)

/-- Player 2 guesses right; the turn is triaged after the guess has looked for a quality. -/
def triagedLate : List (Event Request Draw Failure) :=
  pairUp ++ speak ++ .spawn (.guess 2 0) :: calls 4 16 4 ++
    .spawn (.triage 115 ⟨true, true, true, 2, [], false, false, [], 1, [], none⟩ none) ::
      calls 5 20 2 ++ calls 4 22 3

/-- Program `i` is a guess that has answered. -/
def guessAnswered (c : Config VenueOp Failure Request Venue Reply) (i : ℕ) : Bool :=
  match c.world.requests[i]?, c.threads[i]? with
  | some (.guess _ _), some (.live (.done (.ok _))) => true
  | _, _ => false

/-- The deed scores the turn. -/
def Deed.scoresTurn (turnId : Uuid) : Deed → Bool
  | .guessed t => t.id == turnId && t.status == .scored
  | _ => false

/-- The deed stores the quality of the turn. -/
def Deed.triagesTurn (turnId : Uuid) : Deed → Bool
  | .triaged id => id == turnId
  | _ => false

theorem Deed.eq_of_scoresTurn {a : Deed} {turnId : Uuid} (h : a.scoresTurn turnId = true) :
    ∃ t, a = .guessed t ∧ t.id = turnId ∧ t.status = .scored := by
  cases a with
  | guessed t => exact ⟨t, rfl, by simpa [scoresTurn] using h⟩
  | _ => cases h

theorem Deed.eq_of_triagesTurn {a : Deed} {turnId : Uuid} (h : a.triagesTurn turnId = true) :
    a = .triaged turnId := by
  cases a with
  | triaged id => rw [beq_iff_eq.mp h]
  | _ => cases h

/-- The triage finds the turn scored, and inserts the job the guess has not. -/
theorem package_handed_off_late : ∃ c, (venue defaultSetup).Reachable c ∧
    c.world.state.db.hasJob .package 115 = true := by
  obtain ⟨c, hc, hrun⟩ := System.exists_reachable_of_run opening_threePlayers
    (show ((venue defaultSetup).run (System.start threePlayers) triagedLate).map (fun c ↦
      guessAnswered c 4 && ((story c.world.trace).any fun x ↦ x.1 == 4 && x.2.scoresTurn 115) &&
        (story c.world.trace).any fun x ↦ x.1 == 5 && x.2.triagesTurn 115) = some true
      by decide +kernel)
  simp only [Bool.and_eq_true, List.any_eq_true, beq_iff_eq] at hrun
  obtain ⟨⟨hthread, ⟨-, a⟩, hx, rfl, hscores⟩, ⟨-, b⟩, hy, rfl, htriages⟩ := hrun
  obtain ⟨t, rfl, hid, hs⟩ := Deed.eq_of_scoresTurn hscores
  obtain rfl := Deed.eq_of_triagesTurn htriages
  rw [← hid] at hy ⊢
  rw [guessAnswered] at hthread
  split at hthread
  · rename_i player optionId reply hq ht
    exact ⟨c, hc, (@package_handed_off defaultSetup {} c hc).2.2 4 5 player optionId _ t hq hx hs ht
      (.inl ⟨reply, rfl⟩) hy⟩
  · cases hthread

end Neva
