import Neva.Pact

/-!
# The life of a turn

A turn is made by `try_match`, for a new pair, or by `create_turn`, after a guess has scored the
turn before.  In between it is moved on by guarded updates that check the status again, so two
requests that have read the same turn cannot both move it.  What no guard protects is
`create_turn`: nothing in the table stops two unscored turns of one pair.  What does is that
`apply_guess` scores a turn for exactly one caller, and that only this caller goes on to create the
next turn.

`scoring i` is this right of program `i`, read off the story: the turn it has scored and not yet
followed by another.  The invariant `Lifecycle` says that of one pair at most one program holds
such a turn, and that while it does all turns of the pair are scored.  `turn_lifecycle` collects
what follows for every interleaving of any number of requests.
-/

set_option autoImplicit false

namespace Neva

open Calls Tables

/-! ## Who may create the next turn -/

/-- The turn program `i` has scored and not yet followed by another. -/
def scoring (i : ℕ) : Story → Option TurnRecord
  | [] => none
  | (j, a) :: st =>
    if j = i then
      match a with
      | .guessed t => if t.status = .scored then some t else scoring i st
      | .created _ => none
      | _ => scoring i st
    else scoring i st

/-- Each scored turn that was followed by another, with the turn that followed. -/
def successors : Story → List (TurnRecord × TurnRecord)
  | [] => []
  | (i, .created t) :: st =>
    match scoring i st with
    | some u => (u, t) :: successors st
    | none => successors st
  | _ :: st => successors st

theorem scoring_ne {i j : ℕ} (h : j ≠ i) (a : Deed) (st : Story) :
    scoring i ((j, a) :: st) = scoring i st :=
  if_neg h

theorem scoring_other {i j : ℕ} {a : Deed} (ha : a.isTurning = false) (st : Story) :
    scoring i ((j, a) :: st) = scoring i st := by
  by_cases hj : j = i
  · cases a <;> first | exact if_pos hj | cases ha
  · exact scoring_ne hj a st

theorem scoring_created (i : ℕ) (t : TurnRecord) (st : Story) :
    scoring i ((i, .created t) :: st) = none :=
  if_pos rfl

theorem scoring_guessed (i : ℕ) (t : TurnRecord) (st : Story) :
    scoring i ((i, .guessed t) :: st) = if t.status = .scored then some t else scoring i st :=
  if_pos rfl

theorem successors_other {a : Deed} (ha : a.isTurning = false) (i : ℕ) (st : Story) :
    successors ((i, a) :: st) = successors st := by
  cases a <;> first | rfl | cases ha

theorem scoring_eq_none {i : ℕ} {st : Story} (h : ∀ x ∈ st, x.1 < i) : scoring i st = none := by
  induction st with
  | nil => rfl
  | cons x st ih =>
    rw [show scoring i (x :: st) = scoring i st from
      scoring_ne (h x List.mem_cons_self).ne x.2 st]
    exact ih fun y hy ↦ h y (List.mem_cons_of_mem _ hy)

/-! ## The invariant -/

/-- The turn is in the table, and scored. -/
def Db.Decided (db : Db) (u : TurnRecord) : Prop :=
  ∃ t ∈ db.turns, t.id = u.id ∧ t.pairId = u.pairId ∧ t.speakerId = u.speakerId ∧
    t.guesserId = u.guesserId ∧ t.status = .scored

/-- The successor is played with the roles swapped. -/
def TurnRecord.Swaps (u t : TurnRecord) : Prop :=
  t.pairId = u.pairId ∧ t.speakerId = u.guesserId ∧ t.guesserId = u.speakerId

/-- **The turns of every pair follow one another.** -/
structure Lifecycle (sc : Scene) : Prop where
  seated : ∀ t ∈ sc.venue.db.turns, sc.venue.db.Seated t
  single : ∀ t ∈ sc.venue.db.turns, ∀ t' ∈ sc.venue.db.turns, t.pairId = t'.pairId →
    t.status ≠ .scored → t'.status ≠ .scored → t = t'
  /-- While a scored turn is to be followed, nothing is being played in its pair. -/
  held : ∀ i u, scoring i sc.story = some u → sc.venue.db.Decided u ∧
    ∀ t ∈ sc.venue.db.turns, t.pairId = u.pairId → t.status = .scored
  /-- Nobody else is to follow a turn of the same pair. -/
  alone : ∀ i j u u', scoring i sc.story = some u → scoring j sc.story = some u' →
    u.pairId = u'.pairId → i = j
  swaps : ∀ x ∈ successors sc.story, x.1.Swaps x.2
  past : ∀ x ∈ successors sc.story, sc.venue.db.Decided x.1 ∧
    ∀ i u, scoring i sc.story = some u → u.id ≠ x.1.id
  once : ((successors sc.story).map fun x ↦ x.1.id).Nodup
  made : ∀ i t, (i, .created t) ∈ sc.story → ∃ u, (u, t) ∈ successors sc.story

/-- The pact of the turns: whoever creates a turn has scored the one before it. -/
def lifecycle : Pact where
  inv := Lifecycle
  pre i a sc :=
    match a with
    | .created t => ∃ u, scoring i sc.story = some u ∧ u.Swaps t
    | _ => True

namespace Lifecycle

variable {su : Setup} {C : Conditions} {i : ℕ} {a : Deed} {d : Draw} {sc : Scene} {v : Venue}

theorem decided_kept (h : lifecycle.Step su C i a d sc v) {u : TurnRecord}
    (hu : sc.venue.db.Decided u) : v.db.Decided u := by
  obtain ⟨t, ht, hid, hpair, hspeaker, hguesser, hs⟩ := hu
  obtain ⟨t', ht', hl⟩ := h.did.turnsStep.kept h.tidy ht
  exact ⟨t', ht', hl.id.trans hid, hl.pairId.trans hpair, hl.speakerId.trans hspeaker,
    hl.guesserId.trans hguesser, hl.scored hs⟩

/-- No turn there is belongs to the pair that is being made. -/
theorem pairId_ne (h : Lifecycle sc) (hn : d.New sc.venue.db) {t : TurnRecord}
    (ht : t ∈ sc.venue.db.turns) : t.pairId ≠ d.uuid := by
  obtain ⟨pair, hpair, hid, -⟩ := h.seated t ht
  rw [← hid]
  exact hn.pair pair hpair

/-- The turn being followed has a pair already. -/
theorem pairId_ne_of_scoring (h : Lifecycle sc) (hn : d.New sc.venue.db) {j : ℕ} {u : TurnRecord}
    (hu : scoring j sc.story = some u) : u.pairId ≠ d.uuid := by
  obtain ⟨⟨t, ht, -, hpair, -⟩, -⟩ := h.held j u hu
  rw [← hpair]
  exact h.pairId_ne hn ht

/-- A turn that awaits a guess is not the one being followed, nor in its pair. -/
theorem scoring_pairId_ne (h : Lifecycle sc) {j : ℕ} {u t : TurnRecord}
    (hu : scoring j sc.story = some u) (ht : t ∈ sc.venue.db.turns) (hs : t.status ≠ .scored) :
    t.pairId ≠ u.pairId :=
  fun he ↦ hs ((h.held j u hu).2 t ht he)

theorem seated_after (h : lifecycle.Step su C i a d sc v) : ∀ t ∈ v.db.turns, v.db.Seated t := by
  refine h.did.seated h.inv.seated ?_
  rintro t rfl
  -- the seats are those of the turn before, the other way round
  obtain ⟨u, hu, hpair, hspeaker, hguesser⟩ := h.pre
  obtain ⟨t₀, ht₀, -, hpair₀, hspeaker₀, hguesser₀, -⟩ := (h.inv.held i u hu).1
  obtain ⟨pair, hmem, hid, hseats⟩ := h.did.seated_kept (h.inv.seated t₀ ht₀) (.refl t₀)
  refine ⟨pair, hmem, by rw [hid, hpair, hpair₀], ?_⟩
  rw [hspeaker, hguesser, ← hspeaker₀, ← hguesser₀]
  exact hseats.symm.imp And.symm And.symm

/-- Of each pair at most one turn is being played. -/
theorem single_after (h : lifecycle.Step su C i a d sc v) :
    ∀ t ∈ v.db.turns, ∀ t' ∈ v.db.turns, t.pairId = t'.pairId → t.status ≠ .scored →
      t'.status ≠ .scored → t = t' := by
  have hold := h.inv.single
  -- a new turn of a pair in which nothing is being played
  have happend : ∀ n : TurnRecord, (∀ t ∈ sc.venue.db.turns, t.pairId = n.pairId →
      t.status = .scored) → v.db.turns = sc.venue.db.turns ++ [n] →
      ∀ t ∈ v.db.turns, ∀ t' ∈ v.db.turns, t.pairId = t'.pairId → t.status ≠ .scored →
        t'.status ≠ .scored → t = t' := by
    intro n hn he t ht t' ht' hp hs hs'
    rw [he, List.mem_append, List.mem_singleton] at ht ht'
    rcases ht with ht | rfl
    · rcases ht' with ht' | rfl
      · exact hold t ht t' ht' hp hs hs'
      · exact absurd (hn t ht hp) hs
    · rcases ht' with ht' | rfl
      · exact absurd (hn t' ht' hp.symm) hs'
      · rfl
  -- a turn that has moved on is the one that was being played
  have hput : ∀ u ∈ sc.venue.db.turns, ∀ u', u.Later u' →
      v.db.turns = (sc.venue.db.putTurn u').turns →
      ∀ t ∈ v.db.turns, ∀ t' ∈ v.db.turns, t.pairId = t'.pairId → t.status ≠ .scored →
        t'.status ≠ .scored → t = t' := by
    intro u hu u' hl he t ht t' ht' hp hs hs'
    rw [he, Db.mem_putTurn hu hl.id] at ht ht'
    have key : ∀ x, x ∈ sc.venue.db.turns ∧ x.id ≠ u.id → x.pairId = u'.pairId →
        x.status ≠ .scored → u'.status ≠ .scored → False := by
      intro x hx hp hsx hsu
      have hxu := hold x hx.1 u hu (hp.trans hl.pairId) hsx fun hs ↦ hsu (hl.scored hs)
      exact hx.2 (congrArg TurnRecord.id hxu)
    rcases ht with rfl | ht
    · rcases ht' with rfl | ht'
      · rfl
      · exact (key t' ht' hp.symm hs' hs).elim
    · rcases ht' with rfl | ht'
      · exact (key t ht hp hs hs').elim
      · exact hold t ht.1 t' ht'.1 hp hs hs'
  cases h.did.turnsStep with
  | same ha he =>
    rw [he]
    exact hold
  | dealt ha hn hid hp hpair he =>
    exact happend _ (fun t ht hpt ↦ absurd (hpt.trans hp) (h.inv.pairId_ne h.new ht)) he
  | created hn hid he =>
    obtain ⟨u, hu, hpair, -⟩ := h.pre
    exact happend _ (fun t ht hpt ↦ (h.inv.held i u hu).2 t ht (hpt.trans hpair)) he
  | moved ha hu hl hs hattempts he => exact hput _ hu _ hl he
  | guessed hu hs hg he => exact hput _ hu _ (hg.later hs) he

/-- Someone who was to follow a turn of a pair without another turn still is. -/
theorem held_kept (h : lifecycle.Step su C i a d sc v) {j : ℕ} {u : TurnRecord}
    (hu : scoring j sc.story = some u) (hne : ∀ t, a = .created t → j ≠ i) :
    v.db.Decided u ∧ ∀ t ∈ v.db.turns, t.pairId = u.pairId → t.status = .scored := by
  obtain ⟨hdecided, hall⟩ := h.inv.held j u hu
  refine ⟨decided_kept h hdecided, fun t ht hp ↦ ?_⟩
  rcases h.did.turnsStep.origin ht with ⟨t₀, ht₀, hl⟩ | ⟨-, hnew | rfl⟩
  · exact hl.scored (hall t₀ ht₀ (hl.pairId.symm.trans hp))
  · exact absurd (hp.symm.trans hnew) (h.inv.pairId_ne_of_scoring h.new hu)
  · obtain ⟨u', hu', hpair, -⟩ := h.pre
    exact absurd (h.inv.alone j i u u' hu hu' (hp.symm.trans hpair)) (hne t rfl)

/-- What a guess has just scored was the turn being played, and nothing else of its pair is. -/
theorem held_guessed (h : lifecycle.Step su C i a d sc v) {t t' : TurnRecord} {correct : Bool}
    (ht : t ∈ sc.venue.db.turns) (hs : t.status = .awaitingGuess)
    (hg : t.Guessed su.cfg correct t') (he : v.db.turns = (sc.venue.db.putTurn t').turns)
    (hs' : t'.status = .scored) :
    v.db.Decided t' ∧ ∀ x ∈ v.db.turns, x.pairId = t'.pairId → x.status = .scored := by
  have hl := hg.later hs
  have hns : t.status ≠ .scored := by
    rw [hs]
    exact nofun
  refine ⟨⟨t', ?_, rfl, rfl, rfl, rfl, hs'⟩, fun x hx hp ↦ ?_⟩
  · rw [he]
    exact (Db.mem_putTurn ht hl.id).mpr (.inl rfl)
  · rw [he] at hx
    rcases (Db.mem_putTurn ht hl.id).mp hx with rfl | ⟨hx, hid⟩
    · exact hs'
    · by_contra hsx
      exact hid (congrArg TurnRecord.id
        (h.inv.single x hx t ht (hp.trans hl.pairId) hsx hns))

/-- **Every deed keeps the turns in order.** -/
theorem after (h : lifecycle.Step su C i a d sc v) : Lifecycle (sc.after i a v) := by
  have hseated := seated_after h
  have hsingle := single_after h
  have hpast : ∀ x ∈ successors sc.story, v.db.Decided x.1 := fun x hx ↦
    decided_kept h (h.inv.past x hx).1
  by_cases ha : a.isTurning = false
  · -- the story tells nothing new
    have hsc : ∀ j, scoring j ((i, a) :: sc.story) = scoring j sc.story := fun j ↦
      scoring_other ha sc.story
    have hsu : successors ((i, a) :: sc.story) = successors sc.story :=
      successors_other ha i sc.story
    have hnc : ∀ t, a ≠ .created t := by
      rintro t rfl
      cases ha
    refine ⟨hseated, hsingle, ?_, ?_, ?_, ?_, ?_, ?_⟩
    · intro j u hu
      rw [Scene.after_story, hsc] at hu
      exact held_kept h hu fun t hat ↦ absurd hat (hnc t)
    · intro j k u u' hu hu'
      rw [Scene.after_story, hsc] at hu hu'
      exact h.inv.alone j k u u' hu hu'
    · rw [Scene.after_story, hsu]
      exact h.inv.swaps
    · rw [Scene.after_story, hsu]
      refine fun x hx ↦ ⟨hpast x hx, fun j u hu ↦ ?_⟩
      rw [hsc] at hu
      exact (h.inv.past x hx).2 j u hu
    · rw [Scene.after_story, hsu]
      exact h.inv.once
    · intro j t ht
      rw [Scene.after_story, hsu]
      rcases List.mem_cons.mp ht with heq | ht
      · cases heq
        exact absurd rfl (hnc t)
      · exact h.inv.made j t ht
  · cases h.did.turnsStep with
    | same ha' => exact absurd ha' ha
    | dealt ha' => exact absurd ha' ha
    | moved ha' => exact absurd ha' ha
    | @created n hn hid he =>
      obtain ⟨u, hu, hswaps⟩ := h.pre
      have hsu : successors ((i, .created n) :: sc.story) = (u, n) :: successors sc.story := by
        rw [successors, hu]
      have hsc : ∀ j w, scoring j ((i, .created n) :: sc.story) = some w →
          j ≠ i ∧ scoring j sc.story = some w := by
        intro j w hw
        by_cases hj : j = i
        · subst hj
          rw [scoring_created] at hw
          cases hw
        · rw [scoring_ne (Ne.symm hj)] at hw
          exact ⟨hj, hw⟩
      refine ⟨hseated, hsingle, ?_, ?_, ?_, ?_, ?_, ?_⟩
      · intro j w hw
        obtain ⟨hj, hw⟩ := hsc j w hw
        exact held_kept h hw fun _ _ ↦ hj
      · intro j k w w' hw hw'
        exact h.inv.alone j k w w' (hsc j w hw).2 (hsc k w' hw').2
      · rw [Scene.after_story, hsu]
        rintro x (_ | ⟨_, hx⟩)
        · exact hswaps
        · exact h.inv.swaps x hx
      · rw [Scene.after_story, hsu]
        rintro x (_ | ⟨_, hx⟩)
        · refine ⟨decided_kept h (h.inv.held i u hu).1, fun j w hw hwu ↦ ?_⟩
          obtain ⟨hj, hw⟩ := hsc j w hw
          obtain ⟨t, ht, hid, hpair, -⟩ := (h.inv.held i u hu).1
          obtain ⟨t', ht', hid', hpair', -⟩ := (h.inv.held j w hw).1
          have htt := h.tidy.turnIds.eq ht ht' (hid.trans (hwu.symm.trans hid'.symm))
          rw [htt] at hpair
          exact hj (h.inv.alone j i w u hw hu (hpair'.symm.trans hpair))
        · exact ⟨hpast x hx, fun j w hw ↦ (h.inv.past x hx).2 j w (hsc j w hw).2⟩
      · rw [Scene.after_story, hsu, List.map_cons, List.nodup_cons]
        refine ⟨fun hmem ↦ ?_, h.inv.once⟩
        obtain ⟨x, hx, hid⟩ := List.mem_map.mp hmem
        exact (h.inv.past x hx).2 i u hu hid.symm
      · intro j t ht
        rw [Scene.after_story, hsu]
        rcases List.mem_cons.mp ht with heq | ht
        · cases heq
          exact ⟨u, List.mem_cons_self⟩
        · obtain ⟨w, hw⟩ := h.inv.made j t ht
          exact ⟨w, List.mem_cons_of_mem _ hw⟩
    | @guessed t t' correct ht hs hg he =>
      have hl := hg.later hs
      have hns : t.status ≠ .scored := by
        rw [hs]
        exact nofun
      have hsc : ∀ j w, scoring j ((i, .guessed t') :: sc.story) = some w →
          j = i ∧ w = t' ∧ t'.status = .scored ∨ scoring j sc.story = some w := by
        intro j w hw
        by_cases hj : j = i
        · subst hj
          rw [scoring_guessed] at hw
          split_ifs at hw with hs'
          · exact .inl ⟨rfl, (Option.some.inj hw).symm, hs'⟩
          · exact .inr hw
        · rw [scoring_ne (Ne.symm hj)] at hw
          exact .inr hw
      -- nobody was to follow a turn of this pair, for it was being played
      have hfree : ∀ j w, scoring j sc.story = some w → t'.pairId ≠ w.pairId := by
        intro j w hw
        rw [hl.pairId]
        exact scoring_pairId_ne h.inv hw ht hns
      refine ⟨hseated, hsingle, ?_, ?_, h.inv.swaps, ?_, h.inv.once, ?_⟩
      · intro j w hw
        rcases hsc j w hw with ⟨rfl, rfl, hs'⟩ | hw
        · exact held_guessed h ht hs hg he hs'
        · exact held_kept h hw fun _ hat ↦ by cases hat
      · intro j k w w' hw hw' hp
        rcases hsc j w hw with ⟨rfl, rfl, -⟩ | hold
        · rcases hsc k w' hw' with ⟨rfl, -, -⟩ | hold'
          · rfl
          · exact absurd hp (hfree k w' hold')
        · rcases hsc k w' hw' with ⟨rfl, rfl, -⟩ | hold'
          · exact absurd hp.symm (hfree j w hold)
          · exact h.inv.alone j k w w' hold hold' hp
      · intro x hx
        refine ⟨hpast x hx, fun j w hw hwx ↦ ?_⟩
        rcases hsc j w hw with ⟨rfl, rfl, -⟩ | hw
        · obtain ⟨y, hy, hid, -, -, -, hsy⟩ := (h.inv.past x hx).1
          have hyt := h.tidy.turnIds.eq hy ht (hid.trans (hwx.symm.trans hl.id))
          exact hns (hyt ▸ hsy)
        · exact (h.inv.past x hx).2 j w hw hwx
      · intro j n hn
        rcases List.mem_cons.mp hn with heq | hn
        · cases heq
        · exact h.inv.made j n hn

end Lifecycle

/-! ## The requests keep the pact -/

namespace Lifecycle

variable {su : Setup} {C : Conditions} {i : ℕ} {q : Request}

/-- What a program knows while it is to follow `u`. -/
theorem carried_scoring (i : ℕ) (q : Request) (u : TurnRecord) :
    lifecycle.Carried su C (fun a ↦ a.isTurning = false) i q
      fun sc ↦ scoring i sc.story = some u where
  stable := .own (scoring i) (fun _ hj a st ↦ scoring_ne hj a st) fun o ↦ o = some u
  pre a sc ha _ _ := by
    cases a <;> first | exact trivial | cases ha
  own a d sc v ha _ hu := by
    rw [Scene.after_story, scoring_other ha]
    exact hu
  gone _ _ _ _ := trivial
  error _ _ _ := trivial
  errorStable _ := .true i

/-- The turn `create_turn` makes for whoever follows `u` is the successor of `u`. -/
theorem deed_createTurn (su : Setup) (d : Draw) {v : Venue} (htidy : v.db.Tidy) (u : TurnRecord)
    (cardId : Uuid) {a : Deed}
    (ha : a = deed (.store (.createTurn u.pairId u.guesserId u.speakerId cardId))
      ((VenueOp.store (.createTurn u.pairId u.guesserId u.speakerId cardId)).exec su d v).1) :
    a = .other ∨ ∃ t, a = .created t ∧ u.Swaps t := by
  rcases su.backend.promise su.cfg htidy d
    (.createTurn u.pairId u.guesserId u.speakerId cardId) with ⟨⟨e, he⟩, -⟩ | ⟨hr, -⟩
  · rw [VenueOp.exec, he] at ha
    exact .inl ha
  · rw [VenueOp.exec, hr] at ha
    exact .inr ⟨_, ha, rfl, rfl, rfl⟩

theorem safe_advance (u : TurnRecord) :
    lifecycle.Safe su C i q (GameService.advance su.roundsCap u)
      fun sc ↦ scoring i sc.story = some u := by
  have hc : lifecycle.Carried su C (fun a ↦ a.isTurning = false) i q _ := carried_scoring i q u
  have hreturn : ∀ P, lifecycle.Stable su C i P → lifecycle.Safe su C i q (pure .ok) P :=
    fun P hP ↦ Pact.safe_return hP fun _ _ _ ↦ trivial
  refine Pact.safe_quiet hc (fun _ ↦ rfl) fun capped ↦ ?_
  split_ifs
  · exact hreturn _ hc.stable
  · refine Pact.safe_quiet hc (fun r ↦ ?_) fun card ↦ ?_
    · cases r <;> rfl
    · cases card with
      | none => exact hreturn _ hc.stable
      | some card =>
        refine Pact.safe_call hc.stable hc.errorStable ?_ ?_ ?_ ?_
        · exact fun _ _ _ _ _ ↦ ⟨trivial, fun _ ↦ trivial⟩
        · intro sc d htidy _ _ _ hu
          rcases deed_createTurn su d htidy u card.id rfl with ha | ⟨t, ha, hswaps⟩
          · rw [ha]
            exact trivial
          · rw [ha]
            exact ⟨u, hu, hswaps⟩
        · exact fun _ _ _ _ _ _ ↦ trivial
        · exact fun _ _ _ _ _ _ ↦ ⟨fun _ ↦ True, trivial, hreturn _ (.true i)⟩

theorem safe_afterScored (u : TurnRecord) :
    lifecycle.Safe su C i q (GameService.afterScored su.roundsCap u)
      fun sc ↦ scoring i sc.story = some u := by
  have hc : lifecycle.Carried su C (fun a ↦ a.isTurning = false) i q _ := carried_scoring i q u
  refine Pact.safe_quiet hc (fun _ ↦ rfl) fun fresh ↦ ?_
  split_ifs
  · refine Pact.safe_quiet hc (fun r ↦ ?_) fun _ ↦ safe_advance u
    cases r <;> rfl
  · exact safe_advance u

theorem safe_guess (player optionId : Uuid) :
    lifecycle.Safe su C i q ((Request.guess player optionId).body su) fun _ ↦ True := by
  have hc : lifecycle.Carried su C (fun a ↦ a = .other) i q fun _ ↦ True :=
    ⟨.true i, fun a sc ha _ _ ↦ ha ▸ trivial, fun _ _ _ _ _ _ h ↦ h, fun _ _ _ _ ↦ trivial,
      fun _ _ _ ↦ trivial, fun _ ↦ .true i⟩
  refine Pact.safe_guess hc rfl player optionId fun turnId correct ↦ ?_
  refine Pact.safe_call hc.stable hc.errorStable ?_ ?_ ?_ ?_
  · exact fun _ _ _ _ _ ↦ ⟨trivial, fun _ ↦ trivial⟩
  · intro sc d _ _ _ _ _
    cases ((VenueOp.store (.applyGuess turnId correct)).exec su d sc.venue).1 <;> exact trivial
  · exact fun _ _ _ _ _ _ ↦ trivial
  · intro sc d updated _ _ hr
    split_ifs with hs
    · refine ⟨_, ?_, safe_afterScored updated⟩
      rw [Scene.after_story, hr]
      exact (scoring_guessed i updated sc.story).trans (if_pos hs)
    · exact ⟨fun _ ↦ True, trivial, Pact.safe_return (.true i) fun _ _ _ ↦ trivial⟩

theorem body_of_not_creating (hq : ∀ t, ¬q.Does (.created t)) :
    ∃ P : Scene → Prop, lifecycle.Safe su C i q (q.body su) P ∧
      ∀ sc : Scene, lifecycle.known sc → lifecycle.inv sc → (∀ x ∈ sc.story, x.1 < i) →
        sc.requests.length = i → P (sc.spawned q) := by
  refine Pact.body_of_idle ?_ (fun _ _ _ _ ↦ trivial) fun _ _ ↦ trivial
  intro a sc ha _ _
  cases a with
  | created t => exact absurd ha (hq t)
  | _ => exact trivial

theorem sound (su : Setup) (C : Conditions) : lifecycle.Sound su C where
  spawn sc r h := ⟨h.seated, h.single, h.held, h.alone, h.swaps, h.past, h.once, h.made⟩
  after i a d sc v h := after h
  gone i := .true i
  body i q := by
    cases q with
    | guess player optionId => exact ⟨_, safe_guess player optionId, fun _ _ _ _ _ ↦ trivial⟩
    | requestPair | uploadAudio | confirmLabel | completePair | triage | setDeckStatus =>
      exact body_of_not_creating fun _ h ↦ h

theorem opening {v : Venue} (hv : v.Opening) : Lifecycle ⟨[], v, []⟩ := by
  have hnone : ∀ t, t ∉ v.db.turns := fun t ↦ by
    rw [hv.turns]
    exact List.not_mem_nil
  refine ⟨fun t ht ↦ absurd ht (hnone t), fun t ht ↦ absurd ht (hnone t), ?_, ?_, ?_, ?_,
    List.nodup_nil, ?_⟩
  · exact fun i u hu ↦ by cases hu
  · exact fun i j u u' hu ↦ by cases hu
  · exact fun x hx ↦ absurd hx List.not_mem_nil
  · exact fun x hx ↦ absurd hx List.not_mem_nil
  · exact fun i t ht ↦ absurd ht List.not_mem_nil

/-- The invariant holds in every configuration a run on any conditions reaches. -/
theorem of_reach {su : Setup} {C : Conditions} {c : Config VenueOp Failure Request Venue Reply}
    (h : (venue su).Reach (C.terms su) c) : Lifecycle (scene c.world) :=
  ((sound su C).good (fun _ hv ↦ opening hv) (fun _ _ ↦ trivial) h).here.2

end Lifecycle

/-! ## The number of attempts -/

/-- An undecided turn has an attempt left. -/
def TurnRecord.Counted (cfg : GameFeatureConfig) (t : TurnRecord) : Prop :=
  t.attempts ≤ cfg.maxGuessAttempts ∧ (t.status ≠ .scored → t.attempts < cfg.maxGuessAttempts)

theorem TurnsStep.counted {cfg : GameFeatureConfig} {d : Draw} {db db' : Db} {a : Deed}
    (h : TurnsStep cfg d db db' a) (hmax : 1 ≤ cfg.maxGuessAttempts)
    (hdb : ∀ t ∈ db.turns, t.Counted cfg) : ∀ t ∈ db'.turns, t.Counted cfg := by
  have happend : ∀ n : TurnRecord, n.IsInitial → db'.turns = db.turns ++ [n] →
      ∀ t ∈ db'.turns, t.Counted cfg := by
    intro n hn he t ht
    rw [he, List.mem_append, List.mem_singleton] at ht
    rcases ht with ht | rfl
    · exact hdb t ht
    · rw [TurnRecord.Counted, hn.attempts]
      exact ⟨Nat.zero_le _, fun _ ↦ hmax⟩
  have hput : ∀ u ∈ db.turns, ∀ u', u'.id = u.id → u'.Counted cfg →
      db'.turns = (db.putTurn u').turns → ∀ t ∈ db'.turns, t.Counted cfg := by
    intro u hu u' hid hu' he t ht
    rw [he] at ht
    rcases (Db.mem_putTurn hu hid).mp ht with rfl | ⟨ht, -⟩
    · exact hu'
    · exact hdb t ht
  cases h with
  | same ha he =>
    rw [he]
    exact hdb
  | dealt ha hn hid hp hpair he => exact happend _ hn he
  | created hn hid he => exact happend _ hn he
  | moved ha ht hl hs hattempts he =>
    refine hput _ ht _ hl.id ?_ he
    rw [TurnRecord.Counted, hattempts]
    exact ⟨(hdb _ ht).1, fun hns ↦ (hdb _ ht).2 fun h ↦ hns (hl.scored h)⟩
  | @guessed t t' correct ht hs hg he =>
    have hlt : t.attempts < cfg.maxGuessAttempts := (hdb t ht).2 (by rw [hs]; exact nofun)
    refine hput t ht t' hg.id ?_ he
    cases hg with
    | right => exact ⟨hlt, fun h ↦ absurd rfl h⟩
    | last => exact ⟨hlt, fun h ↦ absurd rfl h⟩
    | again hagain => exact ⟨hagain.le, fun _ ↦ hagain⟩

theorem counted_of_reach {su : Setup} {T : Terms VenueOp Failure Draw Request Venue}
    {c : Config VenueOp Failure Request Venue Reply} (h : (venue su).Reach T c)
    (hmax : 1 ≤ su.cfg.maxGuessAttempts) :
    ∀ t ∈ c.world.state.db.turns, t.Counted su.cfg := by
  have hinv : c.world.state.db.Tidy ∧ ∀ t ∈ c.world.state.db.turns, t.Counted su.cfg := by
    refine @System.Reach.state_inv _ _ _ _ _ _ _ _
      (fun w ↦ w.state.db.Tidy ∧ ∀ t ∈ w.state.db.turns, t.Counted su.cfg) ?_ ?_ ?_ c h
    · intro v hv
      refine ⟨hv.tidy, fun t ht ↦ ?_⟩
      rw [hv.turns] at ht
      exact absurd ht List.not_mem_nil
    · exact fun w r hw ↦ hw
    · intro i β op d w hw _ hd
      have hdid := op.did su d hw.1
      exact ⟨hdid.tidy hw.1 (new_of_admits hd), hdid.turnsStep.counted hmax hw.2⟩
  exact hinv.2

/-! ## The result -/

/-- What one event makes of a turn. -/
theorem turn_kept_of_fire {su : Setup} {c c' : Config VenueOp Failure Request Venue Reply}
    {e : Event Request Draw Failure} (h : (venue su).Reachable c)
    (he : (venue su).fire c e = some c') {t : TurnRecord} (ht : t ∈ c.world.state.db.turns) :
    ∃ t' ∈ c'.world.state.db.turns, t.Later t' := by
  have hmoves := System.moves_of_fire (Terms.any_allows c e) he
  generalize c'.world = w' at hmoves
  cases hmoves with
  | idle => exact ⟨t, ht, .refl t⟩
  | spawned r => exact ⟨t, ht, .refl t⟩
  | @called i β op k d hthread hmay hd =>
    exact (op.did su d (tidy_of_reach h)).turnsStep.kept (tidy_of_reach h) ht

/-- **The life of a turn**, whatever is asked of the venue and in whatever order.  Each pair has at
most one turn that is not scored.  Attempts are counted up to the limit.  The outcome is open
exactly until the turn is scored.  One event leaves the status of a turn or moves it on by one, and
leaves the outcome of a scored one.  And no scored turn is followed twice: the turns `create_turn`
has made belong each to another scored turn, with the roles swapped. -/
theorem turn_lifecycle {su : Setup} (hmax : 1 ≤ su.cfg.maxGuessAttempts)
    {c : Config VenueOp Failure Request Venue Reply} (h : (venue su).Reachable c) :
    (∀ pairId, ((c.world.state.db.turnsOf pairId).filter fun t ↦ t.status != .scored).length ≤ 1) ∧
    (∀ t ∈ c.world.state.db.turns, t.attempts ≤ su.cfg.maxGuessAttempts ∧
      (t.outcome = .pending ↔ t.status ≠ .scored) ∧
      (t.status = .scored → t.outcome = .validated ∨ t.outcome = .unclear)) ∧
    (∀ e c', (venue su).fire c e = some c' → ∀ t ∈ c.world.state.db.turns,
      ∃ t' ∈ c'.world.state.db.turns, t'.id = t.id ∧
        (t'.status = t.status ∨ t.status.next = some t'.status) ∧
        (t.status = .scored → t'.outcome = t.outcome)) ∧
    (∀ i t, (i, .created t) ∈ story c.world.trace →
      ∃ u, (u, t) ∈ successors (story c.world.trace)) ∧
    ((successors (story c.world.trace)).map fun x ↦ x.1.id).Nodup ∧
    ∀ x ∈ successors (story c.world.trace), x.2.pairId = x.1.pairId ∧
      x.2.speakerId = x.1.guesserId ∧ x.2.guesserId = x.1.speakerId := by
  have htidy := tidy_of_reach h
  have hlife : Lifecycle (scene c.world) := @Lifecycle.of_reach su {} c h
  refine ⟨fun pairId ↦ ?_, fun t ht ↦ ⟨(counted_of_reach h hmax t ht).1, ?_, ?_⟩, ?_, hlife.made,
    hlife.once, hlife.swaps⟩
  · refine (htidy.turnIds.filter _).length_filter_le_one fun x hx y hy hsx hsy ↦ ?_
    obtain ⟨hx, hpx⟩ := List.mem_filter.mp hx
    obtain ⟨hy, hpy⟩ := List.mem_filter.mp hy
    rw [beq_iff_eq] at hpx hpy
    rw [bne_iff_ne] at hsx hsy
    exact hlife.single x hx y hy (hpx.trans hpy.symm) hsx hsy
  · exact (htidy.turn t ht).pending
  · intro hs
    have hp : t.outcome ≠ .pending := fun hp ↦ (htidy.turn t ht).pending.mp hp hs
    have hw := (htidy.turn t ht).notWrong
    cases ho : t.outcome with
    | pending => exact absurd ho hp
    | validated => exact .inl rfl
    | wrong => exact absurd ho hw
    | unclear => exact .inr rfl
  · intro e c' he t ht
    obtain ⟨t', ht', hl⟩ := turn_kept_of_fire h he ht
    exact ⟨t', ht', hl.id, hl.status, hl.outcome⟩

/-- A round played to its end, with one successor. -/
theorem turn_lifecycle_round : ∃ c, (venue defaultSetup).Reachable c ∧
    ((successors (story c.world.trace)).map fun x ↦ (x.1.id, x.2.speakerId)) = [(115, 2)] ∧
    ∀ pairId,
      ((c.world.state.db.turnsOf pairId).filter fun t ↦ t.status != .scored).length ≤ 1 := by
  obtain ⟨c, hc, hround⟩ := System.exists_reachable_of_run opening_threePlayers
    (show ((venue defaultSetup).run (System.start threePlayers)
      (pairUp ++ speak ++ .spawn (.guess 2 0) :: calls 4 16 7)).map
      (fun c ↦ decide (((successors (story c.world.trace)).map
        fun x ↦ (x.1.id, x.2.speakerId)) = [(115, 2)])) = some true by decide +kernel)
  exact ⟨c, hc, of_decide_eq_true hround, (turn_lifecycle (by decide) hc).1⟩

end Neva
