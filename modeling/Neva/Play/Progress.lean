import Neva.Play.Lifecycle

/-!
# A pair that can play on

When a guess scores a turn, the same call goes on to complete the pair or to create the next turn,
and nobody else ever will: the turn is scored now, so a repeated guess is refused, and no other
request creates a turn for a pair that is there already.  `scoring i` is the turn program `i` has
yet to follow.

`Progress` says that every pair that can play on is being played or has such a program.  So a pair
is only ever left without a turn by a guess that ends too early: one that is lost while it has a
turn to follow, or that finds no card.  `finishing` are the runs in which neither happens to a pair
that can play on, and in which no pair is made without a first turn.  `pair_plays_on` is the result;
`pairStranded` is a run with a guess that dies after it has scored, and `stranded_forever` says that
nothing anybody does helps the pair after that.
-/

set_option autoImplicit false

namespace Neva

open Calls Tables

/-! ## Pairs that can play on -/

/-- The pair is active, and both members are below the cap. -/
def Db.PlaysOn (cap : ℤ) (db : Db) (pairId : Uuid) : Prop :=
  ∃ pair ∈ db.pairs, pair.id = pairId ∧ pair.status = .active ∧
    (db.roundsPlayed pair.playerA : ℤ) < cap ∧ (db.roundsPlayed pair.playerB : ℤ) < cap

/-- Some turn of the pair is being played. -/
def Db.InPlay (db : Db) (pairId : Uuid) : Prop :=
  ∃ t ∈ db.turns, t.pairId = pairId ∧ t.status ≠ .scored

/-- A pair that can play on could before, or it has just been made. -/
theorem Did.playsOn_origin {su : Setup} {d : Draw} {v v' : Venue} {a : Deed} {cap : ℤ}
    (hd : Did su d v a v') (h : v.db.Tidy) {pairId : Uuid} (hp : v'.db.PlaysOn cap pairId) :
    v.db.PlaysOn cap pairId ∨
      pairId = d.uuid ∧ ∃ pair, pair.id = pairId ∧ a = .matched (some pair) := by
  obtain ⟨pair, hpair, hid, hs, ha, hb⟩ := hp
  have hle := hd.turnsStep.roundsPlayed_le h
  rcases hd.pair_origin hpair hs with hold | ⟨hnew, rfl⟩
  · exact .inl ⟨pair, hold, hid, hs, (Int.ofNat_le.mpr (hle _)).trans_lt ha,
      (Int.ofNat_le.mpr (hle _)).trans_lt hb⟩
  · exact .inr ⟨hid.symm.trans hnew, pair, hid, rfl⟩

/-- A pair is dealt its first turn when there is a card. -/
theorem Db.pickCard_isSome {db : Db} (h : db.liveCards ≠ []) (pairId : Uuid) (rand : ℕ) :
    (db.pickCard pairId rand).isSome := by
  have hpool : ∀ pool : List CardRecord, pool ≠ [] → (pool[rand % pool.length]?).isSome := by
    intro pool hne
    rw [List.getElem?_eq_getElem (Nat.mod_lt _ (List.length_pos_iff.mpr hne))]
    rfl
  rw [pickCard]
  refine hpool _ ?_
  split
  · exact h
  · assumption

theorem Db.pickCard_mem {db : Db} {pairId : Uuid} {rand : ℕ} {card : CardRecord}
    (h : db.pickCard pairId rand = some card) : card ∈ db.cards := by
  rw [pickCard] at h
  have hmem := List.mem_of_getElem? h
  split at hmem
  · exact List.mem_of_mem_filter hmem
  · exact List.mem_of_mem_filter (List.mem_of_mem_filter hmem)

/-- A pair made while there is a card is in play. -/
theorem Did.inPlay_matched {su : Setup} {d : Draw} {v v' : Venue} {pair : PairRecord}
    (hd : Did su d v (.matched (some pair)) v') (hid : pair.id = d.uuid) (hn : d.New v.db)
    (hcards : v.db.liveCards ≠ []) : v'.db.InPlay pair.id := by
  cases hd with
  | already hactive =>
    exact absurd hid (hn.pair pair (Db.mem_activePairs.mp (Db.activePair_mem hactive)).1)
  | @paired a b lang queue hactive hactive' hne ha hb hq =>
    obtain ⟨card, hcard⟩ := Option.isSome_iff_exists.mp (Db.pickCard_isSome hcards d.uuid d.rand)
    refine ⟨TurnRecord.initial d.uuid' d.uuid a b card.id d.now, ?_, rfl, nofun⟩
    show _ ∈ v.db.turns ++ _
    rw [hcard]
    exact List.mem_append_right _ List.mem_cons_self

/-! ## The pact -/

/-- The turn program `i` has yet to follow, if any, is of a pair that cannot play on. -/
def Settled (cap : ℤ) (i : ℕ) (sc : Scene) : Prop :=
  ∀ u, scoring i sc.story = some u → ¬sc.venue.db.PlaysOn cap u.pairId

/-- No guess ends too early, and no pair is made without a turn. -/
def finishing (cap : ℤ) : Conditions where
  may i a sc :=
    match a with
    | .picked none => Settled cap i sc
    | .matched (some pair) => pair ∈ sc.venue.db.pairs ∨ sc.venue.db.liveCards ≠ []
    | _ => True
  lose i sc := Settled cap i sc

/-- **Every pair that can play on is in play, or about to be.** -/
structure Progress (cap : ℤ) (sc : Scene) : Prop where
  playing : ∀ pairId, sc.venue.db.PlaysOn cap pairId →
    sc.venue.db.InPlay pairId ∨ ∃ i u, scoring i sc.story = some u ∧ u.pairId = pairId
  guess : ∀ i u, scoring i sc.story = some u →
    ∃ player optionId, sc.requests[i]? = some (.guess player optionId)

/-- The pact of the guesses: whoever has a turn to follow follows it. -/
def progress (cap : ℤ) : Pact where
  known := Lifecycle
  inv := Progress cap
  pre i a sc :=
    match a with
    | .guessed _ => scoring i sc.story = none ∧
      ∃ player optionId, sc.requests[i]? = some (.guess player optionId)
    | .created t => ∃ u, scoring i sc.story = some u ∧ u.Swaps t
    | _ => True
  post q i _ sc :=
    match q with
    | .guess _ _ => Settled cap i sc
    | _ => True
  gone i sc := Settled cap i sc

namespace Progress

variable {su : Setup} {cap : ℤ} {i : ℕ} {q : Request}

section

variable {C : Conditions} {a : Deed} {d : Draw} {sc : Scene} {v : Venue}

/-- A deed of program `i` that leaves it the turn it has to follow. -/
theorem scoring_origin (h : (progress cap).Step su C i a d sc v) {j : ℕ} {u : TurnRecord}
    (hu : scoring j ((i, a) :: sc.story) = some u) :
    scoring j sc.story = some u ∧ (∀ t, a = .created t → j ≠ i) ∨ j = i ∧ a = .guessed u := by
  by_cases hj : j = i
  · subst hj
    cases a with
    | created t =>
      rw [scoring_created] at hu
      cases hu
    | guessed t =>
      rw [scoring_guessed] at hu
      split_ifs at hu with hs
      · cases hu
        exact .inr ⟨rfl, rfl⟩
      · have hnone : scoring j sc.story = none := h.pre.1
        rw [hnone] at hu
        cases hu
    | _ =>
      rw [scoring_other rfl] at hu
      exact .inl ⟨hu, fun _ h ↦ by cases h⟩
  · rw [scoring_ne (Ne.symm hj)] at hu
    exact .inl ⟨hu, fun _ _ ↦ hj⟩

/-- A turn to follow stays one until the next turn is created. -/
theorem scoring_kept (h : (progress cap).Step su C i a d sc v) {j : ℕ} {u : TurnRecord}
    (hu : scoring j sc.story = some u) (hc : ∀ t, a = .created t → j ≠ i) :
    scoring j ((i, a) :: sc.story) = some u := by
  by_cases hj : j = i
  · subst hj
    cases a with
    | created t => exact absurd rfl (hc t rfl)
    | guessed t =>
      have hnone : scoring j sc.story = none := h.pre.1
      rw [hnone] at hu
      cases hu
    | _ => exact (scoring_other rfl _).trans hu
  · exact (scoring_ne (Ne.symm hj) a _).trans hu

/-- What has been settled stays settled. -/
theorem settled_kept (h : (progress cap).Step su C i a d sc v) {j : ℕ} (hs : Settled cap j sc)
    (hsame : ∀ u, scoring j ((i, a) :: sc.story) = some u → scoring j sc.story = some u) :
    Settled cap j (sc.after i a v) := by
  intro u hu hp
  have hu := hsame u hu
  rcases h.did.playsOn_origin h.tidy hp with hold | ⟨hnew, -⟩
  · exact hs u hu hold
  · exact h.known.pairId_ne_of_scoring h.new hu hnew

theorem after (h : (progress cap).Step su (finishing cap) i a d sc v) :
    Progress cap (sc.after i a v) where
  playing pairId hp := by
    rcases h.did.playsOn_origin h.tidy hp with hold | ⟨hnew, pair, rfl, rfl⟩
    · rcases h.inv.playing pairId hold with ⟨t, ht, rfl, hs⟩ | ⟨j, u, hu, rfl⟩
      · obtain ⟨t', hl, ⟨ht', hs'⟩ | ⟨rfl, hs'⟩⟩ := h.did.turnsStep.unscored h.tidy ht hs
        · exact .inl ⟨t', ht', hl.pairId, hs'⟩
        · refine .inr ⟨i, t', ?_, hl.pairId⟩
          exact (scoring_guessed i t' _).trans (if_pos hs')
      · by_cases hc : ∀ t, a = .created t → j ≠ i
        · exact .inr ⟨j, u, scoring_kept h hu hc, rfl⟩
        · push Not at hc
          obtain ⟨t, rfl, rfl⟩ := hc
          obtain ⟨u', hu', hpair, -⟩ := h.pre
          rw [hu] at hu'
          cases hu'
          obtain ⟨ht, hs⟩ := h.did.created_turn
          exact .inl ⟨t, ht, hpair, hs.trans_ne nofun⟩
    · rcases h.may with hmem | hcards
      · exact absurd hnew (h.new.pair pair hmem)
      · exact .inl (h.did.inPlay_matched hnew h.new hcards)
  guess j u hu := by
    rcases scoring_origin h hu with ⟨hold, -⟩ | ⟨rfl, rfl⟩
    · exact h.inv.guess j u hold
    · exact h.pre.2

end

/-! ### The guess -/

theorem stable_scoring (o : Option TurnRecord) :
    (progress cap).Stable su (finishing cap) i fun sc ↦ scoring i sc.story = o :=
  .own (scoring i) (fun _ hj a st ↦ scoring_ne hj a st) (· = o)

theorem stable_settled : (progress cap).Stable su (finishing cap) i (Settled cap i) :=
  ⟨fun _ _ h ↦ h, fun j a _ sc _ hj h hs ↦ settled_kept h hs fun u hu ↦ by
    rw [scoring_ne hj] at hu
    exact hu⟩

theorem stable_post (q : Request) (r : Except Failure Reply) :
    (progress cap).Stable su (finishing cap) i ((progress cap).post q i r) := by
  cases q with
  | guess player optionId => exact stable_settled
  | requestPair | uploadAudio | confirmLabel | completePair | triage | setDeckStatus =>
    exact .true i

/-- The pair of a turn that is to be followed, with the turn's players as its members. -/
theorem pair_of_scoring {sc : Scene} (h : Lifecycle sc) {u : TurnRecord}
    (hu : scoring i sc.story = some u) : ∃ pair ∈ sc.venue.db.pairs, pair.id = u.pairId ∧
      (u.speakerId = pair.playerA ∧ u.guesserId = pair.playerB ∨
        u.speakerId = pair.playerB ∧ u.guesserId = pair.playerA) := by
  obtain ⟨t, ht, -, hpair, hspeaker, hguesser, -⟩ := (h.held i u hu).1
  rw [← hpair, ← hspeaker, ← hguesser]
  exact h.seated t ht

/-- The next turn can be created. -/
theorem createTurn_ok {sc : Scene} (htidy : sc.venue.db.Tidy) (h : Lifecycle sc) {u : TurnRecord}
    (hu : scoring i sc.story = some u) {card : CardRecord} (hcard : card ∈ sc.venue.db.cards)
    (d : Draw) : ∃ t, ((VenueOp.store (.createTurn u.pairId u.guesserId u.speakerId card.id)).exec
      su d sc.venue).1 = .ok t := by
  obtain ⟨pair, hpair, hid, hseats⟩ := pair_of_scoring h hu
  obtain ⟨ha, hb⟩ := htidy.members pair hpair
  have hne := htidy.apart pair hpair
  have hfind : (sc.venue.db.findPair u.pairId).isSome := by
    rw [(Db.findPair_eq_some htidy.pairIds).mpr ⟨hpair, hid⟩]
    rfl
  have hcards : ∃ c ∈ sc.venue.db.cards, c.id = card.id := ⟨card, hcard, rfl⟩
  rcases hseats with ⟨hs, hg⟩ | ⟨hs, hg⟩
  · rw [hs, hg]
    exact su.backend.createTurn_ok su.cfg d hfind hb ha hcards hne.symm
  · rw [hs, hg]
    exact su.backend.createTurn_ok su.cfg d hfind ha hb hcards hne

/-- `complete_pair_if_capped` does not fail for the pair of the turn. -/
theorem completePairIfCapped_ok {sc : Scene} (htidy : sc.venue.db.Tidy) (h : Lifecycle sc)
    {u : TurnRecord} (hu : scoring i sc.story = some u) (d : Draw) :
    ∃ capped, ((VenueOp.store (.completePairIfCapped u.pairId cap)).exec su d sc.venue).1 =
      .ok capped := by
  obtain ⟨pair, hpair, hid, -⟩ := pair_of_scoring h hu
  rw [← hid]
  exact su.backend.completePairIfCapped_ok su.cfg htidy d hpair cap

/-- A pair that has just been completed does not play on. -/
theorem not_playsOn_of_completed {db db' : Db} {pairId : Uuid} {cap cap' : ℤ}
    {r : Except Failure Bool} (h : Completion db pairId cap' r db') (hr : r = .ok true) :
    ¬db'.PlaysOn cap pairId := by
  cases h with
  | refused e => cases hr
  | below => cases hr
  | capped hpair hp hcap =>
    rintro ⟨pair, hmem, hid, hs, -⟩
    obtain ⟨pair₀, -, rfl⟩ := List.mem_map.mp hmem
    split at hs
    · cases hs
    · rename_i hne
      rw [if_neg hne] at hid
      exact hne hid

section

variable {player optionId : Uuid} {u : TurnRecord}

/-- A call that cannot fail, made while there is a turn to follow. -/
theorem safe_sure {β : Type} {op : VenueOp β} {f : β → Prog VenueOp Failure Reply}
    (hop : ∀ r, (deed op r).isTurning = false)
    (hsure : ∀ sc d, sc.venue.db.Tidy → Lifecycle sc → scoring i sc.story = some u →
      ∃ b, (op.exec su d sc.venue).1 = .ok b)
    (hf : ∀ sc d b, (progress cap).Step su (finishing cap) i (deed op (.ok b)) d sc
        (op.exec su d sc.venue).2 → (op.exec su d sc.venue).1 = .ok b →
      scoring i sc.story = some u →
      scoring i (sc.after i (deed op (.ok b)) (op.exec su d sc.venue).2).story = some u →
      ∃ P', P' (sc.after i (deed op (.ok b)) (op.exec su d sc.venue).2) ∧
        (progress cap).Safe su (finishing cap) i (.guess player optionId) (f b) P') :
    (progress cap).Safe su (finishing cap) i (.guess player optionId) (Prog.perform op >>= f)
      fun sc ↦ scoring i sc.story = some u := by
  refine Pact.safe_call (stable_scoring _) (fun e ↦ stable_post _ _) ?_ ?_ ?_ ?_
  · exact fun sc _ _ _ hl ↦ ⟨hl, fun _ ↦ hl⟩
  · intro sc d _ _ _ _ _
    have ha := hop (op.exec su d sc.venue).1
    generalize deed op (op.exec su d sc.venue).1 = a at ha
    cases a <;> first | exact trivial | cases ha
  · intro sc d e h hu he
    obtain ⟨b, hb⟩ := hsure sc d h.tidy h.known hu
    rw [hb] at he
    cases he
  · intro sc d b h hu hr
    have ha := hop (op.exec su d sc.venue).1
    have hu' : scoring i ((i, deed op (op.exec su d sc.venue).1) :: sc.story) = some u :=
      (scoring_other ha sc.story).trans hu
    rw [hr] at h hu' ⊢
    exact hf sc d b h hr hu hu'

/-- The creation of the next turn. -/
theorem safe_createTurn (card : CardRecord) :
    (progress cap).Safe su (finishing cap) i (.guess player optionId)
      (GameService.store (.createTurn u.pairId u.guesserId u.speakerId card.id) >>=
        fun _ ↦ pure .ok)
      fun sc ↦ scoring i sc.story = some u ∧ card ∈ sc.venue.db.cards := by
  refine Pact.safe_call ?_ (fun e ↦ stable_post _ _) ?_ ?_ ?_ ?_
  · refine (stable_scoring _).and ⟨fun _ _ h ↦ h, fun j a d sc v _ h hcard ↦ ?_⟩
    rw [Scene.after_venue, h.did.cards]
    exact hcard
  · exact fun sc _ _ _ hl ↦ ⟨hl, fun _ ↦ hl⟩
  · intro sc d htidy _ _ _ hP
    rcases Lifecycle.deed_createTurn su d htidy u card.id rfl with ha | ⟨t, ha, hswaps⟩
    · rw [ha]
      exact trivial
    · rw [ha]
      exact ⟨u, hP.1, hswaps⟩
  · intro sc d e h hP he
    obtain ⟨t, ht⟩ := @createTurn_ok su i sc h.tidy h.known u hP.1 card hP.2 d
    rw [ht] at he
    cases he
  · intro sc d t h _ hr
    rw [hr]
    refine ⟨_, ?_, Pact.safe_return stable_settled fun _ _ h ↦ h⟩
    intro u' hu'
    rw [Scene.after_story, show deed (.store (.createTurn u.pairId u.guesserId u.speakerId card.id))
      (.ok t) = .created t from rfl, scoring_created] at hu'
    cases hu'

theorem safe_advance (su : Setup) :
    (progress su.roundsCap).Safe su (finishing su.roundsCap) i (.guess player optionId)
      (GameService.advance su.roundsCap u) fun sc ↦ scoring i sc.story = some u := by
  refine safe_sure (fun _ ↦ rfl)
    (fun sc d htidy h hu ↦ completePairIfCapped_ok htidy h hu d) fun sc d capped h hr _ hu ↦ ?_
  split_ifs with hcapped
  · subst hcapped
    refine ⟨_, ?_, Pact.safe_return stable_settled fun _ _ h ↦ h⟩
    intro u' hu'
    rw [hu] at hu'
    cases hu'
    exact not_playsOn_of_completed (su.backend.promise su.cfg h.tidy d
      (.completePairIfCapped u.pairId su.roundsCap)) hr
  · refine ⟨_, hu, safe_sure (fun r ↦ by cases r <;> rfl) (fun sc d htidy h hu ↦ ?_)
      fun sc d card h hr hu hu' ↦ ?_⟩
    · exact ⟨_, (su.backend.promise su.cfg htidy d (.pickCardForPair u.pairId)).2⟩
    · cases card with
      | none =>
        refine ⟨_, settled_kept h h.may fun u' hu'' ↦ ?_, Pact.safe_return stable_settled
          fun _ _ h ↦ h⟩
        rw [← hu'.symm.trans hu'']
        exact hu
      | some card =>
        refine ⟨_, ⟨hu', ?_⟩, safe_createTurn card⟩
        obtain ⟨-, hpick⟩ := su.backend.promise su.cfg h.tidy d (.pickCardForPair u.pairId)
        have hcard : sc.venue.db.pickCard u.pairId d.rand = some card :=
          Except.ok.inj (hpick.symm.trans hr)
        rw [Scene.after_venue, h.did.cards]
        exact Db.pickCard_mem hcard

theorem safe_afterScored (su : Setup) :
    (progress su.roundsCap).Safe su (finishing su.roundsCap) i (.guess player optionId)
      (GameService.afterScored su.roundsCap u) fun sc ↦ scoring i sc.story = some u := by
  refine safe_sure (fun _ ↦ rfl)
    (fun sc d htidy _ _ ↦ ⟨_, (su.backend.promise su.cfg htidy d (.getTurn u.id)).2⟩)
    fun sc d fresh h hr _ hu ↦ ⟨fun sc ↦ scoring i sc.story = some u, hu, ?_⟩
  split_ifs
  · exact safe_sure (fun r ↦ by cases r <;> rfl)
      (fun sc d htidy _ _ ↦
        ⟨_, (su.backend.promise su.cfg htidy d (.enqueueJob .package u.id)).1⟩)
      fun sc d created h hr _ hu ↦ ⟨_, hu, safe_advance su⟩
  · exact safe_advance su

end

theorem safe_guess (su : Setup) (player optionId : Uuid) :
    (progress su.roundsCap).Safe su (finishing su.roundsCap) i (.guess player optionId)
      ((Request.guess player optionId).body su) fun sc ↦
      scoring i sc.story = none ∧ sc.requests[i]? = some (.guess player optionId) := by
  have hsettled : ∀ sc : Scene, scoring i sc.story = none → Settled su.roundsCap i sc := by
    intro sc hnone u hu
    rw [hnone] at hu
    cases hu
  have hc : (progress su.roundsCap).Carried su (finishing su.roundsCap) (fun a ↦ a = .other) i
      (.guess player optionId) fun sc ↦ scoring i sc.story = none ∧
        sc.requests[i]? = some (.guess player optionId) := by
    refine ⟨(stable_scoring none).and (.request i i _), fun a sc ha _ _ ↦ ha ▸ trivial, ?_,
      fun _ _ _ hl ↦ hl, fun _ sc hP ↦ hsettled sc hP.1, fun _ ↦ stable_post _ _⟩
    rintro a d sc v rfl _ hP
    exact ⟨(scoring_other rfl _).trans hP.1, hP.2⟩
  refine Pact.safe_guess hc rfl player optionId fun turnId correct ↦ ?_
  refine Pact.safe_call hc.stable hc.errorStable ?_ ?_ ?_ ?_
  · exact fun sc _ _ _ hl ↦ ⟨hl, fun _ ↦ hl⟩
  · intro sc d _ _ _ _ hP
    cases ((VenueOp.store (.applyGuess turnId correct)).exec su d sc.venue).1 with
    | ok t => exact ⟨hP.1, player, optionId, hP.2⟩
    | error e => exact trivial
  · intro sc d e h hP hr
    rw [hr]
    exact hsettled _ ((scoring_other rfl _).trans hP.1)
  · intro sc d updated h hP hr
    rw [hr]
    split_ifs with hs
    · exact ⟨_, (scoring_guessed i updated _).trans (if_pos hs), safe_afterScored su⟩
    · exact ⟨_, hsettled _ (((scoring_guessed i updated _).trans (if_neg hs)).trans hP.1),
        Pact.safe_return stable_settled fun _ _ h ↦ h⟩

theorem sound (su : Setup) :
    (progress su.roundsCap).Sound su (finishing su.roundsCap) where
  spawn sc r h := by
    refine ⟨h.playing, fun i u hu ↦ ?_⟩
    obtain ⟨player, optionId, hq⟩ := h.guess i u hu
    exact ⟨player, optionId, Scene.getElem?_spawned hq r⟩
  after _ _ _ _ _ h := after h
  gone i := stable_settled
  body i q := by
    cases q with
    | guess player optionId =>
      refine ⟨_, safe_guess su player optionId, fun sc _ _ hold hlen ↦ ⟨?_, ?_⟩⟩
      · exact scoring_eq_none hold
      · rw [← hlen]
        exact List.getElem?_concat_length
    | requestPair | uploadAudio | confirmLabel | completePair | triage | setDeckStatus =>
      refine Pact.body_of_idle (fun a sc ha _ _ ↦ ?_) (fun _ _ _ hl ↦ hl) fun _ _ ↦ trivial
      cases a <;> first | exact trivial | exact ha.elim

theorem opening {cap : ℤ} {v : Venue} (hv : v.Opening) : Progress cap ⟨[], v, []⟩ := by
  refine ⟨?_, fun i u hu ↦ by cases hu⟩
  rintro pairId ⟨pair, hpair, -⟩
  rw [hv.pairs] at hpair
  exact absurd hpair List.not_mem_nil

end Progress

/-! ## The result -/

/-- **A pair that can play on has a turn to play**, in every run in which no guess ends too early:
whenever no guess is in progress, every active pair whose members are below the cap has a turn that
is not scored. -/
theorem pair_plays_on {su : Setup} {c : Config VenueOp Failure Request Venue Reply}
    (h : (venue su).Reach ((finishing su.roundsCap).terms su) c)
    (hquiet : ∀ (i : ℕ) player optionId t, c.world.requests[i]? = some (.guess player optionId) →
      c.threads[i]? = some t → t.running = false) :
    ∀ pair ∈ c.world.state.db.pairs, pair.status = .active →
      (c.world.state.db.roundsPlayed pair.playerA : ℤ) < su.roundsCap →
      (c.world.state.db.roundsPlayed pair.playerB : ℤ) < su.roundsCap →
      ∃ t ∈ c.world.state.db.turns, t.pairId = pair.id ∧ t.status ≠ .scored := by
  have hgood : (progress su.roundsCap).Good su (finishing su.roundsCap) c :=
    (Progress.sound su).good (fun _ hv ↦ Progress.opening hv) (fun _ hc ↦ Lifecycle.of_reach hc) h
  have hinv : Progress su.roundsCap (scene c.world) := hgood.here.2
  intro pair hpair hs ha hb
  rcases hinv.playing pair.id ⟨pair, hpair, rfl, hs, ha, hb⟩ with hplay | ⟨i, u, hu, hid⟩
  · exact hplay
  · -- the guess that is to follow the turn has ended, and left it only if the pair cannot play on
    obtain ⟨player, optionId, hq⟩ := hinv.guess i u hu
    have hsettled : Settled su.roundsCap i (scene c.world) := by
      rcases hgood.ended hq (hquiet i player optionId · hq ·) with ⟨r, hpost⟩ | hgone
      · exact hpost
      · exact hgone
    exact absurd ⟨pair, hpair, hid.symm, hs, ha, hb⟩ (hsettled u hu)

/-! ## A pair without a turn stays without one -/

/-- The pact that the pair has been left behind: nobody creates a turn for it. -/
def strandedPair (pairId : Uuid) : Pact where
  inv sc := (∃ pair ∈ sc.venue.db.pairs, pair.id = pairId) ∧
    ∀ t ∈ sc.venue.db.turns, t.pairId = pairId → t.status = .scored
  pre _ a _ :=
    match a with
    | .created t => t.pairId ≠ pairId
    | _ => True

namespace Stranded

variable {su : Setup} {C : Conditions} {pairId : Uuid} {i : ℕ} {q : Request}

theorem after {a : Deed} {d : Draw} {sc : Scene} {v : Venue}
    (h : (strandedPair pairId).Step su C i a d sc v) :
    (strandedPair pairId).inv (sc.after i a v) := by
  obtain ⟨pair, hpair, rfl⟩ := h.inv.1
  obtain ⟨pair', hpair', hid, -⟩ := h.did.pair_kept hpair
  refine ⟨⟨pair', hpair', hid⟩, fun t ht hp ↦ ?_⟩
  rcases h.did.turnsStep.origin ht with ⟨t₀, ht₀, hl⟩ | ⟨-, hnew | rfl⟩
  · exact hl.scored (h.inv.2 t₀ ht₀ (hl.pairId.symm.trans hp))
  · exact absurd (hp.symm.trans hnew) (h.new.pair pair hpair)
  · exact absurd hp h.pre

theorem carried (hq : ∀ e sc, (strandedPair pairId).post q i (.error e) sc) :
    (strandedPair pairId).Carried su C (fun a ↦ a.isTurning = false) i q fun _ ↦ True where
  stable := .true i
  pre a sc ha _ _ := by
    cases a <;> first | exact trivial | cases ha
  own _ _ _ _ _ _ _ := trivial
  gone _ _ _ _ := trivial
  error e sc _ := hq e sc
  errorStable _ := .true i

/-- A guess that has scored a turn of another pair creates the next turn of that one. -/
theorem safe_afterScored {u : TurnRecord} (hu : u.pairId ≠ pairId) :
    (strandedPair pairId).Safe su C i q (GameService.afterScored su.roundsCap u) fun _ ↦ True := by
  have hc : (strandedPair pairId).Carried su C (fun a ↦ a.isTurning = false) i q fun _ ↦ True :=
    carried fun _ _ ↦ trivial
  have hreturn : (strandedPair pairId).Safe su C i q (pure .ok) fun _ ↦ True :=
    Pact.safe_return (.true i) fun _ _ _ ↦ trivial
  have hadvance : (strandedPair pairId).Safe su C i q (GameService.advance su.roundsCap u)
      fun _ ↦ True := by
    refine Pact.safe_quiet hc (fun _ ↦ rfl) fun capped ↦ ?_
    split_ifs
    · exact hreturn
    · refine Pact.safe_quiet hc (fun r ↦ by cases r <;> rfl) fun card ↦ ?_
      cases card with
      | none => exact hreturn
      | some card =>
        refine Pact.safe_call hc.stable hc.errorStable ?_ ?_ ?_ ?_
        · exact fun _ _ _ _ _ ↦ ⟨trivial, fun _ ↦ trivial⟩
        · intro sc d htidy _ _ _ _
          rcases Lifecycle.deed_createTurn su d htidy u card.id rfl with ha | ⟨t, ha, hswaps⟩
          · rw [ha]
            exact trivial
          · rw [ha]
            exact fun hp ↦ hu (hswaps.1.symm.trans hp)
        · exact fun _ _ _ _ _ _ ↦ trivial
        · exact fun _ _ _ _ _ _ ↦ ⟨fun _ ↦ True, trivial, hreturn⟩
  refine Pact.safe_quiet hc (fun _ ↦ rfl) fun fresh ↦ ?_
  split_ifs
  · exact Pact.safe_quiet hc (fun r ↦ by cases r <;> rfl) fun _ ↦ hadvance
  · exact hadvance

theorem safe_guess (player optionId : Uuid) :
    (strandedPair pairId).Safe su C i (.guess player optionId)
      ((Request.guess player optionId).body su) fun _ ↦ True := by
  have hc : (strandedPair pairId).Carried su C (fun a ↦ a.isTurning = false) i
      (.guess player optionId) fun _ ↦ True := carried fun _ _ ↦ trivial
  refine Pact.safe_guess hc rfl player optionId fun turnId correct ↦ ?_
  refine Pact.safe_call hc.stable hc.errorStable ?_ ?_ ?_ ?_
  · exact fun _ _ _ _ _ ↦ ⟨trivial, fun _ ↦ trivial⟩
  · intro sc d _ _ _ _ _
    cases ((VenueOp.store (.applyGuess turnId correct)).exec su d sc.venue).1 <;> exact trivial
  · exact fun _ _ _ _ _ _ ↦ trivial
  · intro sc d updated h _ hr
    rw [hr] at h
    split_ifs
    · refine ⟨fun _ ↦ True, trivial, safe_afterScored fun hp ↦ ?_⟩
      -- all turns of the pair are scored, and a guess needs one that is not
      obtain ⟨-, t, ht, hs, hl⟩ := h.did.guessed_turn
      have hscored := h.inv.2 t ht (hl.pairId.symm.trans hp)
      rw [hs] at hscored
      cases hscored
    · exact ⟨fun _ ↦ True, trivial, Pact.safe_return (.true i) fun _ _ _ ↦ trivial⟩

theorem sound (su : Setup) (C : Conditions) (pairId : Uuid) :
    (strandedPair pairId).Sound su C where
  spawn _ _ h := h
  after _ _ _ _ _ h := after h
  gone i := .true i
  body i q := by
    cases q with
    | guess player optionId => exact ⟨_, safe_guess player optionId, fun _ _ _ _ _ ↦ trivial⟩
    | requestPair | uploadAudio | confirmLabel | completePair | triage | setDeckStatus =>
      refine Pact.body_of_idle (fun a sc ha _ _ ↦ ?_) (fun _ _ _ _ ↦ trivial) fun _ _ ↦ trivial
      cases a <;> first | exact trivial | exact ha.elim

end Stranded

/-- **A pair without a turn stays without one**: once nothing is in progress and every turn of a
pair is scored, no further request, of whatever kind, brings the pair a turn. -/
theorem stranded_forever {su : Setup} {c c' : Config VenueOp Failure Request Venue Reply}
    (h : (venue su).Reachable c)
    (hrun : ∀ (i : ℕ) t, c.threads[i]? = some t → t.running = false) {pair : PairRecord}
    (hpair : pair ∈ c.world.state.db.pairs)
    (hscored : ∀ t ∈ c.world.state.db.turns, t.pairId = pair.id → t.status = .scored)
    (hl : (venue su).Leads (fun _ _ ↦ True) c c') :
    ∀ t ∈ c'.world.state.db.turns, t.pairId = pair.id → t.status = .scored := by
  have hlife : lifecycle.Good su {} c :=
    (Lifecycle.sound su {}).good (fun _ hv ↦ Lifecycle.opening hv) (fun _ _ ↦ trivial) h
  have hgood : (strandedPair pair.id).Good su {} c := by
    refine Contract.Good.of_ended hlife ?_ hrun (fun _ _ _ _ ↦ trivial) fun _ _ ↦ trivial
    exact ⟨⟨tidy_of_reach h, trivial⟩, ⟨pair, hpair, rfl⟩, hscored⟩
  have hgood' : (strandedPair pair.id).Good su {} c' := by
    refine hgood.leads (Stranded.sound su {} pair.id).sound ?_ ?_ hl
    · exact fun c e _ ↦ Terms.any_allows c e
    · exact fun c'' hl' ↦ ⟨tidy_of_reach (hl'.reachable h), trivial⟩
  exact hgood'.here.2.2

/-! ## A run on the conditions, and one that is not -/

instance (cap : ℤ) (db : Db) (pairId : Uuid) : Decidable (db.PlaysOn cap pairId) :=
  inferInstanceAs (Decidable (∃ pair ∈ db.pairs, pair.id = pairId ∧ pair.status = .active ∧
    (db.roundsPlayed pair.playerA : ℤ) < cap ∧ (db.roundsPlayed pair.playerB : ℤ) < cap))

instance (cap : ℤ) (i : ℕ) (sc : Scene) : Decidable (Settled cap i sc) :=
  match h : scoring i sc.story with
  | none => isTrue fun u hu ↦ absurd (h.symm.trans hu) nofun
  | some u => decidable_of_iff (¬sc.venue.db.PlaysOn cap u.pairId)
    ⟨fun hn u' hu' ↦ by rw [← Option.some.inj (h.symm.trans hu')]; exact hn, fun hs ↦ hs u h⟩

instance (cap : ℤ) (i : ℕ) (a : Deed) (sc : Scene) : Decidable ((finishing cap).may i a sc) :=
  match a with
  | .picked none => inferInstanceAs (Decidable (Settled cap i sc))
  | .matched (some pair) => inferInstanceAs
    (Decidable (pair ∈ sc.venue.db.pairs ∨ sc.venue.db.liveCards ≠ []))
  | .picked (some _) | .matched none | .queued _ | .created _ | .saved _ _ _ | .accepted _
  | .guessed _ | .enqueued _ _ | .triaged _ | .other => isTrue trivial

instance (cap : ℤ) (i : ℕ) (sc : Scene) : Decidable ((finishing cap).lose i sc) :=
  inferInstanceAs (Decidable (Settled cap i sc))

/-- A guess is lost before it has scored, and is repeated. -/
theorem pair_plays_on_again : ∃ c,
    (venue defaultSetup).Reach ((finishing defaultSetup.roundsCap).terms defaultSetup) c ∧
    ∃ pair ∈ c.world.state.db.pairs, c.world.state.db.roundsPlayed pair.playerA = 1 ∧
      ∃ t ∈ c.world.state.db.turns, t.pairId = pair.id ∧ t.status ≠ .scored := by
  obtain ⟨c, hc, hrun⟩ := System.exists_reach_of_runOn
    ((finishing defaultSetup.roundsCap).allows_of_permits defaultSetup) opening_threePlayers
    (show ((venue defaultSetup).runOn ((finishing defaultSetup.roundsCap).permits defaultSetup)
      (System.start threePlayers) (pairUp ++ speak ++ .spawn (.guess 2 0) :: calls 4 16 2 ++
        .kill 4 :: .spawn (.guess 2 0) :: calls 5 18 7)).map (fun c ↦ c.quiet &&
        c.world.state.db.pairs.any fun pair ↦ pair.status == .active &&
          c.world.state.db.roundsPlayed pair.playerA == 1 &&
          c.world.state.db.roundsPlayed pair.playerB == 1) = some true by decide +kernel)
  rw [Bool.and_eq_true] at hrun
  obtain ⟨pair, hpair, hcheck⟩ := List.any_eq_true.mp hrun.2
  rw [Bool.and_eq_true, Bool.and_eq_true, beq_iff_eq, beq_iff_eq, beq_iff_eq] at hcheck
  obtain ⟨⟨hs, ha⟩, hb⟩ := hcheck
  exact ⟨c, hc, pair, hpair, ha, pair_plays_on hc
    (fun _ _ _ _ _ ht ↦ Config.running_of_quiet hrun.1 ht) pair hpair hs
    (by rw [ha]; decide) (by rw [hb]; decide)⟩

/-- A guess dies after it has scored.  Nothing is in progress, there is a card, and both players are
below the cap; but their pair has no turn, and no request will ever bring it one. -/
theorem pairStranded : ∃ c, (venue defaultSetup).Reachable c ∧
    (∀ (i : ℕ) t, c.threads[i]? = some t → t.running = false) ∧
    c.world.state.db.liveCards ≠ [] ∧
    ∃ pair ∈ c.world.state.db.pairs, pair.status = .active ∧
      (c.world.state.db.roundsPlayed pair.playerA : ℤ) < defaultSetup.roundsCap ∧
      (c.world.state.db.roundsPlayed pair.playerB : ℤ) < defaultSetup.roundsCap ∧
      ∀ c', (venue defaultSetup).Leads (fun _ _ ↦ True) c c' →
        ∀ t ∈ c'.world.state.db.turns, t.pairId = pair.id → t.status = .scored := by
  obtain ⟨c, hc, hrun⟩ := System.exists_reachable_of_run opening_threePlayers
    (show ((venue defaultSetup).run (System.start threePlayers)
      (pairUp ++ speak ++ .spawn (.guess 2 0) :: calls 4 16 3 ++ [.kill 4])).map (fun c ↦
        c.quiet && !c.world.state.db.liveCards.isEmpty &&
        c.world.state.db.pairs.any fun pair ↦ pair.status == .active &&
          c.world.state.db.roundsPlayed pair.playerA == 1 &&
          c.world.state.db.roundsPlayed pair.playerB == 1 &&
          c.world.state.db.turns.all fun t ↦ t.status == .scored) = some true by decide +kernel)
  rw [Bool.and_eq_true, Bool.and_eq_true, Bool.not_eq_true', List.isEmpty_eq_false_iff] at hrun
  obtain ⟨⟨hquiet, hcards⟩, hpairs⟩ := hrun
  obtain ⟨pair, hpair, hcheck⟩ := List.any_eq_true.mp hpairs
  rw [Bool.and_eq_true, Bool.and_eq_true, Bool.and_eq_true, beq_iff_eq, beq_iff_eq, beq_iff_eq,
    List.all_eq_true] at hcheck
  obtain ⟨⟨⟨hs, ha⟩, hb⟩, hscored⟩ := hcheck
  have hrunning : ∀ (i : ℕ) t, c.threads[i]? = some t → t.running = false :=
    fun _ _ ht ↦ Config.running_of_quiet hquiet ht
  exact ⟨c, hc, hrunning, hcards, pair, hpair, hs, by rw [ha]; decide, by rw [hb]; decide,
    fun c' hl ↦ stranded_forever hc hrunning hpair (fun t ht _ ↦ beq_iff_eq.mp (hscored t ht)) hl⟩

end Neva
