import Neva.Play.Cap
import Neva.Play.Polling

/-!
# The result of the last round

A player learns how a round ended from `last_result`, which `compose_state_response` makes of the
most recent scored turn of the player's pair.  The pair is the one that is still active, in both
stores.  The last round of a session completes its pair in the request that scores it, and from then
on no pair is fetched and there is no result to show, to the player who has reached the cap and to
the one who has not (`lastResult_of_unscored`).  The view has a branch for a pair that is
`completed`, which no bundle takes it into.

While the pair of a player's last turn is active, its result is shown: `last_result_reaches`.
-/

set_option autoImplicit false

namespace Neva

open Calls Tables

/-- `MemoryGameStore.fetch_state_bundle`.  `get_cards` looks the decoys up in the order the card
lists them. -/
def Memory.fetchStateBundle (cfg : StateConfig) (faces : Uuid → CardFace) (now : Time) (db : Db)
    (p : Uuid) : Except Failure StateBundle :=
  match db.findPlayer p with
  | none => .error .keyError
  | some me =>
    let pair := db.activePair p
    let turn := pair.bind fun pair ↦ db.latestTurn pair.id
    let card := turn.bind fun turn ↦ db.pictureCard faces turn.cardId
    let partner := pair.map fun pair ↦
      db.findPlayer (if pair.playerA = p then pair.playerB else pair.playerA)
    if partner = some none then .error .keyError
    else
      (Memory.playerStats cfg.toGameFeatureConfig db p).map fun stats ↦
        { player := me
          queued := Memory.isActivelyQueued cfg.toGameFeatureConfig db now p
          pair := pair
          partner := partner.join
          turn := turn
          card := card
          previousScored := pair.bind fun pair ↦ db.previousScored pair.id
          stats := stats
          leaderboardTop := Memory.leaderboard cfg.toGameFeatureConfig db cfg.leaderboardStateTop
          decoyLabels := (pair.bind fun pair ↦ card.map fun card ↦
            (faces card.id).decoys.filterMap fun d ↦
              if db.cards.any fun c ↦ c.id == d then
                some (d, resolveLabelText (faces d).labelCommon pair.commonLang)
              else none).getD [] }

/-- `self.store.fetch_state_bundle`.  The query of the Postgres store finds no row for a player who
is not there, and the `assert` on it fails; `order` is that of its `get_cards`. -/
def Backend.fetchStateBundle (backend : Backend) (cfg : StateConfig) (faces : Uuid → CardFace)
    (order : RowOrder) (now : Time) (db : Db) (p : Uuid) : Except Failure StateBundle :=
  match backend with
  | .postgres => (Postgres.fetchStateBundle cfg faces order now db p).elim (.error .lookupError) .ok
  | .memory => Memory.fetchStateBundle cfg faces now db p

/-- The last turn of the player: it is scored, none of their turns is still being played, and none
is more recent. -/
structure Db.LastTurn (db : Db) (p : Uuid) (t : TurnRecord) : Prop where
  mem : t ∈ db.turns
  involves : t.involves p = true
  scored : ∀ u ∈ db.turns, u.involves p = true → u.status = .scored
  latest : ∀ u ∈ db.turns, u.involves p = true →
    toLex (u.createdAt, u.id) ≤ toLex (t.createdAt, t.id)

section

variable {checksum : Text → ℕ} {shuffle : Text → List OptionState → List OptionState}
  {cfg : StateConfig} {faces : Uuid → CardFace} {order : RowOrder} {roundsCap : ℤ}
  {now composed : Time} {b : StateBundle} {backend : Backend} {db : Db} {p : Uuid} {t : TurnRecord}

/-! ## The view -/

theorem lastResult_outcome : (lastResult cfg b).map RoundResult.outcome =
    b.previousScored.map TurnRecord.outcome := by
  rw [lastResult, Option.map_map]
  congr 1
  funext scored
  cases h : scored.outcome <;> simp [h]

/-- With a scored turn in front of them the players of a pair see the result. -/
theorem lastResult_of_scored {pair : PairRecord} (hpair : b.pair = some pair)
    (hturn : b.turn = some t)
    (hs : t.status = .scored) :
    (composeStateResponse checksum shuffle cfg roundsCap composed b).lastResult =
      lastResult cfg b := by
  have hphase : ∀ role, phaseForTurn cfg composed b role = .roundResult := by
    intro role
    simp [phaseForTurn, hturn, hs]
  by_cases hdone : roundsCap ≤ b.stats.roundsPlayed ∨
      b.pair.any (fun pair ↦ pair.status == .completed) = true
  · rw [composeStateResponse, if_pos hdone]
  · rw [composeStateResponse, if_neg hdone, hpair]
    simp [hphase]

/-- Without a scored turn there is no result to show. -/
theorem lastResult_of_unscored (hprev : b.previousScored = none) :
    (composeStateResponse checksum shuffle cfg roundsCap composed b).lastResult = none := by
  have hnone : lastResult cfg b = none := by rw [lastResult, hprev, Option.map_none]
  by_cases hdone : roundsCap ≤ b.stats.roundsPlayed ∨
      b.pair.any (fun pair ↦ pair.status == .completed) = true
  · rw [composeStateResponse, if_pos hdone]
    exact hnone
  · rw [composeStateResponse, if_neg hdone]
    cases b.pair with
    | none => rfl
    | some pair => simp [hnone]

/-! ## The bundle -/

/-- Either store fetches the player's active pair, and the turns of that. -/
theorem Backend.fetchStateBundle_eq
    (h : backend.fetchStateBundle cfg faces order now db p = .ok b) :
    b.pair = db.activePair p ∧
      (b.turn = (db.activePair p).bind fun pair ↦ db.latestTurn pair.id) ∧
      b.previousScored = (db.activePair p).bind fun pair ↦ db.previousScored pair.id := by
  cases hp : db.findPlayer p with
  | none => cases backend <;>
      simp [Backend.fetchStateBundle, Postgres.fetchStateBundle, Memory.fetchStateBundle, hp] at h
  | some me =>
    cases backend with
    | postgres =>
      simp only [Backend.fetchStateBundle, Postgres.fetchStateBundle, hp, Option.map_some,
        Option.elim_some, Except.ok.injEq] at h
      rw [← h]
      exact ⟨rfl, rfl, rfl⟩
    | memory =>
      simp only [Backend.fetchStateBundle, Memory.fetchStateBundle, hp] at h
      split_ifs at h
      cases hstats : Memory.playerStats cfg.toGameFeatureConfig db p with
      | error e => simp [hstats, Except.map] at h
      | ok stats =>
        simp only [hstats, Except.map, Except.ok.injEq] at h
        rw [← h]
        exact ⟨rfl, rfl, rfl⟩

/-- Whoever has joined is answered. -/
theorem Backend.fetchStateBundle_ok (htidy : db.Tidy) {me : PlayerRecord}
    (hp : db.findPlayer p = some me) :
    ∃ b, backend.fetchStateBundle cfg faces order now db p = .ok b := by
  cases backend with
  | postgres => exact ⟨_, by rw [Backend.fetchStateBundle, Postgres.fetchStateBundle, hp]; rfl⟩
  | memory =>
    have hpartner : ((db.activePair p).map fun pair ↦
        db.findPlayer (if pair.playerA = p then pair.playerB else pair.playerA)) ≠ some none := by
      intro hnone
      obtain ⟨pair, hpair, hmissing⟩ := Option.map_eq_some_iff.mp hnone
      have hmembers := htidy.members pair (Db.mem_of_activePair hpair).1
      split_ifs at hmissing
      · simp [hmissing] at hmembers
      · simp [hmissing] at hmembers
    simp [Backend.fetchStateBundle, Memory.fetchStateBundle, hp, hpartner, Memory.playerStats,
      Except.map]

/-! ## The last turn in the bundle -/

/-- The turns of a pair are turns of both its members. -/
theorem Db.involves_of_seated {pair : PairRecord} {u : TurnRecord} (htidy : db.Tidy)
    (hseated : db.Seated u) (hpair : pair ∈ db.pairs) (hid : u.pairId = pair.id)
    (hp : pair.playerA = p ∨ pair.playerB = p) : u.involves p = true := by
  obtain ⟨pair', hpair', hid', hseats⟩ := hseated
  obtain rfl := htidy.pairIds.eq hpair' hpair (hid'.trans hid)
  rw [TurnRecord.involves_iff]
  rcases hseats with ⟨hs, hg⟩ | ⟨hs, hg⟩
  · rw [hs, hg]
    exact hp
  · rw [hs, hg]
    exact hp.symm

/-- The last turn of a player, in an active pair of theirs, is its most recent scored turn. -/
theorem Db.LastTurn.previousScored (h : db.LastTurn p t) (htidy : db.Tidy)
    (hseated : ∀ u ∈ db.turns, db.Seated u) {pair : PairRecord} (hpair : pair ∈ db.pairs)
    (hid : t.pairId = pair.id) (hp : pair.playerA = p ∨ pair.playerB = p) :
    db.previousScored pair.id = some t := by
  have ht := h.scored t h.mem h.involves
  obtain ⟨u, hu⟩ := Db.exists_previousScored h.mem ht
  obtain ⟨humem, hupair, hus⟩ := Db.mem_previousScored hu
  have hle := Db.le_previousScored hu h.mem ht
  have hge := h.latest u humem (Db.involves_of_seated htidy (hseated u humem) hpair
    (hupair.trans hid) hp)
  have hkey := congrArg (fun key ↦ (ofLex key).2) (le_antisymm hle hge)
  rw [← hid, hu, htidy.turnIds.eq humem h.mem hkey.symm]

/-- Whatever is played in that pair has been scored. -/
theorem Db.LastTurn.latestTurn (h : db.LastTurn p t) (htidy : db.Tidy)
    (hseated : ∀ u ∈ db.turns, db.Seated u) {pair : PairRecord} (hpair : pair ∈ db.pairs)
    (hid : t.pairId = pair.id) (hp : pair.playerA = p ∨ pair.playerB = p) :
    ∃ u, db.latestTurn pair.id = some u ∧ u.status = .scored := by
  cases hlatest : db.latestTurn pair.id with
  | none =>
    have hmem : t ∈ db.turnsOf pair.id :=
      List.mem_filter.mpr ⟨h.mem, beq_iff_eq.mpr hid⟩
    rw [List.argmax_eq_none.mp hlatest] at hmem
    exact absurd hmem List.not_mem_nil
  | some u =>
    obtain ⟨hu, hupair⟩ := Db.latestTurn_mem hlatest
    exact ⟨u, rfl, h.scored u hu (Db.involves_of_seated htidy (hseated u hu) hpair hupair hp)⟩

end

/-! ## The result -/

/-- `GameService.get_state`: the bundle is fetched, and then composed. -/
def getState (su : Setup) (cfg : StateConfig) (faces : Uuid → CardFace) (checksum : Text → ℕ)
    (shuffle : Text → List OptionState → List OptionState) (order : RowOrder)
    (fetched composed : Time) (p : Uuid) (v : Venue) : Except Failure StateResponse :=
  (su.backend.fetchStateBundle cfg faces order fetched v.db p).map
    (composeStateResponse checksum shuffle cfg su.roundsCap composed)

/-- **The last result reaches a player whose pair is still active.**  When requests run one at
a time, the player is shown how their last turn ended if its pair is active, and is shown no result
at all if the player is in no active pair, or in one that has not played. -/
theorem last_result_reaches {su : Setup} (cfg : StateConfig) (faces : Uuid → CardFace)
    (checksum : Text → ℕ) (shuffle : Text → List OptionState → List OptionState)
    (order : RowOrder) (fetched composed : Time) {v : Venue}
    (h : (venue su).Serial (fun _ ↦ True) v) {p : Uuid} {t : TurnRecord}
    (hlast : v.db.LastTurn p t) :
    ∃ r, getState su cfg faces checksum shuffle order fetched composed p v = .ok r ∧
      ((∃ pair ∈ v.db.pairs, pair.id = t.pairId ∧ pair.status = .active) →
        r.lastResult.map RoundResult.outcome = some t.outcome) ∧
      ((∀ pair, v.db.activePair p = some pair → v.db.turnsOf pair.id = []) →
        r.lastResult = none) := by
  have hrest := rested_of_requests h
  have hmember : ∀ pair ∈ v.db.pairs, pair.id = t.pairId →
      pair.playerA = p ∨ pair.playerB = p := by
    intro pair hpair hid
    obtain ⟨pair', hpair', hid', hseats⟩ := hrest.seated t hlast.mem
    obtain rfl := hrest.tidy.pairIds.eq hpair' hpair (hid'.trans hid.symm)
    have hinv := TurnRecord.involves_iff.mp hlast.involves
    rcases hseats with ⟨hs, hg⟩ | ⟨hs, hg⟩
    · rwa [hs, hg] at hinv
    · rw [hs, hg] at hinv
      exact hinv.symm
  obtain ⟨me, hme⟩ : ∃ me, v.db.findPlayer p = some me := by
    obtain ⟨pair, hpair, hid, -⟩ := hrest.seated t hlast.mem
    obtain ⟨ha, hb⟩ := hrest.tidy.members pair hpair
    rcases hmember pair hpair hid with rfl | rfl
    · exact Option.isSome_iff_exists.mp ha
    · exact Option.isSome_iff_exists.mp hb
  have hfetch : ∃ b, su.backend.fetchStateBundle cfg faces order fetched v.db p = .ok b :=
    Backend.fetchStateBundle_ok hrest.tidy hme
  obtain ⟨b, hb⟩ := hfetch
  obtain ⟨hpairs, hturns, hprevs⟩ := Backend.fetchStateBundle_eq hb
  refine ⟨_, by rw [getState, hb, Except.map], ?_, fun hidle ↦ ?_⟩
  · rintro ⟨pair, hpair, hid, hactive⟩
    have hp := hmember pair hpair hid
    -- a player has one active pair
    have hone : v.db.activePair p = some pair := by
      have hmem : pair ∈ v.db.activePairs p := Db.mem_activePairs.mpr ⟨hpair, hactive, hp⟩
      cases hactivePair : v.db.activePair p with
      | none =>
        rw [Db.activePair_eq_none.mp hactivePair] at hmem
        exact absurd hmem List.not_mem_nil
      | some pair' =>
        obtain ⟨hpair', hactive', hp'⟩ := Db.mem_activePairs.mp (Db.activePair_mem hactivePair)
        rw [eq_of_length_filter_le_one (hrest.onePair.single p) hpair' hpair]
        · simpa [hactive'] using hp'
        · simpa [hactive] using hp
    obtain ⟨u, hu, hs⟩ := hlast.latestTurn hrest.tidy hrest.seated hpair hid.symm hp
    rw [hone, Option.bind_some] at hturns hprevs
    rw [lastResult_of_scored (hpairs.trans hone) (hturns.trans hu) hs, lastResult_outcome, hprevs,
      hlast.previousScored hrest.tidy hrest.seated hpair hid.symm hp, Option.map_some]
  · refine lastResult_of_unscored (hprevs.trans ?_)
    cases hactivePair : v.db.activePair p with
    | none => rfl
    | some pair =>
      rw [Option.bind_some, Db.previousScored, hidle pair hactivePair]
      rfl

/-! ## A session of one round -/

/-- A card nobody has drawn or labelled. -/
def blankFaces (_ : Uuid) : CardFace := ⟨[], .empty, []⟩

/-- A session of `cap` rounds. -/
def sessionOf (cap : ℤ) : Setup := { defaultSetup with roundsCap := cap }

/-- Player 1 speaks and player 2 guesses right.  When `closing`, the deck is closed before the
guess, so that no turn follows. -/
def oneRound (closing : Bool) : List (Request × List Draw) :=
  let guess := [(Request.guess 2 0, (List.range 7).map fun k ↦ Draw.nth (16 + k))]
  (Request.requestPair 1, (List.range 4).map Draw.nth) ::
    (Request.requestPair 2, (List.range 4).map fun k ↦ Draw.nth (4 + k)) ::
    (Request.uploadAudio 1 [0, 0], (List.range 5).map fun k ↦ Draw.nth (8 + k)) ::
    (Request.confirmLabel 1, (List.range 3).map fun k ↦ Draw.nth (13 + k)) ::
    if closing then (Request.setDeckStatus 0 .ready, [Draw.nth 30]) :: guess else guess

/-- The only turn there is, if it is scored, is the last one of either player. -/
theorem Db.lastTurn_of_single {db : Db} {p : Uuid} {outcome : TurnOutcome}
    (h : (db.turns.map fun t ↦ (t.involves p, t.status, t.outcome)) =
      [(true, TurnStatus.scored, outcome)]) :
    ∃ t, db.turns = [t] ∧ t.outcome = outcome ∧ db.LastTurn p t := by
  obtain ⟨t, hturns, ht⟩ := List.map_eq_singleton_iff.mp h
  obtain ⟨hinv, hrest⟩ := Prod.mk.inj ht
  obtain ⟨hs, houtcome⟩ := Prod.mk.inj hrest
  have honly : ∀ u ∈ db.turns, u = t := fun u hu ↦ by rwa [hturns, List.mem_singleton] at hu
  refine ⟨t, hturns, houtcome, ⟨by simp [hturns], hinv, fun u hu _ ↦ ?_, fun u hu _ ↦ ?_⟩⟩
  · rw [honly u hu, hs]
  · rw [honly u hu]

/-- What is checked of the state after the round: how its turn ended, and what a player is shown. -/
def afterRound (cap : ℤ) (closing : Bool) (p : Uuid) : Option
    (List (Bool × TurnStatus × TurnOutcome) × List PairStatus × Option (Option TurnOutcome)) :=
  ((venue (sessionOf cap)).play threePlayers (oneRound closing)).map fun v ↦
    (v.db.turns.map fun t ↦ (t.involves p, t.status, t.outcome), v.db.pairs.map PairRecord.status,
      (getState (sessionOf cap) {} blankFaces List.length
        (fun _ o ↦ o) .stored 31 31 p v).toOption.map
        fun r ↦ r.lastResult.map RoundResult.outcome)

theorem of_afterRound {cap : ℤ} {closing : Bool} {p : Uuid} {outcome : TurnOutcome}
    {statuses : List PairStatus} {shown : Option TurnOutcome}
    (h : afterRound cap closing p = some ([(true, .scored, outcome)], statuses, some shown)) :
    ∃ v t r, (venue (sessionOf cap)).play threePlayers (oneRound closing) = some v ∧
      v.db.LastTurn p t ∧ t.outcome = outcome ∧ v.db.pairs.map PairRecord.status = statuses ∧
      getState (sessionOf cap) {} blankFaces List.length (fun _ o ↦ o) .stored 31 31 p v = .ok r ∧
      r.lastResult.map RoundResult.outcome = shown := by
  rw [afterRound] at h
  obtain ⟨v, hv, hafter⟩ := Option.map_eq_some_iff.mp h
  obtain ⟨hturns, hrest⟩ := Prod.mk.inj hafter
  obtain ⟨hpairs, hshown⟩ := Prod.mk.inj hrest
  obtain ⟨r, hr, hlast⟩ := Option.map_eq_some_iff.mp hshown
  obtain ⟨t, -, houtcome, ht⟩ := Db.lastTurn_of_single hturns
  refine ⟨v, t, r, hv, ht, houtcome, hpairs, ?_, hlast⟩
  cases hstate :
    getState (sessionOf cap) {} blankFaces List.length (fun _ o ↦ o) .stored 31 31 p v with
  | error e => rw [hstate] at hr; cases hr
  | ok r' => rw [hstate] at hr; cases hr; rfl

/-- The deck closes, the round is scored and no turn follows: player 1 is shown the result. -/
theorem last_result_reaches_closing : ∃ v t, (venue (sessionOf 20)).Serial (fun _ ↦ True) v ∧
    v.db.LastTurn 1 t ∧
    ∃ r, getState (sessionOf 20) {} blankFaces List.length (fun _ o ↦ o) .stored 31 31 1 v = .ok r ∧
      r.lastResult.map RoundResult.outcome = some t.outcome := by
  obtain ⟨v, t, -, hv, ht, -, hpairs, -, -⟩ := of_afterRound
    (show afterRound 20 true 1 = some ([(true, .scored, .validated)], [.active],
      some (some .validated)) by decide +kernel)
  have hserial : (venue (sessionOf 20)).Serial (fun _ ↦ True) v :=
    System.serial_of_play (.start opening_threePlayers) (fun _ _ ↦ trivial) hv
  obtain ⟨pair, hpair, hid, -⟩ := (rested_of_requests hserial).seated t ht.mem
  have hactive : pair.status = .active :=
    List.mem_singleton.mp (hpairs ▸ List.mem_map_of_mem hpair)
  obtain ⟨r, hr, hshown, -⟩ :=
    last_result_reaches {} blankFaces List.length (fun _ o ↦ o) .stored 31 31
    hserial ht
  exact ⟨v, t, hserial, ht, r, hr, hshown ⟨pair, hpair, hid, hactive⟩⟩

/-- The only round of the session is scored, and neither player is shown the result. -/
theorem last_result_lost : ∃ v, (venue (sessionOf 1)).Serial (fun q ↦ q.isClient = true) v ∧
    ∀ p ∈ [1, 2], ∃ t r, v.db.LastTurn p t ∧ t.outcome = .validated ∧
      getState (sessionOf 1) {} blankFaces List.length (fun _ o ↦ o) .stored 31 31 p v = .ok r ∧
      r.lastResult.map RoundResult.outcome = none := by
  obtain ⟨v, t, r, hv, ht, houtcome, -, hr, hnone⟩ := of_afterRound
    (show afterRound 1 false 1 = some ([(true, .scored, .validated)], [.completed], some none)
      by decide +kernel)
  obtain ⟨v', t', r', hv', ht', houtcome', -, hr', hnone'⟩ := of_afterRound
    (show afterRound 1 false 2 = some ([(true, .scored, .validated)], [.completed], some none)
      by decide +kernel)
  obtain rfl : v = v' := Option.some.inj (hv.symm.trans hv')
  refine ⟨v, System.serial_of_play (.start opening_threePlayers) (by decide) hv, fun p hp ↦ ?_⟩
  rcases List.mem_pair.mp hp with rfl | rfl
  · exact ⟨t, r, ht, houtcome, hr, hnone⟩
  · exact ⟨t', r', ht', houtcome', hr', hnone'⟩

end Neva
