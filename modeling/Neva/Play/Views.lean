import Neva.Calls.Alone
import Neva.Play.Alternation
import Neva.Play.Polling
import Neva.Play.Progress

/-!
# What the players are shown

`GET /api/state` tells a player what to do, and the handlers of the requests check again whether
the player may do it.  The two were written apart, the one in `app/game/state.py` and the other in
`app/game/service.py`.  `shown_iff_answered` says that they agree: while no result is held and the
session is not over, a request is answered if and only if it is the one the player is asked for.

`views_complementary` is about both players of a pair.  The turn that is being played asks one of
them for something and the other to wait, or both are shown a result; it never asks both.
-/

set_option autoImplicit false

namespace Neva

open Calls Tables

/-! ## A request that runs alone -/

namespace Venue

variable (su : Setup) (v : Venue) (q : Request)

/-- However its calls turn out, the request is answered. -/
def Answers : Prop := (venue su).Ensures (fun r _ ↦ ∃ reply, r = .ok reply) (q.body su) v

/-- The request is turned down: `GameError(409, …)`. -/
def Declines : Prop :=
  (venue su).Ensures (fun r _ ↦ ∃ detail, r = .error (.gameError 409 detail)) (q.body su) v

end Venue

/-- The turn that `get_active_pair` and `get_latest_turn` find for the player. -/
def Db.currentTurn (db : Db) (p : Uuid) : Option TurnRecord :=
  (db.activePair p).bind fun pair ↦ db.latestTurn pair.id

namespace Deployment

variable {D : Deployment} {v : Venue} {p : Uuid}

/-- A call that answers `b`, and what follows it. -/
theorem ends_call {β γ : Type} {Q : Except Failure γ → Venue → Prop} {op : VenueOp β}
    {f : β → Prog VenueOp Failure γ}
    (h : ∀ d, (venue D.setup).admits d v = true → ∃ b, (op.exec D.setup d v).1 = .ok b ∧
      (venue D.setup).Ends Q (f b) (op.exec D.setup d v).2) :
    (venue D.setup).Ends Q (Prog.perform op >>= f) v := by
  rw [Prog.perform_bind]
  intro d hd
  obtain ⟨b, hb, hf⟩ := h d hd
  show (venue D.setup).Ends Q (Prog.after f (op.exec D.setup d v).1) (op.exec D.setup d v).2
  rw [hb]
  exact hf

/-- The two reads with which a request begins. -/
theorem ends_currentTurn {γ : Type} {Q : Except Failure γ → Venue → Prop}
    {f : PairRecord → Option TurnRecord → Prog VenueOp Failure γ}
    {unpaired : Prog VenueOp Failure γ}
    (hnone : v.db.activePair p = none → (venue D.setup).Ends Q unpaired v)
    (hsome : ∀ pair, v.db.activePair p = some pair →
      (venue D.setup).Ends Q (f pair (v.db.latestTurn pair.id)) v) :
    (venue D.setup).Ends Q (do
      let pair ← GameService.store (.getActivePair p)
      match pair with
      | none => unpaired
      | some pair => do
        let turn ← GameService.store (.getLatestTurn pair.id)
        f pair turn) v := by
  refine ends_call fun d _ ↦ ⟨v.db.activePair p, rfl, ?_⟩
  cases hpair : v.db.activePair p with
  | none => exact hnone hpair
  | some pair => exact ends_call fun d _ ↦ ⟨v.db.latestTurn pair.id, rfl, hsome pair hpair⟩

end Deployment

/-! ## What a player is asked for -/

/-- Who sits where in a turn. -/
def TurnRecord.seat (t : TurnRecord) : Role → Uuid
  | .speaker => t.speakerId
  | .guesser => t.guesserId

/-- The turn that is being played awaits something of the player in this role. -/
def Db.Asks (db : Db) (p : Uuid) (role : Role) (status : TurnStatus) : Prop :=
  ∃ t, db.currentTurn p = some t ∧ t.seat role = p ∧ t.status = status

/-- The knobs stay within what the columns of `turns` hold. -/
structure Deployment.Fits (D : Deployment) : Prop where
  attempts_pos : 1 ≤ D.cfg.maxGuessAttempts
  attempts_le : D.cfg.maxGuessAttempts ≤ 2
  duration_lt : Postgres.numeric52 D.cfg.audioMaxDurationS < 1000

namespace Deployment

variable {D : Deployment} {v : Venue} {p : Uuid} {status : TurnStatus}

/-! ## The speaker's requests -/

/-- `_require_speaker_turn` lets pass whom the turn asks as its speaker, and nobody else. -/
theorem ends_requireSpeakerTurn {Q : Except Failure TurnRecord → Venue → Prop}
    (hok : ∀ t, v.db.currentTurn p = some t → t.speakerId = p → t.status = status → Q (.ok t) v)
    (hdeclined : ¬v.db.Asks p .speaker status →
      ∀ detail, Q (.error (.gameError 409 detail)) v) :
    (venue D.setup).Ends Q (GameService.requireSpeakerTurn p status) v := by
  refine ends_currentTurn (fun hnone ↦ hdeclined ?_ _) fun pair hpair ↦ ?_
  · rintro ⟨t, ht, -⟩
    simp [Db.currentTurn, hnone] at ht
  · have hcurrent : v.db.currentTurn p = v.db.latestTurn pair.id := by
      rw [Db.currentTurn, hpair, Option.bind_some]
    cases hturn : v.db.latestTurn pair.id with
    | none =>
      refine hdeclined ?_ _
      rintro ⟨t, ht, -⟩
      simp [hcurrent, hturn] at ht
    | some turn =>
      rw [hturn] at hcurrent
      have hasks : v.db.Asks p .speaker status → turn.speakerId = p ∧ turn.status = status := by
        rintro ⟨t, ht, hp, hs⟩
        rw [hcurrent, Option.some.injEq] at ht
        exact ⟨ht ▸ hp, ht ▸ hs⟩
      dsimp only
      split_ifs with hp hs
      · exact hdeclined (fun h ↦ hp (hasks h).1) _
      · exact hdeclined (fun h ↦ hs (hasks h).2) _
      · exact hok turn hcurrent (not_not.mp hp) (not_not.mp hs)

theorem currentTurn_mem {t : TurnRecord} (h : v.db.currentTurn p = some t) : t ∈ v.db.turns := by
  obtain ⟨pair, -, hlatest⟩ := Option.bind_eq_some_iff.mp h
  exact (Db.latestTurn_mem hlatest).1

/-- A request of the speaker is turned down when the turn does not ask for it. -/
theorem declines_of_not_asks {q : Request} {f : TurnRecord → Prog VenueOp Failure Reply}
    (hq : q.body D.setup = GameService.requireSpeakerTurn p status >>= f)
    (h : ¬v.db.Asks p .speaker status) : v.Declines D.setup q := by
  rw [Venue.Declines, hq]
  refine System.Ends.ensures (System.Ends.bind
    (M := fun r _ ↦ ∃ detail, r = .error (.gameError 409 detail)) ?_ ?_ ?_)
  · exact ends_requireSpeakerTurn (fun t ht hp hs ↦ absurd ⟨t, ht, hp, hs⟩ h)
      fun _ detail ↦ ⟨detail, rfl⟩
  · rintro t _ ⟨detail, heq⟩
    cases heq
  · rintro e _ ⟨detail, heq⟩
    cases heq
    exact ⟨detail, rfl⟩

end Deployment

namespace Deployment

variable {D : Deployment} {v : Venue} {p optionId : Uuid} {payload : Bytes}

theorem numeric52_mono {x y : ℚ} (h : x ≤ y) : Postgres.numeric52 x ≤ Postgres.numeric52 y := by
  rw [Postgres.numeric52, Postgres.numeric52]
  gcongr

/-- A duration that passed the audio check fits its column. -/
theorem duration_fits (hfits : D.Fits) {d : Draw}
    (h : (D.setup.check d payload).accepted = true) :
    Postgres.numeric52 ((D.setup.check d payload).durationS.getD 0) < 1000 := by
  obtain ⟨s, db, -, -, -, hmax, -, hs⟩ := checkAudioFile_accepted h
  rw [show (D.setup.check d payload).durationS = some s from hs, Option.getD_some]
  exact (numeric52_mono hmax).trans_lt hfits.duration_lt

/-- The turn that asks for audio takes it. -/
theorem acceptAudio_ok {db : Db} (htidy : db.Tidy) {t : TurnRecord} (ht : t ∈ db.turns)
    (hs : t.status = .awaitingAudio) {path : AudioPath} {durationS : ℚ}
    (hduration : Postgres.numeric52 durationS < 1000) :
    (Postgres.acceptAudio db t.id path durationS).1 =
      .ok (t.accepted path (Postgres.numeric52 durationS)) := by
  rw [Postgres.acceptAudio, (Db.findTurn_eq_some htidy.turnIds).mpr ⟨ht, rfl⟩]
  dsimp only
  rw [if_neg (not_not.mpr hs), if_neg (not_le.mpr hduration)]
  rfl

theorem answers_uploadAudio (hfits : D.Fits) (hv : v.Sound)
    (hasks : v.db.Asks p .speaker .awaitingAudio) :
    v.Answers D.setup (.uploadAudio p payload) := by
  refine System.Ends.ensures ?_
  rw [Request.body, GameService.uploadAudio]
  split_ifs
  · exact System.ends_pure ⟨_, rfl⟩
  · refine System.Ends.bind (M := fun r v' ↦ v' = v ∧
      ∃ t, r = .ok t ∧ t ∈ v.db.turns ∧ t.status = .awaitingAudio)
      (ends_requireSpeakerTurn (fun t ht _ hs ↦ ⟨rfl, t, rfl, currentTurn_mem ht, hs⟩)
        fun h ↦ absurd hasks h) ?_ ?_
    · rintro t _ ⟨rfl, _, heq, ht, hs⟩
      cases heq
      refine ends_call fun d _ ↦ ⟨D.setup.check d payload, rfl, ?_⟩
      cases hcheck : (D.setup.check d payload).accepted with
      | false => exact System.ends_pure ⟨_, rfl⟩
      | true =>
        refine ends_call fun d' _ ↦ ⟨t.accepted (.webm t.id) (Postgres.numeric52
          ((D.setup.check d payload).durationS.getD 0)), ?_, ?_⟩
        · exact acceptAudio_ok hv.tidy ht hs (duration_fits hfits hcheck)
        · exact ends_call fun _ _ ↦ ⟨_, rfl, System.ends_pure ⟨_, rfl⟩⟩
    · rintro e _ ⟨-, t, heq, -⟩
      cases heq

theorem answers_confirmLabel (hv : v.Sound)
    (hasks : v.db.Asks p .speaker .awaitingLabelConfirm) :
    v.Answers D.setup (.confirmLabel p) := by
  refine System.Ends.ensures (System.Ends.bind (M := fun r v' ↦ v' = v ∧
    ∃ t, r = .ok t ∧ t ∈ v.db.turns ∧ t.status = .awaitingLabelConfirm)
    (ends_requireSpeakerTurn (fun t ht _ hs ↦ ⟨rfl, t, rfl, currentTurn_mem ht, hs⟩)
      fun h ↦ absurd hasks h) ?_ ?_)
  · rintro t v ⟨rfl, _, heq, ht, hs⟩
    cases heq
    refine ends_call fun d _ ↦ ⟨t.labelled, ?_, System.ends_pure ⟨_, rfl⟩⟩
    show (Postgres.confirmLabel v.db t.id).1 = .ok t.labelled
    rw [Postgres.confirmLabel, (Db.findTurn_eq_some hv.tidy.turnIds).mpr ⟨ht, rfl⟩]
    dsimp only
    rw [if_neg (not_not.mpr hs)]
    rfl
  · rintro e _ ⟨-, t, heq, -⟩
    cases heq

/-! ## The guess -/

/-- The pair of a seated turn can be completed, and can be given its next turn. -/
theorem answers_advance (hv : v.Sound) {u : TurnRecord} (hseat : v.db.Seated u) :
    (venue D.setup).Ends (fun r _ ↦ ∃ reply, r = .ok reply)
      (GameService.advance D.roundsCap u) v := by
  refine ends_call fun d hd ↦ ?_
  obtain ⟨capped, hok⟩ := Postgres.completePairIfCapped_ok v.db u.pairId D.roundsCap
  have hdid := (VenueOp.store (.completePairIfCapped u.pairId D.roundsCap)).did D.setup d hv.tidy
  refine ⟨capped, hok, ?_⟩
  generalize (VenueOp.exec D.setup d (.store (.completePairIfCapped u.pairId D.roundsCap)) v).2 = v'
    at hdid ⊢
  have htidy : v'.db.Tidy := hdid.tidy hv.tidy (new_of_admits hd)
  obtain ⟨pair, hpair, hid, hseats⟩ := hdid.seated_kept hseat (.refl u)
  split_ifs
  · exact System.ends_pure ⟨_, rfl⟩
  · refine ends_call fun d' _ ↦ ⟨v'.db.pickCard u.pairId d'.rand, rfl, ?_⟩
    cases hpick : v'.db.pickCard u.pairId d'.rand with
    | none => exact System.ends_pure ⟨_, rfl⟩
    | some card =>
      refine ends_call fun d'' _ ↦ ?_
      obtain ⟨ha, hb⟩ := htidy.members pair hpair
      have hne := htidy.apart pair hpair
      have hfind : (v'.db.findPair u.pairId).isSome := by
        rw [(Db.findPair_eq_some htidy.pairIds).mpr ⟨hpair, hid⟩]
        rfl
      have hcards : ∃ c ∈ v'.db.cards, c.id = card.id := ⟨card, Db.pickCard_mem hpick, rfl⟩
      have hcreated : ∃ t, (Postgres.createTurn v'.db d'' u.pairId u.guesserId u.speakerId
          card.id).1 = .ok t := by
        rcases hseats with ⟨hs, hg⟩ | ⟨hs, hg⟩
        · rw [hs, hg]
          exact Postgres.createTurn_ok d'' hfind hb ha hcards hne.symm
        · rw [hs, hg]
          exact Postgres.createTurn_ok d'' hfind ha hb hcards hne
      obtain ⟨t, ht⟩ := hcreated
      exact ⟨t, ht, System.ends_pure ⟨_, rfl⟩⟩

theorem answers_afterScored (hv : v.Sound) {u : TurnRecord} (hseat : v.db.Seated u) :
    (venue D.setup).Ends (fun r _ ↦ ∃ reply, r = .ok reply)
      (GameService.afterScored D.roundsCap u) v := by
  refine ends_call fun d _ ↦ ⟨v.db.findTurn u.id, rfl, ?_⟩
  split_ifs
  · refine ends_call fun d hd ↦ ⟨_, rfl, ?_⟩
    have hdid := (VenueOp.store (.enqueueJob .package u.id)).did D.setup d hv.tidy
    refine answers_advance ⟨hdid.tidy hv.tidy (new_of_admits hd), ?_⟩
      (hdid.seated_kept hseat (.refl u))
    exact hdid.seated hv.seated fun t ht ↦ by cases ht
  · exact answers_advance hv hseat

/-- The turn that asks for a guess takes it. -/
theorem applyGuess_ok (hfits : D.Fits) (hv : v.Sound) {t : TurnRecord}
    (hcounted : t.Counted D.cfg.toGameFeatureConfig) (ht : t ∈ v.db.turns)
    (hs : t.status = .awaitingGuess) (correct : Bool) :
    ∃ t', (Postgres.applyGuess D.cfg.toGameFeatureConfig v.db t.id correct).1 = .ok t' := by
  have hattempts : ¬2 < t.attempts + 1 := by
    have hlt := hcounted.2 (by simp [hs])
    have hle := hfits.attempts_le
    omega
  rw [Postgres.applyGuess, (Db.findTurn_eq_some hv.tidy.turnIds).mpr ⟨ht, rfl⟩]
  dsimp only
  rw [if_neg (not_not.mpr hs), if_neg hattempts]
  exact ⟨_, rfl⟩

theorem answers_guess (hfits : D.Fits) (hv : v.Sound)
    (hcounted : ∀ t ∈ v.db.turns, t.Counted D.cfg.toGameFeatureConfig)
    (hasks : v.db.Asks p .guesser .awaitingGuess) :
    v.Answers D.setup (.guess p optionId) := by
  obtain ⟨t, hcurrent, hp, hs⟩ := hasks
  replace hp : t.guesserId = p := hp
  have ht := currentTurn_mem hcurrent
  refine System.Ends.ensures (ends_currentTurn (fun hnone ↦ ?_) fun pair hpair ↦ ?_)
  · simp [Db.currentTurn, hnone] at hcurrent
  · rw [Db.currentTurn, hpair, Option.bind_some] at hcurrent
    rw [hcurrent]
    dsimp only
    rw [if_neg (not_not.mpr hp), if_neg (not_not.mpr hs)]
    refine ends_call fun d hd ↦ ?_
    obtain ⟨t', hok⟩ := applyGuess_ok hfits hv (hcounted t ht) ht hs (optionId == t.cardId)
    refine ⟨t', hok, ?_⟩
    have hdid := (VenueOp.store (.applyGuess t.id (optionId == t.cardId))).did D.setup d hv.tidy
    split_ifs
    · -- the turn has kept its seats
      rcases Postgres.applyGuess_promise hv.tidy t.id (optionId == t.cardId) with
        ⟨⟨e, he⟩, -⟩ | ⟨t₀, t₁, ht₀, hid, ⟨hs₀, hg⟩, hok', -⟩
      · rw [hok] at he
        cases he
      · rw [hok] at hok'
        cases hok'
        refine answers_afterScored ⟨hdid.tidy hv.tidy (new_of_admits hd), ?_⟩
          (hdid.seated_kept (hv.seated t₀ ht₀) (hg.later hs₀))
        refine hdid.seated hv.seated fun u hu ↦ ?_
        have hdeed : deed (VenueOp.store (.applyGuess t.id (optionId == t.cardId)))
            (Postgres.applyGuess D.cfg.toGameFeatureConfig v.db t.id (optionId == t.cardId)).1 =
            .guessed t' := by
          rw [hok]
          rfl
        exact absurd (hdeed.symm.trans hu) nofun
    · exact System.ends_pure ⟨_, rfl⟩

/-- A guess is turned down when the turn does not ask for it. -/
theorem declines_guess (h : ¬v.db.Asks p .guesser .awaitingGuess) :
    v.Declines D.setup (.guess p optionId) := by
  refine System.Ends.ensures (ends_currentTurn (fun _ ↦ ⟨_, rfl⟩) fun pair hpair ↦ ?_)
  have hcurrent : v.db.currentTurn p = v.db.latestTurn pair.id := by
    rw [Db.currentTurn, hpair, Option.bind_some]
  cases hturn : v.db.latestTurn pair.id with
  | none => exact ⟨_, rfl⟩
  | some turn =>
    dsimp only
    split_ifs with hp hs
    · exact ⟨_, rfl⟩
    · exact ⟨_, rfl⟩
    · exact absurd ⟨turn, hcurrent.trans hturn, not_not.mp hp, not_not.mp hs⟩ h

/-! ## The request for a partner -/

theorem playerStats_roundsPlayed {cfg : GameFeatureConfig} {db : Db} {me : PlayerRecord}
    (hme : db.findPlayer p = some me) :
    (Postgres.playerStats cfg db p).roundsPlayed = db.roundsPlayed p := by
  rw [Postgres.playerStats, hme]

/-- `try_match` fails for nobody who has joined. -/
theorem tryMatch_ok {cfg : GameFeatureConfig} {db : Db} {d : Draw} {me : PlayerRecord}
    (hme : db.findPlayer p = some me) : ∃ pair, (Postgres.tryMatch cfg db d p).1 = .ok pair := by
  rw [Postgres.tryMatch]
  split
  · exact ⟨_, rfl⟩
  · rw [hme]
    dsimp only
    split
    · exact ⟨_, rfl⟩
    · split <;> exact ⟨_, rfl⟩

/-- Whoever has joined and has rounds left is paired or queued. -/
theorem answers_requestPair {me : PlayerRecord} (hme : v.db.findPlayer p = some me)
    (hrounds : ¬D.roundsCap ≤ v.db.roundsPlayed p) : v.Answers D.setup (.requestPair p) := by
  refine System.Ends.ensures (ends_call fun d _ ↦ ⟨_, rfl, ?_⟩)
  rw [playerStats_roundsPlayed hme, show D.setup.roundsCap = D.roundsCap from rfl, if_neg hrounds]
  refine ends_call fun d _ ↦ ⟨v.db.activePair p, rfl, ?_⟩
  cases hpair : v.db.activePair p with
  | some pair => exact System.ends_pure ⟨_, rfl⟩
  | none =>
    refine ends_call fun d _ ↦ ⟨(), ?_, ends_call fun d' _ ↦ ?_⟩
    · show (Postgres.enqueuePlayer v.db d.now p).1 = .ok ()
      rw [Postgres.enqueuePlayer, hme]
    · have hme' : (Postgres.enqueuePlayer v.db d.now p).2.findPlayer p = some me := by
        rw [Postgres.enqueuePlayer, hme]
        exact hme
      obtain ⟨pair, hok⟩ := tryMatch_ok hme'
      exact ⟨pair, hok, System.ends_pure ⟨_, rfl⟩⟩

theorem declines_requestPair {me : PlayerRecord} (hme : v.db.findPlayer p = some me)
    (hrounds : D.roundsCap ≤ v.db.roundsPlayed p) : v.Declines D.setup (.requestPair p) := by
  refine System.Ends.ensures (ends_call fun d _ ↦ ⟨_, rfl, ?_⟩)
  rw [playerStats_roundsPlayed hme, show D.setup.roundsCap = D.roundsCap from rfl, if_pos hrounds]
  exact ⟨_, rfl⟩

end Deployment

/-! ## What the phases say -/

/-- Who is to act on a turn in this status. -/
def TurnStatus.actor : TurnStatus → Option Role
  | .awaitingAudio | .awaitingLabelConfirm => some .speaker
  | .awaitingGuess => some .guesser
  | .scored => none

/-- What whoever is to act is shown. -/
def TurnStatus.phase : TurnStatus → Phase
  | .awaitingAudio => .speakingViewImage
  | .awaitingLabelConfirm => .speakingConfirmLabel
  | .awaitingGuess => .guessing
  | .scored => .roundResult

theorem TurnStatus.phase_injective : TurnStatus.phase.Injective := by
  intro s s' h
  cases s <;> cases s' <;> first | rfl | cases h

theorem TurnStatus.phase_ne_waitingPartner (s : TurnStatus) : s.phase ≠ .waitingPartner := by
  cases s <;> simp [phase]

/-- Nobody speaks to themselves. -/
theorem Venue.Sound.apart {v : Venue} (h : v.Sound) {t : TurnRecord} (ht : t ∈ v.db.turns) :
    t.speakerId ≠ t.guesserId := by
  obtain ⟨pair, hpair, -, hseats⟩ := h.seated t ht
  have hne := h.tidy.apart pair hpair
  rcases hseats with ⟨hs, hg⟩ | ⟨hs, hg⟩
  · rwa [hs, hg]
  · rw [hs, hg]
    exact hne.symm

/-- Both seats of a turn are taken by members of its pair. -/
theorem Venue.Sound.seat_member {v : Venue} (h : v.Sound) {t : TurnRecord} (ht : t ∈ v.db.turns)
    {pair : PairRecord} (hpair : pair ∈ v.db.pairs) (hid : t.pairId = pair.id) (role : Role) :
    t.seat role = pair.playerA ∨ t.seat role = pair.playerB := by
  obtain ⟨pair', hpair', hid', hseats⟩ := h.seated t ht
  rw [h.tidy.pairIds.eq hpair' hpair (hid'.trans hid)] at hseats
  cases role with
  | speaker => exact hseats.imp And.left And.left
  | guesser => exact (hseats.imp And.right And.right).symm

section

variable {cfg : StateConfig} {now : Time} {b : StateBundle} {turn : TurnRecord}

/-- The viewer is in the seat they are in. -/
theorem viewerRole_eq_some_iff (hturn : b.turn = some turn) (hne : turn.speakerId ≠ turn.guesserId)
    (role : Role) : viewerRole b = some role ↔ turn.seat role = b.player.id := by
  rw [viewerRole, hturn, Option.bind_some]
  cases role with
  | speaker =>
    rw [TurnRecord.seat]
    split_ifs with hs hg <;> simp [hs]
  | guesser =>
    rw [TurnRecord.seat]
    split_ifs with hs hg
    · simp [← hs, hne.symm]
    · simp [hg]
    · simp [hg]

/-- While no result is held, the turn asks its actor to act, and everybody else to wait. -/
theorem phaseForTurn_eq (hturn : b.turn = some turn)
    (h : phaseForTurn cfg now b (viewerRole b) ≠ .roundResult) :
    ∃ role, turn.status.actor = some role ∧ phaseForTurn cfg now b (viewerRole b) =
      if viewerRole b = some role then turn.status.phase else .waitingPartner := by
  rw [phaseForTurn, hturn] at h ⊢
  dsimp only at h ⊢
  split at h
  · exact absurd rfl h
  · rename_i hheld
    rw [if_neg hheld]
    cases hs : turn.status with
    | scored => simp [hs] at h
    | awaitingAudio => exact ⟨_, rfl, rfl⟩
    | awaitingLabelConfirm => exact ⟨_, rfl, rfl⟩
    | awaitingGuess => exact ⟨_, rfl, rfl⟩

theorem phaseForTurn_ne_sessionDone {role : Option Role} :
    phaseForTurn cfg now b role ≠ .sessionDone := by
  rw [phaseForTurn]
  cases b.turn with
  | none => simp
  | some turn =>
    dsimp only
    split
    · simp
    · cases turn.status with
      | scored => simp
      | awaitingAudio =>
        dsimp only
        split_ifs <;> simp
      | awaitingLabelConfirm =>
        dsimp only
        split_ifs <;> simp
      | awaitingGuess =>
        dsimp only
        split_ifs <;> simp

/-- A result is shown once the turn is scored, and for a while after the next one is created. -/
theorem phaseForTurn_eq_roundResult_iff (hturn : b.turn = some turn) {role : Option Role} :
    phaseForTurn cfg now b role = .roundResult ↔ turn.status = .scored ∨
      turn.status = .awaitingAudio ∧ b.previousScored.any (fun scored ↦ scored.id != turn.id) ∧
        now < turn.createdAt + cfg.resultHold := by
  rw [phaseForTurn, hturn]
  dsimp only
  split
  · rename_i hheld
    exact iff_of_true rfl (.inr hheld)
  · rename_i hheld
    rw [or_iff_left hheld]
    cases turn.status with
    | scored => simp
    | awaitingAudio =>
      dsimp only
      split_ifs <;> simp
    | awaitingLabelConfirm =>
      dsimp only
      split_ifs <;> simp
    | awaitingGuess =>
      dsimp only
      split_ifs <;> simp

end

namespace Deployment

variable {D : Deployment} {v v₀ : Venue} {p q : Uuid} {checksum : Text → ℕ}
  {shuffle : Text → List OptionState → List OptionState} {order order' : RowOrder}
  {fetched fetched' composed : Time} {r r' : StateResponse}

/-- Undecided turns have an attempt left, whoever joins in between. -/
theorem Later.counted (h : D.Later v₀ v) (hv₀ : v₀.Opening) (hmax : 1 ≤ D.cfg.maxGuessAttempts) :
    ∀ t ∈ v.db.turns, t.Counted D.cfg.toGameFeatureConfig := by
  induction h with
  | refl =>
    intro t ht
    rw [hv₀.turns] at ht
    cases ht
  | tail hrun hstep ih =>
    cases hstep with
    | joined => exact ih
    | called op d hd hop =>
      exact (op.did D.setup d (Later.sound hrun hv₀.sound).tidy).turnsStep.counted hmax ih

/-- The phase of a response, from what the store holds. -/
theorem getState_phase (hr : D.getState checksum shuffle order fetched composed p v = some r) :
    (∃ me, v.db.findPlayer p = some me) ∧
    (r.phase = .sessionDone ↔ D.roundsCap ≤ v.db.roundsPlayed p) ∧
    (r.phase ≠ .sessionDone → v.db.activePair p = none →
      r.phase = .queued ∨ r.phase = .onboarding) ∧
    (r.phase ≠ .sessionDone → ∀ pair, v.db.activePair p = some pair → ∃ b : StateBundle,
      b.player.id = p ∧ b.turn = v.db.latestTurn pair.id ∧
      b.previousScored = v.db.previousScored pair.id ∧
      r.phase = phaseForTurn D.cfg composed b (viewerRole b)) := by
  obtain ⟨b, hb, rfl⟩ := Option.map_eq_some_iff.mp hr
  obtain ⟨me, hme, hb⟩ := Option.map_eq_some_iff.mp hb
  have hpair : b.pair = v.db.activePair p := by rw [← hb]
  have hplayer : b.player.id = p := by
    rw [← hb]
    exact Db.findPlayer_id hme
  have hturn : b.turn = v.db.currentTurn p := by rw [← hb, Db.currentTurn]
  have hprev : b.previousScored =
      (v.db.activePair p).bind fun pair ↦ v.db.previousScored pair.id := by
    rw [← hb]
  have hrounds : b.stats.roundsPlayed = v.db.roundsPlayed p := by
    rw [← hb]
    exact playerStats_roundsPlayed hme
  -- the pair that is found is active
  have hactive : ¬b.pair.any (fun pair ↦ pair.status == .completed) = true := by
    rw [hpair]
    cases hp : v.db.activePair p with
    | none => simp
    | some pair => simp [(Db.mem_activePairs.mp (Db.activePair_mem hp)).2.1]
  have hcap : (D.roundsCap ≤ b.stats.roundsPlayed ∨ b.pair.any fun pair ↦ pair.status == .completed)
      ↔ D.roundsCap ≤ v.db.roundsPlayed p := by
    rw [or_iff_left hactive, hrounds]
  refine ⟨⟨me, hme⟩, ?_⟩
  rw [composeStateResponse]
  by_cases hdone : D.roundsCap ≤ v.db.roundsPlayed p
  · rw [if_pos (hcap.mpr hdone)]
    exact ⟨iff_of_true rfl hdone, fun h ↦ absurd rfl h, fun h ↦ absurd rfl h⟩
  · rw [if_neg (mt hcap.mp hdone), hpair]
    cases hp : v.db.activePair p with
    | none =>
      dsimp only
      split_ifs <;> simp [hdone]
    | some pair =>
      have hne : phaseForTurn D.cfg composed b (viewerRole b) ≠ .sessionDone :=
        phaseForTurn_ne_sessionDone
      refine ⟨iff_of_false hne hdone, fun _ h ↦ absurd h (Option.some_ne_none pair), ?_⟩
      rintro - pair' hpair'
      rw [Option.some.injEq] at hpair'
      subst hpair'
      rw [hp, Option.bind_some] at hprev
      rw [Db.currentTurn, hp, Option.bind_some] at hturn
      exact ⟨b, hplayer, hturn, hprev, rfl⟩

/-- **A player is asked for what the turn asks of them**, while no result is held. -/
theorem shown_iff_asks (status : TurnStatus) {role : Role} (hv : v.Sound)
    (hr : D.getState checksum shuffle order fetched composed p v = some r)
    (hdone : r.phase ≠ .sessionDone) (hresult : r.phase ≠ .roundResult)
    (hactor : status.actor = some role) :
    r.phase = status.phase ↔ v.db.Asks p role status := by
  obtain ⟨-, -, hnone, hsome⟩ := getState_phase hr
  cases hpair : v.db.activePair p with
  | none =>
    have hturn : v.db.currentTurn p = none := by rw [Db.currentTurn, hpair, Option.bind_none]
    refine iff_of_false (fun h ↦ ?_) ?_
    · rcases hnone hdone hpair with hp | hp <;> rw [hp] at h <;> cases status <;> cases h
    · rintro ⟨t, ht, -⟩
      rw [hturn] at ht
      cases ht
  | some pair =>
    obtain ⟨b, hplayer, hturn, -, hphase⟩ := hsome hdone pair hpair
    rw [hphase] at hresult ⊢
    have hcurrent : v.db.currentTurn p = b.turn := by
      rw [Db.currentTurn, hpair, Option.bind_some, hturn]
    cases hb : b.turn with
    | none =>
      refine iff_of_false (fun h ↦ ?_) ?_
      · rw [phaseForTurn, hb] at h
        cases status <;> cases h
      · rintro ⟨t, ht, -⟩
        rw [hcurrent, hb] at ht
        cases ht
    | some turn =>
      have hmem : turn ∈ v.db.turns := currentTurn_mem (hcurrent.trans hb)
      have hne : turn.speakerId ≠ turn.guesserId := hv.apart hmem
      obtain ⟨actor, hturnactor, hshown⟩ := phaseForTurn_eq hb hresult
      rw [hshown]
      simp only [viewerRole_eq_some_iff hb hne, hplayer]
      have hasks : v.db.Asks p role status ↔ turn.seat role = p ∧ turn.status = status := by
        rw [Db.Asks, hcurrent, hb]
        simp
      rw [hasks]
      split_ifs with hseat
      · refine ⟨fun h ↦ ?_, fun h ↦ by rw [h.2]⟩
        have hs := TurnStatus.phase_injective h
        rw [hs, hactor, Option.some.injEq] at hturnactor
        exact ⟨hturnactor ▸ hseat, hs⟩
      · refine iff_of_false (fun h ↦ TurnStatus.phase_ne_waitingPartner status h.symm) fun h ↦ ?_
        rw [h.2, hactor, Option.some.injEq] at hturnactor
        exact hseat (hturnactor ▸ h.1)

end Deployment

/-! ## The results -/

/-- The request is answered when the condition holds, and turned down otherwise. -/
def Venue.AnswersIff (su : Setup) (v : Venue) (c : Prop) (q : Request) : Prop :=
  (c → v.Answers su q) ∧ (¬c → v.Declines su q)

theorem Venue.answersIff_congr {su : Setup} {v : Venue} {c c' : Prop} {q : Request} (h : c ↔ c') :
    v.AnswersIff su c q ↔ v.AnswersIff su c' q := by
  rw [AnswersIff, AnswersIff, h]

/-- **What is shown is what is answered.**  In every state of a deployment, whoever polls is shown
the end of the session if and only if a request for a partner is turned down; and while neither the
end nor a result is shown, audio, the confirmation of the label and a guess are answered if and only
if it is what the player is asked for. -/
theorem shown_iff_answered (D : Deployment) (hfits : D.Fits) (checksum : Text → ℕ)
    (shuffle : Text → List OptionState → List OptionState) {v₀ v : Venue} (hv₀ : v₀.Opening)
    (h : D.Later v₀ v) {order : RowOrder} {fetched composed : Time} {p : Uuid} {r : StateResponse}
    (hr : D.getState checksum shuffle order fetched composed p v = some r) :
    v.AnswersIff D.setup (r.phase ≠ .sessionDone) (.requestPair p) ∧
      (r.phase ≠ .sessionDone → r.phase ≠ .roundResult →
        (∀ payload, payload.length ≤ D.cfg.maxAudioBytes →
          v.AnswersIff D.setup (r.phase = .speakingViewImage) (.uploadAudio p payload)) ∧
        v.AnswersIff D.setup (r.phase = .speakingConfirmLabel) (.confirmLabel p) ∧
        ∀ optionId, v.AnswersIff D.setup (r.phase = .guessing) (.guess p optionId)) := by
  have hv : v.Sound := h.sound hv₀.sound
  have hcounted := h.counted hv₀ hfits.attempts_pos
  obtain ⟨⟨me, hme⟩, hcap, -⟩ := Deployment.getState_phase hr
  refine ⟨⟨fun hne ↦ ?_, fun hne ↦ ?_⟩, fun hdone hresult ↦ ⟨fun payload hlen ↦ ?_, ?_,
    fun optionId ↦ ?_⟩⟩
  · exact Deployment.answers_requestPair hme (mt hcap.mpr hne)
  · exact Deployment.declines_requestPair hme (hcap.mp (not_not.mp hne))
  · have hasks : r.phase = .speakingViewImage ↔ v.db.Asks p .speaker .awaitingAudio :=
      Deployment.shown_iff_asks .awaitingAudio hv hr hdone hresult rfl
    have hbody : (Request.uploadAudio p payload).body D.setup = _ := if_neg (not_lt.mpr hlen)
    exact (Venue.answersIff_congr hasks).mpr
      ⟨Deployment.answers_uploadAudio hfits hv, Deployment.declines_of_not_asks hbody⟩
  · have hasks : r.phase = .speakingConfirmLabel ↔ v.db.Asks p .speaker .awaitingLabelConfirm :=
      Deployment.shown_iff_asks .awaitingLabelConfirm hv hr hdone hresult rfl
    exact (Venue.answersIff_congr hasks).mpr
      ⟨Deployment.answers_confirmLabel hv, Deployment.declines_of_not_asks rfl⟩
  · have hasks : r.phase = .guessing ↔ v.db.Asks p .guesser .awaitingGuess :=
      Deployment.shown_iff_asks .awaitingGuess hv hr hdone hresult rfl
    exact (Venue.answersIff_congr hasks).mpr
      ⟨Deployment.answers_guess hfits hv hcounted, Deployment.declines_guess⟩

/-- **One acts and the other waits.**  In every state of a deployment, two players for whom the
store finds the same pair, and who poll at the same moment before the end of their sessions, are
both shown a result, or both wait for the first turn, or the one in the seat the turn awaits
something of is asked for it and the other one waits. -/
theorem views_complementary (D : Deployment) (checksum : Text → ℕ)
    (shuffle : Text → List OptionState → List OptionState) {v₀ v : Venue} (hv₀ : v₀.Opening)
    (h : D.Later v₀ v) {order order' : RowOrder} {fetched fetched' composed : Time} {p q : Uuid}
    (hpq : p ≠ q)
    {pair : PairRecord} (hp : v.db.activePair p = some pair) (hq : v.db.activePair q = some pair)
    {r r' : StateResponse} (hr : D.getState checksum shuffle order fetched composed p v = some r)
    (hr' : D.getState checksum shuffle order' fetched' composed q v = some r')
    (hdone : r.phase ≠ .sessionDone) (hdone' : r'.phase ≠ .sessionDone) :
    r.phase = .roundResult ∧ r'.phase = .roundResult ∨
      v.db.latestTurn pair.id = none ∧ r.phase = .waitingPartner ∧ r'.phase = .waitingPartner ∨
      ∃ t role, v.db.latestTurn pair.id = some t ∧ t.status.actor = some role ∧
        (t.seat role = p ∧ r.phase = t.status.phase ∧ r'.phase = .waitingPartner ∨
          t.seat role = q ∧ r'.phase = t.status.phase ∧ r.phase = .waitingPartner) := by
  have hv : v.Sound := h.sound hv₀.sound
  obtain ⟨b, hplayer, hturn, hprev, hphase⟩ := (Deployment.getState_phase hr).2.2.2 hdone pair hp
  obtain ⟨b', hplayer', hturn', hprev', hphase'⟩ :=
    (Deployment.getState_phase hr').2.2.2 hdone' pair hq
  rw [hphase, hphase']
  cases hlatest : v.db.latestTurn pair.id with
  | none =>
    rw [hlatest] at hturn hturn'
    exact .inr (.inl ⟨rfl, by rw [phaseForTurn, hturn], by rw [phaseForTurn, hturn']⟩)
  | some t =>
    rw [hlatest] at hturn hturn'
    have hheld : phaseForTurn D.cfg composed b (viewerRole b) = .roundResult ↔
        phaseForTurn D.cfg composed b' (viewerRole b') = .roundResult := by
      rw [phaseForTurn_eq_roundResult_iff hturn, phaseForTurn_eq_roundResult_iff hturn', hprev,
        hprev']
    by_cases hresult : phaseForTurn D.cfg composed b (viewerRole b) = .roundResult
    · exact .inl ⟨hresult, hheld.mp hresult⟩
    · obtain ⟨ht, hpairId⟩ := Db.latestTurn_mem hlatest
      have hne := hv.apart ht
      obtain ⟨role, hactor, hshown⟩ := phaseForTurn_eq hturn hresult
      obtain ⟨role', hactor', hshown'⟩ := phaseForTurn_eq hturn' (mt hheld.mpr hresult)
      obtain rfl : role = role' := Option.some.inj (hactor.symm.trans hactor')
      rw [hshown, hshown']
      simp only [viewerRole_eq_some_iff hturn hne, viewerRole_eq_some_iff hturn' hne, hplayer,
        hplayer']
      refine .inr (.inr ⟨t, role, rfl, hactor, ?_⟩)
      -- one of the two members sits in the seat
      have hseat : t.seat role = p ∨ t.seat role = q := by
        obtain ⟨hpair, hmemp⟩ := Db.mem_of_activePair hp
        obtain ⟨-, hmemq⟩ := Db.mem_of_activePair hq
        have hmember := hv.seat_member ht hpair hpairId role
        grind
      rcases hseat with hseat | hseat
      · exact .inl ⟨hseat, if_pos hseat, if_neg fun h ↦ hpq (hseat.symm.trans h)⟩
      · exact .inr ⟨hseat, if_pos hseat, if_neg fun h ↦ hpq (h.symm.trans hseat)⟩

/-! ## A pair that plays -/

/-- The deployment of `defaultSetup`, with an empty picture on every card. -/
def defaultDeployment : Deployment where
  probes := defaultSetup.probes
  faces _ := ⟨[], .empty, []⟩
  lower := id

theorem fits_defaultDeployment : defaultDeployment.Fits := ⟨by decide, by decide, by
  show (⌊(8 : ℚ) * 100 + 1 / 2⌋ : ℚ) / 100 < 1000
  norm_num⟩

/-- The first turn of a pair: its speaker may upload, and may not guess. -/
theorem shown_iff_answered_first : ∃ v r,
    defaultDeployment.getState List.length (fun _ options ↦ options) .stored 20 20 1 v = some r ∧
      r.phase = .speakingViewImage ∧
      v.Answers defaultDeployment.setup (.uploadAudio 1 [0, 0]) ∧
      v.Declines defaultDeployment.setup (.guess 1 0) := by
  obtain ⟨c, hc, hrun⟩ := System.exists_reachable_of_run opening_threePlayers
    (show ((venue defaultSetup).run (System.start threePlayers) pairUp).map (fun c ↦
      (defaultDeployment.getState List.length
        (fun _ options ↦ options) .stored 20 20 1 c.world.state).any
        fun r ↦ r.phase == .speakingViewImage) = some true by decide +kernel)
  obtain ⟨r, hr, hphase⟩ := (Option.any_eq_true _ _).mp hrun
  rw [beq_iff_eq] at hphase
  obtain ⟨v₀, hv₀, hrun⟩ := Deployment.later_of_reachable (D := defaultDeployment) hc
  obtain ⟨-, hrest⟩ := shown_iff_answered defaultDeployment fits_defaultDeployment _ _ hv₀ hrun hr
  obtain ⟨hupload, -, hguess⟩ := hrest (by simp [hphase]) (by simp [hphase])
  exact ⟨_, r, hr, hphase, (hupload [0, 0] (by decide)).1 hphase, (hguess 0).2 (by simp [hphase])⟩

/-- The speaker has confirmed the label: the guesser guesses, and the speaker waits. -/
theorem views_complementary_guess : ∃ v r r',
    defaultDeployment.getState List.length (fun _ options ↦ options) .stored 20 20 1 v = some r ∧
      defaultDeployment.getState List.length (fun _ options ↦ options) .stored 20 20 2 v = some r' ∧
      r.phase = .waitingPartner ∧ r'.phase = .guessing := by
  obtain ⟨c, hc, hrun⟩ := System.exists_reachable_of_run opening_threePlayers
    (show ((venue defaultSetup).run (System.start threePlayers) (pairUp ++ speak)).map (fun c ↦
      (c.world.state.db.activePair 1).any fun pair ↦
        c.world.state.db.activePair 2 == some pair &&
        (c.world.state.db.latestTurn pair.id).any (fun t ↦ t.status == .awaitingGuess &&
          t.guesserId == 2) &&
        (defaultDeployment.getState List.length (fun _ options ↦ options) .stored 20 20 1
          c.world.state).any (fun r ↦ r.phase == .waitingPartner) &&
        (defaultDeployment.getState List.length (fun _ options ↦ options) .stored 20 20 2
          c.world.state).any fun r ↦ r.phase != .sessionDone && r.phase != .roundResult) =
        some true by decide +kernel)
  simp only [Option.any_eq_true, Bool.and_eq_true, beq_iff_eq, bne_iff_ne] at hrun
  obtain ⟨pair, hp, ⟨⟨hq, t, ht, hs, hguesser⟩, r, hr, hphase⟩, r', hr', hdone, hresult⟩ := hrun
  obtain ⟨v₀, hv₀, hrun⟩ := Deployment.later_of_reachable (D := defaultDeployment) hc
  refine ⟨_, r, r', hr, hr', hphase, ?_⟩
  rcases views_complementary defaultDeployment _ _ hv₀ hrun (by decide) hp hq hr hr'
    (by simp [hphase]) hdone with ⟨-, h⟩ | ⟨hnone, -⟩ | ⟨t', role, ht', hactor, h⟩
  · exact absurd h hresult
  · rw [hnone] at ht
    cases ht
  · obtain rfl := Option.some.inj (ht.symm.trans ht')
    rw [hs] at hactor h
    obtain rfl := Option.some.inj hactor
    rcases h with ⟨hseat, -⟩ | ⟨-, h, -⟩
    · exact absurd (hguesser.symm.trans hseat) (by decide)
    · exact h

end Neva
