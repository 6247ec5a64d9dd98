import Neva.Play.OnePair

/-!
# The session cap

A player's rounds are counted over all the pairs they were ever in; a pair is completed when one of
its members has reached the cap.  When requests run one at a time, `Capped` holds between any two of
them: nobody has played more rounds than the cap allows, and whoever may play on — a member of an
active pair, or a player in the queue — is strictly below it.

Inside a guess that scores, the pair that is being played is exempt for a moment: its members may
have reached the cap and the pair still be active.  `Capped cap (some pairId)` is the invariant with
that pair left out.  `Capped.score` enters it and `Capped.settle` leaves it, after
`complete_pair_if_capped` has answered.
-/

set_option autoImplicit false

namespace Neva

open Calls Tables

/-- Nobody has played more than the cap, and whoever may play on is below it; the `exempt` pair is
left out. -/
structure Capped (cap : ℤ) (exempt : Option Uuid) (db : Db) : Prop where
  tidy : db.Tidy
  onePair : db.OnePair
  seated : ∀ t ∈ db.turns, db.Seated t
  rounds : ∀ p, (db.roundsPlayed p : ℤ) ≤ max cap 0
  below : ∀ pair ∈ db.pairs, pair.status = .active → some pair.id ≠ exempt →
    ∀ p, pair.playerA = p ∨ pair.playerB = p → (db.roundsPlayed p : ℤ) < cap
  queued : ∀ p, db.Queued p → (db.roundsPlayed p : ℤ) < cap

/-- In a list of at most one entry any two are the same. -/
private theorem eq_of_mem_of_length {α : Type*} {l : List α} (h : l.length ≤ 1) {x y : α}
    (hx : x ∈ l) (hy : y ∈ l) : x = y := by
  match l, h with
  | [z], _ => rw [List.mem_singleton.mp hx, List.mem_singleton.mp hy]

namespace Capped

variable {su : Setup} {cap : ℤ} {exempt : Option Uuid} {d : Draw} {v v' : Venue} {a : Deed}

/-- A player who has never joined has played nothing. -/
theorem roundsPlayed_eq_zero {db : Db} (h : Capped cap exempt db) {p : Uuid}
    (hp : db.findPlayer p = none) : db.roundsPlayed p = 0 := by
  refine List.countP_eq_zero.mpr fun t ht hinv ↦ ?_
  rw [Bool.and_eq_true, TurnRecord.involves_iff] at hinv
  obtain ⟨pair, hpair, -, hseats⟩ := h.seated t ht
  have hmem : pair.playerA = p ∨ pair.playerB = p := by
    rcases hseats with ⟨hs, hg⟩ | ⟨hs, hg⟩
    · rw [← hs, ← hg]
      exact hinv.2
    · rw [← hs, ← hg]
      exact hinv.2.symm
  have hsome : (db.findPlayer p).isSome := by
    rcases hmem with rfl | rfl
    · exact (h.tidy.members pair hpair).1
    · exact (h.tidy.members pair hpair).2
  rw [hp] at hsome
  cases hsome

/-- Deeds that add no round, make no pair and queue only players below the cap who are unpaired. -/
theorem did (h : Capped cap exempt v.db) (hd : Did su d v a v') (hn : d.New v.db)
    (hqueued : ∀ p, a = .queued p → v.db.activePairs p = [] ∧ (v.db.roundsPlayed p : ℤ) < cap)
    (hmatched : ∀ pair, a ≠ .matched pair) (hcreated : ∀ t, a = .created t → v'.db.Seated t)
    (hguessed : ∀ t, a = .guessed t → t.status ≠ .scored) : Capped cap exempt v'.db := by
  have hrounds : ∀ p, v'.db.roundsPlayed p = v.db.roundsPlayed p := by
    intro p
    rw [hd.turnsStep.roundsPlayed h.tidy p]
    cases a with
    | guessed t =>
      have hs : (t.status == .scored) = false := beq_eq_false_iff_ne.mpr (hguessed t rfl)
      rw [Deed.rounds, hs]
      rfl
    | _ => rfl
  refine ⟨hd.tidy h.tidy hn, hd.onePair h.onePair fun p hp ↦ (hqueued p hp).1,
    hd.seated h.seated hcreated, fun p ↦ ?_, fun pair hpair hs hne p hp ↦ ?_, fun p hp ↦ ?_⟩
  · rw [hrounds]
    exact h.rounds p
  · rw [hrounds]
    rcases hd.pair_origin hpair hs with hold | ⟨-, hnew⟩
    · exact h.below pair hold hs hne p hp
    · exact absurd hnew (hmatched _)
  · rw [hrounds]
    rcases hd.queued_origin hp with hold | hold | ⟨pair, hold⟩
    · exact h.queued p hold
    · exact (hqueued p hold).2
    · exact absurd hold (hmatched pair)

/-- Matching a player who is below the cap. -/
theorem matching (su : Setup) {me : Uuid} {db db' : Db} {r : Except Failure (Option PairRecord)}
    (h : Capped cap none db) (hm : Matching d db me r db') (hn : d.New db)
    (hme : (db.roundsPlayed me : ℤ) < cap) : Capped cap none db' := by
  have hd : Did su d ⟨db, fun _ ↦ none⟩ (deed (.store (.tryMatch me)) r) ⟨db', fun _ ↦ none⟩ :=
    GameStoreOp.did su d (.tryMatch me) hm
  have hnot : ∀ p, deed (.store (.tryMatch me)) r ≠ .queued p := by
    intro p
    cases r <;> exact nofun
  have hnot' : ∀ t, deed (.store (.tryMatch me)) r ≠ .created t := by
    intro t
    cases r <;> exact nofun
  have hrounds : ∀ p, db'.roundsPlayed p = db.roundsPlayed p := by
    intro p
    rw [hd.turnsStep.roundsPlayed h.tidy p]
    cases r <;> rfl
  have hbase := hd.tidy h.tidy hn
  have hone := hd.onePair h.onePair fun p hp ↦ absurd hp (hnot p)
  have hseated := hd.seated h.seated fun t ht ↦ absurd ht (hnot' t)
  cases hm with
  | refused e => exact h
  | already hactive => exact h
  | waiting hactive hq =>
    refine ⟨hbase, hone, hseated, h.rounds, h.below, ?_⟩
    rintro p ⟨q, hmem, rfl⟩
    rcases hq q hmem with rfl | hold
    · exact hme
    · exact h.queued _ hold
  | @paired partner a b lang queue hactive hne hmeSome hpartner hqueued hab hq =>
    refine ⟨hbase, hone, hseated, fun p ↦ ?_, fun pair hpair hs hex p hp ↦ ?_, ?_⟩
    · rw [hrounds]
      exact h.rounds p
    · rw [hrounds]
      rcases List.mem_append.mp hpair with hpair | hpair
      · exact h.below pair hpair hs hex p hp
      · rw [List.mem_singleton] at hpair
        subst hpair
        have hboth : p = me ∨ p = partner := by
          rcases hab with ⟨rfl, rfl⟩ | ⟨rfl, rfl⟩
          · exact hp.imp Eq.symm Eq.symm
          · exact hp.symm.imp Eq.symm Eq.symm
        rcases hboth with rfl | rfl
        · exact hme
        · exact h.queued _ hqueued
    · rintro p ⟨q, hmem, rfl⟩
      rw [hrounds]
      exact h.queued _ (hq q hmem).2.2

/-- A round is scored in an active pair; from then on the pair is exempt. -/
theorem score {db : Db} (h : Capped cap none db) {pair : PairRecord} {t t' : TurnRecord}
    {cfg : GameFeatureConfig} {correct : Bool} (hpair : pair ∈ db.pairs)
    (hactive : pair.status = .active) (ht : t ∈ db.turns) (hid : t.pairId = pair.id)
    (hs : t.status = .awaitingGuess) (hg : t.Guessed cfg correct t') :
    Capped cap (some pair.id) (db.putTurn t') := by
  have hl := hg.later hs
  -- the players of the turn are the members of the pair
  have hplayers : ∀ p, t'.involves p = true → pair.playerA = p ∨ pair.playerB = p := by
    intro p hp
    rw [TurnRecord.involves_iff, hl.speakerId, hl.guesserId] at hp
    obtain ⟨pair', hpair', hid', hseats⟩ := h.seated t ht
    rw [h.tidy.pairIds.eq hpair' hpair (hid'.trans hid)] at hseats
    rcases hseats with ⟨hsp, hgu⟩ | ⟨hsp, hgu⟩
    · rw [← hsp, ← hgu]
      exact hp
    · rw [← hsp, ← hgu]
      exact hp.symm
  have hbelow := h.below pair hpair hactive nofun
  have hmember : ∀ p, t'.involves p = true → pair ∈ db.activePairs p := fun p hp ↦
    Db.mem_activePairs.mpr ⟨hpair, hactive, hplayers p hp⟩
  have hcount : ∀ p, (db.putTurn t').roundsPlayed p ≤
      db.roundsPlayed p + if t'.involves p then 1 else 0 := by
    intro p
    have hput := h.tidy.turnIds.countP_put ht hl.id fun t ↦ t.status == .scored && t.involves p
    rw [hs] at hput
    have hle : (if (t'.status == .scored && t'.involves p) = true then 1 else 0) ≤
        if t'.involves p = true then 1 else 0 := by
      cases t'.involves p <;> cases t'.status == .scored <;> decide
    rw [Db.roundsPlayed, Db.putTurn_turns, Db.roundsPlayed]
    exact (Nat.le_of_eq hput).trans (Nat.add_le_add_left hle _)
  have hsame : ∀ p, t'.involves p = false → (db.putTurn t').roundsPlayed p ≤ db.roundsPlayed p := by
    intro p hp
    have := hcount p
    rw [hp] at this
    exact this
  refine ⟨h.tidy.putTurn ht hl.id ((h.tidy.turn t ht).guessed hs hg),
    ⟨h.onePair.single, h.onePair.queued⟩, fun x hx ↦ ?_, fun p ↦ ?_,
    fun pair' hpair' hactive' hne p hp ↦ ?_, fun p hp ↦ ?_⟩
  · rcases (Db.mem_putTurn ht hl.id).mp hx with rfl | ⟨hx, -⟩
    · obtain ⟨pair', hpair', hid', hseats⟩ := h.seated t ht
      refine ⟨pair', hpair', hid'.trans hl.pairId.symm, ?_⟩
      rw [hl.speakerId, hl.guesserId]
      exact hseats
    · exact h.seated x hx
  · cases hp : t'.involves p with
    | true =>
      have hlt := hbelow p (hplayers p hp)
      have hle := hcount p
      rw [hp] at hle
      simp only [if_true] at hle
      omega
    | false =>
      have hle := hsame p hp
      have := h.rounds p
      omega
  · cases hinv : t'.involves p with
    | true =>
      have hmem' : pair' ∈ db.activePairs p := Db.mem_activePairs.mpr ⟨hpair', hactive', hp⟩
      have heq := eq_of_mem_of_length (h.onePair.single p) hmem' (hmember p hinv)
      exact absurd (congrArg (fun r ↦ some (PairRecord.id r)) heq) hne
    | false =>
      have hle := hsame p hinv
      have := h.below pair' hpair' hactive' nofun p hp
      omega
  · cases hinv : t'.involves p with
    | true =>
      have hmem := hmember p hinv
      rw [h.onePair.queued p hp] at hmem
      exact absurd hmem List.not_mem_nil
    | false =>
      have hle := hsame p hinv
      have := h.queued p hp
      omega

/-- The exemption ends when the pair is completed or both its members are below the cap. -/
theorem settle {db : Db} {pairId : Uuid} (h : Capped cap (some pairId) db)
    (hpair : ∀ pair ∈ db.pairs, pair.id = pairId → pair.status = .active →
      ∀ p, pair.playerA = p ∨ pair.playerB = p → (db.roundsPlayed p : ℤ) < cap) :
    Capped cap none db := by
  refine ⟨h.tidy, h.onePair, h.seated, h.rounds, fun pair hmem hs _ p hp ↦ ?_, h.queued⟩
  by_cases hid : pair.id = pairId
  · exact hpair pair hmem hid hs p hp
  · exact h.below pair hmem hs (fun he ↦ hid (Option.some.inj he)) p hp

end Capped

/-! ## Requests run alone -/

variable {su : Setup} {Q : Except Failure Reply → Venue → Prop}

/-- The next call of a store method, run alone: what the store promises is all that is known. -/
theorem ensures_store {v : Venue} (htidy : v.db.Tidy) {β : Type} {op : GameStoreOp β}
    {f : β → Prog VenueOp Failure Reply}
    (herr : ∀ d e db, d.New v.db → (su.backend.exec su.cfg d op v.db).1 = .error e →
      op.Promise su.cfg su.backend.keepDuration d v.db (.error e) db →
      Q (.error e) { v with db := db })
    (hok : ∀ d b db, d.New v.db → op.Promise su.cfg su.backend.keepDuration d v.db (.ok b) db →
      (venue su).Ensures Q (f b) { v with db := db }) :
    (venue su).Ensures Q (GameService.store op >>= f) v := by
  refine System.ensures_perform (fun d e hd he ↦ ?_) fun d b hd hb ↦ ?_
  · refine herr d e _ (new_of_admits hd) he ?_
    have hp := su.backend.promise su.cfg htidy d op
    rwa [show (su.backend.exec su.cfg d op v.db).1 = .error e from he] at hp
  · refine hok d b _ (new_of_admits hd) ?_
    have hp := su.backend.promise su.cfg htidy d op
    rwa [show (su.backend.exec su.cfg d op v.db).1 = .ok b from hb] at hp

/-- A program none of whose deeds threatens the invariant. -/
theorem ensures_of_idle {I : Venue → Prop} {ok : Deed → Prop} {p : Prog VenueOp Failure Reply}
    (hp : Idle ok p) (htidy : ∀ v, I v → v.db.Tidy)
    (hI : ∀ a d v v', ok a → Did su d v a v' → d.New v.db → I v → I v') :
    ∀ v, I v → (venue su).Ensures (fun _ v ↦ I v) p v := by
  induction p with
  | done r => exact fun v hv ↦ hv
  | call op k ih =>
    intro v hv d hd
    exact ih _ (hp.2 _) _
      (hI _ d v _ (hp.1 _) (op.did su d (htidy v hv)) (new_of_admits hd) hv)

/-- Between two requests. -/
def Venue.Rested (su : Setup) (v : Venue) : Prop := Capped su.roundsCap none v.db

namespace Venue.Rested

variable {v : Venue}

theorem requestPair (h : v.Rested su) (p : Uuid) :
    (venue su).Ensures (fun _ v ↦ v.Rested su) ((Request.requestPair p).body su) v := by
  refine ensures_store h.tidy (fun d e db _ _ hp ↦ hp.1 ▸ h) fun d stats db _ hp ↦ ?_
  obtain ⟨rfl, hstats⟩ := hp
  split_ifs with hcap
  · exact h
  · -- a player who is let through is below the cap
    have hlt : (v.db.roundsPlayed p : ℤ) < su.roundsCap := by
      have hs := hstats stats rfl
      split_ifs at hs with hsome
      · rw [← hs]
        exact not_le.mp hcap
      · have hnone : v.db.findPlayer p = none := by
          rwa [Bool.not_eq_true, Option.isSome_eq_false_iff, Option.isNone_iff_eq_none] at hsome
        rw [h.roundsPlayed_eq_zero hnone, ← hs]
        exact not_le.mp hcap
    refine ensures_store h.tidy (fun d e db _ _ hp ↦ hp.1 ▸ h) fun d existing db _ hp ↦ ?_
    obtain ⟨rfl, hexisting⟩ := hp
    cases existing with
    | some pair => exact h
    | none =>
      have hactive := Db.activePair_eq_none.mp (Except.ok.inj hexisting).symm
      refine ensures_store h.tidy (fun d e db _ _ hp ↦ ?_) fun d u db hn hp ↦ ?_
      · rcases hp with ⟨-, rfl⟩ | ⟨hok, -⟩
        · exact h
        · cases hok
      · have hd := @GameStoreOp.did su d v _ (.enqueuePlayer p) _ db hp
        rcases hp with ⟨⟨e, he⟩, -⟩ | ⟨-, rfl⟩
        · cases he
        · have h' : Venue.Rested su { v with db := v.db.upsertQueue p d.now } := by
            refine Capped.did h hd hn (fun p' hp' ↦ ?_) (fun _ ha ↦ ?_) (fun _ ha ↦ ?_)
              fun _ ha ↦ ?_
            · cases hp'
              exact ⟨hactive, hlt⟩
            · cases ha
            · cases ha
            · cases ha
          refine ensures_store h'.tidy (fun d e db hn _ hp ↦ ?_) fun d pair db hn hp ↦ ?_
          · exact Capped.matching su h' hp hn hlt
          · exact Capped.matching su h' hp hn hlt

/-- A request that queues, matches, creates and guesses nothing. -/
theorem ensures_of_does (h : v.Rested su) {q : Request}
    (hq : ∀ a, q.Does a → (∀ p, a ≠ .queued p) ∧ (∀ pair, a ≠ .matched pair) ∧
      (∀ t, a ≠ .created t) ∧ ∀ t, a ≠ .guessed t) :
    (venue su).Ensures (fun _ v ↦ v.Rested su) (q.body su) v := by
  refine ensures_of_idle (q.body_does su) (fun v hv ↦ hv.tidy) ?_ v h
  intro a d v v' ha hd hn hv
  obtain ⟨hqueued, hmatched, hcreated, hguessed⟩ := hq a ha
  exact Capped.did hv hd hn (fun p hp ↦ absurd hp (hqueued p)) hmatched
    (fun t ht ↦ absurd ht (hcreated t)) fun t ht ↦ absurd ht (hguessed t)

end Venue.Rested

/-- A deed that is none of queueing, matching, creating and guessing. -/
theorem Capped.other {cap : ℤ} {exempt : Option Uuid} {v v' : Venue} {a : Deed} {d : Draw}
    (h : Capped cap exempt v.db) (hd : Did su d v a v') (hn : d.New v.db) (ha : a = .other) :
    Capped cap exempt v'.db := by
  subst ha
  exact h.did hd hn (fun _ ha ↦ by cases ha) (fun _ ha ↦ by cases ha) (fun _ ha ↦ by cases ha)
    fun _ ha ↦ by cases ha

/-- What follows the scoring of a turn: the pair is completed, or goes on below the cap. -/
theorem ensures_advance {v : Venue} {t : TurnRecord}
    (h : Capped su.roundsCap (some t.pairId) v.db) (hseat : v.db.Seated t) :
    (venue su).Ensures (fun _ v ↦ v.Rested su) (GameService.advance su.roundsCap t) v := by
  obtain ⟨pair, hpair, hid, hseats⟩ := hseat
  refine ensures_store h.tidy (fun d e db _ he _ ↦ ?_) fun d capped db hn hp ↦ ?_
  · obtain ⟨capped, hok⟩ := su.backend.completePairIfCapped_ok su.cfg h.tidy d hpair su.roundsCap
    rw [← hid, hok] at he
    cases he
  · have hd := @GameStoreOp.did su d v _ (.completePairIfCapped t.pairId su.roundsCap) _ db hp
    have h' : Capped su.roundsCap (some t.pairId) db := h.other hd hn rfl
    have hrest : Capped su.roundsCap none db := by
      refine h'.settle fun pair' hpair' hid' hs p hmem ↦ ?_
      cases hp with
      | capped hfind hmember hcap =>
        obtain ⟨pair₀, hpair₀, rfl⟩ := List.mem_map.mp hpair'
        split at hs
        · cases hs
        · rename_i hne
          rw [if_neg hne] at hid'
          exact absurd hid' hne
      | below hbelow =>
        exact hbelow pair' ((Db.findPair_eq_some h'.tidy.pairIds).mpr ⟨hpair', hid'⟩) hs p hmem
    split_ifs
    · exact hrest
    · refine ensures_store hrest.tidy (fun d e db' _ _ hp' ↦ ?_) fun d card db' _ hp' ↦ ?_
      · cases hp'.2
      · obtain ⟨rfl, -⟩ := hp'
        cases card with
        | none => exact hrest
        | some card =>
          have hcreate : ∀ d r db'', d.New db' → (GameStoreOp.createTurn t.pairId t.guesserId
              t.speakerId card.id).Promise su.cfg su.backend.keepDuration d db' r db'' →
              Capped su.roundsCap none db'' := by
            intro d r db'' hn' hp''
            have hd' := @GameStoreOp.did su d { v with db := db' } _ _ _ _ hp''
            refine Capped.did hrest hd' hn' (fun _ ha ↦ ?_) (fun _ ha ↦ ?_) (fun n ha ↦ ?_)
              fun _ ha ↦ ?_
            · cases r <;> cases ha
            · cases r <;> cases ha
            · rcases hp'' with ⟨⟨e, rfl⟩, -⟩ | ⟨rfl, -⟩
              · cases ha
              · cases ha
                obtain ⟨pair', hpair', hid', ha', hb'⟩ := hd.pair_kept hpair
                obtain ⟨pair'', hpair'', hid'', ha'', hb''⟩ := hd'.pair_kept hpair'
                refine ⟨pair'', hpair'', hid''.trans (hid'.trans hid), ?_⟩
                rw [ha'', hb'', ha', hb']
                exact hseats.symm.imp And.symm And.symm
            · cases r <;> cases ha
          exact ensures_store hrest.tidy (fun d e db'' hn' _ hp'' ↦ hcreate d _ db'' hn' hp'')
            fun d n db'' hn' hp'' ↦ hcreate d _ db'' hn' hp''

theorem ensures_afterScored {v : Venue} {t : TurnRecord}
    (h : Capped su.roundsCap (some t.pairId) v.db) (hseat : v.db.Seated t) :
    (venue su).Ensures (fun _ v ↦ v.Rested su) (GameService.afterScored su.roundsCap t) v := by
  refine ensures_store h.tidy (fun d e db _ _ hp ↦ ?_) fun d fresh db _ hp ↦ ?_
  · cases hp.2
  · obtain ⟨rfl, -⟩ := hp
    split_ifs
    · refine ensures_store h.tidy (fun d e db _ _ hp ↦ ?_) fun d created db hn hp ↦ ?_
      · cases hp.1
      · have hd := @GameStoreOp.did su d v _ (.enqueueJob .package t.id) _ db hp
        refine @ensures_advance su { v with db := db } t ?_ ?_
        · exact h.did hd hn (fun _ ha ↦ by cases ha) (fun _ ha ↦ by cases ha)
            (fun _ ha ↦ by cases ha) fun _ ha ↦ by cases ha
        · exact hd.seated_kept hseat (.refl t)
    · exact ensures_advance h hseat

theorem Venue.Rested.guess {v : Venue} (h : v.Rested su) (p optionId : Uuid) :
    (venue su).Ensures (fun _ v ↦ v.Rested su) ((Request.guess p optionId).body su) v := by
  refine ensures_store h.tidy (fun d e db _ _ hp ↦ hp.1 ▸ h) fun d existing db _ hp ↦ ?_
  obtain ⟨rfl, hexisting⟩ := hp
  cases existing with
  | none => exact h
  | some pair =>
    obtain ⟨hpair, hactive, -⟩ :=
      Db.mem_activePairs.mp (Db.activePair_mem (Except.ok.inj hexisting).symm)
    refine ensures_store h.tidy (fun d e db _ _ hp ↦ hp.1 ▸ h) fun d turn db _ hp ↦ ?_
    obtain ⟨rfl, hturn⟩ := hp
    cases turn with
    | none => exact h
    | some t =>
      obtain ⟨ht, htp⟩ := Db.latestTurn_mem (Except.ok.inj hturn).symm
      dsimp only
      split_ifs
      · exact h
      · exact h
      · refine ensures_store h.tidy (fun d e db _ _ hp ↦ ?_) fun d t' db hn hp ↦ ?_
        · rcases hp with ⟨-, rfl⟩ | ⟨t₀, t₁, -, -, -, hok, -⟩
          · exact h
          · cases hok
        · have hd := @GameStoreOp.did su d v _ (.applyGuess t.id (optionId == t.cardId)) _ db hp
          rcases hp with ⟨⟨e, he⟩, -⟩ | ⟨t₀, t₁, ht₀, hid, ⟨hs, hg⟩, hok, rfl⟩
          · cases he
          · cases hok
            have hsame := h.tidy.turnIds.eq ht₀ ht hid
            subst hsame
            have hl := hg.later hs
            split_ifs with hscored
            · have h' := Capped.score h hpair hactive ht₀ htp hs hg
              rw [← htp, ← hl.pairId] at h'
              exact ensures_afterScored h'
                (h'.seated t' ((Db.mem_putTurn ht₀ hl.id).mpr (.inl rfl)))
            · refine Capped.did h hd hn (fun _ ha ↦ ?_) (fun _ ha ↦ ?_) (fun _ ha ↦ ?_)
                fun u ha ↦ ?_
              · cases ha
              · cases ha
              · cases ha
              · cases ha
                exact hscored

/-! ## The result -/

theorem Venue.Opening.rested {v : Venue} (hv : v.Opening) : v.Rested su := by
  have hrounds : ∀ p, v.db.roundsPlayed p = 0 := fun p ↦ by
    rw [Db.roundsPlayed, hv.turns]
    rfl
  refine ⟨hv.tidy, ⟨fun p ↦ ?_, ?_⟩, fun t ht ↦ ?_, fun p ↦ ?_, fun pair hpair ↦ ?_, ?_⟩
  · rw [Db.activePairs, hv.pairs]
    exact Nat.zero_le 1
  · rintro p ⟨q, hq, -⟩
    rw [hv.queue] at hq
    exact absurd hq List.not_mem_nil
  · rw [hv.turns] at ht
    exact absurd ht List.not_mem_nil
  · rw [hrounds]
    exact le_max_right _ _
  · rw [hv.pairs] at hpair
    exact absurd hpair List.not_mem_nil
  · rintro p ⟨q, hq, -⟩
    rw [hv.queue] at hq
    exact absurd hq List.not_mem_nil

/-- Requests that run one at a time leave the venue at rest, whichever they are. -/
theorem rested_of_requests {P : Request → Prop} {v : Venue} (h : (venue su).Serial P v) :
    v.Rested su := by
  have hinit : ∀ v : Venue, (venue su).init v → v.Rested su := fun v hv ↦ Venue.Opening.rested hv
  refine h.inv hinit fun q v hq hv ↦ ?_
  have hidle : (∀ a, q.Does a → (∀ p, a ≠ .queued p) ∧ (∀ pair, a ≠ .matched pair) ∧
      (∀ t, a ≠ .created t) ∧ ∀ t, a ≠ .guessed t) →
      (venue su).Ensures (fun _ v ↦ v.Rested su) (q.body su) v :=
    hv.ensures_of_does
  cases q with
  | requestPair player => exact hv.requestPair player
  | guess player optionId => exact hv.guess player optionId
  | _ =>
    refine hidle fun a ha ↦ ⟨?_, ?_, ?_, ?_⟩
    all_goals
      rintro _ rfl
      exact ha

theorem rested_of_serial {v : Venue} (h : (venue su).Serial (fun q ↦ q.isClient = true) v) :
    v.Rested su := rested_of_requests h

/-- **The session cap.**  When the requests of the players run one at a time, nobody takes part in
more scored turns than the cap — in none at all when it is negative — both members of an active pair
are strictly below it, and nobody waits in the queue who is in an active pair. -/
theorem session_cap {v : Venue} (h : (venue su).Serial (fun q ↦ q.isClient = true) v) :
    (∀ p, (v.db.roundsPlayed p : ℤ) ≤ max su.roundsCap 0) ∧
    (∀ pair ∈ v.db.pairs, pair.status = .active →
      (v.db.roundsPlayed pair.playerA : ℤ) < su.roundsCap ∧
        (v.db.roundsPlayed pair.playerB : ℤ) < su.roundsCap) ∧
    ∀ p, v.db.Queued p → v.db.activePairs p = [] := by
  have hrest := rested_of_serial h
  refine ⟨hrest.rounds, fun pair hpair hs ↦ ⟨?_, ?_⟩, hrest.onePair.queued⟩
  · exact hrest.below pair hpair hs (fun hn ↦ by cases hn) _ (.inl rfl)
  · exact hrest.below pair hpair hs (fun hn ↦ by cases hn) _ (.inr rfl)

/-- Two players are paired; each is below the cap. -/
theorem session_cap_pair : ∃ v, (venue defaultSetup).Serial (fun q ↦ q.isClient = true) v ∧
    (v.db.activePair 1).isSome = true ∧
    ∀ pair ∈ v.db.pairs, pair.status = .active →
      (v.db.roundsPlayed pair.playerA : ℤ) < defaultSetup.roundsCap ∧
        (v.db.roundsPlayed pair.playerB : ℤ) < defaultSetup.roundsCap := by
  have hplay : ((venue defaultSetup).play threePlayers
      [(.requestPair 1, [.nth 0, .nth 1, .nth 2, .nth 3]),
        (.requestPair 2, [.nth 4, .nth 5, .nth 6, .nth 7])]).map
      (fun v ↦ (v.db.activePair 1).isSome) = some true := by decide +kernel
  obtain ⟨v, hv, hpaired⟩ := Option.map_eq_some_iff.mp hplay
  have hserial : (venue defaultSetup).Serial (fun q ↦ q.isClient = true) v :=
    System.serial_of_play (.start opening_threePlayers) (by decide) hv
  exact ⟨v, hserial, hpaired, (session_cap hserial).2.1⟩

end Neva
