import Neva.Pact

/-!
# One active pair per player

`request_pair` reads whether the player is paired, enqueues them, and matches, in three separate
steps.  `Db.OnePair` is what matchmaking is meant to keep: nobody is in two active pairs, and
whoever is queued is in none.

`try_match` keeps it by itself: it matches a player it has just seen unpaired with one it takes
from the queue.  `enqueue_player` does not.  It relies on a read that an earlier step has made,
and a request of the same player — or of a partner, who claims the player from the queue — may
have paired the player since.  `twoActivePairs` is such a run.  `onePair_of_reach` says that this
is all that can go wrong: as long as no player is enqueued who is in an active pair at that very
moment, every interleaving is fine.
-/

set_option autoImplicit false

namespace Neva

open Calls

/-- Nobody is in two active pairs, and nobody who is queued is in one. -/
structure Db.OnePair (db : Db) : Prop where
  single : ∀ p, (db.activePairs p).length ≤ 1
  queued : ∀ p, db.Queued p → db.activePairs p = []

namespace Db

variable {db : Db}

/-- A new active pair counts for its members only. -/
theorem activePairs_append (pair : PairRecord) (p : Uuid) (hs : pair.status = .active) :
    activePairs { db with pairs := db.pairs ++ [pair] } p =
      db.activePairs p ++ if pair.hasMember p then [pair] else [] := by
  rw [activePairs, List.filter_append, List.filter_singleton, hs, beq_self_eq_true, Bool.true_and]
  cases pair.hasMember p <;> rfl

/-- Completing a pair takes it out of the active ones. -/
theorem activePairs_complete (pairId p : Uuid) :
    (db.setPairStatus pairId .completed).activePairs p =
      (db.activePairs p).filter fun pair ↦ pair.id ≠ pairId := by
  rw [activePairs, activePairs, setPairStatus, List.filter_map, List.filter_filter]
  have hcongr : ∀ pair ∈ db.pairs,
      ((fun r : PairRecord ↦ r.status == .active && r.hasMember p) ∘ fun r ↦
        if r.id = pairId then { r with status := .completed } else r) pair =
      (decide (pair.id ≠ pairId) && (pair.status == .active && pair.hasMember p)) := by
    intro pair _
    rw [Function.comp_apply]
    by_cases hid : pair.id = pairId
    · rw [if_pos hid, decide_eq_false (not_not.mpr hid)]
      rfl
    · rw [if_neg hid, decide_eq_true hid, Bool.true_and]
  rw [List.filter_congr hcongr]
  conv_rhs => rw [← List.map_id (List.filter _ db.pairs)]
  refine List.map_congr_left fun pair hpair ↦ ?_
  have hid := (Bool.and_eq_true _ _ ▸ (List.mem_filter.mp hpair).2).1
  exact if_neg (of_decide_eq_true hid)

namespace OnePair

/-- A pair of two players who are in no active pair. -/
theorem appendPair (h : db.OnePair) {pair : PairRecord} {queue : List QueueRow}
    (hs : pair.status = .active) (ha : db.activePairs pair.playerA = [])
    (hb : db.activePairs pair.playerB = [])
    (hq : ∀ q ∈ queue, q.playerId ≠ pair.playerA ∧ q.playerId ≠ pair.playerB ∧
      db.Queued q.playerId) :
    OnePair { db with queue := queue, pairs := db.pairs ++ [pair] } where
  single p := by
    rw [show activePairs { db with queue := queue, pairs := db.pairs ++ [pair] } p = _ from
      activePairs_append pair p hs]
    by_cases hp : pair.hasMember p = true
    · have hnone : db.activePairs p = [] := by
        rcases PairRecord.hasMember_iff.mp hp with rfl | rfl
        · exact ha
        · exact hb
      rw [hnone, if_pos hp]
      exact Nat.le_refl 1
    · rw [if_neg hp, List.append_nil]
      exact h.single p
  queued p := by
    rintro ⟨q, hmem, rfl⟩
    obtain ⟨hqa, hqb, hqueued⟩ := hq q hmem
    rw [show activePairs { db with queue := queue, pairs := db.pairs ++ [pair] } q.playerId = _ from
      activePairs_append pair q.playerId hs]
    have hp : ¬pair.hasMember q.playerId = true := by
      rw [PairRecord.hasMember_iff, not_or]
      exact ⟨hqa.symm, hqb.symm⟩
    rw [if_neg hp, List.append_nil]
    exact h.queued q.playerId hqueued

theorem complete (h : db.OnePair) (pairId : Uuid) :
    (db.setPairStatus pairId .completed).OnePair where
  single p := by
    rw [activePairs_complete]
    exact (List.length_filter_le _ _).trans (h.single p)
  queued p hq := by
    rw [activePairs_complete, h.queued p hq, List.filter_nil]

/-- Queueing players who are in no active pair. -/
theorem requeue (h : db.OnePair) {db' : Db} (hpairs : db'.pairs = db.pairs)
    (hq : ∀ p, db'.Queued p → db.activePairs p = [] ∨ db.Queued p) : db'.OnePair := by
  have heq : ∀ p, db'.activePairs p = db.activePairs p := fun p ↦ by
    rw [activePairs, activePairs, hpairs]
  refine ⟨fun p ↦ ?_, fun p hqueued ↦ ?_⟩
  · rw [heq]
    exact h.single p
  · rw [heq]
    exact (hq p hqueued).elim id (h.queued p)

end OnePair

end Db

/-- A player is enqueued only while in no active pair. -/
def enqueuedUnpaired : Conditions where
  may _ a sc :=
    match a with
    | .queued p => sc.venue.db.activePairs p = []
    | _ => True

/-- **What a deed does to the pairs and the queue.**  Only enqueueing needs the condition. -/
theorem Did.onePair {su : Setup} {d : Draw} {v v' : Venue} {a : Deed} (hd : Did su d v a v')
    (h : v.db.OnePair) (hmay : ∀ p, a = .queued p → v.db.activePairs p = []) :
    v'.db.OnePair := by
  cases hd with
  | quiet hplayers hqueue hpairs hcards hturns hjobs =>
    refine h.requeue hpairs fun p hq ↦ .inr ?_
    rw [Db.Queued, hqueue] at hq
    exact hq
  | queued p =>
    refine h.requeue rfl fun p' hq ↦ ?_
    rcases Db.queued_upsertQueue hq with rfl | hq
    · exact .inl (hmay p' rfl)
    · exact .inr hq
  | already hactive => exact h
  | waiting hactive hq =>
    refine h.requeue rfl ?_
    rintro p ⟨q, hmem, rfl⟩
    rcases hq q hmem with hme | hqueued
    · exact .inl (hme ▸ Db.activePair_eq_none.mp hactive)
    · exact .inr hqueued
  | @paired a b lang queue hactive hactive' hne ha hb hq =>
    have hpair := @Db.OnePair.appendPair _ h ⟨d.uuid, a, b, lang, .active, d.now⟩ queue rfl
      (hactive.elim id (h.queued a)) (hactive'.elim id (h.queued b)) hq
    exact ⟨hpair.single, hpair.queued⟩
  | created => exact ⟨h.single, h.queued⟩
  | picked => exact h
  | saved => exact h
  | accepted => exact ⟨h.single, h.queued⟩
  | labelled => exact ⟨h.single, h.queued⟩
  | guessed => exact ⟨h.single, h.queued⟩
  | enqueued kind turnId =>
    refine h.requeue (Db.insertJob_pairs ..) fun p hq ↦ .inr ?_
    rw [Db.Queued, Db.insertJob_queue] at hq
    exact hq
  | completed => exact h.complete _
  | triaged ht hplayers hqueue hpairs hcards hturns hjobs =>
    refine h.requeue hpairs fun p hq ↦ .inr ?_
    rw [Db.Queued, hqueue] at hq
    exact hq
  | untriaged => exact h

/-- **One active pair per player**: if players are only ever enqueued while in no active pair, no
interleaving of requests puts anybody into two. -/
theorem onePair_of_reach {su : Setup} {c : Config VenueOp Failure Request Venue Reply}
    (h : (venue su).Reach (enqueuedUnpaired.terms su) c) (p : Uuid) :
    (c.world.state.db.activePairs p).length ≤ 1 := by
  have hinv : c.world.state.db.Tidy ∧ c.world.state.db.OnePair := by
    refine @System.Reach.state_inv _ _ _ _ _ _ _ _
      (fun w ↦ w.state.db.Tidy ∧ w.state.db.OnePair) ?_ ?_ ?_ c h
    · intro v hv
      refine ⟨hv.tidy, fun p ↦ ?_, ?_⟩
      · show (v.db.activePairs p).length ≤ 1
        rw [Db.activePairs, hv.pairs]
        exact Nat.zero_le 1
      · rintro p ⟨q, hq, -⟩
        rw [hv.queue] at hq
        exact absurd hq List.not_mem_nil
    · exact fun w r hw ↦ hw
    · intro i β op d w hw hm hd
      have hdid := op.did su d hw.1
      refine ⟨hdid.tidy hw.1 (new_of_admits hd), hdid.onePair hw.2 fun p hp ↦ ?_⟩
      have hm' : enqueuedUnpaired.may i (deed op (op.exec su d w.state).1) (scene w) := hm
      rw [hp] at hm'
      exact hm'
  exact hinv.2.single p

/-! ## A run on the conditions, and one that is not -/

instance (i : ℕ) (a : Deed) (sc : Scene) : Decidable (enqueuedUnpaired.may i a sc) :=
  match a with
  | .queued p => inferInstanceAs (Decidable (sc.venue.db.activePairs p = []))
  | .matched _ | .created _ | .picked _ | .saved _ _ _ | .accepted _ | .guessed _ | .enqueued _ _
  | .triaged _ | .other => isTrue trivial

instance (i : ℕ) (sc : Scene) : Decidable (enqueuedUnpaired.lose i sc) := isTrue trivial

/-- Players 1 and 2 ask one after the other, and 1 once more. -/
theorem onePair_inTurn : ∃ c, (venue defaultSetup).Reach (enqueuedUnpaired.terms defaultSetup) c ∧
    (c.world.state.db.activePair 1).isSome = true ∧
    ∀ p, (c.world.state.db.activePairs p).length ≤ 1 := by
  obtain ⟨c, hc, hpaired⟩ := System.exists_reach_of_runOn
    (enqueuedUnpaired.allows_of_permits defaultSetup) opening_threePlayers
    (show ((venue defaultSetup).runOn (enqueuedUnpaired.permits defaultSetup)
      (System.start threePlayers) (pairUp ++ .spawn (.requestPair 1) :: calls 2 8 2)).map
        (fun c ↦ (c.world.state.db.activePair 1).isSome) = some true by decide +kernel)
  exact ⟨c, hc, hpaired, onePair_of_reach hc⟩

/-- Two requests of player 1 are overtaken by one of player 2, and one of player 3 follows. -/
def overtaken : List (Event Request Draw Failure) :=
  [.spawn (.requestPair 1), .spawn (.requestPair 1), .spawn (.requestPair 2),
    .spawn (.requestPair 3)] ++
  -- both requests of player 1 find the player unpaired, and the first one enqueues them
  calls 0 0 2 ++ calls 1 2 2 ++ calls 0 4 2 ++
  -- player 2 claims player 1
  calls 2 6 4 ++
  -- the second request of player 1 enqueues the player again, and player 3 claims them
  calls 1 10 1 ++ calls 3 11 4

/-- An overtaken request puts player 1 into two active pairs. -/
theorem twoActivePairs : ∃ c, (venue defaultSetup).Reachable c ∧
    (c.world.state.db.activePairs 1).length = 2 := by
  obtain ⟨c, hc, htwo⟩ := System.exists_reachable_of_run opening_threePlayers
    (show ((venue defaultSetup).run (System.start threePlayers) overtaken).map
      (fun c ↦ decide ((c.world.state.db.activePairs 1).length = 2)) = some true by decide +kernel)
  exact ⟨c, hc, of_decide_eq_true htwo⟩

end Neva
