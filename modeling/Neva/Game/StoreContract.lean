import Neva.Tables
import Neva.Game.Postgres
import Neva.Game.Memory

/-!
# What a game store promises

The two stores differ in how they compute and in how they refuse.  What the service relies on is
the same for both, and it is written down here once: `GameStoreOp.Promise` says, for each method,
what it may answer and what it leaves behind.  `Postgres.promise` and `Memory.promise` are the
proofs that the two stores keep it.

The promise is made for a `Db.Tidy` database — one whose keys are unique and whose turns are in
one of the states the game puts them in — because that is what makes `UPDATE … WHERE id = …` the
replacement of one row, `Db.putTurn`.
-/

set_option autoImplicit false

namespace Neva

open Tables

/-! ## Tidy databases -/

/-- The columns of a turn agree with its status. -/
structure TurnRecord.Tidy (t : TurnRecord) : Prop where
  /-- The outcome is open exactly until the turn is scored. -/
  pending : t.outcome = .pending ↔ t.status ≠ .scored
  /-- No code path decides a turn as `wrong`. -/
  notWrong : t.outcome ≠ .wrong
  /-- There is audio from the moment it is accepted. -/
  audio : t.audioPath = none ↔ t.status = .awaitingAudio

/-- Unique keys, pairs of two different players, tidy turns. -/
structure Db.Tidy (db : Db) : Prop where
  playerIds : Unique PlayerRecord.id db.players
  pairIds : Unique PairRecord.id db.pairs
  turnIds : Unique TurnRecord.id db.turns
  jobKeys : Unique (fun j : JobRow ↦ (j.kind, j.turnId)) db.jobs
  apart : ∀ pair ∈ db.pairs, pair.playerA ≠ pair.playerB
  members : ∀ pair ∈ db.pairs, (db.findPlayer pair.playerA).isSome ∧
    (db.findPlayer pair.playerB).isSome
  turn : ∀ t ∈ db.turns, t.Tidy

namespace Db

/-- The player is waiting for a partner. -/
def Queued (db : Db) (p : Uuid) : Prop := ∃ q ∈ db.queue, q.playerId = p

/-- The turn in the place of the row with its identifier. -/
def putTurn (db : Db) (t : TurnRecord) : Db := { db with turns := put TurnRecord.id t db.turns }

@[simp] theorem putTurn_turns (db : Db) (t : TurnRecord) :
    (db.putTurn t).turns = put TurnRecord.id t db.turns := rfl
@[simp] theorem putTurn_pairs (db : Db) (t : TurnRecord) : (db.putTurn t).pairs = db.pairs := rfl
@[simp] theorem putTurn_jobs (db : Db) (t : TurnRecord) : (db.putTurn t).jobs = db.jobs := rfl
@[simp] theorem putTurn_players (db : Db) (t : TurnRecord) :
    (db.putTurn t).players = db.players := rfl
@[simp] theorem putTurn_queue (db : Db) (t : TurnRecord) : (db.putTurn t).queue = db.queue := rfl
@[simp] theorem putTurn_cards (db : Db) (t : TurnRecord) : (db.putTurn t).cards = db.cards := rfl

section

variable (db : Db) (kind : JobKind) (turnId id : Uuid) (now : Time)

theorem insertJob_jobs : (db.insertJob kind turnId id now).jobs =
    if db.hasJob kind turnId then db.jobs else db.jobs ++ [JobRow.initial id kind turnId now] := by
  rw [insertJob]
  split <;> rfl

@[simp] theorem insertJob_players : (db.insertJob kind turnId id now).players = db.players := by
  rw [insertJob]
  split <;> rfl

@[simp] theorem insertJob_queue : (db.insertJob kind turnId id now).queue = db.queue := by
  rw [insertJob]
  split <;> rfl

@[simp] theorem insertJob_pairs : (db.insertJob kind turnId id now).pairs = db.pairs := by
  rw [insertJob]
  split <;> rfl

@[simp] theorem insertJob_cards : (db.insertJob kind turnId id now).cards = db.cards := by
  rw [insertJob]
  split <;> rfl

@[simp] theorem insertJob_fingerprints :
    (db.insertJob kind turnId id now).fingerprints = db.fingerprints := by
  rw [insertJob]
  split <;> rfl

@[simp] theorem insertJob_turns : (db.insertJob kind turnId id now).turns = db.turns := by
  rw [insertJob]
  split <;> rfl

end

theorem findTurn_eq_some {db : Db} (h : Unique TurnRecord.id db.turns) {turnId : Uuid}
    {t : TurnRecord} : db.findTurn turnId = some t ↔ t ∈ db.turns ∧ t.id = turnId :=
  h.find?_eq_some

theorem findPair_eq_some {db : Db} (h : Unique PairRecord.id db.pairs) {pairId : Uuid}
    {pair : PairRecord} : db.findPair pairId = some pair ↔ pair ∈ db.pairs ∧ pair.id = pairId :=
  h.find?_eq_some

/-- The rows after the row of `t` has been replaced. -/
theorem mem_putTurn {db : Db} {t t' x : TurnRecord} (ht : t ∈ db.turns) (hid : t'.id = t.id) :
    x ∈ (db.putTurn t').turns ↔ x = t' ∨ x ∈ db.turns ∧ x.id ≠ t.id := by
  rw [putTurn_turns, mem_put (hid ▸ List.mem_map_of_mem ht), hid]

/-- An `UPDATE` that finds its turn replaces it. -/
theorem updateTurn_eq_putTurn {db : Db} (h : Unique TurnRecord.id db.turns) {turnId : Uuid}
    {t : TurnRecord} (ht : db.findTurn turnId = some t) (f : TurnRecord → TurnRecord)
    (hf : (f t).id = t.id) : db.updateTurn turnId f = db.putTurn (f t) := by
  obtain ⟨hmem, hid⟩ := (findTurn_eq_some h).mp ht
  rw [updateTurn, putTurn, h.map_eq_put hmem f hid (hf.trans hid)]

/-- An `UPDATE` that finds no turn does nothing. -/
theorem updateTurn_eq_self {db : Db} {turnId : Uuid} (ht : db.findTurn turnId = none)
    (f : TurnRecord → TurnRecord) : db.updateTurn turnId f = db := by
  have hne : ∀ t ∈ db.turns, t.id ≠ turnId := Tables.find?_eq_none.mp ht
  rw [updateTurn]
  have hmap : (db.turns.map fun r ↦ if r.id = turnId then f r else r) = db.turns := by
    conv_rhs => rw [← List.map_id db.turns]
    exact List.map_congr_left fun t htm ↦ if_neg (hne t htm)
  rw [hmap]

theorem mem_activePairs {db : Db} {p : Uuid} {pair : PairRecord} :
    pair ∈ db.activePairs p ↔
      pair ∈ db.pairs ∧ pair.status = .active ∧ (pair.playerA = p ∨ pair.playerB = p) := by
  rw [activePairs, List.mem_filter, Bool.and_eq_true, beq_iff_eq, PairRecord.hasMember_iff]

theorem activePair_mem {db : Db} {p : Uuid} {pair : PairRecord} (h : db.activePair p = some pair) :
    pair ∈ db.activePairs p :=
  List.argmax_mem (Option.mem_def.mpr h)

theorem activePair_eq_none {db : Db} {p : Uuid} :
    db.activePair p = none ↔ db.activePairs p = [] :=
  List.argmax_eq_none

theorem latestTurn_mem {db : Db} {pairId : Uuid} {t : TurnRecord}
    (h : db.latestTurn pairId = some t) : t ∈ db.turns ∧ t.pairId = pairId := by
  have hm : t ∈ db.turnsOf pairId := List.argmax_mem (Option.mem_def.mpr h)
  obtain ⟨ht, hp⟩ := List.mem_filter.mp hm
  exact ⟨ht, beq_iff_eq.mp hp⟩

theorem queued_upsertQueue {db : Db} {p p' : Uuid} {now : Time} :
    (db.upsertQueue p now).Queued p' → p' = p ∨ db.Queued p' := by
  rintro ⟨q, hq, rfl⟩
  rw [upsertQueue] at hq
  split at hq
  · obtain ⟨q₀, hq₀, rfl⟩ := List.mem_map.mp hq
    split
    · exact .inl rfl
    · exact .inr ⟨q₀, hq₀, rfl⟩
  · rcases List.mem_append.mp hq with hq | hq
    · exact .inr ⟨q, hq, rfl⟩
    · rw [List.mem_singleton] at hq
      exact .inl (hq ▸ rfl)

end Db

/-! ## What each method may do -/

/-- The turn once its audio has been accepted. -/
def TurnRecord.accepted (t : TurnRecord) (path : AudioPath) (durationS : ℚ) : TurnRecord :=
  { t with audioPath := some path, durationS := some durationS, status := .awaitingLabelConfirm }

/-- The turn once its label has been confirmed. -/
def TurnRecord.labelled (t : TurnRecord) : TurnRecord := { t with status := .awaitingGuess }

@[simp] theorem TurnRecord.accepted_id (t : TurnRecord) (path : AudioPath) (durationS : ℚ) :
    (t.accepted path durationS).id = t.id := rfl
@[simp] theorem TurnRecord.labelled_id (t : TurnRecord) : t.labelled.id = t.id := rfl

/-- What a guess makes of a turn that awaits one. -/
inductive TurnRecord.Guessed (cfg : GameFeatureConfig) (t : TurnRecord) :
    Bool → TurnRecord → Prop
  | right : Guessed cfg t true
      { t with attempts := t.attempts + 1, status := .scored, outcome := .validated }
  | last (h : cfg.maxGuessAttempts ≤ t.attempts + 1) : Guessed cfg t false
      { t with attempts := t.attempts + 1, status := .scored, outcome := .unclear }
  | again (h : t.attempts + 1 < cfg.maxGuessAttempts) : Guessed cfg t false
      { t with attempts := t.attempts + 1 }

/-- The call raised and changed nothing. -/
def Refused {β : Type} (db : Db) (r : Except Failure β) (db' : Db) : Prop :=
  (∃ e, r = .error e) ∧ db' = db

/-- A guarded update of one turn: refused, or the turn is found, moved and answered. -/
def Updated (db : Db) (turnId : Uuid) (moves : TurnRecord → TurnRecord → Prop)
    (r : Except Failure TurnRecord) (db' : Db) : Prop :=
  Refused db r db' ∨
    ∃ t t', t ∈ db.turns ∧ t.id = turnId ∧ moves t t' ∧ r = .ok t' ∧ db' = db.putTurn t'

/-- What `try_match` may do for the player `me`. -/
inductive Matching (d : Draw) (db : Db) (me : Uuid) :
    Except Failure (Option PairRecord) → Db → Prop
  | refused (e : Failure) : Matching d db me (.error e) db
  /-- `me` is in a pair already. -/
  | already {pair : PairRecord} (h : db.activePair me = some pair) :
      Matching d db me (.ok (some pair)) db
  /-- Nobody suits; `me` waits. -/
  | waiting {queue : List QueueRow} (h : db.activePair me = none)
      (hq : ∀ q ∈ queue, q.playerId = me ∨ db.Queued q.playerId) :
      Matching d db me (.ok none) { db with queue := queue }
  /-- `me` and a waiting `partner` become a pair, and its first turn is dealt if there is a card. -/
  | paired {partner a b : Uuid} {lang : Text} {queue : List QueueRow}
      (h : db.activePair me = none) (hne : partner ≠ me)
      (hme : (db.findPlayer me).isSome) (hpartner : (db.findPlayer partner).isSome)
      (hqueued : db.Queued partner) (hab : a = me ∧ b = partner ∨ a = partner ∧ b = me)
      (hq : ∀ q ∈ queue, q.playerId ≠ me ∧ q.playerId ≠ partner ∧ db.Queued q.playerId) :
      Matching d db me (.ok (some ⟨d.uuid, a, b, lang, .active, d.now⟩)) { db with
        queue := queue
        pairs := db.pairs ++ [⟨d.uuid, a, b, lang, .active, d.now⟩]
        turns := db.turns ++ ((db.pickCard d.uuid d.rand).map fun card ↦
          TurnRecord.initial d.uuid' d.uuid a b card.id d.now).toList }

/-- What `complete_pair_if_capped` may do. -/
inductive Completion (db : Db) (pairId : Uuid) (roundsCap : ℤ) :
    Except Failure Bool → Db → Prop
  | refused (e : Failure) : Completion db pairId roundsCap (.error e) db
  /-- A member is at the cap; the pair is completed. -/
  | capped {pair : PairRecord} {p : Uuid} (h : db.findPair pairId = some pair)
      (hp : pair.playerA = p ∨ pair.playerB = p) (hcap : roundsCap ≤ db.roundsPlayed p) :
      Completion db pairId roundsCap (.ok true) (db.setPairStatus pairId .completed)
  /-- If the pair is still active, both members are below the cap. -/
  | below (h : ∀ pair, db.findPair pairId = some pair → pair.status = .active →
        ∀ p, pair.playerA = p ∨ pair.playerB = p → (db.roundsPlayed p : ℤ) < roundsCap) :
      Completion db pairId roundsCap (.ok false) db

/-- **What a store promises**: what a method called in `db` may answer and leave behind.  `keep`
is how the store keeps a duration. -/
def GameStoreOp.Promise (cfg : GameFeatureConfig) (keep : ℚ → ℚ) (d : Draw) (db : Db) :
    {β : Type} → GameStoreOp β → Except Failure β → Db → Prop
  | _, .playerStats p, r, db' => db' = db ∧
      ∀ s, r = .ok s → s.roundsPlayed = if (db.findPlayer p).isSome then db.roundsPlayed p else 0
  | _, .getActivePair p, r, db' => db' = db ∧ r = .ok (db.activePair p)
  | _, .enqueuePlayer p, r, db' => Refused db r db' ∨ r = .ok () ∧ db' = db.upsertQueue p d.now
  | _, .tryMatch p, r, db' => Matching d db p r db'
  | _, .createTurn pairId speakerId guesserId cardId, r, db' =>
      let turn := TurnRecord.initial d.uuid pairId speakerId guesserId cardId d.now
      Refused db r db' ∨ r = .ok turn ∧ db' = { db with turns := db.turns ++ [turn] }
  | _, .pickCardForPair pairId, r, db' => db' = db ∧ r = .ok (db.pickCard pairId d.rand)
  | _, .getTurn turnId, r, db' => db' = db ∧ r = .ok (db.findTurn turnId)
  | _, .getLatestTurn pairId, r, db' => db' = db ∧ r = .ok (db.latestTurn pairId)
  | _, .acceptAudio turnId path durationS, r, db' => Updated db turnId
      (fun t t' ↦ t.status = .awaitingAudio ∧ t' = t.accepted path (keep durationS)) r db'
  | _, .enqueueJob kind turnId, r, db' =>
      r = .ok (!db.hasJob kind turnId) ∧ db' = db.insertJob kind turnId d.uuid d.now
  | _, .confirmLabel turnId, r, db' => Updated db turnId
      (fun t t' ↦ t.status = .awaitingLabelConfirm ∧ t' = t.labelled) r db'
  | _, .applyGuess turnId correct, r, db' => Updated db turnId
      (fun t t' ↦ t.status = .awaitingGuess ∧ t.Guessed cfg correct t') r db'
  | _, .completePairIfCapped pairId roundsCap, r, db' => Completion db pairId roundsCap r db'

/-! ## Pairing -/

theorem Db.queued_refreshQueue {cfg : GameFeatureConfig} {db : Db} {now : Time} {me p : Uuid}
    (h : (db.refreshQueue cfg now me).Queued p) : p = me ∨ db.Queued p := by
  obtain ⟨q, hq, rfl⟩ := h
  exact Db.queued_upsertQueue ⟨q, List.mem_of_mem_filter hq, rfl⟩

/-- The pair and the turn that `insertPair` inserts after the queue has been refreshed. -/
theorem Db.insertPair_refreshQueue {cfg : GameFeatureConfig} {db : Db} {d : Draw} {me : Uuid}
    {partner : QueueRow} {lang : Text} (hactive : db.activePair me = none)
    (hme : (db.findPlayer me).isSome) (hpartner : (db.findPlayer partner.playerId).isSome)
    (hne : partner.playerId ≠ me) (hq : partner ∈ (db.refreshQueue cfg d.now me).queue) :
    Matching d db me
      (.ok (some ((db.refreshQueue cfg d.now me).insertPair d me partner lang).1))
      ((db.refreshQueue cfg d.now me).insertPair d me partner lang).2 := by
  have hqueue : ∀ q ∈ (db.refreshQueue cfg d.now me).queue.filter fun q ↦
      !(q.playerId == me || q.playerId == partner.playerId),
      q.playerId ≠ me ∧ q.playerId ≠ partner.playerId ∧ db.Queued q.playerId := by
    intro q hmem
    obtain ⟨hmem, hp⟩ := List.mem_filter.mp hmem
    rw [Bool.not_eq_true', Bool.or_eq_false_iff, beq_eq_false_iff_ne, beq_eq_false_iff_ne] at hp
    exact ⟨hp.1, hp.2, (Db.queued_refreshQueue ⟨q, hmem, rfl⟩).resolve_left hp.1⟩
  have hqueued : db.Queued partner.playerId :=
    (Db.queued_refreshQueue ⟨partner, hq, rfl⟩).resolve_left hne
  have key : ∀ a b, (a = me ∧ b = partner.playerId ∨ a = partner.playerId ∧ b = me) →
      Matching d db me (.ok (some ⟨d.uuid, a, b, lang, .active, d.now⟩))
        { db.refreshQueue cfg d.now me with
          queue := (db.refreshQueue cfg d.now me).queue.filter fun q ↦
            !(q.playerId == me || q.playerId == partner.playerId)
          pairs := db.pairs ++ [⟨d.uuid, a, b, lang, .active, d.now⟩]
          turns := db.turns ++ ((db.pickCard d.uuid d.rand).map fun card ↦
            TurnRecord.initial d.uuid' d.uuid a b card.id d.now).toList } :=
    fun a b hab ↦ .paired hactive hne hme hpartner hqueued hab hqueue
  cases hfirst : (db.refreshQueue cfg d.now me).enqueuedFirst me partner with
  | true =>
    rw [insertPair, hfirst]
    exact key me partner.playerId (.inl ⟨rfl, rfl⟩)
  | false =>
    rw [insertPair, hfirst]
    exact key partner.playerId me (.inr ⟨rfl, rfl⟩)

/-! ## Both stores keep the promise -/

theorem refused {β : Type} {db : Db} (e : Failure) :
    Refused db (.error e : Except Failure β) db :=
  ⟨⟨e, rfl⟩, rfl⟩

/-- An `UPDATE` of the turn that was found. -/
theorem Db.Tidy.updated {db : Db} (h : db.Tidy) {turnId : Uuid} {t : TurnRecord}
    {moves : TurnRecord → TurnRecord → Prop} (f : TurnRecord → TurnRecord)
    (ht : db.findTurn turnId = some t) (hf : (f t).id = t.id) (hm : moves t (f t)) :
    Updated db turnId moves (.ok (f t)) (db.updateTurn turnId f) := by
  obtain ⟨hmem, hid⟩ := (Db.findTurn_eq_some h.turnIds).mp ht
  exact .inr ⟨t, f t, hmem, hid, hm, rfl, Db.updateTurn_eq_putTurn h.turnIds ht f hf⟩

/-- A turn that awaits a guess is undecided. -/
theorem Db.Tidy.pending_of_awaitingGuess {db : Db} (h : db.Tidy) {turnId : Uuid} {t : TurnRecord}
    (ht : db.findTurn turnId = some t) (hs : t.status = .awaitingGuess) :
    t.outcome = .pending := by
  rw [(h.turn t ((Db.findTurn_eq_some h.turnIds).mp ht).1).pending, hs]
  exact nofun

namespace Postgres

variable {cfg : GameFeatureConfig} {db : Db}

theorem claimPartner_mem {now : Time} {me : PlayerRecord} {speakable : List Text} {c : Candidate}
    (h : claimPartner cfg db now me speakable = some c) :
    c.row ∈ db.queue ∧ db.findPlayer c.row.playerId = some c.player ∧ c.row.playerId ≠ me.id := by
  have hc : c ∈ candidates cfg db now me speakable := List.argmin_mem (Option.mem_def.mpr h)
  obtain ⟨q, hq, hc⟩ := List.mem_filterMap.mp hc
  split at hc
  · cases hc
  · rename_i p hp
    split at hc
    · rename_i hcond
      cases hc
      exact ⟨hq, hp, hcond.1⟩
    · cases hc

theorem tryMatch_promise (d : Draw) (me : Uuid) :
    Matching d db me (tryMatch cfg db d me).1 (tryMatch cfg db d me).2 := by
  rw [tryMatch]
  split
  · rename_i existing h
    exact .already h
  · rename_i hactive
    split
    · exact .refused _
    · rename_i player hme
      have hwait : ∀ q ∈ (db.refreshQueue cfg d.now me).queue,
          q.playerId = me ∨ db.Queued q.playerId :=
        fun q hq ↦ Db.queued_refreshQueue ⟨q, hq, rfl⟩
      dsimp only
      split
      · exact .waiting hactive hwait
      · rename_i partner hclaim
        obtain ⟨hq, hp, hne⟩ := claimPartner_mem hclaim
        rw [Db.findPlayer_id hme] at hne
        have hpartner : (db.findPlayer partner.row.playerId).isSome := by
          rw [show db.findPlayer partner.row.playerId = some partner.player from hp]
          rfl
        split
        · exact .waiting hactive hwait
        · exact Db.insertPair_refreshQueue hactive (by rw [hme]; rfl) hpartner hne hq

theorem acceptAudio_promise (h : db.Tidy) (turnId : Uuid) (path : AudioPath) (durationS : ℚ) :
    Updated db turnId
      (fun t t' ↦ t.status = .awaitingAudio ∧ t' = t.accepted path (numeric52 durationS))
      (acceptAudio db turnId path durationS).1 (acceptAudio db turnId path durationS).2 := by
  rw [acceptAudio]
  split
  · exact .inl (refused _)
  · rename_i t ht
    split_ifs with hs
    · exact .inl (refused _)
    · exact .inl (refused _)
    · exact h.updated (·.accepted path (numeric52 durationS)) ht rfl ⟨not_not.mp hs, rfl⟩

theorem confirmLabel_promise (h : db.Tidy) (turnId : Uuid) :
    Updated db turnId (fun t t' ↦ t.status = .awaitingLabelConfirm ∧ t' = t.labelled)
      (confirmLabel db turnId).1 (confirmLabel db turnId).2 := by
  rw [confirmLabel]
  split
  · exact .inl (refused _)
  · rename_i t ht
    split_ifs with hs
    · exact .inl (refused _)
    · exact h.updated TurnRecord.labelled ht rfl ⟨not_not.mp hs, rfl⟩

theorem applyGuess_promise (h : db.Tidy) (turnId : Uuid) (correct : Bool) :
    Updated db turnId (fun t t' ↦ t.status = .awaitingGuess ∧ t.Guessed cfg correct t')
      (applyGuess cfg db turnId correct).1 (applyGuess cfg db turnId correct).2 := by
  rw [applyGuess]
  split
  · exact .inl (refused _)
  · rename_i t ht
    split
    · exact .inl (refused _)
    · rename_i hs
      rw [not_not] at hs
      dsimp only
      split
      · exact .inl (refused _)
      · refine h.updated (fun t' ↦ { t' with
          attempts := t.attempts + 1
          status := _
          outcome := _ }) ht rfl ⟨hs, ?_⟩
        cases correct with
        | true => exact .right
        | false =>
          simp only [Bool.false_eq_true, if_false]
          split
          · rename_i hmax
            exact .last hmax
          · rename_i hmax
            have hagain : ({ t with
                attempts := t.attempts + 1
                status := .awaitingGuess
                outcome := .pending } : TurnRecord) = { t with attempts := t.attempts + 1 } := by
              rw [← hs, ← h.pending_of_awaitingGuess ht hs]
            rw [hagain]
            exact .again (not_le.mp hmax)

theorem completePairIfCapped_promise (h : db.Tidy) (pairId : Uuid) (roundsCap : ℤ) :
    Completion db pairId roundsCap (completePairIfCapped db pairId roundsCap).1
      (completePairIfCapped db pairId roundsCap).2 := by
  rw [completePairIfCapped]
  split
  · rename_i hp
    exact .below fun pair hpair ↦ by rw [hp] at hpair; cases hpair
  · rename_i pair hp
    split
    · rename_i hcond
      obtain ⟨pl, -, hpl⟩ := List.any_eq_true.mp hcond.2
      rw [Bool.and_eq_true, PairRecord.hasMember_iff, decide_eq_true_iff] at hpl
      exact .capped hp hpl.1 hpl.2
    · rename_i hcond
      refine .below fun pair' hpair' hactive p hmem ↦ ?_
      rw [hp] at hpair'
      cases hpair'
      obtain ⟨ha, hb⟩ := h.members pair ((Db.findPair_eq_some h.pairIds).mp hp).1
      have hsome : (db.findPlayer p).isSome := by
        rcases hmem with rfl | rfl
        · exact ha
        · exact hb
      obtain ⟨pl, hpl⟩ := Option.isSome_iff_exists.mp hsome
      by_contra hle
      refine hcond ⟨hactive, List.any_eq_true.mpr ⟨pl, List.mem_of_find?_eq_some hpl, ?_⟩⟩
      rw [Bool.and_eq_true, PairRecord.hasMember_iff, decide_eq_true_iff, Db.findPlayer_id hpl]
      exact ⟨hmem, not_lt.mp hle⟩

/-- **The Postgres store keeps the promise.** -/
theorem promise (h : db.Tidy) (d : Draw) {β : Type} (op : GameStoreOp β) :
    op.Promise cfg numeric52 d db (exec cfg d op db).1 (exec cfg d op db).2 := by
  cases op with
  | playerStats p =>
    refine ⟨rfl, fun s hs ↦ ?_⟩
    cases hs
    rw [playerStats]
    cases db.findPlayer p <;> rfl
  | getActivePair p => exact ⟨rfl, rfl⟩
  | enqueuePlayer p =>
    simp only [exec, enqueuePlayer]
    split
    · exact .inl (refused _)
    · exact .inr ⟨rfl, rfl⟩
  | tryMatch p => exact tryMatch_promise d p
  | createTurn pairId speakerId guesserId cardId =>
    simp only [exec, createTurn]
    split_ifs
    iterate 5 exact .inl (refused _)
    exact .inr ⟨rfl, rfl⟩
  | pickCardForPair pairId => exact ⟨rfl, rfl⟩
  | getTurn turnId => exact ⟨rfl, rfl⟩
  | getLatestTurn pairId => exact ⟨rfl, rfl⟩
  | acceptAudio turnId path durationS => exact acceptAudio_promise h turnId path durationS
  | enqueueJob kind turnId => exact ⟨rfl, rfl⟩
  | confirmLabel turnId => exact confirmLabel_promise h turnId
  | applyGuess turnId correct => exact applyGuess_promise h turnId correct
  | completePairIfCapped pairId roundsCap => exact completePairIfCapped_promise h pairId roundsCap

end Postgres

namespace Memory

variable {cfg : GameFeatureConfig} {db : Db}

theorem claimPartner_mem {now : Time} {me : PlayerRecord} {row : QueueRow} {other : PlayerRecord}
    (h : claimPartner cfg db now me = some (row, other)) :
    row ∈ db.queue ∧ db.findPlayer row.playerId = some other ∧ row.playerId ≠ me.id ∧
      compatible me other = true := by
  obtain ⟨q, hq, hsome⟩ := List.exists_of_findSome?_eq_some h
  rw [candidates, List.mem_insertionSort, List.mem_filter, Bool.and_eq_true, bne_iff_ne] at hq
  split at hsome
  · cases hsome
  · rename_i p hp
    split at hsome
    · rename_i hcond
      cases hsome
      rw [Bool.and_eq_true] at hcond
      exact ⟨hq.1, hp, hq.2.1, hcond.1⟩
    · cases hsome

/-- Compatible players share a language, so one can be chosen. -/
theorem pickCommonLang_of_compatible {me other : PlayerRecord} (h : compatible me other = true)
    (preferred : Text) : pickCommonLang (sharedWith me other) preferred ≠ none := by
  rw [compatible, Bool.and_eq_true, bne_iff_ne, bne_iff_ne] at h
  exact Option.isSome_iff_ne_none.mp (pickCommonLang_isSome preferred h.2)

theorem tryMatch_promise (d : Draw) (me : Uuid) :
    Matching d db me (tryMatch cfg db d me).1 (tryMatch cfg db d me).2 := by
  rw [tryMatch]
  split
  · rename_i existing h
    exact .already h
  · rename_i hactive
    split
    · exact .refused _
    · rename_i player hme
      dsimp only
      split
      · exact .waiting hactive fun q hq ↦ Db.queued_refreshQueue ⟨q, hq, rfl⟩
      · rename_i row other hclaim
        obtain ⟨hq, hp, hne, hcompat⟩ := claimPartner_mem hclaim
        rw [Db.findPlayer_id hme] at hne
        have hpartner : (db.findPlayer row.playerId).isSome := by
          rw [show db.findPlayer row.playerId = some other from hp]
          rfl
        split
        · rename_i hlang
          exact absurd hlang (pickCommonLang_of_compatible hcompat _)
        · exact Db.insertPair_refreshQueue hactive (by rw [hme]; rfl) hpartner hne hq

theorem acceptAudio_promise (h : db.Tidy) (turnId : Uuid) (path : AudioPath) (durationS : ℚ) :
    Updated db turnId
      (fun t t' ↦ t.status = .awaitingAudio ∧ t' = t.accepted path (id durationS))
      (acceptAudio db turnId path durationS).1 (acceptAudio db turnId path durationS).2 := by
  rw [acceptAudio]
  split
  · exact .inl (refused _)
  · rename_i t ht
    split_ifs with hs
    · exact .inl (refused _)
    · exact h.updated (·.accepted path durationS) ht rfl ⟨not_not.mp hs, rfl⟩

theorem confirmLabel_promise (h : db.Tidy) (turnId : Uuid) :
    Updated db turnId (fun t t' ↦ t.status = .awaitingLabelConfirm ∧ t' = t.labelled)
      (confirmLabel db turnId).1 (confirmLabel db turnId).2 := by
  rw [confirmLabel]
  split
  · exact .inl (refused _)
  · rename_i t ht
    split_ifs with hs
    · exact .inl (refused _)
    · exact h.updated TurnRecord.labelled ht rfl ⟨not_not.mp hs, rfl⟩

theorem guessed_id (correct : Bool) (t : TurnRecord) : (guessed cfg correct t).id = t.id := by
  simp only [guessed]
  split_ifs <;> rfl

theorem guessed_promise (correct : Bool) (t : TurnRecord) :
    t.Guessed cfg correct (guessed cfg correct t) := by
  cases correct with
  | true => exact .right
  | false =>
    simp only [guessed, Bool.false_eq_true, if_false]
    split
    · rename_i hmax
      exact .last hmax
    · rename_i hmax
      exact .again (not_le.mp hmax)

theorem applyGuess_promise (h : db.Tidy) (turnId : Uuid) (correct : Bool) :
    Updated db turnId (fun t t' ↦ t.status = .awaitingGuess ∧ t.Guessed cfg correct t')
      (applyGuess cfg db turnId correct).1 (applyGuess cfg db turnId correct).2 := by
  rw [applyGuess]
  split
  · exact .inl (refused _)
  · rename_i t ht
    split_ifs with hs
    · exact .inl (refused _)
    · exact h.updated (guessed cfg correct) ht (guessed_id correct t)
        ⟨not_not.mp hs, guessed_promise correct t⟩

theorem playerStats_roundsPlayed {p : Uuid} {s : PlayerStats} (h : playerStats cfg db p = .ok s) :
    (db.findPlayer p).isSome ∧ s.roundsPlayed = db.roundsPlayed p := by
  rw [playerStats] at h
  split at h
  · cases h
  · rename_i me hme
    cases h
    exact ⟨by rw [hme]; rfl, rfl⟩

theorem completePairIfCapped_promise (pairId : Uuid) (roundsCap : ℤ) :
    Completion db pairId roundsCap (completePairIfCapped cfg db pairId roundsCap).1
      (completePairIfCapped cfg db pairId roundsCap).2 := by
  rw [completePairIfCapped]
  split
  · exact .refused _
  · rename_i pair hp
    split
    · exact .refused _
    · rename_i a ha
      rw [(playerStats_roundsPlayed ha).2]
      split
      · rename_i hcap
        exact .capped hp (.inl rfl) hcap
      · rename_i hcapA
        split
        · exact .refused _
        · rename_i b hb
          rw [(playerStats_roundsPlayed hb).2]
          split
          · rename_i hcap
            exact .capped hp (.inr rfl) hcap
          · rename_i hcapB
            refine .below fun pair' hpair' _ p hmem ↦ ?_
            rw [hp] at hpair'
            cases hpair'
            rcases hmem with rfl | rfl
            · exact not_le.mp hcapA
            · exact not_le.mp hcapB

/-- **The in-memory store keeps the promise.** -/
theorem promise (h : db.Tidy) (d : Draw) {β : Type} (op : GameStoreOp β) :
    op.Promise cfg id d db (exec cfg d op db).1 (exec cfg d op db).2 := by
  cases op with
  | playerStats p =>
    refine ⟨rfl, fun s hs ↦ ?_⟩
    obtain ⟨hp, hr⟩ := playerStats_roundsPlayed hs
    rw [if_pos hp, hr]
  | getActivePair p => exact ⟨rfl, rfl⟩
  | enqueuePlayer p => exact .inr ⟨rfl, rfl⟩
  | tryMatch p => exact tryMatch_promise d p
  | createTurn pairId speakerId guesserId cardId => exact .inr ⟨rfl, rfl⟩
  | pickCardForPair pairId => exact ⟨rfl, rfl⟩
  | getTurn turnId => exact ⟨rfl, rfl⟩
  | getLatestTurn pairId => exact ⟨rfl, rfl⟩
  | acceptAudio turnId path durationS => exact acceptAudio_promise h turnId path durationS
  | enqueueJob kind turnId => exact ⟨rfl, rfl⟩
  | confirmLabel turnId => exact confirmLabel_promise h turnId
  | applyGuess turnId correct => exact applyGuess_promise h turnId correct
  | completePairIfCapped pairId roundsCap => exact completePairIfCapped_promise pairId roundsCap

end Memory

/-! ## What cannot fail -/

/-- Completing a pair that is there always answers. -/
theorem Postgres.completePairIfCapped_ok (db : Db) (pairId : Uuid) (roundsCap : ℤ) :
    ∃ capped, (Postgres.completePairIfCapped db pairId roundsCap).1 = .ok capped := by
  rw [Postgres.completePairIfCapped]
  split
  · exact ⟨_, rfl⟩
  · split <;> exact ⟨_, rfl⟩

theorem Memory.playerStats_ok (cfg : GameFeatureConfig) {db : Db} {p : Uuid}
    (h : (db.findPlayer p).isSome) : ∃ stats, Memory.playerStats cfg db p = .ok stats := by
  obtain ⟨player, hp⟩ := Option.isSome_iff_exists.mp h
  rw [Memory.playerStats, hp]
  exact ⟨_, rfl⟩

theorem Memory.completePairIfCapped_ok (cfg : GameFeatureConfig) {db : Db} (h : db.Tidy)
    {pair : PairRecord} (hp : pair ∈ db.pairs) (roundsCap : ℤ) :
    ∃ capped, (Memory.completePairIfCapped cfg db pair.id roundsCap).1 = .ok capped := by
  obtain ⟨a, ha⟩ := Memory.playerStats_ok cfg (h.members pair hp).1
  obtain ⟨b, hb⟩ := Memory.playerStats_ok cfg (h.members pair hp).2
  rw [Memory.completePairIfCapped, (Db.findPair_eq_some h.pairIds).mpr ⟨hp, rfl⟩]
  dsimp only
  rw [ha]
  dsimp only
  split
  · exact ⟨_, rfl⟩
  · rw [hb]
    dsimp only
    split <;> exact ⟨_, rfl⟩

/-- `create_turn` meets every constraint of the table when its arguments do. -/
theorem Postgres.createTurn_ok {db : Db} (d : Draw) {pairId speakerId guesserId cardId : Uuid}
    (hpair : (db.findPair pairId).isSome) (hspeaker : (db.findPlayer speakerId).isSome)
    (hguesser : (db.findPlayer guesserId).isSome) (hcard : ∃ card ∈ db.cards, card.id = cardId)
    (hne : speakerId ≠ guesserId) :
    ∃ t, (Postgres.createTurn db d pairId speakerId guesserId cardId).1 = .ok t := by
  have hany : (db.cards.any fun c ↦ c.id == cardId) = true := by
    obtain ⟨card, hmem, hid⟩ := hcard
    exact List.any_eq_true.mpr ⟨card, hmem, beq_iff_eq.mpr hid⟩
  have hsome : ∀ {α : Type} {o : Option α}, o.isSome = true → ¬o.isNone = true := by
    intro α o ho hn
    rw [Option.isNone_iff_eq_none.mp hn] at ho
    cases ho
  rw [Postgres.createTurn, if_neg (hsome hpair), if_neg (hsome hspeaker), if_neg (hsome hguesser),
    hany, Bool.not_true, if_neg Bool.false_ne_true, if_neg hne]
  exact ⟨_, rfl⟩

end Neva
