import Neva.Game.StoreContract
import Neva.Venue

/-!
# Deeds

What the programs of the venue do, seen from outside.  A `Deed` is a call together with its answer,
with everything forgotten but what the results about the venue speak of; the `story` of a run is
the list of the deeds done in it.

`Did` is the abstract model: it says what a deed does to the tables and the files, without saying
how either store, or the worker, computes it.  `VenueOp.did` is the proof that the venue refines
it — every step of every call is a deed of the abstract model — and `tidy_of_reach` is the first
invariant that follows: a venue that opened tidy stays tidy, whatever is asked of it.
-/

set_option autoImplicit false

namespace Neva

open Calls Tables

/-- What a call did. -/
inductive Deed
  /-- The player was put in the queue. -/
  | queued (p : Uuid)
  /-- `try_match` answered. -/
  | matched (pair : Option PairRecord)
  /-- `create_turn` made the turn. -/
  | created (t : TurnRecord)
  /-- `pick_card_for_pair` answered. -/
  | picked (card : Option CardRecord)
  /-- The upload of the turn was written, and kept if it was good. -/
  | saved (turnId : Uuid) (payload : Bytes) (good : Bool)
  /-- `accept_audio` moved the turn on. -/
  | accepted (t : TurnRecord)
  /-- `apply_guess` made this of the turn. -/
  | guessed (t : TurnRecord)
  /-- `enqueue_job` returned. -/
  | enqueued (kind : JobKind) (turnId : Uuid)
  /-- `persist_triage` committed. -/
  | triaged (turnId : Uuid)
  | other

/-- The deed of a call that has answered. -/
def deed : {β : Type} → VenueOp β → Except Failure β → Deed
  | _, .store (.enqueuePlayer p), .ok _ => .queued p
  | _, .store (.tryMatch _), .ok pair => .matched pair
  | _, .store (.createTurn _ _ _ _), .ok t => .created t
  | _, .store (.pickCardForPair _), .ok card => .picked card
  | _, .site (.saveAudio turnId payload), .ok result => .saved turnId payload result.accepted
  | _, .store (.acceptAudio _ _ _), .ok t => .accepted t
  | _, .store (.applyGuess _ _), .ok t => .guessed t
  | _, .store (.enqueueJob kind turnId), .ok _ => .enqueued kind turnId
  | _, .site (.persistTriage turnId _ _), .ok _ => .triaged turnId
  | _, _, _ => .other

/-- The deeds done so far, newest first, each with the number of the program that did it. -/
abbrev Story := List (ℕ × Deed)

def story (trace : List (ℕ × Past VenueOp Failure)) : Story :=
  trace.map fun x ↦ (x.1, deed x.2.op x.2.answer)

/-- **What a deed does to the venue.** -/
inductive Did (su : Setup) (d : Draw) (v : Venue) : Deed → Venue → Prop
  /-- Reads and refusals, and the decks. -/
  | quiet {db : Db} (hplayers : db.players = v.db.players) (hqueue : db.queue = v.db.queue)
      (hpairs : db.pairs = v.db.pairs) (hcards : db.cards = v.db.cards)
      (hturns : db.turns = v.db.turns) (hjobs : db.jobs = v.db.jobs) :
      Did su d v .other { v with db := db }
  | queued (p : Uuid) : Did su d v (.queued p) { v with db := v.db.upsertQueue p d.now }
  | already {me : Uuid} {pair : PairRecord} (h : v.db.activePair me = some pair) :
      Did su d v (.matched (some pair)) v
  | waiting {me : Uuid} {queue : List QueueRow} (h : v.db.activePair me = none)
      (hq : ∀ q ∈ queue, q.playerId = me ∨ v.db.Queued q.playerId) :
      Did su d v (.matched none) { v with db := { v.db with queue := queue } }
  | paired {a b : Uuid} {lang : Text} {queue : List QueueRow}
      (hactive : v.db.activePairs a = [] ∨ v.db.Queued a)
      (hactive' : v.db.activePairs b = [] ∨ v.db.Queued b) (hne : a ≠ b)
      (ha : (v.db.findPlayer a).isSome) (hb : (v.db.findPlayer b).isSome)
      (hq : ∀ q ∈ queue, q.playerId ≠ a ∧ q.playerId ≠ b ∧ v.db.Queued q.playerId) :
      Did su d v (.matched (some ⟨d.uuid, a, b, lang, .active, d.now⟩)) { v with db := { v.db with
        queue := queue
        pairs := v.db.pairs ++ [⟨d.uuid, a, b, lang, .active, d.now⟩]
        turns := v.db.turns ++ ((v.db.pickCard d.uuid d.rand).map fun card ↦
          TurnRecord.initial d.uuid' d.uuid a b card.id d.now).toList } }
  | created (pairId speakerId guesserId cardId : Uuid) :
      Did su d v (.created (TurnRecord.initial d.uuid pairId speakerId guesserId cardId d.now))
        { v with db := { v.db with turns := v.db.turns ++
          [TurnRecord.initial d.uuid pairId speakerId guesserId cardId d.now] } }
  | picked (pairId : Uuid) : Did su d v (.picked (v.db.pickCard pairId d.rand)) v
  | saved (turnId : Uuid) (payload : Bytes) : Did su d v
      (.saved turnId payload (su.check d payload).accepted) { v with
        files := Function.update v.files (.webm turnId)
          (if (su.check d payload).accepted then some payload else none) }
  | accepted {t : TurnRecord} (path : AudioPath) (durationS : ℚ) (ht : t ∈ v.db.turns)
      (hs : t.status = .awaitingAudio) :
      Did su d v (.accepted (t.accepted path (su.backend.keepDuration durationS)))
        { v with db := v.db.putTurn (t.accepted path (su.backend.keepDuration durationS)) }
  | labelled {t : TurnRecord} (ht : t ∈ v.db.turns) (hs : t.status = .awaitingLabelConfirm) :
      Did su d v .other { v with db := v.db.putTurn t.labelled }
  | guessed {t t' : TurnRecord} {correct : Bool} (ht : t ∈ v.db.turns)
      (hs : t.status = .awaitingGuess) (hg : t.Guessed su.cfg correct t') :
      Did su d v (.guessed t') { v with db := v.db.putTurn t' }
  | enqueued (kind : JobKind) (turnId : Uuid) : Did su d v (.enqueued kind turnId)
      { v with db := v.db.insertJob kind turnId d.uuid d.now }
  | completed {pairId p : Uuid} {roundsCap : ℤ} {pair : PairRecord}
      (h : v.db.findPair pairId = some pair) (hp : pair.playerA = p ∨ pair.playerB = p)
      (hcap : roundsCap ≤ v.db.roundsPlayed p) :
      Did su d v .other { v with db := v.db.setPairStatus pairId .completed }
  /-- The result is stored, and the package job inserted if the turn has been scored. -/
  | triaged {t : TurnRecord} {quality : Quality} {db : Db} (ht : t ∈ v.db.turns)
      (hplayers : db.players = v.db.players) (hqueue : db.queue = v.db.queue)
      (hpairs : db.pairs = v.db.pairs) (hcards : db.cards = v.db.cards)
      (hturns : db.turns = (v.db.putTurn (t.triaged (.flac t.id) quality)).turns)
      (hjobs : db.jobs = if t.status = .scored then (v.db.insertJob .package t.id d.uuid d.now).jobs
        else v.db.jobs) :
      Did su d v (.triaged t.id) { v with db := db }
  /-- There is no such turn, and nothing to store. -/
  | untriaged {turnId : Uuid} (h : v.db.findTurn turnId = none) : Did su d v (.triaged turnId) v

/-! ## The venue refines the abstract model -/

theorem Backend.promise (b : Backend) (cfg : GameFeatureConfig) {db : Db} (h : db.Tidy) (d : Draw)
    {β : Type} (op : GameStoreOp β) :
    op.Promise cfg b.keepDuration d db (b.exec cfg d op db).1 (b.exec cfg d op db).2 := by
  cases b with
  | postgres => exact Postgres.promise h d op
  | memory => exact Memory.promise h d op

theorem Backend.completePairIfCapped_ok (b : Backend) (cfg : GameFeatureConfig) {db : Db}
    (h : db.Tidy) (d : Draw) {pair : PairRecord} (hp : pair ∈ db.pairs) (roundsCap : ℤ) :
    ∃ capped, (b.exec cfg d (.completePairIfCapped pair.id roundsCap) db).1 = .ok capped := by
  cases b with
  | postgres => exact Postgres.completePairIfCapped_ok db pair.id roundsCap
  | memory => exact Memory.completePairIfCapped_ok cfg h hp roundsCap

theorem Backend.createTurn_ok (b : Backend) (cfg : GameFeatureConfig) {db : Db} (d : Draw)
    {pairId speakerId guesserId cardId : Uuid} (hpair : (db.findPair pairId).isSome)
    (hspeaker : (db.findPlayer speakerId).isSome) (hguesser : (db.findPlayer guesserId).isSome)
    (hcard : ∃ card ∈ db.cards, card.id = cardId) (hne : speakerId ≠ guesserId) :
    ∃ t, (b.exec cfg d (.createTurn pairId speakerId guesserId cardId) db).1 = .ok t := by
  cases b with
  | postgres => exact Postgres.createTurn_ok d hpair hspeaker hguesser hcard hne
  | memory => exact ⟨_, rfl⟩

/-- A call that changes nothing. -/
theorem Did.nothing {su : Setup} {d : Draw} {v : Venue} : Did su d v .other v :=
  .quiet (Eq.refl _) (Eq.refl _) (Eq.refl _) (Eq.refl _) (Eq.refl _) (Eq.refl _)

theorem GameStoreOp.did (su : Setup) (d : Draw) {v : Venue} {β : Type}
    (op : GameStoreOp β) {r : Except Failure β} {db : Db}
    (hop : op.Promise su.cfg su.backend.keepDuration d v.db r db) :
    Did su d v (deed (.store op) r) { v with db := db } := by
  cases op with
  | playerStats p =>
    obtain ⟨rfl, -⟩ := hop
    exact .nothing
  | getActivePair p =>
    obtain ⟨rfl, -⟩ := hop
    exact .nothing
  | enqueuePlayer p =>
    rcases hop with ⟨⟨e, rfl⟩, rfl⟩ | ⟨rfl, rfl⟩
    · exact .nothing
    · exact .queued p
  | tryMatch p =>
    cases hop with
    | refused e => exact .nothing
    | already hactive => exact .already hactive
    | waiting hactive hq => exact .waiting hactive hq
    | paired hactive hne hme hpartner hqueued hab hq =>
      have hnone := Db.activePair_eq_none.mp hactive
      rcases hab with ⟨rfl, rfl⟩ | ⟨rfl, rfl⟩
      · exact .paired (.inl hnone) (.inr hqueued) hne.symm hme hpartner hq
      · exact .paired (.inr hqueued) (.inl hnone) hne hpartner hme
          fun q hmem ↦ ⟨(hq q hmem).2.1, (hq q hmem).1, (hq q hmem).2.2⟩
  | createTurn pairId speakerId guesserId cardId =>
    rcases hop with ⟨⟨e, rfl⟩, rfl⟩ | ⟨rfl, rfl⟩
    · exact .nothing
    · exact .created pairId speakerId guesserId cardId
  | pickCardForPair pairId =>
    obtain ⟨rfl, rfl⟩ := hop
    exact .picked pairId
  | getTurn turnId =>
    obtain ⟨rfl, -⟩ := hop
    exact .nothing
  | getLatestTurn pairId =>
    obtain ⟨rfl, -⟩ := hop
    exact .nothing
  | acceptAudio turnId path durationS =>
    rcases hop with ⟨⟨e, rfl⟩, rfl⟩ | ⟨t, t', ht, -, ⟨hs, rfl⟩, rfl, rfl⟩
    · exact .nothing
    · exact .accepted path durationS ht hs
  | enqueueJob kind turnId =>
    obtain ⟨rfl, rfl⟩ := hop
    exact .enqueued kind turnId
  | confirmLabel turnId =>
    rcases hop with ⟨⟨e, rfl⟩, rfl⟩ | ⟨t, t', ht, -, ⟨hs, rfl⟩, rfl, rfl⟩
    · exact .nothing
    · exact .labelled ht hs
  | applyGuess turnId correct =>
    rcases hop with ⟨⟨e, rfl⟩, rfl⟩ | ⟨t, t', ht, -, ⟨hs, hg⟩, rfl, rfl⟩
    · exact .nothing
    · exact .guessed ht hs hg
  | completePairIfCapped pairId roundsCap =>
    cases hop with
    | refused e => exact .nothing
    | capped hpair hp hcap => exact .completed hpair hp hcap
    | below hbelow => exact .nothing

/-- Storing the quality of a turn that is there. -/
theorem Repository.storeQuality_eq {db : Db} (h : Unique TurnRecord.id db.turns) {t : TurnRecord}
    (ht : t ∈ db.turns) (d : Draw) (flacPath : AudioPath) (quality : Quality) :
    storeQuality db d t.id flacPath quality =
      if t.status = .scored then
        (db.putTurn (t.triaged flacPath quality)).insertJob .package t.id d.uuid d.now
      else db.putTurn (t.triaged flacPath quality) := by
  have hfind := (Db.findTurn_eq_some h).mpr ⟨ht, rfl⟩
  have hid : (t.triaged flacPath quality).id = t.id := rfl
  have hput := Db.updateTurn_eq_putTurn h hfind (·.triaged flacPath quality) hid
  have hfound : (db.putTurn (t.triaged flacPath quality)).findTurn t.id =
      some (t.triaged flacPath quality) :=
    (Db.findTurn_eq_some (h.put _)).mpr
      ⟨(Db.mem_putTurn ht hid).mpr (.inl rfl), hid⟩
  rw [storeQuality, hput, hfound]
  refine if_congr ?_ rfl rfl
  exact and_iff_left rfl

/-- Storing the quality of a turn that is not there. -/
theorem Repository.storeQuality_eq_self {db : Db} {turnId : Uuid} (h : db.findTurn turnId = none)
    (d : Draw) (flacPath : AudioPath) (quality : Quality) :
    storeQuality db d turnId flacPath quality = db := by
  rw [storeQuality, Db.updateTurn_eq_self h, h]

/-- Registering a fingerprint touches no other table. -/
theorem Repository.registerSpeakerFingerprint_eq {limits : GauntletLimits} {db db' : Db}
    {speakerId turnId : Uuid} {fp : AcousticFingerprint} {owned : Bool}
    (h : registerSpeakerFingerprint limits db speakerId fp turnId = .ok (owned, db')) :
    db' = { db with fingerprints := db'.fingerprints } := by
  have htable : ∀ x, registerFingerprintTable db speakerId fp turnId = x →
      x.2 = { db with fingerprints := x.2.fingerprints } := by
    rintro x rfl
    rw [registerFingerprintTable]
    split <;> rfl
  rw [registerSpeakerFingerprint] at h
  generalize registerFingerprintTable db speakerId fp turnId = x at h htable
  have hx := htable x rfl
  dsimp only at h
  split at h
  · cases h
    exact hx
  · split at h
    · cases h
    · cases h
      exact hx
    · cases h
      rw [hx]

/-- A stored quality is a deed. -/
theorem Repository.storeQuality_did (su : Setup) (d : Draw) {v : Venue} (h : v.db.Tidy)
    {t : TurnRecord} (ht : t ∈ v.db.turns) {db : Db}
    (hdb : db = { v.db with fingerprints := db.fingerprints }) (quality : Quality) :
    Did su d v (.triaged t.id)
      { v with db := (storeQuality db d t.id (.flac t.id) quality) } := by
  have hturns : db.turns = v.db.turns := by rw [hdb]
  rw [storeQuality_eq (hturns ▸ h.turnIds) (hturns ▸ ht)]
  have hput : (db.putTurn (t.triaged (.flac t.id) quality)).turns =
      (v.db.putTurn (t.triaged (.flac t.id) quality)).turns := by
    rw [Db.putTurn_turns, Db.putTurn_turns, hturns]
  split
  · rename_i hs
    refine @Did.triaged su d v t quality _ ht ?_ ?_ ?_ ?_ ?_ ?_
    · rw [Db.insertJob_players, Db.putTurn_players, hdb]
    · rw [Db.insertJob_queue, Db.putTurn_queue, hdb]
    · rw [Db.insertJob_pairs, Db.putTurn_pairs, hdb]
    · rw [Db.insertJob_cards, Db.putTurn_cards, hdb]
    · rw [Db.insertJob_turns, hput]
    · rw [if_pos hs, Db.insertJob_jobs, Db.insertJob_jobs, hdb]
      rfl
  · rename_i hs
    refine .triaged ht ?_ ?_ ?_ ?_ hput ?_
    · rw [Db.putTurn_players, hdb]
    · rw [Db.putTurn_queue, hdb]
    · rw [Db.putTurn_pairs, hdb]
    · rw [Db.putTurn_cards, hdb]
    · rw [if_neg hs, Db.putTurn_jobs, hdb]

theorem Repository.persistTriage_did (su : Setup) (d : Draw) {v : Venue} (h : v.db.Tidy)
    (turnId : Uuid) (quality : Quality) (ownership : Option (Uuid × AcousticFingerprint)) :
    Did su d v (deed (.site (.persistTriage turnId quality ownership))
      (persistTriage su.limits v.db d turnId (.flac turnId) quality ownership).1)
      { v with
        db := (persistTriage su.limits v.db d turnId (.flac turnId) quality ownership).2 } := by
  rcases ownership with _ | ⟨speakerId, fp⟩
  · rw [persistTriage]
    cases hfind : v.db.findTurn turnId with
    | none =>
      rw [storeQuality_eq_self hfind]
      exact .untriaged hfind
    | some t =>
      obtain ⟨ht, rfl⟩ := (Db.findTurn_eq_some h.turnIds).mp hfind
      exact storeQuality_did su d h ht rfl quality
  · rw [persistTriage]
    cases hfind : v.db.findTurn turnId with
    | none => exact .nothing
    | some t =>
      obtain ⟨ht, rfl⟩ := (Db.findTurn_eq_some h.turnIds).mp hfind
      dsimp only
      rw [if_neg (by simp)]
      split
      · exact .nothing
      · rename_i owned db hreg
        exact storeQuality_did su d h ht (registerSpeakerFingerprint_eq hreg) _

/-- **Every step of every call is a deed of the abstract model.** -/
theorem VenueOp.did (su : Setup) (d : Draw) {v : Venue} (h : v.db.Tidy) {β : Type}
    (op : VenueOp β) : Did su d v (deed op (op.exec su d v).1) (op.exec su d v).2 := by
  cases op with
  | store op => exact op.did su d (su.backend.promise su.cfg h d op)
  | site op =>
    cases op with
    | saveAudio turnId payload => exact .saved turnId payload
    | getTurnContext turnId => exact .nothing
    | persistTriage turnId quality ownership =>
      exact Repository.persistTriage_did su d h turnId quality ownership
    | setDeckStatus deckId status => exact .quiet rfl rfl rfl rfl rfl rfl

/-! ## A tidy venue stays tidy -/

/-- The identifiers a step is handed are not in use. -/
structure Draw.New (d : Draw) (db : Db) : Prop where
  pair : ∀ pair ∈ db.pairs, pair.id ≠ d.uuid
  turn : ∀ t ∈ db.turns, t.id ≠ d.uuid
  turn' : ∀ t ∈ db.turns, t.id ≠ d.uuid'

theorem Db.fresh_iff {db : Db} {u : Uuid} : db.fresh u = true ↔
    (∀ r ∈ db.players, r.id ≠ u) ∧ (∀ r ∈ db.pairs, r.id ≠ u) ∧ (∀ r ∈ db.turns, r.id ≠ u) ∧
      ∀ r ∈ db.jobs, r.id ≠ u := by
  simp only [fresh, Bool.and_eq_true, List.all_eq_true, bne_iff_ne, and_assoc]

theorem new_of_admits {su : Setup} {d : Draw} {v : Venue} (h : (venue su).admits d v = true) :
    d.New v.db := by
  have h' :
      ((v.db.fresh d.uuid = true) ∧ v.db.fresh d.uuid' = true) ∧ (d.uuid != d.uuid') = true := by
    rw [← Bool.and_eq_true, ← Bool.and_eq_true]
    exact h
  obtain ⟨-, hpair, hturn, -⟩ := Db.fresh_iff.mp h'.1.1
  exact ⟨hpair, hturn, (Db.fresh_iff.mp h'.1.2).2.2.1⟩

theorem TurnRecord.Tidy.initial (id pairId speakerId guesserId cardId : Uuid) (now : Time) :
    (TurnRecord.initial id pairId speakerId guesserId cardId now).Tidy :=
  ⟨⟨fun _ ↦ nofun, fun _ ↦ rfl⟩, nofun, ⟨fun _ ↦ rfl, fun _ ↦ rfl⟩⟩

theorem TurnRecord.Tidy.accepted {t : TurnRecord} (h : t.Tidy) (hs : t.status = .awaitingAudio)
    (path : AudioPath) (durationS : ℚ) : (t.accepted path durationS).Tidy where
  pending := by
    have hp := h.pending.mpr (by rw [hs]; exact nofun)
    exact ⟨fun _ ↦ nofun, fun _ ↦ hp⟩
  notWrong := h.notWrong
  audio := ⟨nofun, nofun⟩

theorem TurnRecord.Tidy.labelled {t : TurnRecord} (h : t.Tidy)
    (hs : t.status = .awaitingLabelConfirm) : t.labelled.Tidy where
  pending := by
    have hp := h.pending.mpr (by rw [hs]; exact nofun)
    exact ⟨fun _ ↦ nofun, fun _ ↦ hp⟩
  notWrong := h.notWrong
  audio := by
    have ha : t.audioPath ≠ none := fun hn ↦ by
      rw [h.audio.mp hn] at hs
      cases hs
    exact ⟨fun hn ↦ absurd hn ha, nofun⟩

theorem TurnRecord.Tidy.guessed {cfg : GameFeatureConfig} {t t' : TurnRecord} {correct : Bool}
    (h : t.Tidy) (hs : t.status = .awaitingGuess) (hg : t.Guessed cfg correct t') : t'.Tidy := by
  have ha : t.audioPath ≠ none := fun hn ↦ by
    rw [h.audio.mp hn] at hs
    cases hs
  cases hg with
  | right => exact ⟨⟨nofun, fun hn ↦ absurd rfl hn⟩, nofun, ⟨fun hn ↦ absurd hn ha, nofun⟩⟩
  | last => exact ⟨⟨nofun, fun hn ↦ absurd rfl hn⟩, nofun, ⟨fun hn ↦ absurd hn ha, nofun⟩⟩
  | again => exact ⟨h.pending, h.notWrong, h.audio⟩

theorem TurnRecord.Guessed.id {cfg : GameFeatureConfig} {t t' : TurnRecord} {correct : Bool}
    (hg : t.Guessed cfg correct t') : t'.id = t.id := by
  cases hg <;> rfl

theorem TurnRecord.Guessed.quality {cfg : GameFeatureConfig} {t t' : TurnRecord} {correct : Bool}
    (hg : t.Guessed cfg correct t') : t'.quality = t.quality := by
  cases hg <;> rfl

namespace Db.Tidy

variable {db db' : Db}

/-- Only the tables the properties are about matter. -/
theorem congr (h : db.Tidy) (hplayers : db'.players = db.players) (hpairs : db'.pairs = db.pairs)
    (hturns : db'.turns = db.turns) (hjobs : db'.jobs = db.jobs) : db'.Tidy where
  playerIds := hplayers ▸ h.playerIds
  pairIds := hpairs ▸ h.pairIds
  turnIds := hturns ▸ h.turnIds
  jobKeys := hjobs ▸ h.jobKeys
  apart := hpairs ▸ h.apart
  members := by
    rw [hpairs]
    intro pair hpair
    rw [Db.findPlayer, Db.findPlayer, hplayers]
    exact h.members pair hpair
  turn := hturns ▸ h.turn

theorem appendTurn (h : db.Tidy) {t : TurnRecord} (ht : t.Tidy)
    (hid : ∀ t' ∈ db.turns, t'.id ≠ t.id) :
    Tidy { db with turns := db.turns ++ [t] } where
  playerIds := h.playerIds
  pairIds := h.pairIds
  turnIds := by
    refine h.turnIds.append fun hmem ↦ ?_
    obtain ⟨t', ht', hid'⟩ := List.mem_map.mp hmem
    exact hid t' ht' hid'
  jobKeys := h.jobKeys
  apart := h.apart
  members := h.members
  turn t' ht' := by
    rcases List.mem_append.mp ht' with ht' | ht'
    · exact h.turn t' ht'
    · rw [List.mem_singleton.mp ht']
      exact ht

theorem appendPair (h : db.Tidy) {pair : PairRecord} (hid : ∀ pair' ∈ db.pairs, pair'.id ≠ pair.id)
    (hne : pair.playerA ≠ pair.playerB) (ha : (db.findPlayer pair.playerA).isSome)
    (hb : (db.findPlayer pair.playerB).isSome) :
    Tidy { db with pairs := db.pairs ++ [pair] } where
  playerIds := h.playerIds
  pairIds := by
    refine h.pairIds.append fun hmem ↦ ?_
    obtain ⟨pair', hpair', hid'⟩ := List.mem_map.mp hmem
    exact hid pair' hpair' hid'
  turnIds := h.turnIds
  jobKeys := h.jobKeys
  apart pair' hpair' := by
    rcases List.mem_append.mp hpair' with hpair' | hpair'
    · exact h.apart pair' hpair'
    · rw [List.mem_singleton.mp hpair']
      exact hne
  members pair' hpair' := by
    rcases List.mem_append.mp hpair' with hpair' | hpair'
    · exact h.members pair' hpair'
    · rw [List.mem_singleton.mp hpair']
      exact ⟨ha, hb⟩
  turn := h.turn

theorem putTurn (h : db.Tidy) {t t' : TurnRecord} (ht : t ∈ db.turns) (hid : t'.id = t.id)
    (htidy : t'.Tidy) : (db.putTurn t').Tidy where
  playerIds := h.playerIds
  pairIds := h.pairIds
  turnIds := h.turnIds.put t'
  jobKeys := h.jobKeys
  apart := h.apart
  members := h.members
  turn x hx := by
    rcases (Db.mem_putTurn ht hid).mp hx with rfl | ⟨hx, -⟩
    · exact htidy
    · exact h.turn x hx

/-- `ON CONFLICT DO NOTHING` keeps the key of the jobs unique. -/
theorem insertJob (h : db.Tidy) (kind : JobKind) (turnId id : Uuid) (now : Time) :
    (db.insertJob kind turnId id now).Tidy := by
  rw [Db.insertJob]
  split
  · exact h
  · rename_i hnone
    refine ⟨h.playerIds, h.pairIds, h.turnIds, h.jobKeys.append fun hmem ↦ hnone ?_, h.apart,
      h.members, h.turn⟩
    obtain ⟨j, hj, hkey⟩ := List.mem_map.mp hmem
    cases hkey
    exact List.any_eq_true.mpr
      ⟨j, hj, by rw [Bool.and_eq_true]; exact ⟨beq_self_eq_true _, beq_self_eq_true _⟩⟩

theorem setPairStatus (h : db.Tidy) (pairId : Uuid) (status : PairStatus) :
    (db.setPairStatus pairId status).Tidy where
  playerIds := h.playerIds
  pairIds := by
    have hmap : (db.setPairStatus pairId status).pairs.map PairRecord.id =
        db.pairs.map PairRecord.id := by
      rw [Db.setPairStatus, List.map_map]
      refine List.map_congr_left fun pair _ ↦ ?_
      rw [Function.comp_apply]
      split <;> rfl
    rw [Tables.Unique, hmap]
    exact h.pairIds
  turnIds := h.turnIds
  jobKeys := h.jobKeys
  apart pair hpair := by
    obtain ⟨pair₀, hpair₀, rfl⟩ := List.mem_map.mp hpair
    split <;> exact h.apart pair₀ hpair₀
  members pair hpair := by
    obtain ⟨pair₀, hpair₀, rfl⟩ := List.mem_map.mp hpair
    split <;> exact h.members pair₀ hpair₀
  turn := h.turn

end Db.Tidy

theorem Did.tidy {su : Setup} {d : Draw} {v v' : Venue} {a : Deed} (hd : Did su d v a v')
    (h : v.db.Tidy) (hn : d.New v.db) : v'.db.Tidy := by
  cases hd with
  | quiet hplayers hqueue hpairs hcards hturns hjobs => exact h.congr hplayers hpairs hturns hjobs
  | queued p => exact h.congr rfl rfl rfl rfl
  | already hactive => exact h
  | waiting hactive hq => exact h.congr rfl rfl rfl rfl
  | @paired a b lang queue hactive hactive' hne ha hb hq =>
    have hpair := @Db.Tidy.appendPair _ h ⟨d.uuid, a, b, lang, .active, d.now⟩ hn.pair hne ha hb
    cases hcard : v.db.pickCard d.uuid d.rand with
    | none =>
      refine hpair.congr rfl rfl ?_ rfl
      rw [Option.map_none, Option.toList_none, List.append_nil]
    | some card =>
      exact (hpair.appendTurn (.initial d.uuid' d.uuid a b card.id d.now) hn.turn').congr
        rfl rfl rfl rfl
  | created pairId speakerId guesserId cardId =>
    exact h.appendTurn (.initial d.uuid pairId speakerId guesserId cardId d.now) hn.turn
  | picked pairId => exact h
  | saved turnId payload => exact h
  | accepted path durationS ht hs =>
    exact h.putTurn ht rfl ((h.turn _ ht).accepted hs path _)
  | labelled ht hs => exact h.putTurn ht rfl ((h.turn _ ht).labelled hs)
  | guessed ht hs hg => exact h.putTurn ht hg.id ((h.turn _ ht).guessed hs hg)
  | enqueued kind turnId => exact h.insertJob kind turnId _ _
  | completed hpair hp hcap => exact h.setPairStatus _ _
  | @triaged t quality db ht hplayers hqueue hpairs hcards hturns hjobs =>
    have hput : (v.db.putTurn (t.triaged (.flac t.id) quality)).Tidy :=
      h.putTurn ht rfl ⟨(h.turn t ht).pending, (h.turn t ht).notWrong, (h.turn t ht).audio⟩
    by_cases hs : t.status = .scored
    · rw [if_pos hs] at hjobs
      exact (hput.insertJob .package t.id d.uuid d.now).congr (by simpa using hplayers)
        (by simpa using hpairs) (by simpa using hturns) (by
          rw [hjobs, Db.insertJob_jobs, Db.insertJob_jobs]
          rfl)
    · rw [if_neg hs] at hjobs
      exact hput.congr hplayers hpairs hturns hjobs
  | untriaged hnone => exact h

theorem Venue.Opening.tidy {v : Venue} (h : v.Opening) : v.db.Tidy where
  playerIds := h.players
  pairIds := by
    rw [h.pairs]
    exact Unique.nil
  turnIds := by
    rw [h.turns]
    exact Unique.nil
  jobKeys := by
    rw [h.jobs]
    exact Unique.nil
  apart := by
    rw [h.pairs]
    exact fun _ hmem ↦ absurd hmem List.not_mem_nil
  members := by
    rw [h.pairs]
    exact fun _ hmem ↦ absurd hmem List.not_mem_nil
  turn := by
    rw [h.turns]
    exact fun _ hmem ↦ absurd hmem List.not_mem_nil

/-- **The venue is tidy in every reachable configuration.** -/
theorem tidy_of_reach {su : Setup} {T : Terms VenueOp Failure Draw Request Venue}
    {c : Config VenueOp Failure Request Venue Reply} (h : (venue su).Reach T c) :
    c.world.state.db.Tidy := by
  refine @System.Reach.state_inv _ _ _ _ _ _ _ _ (fun w ↦ w.state.db.Tidy) ?_ ?_ ?_ c h
  · exact fun s hs ↦ hs.tidy
  · exact fun w r hw ↦ hw
  · exact fun i β op d w hw _ hd ↦ (op.did su d hw).tidy hw (new_of_admits hd)

end Neva
