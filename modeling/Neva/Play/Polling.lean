import Neva.Game.Join
import Neva.Game.Version
import Neva.Play.Lifecycle

/-!
# Polling

`GET /api/state` over the life of a deployment: players join, the programs of the venue run, and
whoever has joined asks for their state at any time, any number of times.

Between two polls rows are added and turns move on, and nothing else that a player sees changes
(`Db.Grows`).  A player whose rounds have not grown has had no turn scored, so the last result is
the same, and everything else in a response is hashed or never changes: bundles fetched at two
moments cohere.  What is left is the board, and the order of the options, which is that of the rows
of a query without `ORDER BY` (`RowOrder`).  `version_detects` is the positive result, for
deployments in which no player is called what somebody else's row of the board would begin with, and
for players who are not choosing among several decoys; `version_collides` is a deployment where a
player is called so, and a change of the board goes unnoticed.
-/

set_option autoImplicit false

namespace Neva

open Calls Tables

/-! ## Fetching the bundle -/

/-- The columns of a `cards` row that `CardRecord` leaves out. -/
structure CardFace where
  imagePath : Text
  labelCommon : LabelMap
  /-- `decoys`, the identifiers of other cards. -/
  decoys : List Uuid

/-- The most recent scored turn of the pair: `ORDER BY created_at DESC, id DESC LIMIT 1`. -/
def Db.previousScored (db : Db) (pairId : Uuid) : Option TurnRecord :=
  ((db.turnsOf pairId).filter fun t ↦ t.status == .scored).argmax fun t ↦
    toLex (t.createdAt, t.id)

/-- The order in which a query without `ORDER BY` returns the rows it finds. -/
structure RowOrder where
  rows : List CardRecord → List CardRecord
  perm : ∀ found, (rows found).Perm found

/-- The order in which the rows were inserted. -/
def RowOrder.stored : RowOrder := ⟨id, fun _ ↦ .refl _⟩

/-- `get_cards` -/
def Db.getCards (db : Db) (order : RowOrder) (cardIds : List Uuid) : List CardRecord :=
  order.rows (db.cards.filter fun c ↦ c.id ∈ cardIds)

/-- The decoys, resolved for the pair. -/
def Db.decoyLabels (db : Db) (faces : Uuid → CardFace) (order : RowOrder) (commonLang : Text)
    (decoys : List Uuid) : List (Uuid × Text) :=
  (db.getCards order decoys).map fun c ↦
    (c.id, resolveLabelText (faces c.id).labelCommon commonLang)

/-- The `cards` row of a turn. -/
def Db.pictureCard (db : Db) (faces : Uuid → CardFace) (cardId : Uuid) : Option PictureCard :=
  (db.cards.find? fun c ↦ c.id == cardId).map fun c ↦
    ⟨c.id, (faces c.id).imagePath, (faces c.id).labelCommon⟩

/-- `ORDER BY score DESC, nickname ASC LIMIT $3` -/
def Postgres.board (cfg : GameFeatureConfig) (db : Db) (top : ℕ) : List LeaderboardRow :=
  ((db.players.map fun p ↦
    (⟨p.nickname, Postgres.score cfg db p.id⟩ : LeaderboardRow)).insertionSort
    fun a b ↦ b.score < a.score ∨ (a.score = b.score ∧ a.nickname ≤ b.nickname)).take top

/-- `fetch_state_bundle`, for a player there is. -/
def Postgres.fetchStateBundle (cfg : StateConfig) (faces : Uuid → CardFace) (order : RowOrder)
    (now : Time) (db : Db) (p : Uuid) : Option StateBundle :=
  (db.findPlayer p).map fun me ↦
    let pair := db.activePair p
    let turn := pair.bind fun pair ↦ db.latestTurn pair.id
    let card := turn.bind fun turn ↦ db.pictureCard faces turn.cardId
    { player := me
      queued := db.queue.any fun q ↦
        q.playerId == p && decide (now - cfg.matchmakingQueueTtl ≤ q.enqueuedAt)
      pair := pair
      partner := pair.bind fun pair ↦
        db.findPlayer (if pair.playerA = p then pair.playerB else pair.playerA)
      turn := turn
      card := card
      previousScored := pair.bind fun pair ↦ db.previousScored pair.id
      stats := Postgres.playerStats cfg.toGameFeatureConfig db p
      leaderboardTop := Postgres.board cfg.toGameFeatureConfig db cfg.leaderboardStateTop
      decoyLabels := (pair.bind fun pair ↦ card.map fun card ↦
        db.decoyLabels faces order pair.commonLang (faces card.id).decoys).getD [] }

/-! ## The deployment -/

/-- How a deployment is configured. -/
structure Deployment where
  cfg : StateConfig := {}
  limits : GauntletLimits := {}
  roundsCap : ℤ := 20
  probes : Probes
  /-- What is on the cards. -/
  faces : Uuid → CardFace
  /-- `lower()`, of the index that keeps nicknames apart. -/
  lower : Text → Text

namespace Deployment

variable (D : Deployment)

/-- The venue of the deployment. -/
def setup : Setup where
  backend := .postgres
  cfg := D.cfg.toGameFeatureConfig
  limits := D.limits
  roundsCap := D.roundsCap
  probes := D.probes

/-- One step of the deployment. -/
inductive Step (v : Venue) : Venue → Prop
  /-- `create_player` inserts the first candidate that is not taken. -/
  | joined {req : JoinRequest} {p : PlayerRecord} (attempt : ℕ) (hreq : req.Valid)
      (hid : v.db.fresh p.id = true)
      (hjoin : join req p.id (allocateNicknameCandidate (strip req.nickname) attempt) = .ok p)
      (hfree : ∀ q ∈ v.db.players, D.lower q.nickname ≠ D.lower p.nickname) :
      Step v { v with db := { v.db with players := v.db.players ++ [p] } }
  /-- A program makes a call.  A turn is made to follow another, with the roles swapped. -/
  | called {β : Type} (op : VenueOp β) (d : Draw) (hd : (venue D.setup).admits d v = true)
      (hop : ∀ t, deed op (op.exec D.setup d v).1 = .created t → ∃ u ∈ v.db.turns, u.Swaps t) :
      Step v (op.exec D.setup d v).2

/-- `v'` comes after `v` in some run. -/
abbrev Later (v v' : Venue) : Prop := Relation.ReflTransGen D.Step v v'

/-- What `GET /api/state` answers: the bundle is fetched, and then composed. -/
def getState (checksum : Text → ℕ) (shuffle : Text → List OptionState → List OptionState)
    (order : RowOrder) (fetched composed : Time) (p : Uuid) (v : Venue) : Option StateResponse :=
  (Postgres.fetchStateBundle D.cfg D.faces order fetched v.db p).map
    (composeStateResponse checksum shuffle D.cfg D.roundsCap composed)

end Deployment

/-! ## What lasts -/

/-- What a turn keeps of itself while it is played: what it was made with, its audio once there is
any, and its outcome once it has been scored. -/
structure TurnRecord.Lasts (t t' : TurnRecord) : Prop where
  id : t'.id = t.id
  pairId : t'.pairId = t.pairId
  speakerId : t'.speakerId = t.speakerId
  guesserId : t'.guesserId = t.guesserId
  cardId : t'.cardId = t.cardId
  createdAt : t'.createdAt = t.createdAt
  audio : t.status ≠ .awaitingAudio → t'.status ≠ .awaitingAudio ∧ t'.audioPath = t.audioPath
  scored : t.status = .scored → t'.status = .scored ∧ t'.outcome = t.outcome

/-- The members and the language of a pair are those it was made with. -/
structure PairRecord.Lasts (pair pair' : PairRecord) : Prop where
  id : pair'.id = pair.id
  playerA : pair'.playerA = pair.playerA
  playerB : pair'.playerB = pair.playerB
  commonLang : pair'.commonLang = pair.commonLang

/-- Rows are added, and what lasts lasts. -/
structure Db.Grows (db db' : Db) : Prop where
  players : db.players ⊆ db'.players
  cards : db'.cards = db.cards
  pairs : ∀ pair ∈ db.pairs, ∃ pair' ∈ db'.pairs, pair.Lasts pair'
  turns : ∀ t ∈ db.turns, ∃ t' ∈ db'.turns, t.Lasts t'

namespace TurnRecord

theorem Lasts.refl (t : TurnRecord) : t.Lasts t :=
  ⟨rfl, rfl, rfl, rfl, rfl, rfl, fun h ↦ ⟨h, rfl⟩, fun h ↦ ⟨h, rfl⟩⟩

theorem Lasts.trans {t t' t'' : TurnRecord} (h : t.Lasts t') (h' : t'.Lasts t'') :
    t.Lasts t'' where
  id := h'.id.trans h.id
  pairId := h'.pairId.trans h.pairId
  speakerId := h'.speakerId.trans h.speakerId
  guesserId := h'.guesserId.trans h.guesserId
  cardId := h'.cardId.trans h.cardId
  createdAt := h'.createdAt.trans h.createdAt
  audio hs := by
    obtain ⟨hs', ha⟩ := h.audio hs
    obtain ⟨hs'', ha'⟩ := h'.audio hs'
    exact ⟨hs'', ha'.trans ha⟩
  scored hs := by
    obtain ⟨hs', ho⟩ := h.scored hs
    obtain ⟨hs'', ho'⟩ := h'.scored hs'
    exact ⟨hs'', ho'.trans ho⟩

theorem lasts_accepted {t : TurnRecord} (hs : t.status = .awaitingAudio) (path : AudioPath)
    (durationS : ℚ) : t.Lasts (t.accepted path durationS) :=
  ⟨rfl, rfl, rfl, rfl, rfl, rfl, fun h ↦ absurd hs h, fun h ↦ by rw [hs] at h; cases h⟩

theorem lasts_labelled {t : TurnRecord} (hs : t.status = .awaitingLabelConfirm) :
    t.Lasts t.labelled :=
  ⟨rfl, rfl, rfl, rfl, rfl, rfl, fun _ ↦ ⟨by simp [labelled], rfl⟩,
    fun h ↦ by rw [hs] at h; cases h⟩

theorem lasts_triaged (t : TurnRecord) (path : AudioPath) (quality : Quality) :
    t.Lasts (t.triaged path quality) :=
  ⟨rfl, rfl, rfl, rfl, rfl, rfl, fun h ↦ ⟨h, rfl⟩, fun h ↦ ⟨h, rfl⟩⟩

theorem Guessed.lasts {cfg : GameFeatureConfig} {t t' : TurnRecord} {correct : Bool}
    (h : t.Guessed cfg correct t') (hs : t.status = .awaitingGuess) : t.Lasts t' := by
  have hns : t.status ≠ .scored := by simp [hs]
  cases h with
  | right =>
    exact ⟨rfl, rfl, rfl, rfl, rfl, rfl, fun _ ↦ ⟨by simp, rfl⟩, fun h ↦ absurd h hns⟩
  | last => exact ⟨rfl, rfl, rfl, rfl, rfl, rfl, fun _ ↦ ⟨by simp, rfl⟩, fun h ↦ absurd h hns⟩
  | again => exact ⟨rfl, rfl, rfl, rfl, rfl, rfl, fun h ↦ ⟨h, rfl⟩, fun h ↦ absurd h hns⟩

end TurnRecord

theorem PairRecord.Lasts.refl (pair : PairRecord) : pair.Lasts pair := ⟨rfl, rfl, rfl, rfl⟩

theorem PairRecord.Lasts.trans {pair pair' pair'' : PairRecord} (h : pair.Lasts pair')
    (h' : pair'.Lasts pair'') : pair.Lasts pair'' :=
  ⟨h'.id.trans h.id, h'.playerA.trans h.playerA, h'.playerB.trans h.playerB,
    h'.commonLang.trans h.commonLang⟩

namespace Db.Grows

variable {db db' db'' : Db}

theorem refl (db : Db) : db.Grows db :=
  ⟨fun _ h ↦ h, rfl, fun pair h ↦ ⟨pair, h, .refl pair⟩, fun t h ↦ ⟨t, h, .refl t⟩⟩

theorem trans (h : db.Grows db') (h' : db'.Grows db'') : db.Grows db'' where
  players _ hp := h'.players (h.players hp)
  cards := h'.cards.trans h.cards
  pairs pair hp := by
    obtain ⟨pair', hp', hl⟩ := h.pairs pair hp
    obtain ⟨pair'', hp'', hl'⟩ := h'.pairs pair' hp'
    exact ⟨pair'', hp'', hl.trans hl'⟩
  turns t ht := by
    obtain ⟨t', ht', hl⟩ := h.turns t ht
    obtain ⟨t'', ht'', hl'⟩ := h'.turns t' ht'
    exact ⟨t'', ht'', hl.trans hl'⟩

/-- The tables of pairs and turns are as they were, or longer. -/
theorem of_subset (hplayers : db.players ⊆ db'.players) (hcards : db'.cards = db.cards)
    (hpairs : db.pairs ⊆ db'.pairs) (hturns : db.turns ⊆ db'.turns) : db.Grows db' :=
  ⟨hplayers, hcards, fun pair h ↦ ⟨pair, hpairs h, .refl pair⟩, fun t h ↦ ⟨t, hturns h, .refl t⟩⟩

/-- A turn has moved on. -/
theorem of_put (htidy : db.Tidy) {t t' : TurnRecord} (ht : t ∈ db.turns) (hl : t.Lasts t')
    (hplayers : db'.players = db.players) (hcards : db'.cards = db.cards)
    (hpairs : db'.pairs = db.pairs) (hturns : db'.turns = (db.putTurn t').turns) :
    db.Grows db' where
  players := hplayers ▸ fun _ h ↦ h
  cards := hcards
  pairs pair h := ⟨pair, hpairs ▸ h, .refl pair⟩
  turns u hu := by
    rw [hturns]
    by_cases hid : u.id = t.id
    · rw [htidy.turnIds.eq hu ht hid]
      exact ⟨t', (Db.mem_putTurn ht hl.id).mpr (.inl rfl), hl⟩
    · exact ⟨u, (Db.mem_putTurn ht hl.id).mpr (.inr ⟨hu, hid⟩), .refl u⟩

end Db.Grows

/-- **Whatever is done, what lasts lasts.** -/
theorem Did.grows {su : Setup} {d : Draw} {v v' : Venue} {a : Deed} (hd : Did su d v a v')
    (htidy : v.db.Tidy) : v.db.Grows v'.db := by
  cases hd with
  | quiet hplayers hqueue hpairs hcards hturns hjobs =>
    exact .of_subset (hplayers ▸ fun _ h ↦ h) hcards (hpairs ▸ fun _ h ↦ h) (hturns ▸ fun _ h ↦ h)
  | queued => exact .of_subset (fun _ h ↦ h) rfl (fun _ h ↦ h) fun _ h ↦ h
  | already => exact .refl _
  | waiting => exact .of_subset (fun _ h ↦ h) rfl (fun _ h ↦ h) fun _ h ↦ h
  | paired =>
    exact .of_subset (fun _ h ↦ h) rfl (List.subset_append_left _ _) (List.subset_append_left _ _)
  | created => exact .of_subset (fun _ h ↦ h) rfl (fun _ h ↦ h) (List.subset_append_left _ _)
  | picked => exact .refl _
  | saved => exact .refl _
  | accepted path durationS ht hs =>
    exact .of_put htidy ht (TurnRecord.lasts_accepted hs path _) rfl rfl rfl rfl
  | labelled ht hs => exact .of_put htidy ht (TurnRecord.lasts_labelled hs) rfl rfl rfl rfl
  | guessed ht hs hg => exact .of_put htidy ht (hg.lasts hs) rfl rfl rfl rfl
  | enqueued =>
    exact .of_subset (by simp) (by simp) (by simp) (by simp)
  | completed =>
    refine ⟨fun _ h ↦ h, rfl, fun pair h ↦ ⟨_, List.mem_map_of_mem h, ?_⟩,
      fun t h ↦ ⟨t, h, .refl t⟩⟩
    split <;> exact ⟨rfl, rfl, rfl, rfl⟩
  | triaged ht hplayers hqueue hpairs hcards hturns hjobs =>
    exact .of_put htidy ht (TurnRecord.lasts_triaged _ _ _) hplayers hcards hpairs hturns
  | untriaged => exact .refl _

/-! ## What holds in every deployment -/

/-- Rows have keys, and the seats of a turn are the members of its pair. -/
structure Venue.Sound (v : Venue) : Prop where
  tidy : v.db.Tidy
  seated : ∀ t ∈ v.db.turns, v.db.Seated t

theorem Venue.Opening.sound {v : Venue} (h : v.Opening) : v.Sound := by
  refine ⟨h.tidy, fun t ht ↦ ?_⟩
  rw [h.turns] at ht
  exact absurd ht List.not_mem_nil

/-- A player who joins changes nothing for the others. -/
theorem Venue.Sound.joined {v : Venue} (h : v.Sound) {p : PlayerRecord}
    (hid : v.db.fresh p.id = true) :
    Venue.Sound { v with db := { v.db with players := v.db.players ++ [p] } } where
  tidy := by
    obtain ⟨hplayers, -⟩ := Db.fresh_iff.mp hid
    refine ⟨h.tidy.playerIds.append fun hmem ↦ ?_, h.tidy.pairIds, h.tidy.turnIds, h.tidy.jobKeys,
      h.tidy.apart, fun pair hpair ↦ ?_, h.tidy.turn⟩
    · obtain ⟨q, hq, hqid⟩ := List.mem_map.mp hmem
      exact hplayers q hq hqid
    · have hold (q : Uuid) (hq : (v.db.findPlayer q).isSome) :
          ((v.db.players ++ [p]).find? fun r ↦ r.id == q).isSome := by
        rw [List.find?_append, Option.isSome_or]
        exact Bool.or_eq_true_iff.mpr (.inl hq)
      obtain ⟨ha, hb⟩ := h.tidy.members pair hpair
      exact ⟨hold _ ha, hold _ hb⟩
  seated := h.seated

namespace Deployment

variable {D : Deployment} {v v' : Venue}

theorem Step.grows (h : D.Step v v') (hv : v.Sound) : v.db.Grows v'.db := by
  cases h with
  | joined => exact .of_subset (List.subset_append_left _ _) rfl (fun _ h ↦ h) fun _ h ↦ h
  | called op d hd hop => exact (op.did D.setup d hv.tidy).grows hv.tidy

theorem Step.sound (h : D.Step v v') (hv : v.Sound) : v'.Sound := by
  cases h with
  | joined attempt hreq hid hjoin hfree => exact hv.joined hid
  | called op d hd hop =>
    have hdid := op.did D.setup d hv.tidy
    refine ⟨hdid.tidy hv.tidy (new_of_admits hd), hdid.seated hv.seated fun t ht ↦ ?_⟩
    -- the seats are those of the turn before, the other way round
    obtain ⟨u, hu, hpair, hspeaker, hguesser⟩ := hop t ht
    obtain ⟨pair, hmem, hid, hseats⟩ := hdid.seated_kept (hv.seated u hu) (.refl u)
    refine ⟨pair, hmem, by rw [hid, hpair], ?_⟩
    rw [hspeaker, hguesser]
    exact hseats.symm.imp And.symm And.symm

theorem Later.sound (h : D.Later v v') (hv : v.Sound) : v'.Sound := by
  induction h with
  | refl => exact hv
  | tail _ hstep ih => exact hstep.sound ih

theorem Later.grows (h : D.Later v v') (hv : v.Sound) : v.db.Grows v'.db := by
  induction h with
  | refl => exact .refl _
  | tail hrun hstep ih => exact ih.trans (hstep.grows (Later.sound hrun hv))

/-- **Every run of the venue is a run of the deployment**, one in which nobody joins. -/
theorem later_of_reachable {c : Config VenueOp Failure Request Venue Reply}
    (h : (venue D.setup).Reachable c) : ∃ v₀ : Venue, v₀.Opening ∧ D.Later v₀ c.world.state := by
  induction h with
  | start hs => exact ⟨_, hs, .refl⟩
  | @fire c c' e hc ha he ih =>
    obtain ⟨v₀, hv₀, hrun⟩ := ih
    refine ⟨v₀, hv₀, ?_⟩
    have hgood := (Lifecycle.sound D.setup {}).good (fun _ hv ↦ Lifecycle.opening hv)
      (fun _ _ ↦ trivial) hc
    have hmoves := System.moves_of_fire ha he
    generalize c'.world = w' at hmoves
    cases hmoves with
    | idle => exact hrun
    | spawned r => exact hrun
    | @called i β op k d hthread hmay hd =>
      refine hrun.tail (.called op d hd fun t ht ↦ ?_)
      have hpre := hgood.pre hthread d hd
      rw [ht] at hpre
      obtain ⟨u, hu, hpair, hspeaker, hguesser⟩ := hpre
      obtain ⟨⟨t₀, ht₀, -, hpair₀, hspeaker₀, hguesser₀, -⟩, -⟩ := hgood.here.2.held i u hu
      exact ⟨t₀, ht₀, by rw [hpair, hpair₀], by rw [hspeaker, hguesser₀],
        by rw [hguesser, hspeaker₀]⟩

end Deployment

/-! ## Two polls cohere -/

theorem Db.mem_previousScored {db : Db} {pairId : Uuid} {t : TurnRecord}
    (h : db.previousScored pairId = some t) :
    t ∈ db.turns ∧ t.pairId = pairId ∧ t.status = .scored := by
  obtain ⟨hmem, hs⟩ := List.mem_filter.mp (List.argmax_mem (Option.mem_def.mpr h))
  obtain ⟨ht, hp⟩ := List.mem_filter.mp hmem
  exact ⟨ht, beq_iff_eq.mp hp, beq_iff_eq.mp hs⟩

/-- The most recent scored turn is the last one. -/
theorem Db.le_previousScored {db : Db} {t u : TurnRecord} (h : db.previousScored u.pairId = some t)
    (hu : u ∈ db.turns) (hs : u.status = .scored) :
    toLex (u.createdAt, u.id) ≤ toLex (t.createdAt, t.id) := by
  refine List.le_of_mem_argmax (f := fun t : TurnRecord ↦ toLex (t.createdAt, t.id)) ?_
    (Option.mem_def.mpr h)
  exact List.mem_filter.mpr ⟨List.mem_filter.mpr ⟨hu, beq_self_eq_true _⟩, beq_iff_eq.mpr hs⟩

theorem Db.exists_previousScored {db : Db} {u : TurnRecord} (hu : u ∈ db.turns)
    (hs : u.status = .scored) : ∃ t, db.previousScored u.pairId = some t := by
  rw [← Option.isSome_iff_exists, ← Option.ne_none_iff_isSome]
  intro h
  have hmem : u ∈ (db.turnsOf u.pairId).filter fun t ↦ t.status == .scored :=
    List.mem_filter.mpr ⟨List.mem_filter.mpr ⟨hu, beq_self_eq_true _⟩, beq_iff_eq.mpr hs⟩
  rw [List.argmax_eq_none.mp h] at hmem
  exact absurd hmem List.not_mem_nil

namespace Db.Grows

variable {db db' : Db}

theorem findPlayer (h : db.Grows db') (htidy' : db'.Tidy) {q : Uuid} {r : PlayerRecord}
    (hq : db.findPlayer q = some r) : db'.findPlayer q = some r :=
  htidy'.playerIds.find?_eq_some.mpr
    ⟨h.players (List.mem_of_find?_eq_some hq), Db.findPlayer_id hq⟩

/-- A pair is what the row with its identifier has become. -/
theorem pair_lasts (h : db.Grows db') (htidy' : db'.Tidy) {pair pair' : PairRecord}
    (hp : pair ∈ db.pairs) (hp' : pair' ∈ db'.pairs) (hid : pair'.id = pair.id) :
    pair.Lasts pair' := by
  obtain ⟨pair'', hp'', hl⟩ := h.pairs pair hp
  rw [htidy'.pairIds.eq hp' hp'' (hid.trans hl.id.symm)]
  exact hl

/-- A turn is what the row with its identifier has become. -/
theorem turn_lasts (h : db.Grows db') (htidy' : db'.Tidy) {t t' : TurnRecord}
    (ht : t ∈ db.turns) (ht' : t' ∈ db'.turns) (hid : t'.id = t.id) : t.Lasts t' := by
  obtain ⟨t'', ht'', hl⟩ := h.turns t ht
  rw [htidy'.turnIds.eq ht' ht'' (hid.trans hl.id.symm)]
  exact hl

/-- A player whose rounds have not grown has had no turn scored. -/
theorem scored_before (h : db.Grows db') (htidy : db.Tidy) {p : Uuid}
    (hrounds : db'.roundsPlayed p = db.roundsPlayed p) {t' : TurnRecord} (ht' : t' ∈ db'.turns)
    (hs : t'.status = .scored) (hp : t'.involves p = true) :
    ∃ t ∈ db.turns, t.id = t'.id ∧ t.status = .scored := by
  let counted (t : TurnRecord) : Bool := t.status == .scored && t.involves p
  have hsub : (db.turns.filter counted).map TurnRecord.id ⊆
      (db'.turns.filter counted).map TurnRecord.id := by
    intro i hi
    obtain ⟨t, ht, rfl⟩ := List.mem_map.mp hi
    obtain ⟨ht, hc⟩ := List.mem_filter.mp ht
    obtain ⟨hst, hinv⟩ := Bool.and_eq_true_iff.mp hc
    obtain ⟨u, hu, hl⟩ := h.turns t ht
    refine List.mem_map.mpr ⟨u, List.mem_filter.mpr ⟨hu, Bool.and_eq_true_iff.mpr ⟨?_, ?_⟩⟩, hl.id⟩
    · exact beq_iff_eq.mpr (hl.scored (beq_iff_eq.mp hst)).1
    · rw [TurnRecord.involves_iff] at hinv ⊢
      rw [hl.speakerId, hl.guesserId]
      exact hinv
  have hlen : ((db'.turns.filter counted).map TurnRecord.id).length ≤
      ((db.turns.filter counted).map TurnRecord.id).length := by
    rw [List.length_map, List.length_map, ← List.countP_eq_length_filter,
      ← List.countP_eq_length_filter]
    exact hrounds.le
  have hperm := (List.subperm_of_subset (htidy.turnIds.filter counted) hsub).perm_of_length_le hlen
  have hmem : t'.id ∈ (db'.turns.filter counted).map TurnRecord.id := by
    refine List.mem_map_of_mem (List.mem_filter.mpr ⟨ht', ?_⟩)
    exact Bool.and_eq_true_iff.mpr ⟨beq_iff_eq.mpr hs, hp⟩
  obtain ⟨t, ht, hid⟩ := List.mem_map.mp (hperm.mem_iff.mpr hmem)
  obtain ⟨ht, hc⟩ := List.mem_filter.mp ht
  exact ⟨t, ht, hid, beq_iff_eq.mp (Bool.and_eq_true_iff.mp hc).1⟩

/-- The last result of a pair is the same as long as no turn of it has been scored. -/
theorem previousScored_outcome (h : db.Grows db') (htidy' : db'.Tidy) {pairId : Uuid}
    (hscored : ∀ t' ∈ db'.turns, t'.pairId = pairId → t'.status = .scored →
      ∃ t ∈ db.turns, t.id = t'.id ∧ t.status = .scored) :
    (db'.previousScored pairId).map TurnRecord.outcome =
      (db.previousScored pairId).map TurnRecord.outcome := by
  have hlift : ∀ {t' : TurnRecord}, t' ∈ db'.turns → t'.pairId = pairId → t'.status = .scored →
      ∃ t ∈ db.turns, t.pairId = pairId ∧ t.status = .scored ∧ t.Lasts t' := by
    intro t' ht' hp' hs'
    obtain ⟨t, ht, hid, hs⟩ := hscored t' ht' hp' hs'
    have hl := h.turn_lasts htidy' ht ht' hid.symm
    exact ⟨t, ht, hl.pairId.symm.trans hp', hs, hl⟩
  cases hold : db.previousScored pairId with
  | none =>
    cases hnew : db'.previousScored pairId with
    | none => rfl
    | some t' =>
      obtain ⟨ht', hp', hs'⟩ := Db.mem_previousScored hnew
      obtain ⟨t, ht, rfl, hs, -⟩ := hlift ht' hp' hs'
      obtain ⟨u, hu⟩ := Db.exists_previousScored ht hs
      rw [hold] at hu
      cases hu
  | some t =>
    obtain ⟨ht, rfl, hs⟩ := Db.mem_previousScored hold
    obtain ⟨u', hu', hl⟩ := h.turns t ht
    obtain ⟨hsu', ho⟩ := hl.scored hs
    obtain ⟨t', hnew⟩ := Db.exists_previousScored hu' hsu'
    rw [hl.pairId] at hnew
    obtain ⟨ht', hp', hs'⟩ := Db.mem_previousScored hnew
    obtain ⟨u, hu, hpu, hsu, hlu⟩ := hlift ht' hp' hs'
    -- each of the two is the last, so they are the same turn
    have hle := Db.le_previousScored (hpu ▸ hold) hu hsu
    have hle' := Db.le_previousScored (hl.pairId.symm ▸ hnew) hu' hsu'
    rw [hl.createdAt, hl.id, hlu.createdAt, hlu.id] at hle'
    have hkey := toLex.injective (le_antisymm hle' hle)
    have hid : t'.id = u'.id := hlu.id.trans ((Prod.mk.inj hkey).2.symm.trans hl.id.symm)
    rw [hnew, htidy'.turnIds.eq ht' hu' hid, Option.map_some, Option.map_some, ho]

end Db.Grows

section

variable {cfg : StateConfig} {faces : Uuid → CardFace} {order order' : RowOrder} {now now' : Time}
  {db db' : Db} {p : Uuid} {b b' : StateBundle}

theorem Db.mem_of_activePair {pair : PairRecord} (h : db.activePair p = some pair) :
    pair ∈ db.pairs ∧ (pair.playerA = p ∨ pair.playerB = p) := by
  obtain ⟨hmem, -, hp⟩ := Db.mem_activePairs.mp (Db.activePair_mem h)
  exact ⟨hmem, hp⟩

/-- Whoever has joined has a rank, and no rank is zero. -/
theorem Postgres.rank_ne_zero (h : Postgres.fetchStateBundle cfg faces order now db p = some b) :
    b.stats.rank ≠ some 0 := by
  obtain ⟨me, hme, rfl⟩ := Option.map_eq_some_iff.mp h
  simp [Postgres.playerStats, hme, Postgres.rank]

/-- The rows of the board are players with their points. -/
theorem Postgres.mem_board {row : LeaderboardRow}
    (h : Postgres.fetchStateBundle cfg faces order now db p = some b)
    (hrow : row ∈ b.leaderboardTop) :
    (∃ q ∈ db.players, q.nickname = row.nickname) ∧ cfg.pointsPerValidation ∣ row.score := by
  obtain ⟨me, hme, rfl⟩ := Option.map_eq_some_iff.mp h
  obtain ⟨q, hq, rfl⟩ := List.mem_map.mp
    ((List.perm_insertionSort _ _).mem_iff.mp (List.mem_of_mem_take hrow))
  exact ⟨⟨q, hq, rfl⟩, Dvd.intro_left _ rfl⟩

/-- Same pair, same partner. -/
theorem Db.Grows.partner (h : db.Grows db') (htidy : db.Tidy) (htidy' : db'.Tidy)
    {pair pair' : PairRecord} (hp : pair ∈ db.pairs) (hl : pair.Lasts pair') :
    db'.findPlayer (if pair'.playerA = p then pair'.playerB else pair'.playerA) =
      db.findPlayer (if pair.playerA = p then pair.playerB else pair.playerA) := by
  rw [hl.playerA, hl.playerB]
  have hmembers := htidy.members pair hp
  have hsome :
      (db.findPlayer (if pair.playerA = p then pair.playerB else pair.playerA)).isSome := by
    split
    · exact hmembers.2
    · exact hmembers.1
  obtain ⟨r, hr⟩ := Option.isSome_iff_exists.mp hsome
  rw [hr, h.findPlayer htidy' hr]

/-- A player who is to guess, and may still play, chooses between the card of the turn and one decoy
at most. -/
def Db.OneDecoy (faces : Uuid → CardFace) (roundsCap : ℤ) (db : Db) (p : Uuid) : Prop :=
  ∀ pair turn, db.activePair p = some pair → db.latestTurn pair.id = some turn →
    turn.status = .awaitingGuess → turn.guesserId = p → db.roundsPlayed p < roundsCap →
      ∀ c ∈ db.cards, ∀ c' ∈ db.cards, c.id ∈ (faces turn.cardId).decoys →
        c'.id ∈ (faces turn.cardId).decoys → c.id = c'.id

/-- The order of the rows does not matter when all of them say the same. -/
theorem map_eq_map_of_perm {α β : Type*} {f : α → β} {l l' m : List α} (h : l.Perm m)
    (h' : l'.Perm m) (hone : ∀ a ∈ m, ∀ b ∈ m, f a = f b) : l'.map f = l.map f := by
  cases m with
  | nil => rw [h.eq_nil, h'.eq_nil]
  | cons a m =>
    have hall :
        ∀ {l : List α}, l.Perm (a :: m) → l.map f = List.replicate (m.length + 1) (f a) := by
      intro l hl
      refine List.eq_replicate_iff.mpr ⟨by rw [List.length_map, hl.length_eq]; rfl, fun b hb ↦ ?_⟩
      obtain ⟨c, hc, rfl⟩ := List.mem_map.mp hb
      exact hone c (hl.subset hc) a List.mem_cons_self
    rw [hall h, hall h']

/-- Where there is one decoy at most, its label is the same in any order. -/
theorem Db.OneDecoy.decoyLabels {roundsCap : ℤ} (h : db.OneDecoy faces roundsCap p)
    (hcards : db'.cards = db.cards) {pair : PairRecord} {turn : TurnRecord}
    (hpair : db.activePair p = some pair) (hturn : db.latestTurn pair.id = some turn)
    (hs : turn.status = .awaitingGuess) (hguesser : turn.guesserId = p)
    (hrounds : db.roundsPlayed p < roundsCap) (commonLang : Text) :
    db'.decoyLabels faces order' commonLang (faces turn.cardId).decoys =
      db.decoyLabels faces order commonLang (faces turn.cardId).decoys := by
  rw [Db.decoyLabels, Db.decoyLabels, Db.getCards, Db.getCards, hcards]
  refine map_eq_map_of_perm (order.perm _) (order'.perm _) fun c hc c' hc' ↦ ?_
  obtain ⟨hmem, hc⟩ := List.mem_filter.mp hc
  obtain ⟨hmem', hc'⟩ := List.mem_filter.mp hc'
  rw [h pair turn hpair hturn hs hguesser hrounds c hmem c' hmem' (of_decide_eq_true hc)
    (of_decide_eq_true hc')]

/-- **Two polls cohere.** -/
theorem coherent_of_grows {roundsCap : ℤ} (h : db.Grows db') (htidy : db.Tidy) (htidy' : db'.Tidy)
    (hseated' : ∀ t ∈ db'.turns, db'.Seated t) (hone : db.OneDecoy faces roundsCap p)
    (hb : Postgres.fetchStateBundle cfg faces order now db p = some b)
    (hb' : Postgres.fetchStateBundle cfg faces order' now' db' p = some b') :
    b.Coherent roundsCap b' := by
  obtain ⟨me, hme, rfl⟩ := Option.map_eq_some_iff.mp hb
  obtain ⟨me', hme', rfl⟩ := Option.map_eq_some_iff.mp hb'
  rw [h.findPlayer htidy' hme, Option.some.injEq] at hme'
  subst hme'
  have hrank := h.findPlayer htidy' hme
  -- the two pairs, when they have one identifier
  have hpairs : (db'.activePair p).map PairRecord.id = (db.activePair p).map PairRecord.id →
      db.activePair p = none ∧ db'.activePair p = none ∨ ∃ pair pair', db.activePair p = some pair ∧
        db'.activePair p = some pair' ∧ pair ∈ db.pairs ∧ pair' ∈ db'.pairs ∧ pair.Lasts pair' := by
    intro hid
    cases hp : db.activePair p with
    | none =>
      rw [hp, Option.map_none, Option.map_eq_none_iff] at hid
      exact .inl ⟨rfl, hid⟩
    | some pair =>
      rw [hp, Option.map_some, Option.map_eq_some_iff] at hid
      obtain ⟨pair', hp', hid⟩ := hid
      have hmem := (Db.mem_of_activePair hp).1
      have hmem' := (Db.mem_of_activePair hp').1
      exact .inr ⟨pair, pair', rfl, hp', hmem, hmem', h.pair_lasts htidy' hmem hmem' hid⟩
  have hturn_mem : ∀ {db : Db} {t : TurnRecord},
      ((db.activePair p).bind fun pair ↦ db.latestTurn pair.id) = some t → t ∈ db.turns := by
    intro db t ht
    obtain ⟨pair, -, ht⟩ := Option.bind_eq_some_iff.mp ht
    exact (Db.latestTurn_mem ht).1
  refine ⟨rfl, fun hid ↦ ?_, fun t t' ht ht' hid ↦ ?_, fun hid htid ↦ ?_, fun hid hrounds ↦ ?_⟩
  · rcases hpairs hid with ⟨hp, hp'⟩ | ⟨pair, pair', hp, hp', hmem, -, hl⟩
    · simp [pairState, hp, hp']
    · refine ⟨?_, by simp [hp, hp', hl.commonLang]⟩
      rw [pairState, pairState]
      dsimp only
      rw [hp, hp', Option.bind_some, Option.bind_some, h.partner htidy htidy' hmem hl]
      cases db.findPlayer (if pair.playerA = p then pair.playerB else pair.playerA) with
      | none => rfl
      | some partner =>
        dsimp only
        rw [hl.commonLang]
  · have hl := h.turn_lasts htidy' (hturn_mem ht) (hturn_mem ht') hid
    exact ⟨hl.speakerId, hl.guesserId, hl.createdAt, fun _ hs ↦ (hl.audio (by simp [hs])).2⟩
  · have hcard : ((db'.activePair p).bind fun pair ↦ db'.latestTurn pair.id).bind
        (fun turn ↦ db'.pictureCard faces turn.cardId) =
        ((db.activePair p).bind fun pair ↦ db.latestTurn pair.id).bind
          fun turn ↦ db.pictureCard faces turn.cardId := by
      dsimp only at htid
      cases ht : (db.activePair p).bind fun pair ↦ db.latestTurn pair.id with
      | none =>
        rw [ht, Option.map_none, Option.map_eq_none_iff] at htid
        rw [htid]
        rfl
      | some t =>
        rw [ht, Option.map_some, Option.map_eq_some_iff] at htid
        obtain ⟨t', ht', htid⟩ := htid
        have hl := h.turn_lasts htidy' (hturn_mem ht) (hturn_mem ht') htid
        rw [ht', Option.bind_some, Option.bind_some, hl.cardId, Db.pictureCard, Db.pictureCard,
          h.cards]
    refine ⟨hcard, ?_⟩
    rintro ⟨turn, hturn, hguesser, hs⟩ hrounds
    dsimp only at hturn hguesser hrounds ⊢
    rw [hcard]
    rcases hpairs hid with ⟨hp, -⟩ | ⟨pair, pair', hp, hp', -, -, hl⟩
    · rw [hp] at hturn
      cases hturn
    · rw [hp, Option.bind_some] at hturn
      have hp_id : me.id = p := Db.findPlayer_id hme
      have hrounds : db.roundsPlayed p < roundsCap := by
        simpa [Postgres.playerStats, hme] using hrounds
      simp only [hp, hp', Option.bind_some, hturn, hl.commonLang]
      cases hpicture : db.pictureCard faces turn.cardId with
      | none => rfl
      | some card =>
        -- the decoys are those of the card of the turn
        obtain ⟨c, hc, rfl⟩ := Option.map_eq_some_iff.mp hpicture
        have hid : c.id = turn.cardId := by simpa using List.find?_some hc
        simp only [Option.map_some, Option.getD_some, hid]
        exact hone.decoyLabels h.cards hp hturn hs (hguesser.trans hp_id) hrounds _
  · have hrounds : db'.roundsPlayed p = db.roundsPlayed p := by
      simpa [Postgres.playerStats, hme, hrank] using hrounds
    rcases hpairs hid with ⟨hp, hp'⟩ | ⟨pair, pair', hp, hp', -, hmem', hl⟩
    · simp [hp, hp']
    · dsimp only
      rw [hp, hp', Option.bind_some, Option.bind_some, hl.id]
      refine h.previousScored_outcome htidy' fun t' ht' hpt' hs' ↦
        h.scored_before htidy hrounds ht' hs' ?_
      -- the player is a member of the pair, so of each of its turns
      obtain ⟨pair'', hmem'', hid'', hseats⟩ := hseated' t' ht'
      rw [htidy'.pairIds.eq hmem'' hmem' (hid''.trans (hpt'.trans hl.id.symm))] at hseats
      have hmember := (Db.mem_of_activePair hp').2
      rw [TurnRecord.involves_iff]
      rcases hseats with ⟨hs, hg⟩ | ⟨hs, hg⟩
      · rw [hs, hg]
        exact hmember
      · rw [hs, hg]
        exact hmember.symm

end

/-! ## The result -/

/-- No nickname begins as somebody's row of the board does, the comma after it included. -/
def Db.Readable (points : ℕ) (db : Db) : Prop :=
  ∀ p ∈ db.players, ∀ q ∈ db.players, ¬ BeginsLikeRow points p.nickname q.nickname

/-- **The version detects every change** in a deployment in which no nickname begins like a row of
the board, for a player who is not at that time to choose among several decoys: whoever polls twice
and gets the same version twice gets the same response twice, in whatever order the rows of
`get_cards` come. -/
theorem version_detects (D : Deployment) {checksum : Text → ℕ} (hchecksum : checksum.Injective)
    (shuffle : Text → List OptionState → List OptionState) {v₀ v v' : Venue} (h₀ : v₀.Opening)
    (h : D.Later v₀ v) (h' : D.Later v v') (hnames : v'.db.Readable D.cfg.pointsPerValidation)
    {p : Uuid} (hone : v.db.OneDecoy D.faces D.roundsCap p) {order order' : RowOrder}
    {fetched composed fetched' composed' : Time} {r r' : StateResponse}
    (hr : D.getState checksum shuffle order fetched composed p v = some r)
    (hr' : D.getState checksum shuffle order' fetched' composed' p v' = some r')
    (hversion : r.stateVersion = r'.stateVersion) : r = r' := by
  have hv : v.Sound := h.sound h₀.sound
  have hv' : v'.Sound := h'.sound hv
  have hgrows := h'.grows hv
  obtain ⟨b, hb, rfl⟩ := Option.map_eq_some_iff.mp hr
  obtain ⟨b', hb', rfl⟩ := Option.map_eq_some_iff.mp hr'
  refine composeStateResponse_eq_of_version hchecksum
    (coherent_of_grows hgrows hv.tidy hv'.tidy hv'.seated hone hb hb') (Postgres.rank_ne_zero hb)
    (Postgres.rank_ne_zero hb') ?_ hversion
  have hrow : ∀ row ∈ b.leaderboardTop, ∃ q ∈ v'.db.players, q.nickname = row.nickname := by
    intro row hrow
    obtain ⟨q, hq, hn⟩ := (Postgres.mem_board hb hrow).1
    exact ⟨q, hgrows.players hq, hn⟩
  have hrow' : ∀ row ∈ b'.leaderboardTop, ∃ q ∈ v'.db.players, q.nickname = row.nickname :=
    fun row hrow ↦ (Postgres.mem_board hb' hrow).1
  refine leaderboardFingerprint_injective D.cfg.pointsPerValidation
    (fun row hrow ↦ (Postgres.mem_board hb hrow).2) (fun row hrow ↦ (Postgres.mem_board hb' hrow).2)
    (fun row hm row' hm' ↦ ?_) fun row hm row' hm' ↦ ?_
  · obtain ⟨q, hq, hn⟩ := hrow row hm
    obtain ⟨q', hq', hn'⟩ := hrow' row' hm'
    rw [← hn, ← hn']
    exact hnames q hq q' hq'
  · obtain ⟨q, hq, hn⟩ := hrow' row hm
    obtain ⟨q', hq', hn'⟩ := hrow row' hm'
    rw [← hn, ← hn']
    exact hnames q hq q' hq'

/-! ## A board that cannot be read back -/

/-- A deployment in which nothing but joining happens. -/
def doorOnly : Deployment where
  probes := ⟨fun _ ↦ none, fun _ ↦ none⟩
  faces := fun _ ↦ ⟨[], .empty, []⟩
  lower := List.map Char.toLower

/-- The venue once players of these names have joined. -/
def lobby (names : List Text) : Venue where
  db :=
    { players := names.zipIdx.map fun x ↦ ⟨x.2, x.1, ['a', 's'], [['e', 'n']]⟩
      queue := [], pairs := [], decks := [], cards := [], turns := [], jobs := []
      fingerprints := [] }
  files := fun _ ↦ none

theorem opening_lobby : (lobby []).Opening := ⟨List.nodup_nil, rfl, rfl, rfl, rfl, rfl⟩

/-- Somebody joins under a name that nobody has. -/
theorem step_lobby {names : List Text} {name : Text} (hname : 1 ≤ name.length ∧ name.length ≤ 32)
    (hstrip : allocateNicknameCandidate (strip name) 0 = name)
    (hid : (lobby names).db.fresh names.length = true)
    (hfree : ∀ q ∈ (lobby names).db.players, doorOnly.lower q.nickname ≠ doorOnly.lower name) :
    doorOnly.Step (lobby names) (lobby (names ++ [name])) := by
  have hlobby : lobby (names ++ [name]) = { lobby names with db := { (lobby names).db with
      players := (lobby names).db.players ++ [⟨names.length, name, ['a', 's'], [['e', 'n']]⟩] }
        } := by
    simp [lobby, List.zipIdx_append]
  rw [hlobby]
  refine @Deployment.Step.joined doorOnly (lobby names) ⟨name, ['a', 's'], [['e', 'n']]⟩ _ 0
    ⟨hname, by simp, by simp⟩ hid ?_ hfree
  rw [hstrip]
  rfl

/-- Someone called `0`, and someone whose name reads like the rows of four others. -/
def earlyNames : List Text := ["0".toList, "a:0,a-:0,a--:0,a---".toList]

/-- The four others have joined. -/
def lateNames : List Text :=
  earlyNames ++ ["a".toList, "a-".toList, "a--".toList, "a---".toList]

theorem later_earlyNames : doorOnly.Later (lobby []) (lobby earlyNames) := by
  refine .tail (.tail .refl (step_lobby ?_ ?_ ?_ ?_)) (step_lobby ?_ ?_ ?_ ?_) <;> decide +kernel

theorem later_lateNames : doorOnly.Later (lobby earlyNames) (lobby lateNames) := by
  refine .tail (.tail (.tail (.tail .refl (step_lobby ?_ ?_ ?_ ?_)) (step_lobby ?_ ?_ ?_ ?_))
    (step_lobby ?_ ?_ ?_ ?_)) (step_lobby ?_ ?_ ?_ ?_) <;> decide +kernel

/-- **A change of the board goes unnoticed.**  Before and after four players join, the first is
answered with the same version and two different boards, whatever the checksum. -/
theorem version_collides : ∃ (D : Deployment) (v₀ v v' : Venue), v₀.Opening ∧ D.Later v₀ v ∧
    D.Later v v' ∧ ∀ (checksum : Text → ℕ) (shuffle : Text → List OptionState → List OptionState)
      (order : RowOrder), ∃ r r', D.getState checksum shuffle order 0 0 0 v = some r ∧
        D.getState checksum shuffle order 0 0 0 v' = some r' ∧ r.stateVersion = r'.stateVersion ∧
        r.leaderboardTop ≠ r'.leaderboardTop := by
  have horder : ∀ names checksum shuffle order, doorOnly.getState checksum shuffle order 0 0 0
      (lobby names) = doorOnly.getState checksum shuffle .stored 0 0 0 (lobby names) :=
    fun _ _ _ _ ↦ rfl
  refine ⟨doorOnly, lobby [], lobby earlyNames, lobby lateNames, opening_lobby, later_earlyNames,
    later_lateNames, fun checksum shuffle order ↦ ?_⟩
  rw [horder earlyNames, horder lateNames]
  refine ⟨_, _, rfl, rfl, congrArg checksum ?_, ?_⟩
  · decide +kernel
  · rw [composeStateResponse_leaderboardTop, composeStateResponse_leaderboardTop]
    decide +kernel

/-- A checksum without collisions. -/
def exactChecksum (payload : Text) : ℕ := Encodable.encode (payload.map Char.toNat)

theorem exactChecksum_injective : exactChecksum.Injective :=
  Encodable.encode_injective.comp (List.map_injective_iff.mpr fun _ _ h ↦
    Char.toNat_inj.mp h)

theorem later_asha : doorOnly.Later (lobby []) (lobby ["Asha".toList]) := by
  refine .tail .refl (step_lobby ?_ ?_ ?_ ?_) <;> decide +kernel

theorem later_ravi :
    doorOnly.Later (lobby ["Asha".toList]) (lobby ["Asha".toList, "Ravi".toList]) := by
  refine .tail .refl (step_lobby ?_ ?_ ?_ ?_) <;> decide +kernel

/-- Somebody with a plain name joins, and the version changes. -/
theorem version_detects_ravi :
    (doorOnly.getState exactChecksum (fun _ options ↦ options) .stored 0 0 0
        (lobby ["Asha".toList])).map StateResponse.stateVersion ≠
      (doorOnly.getState exactChecksum (fun _ options ↦ options) .stored 0 0 0
        (lobby ["Asha".toList, "Ravi".toList])).map StateResponse.stateVersion := by
  have hnames : (lobby ["Asha".toList, "Ravi".toList]).db.Readable
      doorOnly.cfg.pointsPerValidation := by
    rintro p - q hq ⟨rounds, hprefix⟩
    have hcomma : ',' ∈ q.nickname := hprefix.subset (by simp)
    have hnone : ∀ q ∈ (lobby ["Asha".toList, "Ravi".toList]).db.players, ',' ∉ q.nickname := by
      decide +kernel
    exact hnone q hq hcomma
  obtain ⟨r, hr, htop⟩ :
    ∃ r, doorOnly.getState exactChecksum (fun _ options ↦ options) .stored 0 0 0
      (lobby ["Asha".toList]) = some r ∧ r.leaderboardTop = [⟨"Asha".toList, 0⟩] :=
    ⟨_, rfl, by rw [composeStateResponse_leaderboardTop]; decide +kernel⟩
  obtain ⟨r', hr', htop'⟩ :
    ∃ r, doorOnly.getState exactChecksum (fun _ options ↦ options) .stored 0 0 0
      (lobby ["Asha".toList, "Ravi".toList]) = some r ∧
        r.leaderboardTop = [⟨"Asha".toList, 0⟩, ⟨"Ravi".toList, 0⟩] :=
    ⟨_, rfl, by rw [composeStateResponse_leaderboardTop]; decide +kernel⟩
  rw [hr, hr', Option.map_some, Option.map_some]
  intro h
  have heq := version_detects doorOnly exactChecksum_injective (fun _ options ↦ options)
    opening_lobby later_asha later_ravi hnames (fun _ _ hp ↦ by cases hp) hr hr'
    (Option.some.inj h)
  rw [heq, htop'] at htop
  revert htop
  decide

end Neva
