import Neva.Ranks
import Neva.Play.Polling

/-!
# One ranking everywhere

The score of a player, the rounds and the rank are computed in four places of the Postgres store
and two of the in-memory store.  They rank by score, and by nickname among equal scores
(`LeaderboardRow.key`), and with distinct nicknames nothing is left to chance: `leaderboard` has one
answer (`leaderboard_unique`) and a player stands on it where their rank says.

Two places differ.  The query of `fetch_state_bundle` takes the first rows by score and nickname
and then lets `json_agg` order them by the score alone, so rows with equal scores may come out in
another order than on the leaderboard.  The in-memory store looks for the rank of a player among the
first ten thousand rows.  `one_ranking_iff` is what is left: the rankings are one exactly when no
two of the rows that are shown tie and the player is one of the ten thousand.
-/

set_option autoImplicit false

namespace Neva

open Tables

/-- `score DESC, nickname ASC` -/
def LeaderboardRow.key (row : LeaderboardRow) : ℕᵒᵈ ×ₗ Text :=
  toLex (OrderDual.toDual row.score, row.nickname)

/-- The row of a player. -/
def leaderboardRow (cfg : GameFeatureConfig) (db : Db) (p : PlayerRecord) : LeaderboardRow :=
  ⟨p.nickname, Postgres.score cfg db p.id⟩

namespace Postgres

variable (cfg : GameFeatureConfig) (db : Db) (top : ℕ)

/-- What `leaderboard` may return, and the `board` of `fetch_state_bundle`:
`ORDER BY score DESC, nickname ASC LIMIT top`. -/
def Leaderboard (rows : List LeaderboardRow) : Prop :=
  ∃ sorted, OrderedBy LeaderboardRow.key (db.players.map (leaderboardRow cfg db)) sorted ∧
    rows = sorted.take top

/-- What `fetch_state_bundle` may embed: `json_agg(row_to_json(board.*) ORDER BY board.score DESC)`
of the `board`. -/
def Embedded (rows : List LeaderboardRow) : Prop :=
  ∃ board, Leaderboard cfg db top board ∧
    OrderedBy (fun row ↦ OrderDual.toDual row.score) board rows

/-- `my_stats`, and the rank of `ranked`, in the query of `fetch_state_bundle`: sums over the turns
of the player, without the join. -/
def myStats (p : Uuid) : PlayerStats where
  score := ((db.turns.filter fun t ↦ t.involves p).map fun t ↦
    if t.outcome = .validated then cfg.pointsPerValidation else 0).sum
  roundsPlayed := ((db.turns.filter fun t ↦ t.involves p).map fun t ↦
    if t.status = .scored then 1 else 0).sum
  rank := (db.findPlayer p).map (rank cfg db)

end Postgres

/-- Keys and nicknames are unique, and the two seats of a turn are taken by different players. -/
structure Db.Rankable (db : Db) : Prop where
  playerIds : Tables.Unique PlayerRecord.id db.players
  nicknames : Tables.Unique PlayerRecord.nickname db.players
  seats : ∀ t ∈ db.turns, t.speakerId ≠ t.guesserId
  /-- The foreign keys of `turns`, without which the in-memory store raises `KeyError`. -/
  seated : ∀ t ∈ db.turns, (db.findPlayer t.speakerId).isSome ∧ (db.findPlayer t.guesserId).isSome

/-- The rankings agree on the player, and on the first `top` rows. -/
structure OneRanking (cfg : GameFeatureConfig) (db : Db) (top : ℕ) (p : PlayerRecord) : Prop where
  /-- What is embedded is the leaderboard. -/
  embedded : ∀ board rows, Postgres.Leaderboard cfg db top board →
    Postgres.Embedded cfg db top rows → rows = board
  /-- What is embedded of the player is `player_stats`. -/
  stats : Postgres.myStats cfg db p.id = Postgres.playerStats cfg db p.id
  /-- A rank is a place on the leaderboard. -/
  listed : ∀ board, Postgres.Leaderboard cfg db top board →
    ∀ r, (Postgres.playerStats cfg db p.id).rank = some r → r ≤ top →
      0 < r ∧ board[r - 1]? = some ⟨p.nickname, (Postgres.playerStats cfg db p.id).score⟩
  /-- The stores have one leaderboard … -/
  leaderboard : ∀ board, Postgres.Leaderboard cfg db top board →
    Memory.leaderboard cfg db top = board
  /-- … and give the player the same numbers. -/
  playerStats : Memory.playerStats cfg db p.id = .ok (Postgres.playerStats cfg db p.id)

/-- The number of players who rank before `p`: with a higher score, or with the same score and a
nickname that comes first. -/
def Db.playersAhead (cfg : GameFeatureConfig) (db : Db) (p : PlayerRecord) : ℕ :=
  db.players.countP fun r ↦
    decide (Postgres.score cfg db p.id < Postgres.score cfg db r.id ∨
      (Postgres.score cfg db r.id = Postgres.score cfg db p.id ∧ r.nickname < p.nickname))

section

variable {cfg : GameFeatureConfig} {db : Db} {top : ℕ} {p : PlayerRecord}

/-! ## The order -/

theorem LeaderboardRow.key_injective : LeaderboardRow.key.Injective := by
  intro row row' h
  have hpair : (OrderDual.toDual row.score, row.nickname) =
      (OrderDual.toDual row'.score, row'.nickname) := h
  simp only [Prod.mk.injEq, OrderDual.toDual_inj] at hpair
  cases row
  cases row'
  simp_all

theorem LeaderboardRow.key_lt {row row' : LeaderboardRow} : row.key < row'.key ↔
    row'.score < row.score ∨ row.score = row'.score ∧ row.nickname < row'.nickname := by
  simp [LeaderboardRow.key, Prod.Lex.toLex_lt_toLex]

theorem LeaderboardRow.key_le {row row' : LeaderboardRow} : row.key ≤ row'.key ↔
    row'.score < row.score ∨ row.score = row'.score ∧ row.nickname ≤ row'.nickname := by
  simp [LeaderboardRow.key, Prod.Lex.toLex_le_toLex]

theorem LeaderboardRow.toDual_score_le {row row' : LeaderboardRow} (h : row.key < row'.key) :
    OrderDual.toDual row.score ≤ OrderDual.toDual row'.score := by
  rcases LeaderboardRow.key_lt.mp h with hlt | ⟨heq, -⟩
  · exact hlt.le
  · exact (congrArg OrderDual.toDual heq).le

theorem Db.Rankable.keys (h : db.Rankable) :
    ((db.players.map (leaderboardRow cfg db)).map LeaderboardRow.key).Nodup := by
  rw [List.nodup_map_iff LeaderboardRow.key_injective]
  refine List.Nodup.of_map LeaderboardRow.nickname ?_
  rw [List.map_map]
  exact h.nicknames

theorem Db.Rankable.leaderboardRow_inj (h : db.Rankable) {q : PlayerRecord} (hp : p ∈ db.players)
    (hq : q ∈ db.players) (heq : leaderboardRow cfg db p = leaderboardRow cfg db q) : p = q :=
  h.nicknames.eq hp hq (congrArg LeaderboardRow.nickname heq)

theorem ahead_leaderboardRow : ahead LeaderboardRow.key (db.players.map (leaderboardRow cfg db))
    (leaderboardRow cfg db p) = db.playersAhead cfg p := by
  rw [ahead, Db.playersAhead, List.countP_map]
  refine List.countP_congr fun r _ ↦ ?_
  simp only [Function.comp_apply, decide_eq_true_eq, LeaderboardRow.key_lt]
  rfl

theorem Postgres.rank_eq : Postgres.rank cfg db p = db.playersAhead cfg p + 1 := by
  rw [Postgres.rank, Db.playersAhead, Nat.add_comm]

/-! ## The leaderboard -/

/-- `leaderboard` has one answer. -/
theorem Postgres.leaderboard_unique (h : db.Rankable) {board board' : List LeaderboardRow}
    (hb : Postgres.Leaderboard cfg db top board) (hb' : Postgres.Leaderboard cfg db top board') :
    board = board' := by
  obtain ⟨sorted, hs, rfl⟩ := hb
  obtain ⟨sorted', hs', rfl⟩ := hb'
  rw [hs.eq hs' h.keys]

/-- The loop over the turns adds the points of a validated turn to each seat of it. -/
theorem Memory.score_eq (h : db.Rankable) (p : Uuid) :
    Memory.score cfg db p = Postgres.score cfg db p := by
  have hfold : ∀ (turns : List TurnRecord) (acc : ℕ), (∀ t ∈ turns, t.speakerId ≠ t.guesserId) →
      turns.foldl (fun acc t ↦
        if t.outcome = .validated then
          acc + (if t.speakerId = p then cfg.pointsPerValidation else 0) +
            (if t.guesserId = p then cfg.pointsPerValidation else 0)
        else acc) acc =
      acc + (turns.countP fun t ↦ t.outcome == .validated && t.involves p) *
        cfg.pointsPerValidation := by
    intro turns
    induction turns with
    | nil => simp
    | cons t turns ih =>
      intro acc hseats
      obtain ⟨ht, hseats⟩ := List.forall_mem_cons.mp hseats
      rw [List.foldl_cons, ih _ hseats, List.countP_cons]
      by_cases hval : t.outcome = .validated
      · by_cases hs : t.speakerId = p
        · have hg : t.guesserId ≠ p := fun hg ↦ ht (hs.trans hg.symm)
          simp [hval, hs, hg, TurnRecord.involves, Nat.add_mul]
          omega
        · by_cases hg : t.guesserId = p
          · simp [hval, hs, hg, TurnRecord.involves, Nat.add_mul]
            omega
          · simp [hval, hs, hg, TurnRecord.involves]
      · simp [hval]
  rw [Memory.score, hfold _ _ h.seats, Nat.zero_add, Postgres.score]

/-- The stable sort gives one of the orders the query may return the rows in. -/
theorem Postgres.leaderboard_board (cfg : GameFeatureConfig) (db : Db) (top : ℕ) :
    Postgres.Leaderboard cfg db top (Postgres.board cfg db top) := by
  have hsorts : (fun a b : LeaderboardRow ↦
      b.score < a.score ∨ (a.score = b.score ∧ a.nickname ≤ b.nickname)) =
        fun a b ↦ a.key ≤ b.key := by
    funext a b
    rw [LeaderboardRow.key_le]
  have : Std.Total fun a b : LeaderboardRow ↦
      b.score < a.score ∨ (a.score = b.score ∧ a.nickname ≤ b.nickname) := by
    rw [hsorts]
    exact ⟨fun a b ↦ le_total a.key b.key⟩
  have : IsTrans LeaderboardRow fun a b ↦
      b.score < a.score ∨ (a.score = b.score ∧ a.nickname ≤ b.nickname) := by
    rw [hsorts]
    exact ⟨fun a b c hab hbc ↦ le_trans hab hbc⟩
  refine ⟨_, ⟨List.perm_insertionSort _ _, ?_⟩, rfl⟩
  exact (List.pairwise_insertionSort _ _).imp fun hab ↦ LeaderboardRow.key_le.mpr hab

/-- The leaderboard of the in-memory store is what the query returns. -/
theorem Memory.leaderboard_eq (h : db.Rankable) (top : ℕ) :
    Memory.leaderboard cfg db top = Postgres.board cfg db top := by
  simp only [Memory.leaderboard, Postgres.board, Memory.score_eq h]

theorem Postgres.Leaderboard.eq_board (h : db.Rankable) {board : List LeaderboardRow}
    (hb : Postgres.Leaderboard cfg db top board) : board = Postgres.board cfg db top :=
  Postgres.leaderboard_unique h hb (Postgres.leaderboard_board cfg db top)

/-! ## Rank and place -/

theorem Postgres.Leaderboard.strict (h : db.Rankable) {board : List LeaderboardRow}
    (hb : Postgres.Leaderboard cfg db top board) : board.Pairwise fun a b ↦ a.key < b.key := by
  obtain ⟨sorted, hs, rfl⟩ := hb
  exact (hs.strict h.keys).sublist (List.take_sublist _ _)

theorem Postgres.Leaderboard.nodup (h : db.Rankable) {board : List LeaderboardRow}
    (hb : Postgres.Leaderboard cfg db top board) : board.Nodup :=
  (hb.strict h).imp fun hlt heq ↦ absurd hlt (by simp [heq])

/-- A player stands on the leaderboard behind those who are ahead of them. -/
theorem Postgres.Leaderboard.getElem? (h : db.Rankable) {board : List LeaderboardRow}
    (hb : Postgres.Leaderboard cfg db top board) (hp : p ∈ db.players)
    (hlt : db.playersAhead cfg p < top) :
    board[db.playersAhead cfg p]? = some (leaderboardRow cfg db p) := by
  obtain ⟨sorted, hs, rfl⟩ := hb
  have hplace := hs.getElem?_ahead h.keys (List.mem_map_of_mem hp)
  rw [ahead_leaderboardRow] at hplace
  rwa [List.getElem?_take_of_lt hlt]

theorem Postgres.Leaderboard.mem_iff (h : db.Rankable) {board : List LeaderboardRow}
    (hb : Postgres.Leaderboard cfg db top board) {row : LeaderboardRow} :
    row ∈ board ↔ ∃ p ∈ db.players, leaderboardRow cfg db p = row ∧
      db.playersAhead cfg p < top := by
  obtain ⟨sorted, hs, rfl⟩ := hb
  rw [hs.mem_take h.keys, List.mem_map]
  constructor
  · rintro ⟨⟨p, hp, rfl⟩, hlt⟩
    exact ⟨p, hp, rfl, ahead_leaderboardRow ▸ hlt⟩
  · rintro ⟨p, hp, rfl, hlt⟩
    exact ⟨⟨p, hp, rfl⟩, ahead_leaderboardRow.symm ▸ hlt⟩

theorem Db.Rankable.findPlayer (h : db.Rankable) (hp : p ∈ db.players) :
    db.findPlayer p.id = some p :=
  h.playerIds.find?_eq_some.mpr ⟨hp, rfl⟩

theorem Postgres.playerStats_eq (h : db.Rankable) (hp : p ∈ db.players) :
    Postgres.playerStats cfg db p.id =
      ⟨Postgres.score cfg db p.id, db.roundsPlayed p.id, some (db.playersAhead cfg p + 1)⟩ := by
  rw [Postgres.playerStats, h.findPlayer hp]
  simp only [Postgres.rank_eq]

/-- A sum of `CASE WHEN p THEN n ELSE 0 END` counts. -/
theorem sum_case {α : Type} (xs : List α) (p q : α → Bool) (n : ℕ) :
    ((xs.filter q).map fun x ↦ if p x = true then n else 0).sum =
      (xs.countP fun x ↦ p x && q x) * n := by
  induction xs with
  | nil => simp
  | cons x xs ih =>
    cases hq : q x <;> cases hp : p x <;> simp [hp, hq, ih, Nat.add_mul, Nat.add_comm]

/-- The sums of `my_stats` are those of the join. -/
theorem Postgres.myStats_eq (h : db.Rankable) (hp : p ∈ db.players) :
    Postgres.myStats cfg db p.id = Postgres.playerStats cfg db p.id := by
  rw [Postgres.playerStats_eq h hp, Postgres.myStats, h.findPlayer hp, Option.map_some,
    Postgres.rank_eq, PlayerStats.mk.injEq]
  refine ⟨?_, ?_, rfl⟩
  · simpa [Postgres.score] using sum_case db.turns (fun t ↦ t.outcome == .validated)
      (fun t ↦ t.involves p.id) cfg.pointsPerValidation
  · simpa [Db.roundsPlayed] using
      sum_case db.turns (fun t ↦ t.status == .scored) (fun t ↦ t.involves p.id) 1

/-- The in-memory store finds the rank of a player among the first ten thousand. -/
theorem Memory.playerStats_eq (h : db.Rankable) (hp : p ∈ db.players) :
    Memory.playerStats cfg db p.id =
      .ok ⟨Postgres.score cfg db p.id, db.roundsPlayed p.id,
        if db.playersAhead cfg p < 10000 then some (db.playersAhead cfg p + 1) else none⟩ := by
  have hboard := Postgres.leaderboard_board cfg db 10000
  have hmine : (db.turns.countP fun t ↦ t.involves p.id && t.outcome == .validated) *
      cfg.pointsPerValidation = Postgres.score cfg db p.id := by
    simp only [Postgres.score, Bool.and_comm]
  rw [Memory.playerStats, h.findPlayer hp, Memory.leaderboard_eq h]
  simp only [hmine, Except.ok.injEq, PlayerStats.mk.injEq, true_and]
  have hrow : ∀ row : LeaderboardRow,
      (row.nickname == p.nickname && row.score == Postgres.score cfg db p.id) =
        decide (row = leaderboardRow cfg db p) := by
    rintro ⟨name, score⟩
    simp [leaderboardRow, Bool.beq_eq_decide_eq]
  simp only [hrow]
  by_cases hnear : db.playersAhead cfg p < 10000
  · rw [if_pos hnear]
    have hplace := hboard.getElem? h hp hnear
    obtain ⟨hlen, hget⟩ := List.getElem?_eq_some_iff.mp hplace
    have hfound : (Postgres.board cfg db 10000).findIdx?
        (fun row ↦ decide (row = leaderboardRow cfg db p)) = some (db.playersAhead cfg p) := by
      refine List.findIdx?_eq_some_iff_getElem.mpr ⟨hlen, by simpa using hget, fun j hj heq ↦ ?_⟩
      have hsame : j = db.playersAhead cfg p :=
        (hboard.nodup h).getElem_inj_iff.mp ((of_decide_eq_true heq).trans hget.symm)
      omega
    rw [hfound, Option.map_some]
  · rw [if_neg hnear, Option.map_eq_none_iff, List.findIdx?_eq_none_iff]
    intro row hmem
    refine decide_eq_false fun heq ↦ hnear ?_
    obtain ⟨q, hq, hqrow, hlt⟩ := (hboard.mem_iff h).mp hmem
    obtain rfl := h.leaderboardRow_inj hq hp (hqrow.trans heq)
    exact hlt

/-! ## What is embedded -/

/-- The rows that are shown can be embedded in one order only when no two of them tie. -/
theorem Postgres.embedded_iff (h : db.Rankable) {board : List LeaderboardRow}
    (hb : Postgres.Leaderboard cfg db top board) :
    (∀ rows, Postgres.Embedded cfg db top rows → rows = board) ↔
      ∀ r ∈ db.players, ∀ s ∈ db.players, r ≠ s →
        Postgres.score cfg db r.id = Postgres.score cfg db s.id →
        top ≤ db.playersAhead cfg r ∨ top ≤ db.playersAhead cfg s := by
  have hscores : board.Pairwise fun a b ↦ OrderDual.toDual a.score ≤ OrderDual.toDual b.score :=
    (hb.strict h).imp LeaderboardRow.toDual_score_le
  have hone : (∀ rows, Postgres.Embedded cfg db top rows → rows = board) ↔
      ∀ rows, OrderedBy (fun row : LeaderboardRow ↦ OrderDual.toDual row.score) board rows →
        rows = board := by
    refine ⟨fun hall rows hrows ↦ hall rows ⟨board, hb, hrows⟩, fun hall rows hrows ↦ ?_⟩
    obtain ⟨board', hb', hrows⟩ := hrows
    obtain rfl := Postgres.leaderboard_unique h hb hb'
    exact hall rows hrows
  rw [hone, OrderedBy.eq_iff_nodup hscores (hb.nodup h), List.nodup_map_iff_inj_on (hb.nodup h)]
  constructor
  · intro hinj r hr s hs hne hscore
    by_contra! hshown
    have hsame : leaderboardRow cfg db r = leaderboardRow cfg db s := hinj _ ?_ _ ?_ ?_
    · exact hne (h.leaderboardRow_inj hr hs hsame)
    · exact (hb.mem_iff h).mpr ⟨r, hr, rfl, hshown.1⟩
    · exact (hb.mem_iff h).mpr ⟨s, hs, rfl, hshown.2⟩
    · exact congrArg OrderDual.toDual hscore
  · intro hties row hrow row' hrow' hscore
    obtain ⟨r, hr, rfl, hlt⟩ := (hb.mem_iff h).mp hrow
    obtain ⟨s, hs, rfl, hlt'⟩ := (hb.mem_iff h).mp hrow'
    by_contra hne
    have hrs : r ≠ s := fun heq ↦ hne (by rw [heq])
    rcases hties r hr s hs hrs (OrderDual.toDual_inj.mp hscore) with hfar | hfar <;> omega

/-- **When the rankings are one.** -/
theorem one_ranking_iff (cfg : GameFeatureConfig) (top : ℕ) (h : db.Rankable)
    (hp : p ∈ db.players) :
    OneRanking cfg db top p ↔
      (∀ r ∈ db.players, ∀ s ∈ db.players, r ≠ s →
        Postgres.score cfg db r.id = Postgres.score cfg db s.id →
        top ≤ db.playersAhead cfg r ∨ top ≤ db.playersAhead cfg s) ∧
      db.playersAhead cfg p < 10000 := by
  have hboard := Postgres.leaderboard_board cfg db top
  constructor
  · intro hone
    refine ⟨(Postgres.embedded_iff h hboard).mp fun rows hrows ↦ hone.embedded _ _ hboard hrows, ?_⟩
    have hstats := hone.playerStats
    rw [Memory.playerStats_eq h hp, Postgres.playerStats_eq h hp] at hstats
    by_contra hfar
    simp [hfar] at hstats
  · rintro ⟨hties, hnear⟩
    constructor
    case embedded => exact fun board rows hb hrows ↦
      (Postgres.embedded_iff h hb).mpr hties rows hrows
    case stats => exact Postgres.myStats_eq h hp
    case listed =>
      intro board hb r hr hle
      rw [Postgres.playerStats_eq h hp, Option.some.injEq] at hr
      subst hr
      refine ⟨Nat.succ_pos _, ?_⟩
      rw [Nat.add_sub_cancel, Postgres.playerStats_eq h hp]
      exact hb.getElem? h hp hle
    case leaderboard => exact fun board hb ↦
      (Memory.leaderboard_eq h top).trans (hb.eq_board h).symm
    case playerStats => rw [Memory.playerStats_eq h hp, Postgres.playerStats_eq h hp, if_pos hnear]

end

/-- What `fetch_state_bundle` was modelled to return is one of the answers it may give. -/
theorem Postgres.embedded_fetchStateBundle {cfg : StateConfig} {faces : Uuid → CardFace}
    {order : RowOrder} {now : Time} {db : Db} {p : Uuid} {b : StateBundle} (h : db.Rankable)
    (hb : Postgres.fetchStateBundle cfg faces order now db p = some b) :
    Postgres.Embedded cfg.toGameFeatureConfig db cfg.leaderboardStateTop b.leaderboardTop ∧
      b.stats = Postgres.myStats cfg.toGameFeatureConfig db p := by
  cases hp : db.findPlayer p with
  | none => simp [Postgres.fetchStateBundle, hp] at hb
  | some me =>
    rw [Postgres.fetchStateBundle, hp, Option.map_some, Option.some.injEq] at hb
    rw [← hb]
    have hboard := Postgres.leaderboard_board cfg.toGameFeatureConfig db cfg.leaderboardStateTop
    refine ⟨⟨_, hboard, .refl _, (hboard.strict h).imp fun hlt ↦ ?_⟩, ?_⟩
    · exact LeaderboardRow.toDual_score_le hlt
    · obtain rfl := Db.findPlayer_id hp
      exact (Postgres.myStats_eq h (List.mem_of_find?_eq_some hp)).symm

/-! ## A tie -/

/-- Two players who have not played yet. -/
def tiedDb : Db where
  players := [⟨1, "Asha".toList, "as".toList, ["en".toList]⟩,
    ⟨2, "Ravi".toList, "hi".toList, ["en".toList]⟩]
  queue := []
  pairs := []
  decks := []
  cards := []
  turns := []
  jobs := []
  fingerprints := []

theorem rankable_tiedDb : tiedDb.Rankable := by
  refine ⟨?_, ?_, by decide, by decide⟩
  · show (tiedDb.players.map PlayerRecord.id).Nodup
    decide
  · show (tiedDb.players.map PlayerRecord.nickname).Nodup
    decide

/-- The rankings of the two are one while one row is shown, and no longer with five. -/
theorem one_ranking_iff_tiedDb :
    OneRanking {} tiedDb 1 ⟨1, "Asha".toList, "as".toList, ["en".toList]⟩ ∧
      ¬ OneRanking {} tiedDb 5 ⟨1, "Asha".toList, "as".toList, ["en".toList]⟩ := by
  constructor
  · exact (one_ranking_iff {} 1 rankable_tiedDb (by decide)).mpr (by decide)
  · exact (one_ranking_iff {} 5 rankable_tiedDb (by decide)).not.mpr (by decide)

/-- The leaderboard begins with Asha, and what is embedded may begin with Ravi. -/
theorem embedded_differs : tiedDb.Rankable ∧
    Postgres.Leaderboard {} tiedDb 5 [⟨"Asha".toList, 0⟩, ⟨"Ravi".toList, 0⟩] ∧
      Postgres.Embedded {} tiedDb 5 [⟨"Ravi".toList, 0⟩, ⟨"Asha".toList, 0⟩] := by
  have hboard : Postgres.Leaderboard {} tiedDb 5 [⟨"Asha".toList, 0⟩, ⟨"Ravi".toList, 0⟩] :=
    ⟨[⟨"Asha".toList, 0⟩, ⟨"Ravi".toList, 0⟩], ⟨.refl _, by decide⟩, rfl⟩
  exact ⟨rankable_tiedDb, hboard, _, hboard, .swap _ _ _, by decide⟩

end Neva
