import Neva.Play.Views

/-!
# Where the points are

No table keeps a score: `app/game/pg_store.py` sums the points of a player's turns whenever it is
asked.  A validated turn gives its points to both of its players, and a scored turn counts as a
round for both, so what all players have together is twice what the turns are worth.  That is
because both seats of a turn are taken, by two different players that there are; it is an invariant
of the deployment, and not a constraint of the schema.
-/

set_option autoImplicit false

/-! ## Counting -/

namespace Tables

/-- The pairs of related elements of two lists, counted from either side. -/
theorem sum_map_countP_comm {α β : Type*} (r : α → β → Bool) (l : List α) (l' : List β) :
    (l.map fun a ↦ l'.countP fun b ↦ r a b).sum = (l'.map fun b ↦ l.countP fun a ↦ r a b).sum := by
  induction l with
  | nil => simp
  | cons a l ih =>
    have hsplit : ∀ l' : List β, (l'.map fun b ↦ (a :: l).countP fun a ↦ r a b).sum =
        l'.countP (fun b ↦ r a b) + (l'.map fun b ↦ l.countP fun a ↦ r a b).sum := by
      intro l'
      induction l' with
      | nil => rfl
      | cons b l' ih' =>
        rw [List.map_cons, List.sum_cons, ih', List.map_cons, List.sum_cons, List.countP_cons,
          List.countP_cons]
        omega
    rw [List.map_cons, List.sum_cons, ih, hsplit]

variable {α κ : Type*} {key : α → κ} {rows rows' : List α}

/-- Rows that pass a test and go on to pass it are no fewer than they were. -/
theorem Unique.countP_le (h : Unique key rows) {p : α → Bool}
    (hkept : ∀ r ∈ rows, p r = true → ∃ r' ∈ rows', p r' = true ∧ key r' = key r) :
    rows.countP p ≤ rows'.countP p := by
  have hsub : (rows.filter p).map key ⊆ (rows'.filter p).map key := by
    intro k hk
    obtain ⟨r, hr, rfl⟩ := List.mem_map.mp hk
    obtain ⟨hmem, hp⟩ := List.mem_filter.mp hr
    obtain ⟨r', hr', hp', hkey⟩ := hkept r hmem hp
    exact List.mem_map.mpr ⟨r', List.mem_filter.mpr ⟨hr', hp'⟩, hkey⟩
  have hlen := (List.subperm_of_subset (h.filter p) hsub).length_le
  rwa [List.length_map, List.length_map, ← List.countP_eq_length_filter,
    ← List.countP_eq_length_filter] at hlen

/-- Two rows have one of two keys. -/
theorem Unique.countP_pair [DecidableEq κ] (h : Unique key rows) {k k' : κ} (hne : k ≠ k')
    (hk : k ∈ rows.map key) (hk' : k' ∈ rows.map key) :
    (rows.countP fun r ↦ k == key r || k' == key r) = 2 := by
  have hperm : ((rows.map key).filter fun x ↦ k == x || k' == x).Perm [k, k'] := by
    refine (List.perm_ext_iff_of_nodup (List.Nodup.filter _ h) (by simpa using hne)).mpr fun x ↦ ?_
    rw [List.mem_filter, Bool.or_eq_true, beq_iff_eq, beq_iff_eq]
    constructor
    · rintro ⟨-, rfl | rfl⟩ <;> simp
    · intro hx
      rcases List.mem_pair.mp hx with rfl | rfl
      · exact ⟨hk, .inl rfl⟩
      · exact ⟨hk', .inr rfl⟩
  have hlen := hperm.length_eq
  rwa [← List.countP_eq_length_filter, List.countP_map] at hlen

end Tables

namespace Neva

open Calls Tables

variable {cfg : GameFeatureConfig} {v : Venue}

/-- A turn has two of the players. -/
theorem Venue.Sound.countP_involves (h : v.Sound) {t : TurnRecord} (ht : t ∈ v.db.turns) :
    (v.db.players.countP fun p ↦ t.involves p.id) = 2 := by
  obtain ⟨pair, hpair, -, hseats⟩ := h.seated t ht
  have hmem : ∀ p, (v.db.findPlayer p).isSome → p ∈ v.db.players.map PlayerRecord.id := by
    intro p hp
    obtain ⟨player, hfind⟩ := Option.isSome_iff_exists.mp hp
    exact List.mem_map.mpr ⟨player, List.mem_of_find?_eq_some hfind, Db.findPlayer_id hfind⟩
  obtain ⟨ha, hb⟩ := h.tidy.members pair hpair
  have hne := h.tidy.apart pair hpair
  rcases hseats with ⟨hs, hg⟩ | ⟨hs, hg⟩
  · refine h.tidy.playerIds.countP_pair ?_ (hs ▸ hmem _ ha) (hg ▸ hmem _ hb)
    rwa [hs, hg]
  · refine h.tidy.playerIds.countP_pair ?_ (hs ▸ hmem _ hb) (hg ▸ hmem _ ha)
    rw [hs, hg]
    exact hne.symm

/-- A test that looks at the turn alone, counted over the turns of each player. -/
theorem Venue.Sound.sum_turns (h : v.Sound) (p : TurnRecord → Bool) :
    (v.db.players.map fun q ↦ v.db.turns.countP fun t ↦ p t && t.involves q.id).sum =
      2 * v.db.turns.countP p := by
  rw [sum_map_countP_comm fun (q : PlayerRecord) t ↦ p t && t.involves q.id]
  have hturn : ∀ t ∈ v.db.turns, (v.db.players.countP fun q ↦ p t && t.involves q.id) =
      if p t then 2 else 0 := by
    intro t ht
    cases hp : p t with
    | false => simp
    | true => simpa using h.countP_involves ht
  rw [List.map_congr_left hturn]
  generalize v.db.turns = turns
  induction turns with
  | nil => rfl
  | cons t turns ih =>
    rw [List.map_cons, List.sum_cons, ih, List.countP_cons]
    split_ifs <;> omega

/-! ## What is never taken back -/

section

variable {db db' : Db}

/-- A turn that lasts keeps its players. -/
theorem TurnRecord.Lasts.involves {t t' : TurnRecord} (h : t.Lasts t') (p : Uuid) :
    t'.involves p = t.involves p := by
  rw [TurnRecord.involves, TurnRecord.involves, h.speakerId, h.guesserId]

theorem Db.Grows.roundsPlayed_le (h : db.Grows db') (htidy : db.Tidy) (p : Uuid) :
    db.roundsPlayed p ≤ db'.roundsPlayed p := by
  refine htidy.turnIds.countP_le fun t ht hcounts ↦ ?_
  obtain ⟨t', ht', hl⟩ := h.turns t ht
  refine ⟨t', ht', ?_, hl.id⟩
  simp only [Bool.and_eq_true, beq_iff_eq, hl.involves] at hcounts ⊢
  exact ⟨(hl.scored hcounts.1).1, hcounts.2⟩

/-- A turn that is validated has been scored. -/
theorem Db.Tidy.scored_of_validated (h : db.Tidy) {t : TurnRecord} (ht : t ∈ db.turns)
    (hv : t.outcome = .validated) : t.status = .scored := by
  by_contra hs
  have hpending := (h.turn t ht).pending.mpr hs
  rw [hv] at hpending
  cases hpending

theorem Db.Grows.score_le (h : db.Grows db') (htidy : db.Tidy) (p : Uuid) :
    Postgres.score cfg db p ≤ Postgres.score cfg db' p := by
  refine Nat.mul_le_mul_right _ (htidy.turnIds.countP_le fun t ht hcounts ↦ ?_)
  obtain ⟨t', ht', hl⟩ := h.turns t ht
  refine ⟨t', ht', ?_, hl.id⟩
  simp only [Bool.and_eq_true, beq_iff_eq, hl.involves] at hcounts ⊢
  exact ⟨(hl.scored (htidy.scored_of_validated ht hcounts.1)).2.trans hcounts.1, hcounts.2⟩

/-- Nobody has more points than the rounds they have played are worth. -/
theorem Db.Tidy.score_le (h : db.Tidy) (p : Uuid) :
    Postgres.score cfg db p ≤ db.roundsPlayed p * cfg.pointsPerValidation := by
  refine Nat.mul_le_mul_right _ (List.countP_mono_left fun t ht hcounts ↦ ?_)
  simp only [Bool.and_eq_true, beq_iff_eq] at hcounts ⊢
  exact ⟨h.scored_of_validated ht hcounts.1, hcounts.2⟩

end

/-! ## The result -/

/-- **Points are made in pairs and never taken back.**  In every state of a deployment, all players
together have twice the points of the validated turns, and twice as many rounds as there are scored
turns; nobody has more points than their rounds are worth; and in no later state does anybody have
fewer points or rounds. -/
theorem points_conserved (D : Deployment) {v₀ v : Venue} (hv₀ : v₀.Opening) (h : D.Later v₀ v) :
    (v.db.players.map fun p ↦ Postgres.score D.cfg.toGameFeatureConfig v.db p.id).sum =
        2 * D.cfg.pointsPerValidation * v.db.turns.countP (fun t ↦ t.outcome == .validated) ∧
      (v.db.players.map fun p ↦ v.db.roundsPlayed p.id).sum =
        2 * v.db.turns.countP (fun t ↦ t.status == .scored) ∧
      ∀ p, Postgres.score D.cfg.toGameFeatureConfig v.db p ≤
          v.db.roundsPlayed p * D.cfg.pointsPerValidation ∧
        ∀ v', D.Later v v' →
          Postgres.score D.cfg.toGameFeatureConfig v.db p ≤
            Postgres.score D.cfg.toGameFeatureConfig v'.db p ∧
          v.db.roundsPlayed p ≤ v'.db.roundsPlayed p := by
  have hv : v.Sound := h.sound hv₀.sound
  refine ⟨?_, hv.sum_turns _, fun p ↦ ⟨hv.tidy.score_le p, fun v' hl ↦ ?_⟩⟩
  · simp only [Postgres.score]
    rw [List.sum_map_mul_right, hv.sum_turns]
    ring
  · have hgrows := hl.grows hv
    exact ⟨hgrows.score_le hv.tidy p, hgrows.roundsPlayed_le hv.tidy p⟩

/-- After a round that was guessed right, two of the three players have ten points. -/
theorem points_conserved_round : ∃ v : Venue,
    v.db.turns.countP (fun t ↦ t.outcome == .validated) = 1 ∧
      (v.db.players.map fun p ↦
        Postgres.score defaultDeployment.cfg.toGameFeatureConfig v.db p.id).sum = 20 := by
  obtain ⟨c, hc, hrun⟩ := System.exists_reachable_of_run opening_threePlayers
    (show ((venue defaultSetup).run (System.start threePlayers)
      (pairUp ++ speak ++ .spawn (.guess 2 0) :: calls 4 16 7)).map (fun c ↦
        c.world.state.db.turns.countP (fun t ↦ t.outcome == .validated) == 1) = some true
      by decide +kernel)
  rw [beq_iff_eq] at hrun
  obtain ⟨v₀, hv₀, hl⟩ := Deployment.later_of_reachable (D := defaultDeployment) hc
  refine ⟨_, hrun, ?_⟩
  rw [(points_conserved defaultDeployment hv₀ hl).1, hrun]
  decide

end Neva
