import Neva.Game.State

/-!
# What the version of a state tells

A client polls `GET /api/state` and renders the answer only if `state_version` has changed.  So the
version has to change whenever anything the client sees does, and that has two parts.

* The hashed text must tell the hashed fields apart.  The fields are joined by `|`, which only the
  board may contain, and the board is the last field but one, so they can be read back
  (`payload_injective`).  The rows of the board are joined by `,` and nothing is escaped.  They can
  be read back when no nickname begins like a whole row for somebody else, the comma included
  (`leaderboardFingerprint_injective`).
* Every other field of the response must follow from the hashed ones.  `Coherent` says what two
  bundles fetched from one deployment have in common, and `composeStateResponse_eq` is the proof
  that it is enough.
-/

set_option autoImplicit false

namespace Neva

/-! ## Reading the board back -/

theorem notMem_toDigits {c : Char} (hc : c.isDigit = false) (n : ℕ) : c ∉ Nat.toDigits 10 n := by
  intro h
  rw [Nat.isDigit_of_mem_toDigits (by decide) (by decide) h] at hc
  cases hc

theorem toDigits_injective {m n : ℕ} (h : Nat.toDigits 10 m = Nat.toDigits 10 n) : m = n := by
  rw [← Nat.ofDigitChars_ten_toDigits (n := m), h, Nat.ofDigitChars_ten_toDigits]

/-- The nickname begins as a row of the board for `other` does, the comma after it included. -/
def BeginsLikeRow (points : ℕ) (other nickname : Text) : Prop :=
  ∃ rounds, other ++ ':' :: (Nat.toDigits 10 (rounds * points) ++ [',']) <+: nickname

namespace LeaderboardRow

variable {row row' : LeaderboardRow} {points : ℕ}

theorem text_injective (h : row.text = row'.text) : row = row' := by
  obtain ⟨hnickname, hscore⟩ := append_sep_inj_right (notMem_toDigits (by decide) _)
    (notMem_toDigits (by decide) _) h
  cases row
  cases row'
  simp only at hnickname hscore
  rw [hnickname, toDigits_injective hscore]

theorem text_ne_nil (row : LeaderboardRow) : row.text ≠ [] := by simp [text]

/-- A row that another begins with, comma included, is one its nickname begins with. -/
theorem beginsLikeRow (hpoints : points ∣ row.score) (h : row.text ++ [','] <+: row'.text) :
    BeginsLikeRow points row.nickname row'.nickname := by
  obtain ⟨rounds, hrounds⟩ := hpoints
  have hcomma : ',' ∉ ':' :: Nat.toDigits 10 row'.score :=
    List.not_mem_cons_of_ne_of_not_mem (by decide) (notMem_toDigits (by decide) _)
  have hprefix := prefix_of_prefix_append hcomma h
  rw [text, hrounds, mul_comm, List.append_assoc, List.cons_append] at hprefix
  exact ⟨rounds, hprefix⟩

end LeaderboardRow

/-- **The board can be read back** when no nickname begins like a row for another. -/
theorem leaderboardFingerprint_injective (points : ℕ) {rows rows' : List LeaderboardRow}
    (hscore : ∀ row ∈ rows, points ∣ row.score) (hscore' : ∀ row ∈ rows', points ∣ row.score)
    (hnames : ∀ row ∈ rows, ∀ row' ∈ rows', ¬ BeginsLikeRow points row.nickname row'.nickname)
    (hnames' : ∀ row ∈ rows', ∀ row' ∈ rows, ¬ BeginsLikeRow points row.nickname row'.nickname)
    (h : leaderboardFingerprint rows = leaderboardFingerprint rows') : rows = rows' := by
  refine List.map_injective_iff.mpr (fun _ _ ↦ LeaderboardRow.text_injective)
    (joinedBy_injective ?_ ?_ ?_ ?_ h)
  · simp only [List.forall_mem_map]
    exact fun row hrow row' hrow' hp ↦ hnames row hrow row' hrow'
      (LeaderboardRow.beginsLikeRow (hscore row hrow) hp)
  · simp only [List.forall_mem_map]
    exact fun row hrow row' hrow' hp ↦
      hnames' row hrow row' hrow' (LeaderboardRow.beginsLikeRow (hscore' row hrow) hp)
  · simp [LeaderboardRow.text_ne_nil]
  · simp [LeaderboardRow.text_ne_nil]

/-! ## Reading the fields back -/

theorem bar_notMem_uuidText (u : Uuid) : '|' ∉ uuidText u :=
  notMem_uuidText (by decide) (by decide) u

theorem Phase.value_injective {p q : Phase} (h : p.value = q.value) : p = q := by
  cases p <;> cases q <;> first | rfl | exact absurd h (by decide)

theorem TurnStatus.value_injective {s t : TurnStatus} (h : s.value = t.value) : s = t := by
  cases s <;> cases t <;> first | rfl | exact absurd h (by decide)

/-- An optional field is left blank when it is not there. -/
theorem getD_map_injective {α : Type} {f : α → Text} (hinj : ∀ a b, f a = f b → a = b)
    (hne : ∀ a, f a ≠ []) {x y : Option α} (h : (x.map f).getD [] = (y.map f).getD []) : x = y := by
  cases x with
  | none =>
    cases y with
    | none => rfl
    | some b => exact absurd h.symm (hne b)
  | some a =>
    cases y with
    | none => exact absurd h (hne a)
    | some b => exact congrArg some (hinj a b h)

theorem notMem_getD_map {α : Type} {f : α → Text} {c : Char} (hc : ∀ a, c ∉ f a) (x : Option α) :
    c ∉ (x.map f).getD [] := by
  cases x with
  | none => exact List.not_mem_nil
  | some a => exact hc a

/-- No player ranks zeroth, so the rank can be read back. -/
theorem rankText_injective {r r' : Option ℕ} (hr : r ≠ some 0) (hr' : r' ≠ some 0)
    (h : rankText r = rankText r') : r = r' := by
  have hsome : ∀ {x : Option ℕ}, x ≠ some 0 → rankText x = (x.map (Nat.toDigits 10)).getD [] := by
    intro x hx
    rcases x with - | - | n
    · rfl
    · exact absurd rfl hx
    · rfl
  rw [hsome hr, hsome hr'] at h
  exact getD_map_injective (fun _ _ ↦ toDigits_injective) (fun _ ↦ Nat.toDigits_ne_nil) h

theorem bar_notMem_rankText (r : Option ℕ) : '|' ∉ rankText r := by
  rcases r with - | - | n
  · exact List.not_mem_nil
  · exact List.not_mem_nil
  · exact notMem_toDigits (by decide) _

/-- **The fields can be read back**, up to the text of the board. -/
theorem VersionFields.payload_injective {v v' : VersionFields} (hrank : v.rank ≠ some 0)
    (hrank' : v'.rank ≠ some 0) (h : v.payload = v'.payload) :
    v' = { v with leaderboardTop := v'.leaderboardTop } ∧
      leaderboardFingerprint v.leaderboardTop = leaderboardFingerprint v'.leaderboardTop := by
  have hdigits (n : ℕ) : '|' ∉ Nat.toDigits 10 n := notMem_toDigits (by decide) n
  have huuid (x : Option Uuid) : '|' ∉ (x.map uuidText).getD [] :=
    notMem_getD_map bar_notMem_uuidText x
  have hphase (p : Phase) : '|' ∉ p.value := by cases p <;> decide
  have hstatus (s : Option TurnStatus) : '|' ∉ (s.map TurnStatus.value).getD [] :=
    notMem_getD_map (fun s ↦ by cases s <;> decide) s
  simp only [payload, joinedBy_cons_cons, joinedBy_singleton] at h
  obtain ⟨h₁, h⟩ := append_sep_inj (hphase _) (hphase _) h
  obtain ⟨h₂, h⟩ := append_sep_inj (bar_notMem_uuidText _) (bar_notMem_uuidText _) h
  obtain ⟨h₃, h⟩ := append_sep_inj (huuid _) (huuid _) h
  obtain ⟨h₄, h⟩ := append_sep_inj (huuid _) (huuid _) h
  obtain ⟨h₅, h⟩ := append_sep_inj (hstatus _) (hstatus _) h
  obtain ⟨h₆, h⟩ := append_sep_inj (hdigits _) (hdigits _) h
  obtain ⟨h₇, h⟩ := append_sep_inj (hdigits _) (hdigits _) h
  obtain ⟨h₈, h⟩ := append_sep_inj (bar_notMem_rankText _) (bar_notMem_rankText _) h
  obtain ⟨h₉, h⟩ := append_sep_inj (hdigits _) (hdigits _) h
  have hqueued (q : Bool) : '|' ∉ (if q then ['1'] else ['0'] : Text) := by cases q <;> decide
  obtain ⟨hboard, hq⟩ := append_sep_inj_right (hqueued _) (hqueued _) h
  refine ⟨?_, hboard⟩
  have hq' : v.queued = v'.queued := by
    revert hq
    generalize v.queued = q
    generalize v'.queued = q'
    revert q q'
    decide
  rw [Phase.value_injective h₁, uuidText_injective h₂,
    getD_map_injective (fun _ _ ↦ uuidText_injective) uuidText_ne_nil h₃,
    getD_map_injective (fun _ _ ↦ uuidText_injective) uuidText_ne_nil h₄,
    getD_map_injective (fun _ _ ↦ TurnStatus.value_injective) (fun s ↦ by cases s <;> decide) h₅,
    toDigits_injective h₆, toDigits_injective h₇, rankText_injective hrank hrank' h₈,
    toDigits_injective h₉, hq']

/-! ## What follows from the hashed fields -/

/-- The bundles agree in everything that does not change while the identifiers in it do not: the
columns of a row that are written once, the audio and the outcome of a turn once they are there, and
the decoys while the player chooses among them. -/
structure StateBundle.Coherent (roundsCap : ℤ) (b b' : StateBundle) : Prop where
  player : b'.player = b.player
  pair : b'.pair.map PairRecord.id = b.pair.map PairRecord.id → pairState b' = pairState b ∧
    b'.pair.map PairRecord.commonLang = b.pair.map PairRecord.commonLang
  turn : ∀ t t', b.turn = some t → b'.turn = some t' → t'.id = t.id →
    t'.speakerId = t.speakerId ∧ t'.guesserId = t.guesserId ∧ t'.createdAt = t.createdAt ∧
      (t'.status = t.status → t.status = .awaitingGuess → t'.audioPath = t.audioPath)
  card : b'.pair.map PairRecord.id = b.pair.map PairRecord.id →
    b'.turn.map TurnRecord.id = b.turn.map TurnRecord.id →
    b'.card = b.card ∧ (b.Guessing → b.stats.roundsPlayed < roundsCap →
      b'.decoyLabels = b.decoyLabels)
  result : b'.pair.map PairRecord.id = b.pair.map PairRecord.id →
    b'.stats.roundsPlayed = b.stats.roundsPlayed →
    b'.previousScored.map TurnRecord.outcome = b.previousScored.map TurnRecord.outcome

/-- The arguments `compose_state_response` passes to `compute_state_version`. -/
def hashedFields (cfg : StateConfig) (roundsCap : ℤ) (now : Time) (b : StateBundle) :
    VersionFields :=
  if roundsCap ≤ b.stats.roundsPlayed ∨ b.pair.any (fun pair ↦ pair.status == .completed) then
    versionFields b .sessionDone b.pair b.turn false
  else match b.pair with
    | none => versionFields b (if b.queued then .queued else .onboarding) none none b.queued
    | some pair =>
      versionFields b (phaseForTurn cfg now b (viewerRole b)) (some pair) b.turn false

section

variable {checksum : Text → ℕ} {shuffle : Text → List OptionState → List OptionState}
  {cfg : StateConfig} {roundsCap : ℤ} {now now' : Time} {b b' : StateBundle}

theorem composeStateResponse_stateVersion :
    (composeStateResponse checksum shuffle cfg roundsCap now b).stateVersion =
      computeStateVersion checksum (hashedFields cfg roundsCap now b) := by
  by_cases hdone : roundsCap ≤ b.stats.roundsPlayed ∨
      b.pair.any (fun pair ↦ pair.status == .completed) = true
  · rw [composeStateResponse, hashedFields, if_pos hdone, if_pos hdone]
  · rw [composeStateResponse, hashedFields, if_neg hdone, if_neg hdone]
    cases b.pair <;> rfl

theorem composeStateResponse_leaderboardTop :
    (composeStateResponse checksum shuffle cfg roundsCap now b).leaderboardTop = board b := by
  by_cases hdone : roundsCap ≤ b.stats.roundsPlayed ∨
      b.pair.any (fun pair ↦ pair.status == .completed) = true
  · rw [composeStateResponse, if_pos hdone]
  · rw [composeStateResponse, if_neg hdone]
    cases b.pair <;> rfl

/-- The rank and the board are hashed in every branch. -/
theorem hashedFields_stats (cfg : StateConfig) (roundsCap : ℤ) (now : Time) (b : StateBundle) :
    (hashedFields cfg roundsCap now b).score = b.stats.score ∧
    (hashedFields cfg roundsCap now b).rank = b.stats.rank ∧
    (hashedFields cfg roundsCap now b).roundsPlayed = b.stats.roundsPlayed ∧
    (hashedFields cfg roundsCap now b).leaderboardTop = b.leaderboardTop := by
  by_cases hdone : roundsCap ≤ b.stats.roundsPlayed ∨
      b.pair.any (fun pair ↦ pair.status == .completed) = true
  · rw [hashedFields, if_pos hdone]
    exact ⟨rfl, rfl, rfl, rfl⟩
  · rw [hashedFields, if_neg hdone]
    cases b.pair <;> exact ⟨rfl, rfl, rfl, rfl⟩

/-- A phase of a pair at play. -/
theorem phaseForTurn_ne (role : Option Role) : phaseForTurn cfg now b role ≠ .sessionDone ∧
    phaseForTurn cfg now b role ≠ .queued ∧ phaseForTurn cfg now b role ≠ .onboarding := by
  rw [phaseForTurn]
  cases b.turn with
  | none => simp
  | some turn =>
    dsimp only
    split
    · simp
    · by_cases hs : role = some .speaker <;> by_cases hg : role = some .guesser <;>
        cases turn.status <;> simp [hs, hg]

/-- The last result shows the outcome of the turn and nothing else of it. -/
theorem lastResult_congr
    (h : b'.previousScored.map TurnRecord.outcome = b.previousScored.map TurnRecord.outcome) :
    lastResult cfg b' = lastResult cfg b := by
  rw [lastResult, lastResult]
  cases hb : b.previousScored with
  | none =>
    rw [hb, Option.map_none, Option.map_eq_none_iff] at h
    rw [h]
  | some t =>
    rw [hb, Option.map_some, Option.map_eq_some_iff] at h
    obtain ⟨t', ht', ho⟩ := h
    rw [ht', Option.map_some, Option.map_some, ho]

theorem viewerRole_congr (hcoh : b.Coherent roundsCap b')
    (hturn : b'.turn.map TurnRecord.id = b.turn.map TurnRecord.id) :
    viewerRole b' = viewerRole b := by
  rw [viewerRole, viewerRole, hcoh.player]
  cases hb : b.turn with
  | none =>
    rw [hb, Option.map_none, Option.map_eq_none_iff] at hturn
    rw [hturn]
  | some t =>
    rw [hb, Option.map_some, Option.map_eq_some_iff] at hturn
    obtain ⟨t', ht', hid⟩ := hturn
    obtain ⟨hspeaker, hguesser, -⟩ := hcoh.turn t t' hb ht' hid
    rw [ht', Option.bind_some, Option.bind_some, hspeaker, hguesser]

/-- The view of the turn follows from the identifiers of the turn and the pair, its status and the
number of attempts. -/
theorem turnState_congr (hcoh : b.Coherent roundsCap b')
    (hrounds : b.stats.roundsPlayed < roundsCap)
    (hpair : b'.pair.map PairRecord.id = b.pair.map PairRecord.id)
    (hturn : b'.turn.map TurnRecord.id = b.turn.map TurnRecord.id)
    (hstatus : b'.turn.map TurnRecord.status = b.turn.map TurnRecord.status)
    (hattempts : (b'.turn.map TurnRecord.attempts).getD 0 = (b.turn.map TurnRecord.attempts).getD 0)
    (phase : Phase) :
    turnState shuffle cfg b' (viewerRole b) phase =
      turnState shuffle cfg b (viewerRole b) phase := by
  obtain ⟨hcard, hdecoys⟩ := hcoh.card hpair hturn
  rw [turnState, turnState]
  cases hb : b.turn with
  | none =>
    rw [hb, Option.map_none, Option.map_eq_none_iff] at hturn
    rw [hturn]
  | some t =>
    rw [hb, Option.map_some, Option.map_eq_some_iff] at hturn
    obtain ⟨t', ht', hid⟩ := hturn
    obtain ⟨-, -, hcreated, haudio⟩ := hcoh.turn t t' hb ht' hid
    rw [hb, ht', Option.map_some, Option.map_some, Option.some.injEq] at hstatus
    rw [hb, ht', Option.map_some, Option.map_some, Option.getD_some, Option.getD_some] at hattempts
    rw [ht']
    cases hp : b.pair with
    | none =>
      rw [hp, Option.map_none, Option.map_eq_none_iff] at hpair
      rw [hpair]
    | some pair =>
      have hlang := (hcoh.pair hpair).2
      rw [hp, Option.map_some, Option.map_eq_some_iff] at hpair hlang
      obtain ⟨pair', hp', -⟩ := hpair
      obtain ⟨pair'', hp'', hlang⟩ := hlang
      rw [hp', Option.some.injEq] at hp''
      subst hp''
      rw [hp']
      dsimp only
      by_cases hguess : viewerRole b = some .guesser ∧ t.status = .awaitingGuess
      · have hdecoys := hdecoys ⟨t, hb, viewerRole_eq_guesser hb hguess.1, hguess.2⟩ hrounds
        simp only [turnStateOf, optionItems, hid, hstatus, hcreated, hattempts, hcard, hdecoys,
          hlang, haudio hstatus hguess.2]
      · simp only [turnStateOf, hstatus, hcreated, hcard, hlang, if_neg hguess]

/-- The phase tells which branch has been taken. -/
theorem sessionDone_iff : (hashedFields cfg roundsCap now b).phase = .sessionDone ↔
    roundsCap ≤ b.stats.roundsPlayed ∨
      b.pair.any (fun pair ↦ pair.status == .completed) = true := by
  by_cases hdone : roundsCap ≤ b.stats.roundsPlayed ∨
      b.pair.any (fun pair ↦ pair.status == .completed) = true
  · rw [hashedFields, if_pos hdone]
    exact ⟨fun _ ↦ hdone, fun _ ↦ rfl⟩
  · rw [hashedFields, if_neg hdone]
    refine ⟨fun h ↦ ?_, fun h ↦ absurd h hdone⟩
    cases hpair : b.pair with
    | none =>
      rw [hpair] at h
      cases hq : b.queued <;> simp [hq, versionFields] at h
    | some pair =>
      rw [hpair] at h
      exact absurd h (phaseForTurn_ne _).1

/-- **Every visible field follows from the hashed ones**, in bundles that cohere. -/
theorem composeStateResponse_eq (hcoh : b.Coherent roundsCap b')
    (h : hashedFields cfg roundsCap now' b' = hashedFields cfg roundsCap now b) :
    composeStateResponse checksum shuffle cfg roundsCap now' b' =
      composeStateResponse checksum shuffle cfg roundsCap now b := by
  obtain ⟨hscore, hrank, hrounds, hboard⟩ := hashedFields_stats cfg roundsCap now b
  obtain ⟨hscore', hrank', hrounds', hboard'⟩ := hashedFields_stats cfg roundsCap now' b'
  rw [h] at hscore' hrank' hrounds' hboard'
  have hstats : b'.stats = b.stats := by
    cases hs : b.stats
    cases hs' : b'.stats
    simp only [hs, hs'] at hscore hrank hrounds hscore' hrank' hrounds'
    rw [← hscore, ← hrank, ← hrounds, ← hscore', ← hrank', ← hrounds']
  have htop : b'.leaderboardTop = b.leaderboardTop := hboard'.symm.trans hboard
  have hplayer : playerState roundsCap b' = playerState roundsCap b := by
    rw [playerState, playerState, hcoh.player, hstats]
  have hrows : board b' = board b := by rw [board, board, htop]
  have hversion : computeStateVersion checksum (hashedFields cfg roundsCap now' b') =
      computeStateVersion checksum (hashedFields cfg roundsCap now b) := by rw [h]
  have hphase : (hashedFields cfg roundsCap now' b').phase =
      (hashedFields cfg roundsCap now b).phase := by rw [h]
  by_cases hdone : roundsCap ≤ b.stats.roundsPlayed ∨
      b.pair.any (fun pair ↦ pair.status == .completed) = true
  · have hdone' := sessionDone_iff.mp (hphase.trans (sessionDone_iff.mpr hdone))
    rw [hashedFields, if_pos hdone', hashedFields, if_pos hdone] at h hversion
    have hpair : b'.pair.map PairRecord.id = b.pair.map PairRecord.id :=
      congrArg VersionFields.pairId h
    rw [composeStateResponse, if_pos hdone', composeStateResponse, if_pos hdone, hversion, hplayer,
      hrows, (hcoh.pair hpair).1, lastResult_congr (hcoh.result hpair (congrArg _ hstats))]
  · have hdone' : ¬ _ := fun hd ↦ hdone (sessionDone_iff.mp (hphase.symm.trans
      (sessionDone_iff.mpr hd)))
    rw [hashedFields, if_neg hdone', hashedFields, if_neg hdone] at h hversion
    rw [composeStateResponse, if_neg hdone', composeStateResponse, if_neg hdone]
    cases hp : b.pair with
    | none =>
      cases hp' : b'.pair with
      | none =>
        rw [hp, hp'] at h hversion
        have hqueued : b'.queued = b.queued := congrArg VersionFields.queued h
        dsimp only at hversion ⊢
        rw [hversion, hplayer, hrows, hqueued]
      | some pair' =>
        rw [hp, hp'] at h
        have hphase : phaseForTurn cfg now' b' (viewerRole b') = _ := congrArg VersionFields.phase h
        obtain ⟨-, hq, ho⟩ := @phaseForTurn_ne cfg now' b' (viewerRole b')
        cases hqueued : b.queued <;> simp [hqueued, versionFields] at hphase
        · exact absurd hphase ho
        · exact absurd hphase hq
    | some pair =>
      cases hp' : b'.pair with
      | none =>
        rw [hp, hp'] at h
        have hphase : _ = phaseForTurn cfg now b (viewerRole b) := congrArg VersionFields.phase h
        obtain ⟨-, hq, ho⟩ := @phaseForTurn_ne cfg now b (viewerRole b)
        cases hqueued : b'.queued <;> simp [hqueued, versionFields] at hphase
        · exact absurd hphase.symm ho
        · exact absurd hphase.symm hq
      | some pair' =>
        rw [hp, hp'] at h hversion
        have hpair : b'.pair.map PairRecord.id = b.pair.map PairRecord.id := by
          rw [hp, hp']
          exact congrArg VersionFields.pairId h
        have hturn : b'.turn.map TurnRecord.id = b.turn.map TurnRecord.id :=
          congrArg VersionFields.turnId h
        have hphase : phaseForTurn cfg now' b' (viewerRole b') =
            phaseForTurn cfg now b (viewerRole b) := congrArg VersionFields.phase h
        have hview :
          turnState shuffle cfg b' (viewerRole b) (phaseForTurn cfg now b (viewerRole b)) =
            turnState shuffle cfg b (viewerRole b) (phaseForTurn cfg now b (viewerRole b)) :=
          turnState_congr hcoh (not_le.mp fun hle ↦ hdone (.inl hle)) hpair hturn
            (congrArg VersionFields.turnStatus h) (congrArg VersionFields.attempts h) _
        dsimp only at hversion ⊢
        rw [hversion, hplayer, hrows, hphase, viewerRole_congr hcoh hturn, hview,
          (hcoh.pair hpair).1, lastResult_congr (hcoh.result hpair (congrArg _ hstats))]

/-- **Equal versions mean equal responses**, in bundles that cohere and whose boards can be told
apart. -/
theorem composeStateResponse_eq_of_version (hchecksum : checksum.Injective)
    (hcoh : b.Coherent roundsCap b')
    (hrank : b.stats.rank ≠ some 0) (hrank' : b'.stats.rank ≠ some 0)
    (hboard : leaderboardFingerprint b.leaderboardTop = leaderboardFingerprint b'.leaderboardTop →
      b.leaderboardTop = b'.leaderboardTop)
    (h : (composeStateResponse checksum shuffle cfg roundsCap now b).stateVersion =
      (composeStateResponse checksum shuffle cfg roundsCap now' b').stateVersion) :
    composeStateResponse checksum shuffle cfg roundsCap now b =
      composeStateResponse checksum shuffle cfg roundsCap now' b' := by
  rw [composeStateResponse_stateVersion, composeStateResponse_stateVersion] at h
  obtain ⟨-, hr, -, htop⟩ := hashedFields_stats cfg roundsCap now b
  obtain ⟨-, hr', -, htop'⟩ := hashedFields_stats cfg roundsCap now' b'
  obtain ⟨hfields, htext⟩ := VersionFields.payload_injective (hr ▸ hrank) (hr' ▸ hrank')
    (hchecksum h)
  rw [htop, htop'] at htext
  rw [htop', ← hboard htext, ← htop] at hfields
  exact (composeStateResponse_eq hcoh hfields).symm

end

end Neva
