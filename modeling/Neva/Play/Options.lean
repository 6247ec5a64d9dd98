import Neva.Shuffle
import Neva.Play.Polling

/-!
# The options of a guess

The guesser picks among the card of the turn and its decoys.  `_turn_state` lists the card first and
then the labels of the decoys, and shuffles the list with the identifier of the turn as the seed, so
that "both polls agree".

They agree when the list is the same before it is shuffled, and the labels come in the order of a
query without `ORDER BY`.  Every option is there once in any order (`Db.AwaitsGuess.fair`), but two
decoys can change places between two polls; `options_stable_iff` says that one decoy is the most
that is safe.
-/

set_option autoImplicit false

namespace Neva

open Tables

/-- A bundle `fetch_state_bundle` may return: the rows of `get_cards` come in any order. -/
def Postgres.MayFetch (cfg : StateConfig) (faces : Uuid → CardFace) (now : Time) (db : Db)
    (p : Uuid) (b : StateBundle) : Prop :=
  ∃ order, Postgres.fetchStateBundle cfg faces order now db p = some b

/-- The options a response shows. -/
def StateResponse.options (r : StateResponse) : Option (List OptionState) :=
  r.turn.bind TurnState.options

/-- The correct card is among the options once, and so is each decoy. -/
def FairOptions (card : Uuid) (decoys : List Uuid) (options : List OptionState) : Prop :=
  (options.map OptionState.id).count card = 1 ∧
    ∀ d ∈ decoys, (options.map OptionState.id).count d = 1

/-- The turn awaits a guess of the player, and the decoys of its card are other cards of the
deck. -/
structure Db.AwaitsGuess (db : Db) (faces : Uuid → CardFace) (roundsCap : ℤ) (p : Uuid)
    (pair : PairRecord) (turn : TurnRecord) (card : CardRecord) : Prop where
  cardIds : Tables.Unique CardRecord.id db.cards
  registered : (db.findPlayer p).isSome
  active : db.activePair p = some pair
  latest : db.latestTurn pair.id = some turn
  status : turn.status = .awaitingGuess
  guesser : turn.guesserId = p
  speaker : turn.speakerId ≠ p
  below : db.roundsPlayed p < roundsCap
  dealt : card ∈ db.cards
  shows : turn.cardId = card.id
  decoys : ∀ d ∈ (faces card.id).decoys,
    d ≠ card.id ∧ ∃ c ∈ db.cards, c.id = d ∧ c.deckId = card.deckId

section

variable {σ : Type} {g : Generator Text σ} {checksum : Text → ℕ}
  {shuffle : Text → List OptionState → List OptionState} {cfg : StateConfig}
  {faces : Uuid → CardFace} {roundsCap : ℤ} {now : Time} {db : Db} {p : Uuid} {pair : PairRecord}
  {turn : TurnRecord} {card : CardRecord}

/-! ## The labels of the decoys -/

/-- The labels come in the order of the rows, and the rows in any order. -/
theorem Db.perm_decoyLabels_iff {commonLang : Text} {decoys : List Uuid}
    {labels : List (Uuid × Text)} :
    labels.Perm (db.decoyLabels faces .stored commonLang decoys) ↔
      ∃ order, labels = db.decoyLabels faces order commonLang decoys := by
  let label (c : CardRecord) : Uuid × Text :=
    (c.id, resolveLabelText (faces c.id).labelCommon commonLang)
  constructor
  · intro h
    -- the rows are put in the order of the labels
    obtain ⟨found, hfound, hperm⟩ := List.perm_comp_forall₂ h
      (show List.Forall₂ (fun x c ↦ x = label c) (db.decoyLabels faces .stored commonLang decoys)
        (db.cards.filter fun c ↦ c.id ∈ decoys) from
        List.forall₂_map_left_iff.mpr (List.forall₂_same.mpr fun _ _ ↦ rfl))
    have hlabels : labels = found.map label :=
      List.forall₂_eq_eq_eq ▸ List.forall₂_map_right_iff.mpr hfound
    let order : RowOrder := ⟨fun rows ↦ if rows = db.cards.filter fun c ↦ c.id ∈ decoys then found
      else rows, fun rows ↦ by split_ifs with hrows <;> simp [hrows, hperm]⟩
    have horder : order.rows (db.cards.filter fun c ↦ c.id ∈ decoys) = found := if_pos rfl
    exact ⟨order, by rw [hlabels, Db.decoyLabels, Db.getCards, horder]⟩
  · rintro ⟨order, rfl⟩
    exact (order.perm _).map _

theorem Db.map_fst_decoyLabels {commonLang : Text} {decoys : List Uuid} :
    (db.decoyLabels faces .stored commonLang decoys).map Prod.fst =
      (db.cards.filter fun c ↦ c.id ∈ decoys).map CardRecord.id := by
  simp [Db.decoyLabels, Db.getCards, RowOrder.stored]

theorem Db.nodup_decoyLabels (h : Tables.Unique CardRecord.id db.cards) {commonLang : Text}
    {decoys : List Uuid} :
    ((db.decoyLabels faces .stored commonLang decoys).map Prod.fst).Nodup := by
  rw [Db.map_fst_decoyLabels]
  exact h.filter _

theorem Db.mem_decoyLabels {commonLang : Text} {decoys : List Uuid} {d : Uuid}
    (hd : ∃ c ∈ db.cards, c.id = d) :
    d ∈ (db.decoyLabels faces .stored commonLang decoys).map Prod.fst ↔ d ∈ decoys := by
  obtain ⟨c, hc, rfl⟩ := hd
  simp only [Db.map_fst_decoyLabels, List.mem_map, List.mem_filter, decide_eq_true_eq]
  constructor
  · rintro ⟨c', ⟨-, hmem⟩, hid⟩
    rwa [← hid]
  · exact fun h ↦ ⟨c, ⟨hc, h⟩, rfl⟩

/-! ## The options shown -/

/-- The options before the shuffle: the card of the turn, then the labels. -/
def shownItems (faces : Uuid → CardFace) (card : CardRecord) (pair : PairRecord)
    (labels : List (Uuid × Text)) : List OptionState :=
  ⟨card.id, resolveLabelText (faces card.id).labelCommon pair.commonLang⟩ ::
    labels.map fun decoy ↦ ⟨decoy.1, decoy.2⟩

theorem map_id_shownItems {labels : List (Uuid × Text)} :
    (shownItems faces card pair labels).map OptionState.id = card.id :: labels.map Prod.fst := by
  simp [shownItems]

theorem shownItems_injective : (shownItems faces card pair).Injective := by
  intro labels labels' h
  have htail := (List.cons.inj h).2
  refine List.map_injective_iff.mpr (fun x y hxy ↦ ?_) htail
  exact Prod.ext (OptionState.mk.inj hxy).1 (OptionState.mk.inj hxy).2

theorem Db.AwaitsGuess.pictureCard (h : db.AwaitsGuess faces roundsCap p pair turn card) :
    db.pictureCard faces turn.cardId =
      some ⟨card.id, (faces card.id).imagePath, (faces card.id).labelCommon⟩ := by
  rw [Db.pictureCard, h.cardIds.find?_eq_some.mpr ⟨h.dealt, h.shows.symm⟩, Option.map_some]

/-- The query answers, and its labels are those of the decoys, in any order. -/
theorem Db.AwaitsGuess.fetch (h : db.AwaitsGuess faces roundsCap p pair turn card)
    (cfg : StateConfig) (now : Time) :
    ∃ b, Postgres.fetchStateBundle cfg faces .stored now db p = some b ∧
      b.decoyLabels = db.decoyLabels faces .stored pair.commonLang (faces card.id).decoys ∧
      ∀ b', Postgres.MayFetch cfg faces now db p b' ↔
        ∃ labels, labels.Perm b.decoyLabels ∧ b' = { b with decoyLabels := labels } := by
  obtain ⟨me, hme⟩ := Option.isSome_iff_exists.mp h.registered
  refine ⟨_, by rw [Postgres.fetchStateBundle, hme, Option.map_some], ?_, fun b' ↦ ?_⟩
  · simp [h.active, h.latest, h.pictureCard]
  · simp only [Postgres.MayFetch, Postgres.fetchStateBundle, hme, Option.map_some, h.active,
      Option.bind_some, h.latest, h.pictureCard, Option.getD_some, Option.some.injEq,
      Db.perm_decoyLabels_iff]
    constructor
    · rintro ⟨order, rfl⟩
      exact ⟨_, ⟨order, rfl⟩, rfl⟩
    · rintro ⟨_, ⟨order, rfl⟩, rfl⟩
      exact ⟨order, rfl⟩

/-- Whoever is to guess, and may still play, is shown the shuffled items. -/
theorem options_of_guessing {b : StateBundle} {shown : PictureCard} (hpair : b.pair = some pair)
    (hactive : pair.status = .active) (hturn : b.turn = some turn)
    (hs : turn.status = .awaitingGuess) (hguesser : turn.guesserId = b.player.id)
    (hspeaker : turn.speakerId ≠ b.player.id) (hcard : b.card = some shown)
    (hbelow : b.stats.roundsPlayed < roundsCap) :
    (composeStateResponse checksum shuffle cfg roundsCap now b).options =
      some (shuffle (uuidText turn.id) (optionItems b shown pair)) := by
  have hgoes : ¬ (roundsCap ≤ b.stats.roundsPlayed ∨
      b.pair.any (fun pair ↦ pair.status == .completed) = true) := by
    rw [hpair]
    simpa [hactive] using hbelow
  have hrole : viewerRole b = some .guesser := by simp [viewerRole, hturn, hguesser, hspeaker]
  have hphase : phaseForTurn cfg now b (some .guesser) = .guessing := by
    simp [phaseForTurn, hturn, hs]
  rw [composeStateResponse, if_neg hgoes, hpair]
  simp [StateResponse.options, hrole, hphase, turnState, turnStateOf, hturn, hpair, hs, hcard]

/-- The guesser is shown the shuffled items, in whatever order the labels came. -/
theorem Db.AwaitsGuess.options (h : db.AwaitsGuess faces roundsCap p pair turn card)
    {b : StateBundle} (hb : Postgres.fetchStateBundle cfg faces .stored now db p = some b)
    (labels : List (Uuid × Text)) :
    (composeStateResponse checksum shuffle cfg roundsCap now
        { b with decoyLabels := labels }).options =
      some (shuffle (uuidText turn.id) (shownItems faces card pair labels)) := by
  obtain ⟨me, hme⟩ := Option.isSome_iff_exists.mp h.registered
  have hid : me.id = p := Db.findPlayer_id hme
  obtain ⟨-, hactive, -⟩ := Db.mem_activePairs.mp (Db.activePair_mem h.active)
  rw [Postgres.fetchStateBundle, hme, Option.map_some, Option.some.injEq] at hb
  have hpair : b.pair = some pair := by simp [← hb, h.active]
  have hturn : b.turn = some turn := by simp [← hb, h.active, h.latest]
  have hplayer : b.player.id = p := by simp [← hb, hid]
  have hcard : b.card =
      some ⟨card.id, (faces card.id).imagePath, (faces card.id).labelCommon⟩ := by
    simp [← hb, h.active, h.latest, h.pictureCard]
  have hrounds : b.stats.roundsPlayed = db.roundsPlayed p := by
    simp [← hb, Postgres.playerStats, hme]
  let shown : StateBundle := { b with decoyLabels := labels }
  have hitems : (composeStateResponse checksum shuffle cfg roundsCap now shown).options = _ :=
    options_of_guessing hpair hactive hturn h.status (h.guesser.trans hplayer.symm)
      (hplayer.symm ▸ h.speaker) hcard (hrounds ▸ h.below)
  exact hitems

/-! ## Every poll is fair, and no two need agree -/

/-- In whatever order the labels come, each card is among the options once. -/
theorem Db.AwaitsGuess.fair (h : db.AwaitsGuess faces roundsCap p pair turn card)
    {labels : List (Uuid × Text)}
    (hlabels : labels.Perm (db.decoyLabels faces .stored pair.commonLang (faces card.id).decoys)) :
    FairOptions card.id (faces card.id).decoys
      (g.shuffle (uuidText turn.id) (shownItems faces card pair labels)) := by
  have hperm : ((g.shuffle (uuidText turn.id) (shownItems faces card pair labels)).map
      OptionState.id).Perm (card.id :: labels.map Prod.fst) := by
    rw [← map_id_shownItems]
    exact (Generator.shuffle_perm _ _).map _
  have hids : (labels.map Prod.fst).Perm
      ((db.decoyLabels faces .stored pair.commonLang (faces card.id).decoys).map Prod.fst) :=
    hlabels.map _
  have hmem : ∀ d ∈ (faces card.id).decoys, d ∈ labels.map Prod.fst := fun d hd ↦ by
    obtain ⟨-, c, hc, hid, -⟩ := h.decoys d hd
    exact hids.mem_iff.mpr ((Db.mem_decoyLabels ⟨c, hc, hid⟩).mpr hd)
  have hcard : card.id ∉ labels.map Prod.fst := fun hin ↦ by
    have hdecoy := (Db.mem_decoyLabels ⟨card, h.dealt, rfl⟩).mp (hids.mem_iff.mp hin)
    exact (h.decoys _ hdecoy).1 rfl
  have hnodup : (card.id :: labels.map Prod.fst).Nodup :=
    List.nodup_cons.mpr ⟨hcard, hids.nodup_iff.mpr (Db.nodup_decoyLabels h.cardIds)⟩
  refine ⟨?_, fun d hd ↦ ?_⟩
  · rw [hperm.count_eq]
    exact List.count_eq_one_of_mem hnodup List.mem_cons_self
  · rw [hperm.count_eq]
    exact List.count_eq_one_of_mem hnodup (List.mem_cons_of_mem _ (hmem d hd))

/-- A list without repetition has one order only when it has one element at most. -/
theorem perm_eq_iff_length_le_one {α : Type} {xs : List α} (h : xs.Nodup) :
    (∀ ys, ys.Perm xs → ys = xs) ↔ xs.length ≤ 1 := by
  rcases xs with - | ⟨x, - | ⟨y, xs⟩⟩
  · simp
  · simp
  · have hne : y ≠ x := by
      rintro rfl
      simp at h
    have hswap : (y :: x :: xs) ≠ x :: y :: xs := fun heq ↦ hne (List.cons.inj heq).1
    refine ⟨fun hall ↦ absurd (hall _ (.swap x y xs)) hswap, fun hlen ↦ ?_⟩
    simp at hlen

/-- There is one label at most when all decoys are the same card. -/
theorem Db.AwaitsGuess.length_decoyLabels (h : db.AwaitsGuess faces roundsCap p pair turn card) :
    (db.decoyLabels faces .stored pair.commonLang (faces card.id).decoys).length ≤ 1 ↔
      ∀ d ∈ (faces card.id).decoys, ∀ d' ∈ (faces card.id).decoys, d = d' := by
  have hids : ∀ d ∈ (faces card.id).decoys,
      d ∈ (db.decoyLabels faces .stored pair.commonLang (faces card.id).decoys).map Prod.fst := by
    intro d hd
    obtain ⟨-, c, hc, hid, -⟩ := h.decoys d hd
    exact (Db.mem_decoyLabels ⟨c, hc, hid⟩).mpr hd
  have hcards :
    ∀ d ∈ (db.decoyLabels faces .stored pair.commonLang (faces card.id).decoys).map Prod.fst,
      d ∈ (faces card.id).decoys := by
    intro d hd
    rw [Db.map_fst_decoyLabels] at hd
    obtain ⟨c, hc, rfl⟩ := List.mem_map.mp hd
    exact of_decide_eq_true (List.mem_filter.mp hc).2
  have hnodup : ((db.decoyLabels faces .stored pair.commonLang (faces card.id).decoys).map
      Prod.fst).Nodup := Db.nodup_decoyLabels h.cardIds
  rw [← List.length_map (f := Prod.fst)]
  generalize (db.decoyLabels faces .stored pair.commonLang
    (faces card.id).decoys).map Prod.fst = ids at hids hcards hnodup
  rcases ids with - | ⟨x, - | ⟨y, rest⟩⟩
  · simpa using fun d hd ↦ absurd (hids d hd) List.not_mem_nil
  · have hx : ∀ d ∈ (faces card.id).decoys, d = x := fun d hd ↦ List.mem_singleton.mp (hids d hd)
    simpa using fun d hd d' hd' ↦ (hx d hd).trans (hx d' hd').symm
  · have hne : x ≠ y := by
      rintro rfl
      simp at hnodup
    refine ⟨fun hlen ↦ by simp at hlen, fun hall ↦ absurd (hall x ?_ y ?_) hne⟩
    · exact hcards x (by simp)
    · exact hcards y (by simp)

/-- **When the options are stable.**  Every poll shows the card and each of its decoys once; any two
polls show the same list exactly when there is one decoy at most. -/
theorem options_stable_iff (g : Generator Text σ) (checksum : Text → ℕ) (cfg : StateConfig)
    (now : Time) (h : db.AwaitsGuess faces roundsCap p pair turn card) :
    ((∀ b, Postgres.MayFetch cfg faces now db p b → ∃ options,
        (composeStateResponse checksum g.shuffle cfg roundsCap now b).options = some options ∧
          FairOptions card.id (faces card.id).decoys options) ∧
      ∀ b b', Postgres.MayFetch cfg faces now db p b → Postgres.MayFetch cfg faces now db p b' →
        (composeStateResponse checksum g.shuffle cfg roundsCap now b).options =
          (composeStateResponse checksum g.shuffle cfg roundsCap now b').options) ↔
      ∀ d ∈ (faces card.id).decoys, ∀ d' ∈ (faces card.id).decoys, d = d' := by
  obtain ⟨b₀, hb₀, hlabels₀, hmay⟩ := h.fetch cfg now
  have hnodup : b₀.decoyLabels.Nodup := by
    rw [hlabels₀]
    exact List.Nodup.of_map _ (Db.nodup_decoyLabels h.cardIds)
  rw [← h.length_decoyLabels, ← hlabels₀, ← perm_eq_iff_length_le_one hnodup]
  constructor
  · rintro ⟨-, hsame⟩ labels hlabels
    have hshown := hsame _ _ ((hmay _).mpr ⟨labels, hlabels, rfl⟩) ((hmay _).mpr ⟨_, .refl _, rfl⟩)
    rw [h.options hb₀, h.options hb₀, Option.some.injEq, Generator.shuffle_inj] at hshown
    · exact shownItems_injective hshown
    · simp [shownItems, hlabels.length_eq]
  · intro hone
    refine ⟨fun b hb ↦ ?_, fun b b' hb hb' ↦ ?_⟩
    · obtain ⟨labels, hlabels, rfl⟩ := (hmay b).mp hb
      exact ⟨_, h.options hb₀ labels, h.fair (hlabels.trans (.of_eq hlabels₀))⟩
    · obtain ⟨labels, hlabels, rfl⟩ := (hmay b).mp hb
      obtain ⟨labels', hlabels', rfl⟩ := (hmay b').mp hb'
      rw [hone labels hlabels, hone labels' hlabels']

end

/-! ## Two decoys -/

/-- The draws `Random("00000000-0000-0000-0000-000000000004")` makes for three items. -/
def generator4 : Generator Text Unit where
  seed := fun _ ↦ ()
  randbelow := fun s _ ↦ (0, s)
  randbelow_lt := fun _ _ hn ↦ hn

/-- Card 5 shows a cup, with a spoon and a bowl as its decoys. -/
def kitchenFaces (c : Uuid) : CardFace :=
  if c = 5 then ⟨"images/5.png".toList, .single "en".toList "cup".toList, [6, 7]⟩
  else if c = 6 then ⟨"images/6.png".toList, .single "en".toList "spoon".toList, [5, 7]⟩
  else ⟨"images/7.png".toList, .single "en".toList "bowl".toList, [5, 6]⟩

/-- Turn 4 awaits the guess of player 2. -/
def kitchenDb : Db where
  players := [⟨1, "Asha".toList, "as".toList, ["en".toList]⟩,
    ⟨2, "Ravi".toList, "hi".toList, ["en".toList]⟩]
  queue := []
  pairs := [⟨3, 1, 2, "en".toList, .active, 0⟩]
  decks := [⟨8, .live⟩]
  cards := [⟨5, 8, true⟩, ⟨6, 8, true⟩, ⟨7, 8, true⟩]
  turns := [{ TurnRecord.initial 4 3 1 2 5 0 with status := .awaitingGuess }]
  jobs := []
  fingerprints := []

theorem awaitsGuess_kitchenDb : kitchenDb.AwaitsGuess kitchenFaces 20 2
    ⟨3, 1, 2, "en".toList, .active, 0⟩
    { TurnRecord.initial 4 3 1 2 5 0 with status := .awaitingGuess } ⟨5, 8, true⟩ := by
  refine ⟨?_, rfl, rfl, rfl, rfl, rfl, by decide, by decide, by decide, rfl, ?_⟩
  · show (kitchenDb.cards.map CardRecord.id).Nodup
    decide
  · intro d hd
    have hd : d ∈ ([6, 7] : List Uuid) := hd
    rcases List.mem_pair.mp hd with rfl | rfl
    · exact ⟨by decide, ⟨6, 8, true⟩, by decide, rfl, rfl⟩
    · exact ⟨by decide, ⟨7, 8, true⟩, by decide, rfl, rfl⟩

/-- The exact condition fails of the two decoys, so two polls may disagree. -/
theorem options_stable_iff_kitchenDb :
    ¬ ((∀ b, Postgres.MayFetch {} kitchenFaces 0 kitchenDb 2 b → ∃ options,
        (composeStateResponse List.length generator4.shuffle {} 20 0 b).options = some options ∧
          FairOptions 5 [6, 7] options) ∧
      ∀ b b', Postgres.MayFetch {} kitchenFaces 0 kitchenDb 2 b →
        Postgres.MayFetch {} kitchenFaces 0 kitchenDb 2 b' →
          (composeStateResponse List.length generator4.shuffle {} 20 0 b).options =
            (composeStateResponse List.length generator4.shuffle {} 20 0 b').options) :=
  fun hall ↦ absurd ((options_stable_iff generator4 List.length {} 0 awaitsGuess_kitchenDb).mp hall
    6 (by decide) 7 (by decide)) (by decide)

/-- Two polls of the one turn may disagree: the spoon comes after the bowl in the first and before
it in the second. -/
theorem options_differ : kitchenDb.AwaitsGuess kitchenFaces 20 2
      ⟨3, 1, 2, "en".toList, .active, 0⟩
      { TurnRecord.initial 4 3 1 2 5 0 with status := .awaitingGuess } ⟨5, 8, true⟩ ∧
    ∃ b b', Postgres.MayFetch {} kitchenFaces 0 kitchenDb 2 b ∧
    Postgres.MayFetch {} kitchenFaces 0 kitchenDb 2 b' ∧
    (composeStateResponse List.length generator4.shuffle {} 20 0 b).options =
      some [⟨6, "spoon".toList⟩, ⟨7, "bowl".toList⟩, ⟨5, "cup".toList⟩] ∧
    (composeStateResponse List.length generator4.shuffle {} 20 0 b').options =
      some [⟨7, "bowl".toList⟩, ⟨6, "spoon".toList⟩, ⟨5, "cup".toList⟩] := by
  have hfetch : ∃ b, Postgres.fetchStateBundle {} kitchenFaces .stored 0 kitchenDb 2 = some b ∧
      b.decoyLabels = [(6, "spoon".toList), (7, "bowl".toList)] ∧
      ∀ b', Postgres.MayFetch {} kitchenFaces 0 kitchenDb 2 b' ↔
        ∃ labels, labels.Perm b.decoyLabels ∧ b' = { b with decoyLabels := labels } :=
    awaitsGuess_kitchenDb.fetch {} 0
  obtain ⟨b, hb, hlabels, hmay⟩ := hfetch
  refine ⟨awaitsGuess_kitchenDb, _, _,
    (hmay _).mpr ⟨[(6, "spoon".toList), (7, "bowl".toList)], .of_eq hlabels.symm, rfl⟩,
    (hmay _).mpr ⟨[(7, "bowl".toList), (6, "spoon".toList)], ?_, rfl⟩, ?_, ?_⟩
  · rw [hlabels]
    exact .swap _ _ _
  · rw [awaitsGuess_kitchenDb.options hb]
    decide
  · rw [awaitsGuess_kitchenDb.options hb]
    decide

end Neva
