import Neva.Game.Matching
import Neva.Play.Cap
import Neva.Play.Polling

/-!
# Who plays with whom, and who is left waiting

`Neva.Game.Matching` is about one call of `try_match`.  Here the venue is looked at as a whole, from
both sides of the matching.

Of the pairs there are, `pairs_suited` says that they can play: in every interleaving, on either
store, the members of a pair have different mother tongues, its language is one that each of them
can use, and it is the preferred one if both can use that.

Of the players who wait, `nobody_overlooked` says that nobody could play with anybody: when requests
run one at a time, the Postgres store leaves no two players in the queue who could be matched.  The
time they wait since does not matter, for `try_match` evicts the rows it may not match any more.
-/

set_option autoImplicit false

namespace Neva

open Calls Tables

/-! ## Languages, from both sides -/

theorem mem_sharedWith {me other : PlayerRecord} {l : Text} : l ∈ Memory.sharedWith me other ↔
    l ∈ speakableLanguages me.nativeLang me.commonLangs ∧
      l ∈ speakableLanguages other.nativeLang other.commonLangs := by
  rw [Memory.sharedWith, sharedLanguages, List.mem_filter, decide_eq_true_eq]

/-- Whoever can be matched with a player is one the player can be matched with. -/
theorem Memory.compatible_comm {me other : PlayerRecord} :
    Memory.compatible me other = true ↔ Memory.compatible other me = true := by
  rw [Memory.compatible_iff, Memory.compatible_iff]
  refine and_congr ne_comm (not_congr ?_)
  rw [List.eq_nil_iff_forall_not_mem, List.eq_nil_iff_forall_not_mem]
  exact forall_congr' fun l ↦ not_congr (by rw [mem_sharedWith, mem_sharedWith, and_comm])

/-- The preferred language is picked if it is shared. -/
theorem eq_of_pickCommonLang {shared : List Text} {preferred lang : Text}
    (h : pickCommonLang shared preferred = some lang) (hne : strip preferred ≠ [])
    (hmem : strip preferred ∈ shared) : lang = strip preferred := by
  cases shared with
  | nil => cases h
  | cons first rest =>
    rw [pickCommonLang] at h
    simp only [if_pos (And.intro hne hmem), Option.some.injEq] at h
    exact h.symm

/-! ## The pairs there are -/

/-- The members of the pair can play in its language. -/
structure Db.Suited (cfg : GameFeatureConfig) (db : Db) (pair : PairRecord) (a b : PlayerRecord) :
    Prop where
  playerA : db.findPlayer pair.playerA = some a
  playerB : db.findPlayer pair.playerB = some b
  apart : a.nativeLang ≠ b.nativeLang
  shared : pair.commonLang ∈ Memory.sharedWith a b
  preferred : strip cfg.preferredCommonLang ≠ [] →
    strip cfg.preferredCommonLang ∈ Memory.sharedWith a b →
      pair.commonLang = strip cfg.preferredCommonLang

namespace Db

variable {cfg : GameFeatureConfig} {db db' : Db} {pair pair' : PairRecord} {a b : PlayerRecord}

theorem Suited.lasts (h : db.Suited cfg pair a b) (hl : pair.Lasts pair')
    (hplayers : db'.players = db.players) : db'.Suited cfg pair' a b where
  playerA := by rw [hl.playerA, findPlayer, hplayers, ← h.playerA, findPlayer]
  playerB := by rw [hl.playerB, findPlayer, hplayers, ← h.playerB, findPlayer]
  apart := h.apart
  shared := hl.commonLang ▸ h.shared
  preferred := hl.commonLang ▸ h.preferred

/-- The pair either store inserts once it has claimed a partner. -/
theorem suited_insertPair {d : Draw} {me : Uuid} {player other : PlayerRecord} {q : QueueRow}
    {lang : Text} (hme : db.findPlayer me = some player)
    (hother : db.findPlayer q.playerId = some other)
    (hnative : other.nativeLang ≠ player.nativeLang)
    (hlang : pickCommonLang (Memory.sharedWith player other) cfg.preferredCommonLang = some lang) :
    (db.insertPair d me q lang).2.pairs = db.pairs ++ [(db.insertPair d me q lang).1] ∧
      ∃ a b, db.Suited cfg (db.insertPair d me q lang).1 a b := by
  have hshared := pickCommonLang_mem hlang
  have hpref := eq_of_pickCommonLang hlang
  have hswap : ∀ l, l ∈ Memory.sharedWith other player ↔ l ∈ Memory.sharedWith player other :=
    fun l ↦ by rw [mem_sharedWith, mem_sharedWith, and_comm]
  rw [insertPair]
  cases db.enqueuedFirst me q with
  | true => exact ⟨rfl, player, other, hme, hother, hnative.symm, hshared, hpref⟩
  | false =>
    exact ⟨rfl, other, player, hother, hme, hnative, (hswap _).mpr hshared,
      fun hne hmem ↦ hpref hne ((hswap _).mp hmem)⟩

end Db

/-- What `try_match` makes of the table of pairs. -/
def Db.Adds (cfg : GameFeatureConfig) (db db' : Db) : Prop :=
  db'.pairs = db.pairs ∨
    ∃ pair a b, db'.pairs = db.pairs ++ [pair] ∧ db.Suited cfg pair a b

theorem Postgres.tryMatch_adds (cfg : GameFeatureConfig) (db : Db) (d : Draw) (me : Uuid) :
    db.Adds cfg (Postgres.tryMatch cfg db d me).2 := by
  cases hactive : db.activePair me with
  | some pair =>
    rw [Postgres.tryMatch, hactive]
    exact .inl rfl
  | none =>
    cases hme : db.findPlayer me with
    | none =>
      rw [Postgres.tryMatch, hactive, hme]
      exact .inl rfl
    | some player =>
      rw [Postgres.tryMatch_eq hactive hme]
      cases hclaim : Postgres.claimPartner cfg (db.refreshQueue cfg d.now me) d.now player
          (speakableLanguages player.nativeLang player.commonLangs) with
      | none => exact .inl rfl
      | some c =>
        have hc := List.argmin_mem (Option.mem_def.mpr hclaim)
        obtain ⟨q, -, hc⟩ := List.mem_filterMap.mp hc
        rw [Option.map_some, Db.claimed]
        split
        · exact .inl rfl
        · rename_i lang hlang
          cases hp : db.findPlayer q.playerId with
          | none => simp [hp] at hc
          | some other =>
            simp only [Db.findPlayer_refreshQueue, hp] at hc
            split_ifs at hc with hcond
            cases hc
            obtain ⟨hpairs, a, b, hsuited⟩ := @Db.suited_insertPair cfg
              (db.refreshQueue cfg d.now me) d _ _ _ _ _ hme hp hcond.2.2.1 hlang
            cases Db.findPlayer_id hme
            exact .inr ⟨_, a, b, hpairs, hsuited.lasts (.refl _) rfl⟩

theorem Memory.tryMatch_adds (cfg : GameFeatureConfig) (db : Db) (d : Draw) (me : Uuid) :
    db.Adds cfg (Memory.tryMatch cfg db d me).2 := by
  rw [Memory.tryMatch]
  split
  · exact .inl rfl
  · split
    · exact .inl rfl
    · rename_i player hme
      dsimp only
      split
      · exact .inl rfl
      · rename_i q other hclaim
        split
        · exact .inl rfl
        · rename_i lang hlang
          obtain ⟨q', -, hq'⟩ := List.exists_of_findSome?_eq_some hclaim
          cases hp : db.findPlayer q'.playerId with
          | none => simp [hp] at hq'
          | some other' =>
            simp only [Db.findPlayer_refreshQueue, hp] at hq'
            split_ifs at hq' with hcond
            cases hq'
            have hnative := (Memory.compatible_iff.mp (Bool.and_eq_true_iff.mp hcond).1).1
            obtain ⟨hpairs, a, b, hsuited⟩ := @Db.suited_insertPair cfg
              (db.refreshQueue cfg d.now me) d _ _ _ _ _ hme hp hnative hlang
            exact .inr ⟨_, a, b, hpairs, hsuited.lasts (.refl _) rfl⟩

theorem Backend.tryMatch_adds (backend : Backend) (cfg : GameFeatureConfig) (db : Db) (d : Draw)
    (me : Uuid) : db.Adds cfg (backend.exec cfg d (.tryMatch me) db).2 := by
  cases backend with
  | postgres => exact Postgres.tryMatch_adds cfg db d me
  | memory => exact Memory.tryMatch_adds cfg db d me

/-- No step touches the players. -/
theorem Did.players {su : Setup} {d : Draw} {v v' : Venue} {a : Deed} (hd : Did su d v a v') :
    v'.db.players = v.db.players := by
  cases hd with
  | quiet hplayers hqueue hpairs hcards hturns hjobs => exact hplayers
  | enqueued => exact Db.insertJob_players ..
  | triaged ht hplayers hqueue hpairs hcards hturns hjobs => exact hplayers
  | _ => rfl

/-- Every pair there is after a step was there before it, or somebody has been matched. -/
theorem Did.pair_before {su : Setup} {d : Draw} {v v' : Venue} {a : Deed} (hd : Did su d v a v')
    {pair' : PairRecord} (hp : pair' ∈ v'.db.pairs) :
    (∃ pair ∈ v.db.pairs, pair.Lasts pair') ∨ ∃ pair, a = .matched pair := by
  have hsame : v'.db.pairs = v.db.pairs → ∃ pair ∈ v.db.pairs, pair.Lasts pair' :=
    fun he ↦ ⟨pair', he ▸ hp, .refl pair'⟩
  cases hd with
  | quiet hplayers hqueue hpairs hcards hturns hjobs => exact .inl (hsame hpairs)
  | already => exact .inr ⟨_, rfl⟩
  | waiting => exact .inr ⟨_, rfl⟩
  | paired => exact .inr ⟨_, rfl⟩
  | enqueued => exact .inl (hsame (Db.insertJob_pairs ..))
  | completed =>
    obtain ⟨pair, hpair, rfl⟩ := List.mem_map.mp hp
    refine .inl ⟨pair, hpair, ?_⟩
    split
    · exact ⟨rfl, rfl, rfl, rfl⟩
    · exact .refl pair
  | triaged ht hplayers hqueue hpairs hcards hturns hjobs => exact .inl (hsame hpairs)
  | queued => exact .inl (hsame rfl)
  | created => exact .inl (hsame rfl)
  | picked => exact .inl (hsame rfl)
  | saved => exact .inl (hsame rfl)
  | accepted => exact .inl (hsame rfl)
  | labelled => exact .inl (hsame rfl)
  | guessed => exact .inl (hsame rfl)
  | untriaged => exact .inl (hsame rfl)

/-- **Every call leaves the pairs suited.** -/
theorem VenueOp.suited (su : Setup) (d : Draw) {v : Venue} (htidy : v.db.Tidy)
    (h : ∀ pair ∈ v.db.pairs, ∃ a b, v.db.Suited su.cfg pair a b) {β : Type} (op : VenueOp β) :
    ∀ pair ∈ (op.exec su d v).2.db.pairs, ∃ a b, (op.exec su d v).2.db.Suited su.cfg pair a b := by
  have hd := op.did su d htidy
  have hlasts : ∀ pair ∈ v.db.pairs, ∀ pair', pair.Lasts pair' →
      ∃ a b, (op.exec su d v).2.db.Suited su.cfg pair' a b := by
    intro pair hpair pair' hl
    obtain ⟨a, b, hsuited⟩ := h pair hpair
    exact ⟨a, b, hsuited.lasts hl hd.players⟩
  intro pair hpair
  -- no other call matches anybody
  have hother : (∀ answer, deed op (op.exec su d v).1 ≠ .matched answer) →
      ∃ a b, (op.exec su d v).2.db.Suited su.cfg pair a b := by
    intro hnot
    rcases hd.pair_before hpair with ⟨pair₀, hpair₀, hl⟩ | ⟨answer, ha⟩
    · exact hlasts pair₀ hpair₀ pair hl
    · exact absurd ha (hnot answer)
  generalize hr : (op.exec su d v).1 = r at hother
  cases op with
  | site op => exact hother fun answer ↦ by cases op <;> cases r <;> simp [deed]
  | store op =>
    cases op with
    | tryMatch me =>
      rcases su.backend.tryMatch_adds su.cfg v.db d me with hsame | ⟨n, a, b, hadd, hsuited⟩
      · exact hlasts pair (hsame ▸ hpair) pair (.refl pair)
      · have hpair' : pair ∈ v.db.pairs ++ [n] := hadd ▸ hpair
        rcases List.mem_append.mp hpair' with hpair' | hpair'
        · exact hlasts pair hpair' pair (.refl pair)
        · rw [List.mem_singleton.mp hpair']
          exact ⟨a, b, hsuited.lasts (.refl n) hd.players⟩
    | _ => exact hother fun answer ↦ by cases r <;> simp [deed]

/-- **The players of a pair can play together.**  Whatever is asked of the venue and in whatever
order, and on either store: the two members of a pair have different mother tongues, and the
language of the pair is one both can use, the preferred one if they both can use that. -/
theorem pairs_suited {su : Setup} {c : Config VenueOp Failure Request Venue Reply}
    (h : (venue su).Reachable c) {pair : PairRecord} (hpair : pair ∈ c.world.state.db.pairs) :
    ∃ a b, c.world.state.db.findPlayer pair.playerA = some a ∧
      c.world.state.db.findPlayer pair.playerB = some b ∧ a.nativeLang ≠ b.nativeLang ∧
      pair.commonLang ∈ speakableLanguages a.nativeLang a.commonLangs ∧
      pair.commonLang ∈ speakableLanguages b.nativeLang b.commonLangs ∧
      (strip su.cfg.preferredCommonLang ∈ speakableLanguages a.nativeLang a.commonLangs →
        strip su.cfg.preferredCommonLang ∈ speakableLanguages b.nativeLang b.commonLangs →
          pair.commonLang = strip su.cfg.preferredCommonLang) := by
  have hinv : c.world.state.db.Tidy ∧
      ∀ pair ∈ c.world.state.db.pairs, ∃ a b, c.world.state.db.Suited su.cfg pair a b := by
    refine @System.Reach.state_inv _ _ _ _ _ _ _ _ (fun w ↦ w.state.db.Tidy ∧
      ∀ pair ∈ w.state.db.pairs, ∃ a b, w.state.db.Suited su.cfg pair a b) ?_ ?_ ?_ c h
    · intro v hv
      refine ⟨hv.tidy, fun pair hpair ↦ ?_⟩
      rw [hv.pairs] at hpair
      cases hpair
    · exact fun w r hw ↦ hw
    · intro i β op d w hw _ hd
      exact ⟨(op.did su d hw.1).tidy hw.1 (new_of_admits hd), op.suited su d hw.1 hw.2⟩
  obtain ⟨a, b, hsuited⟩ := hinv.2 pair hpair
  obtain ⟨ha, hb⟩ := mem_sharedWith.mp hsuited.shared
  refine ⟨a, b, hsuited.playerA, hsuited.playerB, hsuited.apart, ha, hb, fun hpa hpb ↦ ?_⟩
  obtain ⟨l, -, hl, hne⟩ := mem_stripDistinct.mp hpa
  exact hsuited.preferred hne (mem_sharedWith.mpr ⟨hpa, hpb⟩)

/-- Players 1 and 2 are paired, and play in English. -/
theorem pairs_suited_english : ∃ c pair, (venue defaultSetup).Reachable c ∧
    pair ∈ c.world.state.db.pairs ∧ ∃ a b : PlayerRecord, a.nativeLang ≠ b.nativeLang ∧
      pair.commonLang ∈ speakableLanguages a.nativeLang a.commonLangs ∧
      pair.commonLang ∈ speakableLanguages b.nativeLang b.commonLangs := by
  obtain ⟨c, hc, hpaired⟩ := System.exists_reachable_of_run opening_threePlayers
    (show ((venue defaultSetup).run (System.start threePlayers) pairUp).map
      (fun c ↦ c.world.state.db.pairs.any fun pair ↦ pair.commonLang == "en".toList) = some true by
      decide +kernel)
  obtain ⟨pair, hpair, -⟩ := List.any_eq_true.mp hpaired
  obtain ⟨a, b, -, -, hne, ha, hb, -⟩ := pairs_suited hc hpair
  exact ⟨c, pair, hc, hpair, a, b, hne, ha, hb⟩

/-! ## The players who wait -/

namespace Db

/-- No two players of the queue could be matched. -/
def Strangers (db : Db) : Prop :=
  ∀ q ∈ db.queue, ∀ q' ∈ db.queue, q.playerId ≠ q'.playerId →
    ∀ p p', db.findPlayer q.playerId = some p → db.findPlayer q'.playerId = some p' →
      Memory.compatible p p' = false

variable {cfg : GameFeatureConfig} {db db' : Db} {d : Draw} {me : Uuid}

/-- Fewer wait, and they are the same players. -/
theorem Strangers.of_subset (h : db.Strangers) (hqueue : db'.queue ⊆ db.queue)
    (hplayers : db'.players = db.players) : db'.Strangers := by
  intro q hq q' hq' hne p p' hp hp'
  rw [findPlayer, hplayers] at hp hp'
  exact h q (hqueue hq) q' (hqueue hq') hne p p' hp hp'

/-- Everybody else who waits is a stranger to everybody else, and to `me`. -/
theorem Strangers.with_me {player : PlayerRecord} (hme : db.findPlayer me = some player)
    (hothers : ∀ q ∈ db'.queue, q.playerId ≠ me → q ∈ db.queue) (h : db.Strangers)
    (hplayers : db'.players = db.players)
    (hmine : ∀ q ∈ db'.queue, q.playerId ≠ me → ∀ p, db.findPlayer q.playerId = some p →
      Memory.compatible player p = false) : db'.Strangers := by
  intro q hq q' hq' hne p p' hp hp'
  rw [findPlayer, hplayers] at hp hp'
  by_cases hqme : q.playerId = me
  · have hq'me : q'.playerId ≠ me := fun heq ↦ hne (hqme.trans heq.symm)
    rw [hqme] at hp
    cases hme.symm.trans hp
    exact hmine q' hq' hq'me p' hp'
  · by_cases hq'me : q'.playerId = me
    · rw [hq'me] at hp'
      cases hme.symm.trans hp'
      have hno := hmine q hq hqme p hp
      rw [← Bool.not_eq_true, Memory.compatible_comm, Bool.not_eq_true]
      exact hno
    · exact h q (hothers q hq hqme) q' (hothers q' hq' hq'me) hne p p' hp hp'

end Db

/-- **`try_match` leaves no two players who could be matched**, if at most the requester could be
when it was called. -/
theorem Postgres.strangers_tryMatch {cfg : GameFeatureConfig} {db : Db} (db₀ : Db) {d : Draw}
    {me : Uuid}
    (hjoined : ∀ p ∈ db.players, p.Joined) (hactive : db.activePair me = none)
    (hplayers : db.players = db₀.players)
    (hothers : ∀ q ∈ db.queue, q.playerId ≠ me → q ∈ db₀.queue)
    (h : db₀.Strangers) : (Postgres.tryMatch cfg db d me).2.Strangers := by
  have hrefresh : ∀ q ∈ (db.refreshQueue cfg d.now me).queue, q.playerId ≠ me → q ∈ db₀.queue := by
    intro q hq hne
    rcases Db.mem_refreshQueue.mp hq with rfl | ⟨hq, -, -⟩
    · exact absurd rfl hne
    · exact hothers q hq hne
  cases hme : db.findPlayer me with
  | none =>
    have hsame : (Postgres.tryMatch cfg db d me).2 = db := by rw [Postgres.tryMatch, hactive, hme]
    rw [hsame]
    intro q hq q' hq' hne p p' hp hp'
    have hqme : ∀ q : QueueRow, ∀ p, db.findPlayer q.playerId = some p → q.playerId ≠ me := by
      rintro q p hp rfl
      cases hme.symm.trans hp
    refine h q (hothers q hq (hqme q p hp)) q' (hothers q' hq' (hqme q' p' hp')) hne p p' ?_ ?_
    · rw [← hp, Db.findPlayer, Db.findPlayer, hplayers]
    · rw [← hp', Db.findPlayer, Db.findPlayer, hplayers]
  | some player =>
    have hme₀ : db₀.findPlayer me = some player := by
      rw [← hme, Db.findPlayer, Db.findPlayer, hplayers]
    cases Db.findPlayer_id hme
    have hjoined' : ∀ p ∈ (db.refreshQueue cfg d.now player.id).players, p.Joined := hjoined
    rw [Postgres.tryMatch_eq hactive hme]
    cases hclaim : Postgres.claimPartner cfg (db.refreshQueue cfg d.now player.id) d.now player
        (speakableLanguages player.nativeLang player.commonLangs) with
    | none =>
      -- whoever is left is not stale, and cannot be matched with the requester
      refine h.with_me hme₀ hrefresh hplayers fun q hq hne p hp ↦ ?_
      have hnone := Postgres.claimPartner_none hjoined' hclaim
      rw [← Bool.not_eq_true]
      intro hcomp
      rcases Db.mem_refreshQueue.mp hq with rfl | ⟨-, -, hfresh⟩
      · exact absurd rfl hne
      · have hp' : db.findPlayer q.playerId = some p := by
          rw [← hp, Db.findPlayer, Db.findPlayer, hplayers]
        have hwait : q ∈ (db.refreshQueue cfg d.now player.id).waiting cfg d.now player :=
          Db.mem_waiting.mpr ⟨hq, hne, hfresh, p, hp', hcomp⟩
        rw [hnone] at hwait
        cases hwait
    | some c =>
      obtain ⟨hpref, hfind⟩ := Postgres.claimPartner_some hjoined' hclaim
      obtain ⟨lang, hlang⟩ := exists_lang hpref.mem hfind
      rw [Option.map_some, Db.claimed]
      simp only [hlang]
      refine h.of_subset (fun q hq ↦ ?_) hplayers
      obtain ⟨hq, hnot⟩ := List.mem_filter.mp hq
      rw [Bool.not_eq_true', Bool.or_eq_false_iff, beq_eq_false_iff_ne] at hnot
      exact hrefresh q hq hnot.1

/-- Whoever waits is queued and matched by nothing else. -/
theorem Did.queue_same {su : Setup} {d : Draw} {v v' : Venue} {a : Deed} (hd : Did su d v a v')
    (hqueued : ∀ p, a ≠ .queued p) (hmatched : ∀ pair, a ≠ .matched pair) :
    v'.db.queue = v.db.queue := by
  cases hd with
  | quiet hplayers hqueue hpairs hcards hturns hjobs => exact hqueue
  | queued p => exact absurd rfl (hqueued p)
  | already => exact absurd rfl (hmatched _)
  | waiting => exact absurd rfl (hmatched _)
  | paired => exact absurd rfl (hmatched _)
  | enqueued => exact Db.insertJob_queue ..
  | triaged ht hplayers hqueue hpairs hcards hturns hjobs => exact hqueue
  | _ => rfl

section

variable {su : Setup} {v : Venue}

/-- Between two requests: if the languages are stored as `join` stores them, no two players who wait
could be matched. -/
structure Venue.Settled (v : Venue) : Prop where
  tidy : v.db.Tidy
  strangers : (∀ p ∈ v.db.players, p.Joined) → v.db.Strangers

theorem Venue.Settled.did {d : Draw} {v' : Venue} {a : Deed} (h : v.Settled) (hd : Did su d v a v')
    (hn : d.New v.db) (hqueued : ∀ p, a ≠ .queued p) (hmatched : ∀ pair, a ≠ .matched pair) :
    v'.Settled where
  tidy := hd.tidy h.tidy hn
  strangers hjoined := (h.strangers (hd.players ▸ hjoined)).of_subset
    (hd.queue_same hqueued hmatched ▸ fun _ h ↦ h) hd.players

theorem Venue.Settled.requestPair (hpg : su.backend = .postgres) (h : v.Settled) (p : Uuid) :
    (venue su).Ensures (fun _ v ↦ v.Settled) ((Request.requestPair p).body su) v := by
  refine ensures_store h.tidy (fun d e db _ _ hp ↦ hp.1 ▸ h) fun d stats db _ hp ↦ ?_
  obtain ⟨rfl, -⟩ := hp
  split_ifs
  · exact h
  · refine ensures_store h.tidy (fun d e db _ _ hp ↦ hp.1 ▸ h) fun d existing db _ hp ↦ ?_
    obtain ⟨rfl, hexisting⟩ := hp
    cases existing with
    | some pair => exact h
    | none =>
      have hactive : v.db.activePair p = none := (Except.ok.inj hexisting).symm
      refine ensures_store h.tidy (fun d e db _ _ hp ↦ ?_) fun d u db hn hp ↦ ?_
      · rcases hp with ⟨-, rfl⟩ | ⟨hok, -⟩
        · exact h
        · cases hok
      · have hd := @GameStoreOp.did su d v _ (.enqueuePlayer p) _ db hp
        have htidy := hd.tidy h.tidy hn
        rcases hp with ⟨⟨e, he⟩, -⟩ | ⟨-, rfl⟩
        · cases he
        · have hothers : ∀ q ∈ (v.db.upsertQueue p d.now).queue, q.playerId ≠ p →
              q ∈ v.db.queue := by
            intro q hq hne
            rcases Db.mem_upsertQueue.mp hq with rfl | ⟨hq, -⟩
            · exact absurd rfl hne
            · exact hq
          have hsettled : ∀ d' : Draw, (venue su).admits d'
              { v with db := v.db.upsertQueue p d.now } = true →
              Venue.Settled ((VenueOp.store (.tryMatch p)).exec su d'
                { v with db := v.db.upsertQueue p d.now }).2 := by
            intro d' hd'
            have hdid := (VenueOp.store (.tryMatch p)).did su d' htidy
            refine ⟨hdid.tidy htidy (new_of_admits hd'), fun hjoined ↦ ?_⟩
            rw [hdid.players] at hjoined
            rw [VenueOp.exec, hpg]
            exact Postgres.strangers_tryMatch v.db hjoined hactive rfl hothers
              (h.strangers hjoined)
          exact System.ensures_perform (fun d' e hd' _ ↦ hsettled d' hd') fun d' b hd' _ ↦
            hsettled d' hd'

theorem Venue.Opening.settled (hv : v.Opening) : v.Settled := by
  refine ⟨hv.tidy, fun _ q hq ↦ ?_⟩
  rw [hv.queue] at hq
  cases hq

/-- **Nobody is overlooked.**  When requests run one at a time, whichever they are, the Postgres
store leaves no two players waiting who could be matched: any two of the queue have the same mother
tongue or no language in common. -/
theorem nobody_overlooked (hpg : su.backend = .postgres) {P : Request → Prop}
    (h : (venue su).Serial P v) (hjoined : ∀ p ∈ v.db.players, p.Joined) :
    ∀ q ∈ v.db.queue, ∀ q' ∈ v.db.queue, q.playerId ≠ q'.playerId →
      ∀ p p', v.db.findPlayer q.playerId = some p → v.db.findPlayer q'.playerId = some p' →
        p.nativeLang = p'.nativeLang ∨
          sharedLanguages (speakableLanguages p.nativeLang p.commonLangs)
            (speakableLanguages p'.nativeLang p'.commonLangs) = [] := by
  have hsettled : v.Settled := by
    have hinit : ∀ v : Venue, (venue su).init v → v.Settled := fun v hv ↦ Venue.Opening.settled hv
    refine h.inv hinit fun q v _ hv ↦ ?_
    have hidle : (∀ a, q.Does a → (∀ p, a ≠ .queued p) ∧ ∀ pair, a ≠ .matched pair) →
        (venue su).Ensures (fun _ v ↦ v.Settled) (q.body su) v := fun hq ↦
      ensures_of_idle (q.body_does su) (fun v hv ↦ hv.tidy)
        (fun a d v v' ha hd hn hv ↦ hv.did hd hn (hq a ha).1 (hq a ha).2) v hv
    cases q with
    | requestPair player => exact hv.requestPair hpg player
    | _ =>
      refine hidle fun a ha ↦ ⟨?_, ?_⟩
      all_goals
        rintro _ rfl
        exact ha
  intro q hq q' hq' hne p p' hp hp'
  have hno := hsettled.strangers hjoined q hq q' hq' hne p p' hp hp'
  rw [← Bool.not_eq_true, Memory.compatible_iff, not_and_or, not_not, not_not] at hno
  exact hno.imp Eq.symm id

end

/-- Two players without a language in common. -/
def twoStrangers : Venue :=
  { threePlayers with db := { threePlayers.db with
    players := [⟨1, ['a'], ['h', 'i'], [['e', 'n']]⟩, ⟨2, ['b'], ['t', 'a'], [['f', 'r']]⟩] } }

/-- Both ask for a partner, and both wait. -/
theorem nobody_overlooked_strangers : ∃ v,
    (venue defaultSetup).Serial (fun q ↦ q.isClient = true) v ∧ v.db.queue.length = 2 ∧
    ∀ q ∈ v.db.queue, ∀ q' ∈ v.db.queue, q.playerId ≠ q'.playerId →
      ∀ p p', v.db.findPlayer q.playerId = some p → v.db.findPlayer q'.playerId = some p' →
        p.nativeLang = p'.nativeLang ∨
          sharedLanguages (speakableLanguages p.nativeLang p.commonLangs)
            (speakableLanguages p'.nativeLang p'.commonLangs) = [] := by
  have hplay : ((venue defaultSetup).play twoStrangers
      [(.requestPair 1, [.nth 0, .nth 1, .nth 2, .nth 3]),
        (.requestPair 2, [.nth 4, .nth 5, .nth 6, .nth 7])]).map
      (fun v ↦ decide (v.db.queue.length = 2 ∧ v.db.players = twoStrangers.db.players)) =
        some true := by decide +kernel
  obtain ⟨v, hv, hcheck⟩ := Option.map_eq_some_iff.mp hplay
  obtain ⟨hlength, hplayers⟩ := of_decide_eq_true hcheck
  have hserial : (venue defaultSetup).Serial (fun q ↦ q.isClient = true) v :=
    System.serial_of_play (.start ⟨by decide, rfl, rfl, rfl, rfl, rfl⟩) (by decide) hv
  have hjoined : ∀ p ∈ v.db.players, p.Joined := by
    simp only [hplayers, twoStrangers, List.forall_mem_cons]
    exact ⟨⟨⟨['a'], ['h', 'i'], [['e', 'n']]⟩, 1, ['a'], ⟨by decide, by decide, by decide⟩, rfl⟩,
      ⟨⟨['b'], ['t', 'a'], [['f', 'r']]⟩, 2, ['b'], ⟨by decide, by decide, by decide⟩, rfl⟩,
      by simp⟩
  exact ⟨v, hserial, hlength, nobody_overlooked rfl hserial hjoined⟩

end Neva
