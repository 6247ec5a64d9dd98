import Mathlib.Data.Bool.Count
import Neva.Play.Lifecycle

/-!
# Whose turn it is

`Lifecycle` says of the turns `create_turn` has made that each of them follows a scored one with the
roles swapped.  Here the table is looked at as a whole.  The turns of a pair, in the order of their
insertion, alternate: all but the last are scored, and from one to the next the speaker and the
guesser change places (`Alternating`).  What has to be carried along is that a turn somebody is to
follow is the last one of its pair.

So the two players of a pair take turns at speaking, whatever is asked of the venue and in whatever
order, and the one who was enqueued first is never behind (`turns_alternate`).
-/

set_option autoImplicit false

namespace Neva

open Calls Tables

/-! ## What the steps of a pact keep -/

/-- **What every step of a pact keeps holds in every configuration reached on its conditions.** -/
theorem Pact.Sound.kept {su : Setup} {C : Conditions} {K : Pact} (hK : K.Sound su C)
    (hinit : ∀ v, v.Opening → K.inv ⟨[], v, []⟩)
    (hknown : ∀ c, (venue su).Reach (C.terms su) c → K.known (scene c.world)) {J : Scene → Prop}
    (hopening : ∀ v, v.Opening → J ⟨[], v, []⟩) (hspawn : ∀ sc r, J sc → J (sc.spawned r))
    (hafter : ∀ i a d sc v, K.Step su C i a d sc v → J sc → J (sc.after i a v))
    {c : Config VenueOp Failure Request Venue Reply} (h : (venue su).Reach (C.terms su) c) :
    J (scene c.world) := by
  induction h with
  | start hs => exact hopening _ hs
  | @fire c c' e hc ha he ih =>
    have hgood : Good su C K c := hK.good hinit hknown hc
    cases e with
    | spawn r =>
      cases he
      exact hspawn _ r ih
    | step i d =>
      obtain ⟨β, op, k, ht, hd, rfl⟩ := System.fire_step he
      exact hafter i _ d (scene c.world) _ ⟨hgood.here.1.1, new_of_admits hd, hgood.here.1.2,
        hgood.here.2, hgood.pre ht d hd, ha β op k ht, op.did su d hgood.here.1.1⟩ ih
    | fault i e =>
      obtain ⟨β, op, k, ht, rfl⟩ := System.fire_fault he
      exact ih
    | kill i =>
      obtain ⟨β, op, k, ht, rfl⟩ := System.fire_kill he
      exact ih

/-! ## The turns of a pair -/

/-- When whatever is followed in a chain satisfies `P`, something that does not is the last. -/
theorem getLast?_of_isChain {α : Type*} {R : α → α → Prop} {P : α → Prop}
    (hR : ∀ x y, R x y → P x) {l : List α} (hl : l.IsChain R) {x : α} (hx : x ∈ l) (hP : ¬P x) :
    l.getLast? = some x := by
  induction l with
  | nil => cases hx
  | cons y l ih =>
    cases l with
    | nil => rw [List.mem_singleton.mp hx, List.getLast?_singleton]
    | cons z l =>
      rw [List.isChain_cons_cons] at hl
      rcases List.mem_cons.mp hx with rfl | hx
      · exact absurd (hR _ _ hl.1) hP
      · rw [List.getLast?_cons_cons]
        exact ih hl.2 hx

/-- The turn is over, and the next one is played with the roles swapped. -/
def TurnRecord.FollowedBy (t t' : TurnRecord) : Prop := t.status = .scored ∧ t.Swaps t'

theorem TurnRecord.FollowedBy.later {t t' u u' : TurnRecord} (h : t.FollowedBy t')
    (ht : t.Later u) (ht' : t'.Later u') : u.FollowedBy u' := by
  obtain ⟨hs, hpair, hspeaker, hguesser⟩ := h
  refine ⟨ht.scored hs, ?_, ?_, ?_⟩
  · rw [ht'.pairId, ht.pairId, hpair]
  · rw [ht'.speakerId, ht.guesserId, hspeaker]
  · rw [ht'.guesserId, ht.speakerId, hguesser]

namespace Db

variable {db db' : Db}

theorem mem_turnsOf {p : Uuid} {t : TurnRecord} :
    t ∈ db.turnsOf p ↔ t ∈ db.turns ∧ t.pairId = p := by
  rw [turnsOf, List.mem_filter, beq_iff_eq]

theorem turnsOf_append {n : TurnRecord} (h : db'.turns = db.turns ++ [n]) (p : Uuid) :
    db'.turnsOf p = db.turnsOf p ++ if n.pairId = p then [n] else [] := by
  rw [turnsOf, h, List.filter_append, List.filter_singleton, turnsOf]
  by_cases hp : n.pairId = p
  · simp [hp]
  · simp [hp, beq_eq_false_iff_ne.mpr hp]

/-- A turn that has moved on stands where it stood. -/
theorem turnsOf_put {t t' : TurnRecord} (hids : Unique TurnRecord.id db.turns) (ht : t ∈ db.turns)
    (hl : t.Later t') (h : db'.turns = (db.putTurn t').turns) :
    ∃ f : TurnRecord → TurnRecord, (∀ x ∈ db.turns, x.Later (f x)) ∧
      ∀ p, db'.turnsOf p = (db.turnsOf p).map f := by
  refine ⟨fun x ↦ if x.id = t'.id then t' else x, fun x hx ↦ ?_, fun p ↦ ?_⟩
  · dsimp only
    split
    · rename_i hid
      rw [hids.eq hx ht (hid.trans hl.id)]
      exact hl
    · exact .refl x
  · rw [turnsOf, h, putTurn_turns, put, List.filter_map, turnsOf]
    congr 1
    refine List.filter_congr fun x hx ↦ ?_
    rw [Function.comp_apply]
    split
    · rename_i hid
      rw [hids.eq hx ht (hid.trans hl.id), hl.pairId]
    · rfl

end Db

/-- **What a deed does to the turns of the pairs**: they move on where they stand, or a turn is
added to those of one pair. -/
theorem TurnsStep.turnsOf {cfg : GameFeatureConfig} {d : Draw} {db db' : Db} {a : Deed}
    (h : TurnsStep cfg d db db' a) (htidy : db.Tidy) :
    ((∀ t, a ≠ .created t) ∧ ∃ f : TurnRecord → TurnRecord, (∀ x ∈ db.turns, x.Later (f x)) ∧
      ∀ p, db'.turnsOf p = (db.turnsOf p).map f) ∨
    ∃ n, (∀ p, db'.turnsOf p = db.turnsOf p ++ if n.pairId = p then [n] else []) ∧
      (a = .created n ∨ a.isTurning = false ∧ n.pairId = d.uuid ∧
        ∃ pair ∈ db'.pairs, pair.id = n.pairId ∧ n.speakerId = pair.playerA ∧
          n.guesserId = pair.playerB) := by
  have hquiet : a.isTurning = false → ∀ t, a ≠ .created t := by
    rintro ha t rfl
    cases ha
  cases h with
  | same ha he =>
    refine .inl ⟨hquiet ha, id, fun x _ ↦ .refl x, fun p ↦ ?_⟩
    rw [List.map_id, Db.turnsOf, he, Db.turnsOf]
  | dealt ha hn hid hp hpair he =>
    obtain ⟨pair, hmem, hseats⟩ := List.mem_map.mp hpair
    rw [Prod.mk.injEq, Prod.mk.injEq] at hseats
    exact .inr ⟨_, Db.turnsOf_append he, .inr ⟨ha, hp, pair, hmem, hseats.1, hseats.2.1.symm,
      hseats.2.2.symm⟩⟩
  | created hn hid he => exact .inr ⟨_, Db.turnsOf_append he, .inl rfl⟩
  | moved ha ht hl hs hattempts he =>
    exact .inl ⟨hquiet ha, Db.turnsOf_put htidy.turnIds ht hl he⟩
  | guessed ht hs hg he =>
    refine .inl ⟨fun t h ↦ ?_, Db.turnsOf_put htidy.turnIds ht (hg.later hs) he⟩
    cases h

/-! ## The invariant -/

/-- **The turns of every pair alternate**, from one of the player who was enqueued first. -/
structure Alternating (sc : Scene) : Prop where
  order : ∀ p, (sc.venue.db.turnsOf p).IsChain TurnRecord.FollowedBy
  first : ∀ p, ∀ t ∈ (sc.venue.db.turnsOf p).head?, ∃ pair ∈ sc.venue.db.pairs, pair.id = p ∧
    t.speakerId = pair.playerA ∧ t.guesserId = pair.playerB
  /-- A turn that is to be followed is the last one. -/
  latest : ∀ i u, scoring i sc.story = some u →
    ∃ t ∈ (sc.venue.db.turnsOf u.pairId).getLast?, t.id = u.id

namespace Alternating

variable {su : Setup} {C : Conditions} {i : ℕ} {a : Deed} {d : Draw} {sc : Scene} {v : Venue}

/-- The seats of the first turn are kept. -/
theorem seats_kept (h : lifecycle.Step su C i a d sc v) {p : Uuid} {t t' : TurnRecord}
    (hfirst : ∃ pair ∈ sc.venue.db.pairs, pair.id = p ∧ t.speakerId = pair.playerA ∧
      t.guesserId = pair.playerB) (hl : t.Later t') :
    ∃ pair ∈ v.db.pairs, pair.id = p ∧ t'.speakerId = pair.playerA ∧
      t'.guesserId = pair.playerB := by
  obtain ⟨pair, hpair, hid, hspeaker, hguesser⟩ := hfirst
  obtain ⟨pair', hpair', hid', ha, hb⟩ := h.did.pair_kept hpair
  refine ⟨pair', hpair', hid'.trans hid, ?_, ?_⟩
  · rw [hl.speakerId, hspeaker, ha]
  · rw [hl.guesserId, hguesser, hb]

/-- Who is to follow a turn, or has just scored it, after a deed that makes none. -/
theorem scoring_cases (h : lifecycle.Step su C i a d sc v) (ha : ∀ t, a ≠ .created t) {j : ℕ}
    {u : TurnRecord} (hu : scoring j ((i, a) :: sc.story) = some u) :
    scoring j sc.story = some u ∨
      ∃ t ∈ sc.venue.db.turns, t.status ≠ .scored ∧ t.id = u.id ∧ t.pairId = u.pairId := by
  by_cases hturning : a.isTurning = false
  · rw [scoring_other hturning] at hu
    exact .inl hu
  · cases h.did.turnsStep with
    | same hq => exact absurd hq hturning
    | dealt hq => exact absurd hq hturning
    | moved hq => exact absurd hq hturning
    | created => exact absurd rfl (ha _)
    | @guessed t t' correct ht hs hg he =>
      by_cases hj : j = i
      · subst hj
        rw [scoring_guessed] at hu
        split_ifs at hu
        · cases hu
          have hl := hg.later hs
          exact .inr ⟨t, ht, by simp [hs], hl.id.symm, hl.pairId.symm⟩
        · exact .inl hu
      · rw [scoring_ne (Ne.symm hj)] at hu
        exact .inl hu

/-- The turns move on where they stand. -/
theorem of_map (h : lifecycle.Step su C i a d sc v) (hal : Alternating sc)
    (ha : ∀ t, a ≠ .created t) {f : TurnRecord → TurnRecord}
    (hf : ∀ x ∈ sc.venue.db.turns, x.Later (f x))
    (hturns : ∀ p, v.db.turnsOf p = (sc.venue.db.turnsOf p).map f) :
    Alternating (sc.after i a v) where
  order p := by
    rw [Scene.after_venue, hturns, List.isChain_map]
    refine (hal.order p).imp_of_mem_imp fun x y hx hy hxy ↦ ?_
    exact hxy.later (hf x (Db.mem_turnsOf.mp hx).1) (hf y (Db.mem_turnsOf.mp hy).1)
  first p t ht := by
    rw [Scene.after_venue, hturns, List.head?_map, Option.mem_def, Option.map_eq_some_iff] at ht
    obtain ⟨x, hx, rfl⟩ := ht
    have hmem := (Db.mem_turnsOf.mp (List.mem_of_mem_head? hx)).1
    exact seats_kept h (hal.first p x hx) (hf x hmem)
  latest j u hu := by
    have hlast : ∃ t ∈ (sc.venue.db.turnsOf u.pairId).getLast?, t.id = u.id := by
      rcases scoring_cases h ha hu with hu | ⟨t, ht, hs, hid, hpair⟩
      · exact hal.latest j u hu
      · -- what is being played is the last of its pair
        exact ⟨t, getLast?_of_isChain (fun _ _ hxy ↦ hxy.1) (hal.order _)
          (Db.mem_turnsOf.mpr ⟨ht, hpair⟩) hs, hid⟩
    obtain ⟨t, ht, hid⟩ := hlast
    have hmem := (Db.mem_turnsOf.mp (List.mem_of_mem_getLast? ht)).1
    refine ⟨f t, ?_, (hf t hmem).id.trans hid⟩
    rw [Scene.after_venue, hturns, List.getLast?_map, Option.mem_def.mp ht, Option.map_some]
    exact rfl

/-- The first turn of a new pair. -/
theorem of_dealt (h : lifecycle.Step su C i a d sc v) (hal : Alternating sc)
    (ha : a.isTurning = false) {n : TurnRecord} (hp : n.pairId = d.uuid)
    (hseats : ∃ pair ∈ v.db.pairs, pair.id = n.pairId ∧ n.speakerId = pair.playerA ∧
      n.guesserId = pair.playerB)
    (hturns : ∀ p, v.db.turnsOf p = sc.venue.db.turnsOf p ++ if n.pairId = p then [n] else []) :
    Alternating (sc.after i a v) := by
  have hnone : sc.venue.db.turnsOf n.pairId = [] := by
    refine List.filter_eq_nil_iff.mpr fun t ht ↦ ?_
    rw [beq_iff_eq, hp]
    exact h.inv.pairId_ne h.new ht
  have hold : ∀ p, n.pairId ≠ p → v.db.turnsOf p = sc.venue.db.turnsOf p := fun p hne ↦ by
    rw [hturns, if_neg hne, List.append_nil]
  have hnew : v.db.turnsOf n.pairId = [n] := by rw [hturns, hnone, if_pos rfl, List.nil_append]
  refine ⟨fun p ↦ ?_, fun p t ht ↦ ?_, fun j u hu ↦ ?_⟩
  · rw [Scene.after_venue]
    by_cases hne : n.pairId = p
    · rw [← hne, hnew]
      exact .singleton n
    · rw [hold p hne]
      exact hal.order p
  · rw [Scene.after_venue] at ht
    by_cases hne : n.pairId = p
    · rw [← hne, hnew] at ht
      cases ht
      rw [← hne]
      exact hseats
    · rw [hold p hne] at ht
      exact seats_kept h (hal.first p t ht) (.refl t)
  · rw [Scene.after_story, scoring_other ha] at hu
    have hne : n.pairId ≠ u.pairId := hp ▸ (h.inv.pairId_ne_of_scoring h.new hu).symm
    rw [Scene.after_venue, hold _ hne]
    exact hal.latest j u hu

/-- A turn that follows another. -/
theorem of_created {n : TurnRecord} (h : lifecycle.Step su C i (.created n) d sc v)
    (hal : Alternating sc)
    (hturns : ∀ p, v.db.turnsOf p = sc.venue.db.turnsOf p ++ if n.pairId = p then [n] else []) :
    Alternating (sc.after i (.created n) v) := by
  obtain ⟨u, hu, hswaps⟩ := h.pre
  obtain ⟨t, ht, hid⟩ := hal.latest i u hu
  have hmem := Db.mem_turnsOf.mp (List.mem_of_mem_getLast? ht)
  -- the last turn of the pair is the one that is followed
  have hfollows : t.FollowedBy n := by
    obtain ⟨x, hx, hxid, hpair, hspeaker, hguesser, hs⟩ := (h.inv.held i u hu).1
    have hxt := h.tidy.turnIds.eq hx hmem.1 (hxid.trans hid.symm)
    subst hxt
    exact ⟨hs, hswaps.1.trans hpair.symm, hswaps.2.1.trans hguesser.symm,
      hswaps.2.2.trans hspeaker.symm⟩
  have hold : ∀ p, n.pairId ≠ p → v.db.turnsOf p = sc.venue.db.turnsOf p := fun p hne ↦ by
    rw [hturns, if_neg hne, List.append_nil]
  have hnew : v.db.turnsOf n.pairId = sc.venue.db.turnsOf u.pairId ++ [n] := by
    rw [hturns, if_pos rfl, hswaps.1]
  refine ⟨fun p ↦ ?_, fun p x hx ↦ ?_, fun j w hw ↦ ?_⟩
  · rw [Scene.after_venue]
    by_cases hne : n.pairId = p
    · rw [← hne, hnew]
      refine (hal.order _).append (.singleton n) fun x hx y hy ↦ ?_
      cases hy
      cases hx.symm.trans ht
      exact hfollows
    · rw [hold p hne]
      exact hal.order p
  · rw [Scene.after_venue] at hx
    refine seats_kept h (hal.first p x ?_) (.refl x)
    by_cases hne : n.pairId = p
    · rw [← hne, hnew] at hx
      rw [← hne, hswaps.1]
      cases hlist : sc.venue.db.turnsOf u.pairId with
      | nil =>
        rw [hlist] at ht
        cases ht
      | cons y ys =>
        rw [hlist] at hx
        exact hx
    · rw [hold p hne] at hx
      exact hx
  · have hji : j ≠ i := by
      rintro rfl
      rw [Scene.after_story, scoring_created] at hw
      cases hw
    rw [Scene.after_story, scoring_ne hji.symm] at hw
    have hne : n.pairId ≠ w.pairId := fun heq ↦
      hji (h.inv.alone j i w u hw hu (heq.symm.trans hswaps.1))
    rw [Scene.after_venue, hold _ hne]
    exact hal.latest j w hw

/-- **Every deed keeps the turns alternating.** -/
theorem after (h : lifecycle.Step su C i a d sc v) (hal : Alternating sc) :
    Alternating (sc.after i a v) := by
  rcases h.did.turnsStep.turnsOf h.tidy with ⟨ha, f, hf, hturns⟩ |
    ⟨n, hturns, rfl | ⟨ha, hp, hseats⟩⟩
  · exact of_map h hal ha hf hturns
  · exact of_created h hal hturns
  · exact of_dealt h hal ha hp hseats hturns

theorem opening {v : Venue} (hv : v.Opening) : Alternating ⟨[], v, []⟩ := by
  have hnone : ∀ p, v.db.turnsOf p = [] := fun p ↦ by rw [Db.turnsOf, hv.turns, List.filter_nil]
  refine ⟨fun p ↦ ?_, fun p t ht ↦ ?_, fun i u hu ↦ by cases hu⟩
  · rw [hnone]
    exact .nil
  · rw [hnone] at ht
    cases ht

theorem of_reach {su : Setup} {C : Conditions} {c : Config VenueOp Failure Request Venue Reply}
    (h : (venue su).Reach (C.terms su) c) : Alternating (scene c.world) :=
  (Lifecycle.sound su C).kept (fun _ hv ↦ Lifecycle.opening hv) (fun _ _ ↦ trivial)
    (fun _ hv ↦ opening hv) (fun _ _ hsc ↦ ⟨hsc.order, hsc.first, hsc.latest⟩)
    (fun _ _ _ _ _ ↦ after) h

end Alternating

/-! ## The result -/

/-- How many of its turns the player has spoken in. -/
def Db.spoken (db : Db) (pairId p : Uuid) : ℕ :=
  (db.turnsOf pairId).countP fun t ↦ t.speakerId == p

/-- In a list that alternates, the test that holds first holds of the larger half. -/
theorem two_mul_countP_of_isChain {α : Type*} {p : α → Bool} {l : List α}
    (hl : l.IsChain fun x y ↦ p x ≠ p y) (hfirst : ∀ x ∈ l.head?, p x = true) :
    l.countP p = (l.length + 1) / 2 ∧ l.countP (fun x ↦ !p x) = l.length / 2 := by
  have hchain : (l.map p).IsChain (· ≠ ·) := (List.isChain_map p).mpr hl
  have htrue := hchain.two_mul_count_bool_eq_ite true
  have hsum := List.count_true_add_count_false (l.map p)
  have hcount : ∀ b : Bool, (l.map p).count b = l.countP fun x ↦ p x == b := fun b ↦ by
    rw [List.count, List.countP_map]
    rfl
  simp only [hcount, List.length_map, beq_true, beq_false] at htrue hsum
  have hhead : l ≠ [] → (some true == (l.map p).head?) = true := by
    intro hne
    obtain ⟨x, l, rfl⟩ := List.exists_cons_of_ne_nil hne
    rw [List.map_cons, List.head?_cons, hfirst x rfl]
    rfl
  by_cases hnil : l = []
  · simp [hnil]
  · rw [if_pos (hhead hnil)] at htrue
    change 2 * l.countP p = _ at htrue
    change l.countP p + _ = _ at hsum
    split_ifs at htrue with heven
    · obtain ⟨k, hk⟩ := heven
      omega
    · obtain ⟨k, hk⟩ := Nat.not_even_iff_odd.mp heven
      omega

/-- **The players of a pair take turns.**  Whatever is asked of the venue and in whatever order, all
turns of a pair but the last are scored, each is followed by one with the roles swapped, and of the
turns there are the player who was enqueued first has spoken in the larger half, and the other in
the rest. -/
theorem turns_alternate {su : Setup} {c : Config VenueOp Failure Request Venue Reply}
    (h : (venue su).Reachable c) {pair : PairRecord} (hpair : pair ∈ c.world.state.db.pairs) :
    ((c.world.state.db.turnsOf pair.id).IsChain fun t t' ↦
      t.status = .scored ∧ t'.speakerId = t.guesserId ∧ t'.guesserId = t.speakerId) ∧
    c.world.state.db.spoken pair.id pair.playerA =
      ((c.world.state.db.turnsOf pair.id).length + 1) / 2 ∧
    c.world.state.db.spoken pair.id pair.playerB =
      (c.world.state.db.turnsOf pair.id).length / 2 := by
  have htidy := tidy_of_reach h
  have hlife : Lifecycle (scene c.world) := @Lifecycle.of_reach su {} c h
  have hal : Alternating (scene c.world) := @Alternating.of_reach su {} c h
  have horder := hal.order pair.id
  -- whoever does not speak is the other one
  have hseats : ∀ t ∈ c.world.state.db.turnsOf pair.id,
      t.speakerId = pair.playerA ∧ t.guesserId = pair.playerB ∨
        t.speakerId = pair.playerB ∧ t.guesserId = pair.playerA := by
    intro t ht
    obtain ⟨hmem, hid⟩ := Db.mem_turnsOf.mp ht
    obtain ⟨pair', hpair', hid', hseats⟩ := hlife.seated t hmem
    rwa [htidy.pairIds.eq hpair' hpair (hid'.trans hid)] at hseats
  have hapart := htidy.apart pair hpair
  have hchain : (c.world.state.db.turnsOf pair.id).IsChain fun t t' ↦
      (t.speakerId == pair.playerA) ≠ (t'.speakerId == pair.playerA) := by
    refine horder.imp_of_mem_imp fun t t' ht ht' hfollows ↦ ?_
    have hspeaker := hfollows.2.2.1
    rcases hseats t ht with ⟨hs, hg⟩ | ⟨hs, hg⟩
    · simp [hspeaker, hs, hg, hapart.symm]
    · simp [hspeaker, hs, hg, hapart.symm]
  have hfirst : ∀ t ∈ (c.world.state.db.turnsOf pair.id).head?,
      (t.speakerId == pair.playerA) = true := by
    intro t ht
    obtain ⟨pair', hpair', hid, hspeaker, -⟩ := hal.first pair.id t ht
    rw [htidy.pairIds.eq hpair' hpair hid] at hspeaker
    exact beq_iff_eq.mpr hspeaker
  obtain ⟨ha, hb⟩ := two_mul_countP_of_isChain hchain hfirst
  refine ⟨horder.imp fun t t' ht ↦ ⟨ht.1, ht.2.2⟩, ha, ?_⟩
  rw [← hb]
  refine List.countP_congr fun t ht ↦ ?_
  rcases hseats t ht with ⟨hs, -⟩ | ⟨hs, -⟩
  · simp [hs, hapart]
  · simp [hs, hapart.symm]

/-- Players 1 and 2 have played a round, and player 2 is to speak. -/
theorem turns_alternate_round : ∃ c pair, (venue defaultSetup).Reachable c ∧
    pair ∈ c.world.state.db.pairs ∧ (c.world.state.db.turnsOf pair.id).length = 2 ∧
    c.world.state.db.spoken pair.id pair.playerA = 1 ∧
    c.world.state.db.spoken pair.id pair.playerB = 1 := by
  obtain ⟨c, hc, hround⟩ := System.exists_reachable_of_run opening_threePlayers
    (show ((venue defaultSetup).run (System.start threePlayers)
      (pairUp ++ speak ++ .spawn (.guess 2 0) :: calls 4 16 7)).map
      (fun c ↦ c.world.state.db.pairs.any fun pair ↦
        decide ((c.world.state.db.turnsOf pair.id).length = 2)) = some true by decide +kernel)
  obtain ⟨pair, hpair, hlength⟩ := List.any_eq_true.mp hround
  have hlength := of_decide_eq_true hlength
  obtain ⟨-, ha, hb⟩ := turns_alternate hc hpair
  rw [hlength] at ha hb
  exact ⟨c, pair, hc, hpair, hlength, ha, hb⟩

end Neva
