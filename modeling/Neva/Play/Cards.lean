import Neva.Play.Alternation
import Neva.Play.Polling

/-!
# The cards of a pair

`_pick_card_conn` orders the live cards by whether the pair has played them and takes the first, so
a pair is dealt a card again only when it has had all of them.  But `_after_scored` picks a card in
one transaction and makes the turn in another, and in between other requests run and a deck may be
taken down or put up.

What makes the choice still a good one when the turn is made is that nobody else deals to the pair
meanwhile: whoever picks for a pair has scored its last turn, and of these there is one at a time
(`Lifecycle`).  `Rotation` says of every card that is in somebody's hand that it may be dealt.

So the cards rotate (`cards_rotate`): as long as a set of cards stays live, no pair is dealt any
card twice before it has had all of the set.
-/

set_option autoImplicit false

namespace Neva

open Calls Tables

/-! ## Lists that rotate -/

section

variable {α : Type*} {s l : List α} {a : α}

/-- Nothing comes a second time before all of `s` has come. -/
def Rotates (s l : List α) : Prop :=
  ∀ earlier a later, l = earlier ++ a :: later → a ∈ earlier → s ⊆ earlier

theorem Rotates.nil (s : List α) : Rotates s [] := fun earlier a later h ↦ by simp at h

/-- What has come already comes again only after all of `s`. -/
theorem Rotates.concat (h : Rotates s l) (ha : a ∈ l → s ⊆ l) : Rotates s (l ++ [a]) := by
  intro earlier b later heq hb
  rcases List.eq_nil_or_concat later with rfl | ⟨later, x, rfl⟩
  · obtain ⟨rfl, hab⟩ := List.append_inj' heq rfl
    cases hab
    exact ha hb
  · rw [List.concat_eq_append, ← List.cons_append, ← List.append_assoc] at heq
    exact h earlier b later (List.append_inj' heq rfl).1 hb

theorem Rotates.of_prefix {l' : List α} (h : Rotates s l') (hl : l <+: l') : Rotates s l := by
  obtain ⟨rest, rfl⟩ := hl
  rintro earlier b later rfl hb
  exact h earlier b (later ++ rest) (by simp) hb

/-- Until all of `s` has come, nothing comes twice. -/
theorem Rotates.nodup_of_length_le (hs : s.Nodup) (h : Rotates s l) (hl : l.length ≤ s.length) :
    l.Nodup := by
  induction l using List.reverseRecOn with
  | nil => exact List.nodup_nil
  | append_singleton l a ih =>
    rw [List.length_append, List.length_singleton] at hl
    refine List.nodup_append'.mpr ⟨ih (h.of_prefix (List.prefix_append _ _)) (by omega),
      List.nodup_singleton a, List.disjoint_singleton.mpr fun ha ↦ ?_⟩
    have hle := (hs.subperm (h l a [] rfl ha)).length_le
    omega

/-- The first of a list that rotates are different. -/
theorem Rotates.nodup_take (hs : s.Nodup) (h : Rotates s l) : (l.take s.length).Nodup :=
  (h.of_prefix (List.take_prefix _ _)).nodup_of_length_le hs (List.length_take_le _ _)

end

/-! ## The cards a pair has been dealt -/

namespace Db

variable (db : Db)

/-- The cards of the pair's turns, in their order. -/
def cardsOf (pairId : Uuid) : List Uuid := (db.turnsOf pairId).map TurnRecord.cardId

/-- There is a verified card of this identifier. -/
def Verified (k : Uuid) : Prop := ∃ card ∈ db.cards, card.id = k ∧ card.verified = true

/-- The card may be dealt to the pair: it is verified, and if the pair has had it, it has had all of
`s`. -/
def Fits (s : List Uuid) (pairId k : Uuid) : Prop :=
  db.Verified k ∧ (k ∈ db.cardsOf pairId → s ⊆ db.cardsOf pairId)

/-- All the cards of `s` are live. -/
def Live (s : List Uuid) : Prop := s ⊆ db.liveCards.map CardRecord.id

instance (s : List Uuid) : Decidable (db.Live s) :=
  inferInstanceAs (Decidable (∀ _ ∈ s, _ ∈ db.liveCards.map CardRecord.id))

variable {db} {db' : Db} {s : List Uuid} {p k : Uuid}

/-- **A card that is picked may be dealt.** -/
theorem fits_of_pickCard {rand : ℕ} {card : CardRecord} (hs : db.Live s)
    (h : db.pickCard p rand = some card) : db.Fits s p card.id := by
  rw [pickCard] at h
  have hmem := List.mem_of_getElem? h
  have hlive : card ∈ db.liveCards := by
    split at hmem
    · exact hmem
    · exact List.mem_of_mem_filter hmem
  obtain ⟨hcard, hlive⟩ := List.mem_filter.mp hlive
  refine ⟨⟨card, hcard, rfl, (Bool.and_eq_true_iff.mp hlive).1⟩, fun hhad x hx ↦ ?_⟩
  split at hmem
  · -- there is no live card the pair has not had
    rename_i hnone
    obtain ⟨c, hc, rfl⟩ := List.mem_map.mp (hs hx)
    have hused := List.filter_eq_nil_iff.mp hnone c hc
    rw [decide_eq_true_eq, not_not] at hused
    exact hused
  · have hunused := (List.mem_filter.mp hmem).2
    rw [decide_eq_true_eq] at hunused
    exact absurd hhad hunused

/-- What may be dealt to a pair does not depend on the others. -/
theorem Fits.congr (h : db.Fits s p k) (hcards : db'.cards = db.cards)
    (hp : db'.cardsOf p = db.cardsOf p) : db'.Fits s p k := by
  rw [Fits, Verified, hcards, hp]
  exact h

theorem cardsOf_append {n : TurnRecord} (h : db'.turns = db.turns ++ [n]) (p : Uuid) :
    db'.cardsOf p = db.cardsOf p ++ if n.pairId = p then [n.cardId] else [] := by
  rw [cardsOf, turnsOf_append h, List.map_append, cardsOf]
  split <;> rfl

/-- A turn that moves on keeps its card. -/
theorem cardsOf_put {t t' : TurnRecord} (hids : Unique TurnRecord.id db.turns) (ht : t ∈ db.turns)
    (hl : t.Lasts t') (h : db'.turns = (db.putTurn t').turns) (p : Uuid) :
    db'.cardsOf p = db.cardsOf p := by
  have hkept : ∀ x ∈ db.turns, (if x.id = t'.id then t' else x).pairId = x.pairId ∧
      (if x.id = t'.id then t' else x).cardId = x.cardId := by
    intro x hx
    split
    · rename_i hid
      rw [hids.eq hx ht (hid.trans hl.id)]
      exact ⟨hl.pairId, hl.cardId⟩
    · exact ⟨rfl, rfl⟩
  rw [cardsOf, turnsOf, h, putTurn_turns, put, List.filter_map, List.map_map, cardsOf, turnsOf]
  have hfilter : db.turns.filter ((fun t : TurnRecord ↦ t.pairId == p) ∘
      fun x ↦ if x.id = t'.id then t' else x) = db.turns.filter fun t ↦ t.pairId == p :=
    List.filter_congr fun x hx ↦ by rw [Function.comp_apply, (hkept x hx).1]
  rw [hfilter]
  exact List.map_congr_left fun x hx ↦ (hkept x (List.mem_of_mem_filter hx)).2

end Db

/-- The deed makes a turn. -/
def Deed.isCreating : Deed → Bool
  | .created _ => true
  | _ => false

/-- **What a deed does to the cards of the pairs**: one more for one of them at most. -/
inductive CardsStep (d : Draw) (db db' : Db) : Deed → Prop
  | same {a : Deed} (ha : a.isCreating = false) (h : ∀ p, db'.cardsOf p = db.cardsOf p) :
      CardsStep d db db' a
  /-- The card of the first turn of a new pair. -/
  | dealt {pair : Option PairRecord} {k : Uuid} (hk : db.Verified k)
      (h : ∀ p, db'.cardsOf p = db.cardsOf p ++ if d.uuid = p then [k] else []) :
      CardsStep d db db' (.matched pair)
  | created {n : TurnRecord}
      (h : ∀ p, db'.cardsOf p = db.cardsOf p ++ if n.pairId = p then [n.cardId] else []) :
      CardsStep d db db' (.created n)

theorem Did.cardsStep {su : Setup} {d : Draw} {v v' : Venue} {a : Deed} (hd : Did su d v a v')
    (htidy : v.db.Tidy) : CardsStep d v.db v'.db a := by
  have hsame : ∀ {db' : Db}, db'.turns = v.db.turns → ∀ p, db'.cardsOf p = v.db.cardsOf p := by
    intro db' he p
    rw [Db.cardsOf, Db.turnsOf, he, Db.cardsOf, Db.turnsOf]
  cases hd with
  | quiet hplayers hqueue hpairs hcards hturns hjobs => exact .same rfl (hsame hturns)
  | queued => exact .same rfl (hsame rfl)
  | already => exact .same rfl (hsame rfl)
  | waiting => exact .same rfl (hsame rfl)
  | @paired a b lang queue hactive hactive' hne ha hb hq =>
    cases hcard : v.db.pickCard d.uuid d.rand with
    | none => exact .same rfl (hsame (List.append_nil _))
    | some card =>
      have hfits := Db.fits_of_pickCard (s := []) (List.nil_subset _) hcard
      exact .dealt hfits.1 (Db.cardsOf_append
        (n := TurnRecord.initial d.uuid' d.uuid a b card.id d.now) rfl)
  | created => exact .created (Db.cardsOf_append rfl)
  | picked => exact .same rfl (hsame rfl)
  | saved => exact .same rfl (hsame rfl)
  | accepted path durationS ht hs =>
    exact .same rfl (Db.cardsOf_put htidy.turnIds ht (TurnRecord.lasts_accepted hs path _) rfl)
  | labelled ht hs =>
    exact .same rfl (Db.cardsOf_put htidy.turnIds ht (TurnRecord.lasts_labelled hs) rfl)
  | guessed ht hs hg =>
    exact .same rfl (Db.cardsOf_put htidy.turnIds ht (hg.lasts hs) rfl)
  | enqueued kind turnId => exact .same rfl (hsame (Db.insertJob_turns ..))
  | completed => exact .same rfl (hsame rfl)
  | @triaged t quality db ht hplayers hqueue hpairs hcards hturns hjobs =>
    exact .same rfl (Db.cardsOf_put htidy.turnIds ht (TurnRecord.lasts_triaged t _ quality) hturns)
  | untriaged => exact .same rfl (hsame rfl)

/-! ## The card in somebody's hand -/

/-- The card program `i` has picked and not yet dealt. -/
def inHand (i : ℕ) : Story → Option Uuid
  | [] => none
  | (j, a) :: st =>
    if j = i then
      match a with
      | .picked card => card.map CardRecord.id
      | .guessed _ | .created _ => none
      | _ => inHand i st
    else inHand i st

theorem inHand_ne {i j : ℕ} (h : j ≠ i) (a : Deed) (st : Story) :
    inHand i ((j, a) :: st) = inHand i st :=
  if_neg h

theorem inHand_picked (i : ℕ) (card : Option CardRecord) (st : Story) :
    inHand i ((i, .picked card) :: st) = card.map CardRecord.id :=
  if_pos rfl

/-- The deed picks a card, makes a turn or decides one. -/
def Deed.isDealing : Deed → Bool
  | .picked _ | .created _ | .guessed _ => true
  | _ => false

theorem Deed.isTurning_of_isDealing {a : Deed} (ha : a.isDealing = false) :
    a.isTurning = false := by
  cases a <;> first | rfl | cases ha

theorem inHand_other {i j : ℕ} {a : Deed} (ha : a.isDealing = false) (st : Story) :
    inHand i ((j, a) :: st) = inHand i st := by
  by_cases hj : j = i
  · cases a <;> first | exact if_pos hj | cases ha
  · exact inHand_ne hj a st

/-! ## The invariant -/

/-- All steps are taken while the cards of `s` are live. -/
def staysLive (s : List Uuid) : Conditions where
  may _ _ sc := sc.venue.db.Live s

instance (s : List Uuid) (i : ℕ) (a : Deed) (sc : Scene) : Decidable ((staysLive s).may i a sc) :=
  inferInstanceAs (Decidable (sc.venue.db.Live s))

instance (s : List Uuid) (i : ℕ) (sc : Scene) : Decidable ((staysLive s).lose i sc) :=
  inferInstanceAs (Decidable True)

/-- **The cards of every pair rotate**, and go on to when the cards in hand are dealt. -/
structure Rotation (s : List Uuid) (sc : Scene) : Prop where
  verified : ∀ p, ∀ k ∈ sc.venue.db.cardsOf p, sc.venue.db.Verified k
  rotates : ∀ p, Rotates s (sc.venue.db.cardsOf p)
  hand : ∀ i u k, scoring i sc.story = some u → inHand i sc.story = some k →
    sc.venue.db.Fits s u.pairId k

/-- The pact of the cards: whoever picks one picks it for the pair whose turn they have scored, and
whoever makes a turn makes it with the card they have picked. -/
def dealing (s : List Uuid) : Pact where
  known := Lifecycle
  inv := Rotation s
  pre i a sc :=
    match a with
    | .picked (some card) => sc.venue.db.Live s →
        ∀ u, scoring i sc.story = some u → sc.venue.db.Fits s u.pairId card.id
    | .created t => ∃ u, scoring i sc.story = some u ∧ t.pairId = u.pairId ∧
        inHand i sc.story = some t.cardId
    | _ => True

namespace Rotation

variable {su : Setup} {s : List Uuid} {i : ℕ} {a : Deed} {d : Draw} {sc : Scene} {v : Venue}

/-- A pair keeps its cards, or gets one more that it may be dealt. -/
theorem cards_after (h : (dealing s).Step su (staysLive s) i a d sc v) (p : Uuid) :
    v.db.cardsOf p = sc.venue.db.cardsOf p ∨
      ∃ k, sc.venue.db.Fits s p k ∧ v.db.cardsOf p = sc.venue.db.cardsOf p ++ [k] := by
  cases h.did.cardsStep h.tidy with
  | same ha he => exact .inl (he p)
  | @dealt pair k hk he =>
    rw [he]
    split_ifs with hp
    · -- the pair is new, so it has had no card
      have hnone : k ∉ sc.venue.db.cardsOf p := by
        intro hmem
        obtain ⟨t, ht, -⟩ := List.mem_map.mp hmem
        obtain ⟨ht, hid⟩ := Db.mem_turnsOf.mp ht
        exact h.known.pairId_ne h.new ht (hid.trans hp.symm)
      exact .inr ⟨k, ⟨hk, fun hhad ↦ absurd hhad hnone⟩, rfl⟩
    · exact .inl (List.append_nil _)
  | @created n he =>
    obtain ⟨u, hu, hpair, hhand⟩ := h.pre
    rw [he]
    split_ifs with hp
    · refine .inr ⟨n.cardId, ?_, rfl⟩
      rw [← hp, hpair]
      exact h.inv.hand i u n.cardId hu hhand
    · exact .inl (List.append_nil _)

/-- Nobody else deals to the pair somebody is picking a card for. -/
theorem cards_kept (h : (dealing s).Step su (staysLive s) i a d sc v) {j : ℕ} {u : TurnRecord}
    (hu : scoring j sc.story = some u) (ha : a.isCreating = true → j ≠ i) :
    v.db.cardsOf u.pairId = sc.venue.db.cardsOf u.pairId := by
  cases h.did.cardsStep h.tidy with
  | same ha he => exact he _
  | dealt hk he =>
    rw [he, if_neg (h.known.pairId_ne_of_scoring h.new hu).symm, List.append_nil]
  | created he =>
    obtain ⟨u', hu', hpair, -⟩ := h.pre
    have hne : u'.pairId ≠ u.pairId := fun heq ↦
      ha rfl (h.known.alone j i u u' hu hu' heq.symm)
    rw [he, hpair, if_neg hne, List.append_nil]

/-- **Every deed keeps the cards rotating.** -/
theorem after (h : (dealing s).Step su (staysLive s) i a d sc v) : Rotation s (sc.after i a v) where
  verified p k hk := by
    rw [Scene.after_venue] at hk ⊢
    rw [Db.Verified, h.did.cards]
    rcases cards_after h p with he | ⟨x, hx, he⟩
    · exact h.inv.verified p k (he ▸ hk)
    · rw [he, List.mem_append, List.mem_singleton] at hk
      rcases hk with hk | rfl
      · exact h.inv.verified p k hk
      · exact hx.1
  rotates p := by
    rw [Scene.after_venue]
    rcases cards_after h p with he | ⟨x, hx, he⟩
    · exact he ▸ h.inv.rotates p
    · exact he ▸ (h.inv.rotates p).concat hx.2
  hand j u k hu hk := by
    rw [Scene.after_story] at hu hk
    rw [Scene.after_venue]
    by_cases hj : i = j
    · subst hj
      have hkept : scoring i sc.story = some u → a.isCreating = false →
          sc.venue.db.Fits s u.pairId k → v.db.Fits s u.pairId k := fun hu ha hfits ↦
        hfits.congr h.did.cards (cards_kept h hu fun hcreating ↦ by simp [ha] at hcreating)
      by_cases ha : a.isDealing = false
      · rw [inHand_other ha] at hk
        rw [scoring_other (Deed.isTurning_of_isDealing ha)] at hu
        exact hkept hu (by cases a <;> first | rfl | cases ha) (h.inv.hand i u k hu hk)
      · cases a with
        | picked card =>
          rw [inHand_picked, Option.map_eq_some_iff] at hk
          obtain ⟨card, rfl, rfl⟩ := hk
          rw [scoring_other rfl] at hu
          exact hkept hu rfl (h.pre h.may u hu)
        | created t =>
          rw [scoring_created] at hu
          cases hu
        | guessed t => simp [inHand] at hk
        | _ => exact absurd rfl ha
    · rw [scoring_ne hj] at hu
      rw [inHand_ne hj] at hk
      exact (h.inv.hand j u k hu hk).congr h.did.cards (cards_kept h hu fun _ ↦ Ne.symm hj)

end Rotation

/-! ## The requests keep the pact -/

namespace Rotation

variable {su : Setup} {s : List Uuid} {i : ℕ} {q : Request}

/-- What a program knows while it is to follow `u`, and of the card it has picked. -/
theorem carried (su : Setup) (s : List Uuid) (i : ℕ) (q : Request)
    (P : Option TurnRecord × Option Uuid → Prop) :
    (dealing s).Carried su (staysLive s) (fun a ↦ a.isDealing = false) i q
      fun sc ↦ P (scoring i sc.story, inHand i sc.story) where
  stable := .own (fun st ↦ (scoring i st, inHand i st))
    (fun _ hj a st ↦ by rw [scoring_ne hj, inHand_ne hj]) P
  pre a sc ha _ _ := by
    cases a <;> first | exact trivial | cases ha
  own a d sc v ha _ hu := by
    rw [Scene.after_story, scoring_other (Deed.isTurning_of_isDealing ha), inHand_other ha]
    exact hu
  gone _ _ _ _ := trivial
  error _ _ _ := trivial
  errorStable _ := .true i

theorem safe_done (P : Scene → Prop) (hP : (dealing s).Stable su (staysLive s) i P) :
    (dealing s).Safe su (staysLive s) i q (pure .ok) P :=
  Pact.safe_return hP fun _ _ _ ↦ trivial

/-- Making the next turn of a pair with the card that was picked for it. -/
theorem safe_createTurn (u : TurnRecord) (k : Uuid) :
    (dealing s).Safe su (staysLive s) i q (do
        let _ ← GameService.store (.createTurn u.pairId u.guesserId u.speakerId k)
        return .ok)
      fun sc ↦ scoring i sc.story = some u ∧ inHand i sc.story = some k := by
  have hc := carried su s i q fun x ↦ x.1 = some u ∧ x.2 = some k
  refine Pact.safe_call hc.stable hc.errorStable ?_ ?_ ?_ ?_
  · exact fun _ _ _ _ _ ↦ ⟨trivial, fun _ ↦ trivial⟩
  · intro sc d htidy _ _ _ hu
    rcases su.backend.promise su.cfg htidy d
      (.createTurn u.pairId u.guesserId u.speakerId k) with ⟨⟨e, he⟩, -⟩ | ⟨hr, -⟩
    · rw [VenueOp.exec, he]
      exact trivial
    · rw [VenueOp.exec, hr]
      exact ⟨u, hu.1, rfl, hu.2⟩
  · exact fun _ _ _ _ _ _ ↦ trivial
  · exact fun _ _ _ _ _ _ ↦ ⟨fun _ ↦ True, trivial, safe_done _ (.true i)⟩

theorem safe_advance (u : TurnRecord) :
    (dealing s).Safe su (staysLive s) i q (GameService.advance su.roundsCap u)
      fun sc ↦ scoring i sc.story = some u := by
  have hc := carried su s i q fun x ↦ x.1 = some u
  refine Pact.safe_quiet hc (fun _ ↦ rfl) fun capped ↦ ?_
  split_ifs
  · exact safe_done _ hc.stable
  · refine Pact.safe_call hc.stable hc.errorStable ?_ ?_ ?_ ?_
    · exact fun _ _ _ _ _ ↦ ⟨trivial, fun _ ↦ trivial⟩
    · intro sc d htidy _ _ _ hu
      obtain ⟨-, hr⟩ := su.backend.promise su.cfg htidy d (.pickCardForPair u.pairId)
      rw [VenueOp.exec, hr]
      cases hcard : sc.venue.db.pickCard u.pairId d.rand with
      | none => exact trivial
      | some card =>
        intro hlive u' hu'
        cases hu.symm.trans hu'
        exact Db.fits_of_pickCard hlive hcard
    · exact fun _ _ _ _ _ _ ↦ trivial
    · intro sc d card _ hu hr
      cases card with
      | none => exact ⟨fun _ ↦ True, trivial, safe_done _ (.true i)⟩
      | some card =>
        refine ⟨_, ⟨?_, ?_⟩, safe_createTurn u card.id⟩
        · rw [Scene.after_story, hr]
          exact (scoring_other rfl _).trans hu
        · rw [Scene.after_story, hr]
          exact inHand_picked i (some card) sc.story

theorem safe_afterScored (u : TurnRecord) :
    (dealing s).Safe su (staysLive s) i q (GameService.afterScored su.roundsCap u)
      fun sc ↦ scoring i sc.story = some u := by
  have hc := carried su s i q fun x ↦ x.1 = some u
  refine Pact.safe_quiet hc (fun _ ↦ rfl) fun fresh ↦ ?_
  split_ifs
  · refine Pact.safe_quiet hc (fun r ↦ ?_) fun _ ↦ safe_advance u
    cases r <;> rfl
  · exact safe_advance u

theorem safe_guess (player optionId : Uuid) :
    (dealing s).Safe su (staysLive s) i q ((Request.guess player optionId).body su)
      fun _ ↦ True := by
  have hc := carried su s i q fun _ ↦ True
  refine Pact.safe_guess hc rfl player optionId fun turnId correct ↦ ?_
  refine Pact.safe_call hc.stable hc.errorStable ?_ ?_ ?_ ?_
  · exact fun _ _ _ _ _ ↦ ⟨trivial, fun _ ↦ trivial⟩
  · intro sc d _ _ _ _ _
    cases ((VenueOp.store (.applyGuess turnId correct)).exec su d sc.venue).1 <;> exact trivial
  · exact fun _ _ _ _ _ _ ↦ trivial
  · intro sc d updated _ _ hr
    split_ifs with hs
    · refine ⟨_, ?_, safe_afterScored updated⟩
      rw [Scene.after_story, hr]
      exact (scoring_guessed i updated sc.story).trans (if_pos hs)
    · exact ⟨fun _ ↦ True, trivial, safe_done _ (.true i)⟩

theorem sound (su : Setup) (s : List Uuid) : (dealing s).Sound su (staysLive s) where
  spawn sc r h := ⟨h.verified, h.rotates, h.hand⟩
  after i a d sc v h := after h
  gone i := .true i
  body i q := by
    have hidle : (∀ card, ¬q.Does (.picked card)) → (∀ t, ¬q.Does (.created t)) →
        ∃ P : Scene → Prop, (dealing s).Safe su (staysLive s) i q (q.body su) P ∧
          ∀ sc : Scene, (dealing s).known sc → (dealing s).inv sc → (∀ x ∈ sc.story, x.1 < i) →
            sc.requests.length = i → P (sc.spawned q) := by
      intro hpicked hcreated
      refine Pact.body_of_idle ?_ (fun _ _ _ _ ↦ trivial) fun _ _ ↦ trivial
      intro a sc ha _ _
      cases a with
      | picked card => exact absurd ha (hpicked card)
      | created t => exact absurd ha (hcreated t)
      | _ => exact trivial
    cases q with
    | guess player optionId => exact ⟨_, safe_guess player optionId, fun _ _ _ _ _ ↦ trivial⟩
    | requestPair | uploadAudio | confirmLabel | completePair | triage | setDeckStatus =>
      exact hidle (fun _ h ↦ h) fun _ h ↦ h

theorem opening {v : Venue} (hv : v.Opening) : Rotation s ⟨[], v, []⟩ := by
  have hnone : ∀ p, v.db.cardsOf p = [] := fun p ↦ by
    rw [Db.cardsOf, Db.turnsOf, hv.turns]
    rfl
  refine ⟨fun p k hk ↦ ?_, fun p ↦ ?_, fun i u k hu ↦ by cases hu⟩
  · rw [hnone] at hk
    cases hk
  · rw [hnone]
    exact .nil s

theorem of_reach {c : Config VenueOp Failure Request Venue Reply}
    (h : (venue su).Reach ((staysLive s).terms su) c) : Rotation s (scene c.world) :=
  ((sound su s).good (fun _ hv ↦ opening hv) (fun _ ↦ Lifecycle.of_reach) h).here.2

end Rotation

/-! ## The result -/

/-- **Every card comes round before any comes again.**  In every run in which the cards of `s` stay
live, whatever is asked of the venue, in whatever order and whatever becomes of the other cards: all
cards that are played are verified, a pair is dealt a card it has had only after it has had all of
`s`, and so the first turns of a pair, as many as there are cards in `s`, show different cards. -/
theorem cards_rotate {su : Setup} {s : List Uuid} (hs : s.Nodup)
    {c : Config VenueOp Failure Request Venue Reply}
    (h : (venue su).Reach ((staysLive s).terms su) c) (pairId : Uuid) :
    (∀ t ∈ c.world.state.db.turnsOf pairId, ∃ card ∈ c.world.state.db.cards,
      card.id = t.cardId ∧ card.verified = true) ∧
    (∀ earlier t later, c.world.state.db.turnsOf pairId = earlier ++ t :: later →
      t.cardId ∈ earlier.map TurnRecord.cardId → s ⊆ earlier.map TurnRecord.cardId) ∧
    (((c.world.state.db.turnsOf pairId).take s.length).map TurnRecord.cardId).Nodup := by
  have hrot := Rotation.of_reach h
  refine ⟨fun t ht ↦ hrot.verified pairId _ (List.mem_map_of_mem ht), ?_, ?_⟩
  · intro earlier t later heq ht
    refine hrot.rotates pairId (earlier.map TurnRecord.cardId) t.cardId
      (later.map TurnRecord.cardId) ?_ ht
    rw [scene, Db.cardsOf, heq, List.map_append, List.map_cons]
  · rw [List.map_take]
    exact (hrot.rotates pairId).nodup_take hs

/-- The three players and a deck of two cards. -/
def twoCards : Venue :=
  { threePlayers with db := { threePlayers.db with cards := [⟨0, 0, true⟩, ⟨1, 0, true⟩] } }

/-- Players 1 and 2 have played a round, and the next one is with the other card. -/
theorem cards_rotate_round : ∃ c pair,
    (venue defaultSetup).Reach ((staysLive [0, 1]).terms defaultSetup) c ∧
    (c.world.state.db.turnsOf pair).length = 2 ∧
    (((c.world.state.db.turnsOf pair).take 2).map TurnRecord.cardId).Nodup := by
  obtain ⟨c, hc, hround⟩ := System.exists_reach_of_runOn
    ((staysLive [0, 1]).allows_of_permits defaultSetup)
    (show twoCards.Opening from ⟨by decide, rfl, rfl, rfl, rfl, rfl⟩)
    (show ((venue defaultSetup).runOn ((staysLive [0, 1]).permits defaultSetup)
      (System.start twoCards) (pairUp ++ speak ++ .spawn (.guess 2 0) :: calls 4 16 7)).map
      (fun c ↦ c.world.state.db.pairs.any fun pair ↦
        decide ((c.world.state.db.turnsOf pair.id).length = 2)) = some true by decide +kernel)
  obtain ⟨pair, -, hlength⟩ := List.any_eq_true.mp hround
  exact ⟨c, pair.id, hc, of_decide_eq_true hlength,
    (cards_rotate (s := [0, 1]) (by decide) hc pair.id).2.2⟩

end Neva
