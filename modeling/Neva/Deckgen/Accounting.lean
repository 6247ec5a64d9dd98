import Neva.Deckgen.Images

/-!
# The accounts of a deck

What the metrics say at the end of a build, and whose image is on which card.  The two are proved
apart.

* A task that returns a card has made a certain kind of calls (`Earned`), whatever the other tasks
  did: every image it was refused was paid for once and rejected once, and the one that was accepted
  is the image of its card.  This is an induction on the attempts that are left
  (`returns_verifiedAttempts`).
* The metrics are those the build started with, and a count of the calls that record something
  (`metrics_eq`); the cards that are stored are those there were and those of the calls that store
  one, except where the concept had a card already (`stored_eq`).

`Calls.countP_trace` adds up the tasks.
-/

set_option autoImplicit false

namespace Neva.Deckgen

open Calls

/-! ## What a task has called -/

/-- The calls of a task that has had `n` images of its concept rejected. -/
structure Rejected (py : Evaluation) (concept : Concept) (n : ℕ)
    (h : List (Past CardOp CardError)) :
    Prop where
  answered : Answered h
  attempts : h.countP (recorded .imageAttempt) = n
  accepts : h.countP (recorded .accept) = 0
  rejects : h.countP (recorded .reject) = n
  images : h.countP isImageCall = n
  accepted : h.filterMap (acceptedBy py) = []
  own : ∀ x ∈ h.filterMap generatedBy, x.1 = concept
  persisted : h.filterMap persistedBy = []

/-- **The calls of a task that has got its image.** -/
structure Earned (py : Evaluation) (concept : Concept) (regionContext : Text) (attempts : ℕ)
    (stored : List CardRecord) (h : List (Past CardOp CardError)) (imageBytes : List UInt8) :
    Prop where
  answered : Answered h
  /-- Every image that was paid for was accepted or rejected. -/
  balance : h.countP (recorded .imageAttempt) =
    h.countP (recorded .accept) + h.countP (recorded .reject)
  accepts : h.countP (recorded .accept) = 1
  images : h.countP isImageCall ≤ attempts
  /-- One verification was accepted, it was for this concept, and of this image. -/
  accepted : h.filterMap (acceptedBy py) = [(⟨concept.labelEn, regionContext⟩, imageBytes)]
  /-- All images were generated for this concept. -/
  own : ∀ x ∈ h.filterMap generatedBy, x.1 = concept
  generated : (concept, imageBytes) ∈ h.filterMap generatedBy
  persisted : h.filterMap persistedBy = stored

variable {py : Evaluation} {concept : Concept} {regionContext : Text} {attempts n : ℕ}
  {stored : List CardRecord} {h : List (Past CardOp CardError)} {imageBytes : List UInt8}

theorem rejected_nil : Rejected py concept 0 [] where
  answered := answered_nil
  attempts := rfl
  accepts := rfl
  rejects := rfl
  images := rfl
  accepted := rfl
  own _ hx := by cases hx
  persisted := rfl

theorem returns_generateImage (prompt : ImagePrompt) :
    (generateImage true prompt).Returns (fun h' image ↦ h' = ⟨.releaseImage, .ok ()⟩ ::
      ⟨.generateImage prompt, .ok image⟩ :: ⟨.acquireImage, .ok ()⟩ :: h) h := by
  rw [generateImage, if_pos rfl]
  refine Prog.returns_perform_bind fun _ ↦ ?_
  exact Prog.Returns.ensuring (Prog.returns_perform (R := fun h' image ↦ h' =
    ⟨.generateImage prompt, .ok image⟩ :: ⟨.acquireImage, .ok ()⟩ :: h) fun _ ↦ rfl)
    fun h' image hh ↦ by rw [hh]

/-- The calls of one attempt, newest first. -/
def attemptCalls (prompt : ImagePrompt) (image : GeneratedImage) (verify : VerifyPrompt)
    (verdict : Json) (what : Counter) : List (Past CardOp CardError) :=
  [⟨.record what, .ok ()⟩, ⟨.record .flashCall, .ok ()⟩,
    ⟨.verifyImage verify image.data (textOr (some image.mimeType) imageMimeType), .ok verdict⟩,
    ⟨.record .imageAttempt, .ok ()⟩, ⟨.releaseImage, .ok ()⟩, ⟨.generateImage prompt, .ok image⟩,
    ⟨.acquireImage, .ok ()⟩]

theorem answered_attempt (hh : Answered h) (prompt : ImagePrompt) (image : GeneratedImage)
    (verify : VerifyPrompt) (verdict : Json) (what : Counter) :
    Answered (attemptCalls prompt image verify verdict what ++ h) :=
  ((((((hh.cons _ _).cons _ _).cons _ _).cons _ _).cons _ _).cons _ _).cons _ _

/-- The image of an attempt is accepted if the verdict is. -/
theorem accepted_attempt (prompt : ImagePrompt) (image : GeneratedImage) (verify : VerifyPrompt)
    (members : List (Text × Json)) (what : Counter) :
    (attemptCalls prompt image verify (.obj members) what).filterMap (acceptedBy py) =
      if verificationAccepted py members then [(verify, image.data)] else [] := by
  cases hv : verificationAccepted py members with
  | true => simp [attemptCalls, List.filterMap_cons, acceptedBy, hv]
  | false => simp [attemptCalls, List.filterMap_cons, acceptedBy, hv]

/-- The image of an attempt is of the concept it asks for. -/
theorem own_attempt (hown : ∀ x ∈ h.filterMap generatedBy, x.1 = concept) {prompt : ImagePrompt}
    (hprompt : prompt.concept = concept) (image : GeneratedImage) (verify : VerifyPrompt)
    (verdict : Json) (what : Counter) :
    ∀ x ∈ (attemptCalls prompt image verify verdict what ++ h).filterMap generatedBy,
      x.1 = concept := by
  intro x hx
  rw [List.filterMap_append] at hx
  rcases List.mem_append.mp hx with hx | hx
  · have hx' : x ∈ [(prompt.concept, image.data)] := hx
    rw [List.mem_singleton.mp hx']
    exact hprompt
  · exact hown x hx

/-- An attempt that is rejected. -/
theorem Rejected.reject (hr : Rejected py concept n h) {prompt : ImagePrompt}
    {image : GeneratedImage} {verify : VerifyPrompt} {members : List (Text × Json)}
    (hv : verificationAccepted py members = false) (hprompt : prompt.concept = concept) :
    Rejected py concept (n + 1) (attemptCalls prompt image verify (.obj members) .reject ++ h) where
  answered := answered_attempt hr.answered prompt image verify _ _
  attempts := by
    rw [List.countP_append, hr.attempts]
    exact Nat.add_comm 1 n
  accepts := by
    rw [List.countP_append, hr.accepts]
    rfl
  rejects := by
    rw [List.countP_append, hr.rejects]
    exact Nat.add_comm 1 n
  images := by
    rw [List.countP_append, hr.images]
    exact Nat.add_comm 1 n
  accepted := by
    rw [List.filterMap_append, accepted_attempt, hv, hr.accepted]
    rfl
  own := own_attempt hr.own hprompt image verify _ _
  persisted := by
    rw [List.filterMap_append, hr.persisted]
    rfl

/-- An attempt that is accepted. -/
theorem Rejected.accept (hr : Rejected py concept n h) (hn : n < attempts) {prompt : ImagePrompt}
    {image : GeneratedImage} {members : List (Text × Json)}
    (hv : verificationAccepted py members = true) (hprompt : prompt.concept = concept) :
    Earned py concept regionContext attempts []
      (attemptCalls prompt image ⟨concept.labelEn, regionContext⟩ (.obj members) .accept ++ h)
      image.data where
  answered := answered_attempt hr.answered prompt image _ _ _
  balance := by
    rw [List.countP_append, List.countP_append, List.countP_append, hr.attempts, hr.accepts,
      hr.rejects]
    show 1 + n = 1 + 0 + (0 + n)
    omega
  accepts := by
    rw [List.countP_append, hr.accepts]
    rfl
  images := by
    rw [List.countP_append, hr.images]
    exact (Nat.add_comm 1 n).trans_le hn
  accepted := by
    rw [List.filterMap_append, accepted_attempt, hv, hr.accepted]
    rfl
  own := own_attempt hr.own hprompt image _ _ _
  generated := by
    rw [List.filterMap_append, ← hprompt]
    exact List.mem_append_left _ (List.mem_singleton_self _)
  persisted := by
    rw [List.filterMap_append, hr.persisted]
    rfl

/-- The loop, after `n` images have been rejected. -/
theorem returns_verifiedAttempts (left : ℕ) {strengthen : Bool} {lastReason : Text}
    (hr : Rejected py concept n h) (hn : n + left = attempts) :
    (verifiedAttempts py concept regionContext attempts true left strengthen lastReason).Returns
      (Earned py concept regionContext attempts []) h := by
  induction left generalizing n h strengthen lastReason with
  | zero => exact Prog.returns_raise _
  | succ left ih =>
    rw [verifiedAttempts]
    refine (returns_generateImage _).bind fun h' image hh' ↦ ?_
    refine Prog.returns_perform_bind fun _ ↦ Prog.returns_perform_bind fun verdict ↦
      Prog.returns_perform_bind fun _ ↦ ?_
    rw [hh']
    cases verdict with
    | obj members =>
      simp only
      split
      · rename_i hv
        refine Prog.returns_perform_bind fun _ ↦ Prog.returns_pure ?_
        exact hr.accept (by omega) hv rfl
      · rename_i hv
        refine Prog.returns_perform_bind fun _ ↦ ?_
        exact ih (hr.reject (Bool.eq_false_iff.mpr hv) rfl) (by omega)
    | _ => exact Prog.returns_raise _

theorem returns_generateVerifiedImage (maxRetries : ℕ) :
    (generateVerifiedImage py concept regionContext maxRetries true).Returns
      (Earned py concept regionContext (maxRetries + 1) []) [] :=
  returns_verifiedAttempts _ rejected_nil (Nat.zero_add _)

/-- Another call is made, which is none of these. -/
theorem Earned.cons (he : Earned py concept regionContext attempts stored h imageBytes) {β : Type}
    (op : CardOp β) (b : β) (hrecord : ∀ what, recorded what ⟨op, .ok b⟩ = false)
    (himage : isImageCall ⟨op, .ok b⟩ = false) (haccepted : acceptedBy py ⟨op, .ok b⟩ = none)
    (hgenerated : generatedBy ⟨op, .ok b⟩ = none) :
    Earned py concept regionContext attempts ((persistedBy ⟨op, .ok b⟩).toList ++ stored)
      (⟨op, .ok b⟩ :: h) imageBytes where
  answered := he.answered.cons op b
  balance := by simpa [List.countP_cons, hrecord] using he.balance
  accepts := by simpa [List.countP_cons, hrecord] using he.accepts
  images := by simpa [List.countP_cons, himage] using he.images
  accepted := by simpa [List.filterMap_cons, haccepted] using he.accepted
  own := by simpa [List.filterMap_cons, hgenerated] using he.own
  generated := by simpa [List.filterMap_cons, hgenerated] using he.generated
  persisted := by
    rw [List.filterMap_cons, he.persisted]
    cases persistedBy ⟨op, .ok b⟩ with
    | none => rfl
    | some record => rfl

theorem returns_persist (card : PicturedCard)
    (he : Earned py concept regionContext attempts [] h imageBytes) :
    (persist card).Returns
      (fun h' _ ↦ Earned py concept regionContext attempts [card.record []] h' imageBytes) h := by
  refine Prog.returns_perform_bind fun _ ↦ ?_
  refine Prog.Returns.ensuring (S := fun h' _ ↦
    Earned py concept regionContext attempts [card.record []] h' imageBytes) ?_ fun h' _ he' ↦
      he'.cons .unlockPersist () (fun _ ↦ rfl) rfl rfl rfl
  refine Prog.returns_perform_bind fun count ↦ Prog.returns_perform_bind fun _ ↦
    Prog.returns_perform fun _ ↦ ?_
  have hlock := he.cons .lockPersist () (fun _ ↦ rfl) rfl rfl rfl
  have hcount := hlock.cons .persistedCount count (fun _ ↦ rfl) rfl rfl rfl
  have hcard := hcount.cons (.persistCard (card.record []) (count + 1)) () (fun _ ↦ rfl) rfl rfl rfl
  exact hcard.cons (.setPersistedCount (count + 1)) () (fun _ ↦ rfl) rfl rfl rfl

/-- What a card task has stored by the time it returns. -/
def Surroundings.storedFor (b : Surroundings) (card : PicturedCard) : List CardRecord :=
  if b.progressive then [card.record []] else []

/-- **What a card task has called when it returns.** -/
theorem returns_buildOne (b : Surroundings) (concept : Concept) :
    (buildOne py b concept).Returns (fun h card ↦ card.concept = concept ∧
      Earned py concept (b.regionFor concept) (b.maxRetries + 1) (b.storedFor card) h
        card.imageBytes) [] := by
  refine (returns_generateVerifiedImage _).bind fun h imageBytes he ↦ ?_
  refine Prog.returns_perform_bind fun cardId ↦ ?_
  have he := he.cons .uuid4 cardId (fun _ ↦ rfl) rfl rfl rfl
  cases Dict.get b.translated concept.id with
  | none => exact Prog.returns_raise _
  | some labels =>
    simp only
    split
    · rename_i hp
      refine (returns_persist _ he).bind fun h' _ he' ↦ Prog.returns_pure ⟨rfl, ?_⟩
      rw [Surroundings.storedFor, if_pos hp]
      exact he'
    · rename_i hp
      refine Prog.returns_pure ⟨rfl, ?_⟩
      rw [Surroundings.storedFor, if_neg hp]
      exact he

/-! ## What the tasks share -/

/-- The metrics after so many recordings. -/
def DeckMetrics.plus (m : DeckMetrics) (count : Counter → ℕ) : DeckMetrics where
  imagesAttempted := m.imagesAttempted + count .imageAttempt
  imagesAccepted := m.imagesAccepted + count .accept
  imagesRejected := m.imagesRejected + count .reject
  flashCalls := m.flashCalls + count .flashCall

theorem Counter.record_plus (what : Counter) (m : DeckMetrics) (count : Counter → ℕ) :
    what.record (m.plus count) =
      m.plus fun what' ↦ count what' + if what = what' then 1 else 0 := by
  cases what <;> simp [Counter.record, DeckMetrics.plus, DeckMetrics.recordImageAttempt,
    DeckMetrics.recordAccept, DeckMetrics.recordReject, DeckMetrics.recordFlashCall, add_assoc]

variable {b : Surroundings} {m : DeckMetrics} {earlier : List CardRecord} {c : CardConfig}

/-- **The metrics count the calls**, whichever task makes them. -/
theorem metrics_eq (hc : (cardTasks py b m earlier).Reach eventLoop c) : c.world.state.metrics =
    m.plus fun what ↦ c.world.trace.countP fun t ↦ recorded what t.2 := by
  refine hc.state_inv (I := fun w ↦ w.state.metrics =
    m.plus fun what ↦ w.trace.countP fun t ↦ recorded what t.2) ?_ ?_ ?_
  · intro s hs
    cases hs
    simp [DeckMetrics.plus]
  · exact fun w r hw ↦ hw
  · intro i β op d w hw _ _
    cases op with
    | record what =>
      show what.record w.state.metrics = _
      rw [hw, Counter.record_plus]
      congr 1
      ext what'
      simp [System.after_trace, List.countP_cons, recorded]
    | _ => simpa [cardTasks, CardOp.exec, List.countP_cons, recorded] using hw

/-- The cards that are stored are those that have been passed to the publisher, one after the
other. -/
theorem stored_eq (hc : (cardTasks py b m earlier).Reach eventLoop c) : c.world.state.stored =
    (c.world.trace.filterMap fun t ↦ persistedBy t.2).reverse.foldl storeCard earlier := by
  refine hc.state_inv (I := fun w ↦ w.state.stored =
    (w.trace.filterMap fun t ↦ persistedBy t.2).reverse.foldl storeCard earlier) ?_ ?_ ?_
  · intro s hs
    cases hs
    rfl
  · exact fun w r hw ↦ hw
  · intro i β op d w hw _ _
    cases op with
    | persistCard card cardsReady =>
      show storeCard w.state.stored card = _
      rw [hw, System.after_trace, List.filterMap_cons]
      simp [persistedBy]
    | _ => simpa [cardTasks, CardOp.exec, List.filterMap_cons, persistedBy] using hw

/-- Of cards with different concepts those are stored whose concept had none. -/
theorem foldl_storeCard {cards : List CardRecord}
    (hn : (cards.map CardRecord.conceptId).Nodup) : cards.foldl storeCard earlier =
      earlier ++ cards.filter fun card ↦ card.conceptId ∉ earlier.map CardRecord.conceptId := by
  induction cards using List.reverseRecOn with
  | nil => simp
  | append_singleton cards card ih =>
    rw [List.map_append, List.map_cons, List.map_nil, List.nodup_append] at hn
    obtain ⟨hn, -, hnew⟩ := hn
    have hmem : card.conceptId ∈ (earlier ++ cards.filter fun card ↦
        card.conceptId ∉ earlier.map CardRecord.conceptId).map CardRecord.conceptId ↔
          card.conceptId ∈ earlier.map CardRecord.conceptId := by
      rw [List.map_append, List.mem_append]
      refine or_iff_left fun h ↦ ?_
      obtain ⟨card', hcard', heq⟩ := List.mem_map.mp h
      exact hnew _ (List.mem_map_of_mem (List.mem_of_mem_filter hcard')) _
        List.mem_cons_self heq
    rw [List.foldl_append, ih hn, List.filter_append, ← List.append_assoc, List.foldl_cons,
      List.foldl_nil, storeCard]
    by_cases h : card.conceptId ∈ earlier.map CardRecord.conceptId
    · rw [if_pos (hmem.mpr h), List.filter_singleton, decide_eq_false (not_not.mpr h)]
      exact (List.append_nil _).symm
    · rw [if_neg (mt hmem.mp h), List.filter_singleton, decide_eq_true h]
      rfl

/-! ## When all tasks have returned -/

/-- All tasks have returned, and these are their cards. -/
def Gathered (c : CardConfig) (built : List PicturedCard) : Prop :=
  c.threads = built.map fun card ↦ .live (.done (.ok card))

variable {built : List PicturedCard}

theorem builtBy_eq_some {t : Thread CardOp CardError PicturedCard} {card : PicturedCard}
    (ht : builtBy t = some card) : t = .live (.done (.ok card)) := by
  rw [builtBy.eq_def] at ht
  split at ht
  · cases ht
    rfl
  · cases ht

theorem gathered_of_mapM (h : c.threads.mapM builtBy = some built) : Gathered c built := by
  rw [Gathered]
  generalize c.threads = threads at h
  induction threads generalizing built with
  | nil =>
    cases h
    rfl
  | cons t threads ih =>
    rw [List.mapM_cons, Option.bind_eq_bind, Option.bind_eq_some_iff] at h
    obtain ⟨card, ht, h⟩ := h
    rw [Option.bind_eq_bind, Option.bind_eq_some_iff] at h
    obtain ⟨rest, hrest, h⟩ := h
    cases h
    rw [builtBy_eq_some ht, ih hrest]
    rfl

namespace Gathered

variable (hc : (cardTasks py b m earlier).Reach eventLoop c) (hg : Gathered c built)

include hc hg

theorem length_requests : c.world.requests.length = built.length := by
  rw [← hc.threads_length, hg, List.length_map]

theorem trace_lt : ∀ t ∈ c.world.trace, t.1 < built.length := by
  have hlt := hc.trace_lt
  rwa [hc.threads_length, length_requests hc hg] at hlt

/-- Every card has been earned by the calls of its task. -/
theorem earned {i : ℕ} {card : PicturedCard} (hi : built[i]? = some card) :
    c.world.requests[i]? = some card.concept ∧
      Earned py card.concept (b.regionFor card.concept) (b.maxRetries + 1) (b.storedFor card)
        (callsOf i c.world.trace) card.imageBytes := by
  have hlt : i < c.world.requests.length :=
    length_requests hc hg ▸ (List.getElem?_eq_some_iff.mp hi).1
  have hr := List.getElem?_eq_getElem hlt
  have ht : c.threads[i]? = some (.live (.done (.ok card))) := by
    rw [hg, List.getElem?_map, hi]
    rfl
  obtain ⟨hconcept, he⟩ := hc.returned (returns_buildOne b) (fun _ _ _ hR ↦ hR.2.answered) hr ht
  rw [hconcept]
  exact ⟨hr, he⟩

theorem concepts_eq : built.map (fun card ↦ card.concept) = c.world.requests := by
  refine List.ext_getElem? fun i ↦ ?_
  rw [List.getElem?_map]
  cases hi : built[i]? with
  | none =>
    rw [List.getElem?_eq_none_iff, ← length_requests hc hg] at hi
    rw [List.getElem?_eq_none hi]
    rfl
  | some card => exact (earned hc hg hi).1.symm

/-- One image was accepted for each card. -/
theorem accepts :
    c.world.trace.countP (fun t ↦ recorded .accept t.2) = built.length := by
  rw [countP_trace_eq (trace_lt hc hg) (g := fun _ ↦ 1) fun i card hi ↦
    (earned hc hg hi).2.accepts]
  simp

/-- Every image was accepted or rejected. -/
theorem balance :
    c.world.trace.countP (fun t ↦ recorded .imageAttempt t.2) =
      c.world.trace.countP (fun t ↦ recorded .accept t.2) +
        c.world.trace.countP (fun t ↦ recorded .reject t.2) := by
  rw [countP_trace (trace_lt hc hg), countP_trace (trace_lt hc hg), countP_trace (trace_lt hc hg),
    ← Finset.sum_add_distrib]
  refine Finset.sum_congr rfl fun i hi ↦ ?_
  exact (earned hc hg (List.getElem?_eq_getElem (Finset.mem_range.mp hi))).2.balance

/-- When cards are stored as they come, each is stored once, unless its concept had a card. -/
theorem stored_perm (hp : b.progressive = true)
    (hn : (c.world.requests.map Concept.id).Nodup) :
    c.world.state.stored.Perm (earlier ++ (built.map fun card ↦ card.record []).filter fun card ↦
      card.conceptId ∉ earlier.map CardRecord.conceptId) := by
  have hperm := perm_filterMap_trace (trace_lt hc hg) (f := persistedBy) (g := b.storedFor)
    fun i card hi ↦ (earned hc hg hi).2.persisted
  have hone : b.storedFor = fun card ↦ [card.record []] := by
    ext1 card
    rw [Surroundings.storedFor, if_pos hp]
  rw [hone, ← List.map_eq_flatMap] at hperm
  have hperm := (List.reverse_perm _).trans hperm
  have hids : ((built.map fun card ↦ card.record []).map CardRecord.conceptId).Nodup := by
    rw [← concepts_eq hc hg, List.map_map] at hn
    rwa [List.map_map]
  rw [stored_eq hc, foldl_storeCard ((hperm.map _).nodup_iff.mpr hids)]
  exact (hperm.filter _).append_left earlier

end Gathered

/-! ## The accounts of a build -/

/-- What the tasks of a build have done, if all goes well. -/
theorem tasks_reach {seed : SeedLabels} {o : ImageBuild} {labelRows : Json}
    {events : List CardEvent} {t : TaskRun} (ht : o.tasks py seed labelRows events = some t) :
    (cardTasks py (o.surroundings t.translated) o.metrics.recordFlashCall o.earlier).Reach
      eventLoop t.config ∧ t.config.world.requests = t.concepts ∧
        (t.concepts.map Concept.id).Nodup := by
  rw [ImageBuild.tasks] at ht
  split at ht
  · cases ht
  · rename_i concepts hselected
    split at ht
    · cases ht
    · rename_i translated _
      obtain ⟨config, hrun, rfl⟩ := Option.map_eq_some_iff.mp ht
      refine ⟨System.reach_of_runOn eventLoop.allows_of_permits (.start rfl) hrun, ?_,
        nodup_selectedConcepts hselected⟩
      have hspawned : (concepts.map Event.spawn).filterMap
          (Event.arrival : Event Concept CardDraw CardError → Option Concept) = concepts := by
        rw [List.filterMap_map]
        exact List.filterMap_some
      have hnone : (events.map CardEvent.event).filterMap Event.arrival = [] := by
        rw [List.filterMap_map, List.filterMap_eq_nil_iff]
        rintro (_ | _) - <;> rfl
      rw [System.requests_of_runOn hrun, List.filterMap_append, hspawned, hnone, List.append_nil]
      rfl

/-- What a record shows of its card. -/
def CardRecord.shown (record : CardRecord) : Uuid × Text × List UInt8 :=
  (record.cardId, record.conceptId, record.imageBytes)

/-- **The accounts of a build are in order.** -/
structure Accounted (py : Evaluation) (o : ImageBuild) (t : TaskRun) (r : DeckBuildResult) :
    Prop where
  /-- There is one card for each concept, in the order of the concepts. -/
  cards : r.cards.map (fun card ↦ card.concept) = t.concepts
  /-- What is published are these cards, with their images; only a concept that had a card in the
  deck has kept that one. -/
  published : (r.published.map CardRecord.shown).Perm (o.earlier.map CardRecord.shown ++
    (r.cards.filter fun card ↦ card.concept.id ∉ o.earlier.map CardRecord.conceptId).map
      fun card ↦ (card.cardId, card.concept.id, card.imageBytes))
  /-- The image of a card is the one its task has had accepted, for the label of its concept. -/
  images : ∀ i card, r.cards[i]? = some card →
    (callsOf i t.config.world.trace).filterMap (acceptedBy py) =
      [(⟨card.concept.labelEn, textOr card.concept.locale o.regionContext⟩, card.imageBytes)]
  /-- That image was generated for the concept. -/
  generated : ∀ i card, r.cards[i]? = some card →
    (card.concept, card.imageBytes) ∈ (callsOf i t.config.world.trace).filterMap generatedBy
  /-- A task asks for images of its own concept. -/
  own : ∀ i card, r.cards[i]? = some card →
    ∀ x ∈ (callsOf i t.config.world.trace).filterMap generatedBy, x.1 = card.concept
  /-- No task has used more image calls than it is allowed. -/
  imageCalls : ∀ i, (callsOf i t.config.world.trace).countP isImageCall ≤
    (o.surroundings t.translated).maxRetries + 1
  /-- The images of the build were accepted or rejected. -/
  balance : r.metrics.imagesAttempted - o.metrics.imagesAttempted =
    (r.metrics.imagesAccepted - o.metrics.imagesAccepted) +
      (r.metrics.imagesRejected - o.metrics.imagesRejected)
  /-- As many were accepted as there are cards. -/
  accepted : r.metrics.imagesAccepted - o.metrics.imagesAccepted = r.cards.length

/-- What `build_deck` returns. -/
theorem result_eq_some {o : ImageBuild} {t : TaskRun} {decoyRows : List DecoyRow}
    {r : DeckBuildResult} (hr : o.result t decoyRows = some r) :
    ∃ (built : List PicturedCard) (decoys decoyUuids : Mapping),
      Gathered t.config built ∧
      r.cards = built.map (fun card ↦
        { card with decoyConceptIds := decoysOf decoys card.cardId }) ∧
      r.metrics = t.config.world.state.metrics.recordFlashCall ∧
      ¬(o.order.progressive = false ∧ o.earlier ≠ []) ∧
      r.published = if o.order.progressive then
          t.config.world.state.stored.map fun record ↦
            { record with decoyCardIds := decoysOf decoyUuids record.cardId }
        else built.map fun card ↦ card.record (decoysOf decoyUuids card.cardId) := by
  rw [ImageBuild.result] at hr
  split at hr
  · cases hr
  · rename_i built hbuilt
    split at hr
    · cases hr
    · rename_i decoys _
      split at hr
      · cases hr
      · rename_i decoyUuids _
        split at hr
        · cases hr
        · rename_i hdeck
          cases hr
          exact ⟨built, decoys, decoyUuids, gathered_of_mapM hbuilt, rfl, rfl, hdeck, rfl⟩

/-- **Whatever the verdicts are and however the tasks of a build interleave, its accounts are in
order**, if it returns: counted from the metrics it was given. -/
theorem build_accounted {seed : SeedLabels} {o : ImageBuild} {labelRows : Json}
    {events : List CardEvent} {decoyRows : List DecoyRow} {t : TaskRun} {r : DeckBuildResult}
    (ht : o.tasks py seed labelRows events = some t) (hr : o.result t decoyRows = some r) :
    Accounted py o t r := by
  obtain ⟨hc, hrequests, hunique⟩ := tasks_reach ht
  obtain ⟨built, decoys, decoyUuids, hg, hcards, hmetrics, hdeck, hpublished⟩ := result_eq_some hr
  have hcard : ∀ (i : ℕ) (card : PicturedCard), r.cards[i]? = some card →
      ∃ card' : PicturedCard, built[i]? = some card' ∧ card.concept = card'.concept ∧
        card.imageBytes = card'.imageBytes := by
    intro i card hi
    rw [hcards, List.getElem?_map] at hi
    obtain ⟨card', hi', rfl⟩ := Option.map_eq_some_iff.mp hi
    exact ⟨card', hi', rfl, rfl⟩
  refine ⟨?_, ?_, ?_, ?_, ?_, ?_, ?_, ?_⟩
  · rw [← hrequests, ← hg.concepts_eq hc, hcards, List.map_map]
    rfl
  · rw [hpublished, hcards]
    split
    · rename_i hp
      have hstored := (hg.stored_perm hc hp (hrequests ▸ hunique)).map CardRecord.shown
      rw [List.map_append, List.filter_map, List.map_map] at hstored
      rw [List.map_map, List.filter_map, List.map_map]
      exact hstored
    · rename_i hp
      have hnone : o.earlier = [] := not_not.mp fun h ↦ hdeck ⟨Bool.eq_false_iff.mpr hp, h⟩
      rw [hnone, List.map_map, List.filter_map, List.map_map]
      simp only [List.map_nil, List.not_mem_nil, not_false_eq_true, decide_true, List.nil_append,
        Function.comp_def, List.filter_true]
      exact List.Perm.refl _
  · intro i card hi
    obtain ⟨card', hi', hconcept, himage⟩ := hcard i card hi
    rw [hconcept, himage]
    exact (hg.earned hc hi').2.accepted
  · intro i card hi
    obtain ⟨card', hi', hconcept, himage⟩ := hcard i card hi
    rw [hconcept, himage]
    exact (hg.earned hc hi').2.generated
  · intro i card hi
    obtain ⟨card', hi', hconcept, -⟩ := hcard i card hi
    rw [hconcept]
    exact (hg.earned hc hi').2.own
  · intro i
    rcases Nat.lt_or_ge i built.length with hi | hi
    · exact (hg.earned hc (List.getElem?_eq_getElem hi)).2.images
    · -- there is no such task
      rw [callsOf_eq_nil fun x hx ↦ ((hg.trace_lt hc x hx).trans_le hi).ne]
      exact Nat.zero_le _
  · have hbalance := hg.balance hc
    rw [hmetrics, metrics_eq hc]
    simp only [DeckMetrics.recordFlashCall, DeckMetrics.plus]
    omega
  · have haccepts := hg.accepts hc
    rw [hmetrics, metrics_eq hc, hcards, List.length_map]
    simp only [DeckMetrics.recordFlashCall, DeckMetrics.plus]
    omega

/-! ## A build that goes on counting -/

/-- Numbers are not looked at. -/
def plainEvaluation : Evaluation := ⟨plainReading, fun _ ↦ false⟩

def sixConcepts : List Concept :=
  ["kite", "drum", "goat", "boat", "loom", "bell"].map fun id ↦ curated id id

/-- A verdict without `cultural_ok`. -/
def plainVerdict (verdict : String) : Json :=
  .obj [("verdict".toList, .str verdict.toList), ("depicts_label".toList, .bool true),
    ("has_text".toList, .bool false)]

/-- The task makes calls; it gets an image of its own number, and the number for its card. -/
def taskSteps (i calls : ℕ) (verdict : String) : List CardEvent :=
  List.replicate calls (.step i ⟨⟨[i.toUInt8], imageMimeType⟩, plainVerdict verdict, i⟩)

/-- The first image of the first card is rejected.  All have an image before any is verified. -/
def sixEvents : List CardEvent :=
  taskSteps 0 7 "fail" ++ (List.range 6).flatMap (fun i ↦ taskSteps i 4 "pass") ++
    (List.range 6).flatMap fun i ↦ taskSteps i 4 "pass"

/-- Every card is given the other five. -/
def sixDecoys : List DecoyRow :=
  (List.range 6).map fun i ↦ ⟨uuidText i, (sixConcepts.map Concept.id).eraseIdx i⟩

/-- The metrics passed in are those of a card that took two images. -/
def resumedBuild : ImageBuild where
  order := { region := "assam".toList, concepts := some sixConcepts, deckId := none }
  regionContext := "Assam tea gardens".toList
  initialMetrics := some { imagesAttempted := 2, imagesAccepted := 1, imagesRejected := 1 }

/-- Seven images accepted, six cards. -/
theorem resumedBuild_returns :
    ((resumedBuild.tasks plainEvaluation englishOnly (.arr []) sixEvents).bind fun t ↦
      resumedBuild.result t sixDecoys).map
        (fun r ↦ (r.metrics.imagesAccepted, r.cards.length)) = some (7, 6) := by
  decide +kernel

/-- The first card of an earlier build. -/
def earlierKite : CardRecord := ⟨99, "kite".toList, [255], [], [], true⟩

/-- A build that shows its cards as they come, in a deck that has a card. -/
def resumedDeck : ImageBuild where
  order := {
    region := "assam".toList, concepts := some sixConcepts, deckId := some 7, progressive := true }
  regionContext := "Assam tea gardens".toList
  earlier := [earlierKite]

/-- One after the other, the tasks store their cards. -/
def storingEvents : List CardEvent := (List.range 6).flatMap fun i ↦ taskSteps i 13 "pass"

/-- The images that were accepted in a run. -/
def TaskRun.acceptedImages (py : Evaluation) (t : TaskRun) : List (List UInt8) :=
  t.config.world.trace.filterMap fun c ↦ (acceptedBy py c.2).map Prod.snd

/-- The card of the earlier build is published, with an image this build has not seen. -/
theorem resumedDeck_returns :
    ((resumedDeck.tasks plainEvaluation englishOnly (.arr []) storingEvents).bind fun t ↦
      (resumedDeck.result t sixDecoys).map fun r ↦
        decide (earlierKite.imageBytes ∈ r.published.map CardRecord.imageBytes ∧
          earlierKite.imageBytes ∉ t.acceptedImages plainEvaluation)) = some true := by
  decide +kernel

/-- An image accepted before the build is counted with its own, and the image of a card that the
deck had before is published without having been accepted in the build. -/
theorem earlier_images_counted :
    (∃ t r, resumedBuild.tasks plainEvaluation englishOnly (.arr []) sixEvents = some t ∧
      resumedBuild.result t sixDecoys = some r ∧ r.metrics.imagesAccepted ≠ r.cards.length) ∧
    ∃ t r, resumedDeck.tasks plainEvaluation englishOnly (.arr []) storingEvents = some t ∧
      resumedDeck.result t sixDecoys = some r ∧
        ∃ record ∈ r.published, record.imageBytes ∉ t.acceptedImages plainEvaluation := by
  constructor
  · obtain ⟨r, hbind, hr⟩ := Option.map_eq_some_iff.mp resumedBuild_returns
    obtain ⟨t, ht, hresult⟩ := Option.bind_eq_some_iff.mp hbind
    obtain ⟨haccepted, hcards⟩ := Prod.mk.inj hr
    refine ⟨t, r, ht, hresult, ?_⟩
    rw [haccepted, hcards]
    decide
  · obtain ⟨t, ht, hbind⟩ := Option.bind_eq_some_iff.mp resumedDeck_returns
    obtain ⟨r, hresult, hr⟩ := Option.map_eq_some_iff.mp hbind
    obtain ⟨hmem, hnot⟩ := of_decide_eq_true hr
    obtain ⟨record, hrecord, himage⟩ := List.mem_map.mp hmem
    exact ⟨t, r, ht, hresult, record, hrecord, himage ▸ hnot⟩

/-- Both builds return, with their accounts in order. -/
theorem build_accounted_resumed :
    (∃ t r, resumedBuild.tasks plainEvaluation englishOnly (.arr []) sixEvents = some t ∧
      resumedBuild.result t sixDecoys = some r ∧ Accounted plainEvaluation resumedBuild t r) ∧
    ∃ t r, resumedDeck.tasks plainEvaluation englishOnly (.arr []) storingEvents = some t ∧
      resumedDeck.result t sixDecoys = some r ∧ Accounted plainEvaluation resumedDeck t r := by
  constructor
  · obtain ⟨r, hbind, -⟩ := Option.map_eq_some_iff.mp resumedBuild_returns
    obtain ⟨t, ht, hresult⟩ := Option.bind_eq_some_iff.mp hbind
    exact ⟨t, r, ht, hresult, build_accounted ht hresult⟩
  · obtain ⟨t, ht, hbind⟩ := Option.bind_eq_some_iff.mp resumedDeck_returns
    obtain ⟨r, hresult, -⟩ := Option.map_eq_some_iff.mp hbind
    exact ⟨t, r, ht, hresult, build_accounted ht hresult⟩

end Neva.Deckgen
