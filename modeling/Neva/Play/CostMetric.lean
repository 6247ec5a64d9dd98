import Neva.Game.Metrics
import Neva.Play.HandOff
import Neva.Play.Polling
import Neva.Worker.ExactlyOnce

/-!
# The cost of a validated sample

`GET /api/metrics` shows what a validated sample has cost: the live deck, and for each sample the
one call of the model its triage has made.  The number is to be shown exactly when there is
evidence for all of it.

Every call the client of the model makes is recorded, as far as recording succeeds, and a row says
what operation it was for but not for which turn.  The query therefore counts.  A turn that has
ended unclear, or has not been guessed yet, is triaged like any other, so its call is counted as
well (a *stray*), and a call that was lost is missing (its turn is *lacking*).  As long as there are
neither, the number is right.  With strays only it is withheld although the evidence is complete,
and with as many strays as lacking turns it is shown although the evidence is not.
`cost_exact_iff` says that this is all that can go wrong.
-/

set_option autoImplicit false

namespace Neva

open Calls Tables

/-! ## The tables the query reads -/

/-- The value of `api_calls.operation` for a triage. -/
def gauntletTriage : Text := "gauntlet_triage".toList

/-- An `api_calls` row.  The turn it was made for is not in the row; no query reads it. -/
structure ApiCall where
  operation : Text
  success : Bool
  estimatedCostMicrousd : Option ℤ
  turnId : Option Uuid
  deriving DecidableEq, Repr

/-- The columns of a `decks` row that `DeckRow` leaves out. -/
structure DeckEvidence where
  generationMetrics : Option GenerationMetrics
  activatedAt : Option Time
  createdAt : Time

/-- The tables of the game, and what the workers and the recorder add to them. -/
structure Ledger where
  venue : Venue
  records : List RecordRow
  calls : List ApiCall
  decks : Uuid → DeckEvidence

namespace Ledger

variable (l : Ledger)

/-- The validated turns. -/
def validated : List TurnRecord := l.venue.db.turns.filter fun t ↦ t.outcome == .validated

/-- `operation = 'gauntlet_triage' AND status = 'success'` -/
def triages : List ApiCall := l.calls.filter fun c ↦ c.operation == gauntletTriage && c.success

/-- `WHERE status = 'live' ORDER BY activated_at DESC NULLS LAST, created_at DESC LIMIT 1` -/
def liveDeck : Option DeckRow :=
  (l.venue.db.decks.filter fun d ↦ d.status == .live).argmax fun d ↦
    toLex (((l.decks d.id).activatedAt.map (· + 1)).getD 0, (l.decks d.id).createdAt)

/-- `trim`, which takes blanks only. -/
def sqlTrim (s : Text) : Text := (s.dropWhile (· == ' ')).rdropWhile (· == ' ')

/-- The query of `metrics`. -/
def metricsRow (lower : Text → Text) : MetricsAggregateRow where
  validatedPairs := l.validated.length
  trainingEligiblePairs := l.records.countP RecordRow.trainingEligible
  packagedValidatedRecords := l.records.countP fun r ↦ l.validated.any fun t ↦ t.id == r.turnId
  languages := ((l.validated.filterMap fun t ↦
    (l.venue.db.findPlayer t.speakerId).map fun p ↦ lower (sqlTrim p.nativeLang)).filter
      fun lang ↦ lang ≠ []).dedup
  gauntletTriageCostMicrousdSum := (l.triages.filterMap ApiCall.estimatedCostMicrousd).sum
  successfulGauntletTriageCallCount := l.triages.length
  unpricedGauntletTriageCallCount := l.triages.countP fun c ↦ c.estimatedCostMicrousd.isNone
  generationMetrics := l.liveDeck.bind fun d ↦ (l.decks d.id).generationMetrics

/-- `metrics` -/
def metrics (lower : Text → Text) : MetricsSnapshot :=
  metricsSnapshotFromAggregates lower (l.metricsRow lower)

/-- One step of the game, of a worker or of the recorder.  A write of the recorder that is lost is
no step at all. -/
inductive Step (D : Deployment) (p : Packaging) : Ledger → Prop
  | game {v : Venue} (h : D.Step l.venue v) : Step D p { l with venue := v }
  /-- `create_record`, for a scored turn with a quality. -/
  | packaged {context : TurnContext} (golden : List (Text × Json))
      (hcontext : Repository.turnContext p.labels l.venue.db context.turnId = some context)
      (hscored : context.status = .scored) (hquality : context.quality ≠ none) :
      Step D p { l with records := (Repository.createRecord l.records p.jsonb context.turnId golden
        (trainingEligible context)).2 }
  | exported (turnId : Uuid) (shardFile : Text) :
      Step D p { l with records := Repository.setRecordShard l.records turnId shardFile }
  /-- A triage of the turn has called the model; the turn has audio. -/
  | recorded {t : TurnRecord} (ht : t ∈ l.venue.db.turns) (hs : t.status ≠ .awaitingAudio)
      (success : Bool) (cost : Option ℤ) :
      Step D p { l with calls := l.calls ++ [⟨gauntletTriage, success, cost, some t.id⟩] }
  /-- A call of the deck generator. -/
  | recordedOther (call : ApiCall) (h : call.operation ≠ gauntletTriage) :
      Step D p { l with calls := l.calls ++ [call] }
  | deck (deckId : Uuid) (evidence : DeckEvidence) :
      Step D p { l with decks := Function.update l.decks deckId evidence }

/-- The ledgers a deployment comes to. -/
inductive Reachable (D : Deployment) (p : Packaging) : Ledger → Prop
  | opening {v : Venue} (h : v.Opening) (decks : Uuid → DeckEvidence) :
      Reachable D p ⟨v, [], [], decks⟩
  | step {l l' : Ledger} (h : Reachable D p l) (hstep : l.Step D p l') : Reachable D p l'

/-! ## What the number is to say -/

/-- The total cost of the live deck, if it is known. -/
def deckCost (lower : Text → Text) : Option ℚ :=
  extractDeckGenerationMetric (l.metricsRow lower).generationMetrics "total_cost_usd".toList

end Ledger

/-- The turn a call was made for, if it has a price. -/
def ApiCall.pricedTurn (c : ApiCall) : Option Uuid :=
  if c.estimatedCostMicrousd.isSome then c.turnId else none

namespace Ledger

variable (lower : Text → Text) (l : Ledger)

/-- The successful priced calls made for a turn. -/
def pricedFor (turnId : Uuid) : List ApiCall :=
  l.triages.filter fun c ↦ c.pricedTurn == some turnId

/-- There is a sample, the cost of the live deck is known, and every validated turn is packaged. -/
structure Ready : Prop where
  sample : l.validated ≠ []
  deck : (l.deckCost lower).isSome
  packaged : ∀ t ∈ l.validated, ∃ r ∈ l.records, r.turnId = t.id

/-- There is evidence for the cost of every sample. -/
def Supported : Prop := l.Ready lower ∧ ∀ t ∈ l.validated, (l.pricedFor t.id).length = 1

/-- The cost of the deck and of the one call of each sample, over the number of samples. -/
def supportedCost : ℚ :=
  ((l.deckCost lower).getD 0 + ((l.validated.map fun t ↦ ((l.pricedFor t.id).map fun c ↦
    c.estimatedCostMicrousd.getD 0).sum).sum : ℤ) / microusdPerUsd) / l.validated.length

/-- **The cost is shown exactly when it is supported**, and it is the supported one. -/
def CostExact : Prop :=
  ((l.metrics lower).costPerValidatedSampleUsd.isSome ↔ l.Supported lower) ∧
    ∀ cost, (l.metrics lower).costPerValidatedSampleUsd = some cost → cost = l.supportedCost lower

/-- The validated turns that have their one call. -/
def settled : List Uuid :=
  (l.validated.filter fun t ↦ (l.pricedFor t.id).length == 1).map TurnRecord.id

/-- The validated turns that do not. -/
def lacking : List TurnRecord := l.validated.filter fun t ↦ !((l.pricedFor t.id).length == 1)

/-- The successful calls that are not the one call of a validated turn. -/
def strays : List ApiCall :=
  l.triages.filter fun c ↦ !(l.settled.any fun turnId ↦ c.pricedTurn == some turnId)

/-- Either nothing is lacking and nothing astray, or something is lacking and the strays, if all
are priced, are not as many. -/
def Matched : Prop :=
  (l.lacking = [] → l.strays = []) ∧
    (l.strays.length = l.lacking.length →
      (∀ c ∈ l.strays, c.estimatedCostMicrousd.isSome) → l.lacking = [])

end Ledger

/-! ## What holds of every ledger -/

/-- Rows have keys. -/
structure Ledger.Sound (l : Ledger) : Prop where
  venue : l.venue.Sound
  records : Unique RecordRow.turnId l.records

namespace Ledger

variable {D : Deployment} {p : Packaging} {lower : Text → Text} {l l' : Ledger}

theorem unique_createRecord {records : List RecordRow} (h : Unique RecordRow.turnId records)
    (jsonb : Json.Store) (turnId : Uuid) (golden : List (Text × Json)) (eligible : Bool) :
    Unique RecordRow.turnId
      (Repository.createRecord records jsonb turnId golden eligible).2 := by
  rw [Repository.createRecord]
  split
  · exact h
  · rename_i hnew
    refine h.append fun hmem ↦ hnew ?_
    obtain ⟨r, hr, hid⟩ := List.mem_map.mp hmem
    exact List.any_eq_true.mpr ⟨r, hr, beq_iff_eq.mpr hid⟩

theorem unique_setRecordShard {records : List RecordRow} (h : Unique RecordRow.turnId records)
    (turnId : Uuid) (shardFile : Text) :
    Unique RecordRow.turnId (Repository.setRecordShard records turnId shardFile) := by
  obtain ⟨f, hf, hkeep⟩ := Archive.setRecordShard_eq records turnId shardFile
  have hids : (records.map f).map RecordRow.turnId = records.map RecordRow.turnId := by
    rw [List.map_map]
    exact List.map_congr_left fun r _ ↦ (hkeep r).1
  rw [hf, Tables.Unique, hids]
  exact h

theorem Step.sound (h : l.Step D p l') (hl : l.Sound) : l'.Sound := by
  cases h with
  | game hstep => exact ⟨hstep.sound hl.venue, hl.records⟩
  | packaged golden => exact ⟨hl.venue, unique_createRecord hl.records _ _ golden _⟩
  | exported turnId shardFile => exact ⟨hl.venue, unique_setRecordShard hl.records _ _⟩
  | recorded | recordedOther | deck => exact ⟨hl.venue, hl.records⟩

theorem Reachable.sound (h : Reachable D p l) : l.Sound := by
  induction h with
  | opening h decks => exact ⟨h.sound, .nil⟩
  | step _ hstep ih => exact hstep.sound ih

/-! ## The counts -/

theorem Sound.validatedIds (h : l.Sound) : (l.validated.map TurnRecord.id).Nodup :=
  h.venue.tidy.turnIds.filter _

theorem Sound.settled_nodup (h : l.Sound) : l.settled.Nodup :=
  h.validatedIds.sublist (List.filter_sublist.map _)

theorem pricedFor_settled {turnId : Uuid} (h : turnId ∈ l.settled) :
    (l.pricedFor turnId).length = 1 := by
  obtain ⟨t, ht, rfl⟩ := List.mem_map.mp h
  exact beq_iff_eq.mp (List.mem_filter.mp ht).2

theorem length_validated : l.validated.length = l.settled.length + l.lacking.length := by
  rw [settled, lacking, List.length_map]
  exact List.length_eq_length_filter_add _

/-- A settled turn accounts for one call, and a stray for itself. -/
theorem Sound.length_triages (h : l.Sound) :
    l.triages.length = l.settled.length + l.strays.length := by
  have hsum := sum_map_filter_any h.settled_nodup ApiCall.pricedTurn (fun _ ↦ 1) l.triages
  have hone : (l.settled.map fun turnId ↦ ((l.pricedFor turnId).map fun _ ↦ 1).sum).sum =
      l.settled.length := by
    rw [List.map_congr_left (g := fun _ ↦ 1) fun turnId hmem ↦ by simp [pricedFor_settled hmem]]
    simp
  have hsettled := hsum.trans hone
  rw [List.map_const', List.sum_replicate, smul_eq_mul, mul_one] at hsettled
  rw [strays, ← hsettled]
  exact List.length_eq_length_filter_add _

/-- Every validated turn is packaged exactly when the counts say so. -/
theorem Sound.packaged_iff (h : l.Sound) :
    (l.metricsRow lower).packagedValidatedRecords = l.validated.length ↔
      ∀ t ∈ l.validated, ∃ r ∈ l.records, r.turnId = t.id := by
  have hcount : (l.metricsRow lower).packagedValidatedRecords =
      ((l.records.map RecordRow.turnId).filter fun i ↦
        i ∈ l.validated.map TurnRecord.id).length := by
    rw [← List.countP_eq_length_filter, List.countP_map]
    refine List.countP_congr fun r _ ↦ ?_
    simp
  rw [hcount, ← List.length_map (f := TurnRecord.id)]
  constructor
  · intro hlen t ht
    have hperm := ((List.Nodup.filter _ h.records).subperm fun i hi ↦
      of_decide_eq_true (List.mem_filter.mp hi).2).perm_of_length_le hlen.ge
    have hmem := (List.mem_filter.mp (hperm.mem_iff.mpr (List.mem_map_of_mem ht))).1
    exact List.mem_map.mp hmem
  · intro hall
    refine Nat.le_antisymm ((List.Nodup.filter _ h.records).subperm fun i hi ↦
      of_decide_eq_true (List.mem_filter.mp hi).2).length_le
      (h.validatedIds.subperm fun i hi ↦ ?_).length_le
    obtain ⟨t, ht, rfl⟩ := List.mem_map.mp hi
    obtain ⟨r, hr, hid⟩ := hall t ht
    exact List.mem_filter.mpr ⟨List.mem_map.mpr ⟨r, hr, hid⟩, decide_eq_true hi⟩

/-- A call without a price is a stray. -/
theorem unpriced_iff :
    (l.metricsRow lower).unpricedGauntletTriageCallCount = 0 ↔
      ∀ c ∈ l.strays, c.estimatedCostMicrousd.isSome := by
  have hcount : (l.metricsRow lower).unpricedGauntletTriageCallCount = 0 ↔
      ∀ c ∈ l.triages, c.estimatedCostMicrousd.isSome := by
    simp [metricsRow, List.countP_eq_zero, Option.isSome_iff_ne_none]
  rw [hcount]
  constructor
  · exact fun hall c hc ↦ hall c (List.mem_filter.mp hc).1
  · intro hall c hc
    by_contra hnone
    refine hnone (hall c (List.mem_filter.mpr ⟨hc, ?_⟩))
    rw [ApiCall.pricedTurn, if_neg hnone]
    simp

/-- When the number is shown. -/
theorem Sound.shown_iff (h : l.Sound) :
    (l.metrics lower).costPerValidatedSampleUsd.isSome ↔
      l.Ready lower ∧ l.strays.length = l.lacking.length ∧
        ∀ c ∈ l.strays, c.estimatedCostMicrousd.isSome := by
  have hcalls : l.triages.length = l.validated.length ↔ l.strays.length = l.lacking.length := by
    rw [h.length_triages, length_validated, Nat.add_left_cancel_iff]
  rw [Option.isSome_iff_exists, ← hcalls, ← @unpriced_iff lower l]
  constructor
  · rintro ⟨cost, hcost⟩
    obtain ⟨hpos, hpackaged, hlen, hunpriced, total, htotal, -⟩ :=
      computePipelineCostPerValidatedSampleUsd_eq_some.mp hcost
    exact ⟨⟨List.ne_nil_of_length_pos hpos, Option.isSome_iff_exists.mpr ⟨total, htotal⟩,
      h.packaged_iff.mp hpackaged⟩, hlen, hunpriced⟩
  · rintro ⟨hready, hlen, hunpriced⟩
    obtain ⟨total, htotal⟩ := Option.isSome_iff_exists.mp hready.deck
    exact ⟨_, computePipelineCostPerValidatedSampleUsd_eq_some.mpr
      ⟨List.length_pos_iff.mpr hready.sample, h.packaged_iff.mpr hready.packaged, hlen, hunpriced,
        total, htotal, rfl⟩⟩

theorem lacking_eq_nil :
    l.lacking = [] ↔ ∀ t ∈ l.validated, (l.pricedFor t.id).length = 1 := by
  simp [lacking, List.filter_eq_nil_iff]

theorem supported_iff : l.Supported lower ↔ l.Ready lower ∧ l.lacking = [] := by
  rw [lacking_eq_nil, Supported]

/-- What a query adds up leaves out the calls without a price. -/
theorem sum_priced (calls : List ApiCall) :
    (calls.filterMap ApiCall.estimatedCostMicrousd).sum =
      (calls.map fun c ↦ c.estimatedCostMicrousd.getD 0).sum := by
  induction calls with
  | nil => rfl
  | cons c calls ih =>
    rw [List.map_cons, List.sum_cons, ← ih]
    cases hc : c.estimatedCostMicrousd with
    | none => rw [List.filterMap_cons_none hc, Option.getD_none, zero_add]
    | some cost => rw [List.filterMap_cons_some hc, List.sum_cons, Option.getD_some]

/-- With nothing lacking and nothing astray, what is added up is one call for each sample. -/
theorem Sound.sum_eq (h : l.Sound) (hlacking : l.lacking = []) (hstrays : l.strays = []) :
    (l.metricsRow lower).gauntletTriageCostMicrousdSum = (l.validated.map fun t ↦
      ((l.pricedFor t.id).map fun c ↦ c.estimatedCostMicrousd.getD 0).sum).sum := by
  have hall : (l.triages.filter fun c ↦ l.settled.any fun turnId ↦ c.pricedTurn == some turnId) =
      l.triages := by
    rw [List.filter_eq_self]
    intro c hc
    by_contra hstray
    exact List.filter_eq_nil_iff.mp hstrays c hc (by simpa using hstray)
  have hsettled : l.settled = l.validated.map TurnRecord.id := by
    rw [settled, List.filter_eq_self.mpr fun t ht ↦
      beq_iff_eq.mpr (lacking_eq_nil.mp hlacking t ht)]
  calc (l.triages.filterMap ApiCall.estimatedCostMicrousd).sum
      = (l.triages.map fun c ↦ c.estimatedCostMicrousd.getD 0).sum := sum_priced _
    _ = (l.settled.map fun turnId ↦ ((l.pricedFor turnId).map fun c ↦
          c.estimatedCostMicrousd.getD 0).sum).sum := by
        rw [← hall]
        exact sum_map_filter_any h.settled_nodup ApiCall.pricedTurn _ _
    _ = _ := by rw [hsettled, List.map_map]; rfl

/-- **When the cost metric is right.**  In every ledger a deployment comes to, the cost is shown
exactly when it is supported, and is then the supported one, if and only if the strays match the
lacking turns or the number is not ready to be shown at all. -/
theorem cost_exact_iff (D : Deployment) (p : Packaging) (lower : Text → Text) (l : Ledger)
    (h : Reachable D p l) : l.CostExact lower ↔ (l.Ready lower → l.Matched) := by
  have hl := h.sound
  rw [CostExact, hl.shown_iff, supported_iff]
  constructor
  · rintro ⟨hshown, -⟩ hready
    refine ⟨fun hlacking ↦ ?_, fun hlen hpriced ↦ (hshown.mp ⟨hready, hlen, hpriced⟩).2⟩
    have hlen := (hshown.mpr ⟨hready, hlacking⟩).2.1
    rw [hlacking] at hlen
    exact List.length_eq_zero_iff.mp hlen
  · intro hmatched
    have hclean (hready : l.Ready lower) (hlen : l.strays.length = l.lacking.length)
        (hpriced : ∀ c ∈ l.strays, c.estimatedCostMicrousd.isSome) :
        l.lacking = [] ∧ l.strays = [] := by
      have hlacking := (hmatched hready).2 hlen hpriced
      exact ⟨hlacking, (hmatched hready).1 hlacking⟩
    refine ⟨⟨fun ⟨hready, hlen, hpriced⟩ ↦ ⟨hready, (hclean hready hlen hpriced).1⟩,
      fun ⟨hready, hlacking⟩ ↦ ?_⟩, fun cost hcost ↦ ?_⟩
    · have hstrays := (hmatched hready).1 hlacking
      exact ⟨hready, by rw [hstrays, hlacking]; rfl, by simp [hstrays]⟩
    · obtain ⟨hready, hlen, hpriced⟩ := hl.shown_iff.mp (Option.isSome_iff_exists.mpr ⟨cost, hcost⟩)
      obtain ⟨hlacking, hstrays⟩ := hclean hready hlen hpriced
      obtain ⟨-, -, -, -, total, htotal, rfl⟩ :=
        computePipelineCostPerValidatedSampleUsd_eq_some.mp hcost
      rw [supportedCost, deckCost, htotal, Option.getD_some, hl.sum_eq hlacking hstrays]
      rfl

/-! ## Two rounds, and what can be recorded of them -/

instance : Decidable (l.Ready lower) :=
  decidable_of_iff (l.validated ≠ [] ∧ (l.deckCost lower).isSome ∧
    ∀ t ∈ l.validated, ∃ r ∈ l.records, r.turnId = t.id)
    ⟨fun h ↦ ⟨h.1, h.2.1, h.2.2⟩, fun h ↦ ⟨h.sample, h.deck, h.packaged⟩⟩

instance : Decidable (l.Supported lower) := inferInstanceAs (Decidable (_ ∧ _))

instance : Decidable (l.Matched) := inferInstanceAs (Decidable (_ ∧ _))

theorem Reachable.later {v : Venue} (h : Reachable D p l) (hv : D.Later l.venue v) :
    Reachable D p { l with venue := v } := by
  induction hv with
  | refl => exact h
  | tail _ hstep ih => exact ih.step (.game hstep)

end Ledger

/-- A deployment whose venue is `defaultSetup`. -/
def threeAtHome : Deployment where
  probes := defaultSetup.probes
  faces := doorOnly.faces
  lower := doorOnly.lower

/-- The first round is scored and triaged, and player 2 has spoken in the second. -/
def secondRound : List (Event Request Draw Failure) :=
  triagedLate ++ .spawn (.uploadAudio 2 [0, 0]) :: calls 6 25 5

/-- The first round has been packaged, and these calls have been recorded. -/
def eveningLedger (v : Venue) (apiCalls : List ApiCall) : Ledger where
  venue := v
  records := (Repository.createRecord [] Json.Store.verbatim 115 [] true).2
  calls := apiCalls
  decks := fun _ ↦ ⟨some [("total_cost_usd".toList, .number 1)], none, 0⟩

/-- The triage of a turn has cost a tenth of a cent. -/
def triageOf (turnId : Uuid) : ApiCall := ⟨gauntletTriage, true, some 1000, some turnId⟩

/-- The first round can be packaged, and both can be triaged. -/
def Db.secondRoundSpoken (db : Db) : Bool :=
  ((Repository.turnContext kitePackaging.labels db 115).any fun c ↦
      c.status == .scored && c.quality.isSome && trainingEligible c) &&
    [115, 148].all fun turnId ↦ db.turns.any fun t ↦
      t.id == turnId && t.status != .awaitingAudio

/-- Any calls for the two rounds may have been recorded, and any others lost. -/
theorem reachable_evening {v v₀ : Venue} (h₀ : v₀.Opening) (h : threeAtHome.Later v₀ v)
    (hspoken : v.db.secondRoundSpoken = true) {turnIds : List Uuid}
    (hids : ∀ turnId ∈ turnIds, turnId ∈ [115, 148]) :
    Ledger.Reachable threeAtHome kitePackaging (eveningLedger v (turnIds.map triageOf)) := by
  rw [Db.secondRoundSpoken, Bool.and_eq_true, Option.any_eq_true, List.all_eq_true] at hspoken
  obtain ⟨⟨c, hc, hcheck⟩, hturns⟩ := hspoken
  rw [Bool.and_eq_true, Bool.and_eq_true, beq_iff_eq] at hcheck
  obtain ⟨⟨hscored, hquality⟩, heligible⟩ := hcheck
  induction turnIds using List.reverseRecOn with
  | nil =>
    have hpackaged := ((Ledger.Reachable.opening h₀ (eveningLedger v []).decks).later h).step
      (.packaged [] ((Repository.turnId_of_turnContext hc).symm ▸ hc) hscored
        (Option.isSome_iff_ne_none.mp hquality))
    rw [Repository.turnId_of_turnContext hc, heligible] at hpackaged
    exact hpackaged
  | append_singleton turnIds turnId ih =>
    have hlast := ih fun i hi ↦ hids i (List.mem_append_left _ hi)
    obtain ⟨t, ht, hcheck⟩ := List.any_eq_true.mp
      (hturns turnId (hids turnId (List.mem_append_right _ (List.mem_singleton_self _))))
    rw [Bool.and_eq_true, beq_iff_eq, bne_iff_ne] at hcheck
    obtain ⟨rfl, hs⟩ := hcheck
    have hcall := hlast.step (.recorded ht hs true (some 1000))
    rw [List.map_append]
    exact hcall

/-- **The number can be wrong both ways.**  In the first ledger the call of the validated turn is
lost and a call for the turn after it stands in for it.  In the second both are there, and the
number is not. -/
theorem cost_misleads : ∃ (D : Deployment) (p : Packaging) (lower : Text → Text) (l l' : Ledger),
    (Ledger.Reachable D p l ∧ (l.metrics lower).costPerValidatedSampleUsd.isSome ∧
      ¬ l.Supported lower) ∧
    (Ledger.Reachable D p l' ∧ (l'.metrics lower).costPerValidatedSampleUsd = none ∧
      l'.Supported lower) := by
  obtain ⟨c, hc, hcheck⟩ := System.exists_reachable_of_run opening_threePlayers
    (show ((venue defaultSetup).run (System.start threePlayers) secondRound).map (fun c ↦
      let l := eveningLedger c.world.state ([148].map triageOf)
      let l' := eveningLedger c.world.state ([115, 148].map triageOf)
      decide (c.world.state.db.secondRoundSpoken = true ∧
        ((l.metrics id).costPerValidatedSampleUsd.isSome ∧ ¬ l.Supported id) ∧
          (l'.metrics id).costPerValidatedSampleUsd.isNone ∧ l'.Supported id)) = some true
      by decide +kernel)
  obtain ⟨hspoken, ⟨hshown, hbare⟩, hwithheld, hsupported⟩ := of_decide_eq_true hcheck
  obtain ⟨v₀, h₀, hrun⟩ := Deployment.later_of_reachable (D := threeAtHome) hc
  exact ⟨threeAtHome, kitePackaging, id, _, _,
    ⟨reachable_evening h₀ hrun hspoken (by decide), hshown, hbare⟩,
    ⟨reachable_evening h₀ hrun hspoken (by decide), Option.isNone_iff_eq_none.mp hwithheld,
      hsupported⟩⟩

/-- With the call of the first round and no other, the number is right. -/
theorem cost_exact_first : ∃ l : Ledger, Ledger.Reachable threeAtHome kitePackaging l ∧
    l.validated.length = 1 ∧ l.CostExact id := by
  obtain ⟨c, hc, hcheck⟩ := System.exists_reachable_of_run opening_threePlayers
    (show ((venue defaultSetup).run (System.start threePlayers) secondRound).map (fun c ↦
      let l := eveningLedger c.world.state ([115].map triageOf)
      decide (c.world.state.db.secondRoundSpoken = true ∧ l.validated.length = 1 ∧ l.Matched)) =
        some true
      by decide +kernel)
  obtain ⟨hspoken, hone, hmatched⟩ := of_decide_eq_true hcheck
  obtain ⟨v₀, h₀, hrun⟩ := Deployment.later_of_reachable (D := threeAtHome) hc
  have h : Ledger.Reachable threeAtHome kitePackaging
      (eveningLedger c.world.state ([115].map triageOf)) :=
    reachable_evening h₀ hrun hspoken (by decide)
  exact ⟨_, h, hone, (Ledger.cost_exact_iff threeAtHome kitePackaging id _ h).mpr fun _ ↦ hmatched⟩

end Neva
