import Neva.Game.Languages

/-!
# The metrics snapshot

The second half of `app/game/types.py`: from the aggregates of one query to the numbers
`GET /api/metrics` shows.  A number whose evidence is incomplete is left out rather than made up.
The cost of a validated sample is the one with the longest list of conditions
(`computePipelineCostPerValidatedSampleUsd_eq_some`); all of them are about counts.

Floating point numbers are rational here.
-/

set_option autoImplicit false

namespace Neva

/-- A value in the JSON object `decks.generation_metrics`. -/
inductive MetricValue
  | number (x : ℚ)
  /-- A number beyond the range of a float. -/
  | infinite
  | bool (b : Bool)
  | text (s : Text)
  | null
  deriving DecidableEq, Repr

/-- `decks.generation_metrics` -/
abbrev GenerationMetrics := List (Text × MetricValue)

/-- `MetricsAggregateRow` -/
structure MetricsAggregateRow where
  validatedPairs : ℕ
  trainingEligiblePairs : ℕ
  packagedValidatedRecords : ℕ
  languages : List Text
  gauntletTriageCostMicrousdSum : ℤ
  successfulGauntletTriageCallCount : ℕ
  unpricedGauntletTriageCallCount : ℕ
  generationMetrics : Option GenerationMetrics
  deriving DecidableEq, Repr

/-- `MetricsSnapshot` -/
structure MetricsSnapshot where
  validatedPairs : ℕ
  trainingEligiblePairs : ℕ
  languageCount : ℕ
  languages : List Text
  costPerValidatedSampleUsd : Option ℚ
  gauntletPassRate : Option ℚ
  deckImagesPerMinute : Option ℚ
  deckCostPerImageUsd : Option ℚ
  deriving DecidableEq, Repr

/-- `MICROUSD_PER_USD` -/
def microusdPerUsd : ℚ := 1000000

/-- `normalize_distinct_languages`; `lower` is `str.lower`. -/
def normalizeDistinctLanguages (lower : Text → Text) (languages : List Text) : List Text :=
  (((languages.map fun raw ↦ lower (strip raw)).filter fun text ↦ text ≠ []).dedup).insertionSort
    (· ≤ ·)

/-- `extract_deck_generation_metric` -/
def extractDeckGenerationMetric (generationMetrics : Option GenerationMetrics) (key : Text) :
    Option ℚ :=
  match (generationMetrics.bind fun m ↦ m.find? fun entry ↦ entry.1 == key).map Prod.snd with
  | some (.number x) => some x
  | _ => none

/-- `pipeline_cost_instrumentation_is_complete` -/
def pipelineCostInstrumentationIsComplete (validatedPairs packagedValidatedRecords : ℕ)
    (deckTotalCostUsd : Option ℚ)
    (successfulGauntletTriageCallCount unpricedGauntletTriageCallCount : ℕ) : Bool :=
  decide (0 < validatedPairs) && packagedValidatedRecords == validatedPairs &&
    deckTotalCostUsd.isSome && successfulGauntletTriageCallCount == packagedValidatedRecords &&
    unpricedGauntletTriageCallCount == 0

/-- `compute_gauntlet_pass_rate` -/
def computeGauntletPassRate (trainingEligiblePairs packagedValidatedRecords : ℕ) : Option ℚ :=
  if packagedValidatedRecords = 0 then none
  else some (trainingEligiblePairs / packagedValidatedRecords)

/-- `compute_pipeline_cost_per_validated_sample_usd` -/
def computePipelineCostPerValidatedSampleUsd (validatedPairs packagedValidatedRecords : ℕ)
    (deckTotalCostUsd : Option ℚ) (gauntletTriageCostMicrousdSum : ℤ)
    (successfulGauntletTriageCallCount unpricedGauntletTriageCallCount : ℕ) : Option ℚ :=
  if pipelineCostInstrumentationIsComplete validatedPairs packagedValidatedRecords deckTotalCostUsd
      successfulGauntletTriageCallCount unpricedGauntletTriageCallCount then
    deckTotalCostUsd.map fun deckTotal ↦
      (deckTotal + gauntletTriageCostMicrousdSum / microusdPerUsd) / validatedPairs
  else none

/-- `metrics_snapshot_from_aggregates` -/
def metricsSnapshotFromAggregates (lower : Text → Text) (row : MetricsAggregateRow) :
    MetricsSnapshot :=
  let languages := normalizeDistinctLanguages lower row.languages
  { validatedPairs := row.validatedPairs
    trainingEligiblePairs := row.trainingEligiblePairs
    languageCount := languages.length
    languages := languages
    costPerValidatedSampleUsd := computePipelineCostPerValidatedSampleUsd row.validatedPairs
      row.packagedValidatedRecords
      (extractDeckGenerationMetric row.generationMetrics "total_cost_usd".toList)
      row.gauntletTriageCostMicrousdSum row.successfulGauntletTriageCallCount
      row.unpricedGauntletTriageCallCount
    gauntletPassRate :=
      computeGauntletPassRate row.trainingEligiblePairs row.packagedValidatedRecords
    deckImagesPerMinute :=
      extractDeckGenerationMetric row.generationMetrics "images_per_minute".toList
    deckCostPerImageUsd :=
      extractDeckGenerationMetric row.generationMetrics "cost_per_image_usd".toList }

theorem pipelineCostInstrumentationIsComplete_iff {validated packaged calls unpriced : ℕ}
    {deckTotal : Option ℚ} :
    pipelineCostInstrumentationIsComplete validated packaged deckTotal calls unpriced = true ↔
      0 < validated ∧ packaged = validated ∧ deckTotal.isSome ∧ calls = validated ∧
        unpriced = 0 := by
  simp only [pipelineCostInstrumentationIsComplete, Bool.and_eq_true, decide_eq_true_eq,
    beq_iff_eq, and_assoc]
  constructor
  · rintro ⟨hpos, rfl, hdeck, rfl, hunpriced⟩
    exact ⟨hpos, rfl, hdeck, rfl, hunpriced⟩
  · rintro ⟨hpos, rfl, hdeck, rfl, hunpriced⟩
    exact ⟨hpos, rfl, hdeck, rfl, hunpriced⟩

/-- The cost is there exactly when the counts match and the deck has a total. -/
theorem computePipelineCostPerValidatedSampleUsd_eq_some {validated packaged calls unpriced : ℕ}
    {deckTotal : Option ℚ} {microusd : ℤ} {cost : ℚ} :
    computePipelineCostPerValidatedSampleUsd validated packaged deckTotal microusd calls unpriced =
        some cost ↔
      0 < validated ∧ packaged = validated ∧ calls = validated ∧ unpriced = 0 ∧
        ∃ total, deckTotal = some total ∧
          cost = (total + microusd / microusdPerUsd) / validated := by
  rw [computePipelineCostPerValidatedSampleUsd]
  constructor
  · intro h
    split_ifs at h with hcomplete
    obtain ⟨hpos, hpackaged, -, hcalls, hunpriced⟩ :=
      pipelineCostInstrumentationIsComplete_iff.mp hcomplete
    obtain ⟨total, htotal, rfl⟩ := Option.map_eq_some_iff.mp h
    exact ⟨hpos, hpackaged, hcalls, hunpriced, total, htotal, rfl⟩
  · rintro ⟨hpos, hpackaged, hcalls, hunpriced, total, rfl, rfl⟩
    rw [if_pos (pipelineCostInstrumentationIsComplete_iff.mpr
      ⟨hpos, hpackaged, rfl, hcalls, hunpriced⟩), Option.map_some]

end Neva
