import CollectivePhaseControl.LargerBudgets

/-! The kernels of an audit on a larger budget: none of them catches what the budget raises, so
each returns what it would return with more operations. -/
namespace CollectivePhaseControl

theorem solvent_spendOne : Solvent (spend 1) := solvent_spend one_pos

theorem solvent_paying {α β : Type} (g : β → α → β) (xs : List α) (s : β) :
    Solvent (xs.foldlM (fun s x => do spend 1; pure (g s x)) s) :=
  solvent_foldlM (fun _ _ => solvent_spendOne.bind fun _ => solvent_pure _) xs s

theorem solvent_collect {α : Type} {f : α → Analysis (List String)} (each : ∀ x, Solvent (f x))
    (xs : List α) : Solvent (collect f xs) :=
  solvent_foldlM (fun _ x => solvent_spendOne.bind fun _ => (each x).bind fun _ => solvent_pure _)
    xs []

section structural
variable (rules : List (Horn.Rule Identifier)) (network : Network)

theorem solvent_closureLoop (n : ℕ) : ∀ s, Solvent (closureLoop rules n s) := by
  induction n with
  | zero => exact fun s => solvent_throw _
  | succ n ih =>
    intro s
    rw [closureLoop]
    refine (solvent_paying grow rules (s, false)).bind fun progress => ?_
    split
    · exact ih _
    · exact solvent_pure _

theorem solvent_closureOf (s : Finset Identifier) : Solvent (closureOf rules s) :=
  solvent_closureLoop rules _ s

theorem solvent_keepMinimal {test : List Identifier → Analysis Bool}
    (each : ∀ candidate, Solvent (test candidate)) (minimal : List (List Identifier))
    (candidate : List Identifier) : Solvent (keepMinimal test minimal candidate) := by
  refine solvent_spendOne.bind fun _ => ?_
  split
  · exact solvent_pure _
  · exact (each candidate).bind fun _ => solvent_pure _

theorem solvent_enumerateMinimalSiphons (coordinates : Finset Identifier) :
    Solvent (enumerateMinimalSiphons network coordinates) := by
  unfold enumerateMinimalSiphons
  dsimp only
  split
  · exact solvent_pure _
  · refine (solvent_foldlM (fun minimal candidate => ?_) _ _).bind fun _ => solvent_pure _
    exact solvent_keepMinimal (fun _ => solvent_pure _) minimal candidate

theorem solvent_keepRaf (food evidence authority : Finset Identifier)
    (valid : List (List Identifier × Finset Identifier)) (candidate : List Identifier) :
    Solvent (keepRaf network food evidence authority valid candidate) :=
  solvent_spendOne.bind fun _ => (solvent_closureOf _ _).bind fun _ => solvent_pure _

theorem solvent_generativeLayer (evidence authority available : Finset Identifier)
    (remaining : List (Identifier × TransformationAttestation)) :
    Solvent (generativeLayer evidence authority available remaining) :=
  solvent_foldlM (fun _ _ => solvent_spendOne.bind fun _ => solvent_pure _) remaining []

theorem solvent_generativeLayers (evidence authority : Finset Identifier) (n : ℕ) :
    ∀ available remaining, Solvent (generativeLayers evidence authority n available remaining) := by
  induction n with
  | zero => exact fun _ _ => solvent_throw _
  | succ n ih =>
    intro available remaining
    rw [generativeLayers]
    split
    · exact solvent_pure _
    · refine (solvent_generativeLayer evidence authority available remaining).bind fun layer => ?_
      split
      · exact solvent_pure _
      · exact (ih _ _).bind fun _ => solvent_pure _

theorem solvent_exactGeneralizedGenerativeRaf (food evidence authority : Finset Identifier) :
    Solvent (exactGeneralizedGenerativeRaf network food evidence authority) := by
  unfold exactGeneralizedGenerativeRaf
  dsimp only
  split
  · exact solvent_pure _
  · refine (solvent_foldlM (solvent_keepRaf network food evidence authority) _ _).bind fun _ => ?_
    exact (solvent_generativeLayers _ _ _ _ _).bind fun _ => solvent_pure _

theorem solvent_deterministicCurveBounds (arrivalPoints servicePoints : List (ℚ × ℚ)) :
    Solvent (deterministicCurveBounds arrivalPoints servicePoints) := by
  refine Solvent.bind ?_ fun _ => solvent_pure _
  exact solvent_paying (fun found time =>
    Deviations.measure arrivalPoints servicePoints found time) _ _

end structural

section reachability
variable (snapshot : AnalysisSnapshot) (objects : Objects) (time : DateTime)

theorem solvent_book (sets : AvailableSets) (item : Document) : Solvent (sets.book time item) := by
  unfold AvailableSets.book
  split
  · exact (solvent_lift _).bind fun _ => solvent_pure _
  · refine (solvent_lift _).bind fun live => ?_
    split
    · exact (solvent_rational _).bind fun _ => solvent_pure _
    · exact solvent_pure _
  · exact (solvent_lift _).bind fun _ => solvent_pure _
  · exact (solvent_lift _).bind fun _ => solvent_pure _
  · exact solvent_pure _

theorem solvent_availableSets : Solvent (availableSets objects time) :=
  solvent_foldlM (solvent_book time) _ _

theorem solvent_transformations : Solvent (transformations objects time) :=
  (solvent_lift _).bind fun _ => solvent_pure _

theorem solvent_auditClosure : Solvent (auditClosure objects time) :=
  (solvent_availableSets objects time).bind fun _ =>
    (solvent_transformations objects time).bind fun _ => solvent_closureOf _ _

theorem solvent_structural : Solvent (structural snapshot objects time) :=
  (solvent_auditClosure objects time).bind fun _ => solvent_lift _

theorem solvent_formationLayer (sets : AvailableSets) (available : Finset Identifier)
    (remaining : List (Identifier × TransformationAttestation)) :
    Solvent (formationLayer sets available remaining) :=
  solvent_foldlM (fun _ _ => solvent_spendOne.bind fun _ => solvent_pure _) remaining []

theorem solvent_formationLayers (sets : AvailableSets) (n : ℕ) :
    ∀ layers available remaining, Solvent (formationLayers sets n layers available remaining) := by
  induction n with
  | zero => exact fun _ _ _ => solvent_throw _
  | succ n ih =>
    intro layers available remaining
    rw [formationLayers]
    split
    · exact solvent_pure _
    · refine (solvent_formationLayer sets available remaining).bind fun enabled => ?_
      split_ifs
      · exact solvent_pure _
      · exact solvent_throw _
      · exact ih _ _ _

theorem solvent_formation : Solvent (formation snapshot objects time) := by
  unfold formation
  split
  · exact solvent_lift _
  · refine (solvent_availableSets objects time).bind fun sets => ?_
    refine (solvent_transformations objects time).bind fun network => ?_
    dsimp only
    split
    · exact solvent_lift _
    · exact (solvent_formationLayers _ _ _ _ _).bind fun _ => solvent_lift _

end reachability

section units
variable (registry : UnitRegistrySpec) (objects : Objects) (time : DateTime)

theorem solvent_supplyReasons (spec : SupplySpec) : Solvent (supplyReasons registry spec) := by
  unfold supplyReasons
  split
  · exact (solvent_lift _).bind fun _ => (solvent_rational _).bind fun _ =>
      (solvent_rational _).bind fun _ => solvent_pure _
  · exact solvent_pure _

theorem solvent_coordinateReasons (spec : TransformationSpec) (coordinate : Identifier) :
    Solvent (coordinateReasons registry spec coordinate) := by
  refine Solvent.bind ?_ fun _ => solvent_pure _
  unfold coefficientValue
  split
  · exact solvent_rational _
  · exact solvent_pure _

theorem solvent_objectReasons (item : Document) :
    Solvent (objectReasons registry objects time item) := by
  unfold objectReasons
  split
  · exact solvent_pure _
  · exact solvent_supplyReasons registry _
  · exact solvent_foldlM (fun _ coordinate =>
      (solvent_coordinateReasons registry _ coordinate).bind fun _ => solvent_pure _) _ _
  · exact (solvent_lift _).bind fun _ => solvent_pure _
  · exact (solvent_lift _).bind fun _ => solvent_pure _
  · exact solvent_pure _

end units

section balances
variable (h : AuditServices) (snapshot : AnalysisSnapshot) (objects : Objects) (time : DateTime)

theorem solvent_dimensionalConsistency :
    Solvent (dimensionalConsistency h snapshot objects time) := by
  unfold dimensionalConsistency
  split
  · refine (solvent_collect (fun unit => ?_) _).bind fun _ => ?_
    · exact (solvent_rational _).bind fun _ => solvent_pure _
    · exact (solvent_collect (solvent_objectReasons _ _ _) _).bind fun _ => solvent_lift _
  · exact solvent_lift _

theorem solvent_bookFlows (sign count : ℚ) (m : Dict ℚ) (coefficients : Dict Rational) :
    Solvent (bookFlows sign count m coefficients) :=
  solvent_foldlM (fun _ _ => (solvent_rational _).bind fun _ => solvent_pure _) _ _

theorem solvent_bookFlux (witness : OrganizationSpec) (network : Network) (booked : Maintenance)
    (identifier : Identifier) : Solvent (bookFlux witness network booked identifier) := by
  refine solvent_spendOne.bind fun _ => ?_
  split
  · exact solvent_pure _
  · exact (solvent_lift _).bind fun _ => (solvent_rational _).bind fun _ =>
      (solvent_bookFlows _ _ _ _).bind fun _ => (solvent_bookFlows _ _ _ _).bind fun _ =>
        solvent_pure _

theorem solvent_selfMaintenance : Solvent (selfMaintenance h snapshot objects time) := by
  unfold selfMaintenance
  split
  · exact solvent_lift _
  · refine (solvent_transformations objects time).bind fun network => ?_
    split_ifs
    · exact solvent_lift _
    · exact solvent_lift _
    · exact (solvent_foldlM (solvent_bookFlux _ _) _ _).bind fun _ => solvent_lift _

theorem solvent_rateBoundReasons (basis : PlanBasis) (identifier : Identifier) (count : ℚ) :
    Solvent (rateBoundReasons basis identifier count) := by
  unfold rateBoundReasons
  split
  · exact solvent_pure _
  · split
    · refine (solvent_rational _).bind fun lower => ?_
      dsimp only
      split
      · exact (solvent_pure _).bind fun _ => solvent_pure _
      · exact (solvent_rational _).bind fun _ => (solvent_pure _).bind fun _ => solvent_pure _
    · exact solvent_pure _

theorem solvent_bookAction (basis : PlanBasis) (booked : Booking)
    (action : Identifier × Rational) : Solvent (bookAction basis booked action) := by
  refine solvent_spendOne.bind fun _ => ?_
  split
  · exact solvent_pure _
  · exact (solvent_rational _).bind fun _ => (solvent_rateBoundReasons _ _ _).bind fun _ =>
      (solvent_bookFlows _ _ _ _).bind fun _ => (solvent_bookFlows _ _ _ _).bind fun _ =>
        solvent_pure _

theorem solvent_bookSupply (basis : PlanBasis) (booked : Booking)
    (credit : Identifier × Rational) : Solvent (bookSupply basis booked credit) := by
  refine solvent_spendOne.bind fun _ => ?_
  split
  · exact solvent_pure _
  · refine (solvent_rational _).bind fun quantity => ?_
    dsimp only
    split
    · exact (solvent_pure _).bind fun _ => solvent_pure _
    · exact (solvent_rational _).bind fun _ => (solvent_pure _).bind fun _ => solvent_pure _

theorem solvent_takeStep (basis : PlanBasis) (floors : Dict Rational) (reached : Booking)
    (step : PersistenceStep × ℕ) : Solvent (takeStep basis floors reached step) := by
  refine (solvent_foldlM (solvent_bookAction basis) _ _).bind fun _ => ?_
  refine (solvent_foldlM (solvent_bookSupply basis) _ _).bind fun _ => ?_
  refine Solvent.bind ?_ fun _ => solvent_pure _
  exact solvent_foldlM (fun _ _ => (solvent_rational _).bind fun _ => solvent_pure _) _ _

theorem solvent_trajectory (document : Document) (plan : PersistencePlanSpec) (basis : PlanBasis)
    (observations : Dict ℚ) :
    Solvent (trajectory h snapshot objects time document plan basis observations) := by
  refine (solvent_foldlM (solvent_takeStep _ _) _ _).bind fun _ => ?_
  refine (solvent_enumerateMinimalSiphons _ _).bind fun siphons => ?_
  split
  · exact solvent_lift _
  · refine (solvent_lift _).bind fun _ => Solvent.bind ?_ fun _ => solvent_lift _
    exact solvent_foldlM (fun _ _ => (solvent_rational _).bind fun _ => solvent_pure _) _ _

theorem solvent_persistence : Solvent (persistence h snapshot objects time) := by
  unfold persistence
  split
  · refine (solvent_lift _).bind fun observed => ?_
    refine (solvent_foldlM (fun _ _ => (solvent_rational _).bind fun _ => solvent_pure _) _
      _).bind fun observations => ?_
    dsimp only
    split
    · exact solvent_lift _
    · refine (solvent_transformations objects time).bind fun network => ?_
      refine (solvent_lift _).bind fun rates => ?_
      split
      · exact solvent_lift _
      · exact (solvent_lift _).bind fun _ => (solvent_rational _).bind fun _ =>
          solvent_trajectory h snapshot objects time _ _ _ _
  · exact solvent_lift _

theorem solvent_raf : Solvent (raf snapshot objects time) := by
  unfold raf
  split
  · exact solvent_lift _
  · refine (solvent_availableSets objects time).bind fun sets => ?_
    refine (solvent_transformations objects time).bind fun network => ?_
    refine (solvent_exactGeneralizedGenerativeRaf _ _ _ _).bind fun analysis => ?_
    split
    · exact solvent_lift _
    · exact solvent_lift _

theorem solvent_stageReasons (first : VerifierStageSpec)
    (item : List Identifier × (Document × VerifierStageSpec)) :
    Solvent (stageReasons first item) :=
  (solvent_rational _).bind fun _ => (solvent_rational _).bind fun _ =>
    (solvent_rational _).bind fun _ => solvent_pure _

theorem solvent_groupCurve (groups : CurveGroups) (item : Document × ServiceCurveSpec) :
    Solvent (groupCurve groups item) := solvent_spendOne.bind fun _ => solvent_pure _

theorem solvent_curvePoints (spec : ServiceCurveSpec) : Solvent (curvePoints spec) :=
  solvent_foldlM (fun _ _ => (solvent_rational _).bind fun _ =>
    (solvent_rational _).bind fun _ => solvent_pure _) _ _

theorem solvent_boundCurves (stages : List Identifier) (found : List String × List String)
    (entry : Identifier × CurveGroup) : Solvent (boundCurves stages found entry) := by
  unfold boundCurves
  split
  · exact solvent_pure _
  · split
    · split
      · exact solvent_pure _
      · refine (solvent_curvePoints _).bind fun _ => (solvent_curvePoints _).bind fun _ => ?_
        refine (solvent_deterministicCurveBounds _ _).bind fun bounds => ?_
        split
        · exact solvent_pure _
        · exact solvent_pure _
    · exact solvent_pure _

theorem solvent_verification : Solvent (verification h objects time) := by
  refine (solvent_lift _).bind fun stages => ?_
  split
  · exact solvent_lift _
  · refine (solvent_collect (solvent_stageReasons _) _).bind fun _ => ?_
    refine (solvent_lift _).bind fun rates => (solvent_transformations objects time).bind fun _ => ?_
    have curves (f : List (Document × ServiceCurveSpec) → Dict CurveGroup × List String →
        List String × List String → Checked DimensionResult) : Solvent (do
          let curves ← lift (liveTyped objects DocumentSpec.curve? ServiceCurveSpec.lifecycle time)
          let groups ← curves.foldlM groupCurve (∅, [])
          let bounded ← groups.1.toList.foldlM (boundCurves (stages.map (·.2.stageId))) ([], [])
          lift (f curves groups bounded)) := by
      refine (solvent_lift _).bind fun _ => (solvent_foldlM solvent_groupCurve _ _).bind fun _ => ?_
      exact (solvent_foldlM (solvent_boundCurves _) _ _).bind fun _ => solvent_lift _
    dsimp only
    split
    · exact (solvent_pure _).bind fun _ => curves _
    · exact (solvent_collect (fun _ => solvent_pure _) _).bind fun _ => curves _

theorem solvent_linkExposure (known : List Identifier) (state : UnionFind × List String)
    (event : ExposureEvent) : Solvent (linkExposure known state event) := by
  refine solvent_spendOne.bind fun _ => ?_
  split_ifs
  · exact solvent_pure _
  · exact (solvent_lift _).bind fun _ => solvent_pure _
  · exact solvent_pure _

theorem solvent_independence : Solvent (independence h snapshot objects time) := by
  refine (solvent_lift _).bind fun domains => ?_
  split
  · refine (solvent_lift _).bind fun stale => ?_
    split_ifs
    · exact solvent_lift _
    · exact solvent_lift _
    · refine (solvent_foldlM (fun _ _ => solvent_spendOne.bind fun _ => solvent_lift _) _
        _).bind fun _ => ?_
      refine (solvent_foldlM (solvent_linkExposure _) _ _).bind fun _ => ?_
      exact (solvent_lift _).bind fun _ => solvent_lift _
  · exact solvent_lift _

theorem solvent_kernelDimensions : Solvent (kernelDimensions h snapshot objects time) := by
  refine (solvent_structural snapshot objects time).bind fun _ => ?_
  refine (solvent_formation snapshot objects time).bind fun _ => ?_
  refine (solvent_dimensionalConsistency h snapshot objects time).bind fun _ => ?_
  refine (solvent_selfMaintenance h snapshot objects time).bind fun _ => ?_
  refine (solvent_persistence h snapshot objects time).bind fun _ => ?_
  refine (solvent_raf snapshot objects time).bind fun _ => ?_
  refine (solvent_verification h objects time).bind fun _ => ?_
  refine (solvent_independence h snapshot objects time).bind fun _ => ?_
  exact (solvent_lift _).bind fun _ => solvent_pure _

end balances

section audits
variable (h : AuditServices) (snapshot : AnalysisSnapshot) (allObjects : Objects)

/-- What an audit computes before it catches what the budget raises. -/
def auditBody (robustness : Objects → Analysis DimensionResult) (evaluationAt : Option DateTime) :
    Analysis OperationalProfile := do
  let (provenance, objects) ← lift (provenance h snapshot allObjects)
  let (temporal, time) ← lift (temporal h snapshot objects evaluationAt)
  let trust ← lift (trust h snapshot objects)
  let first := [("provenance_integrity", provenance), ("trust_quorum", trust),
    ("temporal_integrity", temporal)]
  match time, provenance.status with
  | some time, .satisfied =>
    let kernel ← kernelDimensions h snapshot objects time
    let robust ← robustness objects
    lift (profileOf h snapshot (first ++ kernel ++ [("perturbation_robustness", robust)]))
  | _, _ =>
    let rest ← lift (uniform .unknown ["typed_live_snapshot_unavailable"]
      (mandatoryDimensions.drop 3))
    lift (profileOf h snapshot (first ++ rest))

theorem auditWith_body (robustness : Objects → Analysis DimensionResult)
    (evaluationAt : Option DateTime) : auditWith h snapshot allObjects robustness evaluationAt =
      exceptBudget (auditBody h snapshot allObjects robustness evaluationAt)
        (lift (budgetUnknown (h.document (snapshot.document .analysisSnapshot)))) := rfl

variable {replay : Objects → Analysis DimensionResult} (evaluationAt : Option DateTime)

theorem solvent_auditBody (each : ∀ objects, Solvent (replay objects)) :
    Solvent (auditBody h snapshot allObjects replay evaluationAt) := by
  refine (solvent_lift _).bind fun checked => ?_
  refine (solvent_lift _).bind fun timed => (solvent_lift _).bind fun _ => ?_
  dsimp only
  split
  · refine (solvent_kernelDimensions h snapshot _ _).bind fun _ => ?_
    exact (each _).bind fun _ => solvent_lift _
  · exact (solvent_lift _).bind fun _ => solvent_lift _

theorem durable_auditWith (each : ∀ objects, Durable (replay objects)) :
    Durable (auditWith h snapshot allObjects replay evaluationAt) := by
  refine Durable.exceptBudget ?_ (solvent_lift _).toDurable
  refine (solvent_lift _).toDurable.bind fun checked => ?_
  refine (solvent_lift _).toDurable.bind fun timed => (solvent_lift _).toDurable.bind fun _ => ?_
  dsimp only
  split
  · refine (solvent_kernelDimensions h snapshot _ _).toDurable.bind fun _ => ?_
    exact (each _).bind fun _ => (solvent_lift _).toDurable
  · exact ((solvent_lift _).bind fun _ => solvent_lift _).toDurable

theorem durable_auditReduced : Durable (auditReduced h snapshot allObjects) :=
  durable_auditWith h snapshot allObjects none fun _ => (solvent_lift _).toDurable

theorem durable_replayScenario (suite : PerturbationSuiteSpec) (replayed : Replayed)
    (scenario : PerturbationScenario) :
    Durable (replayScenario h snapshot allObjects suite replayed scenario) := by
  refine solvent_spendOne.toDurable.bind fun _ => (solvent_lift _).toDurable.bind fun reduction => ?_
  split
  · exact (solvent_pure _).toDurable
  · exact (durable_auditReduced h _ _).bind fun _ => (solvent_pure _).toDurable

theorem durable_robustness (objects : Objects) :
    Durable (robustness h snapshot allObjects objects) := by
  unfold robustness
  dsimp only
  split
  · refine Durable.map ?_ _
    unfold replayPerturbations
    split
    · exact ((solvent_lift _).bind fun _ => solvent_pure _).toDurable
    · split
      · exact ((solvent_lift _).bind fun _ => solvent_pure _).toDurable
      · refine (durable_foldlM (durable_replayScenario h snapshot allObjects _) _ _).bind fun _ => ?_
        exact ((solvent_lift _).bind fun _ => solvent_pure _).toDurable
  · exact (solvent_lift _).toDurable

theorem durable_auditSnapshot (includeRobustness : Bool) (evaluationAt : Option DateTime) :
    Durable (auditSnapshot h snapshot allObjects includeRobustness evaluationAt) := by
  refine durable_auditWith h snapshot allObjects evaluationAt fun objects => ?_
  cases includeRobustness with
  | true => exact durable_robustness h snapshot allObjects objects
  | false =>
    rw [if_neg Bool.false_ne_true]
    exact (solvent_lift _).toDurable

end audits

end CollectivePhaseControl
