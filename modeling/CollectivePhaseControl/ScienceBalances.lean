import CollectivePhaseControl.Science

/-! The dimensions that compute with quantities: units and stoichiometry, the balance of an
organization, the trajectory of a persistence plan, and food-generated catalysis. -/
namespace CollectivePhaseControl

/-- `m[key] = m.get(key, Fraction(0)) + amount`. -/
def Dict.add (m : Dict ℚ) (key : Identifier) (amount : ℚ) : Dict ℚ :=
  m.insert key (m.getD key 0 + amount)

def collect {α : Type} (f : α → Analysis (List String)) (xs : List α) : Analysis (List String) :=
  xs.foldlM (fun reasons x => do
    spend 1
    let more ← f x
    pure (reasons ++ more)) []

def unitDimensions (definition : UnitDefinition) : Dict ℤ :=
  definition.dimensions.filter fun _ value => value != 0

def expectedRateDimensions (coordinate timeUnit : UnitDefinition) : Dict ℤ :=
  (unitDimensions timeUnit).toList.foldl (fun result p =>
    let value := result.getD p.1 0 - p.2
    if value = 0 then result.erase p.1 else result.insert p.1 value) (unitDimensions coordinate)

section dimensions
variable (registry : UnitRegistrySpec) (objects : Objects) (time : DateTime)

def scaleReasons (unit : Identifier × UnitDefinition) : Analysis (List String) := do
  let scale ← rational unit.2.scale
  pure (reasonIf (scale ≤ 0) ("unit_scale_not_positive:" ++ unit.1))

def resourceReasons (spec : ResourceObservationSpec) : List String :=
  reasonIf (registry.coordinateUnits[spec.coordinate]? ≠ some spec.unit)
    ("resource_unit_mismatch:" ++ spec.coordinate)

def supplyReasons (spec : SupplySpec) : Analysis (List String) :=
  match registry.coordinateUnits[spec.coordinate]?, registry.units[spec.unit]?,
    registry.units[registry.timeUnit]? with
  | some coordinateUnit, some rateUnit, some timeUnit => do
    let coordinate ← lift (registry.units.item coordinateUnit)
    let lower ← rational spec.rateLower
    let upper ← rational spec.rateUpper
    pure (reasonIf (unitDimensions rateUnit ≠ expectedRateDimensions coordinate timeUnit)
        ("supply_rate_dimension_mismatch:" ++ spec.supplyId) ++
      reasonIf (lower < 0) ("supply_rate_negative:" ++ spec.supplyId) ++
      reasonIf (upper < lower) ("supply_rate_interval_reversed:" ++ spec.supplyId))
  | _, _, _ => pure ["supply_unit_unknown:" ++ spec.supplyId]

/-- `inputs.get(coordinate) or outputs.get(coordinate)`: a coefficient is never empty, so an
output is looked at only where there is no input. -/
def checkedCoefficient (spec : TransformationSpec) (coordinate : Identifier) : Option Rational :=
  spec.inputs[coordinate]?.or spec.outputs[coordinate]?

def coefficientValue (spec : TransformationSpec) (coordinate : Identifier) : Analysis ℚ :=
  match checkedCoefficient spec coordinate with
  | some value => rational value
  | none => pure 0

def coordinateReasons (spec : TransformationSpec) (coordinate : Identifier) :
    Analysis (List String) := do
  let value ← coefficientValue spec coordinate
  pure (reasonIf (coordinate ∉ registry.coordinateUnits)
      ("transformation_coordinate_untyped:" ++ coordinate) ++
    reasonIf (value < 0) ("negative_stoichiometry:" ++ coordinate))

def TransformationSpec.coordinates (spec : TransformationSpec) : List Identifier :=
  (spec.inputs.keys ++ spec.outputs.keys).dedup

def transformationReasons (spec : TransformationSpec) : Analysis (List String) :=
  spec.coordinates.foldlM (fun reasons coordinate => do
    let more ← coordinateReasons registry spec coordinate
    pure (reasons ++ more)) []

def sourceMissing (digest : Digest) : Checked Bool :=
  match objects[digest]? with
  | some ⟨_, _, .evidence spec⟩ => not <$> spec.lifecycle.live time
  | _ => pure true

def rateReasons (spec : RateObservationSpec) : Analysis (List String) := do
  let missing ← lift (sourceMissing objects time spec.sourceRecordDigest)
  let units := match registry.units[spec.actionRateUnit]?, registry.units[registry.actionUnit]?,
      registry.units[registry.timeUnit]? with
    | some rateUnit, some actionUnit, some timeUnit =>
      reasonIf (unitDimensions rateUnit ≠ expectedRateDimensions actionUnit timeUnit)
        ("transformation_rate_dimension_mismatch:" ++ spec.transformationId)
    | _, _, _ => ["transformation_rate_unit_unknown:" ++ spec.transformationId]
  pure (reasonIf (missing = true) ("transformation_rate_source_missing:" ++ spec.transformationId) ++
    units)

def curveReasons (spec : ServiceCurveSpec) : Analysis (List String) := do
  let missing ← lift (sourceMissing objects time spec.sourceRecordDigest)
  pure (reasonIf (missing = true) ("service_curve_source_missing:" ++ spec.stageId) ++
    reasonIf (spec.timeUnit ≠ registry.timeUnit)
      ("service_curve_time_unit_mismatch:" ++ spec.stageId) ++
    reasonIf (spec.workUnit ∉ registry.units) ("service_curve_work_unit_unknown:" ++ spec.stageId))

def objectReasons (item : Document) : Analysis (List String) :=
  match item.spec with
  | .resourceObservation spec => pure (resourceReasons registry spec)
  | .supply spec => supplyReasons registry spec
  | .transformation spec => transformationReasons registry spec
  | .rateObservation spec => rateReasons registry objects time spec
  | .serviceCurve spec => curveReasons registry objects time spec
  | _ => pure []

def registryReasons : List String :=
  reasonIf (registry.timeUnit ∉ registry.units ∨ registry.actionUnit ∉ registry.units)
    "time_or_action_unit_missing" ++
  registry.coordinateUnits.toList.flatMap fun p =>
    reasonIf (p.2 ∉ registry.units) ("coordinate_unit_unknown:" ++ p.1)

end dimensions

section balances
variable (h : AuditServices) (snapshot : AnalysisSnapshot) (objects : Objects) (time : DateTime)

/-- `_dimensions`. -/
def dimensionalConsistency : Analysis DimensionResult := do
  match objects[snapshot.spec.unitRegistryDigest]? with
  | some ⟨metadata, extensions, .unitRegistry registry⟩ =>
    let scales ← collect scaleReasons registry.units.toList
    let found ← collect (objectReasons registry objects time) objects.values
    lift (verdict (scales ++ registryReasons registry ++ found)
      [h.document ⟨metadata, extensions, .unitRegistry registry⟩] "")
  | _ => lift (finding .violated ["unit_registry_missing"])

def bookFlows (sign : ℚ) (count : ℚ) (m : Dict ℚ) (coefficients : Dict Rational) :
    Analysis (Dict ℚ) :=
  coefficients.toList.foldlM (fun m flow => do
    let value ← rational flow.2
    pure (m.add flow.1 (sign * (value * count)))) m

structure Maintenance where
  balance : Dict ℚ
  produced : Finset Identifier
  blockers : List String

def bookFlux (witness : OrganizationSpec) (network : Network) (booked : Maintenance)
    (identifier : Identifier) : Analysis Maintenance := do
  spend 1
  match network[identifier]? with
  | none =>
    pure { booked with
      blockers := booked.blockers ++ ["organization_transformation_missing:" ++ identifier] }
  | some item =>
    let written ← lift (witness.fluxes.item identifier)
    let flux ← rational written
    let consumed ← bookFlows (-1) flux booked.balance item.spec.inputs
    let balance ← bookFlows 1 flux consumed item.spec.outputs
    pure {
      balance := balance
      produced := booked.produced ∪ (flows item).conclusions
      blockers := booked.blockers ++
        reasonIf (flux ≤ 0) ("organization_flux_not_positive:" ++ identifier) }

/-- `_organization`. -/
def selfMaintenance : Analysis DimensionResult := do
  match organizationWitness snapshot objects with
  | none => lift (finding .unknown ["exactly_one_snapshot_bound_organization_required"])
  | some (document, witness) =>
    let network ← transformations objects time
    if witness.targetIds.toFinset ≠ snapshot.spec.targetIds.toFinset then
      lift (finding .violated ["organization_target_set_mismatch"])
    else if witness.transformationIds.toFinset ≠ witness.fluxes.keys.toFinset then
      lift (finding .violated ["organization_flux_domain_mismatch"])
    else
      let booked ← witness.transformationIds.foldlM (bookFlux witness network) ⟨∅, ∅, []⟩
      let negative := (booked.balance.toList.filter fun p => p.2 < 0).map
        ("negative_maintenance_balance:" ++ ·.1)
      let unproduced := (snapshot.spec.targetIds.filter (· ∉ booked.produced)).map
        ("organization_target_not_produced:" ++ ·)
      lift (verdict (booked.blockers ++ negative ++ unproduced) [h.document document] "")

def repeated (identifiers : List Identifier) : List Identifier :=
  sortedSet (identifiers.filter fun identifier => 1 < identifiers.count identifier)

/-- What the steps of a plan are checked against. -/
structure PlanBasis where
  network : Network
  rates : Dict RateObservationSpec
  supplies : Dict SupplySpec
  duration : ℚ

/-- What the steps have come to: an amount for each coordinate and what is wrong. -/
abbrev Booking := Dict ℚ × List String

def rateBoundReasons (basis : PlanBasis) (identifier : Identifier) (count : ℚ) :
    Analysis (List String) := do
  match basis.rates[identifier]? with
  | none => pure ["persistence_rate_missing:" ++ identifier]
  | some rate =>
    if 0 < basis.duration then
      let lower ← rational rate.rateLower
      let outside ← if count / basis.duration < lower then pure true else do
        let upper ← rational rate.rateUpper
        pure (decide (upper < count / basis.duration))
      pure (reasonIf (outside = true) ("persistence_rate_outside_bound:" ++ identifier))
    else pure []

def bookAction (basis : PlanBasis) (booked : Booking) (action : Identifier × Rational) :
    Analysis Booking := do
  spend 1
  match basis.network[action.1]? with
  | none => pure (booked.1, booked.2 ++ ["persistence_transformation_missing:" ++ action.1])
  | some item =>
    let count ← rational action.2
    let rated ← rateBoundReasons basis action.1 count
    let consumed ← bookFlows (-1) count booked.1 item.spec.inputs
    let delta ← bookFlows 1 count consumed item.spec.outputs
    pure (delta, booked.2 ++ reasonIf (count < 0) ("negative_action_count:" ++ action.1) ++ rated)

def bookSupply (basis : PlanBasis) (booked : Booking) (credit : Identifier × Rational) :
    Analysis Booking := do
  spend 1
  match basis.supplies[credit.1]? with
  | none => pure (booked.1, booked.2 ++ ["supply_attestation_missing:" ++ credit.1])
  | some supply =>
    let quantity ← rational credit.2
    let outside ← if quantity < 0 then pure true else do
      let upper ← rational supply.rateUpper
      pure (decide (upper * basis.duration < quantity))
    pure (booked.1.add supply.coordinate quantity, booked.2 ++
      reasonIf (outside = true) ("supply_quantity_outside_bound:" ++ credit.1))

def floorReasons (floors : Dict Rational) (index : ℕ) (marking : Dict ℚ) :
    Analysis (List String) :=
  floors.toList.foldlM (fun reasons p => do
    let floor ← rational p.2
    pure (reasons ++ reasonIf (marking.getD p.1 0 < floor)
      ("prefix_floor_violation:" ++ toString index ++ ":" ++ p.1))) []

def addAll (marking delta : Dict ℚ) : Dict ℚ :=
  delta.toList.foldl (fun marking p => marking.add p.1 p.2) marking

/-- A step of the plan: its actions, its supplies, and the floors after it. -/
def takeStep (basis : PlanBasis) (floors : Dict Rational) (reached : Booking)
    (step : PersistenceStep × ℕ) : Analysis Booking := do
  let acted ← step.1.actionCounts.toList.foldlM (bookAction basis) (∅, reached.2)
  let supplied ← step.1.supplyQuantities.toList.foldlM (bookSupply basis) acted
  let marking := addAll reached.1 supplied.1
  let below ← floorReasons floors step.2 marking
  pure (marking, supplied.2 ++ below)

def observe (observations : Dict ℚ) (item : Document × ResourceObservationSpec) :
    Analysis (Dict ℚ) := do
  let quantity ← rational item.2.quantity
  pure (observations.insert item.2.coordinate quantity)

def suppliedCoordinates (supplies : List SupplySpec) : Analysis (Finset Identifier) :=
  supplies.foldlM (fun supplied supply => do
    let lower ← rational supply.rateLower
    pure (if 0 < lower then insert supply.coordinate supplied else supplied)) ∅

def networkCoordinates (network : Network) : Finset Identifier :=
  (network.values.flatMap (·.spec.coordinates)).toFinset

/-- The observed amounts, and one of each available state that is not observed. -/
def structuralMarking (observations : Dict ℚ) (states : List (Document × StateSpec))
    (coordinate : Identifier) : ℚ :=
  observations.getD coordinate
    (if (states.any fun item => item.2.available && item.2.stateId == coordinate) = true then 1
      else 0)

def persistencePlans : List (Document × PersistencePlanSpec) :=
  (typed objects DocumentSpec.persistencePlan?).filter fun item =>
    item.2.analysisSnapshotDigest == snapshot.spec.analysisBasisDigest

def trajectory (document : Document) (plan : PersistencePlanSpec) (basis : PlanBasis)
    (observations : Dict ℚ) : Analysis DimensionResult := do
  let reached ← plan.steps.zipIdx.foldlM (takeStep basis snapshot.spec.protectedFloors)
    (observations, reasonIf (basis.duration ≤ 0) "persistence_duration_not_positive")
  let siphons ← enumerateMinimalSiphons basis.network (networkCoordinates basis.network)
  if siphons.exhaustive = false then
    lift (dimensionResult .unknownDueToBudget ["minimal_siphon_coordinate_limit_exceeded"]
      [h.document document] "")
  else
    let states ← lift (liveTyped objects DocumentSpec.state? StateSpec.lifecycle time)
    let supplied ← suppliedCoordinates basis.supplies.values
    let unfed := unfedSiphons siphons.values (structuralMarking observations states) supplied
    lift (verdict (reached.2 ++
      unfed.map fun siphon => "unfed_minimal_siphon:" ++ ",".intercalate siphon)
      [h.document document] "")

/-- `_persistence`. -/
def persistence : Analysis DimensionResult := do
  match persistencePlans snapshot objects with
  | [(document, plan)] =>
    let observed ← lift
      (liveTyped objects DocumentSpec.resource? ResourceObservationSpec.lifecycle time)
    let observations ← observed.foldlM observe ∅
    let ambiguous := repeated (observed.map (·.2.coordinate))
    if ambiguous ≠ [] then
      lift (finding .violated (ambiguous.map ("ambiguous_resource_observation:" ++ ·)))
    else
      let network ← transformations objects time
      let rates ← lift (liveTyped objects DocumentSpec.rate? RateObservationSpec.lifecycle time)
      let doubled := repeated (rates.map (·.2.transformationId))
      if doubled ≠ [] then
        lift (finding .violated (doubled.map ("ambiguous_persistence_rate:" ++ ·)))
      else
        let supplies ← lift (liveTyped objects DocumentSpec.supply? SupplySpec.lifecycle time)
        let duration ← rational plan.durationPerStep
        trajectory h snapshot objects time document plan
          ⟨network, .ofList (rates.map fun item => (item.2.transformationId, item.2)),
            .ofList (supplies.map fun item => (item.2.supplyId, item.2)), duration⟩
          observations
  | _ => lift (finding .unknown ["exactly_one_snapshot_bound_persistence_plan_required"])

def rafBlockers (present : List Identifier) (witness : OrganizationSpec) (analysis : RafAnalysis) :
    List String :=
  let used := analysis.generativeLayers.flatten
  ((present.filter fun identifier => analysis.maximalRafs.all (identifier ∉ ·)).map
      ("transformation_not_in_any_maximal_generalized_raf:" ++ ·)) ++
    reasonIf (present ≠ [] ∧ analysis.fullSetIsRaf = false)
      "organization_transformation_set_not_generalized_raf" ++
    (missingTargets snapshot analysis.generalizedClosure).map
      ("generalized_raf_target_not_generated:" ++ ·) ++
    (missingTargets snapshot analysis.generativeClosure).map ("raf_target_not_generated:" ++ ·) ++
    reasonIf (used = []) "no_food_supported_catalytic_transformation" ++
    (witness.transformationIds.filter (· ∉ used)).map
      ("organization_transformation_not_generatively_supported:" ++ ·)

/-- `_raf`. -/
def raf : Analysis DimensionResult := do
  match organizationWitness snapshot objects with
  | none => lift (finding .unknown ["snapshot_bound_organization_required_for_raf"])
  | some (_, witness) =>
    let sets ← availableSets objects time
    let network ← transformations objects time
    let (present, absent) := witnessed witness network
    let analysis ← exactGeneralizedGenerativeRaf (.ofList present) sets.food sets.evidence
      sets.authority
    if analysis.exhaustive = false then
      lift (finding .unknownDueToBudget ["raf_transformation_limit_exceeded"])
    else
      lift (verdict (absent.map ("raf_transformation_missing:" ++ ·) ++
        rafBlockers snapshot (present.map Prod.fst) witness analysis) [] "")

end balances

end CollectivePhaseControl
