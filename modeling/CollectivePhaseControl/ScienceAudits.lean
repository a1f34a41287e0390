import CollectivePhaseControl.ScienceBalances

/-! The remaining dimensions and the audit that runs them all on one budget. An audit that
runs out of its budget reports every dimension as unknown. -/
namespace CollectivePhaseControl

section verification
variable (h : AuditServices) (objects : Objects) (time : DateTime)

def withSeen {α : Type} (id : α → Identifier) : List Identifier → List α →
    List (List Identifier × α)
  | _, [] => []
  | seen, x :: rest => (seen, x) :: withSeen id (id x :: seen) rest

def stageReasons (first : VerifierStageSpec)
    (item : List Identifier × (Document × VerifierStageSpec)) : Analysis (List String) := do
  let spec := item.2.2
  let arrival ← rational spec.arrivalUpper
  let amplification ← rational spec.routingAmplificationUpper
  let service ← rational spec.serviceLower
  pure (reasonIf (spec.stageId ∈ item.1) ("duplicate_verifier_stage:" ++ spec.stageId) ++
    reasonIf ((spec.observationWindowStart.same first.observationWindowStart &&
        spec.observationWindowEnd.same first.observationWindowEnd) = false)
      ("verifier_window_mismatch:" ++ spec.stageId) ++
    reasonIf (spec.rateUnit ≠ first.rateUnit) ("verifier_rate_unit_mismatch:" ++ spec.stageId) ++
    reasonIf (service ≤ arrival * amplification) ("verifier_overloaded:" ++ spec.stageId))

/-- The window and the unit of the first rate hold for all. -/
def observedRateReasons (network : Network) (first : RateObservationSpec)
    (item : List Identifier × (Document × RateObservationSpec)) : Analysis (List String) := do
  let spec := item.2.2
  let sameWindow := spec.observationWindowStart.same first.observationWindowStart &&
    spec.observationWindowEnd.same first.observationWindowEnd
  pure (reasonIf (spec.transformationId ∈ item.1)
      ("duplicate_transformation_rate:" ++ spec.transformationId) ++
    reasonIf (spec.transformationId ∉ network)
      ("rate_transformation_missing:" ++ spec.transformationId) ++
    if sameWindow = false then ["rate_observation_window_mismatch:" ++ spec.transformationId]
    else reasonIf (spec.actionRateUnit ≠ first.actionRateUnit)
      ("rate_observation_unit_mismatch:" ++ spec.transformationId))

def CurveType.text : CurveType → String
  | arrivalUpper => "arrival-upper"
  | serviceLower => "service-lower"

/-- The curves of a stage by type; the later of two stands. -/
structure CurveGroup where
  arrival : Option ServiceCurveSpec
  service : Option ServiceCurveSpec

def CurveGroup.get (group : CurveGroup) : CurveType → Option ServiceCurveSpec
  | .arrivalUpper => group.arrival
  | .serviceLower => group.service

def CurveGroup.set (group : CurveGroup) (spec : ServiceCurveSpec) : CurveGroup :=
  match spec.curveType with
  | .arrivalUpper => { group with arrival := some spec }
  | .serviceLower => { group with service := some spec }

abbrev CurveGroups := Dict CurveGroup × List String

def groupCurve (groups : CurveGroups) (item : Document × ServiceCurveSpec) :
    Analysis CurveGroups := do
  spend 1
  let spec := item.2
  let group := groups.1.getD spec.stageId ⟨none, none⟩
  pure (groups.1.insert spec.stageId (group.set spec), groups.2 ++
    reasonIf ((group.get spec.curveType).isSome)
      ("duplicate_service_curve:" ++ spec.stageId ++ ":" ++ spec.curveType.text))

def curvePoints (spec : ServiceCurveSpec) : Analysis (List (ℚ × ℚ)) :=
  spec.points.foldlM (fun points point => do
    let offset ← rational point.offset
    let cumulative ← rational point.cumulative
    pure (points ++ [(offset, cumulative)])) []

def boundCurves (stages : List Identifier) (found : List String × List String)
    (entry : Identifier × CurveGroup) : Analysis (List String × List String) := do
  if entry.1 ∉ stages then
    pure (found.1 ++ ["service_curve_stage_missing:" ++ entry.1], found.2)
  else
    match entry.2 with
    | ⟨some arrival, some service⟩ =>
      if arrival.timeUnit ≠ service.timeUnit ∨ arrival.workUnit ≠ service.workUnit ∨
          (arrival.observationWindowStart.same service.observationWindowStart &&
            arrival.observationWindowEnd.same service.observationWindowEnd) = false then
        pure (found.1 ++ ["service_curve_basis_mismatch:" ++ entry.1], found.2)
      else
        let arrivalPoints ← curvePoints arrival
        let servicePoints ← curvePoints service
        let bounds ← deterministicCurveBounds arrivalPoints servicePoints
        match bounds.exhaustive, bounds.delay with
        | true, some delay =>
          pure (found.1, found.2 ++ [entry.1 ++ ":backlog=" ++ (str bounds.backlog).text ++
            ":delay=" ++ (str delay).text])
        | _, _ => pure (found.1 ++ ["service_curve_horizon_insufficient:" ++ entry.1], found.2)
    | _ => pure (found.1 ++ ["service_curve_pair_incomplete:" ++ entry.1], found.2)

/-- `_verification`. -/
def verification : Analysis DimensionResult := do
  let stages ← lift (liveTyped objects DocumentSpec.stage? VerifierStageSpec.lifecycle time)
  match stages.head? with
  | none => lift (finding .unknown ["verifier_stage_attestations_missing"])
  | some first =>
    let staged ← collect (stageReasons first.2) (withSeen (·.2.stageId) [] stages)
    let rates ← lift (liveTyped objects DocumentSpec.rate? RateObservationSpec.lifecycle time)
    let network ← transformations objects time
    let rated ← match rates.head? with
      | none => pure []
      | some rate =>
        collect (observedRateReasons network rate.2) (withSeen (·.2.transformationId) [] rates)
    let curves ← lift (liveTyped objects DocumentSpec.curve? ServiceCurveSpec.lifecycle time)
    let groups ← curves.foldlM groupCurve (∅, [])
    let bounded ← groups.1.toList.foldlM (boundCurves (stages.map (·.2.stageId))) ([], [])
    lift (verdict (staged ++ rated ++ groups.2 ++ bounded.1)
      ((stages.map Prod.fst ++ rates.map Prod.fst ++ curves.map Prod.fst).map h.document)
      (";".intercalate bounded.2))

end verification

/-- `_UnionFind`: the parent of each value; a root is its own parent. -/
abbrev UnionFind := Dict Identifier

namespace UnionFind

def add (union : UnionFind) (value : Identifier) : UnionFind :=
  if value ∈ union then union else union.insert value value

/-- The root of a value, with every second parent on the way moved up. -/
def findFrom : ℕ → UnionFind → Identifier → Checked (UnionFind × Identifier)
  | 0, _, _ => .error (.crash .diverges)
  | n + 1, union, value => do
    let parent ← union.item value
    if parent = value then pure (union, value)
    else
      let grandparent ← union.item parent
      findFrom n (union.insert value grandparent) grandparent

def find (union : UnionFind) (value : Identifier) : Checked (UnionFind × Identifier) :=
  let union := union.add value
  findFrom (union.size + 1) union value

def union (union : UnionFind) (left right : Identifier) : Checked UnionFind := do
  let (union, leftRoot) ← union.find left
  let (union, rightRoot) ← union.find right
  pure (if leftRoot = rightRoot then union
    else union.insert (max leftRoot rightRoot) (min leftRoot rightRoot))

end UnionFind

abbrev Indexes := List ((String × Identifier) × Identifier)

def linkIdentity (domain : Identifier) (state : UnionFind × Indexes)
    (identity : String × Identifier) : Checked (UnionFind × Indexes) := do
  let linked ← match state.2.lookup identity with
    | some previous => UnionFind.union state.1 domain previous
    | none => pure state.1
  pure (linked, (identity, domain) :: state.2)

def linkDomain (state : UnionFind × Indexes) (item : Document × IndependenceSpec) :
    Analysis (UnionFind × Indexes) := do
  spend 1
  let spec := item.2
  lift ([("principal", spec.principalId), ("key", spec.keyId),
    ("infrastructure", spec.infrastructureDomain), ("lineage", spec.lineageDomain),
    ("correlation", spec.correlationDomain)].foldlM (linkIdentity spec.domainId)
      (UnionFind.add state.1 spec.domainId, state.2))

def linkExposure (known : List Identifier) (state : UnionFind × List String)
    (event : ExposureEvent) : Analysis (UnionFind × List String) := do
  spend 1
  if event.fromDomain ∉ known ∨ event.toDomain ∉ known then
    pure (state.1, state.2 ++ ["exposure_refers_to_unknown_domain"])
  else if event.preCommit = true then
    let linked ← lift (UnionFind.union state.1 event.fromDomain event.toDomain)
    pure (linked, state.2)
  else pure state

def collectRoot (state : UnionFind × List Identifier) (domain : Identifier) :
    Checked (UnionFind × List Identifier) := do
  let (union, root) ← UnionFind.find state.1 domain
  pure (union, if root ∈ state.2 then state.2 else state.2 ++ [root])

section audit
variable (h : AuditServices) (snapshot : AnalysisSnapshot) (objects : Objects) (time : DateTime)

/-- `_independence`. -/
def independence : Analysis DimensionResult := do
  let domains ← lift
    (liveTyped objects DocumentSpec.independence? IndependenceSpec.lifecycle time)
  match typed objects DocumentSpec.exposures? with
  | [(document, ledger)] =>
    let stale ← lift (ledger.observationCompleteThrough.lt time)
    if stale = true then lift (finding .unknown ["exposure_observation_not_current"])
    else if domains = [] then lift (finding .unknown ["independence_attestations_missing"])
    else
      let linked ← domains.foldlM linkDomain (∅, [])
      let known := (domains.map (·.2.domainId)).dedup
      let exposed ← ledger.events.foldlM (linkExposure known) (linked.1, [])
      let roots ← lift (known.foldlM collectRoot (exposed.1, []))
      lift (verdict (exposed.2 ++
        reasonIf (roots.2.length < snapshot.spec.minimumIndependentDomains)
          "effective_independent_domain_threshold_not_met")
        ((domains.map Prod.fst ++ [document]).map h.document)
        ("effective_domains=" ++ toString roots.2.length))
  | _ => lift (finding .unknown ["complete_exposure_ledger_required"])

/-- `_coordination`. -/
def coordination : Checked DimensionResult :=
  validateCoordination ⟨h.document, h.proposalCommitmentDigest⟩ objects time none

end audit

inductive SolutionClass where
  | exact | bounded | incomplete
deriving DecidableEq, Repr

structure OperationalProfile where
  analysisSnapshotDigest : Digest
  dimensions : Dict DimensionResult
  operationalOrganizationCompatible : Bool
  solutionClass : SolutionClass

/-- `min_length=13, max_length=13`. -/
def OperationalProfile.accepted (profile : OperationalProfile) : Prop :=
  profile.dimensions.size = 13

instance decidableProfileAccepted (profile : OperationalProfile) : Decidable profile.accepted := by
  unfold OperationalProfile.accepted
  infer_instance

def uniform (status : ProfileStatus) (blockers : List String) (names : List Identifier) :
    Checked (List (Identifier × DimensionResult)) :=
  names.mapM fun name => do
    let result ← finding status blockers
    pure (name, result)

/-- `_budget_unknown`. -/
def budgetUnknown (snapshotDigest : Digest) : Checked OperationalProfile := do
  let dimensions ← uniform .unknownDueToBudget ["analysis_budget_exhausted"] mandatoryDimensions
  validated OperationalProfile.accepted ⟨snapshotDigest, .ofList dimensions, false, .incomplete⟩

/-- `except AnalysisBudgetExceeded`: what has been spent stays spent. -/
def exceptBudget {α : Type} (x : Analysis α) (handler : Analysis α) : Analysis α := fun budget =>
  match x budget with
  | .error (.coded "AnalysisBudgetExceeded") after => handler after
  | result => result

section profile
variable (h : AuditServices) (snapshot : AnalysisSnapshot) (allObjects : Objects)

def kernelDimensions (objects : Objects) (time : DateTime) :
    Analysis (List (Identifier × DimensionResult)) := do
  let structural ← structural snapshot objects time
  let formation ← formation snapshot objects time
  let dimensional ← dimensionalConsistency h snapshot objects time
  let maintenance ← selfMaintenance h snapshot objects time
  let persistence ← persistence h snapshot objects time
  let raf ← raf snapshot objects time
  let verification ← verification h objects time
  let independence ← independence h snapshot objects time
  let coordination ← lift (coordination h objects time)
  pure [("structural_reachability", structural), ("causal_formation", formation),
    ("dimensional_consistency", dimensional), ("exact_self_maintenance", maintenance),
    ("finite_horizon_resource_persistence", persistence),
    ("target_bound_generative_catalysis", raf), ("verification_capacity", verification),
    ("effective_independence", independence), ("coordination_protocol_integrity", coordination)]

/-- The profile of some dimensions: compatible when every required one is satisfied. -/
def profileOf (dimensions : List (Identifier × DimensionResult)) : Checked OperationalProfile :=
  let table : Dict DimensionResult := .ofList dimensions
  let compatible := (snapshot.spec.requiredDimensions.all fun name =>
      (table[name]?.map (·.status)).all (· == .satisfied)) &&
    mandatoryDimensions.all (· ∈ table)
  validated OperationalProfile.accepted
    ⟨h.document (snapshot.document .analysisSnapshot), table, compatible, .exact⟩

/-- The audit, with the robustness dimension given by what it may look at. -/
def auditWith (robustness : Objects → Analysis DimensionResult) (evaluationAt : Option DateTime) :
    Analysis OperationalProfile :=
  let snapshotDigest := h.document (snapshot.document .analysisSnapshot)
  exceptBudget (do
    let (provenance, objects) ← lift (provenance h snapshot allObjects)
    let (temporal, time) ← lift (temporal h snapshot objects evaluationAt)
    let trust ← lift (trust h snapshot objects)
    let first := [("provenance_integrity", provenance), ("trust_quorum", trust),
      ("temporal_integrity", temporal)]
    match time, provenance.status with
    | some time, .satisfied =>
      let kernel ← kernelDimensions h snapshot objects time
      let robust ← robustness objects
      lift (profileOf h snapshot (first ++ kernel ++ [("perturbation_robustness", robust)]))
    | _, _ =>
      let rest ← lift (uniform .unknown ["typed_live_snapshot_unavailable"]
        (mandatoryDimensions.drop 3))
      lift (profileOf h snapshot (first ++ rest)))
    (lift (budgetUnknown snapshotDigest))

/-- `audit_snapshot(…, include_robustness=False)`. -/
def auditReduced : Analysis OperationalProfile :=
  auditWith h snapshot allObjects
    (fun _ => lift (finding .unknown ["robustness_not_requested_for_reduced_snapshot"])) none

end profile

end CollectivePhaseControl
