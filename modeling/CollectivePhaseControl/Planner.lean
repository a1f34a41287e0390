import CollectivePhaseControl.PlannerModels

/-! The planner. A control state is projected through every branch of an action, the audit is
replayed on what the branch leaves, and a policy is strong when each of its branches reaches
the goal. -/
namespace CollectivePhaseControl.Planning

def maxEligible : ℕ := 64
def beamWidth : ℕ := 32

def trialKinds : List Identifier :=
  ["measurement-protocol", "protocol-amendment", "trial-artifact-record", "trial-result",
    "trial-assessment"]

/-- The blockers of the dimensions that are not satisfied. -/
def profileBlockers (profile : OperationalProfile) : Finset Identifier :=
  ((profile.dimensions.values.filter (·.status ≠ .satisfied)).flatMap (·.blockers)).toFinset

def dimensionStatuses (profile : OperationalProfile) : Dict ProfileStatus :=
  profile.dimensions.map fun _ result => result.status

section documents
variable (h : Services) (documents : List Document)

def authority? : DocumentSpec → Option AuthoritySpec
  | .authority spec => some spec
  | _ => none

def attestedIds {σ : Type} (kind : DocumentSpec → Option σ) (id : σ → Identifier) :
    Finset Identifier :=
  (documents.filterMap fun item => (kind item.spec).map id).toFinset

def authorityIds : Finset Identifier := attestedIds documents authority? (·.authorityId)

def verifierStageIds : Finset Identifier :=
  attestedIds documents DocumentSpec.stage? (·.stageId)

def independenceDomains : Finset Identifier :=
  attestedIds documents DocumentSpec.independence? (·.domainId)

def coordinates : DocumentSpec → Bool
  | .coordinationPlan _ | .coordinationEvent _ | .coordinationSession _ => true
  | _ => false

def coordinationBindings : Finset Digest :=
  ((documents.filter fun item => coordinates item.spec).map h.document).toFinset

def trialBindings : Finset Digest :=
  ((documents.filter fun item => item.spec.kind ∈ trialKinds).map h.document).toFinset

def projects : DocumentSpec → Bool
  | .pendingProjection _ => true
  | _ => false

def pendingProjections : Finset Digest :=
  ((documents.filter fun item => projects item.spec).map h.document).toFinset

abbrev Observed := Dict ℚ × Finset Identifier

def observe (observed : Observed) (item : Document) : Checked Observed :=
  match item.spec with
  | .resourceObservation spec => do
    let quantity ← rational spec.quantity
    pure (observed.1.insert spec.coordinate quantity,
      if spec.coordinate ∈ observed.1 then insert spec.coordinate observed.2 else observed.2)
  | _ => pure observed

def observedResources : Checked (Dict ℚ) := do
  let observed ← documents.foldlM observe (∅, ∅)
  pure (observed.1.filter fun coordinate _ => decide (coordinate ∉ observed.2))

end documents

def parseAmounts (written : Dict Rational) : Checked (Dict ℚ) :=
  written.toList.foldlM (fun parsed p => do
    let value ← rational p.2
    pure (parsed.insert p.1 value)) ∅

section state
variable (h : Services)

def documentsIn (objects : Objects) (live : Finset Digest) : List Document :=
  Dict.values (objects.filter fun digest _ => decide (digest ∈ live))

/-- `_initial_state`. -/
def initialState (snapshot : AnalysisSnapshot) (objects : Objects) (profile : OperationalProfile) :
    Checked ControlState := do
  let live := (snapshotReferences snapshot.spec).toFinset
  let documents := documentsIn objects live
  let resources ← observedResources documents
  let floors ← parseAmounts snapshot.spec.protectedFloors
  pure {
    generationDigest := snapshot.spec.generationDigest
    snapshotDigest := h.document (snapshot.document .analysisSnapshot)
    trustedTimeReceiptDigest := snapshot.spec.trustedTimeReceiptDigest
    scientificProfileDigest := h.profile profile
    liveObjects := live
    resources
    resourceTrajectory := [resources]
    floors
    blockers := profileBlockers profile
    addressedBlockers := ∅
    dimensionStatuses := dimensionStatuses profile
    debt := ∅
    rollback := ∅
    evidenceRoutes := ∅
    authorityIds := authorityIds documents
    hazards := ∅
    verifierStageIds := verifierStageIds documents
    verificationLoad := 0
    independenceDomains := independenceDomains documents
    independenceErosion := 0
    correlationConcentration := 0
    cutExposure := 0
    coordinationBindings := coordinationBindings h documents
    trialBindings := trialBindings h documents
    pendingProjections := pendingProjections h documents
    elapsedTime := 0
    monetaryCost := 0
    qualityFloor := none
    safetyFloor := none }

def lowered (resources : Dict ℚ) (branch : BranchEffect) : Checked (Dict ℚ) :=
  branch.resourceDeltaLower.toList.foldlM (fun resources p => do
    let lower ← rational p.2
    pure (resources.insert p.1 (resources.getD p.1 0 + lower))) resources

/-- `_resource_safe`. -/
def resourceSafe (state : ControlState) (branch : BranchEffect) : Checked Bool := do
  let resources ← lowered state.resources branch
  pure (state.floors.toList.all fun p => decide (p.2 ≤ resources.getD p.1 0))

/-- `_snapshot_for_live_state`. -/
def snapshotForLiveState (baseline : AnalysisSnapshot) (live : Finset Digest) :
    AnalysisSnapshot :=
  let spec := { baseline.spec with
    objectDigests := baseline.spec.objectDigests.filter (· ∈ live)
    witnessDigests := baseline.spec.witnessDigests.filter (· ∈ live)
    analysisBasisDigest := String.ofList ("sha256:".toList ++ List.replicate 64 '0') }
  ⟨baseline.metadata, baseline.extensions,
    { spec with analysisBasisDigest :=
        analysisBasisDigest h.toAuditServices ⟨baseline.metadata, baseline.extensions, spec⟩ }⟩

/-- `audit_snapshot` on a budget of its own. -/
def audit (snapshot : AnalysisSnapshot) (objects : Objects) : Checked OperationalProfile :=
  match auditSnapshot h.toAuditServices snapshot objects true none
      (.ofOperations maxOperations (h.late snapshot objects)) with
  | .ok profile _ => .ok profile
  | .error fault _ => .error fault

/-- The objects that are not of the baseline and removed. -/
def successorObjects (baseline : AnalysisSnapshot) (objects : Objects) (live : Finset Digest) :
    Objects :=
  objects.filter fun digest _ =>
    decide (¬ (digest ∈ snapshotReferences baseline.spec ∧ digest ∉ live))

abbrev Baseline := Option (AnalysisSnapshot × Objects)

/-- `_recompute_scientific_state`. -/
def recomputeScientificState (state : ControlState) (baseline : AnalysisSnapshot)
    (objects : Objects) : Checked ControlState := do
  let snapshot := snapshotForLiveState h baseline state.liveObjects
  let objects := successorObjects baseline objects state.liveObjects
  let profile ← audit h snapshot objects
  let documents := objects.values
  pure { state with
    snapshotDigest := h.document (snapshot.document .analysisSnapshot)
    scientificProfileDigest := h.profile profile
    blockers := state.blockers ∪ profileBlockers profile
    dimensionStatuses := dimensionStatuses profile
    authorityIds := authorityIds documents
    verifierStageIds := verifierStageIds documents
    independenceDomains := independenceDomains documents
    coordinationBindings := coordinationBindings h documents
    trialBindings := trialBindings h documents }

/-- `_lower_floor`. -/
def lowerFloor (prior : Option ℚ) (current : ℚ) : ℚ :=
  match prior with
  | none => current
  | some prior => min prior current

/-- The bounds of a branch other than its resources. -/
structure Bounds where
  time : ℚ
  cost : ℚ
  quality : ℚ
  safety : ℚ
  verification : ℚ
  independence : ℚ
  correlation : ℚ
  cut : ℚ

def bounds (branch : BranchEffect) : Checked Bounds := do
  let verification ← rational branch.verificationLoadUpper
  let independence ← rational branch.independenceErosionUpper
  let correlation ← rational branch.correlationConcentrationUpper
  let cut ← rational branch.cutExposureUpper
  let time ← rational branch.timeUpper
  let cost ← rational branch.costUpper
  let quality ← rational branch.qualityLower
  let safety ← rational branch.safetyLower
  pure { time, cost, quality, safety, verification, independence, correlation, cut }

/-- The state after a branch, before the audit is replayed. Projected output is pending. -/
def projected (state : ControlState) (branch : BranchEffect) (marking : Dict ℚ)
    (bounds : Bounds) : ControlState :=
  { state with
    liveObjects := state.liveObjects.filter (· ∉ branch.removals)
    resources := marking
    resourceTrajectory := state.resourceTrajectory ++ [marking]
    addressedBlockers := state.addressedBlockers ∪
      branch.resolvesBlockers.toFinset ∩ state.blockers
    debt := state.debt ∪ branch.debt.toFinset
    rollback := state.rollback ∪ branch.rollbackObligations.toFinset
    evidenceRoutes := state.evidenceRoutes ∪ branch.guaranteedEvidenceRoutes.toFinset
    pendingProjections := state.pendingProjections ∪ branch.mustAdd.toFinset
    hazards := state.hazards \ branch.hazardsRemoved.toFinset ∪ branch.hazardsAdded.toFinset
    verificationLoad := state.verificationLoad + bounds.verification
    independenceErosion := state.independenceErosion + bounds.independence
    correlationConcentration := state.correlationConcentration + bounds.correlation
    cutExposure := state.cutExposure + bounds.cut
    elapsedTime := state.elapsedTime + bounds.time
    monetaryCost := state.monetaryCost + bounds.cost
    qualityFloor := some (lowerFloor state.qualityFloor bounds.quality)
    safetyFloor := some (lowerFloor state.safetyFloor bounds.safety) }

/-- `_successor`. -/
def successor (state : ControlState) (branch : BranchEffect) (baseline : Baseline) :
    Checked ControlState := do
  let marking ← lowered state.resources branch
  let bounds ← bounds branch
  match baseline with
  | some (snapshot, objects) =>
    recomputeScientificState h (projected state branch marking bounds) snapshot objects
  | none => pure (projected state branch marking bounds)

def measuredCoordinate (measure : Identifier) : Option Identifier :=
  if "resource:".toList.isPrefixOf measure.toList then
    some (String.ofList (measure.toList.drop "resource:".toList.length))
  else none

/-- `_strict_progress`. -/
def strictProgress (prior successor : ControlState) (measure : Option Identifier) : Bool :=
  match measure with
  | none => false
  | some measure =>
    if measure = "blocker_frontier" then
      decide (prior.addressedBlockers ⊂ successor.addressedBlockers)
    else if measure = "evidence_routes" then
      decide (prior.evidenceRoutes ⊂ successor.evidenceRoutes)
    else match measuredCoordinate measure with
      | some coordinate =>
        decide (prior.resources.getD coordinate 0 < successor.resources.getD coordinate 0)
      | none => false

def progresses (state : ControlState) (capability : CapabilityDocument) (branch : BranchEffect) :
    Checked Bool :=
  if capability.spec.repeatable = true then do
    let next ← successor h state branch none
    pure (strictProgress state next capability.spec.progressMeasure)
  else pure true

def branchReasons (state : ControlState) (action : ActionDocument)
    (capability : CapabilityDocument) (branch : BranchEffect) : Checked (List String) := do
  let outcome := outcomeText branch.outcome
  let safe ← resourceSafe state branch
  let progress ← progresses h state capability branch
  pure (reasonIf (∃ digest ∈ action.spec.protectedObjectDigests, digest ∈ branch.removals)
      ("protected_object_may_be_removed:" ++ outcome) ++
    reasonIf (∃ hazard ∈ action.spec.prohibitedHazards, hazard ∈ branch.hazardsAdded)
      ("prohibited_hazard_may_be_added:" ++ outcome) ++
    reasonIf (safe = false) ("resource_floor_may_fail:" ++ outcome) ++
    reasonIf (progress = false) ("repeatability_progress_not_strict:" ++ outcome))

def schemaReasons (capability : CapabilityDocument) : List String :=
  match h.schema capability.spec.outputSchemaName with
  | none => ["capability_output_schema_unknown"]
  | some expected => reasonIf (capability.spec.outputSchemaDigest ≠ expected)
      "capability_output_schema_digest_mismatch"

/-- `_hard_filter`. -/
def hardFilter (state : ControlState) (action : ActionDocument)
    (capability : Option CapabilityDocument) : Checked (List String) :=
  match capability with
  | none => pure ["capability_missing"]
  | some capability => do
    let reasons := reasonIf (h.capability capability ≠ action.spec.capabilityDigest)
        "capability_digest_mismatch" ++
      reasonIf (¬ ∀ digest ∈ action.spec.requiredObjectDigests, digest ∈ state.liveObjects)
        "required_object_missing" ++
      reasonIf (∃ hazard ∈ action.spec.prohibitedHazards, hazard ∈ state.hazards)
        "prohibited_hazard_active"
    let branches ← capability.spec.branches.mapM (branchReasons h state action capability)
    pure (sortedSet (reasons ++ schemaReasons h capability ++ branches.flatten))

/-- `_eligible_at_state`. -/
def eligibleAtState (state : ControlState) (candidates : List Candidate) :
    Checked (List Candidate) :=
  candidates.foldlM (fun kept pair => do
    let reasons ← hardFilter h state pair.1 (some pair.2)
    pure (if reasons = [] then kept ++ [pair] else kept)) []

structure Worst where
  resolved : Finset Identifier
  evidence : Finset Identifier
  bounds : Bounds
  resources : Dict ℚ
  debt : Finset Identifier
  rollback : Finset Identifier
  hazards : Finset Identifier

def Bounds.worst (a b : Bounds) : Bounds where
  time := max a.time b.time
  cost := max a.cost b.cost
  quality := min a.quality b.quality
  safety := min a.safety b.safety
  verification := max a.verification b.verification
  independence := max a.independence b.independence
  correlation := max a.correlation b.correlation
  cut := max a.cut b.cut

def worstDelta (branches : List BranchEffect) (coordinate : Identifier) : Checked ℚ := do
  let deltas ← branches.mapM fun branch =>
    rational (branch.resourceDeltaLower.getD coordinate (.ofNat 0))
  demand .valueError deltas.min?

def worstResources (branches : List BranchEffect) : Checked (Dict ℚ) :=
  (branches.flatMap (·.resourceDeltaLower.keys)).foldlM (fun worst coordinate => do
    let delta ← worstDelta branches coordinate
    pure (worst.insert coordinate delta)) ∅

/-- `_worst_coordinates`. -/
def worstCoordinates (capability : CapabilityDocument) : Checked Worst :=
  match capability.spec.branches with
  | [] => .error (.crash .valueError)
  | first :: rest => do
    let head ← bounds first
    let tail ← rest.mapM bounds
    let resources ← worstResources (first :: rest)
    pure {
      resolved := rest.foldl (fun kept branch => kept ∩ branch.resolvesBlockers.toFinset)
        first.resolvesBlockers.toFinset
      evidence := rest.foldl (fun kept branch => kept ∩ branch.guaranteedEvidenceRoutes.toFinset)
        first.guaranteedEvidenceRoutes.toFinset
      bounds := tail.foldl Bounds.worst head
      resources
      debt := ((first :: rest).flatMap (·.debt)).toFinset
      rollback := ((first :: rest).flatMap (·.rollbackObligations)).toFinset
      hazards := ((first :: rest).flatMap (·.hazardsAdded)).toFinset }

/-- Everything of `a` is at least as good as in `b`. -/
def atLeastAsGood (a b : Worst) : Prop :=
  b.resolved ⊆ a.resolved ∧ b.evidence ⊆ a.evidence ∧
  a.bounds.time ≤ b.bounds.time ∧ a.bounds.cost ≤ b.bounds.cost ∧
  b.bounds.quality ≤ a.bounds.quality ∧ b.bounds.safety ≤ a.bounds.safety ∧
  a.bounds.verification ≤ b.bounds.verification ∧
  a.bounds.independence ≤ b.bounds.independence ∧
  a.bounds.correlation ≤ b.bounds.correlation ∧ a.bounds.cut ≤ b.bounds.cut ∧
  (∀ coordinate ∈ a.resources.keys ++ b.resources.keys,
    b.resources.getD coordinate 0 ≤ a.resources.getD coordinate 0) ∧
  a.debt ⊆ b.debt ∧ a.rollback ⊆ b.rollback ∧ a.hazards ⊆ b.hazards

/-- Something of `a` is better than in `b`. -/
def strictlyBetter (a b : Worst) : Prop :=
  a.resolved ≠ b.resolved ∨ a.evidence ≠ b.evidence ∨
  a.bounds.time < b.bounds.time ∨ a.bounds.cost < b.bounds.cost ∨
  b.bounds.quality < a.bounds.quality ∨ b.bounds.safety < a.bounds.safety ∨
  a.bounds.verification < b.bounds.verification ∨
  a.bounds.independence < b.bounds.independence ∨
  a.bounds.correlation < b.bounds.correlation ∨ a.bounds.cut < b.bounds.cut ∨
  (∃ coordinate ∈ a.resources.keys ++ b.resources.keys,
    b.resources.getD coordinate 0 < a.resources.getD coordinate 0) ∨
  a.debt ≠ b.debt ∨ a.rollback ≠ b.rollback ∨ a.hazards ≠ b.hazards

instance decidableAtLeastAsGood (a b : Worst) : Decidable (atLeastAsGood a b) := by
  unfold atLeastAsGood
  infer_instance

instance decidableStrictlyBetter (a b : Worst) : Decidable (strictlyBetter a b) := by
  unfold strictlyBetter
  infer_instance

/-- `_dominates`. -/
def dominates (left right : CapabilityDocument) : Checked Bool := do
  let a ← worstCoordinates left
  let b ← worstCoordinates right
  pure (decide (atLeastAsGood a b ∧ strictlyBetter a b))

/-- `_route_goal_satisfied`. -/
def routeGoalSatisfied (state : ControlState) : Bool :=
  decide (state.blockers.Nonempty ∧ state.blockers ⊆ state.addressedBlockers)

/-- `_branch_makes_guaranteed_progress`. -/
def branchMakesGuaranteedProgress (prior successor : ControlState) : Bool :=
  decide (prior.addressedBlockers ⊂ successor.addressedBlockers ∧
    successor.evidenceRoutes.Nonempty)

abbrev Path := List (Digest × Identifier)

/-- How a tree goes on from a state, while the horizon lasts. -/
abbrev Growing := Option (ControlState → Candidate → Path → Checked PolicyNode)

/-- The first candidate with a strong policy; one that is not repeatable does not follow
itself. -/
def chooseNext (grow : ControlState → Candidate → Path → Checked PolicyNode)
    (state : ControlState) (last : ActionDocument) (path : Path) :
    List Candidate → Checked (Option (Candidate × PolicyNode))
  | [] => pure none
  | pair :: rest =>
    if pair.1.spec.actionId = last.spec.actionId ∧ pair.2.spec.repeatable = false then
      chooseNext grow state last path rest
    else do
      let child ← grow state pair path
      if child.strong = true then pure (some (pair, child))
      else chooseNext grow state last path rest

def nextCandidates (state : ControlState) (candidates : List Candidate) :
    Checked (List Candidate) := do
  let eligible ← eligibleAtState h state candidates
  pure ((eligible.insertionSort fun a b => a.1.spec.actionId ≤ b.1.spec.actionId).take beamWidth)

def strongBranch (baseline : Baseline) (candidates : List Candidate) (grow : Growing)
    (state : ControlState) (action : ActionDocument) (path : Path) (branch : BranchEffect) :
    Checked (Bool × Option (Candidate × PolicyNode)) := do
  let next ← successor h state branch baseline
  let safe ← resourceSafe state branch
  if safe = false then pure (false, none)
  else if branchMakesGuaranteedProgress state next = false then pure (false, none)
  else if routeGoalSatisfied next = true then pure (true, none)
  else match grow with
    | none => pure (false, none)
    | some grow =>
      let candidates ← nextCandidates h next candidates
      let chosen ← chooseNext grow next action path candidates
      pure (chosen.isSome, chosen)

def strongNode (baseline : Baseline) (candidates : List Candidate) (grow : Growing)
    (state : ControlState) (pair : Candidate) (path : Path) : Checked PolicyNode := do
  let digest := h.controlState state
  let key := (digest, pair.1.spec.actionId)
  if key ∈ path then
    pure (.mk digest pair.1.spec.actionId false
      (pair.2.spec.branches.map fun branch => (branch.outcome, none)))
  else
    let grown ← pair.2.spec.branches.mapM
      (strongBranch h baseline candidates grow state pair.1 (key :: path))
    pure (.mk digest pair.1.spec.actionId (grown.all (·.1))
      ((pair.2.spec.branches.zip grown).map fun p => (p.1.outcome, p.2.2.map (·.2))))

/-- `_strong_tree`. -/
def strongTree (baseline : Baseline) (candidates : List Candidate) :
    ℕ → ControlState → Candidate → Path → Checked PolicyNode
  | 0 => strongNode h baseline candidates none
  | n + 1 => strongNode h baseline candidates
      (if n = 0 then none else some (strongTree baseline candidates n))

end state

section planning
variable (h : Services) (snapshot : AnalysisSnapshot) (objects : Objects)

structure CapabilityTable where
  byDigest : Dict CapabilityDocument
  duplicates : Finset Digest

def tabulate (table : CapabilityTable) (capability : CapabilityDocument) : CapabilityTable :=
  let digest := h.capability capability
  ⟨table.byDigest.insert digest capability,
    if digest ∈ table.byDigest then insert digest table.duplicates else table.duplicates⟩

/-- `_semantic_key`. -/
def semanticKey (action : ActionDocument) (capability : CapabilityDocument) : Digest :=
  h.semantics (action.spec.requiredObjectDigests.insertionSort (· ≤ ·))
    (action.spec.protectedObjectDigests.insertionSort (· ≤ ·))
    (action.spec.prohibitedHazards.insertionSort (· ≤ ·)) capability.spec

structure Screened where
  rejected : Dict (List String)
  eligible : List Candidate
  seen : List Digest

def screen (state : ControlState) (table : CapabilityTable) (screened : Screened)
    (action : ActionDocument) : Checked Screened := do
  let found := table.byDigest[action.spec.capabilityDigest]?
  let filtered ← hardFilter h state action found
  let reasons := filtered ++ reasonIf (action.spec.capabilityDigest ∈ table.duplicates)
    "capability_digest_duplicate"
  match found with
  | none => pure { screened with
      rejected := screened.rejected.insert action.spec.actionId (sortedSet reasons) }
  | some capability =>
    if reasons ≠ [] then pure { screened with
      rejected := screened.rejected.insert action.spec.actionId (sortedSet reasons) }
    else if semanticKey h action capability ∈ screened.seen then pure { screened with
      rejected := screened.rejected.insert action.spec.actionId ["exact_semantic_duplicate"] }
    else pure { screened with
      eligible := screened.eligible ++ [(action, capability)]
      seen := semanticKey h action capability :: screened.seen }

def screenActions (state : ControlState) (actions : List ActionDocument)
    (capabilities : List CapabilityDocument) : Checked Screened :=
  (actions.insertionSort fun a b => a.spec.actionId ≤ b.spec.actionId).foldlM
    (screen h state (capabilities.foldl (tabulate h) ⟨∅, ∅⟩)) ⟨∅, [], []⟩

def dominatedAmong (eligible : List Candidate) (item : Candidate × ℕ) : Checked Bool :=
  eligible.zipIdx.anyM fun other =>
    if other.2 = item.2 then pure false else dominates other.1.2 item.1.2

def nondominated (eligible : List Candidate) : Checked (List Candidate) :=
  eligible.zipIdx.foldlM (fun kept item => do
    let dominated ← dominatedAmong eligible item
    pure (if dominated = true then kept else kept ++ [item.1])) []

def branchCounterexample (state : ControlState) (action : ActionDocument) (branch : BranchEffect) :
    Checked (List Counterexample) := do
  let next ← successor h state branch (some (snapshot, objects))
  pure (if branchMakesGuaranteedProgress state next = true then [] else
    [⟨action.spec.actionId, branch.outcome, "branch_guarantees_no_evidence_route_progress"⟩])

def planCounterexamples (state : ControlState) (candidates : List Candidate) :
    Checked (List Counterexample) := do
  let found ← candidates.mapM fun pair =>
    pair.2.spec.branches.mapM (branchCounterexample h snapshot objects state pair.1)
  pure found.flatten.flatten

def planned (state : ControlState) (screened : Screened) (candidates : List Candidate)
    (horizon : ℕ) : Checked PlanResult := do
  let policies ← candidates.mapM fun pair =>
    strongTree h (some (snapshot, objects)) candidates horizon state pair []
  let strong := policies.filter (·.strong)
  let counterexamples ← planCounterexamples h snapshot objects state candidates
  let frontier := state.blockers.sort (· ≤ ·)
  let solutionClass := if horizon = 1 then PlanClass.exact else .approximate
  if strong = [] then
    pure { PlanResult.bare .blocked "no_strong_policy_within_horizon" solutionClass
      screened.rejected frontier with counterexamples }
  else
    let policy := if candidates.length = 1 then strong.head? else none
    pure {
      status := .ok
      code := if policy.isSome then "primary_strong_policy" else "incomparable_safe_alternatives"
      solutionClass
      primaryActionId := policy.map (·.actionId)
      alternativeActionIds := if policy.isSome then [] else (strong.take 3).map (·.actionId)
      rejected := screened.rejected
      counterexamples
      policy
      blockerFrontier := frontier }

/-- `plan_actions`. -/
def planActions (profile : OperationalProfile) (actions : List ActionDocument)
    (capabilities : List CapabilityDocument) (horizon : ℤ) : Checked PlanResult := do
  if horizon ∉ ([1, 2, 3] : List ℤ) then
    pure (.bare .error "planning_horizon_invalid" .none ∅ [])
  else
    let state ← initialState h snapshot objects profile
    if state.blockers = ∅ then pure (.bare .ok "no_intervention_required" .exact ∅ [])
    else
      let screened ← screenActions h state actions capabilities
      let candidates ← nondominated screened.eligible
      let frontier := state.blockers.sort (· ≤ ·)
      if maxEligible < candidates.length then
        pure (.bare .unknown "candidate_set_overflow_unknown" .incomplete screened.rejected
          frontier)
      else if candidates = [] then
        pure (.bare .blocked "no_branch_safe_action" .exact screened.rejected frontier)
      else planned h snapshot objects state screened candidates horizon.toNat

end planning

end CollectivePhaseControl.Planning
