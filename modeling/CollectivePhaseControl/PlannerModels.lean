import CollectivePhaseControl.Perturbations

/-! What the planner of interventions reads and returns. A capability declares the effect of
each of four outcomes; fields that planning does not read are kept, by name and in canonical
text, since digests are taken of them. -/
namespace CollectivePhaseControl.Planning

def outcomeText : OutcomeName → String
  | .success => "success"
  | .partialOutcome => "partial"
  | .failure => "failure"
  | .timeout => "timeout"

structure BranchEffect where
  outcome : OutcomeName
  mustAdd : List Digest
  mayAdd : List Digest
  mustRemove : List Digest
  mayRemove : List Digest
  resourceDeltaLower : Dict Rational
  resourceDeltaUpper : Dict Rational
  guaranteedEvidenceRoutes : List Identifier
  resolvesBlockers : List Identifier
  debt : List Identifier
  rollbackObligations : List Identifier
  hazardsAdded : List Identifier
  hazardsRemoved : List Identifier
  timeUpper : Rational
  costUpper : Rational
  qualityLower : Rational
  safetyLower : Rational
  verificationLoadUpper : Rational
  independenceErosionUpper : Rational
  correlationConcentrationUpper : Rational
  cutExposureUpper : Rational

namespace BranchEffect
variable (branch : BranchEffect)

def removals : List Digest := branch.mustRemove ++ branch.mayRemove

/-- `interval_integrity`. -/
def accepted : Prop :=
  branch.resourceDeltaLower.keys = branch.resourceDeltaUpper.keys ∧
  (∀ coordinate ∈ branch.resourceDeltaLower.keys,
    balance branch.resourceDeltaLower coordinate ≤ balance branch.resourceDeltaUpper coordinate) ∧
  (∀ bound ∈ [branch.timeUpper, branch.costUpper, branch.verificationLoadUpper,
    branch.independenceErosionUpper, branch.correlationConcentrationUpper,
    branch.cutExposureUpper], 0 ≤ F bound) ∧
  (∀ hazard ∈ branch.hazardsAdded, hazard ∉ branch.hazardsRemoved) ∧
  (∀ digests ∈ [branch.mustAdd, branch.mayAdd, branch.mustRemove, branch.mayRemove],
    digests.Nodup) ∧
  (∀ digest ∈ branch.mustAdd ++ branch.mayAdd, digest ∉ branch.removals) ∧
  ∀ ids ∈ [branch.guaranteedEvidenceRoutes, branch.resolvesBlockers, branch.debt,
    branch.rollbackObligations, branch.hazardsAdded, branch.hazardsRemoved], ids.Nodup

instance decidableAccepted : Decidable branch.accepted := by
  unfold accepted
  infer_instance

end BranchEffect

structure CapabilitySpec where
  others : Dict String
  outputSchemaName : Identifier
  outputSchemaDigest : Digest
  repeatable : Bool
  progressMeasure : Option Identifier
  branches : List BranchEffect
  integrity : ∀ branch ∈ branches, branch.accepted
  fourOutcomes : (branches.map (·.outcome)).Perm [.success, .partialOutcome, .failure, .timeout]
  measured : repeatable = true → progressMeasure.isSome = true

abbrev CapabilityDocument := Typed CapabilitySpec
abbrev ActionDocument := Typed ActionSpec

abbrev Candidate := ActionDocument × CapabilityDocument

structure ControlState where
  generationDigest : Digest
  snapshotDigest : Digest
  trustedTimeReceiptDigest : Digest
  scientificProfileDigest : Digest
  liveObjects : Finset Digest
  resources : Dict ℚ
  resourceTrajectory : List (Dict ℚ)
  floors : Dict ℚ
  blockers : Finset Identifier
  addressedBlockers : Finset Identifier
  dimensionStatuses : Dict ProfileStatus
  debt : Finset Identifier
  rollback : Finset Identifier
  evidenceRoutes : Finset Identifier
  authorityIds : Finset Identifier
  hazards : Finset Identifier
  verifierStageIds : Finset Identifier
  verificationLoad : ℚ
  independenceDomains : Finset Identifier
  independenceErosion : ℚ
  correlationConcentration : ℚ
  cutExposure : ℚ
  coordinationBindings : Finset Digest
  trialBindings : Finset Digest
  pendingProjections : Finset Digest
  elapsedTime : ℚ
  monetaryCost : ℚ
  qualityFloor : Option ℚ
  safetyFloor : Option ℚ

structure Counterexample where
  actionId : Identifier
  outcome : OutcomeName
  reason : String

inductive PolicyNode where
  | mk (stateDigest : Digest) (actionId : Identifier) (strong : Bool)
      (branches : List (OutcomeName × Option PolicyNode))

namespace PolicyNode

def stateDigest : PolicyNode → Digest
  | mk digest _ _ _ => digest

def actionId : PolicyNode → Identifier
  | mk _ id _ _ => id

def strong : PolicyNode → Bool
  | mk _ _ strong _ => strong

def branches : PolicyNode → List (OutcomeName × Option PolicyNode)
  | mk _ _ _ branches => branches

end PolicyNode

inductive PlanStatus where
  | ok | blocked | unknown | error
deriving DecidableEq, Repr

inductive PlanClass where
  | exact | approximate | incomplete | none
deriving DecidableEq, Repr

structure PlanResult where
  status : PlanStatus
  code : String
  solutionClass : PlanClass
  primaryActionId : Option Identifier
  alternativeActionIds : List Identifier
  rejected : Dict (List String)
  counterexamples : List Counterexample
  policy : Option PolicyNode
  blockerFrontier : List Identifier

/-- A result that says no more than why there is no plan. -/
def PlanResult.bare (status : PlanStatus) (code : String) (solutionClass : PlanClass)
    (rejected : Dict (List String)) (frontier : List Identifier) : PlanResult where
  status
  code
  solutionClass
  primaryActionId := none
  alternativeActionIds := []
  rejected
  counterexamples := []
  policy := none
  blockerFrontier := frontier

/-- The digests of planning's values, and when the deadline of an audit passes. -/
structure Services extends AuditServices where
  controlState : ControlState → Digest
  profile : OperationalProfile → Digest
  capability : CapabilityDocument → Digest
  semantics : (required protecteds : List Digest) → (hazards : List Identifier) →
    CapabilitySpec → Digest
  late : AnalysisSnapshot → Objects → ℕ → Bool

/-- `rational` outside an audit. -/
def rational (written : Rational) : Checked ℚ :=
  let result := F written
  if maxRationalBits < result.num.natAbs.size ∨ maxRationalBits < result.den.size then
    .error analysisBudgetExceeded
  else
    .ok result

theorem rational_ok {written : Rational} {result : ℚ} (parsed : rational written = .ok result) :
    result = F written := by
  unfold rational at parsed
  dsimp only at parsed
  split at parsed
  · cases parsed
  · exact (Except.ok.inj parsed).symm

end CollectivePhaseControl.Planning
