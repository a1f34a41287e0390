import CollectivePhaseControl.Clock
import CollectivePhaseControl.Dicts

/-! Growth contracts, ledgers and policy trees, field by field. Fields that no
modelled function reads are left out. A frontier state is a ledger with one extra
facet, so it is a ledger whose `frontier` is present. -/
namespace CollectivePhaseControl

inductive OutcomeName where
  | success | partialOutcome | failure | timeout
deriving DecidableEq, Repr

inductive Attribution where
  | endogenous | external | unresolved
deriving DecidableEq, Repr

structure GrowthInterval where
  lower : Rational
  upper : Rational
deriving DecidableEq

structure GrowthDomain where
  unit : String
  target : Rational
  serviceFloor : Rational
  qualityFloor : Rational
  coverageFloor : Rational
deriving DecidableEq

structure GrowthWork where
  workId : Identifier
  stage : Identifier
  remaining : Rational
  deadline : Rational
deriving DecidableEq

structure GrowthReservation where
  resource : Identifier
  owner : Identifier
  quantity : Rational
  upto : Rational
deriving DecidableEq

structure GrowthCheckpoint where
  time : Rational
  capacities : Dict GrowthInterval
deriving DecidableEq

structure GrowthActivation where
  actionId : Identifier
  ruleId : Identifier
  producerActionId : Identifier
  producerSuccessorId : Identifier
  depth : ℕ
  modelTime : Rational
  parentStateDigest : Digest
deriving DecidableEq

/-- What a `GrowthFrontierState` has beyond a `GrowthState`. -/
structure FrontierFacet where
  frontierDigest : Digest
  enabledActionIds : List Identifier
  activationDepth : ℕ
  activationLineage : List GrowthActivation
deriving DecidableEq

structure GrowthState where
  capacities : Dict GrowthInterval
  quality : Dict Rational
  coverage : Dict Rational
  resources : Dict Rational
  reservations : List GrowthReservation
  queue : List GrowthWork
  obligations : List GrowthWork
  elapsed : Rational
  checkpoints : List GrowthCheckpoint
  evidence : Dict Rational
  pendingResults : List Identifier
  usedActions : List Identifier
  assumptions : Dict Rational
  modelIds : List Identifier
  spent : Dict Rational
  charges : Dict (Dict Rational)
  offered : Dict Rational
  completed : Dict Rational
  attribution : Attribution
  actualEvidenceDigests : List Digest
  liveObjectDigests : List Digest
  hazards : List Identifier
  frontier : Option FrontierFacet
deriving DecidableEq

structure GrowthSuccessor where
  successorId : Identifier
  outcome : OutcomeName
  applicableModelIds : List Identifier
  duration : Rational
  capacityDelta : Dict GrowthInterval
  quality : Dict Rational
  coverage : Dict Rational
  charges : Dict (Dict Rational)
  reservations : List GrowthReservation
  arrivals : List GrowthWork
  debtAdded : List GrowthWork
  offeredService : Dict Rational
  completedWork : Dict Rational
  evidenceAdded : Dict Rational
  evidenceRemoved : List Identifier
  pendingAdded : List Identifier
  pendingResolved : List Identifier
  assumptionsAdded : Dict Rational
  assumptionsRemoved : List Identifier
  attribution : Attribution
deriving DecidableEq

structure GrowthAction where
  actionDigest : Digest
  requiredEvidence : List Identifier
  requiredAssumptions : List Identifier
  minimumCapacities : Dict Rational
  interactions : List Identifier
  earliest : Rational
  expires : Rational
  successors : List GrowthSuccessor
deriving DecidableEq

structure GrowthWindow where
  start : Rational
  stop : Rational
  taskFactor : Rational
  researchFactor : Rational
deriving DecidableEq

structure GrowthSearchLimits where
  maxWitnessNodes : ℕ
  maxStates : ℕ
  maxExpansions : ℕ
  maxPolicies : ℕ
  maxDepth : ℕ
deriving DecidableEq

structure GrowthComparator where
  comparatorId : Identifier
  excludedInteractions : List Identifier
deriving DecidableEq

inductive PlanningBoundary where
  | sharedBudget | externalPaid
deriving DecidableEq, Repr

structure GrowthContractSpec where
  analysisSnapshotDigest : Digest
  unitRegistryDigest : Digest
  modelTimeOrigin : DateTime
  domains : Dict GrowthDomain
  resourceUnits : Dict String
  resourceFloors : Dict Rational
  sharedResources : Dict Rational
  jointCoefficients : Dict (Dict Rational)
  jointServiceUntil : Rational
  queueLimits : Dict Rational
  debtLimits : Dict Rational
  blockingObligationIds : List Identifier
  requiredEntryEvidence : List Identifier
  modelCatalogue : List Identifier
  initialState : GrowthState
  windows : List GrowthWindow
  continuationHorizon : Rational
  continuationTaskFactor : Rational
  continuationResearchFactor : Rational
  deadline : Rational
  maxDecisions : ℕ
  actionCatalogue : List GrowthAction
  comparators : List GrowthComparator
  comparisonMargin : Rational
  costOrder : List Identifier
  monetaryResource : Option Identifier
  searchLimits : GrowthSearchLimits
  planningCharge : Dict Rational
  planningDuration : Rational
  planningBoundary : PlanningBoundary
deriving DecidableEq

structure GrowthFrontierBinding where
  actionId : Identifier
  actionDigest : Digest
  capabilityDigest : Digest
  outputSchemaDigest : Digest
  executionPolicyDigest : Digest
  lifecycle : Lifecycle
deriving DecidableEq

structure GrowthActivationRule where
  ruleId : Identifier
  producerActionId : Identifier
  producerSuccessorId : Identifier
  activatedActionIds : List Identifier
  requiredCapabilityDigests : List Digest
  requiredEvidence : List Identifier
  requiredModelIds : List Identifier
  minimumCapacities : Dict Rational
  minimumResources : Dict Rational
  validFrom : Rational
  expires : Rational
deriving DecidableEq

structure GrowthCapabilityFrontierSpec where
  contractDigest : Digest
  initialEnabledActionIds : List Identifier
  latentActionIds : List Identifier
  bindings : List GrowthFrontierBinding
  activationRules : List GrowthActivationRule
  maximumActivationDepth : ℕ
  initialActivationLineage : List GrowthActivation
deriving DecidableEq

structure GrowthObjective where
  worstEntryTime : Rational
  terminalMinAttainment : Rational
  worstCost : Dict Rational
  worstDebt : Dict Rational
  worstDuration : Rational
deriving DecidableEq

structure GrowthSearchReport where
  complete : Bool
  states : ℕ
  expansions : ℕ
  policies : ℕ
  maximumDepth : ℕ
  limits : GrowthSearchLimits
deriving DecidableEq

inductive ComparisonStatus where
  | supported | undetermined | inconsistent
deriving DecidableEq, Repr

structure GrowthComparison where
  comparatorId : Identifier
  endpoint : Rational
  status : ComparisonStatus
  lowerBound : Option Rational
  upperBound : Option Rational
  search : GrowthSearchReport
  matchedBasisDigest : Digest
  policyDigest : Option Digest
deriving DecidableEq

/-- A policy tree. `branches` is a dictionary listed in key order. -/
structure GrowthPolicyNode where
  stateDigest : Digest
  actionId : Option Identifier
  entry : Bool
  branches : List (Identifier × GrowthPolicyNode)
  effectDigests : Dict Digest

end CollectivePhaseControl
