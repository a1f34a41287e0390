import CollectivePhaseControl.EpistemicPlanning
import CollectivePhaseControl.GrowthCompleteness
import CollectivePhaseControl.GrowthDiagnostics

/-! Growth plans. The plan is the first candidate of the least key; the key is the objective
in a fixed lexicographic order, then the action and the digest of the tree. A plan without a
policy may carry a fallback to the deadline. The finished plan is handed to the checker. -/
namespace CollectivePhaseControl

open BudgetedSearch

variable (hash : Hashing)

/-- The objective part of `objective_key`. -/
def candidateOrder (c : GrowthContractSpec) (p : Candidate) : Checked (List ℚ) := do
  objectiveKey c (← objective c p)

/-- `objective_key`. -/
def candidateKey (c : GrowthContractSpec) (p : Candidate) :
    Checked (List ℚ ×ₗ Identifier ×ₗ Digest) := do
  pure (toLex (← candidateOrder c p, toLex (p.node.actionId.getD "", hash.node p.node)))

/-- `candidates.sort(key=objective_key)`, which is stable. -/
def rankCandidates (c : GrowthContractSpec) (candidates : List Candidate) :
    Checked (List Candidate) := do
  let keyed ← candidates.mapM fun p => do pure (← candidateKey hash c p, p)
  pure ((keyed.insertionSort fun a b => a.1 ≤ b.1).map Prod.snd)

inductive GrowthSolutionClass where
  | exact | incomplete
deriving DecidableEq, Repr

inductive GrowthContinuation where
  | modelWitness | unavailable
deriving DecidableEq, Repr

/-- What a `GrowthFrontierPlanSpec` has beyond a `GrowthPlanSpec`. -/
structure FrontierPlanFacet where
  frontierDigest : Digest
  declaredFrontier : GrowthCapabilityFrontier
  initialFrontierState : GrowthState
  terminalFrontierStates : List GrowthState
  frontierDiagnostics : GrowthFrontierDiagnostics

structure GrowthPlanSpec where
  contractDigest : Digest
  inputDigest : Digest
  initialStateDigest : Digest
  code : String
  solutionClass : GrowthSolutionClass
  predictedEntry : ComparisonStatus
  continuation : GrowthContinuation
  policy : Option GrowthPolicyNode
  policyDigest : Option Digest
  objective : Option GrowthObjective
  safeFallback : Option GrowthPolicyNode
  search : GrowthSearchReport
  fallbackSearch : Option GrowthSearchReport
  comparisons : List GrowthComparison
  alternatives : List Identifier
  counterexamples : List String
  modelPredictedTerminal : List GrowthState
  requiredAuthority : List Identifier
  nextEvidence : List Identifier
  witnessExpires : Rational
  invalidateOn : List Identifier
  checkerDigest : Option Digest
  frontier : Option FrontierPlanFacet

/-- A growth plan, or a frontier plan when its facet is present. -/
structure GrowthPlan where
  metadata : Metadata
  spec : GrowthPlanSpec

def GrowthPlan.validate (plan : GrowthPlan) : Checked GrowthPlan :=
  if plan.spec.comparisons.length ≤ 128 ∧ plan.spec.alternatives.length ≤ 16 ∧
      plan.spec.counterexamples.length ≤ 256 ∧ plan.spec.modelPredictedTerminal.length ≤ 4096 ∧
      plan.spec.nextEvidence.length ≤ 128 then .ok plan
  else .error (.crash .validationError)

def requiredAuthority : List Identifier :=
  ["operator-external-runner-authorization", "admitted-capability",
   "independent-projection-quorum"]

def invalidateOn : List Identifier :=
  ["state-change", "new-counterevidence", "model-change", "protocol-change", "evaluator-change",
   "ontology-change", "coverage-change", "expiry"]

def growthPlanCode (models complete found : Bool) : String :=
  if models = false then "growth_inconsistent_models"
  else if complete = false then "growth_unknown_due_to_budget"
  else if found then "growth_model_policy_found"
  else "growth_no_guaranteed_entry"

def checkFrontierPlan (contract : GrowthContract) (objects : Objects) (frontier : Frontier)
    (start : GrowthState) (root : GrowthPolicyNode) (candidate : Candidate)
    (facet : Option FrontierPlanFacet) : Checked Unit :=
  match facet, frontier with
  | some plan, some f => do
    require (plan.initialFrontierState = start ∧
      plan.terminalFrontierStates = candidate.terminals) "growth_frontier_state_mismatch"
    require (plan.frontierDiagnostics = (← diagnostics hash contract objects f (some root)))
      "growth_frontier_witness_mismatch"
  | _, _ => pure ()

def checkFrontierBinding (contract : GrowthContract) (objects : Objects) (frontier : Frontier)
    (facet : Option FrontierPlanFacet) : Checked Unit := do
  require (facet.isSome = frontier.isSome) "growth_frontier_document_required"
  match facet, frontier with
  | some plan, some f => do
    validateFrontier hash contract objects f
    require (plan.frontierDigest = frontierDigest hash f ∧ plan.declaredFrontier = f)
      "growth_frontier_digest_mismatch"
  | _, _ => pure ()

/-- `check_plan`: walks the submitted tree, without trusting the search. -/
def checkPlan (contract : GrowthContract) (objects : Objects) (plan : GrowthPlan)
    (frontier : Frontier) : Checked Digest := do
  validateContract hash contract objects
  checkFrontierBinding hash contract objects frontier plan.spec.frontier
  require (plan.spec.contractDigest = contractDigest hash contract ∧
    plan.spec.inputDigest = inputDigest hash contract objects frontier) "growth_plan_input_mismatch"
  let start ← initialState hash contract frontier
  let digest ← stateDigest hash start
  require (plan.spec.initialStateDigest = digest) "growth_plan_state_mismatch"
  match plan.spec.policy with
  | none => .error (.coded "growth_plan_policy_missing")
  | some root => do
    require (plan.spec.policyDigest = some (hash.node root)) "growth_plan_digest_mismatch"
    let comparisons ← compareGrowth hash contract objects frontier
    require (comparisons = plan.spec.comparisons) "growth_plan_comparison_mismatch"
    let candidate ← checkTree hash (checker contract objects comparisons frontier) root start none
    let worst ← objective contract.spec candidate
    require (plan.spec.objective = some worst) "growth_plan_objective_mismatch"
    require (plan.spec.modelPredictedTerminal = candidate.terminals.map baseState)
      "growth_plan_terminal_mismatch"
    checkFrontierPlan hash contract objects frontier start root candidate plan.spec.frontier
    pure (hash.checker plan.spec.inputDigest (hash.node root) worst)

def fallbackSearch (contract : GrowthContract) (objects : Objects) (frontier : Frontier) : Search :=
  restrictedSearch contract objects frontier [] (F contract.spec.deadline)

/-- `search.enumerate(start) if start.model_ids else []`. -/
def enumerateFrom (x : Search) (start : GrowthState) : Checked (List Candidate × SearchState) :=
  if start.modelIds ≠ [] then runFresh (x.enumerate hash x.contract.spec.maxDecisions start none)
  else .ok ([], .fresh)

structure PlanFindings where
  start : GrowthState
  comparisons : List GrowthComparison
  candidates : List Candidate
  search : SearchState
  safe : Option ScalarSolution
  fallback : SearchState

namespace PlanFindings
variable (f : PlanFindings)

def best : Option Candidate := f.candidates.head?

def complete : Bool := f.search.budget.complete && f.comparisons.all (·.search.complete)

end PlanFindings

def searchPlan (contract : GrowthContract) (objects : Objects) (frontier : Frontier) :
    Checked PlanFindings := do
  validateContract hash contract objects
  let start ← initialState hash contract frontier
  let comparisons ← compareGrowth hash contract objects frontier
  let (found, search) ← enumerateFrom hash (checker contract objects comparisons frontier) start
  let candidates ← rankCandidates hash contract.spec found
  let (safe, fallback) ← if candidates = [] then
      scalarFrom hash (fallbackSearch contract objects frontier) start
    else .ok (none, .fresh)
  pure { start, comparisons, candidates, search, safe, fallback }

def frontierFacet (contract : GrowthContract) (objects : Objects) (f : PlanFindings) :
    Frontier → Checked (Option FrontierPlanFacet)
  | none => pure none
  | some frontier => do
    let described ← diagnostics hash contract objects frontier (f.best.map (·.node))
    pure (some
      { frontierDigest := frontierDigest hash frontier
        declaredFrontier := frontier
        initialFrontierState := f.start
        terminalFrontierStates := (f.best.map (·.terminals)).getD []
        frontierDiagnostics := described })

def planAlternatives (f : PlanFindings) : List Identifier :=
  sortedSet ((f.candidates.filterMap (·.node.actionId)).filter fun id =>
    id ≠ "" ∧ f.best.bind (·.node.actionId) ≠ some id)

def draftPlan (contract : GrowthContract) (objects : Objects) (frontier : Frontier) (f : PlanFindings) :
    Checked GrowthPlan := do
  let worst ← f.best.mapM (objective contract.spec)
  let digest ← stateDigest hash f.start
  let models := decide (f.start.modelIds ≠ [])
  let plan ← GrowthPlan.validate
    { metadata := contract.metadata
      spec :=
        { contractDigest := contractDigest hash contract
          inputDigest := inputDigest hash contract objects frontier
          initialStateDigest := digest
          code := growthPlanCode models f.complete f.best.isSome
          solutionClass := if f.complete then .exact else .incomplete
          predictedEntry := if models = false then .inconsistent
            else if f.best.isSome then .supported else .undetermined
          continuation := if f.best.isSome then .modelWitness else .unavailable
          policy := f.best.map (·.node)
          policyDigest := f.best.map (hash.node ·.node)
          objective := worst
          safeFallback := f.safe.map (·.candidate.node)
          search := f.search.budget.report contract.spec.searchLimits
          fallbackSearch := none
          comparisons := f.comparisons
          alternatives := planAlternatives f
          counterexamples := sortedSet f.search.counterexamples
          modelPredictedTerminal := ((f.best.map (·.terminals)).getD []).map baseState
          requiredAuthority := requiredAuthority
          nextEvidence := contract.spec.requiredEntryEvidence
          witnessExpires := contract.spec.deadline
          invalidateOn := invalidateOn
          checkerDigest := none
          frontier := none } }
  let facet ← frontierFacet hash contract objects f frontier
  pure { plan with spec := { plan.spec with frontier := facet } }

/-- The planner's last step: the checker has to agree with the draft. -/
def certifyPlan (contract : GrowthContract) (objects : Objects) (frontier : Frontier) (f : PlanFindings)
    (plan : GrowthPlan) : Checked GrowthPlan := do
  let plan ← match f.best, f.safe with
    | some _, _ => do
      let checked ← checkPlan hash contract objects plan frontier
      pure { plan with spec := { plan.spec with checkerDigest := some checked } }
    | none, some solution => do
      let _ ← checkTree hash (fallbackSearch contract objects frontier) solution.candidate.node
        f.start none
      pure plan
    | none, none => pure plan
  if f.best.isNone ∧ f.start.modelIds ≠ [] then
    pure { plan with spec := { plan.spec with
      fallbackSearch := some (f.fallback.budget.report contract.spec.searchLimits) } }
  else pure plan

/-- `plan_growth`. -/
def planGrowth (contract : GrowthContract) (objects : Objects) (frontier : Frontier) :
    Checked GrowthPlan := do
  let found ← searchPlan hash contract objects frontier
  let plan ← draftPlan hash contract objects frontier found
  certifyPlan hash contract objects frontier found plan

end CollectivePhaseControl
