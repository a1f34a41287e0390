import CollectivePhaseControl.EpistemicPlanning

/-! Walks over a submitted observation policy. A walk follows every branch of the policy
against its support and counts nodes and expansions on a budget of its own; the checker of
plans and the checker of compositions differ in their bounds, in what they ask for where the
policy stops, and in their codes. -/
namespace CollectivePhaseControl

variable {hash : EpistemicHashing}

structure WalkState where
  budget : SearchBudget
  nodes : ℕ

def WalkState.fresh : WalkState := ⟨.fresh, 0⟩

abbrev WalkM := EStateM Fault WalkState

namespace WalkM

/-- `require(budget.take("expansions", limit), "epistemic_search_budget")`. -/
def chargeExpansion (limits : GrowthSearchLimits) : WalkM PUnit := fun σ =>
  match σ.budget.take limits .expansions with
  | (true, budget) => .ok ⟨⟩ { σ with budget := budget }
  | (false, budget) => .error (.coded "epistemic_search_budget") { σ with budget := budget }

/-- `nodes += 1`. -/
def countNode : WalkM ℕ := fun σ => .ok (σ.nodes + 1) { σ with nodes := σ.nodes + 1 }

end WalkM

/-- What a checker asks for. `τ` is the type of the record that a step hands on. -/
structure WalkRules (τ : Type) where
  /-- Bounds on the nodes seen and on the depth. -/
  within : ℕ → ℕ → Bool
  /-- Where the policy stops. -/
  stop : τ → EpistemicPolicyNode → Support → Checked Unit
  /-- The record after an action. -/
  pass : τ → Identifier → Checked τ
  boundsCode : String
  supportCode : String
  overrunCode : String
  branchCode : String

structure PolicyCheck where
  inputDigest : Digest
  policyDigest : Option Digest
  objective : GrowthObjective
  witnessNodes : ℕ

namespace Domain
variable (d : Domain hash)

/-- The support with an entry marked, when the node decides on one. -/
def entering (comparisons : List GrowthComparison) (node : EpistemicPolicyNode)
    (current : Support) : Checked Support :=
  if node.entry then d.markEntry current comparisons else pure current

def SameKeys {α β : Type} (xs : List (Identifier × α)) (ys : List (Identifier × β)) : Prop :=
  xs.map Prod.fst ⊆ ys.map Prod.fst ∧ ys.map Prod.fst ⊆ xs.map Prod.fst

instance decidableSameKeys {α β : Type} (xs : List (Identifier × α)) (ys : List (Identifier × β)) :
    Decidable (SameKeys xs ys) := by
  unfold SameKeys
  infer_instance

/-- A walk from a node at a depth; `fuel` is the number of levels that the depth bound admits. -/
def walkPolicy {τ : Type} (comparisons : List GrowthComparison) (rules : WalkRules τ) :
    ℕ → EpistemicPolicyNode → Support → ℕ → τ → WalkM (List Support)
  | 0, _, _, _, _ => throw (.coded rules.boundsCode)
  | fuel + 1, node, current, depth, record => do
    let nodes ← WalkM.countNode
    liftM (require (rules.within nodes depth = true) rules.boundsCode)
    liftM (require (node.supportDigest = hash.support current) rules.supportCode)
    let current ← liftM (d.entering comparisons node current)
    match node.actionId with
    | none => do
      liftM (rules.stop record node current)
      pure [current]
    | some actionId => do
      let record ← liftM (rules.pass record actionId)
      let ended ← liftM (d.terminal current none)
      liftM (require (ended = false) rules.overrunCode)
      let branches ← d.advanceCharging (WalkM.chargeExpansion d.limits) current actionId
      liftM (require (SameKeys branches node.branches) rules.branchCode)
      let parts ← branches.mapM fun b => do
        let child ← liftM (demand .keyError (node.branches.lookup b.1))
        walkPolicy comparisons rules fuel child b.2 (depth + 1) record
      pure parts.flatten

def planStop (node : EpistemicPolicyNode) (current : Support) : Checked Unit :=
  if node.branches.isEmpty = true ∧ node.entry = false then do
    require ((← d.terminal current none) = true) "epistemic_continuation_missing"
  else .error (.coded "epistemic_continuation_missing")

def planRules : WalkRules Unit where
  within nodes depth := decide (nodes ≤ d.limits.maxWitnessNodes ∧
    depth ≤ d.contract.spec.maxDecisions ∧ depth ≤ d.epistemic.spec.maxHistory)
  stop _ := d.planStop
  pass _ _ := pure ()
  boundsCode := "epistemic_check_budget"
  supportCode := "epistemic_support_tampered"
  overrunCode := "epistemic_endpoint_overrun"
  branchCode := "epistemic_observation_branch_missing"

/-- The comparisons that judge the first steps of a history: those after it when it is empty. -/
def replayBasis (history : List EpistemicStep) (comparisons : List GrowthComparison) :
    Checked (List GrowthComparison) :=
  if history = [] then pure comparisons else d.referenceComparisons []

/-- `walk` of `check_epistemic_plan`, from what the history leaves open. -/
def walkPlan (comparisons : List GrowthComparison) (node : EpistemicPolicyNode) (support : Support)
    (depth : ℕ) : WalkM (List Support) :=
  d.walkPolicy comparisons d.planRules (d.contract.spec.maxDecisions - depth + 1) node support depth ()

def checkEpistemicPlan (plan : EpistemicPlan) : Checked PolicyCheck := do
  require (plan.inputDigest = d.digest ∧
    plan.epistemicContractDigest = hash.epistemic d.epistemic ∧
    plan.observationMap = d.observationMap ∧
    plan.excludedActionIds = sortedSet d.excludedActions ∧
    plan.excludedInteractions = sortedSet d.excludedInteractions) "epistemic_plan_binding"
  match plan.policy, plan.objective with
  | some policy, some claimed => do
    require (plan.policyDigest = some (hash.policy policy)) "epistemic_policy_digest"
    let comparisons ← d.referenceComparisons plan.history
    let support ← d.replay plan.history (← d.replayBasis plan.history comparisons)
    let (leaves, σ) ← runFrom (d.walkPlan comparisons policy support plan.history.length) .fresh
    let computed ← d.leavesObjective (hash.support support) leaves.flatten
    require (computed = claimed) "epistemic_objective_tampered"
    pure ⟨d.digest, plan.policyDigest, computed, σ.nodes⟩
  | _, _ => .error (.coded "epistemic_policy_missing")

end Domain

end CollectivePhaseControl
