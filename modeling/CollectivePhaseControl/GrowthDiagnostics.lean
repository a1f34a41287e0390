import CollectivePhaseControl.GrowthTree

/-! What a policy tree makes of its frontier: the actions that it enables, the ones that it
uses because they were enabled, and where it first does so. One list of witnesses grows along
the walk; a branch refers to them by position. -/
namespace CollectivePhaseControl

variable (hash : Hashing)

structure GrowthActivationWitness where
  activation : GrowthActivation
  carriedFromInitialFrontier : Bool
  firstPolicyNodeUsingActivation : Option Digest
  policyPath : List Identifier
  continuationUse : Bool
  verificationCapacityEffect : Bool
deriving DecidableEq

structure GrowthFrontierDiagnostics where
  newlyEnabledActionIds : List Identifier
  actionsUsedAfterActivation : List Identifier
  maximumActivationDepth : ℕ
  endogenousFrontierUsed : Bool
  continuationDependsOnFrontier : Bool
  recursiveActivationUsed : Bool
  verificationCapacityContribution : Bool
  witnesses : List GrowthActivationWitness
deriving DecidableEq

def GrowthFrontierDiagnostics.validate (d : GrowthFrontierDiagnostics) :
    Checked GrowthFrontierDiagnostics :=
  if d.newlyEnabledActionIds.length ≤ 16 ∧ d.actionsUsedAfterActivation.length ≤ 16 ∧
      d.maximumActivationDepth ≤ 16 ∧ d.witnesses.length ≤ 65536 then .ok d
  else .error (.crash .validationError)

def firstNamed (objects : Objects) (actionId : Identifier) : List GrowthAction → Checked GrowthAction
  | [] => .error (.crash .stopIteration)
  | recipe :: rest => do
    let action ← actionDocument objects recipe.actionDigest
    if action.actionId = actionId then pure recipe else firstNamed objects actionId rest

structure FrontierTrace where
  enabled : List Identifier
  used : List Identifier
  witnesses : List GrowthActivationWitness

/-- `dict[str, int]`: where the record of an action is among the witnesses. -/
abbrev Indices := List (Identifier × ℕ)

def contributes (s : GrowthState) (recipe : GrowthAction) : Bool :=
  (successors s recipe).any fun e => (e.capacityDelta["verification"]?).any fun d => 0 < F d.lower

/-- A use of an enabled action is noted in its witness; the first node and path are kept. -/
def GrowthActivationWitness.useAt (w : GrowthActivationWitness) (node : Digest)
    (path : List Identifier) (continuation effective : Bool) : GrowthActivationWitness :=
  { w with
    firstPolicyNodeUsingActivation := w.firstPolicyNodeUsingActivation <|> some node
    policyPath := if w.firstPolicyNodeUsingActivation.isSome then w.policyPath else path
    continuationUse := w.continuationUse || continuation
    verificationCapacityEffect := w.verificationCapacityEffect || effective }

def noteUse (trace : FrontierTrace) (indices : Indices) (actionId : Identifier) (node : Digest)
    (path : List Identifier) (continuation effective : Bool) : FrontierTrace :=
  match indices.lookup actionId with
  | none => trace
  | some i =>
    { trace with
      used := actionId :: trace.used
      witnesses := trace.witnesses.modify i (·.useAt node path continuation effective) }

/-- The records of a ledger that have no witness yet get one. -/
def noteEnabled : List GrowthActivation → FrontierTrace × Indices → FrontierTrace × Indices
  | [], traced => traced
  | event :: rest, (trace, indices) =>
    if (indices.lookup event.actionId).isSome then noteEnabled rest (trace, indices)
    else noteEnabled rest
      ({ trace with
          enabled := event.actionId :: trace.enabled
          witnesses := trace.witnesses ++ [⟨event, false, none, [], false, false⟩] },
        (event.actionId, trace.witnesses.length) :: indices)

def facetOf (s : GrowthState) : Checked FrontierFacet := demand .attributeError s.frontier

/-- The closure of `diagnostics`; `fuel` bounds the depth of the tree. -/
def traceWalk (contract : GrowthContract) (objects : Objects) (frontier : GrowthCapabilityFrontier) :
    ℕ → GrowthPolicyNode → GrowthState → List Identifier → Bool → Indices → FrontierTrace →
      Checked FrontierTrace
  | 0, _, _, _, _, _, _ => .error (.crash .diverges)
  | fuel + 1, node, s, path, continuation, indices, trace => do
    let continuation := continuation || node.entry
    match node.actionId with
    | none => pure trace
    | some actionId =>
      let recipe ← firstNamed objects actionId contract.spec.actionCatalogue
      let trace := noteUse trace indices actionId (hash.node node) path continuation
        (contributes s recipe)
      (successors s recipe).foldlM (fun trace effect => do
        let next ← transition hash contract s recipe effect objects (some frontier)
        let facet ← facetOf next
        let (trace, indices) := noteEnabled facet.activationLineage (trace, indices)
        let child ← demand .keyError (node.branches.lookup effect.successorId)
        traceWalk contract objects frontier fuel child next (path ++ [effect.successorId])
          continuation indices trace) trace

def carriedWitnesses (frontier : GrowthCapabilityFrontier) : List GrowthActivationWitness :=
  (sortedLineage frontier.spec.initialActivationLineage).map fun event =>
    ⟨event, true, none, [], false, false⟩

/-- `{action_id: i for i, w in enumerate(witnesses)}`: the last position of an action wins. -/
def positions (witnesses : List GrowthActivationWitness) : Indices :=
  ((witnesses.map (·.activation.actionId)).zip (List.range witnesses.length)).reverse

def FrontierTrace.report (trace : FrontierTrace) : GrowthFrontierDiagnostics where
  newlyEnabledActionIds := sortedSet trace.enabled
  actionsUsedAfterActivation := sortedSet trace.used
  maximumActivationDepth := maximumDepth (trace.witnesses.map (·.activation))
  endogenousFrontierUsed := !trace.used.isEmpty
  continuationDependsOnFrontier := trace.witnesses.any (·.continuationUse)
  recursiveActivationUsed :=
    trace.witnesses.any fun w => decide (w.activation.producerActionId ∈ trace.used)
  verificationCapacityContribution := trace.witnesses.any (·.verificationCapacityEffect)
  witnesses := trace.witnesses

def diagnostics (contract : GrowthContract) (objects : Objects) (frontier : GrowthCapabilityFrontier)
    (root : Option GrowthPolicyNode) : Checked GrowthFrontierDiagnostics := do
  let witnesses := carriedWitnesses frontier
  let trace ← match root with
    | none => pure ⟨[], [], witnesses⟩
    | some node => do
      let start ← initialState hash contract (some frontier)
      traceWalk hash contract objects frontier (contract.spec.maxDecisions + 1) node start [] false
        (positions witnesses) ⟨[], [], witnesses⟩
  trace.report.validate

end CollectivePhaseControl
