import CollectivePhaseControl.FiringSystems
import CollectivePhaseControl.GrowthLedger
import CollectivePhaseControl.LegacyNetworks
import CollectivePhaseControl.RunnerReceipts

/-! Closures of the v0.1 and v0.2 networks. Both are worklists over a system whose
transformations fire once each; inhibitors are tested against what is there so far. -/
namespace CollectivePhaseControl
open Firing.System (turns)
namespace Legacy

/-- Members with a single value; a set membership test of the source accepts no others. -/
inductive Scalar where
  | null
  | bool (value : Bool)
  | int (value : ℤ)
  | str (value : String)
deriving DecidableEq, Repr

namespace Scalar

/-- `value is True`. -/
def isTrue : Scalar → Bool
  | .bool value => value
  | _ => false

/-- `value in {...}`. -/
def isIn (texts : List String) : Scalar → Bool
  | .str value => texts.contains value
  | _ => false

/-- `str(value)`. -/
def text : Scalar → String
  | .null => "None"
  | .bool true => "True"
  | .bool false => "False"
  | .int value => toString value
  | .str value => value

/-- Values that are equal have one key; truth values equal the numbers one and zero. -/
def key : Scalar → Scalar
  | .bool value => .int value.toNat
  | value => value

end Scalar

inductive TruthStatus where
  | true | false | unknown
deriving DecidableEq, Repr

def validLifecycle : List String := ["valid", "active"]
def invalidLifecycle : List String := ["expired", "revoked", "deprecated"]

def tri (value : Scalar) : TruthStatus :=
  if value = .bool true ∨ value = .str "true" ∨ value = .str "valid" then .true
  else if value = .bool false ∨ value = .str "false" ∨ value.isIn invalidLifecycle then .false
  else .unknown

/-- The members of a node that the closures read. -/
structure Node where
  nodeId : Identifier
  type : String
  lifecycleStatus : Scalar := .null
  available : Scalar := .null
  verifierRole : Scalar := .null
  digest : Scalar := .null
  sourceEvent : Scalar := .null
  lineage : Scalar := .null
deriving DecidableEq

/-- The members of a transformation that the closures read. -/
structure Edge where
  transformationId : Identifier
  schemaVersion : Scalar := .null
  sourceBackedRuntime : Scalar := .null
  schemaValid : Scalar := .null
  effectClass : Scalar := .null
  authorityStatus : Scalar := .null
  requiredAuthorityRefs : Json := .null
  hazardStatus : Scalar := .null
  lifecycleStatus : Scalar := .null
  sourceVersionSupported : Scalar := .null
  outputContractStatus : Scalar := .null
  inhibitors : Json := .null
  requiredInputs : Json := .null
  readEnablers : Json := .null
  producedOutputs : Json := .null
  requiredEvidence : Json := .null
  requiredVerifierRoles : Json := .null
  blockingResidualHidden : Scalar := .null
  selfIssuedEvidenceOnly : Scalar := .null
  protectedFloorViolation : Scalar := .null

structure Document where
  nodes : List Node
  transformations : List Edge

structure Contract where
  initialAvailableStates : Json := .null

/-- Sets of the source that it sorts are held as sets. -/
structure ClosureResult where
  availableStates : Finset Identifier
  appliedTransformations : Finset Identifier
  blocked : List (Identifier × List String)
deriving DecidableEq

/-- Items by identifier; a second item of one identifier raises. -/
def index {α : Type} (identifier : α → Identifier) (items : List α) : Checked (Dict α) :=
  if (items.map identifier).Nodup then .ok (.ofList (items.map fun item => (identifier item, item)))
  else .error (.crash .valueError)

def nodeIndex (network : Document) : Checked (Dict Node) := index Node.nodeId network.nodes

def transformationIndex (network : Document) : Checked (Dict Edge) :=
  index Edge.transformationId network.transformations

def Node.alive (node : Node) : Bool := node.lifecycleStatus.isIn validLifecycle

/-- `initial_states`, of indexed nodes. -/
def initialStates (contract : Contract) (nodes : Dict Node) : Finset Identifier :=
  let declared := idSet contract.initialAvailableStates
  let explicitlyAvailable := nodes.keys.toFinset.filter fun id =>
    (nodes[id]?).any fun node => node.available.isTrue && node.alive
  ((declared ∪ explicitlyAvailable) ∩ nodes.keys.toFinset).filter fun id =>
    (nodes[id]?).any Node.alive

def baseEdgeBlockers (edge : Edge) (available : Finset Identifier) (nodes : Dict Node) :
    List String :=
  let outputs := idSet edge.producedOutputs
  reasonIf (edge.schemaVersion = .str "0.2.0" ∧ edge.sourceBackedRuntime.isTrue = false)
    "source_projection_receipt_missing_or_invalid" ++
  reasonIf (edge.schemaValid.isTrue = false) "schema_invalid_or_unknown" ++
  reasonIf (edge.effectClass = .str "external_effect") "external_effect_rejected" ++
  reasonIf (edge.effectClass.isIn ["inspect", "validate", "plan", "local_write"] = false)
    "unknown_effect_class" ++
  reasonIf (tri edge.authorityStatus ≠ .true ∧ idSet edge.requiredAuthorityRefs ≠ ∅)
    "authority_invalid_or_unknown" ++
  reasonIf (tri edge.hazardStatus ≠ .true) "hazard_invalid_or_unknown" ++
  reasonIf (tri edge.lifecycleStatus ≠ .true) "lifecycle_invalid_or_unknown" ++
  reasonIf (tri edge.sourceVersionSupported ≠ .true) "source_version_unsupported_or_unknown" ++
  reasonIf (tri edge.outputContractStatus ≠ .true) "output_contract_unknown" ++
  reasonIf (idSet edge.inhibitors ∩ available ≠ ∅) "active_inhibitor" ++
  reasonIf (¬ idSet edge.requiredInputs ∪ idSet edge.readEnablers ⊆ available)
    "missing_input_closure" ++
  if ¬ outputs ⊆ nodes.keys.toFinset then ["output_state_missing"]
  else reasonIf (∃ output ∈ outputs, (nodes[output]?).any Node.alive = false)
    "output_lifecycle_invalid_or_unknown"

/-- The loop of `feasible_closure`. -/
def feasibleLoop (transformations : Dict Edge) (nodes : Dict Node) : ℕ → List Identifier →
    Finset Identifier → Finset Identifier → Checked (Finset Identifier × Finset Identifier)
  | 0, _, _, _ => .error (.crash .diverges)
  | _ + 1, [], available, applied => .ok (available, applied)
  | n + 1, transformationId :: pending, available, applied =>
    if transformationId ∈ applied then
      feasibleLoop transformations nodes n pending available applied
    else do
      let edge ← transformations.item transformationId
      let outputs := idSet edge.producedOutputs
      let more := insert transformationId applied
      if baseEdgeBlockers edge available nodes ≠ [] then
        feasibleLoop transformations nodes n pending available applied
      else if outputs ⊆ available then
        feasibleLoop transformations nodes n pending available more
      else
        feasibleLoop transformations nodes n (pending ++ transformations.keys.filter (· ∉ more))
          (available ∪ outputs) more

def blockedReport (blockers : Edge → List String) (transformations : Dict Edge)
    (ids : List Identifier) : List (Identifier × List String) :=
  ids.filterMap fun id => (transformations[id]?).map fun edge => (id, blockers edge)

def feasibleClosure (contract : Contract) (network : Document) : Checked ClosureResult := do
  let nodes ← nodeIndex network
  let transformations ← transformationIndex network
  let keys := transformations.keys
  let (available, applied) ← feasibleLoop transformations nodes (turns keys.length) keys
    (initialStates contract nodes) ∅
  pure {
    availableStates := available
    appliedTransformations := applied
    blocked := blockedReport (baseEdgeBlockers · available nodes) transformations
      (keys.filter (· ∉ applied)) }

def evidenceTypes : List String := ["evidence", "verifier_report", "external_certificate"]

def supportNodes (edge : Edge) (nodes : Dict Node) : List Node :=
  (nodes.keys.filter (· ∈ idSet edge.requiredEvidence)).filterMap fun id => nodes[id]?

def duplicateSupport (support : List Node) (value : Node → Scalar) : Prop :=
  ¬ (((support.map value).filter (· ≠ .null)).map Scalar.key).Nodup

instance decidableDuplicateSupport (support : List Node) (value : Node → Scalar) :
    Decidable (duplicateSupport support value) :=
  inferInstanceAs (Decidable (¬ _))

def availableEvidence (available : Finset Identifier) (nodes : Dict Node) : Finset Identifier :=
  available.filter fun id => (nodes[id]?).any fun node => evidenceTypes.contains node.type

def availableRoles (available : Finset Identifier) (nodes : Dict Node) : Finset String :=
  (available.filter fun id => (nodes[id]?).any fun node => node.type == "verifier_report").image
    fun id => (nodes[id]?).elim "" fun node => node.verifierRole.text

def verifiedEdgeBlockers (edge : Edge) (available : Finset Identifier) (nodes : Dict Node) :
    List String :=
  let evidence := idSet edge.requiredEvidence
  let roles := idSet edge.requiredVerifierRoles
  let support := supportNodes edge nodes
  sortedSet (baseEdgeBlockers edge available nodes ++
    reasonIf (evidence = ∅) "evidence_missing" ++
    reasonIf (evidence ≠ ∅ ∧ ¬ evidence ⊆ availableEvidence available nodes) "evidence_missing" ++
    reasonIf (roles ≠ ∅ ∧ ¬ roles ⊆ availableRoles available nodes) "verifier_missing" ++
    reasonIf (edge.blockingResidualHidden.isTrue = true) "blocking_residual_hidden" ++
    reasonIf (edge.selfIssuedEvidenceOnly.isTrue = true) "self_issued_evidence_only" ++
    reasonIf (edge.protectedFloorViolation.isTrue = true) "protected_floor_violation" ++
    reasonIf (duplicateSupport support Node.digest) "duplicate_digest_support" ++
    reasonIf (duplicateSupport support Node.sourceEvent) "duplicate_source_event_support" ++
    reasonIf (duplicateSupport support Node.lineage) "duplicate_lineage_support" ++
    reasonIf (∃ node ∈ support, node.alive = false) "stale_dependency")

/-- The loop of `verified_closure`, which may take an applied transformation again. -/
def verifiedLoop (transformations : Dict Edge) (nodes : Dict Node)
    (feasibleEdges : List Identifier) : ℕ → List Identifier → Finset Identifier →
    Finset Identifier → Checked (Finset Identifier × Finset Identifier)
  | 0, _, _, _ => .error (.crash .diverges)
  | _ + 1, [], available, applied => .ok (available, applied)
  | n + 1, transformationId :: pending, available, applied => do
    let edge ← transformations.item transformationId
    let outputs := idSet edge.producedOutputs
    let more := insert transformationId applied
    if verifiedEdgeBlockers edge available nodes ≠ [] then
      verifiedLoop transformations nodes feasibleEdges n pending available applied
    else
      verifiedLoop transformations nodes feasibleEdges n
        (if outputs ⊆ available then pending else pending ++ feasibleEdges.filter (· ∉ more))
        (available ∪ outputs) more

def verifiedClosure (contract : Contract) (network : Document)
    (feasible : Option ClosureResult) : Checked ClosureResult := do
  let feasibleResult ← feasible.elim (feasibleClosure contract network) pure
  let nodes ← nodeIndex network
  let transformations ← transformationIndex network
  let feasibleEdges := feasibleResult.appliedTransformations.sort (· ≤ ·)
  let (available, applied) ← verifiedLoop transformations nodes feasibleEdges
    (turns feasibleEdges.length) feasibleEdges (initialStates contract nodes) ∅
  pure {
    availableStates := available
    appliedTransformations := applied
    blocked := blockedReport (verifiedEdgeBlockers · available nodes) transformations
      (feasibleEdges.filter (· ∉ applied)) }

end Legacy
end CollectivePhaseControl
