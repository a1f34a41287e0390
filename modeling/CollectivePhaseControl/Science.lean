import CollectivePhaseControl.AuthorityTrust
import CollectivePhaseControl.Coordination
import CollectivePhaseControl.ServiceCurves
import CollectivePhaseControl.StructuralAnalysis

/-! The dimensions of a snapshot's audit. Provenance selects the objects that the snapshot
references; every other dimension reads only these, in the order of their digests. -/
namespace CollectivePhaseControl

structure AuditServices extends Authority where
  proposalCommitmentDigest :
    (sessionId proposalId actorPrincipalId : Identifier) → (artifactDigest : Digest) → Digest

def lift {α : Type} (x : Checked α) : Analysis α :=
  match x with
  | .ok a => pure a
  | .error fault => throw fault

theorem yields_lift {α : Type} (x : Checked α) : Yields (lift x) fun a => x = .ok a := by
  cases x with
  | ok a => exact yields_pure rfl
  | error fault => exact yields_throw fault

/-- `_live`. -/
def Lifecycle.live (lifecycle : Lifecycle) (time : DateTime) : Checked Bool := do
  let begun ← lifecycle.validFrom.le time
  let valid ← if begun = true then time.le lifecycle.validUntil else pure false
  match lifecycle.withdrawnAt with
  | some withdrawnAt => if valid = true then time.lt withdrawnAt else pure false
  | none => pure valid

namespace DocumentSpec

def state? : DocumentSpec → Option StateSpec
  | state spec => some spec
  | _ => none

def resource? : DocumentSpec → Option ResourceObservationSpec
  | resourceObservation spec => some spec
  | _ => none

def supply? : DocumentSpec → Option SupplySpec
  | supply spec => some spec
  | _ => none

def transformation? : DocumentSpec → Option TransformationSpec
  | transformation spec => some spec
  | _ => none

def rate? : DocumentSpec → Option RateObservationSpec
  | rateObservation spec => some spec
  | _ => none

def stage? : DocumentSpec → Option VerifierStageSpec
  | verifierStage spec => some spec
  | _ => none

def curve? : DocumentSpec → Option ServiceCurveSpec
  | serviceCurve spec => some spec
  | _ => none

def independence? : DocumentSpec → Option IndependenceSpec
  | independence spec => some spec
  | _ => none

def exposures? : DocumentSpec → Option ExposureLedgerSpec
  | exposureLedger spec => some spec
  | _ => none

def organization? : DocumentSpec → Option OrganizationSpec
  | organizationWitness spec => some spec
  | _ => none

def persistencePlan? : DocumentSpec → Option PersistencePlanSpec
  | persistencePlan spec => some spec
  | _ => none

def suite? : DocumentSpec → Option PerturbationSuiteSpec
  | perturbationSuite spec => some spec
  | _ => none

def decision? : DocumentSpec → Option QuorumDecisionSpec
  | quorumDecision spec => some spec
  | _ => none

end DocumentSpec

variable {σ : Type}

/-- `_typed`, each object with its specification. -/
def typed (objects : Objects) (kind : DocumentSpec → Option σ) : List (Document × σ) :=
  objects.values.filterMap fun item => (kind item.spec).map (item, ·)

def keepLive (lifecycle : σ → Lifecycle) (time : DateTime) (kept : List (Document × σ))
    (item : Document × σ) : Checked (List (Document × σ)) := do
  let live ← (lifecycle item.2).live time
  pure (if live = true then kept ++ [item] else kept)

def liveTyped (objects : Objects) (kind : DocumentSpec → Option σ) (lifecycle : σ → Lifecycle)
    (time : DateTime) : Checked (List (Document × σ)) :=
  (typed objects kind).foldlM (keepLive lifecycle time) []

def mandatoryDimensions : List Identifier :=
  ["provenance_integrity", "trust_quorum", "temporal_integrity", "structural_reachability",
    "causal_formation", "dimensional_consistency", "exact_self_maintenance",
    "finite_horizon_resource_persistence", "target_bound_generative_catalysis",
    "verification_capacity", "effective_independence", "coordination_protocol_integrity",
    "perturbation_robustness"]

def snapshotReferences (spec : SnapshotSpec) : List Digest :=
  spec.objectDigests ++ spec.witnessDigests ++
    [spec.contractDigest, spec.trustPolicyDigest, spec.trustedTimeReceiptDigest,
      spec.unitRegistryDigest]

def typedIdentity (item : Document) : Option (Identifier × Identifier) :=
  match item.spec with
  | .state spec => some (item.spec.kind, spec.stateId)
  | .resourceObservation spec => some (item.spec.kind, spec.coordinate)
  | .supply spec => some (item.spec.kind, spec.supplyId)
  | .transformation spec => some (item.spec.kind, spec.transformationId)
  | .authority spec => some (item.spec.kind, spec.authorityId)
  | .evidence spec => some (item.spec.kind, spec.evidenceId)
  | .verifierStage spec => some (item.spec.kind, spec.stageId)
  | .rateObservation spec => some (item.spec.kind, spec.transformationId)
  | .independence spec => some (item.spec.kind, spec.domainId)
  | _ => none

def duplicateIdentities : List (Identifier × Identifier) → List Document → List String
  | _, [] => []
  | seen, item :: rest =>
    match typedIdentity item with
    | none => duplicateIdentities seen rest
    | some identity =>
      if identity ∈ seen then
        ("duplicate_typed_identity:" ++ identity.1 ++ ":" ++ identity.2) ::
          duplicateIdentities seen rest
      else duplicateIdentities (identity :: seen) rest

section provenance
variable (h : AuditServices) (snapshot : AnalysisSnapshot) (allObjects : Objects)

/-- A digest over the snapshot without its own basis digest and its witnesses. -/
def analysisBasisDigest : Digest :=
  let spec := snapshot.spec
  h.document ((⟨snapshot.metadata, snapshot.extensions, { spec with
    analysisBasisDigest := String.ofList ("sha256:".toList ++ List.replicate 64 '0')
    witnessDigests := []
    objectDigests := spec.objectDigests.mergeSort
    targetIds := spec.targetIds.mergeSort
    requiredDimensions := spec.requiredDimensions.mergeSort }⟩ :
      AnalysisSnapshot).document .analysisSnapshot)

def referenceReasons (digest : Digest) (item : Document) : List String :=
  reasonIf (h.document item ≠ digest) ("digest_mismatch:" ++ digest) ++
    reasonIf (item.metadata.tenantId ≠ snapshot.metadata.tenantId) ("tenant_mismatch:" ++ digest) ++
    reasonIf (item.metadata.workspaceId ≠ snapshot.metadata.workspaceId)
      ("workspace_mismatch:" ++ digest)

/-- What is wrong with a reference, and the object when nothing is. -/
def reference (digest : Digest) : List String × Option (Digest × Document) :=
  match allObjects[digest]? with
  | none => (["missing:" ++ digest], none)
  | some item =>
    let reasons := referenceReasons h snapshot digest item
    (reasons, if reasons = [] then some (digest, item) else none)

def contractReasons : List String :=
  match allObjects[snapshot.spec.contractDigest]? with
  | some ⟨_, _, .phaseContract spec⟩ =>
    reasonIf (spec.targetIds.toFinset ≠ snapshot.spec.targetIds.toFinset ∨
      spec.protectedFloors ≠ snapshot.spec.protectedFloors ∨
      spec.requiredDimensions.toFinset ≠ snapshot.spec.requiredDimensions.toFinset ∨
      spec.minimumIndependentDomains ≠ snapshot.spec.minimumIndependentDomains)
      "snapshot_contract_binding_mismatch"
  | _ => ["phase_contract_missing"]

/-- The objects that the snapshot references and that are what it says. -/
def liveObjects : Objects :=
  .ofList ((snapshotReferences snapshot.spec).filterMap fun digest =>
    (reference h snapshot allObjects digest).2)

def provenanceReasons : List String :=
  (snapshotReferences snapshot.spec).flatMap (fun digest =>
      (reference h snapshot allObjects digest).1) ++
    duplicateIdentities [] (liveObjects h snapshot allObjects).values ++
    reasonIf (¬ ∀ name ∈ mandatoryDimensions, name ∈ snapshot.spec.requiredDimensions)
      "mandatory_security_or_science_dimension_disabled" ++
    contractReasons snapshot allObjects ++
    reasonIf (snapshot.spec.analysisBasisDigest ≠ analysisBasisDigest h snapshot)
      "analysis_basis_digest_mismatch"

def verdict (blockers evidence : List String) (detail : String) : Checked DimensionResult :=
  dimensionResult (if blockers = [] then .satisfied else .violated) blockers evidence detail

def finding (status : ProfileStatus) (blockers : List String) : Checked DimensionResult :=
  dimensionResult status blockers [] ""

def provenance : Checked (DimensionResult × Objects) := do
  let live := liveObjects h snapshot allObjects
  let result ← verdict (provenanceReasons h snapshot allObjects) live.keys ""
  pure (result, live)

end provenance

section integrity
variable (h : AuditServices) (snapshot : AnalysisSnapshot) (objects : Objects)

def temporal (evaluationAt : Option DateTime) :
    Checked (DimensionResult × Option DateTime) := do
  match objects[snapshot.spec.trustedTimeReceiptDigest]? with
  | some ⟨metadata, extensions, .trustedTimeReceipt spec⟩ =>
    let time := evaluationAt.getD spec.issuedAt
    let reversed ← spec.validUntil.lt spec.issuedAt
    if reversed = true then
      let result ← finding .violated ["trusted_time_interval_invalid"]
      pure (result, none)
    else
      let early ← time.lt spec.issuedAt
      let late ← if early = true then pure true else spec.validUntil.lt time
      if late = true then
        let result ← finding .violated ["evaluation_time_outside_trusted_receipt"]
        pure (result, none)
      else
        let result ← dimensionResult .satisfied []
          [h.document ⟨metadata, extensions, .trustedTimeReceipt spec⟩] ""
        pure (result, some time)
  | _ =>
    let result ← finding .violated ["trusted_time_receipt_missing"]
    pure (result, none)

def trust : Checked DimensionResult :=
  match objects[snapshot.spec.trustPolicyDigest]? with
  | some ⟨metadata, extensions, .trustPolicy spec⟩ => do
    let reasons ← h.toAuthority.validatePolicy ⟨metadata, extensions, spec⟩
    let decisions := typed objects DocumentSpec.decision?
    verdict (reasons ++ reasonIf (decisions = []) "no_role_quorum_decision_in_snapshot")
      (h.document ⟨metadata, extensions, .trustPolicy spec⟩ ::
        decisions.map fun item => h.document item.1) ""
  | _ => finding .violated ["trust_policy_missing"]

end integrity

structure AvailableSets where
  available : Finset Identifier
  food : Finset Identifier
  evidence : Finset Identifier
  authority : Finset Identifier

/-- An object is booked under what it attests, if it is live. -/
def AvailableSets.book (time : DateTime) (sets : AvailableSets) (item : Document) :
    Analysis AvailableSets := do
  match item.spec with
  | .state spec =>
    let live ← lift (spec.lifecycle.live time)
    pure (if live = true ∧ spec.available = true then
      { sets with
        available := insert spec.stateId sets.available
        food := if spec.food = true then insert spec.stateId sets.food else sets.food }
      else sets)
  | .resourceObservation spec =>
    let live ← lift (spec.lifecycle.live time)
    if live = true then
      let quantity ← rational spec.quantity
      pure (if 0 < quantity then
        { sets with
          available := insert spec.coordinate sets.available
          food := insert spec.coordinate sets.food }
        else sets)
    else pure sets
  | .evidence spec =>
    let live ← lift (spec.lifecycle.live time)
    pure (if live = true then
      { sets with
        evidence := insert spec.evidenceId sets.evidence
        available := insert spec.evidenceId sets.available }
      else sets)
  | .authority spec =>
    let live ← lift (spec.lifecycle.live time)
    pure (if live = true then
      { sets with
        authority := insert spec.authorityId sets.authority
        available := insert spec.authorityId sets.available }
      else sets)
  | _ => pure sets

def availableSets (objects : Objects) (time : DateTime) : Analysis AvailableSets :=
  objects.values.foldlM (AvailableSets.book time) ⟨∅, ∅, ∅, ∅⟩

def transformations (objects : Objects) (time : DateTime) : Analysis Network := do
  let live ← lift (liveTyped objects DocumentSpec.transformation? TransformationSpec.lifecycle time)
  pure (.ofList (live.map fun item => (item.2.transformationId,
    (⟨item.1.metadata, item.1.extensions, item.2⟩ : TransformationAttestation))))

section reachability
variable (snapshot : AnalysisSnapshot) (objects : Objects) (time : DateTime)

def organizationWitness : Option (Document × OrganizationSpec) :=
  match (typed objects DocumentSpec.organization?).filter fun item =>
    item.2.analysisSnapshotDigest == snapshot.spec.analysisBasisDigest with
  | [witness] => some witness
  | _ => none

def missingTargets (available : Finset Identifier) : List Identifier :=
  (snapshot.spec.targetIds.filter (· ∉ available)).dedup.mergeSort

/-- The closure that reachability is judged by: it follows every listed coordinate. -/
def auditClosure : Analysis (Finset Identifier) := do
  let sets ← availableSets objects time
  let network ← transformations objects time
  closureOf (network.toList.map (listedFlows ·.2)) sets.available

def structural : Analysis DimensionResult := do
  let closure ← auditClosure objects time
  lift (verdict ((missingTargets snapshot closure).map ("unreachable_target:" ++ ·)) [] "")

def witnessed (witness : OrganizationSpec) (network : Network) :
    List (Identifier × TransformationAttestation) × List Identifier :=
  (network.toList.filter (·.1 ∈ witness.transformationIds),
    (witness.transformationIds.filter (· ∉ network)).dedup.mergeSort)

/-- A pass over the transformations that have not taken place. -/
def formationLayer (sets : AvailableSets) (available : Finset Identifier)
    (remaining : List (Identifier × TransformationAttestation)) :
    Analysis (List (Identifier × TransformationAttestation)) :=
  remaining.foldlM (fun enabled item => do
    spend 1
    pure (if (listedFlows item.2).premises ⊆ available ∧
        licensed item.2.spec available sets.evidence sets.authority = true then enabled ++ [item]
      else enabled)) []

def maximumLayers : ℕ := 10000

/-- `while remaining`: what is available in the end, and whether something remains. -/
def formationLayers (sets : AvailableSets) : ℕ → ℕ → Finset Identifier →
    List (Identifier × TransformationAttestation) → Analysis (Finset Identifier × Bool)
  | 0, _, _, _ => throw (.crash .diverges)
  | n + 1, layers, available, remaining =>
    if remaining = [] then pure (available, false)
    else do
      let enabled ← formationLayer sets available remaining
      if enabled = [] then pure (available, true)
      else if maximumLayers < layers + 1 then throw analysisBudgetExceeded
      else
        formationLayers sets n (layers + 1)
          (enabled.foldl (fun available item => available ∪ (listedFlows item.2).conclusions)
            available)
          (remaining.filter (fun item => item.1 ∉ enabled.map Prod.fst))

def formation : Analysis DimensionResult := do
  match organizationWitness snapshot objects with
  | none => lift (finding .unknown ["snapshot_bound_organization_required_for_formation"])
  | some witness =>
    let sets ← availableSets objects time
    let network ← transformations objects time
    let (present, absent) := witnessed witness.2 network
    if absent ≠ [] then
      lift (finding .violated (absent.map ("formation_transformation_missing:" ++ ·)))
    else
      let (available, deadlocked) ← formationLayers sets (present.length + 1) 0 sets.available
        present
      let missing := missingTargets snapshot available
      lift (verdict (missing.map ("causally_unformed_target:" ++ ·) ++
        reasonIf (missing ≠ [] ∧ deadlocked = true) "strict_prior_formation_deadlock") [] "")

end reachability

end CollectivePhaseControl
