import CollectivePhaseControl.ScienceAudits

/-! Counterfactual snapshots. A scenario's selectors remove objects of the baseline, its
replacements add others, and the reduced snapshot is audited by the same kernel. -/
namespace CollectivePhaseControl

inductive Selector where
  | principal | key | sourceSystem | state | transformation | resourceCoordinate | supply
  | rateTransformation | catalyst | inhibitor | verifierStage | infrastructure
  | coordinationSession | independenceDomain
deriving DecidableEq, Repr

namespace Selector

def label : Selector → String
  | principal => "principal"
  | key => "key"
  | sourceSystem => "source_system"
  | state => "state"
  | transformation => "transformation"
  | resourceCoordinate => "resource_coordinate"
  | supply => "supply"
  | rateTransformation => "rate_transformation"
  | catalyst => "catalyst"
  | inhibitor => "inhibitor"
  | verifierStage => "verifier_stage"
  | infrastructure => "infrastructure"
  | coordinationSession => "coordination_session"
  | independenceDomain => "independence_domain"

def all : List Selector :=
  [principal, key, sourceSystem, state, transformation, resourceCoordinate, supply,
    rateTransformation, catalyst, inhibitor, verifierStage, infrastructure, coordinationSession,
    independenceDomain]

end Selector

namespace PerturbationScenario

def requested (scenario : PerturbationScenario) : Selector → List Identifier
  | .principal => scenario.removePrincipalIds
  | .key => scenario.removeKeyIds
  | .sourceSystem => scenario.removeSourceSystems
  | .state => scenario.removeStateIds
  | .transformation => scenario.removeTransformationIds
  | .resourceCoordinate => scenario.removeResourceCoordinates
  | .supply => scenario.removeSupplyIds
  | .rateTransformation => scenario.removeRateTransformationIds
  | .catalyst => scenario.removeCatalystIds
  | .inhibitor => scenario.removeInhibitorIds
  | .verifierStage => scenario.removeVerifierStageIds
  | .infrastructure => scenario.removeInfrastructureDomains
  | .coordinationSession => scenario.removeCoordinationSessionIds
  | .independenceDomain => scenario.removeIndependenceDomains

end PerturbationScenario

section removal
variable (scenario : PerturbationScenario)

abbrev Selection := Selector × Identifier

def pick (selector : Selector) (value : Identifier) : List Selection :=
  if value ∈ scenario.requested selector then [(selector, value)] else []

def pickAll (selector : Selector) (values : List Identifier) : List Selection :=
  ((scenario.requested selector).filter (· ∈ values)).map (selector, ·)

def TransformationSpec.catalysts (spec : TransformationSpec) : List Identifier :=
  spec.catalystClauses.flatten

def transformationRemovals (spec : TransformationSpec) : List Selection :=
  pick scenario .transformation spec.transformationId ++
    pickAll scenario .state (spec.coordinates ++ spec.catalysts ++ spec.inhibitors) ++
    pickAll scenario .resourceCoordinate spec.coordinates

def transformationNotes (spec : TransformationSpec) : List Selection :=
  pick scenario .rateTransformation spec.transformationId ++
    pickAll scenario .inhibitor (spec.inhibitors ++ spec.outputs.keys) ++
    pickAll scenario .catalyst (spec.catalysts ++ spec.outputs.keys)

def losesCatalysis (spec : TransformationSpec) : Bool :=
  pickAll scenario .catalyst (spec.catalysts ++ spec.outputs.keys) != [] &&
    (!(spec.catalystClauses.any fun clause => clause.all (· ∉ scenario.removeCatalystIds)) ||
      spec.outputs.keys.any (· ∈ scenario.removeCatalystIds))

def removesTransformation (spec : TransformationSpec) : Bool :=
  transformationRemovals scenario spec != [] ||
    spec.outputs.keys.any (· ∈ scenario.removeInhibitorIds) || losesCatalysis scenario spec

/-- What an object of another kind matches; it is removed for any of it. -/
def objectSelections : DocumentSpec → List Selection
  | .trustPolicy spec => spec.principals.flatMap fun principal =>
      pick scenario .principal principal.principalId ++ pick scenario .key principal.keyId ++
        pick scenario .infrastructure principal.infrastructureDomain
  | .sourceArtifactEnvelope spec => pick scenario .sourceSystem spec.sourceSystem
  | .state spec => pick scenario .state spec.stateId ++ pick scenario .catalyst spec.stateId ++
      pick scenario .inhibitor spec.stateId
  | .resourceObservation spec => pick scenario .resourceCoordinate spec.coordinate
  | .supply spec => pick scenario .supply spec.supplyId ++
      pick scenario .resourceCoordinate spec.coordinate
  | .rateObservation spec => pick scenario .rateTransformation spec.transformationId
  | .verifierStage spec => pick scenario .verifierStage spec.stageId ++
      pick scenario .independenceDomain spec.independenceDomain
  | .independence spec => pick scenario .independenceDomain spec.domainId ++
      pick scenario .infrastructure spec.infrastructureDomain ++
      pick scenario .principal spec.principalId ++ pick scenario .key spec.keyId
  | .coordinationPlan spec => pick scenario .coordinationSession spec.sessionId
  | .coordinationEvent spec => pick scenario .coordinationSession spec.sessionId
  | .coordinationSession sessionId => pick scenario .coordinationSession sessionId
  | _ => []

def selections : DocumentSpec → List Selection
  | .transformation spec => transformationRemovals scenario spec ++ transformationNotes scenario spec
  | spec => objectSelections scenario spec

def removes : DocumentSpec → Bool
  | .transformation spec => removesTransformation scenario spec
  | spec => objectSelections scenario spec != []

/-- The raw artifact of an envelope whose source system is lost. -/
def removedRawArtifact : DocumentSpec → Option Digest
  | .sourceArtifactEnvelope spec =>
    if spec.sourceSystem ∈ scenario.removeSourceSystems then some spec.rawDigest else none
  | _ => none

def restsOn (artifacts : List Digest) : DocumentSpec → Bool
  | .evidence spec => artifacts.contains spec.rawArtifactDigest
  | _ => false

/-- `_semantic_removal_digests`. -/
def semanticRemovalDigests (objects : Objects) : List Digest × List Selection :=
  let artifacts := objects.values.filterMap fun item => removedRawArtifact scenario item.spec
  ((objects.toList.filter fun p => removes scenario p.2.spec || restsOn artifacts p.2.spec).map
      Prod.fst,
    objects.values.flatMap fun item => selections scenario item.spec)

end removal

structure ReducedSnapshot where
  snapshot : Option AnalysisSnapshot
  objects : Objects
  blockers : List String

def DocumentSpec.isWitness : DocumentSpec → Bool
  | .organizationWitness _ | .persistencePlan _ | .perturbationSuite _ => true
  | _ => false

def DocumentSpec.boundDigest : DocumentSpec → Option Digest
  | .organizationWitness spec => some spec.analysisSnapshotDigest
  | .persistencePlan spec => some spec.analysisSnapshotDigest
  | .perturbationSuite spec => some spec.baselineSnapshotDigest
  | _ => none

section reduction
variable (h : AuditServices) (snapshot : AnalysisSnapshot) (allObjects : Objects)
  (scenario : PerturbationScenario)

def baselineObjects : Objects :=
  allObjects.filter fun digest _ => decide (digest ∈ snapshotReferences snapshot.spec)

def removedDigests : List Digest :=
  scenario.removeObjectDigests ++
    (semanticRemovalDigests scenario (baselineObjects snapshot allObjects)).1

def unmatchedReasons : List String :=
  let matched := (semanticRemovalDigests scenario (baselineObjects snapshot allObjects)).2
  Selector.all.flatMap fun selector => (scenario.requested selector).flatMap fun value =>
    reasonIf ((selector, value) ∉ matched)
      ("perturbation_selector_unmatched:" ++ selector.label ++ ":" ++ value)

def inScope (item : Document) : Prop :=
  item.metadata.tenantId = snapshot.metadata.tenantId ∧
    item.metadata.workspaceId = snapshot.metadata.workspaceId

instance decidableInScope (item : Document) : Decidable (inScope snapshot item) := by
  unfold inScope
  infer_instance

def replacementReasons (mustBeWitness : Bool) (digest : Digest) : List String :=
  match allObjects[digest]? with
  | none => ["perturbation_replacement_invalid:" ++ digest]
  | some item =>
    if h.document item ≠ digest then ["perturbation_replacement_invalid:" ++ digest]
    else reasonIf (¬ inScope snapshot item) ("perturbation_replacement_scope_mismatch:" ++ digest) ++
      reasonIf (mustBeWitness ≠ item.spec.isWitness)
        ("perturbation_replacement_kind_mismatch:" ++ digest)

/-- The trusted time of the reduced snapshot, or why there is none. -/
def advanceTrustedTime : Checked (Digest × List String) := do
  match scenario.advanceTrustedTimeReceiptDigest with
  | none => pure (snapshot.spec.trustedTimeReceiptDigest, [])
  | some digest =>
    match allObjects[digest]?, allObjects[snapshot.spec.trustedTimeReceiptDigest]? with
    | some ⟨metadata, extensions, .trustedTimeReceipt candidate⟩, prior =>
      if h.document ⟨metadata, extensions, .trustedTimeReceipt candidate⟩ ≠ digest then
        pure (digest, ["perturbation_trusted_time_receipt_invalid"])
      else
        match prior with
        | some ⟨_, _, .trustedTimeReceipt earlier⟩ =>
          let stale ← candidate.issuedAt.le earlier.issuedAt
          if stale = true then pure (digest, ["perturbation_trusted_time_not_monotonic"])
          else pure (digest, reasonIf
            (¬ inScope snapshot ⟨metadata, extensions, .trustedTimeReceipt candidate⟩)
            "perturbation_trusted_time_scope_mismatch")
        | _ => pure (digest, ["perturbation_prior_trusted_time_receipt_missing"])
    | _, _ => pure (digest, ["perturbation_trusted_time_receipt_invalid"])

/-- The snapshot over what is left and what is added, with its basis digest. -/
def reducedSnapshot (trustedTimeDigest : Digest) : AnalysisSnapshot :=
  let removed := removedDigests snapshot allObjects scenario
  let spec := { snapshot.spec with
    objectDigests := (snapshot.spec.objectDigests.filter (· ∉ removed) ++
      scenario.replacementObjectDigests).eraseDups
    witnessDigests := (snapshot.spec.witnessDigests.filter (· ∉ removed) ++
      scenario.replacementWitnessDigests).eraseDups
    trustedTimeReceiptDigest := trustedTimeDigest }
  let unbound : AnalysisSnapshot := ⟨snapshot.metadata, snapshot.extensions, spec⟩
  ⟨snapshot.metadata, snapshot.extensions,
    { spec with analysisBasisDigest := analysisBasisDigest h unbound }⟩

def reducedObjects : Objects :=
  let removed := removedDigests snapshot allObjects scenario
  allObjects.filter fun digest _ => decide (digest ∉ removed)

def bindingReasons (reduced : AnalysisSnapshot) (objects : Objects) (digest : Digest) :
    Checked (List String) := do
  let witness ← objects.item digest
  pure (reasonIf (∃ bound ∈ witness.spec.boundDigest, bound ≠ reduced.spec.analysisBasisDigest)
    ("perturbation_replacement_snapshot_mismatch:" ++ digest))

def reduceSnapshot : Checked ReducedSnapshot := do
  let foreign := (scenario.removeObjectDigests.filter
    (· ∉ snapshotReferences snapshot.spec)).map ("perturbation_object_not_in_baseline:" ++ ·)
  let replacements :=
    scenario.replacementObjectDigests.flatMap (replacementReasons h snapshot allObjects false) ++
      scenario.replacementWitnessDigests.flatMap (replacementReasons h snapshot allObjects true)
  let advanced ← advanceTrustedTime h snapshot allObjects scenario
  let blockers := foreign ++ unmatchedReasons snapshot allObjects scenario ++ replacements ++
    advanced.2
  if blockers ≠ [] then pure ⟨none, ∅, sortedSet blockers⟩
  else
    let reduced := reducedSnapshot h snapshot allObjects scenario advanced.1
    let objects := reducedObjects snapshot allObjects scenario
    let unbound ← scenario.replacementWitnessDigests.mapM (bindingReasons reduced objects)
    if unbound.flatten ≠ [] then pure ⟨none, ∅, sortedSet unbound.flatten⟩
    else pure ⟨some reduced, objects, []⟩

end reduction

structure ScenarioResult where
  scenarioId : Identifier
  reducedSnapshotDigest : Option Digest
  failedDimensions : List Identifier
  reductionBlockers : List String
  profile : Option OperationalProfile

structure Replay where
  dimension : DimensionResult
  scenarios : List ScenarioResult

section replay
variable (h : AuditServices) (snapshot : AnalysisSnapshot) (allObjects : Objects)

def failedDimensions (suite : PerturbationSuiteSpec) (profile : OperationalProfile) :
    List Identifier :=
  suite.requiredDimensions.filter fun name => name != "perturbation_robustness" &&
    (profile.dimensions[name]?.map (·.status)) != some .satisfied

abbrev Replayed := List String × List ScenarioResult

def replayScenario (suite : PerturbationSuiteSpec) (replayed : Replayed)
    (scenario : PerturbationScenario) : Analysis Replayed := do
  spend 1
  let reduction ← lift (reduceSnapshot h snapshot allObjects scenario)
  match reduction.snapshot with
  | none =>
    pure (replayed.1 ++ ["scenario_invalid:" ++ scenario.scenarioId], replayed.2 ++
      [⟨scenario.scenarioId, none, [], reduction.blockers, none⟩])
  | some reduced =>
    let profile ← auditReduced h reduced reduction.objects
    let failed := failedDimensions suite profile
    pure (replayed.1 ++ reasonIf (failed ≠ []) ("scenario_collapse:" ++ scenario.scenarioId),
      replayed.2 ++ [⟨scenario.scenarioId, some (h.document (reduced.document .analysisSnapshot)),
        failed, [], some profile⟩])

def replayPerturbations (suite : PerturbationSuiteSpec) : Analysis Replay := do
  if suite.baselineSnapshotDigest ≠ snapshot.spec.analysisBasisDigest then
    let result ← lift (finding .violated ["perturbation_suite_baseline_snapshot_mismatch"])
    pure ⟨result, []⟩
  else if ¬ ∀ name ∈ snapshot.spec.requiredDimensions, name = "perturbation_robustness" ∨
      name ∈ suite.requiredDimensions then
    let result ← lift (finding .violated ["perturbation_acceptance_omits_required_dimension"])
    pure ⟨result, []⟩
  else
    let replayed ← suite.scenarios.foldlM (replayScenario h snapshot allObjects suite) ([], [])
    let result ← lift (verdict replayed.1 [] "")
    pure ⟨result, replayed.2⟩

def robustness (objects : Objects) : Analysis DimensionResult := do
  let suites := (typed objects DocumentSpec.suite?).filter fun item =>
    item.2.baselineSnapshotDigest == snapshot.spec.analysisBasisDigest
  match suites with
  | [(_, suite)] => Replay.dimension <$> replayPerturbations h snapshot allObjects suite
  | _ => lift (finding .unknown ["exactly_one_complete_perturbation_suite_required"])

def auditSnapshot (includeRobustness : Bool) (evaluationAt : Option DateTime) :
    Analysis OperationalProfile :=
  auditWith h snapshot allObjects
    (if includeRobustness = true then robustness h snapshot allObjects
      else fun _ => lift (finding .unknown ["robustness_not_requested_for_reduced_snapshot"]))
    evaluationAt

end replay

end CollectivePhaseControl
