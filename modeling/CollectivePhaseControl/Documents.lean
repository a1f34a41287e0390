import CollectivePhaseControl.GrowthModels

/-! The closed document kinds. A kind that no modelled function inspects is `other`
and keeps its name and canonical body, so that distinct documents stay distinct. For the
same reason a field that no modelled function reads is kept, by name and in canonical
text, beside the `extensions`.
Digests of documents and of model values are parameters gathered in `Hashing`. -/
namespace CollectivePhaseControl

structure Metadata where
  tenantId : Identifier
  workspaceId : Identifier
  objectId : Identifier
  createdAt : DateTime
deriving DecidableEq

structure UnitDefinition where
  dimensions : Dict ℤ
  scale : Rational
deriving DecidableEq

structure UnitRegistrySpec where
  units : Dict UnitDefinition
  coordinateUnits : Dict String
  timeUnit : String
  actionUnit : String
deriving DecidableEq

structure PhaseContractSpec where
  targetIds : List Identifier
  protectedFloors : Dict Rational
  requiredDimensions : List Identifier
  minimumIndependentDomains : ℕ
deriving DecidableEq

structure StateSpec where
  stateId : Identifier
  available : Bool
  food : Bool
  lifecycle : Lifecycle
deriving DecidableEq

structure ResourceObservationSpec where
  coordinate : Identifier
  quantity : Rational
  unit : String
  lifecycle : Lifecycle
deriving DecidableEq

structure SupplySpec where
  supplyId : Identifier
  coordinate : Identifier
  rateLower : Rational
  rateUpper : Rational
  unit : String
  windowStart : DateTime
  windowEnd : DateTime
  lifecycle : Lifecycle
deriving DecidableEq

structure TransformationSpec where
  transformationId : Identifier
  inputs : Dict Rational
  outputs : Dict Rational
  catalystClauses : List (List Identifier)
  inhibitors : List Identifier
  uncatalyzed : Bool
  requiredEvidence : List Identifier
  requiredAuthority : List Identifier
  lifecycle : Lifecycle
deriving DecidableEq

structure AuthoritySpec where
  authorityId : Identifier
  lifecycle : Lifecycle
deriving DecidableEq

structure EvidenceSpec where
  evidenceId : Identifier
  rawArtifactDigest : Digest
  jsonPointer : String
  projectedDigest : Digest
  lifecycle : Lifecycle
deriving DecidableEq

structure SourceArtifactSpec where
  rawDigest : Digest
  byteLength : ℕ
  sourceSystem : Identifier
  expectedSchemaName : Identifier
  expectedSchemaDigest : Digest
deriving DecidableEq

structure VerifierStageSpec where
  stageId : Identifier
  arrivalUpper : Rational
  serviceLower : Rational
  rateUnit : String
  observationWindowStart : DateTime
  observationWindowEnd : DateTime
  independenceDomain : Identifier
  routingAmplificationUpper : Rational
  lifecycle : Lifecycle
deriving DecidableEq

structure RateObservationSpec where
  transformationId : Identifier
  rateLower : Rational
  rateUpper : Rational
  actionRateUnit : String
  observationWindowStart : DateTime
  observationWindowEnd : DateTime
  sourceRecordDigest : Digest
  lifecycle : Lifecycle
deriving DecidableEq

structure CurvePoint where
  offset : Rational
  cumulative : Rational
deriving DecidableEq

inductive CurveType where
  | arrivalUpper | serviceLower
deriving DecidableEq, Repr

structure ServiceCurveSpec where
  stageId : Identifier
  curveType : CurveType
  timeUnit : String
  workUnit : String
  observationWindowStart : DateTime
  observationWindowEnd : DateTime
  points : List CurvePoint
  sourceRecordDigest : Digest
  lifecycle : Lifecycle
deriving DecidableEq

structure IndependenceSpec where
  domainId : Identifier
  principalId : Identifier
  keyId : Identifier
  infrastructureDomain : Identifier
  lineageDomain : Identifier
  correlationDomain : Identifier
  lifecycle : Lifecycle
deriving DecidableEq

structure ExposureEvent where
  fromDomain : Identifier
  toDomain : Identifier
  preCommit : Bool
deriving DecidableEq

structure ExposureLedgerSpec where
  events : List ExposureEvent
  observationCompleteThrough : DateTime
deriving DecidableEq

inductive KeyAlgorithm where
  | ed25519 | ecdsaP256Sha256
deriving DecidableEq, Repr

inductive RevocationMode where
  | prospective | retroactive
deriving DecidableEq, Repr

structure Principal where
  principalId : Identifier
  keyId : Identifier
  algorithm : KeyAlgorithm
  publicKeyBase64 : String
  roles : List Identifier
  sourceSystems : List Identifier
  allowedKinds : List Identifier
  scope : List Identifier
  infrastructureDomain : Identifier
  correlationDomain : Identifier
  validFrom : DateTime
  validUntil : DateTime
  revokedAt : Option DateTime
  compromisedAt : Option DateTime
  revocationMode : RevocationMode
deriving DecidableEq

structure QuorumRule where
  decisionType : Identifier
  requiredRoles : List Identifier
  distinctInfrastructure : Bool
  distinctCorrelation : Bool
deriving DecidableEq

structure TrustPolicySpec where
  policySequence : ℕ
  priorPolicyDigest : Option Digest
  rootKeyId : Identifier
  principals : List Principal
  quorumRules : List QuorumRule
deriving DecidableEq

structure TrustedTimeSpec where
  authorityPrincipalId : Identifier
  issuedAt : DateTime
  validUntil : DateTime
  nonce : Identifier
deriving DecidableEq

structure DsseSignature where
  keyid : String
  sig : String
deriving DecidableEq

structure DsseEnvelope where
  payloadType : String
  payload : String
  signatures : List DsseSignature
deriving DecidableEq

structure QuorumDecisionSpec where
  decisionType : Identifier
  subjectDigest : Digest
  statementDigests : List Digest
  decidedAt : DateTime
deriving DecidableEq

structure OrganizationSpec where
  analysisSnapshotDigest : Digest
  targetIds : List Identifier
  transformationIds : List Identifier
  fluxes : Dict Rational
deriving DecidableEq

structure PersistenceStep where
  actionCounts : Dict Rational
  supplyQuantities : Dict Rational
deriving DecidableEq

structure PersistencePlanSpec where
  analysisSnapshotDigest : Digest
  durationPerStep : Rational
  steps : List PersistenceStep
deriving DecidableEq

structure SnapshotSpec where
  generationDigest : Digest
  analysisBasisDigest : Digest
  contractDigest : Digest
  trustPolicyDigest : Digest
  trustedTimeReceiptDigest : Digest
  unitRegistryDigest : Digest
  objectDigests : List Digest
  witnessDigests : List Digest
  targetIds : List Identifier
  protectedFloors : Dict Rational
  minimumIndependentDomains : ℕ
  requiredDimensions : List Identifier
deriving DecidableEq

structure PerturbationScenario where
  scenarioId : Identifier
  removeObjectDigests : List Digest
  removePrincipalIds : List Identifier
  removeKeyIds : List Identifier
  removeSourceSystems : List Identifier
  removeStateIds : List Identifier
  removeTransformationIds : List Identifier
  removeResourceCoordinates : List Identifier
  removeSupplyIds : List Identifier
  removeRateTransformationIds : List Identifier
  removeCatalystIds : List Identifier
  removeInhibitorIds : List Identifier
  removeVerifierStageIds : List Identifier
  removeInfrastructureDomains : List Identifier
  removeCoordinationSessionIds : List Identifier
  removeIndependenceDomains : List Identifier
  replacementObjectDigests : List Digest
  replacementWitnessDigests : List Digest
  advanceTrustedTimeReceiptDigest : Option Digest
deriving DecidableEq

structure PerturbationSuiteSpec where
  baselineSnapshotDigest : Digest
  scenarios : List PerturbationScenario
  requiredDimensions : List Identifier
deriving DecidableEq

structure BranchEffect where
  outcome : OutcomeName
  mustAdd : List Digest
  mayAdd : List Digest
  mustRemove : List Digest
  mayRemove : List Digest
  resourceDeltaLower : Dict Rational
  resourceDeltaUpper : Dict Rational
  debt : List Identifier
  rollbackObligations : List Identifier
  hazardsAdded : List Identifier
  hazardsRemoved : List Identifier
  timeUpper : Rational
  costUpper : Rational
  verificationLoadUpper : Rational
deriving DecidableEq

structure CapabilitySpec where
  executionPolicyDigest : Digest
  imageDigest : Digest
  outputSchemaName : Identifier
  outputSchemaDigest : Digest
  repeatable : Bool
  branches : List BranchEffect
deriving DecidableEq

structure ActionSpec where
  actionId : Identifier
  capabilityDigest : Digest
  requiredObjectDigests : List Digest
  prohibitedHazards : List Identifier
  protectedObjectDigests : List Digest
deriving DecidableEq

structure PendingProjectionSpec where
  projectionId : Identifier
  runnerReceiptDigest : Digest
  sourceArtifactEnvelopeDigest : Digest
  producerPrincipalId : Identifier
  rawOutputDigest : Digest
  jsonPointer : String
  expectedSchemaName : Identifier
  expectedSchemaDigest : Digest
  projectedDigest : Digest
  changesAuthoritativeState : Bool
deriving DecidableEq

structure AuditEventSpec where
  eventId : Identifier
  priorEventDigest : Option Digest
  occurredAt : DateTime
deriving DecidableEq

structure CoordinationPlanSpec where
  sessionId : Identifier
  planPrincipalId : Identifier
  integrationPrincipalId : Identifier
  participantPrincipals : List Identifier
  verifierPrincipals : List Identifier
  verifierCapacity : Dict ℕ
  requiredProposalCount : ℕ
  commitDeadline : DateTime
  revealDeadline : DateTime
  terminationDeadline : DateTime
  maximumExposures : ℕ
deriving DecidableEq

inductive CoordinationEventType where
  | openCommit | commit | closeCommit | openReveal | reveal | exposure | verification
  | integration | terminate
deriving DecidableEq, Repr

structure CoordinationEventSpec where
  sessionId : Identifier
  eventId : Identifier
  eventType : CoordinationEventType
  actorPrincipalId : Identifier
  occurredAt : DateTime
  proposalId : Option Identifier
  recipientPrincipalId : Option Identifier
  artifactDigest : Option Digest
  commitmentDigest : Option Digest
  verificationStatus : Option String
  terminationReason : Option String
  priorEventDigest : Option Digest
deriving DecidableEq

inductive DocumentSpec where
  | unitRegistry (spec : UnitRegistrySpec)
  | phaseContract (spec : PhaseContractSpec)
  | state (spec : StateSpec)
  | resourceObservation (spec : ResourceObservationSpec)
  | supply (spec : SupplySpec)
  | transformation (spec : TransformationSpec)
  | authority (spec : AuthoritySpec)
  | evidence (spec : EvidenceSpec)
  | sourceArtifactEnvelope (spec : SourceArtifactSpec)
  | verifierStage (spec : VerifierStageSpec)
  | rateObservation (spec : RateObservationSpec)
  | serviceCurve (spec : ServiceCurveSpec)
  | independence (spec : IndependenceSpec)
  | exposureLedger (spec : ExposureLedgerSpec)
  | trustPolicy (spec : TrustPolicySpec)
  | trustedTimeReceipt (spec : TrustedTimeSpec)
  | signedStatement (envelope : DsseEnvelope)
  | quorumDecision (spec : QuorumDecisionSpec)
  | organizationWitness (spec : OrganizationSpec)
  | persistencePlan (spec : PersistencePlanSpec)
  | analysisSnapshot (spec : SnapshotSpec)
  | perturbationSuite (spec : PerturbationSuiteSpec)
  | executionPolicy (allowedImageDigests : List Digest)
  | capability (spec : CapabilitySpec)
  | action (spec : ActionSpec)
  | runnerReceipt (runnerPrincipalId : Identifier)
  | pendingProjection (spec : PendingProjectionSpec)
  | auditEvent (spec : AuditEventSpec)
  | coordinationPlan (spec : CoordinationPlanSpec)
  | coordinationEvent (spec : CoordinationEventSpec)
  | coordinationSession (sessionId : Identifier)
  | artifactRecord (producerPrincipalId : Identifier)
  | measurementProtocol (authorPrincipalId : Identifier)
  | protocolAmendment (authorPrincipalId : Identifier)
  | trialResult (evaluatorPrincipalId : Identifier)
  | growthContract (spec : GrowthContractSpec)
  | growthObservation (evaluatorPrincipalId : Identifier) (lifecycle : Lifecycle)
  | growthCapabilityFrontier (spec : GrowthCapabilityFrontierSpec)
  | epistemicContract (body : String)
  | epistemicObservation (evaluatorPrincipalId : Identifier) (lifecycle : Lifecycle)
  | catalogueRevision (body : String)
  | other (kind : Identifier) (body : String)
deriving DecidableEq

structure Typed (σ : Type) where
  metadata : Metadata
  extensions : Dict String
  spec : σ
deriving DecidableEq

abbrev Document := Typed DocumentSpec
abbrev AnalysisSnapshot := Typed SnapshotSpec
abbrev TrustPolicyDocument := Typed TrustPolicySpec
abbrev TrustedTimeReceipt := Typed TrustedTimeSpec
abbrev GrowthContract := Typed GrowthContractSpec
abbrev GrowthCapabilityFrontier := Typed GrowthCapabilityFrontierSpec

def Typed.document {σ : Type} (kind : σ → DocumentSpec) (d : Typed σ) : Document :=
  ⟨d.metadata, d.extensions, kind d.spec⟩

namespace DocumentSpec

/-- The `kind` discriminator. -/
def kind : DocumentSpec → Identifier
  | unitRegistry _ => "unit-registry"
  | phaseContract _ => "phase-contract"
  | state _ => "state-attestation"
  | resourceObservation _ => "resource-observation-attestation"
  | supply _ => "supply-attestation"
  | transformation _ => "transformation-attestation"
  | authority _ => "authority-attestation"
  | evidence _ => "evidence-attestation"
  | sourceArtifactEnvelope _ => "source-artifact-envelope"
  | verifierStage _ => "verifier-stage-attestation"
  | rateObservation _ => "rate-observation-attestation"
  | serviceCurve _ => "service-curve-attestation"
  | independence _ => "independence-attestation"
  | exposureLedger _ => "exposure-ledger"
  | trustPolicy _ => "trust-policy"
  | trustedTimeReceipt _ => "trusted-time-receipt"
  | signedStatement _ => "signed-statement"
  | quorumDecision _ => "quorum-decision"
  | organizationWitness _ => "organization-witness"
  | persistencePlan _ => "persistence-plan"
  | analysisSnapshot _ => "analysis-snapshot"
  | perturbationSuite _ => "perturbation-suite"
  | executionPolicy _ => "execution-policy"
  | capability _ => "adapter-capability"
  | action _ => "action"
  | runnerReceipt _ => "runner-receipt"
  | pendingProjection _ => "pending-projection"
  | auditEvent _ => "audit-event"
  | coordinationPlan _ => "coordination-plan"
  | coordinationEvent _ => "coordination-event"
  | coordinationSession _ => "coordination-session"
  | artifactRecord _ => "trial-artifact-record"
  | measurementProtocol _ => "measurement-protocol"
  | protocolAmendment _ => "protocol-amendment"
  | trialResult _ => "trial-result"
  | growthContract _ => "growth-contract"
  | growthObservation .. => "growth-observation"
  | growthCapabilityFrontier _ => "growth-capability-frontier"
  | epistemicContract _ => "epistemic-contract"
  | epistemicObservation .. => "epistemic-observation"
  | catalogueRevision _ => "catalogue-revision"
  | other kind _ => kind

/-- `getattr(document.spec, "lifecycle", None)`. -/
def lifecycle : DocumentSpec → Option Lifecycle
  | state s => some s.lifecycle
  | resourceObservation s => some s.lifecycle
  | supply s => some s.lifecycle
  | transformation s => some s.lifecycle
  | authority s => some s.lifecycle
  | evidence s => some s.lifecycle
  | verifierStage s => some s.lifecycle
  | rateObservation s => some s.lifecycle
  | serviceCurve s => some s.lifecycle
  | independence s => some s.lifecycle
  | growthObservation _ l => some l
  | epistemicObservation _ l => some l
  | _ => none

end DocumentSpec

abbrev Objects := Dict Document

/-- Digests of documents and of model values: SHA-256 over canonical bytes, with no
dependence on dictionary order. `state` is taken of a normalized ledger, `inputs` of the
digests of contract, objects and frontier, `checker` of input, policy and objective. -/
structure Hashing where
  document : Document → Digest
  state : GrowthState → Digest
  checkpoint : GrowthCheckpoint → Digest
  node : GrowthPolicyNode → Digest
  successor : GrowthSuccessor → Digest
  window : GrowthWindow → Digest
  schema : Identifier → Option Digest
  inputs : Digest → List Digest → Option Digest → Digest
  checker : Digest → Digest → GrowthObjective → Digest

end CollectivePhaseControl
