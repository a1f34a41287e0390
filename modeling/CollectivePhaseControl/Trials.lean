import CollectivePhaseControl.Science

/-! Assessment of preregistered trials. A protocol, its typed records, registration and
amendments, and the results that name it are checked for what blocks and what contradicts
them; only without either does a favourable result carry the tier of its design. -/
namespace CollectivePhaseControl
namespace Trial

inductive ArtifactType where
  | dataset | assignment | analysisExecutable
deriving DecidableEq, Repr

def ArtifactType.text : ArtifactType → String
  | dataset => "dataset"
  | assignment => "assignment"
  | analysisExecutable => "analysis-executable"

structure ArtifactRecordSpec where
  artifactType : ArtifactType
  protocolId : Identifier
  producerPrincipalId : Identifier
  artifactDigest : Digest
  acquisitionCommittedAt : DateTime
deriving DecidableEq

inductive Direction where
  | higher | lower
deriving DecidableEq, Repr

structure OutcomeDefinition where
  outcomeId : Identifier
  direction : Direction
  minimumEffect : Rational
  qualityFloor : Rational
deriving DecidableEq

structure MeasurementProtocolSpec where
  protocolId : Identifier
  authorPrincipalId : Identifier
  evaluatorPrincipalId : Identifier
  qualityVerifierPrincipalId : Identifier
  timeZero : DateTime
  observationCompleteAt : DateTime
  outcomes : List OutcomeDefinition
  assignmentRecordDigest : Digest
  datasetRecordDigest : Digest
  analysisExecutableRecordDigest : Digest
  primaryResultId : Identifier
  unique : (outcomes.map (·.outcomeId)).Nodup

structure ProtocolAmendmentSpec where
  protocolDigest : Digest
  authorPrincipalId : Identifier
  priorAmendmentDigest : Option Digest
  sequence : ℕ
  amendedAt : DateTime
deriving DecidableEq

structure EffectInterval where
  outcomeId : Identifier
  lower : Rational
  upper : Rational
  qualityValue : Rational
deriving DecidableEq

inductive Design where
  | descriptive | observational | quasiExperimental | randomized
deriving DecidableEq, Repr

structure TrialResultSpec where
  primaryResultId : Identifier
  protocolDigest : Digest
  datasetRecordDigest : Digest
  assignmentRecordDigest : Digest
  analysisExecutableRecordDigest : Digest
  evaluatorPrincipalId : Identifier
  qualityVerifierPrincipalId : Identifier
  observationCompletedAt : DateTime
  issuedAt : DateTime
  design : Design
  effects : List EffectInterval
  unique : (effects.map (·.outcomeId)).Nodup

abbrev MeasurementProtocol := Typed MeasurementProtocolSpec
abbrev ArtifactRecord := Typed ArtifactRecordSpec
abbrev ProtocolAmendment := Typed ProtocolAmendmentSpec
abbrev TrialResult := Typed TrialResultSpec
abbrev QuorumDecision := Typed QuorumDecisionSpec

inductive TrialDocument where
  | measurementProtocol (document : MeasurementProtocol)
  | artifactRecord (document : ArtifactRecord)
  | protocolAmendment (document : ProtocolAmendment)
  | trialResult (document : TrialResult)
  | quorumDecision (document : QuorumDecision)
  | other (kind : Identifier) (body : String)

abbrev TrialObjects := Dict TrialDocument

namespace TrialDocument

def artifactRecord? : TrialDocument → Option ArtifactRecord
  | artifactRecord document => some document
  | _ => none

def protocolAmendment? : TrialDocument → Option ProtocolAmendment
  | protocolAmendment document => some document
  | _ => none

def trialResult? : TrialDocument → Option TrialResult
  | trialResult document => some document
  | _ => none

def quorumDecision? : TrialDocument → Option QuorumDecision
  | quorumDecision document => some document
  | _ => none

end TrialDocument

inductive Tier where
  | unmeasured
  | descriptiveObservation
  | observationalAssociationCompatible
  | quasiExperimentalCompatible
  | preregisteredRandomizedAccelerationBundleCompatible
deriving DecidableEq, Repr

/-- `TIER_ORDER`. -/
def Tier.order : Tier → ℕ
  | unmeasured => 0
  | descriptiveObservation => 1
  | observationalAssociationCompatible => 2
  | quasiExperimentalCompatible => 3
  | preregisteredRandomizedAccelerationBundleCompatible => 4

def Design.candidate : Design → Tier
  | descriptive => .descriptiveObservation
  | observational => .observationalAssociationCompatible
  | quasiExperimental => .quasiExperimentalCompatible
  | randomized => .preregisteredRandomizedAccelerationBundleCompatible

inductive Status where
  | unmeasured
  | registeredNotObserved
  | externallyObservedInconclusive
  | externalQualityOrSafetyContradiction
  | protocolDeviation
  | ofTier (tier : Tier)
deriving DecidableEq, Repr

structure TrialAssessment where
  status : Status
  tier : Tier
  blockers : List String
  contradictions : List String
  protocolDigest : Digest
  resultDigests : List Digest
deriving DecidableEq

/-- What a check adds to the blockers and to the contradictions. -/
structure Findings where
  blockers : List String
  contradictions : List String
deriving DecidableEq

namespace Findings

def none : Findings := ⟨[], []⟩

def join (first second : Findings) : Findings :=
  ⟨first.blockers ++ second.blockers, first.contradictions ++ second.contradictions⟩

def joined (findings : List Findings) : Findings := findings.foldr join none

end Findings

/-- `rational`, which looks at no budget. -/
def exactRational (written : Rational) : Checked ℚ :=
  if maxRationalBits < (F written).num.natAbs.size ∨ maxRationalBits < (F written).den.size then
    .error analysisBudgetExceeded
  else .ok (F written)

structure Record where
  documentDigest : TrialDocument → Digest
  objects : TrialObjects
  signerPrincipals : Option (Dict (Finset Identifier))
  casDigests : Option (Finset Digest)

namespace Record
variable (r : Record)

/-- The principal is not among the known signers of a document. -/
def unsigned (digest : Digest) (principal : Identifier) : Bool :=
  match r.signerPrincipals with
  | some signers => principal ∉ signers.getD digest ∅
  | none => false

def unstored (digest : Digest) : Bool :=
  match r.casDigests with
  | some stored => digest ∉ stored
  | none => false

/-- `_artifact`. -/
def artifact (digest : Digest) (expected : ArtifactType) : Option ArtifactRecord :=
  (r.objects[digest]?.bind (·.artifactRecord?)).filter (·.spec.artifactType = expected)

/-- `_decisions`. -/
def decisions (decisionType : Identifier) (subjectDigest : Digest) : List QuorumDecision :=
  (r.objects.values.filterMap (·.quorumDecision?)).filter fun item =>
    item.spec.decisionType = decisionType ∧ item.spec.subjectDigest = subjectDigest

def protocolDigest (protocol : MeasurementProtocol) : Digest :=
  r.documentDigest (.measurementProtocol protocol)

def amendmentDigest (amendment : ProtocolAmendment) : Digest :=
  r.documentDigest (.protocolAmendment amendment)

def resultDigest (result : TrialResult) : Digest := r.documentDigest (.trialResult result)

/-- `typed_<type>_`. -/
def typed (expected : ArtifactType) (finding : String) : String :=
  "typed_" ++ expected.text ++ "_" ++ finding

def artifactFindings (protocol : MeasurementProtocolSpec) (digest : Digest)
    (expected : ArtifactType) : Checked Findings :=
  match r.artifact digest expected with
  | none => pure ⟨[typed expected "record_missing"], []⟩
  | some artifact => do
    let late ← protocol.timeZero.le artifact.spec.acquisitionCommittedAt
    pure ⟨reasonIf (artifact.spec.protocolId ≠ protocol.protocolId)
        (typed expected "protocol_binding_mismatch") ++
      reasonIf (r.unstored artifact.spec.artifactDigest = true)
        (typed expected "cas_object_missing") ++
      reasonIf (r.unsigned digest artifact.spec.producerPrincipalId = true)
        (typed expected "producer_signature_missing"),
      reasonIf (late = true) (typed expected "commitment_after_time_zero")⟩

def registrationFindings (protocol : MeasurementProtocol) : Checked Findings :=
  match r.decisions "protocol_registration" (r.protocolDigest protocol) with
  | [registration] => do
    let late ← protocol.spec.timeZero.le registration.spec.decidedAt
    pure ⟨[], reasonIf (late = true) "protocol_registered_after_time_zero"⟩
  | _ => pure ⟨["independent_protocol_registration_quorum_required"], []⟩

/-- `(item.spec.sequence, document_digest(item))`. -/
def Precedes (a b : ProtocolAmendment) : Prop :=
  a.spec.sequence < b.spec.sequence ∨
    a.spec.sequence = b.spec.sequence ∧ r.amendmentDigest a ≤ r.amendmentDigest b

instance decidablePrecedes : DecidableRel r.Precedes :=
  fun _ _ => inferInstanceAs (Decidable (_ ∨ _))

def protocolAmendments (protocol : MeasurementProtocol) : List ProtocolAmendment :=
  (r.objects.values.filterMap (·.protocolAmendment?)).filter
    (·.spec.protocolDigest = r.protocolDigest protocol)

def decidedInTime (protocol : MeasurementProtocolSpec) (amendment : ProtocolAmendmentSpec)
    (decision : QuorumDecisionSpec) : Checked Bool := do
  let follows ← amendment.amendedAt.le decision.decidedAt
  if follows = true then decision.decidedAt.lt protocol.timeZero else pure false

def amendmentDecision (protocol : MeasurementProtocolSpec) (amendment : ProtocolAmendment) :
    Checked Findings :=
  match r.decisions "protocol_amendment" (r.amendmentDigest amendment) with
  | [decision] => do
    let timely ← decidedInTime protocol amendment.spec decision.spec
    pure ⟨[], reasonIf (timely = false)
      ("amendment_time_quorum_invalid:" ++ toString amendment.spec.sequence)⟩
  | _ => pure ⟨["amendment_quorum_required:" ++ toString amendment.spec.sequence], []⟩

def amendmentFindings (protocol : MeasurementProtocolSpec) (expectedSequence : ℕ)
    (prior : Option Digest) (seenSequences : Finset ℕ) (amendment : ProtocolAmendment) :
    Checked Findings := do
  let late ← protocol.timeZero.le amendment.spec.amendedAt
  let decided ← r.amendmentDecision protocol amendment
  pure (Findings.join ⟨[],
    reasonIf (amendment.spec.sequence ∈ seenSequences) "amendment_sequence_fork" ++
    reasonIf (amendment.spec.sequence ≠ expectedSequence) "amendment_sequence_gap_or_fork" ++
    reasonIf (amendment.spec.priorAmendmentDigest ≠ prior) "amendment_hash_chain_fork" ++
    reasonIf (late = true) "post_start_protocol_amendment"⟩
    (decided.join ⟨reasonIf
      (r.unsigned (r.amendmentDigest amendment) amendment.spec.authorPrincipalId = true)
      ("amendment_author_signature_missing:" ++ toString amendment.spec.sequence), []⟩))

def chainFindings (protocol : MeasurementProtocolSpec) :
    ℕ → Option Digest → Finset ℕ → List ProtocolAmendment → Checked Findings
  | _, _, _, [] => pure .none
  | expectedSequence, prior, seenSequences, amendment :: rest => do
    let found ← r.amendmentFindings protocol expectedSequence prior seenSequences amendment
    let others ← chainFindings protocol (expectedSequence + 1) (some (r.amendmentDigest amendment))
      (insert amendment.spec.sequence seenSequences) rest
    pure (found.join others)

def protocolResults (protocol : MeasurementProtocol) : List TrialResult :=
  (r.objects.values.filterMap (·.trialResult?)).filter
    (·.spec.protocolDigest = r.protocolDigest protocol)

def identityFindings (protocol : MeasurementProtocol) : Findings :=
  let (primary, unexpected) := (r.protocolResults protocol).partition
    (·.spec.primaryResultId = protocol.spec.primaryResultId)
  ⟨[], reasonIf (unexpected ≠ []) "unexpected_primary_result_identity" ++
    reasonIf (1 < primary.length) "multiple_primary_results" ++
    reasonIf (primary = []) "registered_primary_result_missing"⟩

/-- Whether an interval lies on the favourable side of the minimum effect. -/
def favorable (definition : OutcomeDefinition) (lower upper minimum : ℚ) : Bool :=
  match definition.direction with
  | .higher => decide (minimum ≤ lower)
  | .lower => decide (upper ≤ minimum)

def outcomeFindings (actual : Dict EffectInterval) (definition : OutcomeDefinition) :
    Checked (List String × Bool) :=
  match actual[definition.outcomeId]? with
  | none => pure ([], false)
  | some effect => do
    let lower ← exactRational effect.lower
    let upper ← exactRational effect.upper
    let quality ← exactRational effect.qualityValue
    let floor ← exactRational definition.qualityFloor
    let minimum ← exactRational definition.minimumEffect
    pure (reasonIf (upper < lower) ("effect_interval_reversed:" ++ definition.outcomeId) ++
      reasonIf (quality < floor) ("quality_floor_contradiction:" ++ definition.outcomeId),
      decide (lower ≤ upper) && favorable definition lower upper minimum)

def compatibilityFindings (result : TrialResult) : Checked Findings :=
  match r.decisions "acceleration_compatibility" (r.resultDigest result) with
  | [decision] => do
    let early ← decision.spec.decidedAt.lt result.spec.issuedAt
    pure ⟨[], reasonIf (early = true) "result_quorum_precedes_result_issuance"⟩
  | _ => pure ⟨["result_quality_time_quorum_required"], []⟩

def bindingFindings (protocol : MeasurementProtocolSpec) (result : TrialResult) : Findings :=
  ⟨reasonIf (result.spec.evaluatorPrincipalId ≠ protocol.evaluatorPrincipalId)
      "result_evaluator_mismatch" ++
    reasonIf (result.spec.qualityVerifierPrincipalId ≠ protocol.qualityVerifierPrincipalId)
      "result_quality_verifier_mismatch" ++
    reasonIf (r.unsigned (r.resultDigest result) result.spec.evaluatorPrincipalId = true)
      "result_evaluator_signature_missing" ++
    reasonIf (result.spec.datasetRecordDigest ≠ protocol.datasetRecordDigest)
      "result_dataset_binding_mismatch" ++
    reasonIf (result.spec.assignmentRecordDigest ≠ protocol.assignmentRecordDigest)
      "result_assignment_binding_mismatch" ++
    reasonIf (result.spec.analysisExecutableRecordDigest ≠ protocol.analysisExecutableRecordDigest)
      "result_analysis_executable_binding_mismatch", []⟩

/-- One result: its findings, and the tier it is a candidate for. -/
def resultFindings (protocol : MeasurementProtocolSpec) (result : TrialResult) :
    Checked (Findings × Option Tier) := do
  let decided ← r.compatibilityFindings result
  let unfinished ← result.spec.issuedAt.le result.spec.observationCompletedAt
  let incomplete ← result.spec.observationCompletedAt.lt protocol.observationCompleteAt
  let actual : Dict EffectInterval :=
    .ofList (result.spec.effects.map fun effect => (effect.outcomeId, effect))
  let outcomes ← protocol.outcomes.mapM (outcomeFindings actual)
  pure ((r.bindingFindings protocol result).join (decided.join ⟨[],
    reasonIf (unfinished = true) "result_issued_before_observation_completion" ++
    reasonIf (incomplete = true) "result_observation_incomplete" ++
    reasonIf (actual.keys.toFinset ≠ (protocol.outcomes.map (·.outcomeId)).toFinset)
      "primary_outcome_bundle_incomplete_or_extra" ++ outcomes.flatMap Prod.fst⟩),
    if result.spec.primaryResultId = protocol.primaryResultId ∧ outcomes.all Prod.snd = true then
      some result.spec.design.candidate
    else none)

def promote (tier : Tier) : Option Tier → Tier
  | some candidate => if tier.order < candidate.order then candidate else tier
  | none => tier

/-- `any("quality_floor" in item for item in contradictions)`. -/
def namesQualityFloor (contradictions : List String) : Bool :=
  contradictions.any fun item => decide ("quality_floor".toList <:+: item.toList)

def conclude (findings : Findings) (tier : Tier) : Status × Tier :=
  if findings.contradictions ≠ [] then
    (if namesQualityFloor findings.contradictions = true then .externalQualityOrSafetyContradiction
      else .protocolDeviation, .unmeasured)
  else if findings.blockers ≠ [] then (.externallyObservedInconclusive, .unmeasured)
  else if tier = .unmeasured then (.externallyObservedInconclusive, .unmeasured)
  else (.ofTier tier, tier)

/-- What is found about the protocol before its results are looked at. -/
def protocolFindings (protocol : MeasurementProtocol) : Checked Findings := do
  let dataset ← r.artifactFindings protocol.spec protocol.spec.datasetRecordDigest .dataset
  let assignment ←
    r.artifactFindings protocol.spec protocol.spec.assignmentRecordDigest .assignment
  let executable ← r.artifactFindings protocol.spec
    protocol.spec.analysisExecutableRecordDigest .analysisExecutable
  let registration ← r.registrationFindings protocol
  let amendments ← r.chainFindings protocol.spec 1 none ∅
    ((r.protocolAmendments protocol).insertionSort r.Precedes)
  pure (.joined [⟨reasonIf
    (r.unsigned (r.protocolDigest protocol) protocol.spec.authorPrincipalId = true)
    "protocol_author_signature_missing", []⟩, dataset, assignment, executable, registration,
    amendments])

/-- `assess_trial`. -/
def assessTrial (protocol : MeasurementProtocol) : Checked TrialAssessment := do
  let found ← r.protocolFindings protocol
  let results := r.protocolResults protocol
  if results = [] then
    pure {
      status := if found.blockers = [] then .registeredNotObserved else .unmeasured
      tier := .unmeasured
      blockers := sortedSet found.blockers
      contradictions := sortedSet found.contradictions
      protocolDigest := r.protocolDigest protocol
      resultDigests := [] }
  else
    let assessed ← results.mapM (r.resultFindings protocol.spec)
    let findings := .joined (found :: r.identityFindings protocol :: assessed.map Prod.fst)
    let (status, tier) := conclude findings ((assessed.map Prod.snd).foldl promote .unmeasured)
    pure {
      status := status
      tier := tier
      blockers := sortedSet findings.blockers
      contradictions := sortedSet findings.contradictions
      protocolDigest := r.protocolDigest protocol
      resultDigests := (results.map r.resultDigest).insertionSort (· ≤ ·) }

end Record
end Trial
end CollectivePhaseControl
