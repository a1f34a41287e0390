import CollectivePhaseControl.AuthorityProjections

/-! The loader of a workspace generation. Its passes run over the ledger in order and
share a quarantine: entries, signed statements, the subjects of the statements, quorum
decisions, required quorums, pending projections, and the history of audit events. -/
namespace CollectivePhaseControl

abbrev Quarantine := Dict (Finset String)

namespace Quarantine

def reject (q : Quarantine) (digest : Digest) (codes : List String) : Quarantine :=
  q.insert digest (q.getD digest ∅ ∪ codes.toFinset)

def rejectAll (q : Quarantine) (digests : List Digest) (codes : List String) : Quarantine :=
  digests.foldl (fun q digest => q.reject digest codes) q

end Quarantine

/-- `d[key] = value` for a dictionary kept in insertion order. -/
def assign {α : Type} : List (Digest × α) → Digest → α → List (Digest × α)
  | [], key, value => [(key, value)]
  | (k, old) :: rest, key, value =>
    if k = key then (k, value) :: rest else (k, old) :: assign rest key value

structure LoadArguments where
  generation : WorkspaceGeneration
  store : ObjectStore
  policy : TrustPolicyDocument
  trustedTime : TrustedTimeReceipt
  expectedRootSpkiFingerprint : Digest
  expectedGenesisEnvelopeFingerprint : Digest

namespace LoadArguments
variable (a : LoadArguments)

def tenantId : Identifier := a.generation.metadata.tenantId
def workspaceId : Identifier := a.generation.metadata.workspaceId
def evaluationTime : DateTime := a.trustedTime.spec.issuedAt

/-- The ledger as a dictionary by digest: an entry's place is its first, its value the
last. -/
def entries : List (Digest × LedgerEntry) :=
  a.generation.spec.ledger.foldl (fun entries item => assign entries item.objectDigest item) []

end LoadArguments

structure SignedSubject where
  digest : Digest
  subject : Document
  statements : List Digest

/-- The dictionaries that the pass over signed statements fills. -/
structure Signing where
  quarantine : Quarantine
  statementEnvelopes : Dict DsseEnvelope
  subjects : List SignedSubject
  principals : Dict Identifier
  roles : Dict Identifier
  sourceEnvelopes : List SourceArtifactEnvelope

abbrev QuorumDecisionDocument := Typed QuorumDecisionSpec
abbrev AuditEvent := Typed AuditEventSpec
abbrev EvidenceAttestation := Typed EvidenceSpec

structure AuthoritativeView where
  valid : Bool
  generation : WorkspaceGeneration
  objects : Objects
  signedSubjects : Objects
  statementEnvelopes : Dict DsseEnvelope
  subjectStatements : Dict (List Digest)
  subjectPrincipals : Dict (Finset Identifier)
  statementPrincipals : Dict Identifier
  statementRoles : Dict Identifier
  quarantined : Quarantine
  reasons : Finset String

def claimedSigner : DocumentSpec → Option (Identifier × Identifier)
  | .coordinationPlan spec => some (spec.planPrincipalId, "coordination_plan")
  | .coordinationEvent spec => some (spec.actorPrincipalId, "coordination_event")
  | .artifactRecord producer => some (producer, "trial_artifact_producer")
  | .measurementProtocol author => some (author, "protocol_author")
  | .protocolAmendment author => some (author, "protocol_author")
  | .trialResult evaluator => some (evaluator, "evaluator")
  | .growthObservation evaluator _ => some (evaluator, "evaluator")
  | .epistemicObservation evaluator _ => some (evaluator, "evaluator")
  | _ => none

def requiredQuorum : DocumentSpec → Option Identifier
  | .measurementProtocol _ => some "protocol_registration"
  | .growthCapabilityFrontier _ => some "protocol_registration"
  | .epistemicContract _ => some "protocol_registration"
  | .catalogueRevision _ => some "protocol_registration"
  | .protocolAmendment _ => some "protocol_amendment"
  | .trialResult _ => some "acceleration_compatibility"
  | .growthObservation .. => some "acceleration_compatibility"
  | .epistemicObservation .. => some "acceleration_compatibility"
  | _ => none

def lifecycleReasons (document : Document) (evaluationTime : DateTime) : Checked (List String) :=
  match document.spec.lifecycle with
  | none => pure []
  | some lifecycle => do
    let early ← evaluationTime.lt lifecycle.validFrom
    let late ← lifecycle.validUntil.lt evaluationTime
    let withdrawn ← match lifecycle.withdrawnAt with
      | some withdrawnAt => withdrawnAt.le evaluationTime
      | none => pure false
    pure (reasonIf (early = true) "object_not_yet_valid" ++
      reasonIf (late = true) "object_expired" ++ reasonIf (withdrawn = true) "object_withdrawn")

def maximumInteger : ℕ := 9007199254740991

def exactInteger (value : ℕ) : Checked Unit :=
  if value ≤ maximumInteger then .ok () else .error (.crash .valueError)

namespace Authority
variable (w : Authority) (a : LoadArguments)

/-- `parse_document(loads_bounded(data))`. -/
def parseBytes (data : Bytes) : Except ParseError Document := do
  let members ← (w.loads data).mapError .valueError
  w.parse members

def entryReasons (entry : LedgerEntry) : Checked (List String) :=
  match a.store a.tenantId entry.objectDigest with
  | none => pure ["ledger_object_missing:" ++ entry.objectDigest]
  | some raw =>
    if w.digestBytes raw ≠ entry.objectDigest then
      pure ["ledger_raw_digest_mismatch:" ++ entry.objectDigest]
    else do
      let invalid ←
        if entry.objectKind = "raw-artifact" then pure []
        else
          match w.parseBytes raw with
          | .ok document =>
            pure (reasonIf (document.spec.kind ≠ entry.objectKind)
              ("ledger_kind_mismatch:" ++ entry.objectDigest))
          | .error (.valueError _) => pure ["ledger_document_invalid:" ++ entry.objectDigest]
          | .error (.typeError _) => .error (.crash .typeError)
      let known := a.generation.spec.ledger.map (·.objectDigest)
      pure (invalid ++ (entry.sourceDigests.filter (· ∉ known)).map ("ledger_source_dangling:" ++ ·))

def generationDigest (generation : WorkspaceGeneration) : Checked Digest := do
  exactInteger generation.spec.sequence
  pure (w.generation generation)

def validateLedger : Checked (List String) := do
  let ledger := a.generation.spec.ledger
  let known := ledger.map (·.objectDigest)
  let own ← w.generationDigest a.generation
  let checked ← ledger.mapM (w.entryReasons a)
  pure (reasonIf (¬ known.Nodup) "ledger_object_digest_duplicate" ++
    reasonIf (a.generation.spec.generationDigest ≠ own) "generation_digest_mismatch" ++
    checked.flatten ++
    reasonIf (a.generation.spec.historyHeadDigest ∉ known) "history_head_missing_from_ledger")

def parseEntry (digest : Digest) : Except (List String) Document :=
  match (a.store a.tenantId digest).map w.parseBytes with
  | some (.ok document) =>
    let codes :=
      reasonIf (w.document document ≠ digest) "ledger_document_digest_mismatch" ++
      reasonIf (document.metadata.tenantId ≠ a.tenantId) "ledger_document_tenant_mismatch" ++
      reasonIf (document.metadata.workspaceId ≠ a.workspaceId) "ledger_document_workspace_mismatch"
    if codes = [] then .ok document else .error codes
  | _ => .error ["ledger_document_invalid"]

abbrev Parsed := List (Digest × Document) × Quarantine

def recordEntry (progress : Parsed) (item : Digest × LedgerEntry) : Parsed :=
  if item.2.authorityStatus ≠ .active ∨ item.2.objectKind = "raw-artifact" then progress
  else
    match w.parseEntry a item.1 with
    | .ok document => (progress.1 ++ [(item.1, document)], progress.2)
    | .error codes => (progress.1, progress.2.reject item.1 codes)

def parseEntries : Parsed := a.entries.foldl (w.recordEntry a) ([], ∅)

def verifyStatement (envelope : DsseEnvelope) (subject : Document) : Checked VerificationResult :=
  let ordinary := Prod.fst <$> w.verifyEnvelope envelope a.policy (some a.trustedTime)
  match subject.spec with
  | .trustPolicy spec =>
    if spec.policySequence = 0 then
      w.inspectGenesis envelope a.expectedRootSpkiFingerprint a.expectedGenesisEnvelopeFingerprint
    else ordinary
  | _ => ordinary

def addSubject (digest : Digest) (subject : Document) (statement : Digest) :
    List SignedSubject → List SignedSubject
  | [] => [⟨digest, subject, [statement]⟩]
  | s :: rest =>
    if s.digest = digest then { s with statements := s.statements ++ [statement] } :: rest
    else s :: addSubject digest subject statement rest

def addSource (digest : Digest) (subject : Document) (sources : List SourceArtifactEnvelope) :
    List SourceArtifactEnvelope :=
  match subject.spec with
  | .sourceArtifactEnvelope spec =>
    if sources.any fun item => w.document (item.document .sourceArtifactEnvelope) == digest
    then sources
    else sources ++ [⟨subject.metadata, subject.extensions, spec⟩]
  | _ => sources

def assignSome {α : Type} (m : Dict α) (key : Digest) : Option α → Dict α
  | some value => m.insert key value
  | none => m

inductive Judgement where
  | unreadable
  | unverified (verification : VerificationResult)
  | lapsed (verification : VerificationResult) (codes : List String)
  | admitted (verification : VerificationResult) (subject : Document)

def judgeStatement (envelope : DsseEnvelope) : Checked Judgement :=
  match w.decode envelope with
  | .error _ => pure .unreadable
  | .ok (_, _, subject) => do
    let verification ← w.verifyStatement a envelope subject
    if verification.valid = false then pure (.unverified verification)
    else
      let codes ← lifecycleReasons subject a.evaluationTime
      if codes ≠ [] then pure (.lapsed verification codes)
      else pure (.admitted verification subject)

def recordEnvelope (s : Signing) (digest : Digest) (envelope : DsseEnvelope) : Signing :=
  { s with statementEnvelopes := s.statementEnvelopes.insert digest envelope }

def recordSigner (s : Signing) (digest : Digest) (verification : VerificationResult) : Signing :=
  { s with
    principals := assignSome s.principals digest verification.principalId
    roles := assignSome s.roles digest verification.role }

def recordRejection (s : Signing) (digest : Digest) (codes : List String) : Signing :=
  { s with quarantine := s.quarantine.reject digest codes }

def recordSubject (s : Signing) (subject : Document) (statement : Digest) : Signing :=
  { s with
    subjects := addSubject (w.document subject) subject statement s.subjects
    sourceEnvelopes := w.addSource (w.document subject) subject s.sourceEnvelopes }

def recordStatement (s : Signing) (digest : Digest) (envelope : DsseEnvelope) :
    Judgement → Signing
  | .unreadable => recordRejection s digest ["signed_statement_payload_invalid"]
  | .unverified verification =>
    recordRejection (recordEnvelope s digest envelope) digest verification.reasons
  | .lapsed verification codes =>
    recordRejection (recordSigner (recordEnvelope s digest envelope) digest verification) digest
      codes
  | .admitted verification subject =>
    w.recordSubject (recordSigner (recordEnvelope s digest envelope) digest verification) subject
      digest

def statementsOf (parsed : List (Digest × Document)) : List (Digest × DsseEnvelope) :=
  parsed.filterMap fun (digest, document) =>
    match document.spec with
    | .signedStatement envelope => some (digest, envelope)
    | _ => none

def signStatements (parsed : List (Digest × Document)) (quarantine : Quarantine) :
    Checked Signing :=
  (statementsOf parsed).foldlM (fun s (digest, envelope) =>
    w.recordStatement s digest envelope <$> w.judgeStatement a envelope)
    ⟨quarantine, ∅, [], ∅, ∅, []⟩

def signerReasons (s : Signing) (quarantine : Quarantine) (subject : SignedSubject) :
    List String :=
  match claimedSigner subject.subject.spec with
  | none => []
  | some (principalId, requiredRole) =>
    reasonIf (¬ ∃ statement ∈ subject.statements, statement ∉ quarantine ∧
      s.principals[statement]? = some principalId ∧ s.roles[statement]? = some requiredRole)
      "typed_subject_signer_binding_mismatch"

def validateSourceEnvelope (envelope : SourceArtifactEnvelope) : List String :=
  match a.store envelope.metadata.tenantId envelope.spec.rawDigest with
  | none => ["source_raw_artifact_missing"]
  | some raw =>
    reasonIf (w.digestBytes raw ≠ envelope.spec.rawDigest) "source_raw_artifact_digest_mismatch" ++
    reasonIf (raw.length ≠ envelope.spec.byteLength) "source_raw_artifact_length_mismatch"

def sourceOf (evidence : EvidenceAttestation) (envelope : SourceArtifactEnvelope) : Bool :=
  envelope.spec.rawDigest == evidence.spec.rawArtifactDigest &&
    envelope.metadata.tenantId == evidence.metadata.tenantId &&
    envelope.metadata.workspaceId == evidence.metadata.workspaceId

/-- The digest of what a pointer selects, if that can be read. -/
def selectedDigest (raw : Bytes) (pointer : String) : Option Digest := do
  let members ← (w.loads raw).toOption
  let selected ← resolvePointer (.object members) pointer
  w.digestBytes <$> w.canonical selected

def validateEvidencePointer (evidence : EvidenceAttestation)
    (sourceEnvelopes : List SourceArtifactEnvelope) : Checked (List String) :=
  if (sourceEnvelopes.filter (sourceOf evidence)).length ≠ 1 then
    pure ["evidence_source_envelope_not_unique"]
  else do
    let raw ← demand .keyError (a.store evidence.metadata.tenantId evidence.spec.rawArtifactDigest)
    match w.selectedDigest raw evidence.spec.jsonPointer with
    | none => pure ["evidence_source_pointer_invalid"]
    | some projected =>
      pure (reasonIf (projected ≠ evidence.spec.projectedDigest) "evidence_projection_mismatch")

def artifactReasons (s : Signing) (subject : Document) : Checked (List String) :=
  match subject with
  | ⟨metadata, extensions, .sourceArtifactEnvelope spec⟩ =>
    pure (w.validateSourceEnvelope a ⟨metadata, extensions, spec⟩)
  | ⟨metadata, extensions, .evidence spec⟩ =>
    w.validateEvidencePointer a ⟨metadata, extensions, spec⟩ s.sourceEnvelopes
  | _ => pure []

abbrev Findings := Quarantine × List String

def condemn (findings : Findings) (subject : SignedSubject) (codes : List String) : Findings :=
  if codes = [] then findings
  else (findings.1.rejectAll subject.statements codes,
    findings.2 ++ codes.map (· ++ ":" ++ subject.digest))

abbrev Verdict := List String × Option Document

abbrev Inspection := Findings × List Document

def recordVerdict (progress : Inspection) (subject : SignedSubject) (verdict : Verdict) :
    Inspection :=
  (condemn progress.1 subject verdict.1, progress.2 ++ verdict.2.toList)

/-- A pass over the subjects. Each is judged under the quarantine reached so far. -/
def inspectSubjects (judge : Quarantine → SignedSubject → Checked Verdict)
    (subjects : List SignedSubject) (findings : Findings) : Checked Inspection :=
  subjects.foldlM (fun progress subject =>
    recordVerdict progress subject <$> judge progress.1.1 subject) (findings, [])

def checkSubject (s : Signing) (quarantine : Quarantine) (subject : SignedSubject) :
    Checked Verdict := do
  let artifact ← w.artifactReasons a s subject.subject
  pure (signerReasons s quarantine subject ++ artifact, none)

def unsigned : DocumentSpec → Bool
  | .signedStatement _ | .quorumDecision _ | .auditEvent _ => false
  | _ => true

def rejectUnsigned (parsed : List (Digest × Document)) (quarantine : Quarantine) : Quarantine :=
  parsed.foldl (fun q (digest, document) =>
    if unsigned document.spec then q.reject digest ["unsigned_authoritative_object"] else q)
    quarantine

/-- The envelopes of a decision, unless one of them is missing or quarantined. A decision
is no statement, so rejecting it does not change which of its statements are held. -/
def heldEnvelopes (s : Signing) (quarantine : Quarantine) (statementDigests : List Digest) :
    Option (List DsseEnvelope) :=
  statementDigests.mapM fun statement =>
    if statement ∈ quarantine then none else s.statementEnvelopes[statement]?

def decisionReasons (decision : QuorumDecisionDocument) (envelopes : List DsseEnvelope) :
    Checked (List String) := do
  let result ← w.evaluateQuorum decision.spec.decisionType decision.spec.subjectDigest envelopes
    a.policy a.trustedTime
  let future ← a.evaluationTime.lt decision.spec.decidedAt
  pure (reasonIf (future = true) "quorum_decision_from_future" ++
    if result.valid then [] else result.reasons)

def judgeDecision (s : Signing) (quarantine : Quarantine) (decision : QuorumDecisionDocument) :
    Checked (List String) :=
  match heldEnvelopes s quarantine decision.spec.statementDigests with
  | none => pure ["quorum_statement_missing_or_invalid"]
  | some envelopes => w.decisionReasons a decision envelopes

abbrev Decided := Quarantine × List (Digest × QuorumDecisionDocument)

def recordDecision (decided : Decided) (digest : Digest) (decision : QuorumDecisionDocument)
    (codes : List String) : Decided :=
  let quarantine := if codes = [] then decided.1 else decided.1.reject digest codes
  (quarantine,
    if quarantine.getD digest ∅ = ∅ then decided.2 ++ [(digest, decision)] else decided.2)

def decisionsOf (parsed : List (Digest × Document)) : List (Digest × QuorumDecisionDocument) :=
  parsed.filterMap fun (digest, document) =>
    match document with
    | ⟨metadata, extensions, .quorumDecision spec⟩ => some (digest, ⟨metadata, extensions, spec⟩)
    | _ => none

def decideQuorums (s : Signing) (parsed : List (Digest × Document)) (quarantine : Quarantine) :
    Checked Decided :=
  (decisionsOf parsed).foldlM (fun decided (digest, decision) =>
    recordDecision decided digest decision <$> w.judgeDecision a s decided.1 decision)
    (quarantine, [])

def decisionsOn (derived : List (Digest × QuorumDecisionDocument)) (decisionType : Identifier)
    (subjectDigest : Digest) : List QuorumDecisionDocument :=
  (derived.map Prod.snd).filter fun decision =>
    decision.spec.decisionType == decisionType && decision.spec.subjectDigest == subjectDigest

def quorumFault (derived : List (Digest × QuorumDecisionDocument)) (subject : SignedSubject) :
    List String :=
  match requiredQuorum subject.subject.spec with
  | none => []
  | some decisionType =>
    reasonIf ((decisionsOn derived decisionType subject.digest).length ≠ 1)
      (decisionType ++ "_quorum_not_unique")

def requireQuorum (derived : List (Digest × QuorumDecisionDocument)) (_ : Quarantine)
    (subject : SignedSubject) : Checked Verdict :=
  pure (quorumFault derived subject, none)

/-- The statements about a subject that are not quarantined. -/
def standing (subjects : List SignedSubject) (quarantine : Quarantine) (digest : Digest) :
    List Digest :=
  match subjects.find? fun s => s.digest == digest with
  | some subject => subject.statements.filter (· ∉ quarantine)
  | none => []

def signedSubject (subjects : List SignedSubject) (digest : Digest) : Option Document :=
  (subjects.find? fun s => s.digest == digest).map (·.subject)

def producerStatements (s : Signing) (statements : List Digest) (producer : Identifier) :
    List Digest :=
  statements.filter fun statement =>
    s.roles[statement]? = some "projection_authority" ∧ s.principals[statement]? = some producer

def verifierStatements (s : Signing) (statements : List Digest) (producer : Identifier) :
    List Digest :=
  statements.filter fun statement =>
    s.roles[statement]? = some "projection_verifier" ∧ s.principals[statement]? ≠ some producer

def receiptReasons (s : Signing) (quarantine : Quarantine) (receiptDigest : Digest) :
    List String :=
  match signedSubject s.subjects receiptDigest with
  | some ⟨_, _, .runnerReceipt runner⟩ =>
    reasonIf (¬ ∃ statement ∈ standing s.subjects quarantine receiptDigest,
      s.principals[statement]? = some runner) "runner_receipt_principal_binding_mismatch"
  | _ => ["projection_runner_receipt_missing"]

def projectionSourceReasons (s : Signing) (quarantine : Quarantine) (sourceDigest : Digest) :
    List String :=
  match signedSubject s.subjects sourceDigest with
  | some ⟨_, _, .sourceArtifactEnvelope _⟩ =>
    reasonIf (standing s.subjects quarantine sourceDigest = [])
      "projection_source_envelope_not_authoritative"
  | _ => ["projection_source_envelope_missing"]

def pendingReasons (s : Signing) (quarantine : Quarantine)
    (derived : List (Digest × QuorumDecisionDocument)) (pendingDigest : Digest)
    (pending : PendingProjectionSpec) : List String :=
  let statements := standing s.subjects quarantine pendingDigest
  reasonIf ((decisionsOn derived "projection_promotion" pendingDigest).length ≠ 1)
    "projection_promotion_quorum_not_unique" ++
  reasonIf ((producerStatements s statements pending.producerPrincipalId).length ≠ 1)
    "projection_producer_statement_not_unique" ++
  reasonIf ((verifierStatements s statements pending.producerPrincipalId).length ≠ 1)
    "projection_verifier_statement_not_unique" ++
  receiptReasons s quarantine pending.runnerReceiptDigest ++
  projectionSourceReasons s quarantine pending.sourceArtifactEnvelopeDigest ++
  reasonIf (a.store a.tenantId pending.rawOutputDigest = none) "projection_raw_output_missing"

def buildApproval (pendingDigest : Digest) (pending : PendingProjection)
    (verifierPrincipal : Identifier) (approvedAt : DateTime) : Checked ProjectionApproval := do
  let spec ← ProjectionApprovalSpec.build
    ⟨pendingDigest, pending.spec.producerPrincipalId, verifierPrincipal, approvedAt⟩
  pure ⟨{ pending.metadata with
      objectId := "approval:" ++ pending.spec.projectionId, createdAt := approvedAt }, ∅, spec⟩

/-- Reconstruction of a projection that nothing stands against: each `cast` and index of
the source is a lookup that raises. -/
def promote (s : Signing) (quarantine : Quarantine)
    (derived : List (Digest × QuorumDecisionDocument)) (pendingDigest : Digest)
    (pending : PendingProjection) : Checked (ProjectionResult × Option Document) := do
  let statements := standing s.subjects quarantine pendingDigest
  let decision ← demand .keyError
    (decisionsOn derived "projection_promotion" pendingDigest).head?
  let verifier ← demand .keyError
    (verifierStatements s statements pending.spec.producerPrincipalId).head?
  let verifierPrincipal ← demand .keyError s.principals[verifier]?
  let approval ← buildApproval pendingDigest pending verifierPrincipal decision.spec.decidedAt
  let receipt ← demand .attributeError (signedSubject s.subjects pending.spec.runnerReceiptDigest)
  let source ← demand .attributeError
    (signedSubject s.subjects pending.spec.sourceArtifactEnvelopeDigest)
  let raw ← demand .keyError (a.store a.tenantId pending.spec.rawOutputDigest)
  match source.spec with
  | .sourceArtifactEnvelope spec =>
    w.reconstructProjection pending approval receipt ⟨source.metadata, source.extensions, spec⟩ raw
  | _ => .error (.crash .attributeError)

def judgePending (s : Signing) (derived : List (Digest × QuorumDecisionDocument))
    (quarantine : Quarantine) (digest : Digest) (pending : PendingProjection) :
    Checked Verdict :=
  let reasons := pendingReasons a s quarantine derived digest pending.spec
  if reasons ≠ [] then pure (reasons, none)
  else do
    let (projection, document) ← w.promote a s quarantine derived digest pending
    if projection.promoted = true ∧ document.isSome then pure ([], document)
    else
      pure (if projection.reasons = [] then ["projection_reconstruction_failed"]
        else projection.reasons, none)

def promoteProjection (s : Signing) (derived : List (Digest × QuorumDecisionDocument))
    (quarantine : Quarantine) (subject : SignedSubject) : Checked Verdict :=
  match subject.subject with
  | ⟨metadata, extensions, .pendingProjection spec⟩ =>
    if spec.changesAuthoritativeState then
      w.judgePending a s derived quarantine subject.digest ⟨metadata, extensions, spec⟩
    else pure ([], none)
  | _ => pure ([], none)

def auditEvents (parsed : List (Digest × Document)) (quarantine : Quarantine) : List AuditEvent :=
  parsed.filterMap fun (_, document) =>
    match document with
    | ⟨metadata, extensions, .auditEvent spec⟩ =>
      if w.document document ∈ quarantine then none else some ⟨metadata, extensions, spec⟩
    | _ => none

def instant (time : DateTime) : ℤ := time.wall - time.offset.getD 0

/-- The stable sort by time raises when times of both kinds occur. -/
def sortEvents (events : List AuditEvent) : Checked (List AuditEvent) :=
  if ∀ e ∈ events, ∀ f ∈ events, e.spec.occurredAt.Comparable f.spec.occurredAt then
    .ok (events.mergeSort fun e f => instant e.spec.occurredAt ≤ instant f.spec.occurredAt)
  else .error (.crash .typeError)

/-- The reasons from an index on, and the digest of the last event. -/
def historyFrom (index : ℕ) (prior : Option Digest) (identifiers : List Identifier) :
    List AuditEvent → List String × Option Digest
  | [] => ([], prior)
  | event :: events =>
    let rest := historyFrom (index + 1) (some (w.document (event.document .auditEvent)))
      (event.spec.eventId :: identifiers) events
    (reasonIf (event.spec.eventId ∈ identifiers) "history_event_id_duplicate" ++
      reasonIf (event.spec.priorEventDigest ≠ prior) ("history_chain_broken:" ++ toString index) ++
      rest.1, rest.2)

def validateHistory (events : List AuditEvent) (expectedHead : Digest) : List String :=
  let checked := w.historyFrom 0 none [] events
  normalized (checked.1 ++ reasonIf (checked.2 ≠ some expectedHead) "history_head_mismatch")

/-- The subjects with a statement that stands, the kept decisions and the promoted
documents; of two documents with one digest the later stands. -/
def authoritativeObjects (subjects : List SignedSubject) (quarantine : Quarantine)
    (derived : List (Digest × QuorumDecisionDocument)) (promoted : List Document) : Objects :=
  let signed := subjects.filter fun s => s.statements.any (· ∉ quarantine)
  let documents := signed.map (fun s => (s.digest, s.subject)) ++
    derived.map (fun d => (d.1, d.2.document .quorumDecision)) ++
    promoted.map fun d => (w.document d, d)
  documents.foldl (fun m entry => m.insert entry.1 entry.2) ∅

def quarantineReasons (quarantine : Quarantine) : Finset String :=
  quarantine.toList.foldl (fun reasons entry =>
    reasons ∪ entry.2.image fun code => code ++ ":" ++ entry.1) ∅

def view (s : Signing) (quarantine : Quarantine)
    (derived : List (Digest × QuorumDecisionDocument)) (promoted : List Document)
    (reasons : List String) : AuthoritativeView :=
  let reasons := reasons.toFinset ∪ quarantineReasons quarantine
  let active := s.principals.filter fun digest _ => digest ∉ quarantine
  { valid := decide (reasons = ∅)
    generation := a.generation
    objects := w.authoritativeObjects s.subjects quarantine derived promoted
    signedSubjects := .ofList (s.subjects.map fun item => (item.digest, item.subject))
    statementEnvelopes := s.statementEnvelopes
    subjectStatements :=
      .ofList (s.subjects.map fun item => (item.digest, item.statements.mergeSort))
    subjectPrincipals := .ofList (s.subjects.map fun item =>
      (item.digest, (item.statements.filterMap (active[·]?)).toFinset))
    statementPrincipals := active
    statementRoles := s.roles.filter fun digest _ => digest ∉ quarantine
    quarantined := quarantine
    reasons := reasons }

def activeReasons (s : Signing) : List String :=
  let signed := s.subjects.map (·.digest)
  reasonIf (w.document (a.policy.document .trustPolicy) ∉ signed)
    "active_trust_policy_not_signed_in_generation" ++
  reasonIf (w.document (a.trustedTime.document .trustedTimeReceipt) ∉ signed)
    "active_trusted_time_not_signed_in_generation"

def loadAuthoritativeGeneration : Checked AuthoritativeView := do
  let ledgerReasons ← w.validateLedger a
  let (parsed, quarantine) := w.parseEntries a
  exactInteger a.policy.spec.policySequence
  let s ← w.signStatements a parsed quarantine
  let (checked, _) ← inspectSubjects (w.checkSubject a s) s.subjects
    (s.quarantine, ledgerReasons ++ w.activeReasons a s)
  let (quarantine, derived) ← w.decideQuorums a s parsed (rejectUnsigned parsed checked.1)
  let (required, _) ← inspectSubjects (requireQuorum derived) s.subjects (quarantine, checked.2)
  let (findings, promoted) ← inspectSubjects (w.promoteProjection a s derived) s.subjects required
  let events ← sortEvents (w.auditEvents parsed findings.1)
  pure (w.view a s findings.1 derived promoted
    (findings.2 ++ w.validateHistory events a.generation.spec.historyHeadDigest))

end Authority

end CollectivePhaseControl
