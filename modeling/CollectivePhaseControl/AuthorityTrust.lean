import CollectivePhaseControl.RunnerGateway

/-! Trust in signed statements: the policy's own consistency, the verification of an
envelope under a policy and a trusted time, quorums of envelopes, and the pinned genesis
policy. A check that fails adds a reason; ordering a time that carries an offset against
one that does not raises, and so does a root key that cannot be read. -/
namespace CollectivePhaseControl

abbrev Members := List (String × Json)

inductive AuthorityStatus where
  | active | quarantined | superseded
deriving DecidableEq, Repr

structure LedgerEntry where
  objectDigest : Digest
  objectKind : Identifier
  authorityStatus : AuthorityStatus
  sourceDigests : List Digest
deriving DecidableEq

structure WorkspaceGenerationSpec where
  generationDigest : Digest
  priorGenerationDigest : Option Digest
  sequence : ℕ
  analysisSnapshotDigest : Option Digest
  ledger : List LedgerEntry
  historyHeadDigest : Digest
deriving DecidableEq

abbrev WorkspaceGeneration := Typed WorkspaceGenerationSpec

/-- The `protected` part of a signed payload; its constants are fixed by the type. -/
structure ProtectedHeader where
  schemaName : Identifier
  schemaDigest : Digest
  payloadDigest : Digest
  keyId : Identifier
  principalId : Identifier
  role : Identifier
  sourceSystem : Identifier
  scope : List Identifier
  tenantId : Identifier
  workspaceId : Identifier
  signingTime : DateTime
  policySequence : ℕ
  trustedTimeReceiptDigest : Option Digest
deriving DecidableEq

structure SignedPayload where
  header : ProtectedHeader
  subject : Members

/-- The two exceptions that decoding a payload may raise. A model validator that orders
times raises the second. -/
inductive ParseError where
  | valueError (text : String)
  | typeError (text : String)
deriving DecidableEq

def ParseError.text : ParseError → String
  | valueError text => text
  | typeError text => text

inductive PublicKey where
  | ed25519 (encoded : Bytes)
  | p256 (point : Bytes)
deriving DecidableEq

/-- What `load_der_public_key` makes of its argument. -/
inductive DerKey where
  | p256 (point : Bytes)
  | otherKey
  | malformed
  | unsupported

inductive KeyFault where
  | valueError (text : String)
  | unsupportedAlgorithm
deriving DecidableEq

/-- Hashing, canonical bytes, the parsers and the signature schemes. A parsed document
is of a registered kind. -/
structure Authority where
  document : Document → Digest
  generation : WorkspaceGeneration → Digest
  envelope : DsseEnvelope → Digest
  digestBytes : Bytes → Digest
  canonical : Json → Option Bytes
  schema : Identifier → Option Digest
  base64 : String → Except String Bytes
  loads : Bytes → Except String Members
  payload : Members → Except String SignedPayload
  parse : Members → Except ParseError Document
  derKey : Bytes → DerKey
  spki : PublicKey → Bytes
  verifies : PublicKey → Bytes → Bytes → Bool
  registered : ∀ {members d}, parse members = .ok d → (schema d.spec.kind).isSome

structure VerificationResult where
  valid : Bool
  code : String
  reasons : List String
  documentDigest : Option Digest
  principalId : Option Identifier
  role : Option Identifier
  header : Option ProtectedHeader
deriving DecidableEq

/-- `sorted(set(reasons))`. -/
def normalized (reasons : List String) : List String := reasons.dedup.mergeSort

@[simp] theorem mem_normalized {reason : String} {reasons : List String} :
    reason ∈ normalized reasons ↔ reason ∈ reasons := by
  simp [normalized]

@[simp] theorem normalized_eq_nil {reasons : List String} :
    normalized reasons = [] ↔ reasons = [] := by
  simp only [List.eq_nil_iff_forall_not_mem, mem_normalized]

namespace Authority
variable (w : Authority)

def schemaDigest (name : Identifier) : Checked Digest := demand .valueError (w.schema name)

def decode (envelope : DsseEnvelope) : Except ParseError (Bytes × SignedPayload × Document) := do
  let payloadBytes ← (w.base64 envelope.payload).mapError .valueError
  let rawPayload ← (w.loads payloadBytes).mapError .valueError
  let payload ← (w.payload rawPayload).mapError .valueError
  let document ← w.parse payload.subject
  pure (payloadBytes, payload, document)

def publicKey (principal : Principal) : Except KeyFault PublicKey :=
  match w.base64 principal.publicKeyBase64, principal.algorithm with
  | .error _, _ => .error (.valueError "public_key_base64_invalid")
  | .ok encoded, .ed25519 =>
    if encoded.length = 32 then .ok (.ed25519 encoded)
    else .error (.valueError "ed25519_public_key_length_invalid")
  | .ok encoded, .ecdsaP256Sha256 =>
    match w.derKey encoded with
    | .p256 point => .ok (.p256 point)
    | .otherKey => .error (.valueError "ecdsa_public_key_curve_invalid")
    | .malformed => .error (.valueError "ecdsa_public_key_der_invalid")
    | .unsupported => .error .unsupportedAlgorithm

def publicKeyFingerprint (principal : Principal) : Except KeyFault Digest :=
  (w.publicKey principal).map fun key => w.digestBytes (w.spki key)

def p256Order : ℕ := 0xFFFFFFFF00000000FFFFFFFFFFFFFFFFBCE6FAADA7179E84F3B9CAC2FC632551

def bigEndian (bytes : Bytes) : ℕ := bytes.foldl (fun value byte => 256 * value + byte.toNat) 0

def utf8 (text : String) : Bytes := text.toUTF8.toList

def dssePae (payloadType : String) (payload : Bytes) : Bytes :=
  utf8 "DSSEv1 " ++ utf8 (toString (utf8 payloadType).length) ++ utf8 " " ++ utf8 payloadType ++
    utf8 " " ++ utf8 (toString payload.length) ++ utf8 " " ++ payload

/-- Whether `_verify_signature` returns; whatever it raises is caught by its caller. -/
def verifySignature (principal : Principal) (message signature : Bytes) : Bool :=
  match w.publicKey principal with
  | .error _ => false
  | .ok (.ed25519 encoded) => w.verifies (.ed25519 encoded) message signature
  | .ok (.p256 point) =>
    let r := bigEndian (signature.take 32)
    let s := bigEndian (signature.drop 32)
    signature.length == 64 && 0 < r && r < p256Order && 0 < s && s ≤ p256Order / 2 &&
      w.verifies (.p256 point) message signature

/-- A principal's fingerprint, if its key can be read, and what is wrong with it. -/
def principalReasons (principal : Principal) : Checked (Option Digest × List String) := do
  let (fingerprint, unreadable) ← match w.publicKeyFingerprint principal with
    | .ok digest => .ok (some digest, [])
    | .error (.valueError text) => .ok (none, [text])
    | .error .unsupportedAlgorithm => .error (.crash .unsupportedAlgorithm)
  let ended ← principal.validUntil.le principal.validFrom
  pure (fingerprint, unreadable ++
    reasonIf (ended = true) "principal_validity_interval_invalid" ++
    reasonIf (principal.compromisedAt.isSome ∧ principal.revokedAt = none)
      "compromise_requires_revocation")

def rootReasons (policy : TrustPolicyDocument) : List String :=
  match policy.spec.principals.filter fun p => p.roles.contains "workspace_root" with
  | [root] => reasonIf (root.keyId ≠ policy.spec.rootKeyId)
      "exactly_one_matching_workspace_root_required"
  | _ => ["exactly_one_matching_workspace_root_required"]

def validatePolicy (policy : TrustPolicyDocument) : Checked (List String) := do
  let principals := policy.spec.principals
  let checked ← principals.mapM w.principalReasons
  pure (normalized (
    reasonIf (¬ (principals.map (·.principalId)).Nodup) "duplicate_principal_id" ++
    reasonIf (¬ (principals.map (·.keyId)).Nodup) "duplicate_key_id" ++
    checked.flatMap Prod.snd ++
    reasonIf (¬ (checked.filterMap Prod.fst).Nodup) "public_key_reused_by_multiple_principals" ++
    rootReasons policy ++
    reasonIf (¬ (policy.spec.quorumRules.map (·.decisionType)).Nodup)
      "duplicate_quorum_decision_type" ++
    reasonIf (policy.spec.policySequence = 0 ∧ policy.spec.priorPolicyDigest ≠ none)
      "genesis_policy_cannot_have_predecessor" ++
    reasonIf (0 < policy.spec.policySequence ∧ policy.spec.priorPolicyDigest = none)
      "non_genesis_policy_requires_predecessor"))

/-- `_principal`: the only principal of this key and name. -/
def principal (policy : TrustPolicyDocument) (keyId principalId : Identifier) : Option Principal :=
  match policy.spec.principals.filter fun p => p.keyId == keyId && p.principalId == principalId with
  | [found] => some found
  | _ => none

/-- `_time_status`. -/
def timeStatus (principal : Principal) (signedAt authoritativeTime : DateTime) :
    Checked (List String) := do
  let future ← authoritativeTime.lt signedAt
  let early ← signedAt.lt principal.validFrom
  -- `or` looks at its second comparison only if the first one fails.
  let outside ← if early then pure true else principal.validUntil.lt signedAt
  let revoked ← match principal.revokedAt, principal.revocationMode, principal.compromisedAt with
    | none, _, _ => pure []
    | some revokedAt, .prospective, _ => do
      pure (reasonIf ((← revokedAt.le signedAt) = true) "signature_after_revocation")
    | some _, .retroactive, none => pure ["signature_invalidated_by_retroactive_revocation"]
    | some _, .retroactive, some cutoff => do
      pure (reasonIf ((← cutoff.le signedAt) = true)
        "signature_invalidated_by_retroactive_revocation")
  pure (reasonIf (future = true) "signature_from_future" ++
    reasonIf (outside = true) "signing_time_outside_key_validity" ++ revoked)

/-- The time a signature is judged at, and what is wrong with it. -/
def authoritativeTime (header : ProtectedHeader) (document : Document)
    (trustedTime : Option TrustedTimeReceipt) : Checked (Option DateTime × List String) :=
  match trustedTime, document.spec with
  | some receipt, _ => do
    let expired ← receipt.spec.validUntil.lt receipt.spec.issuedAt
    pure (some receipt.spec.issuedAt,
      reasonIf (header.trustedTimeReceiptDigest ≠
        some (w.document (receipt.document .trustedTimeReceipt)))
        "trusted_time_receipt_binding_mismatch" ++
      reasonIf (expired = true) "trusted_time_receipt_expired_at_issue")
  | none, .trustedTimeReceipt spec => do
    let expired ← spec.validUntil.lt spec.issuedAt
    pure (some spec.issuedAt,
      reasonIf (spec.authorityPrincipalId ≠ header.principalId)
        "trusted_time_authority_principal_mismatch" ++
      reasonIf (expired = true) "trusted_time_receipt_expired_at_issue")
  | none, .trustPolicy spec =>
    -- Genesis cannot establish wall-clock time.
    if spec.policySequence = 0 then pure (some header.signingTime, [])
    else pure (none, ["authoritative_time_receipt_required"])
  | none, _ => pure (none, ["authoritative_time_receipt_required"])

def bindingReasons (policy : TrustPolicyDocument) (header : ProtectedHeader) (document : Document)
    (schema : Digest) : List String :=
  reasonIf (header.schemaName ≠ document.spec.kind) "schema_kind_mismatch" ++
  reasonIf (header.schemaDigest ≠ schema) "schema_digest_mismatch" ++
  reasonIf (header.payloadDigest ≠ w.document document) "payload_digest_mismatch" ++
  reasonIf (header.tenantId ≠ document.metadata.tenantId) "tenant_binding_mismatch" ++
  reasonIf (header.workspaceId ≠ document.metadata.workspaceId) "workspace_binding_mismatch" ++
  reasonIf (policy.spec.policySequence < header.policySequence) "policy_sequence_from_future"

def signed (envelope : DsseEnvelope) (payloadBytes : Bytes) (principal : Principal) : Bool :=
  envelope.signatures.any fun entry =>
    match w.base64 entry.sig with
    | .ok signature =>
      w.verifySignature principal (dssePae envelope.payloadType payloadBytes) signature
    | .error _ => false

def principalChecks (envelope : DsseEnvelope) (payloadBytes : Bytes) (header : ProtectedHeader)
    (document : Document) (time : Option DateTime) (principal : Principal) :
    Checked (List String) := do
  let times ← match time with
    | some time => timeStatus principal header.signingTime time
    | none => pure []
  pure (reasonIf (header.role ∉ principal.roles) "role_not_authorized" ++
    reasonIf (header.sourceSystem ∉ principal.sourceSystems) "source_system_not_authorized" ++
    reasonIf (document.spec.kind ∉ principal.allowedKinds) "document_kind_not_authorized" ++
    reasonIf (¬ header.scope ⊆ principal.scope) "scope_not_authorized" ++ times ++
    reasonIf (w.signed envelope payloadBytes principal = false) "signature_invalid")

/-- `verify_envelope` once the payload is decoded. -/
def verifyDecoded (envelope : DsseEnvelope) (policy : TrustPolicyDocument)
    (trustedTime : Option TrustedTimeReceipt) (policyReasons : List String) (payloadBytes : Bytes)
    (header : ProtectedHeader) (document : Document) : Checked VerificationResult := do
  let schema ← w.schemaDigest document.spec.kind
  let (time, timeReasons) ← w.authoritativeTime header document trustedTime
  let principalReasons ← match principal policy header.keyId header.principalId with
    | some principal => w.principalChecks envelope payloadBytes header document time principal
    | none => pure ["pinned_principal_unknown_or_ambiguous"]
  let reasons := normalized (policyReasons ++ w.bindingReasons policy header document schema ++
    timeReasons ++ principalReasons)
  pure {
    valid := reasons.isEmpty
    code := if reasons.isEmpty then "verified" else "statement_not_verified"
    reasons := reasons
    documentDigest := some (w.document document)
    principalId := some header.principalId
    role := some header.role
    header := some header }

def refused (code : String) (reasons : List String) : VerificationResult :=
  ⟨false, code, reasons, none, none, none, none⟩

def verifyEnvelope (envelope : DsseEnvelope) (policy : TrustPolicyDocument)
    (trustedTime : Option TrustedTimeReceipt) : Checked (VerificationResult × Option Document) := do
  let reasons ← w.validatePolicy policy
  match w.decode envelope with
  | .error error => pure (refused "signed_payload_invalid" [error.text], none)
  | .ok (payloadBytes, payload, document) =>
    let result ←
      w.verifyDecoded envelope policy trustedTime reasons payloadBytes payload.header document
    pure (result, some document)

/-- The valid envelopes with their principals, or the digest of the first valid envelope
about another subject. -/
def quorumMembers (subjectDigest : Digest) (policy : TrustPolicyDocument)
    (trustedTime : TrustedTimeReceipt) :
    List DsseEnvelope → Checked (Except Digest (List (VerificationResult × Principal)))
  | [] => pure (.ok [])
  | envelope :: envelopes => do
    let (result, _) ← w.verifyEnvelope envelope policy (some trustedTime)
    match result.valid, result.header with
    | true, some header =>
      if header.payloadDigest ≠ subjectDigest then pure (.error header.payloadDigest)
      else
        let rest ← quorumMembers subjectDigest policy trustedTime envelopes
        match principal policy header.keyId header.principalId with
        | some principal => pure (rest.map ((result, principal) :: ·))
        | none => pure rest
    | _, _ => quorumMembers subjectDigest policy trustedTime envelopes

def quorumReasons (rule : QuorumRule) (members : List (VerificationResult × Principal)) :
    List String :=
  let roles := members.filterMap fun member => member.1.role
  reasonIf (roles.toFinset ≠ rule.requiredRoles.toFinset ∨
    roles.length ≠ rule.requiredRoles.length) "required_quorum_roles_not_satisfied" ++
  reasonIf (¬ (members.map fun member => member.2.principalId).Nodup)
    "quorum_principal_id_collision" ++
  reasonIf (¬ (members.map fun member => member.2.keyId).Nodup) "quorum_key_id_collision" ++
  reasonIf (rule.distinctInfrastructure = true ∧
    ¬ (members.map fun member => member.2.infrastructureDomain).Nodup)
    "quorum_infrastructure_collision" ++
  reasonIf (rule.distinctCorrelation = true ∧
    ¬ (members.map fun member => member.2.correlationDomain).Nodup) "quorum_correlation_collision"

def evaluateQuorum (decisionType : Identifier) (subjectDigest : Digest)
    (envelopes : List DsseEnvelope) (policy : TrustPolicyDocument)
    (trustedTime : TrustedTimeReceipt) : Checked VerificationResult :=
  match policy.spec.quorumRules.find? fun rule => rule.decisionType == decisionType with
  | none => pure (refused "quorum_rule_missing" [decisionType])
  | some rule => do
    match ← w.quorumMembers subjectDigest policy trustedTime envelopes with
    | .error other => pure (refused "quorum_subject_mismatch" [other])
    | .ok members =>
      let reasons := normalized (quorumReasons rule members)
      pure {
        valid := reasons.isEmpty
        code := if reasons.isEmpty then "quorum_satisfied" else "quorum_not_satisfied"
        reasons := reasons
        documentDigest := some subjectDigest
        principalId := none
        role := none
        header := none }

/-- The root's fingerprint; here nothing catches what reading its key raises. -/
def rootFingerprint (policy : TrustPolicySpec) : Checked (Option Digest) :=
  match policy.principals.find? fun p => p.keyId == policy.rootKeyId with
  | none => pure none
  | some root =>
    match w.publicKeyFingerprint root with
    | .ok digest => pure (some digest)
    | .error (.valueError _) => .error (.crash .valueError)
    | .error .unsupportedAlgorithm => .error (.crash .unsupportedAlgorithm)

def inspectGenesis (envelope : DsseEnvelope) (expectedRootSpkiFingerprint : Digest)
    (expectedEnvelopeFingerprint : Digest) : Checked VerificationResult :=
  let pinned := reasonIf (w.envelope envelope ≠ expectedEnvelopeFingerprint)
    "genesis_envelope_fingerprint_mismatch"
  match w.decode envelope with
  | .error error => pure (refused "genesis_invalid" [error.text])
  | .ok (_, _, ⟨metadata, extensions, .trustPolicy spec⟩) =>
    if spec.policySequence = 0 then do
      let root ← w.rootFingerprint spec
      let (result, _) ← w.verifyEnvelope envelope ⟨metadata, extensions, spec⟩ none
      let reasons := normalized (pinned ++
        reasonIf (root ≠ some expectedRootSpkiFingerprint)
          "genesis_root_spki_fingerprint_mismatch" ++ result.reasons)
      pure {
        valid := reasons.isEmpty
        code := if reasons.isEmpty then "genesis_verified" else "genesis_invalid"
        reasons := reasons
        documentDigest := some (w.document ⟨metadata, extensions, .trustPolicy spec⟩)
        principalId := none
        role := none
        header := none }
    else pure (refused "genesis_invalid" (pinned ++ ["genesis_policy_required"]))
  | .ok _ => pure (refused "genesis_invalid" (pinned ++ ["genesis_policy_required"]))

end Authority

end CollectivePhaseControl
