import CollectivePhaseControl.AuthorityScopes

/-! When the passes cannot outlive each other. Evidence whose envelope passes the check of its
own raw bytes, and decisions about subjects that the last passes accept, keep what they rest on;
both can be read off the ledger and the object store. -/
namespace CollectivePhaseControl

namespace Authority
variable (w : Authority) (a : LoadArguments) {t : Trace}

def Lists (digest : Digest) (document : Document) : Prop :=
  digest ∈ liveDigests a ∧ w.parseEntry a digest = .ok document

def ListsStatement (digest : Digest) (envelope : DsseEnvelope) : Prop :=
  ∃ document, w.Lists a digest document ∧ document.spec = .signedStatement envelope

def Attests (statement : Digest) (v : VerificationResult) (subject : Document) : Prop :=
  ∃ envelope, w.ListsStatement a statement envelope ∧
    w.judgeStatement a envelope = .ok (.admitted v subject)

def Attested (d : Document) : Prop := ∃ statement v, w.Attests a statement v d

def Projects (p : PendingProjection) (d : Document) : Prop :=
  w.Attested a (p.document .pendingProjection) ∧ p.spec.changesAuthoritativeState = true ∧
    ∃ raw, a.store a.tenantId p.spec.rawOutputDigest = some raw ∧
      w.projected raw p.spec.jsonPointer = .ok (.ok d)

/-- A source envelope that may come into the view. -/
def Offered (s : SourceArtifactEnvelope) : Prop :=
  w.Attested a (s.document .sourceArtifactEnvelope) ∨
    ∃ p, w.Projects a p (s.document .sourceArtifactEnvelope)

def PointsRight (e : EvidenceAttestation) : Prop :=
  ∃ raw, a.store e.metadata.tenantId e.spec.rawArtifactDigest = some raw ∧
    w.selectedDigest raw e.spec.jsonPointer = some e.spec.projectedDigest

def Passes (decision : QuorumDecisionDocument) : Prop :=
  (∃ digest, w.Lists a digest (decision.document .quorumDecision)) ∧
    ∃ envelopes, List.Forall₂ (w.ListsStatement a) decision.spec.statementDigests envelopes ∧
      w.decisionReasons a decision envelopes = .ok []

def neededQuorum : DocumentSpec → Option Identifier
  | .pendingProjection spec =>
    if spec.changesAuthoritativeState then some "projection_promotion" else none
  | spec => requiredQuorum spec

/-- The raw output has the digests, the length and the schema that the projection and its
source declare, and the projected document in it. -/
structure Reconstructs (p : PendingProjection) (s : SourceArtifactEnvelope) (raw : Bytes) :
    Prop where
  output : w.digestBytes raw = p.spec.rawOutputDigest
  source : w.digestBytes raw = s.spec.rawDigest
  length : raw.length = s.spec.byteLength
  schema : w.schema p.spec.expectedSchemaName = some p.spec.expectedSchemaDigest
  sourceName : s.spec.expectedSchemaName = p.spec.expectedSchemaName
  sourceSchema : s.spec.expectedSchemaDigest = p.spec.expectedSchemaDigest
  selected : ∃ d, w.projected raw p.spec.jsonPointer = .ok (.ok d) ∧
    d.spec.kind = p.spec.expectedSchemaName ∧ w.document d = p.spec.projectedDigest

/-- What the promotion of a projection needs besides its quorum. -/
structure Promotable (p : PendingProjection) : Prop where
  producer : ∃! statement, ∃ v, w.Attests a statement v (p.document .pendingProjection) ∧
    v.role = some "projection_authority" ∧ v.principalId = some p.spec.producerPrincipalId
  verifier : ∃! statement, ∃ v, w.Attests a statement v (p.document .pendingProjection) ∧
    v.role = some "projection_verifier" ∧ v.principalId ≠ some p.spec.producerPrincipalId
  receipt : ∃ metadata extensions runner statement v,
    w.Attests a statement v ⟨metadata, extensions, .runnerReceipt runner⟩ ∧
      v.principalId = some runner ∧
      w.document ⟨metadata, extensions, .runnerReceipt runner⟩ = p.spec.runnerReceiptDigest
  source : ∃ (s : SourceArtifactEnvelope) (raw : Bytes),
    w.Attested a (s.document .sourceArtifactEnvelope) ∧
      w.document (s.document .sourceArtifactEnvelope) = p.spec.sourceArtifactEnvelopeDigest ∧
      w.validateSourceEnvelope a s = [] ∧ a.store a.tenantId p.spec.rawOutputDigest = some raw ∧
      w.Reconstructs p s raw

/-- No document of the ledger rests on one that a later pass takes away. -/
structure Orderly : Prop where
  evidence : ∀ (e : EvidenceAttestation) (s : SourceArtifactEnvelope),
    w.Attested a (e.document .evidence) → w.PointsRight a e →
    w.Attested a (s.document .sourceArtifactEnvelope) → sourceOf e s = true →
    (∀ s', w.Attested a (s'.document .sourceArtifactEnvelope) → sourceOf e s' = true → s' = s) →
    w.validateSourceEnvelope a s = [] ∧
      ∀ p s', w.Projects a p (s'.document .sourceArtifactEnvelope) → sourceOf e s' = true → s' = s
  projected : ∀ (p : PendingProjection) (e : EvidenceAttestation),
    w.Projects a p (e.document .evidence) →
    ∃ s : SourceArtifactEnvelope, w.Attested a (s.document .sourceArtifactEnvelope) ∧
      sourceOf e s = true ∧ w.validateSourceEnvelope a s = [] ∧
      ∀ s', w.Offered a s' → sourceOf e s' = true → s' = s
  signed : ∀ decision : QuorumDecisionDocument,
    ¬ w.Attested a (decision.document .quorumDecision) ∧
      ∀ p, ¬ w.Projects a p (decision.document .quorumDecision)
  quorums : ∀ decision, w.Passes a decision → ∀ statement ∈ decision.spec.statementDigests,
    ∀ v x, w.Attests a statement v x → ∀ decisionType ∈ neededQuorum x.spec,
      decision.spec.decisionType = decisionType ∧ decision.spec.subjectDigest = w.document x ∧
        ∀ other, w.Passes a other → other.spec.decisionType = decisionType →
          other.spec.subjectDigest = w.document x → other = decision
  projections : ∀ decision, w.Passes a decision → ∀ statement ∈ decision.spec.statementDigests,
    ∀ v (p : PendingProjection), w.Attests a statement v (p.document .pendingProjection) →
      p.spec.changesAuthoritativeState = true → w.Promotable a p

def attestations : List (Digest × VerificationResult × Document) :=
  (statementsOf (w.parseEntries a).1).filterMap fun p =>
    match w.judgeStatement a p.2 with
    | .ok (.admitted v x) => some (p.1, v, x)
    | _ => none

variable {w a}

theorem listsStatement_iff {d : Digest} {envelope : DsseEnvelope} :
    w.ListsStatement a d envelope ↔ (d, envelope) ∈ statementsOf (w.parseEntries a).1 := by
  unfold ListsStatement Lists
  simp only [mem_statementsOf, w.mem_parsed a]

theorem mem_attestations {statement : Digest} {v : VerificationResult} {x : Document} :
    (statement, v, x) ∈ w.attestations a ↔ w.Attests a statement v x := by
  unfold attestations Attests
  simp only [List.mem_filterMap, listsStatement_iff]
  constructor
  · rintro ⟨⟨digest, envelope⟩, listed, found⟩
    dsimp only at found
    split at found
    · rename_i judged
      cases Option.some.inj found
      exact ⟨envelope, listed, judged⟩
    · cases found
  · rintro ⟨envelope, listed, judged⟩
    exact ⟨(statement, envelope), listed, by simp [judged]⟩

theorem attests_iff {statement : Digest} {v : VerificationResult} {x : Document} :
    w.Attests a statement v x ↔
      w.Outcome a (statementsOf (w.parseEntries a).1) statement (.admitted v x) := by
  unfold Attests Outcome Judged
  simp only [listsStatement_iff]

theorem admits_iff {statement : Digest} {x : Document} :
    w.Admits a (statementsOf (w.parseEntries a).1) statement x ↔
      ∃ v, w.Attests a statement v x := by
  unfold Admits
  simp only [attests_iff, subject_eq_some]
  constructor
  · rintro ⟨j, outcome, v, rfl⟩
    exact ⟨v, outcome⟩
  · rintro ⟨v, outcome⟩
    exact ⟨_, outcome, v, rfl⟩

theorem Loads.attested_iff (loads : w.Loads a t) (free : w.CollisionFree) {x : Document} :
    w.Attested a x ↔ ∃ y ∈ t.signing.subjects, y.subject = x := by
  constructor
  · rintro ⟨statement, attests⟩
    exact loads.subject_of_admits free (admits_iff.mpr attests)
  · rintro ⟨y, listed, rfl⟩
    obtain ⟨-, statement, admits⟩ := (loads.signs free).own y listed
    exact ⟨statement, admits_iff.mp admits⟩

theorem Loads.mem_statements (loads : w.Loads a t) (free : w.CollisionFree) {x : SignedSubject}
    (listed : x ∈ t.signing.subjects) {statement : Digest} :
    statement ∈ x.statements ↔ ∃ v, w.Attests a statement v x.subject := by
  have signs := loads.signs free
  rw [← admits_iff, signs.statements x listed statement]
  constructor
  · rintro ⟨subject, admits, same⟩
    rw [(signs.own x listed).1] at same
    rwa [← free _ _ admits.parses (signs.subject_parses listed) same]
  · intro admits
    exact ⟨_, admits, ((signs.own x listed).1).symm⟩

theorem Loads.signer (loads : w.Loads a t) (free : w.CollisionFree) {statement : Digest}
    {v : VerificationResult} {x : Document} (attests : w.Attests a statement v x) :
    t.signing.principals[statement]? = v.principalId ∧
      t.signing.roles[statement]? = v.role := by
  have signs := loads.signs free
  have outcome := attests_iff.mp attests
  have only : ∀ j, w.Outcome a (statementsOf (w.parseEntries a).1) statement j →
      j = .admitted v x := fun j other => outcome_unique nodup_statements other outcome
  constructor
  · ext principal
    rw [signs.principals]
    constructor
    · rintro ⟨j, other, found⟩
      rwa [only j other] at found
    · intro found
      exact ⟨_, outcome, found⟩
  · ext role
    rw [signs.roles]
    constructor
    · rintro ⟨j, other, found⟩
      rwa [only j other] at found
    · intro found
      exact ⟨_, outcome, found⟩

theorem forall₂_of_mapM {α β : Type} {f : α → Option β} : ∀ {xs : List α} {ys : List β},
    xs.mapM f = some ys → List.Forall₂ (fun x y => f x = some y) xs ys := by
  intro xs
  induction xs with
  | nil =>
    intro ys run
    cases Option.some.inj run
    exact .nil
  | cons x xs ih =>
    intro ys run
    simp only [List.mapM_cons, Option.bind_eq_bind, Option.bind_eq_some_iff] at run
    obtain ⟨y, head, rest, tail, same⟩ := run
    cases Option.some.inj same
    exact .cons head (ih tail)

theorem Loads.lists_decision {d : Digest} {decision : QuorumDecisionDocument}
    (listed : (d, decision) ∈ decisionsOf (w.parseEntries a).1) :
    w.Lists a d (decision.document .quorumDecision) :=
  (w.mem_parsed a).mp (mem_decisionsOf.mp listed)

theorem Loads.passes_of_kept (loads : w.Loads a t) (free : w.CollisionFree) {d : Digest}
    {decision : QuorumDecisionDocument} (kept : (d, decision) ∈ t.decided.2) :
    w.Passes a decision := by
  obtain ⟨listed, clean⟩ := ((loads.decided_spec free).derived d decision).mp kept
  refine ⟨⟨d, Loads.lists_decision listed⟩, ?_⟩
  unfold judgeDecision at clean
  split at clean
  · cases Except.ok.inj clean
  · rename_i envelopes held
    refine ⟨envelopes, (forall₂_of_mapM held).imp fun statement envelope found => ?_, clean⟩
    split at found
    · cases found
    · obtain ⟨_, among, -⟩ := ((loads.signs free).envelopes statement envelope).mp found
      exact listsStatement_iff.mpr among

theorem filter_eq_singleton {α : Type} {p : α → Bool} {xs : List α} {x : α} (distinct : xs.Nodup)
    (among : x ∈ xs) (chosen : p x = true) (only : ∀ y ∈ xs, p y = true → y = x) :
    xs.filter p = [x] := by
  apply List.perm_singleton.mp
  refine (List.perm_ext_iff_of_nodup (distinct.filter p) (List.nodup_singleton x)).mpr fun y => ?_
  rw [List.mem_filter, List.mem_singleton]
  constructor
  · rintro ⟨listed, passes⟩
    exact only y listed passes
  · rintro rfl
    exact ⟨among, chosen⟩

theorem Loads.chosen (loads : w.Loads a t) (free : w.CollisionFree) {x : SignedSubject}
    (listed : x ∈ t.signing.subjects) (signer : Option Identifier → Option Identifier → Prop)
    [∀ role principal, Decidable (signer role principal)]
    (one : ∃! statement, ∃ v, w.Attests a statement v x.subject ∧ signer v.role v.principalId) :
    ∃ statement v, w.Attests a statement v x.subject ∧ signer v.role v.principalId ∧
      x.statements.filter (fun statement =>
        signer t.signing.roles[statement]? t.signing.principals[statement]?) = [statement] := by
  obtain ⟨statement, ⟨v, attests, signs⟩, only⟩ := one
  refine ⟨statement, v, attests, signs, filter_eq_singleton ((loads.signs free).once x listed)
    ((loads.mem_statements free listed).mpr ⟨v, attests⟩) ?_ fun other own chosen => ?_⟩
  · obtain ⟨principal, role⟩ := loads.signer free attests
    rw [role, principal, decide_eq_true_eq]
    exact signs
  · obtain ⟨v', attests'⟩ := (loads.mem_statements free listed).mp own
    obtain ⟨principal, role⟩ := loads.signer free attests'
    rw [role, principal, decide_eq_true_eq] at chosen
    exact only other ⟨v', attests', chosen⟩

end Authority

/-! A source envelope and evidence in it, a protocol with its registration, and a projection with
its runner receipt and the decision that promotes it. -/
namespace PromotionSample
open Authority AuthoritySample

def kinds : List Identifier :=
  ["source-artifact-envelope", "evidence-attestation", "runner-receipt", "pending-projection",
    "measurement-protocol"]

def author : Principal :=
  { AuthoritySample.principal with
    roles := ["workspace_root", "author", "projection_authority", "protocol_author"]
    allowedKinds := kinds }

def reviewer : Principal :=
  { author with
    principalId := "reviewer", keyId := "second", publicKeyBase64 := "second"
    roles := ["projection_verifier", "protocol_reviewer"] }

def rules : List QuorumRule :=
  [⟨"protocol_registration", ["protocol_author", "protocol_reviewer"], false, false⟩,
    ⟨"projection_promotion", ["projection_authority", "projection_verifier"], false, false⟩]

def policy : TrustPolicyDocument :=
  ⟨metadata "policy", ∅, ⟨1, some "genesis", "key", [author, reviewer], rules⟩⟩

def source : SourceArtifactEnvelope :=
  ⟨metadata "source", ∅, ⟨"raw", 1, "system", "runner-job", "schema"⟩⟩

def pending : PendingProjection :=
  ⟨metadata "pending", ∅,
    ⟨"pending", "receipt", "source", "author", "raw", "", "runner-job", "schema", "job", true⟩⟩

def registration : QuorumDecisionDocument :=
  ⟨metadata "registration", ∅,
    ⟨"protocol_registration", "protocol", ["authored", "reviewed"], .utc 6⟩⟩

def promotion : QuorumDecisionDocument :=
  ⟨metadata "promotion", ∅,
    ⟨"projection_promotion", "pending", ["produced", "verified"], .utc 6⟩⟩

def receipt : Document := ⟨metadata "receipt", ∅, .runnerReceipt "author"⟩

def protocol : Document := ⟨metadata "protocol", ∅, .measurementProtocol "author"⟩

def job : Document := ⟨metadata "job", ∅, .other "runner-job" ""⟩

/-- A statement, the place of its subject, its signer and the signer's role. -/
def statements : List (Identifier × ℕ × Principal × Identifier) :=
  [("sourced", 0, author, "author"), ("observed", 1, author, "author"),
    ("received", 2, author, "author"), ("produced", 3, author, "projection_authority"),
    ("verified", 3, reviewer, "projection_verifier"), ("authored", 4, author, "protocol_author"),
    ("reviewed", 4, reviewer, "protocol_reviewer")]

def subjects : List Document :=
  [source.document .sourceArtifactEnvelope, evidence.document .evidence, receipt,
    pending.document .pendingProjection, protocol, job, registration.document .quorumDecision,
    promotion.document .quorumDecision]

def documents : List Document :=
  subjects ++ statements.map fun s => ⟨metadata s.1, ∅, .signedStatement (envelope s.1)⟩

def headerOf (subject : Document) (signer : Principal) (role : Identifier) : ProtectedHeader :=
  { header subject.spec.kind subject.metadata.objectId with
    keyId := signer.keyId, principalId := signer.principalId, role := role }

/-- The payload of a statement is its own place, the one of its subject follows. -/
def payload : Members → Except String SignedPayload
  | [(_, .int n)] =>
    match statements[n.toNat]? with
    | some (_, place, signer, role) =>
      match subjects[place]? with
      | some subject => .ok ⟨headerOf subject signer role, [("n", .int place)]⟩
      | none => .error "payload"
    | none => .error "payload"
  | _ => .error "payload"

def parse : Members → Except ParseError Document
  | [(_, .int n)] =>
    match documents[n.toNat]? with
    | some document => .ok document
    | none => .error (.valueError "document")
  | _ => .error (.valueError "document")

def place (text : String) : Bytes :=
  if text = "key" then List.replicate 32 0
  else if text = "second" then List.replicate 32 1
  else [UInt8.ofNat (statements.findIdx (·.1 = text))]

def rawDigest : Bytes → Digest
  | [5] => "raw"
  | [n] => ((documents[n.toNat]?).map (·.metadata.objectId)).getD ""
  | 0 :: _ => "first key"
  | _ => "second key"

def promotions : Authority where
  document d := d.metadata.objectId
  generation _ := "generation"
  envelope _ := "envelope"
  digestBytes := rawDigest
  canonical _ := some [5]
  schema _ := some "schema"
  base64 text := .ok (place text)
  loads := loads
  payload := payload
  parse := parse
  derKey _ := .malformed
  spki key := match key with
    | .ed25519 encoded => encoded
    | .p256 point => point
  verifies _ _ _ := true
  registered _ := rfl

def stored (_ : Identifier) (digest : Digest) : Option Bytes :=
  if digest = "raw" then some [5]
  else (documents.findIdx? (·.metadata.objectId = digest)).map fun n => [UInt8.ofNat n]

def promoted : LoadArguments where
  generation := ⟨metadata "generation", ∅,
    ⟨"generation", none, 0, none, (statements.map fun s => entry s.1) ++
      [⟨"registration", "quorum-decision", .active, []⟩,
        ⟨"promotion", "quorum-decision", .active, []⟩], "promotion"⟩⟩
  store := stored
  policy := policy
  trustedTime := trustedTime
  expectedRootSpkiFingerprint := "root"
  expectedGenesisEnvelopeFingerprint := "genesis"

/-- The statements that are admitted, with their signer, its role and their subject. -/
def signatures : List (Digest × Option Identifier × Option Identifier × Document) :=
  [("sourced", some "author", some "author", source.document .sourceArtifactEnvelope),
    ("observed", some "author", some "author", evidence.document .evidence),
    ("received", some "author", some "author", receipt),
    ("produced", some "author", some "projection_authority", pending.document .pendingProjection),
    ("verified", some "reviewer", some "projection_verifier", pending.document .pendingProjection),
    ("authored", some "author", some "protocol_author", protocol),
    ("reviewed", some "reviewer", some "protocol_reviewer", protocol)]

def decisions : List QuorumDecisionDocument := [registration, promotion]

theorem listed : (promotions.attestations promoted).map
      (fun p => (p.1, p.2.1.principalId, p.2.1.role, p.2.2)) = signatures ∧
    (decisionsOf (promotions.parseEntries promoted).1).map Prod.snd = decisions ∧
    promotions.validateSourceEnvelope promoted source = [] := by decide +kernel

/-- What the admitted statements and the decisions on them are. -/
theorem of_signature :
    (∀ s ∈ signatures, (s.2.2.1 = some "projection_authority" → s.1 = "produced") ∧
      (s.2.2.1 = some "projection_verifier" → s.1 = "verified") ∧
      s.2.2.2.spec.kind ≠ "quorum-decision" ∧
      (s.2.2.2.spec.kind = "pending-projection" →
        s.2.2.2 = pending.document .pendingProjection) ∧
      (s.2.2.2.spec.kind = "source-artifact-envelope" →
        s.2.2.2 = source.document .sourceArtifactEnvelope)) ∧
    ∀ d ∈ decisions,
      (∀ s ∈ signatures, s.1 ∈ d.spec.statementDigests →
        neededQuorum s.2.2.2.spec = some d.spec.decisionType ∧
          d.spec.subjectDigest = promotions.document s.2.2.2) ∧
      ∀ e ∈ decisions, e.spec.decisionType = d.spec.decisionType → e = d := by decide +kernel

theorem mem_signatures {statement : Digest} {principal role : Option Identifier} {x : Document} :
    (statement, principal, role, x) ∈ signatures ↔
      ∃ v, promotions.Attests promoted statement v x ∧ v.principalId = principal ∧ v.role = role := by
  rw [← listed.1, List.mem_map]
  simp only [← mem_attestations]
  constructor
  · rintro ⟨⟨digest, v, subject⟩, listed, same⟩
    cases same
    exact ⟨v, listed, rfl, rfl⟩
  · rintro ⟨v, listed, rfl, rfl⟩
    exact ⟨_, listed, rfl⟩

theorem mem_of_attests {statement : Digest} {v : VerificationResult} {x : Document}
    (attests : promotions.Attests promoted statement v x) :
    (statement, v.principalId, v.role, x) ∈ signatures := mem_signatures.mpr ⟨v, attests, rfl, rfl⟩

theorem decision_of_passes {decision : QuorumDecisionDocument}
    (passes : promotions.Passes promoted decision) : decision ∈ decisions := by
  obtain ⟨⟨digest, lists⟩, -⟩ := passes
  rw [← listed.2.1]
  exact List.mem_map.mpr
    ⟨_, mem_decisionsOf.mpr ((promotions.mem_parsed promoted).mpr lists), rfl⟩

theorem pending_of_attests {statement : Digest} {v : VerificationResult} {p : PendingProjection}
    (attests : promotions.Attests promoted statement v (p.document .pendingProjection)) :
    p = pending :=
  document_injective DocumentSpec.pendingProjection.inj
    ((of_signature.1 _ (mem_of_attests attests)).2.2.2.1 rfl)

theorem projects_job {p : PendingProjection} {d : Document}
    (projects : promotions.Projects promoted p d) : d = job := by
  obtain ⟨⟨statement, v, attests⟩, -, raw, stored, selected⟩ := projects
  obtain rfl := pending_of_attests attests
  cases Option.some.inj stored
  cases Except.ok.inj (Except.ok.inj selected)
  rfl

theorem promotable : promotions.Promotable promoted pending where
  producer := by
    obtain ⟨v, attests, principal, role⟩ := mem_signatures.mp (show ("produced", some "author",
      some "projection_authority", pending.document .pendingProjection) ∈ signatures by
        simp [signatures])
    refine ⟨"produced", ⟨v, attests, role, principal⟩, ?_⟩
    rintro statement ⟨v', attests', role', -⟩
    exact (of_signature.1 _ (mem_of_attests attests')).1 role'
  verifier := by
    obtain ⟨v, attests, principal, role⟩ := mem_signatures.mp (show ("verified", some "reviewer",
      some "projection_verifier", pending.document .pendingProjection) ∈ signatures by
        simp [signatures])
    refine ⟨"verified", ⟨v, attests, role, by simp [principal, pending]⟩, ?_⟩
    rintro statement ⟨v', attests', role', -⟩
    exact (of_signature.1 _ (mem_of_attests attests')).2.1 role'
  receipt := by
    obtain ⟨v, attests, principal, -⟩ := mem_signatures.mp (show ("received", some "author",
      some "author", receipt) ∈ signatures by simp [signatures])
    exact ⟨_, _, "author", "received", v, attests, principal, rfl⟩
  source := by
    obtain ⟨v, attests, -⟩ := mem_signatures.mp (show ("sourced", some "author", some "author",
      source.document .sourceArtifactEnvelope) ∈ signatures by simp [signatures])
    exact ⟨source, [5], ⟨_, v, attests⟩, rfl, listed.2.2, rfl,
      ⟨rfl, rfl, rfl, rfl, rfl, rfl, job, rfl, rfl, rfl⟩⟩

theorem orderly : promotions.Orderly promoted where
  evidence e s _ _ attested _ _ := by
    obtain ⟨statement, v, attests⟩ := attested
    obtain rfl : s = source := document_injective DocumentSpec.sourceArtifactEnvelope.inj
      ((of_signature.1 _ (mem_of_attests attests)).2.2.2.2 rfl)
    refine ⟨listed.2.2, fun p s' projects _ => ?_⟩
    cases congrArg Typed.spec (projects_job projects)
  projected p e projects := by cases congrArg Typed.spec (projects_job projects)
  signed decision := by
    refine ⟨?_, fun p projects => ?_⟩
    · rintro ⟨statement, v, attests⟩
      exact (of_signature.1 _ (mem_of_attests attests)).2.2.1 rfl
    · cases congrArg Typed.spec (projects_job projects)
  quorums decision passes statement cited v x attests decisionType needed := by
    obtain ⟨about, apart⟩ := of_signature.2 decision (decision_of_passes passes)
    obtain ⟨same, subject⟩ := about _ (mem_of_attests attests) cited
    obtain rfl := Option.some.inj (same.symm.trans needed)
    exact ⟨rfl, subject, fun other passes' ofType _ =>
      apart other (decision_of_passes passes') ofType⟩
  projections decision _ statement _ v p attests _ := by
    rw [pending_of_attests attests]
    exact promotable

theorem collisionFree : promotions.CollisionFree := by
  have listed : ∀ d, promotions.Parses d → d ∈ documents := by
    rintro d ⟨members, parsed⟩
    change parse members = .ok d at parsed
    unfold parse at parsed
    split at parsed
    · split at parsed
      · rename_i found
        rw [← Except.ok.inj parsed]
        exact List.mem_of_getElem? found
      · cases parsed
    · cases parsed
  have distinct : (documents.map (·.metadata.objectId)).Nodup := by decide
  intro d e first second same
  exact List.inj_on_of_nodup_map distinct (listed d first) (listed e second) same

end PromotionSample

end CollectivePhaseControl
