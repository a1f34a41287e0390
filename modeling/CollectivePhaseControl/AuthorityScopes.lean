import CollectivePhaseControl.AuthorityValidity

/-! The scope of a valid view. Tenant and workspace are compared with the generation's on the
documents of the ledger only; the subject that a statement wraps and the document that a
projection selects bring their own. -/
namespace CollectivePhaseControl

namespace Authority
variable {w : Authority} {a : LoadArguments} {t : Trace}

def Scoped (a : LoadArguments) (d : Document) : Prop :=
  d.metadata.tenantId = a.tenantId ∧ d.metadata.workspaceId = a.workspaceId

instance (a : LoadArguments) (d : Document) : Decidable (Scoped a d) :=
  inferInstanceAs (Decidable (_ ∧ _))

variable (w a) in
def Carries (envelope : DsseEnvelope) : Prop :=
  ∃ digest ∈ liveDigests a, ∃ document,
    w.parseEntry a digest = .ok document ∧ document.spec = .signedStatement envelope

variable (w a) in
def Wrapped (subject : Document) : Prop :=
  ∃ envelope, w.Carries a envelope ∧
    ∃ bytes payload, w.decode envelope = .ok (bytes, payload, subject)

variable (w a) in
/-- A wrapped projection that changes authoritative state points at the document in its raw
output. -/
def Projected (d : Document) : Prop :=
  ∃ p : PendingProjection, w.Wrapped a (p.document .pendingProjection) ∧
    p.spec.changesAuthoritativeState = true ∧
    ∃ raw, a.store a.tenantId p.spec.rawOutputDigest = some raw ∧
      w.projected raw p.spec.jsonPointer = .ok (.ok d)

theorem scoped_of_parseEntry {digest : Digest} {document : Document}
    (parsed : w.parseEntry a digest = .ok document) : Scoped a document := by
  unfold parseEntry at parsed
  split at parsed
  · dsimp only at parsed
    split at parsed
    · rename_i clean
      rw [Except.ok.inj parsed] at clean
      simp only [List.append_eq_nil_iff, reasonIf_eq_nil, not_not] at clean
      exact ⟨clean.1.2, clean.2⟩
    · cases parsed
  · cases parsed

theorem carries_iff {envelope : DsseEnvelope} : w.Carries a envelope ↔
    ∃ digest, (digest, envelope) ∈ statementsOf (w.parseEntries a).1 := by
  unfold Carries
  simp only [mem_statementsOf, w.mem_parsed a]
  constructor
  · rintro ⟨digest, live, document, parsed, shape⟩
    exact ⟨digest, document, ⟨live, parsed⟩, shape⟩
  · rintro ⟨digest, document, ⟨live, parsed⟩, shape⟩
    exact ⟨digest, live, document, parsed, shape⟩

theorem Loads.verified (loads : w.Loads a t) (free : w.CollisionFree)
    (valid : (t.view w a).valid = true) {envelope : DsseEnvelope} {bytes : Bytes}
    {payload : SignedPayload} {subject : Document} (carries : w.Carries a envelope)
    (decoded : w.decode envelope = .ok (bytes, payload, subject)) :
    ∃ v, w.verifyStatement a envelope subject = .ok v ∧ v.valid = true ∧
      w.Judged a envelope (.admitted v subject) := by
  obtain ⟨digest, listed⟩ := carries_iff.mp carries
  obtain ⟨v, other, judged⟩ := loads.admitted free valid listed
  obtain ⟨_, _, decoded', verified, passes, -⟩ := judged_admitted.mp judged
  rw [decoded] at decoded'
  cases Except.ok.inj decoded'
  exact ⟨v, verified, passes, judged⟩

theorem Loads.wrapped_iff (loads : w.Loads a t) (free : w.CollisionFree)
    (valid : (t.view w a).valid = true) {subject : Document} :
    w.Wrapped a subject ↔ ∃ x ∈ t.signing.subjects, x.subject = subject := by
  constructor
  · rintro ⟨envelope, carries, bytes, payload, decoded⟩
    obtain ⟨digest, listed⟩ := carries_iff.mp carries
    obtain ⟨v, -, -, judged⟩ := loads.verified free valid carries decoded
    exact loads.subject_of_admits free ⟨_, ⟨envelope, listed, judged⟩, rfl⟩
  · rintro ⟨x, listed, rfl⟩
    obtain ⟨-, digest, j, ⟨envelope, among, judged⟩, shape⟩ := (loads.signs free).own x listed
    obtain ⟨v, rfl⟩ := subject_eq_some.mp shape
    obtain ⟨bytes, payload, decoded, -⟩ := judged_admitted.mp judged
    exact ⟨envelope, carries_iff.mpr ⟨digest, among⟩, bytes, payload, decoded⟩

theorem reconstructProjection_projected {pending : PendingProjection}
    {approval : ProjectionApproval} {receipt : Document} {source : SourceArtifactEnvelope}
    {raw : Bytes} {d : Document} {result : ProjectionResult}
    (run : w.reconstructProjection pending approval receipt source raw = .ok (result, some d)) :
    w.projected raw pending.spec.jsonPointer = .ok (.ok d) := by
  unfold reconstructProjection at run
  obtain ⟨schema, -, run⟩ := bind_ok.mp run
  dsimp only at run
  split at run
  · have kept := congrArg Prod.snd (Except.ok.inj run)
    cases (projectionResult_some kept).2
  · obtain ⟨read, found, run⟩ := bind_ok.mp run
    split at run
    · have kept := congrArg Prod.snd (Except.ok.inj run)
      cases (projectionResult_some kept).2
    · have kept := congrArg Prod.snd (Except.ok.inj run)
      cases (projectionResult_some kept).2
      exact found

theorem judgePending_clean {derived : List (Digest × QuorumDecisionDocument)} {s : Signing}
    {q : Quarantine} {digest : Digest} {p : PendingProjection} {document : Option Document}
    (verdict : w.judgePending a s derived q digest p = .ok ([], document)) :
    ∃ raw d, a.store a.tenantId p.spec.rawOutputDigest = some raw ∧
      w.projected raw p.spec.jsonPointer = .ok (.ok d) ∧ document = some d := by
  unfold judgePending at verdict
  dsimp only at verdict
  split at verdict
  · rename_i some'
    exact absurd (congrArg Prod.fst (Except.ok.inj verdict)) some'
  · obtain ⟨⟨result, found⟩, run, verdict⟩ := bind_ok.mp verdict
    dsimp only at verdict
    split at verdict
    · rename_i kept
      cases Except.ok.inj verdict
      obtain ⟨d, rfl⟩ := Option.isSome_iff_exists.mp kept.2
      unfold promote at run
      simp only [bind_ok, demand_ok] at run
      obtain ⟨_, -, _, -, _, -, approval, -, receipt, -, source, -, raw, stored, run⟩ := run
      split at run
      · exact ⟨raw, d, stored, reconstructProjection_projected run, rfl⟩
      · cases run
    · have codes := congrArg Prod.fst (Except.ok.inj verdict)
      dsimp only at codes
      split at codes
      · cases codes
      · rename_i some'
        exact absurd codes some'

theorem Loads.projected_iff (loads : w.Loads a t) (free : w.CollisionFree)
    (valid : (t.view w a).valid = true) {d : Document} :
    w.Projected a d ↔ d ∈ t.promoted.2 := by
  rw [loads.mem_promoted free]
  constructor
  · rintro ⟨p, wrapped, changes, raw, stored, selected⟩
    obtain ⟨x, listed, shape⟩ := (loads.wrapped_iff free valid).mp wrapped
    obtain ⟨⟨codes, document⟩, verdict⟩ := (loads.promoted_spec free).judged x listed
    obtain rfl := (loads.stands free valid listed).promotion codes document verdict
    have judged := verdict
    rw [promoteProjection, shape] at judged
    change (if p.spec.changesAuthoritativeState then _ else _) = _ at judged
    rw [if_pos changes] at judged
    obtain ⟨raw', d', stored', selected', rfl⟩ := judgePending_clean judged
    rw [stored] at stored'
    cases stored'
    rw [selected] at selected'
    cases Except.ok.inj (Except.ok.inj selected')
    exact ⟨x, listed, verdict⟩
  · rintro ⟨x, listed, verdict⟩
    unfold promoteProjection at verdict
    split at verdict
    · rename_i metadata extensions spec shape
      split at verdict
      · rename_i changes
        obtain ⟨raw, d', stored, selected, same⟩ := judgePending_clean verdict
        cases same
        exact ⟨⟨metadata, extensions, spec⟩,
          (loads.wrapped_iff free valid).mpr ⟨x, listed, shape⟩, changes, raw, stored, selected⟩
      · cases Except.ok.inj verdict
    · cases Except.ok.inj verdict

/-- A valid view keeps to its workspace exactly when the subjects that its statements wrap
do, and the documents that its projections select. -/
theorem valid_scoped_iff {view : AuthoritativeView} (free : w.CollisionFree)
    (run : w.loadAuthoritativeGeneration a = .ok view) (valid : view.valid = true) :
    (∀ d, InView view d → Scoped a d) ↔
      (∀ d, w.Wrapped a d → Scoped a d) ∧ ∀ d, w.Projected a d → Scoped a d := by
  obtain ⟨t, loads, rfl⟩ := load_ok.mp run
  simp only [loads.inView_iff free, loads.held_iff free, loads.wrapped_iff free valid,
    loads.projected_iff free valid]
  constructor
  · intro within
    refine ⟨?_, fun d promoted => within d (.inr (.inr promoted))⟩
    rintro d ⟨x, listed, rfl⟩
    exact within _ (.inl ⟨x, loads.stands free valid listed, rfl⟩)
  · rintro ⟨wrapped, projected⟩ d (⟨x, stands, rfl⟩ | ⟨p, kept, rfl⟩ | promoted)
    · exact wrapped _ ⟨x, stands.listed, rfl⟩
    · -- a decision stands in the ledger itself
      have listed := mem_decisionsOf.mp ((loads.decided_spec free).listed kept)
      exact scoped_of_parseEntry ((w.mem_parsed a).mp listed).2
    · exact projected d promoted

end Authority

/-! A ledger of three statements and an event. The statements wrap the policy, the trusted time
and a job of another workspace; a second event of the same instant follows the first. -/
namespace WorkspaceSample
open Authority AuthoritySample

def root : Principal :=
  { AuthoritySample.principal with
    allowedKinds := ["trust-policy", "trusted-time-receipt", "runner-job"] }

def rootPolicy : TrustPolicyDocument :=
  ⟨metadata "policy", ∅, ⟨1, some "genesis", "key", [root], []⟩⟩

def job : Document := ⟨{ metadata "job" with workspaceId := "elsewhere" }, ∅, .other "runner-job" ""⟩

def event : AuditEvent := ⟨metadata "event", ∅, ⟨"event", none, .utc 5⟩⟩

def following : AuditEvent := ⟨metadata "following", ∅, ⟨"following", some "event", .utc 5⟩⟩

def later : AuditEvent := ⟨metadata "later", ∅, ⟨"later", some "event", .utc 6⟩⟩

def statement (id payload : String) : Document :=
  ⟨metadata id, ∅, .signedStatement (envelope payload)⟩

def workspaceDocuments : List Document :=
  [rootPolicy.document .trustPolicy, trustedTime.document .trustedTimeReceipt, job,
    statement "policy-statement" "policy", statement "time-statement" "time",
    statement "job-statement" "job", event.document .auditEvent, following.document .auditEvent,
    later.document .auditEvent]

def headerOf (d : Document) : ProtectedHeader :=
  { header d.spec.kind d.metadata.objectId with workspaceId := d.metadata.workspaceId }

def readPayload : Members → Except String SignedPayload
  | [(_, .int n)] =>
    match workspaceDocuments[n.toNat]? with
    | some subject => .ok ⟨headerOf subject, [("n", .int n)]⟩
    | none => .error "payload"
  | _ => .error "payload"

def readDocument : Members → Except ParseError Document
  | [(_, .int n)] =>
    match workspaceDocuments[n.toNat]? with
    | some document => .ok document
    | none => .error (.valueError "document")
  | _ => .error (.valueError "document")

def rawDigest : Bytes → Digest
  | [n] => ((workspaceDocuments[n.toNat]?).map (·.metadata.objectId)).getD "raw"
  | _ => "key"

def place (text : String) : Bytes :=
  if text = "key" then List.replicate 32 0
  else [if text = "policy" then 0 else if text = "time" then 1 else 2]

def workspace : Authority where
  document d := d.metadata.objectId
  generation _ := "generation"
  envelope _ := "envelope"
  digestBytes := rawDigest
  canonical _ := none
  schema _ := some "schema"
  base64 text := .ok (place text)
  loads := loads
  payload := readPayload
  parse := readDocument
  derKey _ := .malformed
  spki _ := []
  verifies _ _ _ := true
  registered _ := rfl

def ledger : List LedgerEntry :=
  [entry "policy-statement", entry "time-statement", entry "job-statement",
    ⟨"event", "audit-event", .active, []⟩]

def workspaceStore (_ : Identifier) (digest : Digest) : Option Bytes :=
  (workspaceDocuments.findIdx? (·.metadata.objectId = digest)).map fun n => [UInt8.ofNat n]

def loading (root genesis : Digest) : LoadArguments :=
  ⟨⟨metadata "generation", ∅, ⟨"generation", none, 0, none, ledger, "event"⟩⟩, workspaceStore,
    rootPolicy, trustedTime, root, genesis⟩

theorem mem_workspaceDocuments {d : Document} (parses : workspace.Parses d) :
    d ∈ workspaceDocuments := by
  obtain ⟨members, parsed⟩ := parses
  change readDocument members = .ok d at parsed
  unfold readDocument at parsed
  split at parsed
  · split at parsed
    · rename_i found
      rw [← Except.ok.inj parsed]
      exact List.mem_of_getElem? found
    · cases parsed
  · cases parsed

theorem workspace_collisionFree : workspace.CollisionFree := by
  have distinct : (workspaceDocuments.map (·.metadata.objectId)).Nodup :=
    show ["policy", "time", "job", "policy-statement", "time-statement", "job-statement",
      "event", "following", "later"].Nodup from by decide
  intro d e first second same
  exact List.inj_on_of_nodup_map distinct (mem_workspaceDocuments first)
    (mem_workspaceDocuments second) same

theorem loading_valid : ∃ view, view.valid = true ∧ view.objects["job"]? = some job ∧
    workspace.loadAuthoritativeGeneration (loading "root" "genesis") = .ok view := by
  have run : ((workspace.loadAuthoritativeGeneration (loading "root" "genesis")).toOption.map
      fun view => (view.valid, view.objects["job"]?)) = some (true, some job) := by
    decide +kernel
  obtain ⟨view, loaded, both⟩ := Option.map_eq_some_iff.mp run
  obtain ⟨valid, listed⟩ := Prod.mk.inj both
  refine ⟨view, valid, listed, ?_⟩
  cases result : workspace.loadAuthoritativeGeneration (loading "root" "genesis") with
  | ok found =>
    rw [result] at loaded
    rw [Option.some.inj loaded]
  | error fault =>
    rw [result] at loaded
    cases loaded

end WorkspaceSample

open Authority WorkspaceSample in
theorem valid_scoped_iff_sample : ∃ view,
    workspace.loadAuthoritativeGeneration (loading "root" "genesis") = .ok view ∧
    view.valid = true ∧ ((∀ d, InView view d → Scoped (loading "root" "genesis") d) ↔
      (∀ d, workspace.Wrapped (loading "root" "genesis") d → Scoped (loading "root" "genesis") d) ∧
      ∀ d, workspace.Projected (loading "root" "genesis") d →
        Scoped (loading "root" "genesis") d) := by
  obtain ⟨view, valid, -, run⟩ := loading_valid
  exact ⟨view, run, valid, valid_scoped_iff workspace_collisionFree run valid⟩

open Authority WorkspaceSample in
/-- A job of another workspace becomes authoritative when a statement of this one wraps it. -/
theorem wrapped_elsewhere : ¬ ∀ (w : Authority) (a : LoadArguments) (view : AuthoritativeView),
    w.CollisionFree → w.loadAuthoritativeGeneration a = .ok view → view.valid = true →
    ∀ d, InView view d → Scoped a d := by
  intro claim
  obtain ⟨view, valid, listed, run⟩ := loading_valid
  have inside := claim workspace _ view workspace_collisionFree run valid job ⟨"job", listed⟩
  revert inside
  decide

end CollectivePhaseControl
