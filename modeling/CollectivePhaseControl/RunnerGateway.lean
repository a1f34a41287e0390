import CollectivePhaseControl.RunnerReceipts

/-! The in-memory runner gateway. Each call holds the gateway's lock, so a call is one
step of the gateway's state; the fresh token a claim draws is an argument of the call.
A failed call returns the state as the source leaves it. -/
namespace CollectivePhaseControl

structure RunnerRegistration where
  tenantId : Identifier
  runnerId : Identifier
  principalId : Identifier
  uriSan : String
  certificateFingerprint : String
  enabled : Bool

structure CertificateIdentity where
  tenantId : Identifier
  runnerId : Identifier
  uriSan : String
  fingerprint : String

structure RunnerTask where
  tenantId : Identifier
  workspaceId : Identifier
  jobId : String
  actionDigest : String
  generationDigest : String
  capability : CapabilityDocument
  capabilityStatement : SignedStatement
  executionPolicy : ExecutionPolicy
  executionPolicyStatement : SignedStatement
  inputDigests : List String
  leaseSeconds : ℤ

abbrev TaskKey := Identifier × String

inductive TaskStatus where
  | queued | leased | completed
deriving DecidableEq, Repr

structure RunnerTaskState where
  task : RunnerTask
  status : TaskStatus
  attempt : ℕ
  leaseId : Option String
  leaseExpiresAt : Option ℤ
  heartbeatSequence : ℕ
  runnerPrincipalId : Option Identifier
  job : Option RunnerJob
  jobStatement : Option SignedStatement
  artifactDigests : Finset Digest
  receiptStatementDigest : Option Digest
  pendingProjectionStatementDigests : List Digest

structure RunnerClaim where
  job : RunnerJob
  jobStatement : SignedStatement

structure RunnerCompletion where
  conformance : RunnerConformance
  receiptStatementDigest : Digest
  pendingProjectionStatementDigests : List Digest

def orValueError (condition : Prop) [Decidable condition] : Checked Unit :=
  if condition then .ok () else .error (.crash .valueError)

namespace RunnerTask

def key (task : RunnerTask) : TaskKey := (task.tenantId, task.jobId)

/-- `__post_init__`. -/
def postInit (w : Services) (task : RunnerTask) : Checked Unit := do
  orValueError (1 ≤ task.leaseSeconds ∧ task.leaseSeconds ≤ 300)
  orValueError task.inputDigests.Nodup
  orValueError (task.capability.spec.executionPolicyDigest =
    w.document (task.executionPolicy.lift .executionPolicy))
  orValueError (task.capability.metadata.tenantId = task.tenantId ∧
    task.executionPolicy.metadata.tenantId = task.tenantId ∧
    task.capability.metadata.workspaceId = task.workspaceId ∧
    task.executionPolicy.metadata.workspaceId = task.workspaceId)
  orValueError (task.capability.spec.imageDigest ∈
    task.executionPolicy.spec.allowedImageDigests)

def authorities (w : Services) (task : RunnerTask) : Finset Digest :=
  {w.statement task.capabilityStatement, w.statement task.executionPolicyStatement}

def materials (w : Services) (task : RunnerTask) : Finset Digest :=
  task.inputDigests.toFinset ∪ task.capability.spec.materialDigests.toFinset ∪ task.authorities w

/-- The fields a job takes unchecked from its task have the patterns a job asks for. -/
def JobFields (task : RunnerTask) : Prop :=
  isIdentifier task.jobId = true ∧ isDigest task.actionDigest = true ∧
    isDigest task.generationDigest = true ∧ (∀ digest ∈ task.inputDigests, isDigest digest = true) ∧
    task.inputDigests.length ≤ 10000

instance (task : RunnerTask) : Decidable task.JobFields := by unfold JobFields; infer_instance

end RunnerTask

namespace RunnerTaskState

def key (state : RunnerTaskState) : TaskKey := state.task.key

def dispatched (task : RunnerTask) : RunnerTaskState where
  task := task
  status := .queued
  attempt := 0
  leaseId := none
  leaseExpiresAt := none
  heartbeatSequence := 0
  runnerPrincipalId := none
  job := none
  jobStatement := none
  artifactDigests := ∅
  receiptStatementDigest := none
  pendingProjectionStatementDigests := []

def claimable (claimedAt : ℤ) (state : RunnerTaskState) : Bool :=
  match state.status, state.leaseExpiresAt with
  | .queued, _ => true
  | .leased, some expiry => expiry < claimedAt
  | _, _ => false

/-- The lease a claim writes before it builds and signs the job. -/
def lease (state : RunnerTaskState) (registration : RunnerRegistration) (claimedAt : ℤ)
    (token : LeaseToken) : RunnerTaskState :=
  { state with
    attempt := state.attempt + 1
    leaseId := some token.value
    leaseExpiresAt := some (claimedAt + 1000000 * state.task.leaseSeconds)
    heartbeatSequence := 0
    runnerPrincipalId := some registration.principalId
    status := .leased }

/-- What a claim whose job could not be signed leaves of its lease. -/
def release (state : RunnerTaskState) : RunnerTaskState :=
  { state with
    attempt := state.attempt - 1
    leaseId := none
    leaseExpiresAt := none
    runnerPrincipalId := none
    status := .queued }

def heldBy (registration : RunnerRegistration) (evaluatedAt : ℤ) (state : RunnerTaskState) : Bool :=
  match state.leaseExpiresAt with
  | some expiry => state.status == .leased &&
    state.runnerPrincipalId == some registration.principalId && evaluatedAt ≤ expiry
  | none => false

end RunnerTaskState

/-- The constraints of `RunnerJobSpec` on what does not come from a validated document or a
computed digest. -/
def RunnerJobSpec.Valid (spec : RunnerJobSpec) : Prop :=
  isIdentifier spec.jobId = true ∧ isDigest spec.actionDigest = true ∧
    isDigest spec.generationDigest = true ∧ (1 ≤ spec.attempt ∧ spec.attempt ≤ 32) ∧
    isIdentifier spec.leaseId = true ∧ (∀ digest ∈ spec.inputDigests, isDigest digest = true) ∧
    spec.inputDigests.length ≤ 10000 ∧ spec.inputDigests.Nodup

instance (spec : RunnerJobSpec) : Decidable spec.Valid := by
  unfold RunnerJobSpec.Valid; infer_instance

def RunnerTaskState.jobOf (w : Services) (state : RunnerTaskState) (claimedAt : ℤ)
    (token : LeaseToken) : RunnerJob where
  metadata := { state.task.capability.metadata with
    objectId := "job:" ++ state.task.jobId ++ ":" ++ toString state.attempt
    createdAt := .utc claimedAt }
  extensions := ∅
  spec := {
    jobId := state.task.jobId
    actionDigest := state.task.actionDigest
    capabilityDigest := w.document (state.task.capability.lift .capability)
    capabilityStatementDigest := w.statement state.task.capabilityStatement
    executionPolicyDigest := w.document (state.task.executionPolicy.lift .executionPolicy)
    executionPolicyStatementDigest := w.statement state.task.executionPolicyStatement
    generationDigest := state.task.generationDigest
    attempt := state.attempt
    leaseId := token.value
    leaseExpiresAt := claimedAt + 1000000 * state.task.leaseSeconds
    inputDigests := state.task.inputDigests
    imageDigest := state.task.capability.spec.imageDigest
    timeoutSeconds := state.task.executionPolicy.spec.timeoutSeconds
    stdoutLimit := state.task.executionPolicy.spec.stdoutLimit
    stderrLimit := state.task.executionPolicy.spec.stderrLimit
    networkPolicy := state.task.executionPolicy.spec.networkPolicy
    filesystemPolicy := state.task.executionPolicy.spec.filesystemPolicy }

/-- `values[(tenant, digest)]`. -/
abbrev ObjectStore := Identifier → Digest → Option Bytes

namespace ObjectStore

/-- `setdefault` under the digest of the data. -/
def put (w : Services) (store : ObjectStore) (tenant : Identifier) (data : Bytes) :
    ObjectStore × Digest :=
  (fun owner digest =>
    if owner = tenant ∧ digest = w.digestBytes data ∧ store owner digest = none then some data
    else store owner digest, w.digestBytes data)

/-- `{digest: len(get(tenant, digest)) …}`: a missing object raises. -/
def lengths (store : ObjectStore) (tenant : Identifier) (digests : Finset Digest) :
    Checked (Digest → Option ℕ) :=
  if ∀ digest ∈ digests, (store tenant digest).isSome = true then
    .ok fun digest => if digest ∈ digests then (store tenant digest).map List.length else none
  else .error (.crash .keyError)

def totalBytes (store : ObjectStore) (tenant : Identifier) (digests : Finset Digest) :
    Checked ℕ := do
  let sizes ← store.lengths tenant digests
  pure (∑ digest ∈ digests, (sizes digest).getD 0)

/-- `loads_bounded(get(…))` of the one output, if there is one. -/
def outputDocument (w : Services) (store : ObjectStore) (tenant : Identifier) :
    List Digest → Checked (Option Json)
  | [digest] =>
    match (store tenant digest).bind w.loads with
    | some members => .ok (some (.object members))
    | none => .error (.coded "runner_selector_output_invalid")
  | _ => .ok none

end ObjectStore

structure Gateway where
  registrations : List RunnerRegistration
  tasks : List RunnerTaskState
  completedAttempts : Finset (Identifier × ℕ)
  store : ObjectStore

namespace Gateway

def initial (registrations : List RunnerRegistration) (store : ObjectStore) : Gateway :=
  ⟨registrations, [], ∅, store⟩

def setTask (g : Gateway) (state : RunnerTaskState) : Gateway :=
  { g with tasks := g.tasks.map fun s => if s.key = state.key then state else s }

def authority (w : Services) (statement : SignedStatement) (admittedAt : ℤ) :
    Checked VerifiedStatement :=
  match w.verify statement admittedAt with
  | .ok verified => .ok verified
  | .error _ => .error (.coded "runner_capability_authority_invalid")

/-- `RunnerTask(…)` followed by `dispatch`. -/
def dispatch (w : Services) (g : Gateway) (task : RunnerTask) (admittedAt : ℤ) :
    Checked Gateway := do
  task.postInit w
  require (∀ state ∈ g.tasks, state.key ≠ task.key) "runner_job_duplicate"
  let capability ← authority w task.capabilityStatement admittedAt
  let policy ← authority w task.executionPolicyStatement admittedAt
  require (capability.role = "capability_authority" ∧
    capability.principalId = task.capability.spec.adapterPrincipalId ∧
    capability.subject = task.capability.lift .capability) "runner_capability_authority_invalid"
  let capabilitySubject ← w.statementSubject task.capabilityStatement
  require (capabilitySubject = task.capability.lift .capability)
    "runner_capability_authority_invalid"
  require (policy.role = "execution_policy_authority" ∧
    policy.principalId = task.capability.spec.verifierPrincipalId ∧
    policy.principalId ≠ capability.principalId ∧
    policy.subject = task.executionPolicy.lift .executionPolicy)
    "runner_execution_policy_authority_invalid"
  let policySubject ← w.statementSubject task.executionPolicyStatement
  require (policySubject = task.executionPolicy.lift .executionPolicy)
    "runner_execution_policy_authority_invalid"
  require (∀ digest ∈ task.materials w, (g.store task.tenantId digest).isSome = true)
    "runner_material_missing"
  let size ← g.store.totalBytes task.tenantId (task.materials w)
  require (size ≤ task.executionPolicy.spec.maximumInputBytes) "runner_material_limit_exceeded"
  pure { g with tasks := g.tasks ++ [.dispatched task] }

def authenticate (g : Gateway) (identity : CertificateIdentity) : Checked RunnerRegistration := do
  match g.registrations.find? fun r =>
      r.tenantId == identity.tenantId && r.runnerId == identity.runnerId with
  | some registration =>
    require (registration.enabled = true ∧
      registration.certificateFingerprint = identity.fingerprint ∧
      registration.uriSan = identity.uriSan) "runner_identity_not_registered"
    pure registration
  | none => .error (.coded "runner_identity_not_registered")

/-- The guarded part of a claim: sign the job and check what was signed. -/
def signJob (w : Services) (job : RunnerJob) (claimedAt : ℤ) : Checked SignedStatement := do
  let statement ← w.sign job
  let verified ← w.verify statement claimedAt
  require (verified.role = "job_dispatcher" ∧ verified.subject = job.lift .job)
    "runner_job_signature_invalid"
  let subject ← w.statementSubject statement
  require (subject = job.lift .job) "runner_job_signature_invalid"
  pure statement

def signatureFault : Fault → Fault
  | .coded code => .coded code
  | .crash _ => .coded "runner_job_signature_invalid"

def candidates (g : Gateway) (registration : RunnerRegistration) (claimedAt : ℤ) :
    List RunnerTaskState :=
  g.tasks.filter fun state =>
    state.task.tenantId == registration.tenantId && state.claimable claimedAt

def claim (w : Services) (g : Gateway) (registration : RunnerRegistration) (claimedAt : ℤ)
    (token : LeaseToken) : Gateway × Checked RunnerClaim :=
  match (g.candidates registration claimedAt).argmin fun state => state.task.jobId with
  | none => (g, .error (.coded "runner_job_not_available"))
  | some state =>
    if 32 ≤ state.attempt then (g, .error (.coded "runner_attempt_limit_exhausted"))
    else
      let leased := state.lease registration claimedAt token
      let job := leased.jobOf w claimedAt token
      -- A job that is no valid document fails outside the guarded part: the lease stays.
      if job.spec.Valid then
        match signJob w job claimedAt with
        | .ok statement =>
          (g.setTask { leased with job := some job, jobStatement := some statement },
            .ok ⟨job, statement⟩)
        | .error fault => (g.setTask leased.release, .error (signatureFault fault))
      else (g.setTask leased, .error (.crash .validationError))

/-- `_active_state`. -/
def activeState (g : Gateway) (registration : RunnerRegistration) (leaseId : String)
    (evaluatedAt : ℤ) : Checked RunnerTaskState :=
  match g.tasks.filter fun state =>
      state.task.tenantId == registration.tenantId && state.leaseId == some leaseId with
  | [state] =>
    if state.heldBy registration evaluatedAt = true then .ok state
    else .error (.coded "runner_lease_stale")
  | _ => .error (.coded "runner_lease_not_found")

def heartbeat (g : Gateway) (registration : RunnerRegistration) (leaseId : String) (sequence : ℤ)
    (receivedAt : ℤ) : Checked Gateway := do
  let state ← g.activeState registration leaseId receivedAt
  require (sequence = state.heartbeatSequence + 1) "runner_heartbeat_sequence_invalid"
  pure (g.setTask { state with heartbeatSequence := state.heartbeatSequence + 1 })

def recordArtifact (g : Gateway) (registration : RunnerRegistration) (leaseId : String)
    (digest : Digest) (receivedAt : ℤ) : Checked Gateway := do
  let state ← g.activeState registration leaseId receivedAt
  require ((g.store registration.tenantId digest).isSome = true)
    "runner_artifact_missing_after_upload"
  let size ← g.store.totalBytes registration.tenantId (insert digest state.artifactDigests)
  require (size ≤ state.task.executionPolicy.spec.maximumOutputBytes)
    "runner_artifact_limit_exceeded"
  pure (g.setTask { state with artifactDigests := insert digest state.artifactDigests })

def remainingArtifactBytes (g : Gateway) (registration : RunnerRegistration) (leaseId : String)
    (evaluatedAt : ℤ) : Checked ℕ := do
  let state ← g.activeState registration leaseId evaluatedAt
  if 10002 ≤ state.artifactDigests.card then pure 0
  else
    let consumed ← g.store.totalBytes registration.tenantId state.artifactDigests
    pure (state.task.executionPolicy.spec.maximumOutputBytes - consumed)

/-- The receipt a statement carries, signed by the runner that holds the lease. -/
def verifiedReceipt (w : Services) (registration : RunnerRegistration)
    (statement : SignedStatement) (receivedAt : ℤ) : Checked RunnerReceipt := do
  let verified ← w.verify statement receivedAt
  match verified.subject.spec with
  | .receipt spec =>
    require (verified.role = "runner_receipt" ∧ verified.principalId = registration.principalId)
      "runner_receipt_signature_invalid"
    let subject ← w.statementSubject statement
    require (subject = verified.subject) "runner_receipt_signature_invalid"
    pure ⟨verified.subject.metadata, verified.subject.extensions, spec⟩
  | _ => .error (.coded "runner_receipt_signature_invalid")

/-- The digest of a statement that carries a projection of the receipt's output. -/
def pendingDigest (w : Services) (capability : CapabilityDocument) (receipt : RunnerReceipt)
    (receivedAt : ℤ) (statement : SignedStatement) : Checked Digest := do
  let verified ← w.verify statement receivedAt
  match verified.subject.spec with
  | .pendingProjection spec =>
    require (verified.role = "projection_authority" ∧
      verified.principalId = capability.spec.adapterPrincipalId ∧
      spec.runnerReceiptDigest = w.document (receipt.lift .receipt) ∧
      spec.rawOutputDigest ∈ receipt.spec.outputDigests) "runner_pending_projection_invalid"
    let subject ← w.statementSubject statement
    require (subject = verified.subject) "runner_pending_projection_invalid"
    require (receipt.spec.claimedOutcome = .success ∨ receipt.spec.claimedOutcome = .partialOutcome)
      "runner_failure_projection_rejected"
    pure (w.statement statement)
  | _ => .error (.coded "runner_pending_projection_invalid")

/-- A statement stored under a digest other than its own is an error. -/
def storeStatement (w : Services) (tenant : Identifier) (code : String) (store : ObjectStore)
    (statement : SignedStatement) : Checked ObjectStore := do
  let stored := store.put w tenant (w.canonical statement)
  require (stored.2 = w.statement statement) code
  pure stored.1

def boundJob (state : RunnerTaskState) : Checked RunnerJob :=
  match state.job with
  | some job => .ok job
  | none => .error (.coded "runner_job_not_bound")

def complete (w : Services) (g : Gateway) (registration : RunnerRegistration) (leaseId : String)
    (receiptStatement : SignedStatement) (projectionStatements : List SignedStatement)
    (receivedAt : ℤ) : Checked (Gateway × RunnerCompletion) := do
  let state ← g.activeState registration leaseId receivedAt
  let job ← boundJob state
  let receipt ← verifiedReceipt w registration receiptStatement receivedAt
  let available := state.artifactDigests ∪ state.task.materials w
  let artifactLengths ← g.store.lengths registration.tenantId available
  let output ← g.store.outputDocument w registration.tenantId receipt.spec.outputDigests
  let conformance ← validateReceipt w job receipt.spec state.task.capability
    state.task.executionPolicy receivedAt registration.principalId g.completedAttempts available
    artifactLengths output
  require (conformance.accepted = true) "runner_receipt_nonconformant"
  let pending ← projectionStatements.mapM
    (pendingDigest w state.task.capability receipt receivedAt)
  require pending.Nodup "runner_pending_projection_duplicate"
  let received ← storeStatement w registration.tenantId "runner_receipt_storage_invariant_failed"
    g.store receiptStatement
  let store ← projectionStatements.foldlM
    (storeStatement w registration.tenantId "runner_projection_storage_invariant_failed") received
  let completed := { state with
    receiptStatementDigest := some (w.statement receiptStatement)
    pendingProjectionStatementDigests := pending.mergeSort
    status := .completed }
  pure ({ g.setTask completed with
      store := store
      completedAttempts := insert (state.task.jobId, state.attempt) g.completedAttempts },
    ⟨conformance, w.statement receiptStatement, pending.mergeSort⟩)

end Gateway

inductive Call where
  | dispatch (task : RunnerTask) (admittedAt : ℤ)
  | authenticate (identity : CertificateIdentity)
  | put (tenant : Identifier) (data : Bytes)
  | claim (registration : RunnerRegistration) (claimedAt : ℤ) (token : LeaseToken)
  | heartbeat (registration : RunnerRegistration) (leaseId : String) (sequence : ℤ)
    (receivedAt : ℤ)
  | recordArtifact (registration : RunnerRegistration) (leaseId : String) (digest : Digest)
    (receivedAt : ℤ)
  | remainingArtifactBytes (registration : RunnerRegistration) (leaseId : String)
    (evaluatedAt : ℤ)
  | complete (registration : RunnerRegistration) (leaseId : String) (receipt : SignedStatement)
    (projections : List SignedStatement) (receivedAt : ℤ)

def Call.tenant : Call → Identifier
  | .dispatch task _ => task.tenantId
  | .authenticate identity => identity.tenantId
  | .put tenant _ => tenant
  | .claim registration _ _ | .heartbeat registration _ _ _ | .recordArtifact registration _ _ _
  | .remainingArtifactBytes registration _ _ | .complete registration _ _ _ _ =>
    registration.tenantId

inductive Response where
  | done
  | authenticated (registration : RunnerRegistration)
  | stored (digest : Digest)
  | claimed (claim : RunnerClaim)
  | remaining (bytes : ℕ)
  | completed (completion : RunnerCompletion)

namespace Gateway

/-- A call that changes nothing unless it succeeds. -/
def commit (g : Gateway) : Checked (Gateway × Response) → Gateway × Checked Response
  | .ok (next, response) => (next, .ok response)
  | .error fault => (g, .error fault)

def serve (w : Services) (g : Gateway) : Call → Gateway × Checked Response
  | .dispatch task admittedAt => g.commit ((·, .done) <$> g.dispatch w task admittedAt)
  | .authenticate identity => (g, .authenticated <$> g.authenticate identity)
  | .put tenant data =>
    let stored := g.store.put w tenant data
    ({ g with store := stored.1 }, .ok (.stored stored.2))
  | .claim registration claimedAt token =>
    let claimed := g.claim w registration claimedAt token
    (claimed.1, .claimed <$> claimed.2)
  | .heartbeat registration leaseId sequence receivedAt =>
    g.commit ((·, .done) <$> g.heartbeat registration leaseId sequence receivedAt)
  | .recordArtifact registration leaseId digest receivedAt =>
    g.commit ((·, .done) <$> g.recordArtifact registration leaseId digest receivedAt)
  | .remainingArtifactBytes registration leaseId evaluatedAt =>
    (g, .remaining <$> g.remainingArtifactBytes registration leaseId evaluatedAt)
  | .complete registration leaseId receipt projections receivedAt =>
    g.commit ((fun result => (result.1, .completed result.2)) <$>
      g.complete w registration leaseId receipt projections receivedAt)

end Gateway

end CollectivePhaseControl
