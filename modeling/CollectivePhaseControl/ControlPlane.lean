import CollectivePhaseControl.Documents
import CollectivePhaseControl.Runs

/-! Mutation endpoints of the control plane over the database. Every database transaction of
an endpoint is one step, so other requests, generation commits and the clock come between
an endpoint's lookup, its effect and its record. Instants are whole microseconds. -/
namespace CollectivePhaseControl

inductive Endpoint where
  | createWorkspace (rootSpkiFingerprint genesisEnvelopeFingerprint : Digest)
  | startAnalysis
  /-- An endpoint routed through `queue_workspace_operation`. -/
  | queued (topic operation : String) (authority : List String) (subjectDigests : List Digest)
deriving DecidableEq

structure Mutation where
  endpoint : Endpoint
  tenantId : Identifier
  workspaceId : Identifier
  idempotencyKey : String
  /-- The digest of method, path, tenant, subject, body and `If-Match`. -/
  requestDigest : Digest
  ifMatch : Digest
  /-- The actor holds the endpoint's permission. -/
  authorized : Bool

/-- `claims` of a queued operation are the digests it was given. -/
structure ApiResponse where
  status : String
  code : String
  effectClass : String
  tenantId : Identifier
  workspaceId : Identifier
  generationDigest : Digest
  jobId : Option String
  authorityRequired : List String
  claims : Option (List Digest)
  nextSafeCommands : List (List String)
  traceId : String
deriving DecidableEq

structure OutboxRow where
  tenantId : Identifier
  messageId : String
  workspaceId : Identifier
  topic : String
deriving DecidableEq

structure IdempotencyRow where
  requestDigest : Digest
  response : ApiResponse
  expiresAt : ℤ

/-- The rows the endpoints read and write; `workspaces` gives the current generation. -/
structure Database where
  workspaces : Identifier → Identifier → Option Digest
  outbox : List OutboxRow
  idempotency : Identifier → String → Option IdempotencyRow
  now : ℤ

inductive Progress where
  | arrived
  /-- The workspace is at the given generation; the key has not been looked up. -/
  | checked (generation : Digest)
  /-- The key was not found; the workspace has not been looked at. -/
  | missed
  /-- Both are done; the job is to be queued. -/
  | ready (generation : Digest)
  /-- The effect is committed, its answer not recorded. -/
  | effected (response : ApiResponse)
  /-- The record's transaction has found no row. -/
  | recording (response : ApiResponse)
  | answered (response : ApiResponse)
  | refused (status : ℕ) (code : String)
  /-- An exception no handler knows. -/
  | failed
  | crashed

def Progress.finished : Progress → Bool
  | .answered _ | .refused _ _ | .failed | .crashed => true
  | _ => false

structure Draw where
  messageId : String
  traceId : String

namespace Mutation

def record (m : Mutation) (db : Database) : Option IdempotencyRow :=
  db.idempotency m.tenantId m.idempotencyKey

def generation (m : Mutation) (db : Database) : Option Digest :=
  db.workspaces m.tenantId m.workspaceId

/-- `idempotency_get`: an expired record is no record. -/
def lookup (m : Mutation) (db : Database) (miss : Progress) : Progress :=
  match m.record db with
  | none => miss
  | some row =>
    if row.expiresAt ≤ db.now then miss
    else if row.requestDigest = m.requestDigest then .answered row.response
    else .refused 409 "idempotency_key_reused_with_different_request"

/-- `require_workspace` and the comparison with `If-Match`. -/
def check (m : Mutation) (db : Database) (pass : Digest → Progress) : Progress :=
  match m.generation db with
  | none => .refused 404 "workspace_not_found"
  | some generation =>
    if m.ifMatch = generation then pass generation
    else .refused 412 "workspace_generation_changed"

def setGeneration (m : Mutation) (db : Database) (generation : Digest) : Database :=
  { db with workspaces := fun tenant workspace =>
      if tenant = m.tenantId ∧ workspace = m.workspaceId then some generation
      else db.workspaces tenant workspace }

def created (m : Mutation) (generation : Digest) (draw : Draw) : ApiResponse where
  status := "ok"
  code := "workspace_created"
  effectClass := "local_write"
  tenantId := m.tenantId
  workspaceId := m.workspaceId
  generationDigest := generation
  jobId := none
  authorityRequired := ["tenant_admin"]
  claims := none
  nextSafeCommands := [["cpcf", "agent", "onboard", "--workspace", m.workspaceId, "--json"]]
  traceId := draw.traceId

def accepted (m : Mutation) (generation : Digest) (draw : Draw) (code : String)
    (authority : List String) (claims : Option (List Digest)) : ApiResponse where
  status := "accepted"
  code := code
  effectClass := "plan"
  tenantId := m.tenantId
  workspaceId := m.workspaceId
  generationDigest := generation
  jobId := some draw.messageId
  authorityRequired := authority
  claims := claims
  nextSafeCommands := [["cpcf", "audit", "status", draw.messageId, "--json"]]
  traceId := draw.traceId

/-- `enqueue`, which draws a fresh message id. -/
def enqueue (m : Mutation) (db : Database) (draw : Draw) (topic : String) : Database :=
  { db with outbox := db.outbox ++ [⟨m.tenantId, draw.messageId, m.workspaceId, topic⟩] }

/-- The insertion of `idempotency_put`: kept for a day. -/
def insert (m : Mutation) (db : Database) (response : ApiResponse) : Database :=
  { db with idempotency := fun tenant key =>
      if tenant = m.tenantId ∧ key = m.idempotencyKey then
        some ⟨m.requestDigest, response, db.now + 24 * 3600 * 1000000⟩
      else db.idempotency tenant key }

/-- The next transaction of a request. `genesis` is the digest of a new workspace's first
generation, which depends on the instant. -/
def advance (genesis : Mutation → ℤ → Digest) (m : Mutation) (draw : Draw) (db : Database) :
    Progress → Database × Progress
  | .arrived =>
    if m.authorized = false then (db, .refused 403 "operation_denied_by_default")
    else
      match m.endpoint with
      | .queued .. => (db, m.check db .checked)
      | .startAnalysis | .createWorkspace .. => (db, m.lookup db .missed)
  | .checked generation => (db, m.lookup db (.ready generation))
  | .missed =>
    match m.endpoint with
    | .createWorkspace .. =>
      match m.generation db with
      | some _ => (db, .refused 409 "workspace_already_exists")
      | none =>
        (m.setGeneration db (genesis m db.now), .effected (m.created (genesis m db.now) draw))
    | .startAnalysis | .queued .. => (db, m.check db .ready)
  | .ready generation =>
    match m.endpoint with
    | .startAnalysis =>
      (m.enqueue db draw "analysis", .effected (m.accepted generation draw "analysis_queued"
        ["auditor", "planner", "tenant_admin"] none))
    | .queued topic operation authority digests =>
      (m.enqueue db draw topic, .effected (m.accepted generation draw (operation ++ "_queued")
        authority (some digests)))
    | .createWorkspace .. => (db, .ready generation)
  | .effected response =>
    match m.record db with
    | none => (db, .recording response)
    | some row =>
      if row.requestDigest = m.requestDigest then (db, .answered response) else (db, .failed)
  | .recording response =>
    match m.record db with
    | none => (m.insert db response, .answered response)
    | some _ => (db, .failed)
  | done => (db, done)

end Mutation

/-- Identical requests at work on one database. `effects` lists the requests that have
queued a job or created the workspace. -/
structure ControlPlane where
  db : Database
  clients : ℕ → Progress
  effects : List ℕ

inductive PlaneStep where
  | act (client : ℕ) (draw : Draw)
  | crash (client : ℕ)
  | commit (generation : Digest)
  | tick (elapsed : ℕ)

def PlaneStep.client : PlaneStep → Option ℕ
  | .act client _ | .crash client => some client
  | .commit _ | .tick _ => none

namespace ControlPlane

def initial (db : Database) : ControlPlane := ⟨db, fun _ => .arrived, []⟩

def countEffect (effects : List ℕ) (client : ℕ) : Progress → List ℕ
  | .effected _ => effects ++ [client]
  | _ => effects

def step (genesis : Mutation → ℤ → Digest) (m : Mutation) (p : ControlPlane) :
    PlaneStep → ControlPlane
  | .act client draw =>
    let next := m.advance genesis draw p.db (p.clients client)
    ⟨next.1, Function.update p.clients client next.2, countEffect p.effects client next.2⟩
  | .crash client =>
    if (p.clients client).finished then p
    else { p with clients := Function.update p.clients client .crashed }
  | .commit generation =>
    match m.generation p.db with
    | some _ => { p with db := m.setGeneration p.db generation }
    | none => p
  | .tick elapsed => { p with db := { p.db with now := p.db.now + elapsed } }

end ControlPlane

end CollectivePhaseControl
