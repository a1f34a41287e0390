import CollectivePhaseControl.AuthorityLoader
import CollectivePhaseControl.ControlPlane

/-! Commits of workspace generations. A mutation is validated against the object store; then
one serializable transaction writes every table, or none of them. The in-memory repository
keeps only the current generation of a workspace. -/
namespace CollectivePhaseControl.Commits

def AuthorityStatus.text : AuthorityStatus → String
  | .active => "active"
  | .quarantined => "quarantined"
  | .superseded => "superseded"

structure ObjectAdmission where
  objectDigest : Digest
  objectKind : String
  authorityStatus : String
  byteLength : ℕ
  objectKey : String
deriving DecidableEq

structure GenerationMutation where
  tenantId : Identifier
  workspaceId : Identifier
  expectedGeneration : Digest
  generation : WorkspaceGeneration
  auditEvent : AuditEvent
  idempotencyKey : String
  requestDigest : String
  response : ApiResponse
  objectAdmissions : List ObjectAdmission
  quarantineAdditions : List (Digest × String)
  quarantineResolutions : List Digest
  outboxTopic : Option String
  outboxPayload : Members

structure WorkspaceRow where
  currentGenerationDigest : Digest
  generationSequence : ℕ
deriving DecidableEq

structure ObjectRow where
  objectKind : String
  authorityStatus : String
  byteLength : ℕ
  objectKey : String
  createdAt : ℤ
deriving DecidableEq

/-- The manifest is the generation as it was committed. -/
structure GenerationRow where
  tenantId : Identifier
  workspaceId : Identifier
  generationDigest : Digest
  sequence : ℕ
  priorGenerationDigest : Digest
  manifest : WorkspaceGeneration
  createdAt : ℤ

structure LedgerRow where
  tenantId : Identifier
  workspaceId : Identifier
  generationDigest : Digest
  entry : LedgerEntry

structure AuditEventRow where
  tenantId : Identifier
  workspaceId : Identifier
  eventSequence : ℕ
  eventDigest : Digest
  event : AuditEvent

structure QuarantineRow where
  reasonCode : String
  quarantinedAt : ℤ
  resolvedAt : Option ℤ
deriving DecidableEq

structure OutboxRow where
  tenantId : Identifier
  messageId : String
  workspaceId : Identifier
  topic : String
  payload : Members
  availableAt : ℤ

/-- The tables; a function gives the row of a primary key. -/
structure Database where
  workspaces : Identifier → Identifier → Option WorkspaceRow
  objects : Identifier → Digest → Option ObjectRow
  generations : List GenerationRow
  ledger : List LedgerRow
  auditEvents : List AuditEventRow
  quarantine : Identifier → Identifier → Digest → Option QuarantineRow
  outbox : List OutboxRow
  idempotency : Identifier → String → Option IdempotencyRow

inductive CommitError where
  | valueError (text : String)
  | keyError (text : String)
  | runtimeError (text : String)
  | integrityError
  /-- What the hashing of a generation or the reading of a ledger raises. -/
  | raised (fault : Fault)
  /-- The database refuses a value or gives the transaction up. -/
  | aborted
deriving DecidableEq

inductive Outcome where
  | committed (response : ApiResponse)
  | replayed (response : ApiResponse)
  /-- The mutation is invalid; there was no transaction. -/
  | refused (error : CommitError)
  /-- The transaction raised. -/
  | rolledBack (error : CommitError)
deriving DecidableEq

def check (condition : Prop) [Decidable condition] (text : String) : Except CommitError Unit :=
  if condition then .ok () else .error (.valueError text)

@[simp] theorem check_ok {condition : Prop} [Decidable condition] {text : String} {u : Unit} :
    check condition text = .ok u ↔ condition := by
  unfold check
  split <;> simp [*]

def raised {α : Type} (x : Checked α) : Except CommitError α := x.mapError .raised

@[simp] theorem raised_ok {α : Type} {x : Checked α} {a : α} : raised x = .ok a ↔ x = .ok a := by
  cases x <;> simp [raised, Except.mapError]

/-- `object_store.get`. -/
def fetch (store : ObjectStore) (tenant : Identifier) (digest : Digest) :
    Except CommitError Bytes :=
  match store tenant digest with
  | some data => .ok data
  | none => .error (.keyError digest)

@[simp] theorem fetch_ok {store : ObjectStore} {tenant : Identifier} {digest : Digest}
    {data : Bytes} : fetch store tenant digest = .ok data ↔ store tenant digest = some data := by
  unfold fetch
  split <;> simp_all

section validation
variable (w : Authority)

/-- `validate_ledger`, which reads neither a policy nor a time. -/
def validateLedger (generation : WorkspaceGeneration) (store : ObjectStore) :
    Checked (List String) := do
  let ledger := generation.spec.ledger
  let known := ledger.map (·.objectDigest)
  let own ← w.generationDigest generation
  let checked ← ledger.mapM fun entry =>
    match store generation.metadata.tenantId entry.objectDigest with
    | none => pure ["ledger_object_missing:" ++ entry.objectDigest]
    | some raw =>
      if w.digestBytes raw ≠ entry.objectDigest then
        pure ["ledger_raw_digest_mismatch:" ++ entry.objectDigest]
      else do
        let invalid ←
          if entry.objectKind = "raw-artifact" then pure []
          else
            match w.parseBytes raw with
            | .ok document =>
              pure (reasonIf (document.spec.kind ≠ entry.objectKind)
                ("ledger_kind_mismatch:" ++ entry.objectDigest))
            | .error (.valueError _) => pure ["ledger_document_invalid:" ++ entry.objectDigest]
            | .error (.typeError _) => .error (.crash .typeError)
        pure (invalid ++
          (entry.sourceDigests.filter (· ∉ known)).map ("ledger_source_dangling:" ++ ·))
  pure (reasonIf (¬ known.Nodup) "ledger_object_digest_duplicate" ++
    reasonIf (generation.spec.generationDigest ≠ own) "generation_digest_mismatch" ++
    checked.flatten ++
    reasonIf (generation.spec.historyHeadDigest ∉ known) "history_head_missing_from_ledger")

theorem validateLedger_loader (a : LoadArguments) :
    w.validateLedger a = validateLedger w a.generation a.store := rfl

def hexadecimal : List Char := "0123456789abcdef".toList

/-- Whether what follows the prefix `sha256:`, if there is one, is a hash. -/
def isRequestDigest (text : String) : Bool :=
  let hash := if "sha256:".toList.isPrefixOf text.toList then text.toList.drop 7 else text.toList
  hash.length == 64 && hash.all (hexadecimal.contains ·)

/-- Whether the key's last parts are the tenant's and the digest's and no part leads elsewhere. -/
def isScopedKey (key : String) (tenant : Identifier) (digest : Digest) : Bool :=
  let parts := key.toList.splitOn '/'
  !key.toList.contains '\\' &&
    parts.all (fun part => !part.isEmpty && part != ['.'] && part != ['.', '.']) &&
    parts.drop (parts.length - 3) == [tenant.toList, "sha256".toList, digest.toList.drop 7]

def ledgerEntry (generation : WorkspaceGeneration) (digest : Digest) : Option LedgerEntry :=
  generation.spec.ledger.reverse.find? (·.objectDigest == digest)

def validateAdmission (m : GenerationMutation) (store : ObjectStore)
    (admission : ObjectAdmission) : Except CommitError Unit :=
  match ledgerEntry m.generation admission.objectDigest with
  | none => .error (.valueError "object_admission_not_in_generation")
  | some entry => do
    check (entry.objectKind = admission.objectKind ∧
      AuthorityStatus.text entry.authorityStatus = admission.authorityStatus)
      "object_admission_ledger_mismatch"
    let data ← fetch store m.tenantId admission.objectDigest
    check (admission.byteLength = data.length) "object_admission_length_mismatch"
    check (isScopedKey admission.objectKey m.tenantId admission.objectDigest = true)
      "object_admission_key_not_tenant_digest_scoped"

def ledgerInvalid (reasons : List String) : String :=
  "generation_ledger_invalid:" ++ ",".intercalate (normalized reasons)

def validateGenerationMutation (m : GenerationMutation) (store : ObjectStore) :
    Except CommitError Unit := do
  check (m.generation.metadata.tenantId = m.tenantId) "generation_tenant_mismatch"
  check (m.generation.metadata.workspaceId = m.workspaceId) "generation_workspace_mismatch"
  let own ← raised (w.generationDigest m.generation)
  check (m.generation.spec.generationDigest = own) "generation_digest_mismatch"
  check (m.generation.spec.priorGenerationDigest = some m.expectedGeneration)
    "generation_predecessor_mismatch"
  check (16 ≤ m.idempotencyKey.length ∧ m.idempotencyKey.length ≤ 128)
    "idempotency_key_length_invalid"
  check (isRequestDigest m.requestDigest = true) "request_digest_invalid"
  check (m.response.generationDigest = m.generation.spec.generationDigest)
    "response_generation_binding_mismatch"
  check (w.document (m.auditEvent.document .auditEvent) = m.generation.spec.historyHeadDigest)
    "generation_history_head_mismatch"
  check (m.auditEvent.metadata.tenantId = m.tenantId) "audit_event_tenant_mismatch"
  check (m.auditEvent.metadata.workspaceId = m.workspaceId) "audit_event_workspace_mismatch"
  let ledgerReasons ← raised (validateLedger w m.generation store)
  check (ledgerReasons = []) (ledgerInvalid ledgerReasons)
  check (m.objectAdmissions.map (·.objectDigest)).Nodup "object_admission_digest_duplicate"
  m.objectAdmissions.forM (validateAdmission m store)
  check (m.quarantineAdditions.map Prod.fst).Nodup "quarantine_addition_duplicate"
  check m.quarantineResolutions.Nodup "quarantine_resolution_duplicate"

end validation

/-- A call of `commit_generation`: the mutation, the stores that its validation and its
transaction read, the clock, the message drawn for the outbox, and whether the database gives
the transaction up. -/
structure Attempt where
  mutation : GenerationMutation
  validated : ObjectStore
  store : ObjectStore
  now : ℤ
  messageId : String
  gaveUp : Bool

section transaction
variable (w : Authority) (a : Attempt)

def unique (condition : Prop) [Decidable condition] : Except CommitError Unit :=
  if condition then .ok () else .error .integrityError

@[simp] theorem unique_ok {condition : Prop} [Decidable condition] {u : Unit} :
    unique condition = .ok u ↔ condition := by
  unfold unique
  split <;> simp [*]

def lockWorkspace (m : GenerationMutation) (db : Database) : Except CommitError WorkspaceRow :=
  match db.workspaces m.tenantId m.workspaceId with
  | none => .error (.keyError "workspace_not_found")
  | some row =>
    if row.currentGenerationDigest = m.expectedGeneration then .ok row
    else .error (.runtimeError "workspace_generation_changed")

def generationRow (db : Database) (tenant workspace : Identifier) (digest : Digest) :
    Option GenerationRow :=
  db.generations.find? fun row =>
    row.tenantId == tenant && row.workspaceId == workspace && row.generationDigest == digest

def priorHistoryHead (m : GenerationMutation) (db : Database) : Option Digest :=
  (generationRow db m.tenantId m.workspaceId m.expectedGeneration).map
    (·.manifest.spec.historyHeadDigest)

/-- An entry's object is stored under the same kind and length, or is admitted with it. -/
def admitEntry (objects : Identifier → Digest → Option ObjectRow) (entry : LedgerEntry) :
    Except CommitError (Identifier → Digest → Option ObjectRow) :=
  let m := a.mutation
  match objects m.tenantId entry.objectDigest with
  | none =>
    match m.objectAdmissions.find? (·.objectDigest == entry.objectDigest) with
    | none => .error (.valueError "object_admission_required")
    | some admission =>
      .ok fun tenant digest =>
        if tenant = m.tenantId ∧ digest = entry.objectDigest then
          some ⟨admission.objectKind, admission.authorityStatus, admission.byteLength,
            admission.objectKey, a.now⟩
        else objects tenant digest
  | some stored =>
    if stored.objectKind ≠ entry.objectKind then
      .error (.valueError "stored_object_metadata_mismatch")
    else do
      let data ← fetch a.store m.tenantId entry.objectDigest
      check (stored.byteLength = data.length) "stored_object_metadata_mismatch"
      pure objects

def newGeneration : GenerationRow :=
  let m := a.mutation
  ⟨m.tenantId, m.workspaceId, m.generation.spec.generationDigest, m.generation.spec.sequence,
    m.expectedGeneration, m.generation, a.now⟩

def insertGeneration (rows : List GenerationRow) : Except CommitError (List GenerationRow) := do
  let new := newGeneration a
  unique (∀ row ∈ rows, row.tenantId = new.tenantId → row.workspaceId = new.workspaceId →
    row.generationDigest ≠ new.generationDigest ∧ row.sequence ≠ new.sequence)
  pure (rows ++ [new])

def newLedger : List LedgerRow :=
  let m := a.mutation
  m.generation.spec.ledger.map
    (⟨m.tenantId, m.workspaceId, m.generation.spec.generationDigest, ·⟩)

def newAuditEvent : AuditEventRow :=
  let m := a.mutation
  ⟨m.tenantId, m.workspaceId, m.generation.spec.sequence,
    w.document (m.auditEvent.document .auditEvent), m.auditEvent⟩

def insertAuditEvent (rows : List AuditEventRow) : Except CommitError (List AuditEventRow) := do
  let new := newAuditEvent w a
  unique (∀ row ∈ rows, row.tenantId = new.tenantId → row.eventDigest ≠ new.eventDigest ∧
    (row.workspaceId = new.workspaceId → row.eventSequence ≠ new.eventSequence))
  pure (rows ++ [new])

abbrev QuarantineTable := Identifier → Identifier → Digest → Option QuarantineRow

def setQuarantine (rows : QuarantineTable) (digest : Digest) (row : QuarantineRow) :
    QuarantineTable := fun tenant workspace object =>
  if tenant = a.mutation.tenantId ∧ workspace = a.mutation.workspaceId ∧ object = digest then
    some row
  else rows tenant workspace object

def addQuarantine (rows : QuarantineTable) (addition : Digest × String) :
    Except CommitError QuarantineTable := do
  check (addition.1 ∈ a.mutation.generation.spec.ledger.map (·.objectDigest))
    "quarantine_object_not_in_generation"
  pure (setQuarantine a rows addition.1 ⟨addition.2, a.now, none⟩)

def resolveQuarantine (rows : QuarantineTable) (digest : Digest) :
    Except CommitError QuarantineTable :=
  match rows a.mutation.tenantId a.mutation.workspaceId digest with
  | some ⟨reasonCode, quarantinedAt, none⟩ =>
    .ok (setQuarantine a rows digest ⟨reasonCode, quarantinedAt, some a.now⟩)
  | _ => .error (.valueError "quarantine_resolution_not_active")

def insertOutbox (rows : List OutboxRow) : Except CommitError (List OutboxRow) :=
  let m := a.mutation
  match m.outboxTopic with
  | none => .ok rows
  | some topic => do
    unique (∀ row ∈ rows, row.tenantId = m.tenantId → row.messageId ≠ a.messageId)
    pure (rows ++ [⟨m.tenantId, a.messageId, m.workspaceId, topic, m.outboxPayload, a.now⟩])

def retention : ℤ := 24 * 60 * 60 * 1000000

def newIdempotency (rows : Identifier → String → Option IdempotencyRow) :
    Identifier → String → Option IdempotencyRow := fun tenant key =>
  if tenant = a.mutation.tenantId ∧ key = a.mutation.idempotencyKey then
    some ⟨a.mutation.requestDigest, a.mutation.response, a.now + retention⟩
  else rows tenant key

def advance (rows : Identifier → Identifier → Option WorkspaceRow) :
    Identifier → Identifier → Option WorkspaceRow := fun tenant workspace =>
  if tenant = a.mutation.tenantId ∧ workspace = a.mutation.workspaceId then
    some ⟨a.mutation.generation.spec.generationDigest, a.mutation.generation.spec.sequence⟩
  else rows tenant workspace

def applyMutation (db : Database) : Except CommitError Database := do
  let m := a.mutation
  let workspace ← lockWorkspace m db
  check (m.generation.spec.sequence = workspace.generationSequence + 1)
    "generation_sequence_mismatch"
  check (m.auditEvent.spec.priorEventDigest = priorHistoryHead m db)
    "audit_event_predecessor_mismatch"
  let objects ← m.generation.spec.ledger.foldlM (admitEntry a) db.objects
  let generations ← insertGeneration a db.generations
  let auditEvents ← insertAuditEvent w a db.auditEvents
  let added ← m.quarantineAdditions.foldlM (addQuarantine a) db.quarantine
  let quarantine ← m.quarantineResolutions.foldlM (resolveQuarantine a) added
  let outbox ← insertOutbox a db.outbox
  pure {
    workspaces := advance a db.workspaces
    objects := objects
    generations := generations
    ledger := db.ledger ++ newLedger a
    auditEvents := auditEvents
    quarantine := quarantine
    outbox := outbox
    idempotency := newIdempotency a db.idempotency }

def transaction (db : Database) : Except CommitError (Database × Outcome) :=
  let m := a.mutation
  match db.idempotency m.tenantId m.idempotencyKey with
  | some row =>
    if row.requestDigest = m.requestDigest then .ok (db, .replayed row.response)
    else .error (.valueError "idempotency_key_reused_with_different_request")
  | none => do
    let committed ← applyMutation w a db
    pure (committed, .committed m.response)

/-- What the database holds after a call, and what the call comes to. -/
def commitGeneration (db : Database) : Database × Outcome :=
  match validateGenerationMutation w a.mutation a.validated with
  | .error error => (db, .refused error)
  | .ok () =>
    match transaction w a db with
    | .error error => (db, .rolledBack error)
    | .ok result => if a.gaveUp then (db, .rolledBack .aborted) else result

end transaction

structure WorkspaceState where
  generation : WorkspaceGeneration
  objects : Dict Document

namespace WorkspaceState

abbrev tenantId (state : WorkspaceState) : Identifier := state.generation.metadata.tenantId
abbrev workspaceId (state : WorkspaceState) : Identifier := state.generation.metadata.workspaceId

end WorkspaceState

abbrev MemoryGenerationRepository := Identifier → Identifier → Option WorkspaceState

namespace MemoryGenerationRepository

def store (repository : MemoryGenerationRepository) (state : WorkspaceState) :
    MemoryGenerationRepository := fun tenant workspace =>
  if tenant = state.tenantId ∧ workspace = state.workspaceId then some state
  else repository tenant workspace

def commit (repository : MemoryGenerationRepository) (state : WorkspaceState)
    (expectedGenerationDigest : Digest) : Except CommitError MemoryGenerationRepository :=
  match repository state.tenantId state.workspaceId with
  | none => .error (.keyError state.workspaceId)
  | some current =>
    if current.generation.spec.generationDigest ≠ expectedGenerationDigest then
      .error (.runtimeError "workspace_generation_changed")
    else if state.generation.spec.priorGenerationDigest ≠ some expectedGenerationDigest then
      .error (.runtimeError "generation_predecessor_mismatch")
    else if state.generation.spec.sequence ≠ current.generation.spec.sequence + 1 then
      .error (.runtimeError "generation_sequence_mismatch")
    else .ok (repository.store state)

end MemoryGenerationRepository

end CollectivePhaseControl.Commits
