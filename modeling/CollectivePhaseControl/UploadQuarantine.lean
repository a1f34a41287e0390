import CollectivePhaseControl.GenerationChains

/-! Uploads of content and commits of generations at work on one database and one object
store. An upload tags the object it has put, and a commit whose transaction raises tags the
object of every admission; neither looks up what is committed. Every database transaction and
every request to the object store is one step. -/
namespace CollectivePhaseControl.Commits

/-- A request of `upload_cas_object` with the bytes it streams. -/
structure Upload where
  tenantId : Identifier
  workspaceId : Identifier
  authorized : Bool
  hexDigest : String
  idempotencyKey : String
  requestDigest : Digest
  ifMatch : Digest
  data : Bytes
  traceId : String

inductive Cause where
  | upload | rollback
deriving DecidableEq

def Cause.reason : Cause → String
  | upload => "pending_database_admission"
  | rollback => "database_transaction_rolled_back"

structure Tagging where
  tenantId : Identifier
  digest : Digest
  cause : Cause
deriving DecidableEq

inductive Answer where
  | returned (response : ApiResponse)
  | refused (status : ℕ) (code : String)
  | failed (text : String)
  | rejected (error : CommitError)
  | crashed
deriving DecidableEq

inductive UploadStage where
  | arrived
  /-- The workspace is at the expected generation and the bytes have the digest. -/
  | checked
  /-- No record was found for the key. -/
  | missed
  /-- The object is put and not tagged. -/
  | stored
  | tagged
deriving DecidableEq

inductive CommitStage where
  | arrived
  | validated
  /-- The transaction has raised; these objects are still to be tagged. -/
  | tagging (rest : List Digest) (error : CommitError)
deriving DecidableEq

inductive Task where
  | upload (u : Upload) (stage : UploadStage)
  | commit (m : GenerationMutation) (stage : CommitStage)
  | finished (answer : Answer)

structure Deployment where
  db : Database
  store : ObjectStore
  /-- The reason of an object's `cpcf-authority=quarantined`. -/
  tags : Identifier → Digest → Option String
  tasks : List Task

/-- A step of one request: the clock, a random draw, whether the database gives up the
transaction, and whether the process dies instead. -/
structure Event where
  client : ℕ
  now : ℤ
  messageId : String
  gaveUp : Bool
  crash : Bool

namespace Upload

def digest (u : Upload) : Digest := "sha256:" ++ u.hexDigest

/-- `re.fullmatch(r"[0-9a-f]{64}", hex_digest)`. -/
def isHex (text : String) : Bool := text.length == 64 && text.toList.all (hexadecimal.contains ·)

variable (w : Authority) (limit : ℕ) (u : Upload) (s : Deployment)

def arrive : Task :=
  if u.authorized = false then .finished (.refused 403 "operation_denied_by_default")
  else if isHex u.hexDigest = false then .finished (.refused 422 "content_digest_invalid")
  else
    match s.db.workspaces u.tenantId u.workspaceId with
    | none => .finished (.refused 404 "workspace_not_found")
    | some row =>
      if u.ifMatch ≠ row.currentGenerationDigest then
        .finished (.refused 412 "workspace_generation_changed")
      else if limit < u.data.length then .finished (.refused 413 "cas_upload_too_large")
      else if w.digestBytes u.data ≠ u.digest then
        .finished (.refused 422 "cas_upload_digest_mismatch")
      else .upload u .checked

def lookup (now : ℤ) : Task :=
  match s.db.idempotency u.tenantId u.idempotencyKey with
  | none => .upload u .missed
  | some row =>
    if row.expiresAt ≤ now then .upload u .missed
    else if row.requestDigest = u.requestDigest then .finished (.returned row.response)
    else .finished (.refused 409 "idempotency_key_reused_with_different_request")

def isKeyTenant (tenant : Identifier) : Bool :=
  !tenant.isEmpty && tenant.toList.all (fun c => c != '/' && c != '\\') &&
    !(tenant.toList.tails.any (['.', '.'].isPrefixOf ·))

/-- `put_expected`: an object is created once. -/
def put : Deployment × Task :=
  if isKeyTenant u.tenantId = false then (s, .finished (.failed "invalid_tenant_id"))
  else
    match s.store u.tenantId u.digest with
    | none =>
      ({ s with store := fun tenant digest =>
          if tenant = u.tenantId ∧ digest = u.digest then some u.data
          else s.store tenant digest }, .upload u .stored)
    | some existing =>
      if existing.length = u.data.length then (s, .upload u .stored)
      else (s, .finished (.failed "immutable_object_key_collision"))

def response : ApiResponse where
  status := "ok"
  code := "cas_object_uploaded_quarantined"
  effectClass := "remote_write"
  tenantId := u.tenantId
  workspaceId := u.workspaceId
  generationDigest := u.ifMatch
  jobId := none
  authorityRequired := ["evidence_producer", "tenant_admin"]
  claims := none
  nextSafeCommands := [["cpcf", "workspace", "status", u.workspaceId, "--json"]]
  traceId := u.traceId

def newRecord (now : ℤ) (rows : Identifier → String → Option IdempotencyRow) :
    Identifier → String → Option IdempotencyRow := fun tenant key =>
  if tenant = u.tenantId ∧ key = u.idempotencyKey then
    some ⟨u.requestDigest, u.response, now + retention⟩
  else rows tenant key

/-- `idempotency_put`. -/
def record (now : ℤ) : Deployment × Task :=
  match s.db.idempotency u.tenantId u.idempotencyKey with
  | some row =>
    if row.requestDigest = u.requestDigest then (s, .finished (.returned u.response))
    else (s, .finished (.failed "idempotency_key_reused_with_different_request"))
  | none =>
    ({ s with db := { s.db with idempotency := u.newRecord now s.db.idempotency } },
      .finished (.returned u.response))

end Upload

namespace Deployment
variable (w : Authority) (limit : ℕ) (s : Deployment)

/-- `quarantine_unreferenced`, which looks at nothing but the key. -/
def tag (tagging : Tagging) : Deployment :=
  { s with tags := fun tenant digest =>
      if tenant = tagging.tenantId ∧ digest = tagging.digest then some tagging.cause.reason
      else s.tags tenant digest }

def attempt (m : GenerationMutation) (e : Event) : Attempt :=
  ⟨m, s.store, s.store, e.now, e.messageId, e.gaveUp⟩

/-- The transaction of a valid mutation and the tags that its failure calls for. -/
def transact (m : GenerationMutation) (e : Event) : Deployment × Task :=
  match transaction w (s.attempt m e) s.db with
  | .error error =>
    (s, .commit m (.tagging (m.objectAdmissions.map (·.objectDigest)) error))
  | .ok (db, outcome) =>
    if e.gaveUp then
      (s, .commit m (.tagging (m.objectAdmissions.map (·.objectDigest)) .aborted))
    else
      match outcome with
      | .replayed response => (s, .finished (.returned response))
      | _ => ({ s with db := db }, .finished (.returned m.response))

/-- What a request does next; tagging fails only for a tenant without object keys. -/
def advance (e : Event) : Task → Deployment × Task
  | .upload u .arrived => (s, u.arrive w limit s)
  | .upload u .checked => (s, u.lookup s e.now)
  | .upload u .missed => u.put s
  | .upload u .stored => (s.tag ⟨u.tenantId, u.digest, .upload⟩, .upload u .tagged)
  | .upload u .tagged => u.record s e.now
  | .commit m .arrived =>
    match validateGenerationMutation w m s.store with
    | .error error => (s, .finished (.rejected error))
    | .ok () => (s, .commit m .validated)
  | .commit m .validated => s.transact w m e
  | .commit _ (.tagging [] error) => (s, .finished (.rejected error))
  | .commit m (.tagging (digest :: rest) error) =>
    if Upload.isKeyTenant m.tenantId then
      (s.tag ⟨m.tenantId, digest, .rollback⟩, .commit m (.tagging rest error))
    else (s, .finished (.failed "invalid_tenant_id"))
  | .finished answer => (s, .finished answer)

def step (e : Event) : Deployment :=
  match s.tasks[e.client]? with
  | none => s
  | some task =>
    if e.crash then { s with tasks := s.tasks.set e.client (.finished .crashed) }
    else
      let next := s.advance w limit e task
      { next.1 with tasks := s.tasks.set e.client next.2 }

def run : List Event → Deployment → Deployment
  | [], s => s
  | e :: rest, s => run rest (s.step w limit e)

end Deployment

def Task.pending : Task → List Tagging
  | .upload u .stored => [⟨u.tenantId, u.digest, .upload⟩]
  | .commit m (.tagging rest _) => rest.map (⟨m.tenantId, ·, .rollback⟩)
  | _ => []

def Deployment.tagged (s : Deployment) (e : Event) : Option Tagging :=
  if e.crash then none
  else
    match s.tasks[e.client]? with
    | some (.upload u .stored) => some ⟨u.tenantId, u.digest, .upload⟩
    | some (.commit m (.tagging (digest :: _) _)) =>
      if Upload.isKeyTenant m.tenantId then some ⟨m.tenantId, digest, .rollback⟩ else none
    | _ => none

def Referenced (db : Database) (tenant : Identifier) (digest : Digest) : Prop :=
  ∃ row ∈ db.generations, row.tenantId = tenant ∧
    ∃ entry ∈ row.manifest.spec.ledger, entry.objectDigest = digest

/-- The current generation of a workspace of the tenant lists the object as active. -/
def Active (db : Database) (tenant : Identifier) (digest : Digest) : Prop :=
  ∃ row ∈ db.generations, row.tenantId = tenant ∧
    (db.workspaces tenant row.workspaceId).map (·.currentGenerationDigest) =
      some row.generationDigest ∧
    ∃ entry ∈ row.manifest.spec.ledger, entry.objectDigest = digest ∧
      entry.authorityStatus = .active

instance decidableReferenced (db : Database) (tenant : Identifier) (digest : Digest) :
    Decidable (Referenced db tenant digest) := by
  unfold Referenced
  infer_instance

instance decidableActive (db : Database) (tenant : Identifier) (digest : Digest) :
    Decidable (Active db tenant digest) := by
  unfold Active
  infer_instance

/-- A tag spares the objects of current generations, and one put for a failed commit those of
every committed generation. -/
def Tagging.Spares (tagging : Tagging) (db : Database) : Prop :=
  ¬ Active db tagging.tenantId tagging.digest ∧
    (tagging.cause = .rollback → ¬ Referenced db tagging.tenantId tagging.digest)

instance decidableSpares (tagging : Tagging) (db : Database) : Decidable (tagging.Spares db) := by
  unfold Tagging.Spares
  infer_instance

theorem Active.referenced {db : Database} {tenant : Identifier} {digest : Digest}
    (active : Active db tenant digest) : Referenced db tenant digest := by
  obtain ⟨row, member, own, -, entry, listed, named, -⟩ := active
  exact ⟨row, member, own, entry, listed, named⟩

section careful
variable (w : Authority) (limit : ℕ)

/-- The mutation's transaction raises. -/
def Deployment.rollsBack (s : Deployment) (m : GenerationMutation) (e : Event) : Bool :=
  match transaction w (s.attempt m e) s.db with
  | .error _ => true
  | .ok _ => e.gaveUp

/-- The mutation's ledger lists an object so that the tag would not spare it. -/
def Lists (m : GenerationMutation) (tagging : Tagging) : Prop :=
  tagging.tenantId = m.tenantId ∧ ∃ entry ∈ m.generation.spec.ledger,
    entry.objectDigest = tagging.digest ∧
      (entry.authorityStatus = .active ∨ tagging.cause = .rollback)

/-- What a request's next step may not do. An upload does not put an object that a current
generation lists as active; a commit whose transaction raises admits no object that a
committed generation lists; and one that goes through lists none that is still to be tagged. -/
def Deployment.CarefulWith (s : Deployment) (e : Event) : Task → Prop
  | .upload u .missed => ¬ Active s.db u.tenantId u.digest
  | .commit m .validated =>
    if s.rollsBack w m e = true then
      ∀ admission ∈ m.objectAdmissions, ¬ Referenced s.db m.tenantId admission.objectDigest
    else s.db.idempotency m.tenantId m.idempotencyKey = none →
      ∀ task ∈ s.tasks, ∀ tagging ∈ task.pending, ¬ Lists m tagging
  | _ => True

def Deployment.Careful (s : Deployment) (e : Event) : Prop :=
  e.crash = false → ∀ task ∈ s.tasks[e.client]?, s.CarefulWith w e task

def AllCareful : List Event → Deployment → Prop
  | [], _ => True
  | e :: rest, s => s.Careful w e ∧ AllCareful rest (s.step w limit e)

instance decidableLists (m : GenerationMutation) (tagging : Tagging) :
    Decidable (Lists m tagging) := by
  unfold Lists
  infer_instance

instance decidableCarefulWith (s : Deployment) (e : Event) :
    (task : Task) → Decidable (s.CarefulWith w e task)
  | .upload u .missed => inferInstanceAs (Decidable (¬ Active s.db u.tenantId u.digest))
  | .commit m .validated => inferInstanceAs (Decidable (if s.rollsBack w m e = true then
      ∀ admission ∈ m.objectAdmissions, ¬ Referenced s.db m.tenantId admission.objectDigest
    else s.db.idempotency m.tenantId m.idempotencyKey = none →
      ∀ task ∈ s.tasks, ∀ tagging ∈ task.pending, ¬ Lists m tagging))
  | .upload _ .arrived | .upload _ .checked | .upload _ .stored | .upload _ .tagged =>
    .isTrue trivial
  | .commit _ .arrived | .commit _ (.tagging _ _) | .finished _ => .isTrue trivial

instance decidableCareful (s : Deployment) (e : Event) : Decidable (s.Careful w e) := by
  unfold Deployment.Careful
  infer_instance

instance decidableAllCareful : (events : List Event) → (s : Deployment) →
    Decidable (AllCareful w limit events s)
  | [], _ => .isTrue trivial
  | e :: rest, s =>
    have := decidableAllCareful rest (s.step w limit e)
    inferInstanceAs (Decidable (s.Careful w e ∧ AllCareful w limit rest (s.step w limit e)))

def Deployment.Quiet (s : Deployment) : Prop := ∀ task ∈ s.tasks, task.pending = []

def Deployment.Sparing (s : Deployment) : Prop :=
  ∀ task ∈ s.tasks, ∀ tagging ∈ task.pending, tagging.Spares s.db

variable {w limit} {s : Deployment} {e : Event} {task : Task} {tagging : Tagging}
  {db db' : Database} {a : Attempt} {row : WorkspaceRow}

theorem Tagging.Spares.congr (spares : tagging.Spares db) (workspaces : db'.workspaces = db.workspaces)
    (generations : db'.generations = db.generations) : tagging.Spares db' := by
  unfold Tagging.Spares Active Referenced
  rw [workspaces, generations]
  exact spares

theorem Writes.spares (effect : Writes w a db db' row) (spares : tagging.Spares db)
    (unlisted : ¬ Lists a.mutation tagging) : tagging.Spares db' := by
  refine ⟨?_, ?_⟩
  · rintro ⟨row, member, own, current, entry, listed, named, active⟩
    rw [effect.generations, List.mem_append, List.mem_singleton] at member
    cases member with
    | inr new =>
      subst new
      exact unlisted ⟨own.symm, entry, listed, named, .inl active⟩
    | inl old =>
      refine spares.1 ⟨row, old, own, ?_, entry, listed, named, active⟩
      rw [effect.workspaces, advance] at current
      split at current
      · rename_i here
        exact absurd (Option.some.inj current).symm
          (effect.fresh row old (own.trans here.1) here.2)
      · exact current
  · rintro rollback ⟨row, member, own, entry, listed, named⟩
    rw [effect.generations, List.mem_append, List.mem_singleton] at member
    cases member with
    | inr new =>
      subst new
      exact unlisted ⟨own.symm, entry, listed, named, .inr rollback⟩
    | inl old => exact spares.2 rollback ⟨row, old, own, entry, listed, named⟩

theorem spares_admissions {m : GenerationMutation}
    (free : ∀ admission ∈ m.objectAdmissions, ¬ Referenced db m.tenantId admission.objectDigest)
    {error : CommitError} : ∀ tagging ∈ (Task.commit m
      (.tagging (m.objectAdmissions.map (·.objectDigest)) error)).pending, tagging.Spares db := by
  intro tagging member
  simp only [Task.pending, List.map_map, List.mem_map, Function.comp_apply] at member
  obtain ⟨admission, known, rfl⟩ := member
  have unreferenced := free admission known
  exact ⟨fun active => unreferenced active.referenced, fun _ => unreferenced⟩

theorem transact_sparing {m : GenerationMutation} (sparing : s.Sparing)
    (careful : s.CarefulWith w e (.commit m .validated)) :
    (∀ tagging ∈ (s.transact w m e).2.pending, tagging.Spares (s.transact w m e).1.db) ∧
      ∀ task ∈ s.tasks, ∀ tagging ∈ task.pending, tagging.Spares (s.transact w m e).1.db := by
  simp only [Deployment.CarefulWith, Deployment.rollsBack] at careful
  unfold Deployment.transact
  cases ran : transaction w (s.attempt m e) s.db with
  | error error =>
    simp only [ran, ↓reduceIte] at careful
    exact ⟨spares_admissions careful, sparing⟩
  | ok result =>
    obtain ⟨db, outcome⟩ := result
    simp only [ran] at careful
    cases gaveUp : e.gaveUp with
    | true =>
      simp only [gaveUp, ↓reduceIte] at careful
      exact ⟨spares_admissions careful, sparing⟩
    | false =>
      simp only [gaveUp, Bool.false_eq_true, ↓reduceIte] at careful
      cases transaction_cases ran with
      | inl replayed =>
        obtain ⟨response, rfl, rfl⟩ := replayed
        exact ⟨by simp [Task.pending], sparing⟩
      | inr committed =>
        obtain ⟨absent, rfl, row, writes⟩ := committed
        refine ⟨by simp [Task.pending], ?_⟩
        intro task member tagging pending
        exact writes.spares (sparing task member tagging pending)
          (careful absent task member tagging pending)

theorem arrive_pending (u : Upload) (s : Deployment) : (u.arrive w limit s).pending = [] := by
  unfold Upload.arrive
  split
  · rfl
  split
  · rfl
  split
  · rfl
  · split_ifs <;> rfl

theorem lookup_pending (u : Upload) (s : Deployment) (now : ℤ) :
    (u.lookup s now).pending = [] := by
  unfold Upload.lookup
  split
  · rfl
  · split_ifs <;> rfl

theorem record_frame (u : Upload) (s : Deployment) (now : ℤ) :
    (u.record s now).2.pending = [] ∧ (u.record s now).1.db.workspaces = s.db.workspaces ∧
      (u.record s now).1.db.generations = s.db.generations := by
  unfold Upload.record
  split
  · split_ifs <;> exact ⟨rfl, rfl, rfl⟩
  · exact ⟨rfl, rfl, rfl⟩

theorem advance_sparing (sparing : s.Sparing) (member : task ∈ s.tasks)
    (careful : s.CarefulWith w e task) :
    (∀ tagging ∈ (s.advance w limit e task).2.pending,
        tagging.Spares (s.advance w limit e task).1.db) ∧
      ∀ other ∈ s.tasks, ∀ tagging ∈ other.pending,
        tagging.Spares (s.advance w limit e task).1.db := by
  cases task with
  | upload u stage =>
    cases stage with
    | arrived =>
      exact ⟨by simp [Deployment.advance, arrive_pending], sparing⟩
    | checked =>
      exact ⟨by simp [Deployment.advance, lookup_pending], sparing⟩
    | missed =>
      have spares : Tagging.Spares ⟨u.tenantId, u.digest, .upload⟩ s.db :=
        ⟨careful, fun rollback => by cases rollback⟩
      simp only [Deployment.advance, Upload.put]
      split_ifs
      · exact ⟨by simp [Task.pending], sparing⟩
      · split
        · exact ⟨by simpa [Task.pending] using spares, sparing⟩
        · split_ifs
          · exact ⟨by simpa [Task.pending] using spares, sparing⟩
          · exact ⟨by simp [Task.pending], sparing⟩
    | stored => exact ⟨by simp [Deployment.advance, Task.pending], sparing⟩
    | tagged =>
      obtain ⟨done, workspaces, generations⟩ := record_frame u s e.now
      refine ⟨by simp [Deployment.advance, done], ?_⟩
      intro other listed tagging pending
      exact (sparing other listed tagging pending).congr workspaces generations
  | commit m stage =>
    cases stage with
    | arrived =>
      simp only [Deployment.advance]
      split
      · exact ⟨by simp [Task.pending], sparing⟩
      · exact ⟨by simp [Task.pending], sparing⟩
    | validated => exact transact_sparing sparing careful
    | tagging rest error =>
      cases rest with
      | nil => exact ⟨by simp [Deployment.advance, Task.pending], sparing⟩
      | cons digest rest =>
        have held := sparing _ member
        simp only [Deployment.advance]
        split_ifs
        · refine ⟨?_, sparing⟩
          intro tagging pending
          exact held tagging (by simp_all [Task.pending])
        · exact ⟨by simp [Task.pending], sparing⟩
  | finished answer => exact ⟨by simp [Deployment.advance, Task.pending], sparing⟩

theorem step_sparing (sparing : s.Sparing) (careful : s.Careful w e) :
    (s.step w limit e).Sparing := by
  unfold Deployment.step
  cases found : s.tasks[e.client]? with
  | none => exact sparing
  | some task =>
    have member : task ∈ s.tasks := List.mem_of_getElem? found
    cases crash : e.crash with
    | true =>
      intro other listed
      cases List.mem_or_eq_of_mem_set listed with
      | inl old => exact sparing other old
      | inr new => simp [new, Task.pending]
    | false =>
      obtain ⟨own, others⟩ := @advance_sparing w limit s e task sparing member
        (careful crash task (by simp [found]))
      intro other listed
      cases List.mem_or_eq_of_mem_set listed with
      | inl old => exact others other old
      | inr new => exact new ▸ own

theorem run_sparing (events : List Event) : ∀ {s : Deployment}, s.Sparing →
    AllCareful w limit events s → (s.run w limit events).Sparing := by
  induction events with
  | nil => exact fun sparing _ => sparing
  | cons e rest ih =>
    intro s sparing careful
    exact ih (step_sparing sparing careful.1) careful.2

theorem tagged_pending (put : s.tagged e = some tagging) :
    ∃ task ∈ s.tasks, tagging ∈ task.pending := by
  unfold Deployment.tagged at put
  split_ifs at put
  split at put
  · rename_i u found
    cases put
    exact ⟨_, List.mem_of_getElem? found, by simp [Task.pending]⟩
  · rename_i m digest rest error found
    split_ifs at put
    cases put
    exact ⟨_, List.mem_of_getElem? found, by simp [Task.pending]⟩
  · cases put

/-- In a run of careful steps every tag spares what is committed when it is put. -/
theorem tags_spare (quiet : s.Quiet) {events : List Event} (careful : AllCareful w limit events s)
    (put : (s.run w limit events).tagged e = some tagging) :
    tagging.Spares (s.run w limit events).db := by
  have start : s.Sparing := by
    intro task member
    simp [quiet task member]
  obtain ⟨task, member, pending⟩ := tagged_pending put
  exact run_sparing events start careful task member tagging pending

end careful

namespace UploadSample
open CommitSample

def upload (name : String) (byte : UInt8) (ifMatch : Digest) : Upload :=
  ⟨"tenant", "workspace", true, String.ofList ((sha name).toList.drop 7), "upload-of-object-" ++ name,
    sha ("d" ++ name), ifMatch, [byte], "trace"⟩

def again : GenerationMutation := { start with idempotencyKey := "fedcba9876543210" }

/-- The objects of the first generation are uploaded and the generation is committed, once more
under another key; then the second event and the opaque object are uploaded. -/
def deployment : Deployment where
  db := database
  store _ _ := none
  tags _ _ := none
  tasks := [.upload (upload "1" 1 genesis) .arrived, .upload (upload "3" 3 genesis) .arrived,
    .commit start .arrived, .commit again .arrived, .upload (upload "2" 2 (sha "a1")) .arrived,
    .upload { upload "3" 3 (sha "a1") with idempotencyKey := "upload-once-more" } .arrived]

def act (client : ℕ) : Event := ⟨client, 0, "message", false, false⟩

def admitted : List Event :=
  (List.replicate 5 (act 0)) ++ (List.replicate 5 (act 1)) ++ (List.replicate 2 (act 2))

theorem quiet : deployment.Quiet := by
  intro task member
  simp only [deployment, List.mem_cons, List.not_mem_nil, or_false] at member
  rcases member with rfl | rfl | rfl | rfl | rfl | rfl <;> rfl

/-- An upload of bytes that the current generation lists tags them again. -/
example : Active (deployment.run authority 64 (admitted ++ List.replicate 3 (act 5))).db "tenant"
      (sha "3") ∧
    (deployment.run authority 64 (admitted ++ List.replicate 3 (act 5))).tagged (act 5) =
      some ⟨"tenant", sha "3", .upload⟩ := by
  decide +kernel

end UploadSample

open CommitSample UploadSample in
theorem tags_spare_sample : Tagging.Spares ⟨"tenant", sha "2", .upload⟩
    (deployment.run authority 64 (admitted ++ List.replicate 3 (act 4))).db := by
  have careful : AllCareful authority 64 (admitted ++ List.replicate 3 (act 4)) deployment := by
    decide +kernel
  have put : (deployment.run authority 64 (admitted ++ List.replicate 3 (act 4))).tagged (act 4) =
      some ⟨"tenant", sha "2", .upload⟩ := by decide +kernel
  exact tags_spare quiet careful put

open CommitSample UploadSample in
/-- A commit is tried again under another key; its failure tags the objects that its first try
has committed. -/
theorem tags_committed : ¬ ∀ (w : Authority) (limit : ℕ) (s : Deployment) (events : List Event)
    (e : Event) (tagging : Tagging), s.Quiet → (s.run w limit events).tagged e = some tagging →
    ¬ Active (s.run w limit events).db tagging.tenantId tagging.digest := by
  intro claim
  have active : Active (deployment.run authority 64 (admitted ++ List.replicate 2 (act 3))).db
      "tenant" (sha "1") := by decide +kernel
  have put : (deployment.run authority 64 (admitted ++ List.replicate 2 (act 3))).tagged (act 3) =
      some ⟨"tenant", sha "1", .rollback⟩ := by decide +kernel
  exact claim authority 64 deployment _ (act 3) ⟨"tenant", sha "1", .rollback⟩ quiet put active

end CollectivePhaseControl.Commits
