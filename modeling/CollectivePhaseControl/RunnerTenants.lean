import CollectivePhaseControl.RunnerLeases
import CollectivePhaseControl.Unwinding

/-! What one tenant's runners can learn of another's. Calls come directly or through the
idempotency cache, which serializes a runner's mutations and answers a repeated key from
its first result. Attempts of completed jobs are kept without their tenant. -/
namespace CollectivePhaseControl
open Fallible Unwinding

inductive Operation where
  | call (call : Call)
  /-- An upload stores the data, then records it under the lease. -/
  | upload (registration : RunnerRegistration) (leaseId : String) (data : Bytes)
    (expected : Digest) (receivedAt : ℤ)

def Operation.tenant : Operation → Identifier
  | .call served => served.tenant
  | .upload registration _ _ _ _ => registration.tenantId

/-- A keyed request performs an operation of the runner that makes it. -/
inductive Request where
  | direct (call : Call)
  | idempotent (registration : RunnerRegistration) (key : String) (requestDigest : Digest)
    (operation : Operation) (own : operation.tenant = registration.tenantId)

def Request.tenant : Request → Identifier
  | .direct served => served.tenant
  | .idempotent registration _ _ _ _ => registration.tenantId

/-- The gateway with the results it keeps by tenant, principal and key. -/
structure Frontend where
  gateway : Gateway
  idempotency : Identifier → Identifier → String → Option (Digest × Response)

namespace Frontend

def initial (registrations : List RunnerRegistration) (store : ObjectStore) : Frontend :=
  ⟨.initial registrations store, fun _ _ _ => none⟩

def perform (w : Services) (g : Gateway) : Operation → Gateway × Checked Response
  | .call call => g.serve w call
  | .upload registration leaseId data expected receivedAt =>
    let stored := g.store.put w registration.tenantId data
    let kept := { g with store := stored.1 }
    if stored.2 = expected then
      kept.commit ((·, .stored stored.2) <$>
        kept.recordArtifact registration leaseId stored.2 receivedAt)
    else (kept, .error (.coded "runner_artifact_storage_invariant_failed"))

def remember (f : Frontend) (tenant principal : Identifier) (key : String)
    (entry : Digest × Response) : Identifier → Identifier → String → Option (Digest × Response) :=
  fun t p k => if t = tenant ∧ p = principal ∧ k = key then some entry else f.idempotency t p k

def handle (w : Services) (f : Frontend) : Request → Frontend × Checked Response
  | .direct call =>
    let served := f.gateway.serve w call
    ({ f with gateway := served.1 }, served.2)
  | .idempotent registration key requestDigest operation _ =>
    match f.idempotency registration.tenantId registration.principalId key with
    | some (seen, response) =>
      if seen = requestDigest then (f, .ok response)
      else (f, .error (.coded "runner_idempotency_key_reused"))
    | none =>
      let performed := perform w f.gateway operation
      match performed.2 with
      | .ok response =>
        (⟨performed.1, f.remember registration.tenantId registration.principalId key
          (requestDigest, response)⟩, .ok response)
      | .error fault => ({ f with gateway := performed.1 }, .error fault)

/-- The call the request makes of the gateway, unless the cache answers it. -/
def made (f : Frontend) : Request → Option Call
  | .direct call => some call
  | .idempotent registration key _ (.call call) _ =>
    match f.idempotency registration.tenantId registration.principalId key with
    | some _ => none
    | none => some call
  | .idempotent _ _ _ (.upload _ _ _ _ _) _ => none

end Frontend

/-- A completion under a lease in force whose job and attempt are those of a completed task
of the other tenant. -/
def Collides (tenant : Identifier) (g : Gateway) : Call → Prop
  | .complete registration leaseId _ _ receivedAt =>
    match g.activeState registration leaseId receivedAt with
    | .ok state => registration.tenantId ≠ tenant ∧ ∃ other ∈ g.tasks,
      other.task.tenantId = tenant ∧ other.status = .completed ∧
        state.job.map (fun job => (job.spec.jobId, job.spec.attempt)) =
          some (other.task.jobId, other.attempt)
    | .error _ => False
  | _ => False

instance (tenant : Identifier) (g : Gateway) (call : Call) : Decidable (Collides tenant g call) := by
  unfold Collides
  split
  · split <;> infer_instance
  · infer_instance

def Frontend.Clear (tenant : Identifier) (f : Frontend) (request : Request) : Prop :=
  ∀ call ∈ f.made request, ¬ Collides tenant f.gateway call

instance (tenant : Identifier) (f : Frontend) (request : Request) :
    Decidable (f.Clear tenant request) :=
  inferInstanceAs (Decidable (∀ call ∈ f.made request, ¬ Collides tenant f.gateway call))

/-- The second gateway is the first without the tenant's tasks. Attempts that only the first
one counts as completed were completed by the tenant. -/
structure AgreeOff (tenant : Identifier) (g h : Gateway) : Prop where
  registrations : h.registrations = g.registrations
  tasks : h.tasks = g.tasks.filter fun state => state.task.tenantId != tenant
  store : ∀ owner, owner ≠ tenant → h.store owner = g.store owner
  attempts : h.completedAttempts ⊆ g.completedAttempts
  extra : ∀ attempt ∈ g.completedAttempts, attempt ∈ h.completedAttempts ∨
    ∃ state ∈ g.tasks, state.task.tenantId = tenant ∧ state.status = .completed ∧
      (state.task.jobId, state.attempt) = attempt

section agree
variable {tenant : Identifier} {g h g' : Gateway} {w : Services} {state next : RunnerTaskState}
  {registration : RunnerRegistration}

theorem key_tenant (same : next.key = state.key) : next.task.tenantId = state.task.tenantId :=
  congrArg Prod.fst same

theorem filter_setTask (state : RunnerTaskState) :
    (g.setTask state).tasks.filter (fun s => s.task.tenantId != tenant) =
      (g.tasks.filter fun s => s.task.tenantId != tenant).map
        fun s => if s.key = state.key then state else s := by
  rw [Gateway.setTask, List.filter_map]
  congr 1
  apply List.filter_congr
  intro s _
  by_cases same : s.key = state.key
  · simp [same, key_tenant same]
  · simp [same]

theorem filter_setTask_hidden (owner : state.task.tenantId = tenant) :
    (g.setTask state).tasks.filter (fun s => s.task.tenantId != tenant) =
      g.tasks.filter fun s => s.task.tenantId != tenant := by
  rw [filter_setTask, List.map_congr_left, List.map_id]
  intro s member
  have other : s.task.tenantId ≠ tenant := by simpa using (List.mem_filter.mp member).2
  have differs : s.key ≠ state.key := fun same => other ((key_tenant same).trans owner)
  exact if_neg differs

theorem AgreeOff.candidates (agree : AgreeOff tenant g h) (other : registration.tenantId ≠ tenant)
    (claimedAt : ℤ) : h.candidates registration claimedAt = g.candidates registration claimedAt := by
  rw [Gateway.candidates, agree.tasks, List.filter_filter, Gateway.candidates]
  apply List.filter_congr
  intro s _
  by_cases own : s.task.tenantId = registration.tenantId
  · simp [own, other]
  · simp [own]

theorem AgreeOff.activeState (agree : AgreeOff tenant g h) (other : registration.tenantId ≠ tenant)
    (leaseId : String) (instant : ℤ) :
    h.activeState registration leaseId instant = g.activeState registration leaseId instant := by
  rw [Gateway.activeState, agree.tasks, List.filter_filter, Gateway.activeState]
  congr 1
  apply List.filter_congr
  intro s _
  by_cases own : s.task.tenantId = registration.tenantId
  · simp [own, other]
  · simp [own]

theorem AgreeOff.setTask (agree : AgreeOff tenant g h) (other : state.task.tenantId ≠ tenant) :
    AgreeOff tenant (g.setTask state) (h.setTask state) where
  registrations := agree.registrations
  tasks := by rw [filter_setTask, Gateway.setTask, agree.tasks]
  store := agree.store
  attempts := agree.attempts
  extra attempt member := by
    rcases agree.extra attempt member with common | ⟨s, listed, owner, done, same⟩
    · exact .inl common
    · have differs : s.key ≠ state.key := fun h => other ((key_tenant h).symm.trans owner)
      exact .inr ⟨s, Gateway.mem_setTask_of_ne listed differs, owner, done, same⟩

theorem AgreeOff.setTask_hidden {e : Event} (agree : AgreeOff tenant g h)
    (effect : Gateway.Effect w g e g') (keys : (g.tasks.map RunnerTaskState.key).Nodup)
    (tasks : g'.tasks = (g.setTask state).tasks) (registrations : g'.registrations = g.registrations)
    (attempts : g'.completedAttempts = g.completedAttempts)
    (store : g.store.Confined tenant g'.store) (owner : state.task.tenantId = tenant) :
    AgreeOff tenant g' h where
  registrations := agree.registrations.trans registrations.symm
  tasks := by rw [tasks, filter_setTask_hidden owner, agree.tasks]
  store other apart := (agree.store other apart).trans (store other apart).symm
  attempts := by rw [attempts]; exact agree.attempts
  extra attempt member := by
    rw [attempts] at member
    rcases agree.extra attempt member with common | ⟨s, listed, own, done, same⟩
    · exact .inl common
    · exact .inr ⟨s, effect.completed_stays keys listed done, own, done, same⟩

theorem AgreeOff.hidden {e : Event} (agree : AgreeOff tenant g h)
    (effect : Gateway.Effect w g e g') (keys : (g.tasks.map RunnerTaskState.key).Nodup)
    (owner : e.call.tenant = tenant) : AgreeOff tenant g' h := by
  have whole := effect
  cases effect with
  | kept tasks registrations attempts _ confined =>
    rw [owner] at confined
    refine ⟨agree.registrations.trans registrations.symm, by rw [tasks, agree.tasks], ?_, ?_, ?_⟩
    · exact fun other apart => (agree.store other apart).trans (confined other apart).symm
    · rw [attempts]; exact agree.attempts
    · rw [attempts, tasks]; exact agree.extra
  | dispatched task admittedAt response init fresh =>
    refine ⟨agree.registrations, ?_, agree.store, agree.attempts, ?_⟩
    · have mine : (RunnerTaskState.dispatched task).task.tenantId = tenant := owner
      simp [List.filter_append, mine, agree.tasks]
    · intro attempt member
      rcases agree.extra attempt member with common | ⟨s, listed, own, done, same⟩
      · exact .inl common
      · exact .inr ⟨s, List.mem_append_left _ listed, own, done, same⟩
  | claimed registration claimedAt token s picked statement =>
    exact agree.setTask_hidden whole keys rfl rfl rfl (.refl _ _) (picked.tenant.trans owner)
  | released registration claimedAt token s picked =>
    exact agree.setTask_hidden whole keys rfl rfl rfl (.refl _ _) (picked.tenant.trans owner)
  | stuck registration claimedAt token s picked =>
    exact agree.setTask_hidden whole keys rfl rfl rfl (.refl _ _) (picked.tenant.trans owner)
  | beaten registration leaseId receivedAt s active =>
    exact agree.setTask_hidden whole keys rfl rfl rfl (.refl _ _) (active.tenant.trans owner)
  | recorded registration leaseId digest receivedAt s active =>
    exact agree.setTask_hidden whole keys rfl rfl rfl (.refl _ _) (active.tenant.trans owner)
  | completed registration leaseId receipt projections receivedAt s active completion store _
      confined =>
    have mine : s.task.tenantId = tenant := active.tenant.trans owner
    rw [show registration.tenantId = tenant from owner] at confined
    refine ⟨agree.registrations, ?_, ?_, ?_, ?_⟩
    · exact agree.tasks.trans (filter_setTask_hidden (by exact mine)).symm
    · exact fun other apart => (agree.store other apart).trans (confined other apart).symm
    · exact agree.attempts.trans (Finset.subset_insert _ _)
    · intro attempt member
      rcases Finset.mem_insert.mp member with rfl | old
      · exact .inr ⟨_, Gateway.mem_setTask ⟨s, active.listed, rfl⟩, mine, rfl, rfl⟩
      · rcases agree.extra attempt old with common | ⟨u, listed, own, done, same⟩
        · exact .inl common
        · exact .inr ⟨u, whole.completed_stays keys listed done, own, done, same⟩

def Matching {α : Type} (tenant : Identifier) (a b : Gateway × α) : Prop :=
  AgreeOff tenant a.1 b.1 ∧ a.2 = b.2

theorem AgreeOff.commit (agree : AgreeOff tenant g h) {x y : Checked (Gateway × Response)}
    (both : Lift (Matching tenant) x y) : Matching tenant (g.commit x) (h.commit y) := by
  cases x with
  | ok a =>
    cases y with
    | ok b => exact ⟨both.1, congrArg Except.ok both.2⟩
    | error f => exact both.elim
  | error e =>
    cases y with
    | ok b => exact both.elim
    | error f => exact ⟨agree, congrArg Except.error both⟩

theorem require_congr {p q : Prop} [Decidable p] [Decidable q] (same : p ↔ q) (code : String) :
    require p code = require q code := by
  simp [require, same]

theorem lengths_congr {a b : ObjectStore} {owner : Identifier} (same : a owner = b owner)
    (digests : Finset Digest) : a.lengths owner digests = b.lengths owner digests := by
  simp only [ObjectStore.lengths, same]

theorem totalBytes_congr {a b : ObjectStore} {owner : Identifier} (same : a owner = b owner)
    (digests : Finset Digest) : a.totalBytes owner digests = b.totalBytes owner digests := by
  rw [ObjectStore.totalBytes, lengths_congr same, ObjectStore.totalBytes]

theorem outputDocument_congr {a b : ObjectStore} {owner : Identifier} (same : a owner = b owner)
    (digests : List Digest) :
    a.outputDocument w owner digests = b.outputDocument w owner digests := by
  match digests with
  | [] => rfl
  | [digest] => simp only [ObjectStore.outputDocument, same]
  | _ :: _ :: _ => rfl

theorem AgreeOff.dispatch (agree : AgreeOff tenant g h) {task : RunnerTask}
    (other : task.tenantId ≠ tenant) (admittedAt : ℤ) :
    Lift (AgreeOff tenant) (g.dispatch w task admittedAt) (h.dispatch w task admittedAt) := by
  have fresh : (∀ state ∈ h.tasks, state.key ≠ task.key) ↔ ∀ state ∈ g.tasks, state.key ≠ task.key := by
    rw [agree.tasks]
    constructor
    · intro apart s member same
      have owner : s.task.tenantId = task.tenantId := congrArg Prod.fst same
      exact apart s (by simp [member, owner, other]) same
    · exact fun apart s member => apart s (List.mem_filter.mp member).1
  have same := agree.store _ other
  simp only [Gateway.dispatch]
  rw [require_congr fresh]
  simp only [same, totalBytes_congr same]
  iterate 13 refine Lift.bind_self fun _ _ => ?_
  refine ⟨agree.registrations, ?_, agree.store, agree.attempts, ?_⟩
  · simp [List.filter_append, agree.tasks, RunnerTaskState.dispatched, other]
  · intro attempt member
    rcases agree.extra attempt member with common | ⟨s, listed, own, done, same⟩
    · exact .inl common
    · exact .inr ⟨s, List.mem_append_left _ listed, own, done, same⟩

theorem AgreeOff.claim (agree : AgreeOff tenant g h) (other : registration.tenantId ≠ tenant)
    (claimedAt : ℤ) (token : LeaseToken) :
    Matching tenant (g.claim w registration claimedAt token)
      (h.claim w registration claimedAt token) := by
  unfold Gateway.claim
  rw [agree.candidates other]
  split
  · exact ⟨agree, rfl⟩
  · rename_i state found
    have member := List.argmin_mem found
    rw [Gateway.candidates, List.mem_filter, Bool.and_eq_true, beq_iff_eq] at member
    have apart : state.task.tenantId ≠ tenant := member.2.1 ▸ other
    split
    · exact ⟨agree, rfl⟩
    · dsimp only
      split
      · split
        · exact ⟨agree.setTask apart, rfl⟩
        · exact ⟨agree.setTask apart, rfl⟩
      · exact ⟨agree.setTask apart, rfl⟩

theorem AgreeOff.active (agree : AgreeOff tenant g h) (other : registration.tenantId ≠ tenant)
    {leaseId : String} {instant : ℤ} {α β : Type} {R : α → β → Prop}
    {f : RunnerTaskState → Checked α} {f' : RunnerTaskState → Checked β}
    (rest : ∀ state, g.activeState registration leaseId instant = .ok state →
      state.task.tenantId ≠ tenant → Lift R (f state) (f' state)) :
    Lift R (g.activeState registration leaseId instant >>= f)
      (h.activeState registration leaseId instant >>= f') := by
  rw [agree.activeState other]
  refine Lift.bind_self fun state active => rest state active ?_
  rw [(Gateway.activeState_ok active).tenant]
  exact other

theorem AgreeOff.heartbeat (agree : AgreeOff tenant g h) (other : registration.tenantId ≠ tenant)
    (leaseId : String) (sequence receivedAt : ℤ) :
    Lift (AgreeOff tenant) (g.heartbeat registration leaseId sequence receivedAt)
      (h.heartbeat registration leaseId sequence receivedAt) := by
  apply agree.active other
  intro state _ apart
  exact Lift.bind_self fun _ _ => agree.setTask apart

theorem AgreeOff.recordArtifact (agree : AgreeOff tenant g h)
    (other : registration.tenantId ≠ tenant) (leaseId : String) (digest : Digest)
    (receivedAt : ℤ) :
    Lift (AgreeOff tenant) (g.recordArtifact registration leaseId digest receivedAt)
      (h.recordArtifact registration leaseId digest receivedAt) := by
  have same := agree.store _ other
  apply agree.active other
  intro state _ apart
  simp only [same, totalBytes_congr same]
  iterate 3 refine Lift.bind_self fun _ _ => ?_
  exact agree.setTask apart

theorem AgreeOff.remainingArtifactBytes (agree : AgreeOff tenant g h)
    (other : registration.tenantId ≠ tenant) (leaseId : String) (evaluatedAt : ℤ) :
    h.remainingArtifactBytes registration leaseId evaluatedAt =
      g.remainingArtifactBytes registration leaseId evaluatedAt := by
  rw [Gateway.remainingArtifactBytes, agree.activeState other, Gateway.remainingArtifactBytes]
  simp only [totalBytes_congr (agree.store _ other)]

theorem AgreeOff.authenticate (agree : AgreeOff tenant g h) (identity : CertificateIdentity) :
    h.authenticate identity = g.authenticate identity := by
  rw [Gateway.authenticate, agree.registrations, Gateway.authenticate]

def SameOff (tenant : Identifier) (a b : ObjectStore) : Prop :=
  ∀ owner, owner ≠ tenant → b owner = a owner

theorem SameOff.put {a b : ObjectStore} (same : SameOff tenant a b) (owner : Identifier)
    (data : Bytes) : SameOff tenant (a.put w owner data).1 (b.put w owner data).1 := by
  intro other apart
  funext digest
  simp only [ObjectStore.put, same other apart]

theorem SameOff.storeStatement {a b : ObjectStore} (same : SameOff tenant a b) (owner : Identifier)
    (code : String) (statement : SignedStatement) :
    Lift (SameOff tenant) (Gateway.storeStatement w owner code a statement)
      (Gateway.storeStatement w owner code b statement) :=
  Lift.bind_self fun _ _ => same.put owner _

theorem AgreeOff.attempt_iff (agree : AgreeOff tenant g h) {attempt : Identifier × ℕ}
    (clear : ¬ ∃ state ∈ g.tasks, state.task.tenantId = tenant ∧ state.status = .completed ∧
      (state.task.jobId, state.attempt) = attempt) :
    attempt ∈ h.completedAttempts ↔ attempt ∈ g.completedAttempts :=
  ⟨fun member => agree.attempts member,
    fun member => (agree.extra attempt member).resolve_right clear⟩

theorem AgreeOff.completed (agree : AgreeOff tenant g h) (apart : state.task.tenantId ≠ tenant)
    {a b : ObjectStore} (same : SameOff tenant a b) (attempt : Identifier × ℕ) :
    AgreeOff tenant
      { g.setTask state with store := a, completedAttempts := insert attempt g.completedAttempts }
      { h.setTask state with store := b, completedAttempts := insert attempt h.completedAttempts }
    where
  registrations := agree.registrations
  tasks := (agree.setTask apart).tasks
  store := same
  attempts := Finset.insert_subset_insert _ agree.attempts
  extra other member := by
    rcases Finset.mem_insert.mp member with rfl | old
    · exact .inl (Finset.mem_insert_self _ _)
    · rcases (agree.setTask apart).extra other old with common | hidden
      · exact .inl (Finset.mem_insert_of_mem common)
      · exact .inr hidden

theorem boundJob_ok {job : RunnerJob} (h : Gateway.boundJob state = .ok job) :
    state.job = some job := by
  unfold Gateway.boundJob at h
  split at h
  · rename_i found equal
    rw [equal, Except.ok.inj h]
  · cases h

theorem AgreeOff.complete (agree : AgreeOff tenant g h) (other : registration.tenantId ≠ tenant)
    {leaseId : String} {receipt : SignedStatement} {projections : List SignedStatement}
    {receivedAt : ℤ}
    (clear : ¬ Collides tenant g (.complete registration leaseId receipt projections receivedAt)) :
    Lift (Matching tenant) (g.complete w registration leaseId receipt projections receivedAt)
      (h.complete w registration leaseId receipt projections receivedAt) := by
  have same := agree.store _ other
  simp only [Gateway.complete, lengths_congr same, outputDocument_congr same]
  apply agree.active other
  intro state active apart
  refine Lift.bind_self fun job bound => ?_
  have common : (job.spec.jobId, job.spec.attempt) ∈ h.completedAttempts ↔
      (job.spec.jobId, job.spec.attempt) ∈ g.completedAttempts := by
    apply agree.attempt_iff
    rintro ⟨u, listed, owner, done, same⟩
    apply clear
    rw [Collides, active]
    exact ⟨other, u, listed, owner, done, by rw [boundJob_ok bound, same, Option.map_some]⟩
  simp only [validateReceipt_congr w common]
  -- The receipt, its artifacts, the verdict and the projections are the same for both.
  iterate 7 refine Lift.bind_self fun _ _ => ?_
  have stores : SameOff tenant g.store h.store := agree.store
  refine (stores.storeStatement _ _ _).bind fun a b stored => ?_
  refine (Lift.foldlM (fun _ _ x kept => SameOff.storeStatement kept _ _ x) stored).bind ?_
  exact fun a b stored => ⟨agree.completed (by exact apart) stored _, rfl⟩

theorem AgreeOff.serve (agree : AgreeOff tenant g h) {call : Call} (other : call.tenant ≠ tenant)
    (clear : ¬ Collides tenant g call) : Matching tenant (g.serve w call) (h.serve w call) := by
  cases call with
  | dispatch task admittedAt =>
    exact agree.commit ((agree.dispatch other admittedAt).map fun _ _ next => ⟨next, rfl⟩)
  | authenticate identity => exact ⟨agree, congrArg (Functor.map _) (agree.authenticate identity).symm⟩
  | put owner data =>
    have same : SameOff tenant g.store h.store := agree.store
    exact ⟨⟨agree.registrations, agree.tasks, same.put owner data, agree.attempts, agree.extra⟩, rfl⟩
  | claim registration claimedAt token =>
    have both := agree.claim (w := w) other claimedAt token
    exact ⟨both.1, congrArg (Functor.map _) both.2⟩
  | heartbeat registration leaseId sequence receivedAt =>
    exact agree.commit
      ((agree.heartbeat other leaseId sequence receivedAt).map fun _ _ next => ⟨next, rfl⟩)
  | recordArtifact registration leaseId digest receivedAt =>
    exact agree.commit
      ((agree.recordArtifact other leaseId digest receivedAt).map fun _ _ next => ⟨next, rfl⟩)
  | remainingArtifactBytes registration leaseId evaluatedAt =>
    exact ⟨agree,
      congrArg (Functor.map _) (agree.remainingArtifactBytes other leaseId evaluatedAt).symm⟩
  | complete registration leaseId receipt projections receivedAt =>
    exact agree.commit
      ((agree.complete other clear).map fun _ _ next => ⟨next.1, congrArg Response.completed next.2⟩)

theorem AgreeOff.serve_hidden (agree : AgreeOff tenant g h)
    (keys : (g.tasks.map RunnerTaskState.key).Nodup) {call : Call} (owner : call.tenant = tenant) :
    AgreeOff tenant (g.serve w call).1 h :=
  agree.hidden (Gateway.serves_effect (e := ⟨call, (g.serve w call).2⟩) rfl) keys owner

theorem serve_keys (keys : (g.tasks.map RunnerTaskState.key).Nodup) (call : Call) :
    ((g.serve w call).1.tasks.map RunnerTaskState.key).Nodup :=
  (Gateway.serves_effect (e := ⟨call, (g.serve w call).2⟩) rfl).keys keys

theorem perform_upload {leaseId : String} {data : Bytes} {expected : Digest} {receivedAt : ℤ} :
    Frontend.perform w g (.upload registration leaseId data expected receivedAt) =
      let kept := (g.serve w (.put registration.tenantId data)).1
      if w.digestBytes data = expected then
        let recorded :=
          kept.serve w (.recordArtifact registration leaseId (w.digestBytes data) receivedAt)
        (recorded.1, (fun _ => .stored (w.digestBytes data)) <$> recorded.2)
      else (kept, .error (.coded "runner_artifact_storage_invariant_failed")) := by
  by_cases same : w.digestBytes data = expected
  · simp only [Frontend.perform, Gateway.serve, ObjectStore.put, same, if_true]
    cases Gateway.recordArtifact _ registration leaseId expected receivedAt <;> rfl
  · simp only [Frontend.perform, Gateway.serve, ObjectStore.put, same, if_false]

theorem perform_keys (keys : (g.tasks.map RunnerTaskState.key).Nodup) (operation : Operation) :
    ((Frontend.perform w g operation).1.tasks.map RunnerTaskState.key).Nodup := by
  cases operation with
  | call call => exact serve_keys keys call
  | upload registration leaseId data expected receivedAt =>
    rw [perform_upload]
    dsimp only
    split
    · exact serve_keys (serve_keys keys _) _
    · exact serve_keys keys (.put registration.tenantId data)

theorem AgreeOff.perform_hidden (agree : AgreeOff tenant g h)
    (keys : (g.tasks.map RunnerTaskState.key).Nodup) {operation : Operation}
    (owner : operation.tenant = tenant) :
    AgreeOff tenant (Frontend.perform w g operation).1 h := by
  cases operation with
  | call call => exact agree.serve_hidden keys owner
  | upload registration leaseId data expected receivedAt =>
    have stored := agree.serve_hidden (w := w) keys
      (show (Call.put registration.tenantId data).tenant = tenant from owner)
    rw [perform_upload]
    dsimp only
    split
    · exact stored.serve_hidden (serve_keys keys _) owner
    · exact stored

theorem AgreeOff.perform (agree : AgreeOff tenant g h) {operation : Operation}
    (other : operation.tenant ≠ tenant)
    (clear : ∀ call, operation = .call call → ¬ Collides tenant g call) :
    Matching tenant (Frontend.perform w g operation) (Frontend.perform w h operation) := by
  cases operation with
  | call call => exact agree.serve other (clear call rfl)
  | upload registration leaseId data expected receivedAt =>
    have stored := agree.serve (w := w)
      (show (Call.put registration.tenantId data).tenant ≠ tenant from other) id
    rw [perform_upload, perform_upload]
    dsimp only
    split
    · have recorded := stored.1.serve (w := w) (show (Call.recordArtifact registration leaseId
        (w.digestBytes data) receivedAt).tenant ≠ tenant from other) id
      exact ⟨recorded.1, congrArg (Functor.map _) recorded.2⟩
    · exact ⟨stored.1, rfl⟩

end agree

structure Frontend.AgreeOff (tenant : Identifier) (f k : Frontend) : Prop where
  keys : (f.gateway.tasks.map RunnerTaskState.key).Nodup
  gateway : CollectivePhaseControl.AgreeOff tenant f.gateway k.gateway
  idempotency : ∀ owner, owner ≠ tenant → k.idempotency owner = f.idempotency owner

namespace Frontend
variable {w : Services} {tenant : Identifier} {f k : Frontend} {request : Request}

theorem remember_other {owner principal : Identifier} {key : String} {entry : Digest × Response}
    {t : Identifier} (other : t ≠ owner) :
    f.remember owner principal key entry t = f.idempotency t := by
  funext p k
  simp [remember, other]

theorem remember_congr {owner principal : Identifier} {key : String} {entry : Digest × Response}
    {t : Identifier} (same : k.idempotency t = f.idempotency t) :
    k.remember owner principal key entry t = f.remember owner principal key entry t := by
  funext p q
  simp [remember, same]

theorem AgreeOff.hidden (agree : AgreeOff tenant f k) (owner : request.tenant = tenant) :
    AgreeOff tenant (f.handle w request).1 k := by
  cases request with
  | direct call =>
    exact ⟨serve_keys agree.keys call, agree.gateway.serve_hidden agree.keys owner,
      agree.idempotency⟩
  | idempotent registration key digest operation own =>
    have mine : operation.tenant = tenant := own.trans owner
    have gateway := agree.gateway.perform_hidden (w := w) agree.keys mine
    have keys := perform_keys (w := w) agree.keys operation
    simp only [handle]
    split
    · split <;> exact agree
    · split
      · refine ⟨keys, gateway, fun t other => ?_⟩
        have foreign : t ≠ registration.tenantId := fun same => other (same.trans owner)
        exact (agree.idempotency t other).trans (remember_other foreign).symm
      · exact ⟨keys, gateway, agree.idempotency⟩

theorem AgreeOff.shown (agree : AgreeOff tenant f k) (clear : f.Clear tenant request)
    (other : request.tenant ≠ tenant) :
    AgreeOff tenant (f.handle w request).1 (k.handle w request).1 ∧
      (f.handle w request).2 = (k.handle w request).2 := by
  cases request with
  | direct call =>
    have both := agree.gateway.serve (w := w) other (clear call rfl)
    exact ⟨⟨serve_keys agree.keys call, both.1, agree.idempotency⟩, both.2⟩
  | idempotent registration key digest operation own =>
    have cache := agree.idempotency registration.tenantId other
    have keys := perform_keys (w := w) agree.keys operation
    simp only [handle, cache]
    split
    · split <;> exact ⟨agree, rfl⟩
    · rename_i miss
      have both : Matching tenant (perform w f.gateway operation) (perform w k.gateway operation) := by
        apply agree.gateway.perform (own ▸ other)
        rintro call rfl
        exact clear call (by simp [made, miss])
      rw [← both.2]
      split
      · exact ⟨⟨keys, both.1, fun t apart => remember_congr (agree.idempotency t apart)⟩, rfl⟩
      · exact ⟨⟨keys, both.1, agree.idempotency⟩, rfl⟩

theorem AgreeOff.initial (registrations : List RunnerRegistration) (store : ObjectStore) :
    AgreeOff tenant (.initial registrations store) (.initial registrations store) where
  keys := List.nodup_nil
  gateway := ⟨rfl, rfl, fun _ _ => rfl, fun _ h => h, fun _ h => .inl h⟩
  idempotency _ _ := rfl

end Frontend

/-- Where no completion collides with a completed job of the tenant, every other tenant gets
the answers it gets in the run without the tenant's requests. -/
theorem tenants_apart (w : Services) (registrations : List RunnerRegistration) (store : ObjectStore)
    (tenant : Identifier) (requests : List Request)
    (clear : Permitted (Frontend.handle w) (Frontend.Clear tenant)
      (.initial registrations store) requests) :
    (outputs (Frontend.handle w) (.initial registrations store) requests).filter
        (fun answered => answered.1.tenant != tenant) =
      outputs (Frontend.handle w) (.initial registrations store)
        (requests.filter fun request => request.tenant != tenant) := by
  apply @outputs_filter _ _ _ (Frontend.handle w) (Frontend.AgreeOff tenant)
    (Frontend.Clear tenant) fun request => request.tenant != tenant
  · intro f k request agree _ hidden
    exact agree.hidden (by simpa using hidden)
  · intro f k request agree permit shown
    exact agree.shown permit (by simpa using shown)
  · exact .initial registrations store
  · exact clear

namespace RunnerSample

def direct (calls : List Call) : List Request := calls.map Request.direct

/-- The second tenant's runner takes the job of its own tenant through. -/
def southern : List Call :=
  [.dispatch (task "south") 60000006,
   .claim (runner "south" "r3") 60000006 third,
   .recordArtifact (runner "south" "r3") third.value "" 60000007,
   .complete (runner "south" "r3") third.value (signed "south receipt") [] 60000008]

/-- Both tenants complete a job of the same name on its first attempt. -/
def twins : List Call :=
  [.dispatch (task "north") 0,
   .claim (runner "north" "r1") 0 first,
   .recordArtifact (runner "north" "r1") first.value "" 1,
   .complete (runner "north" "r1") first.value (signed "north receipt 1") [] 2] ++ southern

def neighbours : List Call := calls ++ southern

def answers (requests : List Request) : List (Identifier × Bool) :=
  (outputs (Frontend.handle services) (.initial [] store) requests).map fun answered =>
    (answered.1.tenant, answered.2.toBool)

end RunnerSample

theorem tenants_apart_sample :
    RunnerSample.answers (RunnerSample.direct RunnerSample.neighbours) =
      [true, true, true, true, false, true, true, true, false].map (Prod.mk "north") ++
        [true, true, true, true].map (Prod.mk "south") ∧
    (outputs (Frontend.handle RunnerSample.services) (.initial [] RunnerSample.store)
        (RunnerSample.direct RunnerSample.neighbours)).filter
        (fun answered => answered.1.tenant != "north") =
      outputs (Frontend.handle RunnerSample.services) (.initial [] RunnerSample.store)
        ((RunnerSample.direct RunnerSample.neighbours).filter fun r => r.tenant != "north") :=
  ⟨by decide +kernel, tenants_apart _ _ _ _ _ (by decide +kernel)⟩

/-- A completion is refused because the other tenant completed its own job of that name. -/
theorem tenants_interfere :
    ¬ ∀ (w : Services) (registrations : List RunnerRegistration) (store : ObjectStore)
      (tenant : Identifier) (requests : List Request),
      (outputs (Frontend.handle w) (.initial registrations store) requests).filter
          (fun answered => answered.1.tenant != tenant) =
        outputs (Frontend.handle w) (.initial registrations store)
          (requests.filter fun request => request.tenant != tenant) := by
  intro apart
  have same := congrArg (List.map fun answered => answered.2.toBool)
    (apart RunnerSample.services [] RunnerSample.store "north"
      (RunnerSample.direct RunnerSample.twins))
  revert same
  decide +kernel

end CollectivePhaseControl
