import CollectivePhaseControl.RunnerGateway
import CollectivePhaseControl.Runs

/-! Leases over whole runs of the gateway. A run is a sequence of calls with their
responses; what it granted, and which heartbeats it accepted, are read off its events. -/
namespace CollectivePhaseControl
open Runs

/-- A use of a lease by the runner that presents it. -/
structure LeaseUse where
  registration : RunnerRegistration
  leaseId : String
  instant : ℤ

namespace Call

def time : Call → Option ℤ
  | .dispatch _ admittedAt => some admittedAt
  | .authenticate _ | .put _ _ => none
  | .claim _ claimedAt _ => some claimedAt
  | .heartbeat _ _ _ receivedAt => some receivedAt
  | .recordArtifact _ _ _ receivedAt => some receivedAt
  | .remainingArtifactBytes _ _ evaluatedAt => some evaluatedAt
  | .complete _ _ _ _ receivedAt => some receivedAt

def token : Call → Option String
  | .claim _ _ token => some token.value
  | _ => none

def leaseUse : Call → Option LeaseUse
  | .heartbeat registration leaseId _ receivedAt => some ⟨registration, leaseId, receivedAt⟩
  | .recordArtifact registration leaseId _ receivedAt => some ⟨registration, leaseId, receivedAt⟩
  | .remainingArtifactBytes registration leaseId evaluatedAt =>
    some ⟨registration, leaseId, evaluatedAt⟩
  | .complete registration leaseId _ _ receivedAt => some ⟨registration, leaseId, receivedAt⟩
  | _ => none

end Call

structure Event where
  call : Call
  response : Checked Response

def Serves (w : Services) (g : Gateway) (e : Event) (next : Gateway) : Prop :=
  g.serve w e.call = (next, e.response)

/-- A lease handed out: to whom, for which task, from when and until when. -/
structure Grant where
  key : TaskKey
  token : String
  principalId : Identifier
  claimedAt : ℤ
  expiresAt : ℤ

namespace Event

def Accepted (e : Event) : Prop := ∃ response, e.response = .ok response

def dispatched : Event → Option TaskKey
  | ⟨.dispatch task _, .ok _⟩ => some task.key
  | _ => none

def grant : Event → Option Grant
  | ⟨.claim registration claimedAt _, .ok (.claimed claim)⟩ =>
    some ⟨(registration.tenantId, claim.job.spec.jobId), claim.job.spec.leaseId,
      registration.principalId, claimedAt, claim.job.spec.leaseExpiresAt⟩
  | _ => none

def beat : Event → Option (String × ℤ)
  | ⟨.heartbeat _ leaseId sequence _, .ok _⟩ => some (leaseId, sequence)
  | _ => none

def completion : Event → Option (Identifier × String × RunnerCompletion)
  | ⟨.complete registration leaseId _ _ _, .ok (.completed completion)⟩ =>
    some (registration.tenantId, leaseId, completion)
  | _ => none

end Event

def grants (events : List Event) : List Grant := events.filterMap Event.grant

def grantsOf (key : TaskKey) (events : List Event) : List Grant :=
  (grants events).filter fun grant => grant.key == key

def heartbeats (token : String) (events : List Event) : List ℤ :=
  ((events.filterMap Event.beat).filter fun beat => beat.1 == token).map Prod.snd

/-- `1, 2, …, n`. -/
def countTo (n : ℕ) : List ℤ := (List.range n).map fun i => (i : ℤ) + 1

/-- Nothing in the run is later than `now`. -/
def Past (events : List Event) (now : ℤ) : Prop :=
  ∀ e ∈ events, ∀ instant, e.call.time = some instant → instant ≤ now

/-- The event is about the task: it dispatches it, claims it, or presents one of the leases
granted for it. -/
def Event.About (granted : List Grant) (key : TaskKey) (e : Event) : Prop :=
  e.dispatched = some key ∨
  (∃ grant, e.grant = some grant ∧ grant.key = key) ∨
  ∃ use, e.call.leaseUse = some use ∧ ∃ grant ∈ granted, grant.key = key ∧ grant.token = use.leaseId

section events
variable {events : List Event} {e : Event} {key : TaskKey} {token : String} {now : ℤ}

theorem grants_snoc : grants (events ++ [e]) = grants events ++ e.grant.toList := by
  cases h : e.grant <;> simp [grants, List.filterMap_append, h]

theorem grantsOf_snoc_other (other : ∀ grant, e.grant = some grant → grant.key ≠ key) :
    grantsOf key (events ++ [e]) = grantsOf key events := by
  cases h : e.grant with
  | none => simp [grantsOf, grants_snoc, h]
  | some grant => simp [grantsOf, grants_snoc, h, other grant h]

theorem grantsOf_snoc_self {grant : Grant} (h : e.grant = some grant) (same : grant.key = key) :
    grantsOf key (events ++ [e]) = grantsOf key events ++ [grant] := by
  simp [grantsOf, grants_snoc, h, same]

theorem mem_grantsOf {grant : Grant} :
    grant ∈ grantsOf key events ↔ grant ∈ grants events ∧ grant.key = key := by
  simp [grantsOf]

theorem heartbeats_snoc_other (other : ∀ beat, e.beat = some beat → beat.1 ≠ token) :
    heartbeats token (events ++ [e]) = heartbeats token events := by
  cases h : e.beat with
  | none => simp [heartbeats, List.filterMap_append, h]
  | some beat => simp [heartbeats, List.filterMap_append, h, other beat h]

theorem heartbeats_snoc_self {sequence : ℤ} (h : e.beat = some (token, sequence)) :
    heartbeats token (events ++ [e]) = heartbeats token events ++ [sequence] := by
  simp [heartbeats, List.filterMap_append, h]

theorem countTo_succ (n : ℕ) : countTo (n + 1) = countTo n ++ [(n : ℤ) + 1] := by
  simp [countTo, List.range_succ]

theorem Past.earlier (past : Past (events ++ [e]) now) : Past events now :=
  fun e' member => past e' (List.mem_append_left _ member)

theorem Past.last (past : Past (events ++ [e]) now) {instant : ℤ}
    (h : e.call.time = some instant) : instant ≤ now :=
  past e (by simp) instant h

theorem Past.claimed (past : Past events now) {grant : Grant} (member : grant ∈ grants events) :
    grant.claimedAt ≤ now := by
  obtain ⟨e, listed, made⟩ := List.mem_filterMap.mp member
  unfold Event.grant at made
  split at made
  · injection made with made
    subst made
    exact past _ listed _ rfl
  · cases made

end events

namespace Gateway
variable {w : Services} {g : Gateway} {state : RunnerTaskState} {registration : RunnerRegistration}
  {leaseId : String} {instant : ℤ}

@[simp] theorem setTask_store : (g.setTask state).store = g.store := rfl
@[simp] theorem setTask_attempts : (g.setTask state).completedAttempts = g.completedAttempts := rfl
@[simp] theorem setTask_registrations : (g.setTask state).registrations = g.registrations := rfl

theorem setTask_keys :
    (g.setTask state).tasks.map RunnerTaskState.key = g.tasks.map RunnerTaskState.key := by
  simp only [setTask, List.map_map]
  apply List.map_congr_left
  intro s _
  by_cases h : s.key = state.key <;> simp [h]

theorem forall_setTask {P : RunnerTaskState → Prop} (new : P state)
    (others : ∀ s ∈ g.tasks, s.key ≠ state.key → P s) : ∀ s ∈ (g.setTask state).tasks, P s := by
  intro s member
  obtain ⟨old, listed, rfl⟩ := List.mem_map.mp member
  split
  · exact new
  · exact others old listed ‹_›

theorem mem_setTask (listed : ∃ s ∈ g.tasks, s.key = state.key) :
    state ∈ (g.setTask state).tasks := by
  obtain ⟨s, member, same⟩ := listed
  exact List.mem_map.mpr ⟨s, member, if_pos same⟩

theorem mem_setTask_of_ne {s : RunnerTaskState} (member : s ∈ g.tasks)
    (other : s.key ≠ state.key) : s ∈ (g.setTask state).tasks :=
  List.mem_map.mpr ⟨s, member, if_neg other⟩

/-- The one task of the tenant under this lease, in force for its holder. -/
structure Active (g : Gateway) (use : LeaseUse) (state : RunnerTaskState) : Prop where
  listed : state ∈ g.tasks
  tenant : state.task.tenantId = use.registration.tenantId
  lease : state.leaseId = some use.leaseId
  leased : state.status = .leased
  holder : state.runnerPrincipalId = some use.registration.principalId
  unexpired : ∃ expiry, state.leaseExpiresAt = some expiry ∧ use.instant ≤ expiry

theorem activeState_ok (h : g.activeState registration leaseId instant = .ok state) :
    g.Active ⟨registration, leaseId, instant⟩ state := by
  unfold activeState at h
  split at h
  · rename_i found one
    split at h
    · rename_i held
      injection h with h
      subst h
      have member : found ∈ [found] := List.mem_singleton_self found
      rw [← one, List.mem_filter, Bool.and_eq_true, beq_iff_eq, beq_iff_eq] at member
      unfold RunnerTaskState.heldBy at held
      split at held
      · rename_i expiry expires
        simp only [Bool.and_eq_true, beq_iff_eq, decide_eq_true_eq] at held
        exact ⟨member.1, member.2.1, member.2.2, held.1.1, held.1.2, expiry, expires, held.2⟩
      · cases held
    · cases h
  · cases h

end Gateway

def ObjectStore.Grows (before after : ObjectStore) : Prop :=
  ∀ tenant digest data, before tenant digest = some data → after tenant digest = some data

def ObjectStore.Confined (tenant : Identifier) (before after : ObjectStore) : Prop :=
  ∀ owner, owner ≠ tenant → after owner = before owner

namespace ObjectStore

theorem Grows.refl (store : ObjectStore) : store.Grows store := fun _ _ _ h => h

theorem Grows.trans {a b c : ObjectStore} (first : a.Grows b) (second : b.Grows c) : a.Grows c :=
  fun tenant digest data h => second tenant digest data (first tenant digest data h)

theorem grows_put (w : Services) (store : ObjectStore) (tenant : Identifier) (data : Bytes) :
    store.Grows (store.put w tenant data).1 := by
  intro owner digest data' h
  simp [put, h]

theorem Confined.refl (tenant : Identifier) (store : ObjectStore) : Confined tenant store store :=
  fun _ _ => rfl

theorem Confined.trans {tenant : Identifier} {a b c : ObjectStore} (first : Confined tenant a b)
    (second : Confined tenant b c) : Confined tenant a c :=
  fun owner other => (second owner other).trans (first owner other)

theorem confined_put (w : Services) (store : ObjectStore) (tenant : Identifier) (data : Bytes) :
    Confined tenant store (store.put w tenant data).1 := by
  intro owner other
  funext digest
  simp [put, other]

end ObjectStore

namespace Gateway
variable {w : Services} {g g' : Gateway} {e : Event}

/-- What a claim writes into the task it picks. -/
structure Picked (w : Services) (g : Gateway) (registration : RunnerRegistration) (claimedAt : ℤ)
    (state : RunnerTaskState) : Prop where
  listed : state ∈ g.tasks
  tenant : state.task.tenantId = registration.tenantId
  claimable : state.claimable claimedAt = true
  limit : state.attempt < 32

inductive Effect (w : Services) (g : Gateway) : Event → Gateway → Prop
  | kept {e : Event} {g' : Gateway} (tasks : g'.tasks = g.tasks)
    (registrations : g'.registrations = g.registrations)
    (attempts : g'.completedAttempts = g.completedAttempts) (store : g.store.Grows g'.store)
    (confined : g.store.Confined e.call.tenant g'.store) (grant : e.grant = none)
    (beat : e.beat = none) (completion : e.completion = none) (dispatched : e.dispatched = none) :
    Effect w g e g'
  | dispatched (task : RunnerTask) (admittedAt : ℤ) (response : Response)
    (init : task.postInit w = .ok ()) (fresh : ∀ state ∈ g.tasks, state.key ≠ task.key) :
    Effect w g ⟨.dispatch task admittedAt, .ok response⟩
      { g with tasks := g.tasks ++ [.dispatched task] }
  | claimed (registration : RunnerRegistration) (claimedAt : ℤ) (token : LeaseToken)
    (state : RunnerTaskState) (picked : g.Picked w registration claimedAt state)
    (statement : SignedStatement) :
    Effect w g
      ⟨.claim registration claimedAt token, .ok (.claimed
        ⟨(state.lease registration claimedAt token).jobOf w claimedAt token, statement⟩)⟩
      (g.setTask { state.lease registration claimedAt token with
        job := some ((state.lease registration claimedAt token).jobOf w claimedAt token)
        jobStatement := some statement })
  | released (registration : RunnerRegistration) (claimedAt : ℤ) (token : LeaseToken)
    (state : RunnerTaskState) (picked : g.Picked w registration claimedAt state) (fault : Fault) :
    Effect w g ⟨.claim registration claimedAt token, .error fault⟩
      (g.setTask (state.lease registration claimedAt token).release)
  | stuck (registration : RunnerRegistration) (claimedAt : ℤ) (token : LeaseToken)
    (state : RunnerTaskState) (picked : g.Picked w registration claimedAt state) (fault : Fault)
    (invalid : ¬ ((state.lease registration claimedAt token).jobOf w claimedAt token).spec.Valid) :
    Effect w g ⟨.claim registration claimedAt token, .error fault⟩
      (g.setTask (state.lease registration claimedAt token))
  | beaten (registration : RunnerRegistration) (leaseId : String) (receivedAt : ℤ)
    (state : RunnerTaskState) (active : g.Active ⟨registration, leaseId, receivedAt⟩ state)
    (response : Response) :
    Effect w g
      ⟨.heartbeat registration leaseId (state.heartbeatSequence + 1) receivedAt, .ok response⟩
      (g.setTask { state with heartbeatSequence := state.heartbeatSequence + 1 })
  | recorded (registration : RunnerRegistration) (leaseId : String) (digest : Digest)
    (receivedAt : ℤ) (state : RunnerTaskState)
    (active : g.Active ⟨registration, leaseId, receivedAt⟩ state) (response : Response) :
    Effect w g ⟨.recordArtifact registration leaseId digest receivedAt, .ok response⟩
      (g.setTask { state with artifactDigests := insert digest state.artifactDigests })
  | completed (registration : RunnerRegistration) (leaseId : String) (receipt : SignedStatement)
    (projections : List SignedStatement) (receivedAt : ℤ) (state : RunnerTaskState)
    (active : g.Active ⟨registration, leaseId, receivedAt⟩ state) (completion : RunnerCompletion)
    (store : ObjectStore) (grows : g.store.Grows store)
    (confined : g.store.Confined registration.tenantId store) :
    Effect w g ⟨.complete registration leaseId receipt projections receivedAt,
        .ok (.completed completion)⟩
      { g.setTask { state with
          receiptStatementDigest := some completion.receiptStatementDigest
          pendingProjectionStatementDigests := completion.pendingProjectionStatementDigests
          status := .completed } with
        store := store
        completedAttempts := insert (state.task.jobId, state.attempt) g.completedAttempts }

theorem Effect.failed (call : Call) (fault : Fault) : Effect w g ⟨call, .error fault⟩ g := by
  apply Effect.kept rfl rfl rfl (.refl _) (.refl _ _) <;> cases call <;> rfl

theorem claim_effect {registration : RunnerRegistration} {claimedAt : ℤ} {token : LeaseToken} :
    Effect w g ⟨.claim registration claimedAt token,
        .claimed <$> (g.claim w registration claimedAt token).2⟩
      (g.claim w registration claimedAt token).1 := by
  unfold claim
  split
  · exact .failed _ _
  · rename_i state found
    have member := List.argmin_mem found
    rw [candidates, List.mem_filter, Bool.and_eq_true, beq_iff_eq] at member
    split
    · exact .failed _ _
    · rename_i limit
      have picked : g.Picked w registration claimedAt state :=
        ⟨member.1, member.2.1, member.2.2, by omega⟩
      dsimp only
      split
      · split
        · exact .claimed registration claimedAt token state picked _
        · exact .released registration claimedAt token state picked _
      · rename_i invalid
        exact .stuck registration claimedAt token state picked _ invalid

theorem dispatch_ok {task : RunnerTask} {admittedAt : ℤ} (h : g.dispatch w task admittedAt = .ok g') :
    task.postInit w = .ok () ∧ (∀ state ∈ g.tasks, state.key ≠ task.key) ∧
      g' = { g with tasks := g.tasks ++ [.dispatched task] } := by
  simp only [dispatch, bind_ok, require_ok, pure_ok] at h
  obtain ⟨_, init, _, fresh, _, _, _, _, _, _, _, _, _, _, _, _, _, _, _, _, _, _, _, _, _, _, rfl⟩ := h
  exact ⟨init, fresh, rfl⟩

theorem heartbeat_ok {registration : RunnerRegistration} {leaseId : String} {sequence receivedAt : ℤ}
    (h : g.heartbeat registration leaseId sequence receivedAt = .ok g') :
    ∃ state, g.Active ⟨registration, leaseId, receivedAt⟩ state ∧
      sequence = state.heartbeatSequence + 1 ∧
      g' = g.setTask { state with heartbeatSequence := state.heartbeatSequence + 1 } := by
  simp only [heartbeat, bind_ok, require_ok, pure_ok] at h
  obtain ⟨state, active, _, next, rfl⟩ := h
  exact ⟨state, activeState_ok active, next, rfl⟩

theorem recordArtifact_ok {registration : RunnerRegistration} {leaseId : String} {digest : Digest}
    {receivedAt : ℤ} (h : g.recordArtifact registration leaseId digest receivedAt = .ok g') :
    ∃ state, g.Active ⟨registration, leaseId, receivedAt⟩ state ∧
      g' = g.setTask { state with artifactDigests := insert digest state.artifactDigests } := by
  simp only [recordArtifact, bind_ok, require_ok, pure_ok] at h
  obtain ⟨state, active, _, _, _, _, _, _, rfl⟩ := h
  exact ⟨state, activeState_ok active, rfl⟩

theorem remainingArtifactBytes_ok {registration : RunnerRegistration} {leaseId : String}
    {evaluatedAt : ℤ} {bytes : ℕ}
    (h : g.remainingArtifactBytes registration leaseId evaluatedAt = .ok bytes) :
    ∃ state, g.Active ⟨registration, leaseId, evaluatedAt⟩ state := by
  simp only [remainingArtifactBytes, bind_ok] at h
  obtain ⟨state, active, _⟩ := h
  exact ⟨state, activeState_ok active⟩

theorem storeStatement_grows {tenant : Identifier} {code : String} {store after : ObjectStore}
    {statement : SignedStatement} (h : storeStatement w tenant code store statement = .ok after) :
    store.Grows after := by
  simp only [storeStatement, bind_ok, require_ok, pure_ok] at h
  obtain ⟨_, _, rfl⟩ := h
  exact ObjectStore.grows_put w store tenant _

theorem storeStatements_grow {tenant : Identifier} {code : String} {statements : List SignedStatement}
    {store after : ObjectStore}
    (h : statements.foldlM (storeStatement w tenant code) store = .ok after) :
    store.Grows after :=
  Fallible.foldlM_invariant (fun _ current => store.Grows current)
    (fun _ _ _ _ grown step => grown.trans (storeStatement_grows step)) (.refl store) h

theorem storeStatement_confined {tenant : Identifier} {code : String} {store after : ObjectStore}
    {statement : SignedStatement} (h : storeStatement w tenant code store statement = .ok after) :
    store.Confined tenant after := by
  simp only [storeStatement, bind_ok, require_ok, pure_ok] at h
  obtain ⟨_, _, rfl⟩ := h
  exact ObjectStore.confined_put w store tenant _

theorem storeStatements_confined {tenant : Identifier} {code : String}
    {statements : List SignedStatement} {store after : ObjectStore}
    (h : statements.foldlM (storeStatement w tenant code) store = .ok after) :
    store.Confined tenant after :=
  Fallible.foldlM_invariant (fun _ current => store.Confined tenant current)
    (fun _ _ _ _ kept step => kept.trans (storeStatement_confined step)) (.refl tenant store) h

theorem complete_ok {registration : RunnerRegistration} {leaseId : String}
    {receipt : SignedStatement} {projections : List SignedStatement} {receivedAt : ℤ}
    {completion : RunnerCompletion}
    (h : g.complete w registration leaseId receipt projections receivedAt = .ok (g', completion)) :
    ∃ state, g.Active ⟨registration, leaseId, receivedAt⟩ state ∧
      g.store.Grows g'.store ∧ g.store.Confined registration.tenantId g'.store ∧
      g' = { g.setTask { state with
          receiptStatementDigest := some completion.receiptStatementDigest
          pendingProjectionStatementDigests := completion.pendingProjectionStatementDigests
          status := .completed } with
        store := g'.store
        completedAttempts := insert (state.task.jobId, state.attempt) g.completedAttempts } := by
  simp only [complete, bind_ok, require_ok, pure_ok] at h
  obtain ⟨state, active, _, _, _, _, _, _, _, _, _, _, _, _, _, _, _, _, _, first, _, rest, h⟩ := h
  injection h with h₁ h₂
  subst h₁ h₂
  exact ⟨state, activeState_ok active,
    (storeStatement_grows first).trans (storeStatements_grow rest),
    (storeStatement_confined first).trans (storeStatements_confined rest), rfl⟩

theorem serves_effect (h : Serves w g e g') : Effect w g e g' := by
  obtain ⟨call, response⟩ := e
  cases call with
  | dispatch task admittedAt =>
    cases made : g.dispatch w task admittedAt with
    | ok next =>
      simp only [Serves, serve, made, commit, Functor.map, Except.map, Prod.mk.injEq] at h
      obtain ⟨rfl, rfl⟩ := h
      obtain ⟨init, fresh, rfl⟩ := dispatch_ok made
      exact .dispatched task admittedAt _ init fresh
    | error fault =>
      simp only [Serves, serve, made, commit, Functor.map, Except.map, Prod.mk.injEq] at h
      obtain ⟨rfl, rfl⟩ := h
      exact .failed _ _
  | authenticate identity =>
    simp only [Serves, serve, Prod.mk.injEq] at h
    obtain ⟨rfl, -⟩ := h
    exact .kept rfl rfl rfl (.refl _) (.refl _ _) rfl rfl rfl rfl
  | put tenant data =>
    simp only [Serves, serve, Prod.mk.injEq] at h
    obtain ⟨rfl, -⟩ := h
    exact .kept rfl rfl rfl (ObjectStore.grows_put w _ tenant data)
      (ObjectStore.confined_put w _ tenant data) rfl rfl rfl rfl
  | claim registration claimedAt token =>
    cases h
    exact claim_effect
  | heartbeat registration leaseId sequence receivedAt =>
    cases made : g.heartbeat registration leaseId sequence receivedAt with
    | ok next =>
      simp only [Serves, serve, made, commit, Functor.map, Except.map, Prod.mk.injEq] at h
      obtain ⟨rfl, rfl⟩ := h
      obtain ⟨state, active, rfl, rfl⟩ := heartbeat_ok made
      exact .beaten registration leaseId receivedAt state active _
    | error fault =>
      simp only [Serves, serve, made, commit, Functor.map, Except.map, Prod.mk.injEq] at h
      obtain ⟨rfl, rfl⟩ := h
      exact .failed _ _
  | recordArtifact registration leaseId digest receivedAt =>
    cases made : g.recordArtifact registration leaseId digest receivedAt with
    | ok next =>
      simp only [Serves, serve, made, commit, Functor.map, Except.map, Prod.mk.injEq] at h
      obtain ⟨rfl, rfl⟩ := h
      obtain ⟨state, active, rfl⟩ := recordArtifact_ok made
      exact .recorded registration leaseId digest receivedAt state active _
    | error fault =>
      simp only [Serves, serve, made, commit, Functor.map, Except.map, Prod.mk.injEq] at h
      obtain ⟨rfl, rfl⟩ := h
      exact .failed _ _
  | remainingArtifactBytes registration leaseId evaluatedAt =>
    simp only [Serves, serve, Prod.mk.injEq] at h
    obtain ⟨rfl, -⟩ := h
    exact .kept rfl rfl rfl (.refl _) (.refl _ _) rfl rfl rfl rfl
  | complete registration leaseId receipt projections receivedAt =>
    cases made : g.complete w registration leaseId receipt projections receivedAt with
    | ok result =>
      obtain ⟨next, completion⟩ := result
      simp only [Serves, serve, made, commit, Functor.map, Except.map, Prod.mk.injEq] at h
      obtain ⟨rfl, rfl⟩ := h
      obtain ⟨state, active, grows, confined, same⟩ := complete_ok made
      rw [same]
      exact .completed registration leaseId receipt projections receivedAt state active completion
        _ grows confined
    | error fault =>
      simp only [Serves, serve, made, commit, Functor.map, Except.map, Prod.mk.injEq] at h
      obtain ⟨rfl, rfl⟩ := h
      exact .failed _ _

theorem Effect.keys (effect : Effect w g e g') (keys : (g.tasks.map RunnerTaskState.key).Nodup) :
    (g'.tasks.map RunnerTaskState.key).Nodup := by
  cases effect with
  | kept tasks => rwa [tasks]
  | dispatched task admittedAt response init fresh =>
    have unknown : task.key ∉ g.tasks.map RunnerTaskState.key := by
      intro member
      obtain ⟨s, listed, same⟩ := List.mem_map.mp member
      exact fresh s listed same
    rw [List.map_append]
    exact keys.append (List.nodup_singleton _) (List.disjoint_singleton.mpr unknown)
  | claimed | released | stuck | beaten | recorded | completed => rwa [setTask_keys]

theorem not_claimable {state : RunnerTaskState} {now : ℤ} (done : state.status = .completed) :
    state.claimable now = false := by
  cases h : state.leaseExpiresAt <;> simp [RunnerTaskState.claimable, done, h]

theorem key_inj {a b : RunnerTaskState} (keys : (g.tasks.map RunnerTaskState.key).Nodup)
    (first : a ∈ g.tasks) (second : b ∈ g.tasks) (same : a.key = b.key) : a = b :=
  List.inj_on_of_nodup_map keys first second same

theorem Effect.completed_stays {state : RunnerTaskState} (effect : Effect w g e g')
    (keys : (g.tasks.map RunnerTaskState.key).Nodup) (listed : state ∈ g.tasks)
    (done : state.status = .completed) : state ∈ g'.tasks := by
  have picked : ∀ {registration claimedAt s next}, Picked w g registration claimedAt s →
      next.key = s.key → state ∈ (g.setTask next).tasks := by
    intro registration claimedAt s next picked key
    apply mem_setTask_of_ne listed
    intro same
    have claimable := picked.claimable
    rw [← key_inj keys listed picked.listed (same.trans key), not_claimable done] at claimable
    cases claimable
  have active : ∀ {use s next}, g.Active use s → next.key = s.key →
      state ∈ (g.setTask next).tasks := by
    intro use s next active key
    apply mem_setTask_of_ne listed
    intro same
    have leased := active.leased
    rw [← key_inj keys listed active.listed (same.trans key), done] at leased
    cases leased
  cases effect with
  | kept tasks => rwa [tasks]
  | dispatched => exact List.mem_append_left _ listed
  | claimed _ _ _ s chosen => exact picked chosen rfl
  | released _ _ _ s chosen => exact picked chosen rfl
  | stuck _ _ _ s chosen => exact picked chosen rfl
  | beaten _ _ _ s held => exact active held rfl
  | recorded _ _ _ _ s held => exact active held rfl
  | completed _ _ _ _ _ s held => exact active held rfl

theorem accepted_active {use : LeaseUse} (h : Serves w g e g') (accepted : e.Accepted)
    (uses : e.call.leaseUse = some use) : ∃ state, g.Active use state := by
  obtain ⟨response, ok⟩ := accepted
  obtain ⟨call, answer⟩ := e
  subst ok
  cases call with
  | dispatch | authenticate | put | claim => cases uses
  | remainingArtifactBytes registration leaseId evaluatedAt =>
    cases uses
    simp only [Serves, serve, Prod.mk.injEq, map_ok] at h
    obtain ⟨-, bytes, made, -⟩ := h
    exact remainingArtifactBytes_ok made
  | heartbeat registration leaseId sequence receivedAt =>
    cases uses
    cases serves_effect h with
    | kept _ _ _ _ _ _ beat => cases beat
    | beaten _ _ _ state active => exact ⟨state, active⟩
  | recordArtifact registration leaseId digest receivedAt =>
    cases uses
    cases made : g.recordArtifact registration leaseId digest receivedAt with
    | ok next =>
      obtain ⟨state, active, -⟩ := recordArtifact_ok made
      exact ⟨state, active⟩
    | error fault => simp [Serves, serve, made, commit, Functor.map, Except.map] at h
  | complete registration leaseId receipt projections receivedAt =>
    cases uses
    cases made : g.complete w registration leaseId receipt projections receivedAt with
    | ok result =>
      obtain ⟨next, completion⟩ := result
      obtain ⟨state, active, -⟩ := complete_ok made
      exact ⟨state, active⟩
    | error fault => simp [Serves, serve, made, commit, Functor.map, Except.map] at h

end Gateway

structure TaskTracks (events : List Event) (state : RunnerTaskState) : Prop where
  attempt : state.attempt = (grantsOf state.key events).length
  bound : state.attempt ≤ 32
  apart : (grantsOf state.key events).Pairwise fun a b => a.expiresAt < b.claimedAt
  fields : state.task.JobFields ∧ state.task.inputDigests.Nodup
  idle : state.status = .queued → state.leaseId = none ∧
    ∀ grant ∈ grantsOf state.key events, ∀ now, Past events now → grant.expiresAt < now
  held : state.status ≠ .queued → ∃ grant, (grantsOf state.key events).getLast? = some grant ∧
    state.leaseId = some grant.token ∧ state.leaseExpiresAt = some grant.expiresAt ∧
    state.runnerPrincipalId = some grant.principalId ∧
    heartbeats grant.token events = countTo state.heartbeatSequence

structure History (events : List Event) : Prop where
  tokens : ((grants events).map Grant.token).Sublist (events.filterMap fun e => e.call.token)
  counted : ∀ token, ∃ n, heartbeats token events = countTo n
  silent : ∀ token, token ∉ (grants events).map Grant.token → heartbeats token events = []

structure Tracks (events : List Event) (g : Gateway) : Prop extends History events where
  keys : (g.tasks.map RunnerTaskState.key).Nodup
  tasks : ∀ state ∈ g.tasks, TaskTracks events state
  known : ∀ grant ∈ grants events, grant.key ∈ g.tasks.map RunnerTaskState.key

/-- A run's own conditions: the clock does not go back, tokens are fresh, and the tasks
dispatched have fields a job can take. -/
structure Orderly (events : List Event) : Prop where
  clock : (events.filterMap fun e => e.call.time).Pairwise (· ≤ ·)
  fresh : (events.filterMap fun e => e.call.token).Nodup
  fields : ∀ e ∈ events, ∀ task admittedAt, e.call = .dispatch task admittedAt → task.JobFields

section tracks
variable {events : List Event} {e : Event} {g g' : Gateway} {state : RunnerTaskState} {now : ℤ}
  {w : Services}

theorem Orderly.earlier {rest : List Event} (orderly : Orderly (events ++ rest)) :
    Orderly events where
  clock := by
    have clock := orderly.clock
    rw [List.filterMap_append] at clock
    exact (List.pairwise_append.mp clock).1
  fresh := by
    have fresh := orderly.fresh
    rw [List.filterMap_append] at fresh
    exact fresh.of_append_left
  fields e' member := orderly.fields e' (List.mem_append_left _ member)

theorem Orderly.past (orderly : Orderly (events ++ [e])) (h : e.call.time = some now) :
    Past events now := by
  have clock := orderly.clock
  rw [List.filterMap_append] at clock
  have before := (List.pairwise_append.mp clock).2.2
  intro e' member instant timed
  exact before instant (List.mem_filterMap.mpr ⟨e', member, timed⟩) now (by simp [h])

theorem Tracks.fresh_token (tracks : Tracks events g) (orderly : Orderly (events ++ [e]))
    {token : String} (h : e.call.token = some token) :
    token ∉ (grants events).map Grant.token := by
  have fresh := orderly.fresh
  rw [List.filterMap_append] at fresh
  intro member
  exact List.disjoint_of_nodup_append fresh (tracks.tokens.subset member) (by simp [h])

theorem Tracks.grant_eq (tracks : Tracks events g) (orderly : Orderly events) {a b : Grant}
    (first : a ∈ grants events) (second : b ∈ grants events) (same : a.token = b.token) : a = b :=
  List.inj_on_of_nodup_map (orderly.fresh.sublist tracks.tokens) first second same

theorem TaskTracks.last (tracks : TaskTracks events state) (busy : state.status ≠ .queued) :
    ∃ grant ∈ grants events, grant.key = state.key ∧ state.leaseId = some grant.token ∧
      state.leaseExpiresAt = some grant.expiresAt := by
  obtain ⟨grant, last, lease, expiry, -⟩ := tracks.held busy
  have member := mem_grantsOf.mp (List.mem_of_getLast? last)
  exact ⟨grant, member.1, member.2, lease, expiry⟩

theorem TaskTracks.busy (tracks : TaskTracks events state) {lease : String}
    (h : state.leaseId = some lease) : state.status ≠ .queued := by
  intro queued
  rw [(tracks.idle queued).1] at h
  cases h

theorem Tracks.lease_unique (tracks : Tracks events g) (orderly : Orderly events)
    {a b : RunnerTaskState} (first : a ∈ g.tasks) (second : b ∈ g.tasks) {lease : String}
    (ha : a.leaseId = some lease) (hb : b.leaseId = some lease) : a = b := by
  have ta := tracks.tasks a first
  have tb := tracks.tasks b second
  obtain ⟨x, xListed, xKey, xLease, -⟩ := ta.last (ta.busy ha)
  obtain ⟨y, yListed, yKey, yLease, -⟩ := tb.last (tb.busy hb)
  have same : x = y := by
    apply tracks.grant_eq orderly xListed yListed
    rw [ha, Option.some_inj] at xLease
    rw [hb, Option.some_inj] at yLease
    rw [← xLease, ← yLease]
  apply List.inj_on_of_nodup_map tracks.keys first second
  rw [← xKey, ← yKey, same]

theorem TaskTracks.expired (tracks : TaskTracks events state)
    (claimable : state.claimable now = true) (past : Past events now) :
    ∀ grant ∈ grantsOf state.key events, grant.expiresAt < now := by
  unfold RunnerTaskState.claimable at claimable
  split at claimable
  · rename_i queued
    exact fun grant member => (tracks.idle queued).2 grant member now past
  · rename_i expiry leased expires
    have late : expiry < now := by simpa using claimable
    have busy : state.status ≠ .queued := by simp [leased]
    obtain ⟨last, final, -, held, -⟩ := tracks.held busy
    rw [expires, Option.some_inj] at held
    intro grant member
    obtain ⟨before, split⟩ := List.getLast?_eq_some_iff.mp final
    have apart := tracks.apart
    rw [split, List.pairwise_append] at apart
    rw [split, List.mem_append, List.mem_singleton] at member
    rcases member with earlier | rfl
    · have gap := apart.2.2 grant earlier last (by simp)
      have claimed := past.claimed (mem_grantsOf.mp (List.mem_of_getLast? final)).1
      omega
    · omega
  · cases claimable

theorem TaskTracks.snoc (tracks : TaskTracks events state)
    (grant : ∀ grant, e.grant = some grant → grant.key ≠ state.key)
    (beat : ∀ beat, e.beat = some beat → state.leaseId ≠ some beat.1) :
    TaskTracks (events ++ [e]) state := by
  have same : grantsOf state.key (events ++ [e]) = grantsOf state.key events :=
    grantsOf_snoc_other grant
  have held : state.status ≠ .queued → ∃ grant, (grantsOf state.key events).getLast? = some grant ∧
      state.leaseId = some grant.token ∧ state.leaseExpiresAt = some grant.expiresAt ∧
      state.runnerPrincipalId = some grant.principalId ∧
      heartbeats grant.token (events ++ [e]) = countTo state.heartbeatSequence := by
    intro busy
    obtain ⟨last, final, lease, expiry, principal, count⟩ := tracks.held busy
    refine ⟨last, final, lease, expiry, principal, ?_⟩
    rw [heartbeats_snoc_other, count]
    intro pair beaten own
    exact beat pair beaten (by rw [lease, own])
  constructor
  · rw [same, tracks.attempt]
  · exact tracks.bound
  · rw [same]; exact tracks.apart
  · exact tracks.fields
  · intro queued
    rw [same]
    exact ⟨(tracks.idle queued).1, fun a member now past =>
      (tracks.idle queued).2 a member now past.earlier⟩
  · rw [same]; exact held

theorem TaskTracks.snoc_quiet (tracks : TaskTracks events state) (grant : e.grant = none)
    (beat : e.beat = none) : TaskTracks (events ++ [e]) state :=
  tracks.snoc (by simp [grant]) (by simp [beat])

theorem TaskTracks.congr {next : RunnerTaskState} (tracks : TaskTracks events state)
    (task : next.task = state.task) (attempt : next.attempt = state.attempt)
    (status : next.status ≠ .queued) (before : state.status ≠ .queued)
    (lease : next.leaseId = state.leaseId) (expiry : next.leaseExpiresAt = state.leaseExpiresAt)
    (principal : next.runnerPrincipalId = state.runnerPrincipalId)
    (sequence : next.heartbeatSequence = state.heartbeatSequence) : TaskTracks events next := by
  have key : next.key = state.key := by rw [RunnerTaskState.key, RunnerTaskState.key, task]
  constructor
  · rw [attempt, key, tracks.attempt]
  · rw [attempt]; exact tracks.bound
  · rw [key]; exact tracks.apart
  · rw [task]; exact tracks.fields
  · exact fun queued => absurd queued status
  · intro _
    rw [key, lease, expiry, principal, sequence]
    exact tracks.held before

theorem History.quiet (history : History events) (grant : e.grant = none) (beat : e.beat = none) :
    History (events ++ [e]) where
  tokens := by
    rw [grants_snoc, grant, Option.toList_none, List.append_nil, List.filterMap_append]
    exact history.tokens.trans (List.sublist_append_left _ _)
  counted token := by
    rw [heartbeats_snoc_other (by simp [beat])]
    exact history.counted token
  silent token absent := by
    rw [grants_snoc, grant, Option.toList_none, List.append_nil] at absent
    rw [heartbeats_snoc_other (by simp [beat])]
    exact history.silent token absent

theorem History.granted (history : History events) {grant : Grant} (made : e.grant = some grant)
    (drawn : e.call.token = some grant.token) (beat : e.beat = none) :
    History (events ++ [e]) where
  tokens := by
    rw [grants_snoc, made, List.filterMap_append]
    simpa [drawn] using history.tokens.append_right [grant.token]
  counted token := by
    rw [heartbeats_snoc_other (by simp [beat])]
    exact history.counted token
  silent token absent := by
    rw [grants_snoc, List.map_append, List.mem_append, not_or] at absent
    rw [heartbeats_snoc_other (by simp [beat])]
    exact history.silent token absent.1

theorem History.beaten (history : History events) (grant : e.grant = none) {lease : String}
    {n : ℕ} (beat : e.beat = some (lease, (n : ℤ) + 1)) (count : heartbeats lease events = countTo n)
    (granted : lease ∈ (grants events).map Grant.token) : History (events ++ [e]) where
  tokens := by
    rw [grants_snoc, grant, Option.toList_none, List.append_nil, List.filterMap_append]
    exact history.tokens.trans (List.sublist_append_left _ _)
  counted token := by
    by_cases own : token = lease
    · rw [own, heartbeats_snoc_self beat, count, ← countTo_succ]
      exact ⟨n + 1, rfl⟩
    · rw [heartbeats_snoc_other (by simpa [beat] using Ne.symm own)]
      exact history.counted token
  silent token absent := by
    rw [grants_snoc, grant, Option.toList_none, List.append_nil] at absent
    rw [heartbeats_snoc_other]
    · exact history.silent token absent
    · intro pair made own
      rw [beat, Option.some_inj] at made
      rw [← own, ← made] at absent
      exact absurd granted absent

theorem Tracks.rewrite (tracks : Tracks events g) (grant : e.grant = none) (beat : e.beat = none)
    (tasks : g'.tasks = (g.setTask state).tasks) (new : TaskTracks (events ++ [e]) state) :
    Tracks (events ++ [e]) g' where
  toHistory := tracks.toHistory.quiet grant beat
  keys := by
    rw [tasks, Gateway.setTask_keys]
    exact tracks.keys
  tasks := by
    rw [tasks]
    apply Gateway.forall_setTask new
    exact fun s member _ => (tracks.tasks s member).snoc_quiet grant beat
  known := by
    rw [tasks, Gateway.setTask_keys, grants_snoc, grant, Option.toList_none, List.append_nil]
    exact tracks.known

theorem TaskTracks.dispatched {task : RunnerTask} (fields : task.JobFields)
    (unique : task.inputDigests.Nodup) (none : grantsOf task.key events = []) :
    TaskTracks events (.dispatched task) where
  attempt := by
    change 0 = (grantsOf task.key events).length
    rw [none]; rfl
  bound := Nat.zero_le 32
  apart := by
    change (grantsOf task.key events).Pairwise _
    rw [none]; exact .nil
  fields := ⟨fields, unique⟩
  idle _ := by
    refine ⟨rfl, ?_⟩
    change ∀ grant ∈ grantsOf task.key events, _
    simp [none]
  held busy := absurd rfl busy

theorem postInit_unique {task : RunnerTask} (h : task.postInit w = .ok ()) :
    task.inputDigests.Nodup := by
  simp only [RunnerTask.postInit, bind_ok] at h
  obtain ⟨_, _, _, unique, _⟩ := h
  unfold orValueError at unique
  split at unique
  · assumption
  · cases unique

theorem jobOf_valid {claimedAt : ℤ} {token : LeaseToken} {registration : RunnerRegistration}
    (fields : state.task.JobFields ∧ state.task.inputDigests.Nodup) (limit : state.attempt < 32) :
    ((state.lease registration claimedAt token).jobOf w claimedAt token).spec.Valid := by
  obtain ⟨⟨id, action, generation, inputs, size⟩, unique⟩ := fields
  refine ⟨id, action, generation, ⟨?_, ?_⟩, token.isIdentifier, inputs, size, unique⟩
  · exact Nat.succ_le_succ (Nat.zero_le _)
  · exact limit

theorem TaskTracks.claimed {next : RunnerTaskState} {grant : Grant}
    (tracks : TaskTracks events state) (made : e.grant = some grant) (key : grant.key = state.key)
    (limit : state.attempt < 32)
    (expired : ∀ a ∈ grantsOf state.key events, a.expiresAt < grant.claimedAt)
    (unused : heartbeats grant.token (events ++ [e]) = []) (task : next.task = state.task)
    (attempt : next.attempt = state.attempt + 1) (status : next.status = .leased)
    (lease : next.leaseId = some grant.token) (expiry : next.leaseExpiresAt = some grant.expiresAt)
    (principal : next.runnerPrincipalId = some grant.principalId)
    (sequence : next.heartbeatSequence = 0) : TaskTracks (events ++ [e]) next := by
  have same : next.key = state.key := by rw [RunnerTaskState.key, RunnerTaskState.key, task]
  have history : grantsOf state.key (events ++ [e]) = grantsOf state.key events ++ [grant] :=
    grantsOf_snoc_self made key
  constructor
  · rw [same, history, List.length_append, attempt, tracks.attempt, List.length_singleton]
  · omega
  · rw [same, history, List.pairwise_append]
    refine ⟨tracks.apart, List.pairwise_singleton _ _, ?_⟩
    intro a member b last
    rw [List.mem_singleton.mp last]
    exact expired a member
  · rw [task]; exact tracks.fields
  · intro queued
    rw [status] at queued
    cases queued
  · intro _
    refine ⟨grant, ?_, lease, expiry, principal, ?_⟩
    · rw [same, history, List.getLast?_append]; rfl
    · rw [unused, sequence]; rfl

theorem TaskTracks.released {registration : RunnerRegistration} {claimedAt : ℤ} {token : LeaseToken}
    (tracks : TaskTracks events state) (grant : e.grant = none)
    (timed : e.call.time = some claimedAt)
    (expired : ∀ a ∈ grantsOf state.key events, a.expiresAt < claimedAt) :
    TaskTracks (events ++ [e]) (state.lease registration claimedAt token).release := by
  have same : (state.lease registration claimedAt token).release.key = state.key := rfl
  have history : grantsOf state.key (events ++ [e]) = grantsOf state.key events :=
    grantsOf_snoc_other (by simp [grant])
  constructor
  · rw [same, history, ← tracks.attempt]; rfl
  · exact tracks.bound
  · rw [same, history]; exact tracks.apart
  · exact tracks.fields
  · intro _
    refine ⟨rfl, ?_⟩
    rw [same, history]
    intro a member now past
    exact (expired a member).trans_le (past.last timed)
  · exact fun busy => absurd rfl busy

theorem TaskTracks.beaten (tracks : TaskTracks events state) (grant : e.grant = none)
    {lease : String} (beat : e.beat = some (lease, (state.heartbeatSequence : ℤ) + 1))
    (own : state.leaseId = some lease) :
    TaskTracks (events ++ [e])
      { state with heartbeatSequence := state.heartbeatSequence + 1 } := by
  have busy := tracks.busy own
  have history : grantsOf state.key (events ++ [e]) = grantsOf state.key events :=
    grantsOf_snoc_other (by simp [grant])
  constructor
  · change state.attempt = (grantsOf state.key _).length
    rw [history]; exact tracks.attempt
  · exact tracks.bound
  · change (grantsOf state.key _).Pairwise _
    rw [history]; exact tracks.apart
  · exact tracks.fields
  · exact fun queued => absurd queued busy
  · intro _
    obtain ⟨last, final, lease', expiry, principal, count⟩ := tracks.held busy
    have token : lease = last.token := Option.some_inj.mp (own.symm.trans lease')
    refine ⟨last, ?_, lease', expiry, principal, ?_⟩
    · change (grantsOf state.key _).getLast? = _
      rw [history]; exact final
    · rw [← token, heartbeats_snoc_self beat, token, count, ← countTo_succ]

theorem Tracks.step (tracks : Tracks events g) (orderly : Orderly (events ++ [e]))
    (effect : Gateway.Effect w g e g') : Tracks (events ++ [e]) g' := by
  have keys := effect.keys tracks.keys
  cases effect with
  | kept tasks _ _ _ _ grant beat =>
    constructor
    · exact tracks.toHistory.quiet grant beat
    · exact keys
    · rw [tasks]
      exact fun s member => (tracks.tasks s member).snoc_quiet grant beat
    · rw [tasks, grants_snoc, grant, Option.toList_none, List.append_nil]
      exact tracks.known
  | dispatched task admittedAt response init fresh =>
    have unknown : task.key ∉ g.tasks.map RunnerTaskState.key := by
      intro member
      obtain ⟨s, listed, same⟩ := List.mem_map.mp member
      exact fresh s listed same
    have untouched :
        grantsOf task.key (events ++ [⟨.dispatch task admittedAt, .ok response⟩]) = [] := by
      rw [grantsOf_snoc_other (by simp [Event.grant]), List.eq_nil_iff_forall_not_mem]
      intro grant member
      obtain ⟨listed, same⟩ := mem_grantsOf.mp member
      exact unknown (same ▸ tracks.known grant listed)
    have fields := orderly.fields ⟨.dispatch task admittedAt, .ok response⟩ (by simp) task
      admittedAt rfl
    constructor
    · exact tracks.toHistory.quiet rfl rfl
    · exact keys
    · intro s member
      rcases List.mem_append.mp member with old | new
      · exact (tracks.tasks s old).snoc_quiet rfl rfl
      · rw [List.mem_singleton.mp new]
        exact .dispatched fields (postInit_unique init) untouched
    · rw [grants_snoc, List.map_append]
      intro grant member
      exact List.mem_append_left _ (tracks.known grant (by simpa [Event.grant] using member))
  | claimed registration claimedAt token s picked statement =>
    have own := tracks.tasks s picked.listed
    have fresh : token.value ∉ (grants events).map Grant.token := tracks.fresh_token orderly rfl
    have expired := own.expired picked.claimable (orderly.past rfl)
    have key : (registration.tenantId, s.task.jobId) = s.key := by rw [← picked.tenant]; rfl
    constructor
    · exact tracks.toHistory.granted rfl rfl rfl
    · exact keys
    · apply Gateway.forall_setTask
      · apply own.claimed rfl key picked.limit expired
        · rw [heartbeats_snoc_other (by simp [Event.beat])]
          exact tracks.silent _ fresh
        all_goals rfl
      · intro u member other
        apply (tracks.tasks u member).snoc
        · intro grant made same
          rw [← Option.some_inj.mp made] at same
          exact other (same.symm.trans key)
        · simp [Event.beat]
    · rw [Gateway.setTask_keys, grants_snoc]
      intro grant member
      rcases List.mem_append.mp member with old | new
      · exact tracks.known grant old
      · rw [← Option.some_inj.mp (Option.mem_toList.mp new)]
        exact List.mem_map.mpr ⟨s, picked.listed, key.symm⟩
  | released registration claimedAt token s picked fault =>
    have own := tracks.tasks s picked.listed
    have expired := own.expired picked.claimable (orderly.past rfl)
    exact tracks.rewrite rfl rfl rfl (own.released rfl rfl expired)
  | stuck registration claimedAt token s picked fault invalid =>
    exact absurd (jobOf_valid (tracks.tasks s picked.listed).fields picked.limit) invalid
  | beaten registration leaseId receivedAt s active response =>
    have own := tracks.tasks s active.listed
    have busy := own.busy active.lease
    obtain ⟨grant, last, lease, expiry, principal, count⟩ := own.held busy
    have token : leaseId = grant.token := Option.some_inj.mp (active.lease.symm.trans lease)
    subst token
    have granted := (mem_grantsOf.mp (List.mem_of_getLast? last)).1
    have history : grantsOf s.key (events ++ [⟨.heartbeat registration grant.token
        (s.heartbeatSequence + 1) receivedAt, .ok response⟩]) = grantsOf s.key events :=
      grantsOf_snoc_other (by simp [Event.grant])
    constructor
    · exact tracks.toHistory.beaten rfl rfl count (List.mem_map_of_mem granted)
    · exact keys
    · apply Gateway.forall_setTask
      · exact own.beaten rfl rfl active.lease
      · intro u member other
        apply (tracks.tasks u member).snoc
        · simp [Event.grant]
        · intro beat made same
          rw [← Option.some_inj.mp made] at same
          have equal := tracks.lease_unique orderly.earlier member active.listed same active.lease
          exact other (by rw [equal]; rfl)
    · rw [Gateway.setTask_keys, grants_snoc]
      intro a member
      exact tracks.known a (by simpa [Event.grant] using member)
  | recorded registration leaseId digest receivedAt s active response =>
    have own := (tracks.tasks s active.listed).snoc_quiet (e := ⟨.recordArtifact registration leaseId
      digest receivedAt, .ok response⟩) rfl rfl
    have busy := own.busy active.lease
    exact tracks.rewrite rfl rfl rfl (own.congr rfl rfl busy busy rfl rfl rfl rfl)
  | completed registration leaseId receipt projections receivedAt s active completion =>
    have own := (tracks.tasks s active.listed).snoc_quiet (e := ⟨.complete registration leaseId
      receipt projections receivedAt, .ok (.completed completion)⟩) rfl rfl
    have busy := own.busy active.lease
    exact tracks.rewrite rfl rfl rfl (own.congr rfl rfl nofun busy rfl rfl rfl rfl)

end tracks

section runs
variable {w : Services} {registrations : List RunnerRegistration} {store : ObjectStore}
  {events : List Event} {e : Event} {g g' : Gateway} {state other : RunnerTaskState}

theorem run_tracks (run : Run (Serves w) (.initial registrations store) events g)
    (orderly : Orderly events) : Tracks events g := by
  induction events using List.reverseRecOn generalizing g with
  | nil =>
    cases run
    exact { tokens := List.nil_sublist _, counted := fun _ => ⟨0, rfl⟩, silent := fun _ _ => rfl,
            keys := List.nodup_nil, tasks := by simp [Gateway.initial], known := by simp [grants] }
  | append_singleton events e ih =>
    obtain ⟨middle, first, last⟩ := Run.snoc_iff.mp run
    exact (ih first orderly.earlier).step orderly (Gateway.serves_effect last)

theorem effect_grows (effect : Gateway.Effect w g e g') : g.store.Grows g'.store := by
  cases effect with
  | kept _ _ _ grows => exact grows
  | completed _ _ _ _ _ _ _ _ _ grows => exact grows
  | dispatched | claimed | released | stuck | beaten | recorded => exact .refl _

theorem Tracks.completed_silent (tracks : Tracks events g) (orderly : Orderly events)
    (listed : state ∈ g.tasks) (done : state.status = .completed) (serves : Serves w g e g')
    (accepted : e.Accepted) : ¬ e.About (grants events) state.key := by
  have effect := Gateway.serves_effect serves
  rintro (added | ⟨grant, made, same⟩ | ⟨use, uses, grant, granted, same, token⟩)
  · cases effect with
    | kept _ _ _ _ _ _ _ _ none =>
      rw [none] at added
      cases added
    | dispatched task admittedAt response init fresh =>
      exact fresh state listed (Option.some_inj.mp added).symm
    | claimed | released | stuck | beaten | recorded | completed => cases added
  · cases effect with
    | kept _ _ _ _ _ none =>
      rw [none] at made
      cases made
    | claimed registration claimedAt token s picked statement =>
      have own : s.key = state.key := by
        rw [← same, ← Option.some_inj.mp made, ← picked.tenant]
        rfl
      have claimable := picked.claimable
      rw [Gateway.key_inj tracks.keys picked.listed listed own, Gateway.not_claimable done] at claimable
      cases claimable
    | dispatched | released | stuck | beaten | recorded | completed => cases made
  · obtain ⟨s, active⟩ := Gateway.accepted_active serves accepted uses
    have own := tracks.tasks s active.listed
    obtain ⟨last, lastGranted, key, lease, -⟩ := own.last (own.busy active.lease)
    have token' : last.token = grant.token := by
      rw [token]
      exact Option.some_inj.mp (lease.symm.trans active.lease)
    have equal := tracks.grant_eq orderly lastGranted granted token'
    have leased := active.leased
    rw [Gateway.key_inj tracks.keys active.listed listed (by rw [← key, equal, same]), done] at leased
    cases leased

theorem completed_lasts {before after : List Event} {mid : Gateway}
    (first : Run (Serves w) (.initial registrations store) before mid)
    (rest : Run (Serves w) mid after g) (orderly : Orderly (before ++ after))
    (listed : state ∈ mid.tasks) (done : state.status = .completed) :
    state ∈ g.tasks ∧ mid.store.Grows g.store := by
  induction after using List.reverseRecOn generalizing g with
  | nil =>
    cases rest
    exact ⟨listed, .refl _⟩
  | append_singleton after e ih =>
    obtain ⟨last, run, serves⟩ := Run.snoc_iff.mp rest
    rw [← List.append_assoc] at orderly
    obtain ⟨kept, grown⟩ := ih run orderly.earlier
    have tracks := run_tracks (Run.append_iff.mpr ⟨mid, first, run⟩) orderly.earlier
    have effect := Gateway.serves_effect serves
    exact ⟨effect.completed_stays tracks.keys kept done, grown.trans (effect_grows effect)⟩

structure LeaseSafety (w : Services) (start : Gateway) (events : List Event) (g : Gateway) :
    Prop where
  /-- Tasks are told apart by tenant and job. -/
  keys : (g.tasks.map RunnerTaskState.key).Nodup
  /-- The attempt counts the task's successful claims and stays within the limit. -/
  attempts : ∀ state ∈ g.tasks, state.attempt = (grantsOf state.key events).length ∧
    state.attempt ≤ 32
  /-- Of the leases granted for a task at most one has not run out. -/
  single : ∀ key now, Past events now → ∀ a ∈ grantsOf key events, ∀ b ∈ grantsOf key events,
    now ≤ a.expiresAt → now ≤ b.expiresAt → a = b
  /-- Accepted heartbeats of a lease count from one. -/
  counted : ∀ token, ∃ n, heartbeats token events = countTo n
  /-- A lease is used by the principal it was granted to, in time, and while it is its task's
  latest. -/
  holder : ∀ before e after use, events = before ++ e :: after → e.call.leaseUse = some use →
    e.Accepted → ∃ key grant, (grantsOf key before).getLast? = some grant ∧
      key.1 = use.registration.tenantId ∧ grant.token = use.leaseId ∧
      grant.principalId = use.registration.principalId ∧ use.instant ≤ grant.expiresAt
  /-- A completion is its task's last event, and what it stored stays. -/
  final : ∀ before e after mid tenant lease completion, events = before ++ e :: after →
    Run (Serves w) start (before ++ [e]) mid → e.completion = some (tenant, lease, completion) →
    ∃ state ∈ mid.tasks, state.task.tenantId = tenant ∧ state.leaseId = some lease ∧
      state.status = .completed ∧
      state.receiptStatementDigest = some completion.receiptStatementDigest ∧
      state.pendingProjectionStatementDigests = completion.pendingProjectionStatementDigests ∧
      state ∈ g.tasks ∧ mid.store.Grows g.store ∧
      ∀ between e' rest, after = between ++ e' :: rest → e'.Accepted →
        ¬ e'.About (grants (before ++ e :: between)) state.key

theorem TaskTracks.single (tracks : TaskTracks events state) {now : ℤ} (past : Past events now) :
    ∀ a ∈ grantsOf state.key events, ∀ b ∈ grantsOf state.key events,
      now ≤ a.expiresAt → now ≤ b.expiresAt → a = b := by
  intro a ha b hb liveA liveB
  by_contra other
  have symmetric : Std.Symm fun a b : Grant => ¬ (now ≤ a.expiresAt ∧ now ≤ b.expiresAt) :=
    ⟨fun _ _ apart live => apart live.symm⟩
  have apart : (grantsOf state.key events).Pairwise
      fun a b => ¬ (now ≤ a.expiresAt ∧ now ≤ b.expiresAt) := by
    apply tracks.apart.imp_of_mem
    rintro x y - listed gap ⟨live, -⟩
    have claimed := past.claimed (mem_grantsOf.mp listed).1
    omega
  exact apart.forall ha hb other ⟨liveA, liveB⟩

theorem serves_unique (g : Gateway) (e : Event) (a b : Gateway) (first : Serves w g e a)
    (second : Serves w g e b) : a = b :=
  congrArg Prod.fst (first.symm.trans second)

theorem run_completed {tenant : Identifier} {lease : String} {completion : RunnerCompletion}
    (run : Run (Serves w) g (events ++ [e]) g')
    (completes : e.completion = some (tenant, lease, completion)) :
    ∃ state ∈ g'.tasks, state.status = .completed ∧ state.task.tenantId = tenant ∧
      state.leaseId = some lease ∧
      state.receiptStatementDigest = some completion.receiptStatementDigest ∧
      state.pendingProjectionStatementDigests = completion.pendingProjectionStatementDigests := by
  obtain ⟨before, -, serves⟩ := Run.snoc_iff.mp run
  cases Gateway.serves_effect serves with
  | kept _ _ _ _ _ _ _ none =>
    rw [none] at completes
    cases completes
  | completed registration leaseId receipt projections receivedAt s active =>
    cases completes
    exact ⟨_, Gateway.mem_setTask ⟨s, active.listed, rfl⟩, rfl, active.tenant, active.lease, rfl, rfl⟩
  | dispatched | claimed | released | stuck | beaten | recorded => cases completes

/-- At every moment of every run each task has at most one lease that has not run out, only its
holder uses it and in time, and a completed task is left alone. -/
theorem leases_safe (w : Services) (registrations : List RunnerRegistration) (store : ObjectStore)
    (events : List Event) (g : Gateway)
    (run : Run (Serves w) (.initial registrations store) events g) (orderly : Orderly events) :
    LeaseSafety w (.initial registrations store) events g := by
  have tracks := run_tracks run orderly
  constructor
  · exact tracks.keys
  · exact fun state listed => ⟨(tracks.tasks state listed).attempt, (tracks.tasks state listed).bound⟩
  · intro key now past a ha
    obtain ⟨granted, rfl⟩ := mem_grantsOf.mp ha
    obtain ⟨state, listed, same⟩ := List.mem_map.mp (tracks.known a granted)
    rw [← same] at ha ⊢
    exact (tracks.tasks state listed).single past a ha
  · exact tracks.counted
  · rintro before e after use rfl uses accepted
    obtain ⟨g₁, first, rest⟩ := Run.append_iff.mp run
    cases rest with
    | cons serves tail =>
      obtain ⟨state, active⟩ := Gateway.accepted_active serves accepted uses
      have own := (run_tracks first orderly.earlier).tasks state active.listed
      obtain ⟨grant, last, lease, expiry, principal, -⟩ := own.held (own.busy active.lease)
      obtain ⟨expires, expiry', inTime⟩ := active.unexpired
      refine ⟨state.key, grant, last, active.tenant, ?_, ?_, ?_⟩
      · exact Option.some_inj.mp (lease.symm.trans active.lease)
      · exact Option.some_inj.mp (principal.symm.trans active.holder)
      · rwa [← Option.some_inj.mp (expiry'.symm.trans expiry)]
  · rintro before e after mid tenant lease completion rfl first completes
    rw [List.append_cons] at run orderly
    obtain ⟨mid', first', rest⟩ := Run.append_iff.mp run
    rw [first'.unique serves_unique first] at rest
    obtain ⟨state, listed, done, owner, held, receipt, pending⟩ := run_completed first completes
    obtain ⟨kept, grown⟩ := completed_lasts first rest orderly listed done
    refine ⟨state, listed, owner, held, done, receipt, pending, kept, grown, ?_⟩
    rintro between e' later rfl accepted
    obtain ⟨now, tail, last⟩ := Run.append_iff.mp rest
    rw [← List.append_assoc] at orderly
    cases last with
    | cons serves _ =>
      have still := (completed_lasts first tail orderly.earlier listed done).1
      have here := run_tracks (Run.append_iff.mpr ⟨mid, first, tail⟩) orderly.earlier
      have quiet := here.completed_silent orderly.earlier still done serves accepted
      rwa [List.append_cons] 

end runs

namespace Gateway

def after (w : Services) (g : Gateway) (calls : List Call) : Gateway :=
  calls.foldl (fun g call => (g.serve w call).1) g

def events (w : Services) (g : Gateway) : List Call → List Event
  | [] => []
  | call :: calls => ⟨call, (g.serve w call).2⟩ :: (g.serve w call).1.events w calls

theorem run_events (w : Services) (g : Gateway) (calls : List Call) :
    Run (Serves w) g (g.events w calls) (g.after w calls) := by
  induction calls generalizing g with
  | nil => exact .nil g
  | cons call calls ih => exact .cons rfl (ih _)

theorem events_calls (w : Services) (g : Gateway) (calls : List Call) :
    (g.events w calls).map Event.call = calls := by
  induction calls generalizing g with
  | nil => rfl
  | cons call calls ih => rw [events, List.map_cons, ih]

end Gateway

namespace RunnerSample

def signed (payload : String) : SignedStatement :=
  ⟨⟨"north", "lab", payload, .utc 0⟩, ∅, ⟨"application/json", payload, []⟩⟩

def hashing : Services where
  document d := match d.spec with
    | .capability _ => "capability"
    | .executionPolicy _ => "policy"
    | .job spec => "job " ++ spec.leaseId
    | .receipt spec => "receipt " ++ spec.leaseId
    | .pendingProjection _ => "projection"
    | .other kind _ => kind
  schema _ := some "schema"
  digestBytes bytes := String.ofList (bytes.map fun byte => Char.ofNat byte.toNat)
  canonical s := s.spec.payload.toList.map fun c => c.toNat.toUInt8
  loads _ := none
  parsedKind _ := none
  subject _ := none
  sign job := .ok (signed (job.metadata.tenantId ++ " " ++ job.spec.leaseId))
  verify _ _ := .error (.crash .valueError)

def digest (c : Char) : Digest := "sha256:" ++ String.ofList (List.replicate 64 c)

def metadata (tenant object : Identifier) : Metadata := ⟨tenant, "lab", object, .utc 0⟩

def capability (tenant : Identifier) : CapabilityDocument :=
  ⟨metadata tenant "capability", ∅,
    { adapterPrincipalId := "adapter", verifierPrincipalId := "verifier"
      executionPolicyDigest := "policy", imageDigest := "image", materialDigests := []
      outputSchemaName := "action", outputSchemaDigest := "schema", returnCodeOutcomes := ∅
      outputSelector := none, rest := "" }⟩

def policy (tenant : Identifier) : ExecutionPolicy :=
  ⟨metadata tenant "policy", ∅,
    { allowedImageDigests := ["image"], timeoutSeconds := 10, stdoutLimit := 8, stderrLimit := 8
      maximumInputBytes := 64, maximumOutputBytes := 8, networkPolicy := .none
      filesystemPolicy := .none, rest := "" }⟩

def task (tenant : Identifier) : RunnerTask where
  tenantId := tenant
  workspaceId := "lab"
  jobId := "j"
  actionDigest := digest '1'
  generationDigest := digest '2'
  capability := capability tenant
  capabilityStatement := signed (tenant ++ " c")
  executionPolicy := policy tenant
  executionPolicyStatement := signed (tenant ++ " p")
  inputDigests := []
  leaseSeconds := 60

def runner (tenant principal : Identifier) : RunnerRegistration :=
  ⟨tenant, principal, principal, "", "", true⟩

def token (c : Char) (hex : lowerHex c = true) : LeaseToken where
  value := String.ofList (List.replicate 32 c)
  hex := by simp [hex]
  size := by simp

def first : LeaseToken := token 'a' (by decide)
def second : LeaseToken := token 'b' (by decide)
def third : LeaseToken := token 'c' (by decide)

def job (tenant principal : Identifier) (before : ℕ) (claimedAt : ℤ) (token : LeaseToken) :
    RunnerJob :=
  (({ RunnerTaskState.dispatched (task tenant) with attempt := before }).lease
    (runner tenant principal) claimedAt token).jobOf hashing claimedAt token

def receipt (tenant principal : Identifier) (attempt : ℕ) (token : LeaseToken) (at' : ℤ) :
    RunnerReceipt :=
  ⟨metadata tenant "receipt", ∅,
    { jobDigest := "job " ++ token.value, jobId := "j", attempt := attempt, leaseId := token.value
      runnerPrincipalId := principal, imageDigest := "image"
      materialDigests := [tenant ++ " c", tenant ++ " p"], stdoutDigest := "", stderrDigest := ""
      stdoutCapturedBytes := 0, stderrCapturedBytes := 0, stdoutDiscardedBytes := 0
      stderrDiscardedBytes := 0, returnCode := some 1, timeout := false, claimedOutcome := .failure
      cleanupComplete := true, isolationProfileDigest := none, outputDigests := []
      startedAt := .utc at', completedAt := .utc at' }⟩

def verified : List (String × VerifiedStatement) :=
  ["north", "south"].flatMap (fun tenant =>
    [(tenant ++ " c", ⟨(capability tenant).lift .capability, "adapter", "capability_authority"⟩),
     (tenant ++ " p",
       ⟨(policy tenant).lift .executionPolicy, "verifier", "execution_policy_authority"⟩)]) ++
  [("north " ++ first.value, ⟨(job "north" "r1" 0 0 first).lift .job, "gateway", "job_dispatcher"⟩),
   ("north " ++ second.value,
     ⟨(job "north" "r2" 1 60000001 second).lift .job, "gateway", "job_dispatcher"⟩),
   ("south " ++ third.value,
     ⟨(job "south" "r3" 0 60000006 third).lift .job, "gateway", "job_dispatcher"⟩),
   ("north receipt 1", ⟨(receipt "north" "r1" 1 first 1).lift .receipt, "r1", "runner_receipt"⟩),
   ("north receipt 2",
     ⟨(receipt "north" "r2" 2 second 60000003).lift .receipt, "r2", "runner_receipt"⟩),
   ("south receipt",
     ⟨(receipt "south" "r3" 1 third 60000007).lift .receipt, "r3", "runner_receipt"⟩)]

def services : Services :=
  { hashing with
    subject := fun s => (verified.lookup s.spec.payload).map VerifiedStatement.subject
    verify := fun s _ => demand .valueError (verified.lookup s.spec.payload) }

def store : ObjectStore := fun tenant digest =>
  if digest = tenant ++ " c" ∨ digest = tenant ++ " p" ∨ digest = "" then
    some (digest.toList.map fun c => c.toNat.toUInt8)
  else none

def gateway : Gateway := .initial [] store

/-- A lease runs out, a second runner claims the task, the first one's heartbeat comes late. -/
def calls : List Call :=
  [.dispatch (task "north") 0,
   .claim (runner "north" "r1") 0 first,
   .heartbeat (runner "north" "r1") first.value 1 1,
   .claim (runner "north" "r2") 60000001 second,
   .heartbeat (runner "north" "r1") first.value 2 60000002,
   .heartbeat (runner "north" "r2") second.value 1 60000002,
   .recordArtifact (runner "north" "r2") second.value "" 60000003,
   .complete (runner "north" "r2") second.value (signed "north receipt 2") [] 60000004,
   .complete (runner "north" "r2") second.value (signed "north receipt 2") [] 60000005]

def accepted (events : List Event) : List Bool := events.map fun e => e.response.toBool

theorem orderly : Orderly (gateway.events services calls) where
  clock := by decide +kernel
  fresh := by decide +kernel
  fields := by
    intro e member dispatched admittedAt made
    have listed : e.call ∈ calls := by
      rw [← Gateway.events_calls services gateway calls]
      exact List.mem_map_of_mem member
    rw [made] at listed
    simp only [calls, List.mem_cons, Call.dispatch.injEq, reduceCtorEq, List.not_mem_nil,
      or_false] at listed
    rw [listed.1]
    decide +kernel

end RunnerSample

theorem leases_safe_sample :
    RunnerSample.accepted (RunnerSample.gateway.events RunnerSample.services RunnerSample.calls) =
      [true, true, true, true, false, true, true, true, false] ∧
    LeaseSafety RunnerSample.services RunnerSample.gateway
      (RunnerSample.gateway.events RunnerSample.services RunnerSample.calls)
      (RunnerSample.gateway.after RunnerSample.services RunnerSample.calls) :=
  ⟨by decide +kernel, leases_safe _ _ _ _ _ (Gateway.run_events _ _ _) RunnerSample.orderly⟩

end CollectivePhaseControl
