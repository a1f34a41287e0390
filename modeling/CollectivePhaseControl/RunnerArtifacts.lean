import CollectivePhaseControl.RunnerClaims

/-! The artifacts of an attempt. Artifacts are recorded under a lease and kept with the task,
also when its lease has run out; where no task with artifacts is claimed again, what is kept is
what the current lease has recorded. -/
namespace CollectivePhaseControl
open Runs

/-- The tenant, the lease and the digest of an artifact that was recorded. -/
def Event.recorded : Event → Option (Identifier × String × Digest)
  | ⟨.recordArtifact registration leaseId digest _, .ok _⟩ =>
    some (registration.tenantId, leaseId, digest)
  | _ => none

def Recorded (events : List Event) (tenant : Identifier) (lease : String) (digest : Digest) :
    Prop :=
  (tenant, lease, digest) ∈ events.filterMap Event.recorded

def artifactsUnder (events : List Event) (tenant : Identifier) (lease : String) : Finset Digest :=
  (((events.filterMap Event.recorded).filter fun entry =>
    entry.1 == tenant && entry.2.1 == lease).map fun entry => entry.2.2).toFinset

theorem mem_artifactsUnder {events : List Event} {tenant : Identifier} {lease : String}
    {digest : Digest} :
    digest ∈ artifactsUnder events tenant lease ↔ Recorded events tenant lease digest := by
  rw [artifactsUnder, List.mem_toFinset, List.mem_map, Recorded]
  constructor
  · rintro ⟨⟨owner, held, other⟩, member, rfl⟩
    rw [List.mem_filter, Bool.and_eq_true, beq_iff_eq, beq_iff_eq] at member
    obtain ⟨listed, rfl, rfl⟩ := member
    exact listed
  · intro listed
    exact ⟨_, List.mem_filter.mpr ⟨listed, by simp⟩, rfl⟩

def drawn (events : List Event) : List String := events.filterMap fun e => e.call.token

namespace Gateway

/-- A claim that does not fail to sign picks a task without artifacts. -/
def PicksBare (w : Services) (g : Gateway) : Call → Prop
  | .claim registration claimedAt token => ∀ state, g.Foremost registration claimedAt state →
      state.attempt < 32 →
      let job := (state.lease registration claimedAt token).jobOf w claimedAt token
      (job.spec.Valid → ∃ statement, signJob w job claimedAt = .ok statement) →
        state.artifactDigests = ∅
  | _ => True

/-- A call that a gateway answers, at which claims pick tasks without artifacts. -/
def ServesBare (w : Services) (g : Gateway) (e : Event) (next : Gateway) : Prop :=
  Serves w g e next ∧ g.PicksBare w e.call

structure Isolated (events : List Event) (g : Gateway) : Prop where
  keys : (g.tasks.map RunnerTaskState.key).Nodup
  known : ∀ state ∈ g.tasks, ∀ lease, state.leaseId = some lease → lease ∈ drawn events
  apart : ∀ state ∈ g.tasks, ∀ other ∈ g.tasks, ∀ lease, state.leaseId = some lease →
    other.leaseId = some lease → other.key = state.key
  own : ∀ state ∈ g.tasks, ∀ lease, state.leaseId = some lease → ∀ digest,
    digest ∈ state.artifactDigests ↔ Recorded events state.task.tenantId lease digest
  silent : ∀ tenant lease digest, Recorded events tenant lease digest → lease ∈ drawn events

section steps
variable {w : Services} {g g' : Gateway} {events : List Event} {e : Event}
  {state next : RunnerTaskState}

theorem drawn_snoc : drawn (events ++ [e]) = drawn events ++ e.call.token.toList := by
  rw [drawn, List.filterMap_append, drawn]
  cases found : e.call.token <;> simp [found]

theorem recorded_snoc {tenant : Identifier} {lease : String} {digest : Digest} :
    Recorded (events ++ [e]) tenant lease digest ↔
      Recorded events tenant lease digest ∨ e.recorded = some (tenant, lease, digest) := by
  rw [Recorded, List.filterMap_append, List.mem_append, Recorded]
  refine or_congr_right ?_
  cases found : e.recorded with
  | none => simp [found]
  | some entry => simp [found, eq_comm]

theorem recorded_quiet {tenant : Identifier} {lease : String} {digest : Digest}
    (quiet : e.recorded = none) :
    Recorded (events ++ [e]) tenant lease digest ↔ Recorded events tenant lease digest := by
  rw [recorded_snoc, quiet]
  simp

theorem Isolated.quiet (isolated : Isolated events g) (quiet : e.recorded = none)
    (keys : (g'.tasks.map RunnerTaskState.key).Nodup)
    (old : ∀ state ∈ g'.tasks, ∀ lease, state.leaseId = some lease → ∃ before ∈ g.tasks,
      before.key = state.key ∧ before.leaseId = some lease ∧
        before.artifactDigests = state.artifactDigests) : Isolated (events ++ [e]) g' where
  keys := keys
  known := by
    intro state listed lease held
    obtain ⟨before, there, -, same, -⟩ := old state listed lease held
    rw [drawn_snoc]
    exact List.mem_append_left _ (isolated.known before there lease same)
  apart := by
    intro state listed other listed' lease held held'
    obtain ⟨before, there, key, same, -⟩ := old state listed lease held
    obtain ⟨before', there', key', same', -⟩ := old other listed' lease held'
    rw [← key, ← key']
    exact isolated.apart before there before' there' lease same same'
  own := by
    intro state listed lease held digest
    obtain ⟨before, there, key, same, artifacts⟩ := old state listed lease held
    have tenant : before.task.tenantId = state.task.tenantId := congrArg Prod.fst key
    rw [recorded_quiet quiet, ← artifacts, ← tenant]
    exact isolated.own before there lease same digest
  silent := by
    intro tenant lease digest recorded
    rw [drawn_snoc]
    exact List.mem_append_left _ (isolated.silent _ _ _ ((recorded_quiet quiet).mp recorded))

theorem Isolated.leased (isolated : Isolated events g) (quiet : e.recorded = none)
    {token : String} (draws : e.call.token = some token) (fresh : token ∉ drawn events)
    (lease : next.leaseId = some token)
    (bare : next.artifactDigests = ∅) : Isolated (events ++ [e]) (g.setTask next) := by
  have cases_of : ∀ s ∈ (g.setTask next).tasks, s = next ∨ s ∈ g.tasks ∧ s.key ≠ next.key := by
    exact forall_setTask (.inl rfl) fun s member other => .inr ⟨member, other⟩
  have unused : ∀ s ∈ g.tasks, s.leaseId ≠ some token := fun s member held =>
    fresh (isolated.known s member token held)
  constructor
  · rw [setTask_keys]
    exact isolated.keys
  · intro s member held same
    rw [drawn_snoc, draws, List.mem_append, Option.toList_some, List.mem_singleton]
    rcases cases_of s member with rfl | ⟨old, -⟩
    · exact .inr (Option.some.inj (same.symm.trans lease))
    · exact .inl (isolated.known s old held same)
  · intro s member t member' held same same'
    rcases cases_of s member with rfl | ⟨old, -⟩
    · rcases cases_of t member' with rfl | ⟨old', -⟩
      · rfl
      · obtain rfl := Option.some.inj (same.symm.trans lease)
        exact absurd same' (unused t old')
    · rcases cases_of t member' with rfl | ⟨old', -⟩
      · obtain rfl := Option.some.inj (same'.symm.trans lease)
        exact absurd same (unused s old)
      · exact isolated.apart s old t old' held same same'
  · intro s member held same digest
    rw [recorded_quiet quiet]
    rcases cases_of s member with rfl | ⟨old, -⟩
    · obtain rfl := Option.some.inj (same.symm.trans lease)
      rw [bare]
      exact iff_of_false (Finset.notMem_empty digest) fun recorded =>
        fresh (isolated.silent _ _ _ recorded)
    · exact isolated.own s old held same digest
  · intro tenant held digest recorded
    rw [drawn_snoc]
    exact List.mem_append_left _ (isolated.silent _ _ _ ((recorded_quiet quiet).mp recorded))

theorem Isolated.records (isolated : Isolated events g) {registration : RunnerRegistration}
    {leaseId : String} {digest : Digest} {receivedAt : ℤ} {response : Response}
    (active : g.Active ⟨registration, leaseId, receivedAt⟩ state) :
    Isolated (events ++ [⟨.recordArtifact registration leaseId digest receivedAt, .ok response⟩])
      (g.setTask { state with artifactDigests := insert digest state.artifactDigests }) := by
  have cases_of : ∀ s ∈ (g.setTask { state with
      artifactDigests := insert digest state.artifactDigests }).tasks,
      s = { state with artifactDigests := insert digest state.artifactDigests } ∨
        s ∈ g.tasks ∧ s.key ≠ state.key :=
    forall_setTask (.inl rfl) fun s member other => .inr ⟨member, other⟩
  have before : ∀ s ∈ (g.setTask { state with
      artifactDigests := insert digest state.artifactDigests }).tasks,
      ∃ t ∈ g.tasks, t.key = s.key ∧ t.leaseId = s.leaseId := by
    intro s member
    rcases cases_of s member with rfl | ⟨old, -⟩
    · exact ⟨state, active.listed, rfl, rfl⟩
    · exact ⟨s, old, rfl, rfl⟩
  constructor
  · rw [setTask_keys]
    exact isolated.keys
  · intro s member held same
    obtain ⟨t, listed, -, lease⟩ := before s member
    rw [drawn_snoc]
    exact List.mem_append_left _ (isolated.known t listed held (lease.trans same))
  · intro s member t member' held same same'
    obtain ⟨s', listed, key, lease⟩ := before s member
    obtain ⟨t', listed', key', lease'⟩ := before t member'
    rw [← key, ← key']
    exact isolated.apart s' listed t' listed' held (lease.trans same) (lease'.trans same')
  · intro s member held same other
    rw [recorded_snoc]
    rcases cases_of s member with rfl | ⟨old, away⟩
    · obtain rfl := Option.some.inj (same.symm.trans active.lease)
      have own := isolated.own state active.listed held active.lease other
      rw [Finset.mem_insert, own, or_comm]
      refine or_congr_right ?_
      rw [Event.recorded, active.tenant]
      simp [eq_comm]
    · have quiet : (⟨.recordArtifact registration leaseId digest receivedAt, .ok response⟩ :
          Event).recorded ≠ some (s.task.tenantId, held, other) := by
        intro made
        obtain ⟨-, lease, -⟩ : registration.tenantId = s.task.tenantId ∧ leaseId = held ∧
            digest = other := by simpa [Event.recorded] using made
        exact away (isolated.apart state active.listed s old held
          (lease ▸ active.lease) same)
      rw [isolated.own s old held same, or_iff_left quiet]
  · intro tenant held other recorded
    rw [drawn_snoc]
    refine List.mem_append_left _ ?_
    rcases recorded_snoc.mp recorded with old | new
    · exact isolated.silent _ _ _ old
    · obtain ⟨-, rfl, -⟩ : registration.tenantId = tenant ∧ leaseId = held ∧ digest = other := by
        simpa [Event.recorded] using new
      exact isolated.known state active.listed leaseId active.lease

theorem Effect.untouched (effect : Effect w g e g')
    (claims : ∀ registration claimedAt token, e.call ≠ .claim registration claimedAt token)
    (records : e.recorded = none) : ∀ state ∈ g'.tasks, ∀ lease, state.leaseId = some lease →
      ∃ before ∈ g.tasks, before.key = state.key ∧ before.leaseId = some lease ∧
        before.artifactDigests = state.artifactDigests := by
  cases effect with
  | kept tasks =>
    intro s member lease held
    exact ⟨s, tasks ▸ member, rfl, held, rfl⟩
  | dispatched task admittedAt response init fresh =>
    intro s member lease held
    rcases List.mem_append.mp member with old | new
    · exact ⟨s, old, rfl, held, rfl⟩
    · rw [List.mem_singleton.mp new] at held
      cases held
  | claimed registration claimedAt token => exact absurd rfl (claims registration claimedAt token)
  | released registration claimedAt token => exact absurd rfl (claims registration claimedAt token)
  | stuck registration claimedAt token => exact absurd rfl (claims registration claimedAt token)
  | recorded => cases records
  | beaten _ _ _ s active =>
    exact forall_setTask (fun lease held => ⟨s, active.listed, rfl, held, rfl⟩)
      fun other member _ lease held => ⟨other, member, rfl, held, rfl⟩
  | completed _ _ _ _ _ s active =>
    exact forall_setTask (fun lease held => ⟨s, active.listed, rfl, held, rfl⟩)
      fun other member _ lease held => ⟨other, member, rfl, held, rfl⟩

theorem Isolated.claims (isolated : Isolated events g) {registration : RunnerRegistration}
    {claimedAt : ℤ} {token : LeaseToken}
    (bare : g.PicksBare w (.claim registration claimedAt token))
    (fresh : token.value ∉ drawn events) (response : Checked Response) :
    Isolated (events ++ [⟨.claim registration claimedAt token, response⟩])
      (g.claim w registration claimedAt token).1 := by
  have unchanged : Isolated (events ++ [⟨.claim registration claimedAt token, response⟩]) g :=
    isolated.quiet rfl isolated.keys fun s member lease held => ⟨s, member, rfl, held, rfl⟩
  cases found : (g.candidates registration claimedAt).argmin (fun s => s.task.jobId) with
  | none =>
    rw [claim_idle found]
    exact unchanged
  | some first =>
    have foremost := foremost_of_argmin found
    by_cases left : first.attempt < 32
    · rcases claim_of_argmin w token found left with
        ⟨invalid, made⟩ | ⟨valid, fault, signing, made⟩ | ⟨valid, statement, signing, made⟩
      · rw [made]
        exact isolated.leased rfl rfl fresh rfl
          (bare first foremost left fun valid => absurd valid invalid)
      · rw [made]
        have keys : ((g.setTask (first.lease registration claimedAt token).release).tasks.map
            RunnerTaskState.key).Nodup := by
          rw [setTask_keys]
          exact isolated.keys
        refine isolated.quiet rfl keys (forall_setTask (fun lease held => ?_)
          fun other member _ lease held => ⟨other, member, rfl, held, rfl⟩)
        cases held
      · rw [made]
        exact isolated.leased rfl rfl fresh rfl
          (bare first foremost left fun _ => ⟨statement, signing⟩)
    · rw [claim_exhausted found (by omega)]
      exact unchanged

theorem Isolated.step (isolated : Isolated events g) (serves : ServesBare w g e g')
    (fresh : (drawn (events ++ [e])).Nodup) : Isolated (events ++ [e]) g' := by
  obtain ⟨served, bare⟩ := serves
  have effect := serves_effect served
  by_cases claims : ∃ registration claimedAt token, e.call = .claim registration claimedAt token
  · obtain ⟨registration, claimedAt, token, called⟩ := claims
    obtain ⟨call, response⟩ := e
    obtain rfl : call = .claim registration claimedAt token := called
    have reached : (g.claim w registration claimedAt token).1 = g' := congrArg Prod.fst served
    rw [← reached]
    refine isolated.claims bare (fun member => ?_) response
    rw [drawn_snoc, List.nodup_append] at fresh
    exact fresh.2.2 _ member _ (List.mem_singleton_self token.value) rfl
  · push Not at claims
    cases recorded : e.recorded with
    | none =>
      exact isolated.quiet recorded (effect.keys isolated.keys) (effect.untouched claims recorded)
    | some entry =>
      unfold Event.recorded at recorded
      split at recorded
      · rename_i registration leaseId digest receivedAt response
        cases made : g.recordArtifact registration leaseId digest receivedAt with
        | ok next =>
          obtain ⟨state, active, rfl⟩ := recordArtifact_ok made
          simp only [Serves, serve, made, commit, Functor.map, Except.map, Prod.mk.injEq] at served
          rw [← served.1]
          exact isolated.records active
        | error fault =>
          simp only [Serves, serve, made, commit, Functor.map, Except.map, Prod.mk.injEq,
            reduceCtorEq, and_false] at served
      · cases recorded

end steps

structure AttemptIsolation (w : Services) (events : List Event) (g : Gateway) : Prop where
  /-- The artifacts of a task are those recorded under its lease. -/
  counted : ∀ registration leaseId instant state,
    g.activeState registration leaseId instant = .ok state →
      state.artifactDigests = artifactsUnder events registration.tenantId leaseId
  /-- They alone reduce what may still be uploaded. -/
  remaining : ∀ registration leaseId instant bytes,
    g.remainingArtifactBytes registration leaseId instant = .ok bytes →
      ∃ state, g.activeState registration leaseId instant = .ok state ∧
        if 10002 ≤ (artifactsUnder events registration.tenantId leaseId).card then bytes = 0
        else ∃ consumed, g.store.totalBytes registration.tenantId
            (artifactsUnder events registration.tenantId leaseId) = .ok consumed ∧
          bytes = state.task.executionPolicy.spec.maximumOutputBytes - consumed
  /-- They and the new one stay within the output limit. -/
  admitted : ∀ registration leaseId digest instant next,
    g.recordArtifact registration leaseId digest instant = .ok next →
      ∃ state, g.activeState registration leaseId instant = .ok state ∧
        ∃ size, g.store.totalBytes registration.tenantId
            (insert digest (artifactsUnder events registration.tenantId leaseId)) = .ok size ∧
          size ≤ state.task.executionPolicy.spec.maximumOutputBytes
  /-- A receipt's digests are among them and the task's materials. -/
  referenced : ∀ registration leaseId statement projections instant next completion,
    g.complete w registration leaseId statement projections instant = .ok (next, completion) →
      ∃ state receipt job, g.activeState registration leaseId instant = .ok state ∧
        verifiedReceipt w registration statement instant = .ok receipt ∧ state.job = some job ∧
        job.materials state.task.capability ∪ receipt.spec.artifacts ⊆
          artifactsUnder events registration.tenantId leaseId ∪ state.task.materials w

section runs
variable {w : Services} {g : Gateway} {events : List Event}

theorem run_isolated {registrations : List RunnerRegistration} {store : ObjectStore}
    (run : Run (ServesBare w) (.initial registrations store) events g)
    (fresh : (drawn events).Nodup) : Isolated events g := by
  induction events using List.reverseRecOn generalizing g with
  | nil =>
    cases run
    refine ⟨List.nodup_nil, ?_, ?_, ?_, ?_⟩
    · intro state member
      cases member
    · intro state member
      cases member
    · intro state member
      cases member
    · intro tenant lease digest recorded
      cases recorded
  | append_singleton events e ih =>
    obtain ⟨mid, first, serves⟩ := Run.snoc_iff.mp run
    have earlier : (drawn events).Nodup := by
      rw [drawn_snoc] at fresh
      exact fresh.of_append_left
    exact (ih first earlier).step serves fresh

theorem Isolated.counted (isolated : Isolated events g) {use : LeaseUse} {state : RunnerTaskState}
    (active : g.Active use state) :
    state.artifactDigests = artifactsUnder events use.registration.tenantId use.leaseId := by
  ext digest
  rw [mem_artifactsUnder, ← active.tenant]
  exact isolated.own state active.listed use.leaseId active.lease digest

theorem receiptBindings_present {job : RunnerJob} {receipt : RunnerReceiptSpec}
    {capability : CapabilityDocument} {policy : ExecutionPolicy} {expected : Identifier}
    {available : Finset Digest} {lengths : Digest → Option ℕ}
    (clean : receiptBindings w job receipt capability policy expected available lengths = []) :
    job.materials capability ∪ receipt.artifacts ⊆ available := by
  unfold receiptBindings at clean
  -- Thirteen more checks follow the one for missing digests.
  iterate 13 replace clean := (List.append_eq_nil_iff.mp clean).1
  by_contra missing
  have present := (List.append_eq_nil_iff.mp clean).2
  rw [reasonIf, if_pos missing] at present
  cases present

theorem complete_artifacts {registration : RunnerRegistration} {leaseId : String}
    {statement : SignedStatement} {projections : List SignedStatement} {receivedAt : ℤ}
    {result : Gateway × RunnerCompletion}
    (h : g.complete w registration leaseId statement projections receivedAt = .ok result) :
    ∃ state receipt job, g.activeState registration leaseId receivedAt = .ok state ∧
      verifiedReceipt w registration statement receivedAt = .ok receipt ∧ state.job = some job ∧
      job.materials state.task.capability ∪ receipt.spec.artifacts ⊆
        state.artifactDigests ∪ state.task.materials w := by
  simp only [complete, bind_ok, require_ok] at h
  obtain ⟨state, active, job, bound, receipt, verified, _, _, _, _, conformance, valid, _, accepted,
    -⟩ := h
  refine ⟨state, receipt, job, active, verified, ?_, ?_⟩
  · unfold boundJob at bound
    split at bound
    · rename_i found same
      injection bound with bound
      rw [same, bound]
    · cases bound
  · simp only [validateReceipt, bind_ok, pure_ok] at valid
    obtain ⟨_, -, _, -, rfl⟩ := valid
    simp only [List.isEmpty_iff, List.append_eq_nil_iff] at accepted
    exact receiptBindings_present accepted.1.1.1.1.1

/-- In every run whose claims pick tasks without artifacts, an attempt counts and references
what was recorded under its lease. -/
theorem attempts_isolated (w : Services) (registrations : List RunnerRegistration)
    (store : ObjectStore) (events : List Event) (g : Gateway)
    (run : Run (ServesBare w) (.initial registrations store) events g)
    (fresh : (drawn events).Nodup) : AttemptIsolation w events g := by
  have isolated := run_isolated run fresh
  have counted : ∀ registration leaseId instant state,
      g.activeState registration leaseId instant = .ok state →
        state.artifactDigests = artifactsUnder events registration.tenantId leaseId :=
    fun _ _ _ _ active => isolated.counted (activeState_ok active)
  constructor
  · exact counted
  · intro registration leaseId instant bytes answered
    simp only [remainingArtifactBytes, bind_ok] at answered
    obtain ⟨state, active, rest⟩ := answered
    rw [counted _ _ _ _ active] at rest
    refine ⟨state, active, ?_⟩
    split at rest
    · rw [if_pos ‹_›]
      exact (pure_ok.mp rest).symm
    · rw [if_neg ‹_›]
      obtain ⟨consumed, total, rest⟩ := bind_ok.mp rest
      exact ⟨consumed, total, (pure_ok.mp rest).symm⟩
  · intro registration leaseId digest instant next recorded
    simp only [recordArtifact, bind_ok, require_ok] at recorded
    obtain ⟨state, active, -, -, size, total, -, bound, -⟩ := recorded
    rw [counted _ _ _ _ active] at total
    exact ⟨state, active, size, total, bound⟩
  · intro registration leaseId statement projections instant next completion completed
    obtain ⟨state, receipt, job, active, verified, bound, within⟩ := complete_artifacts completed
    rw [counted _ _ _ _ active] at within
    exact ⟨state, receipt, job, active, verified, bound, within⟩

end runs

end Gateway

namespace RunnerSample

def claimBare (g : Gateway) : Call → Bool
  | .claim registration claimedAt _ =>
    (g.candidates registration claimedAt).all fun state => state.artifactDigests = ∅
  | _ => true

def claimsBare (w : Services) : Gateway → List Call → Bool
  | _, [] => true
  | g, call :: calls => claimBare g call && claimsBare w (g.serve w call).1 calls

theorem run_bare {w : Services} {g : Gateway} {calls : List Call}
    (bare : claimsBare w g calls = true) :
    Run (Gateway.ServesBare w) g (g.events w calls) (g.after w calls) := by
  induction calls generalizing g with
  | nil => exact .nil g
  | cons call calls ih =>
    obtain ⟨here, later⟩ := Bool.and_eq_true_iff.mp bare
    refine .cons ⟨rfl, ?_⟩ (ih later)
    cases call with
    | claim registration claimedAt token =>
      intro state foremost _ _ _
      exact of_decide_eq_true (List.all_eq_true.mp here state foremost.candidate)
    | dispatch | authenticate | put | heartbeat | recordArtifact | remainingArtifactBytes
    | complete => trivial

def handedOn : List Call :=
  [.dispatch (task "north") 0,
   .claim (runner "north" "r1") 0 first,
   .recordArtifact (runner "north" "r1") first.value "north c" 1,
   .claim (runner "north" "r2") 60000001 second]

end RunnerSample

namespace Gateway
open RunnerSample

theorem attempts_isolated_sample : AttemptIsolation services (gateway.events services calls)
    (gateway.after services calls) :=
  attempts_isolated services [] RunnerSample.store _ _ (run_bare (by decide +kernel))
    (by decide +kernel)

/-- The second attempt counts what the first one recorded. -/
theorem attempts_mix : ¬ ∀ (w : Services) (registrations : List RunnerRegistration)
    (store : ObjectStore) (events : List Event) (g : Gateway),
    Run (Serves w) (.initial registrations store) events g → (drawn events).Nodup →
      AttemptIsolation w events g := by
  intro claim
  have isolation := claim services [] RunnerSample.store _ _ (run_events services gateway handedOn)
    (by decide +kernel)
  have active : (((gateway.after services handedOn).activeState (runner "north" "r2") second.value
      60000002).toOption.map RunnerTaskState.artifactDigests) = some {"north c"} := by
    decide +kernel
  have recorded : artifactsUnder (gateway.events services handedOn) "north" second.value = ∅ := by
    decide +kernel
  cases found : (gateway.after services handedOn).activeState (runner "north" "r2") second.value
      60000002 with
  | error fault =>
    rw [found] at active
    cases active
  | ok state =>
    rw [found] at active
    have counted : state.artifactDigests = ∅ := (isolation.counted _ _ _ state found).trans recorded
    have kept : state.artifactDigests = {"north c"} := Option.some.inj active
    exact Finset.singleton_ne_empty _ (kept.symm.trans counted)

end Gateway

end CollectivePhaseControl
