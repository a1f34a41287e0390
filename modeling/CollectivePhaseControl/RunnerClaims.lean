import CollectivePhaseControl.RunnerLeases

/-! What a claim does with the task it picks. The smallest job id of the tenant's waiting and
expired tasks decides, also where its attempts are used up or its fields make no job; a claim
that fails may leave that task changed. -/
namespace CollectivePhaseControl
open Runs

namespace RunnerTaskState

/-- As a task that waits for its first claim, apart from attempts, artifacts and jobs. -/
structure Blank (state : RunnerTaskState) : Prop where
  status : state.status = .queued
  lease : state.leaseId = none
  expiry : state.leaseExpiresAt = none
  sequence : state.heartbeatSequence = 0
  principal : state.runnerPrincipalId = none

variable {state : RunnerTaskState} {registration : RunnerRegistration} {claimedAt : ℤ}
  {token : LeaseToken}

theorem release_lease_eq_iff :
    (state.lease registration claimedAt token).release = state ↔ state.Blank := by
  constructor
  · intro same
    rw [← same]
    exact ⟨rfl, rfl, rfl, rfl, rfl⟩
  · intro blank
    obtain ⟨task, status, attempt, lease, expiry, sequence, principal⟩ := state
    obtain ⟨rfl, rfl, rfl, rfl, rfl⟩ := blank
    rfl

theorem lease_ne : state.lease registration claimedAt token ≠ state := by
  intro same
  have attempts : state.attempt + 1 = state.attempt := congrArg RunnerTaskState.attempt same
  omega

end RunnerTaskState

namespace Gateway

structure Foremost (g : Gateway) (registration : RunnerRegistration) (claimedAt : ℤ)
    (state : RunnerTaskState) : Prop where
  candidate : state ∈ g.candidates registration claimedAt
  least : ∀ other ∈ g.candidates registration claimedAt, state.task.jobId ≤ other.task.jobId

section picks
variable {w : Services} {g : Gateway} {registration : RunnerRegistration} {claimedAt : ℤ}
  {token : LeaseToken} {state : RunnerTaskState}

theorem mem_candidates : state ∈ g.candidates registration claimedAt ↔
    state ∈ g.tasks ∧ state.task.tenantId = registration.tenantId ∧
      state.claimable claimedAt = true := by
  rw [candidates, List.mem_filter, Bool.and_eq_true, beq_iff_eq]

theorem foremost_of_argmin
    (found : (g.candidates registration claimedAt).argmin (fun s => s.task.jobId) = some state) :
    g.Foremost registration claimedAt state :=
  ⟨List.argmin_mem found, fun _ member =>
    List.le_of_mem_argmin (f := fun s : RunnerTaskState => s.task.jobId) member found⟩

theorem Foremost.unique (keys : (g.tasks.map RunnerTaskState.key).Nodup) {other : RunnerTaskState}
    (first : g.Foremost registration claimedAt state)
    (second : g.Foremost registration claimedAt other) : other = state := by
  obtain ⟨listed, owner, -⟩ := mem_candidates.mp first.candidate
  obtain ⟨listed', owner', -⟩ := mem_candidates.mp second.candidate
  refine key_inj keys listed' listed (Prod.ext (owner'.trans owner.symm) ?_)
  exact le_antisymm (second.least _ first.candidate) (first.least _ second.candidate)

theorem exists_foremost (candidate : state ∈ g.candidates registration claimedAt) :
    ∃ first, (g.candidates registration claimedAt).argmin (fun s => s.task.jobId) =
      some first := by
  cases found : (g.candidates registration claimedAt).argmin (fun s => s.task.jobId) with
  | none =>
    rw [List.argmin_eq_none.mp found] at candidate
    cases candidate
  | some first => exact ⟨first, rfl⟩

variable (w token) in
theorem claim_of_argmin
    (found : (g.candidates registration claimedAt).argmin (fun s => s.task.jobId) = some state)
    (left : state.attempt < 32) :
    let leased := state.lease registration claimedAt token
    let job := leased.jobOf w claimedAt token
    (¬ job.spec.Valid ∧ g.claim w registration claimedAt token =
      (g.setTask leased, .error (.crash .validationError))) ∨
    (job.spec.Valid ∧ ∃ fault, signJob w job claimedAt = .error fault ∧
      g.claim w registration claimedAt token =
        (g.setTask leased.release, .error (signatureFault fault))) ∨
    (job.spec.Valid ∧ ∃ statement, signJob w job claimedAt = .ok statement ∧
      g.claim w registration claimedAt token =
        (g.setTask { leased with job := some job, jobStatement := some statement },
          .ok ⟨job, statement⟩)) := by
  intro leased job
  unfold claim
  rw [found]
  dsimp only
  rw [if_neg (by omega)]
  by_cases valid : job.spec.Valid
  · rw [if_pos valid]
    cases signing : signJob w job claimedAt with
    | ok statement => exact .inr (.inr ⟨valid, statement, rfl, rfl⟩)
    | error fault => exact .inr (.inl ⟨valid, fault, rfl, rfl⟩)
  · rw [if_neg valid]
    exact .inl ⟨valid, rfl⟩

theorem claim_exhausted
    (found : (g.candidates registration claimedAt).argmin (fun s => s.task.jobId) = some state)
    (used : 32 ≤ state.attempt) :
    g.claim w registration claimedAt token =
      (g, .error (.coded "runner_attempt_limit_exhausted")) := by
  unfold claim
  rw [found]
  dsimp only
  rw [if_pos used]

theorem claim_idle
    (none : (g.candidates registration claimedAt).argmin (fun s => s.task.jobId) = none) :
    g.claim w registration claimedAt token =
      (g, .error (.coded "runner_job_not_available")) := by
  unfold claim
  rw [none]

end picks

/-- If a task is waiting or expired with attempts left, a claim leases such a task. -/
def Progresses (w : Services) (g : Gateway) (registration : RunnerRegistration) (claimedAt : ℤ)
    (token : LeaseToken) : Prop :=
  (∃ state ∈ g.candidates registration claimedAt, state.attempt < 32) →
    ∃ state ∈ g.candidates registration claimedAt, state.attempt < 32 ∧ ∃ claim : RunnerClaim,
      g.claim w registration claimedAt token =
        (g.setTask { state.lease registration claimedAt token with
          job := some claim.job, jobStatement := some claim.jobStatement }, .ok claim)

/-- The foremost candidate has attempts left and makes a job, unless none has. -/
def Unblocked (g : Gateway) (registration : RunnerRegistration) (claimedAt : ℤ) : Prop :=
  (∃ state ∈ g.candidates registration claimedAt, state.attempt < 32) →
    ∀ state, g.Foremost registration claimedAt state →
      state.attempt < 32 ∧ state.task.JobFields

def Signs (w : Services) (g : Gateway) (registration : RunnerRegistration) (claimedAt : ℤ)
    (token : LeaseToken) : Prop :=
  ∀ state ∈ g.candidates registration claimedAt, state.attempt < 32 → state.task.JobFields →
    ∃ statement, signJob w ((state.lease registration claimedAt token).jobOf w claimedAt token)
      claimedAt = .ok statement

section invariants
variable {w : Services} {g g' : Gateway} {e : Event}

theorem Effect.keeps_task {P : RunnerTask → Prop}
    (made : ∀ task, task.postInit w = .ok () → P task)
    (effect : Effect w g e g') (all : ∀ state ∈ g.tasks, P state.task) :
    ∀ state ∈ g'.tasks, P state.task := by
  have rewritten : ∀ s next : RunnerTaskState, s ∈ g.tasks → next.task = s.task →
      ∀ state ∈ (g.setTask next).tasks, P state.task := by
    intro s next listed same
    exact forall_setTask (same ▸ all s listed) fun other member _ => all other member
  cases effect with
  | kept tasks =>
    rw [tasks]
    exact all
  | dispatched task admittedAt response init fresh =>
    intro state member
    rcases List.mem_append.mp member with old | new
    · exact all state old
    · rw [List.mem_singleton.mp new]
      exact made task init
  | claimed _ _ _ s picked => exact rewritten s _ picked.listed rfl
  | released _ _ _ s picked => exact rewritten s _ picked.listed rfl
  | stuck _ _ _ s picked => exact rewritten s _ picked.listed rfl
  | beaten _ _ _ s active => exact rewritten s _ active.listed rfl
  | recorded _ _ _ _ s active => exact rewritten s _ active.listed rfl
  | completed _ _ _ _ _ s active => exact rewritten s _ active.listed rfl

theorem run_keeps {I : Gateway → Prop} {start : Gateway} {events : List Event}
    (step : ∀ g e g', Effect w g e g' → I g → I g') (initially : I start)
    (run : Run (Serves w) start events g) : I g := by
  induction run with
  | nil => exact initially
  | cons head _ ih => exact ih (step _ _ _ (serves_effect head) initially)

theorem run_keys {registrations : List RunnerRegistration} {store : ObjectStore}
    {events : List Event} (run : Run (Serves w) (.initial registrations store) events g) :
    (g.tasks.map RunnerTaskState.key).Nodup := by
  refine run_keeps (I := fun g => (g.tasks.map RunnerTaskState.key).Nodup) ?_ ?_ run
  · exact fun _ _ _ effect keys => effect.keys keys
  · exact List.nodup_nil

theorem run_inputs {registrations : List RunnerRegistration} {store : ObjectStore}
    {events : List Event} (run : Run (Serves w) (.initial registrations store) events g) :
    ∀ state ∈ g.tasks, state.task.inputDigests.Nodup := by
  refine run_keeps (I := fun g => ∀ state ∈ g.tasks, state.task.inputDigests.Nodup) ?_ ?_ run
  · exact fun _ _ _ effect all =>
      effect.keeps_task (P := fun task => task.inputDigests.Nodup) (fun _ => postInit_unique) all
  · intro state member
    cases member

end invariants

/-- In every reachable state, claims make progress exactly where the foremost of the waiting
and expired tasks is not stuck. -/
theorem claim_progresses_iff (w : Services) (registrations : List RunnerRegistration)
    (store : ObjectStore) (events : List Event) (g : Gateway)
    (run : Run (Serves w) (.initial registrations store) events g)
    (registration : RunnerRegistration) (claimedAt : ℤ) (token : LeaseToken)
    (signs : g.Signs w registration claimedAt token) :
    g.Progresses w registration claimedAt token ↔ g.Unblocked registration claimedAt := by
  have keys := run_keys run
  have valid_iff : ∀ state ∈ g.candidates registration claimedAt, state.attempt < 32 →
      (((state.lease registration claimedAt token).jobOf w claimedAt token).spec.Valid ↔
        state.task.JobFields) := by
    intro state candidate left
    have unique := run_inputs run state (mem_candidates.mp candidate).1
    constructor
    · rintro ⟨id, action, generation, -, -, inputs, size, -⟩
      exact ⟨id, action, generation, inputs, size⟩
    · exact fun fields => jobOf_valid ⟨fields, unique⟩ left
  constructor
  · intro progresses waiting state foremost
    obtain ⟨picked, -, -, claim, made⟩ := progresses waiting
    obtain ⟨first, found⟩ := exists_foremost foremost.candidate
    obtain rfl := foremost.unique keys (foremost_of_argmin found)
    by_cases left : first.attempt < 32
    · refine ⟨left, ?_⟩
      rcases claim_of_argmin w token found left with
        ⟨-, failed⟩ | ⟨-, _, -, failed⟩ | ⟨valid, -⟩
      · rw [failed] at made
        cases (Prod.mk.inj made).2
      · rw [failed] at made
        cases (Prod.mk.inj made).2
      · exact (valid_iff first foremost.candidate left).mp valid
    · rw [claim_exhausted found (by omega)] at made
      cases (Prod.mk.inj made).2
  · intro unblocked waiting
    obtain ⟨state, candidate, left⟩ := waiting
    obtain ⟨first, found⟩ := exists_foremost candidate
    have foremost := foremost_of_argmin found
    obtain ⟨left', fields⟩ := unblocked ⟨state, candidate, left⟩ first foremost
    obtain ⟨statement, signed⟩ := signs first foremost.candidate left' fields
    refine ⟨first, foremost.candidate, left', ?_⟩
    rcases claim_of_argmin w token found left' with
      ⟨invalid, -⟩ | ⟨-, fault, failed, -⟩ | ⟨-, statement, -, made⟩
    · exact absurd ((valid_iff first foremost.candidate left').mpr fields) invalid
    · rw [signed] at failed
      cases failed
    · exact ⟨⟨_, statement⟩, made⟩

def FailsCleanly (w : Services) (g : Gateway) (registration : RunnerRegistration)
    (claimedAt : ℤ) (token : LeaseToken) : Prop :=
  ∀ fault, (g.claim w registration claimedAt token).2 = .error fault →
    (g.claim w registration claimedAt token).1.tasks = g.tasks

/-- The task that a claim picks makes a job, and the job is signed or the task is blank. -/
def Sound (w : Services) (g : Gateway) (registration : RunnerRegistration) (claimedAt : ℤ)
    (token : LeaseToken) : Prop :=
  ∀ state, g.Foremost registration claimedAt state → state.attempt < 32 →
    let job := (state.lease registration claimedAt token).jobOf w claimedAt token
    job.spec.Valid ∧ ((∃ statement, signJob w job claimedAt = .ok statement) ∨ state.Blank)

theorem setTask_tasks_eq_iff {g : Gateway} {state : RunnerTaskState}
    (keys : (g.tasks.map RunnerTaskState.key).Nodup) (listed : state ∈ g.tasks)
    (next : RunnerTaskState) (same : next.key = state.key) :
    (g.setTask next).tasks = g.tasks ↔ next = state := by
  have each : (g.setTask next).tasks = g.tasks ↔
      ∀ s ∈ g.tasks, (if s.key = next.key then next else s) = id s := by
    rw [← List.map_inj_left, List.map_id]
    rfl
  rw [each]
  constructor
  · intro all
    have here := all state listed
    rwa [if_pos same.symm] at here
  · rintro rfl s member
    split
    · rename_i twin
      exact key_inj keys listed member twin.symm
    · rfl

theorem claim_failsCleanly_iff (w : Services) (g : Gateway)
    (keys : (g.tasks.map RunnerTaskState.key).Nodup) (registration : RunnerRegistration)
    (claimedAt : ℤ) (token : LeaseToken) :
    g.FailsCleanly w registration claimedAt token ↔ g.Sound w registration claimedAt token := by
  unfold FailsCleanly
  cases found : (g.candidates registration claimedAt).argmin (fun s => s.task.jobId) with
  | none =>
    rw [claim_idle found]
    refine iff_of_true (fun _ _ => rfl) fun state foremost => ?_
    obtain ⟨first, some⟩ := exists_foremost foremost.candidate
    rw [found] at some
    cases some
  | some first =>
    have foremost := foremost_of_argmin found
    obtain ⟨listed, -, -⟩ := mem_candidates.mp foremost.candidate
    by_cases left : first.attempt < 32
    · have picks : g.Sound w registration claimedAt token ↔
          ((first.lease registration claimedAt token).jobOf w claimedAt token).spec.Valid ∧
          ((∃ statement, signJob w ((first.lease registration claimedAt token).jobOf w claimedAt
            token) claimedAt = .ok statement) ∨ first.Blank) := by
        constructor
        · exact fun sound => sound first foremost left
        · intro sound state other _
          obtain rfl := foremost.unique keys other
          exact sound
      rw [picks]
      rcases claim_of_argmin w token found left with
        ⟨invalid, failed⟩ | ⟨valid, fault, signing, failed⟩ | ⟨valid, statement, signing, made⟩
      · rw [failed]
        refine iff_of_false (fun clean => ?_) fun sound => invalid sound.1
        have same : first.lease registration claimedAt token = first :=
          (setTask_tasks_eq_iff keys listed
            (first.lease registration claimedAt token) rfl).mp (clean _ rfl)
        exact RunnerTaskState.lease_ne same
      · rw [failed]
        have kept : (g.setTask (first.lease registration claimedAt token).release).tasks =
            g.tasks ↔ first.Blank :=
          (setTask_tasks_eq_iff keys listed (first.lease registration claimedAt token).release
            rfl).trans RunnerTaskState.release_lease_eq_iff
        constructor
        · exact fun clean => ⟨valid, .inr (kept.mp (clean _ rfl))⟩
        · rintro ⟨-, ⟨statement, signed⟩ | blank⟩ _ _
          · rw [signing] at signed
            cases signed
          · exact kept.mpr blank
      · rw [made]
        refine iff_of_true (fun fault failed => ?_) ⟨valid, .inl ⟨statement, signing⟩⟩
        cases failed
    · rw [claim_exhausted found (by omega)]
      refine iff_of_true (fun _ _ => rfl) fun state other less => ?_
      obtain rfl := foremost.unique keys other
      exact absurd less left

end Gateway

namespace RunnerSample

def broken : RunnerTask := { task "north" with actionDigest := "action" }

def sound : RunnerTask := { task "north" with jobId := "k" }

def hundredSeconds (n : ℕ) : ℤ := 100000000 * n

/-- The broken task uses up its attempts, and the other one waits. -/
def exhausting : List Call :=
  [.dispatch broken 0, .dispatch sound 0] ++
    (List.range 32).map fun n => .claim (runner "north" "r1") (hundredSeconds n) first

def further : RunnerTask := { task "north" with jobId := "m" }

def carried (task : RunnerTask) : RunnerJob :=
  ((RunnerTaskState.dispatched task).lease (runner "north" "r1") (hundredSeconds 32) first).jobOf
    hashing (hundredSeconds 32) first

def signing : Services :=
  { services with
    sign := fun job => .ok (signed job.spec.jobId)
    subject := fun s => ([sound, further].find? (·.jobId = s.spec.payload)).elim
      (services.subject s) fun task => some ((carried task).lift .job)
    verify := fun s time => ([sound, further].find? (·.jobId = s.spec.payload)).elim
      (services.verify s time) fun task =>
        .ok ⟨(carried task).lift .job, "gateway", "job_dispatcher"⟩ }

end RunnerSample

namespace Gateway
open RunnerSample

theorem signs_of_all {w : Services} {g : Gateway} {registration : RunnerRegistration}
    {claimedAt : ℤ} {token : LeaseToken}
    (all : ∀ state ∈ g.candidates registration claimedAt, state.attempt < 32 →
      (signJob w ((state.lease registration claimedAt token).jobOf w claimedAt token)
        claimedAt).toBool = true) : g.Signs w registration claimedAt token :=
  fun state candidate left _ => Fallible.exists_ok (all state candidate left)

theorem claim_progresses_iff_sample :
    (gateway.after signing [.dispatch sound 0, .dispatch further 0]).Progresses signing
      (runner "north" "r1") (hundredSeconds 32) first := by
  have signs : (gateway.after signing [.dispatch sound 0, .dispatch further 0]).Signs signing
      (runner "north" "r1") (hundredSeconds 32) first := signs_of_all (by decide +kernel)
  refine (claim_progresses_iff signing [] RunnerSample.store _ _ (run_events _ _ _) _ _ _
    signs).mpr ?_
  intro _ state foremost
  have all : ∀ state ∈ (gateway.after signing
      [.dispatch sound 0, .dispatch further 0]).candidates (runner "north" "r1")
        (hundredSeconds 32), state.attempt < 32 ∧ state.task.JobFields := by decide +kernel
  exact all state foremost.candidate

/-- The claim fails, and a task with attempts left whose job would be signed waits. -/
theorem exhausting_fails :
    ((gateway.after signing exhausting).claim signing (runner "north" "r1") (hundredSeconds 32)
      first).2.toBool = false ∧
    (∃ state ∈ (gateway.after signing exhausting).candidates (runner "north" "r1")
      (hundredSeconds 32), state.attempt < 32) ∧
    ∀ state ∈ (gateway.after signing exhausting).candidates (runner "north" "r1")
      (hundredSeconds 32), state.attempt < 32 →
      (signJob signing ((state.lease (runner "north" "r1") (hundredSeconds 32) first).jobOf signing
        (hundredSeconds 32) first) (hundredSeconds 32)).toBool = true := by decide +kernel

/-- A task without attempts left keeps the tenant's other tasks from being leased. -/
theorem claim_blocked : ¬ ∀ (w : Services) (registrations : List RunnerRegistration)
    (store : ObjectStore) (events : List Event) (g : Gateway),
    Run (Serves w) (.initial registrations store) events g →
    ∀ registration claimedAt token, g.Signs w registration claimedAt token →
      g.Progresses w registration claimedAt token := by
  intro claim
  have run : Run (Serves signing) (.initial [] RunnerSample.store)
      (gateway.events signing exhausting) (gateway.after signing exhausting) :=
    run_events signing gateway exhausting
  obtain ⟨fails, waits, signs⟩ := exhausting_fails
  obtain ⟨_, _, _, made, equal⟩ := claim _ _ _ _ _ run _ _ _ (signs_of_all signs) waits
  have succeeded := congrArg (fun result => result.2.toBool) equal
  exact Bool.false_ne_true (fails.symm.trans succeeded)

theorem claim_failsCleanly_iff_sample :
    (gateway.after services [.dispatch (task "north") 0]).FailsCleanly services
      (runner "north" "r9") 7 first := by
  have keys : ((gateway.after services [.dispatch (task "north") 0]).tasks.map
      RunnerTaskState.key).Nodup := by decide +kernel
  refine (claim_failsCleanly_iff services _ keys _ _ _).mpr ?_
  intro state foremost _
  have only : (gateway.after services [.dispatch (task "north") 0]).candidates
      (runner "north" "r9") 7 = [.dispatched (task "north")] := by rfl
  have candidate := foremost.candidate
  rw [only, List.mem_singleton] at candidate
  subst candidate
  exact ⟨by decide +kernel, .inr ⟨rfl, rfl, rfl, rfl, rfl⟩⟩

/-- Where no job can be made of a task's fields, a failed claim leaves the task leased. -/
theorem claim_strands : ¬ ∀ (w : Services) (g : Gateway) (registration : RunnerRegistration)
    (claimedAt : ℤ) (token : LeaseToken), (g.tasks.map RunnerTaskState.key).Nodup →
    g.FailsCleanly w registration claimedAt token := by
  intro claim
  have clean := claim services (gateway.after services
    [.dispatch broken 0]) (runner "north" "r1") 0 first
    (by decide +kernel)
  have failed : ((gateway.after services
      [.dispatch broken 0]).claim services
        (runner "north" "r1") 0 first).2.toBool = false := by decide +kernel
  cases result : ((gateway.after services
      [.dispatch broken 0]).claim services
        (runner "north" "r1") 0 first).2 with
  | ok made =>
    rw [result] at failed
    cases failed
  | error fault =>
    have same := congrArg (List.map RunnerTaskState.attempt) (clean fault result)
    revert same
    decide +kernel

end Gateway

end CollectivePhaseControl
