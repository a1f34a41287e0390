import CollectivePhaseControl.Chains
import CollectivePhaseControl.GenerationCommits

/-! Over any sequence of commits a workspace's generations form one chain, and so do their
audit events. A commit that does not take effect leaves every table as it was. -/
namespace CollectivePhaseControl.Commits
open Runs Chains

section database
variable (w : Authority)

def Outcome.tookEffect : Outcome → Bool
  | .committed _ => true
  | _ => false

/-- What a valid mutation says of its generation and its audit event. -/
structure Valid (m : GenerationMutation) : Prop where
  tenant : m.generation.metadata.tenantId = m.tenantId
  workspace : m.generation.metadata.workspaceId = m.workspaceId
  own : m.generation.spec.generationDigest = w.generation m.generation
  predecessor : m.generation.spec.priorGenerationDigest = some m.expectedGeneration
  head : w.document (m.auditEvent.document .auditEvent) = m.generation.spec.historyHeadDigest

/-- What a transaction that commits has found, and the tables it has written. -/
structure Writes (a : Attempt) (db db' : Database) (row : WorkspaceRow) : Prop where
  found : db.workspaces a.mutation.tenantId a.mutation.workspaceId = some row
  current : row.currentGenerationDigest = a.mutation.expectedGeneration
  sequence : a.mutation.generation.spec.sequence = row.generationSequence + 1
  prior : a.mutation.auditEvent.spec.priorEventDigest = priorHistoryHead a.mutation db
  fresh : ∀ row ∈ db.generations, row.tenantId = a.mutation.tenantId →
    row.workspaceId = a.mutation.workspaceId →
    row.generationDigest ≠ a.mutation.generation.spec.generationDigest
  workspaces : db'.workspaces = advance a db.workspaces
  generations : db'.generations = db.generations ++ [newGeneration a]
  ledger : db'.ledger = db.ledger ++ newLedger a
  auditEvents : db'.auditEvents = db.auditEvents ++ [newAuditEvent w a]

/-- A call that takes effect is valid, and its transaction commits. -/
structure TakesEffect (a : Attempt) (db db' : Database) (row : WorkspaceRow) : Prop extends
    Writes w a db db' row where
  valid : Valid w a.mutation

variable {w} {a : Attempt} {db db' : Database}

theorem validate_ok {m : GenerationMutation} {store : ObjectStore}
    (valid : validateGenerationMutation w m store = .ok ()) : Valid w m := by
  simp only [validateGenerationMutation, bind_ok, check_ok, raised_ok, Authority.generationDigest,
    pure_ok] at valid
  obtain ⟨_, tenant, _, workspace, own, ⟨_, _, hashed⟩, _, same, _, predecessor, _, _, _, _, _, _,
    _, head, _⟩ := valid
  exact ⟨tenant, workspace, same.trans hashed.symm, predecessor, head⟩

theorem lockWorkspace_ok {m : GenerationMutation} {row : WorkspaceRow}
    (locked : lockWorkspace m db = .ok row) :
    db.workspaces m.tenantId m.workspaceId = some row ∧
      row.currentGenerationDigest = m.expectedGeneration := by
  unfold lockWorkspace at locked
  split at locked
  · cases locked
  · split at locked
    · cases locked
      exact ⟨by assumption, by assumption⟩
    · cases locked

theorem applyMutation_ok (applied : applyMutation w a db = .ok db') :
    ∃ row, Writes w a db db' row := by
  simp only [applyMutation, bind_ok, check_ok, pure_ok] at applied
  obtain ⟨row, locked, _, sequence, _, prior, objects, _, generations, inserted, auditEvents,
    recorded, _, _, _, _, _, _, rfl⟩ := applied
  simp only [insertGeneration, bind_ok, unique_ok, pure_ok] at inserted
  simp only [insertAuditEvent, bind_ok, unique_ok, pure_ok] at recorded
  obtain ⟨_, fresh, rfl⟩ := inserted
  obtain ⟨_, _, rfl⟩ := recorded
  obtain ⟨found, current⟩ := lockWorkspace_ok locked
  exact ⟨row, found, current, sequence, prior,
    fun row member tenant workspace => (fresh row member tenant workspace).1, rfl, rfl, rfl, rfl⟩

theorem transaction_cases {outcome : Outcome} (ran : transaction w a db = .ok (db', outcome)) :
    (∃ response, outcome = .replayed response ∧ db' = db) ∨
    (db.idempotency a.mutation.tenantId a.mutation.idempotencyKey = none ∧
      outcome = .committed a.mutation.response ∧ ∃ row, Writes w a db db' row) := by
  unfold transaction at ran
  cases record : db.idempotency a.mutation.tenantId a.mutation.idempotencyKey with
  | some row =>
    simp only [record] at ran
    split at ran
    · cases ran
      exact .inl ⟨_, rfl, rfl⟩
    · cases ran
  | none =>
    simp only [record, bind_ok, pure_ok, Prod.mk.injEq] at ran
    obtain ⟨committed, applied, rfl, rfl⟩ := ran
    exact .inr ⟨rfl, rfl, applyMutation_ok applied⟩

theorem commitGeneration_cases (w : Authority) (a : Attempt) (db : Database) :
    (commitGeneration w a db).1 = db ∧ (commitGeneration w a db).2.tookEffect = false ∨
    ∃ row, TakesEffect w a db (commitGeneration w a db).1 row ∧
      (commitGeneration w a db).2 = .committed a.mutation.response := by
  unfold commitGeneration
  cases validation : validateGenerationMutation w a.mutation a.validated with
  | error error => exact .inl ⟨rfl, rfl⟩
  | ok _ =>
    cases ran : transaction w a db with
    | error error => exact .inl ⟨rfl, rfl⟩
    | ok result =>
      obtain ⟨db', outcome⟩ := result
      cases gaveUp : a.gaveUp with
      | true => exact .inl ⟨rfl, rfl⟩
      | false =>
        cases transaction_cases ran with
        | inl replayed =>
          obtain ⟨response, rfl, rfl⟩ := replayed
          exact .inl ⟨rfl, rfl⟩
        | inr committed =>
          obtain ⟨_, rfl, row, writes⟩ := committed
          exact .inr ⟨row, ⟨writes, validate_ok validation⟩, rfl⟩

theorem rejected_unchanged (rejected : (commitGeneration w a db).2.tookEffect = false) :
    (commitGeneration w a db).1 = db := by
  cases commitGeneration_cases w a db with
  | inl same => exact same.1
  | inr effect =>
    obtain ⟨_, _, committed⟩ := effect
    rw [committed] at rejected
    cases rejected

variable (w)

/-- The tables after some calls. Their transactions are serializable, so they come in turn. -/
def commits : List Attempt → Database → Database
  | [], db => db
  | a :: rest, db => commits rest (commitGeneration w a db).1

def effects (tenant workspace : Identifier) : List Attempt → Database → List GenerationMutation
  | [], _ => []
  | a :: rest, db =>
    let result := commitGeneration w a db
    let own := result.2.tookEffect && a.mutation.tenantId == tenant &&
      a.mutation.workspaceId == workspace
    (if own then [a.mutation] else []) ++ effects tenant workspace rest result.1

/-- The end of a workspace's chain: its current generation and its history head. -/
structure Head where
  digest : Digest
  sequence : ℕ
  historyHead : Option Digest
deriving DecidableEq

/-- A mutation that continues a chain of generations and one of audit events. -/
structure Continues (head : Head) (m : GenerationMutation) (next : Head) : Prop where
  expected : m.expectedGeneration = head.digest
  prior : m.generation.spec.priorGenerationDigest = some head.digest
  sequence : m.generation.spec.sequence = head.sequence + 1
  event : m.auditEvent.spec.priorEventDigest = head.historyHead
  own : m.generation.spec.generationDigest = w.generation m.generation
  recorded : w.document (m.auditEvent.document .auditEvent) = m.generation.spec.historyHeadDigest
  next : next = ⟨m.generation.spec.generationDigest, m.generation.spec.sequence,
    some m.generation.spec.historyHeadDigest⟩

/-- The tables hold a workspace's chain, which ends in the given head. -/
structure Stores (tenant workspace : Identifier) (db : Database) (head : Head)
    (chain : List GenerationMutation) : Prop where
  current : db.workspaces tenant workspace = some ⟨head.digest, head.sequence⟩
  historyHead : (generationRow db tenant workspace head.digest).map (·.manifest.spec.historyHeadDigest) =
    head.historyHead
  generations : (db.generations.filter fun row =>
    row.tenantId == tenant && row.workspaceId == workspace).map (·.manifest) =
      chain.map (·.generation)
  auditEvents : (db.auditEvents.filter fun row =>
    row.tenantId == tenant && row.workspaceId == workspace).map (·.event) =
      chain.map (·.auditEvent)

/-- The tables know a new workspace by its first digest and nothing else. -/
structure Created (tenant workspace : Identifier) (genesis : Digest) (db : Database) : Prop where
  current : db.workspaces tenant workspace = some ⟨genesis, 0⟩
  generations : ∀ row ∈ db.generations, row.tenantId = tenant → row.workspaceId ≠ workspace
  auditEvents : ∀ row ∈ db.auditEvents, row.tenantId = tenant → row.workspaceId ≠ workspace

variable {w} {tenant workspace : Identifier} {head : Head} {chain : List GenerationMutation}
  {row : WorkspaceRow}

theorem Created.stores {genesis : Digest} (created : Created tenant workspace genesis db) :
    Stores tenant workspace db ⟨genesis, 0, none⟩ [] where
  current := created.current
  historyHead := by
    have absent : generationRow db tenant workspace genesis = none := by
      simp only [generationRow, List.find?_eq_none, Bool.and_eq_true, beq_iff_eq]
      intro row member named
      exact created.generations row member named.1.1 named.1.2
    rw [absent]
    rfl
  generations := by
    have none_of : db.generations.filter (fun row =>
        row.tenantId == tenant && row.workspaceId == workspace) = [] := by
      simpa [List.filter_eq_nil_iff] using created.generations
    rw [none_of]
    rfl
  auditEvents := by
    have none_of : db.auditEvents.filter (fun row =>
        row.tenantId == tenant && row.workspaceId == workspace) = [] := by
      simpa [List.filter_eq_nil_iff] using created.auditEvents
    rw [none_of]
    rfl

theorem TakesEffect.elsewhere (effect : TakesEffect w a db db' row)
    (other : ¬ (a.mutation.tenantId = tenant ∧ a.mutation.workspaceId = workspace))
    (stores : Stores tenant workspace db head chain) :
    Stores tenant workspace db' head chain where
  current := by
    rw [effect.workspaces, advance, if_neg (by grind)]
    exact stores.current
  historyHead := by
    have skip : (newGeneration a).tenantId = tenant →
        (newGeneration a).workspaceId ≠ workspace := by
      simp only [newGeneration]
      grind
    rw [← stores.historyHead, generationRow, generationRow, effect.generations, List.find?_append]
    grind
  generations := by
    have skip : (newGeneration a).tenantId = tenant →
        (newGeneration a).workspaceId ≠ workspace := by
      simp only [newGeneration]
      grind
    rw [← stores.generations, effect.generations, List.filter_append]
    grind
  auditEvents := by
    have skip : (newAuditEvent w a).tenantId = tenant →
        (newAuditEvent w a).workspaceId ≠ workspace := by
      simp only [newAuditEvent]
      grind
    rw [← stores.auditEvents, effect.auditEvents, List.filter_append]
    grind

theorem TakesEffect.extends (effect : TakesEffect w a db db' row)
    (own : a.mutation.tenantId = tenant ∧ a.mutation.workspaceId = workspace)
    (stores : Stores tenant workspace db head chain) :
    ∃ next, Continues w head a.mutation next ∧
      Stores tenant workspace db' next (chain ++ [a.mutation]) := by
  obtain ⟨rfl, rfl⟩ := own
  have found : row = ⟨head.digest, head.sequence⟩ :=
    Option.some.inj (effect.found.symm.trans stores.current)
  subst found
  have expected : a.mutation.expectedGeneration = head.digest := effect.current.symm
  refine ⟨_, ⟨expected, ?_, effect.sequence, ?_, effect.valid.own, effect.valid.head, rfl⟩, ?_⟩
  · rw [effect.valid.predecessor, expected]
  · rw [effect.prior, priorHistoryHead, expected, stores.historyHead]
  · constructor
    · rw [effect.workspaces, advance, if_pos ⟨rfl, rfl⟩]
    · have absent : generationRow db a.mutation.tenantId a.mutation.workspaceId
          a.mutation.generation.spec.generationDigest = none := by
        simp only [generationRow, List.find?_eq_none, Bool.and_eq_true, beq_iff_eq]
        intro row member named
        exact effect.fresh row member named.1.1 named.1.2 named.2
      rw [generationRow] at absent
      rw [generationRow, effect.generations, List.find?_append, absent]
      simp [newGeneration]
    · rw [effect.generations, List.filter_append, List.map_append, stores.generations]
      simp [newGeneration]
    · rw [effect.auditEvents, List.filter_append, List.map_append, stores.auditEvents]
      simp [newAuditEvent]

theorem commits_continue (attempts : List Attempt) : ∀ {db head chain},
    Stores tenant workspace db head chain →
    ∃ last, Run (Continues w) head (effects w tenant workspace attempts db) last ∧
      Stores tenant workspace (commits w attempts db) last
        (chain ++ effects w tenant workspace attempts db) := by
  induction attempts with
  | nil =>
    intro db head chain stores
    exact ⟨head, .nil head, by simpa [effects, commits] using stores⟩
  | cons a rest ih =>
    intro db head chain stores
    simp only [effects, commits]
    cases commitGeneration_cases w a db with
    | inl same =>
      obtain ⟨last, run, later⟩ := ih stores
      rw [same.1, same.2]
      exact ⟨last, by simpa using run, by simpa using later⟩
    | inr effect =>
      obtain ⟨row, effect, committed⟩ := effect
      by_cases own : a.mutation.tenantId = tenant ∧ a.mutation.workspaceId = workspace
      · obtain ⟨next, step, stored⟩ := effect.extends own stores
        obtain ⟨last, run, later⟩ := ih stored
        refine ⟨last, ?_, ?_⟩
        · simpa [committed, Outcome.tookEffect, own] using Run.cons step run
        · simpa [committed, Outcome.tookEffect, own] using later
      · obtain ⟨last, run, later⟩ := ih (effect.elsewhere own stores)
        have skipped : ((commitGeneration w a db).2.tookEffect && a.mutation.tenantId == tenant &&
            a.mutation.workspaceId == workspace) = false := by
          rw [committed]
          simpa [Outcome.tookEffect] using own
        rw [skipped]
        exact ⟨last, by simpa using run, by simpa using later⟩

/-- A generation as its digest is taken: with its own digest zeroed. -/
def zeroed (generation : WorkspaceGeneration) : WorkspaceGeneration :=
  { generation with
    spec := { generation.spec with
      generationDigest := String.ofList ("sha256:".toList ++ List.replicate 64 '0') } }

def CollisionFree (w : Authority) (generations : List WorkspaceGeneration) : Prop :=
  ∀ g ∈ generations, ∀ g' ∈ generations,
    w.generation g = w.generation g' → zeroed g = zeroed g'

theorem CollisionFree.sequence {generations : List WorkspaceGeneration}
    (free : CollisionFree w generations) {g g' : WorkspaceGeneration} (first : g ∈ generations)
    (second : g' ∈ generations) (same : w.generation g = w.generation g') :
    g.spec.sequence = g'.spec.sequence := by
  have equal := congrArg (fun generation : WorkspaceGeneration => generation.spec.sequence)
    (free g first g' second same)
  exact equal

theorem effects_sublist (tenant workspace : Identifier) (attempts : List Attempt) : ∀ db,
    (effects w tenant workspace attempts db).Sublist (attempts.map (·.mutation)) := by
  induction attempts with
  | nil => intro db; exact .slnil
  | cons a rest ih =>
    intro db
    simp only [effects, List.map_cons]
    split
    · exact (ih _).cons_cons _
    · exact (ih _).cons _

theorem continues_link {head last : Head} (run : Run (Continues w) head chain last) :
    Run (Link (·.expectedGeneration) (fun m : GenerationMutation => m.generation.spec.generationDigest)
      (fun m => m.generation.spec.sequence)) ⟨head.digest, head.sequence⟩ chain
      ⟨last.digest, last.sequence⟩ := by
  induction run with
  | nil => exact .nil _
  | cons step _ ih =>
    have next := step.next
    subst next
    exact .cons ⟨step.expected, step.sequence, rfl⟩ ih

theorem expected_nodup {head last : Head} (run : Run (Continues w) head chain last)
    (free : CollisionFree w (chain.map (·.generation)))
    (fresh : ∀ m ∈ chain, w.generation m.generation ≠ head.digest) :
    (chain.map (·.expectedGeneration)).Nodup := by
  have own : ∀ m ∈ chain, m.generation.spec.generationDigest = w.generation m.generation :=
    run.labels fun _ _ _ step => step.own
  refine priors_nodup (continues_link run) ?_ ?_
  · intro m member
    rw [own m member]
    exact fresh m member
  · intro m member m' member' same
    rw [own m member, own m' member'] at same
    exact free.sequence (List.mem_map_of_mem member) (List.mem_map_of_mem member') same

end database

section memory
variable (repository : MemoryGenerationRepository)

/-- A call of `commit`: a state and the generation it expects. -/
abbrev MemoryCall := WorkspaceState × Digest

/-- What the repository holds after a call, and whether the call returned. -/
def MemoryGenerationRepository.perform (call : MemoryCall) : MemoryGenerationRepository × Bool :=
  match repository.commit call.1 call.2 with
  | .ok repository => (repository, true)
  | .error _ => (repository, false)

def memoryCommits : List MemoryCall → MemoryGenerationRepository → MemoryGenerationRepository
  | [], repository => repository
  | call :: rest, repository => memoryCommits rest (repository.perform call).1

def memoryEffects (tenant workspace : Identifier) :
    List MemoryCall → MemoryGenerationRepository → List MemoryCall
  | [], _ => []
  | call :: rest, repository =>
    let result := repository.perform call
    let own := result.2 && call.1.tenantId == tenant && call.1.workspaceId == workspace
    (if own then [call] else []) ++ memoryEffects tenant workspace rest result.1

/-- A state whose generation continues a chain of generations. -/
structure Replaces (tip : Tip Digest) (call : MemoryCall) (next : Tip Digest) : Prop where
  expected : call.2 = tip.digest
  prior : call.1.generation.spec.priorGenerationDigest = some tip.digest
  sequence : call.1.generation.spec.sequence = tip.number + 1
  next : next = ⟨call.1.generation.spec.generationDigest, call.1.generation.spec.sequence⟩

def WorkspaceState.tip (state : WorkspaceState) : Tip Digest :=
  ⟨state.generation.spec.generationDigest, state.generation.spec.sequence⟩

variable {tenant workspace : Identifier}

theorem perform_cases (repository : MemoryGenerationRepository) (call : MemoryCall) :
    repository.perform call = (repository, false) ∨
    ∃ current, repository call.1.tenantId call.1.workspaceId = some current ∧
      Replaces current.tip call call.1.tip ∧
      repository.perform call = (repository.store call.1, true) := by
  unfold MemoryGenerationRepository.perform MemoryGenerationRepository.commit
  cases found : repository call.1.tenantId call.1.workspaceId with
  | none => exact .inl rfl
  | some current =>
    dsimp only
    by_cases expected : current.generation.spec.generationDigest ≠ call.2
    · simp [expected]
    by_cases prior : call.1.generation.spec.priorGenerationDigest ≠ some call.2
    · simp [expected, prior]
    by_cases sequence :
        call.1.generation.spec.sequence ≠ current.generation.spec.sequence + 1
    · simp [expected, prior, sequence]
    rw [if_neg expected, if_neg prior, if_neg sequence]
    simp only [ne_eq, not_not] at expected prior sequence
    refine .inr ⟨current, rfl, ⟨expected.symm, ?_, sequence, rfl⟩, rfl⟩
    rw [prior, ← expected]
    rfl

theorem memoryCommits_replace (calls : List MemoryCall) : ∀ {repository start},
    repository tenant workspace = some start →
    ∃ last, memoryCommits calls repository tenant workspace = some last ∧
      Run Replaces start.tip (memoryEffects tenant workspace calls repository) last.tip := by
  induction calls with
  | nil =>
    intro repository start found
    exact ⟨start, found, .nil _⟩
  | cons call rest ih =>
    intro repository start found
    simp only [memoryCommits, memoryEffects]
    cases perform_cases repository call with
    | inl same =>
      rw [same]
      simpa using ih found
    | inr replaced =>
      obtain ⟨current, held, step, performed⟩ := replaced
      rw [performed]
      by_cases own : call.1.tenantId = tenant ∧ call.1.workspaceId = workspace
      · obtain ⟨rfl, rfl⟩ := own
        have same : current = start := Option.some.inj (held.symm.trans found)
        subst same
        have stored : repository.store call.1 call.1.tenantId call.1.workspaceId = some call.1 :=
          if_pos ⟨rfl, rfl⟩
        obtain ⟨last, final, run⟩ := ih stored
        exact ⟨last, final, by simpa using Run.cons step run⟩
      · have kept : repository.store call.1 tenant workspace = some start := by
          rw [MemoryGenerationRepository.store, if_neg (by grind), found]
        have skipped : (true && call.1.tenantId == tenant && call.1.workspaceId == workspace) =
            false := by
          simpa using own
        rw [skipped]
        simpa using ih kept

theorem memoryEffects_sublist (tenant workspace : Identifier) (calls : List MemoryCall) :
    ∀ repository,
    (memoryEffects tenant workspace calls repository).Sublist calls := by
  induction calls with
  | nil => intro repository; exact .slnil
  | cons call rest ih =>
    intro repository
    simp only [memoryEffects]
    split
    · exact (ih _).cons_cons _
    · exact (ih _).cons _

theorem replaces_link {tip last : Tip Digest} {calls : List MemoryCall}
    (run : Run Replaces tip calls last) :
    Run (Link Prod.snd (fun call : MemoryCall => call.1.generation.spec.generationDigest)
      (fun call => call.1.generation.spec.sequence)) tip calls last :=
  Run.map (f := id) (fun _ _ _ step => ⟨step.expected, step.sequence, step.next⟩) run

def SelfDigested (w : Authority) (states : List WorkspaceState) : Prop :=
  ∀ state ∈ states, state.generation.spec.generationDigest = w.generation state.generation

theorem memory_expected_nodup {w : Authority} {start : WorkspaceState} {last : Tip Digest}
    {calls : List MemoryCall} (run : Run Replaces start.tip calls last)
    (own : SelfDigested w (start :: calls.map Prod.fst))
    (free : CollisionFree w ((start :: calls.map Prod.fst).map (·.generation))) :
    (calls.map Prod.snd).Nodup := by
  have known : ∀ call ∈ calls, call.1 ∈ start :: calls.map Prod.fst := fun call member =>
    List.mem_cons_of_mem _ (List.mem_map_of_mem member)
  have sequences : ∀ s ∈ start :: calls.map Prod.fst, ∀ s' ∈ start :: calls.map Prod.fst,
      s.generation.spec.generationDigest = s'.generation.spec.generationDigest →
      s.generation.spec.sequence = s'.generation.spec.sequence := by
    intro s member s' member' same
    rw [own s member, own s' member'] at same
    exact free.sequence (List.mem_map_of_mem member) (List.mem_map_of_mem member') same
  refine priors_nodup (replaces_link run) ?_ ?_
  · intro call member same
    have equal := sequences call.1 (known call member) start (by simp) same
    have later := number_gt (replaces_link run) member
    simp only [WorkspaceState.tip] at later
    omega
  · exact fun call member other member' => sequences _ (known call member) _ (known other member')

end memory

/-- Commits against the database keep a workspace's generations and audit events in one chain,
and commits against the in-memory repository its generations. -/
theorem commits_chain (w : Authority) {tenant workspace : Identifier} {genesis : Digest}
    {db : Database} {attempts : List Attempt} (created : Created tenant workspace genesis db)
    (free : CollisionFree w (attempts.map (·.mutation.generation)))
    (fresh : ∀ a ∈ attempts, w.generation a.mutation.generation ≠ genesis)
    {repository : MemoryGenerationRepository} {start : WorkspaceState} {calls : List MemoryCall}
    (held : repository tenant workspace = some start)
    (own : SelfDigested w (start :: calls.map Prod.fst))
    (distinct : CollisionFree w ((start :: calls.map Prod.fst).map (·.generation))) :
    ((∃ last, Run (Continues w) ⟨genesis, 0, none⟩ (effects w tenant workspace attempts db) last ∧
        Stores tenant workspace (commits w attempts db) last
          (effects w tenant workspace attempts db)) ∧
      ((effects w tenant workspace attempts db).map (·.expectedGeneration)).Nodup ∧
      ∀ a db, (commitGeneration w a db).2.tookEffect = false → (commitGeneration w a db).1 = db) ∧
    (∃ last, memoryCommits calls repository tenant workspace = some last ∧
        Run Replaces start.tip (memoryEffects tenant workspace calls repository) last.tip) ∧
      ((memoryEffects tenant workspace calls repository).map Prod.snd).Nodup ∧
      ∀ (repository : MemoryGenerationRepository) call,
        (repository.perform call).2 = false → (repository.perform call).1 = repository := by
  obtain ⟨last, run, stored⟩ := commits_continue (w := w) attempts created.stores
  have subset := (effects_sublist (w := w) tenant workspace attempts db).subset
  obtain ⟨final, kept, replaced⟩ := memoryCommits_replace calls held
  have part := (memoryEffects_sublist tenant workspace calls repository).subset
  refine ⟨⟨⟨last, run, stored⟩, expected_nodup run ?_ ?_, fun a db => rejected_unchanged⟩,
    ⟨final, kept, replaced⟩, memory_expected_nodup (w := w) replaced ?_ ?_, ?_⟩
  · intro g member g' member'
    exact free g (by grind) g' (by grind)
  · intro m member
    obtain ⟨a, known, rfl⟩ := List.mem_map.mp (subset member)
    exact fresh a known
  · exact fun state member => own state (by grind)
  · intro g member g' member'
    exact distinct g (by grind) g' (by grind)
  · intro repository call rejected
    cases perform_cases repository call with
    | inl same => rw [same]
    | inr replaced =>
      obtain ⟨_, _, _, performed⟩ := replaced
      rw [performed] at rejected
      cases rejected

namespace CommitSample

def sha (name : String) : Digest :=
  String.ofList ("sha256:".toList ++ List.replicate (64 - name.length) '0' ++ name.toList)

def metadata (id : Identifier) : Metadata := ⟨"tenant", "workspace", id, .utc 0⟩

def event (id : Identifier) (prior : Option Digest) : AuditEvent :=
  ⟨metadata id, ∅, ⟨"event-" ++ id, prior, .utc 0⟩⟩

def first : AuditEvent := event "1" none
def second : AuditEvent := event "2" (some (sha "1"))

/-- Digests are made of identifiers; the byte 1 is the first event, 2 the second, and 3 is
opaque. -/
def authority : Authority where
  document d := sha d.metadata.objectId
  generation g := sha g.metadata.objectId
  envelope _ := "envelope"
  digestBytes
    | [1] => sha "1"
    | [2] => sha "2"
    | _ => sha "3"
  canonical _ := none
  schema _ := some "schema"
  base64 _ := .error "base64"
  loads
    | [n] => .ok [("n", .int n.toNat)]
    | _ => .error "top_level_json_object_required"
  payload _ := .error "payload"
  parse
    | [(_, .int 1)] => .ok (first.document .auditEvent)
    | [(_, .int 2)] => .ok (second.document .auditEvent)
    | _ => .error (.valueError "document")
  derKey _ := .malformed
  spki _ := []
  verifies _ _ _ := false
  registered _ := rfl

def store (_ : Identifier) (digest : Digest) : Option Bytes :=
  if digest = sha "1" then some [1] else if digest = sha "2" then some [2]
  else if digest = sha "3" then some [3] else none

def entry (name : String) (kind : Identifier) : LedgerEntry := ⟨sha name, kind, .active, []⟩

def genesis : Digest := sha "f"

def generation (name : Identifier) (prior : Digest) (sequence : ℕ) (ledger : List LedgerEntry)
    (head : Digest) : WorkspaceGeneration :=
  ⟨metadata name, ∅, ⟨sha name, some prior, sequence, none, ledger, head⟩⟩

def admission (name : String) (kind : String) : ObjectAdmission :=
  ⟨sha name, kind, "active", 1,
    String.ofList ("cas/tenant/sha256/".toList ++ (sha name).toList.drop 7)⟩

def mutation (key : String) (expected : Digest) (generation : WorkspaceGeneration)
    (auditEvent : AuditEvent) (admissions : List ObjectAdmission) : GenerationMutation where
  tenantId := "tenant"
  workspaceId := "workspace"
  expectedGeneration := expected
  generation := generation
  auditEvent := auditEvent
  idempotencyKey := key
  requestDigest := sha key
  response := ⟨"ok", "committed", "local_write", "tenant", "workspace",
    generation.spec.generationDigest, none, [], none, [], "trace"⟩
  objectAdmissions := admissions
  quarantineAdditions := []
  quarantineResolutions := []
  outboxTopic := none
  outboxPayload := []

def start : GenerationMutation :=
  mutation "0123456789abcdef" genesis
    (generation "a1" genesis 1 [entry "1" "audit-event", entry "3" "raw-artifact"] (sha "1"))
    first [admission "1" "audit-event", admission "3" "raw-artifact"]

def next : GenerationMutation :=
  mutation "123456789abcdef0" (sha "a1")
    (generation "a2" (sha "a1") 2
      [entry "1" "audit-event", entry "2" "audit-event", entry "3" "raw-artifact"] (sha "2"))
    second [admission "2" "audit-event"]

def call (m : GenerationMutation) : Attempt := ⟨m, store, store, 0, "message", false⟩

def database : Database where
  workspaces tenant workspace :=
    if tenant = "tenant" ∧ workspace = "workspace" then some ⟨genesis, 0⟩ else none
  objects _ _ := none
  generations := []
  ledger := []
  auditEvents := []
  quarantine _ _ _ := none
  outbox := []
  idempotency _ _ := none

def repository (state : WorkspaceState) : MemoryGenerationRepository := fun tenant workspace =>
  if tenant = "tenant" ∧ workspace = "workspace" then some state else none

def initial : WorkspaceState := ⟨start.generation, ∅⟩

def replacement : WorkspaceState :=
  ⟨next.generation, (∅ : Dict Document).insert (sha "2") (second.document .auditEvent)⟩

/-- The second of two racing commits for one expected generation is rejected. -/
example : (effects authority "tenant" "workspace"
      [call start, call { start with idempotencyKey := "fedcba9876543210" }, call next]
      database).map (·.generation.spec.sequence) = [1, 2] := by
  decide +kernel

end CommitSample

open CommitSample in
theorem commits_chain_sample : ((∃ last,
      Run (Continues authority) ⟨genesis, 0, none⟩
        (effects authority "tenant" "workspace" [call start, call next] database) last ∧
      Stores "tenant" "workspace" (commits authority [call start, call next] database)
        last (effects authority "tenant" "workspace" [call start, call next] database)) ∧
      ((effects authority "tenant" "workspace" [call start, call next] database).map
        (·.expectedGeneration)).Nodup) ∧
    ∃ last, memoryCommits [(replacement, sha "a1")] (repository initial) "tenant" "workspace" =
      some last := by
  have created : Created "tenant" "workspace" genesis database :=
    ⟨rfl, by simp [database], by simp [database]⟩
  have free : CollisionFree authority ([call start, call next].map (·.mutation.generation)) := by
    unfold CollisionFree
    decide +kernel
  have fresh : ∀ a ∈ [call start, call next],
      authority.generation a.mutation.generation ≠ genesis := by decide +kernel
  have held : repository initial "tenant" "workspace" = some initial := rfl
  have own : SelfDigested authority (initial :: [(replacement, sha "a1")].map Prod.fst) := by
    unfold SelfDigested
    decide +kernel
  have distinct : CollisionFree authority
      ((initial :: [(replacement, sha "a1")].map Prod.fst).map (·.generation)) := by
    unfold CollisionFree
    decide +kernel
  have law := commits_chain authority created free fresh held own distinct
  obtain ⟨⟨chain, nodup, -⟩, ⟨last, kept, -⟩, -⟩ := law
  exact ⟨⟨chain, nodup⟩, last, kept⟩

/-- The audit event that a state's objects hold under the history head. -/
def WorkspaceState.headEvent (state : WorkspaceState) : Option AuditEventSpec :=
  match state.objects[state.generation.spec.historyHeadDigest]? with
  | some ⟨_, _, .auditEvent spec⟩ => some spec
  | _ => none

open CommitSample in
/-- The in-memory repository takes a generation whose audit event points nowhere. -/
theorem memory_event_unlinked :
    let unlinked : WorkspaceState := ⟨next.generation,
      (∅ : Dict Document).insert (sha "2") ((event "2" none).document .auditEvent)⟩
    ((repository initial).perform (unlinked, sha "a1")).2 = true ∧
      unlinked.generation.spec.generationDigest = authority.generation unlinked.generation ∧
      unlinked.headEvent.map (·.priorEventDigest) = some none ∧
      initial.generation.spec.historyHeadDigest = sha "1" := by
  decide +kernel

end CollectivePhaseControl.Commits
