import CollectivePhaseControl.OrganizationFlows

/-! The v0.5 audit and its robustness replay. The replay recomputes the snapshot from the
attestations that remain, so the witness of the organization no longer names it. -/
namespace CollectivePhaseControl
namespace Organization

inductive Dimension where
  | provenanceIntegrity | trustQuorum | temporalIntegrity | structuralReachability
  | causalFormation | dimensionalConsistency | exactSelfMaintenance
  | finiteHorizonResourcePersistence | targetBoundGenerativeCatalysis | verificationCapacity
  | effectiveIndependence | coordinationProtocolIntegrity | perturbationRobustness
deriving DecidableEq, Repr

def Dimension.name : Dimension → String
  | .provenanceIntegrity => "provenance_integrity"
  | .trustQuorum => "trust_quorum"
  | .temporalIntegrity => "temporal_integrity"
  | .structuralReachability => "structural_reachability"
  | .causalFormation => "causal_formation"
  | .dimensionalConsistency => "dimensional_consistency"
  | .exactSelfMaintenance => "exact_self_maintenance"
  | .finiteHorizonResourcePersistence => "finite_horizon_resource_persistence"
  | .targetBoundGenerativeCatalysis => "target_bound_generative_catalysis"
  | .verificationCapacity => "verification_capacity"
  | .effectiveIndependence => "effective_independence"
  | .coordinationProtocolIntegrity => "coordination_protocol_integrity"
  | .perturbationRobustness => "perturbation_robustness"

def replayedDimensions : List Dimension :=
  [.provenanceIntegrity, .trustQuorum, .temporalIntegrity, .structuralReachability,
   .causalFormation, .dimensionalConsistency, .exactSelfMaintenance,
   .finiteHorizonResourcePersistence, .targetBoundGenerativeCatalysis, .verificationCapacity,
   .effectiveIndependence, .coordinationProtocolIntegrity]

/-- What the audit uses beside its documents: the store, digests, the schema's validator, and
whether the workspace's own check succeeds. -/
structure Services where
  getJson : Digest → Checked Json
  digestSnapshot : Snapshot → Digest
  digestRegistry : JsonObject → Digest
  schemaReasons : JsonObject → List String
  doctorOk : Bool

structure Evaluation where
  profile : Dimension → Status
  reasons : Dimension → List String
  analysisSnapshotDigest : Digest
  operationCount : ℕ
  reachableStates : Finset Identifier := ∅
  formationLayers : Dict ℕ := ∅
  effectiveIndependenceDomainCount : ℕ := 0
  trajectory : List (Dict ℚ) := []

/-- The findings of a list of dimensions; the others are unknown. -/
def findingOf (found : List (Dimension × Finding)) (dimension : Dimension) : Finding :=
  (found.lookup dimension).getD (.unknown, [])

def maximumAnalysisOperations : ℕ := 10000000
def maximumPerturbations : ℕ := 256

/-- Formation is strict if every input of a used transformation is of an earlier layer than
every output. -/
def strictlyPrior (transformations : LegacyNetwork) (layers : Dict ℕ) (used : Finset Identifier) :
    Bool :=
  decide (∀ id ∈ used, ∀ edge ∈ transformations[id]?, ∀ input ∈ idSet (edge.get "inputs"),
    ∀ output ∈ Enabling.outputs edge, layers.getD input 0 < layers.getD output 0)

def clauseReasons (transformations : LegacyNetwork) (used : Finset Identifier) : List String :=
  (transformations.toList.filter fun entry => entry.1 ∈ used ∧
    (entry.2.get "explicitly_uncatalyzed").isTrue = false ∧
    Enabling.falsy (entry.2.get "catalyst_clauses") = true).map fun entry =>
      "catalyst_clause_missing:" ++ entry.1

def provenanceFindings (w : Services) (manifest : Manifest) (policy : List Principal)
    (rejected : List Digest) : List (Dimension × Finding) :=
  [(.provenanceIntegrity, (if w.doctorOk = true ∧ rejected = [] then .satisfied else .violated,
      rejected.map ("rejected_attestation:" ++ ·))),
   (.trustQuorum, quorumFeasible policy),
   (.temporalIntegrity, if manifest.analysisEpoch.any (· ≠ "") then (.satisfied, [])
      else (.unknown, ["trusted_time_required"]))]

def networkFindings (view : NetworkView) (run : Enabling.Closure) (targets : Finset Identifier) :
    List (Dimension × Finding) :=
  let missing := (inOrder (targets \ run.available)).map ("target_unreachable:" ++ ·)
  let formed := missing = [] ∧ strictlyPrior view.transformations run.layers run.used = true
  let clauses := reasonIf (run.used = ∅) "target_productive_transformation_set_empty" ++
    clauseReasons view.transformations run.used
  [(.structuralReachability, (if missing = [] then .satisfied else .violated, missing)),
   (.causalFormation, if formed then (.satisfied, [])
      else (.violated, ["strictly_prior_formation_not_established"])),
   (.targetBoundGenerativeCatalysis,
      (if run.used ≠ ∅ ∧ clauses = [] then .satisfied else .violated, clauses))]

def typedFlow (w : Services) (manifest : Manifest) (contract : Contract)
    (statements : List Statement) (snapshot : Digest) : Checked TypedFlowResult := do
  let registry ← w.getJson contract.unitRegistryRef
  let profiles ← activeObjects w.getJson "typed-flow-profile" manifest.objects
  match members? registry, profiles with
  | none, _ => pure ⟨.violated, ["unit_registry_missing"], []⟩
  | some _, [] => pure ⟨.unknown, ["one_typed_flow_profile_required"], []⟩
  | some registry, [profile] =>
    validateTypedFlowProfile w.digestRegistry w.schemaReasons profile registry
      (statements.map Statement.subjectId).toFinset snapshot
  | some _, _ => pure ⟨.violated, ["one_typed_flow_profile_required"], []⟩

/-- `_evaluate` without the replay of perturbations. -/
def evaluateOnce (w : Services) (manifest : Manifest) (contract : Contract)
    (policy : List Principal) (statements : List Statement) (rejected : List Digest) :
    Checked Evaluation :=
  let snapshot := w.digestSnapshot (analysisSnapshot manifest contract statements)
  let first := provenanceFindings w manifest policy rejected
  let budget := min maximumAnalysisOperations contract.maximumOperations
  let targets := contract.targetStates.toFinset
  match network statements emptyView with
  -- The handler goes on to use the network that was not bound.
  | .error _ => .error (.crash .nameError)
  | .ok view =>
    match Enabling.closure view.available view.transformations view.catalysts view.inhibitors
      budget with
    | .error _ =>
      let found := first ++ [(.structuralReachability, (.unknown, ["unknown_due_to_budget"]))]
      .ok {
        profile := fun dimension => (findingOf found dimension).1
        reasons := fun dimension => (findingOf found dimension).2
        analysisSnapshotDigest := snapshot
        operationCount := budget }
    | .ok run => do
      let maintenance ← organization statements view.transformations snapshot targets
      let typed ← typedFlow w manifest contract statements snapshot
      let (independent, count) := independence statements contract.minimumEffectiveIndependence
      let coordinated ← coordination w.getJson manifest
      let found := first ++ networkFindings view run targets ++
        [(.exactSelfMaintenance, maintenance),
         (.dimensionalConsistency, (typed.status, typed.reasons)),
         (.finiteHorizonResourcePersistence, (typed.status, typed.reasons)),
         (.verificationCapacity, verification statements),
         (.effectiveIndependence, independent),
         (.coordinationProtocolIntegrity, coordinated)]
      pure {
        profile := fun dimension => (findingOf found dimension).1
        reasons := fun dimension => (findingOf found dimension).2
        analysisSnapshotDigest := snapshot
        operationCount := run.operations
        reachableStates := run.available
        formationLayers := run.layers
        effectiveIndependenceDomainCount := count
        trajectory := typed.trajectory }

structure Scenario where
  scenarioId : Json
  removeSubjects : Finset Identifier
  removeKeyIds : Finset Identifier

def readScenario (scenario : JsonObject) : Scenario where
  scenarioId := scenario.get "scenario_id"
  removeSubjects := idSet (scenario.get "remove_subjects")
  removeKeyIds := idSet (scenario.get "remove_key_ids")

def Scenario.remaining (scenario : Scenario) (statements : List Statement) : List Statement :=
  statements.filter fun s => s.subjectId ∉ scenario.removeSubjects ∧ s.keyId ∉ scenario.removeKeyIds

def Scenario.reduce (scenario : Scenario) (manifest : Manifest) : Manifest :=
  { manifest with objects := manifest.objects.filter fun entry =>
      entry.authorityKeyId.all (· ∉ scenario.removeKeyIds) }

def replay (w : Services) (manifest : Manifest) (contract : Contract) (policy : List Principal)
    (statements : List Statement) (scenario : Scenario) : Checked Evaluation :=
  evaluateOnce w (scenario.reduce manifest) contract policy (scenario.remaining statements) []

def failures (profile : Dimension → Status) : List String :=
  ((replayedDimensions.filter fun dimension => profile dimension ≠ .satisfied).map
    Dimension.name).insertionSort (· ≤ ·)

structure PerturbationResult where
  scenario : Scenario
  profile : Dimension → Status
  failedDimensions : List String
  analysisSnapshotDigest : Digest

structure Robustness where
  robust : Bool := true
  unknown : Bool := false
  reasons : List String := []
  results : List PerturbationResult := []

section suites
variable (w : Services) (manifest : Manifest) (contract : Contract) (policy : List Principal)
  (statements : List Statement)

def replayScenarios : List Json → Robustness → Checked Robustness
  | [], found => .ok found
  | item :: rest, found =>
    match members? item with
    | none => replayScenarios rest { found with robust := false }
    | some item => do
      let scenario := readScenario item
      let evaluated ← replay w manifest contract policy statements scenario
      replayScenarios rest
        { robust := found.robust && (failures evaluated.profile).isEmpty
          unknown := found.unknown || replayedDimensions.any (evaluated.profile · = .unknown)
          reasons := found.reasons
          results := found.results ++ [⟨scenario, evaluated.profile, failures evaluated.profile,
            evaluated.analysisSnapshotDigest⟩] }

def replaySuites : List Statement → Robustness → Checked Robustness
  | [], found => .ok found
  | suite :: rest, found =>
    let scenarios := (items? (suite.attributes.get "scenarios")).getD []
    let acceptance := idSet (suite.attributes.get "acceptance_dimensions")
    if scenarios.length = 0 ∨ maximumPerturbations < scenarios.length ∨
        ¬ (replayedDimensions.map Dimension.name).toFinset ⊆ acceptance then
      replaySuites rest { found with
        robust := false
        reasons := found.reasons ++ ["perturbation_suite_incomplete:" ++ suite.subjectId] }
    else do
      let found ← replayScenarios w manifest contract policy statements scenarios found
      replaySuites rest found

def perturbationSuites : List Statement :=
  statements.filter fun s => s.evidenceType = some "perturbation_suite" ∧
    s.subjectId ∈ contract.perturbationSuiteRefs

/-- `_evaluate` with the replay; a budget that is exhausted leaves it out. -/
def evaluate (rejected : List Digest) : Checked (Evaluation × List PerturbationResult) := do
  let evaluated ← evaluateOnce w manifest contract policy statements rejected
  if evaluated.reasons .structuralReachability = ["unknown_due_to_budget"] then
    pure (evaluated, [])
  else
    let suites := perturbationSuites contract statements
    let found ← if contract.perturbationSuiteRefs = [] ∨
        suites.length ≠ contract.perturbationSuiteRefs.toFinset.card then
      pure { robust := false, reasons := ["required_nonempty_perturbation_suite_missing"] }
      else replaySuites w manifest contract policy statements suites {}
    let status : Status :=
      if found.unknown then .unknown else if found.robust then .satisfied else .violated
    pure ({ evaluated with
      profile := Function.update evaluated.profile .perturbationRobustness status
      reasons := Function.update evaluated.reasons .perturbationRobustness found.reasons },
      found.results)

end suites

section removals
variable {w : Services} {manifest : Manifest} {contract : Contract} {policy : List Principal}
  {statements : List Statement} {scenario : Scenario} {rejected : List Digest}
  {evaluated : Evaluation} {transformations : LegacyNetwork} {snapshot : Digest}
  {targets : Finset Identifier} {reasons : List String}

theorem maintenance_of_evaluated
    (run : evaluateOnce w manifest contract policy statements rejected = .ok evaluated)
    (satisfied : evaluated.profile .exactSelfMaintenance = .satisfied) :
    ∃ transformations reasons, organization statements transformations
      (w.digestSnapshot (analysisSnapshot manifest contract statements))
      contract.targetStates.toFinset = .ok (.satisfied, reasons) := by
  rw [evaluateOnce] at run
  split at run
  · cases run
  · rename_i view _
    split at run
    · cases run
      cases satisfied
    · obtain ⟨⟨status, reasons⟩, maintained, run⟩ := bind_ok.mp run
      obtain ⟨typed, -, run⟩ := bind_ok.mp run
      obtain ⟨coordinated, -, run⟩ := bind_ok.mp run
      cases run
      refine ⟨view.transformations, reasons, ?_⟩
      have same : status = .satisfied := satisfied
      rw [maintained, same]

theorem fluxBalances_extends {flux : JsonObject} : ∀ {refs : List Identifier}
    {balances : Dict ℚ} {reasons : List String},
    reasons <+: (fluxBalances transformations flux refs balances reasons).2 := by
  intro refs
  induction refs with
  | nil => intro balances reasons; exact List.prefix_rfl
  | cons id refs ih =>
    intro balances reasons
    rw [fluxBalances]
    split
    · exact List.prefix_append _ _
    · dsimp only
      split
      · exact (List.prefix_append _ _).trans ih
      · exact (List.prefix_append _ _).trans (List.prefix_append _ _)

theorem finding_satisfied {given : List String} (satisfied : finding given = (.satisfied, reasons)) :
    given = [] := by
  rw [finding] at satisfied
  by_contra some
  rw [if_neg some] at satisfied
  cases satisfied

theorem snapshot_of_organization
    (run : organization statements transformations snapshot targets = .ok (.satisfied, reasons)) :
    ∃ witness, statements.filter Statement.isOrganizationWitness = [witness] ∧
      (witness.attributes.get "analysis_snapshot_digest").string? = some snapshot := by
  rw [organization] at run
  split at run
  · cases run
  · rename_i witness listed
    refine ⟨witness, listed, ?_⟩
    obtain ⟨produced, -, run⟩ := bind_ok.mp run
    dsimp only at run
    split at run
    · cases run
    · split_ifs at run
      · cases run
      · have none := finding_satisfied (Except.ok.inj run)
        have silent := (List.append_eq_nil_iff.mp none).1
        have before := List.prefix_nil.mp (silent ▸ fluxBalances_extends)
        simp only [witnessReasons, List.append_eq_nil_iff, reasonIf_eq_nil, not_not] at before
        exact before.1.1
  · cases run

/-- Attestations of one digest are of one kind: digests do not collide. -/
def Authentic (statements : List Statement) : Prop :=
  ∀ s ∈ statements, ∀ t ∈ statements, s.digest = t.digest → s.isWitness = t.isWitness

theorem attestations_length (authentic : Authentic statements) :
    (analysisSnapshot manifest contract statements).attestations.length =
      statements.countP fun s => !s.isWitness := by
  rw [analysisSnapshot, List.length_insertionSort, List.length_map, ← List.countP_eq_length_filter]
  refine List.countP_congr fun s listed => ?_
  simp only [decide_eq_true_eq, Bool.not_eq_true', analysisStatementDigests, List.mem_map,
    List.mem_filter, not_exists, not_and, and_imp]
  constructor
  · intro fresh
    by_contra witness
    exact fresh s listed (by simpa using witness) rfl
  · intro plain t listed' witness same
    rw [authentic t listed' s listed same, plain] at witness
    cases witness

theorem snapshot_ne (authentic : Authentic statements)
    (removed : ∃ s ∈ statements, s ∉ scenario.remaining statements ∧ s.isWitness = false) :
    analysisSnapshot (scenario.reduce manifest) contract (scenario.remaining statements) ≠
      analysisSnapshot manifest contract statements := by
  intro same
  have rest : (scenario.remaining statements) ⊆ statements := List.filter_subset_self _
  have lengths := congrArg (fun s : Snapshot => s.attestations.length) same
  rw [attestations_length authentic, attestations_length fun s listed t listed' =>
    authentic s (rest listed) t (rest listed'), Scenario.remaining,
    List.countP_eq_length_filter, List.countP_eq_length_filter, List.filter_comm] at lengths
  obtain ⟨s, listed, gone, plain⟩ := removed
  refine absurd lengths (List.length_filter_lt_length_iff_exists.mpr ⟨s, ?_, ?_⟩).ne
  · exact List.mem_filter.mpr ⟨listed, by rw [plain]; rfl⟩
  · exact fun stays => gone (List.mem_filter.mpr ⟨listed, stays⟩)

theorem organization_of_other {other : Digest} {transformations' : LegacyNetwork}
    (run : organization statements transformations snapshot targets = .ok (.satisfied, reasons))
    (different : other ≠ snapshot) {result : Finding}
    (run' : organization (scenario.remaining statements) transformations' other targets =
      .ok result) : result.1 ≠ .satisfied := by
  intro satisfied
  obtain ⟨status, reasons'⟩ := result
  cases satisfied
  obtain ⟨witness, listed, named⟩ := snapshot_of_organization run
  obtain ⟨witness', listed', named'⟩ := snapshot_of_organization run'
  have member : witness' ∈ statements.filter Statement.isOrganizationWitness := by
    have found := List.mem_filter.mp (listed'.symm ▸ List.mem_singleton_self witness')
    exact List.mem_filter.mpr ⟨(List.mem_filter.mp found.1).1, found.2⟩
  rw [listed, List.mem_singleton] at member
  subst member
  exact different (Option.some.inj (named'.symm.trans named))

theorem maintenance_of_replay
    (run : evaluateOnce w manifest contract policy statements rejected = .ok evaluated)
    (satisfied : evaluated.profile .exactSelfMaintenance = .satisfied)
    (authentic : Authentic statements)
    (collisionFree : ∀ s, w.digestSnapshot s =
      w.digestSnapshot (analysisSnapshot manifest contract statements) →
      s = analysisSnapshot manifest contract statements)
    (removed : ∃ s ∈ statements, s ∉ scenario.remaining statements ∧ s.isWitness = false)
    {replayed : Evaluation}
    (again : replay w manifest contract policy statements scenario = .ok replayed) :
    replayed.profile .exactSelfMaintenance ≠ .satisfied := by
  intro satisfied'
  obtain ⟨_, _, before⟩ := maintenance_of_evaluated run satisfied
  obtain ⟨_, _, after⟩ := maintenance_of_evaluated again satisfied'
  exact organization_of_other before
    (fun same => snapshot_ne authentic removed (collisionFree _ same)) after rfl

theorem robustness_unknown
    (run : evaluateOnce w manifest contract policy statements rejected = .ok evaluated) :
    evaluated.profile .perturbationRobustness = .unknown := by
  rw [evaluateOnce] at run
  split at run
  · cases run
  · split at run
    · cases run
      rfl
    · simp only [bind_ok, pure_ok] at run
      obtain ⟨_, _, _, _, _, _, rfl⟩ := run
      rfl

theorem failures_ne_nil {profile : Dimension → Status}
    (fails : profile .exactSelfMaintenance ≠ .satisfied) :
    (failures profile).isEmpty = false := by
  have listed : Dimension.exactSelfMaintenance.name ∈ failures profile := by
    rw [failures, List.mem_insertionSort]
    exact List.mem_map_of_mem (List.mem_filter.mpr ⟨by decide, decide_eq_true fails⟩)
  rw [List.isEmpty_eq_false_iff]
  exact List.ne_nil_of_mem listed

section suites
variable {found after : Robustness} {items : List Json} {suites : List Statement}

theorem replayScenarios_fragile
    (run : replayScenarios w manifest contract policy statements items found = .ok after)
    (fragile : found.robust = false ∨ ∃ item ∈ items, ∃ fields, members? item = some fields ∧
      ∀ replayed, replay w manifest contract policy statements (readScenario fields) =
        .ok replayed → replayed.profile .exactSelfMaintenance ≠ .satisfied) :
    after.robust = false := by
  induction items generalizing found with
  | nil =>
    cases run
    simpa using fragile
  | cons item items ih =>
    rw [replayScenarios] at run
    split at run
    · exact ih run (.inl rfl)
    · rename_i fields read
      obtain ⟨replayed, again, run⟩ := bind_ok.mp run
      refine ih run ?_
      rcases fragile with already | ⟨other, listed, fields', read', breaks⟩
      · exact .inl (by rw [already]; rfl)
      · cases listed with
        | head =>
          obtain rfl := Option.some.inj (read.symm.trans read')
          exact .inl (by rw [failures_ne_nil (breaks replayed again), Bool.and_false])
        | tail _ later => exact .inr ⟨other, later, fields', read', breaks⟩

theorem replaySuites_fragile
    (run : replaySuites w manifest contract policy statements suites found = .ok after)
    (fragile : found.robust = false ∨ ∃ suite ∈ suites,
      ∃ item ∈ (items? (suite.attributes.get "scenarios")).getD [], ∃ fields,
        members? item = some fields ∧
        ∀ replayed, replay w manifest contract policy statements (readScenario fields) =
          .ok replayed → replayed.profile .exactSelfMaintenance ≠ .satisfied) :
    after.robust = false := by
  induction suites generalizing found with
  | nil =>
    cases run
    simpa using fragile
  | cons suite suites ih =>
    rw [replaySuites] at run
    split_ifs at run
    · exact ih run (.inl rfl)
    · obtain ⟨middle, replayed, run⟩ := bind_ok.mp run
      refine ih run ?_
      rcases fragile with already | ⟨other, listed, breaks⟩
      · exact .inl (replayScenarios_fragile replayed (.inl already))
      · cases listed with
        | head => exact .inl (replayScenarios_fragile replayed (.inr breaks))
        | tail _ later => exact .inr ⟨other, later, breaks⟩

end suites

theorem evaluate_not_robust {results : List PerturbationResult}
    (run : evaluate w manifest contract policy statements rejected = .ok (evaluated, results))
    (satisfied : evaluated.profile .exactSelfMaintenance = .satisfied)
    (authentic : Authentic statements)
    (collisionFree : ∀ s, w.digestSnapshot s =
      w.digestSnapshot (analysisSnapshot manifest contract statements) →
      s = analysisSnapshot manifest contract statements)
    (removes : ∃ suite ∈ perturbationSuites contract statements,
      ∃ item ∈ (items? (suite.attributes.get "scenarios")).getD [], ∃ fields,
        members? item = some fields ∧
        ∃ s ∈ statements, s ∉ (readScenario fields).remaining statements ∧ s.isWitness = false) :
    evaluated.profile .perturbationRobustness ≠ .satisfied := by
  obtain ⟨once, audited, run⟩ := bind_ok.mp run
  split_ifs at run with exhausted
  · cases run
    rw [robustness_unknown audited]
    exact Status.noConfusion
  · dsimp only at run
    split_ifs at run
    · cases run
      simp
    · obtain ⟨found, replayed, run⟩ := bind_ok.mp run
      cases run
      obtain ⟨suite, listed, item, member, fields, read, removed⟩ := removes
      have fragile : found.robust = false :=
        replaySuites_fragile replayed (.inr ⟨suite, listed, item, member, fields, read,
          fun _ again => maintenance_of_replay audited satisfied authentic collisionFree removed
            again⟩)
      simp only [Function.update_self, fragile]
      split <;> simp

end removals

mutual

def mentions (id : String) : Json → Bool
  | .str value => value == id
  | .array items => mentionsItem id items
  | .object members => mentionsMember id members
  | _ => false

def mentionsItem (id : String) : List Json → Bool
  | [] => false
  | item :: rest => mentions id item || mentionsItem id rest

def mentionsMember (id : String) : List (String × Json) → Bool
  | [] => false
  | member :: rest => member.1 == id || mentions id member.2 || mentionsMember id rest

end

def Statement.refersTo (s : Statement) (id : Identifier) : Bool :=
  s.lineageRefs.contains id || s.correlationDomains.contains id || mentionsMember id s.attributes

/-- No kernel reads an attestation: its type is none that a kernel collects, it is no witness,
and nothing that stays refers to its subject or its key. -/
structure Unread (remaining : List Statement) (s : Statement) : Prop where
  type : s.recordType ∈ [RecordType.resourceObservation, .boundarySupply, .hazard,
    .infrastructure, .lineage, .evidence]
  plain : s.isWitness = false
  unreferenced : ∀ other ∈ remaining, other.refersTo s.subjectId = false ∧
    other.refersTo s.keyId = false

def NeutralReplay (w : Services) (manifest : Manifest) (contract : Contract)
    (policy : List Principal) (statements : List Statement) (scenario : Scenario)
    (evaluated : Evaluation) : Prop :=
  ∃ replayed, replay w manifest contract policy statements scenario = .ok replayed ∧
    ∀ dimension ∈ replayedDimensions, replayed.profile dimension = evaluated.profile dimension

/-- No replay that removes something is neutral, even if no kernel reads what it removes. -/
theorem unread_removal_not_neutral {w : Services} {manifest : Manifest} {contract : Contract}
    {policy : List Principal} {statements : List Statement} {scenario : Scenario}
    {rejected : List Digest} {evaluated : Evaluation}
    (run : evaluateOnce w manifest contract policy statements rejected = .ok evaluated)
    (satisfied : ∀ dimension ∈ replayedDimensions, evaluated.profile dimension = .satisfied)
    (authentic : Authentic statements)
    (collisionFree : ∀ s, w.digestSnapshot s =
      w.digestSnapshot (analysisSnapshot manifest contract statements) →
      s = analysisSnapshot manifest contract statements)
    (some : ∃ s ∈ statements, s ∉ scenario.remaining statements)
    (unread : ∀ s ∈ statements, s ∉ scenario.remaining statements →
      Unread (scenario.remaining statements) s) :
    ¬ NeutralReplay w manifest contract policy statements scenario evaluated := by
  rintro ⟨replayed, again, same⟩
  obtain ⟨s, listed, gone⟩ := some
  have maintains := satisfied .exactSelfMaintenance (by decide)
  refine maintenance_of_replay run maintains authentic collisionFree
    ⟨s, listed, gone, (unread s listed gone).plain⟩ again ?_
  rw [same .exactSelfMaintenance (by decide), maintains]

namespace Sample

def strings (texts : List String) : Json := .array (texts.map .str)

/-- An attestation of one source; its identifier also serves as its digests. -/
def statement (id : Identifier) (type : RecordType) (subject : Identifier)
    (attributes : JsonObject) : Statement where
  digest := id
  keyId := "key:" ++ id
  principalId := "principal:" ++ id
  attestationId := id
  recordType := type
  subjectId := subject
  subjectDigest := "subject:" ++ id
  sourceArtifactDigest := "raw:" ++ id
  attributes := attributes

def produce : JsonObject :=
  [("inputs", strings ["seed"]), ("outputs", strings ["target"]),
   ("explicitly_uncatalyzed", .bool true), ("catalyst_clauses", .array []),
   ("coordinate_flows", .object [("resource", .str "0")])]

def independenceRecord (id observer : Identifier) : Statement :=
  statement id .independence ("independence:" ++ id)
    [("observer_attestation_ref", .str observer), ("commitment_digest", .str "commitment")]

/-- The attestation that is removed, of a record type that no kernel reads. -/
def note : Statement := statement "note" .lineage "lineage:note" []

def kept : List Statement :=
  [statement "state" .state "seed" [("available", .bool true)],
   statement "transformation" .transformation "produce" produce,
   statement "verifier" .verifier "stage"
     [("arrival_upper", .str "1"), ("service_lower", .str "2"),
      ("source_record_digest", .str "subject:state"), ("source_refs", strings ["seed"])],
   independenceRecord "first" "second", independenceRecord "second" "first",
   statement "organization" .evidence "witness"
     [("evidence_type", .str "organization_witness"),
      ("analysis_snapshot_digest", .str "snapshot"), ("transformation_refs", strings ["produce"]),
      ("feasible_flux", .object [("produce", .str "1")])]]

def statements : List Statement := kept ++ [note]

def manifest : Manifest where
  contractDigest := "contract"
  trustPolicyDigest := "policy"
  trustedTimeReceiptDigest := some "time"
  analysisEpoch := some "2026-01-01T00:00:00Z"
  objects := [⟨"flow", "typed-flow-profile", "active", none⟩,
    ⟨"session", "coordination-session", "active", none⟩]
  quarantine := []

def contract : Contract where
  unitRegistryRef := "registry"
  targetStates := ["target"]
  maximumOperations := 100
  perturbationSuiteRefs := []

def policy : List Principal :=
  [⟨"root", "key:root", ["workspace_root"], ["infra:root"], false⟩,
   ⟨"auditor", "key:auditor", ["trust_auditor"], ["infra:auditor"], false⟩,
   ⟨"time", "key:time", ["timestamp"], ["infra:time"], false⟩]

def registry : JsonObject :=
  [("units", .object [("unit", .object []), ("second", .object [])])]

def flow : JsonObject :=
  [("analysis_snapshot_digest", .str "snapshot"), ("unit_registry_digest", .str "registry"),
   ("horizon_steps", .int 1), ("step_duration", .str "1"), ("time_unit", .str "second"),
   ("coordinates", .object [("resource", .object [("unit", .str "unit"), ("initial", .str "1"),
     ("protected_floor", .str "0")])]),
   ("transformations", .object [("produce", .object [("flow", .object [("resource", .str "0")])])]),
   ("action_counts", .array [.object [("produce", .str "1")]]),
   ("boundary_rates", .array [.object []]), ("fed_siphons", .array [])]

def session : JsonObject :=
  [("session_id", .str "session"), ("state", .str "TERMINATED"),
   ("verification_capacity_satisfied", .bool true), ("commitments", .object []),
   ("reveals", .object [])]

def digestSnapshot (snapshot : Snapshot) : Digest :=
  if snapshot = analysisSnapshot manifest contract statements then "snapshot" else "other"

def services : Services where
  getJson digest :=
    if digest = "registry" then .ok (.object registry)
    else if digest = "flow" then .ok (.object flow)
    else if digest = "session" then .ok (.object session)
    else .error (.crash .valueError)
  digestSnapshot := digestSnapshot
  digestRegistry _ := "registry"
  schemaReasons _ := []
  doctorOk := true

def scenario : Scenario := ⟨.str "without the note", {"lineage:note"}, ∅⟩

theorem audited : ∃ evaluated,
    evaluateOnce services manifest contract policy statements [] = .ok evaluated ∧
    ∀ dimension ∈ replayedDimensions, evaluated.profile dimension = .satisfied := by
  have profile : (evaluateOnce services manifest contract policy statements []).toOption.map
      (fun evaluated => replayedDimensions.map evaluated.profile) =
        some (List.replicate 12 .satisfied) := by decide +kernel
  cases run : evaluateOnce services manifest contract policy statements [] with
  | error fault => rw [run] at profile; cases profile
  | ok evaluated =>
    rw [run] at profile
    exact ⟨evaluated, rfl, (List.map_eq_replicate_iff.mp (Option.some.inj profile))⟩

theorem collisionFree (s : Snapshot) (same : services.digestSnapshot s =
    services.digestSnapshot (analysisSnapshot manifest contract statements)) :
    s = analysisSnapshot manifest contract statements := by
  by_contra different
  have digests : ∀ s, services.digestSnapshot s = digestSnapshot s := fun _ => rfl
  rw [digests, digests, digestSnapshot, digestSnapshot, if_pos rfl, if_neg different] at same
  revert same
  decide

theorem authentic : Authentic statements := by
  unfold Authentic
  decide +kernel

theorem removed_note : ∀ s ∈ statements, s ∉ scenario.remaining statements → s = note := by
  intro s listed gone
  have stays : ∀ s ∈ kept, s.subjectId ∉ scenario.removeSubjects ∧
      s.keyId ∉ scenario.removeKeyIds := by decide
  rcases List.mem_append.mp listed with listed' | listed'
  · exact absurd (List.mem_filter.mpr ⟨listed, decide_eq_true (stays s listed')⟩) gone
  · exact List.mem_singleton.mp listed'

theorem note_removed : note ∈ statements ∧ note ∉ scenario.remaining statements := by
  refine ⟨List.mem_append_right _ (List.mem_singleton_self _), fun stays => ?_⟩
  have kept := of_decide_eq_true (List.mem_filter.mp stays).2
  exact kept.1 (by decide)

theorem note_unread : Unread (scenario.remaining statements) note where
  type := by decide
  plain := by decide
  unreferenced := by decide +kernel

end Sample

theorem unread_removal_not_neutral_sample : ∃ evaluated,
    evaluateOnce Sample.services Sample.manifest Sample.contract Sample.policy
      Sample.statements [] = .ok evaluated ∧
    ¬ NeutralReplay Sample.services Sample.manifest Sample.contract Sample.policy
      Sample.statements Sample.scenario evaluated := by
  obtain ⟨evaluated, run, satisfied⟩ := Sample.audited
  exact ⟨evaluated, run, unread_removal_not_neutral run satisfied Sample.authentic
    Sample.collisionFree ⟨Sample.note, Sample.note_removed⟩ fun s listed gone => by
      rw [Sample.removed_note s listed gone]
      exact Sample.note_unread⟩

/-- An audit with all dimensions satisfied, and the replay without a note that nothing reads. -/
theorem unread_note_breaks_replay : ∃ evaluated,
    evaluateOnce Sample.services Sample.manifest Sample.contract Sample.policy
      Sample.statements [] = .ok evaluated ∧
    (∀ dimension ∈ replayedDimensions, evaluated.profile dimension = .satisfied) ∧
    Sample.note ∈ Sample.statements ∧
    (∀ s ∈ Sample.statements, s ∉ Sample.scenario.remaining Sample.statements →
      Unread (Sample.scenario.remaining Sample.statements) s) ∧
    ¬ NeutralReplay Sample.services Sample.manifest Sample.contract Sample.policy
      Sample.statements Sample.scenario evaluated := by
  obtain ⟨evaluated, run, satisfied⟩ := Sample.audited
  refine ⟨evaluated, run, satisfied, Sample.note_removed.1, fun s listed gone => ?_, ?_⟩
  · rw [Sample.removed_note s listed gone]
    exact Sample.note_unread
  · rintro ⟨replayed, again, same⟩
    have violated : (replay Sample.services Sample.manifest Sample.contract Sample.policy
        Sample.statements Sample.scenario).toOption.map (·.profile .exactSelfMaintenance) =
          some .violated := by decide +kernel
    rw [again] at violated
    have differs : replayed.profile .exactSelfMaintenance = .violated := Option.some.inj violated
    rw [same .exactSelfMaintenance (by decide), satisfied .exactSelfMaintenance (by decide)]
      at differs
    cases differs

end Organization
end CollectivePhaseControl
