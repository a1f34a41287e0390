import CollectivePhaseControl.GrowthStep

/-! Validation of a growth contract and of a frontier, and what a contract that
passes it provides to every run. -/
namespace CollectivePhaseControl

variable (hash : Hashing)

def capacityCoordinates : List Identifier := ["task", "research", "verification"]

def chargeCategories : List Identifier :=
  ["generation", "verification", "repair", "calibration", "communication", "comparison",
   "evidence", "joint-activity", "investment", "planner"]

def contractDigest (contract : GrowthContract) : Digest :=
  hash.document (contract.document .growthContract)

def chargeTotals (effect : GrowthSuccessor) : Identifier → ℚ :=
  (effect.charges.toList.map fun p => balance p.2).sum

def knownOutcomes : List OutcomeName := [.success, .partialOutcome, .failure, .timeout]

/-! Lookups that reject a missing object or one of another kind. -/

def registeredAction (objects : Objects) (digest : Digest) : Checked ActionSpec :=
  match objects[digest]? with
  | some ⟨_, _, .action spec⟩ => .ok spec
  | _ => .error (.coded "growth_action_missing")

def registeredCapability (objects : Objects) (digest : Digest) : Checked CapabilitySpec :=
  match objects[digest]? with
  | some ⟨_, _, .capability spec⟩ => .ok spec
  | _ => .error (.coded "growth_capability_missing")

def registeredSnapshot (objects : Objects) (digest : Digest) : Checked SnapshotSpec :=
  match objects[digest]? with
  | some ⟨_, _, .analysisSnapshot spec⟩ => .ok spec
  | _ => .error (.coded "growth_snapshot_missing")

def registeredUnits (objects : Objects) (digest : Digest) : Checked UnitRegistrySpec :=
  match objects[digest]? with
  | some ⟨_, _, .unitRegistry spec⟩ => .ok spec
  | _ => .error (.coded "growth_units_missing")

def validateDomain (units : UnitRegistrySpec) (coordinate : Identifier) (domain : GrowthDomain) :
    Checked Unit := do
  require (0 < F domain.target ∧ 0 < F domain.serviceFloor ∧
    (0 ≤ F domain.qualityFloor ∧ F domain.qualityFloor ≤ 1) ∧
    (0 ≤ F domain.coverageFloor ∧ F domain.coverageFloor ≤ 1)) "growth_domain_invalid"
  require (units.coordinateUnits[coordinate]? = some domain.unit) "growth_units_mismatch"

def validateWindow (c : GrowthContractSpec) (w : GrowthWindow) : Checked Unit :=
  require ((0 ≤ F w.start ∧ F w.start < F w.stop ∧ F w.stop ≤ F c.deadline) ∧
    1 < F w.taskFactor ∧ 1 < F w.researchFactor) "growth_window_invalid"

def validateSuccessor (c : GrowthContractSpec) (cap : CapabilitySpec) (effect : GrowthSuccessor) :
    Checked Unit := do
  require (effect.applicableModelIds ⊆ c.modelCatalogue) "growth_model_domain"
  let branch ← outcomeBranch cap effect.outcome
  require (0 < F effect.duration ∧ F effect.duration ≤ F branch.timeUpper)
    "growth_duration_invalid"
  require ((∀ key ∈ effect.capacityDelta.keys, key ∈ c.domains) ∧
    (∀ key ∈ effect.quality.keys, key ∈ c.domains) ∧
    (∀ key ∈ effect.coverage.keys, key ∈ c.domains)) "growth_domains_mismatch"
  checkIntervals effect.capacityDelta false
  require (effect.charges.keys ⊆ chargeCategories) "growth_charge_category"
  effect.charges.values.forM fun charge => do
    require (∀ key ∈ charge.keys, key ∈ c.resourceUnits) "growth_resource_domain"
    checkNonnegative charge
  require (∀ key ∈ branch.resourceDeltaLower.keys, key ∈ c.resourceUnits) "growth_resource_domain"
  let keys := (effect.charges.values.flatMap fun charge => charge.keys) ++
    branch.resourceDeltaLower.keys
  require (∀ key ∈ keys,
    balance branch.resourceDeltaLower key ≤ -chargeTotals effect key ∧
      -chargeTotals effect key ≤ balance branch.resourceDeltaUpper key) "growth_capability_effect"
  require (∀ key ∈ c.monetaryResource, key ∈ c.resourceUnits) "growth_resource_domain"
  require (F branch.costUpper ≤ chargeTotals effect (c.monetaryResource.getD ""))
    "growth_unfunded_monetary_cost"
  require (branch.debt ++ branch.rollbackObligations ⊆ GrowthState.workIds effect.debtAdded)
    "growth_unaccounted_obligation"
  require (backlog effect.arrivals "verification" ≤ F branch.verificationLoadUpper)
    "growth_capability_effect"

def validateRecipe (c : GrowthContractSpec) (objects : Objects) (ids : List Identifier)
    (recipe : GrowthAction) : Checked (List Identifier) := do
  let action ← registeredAction objects recipe.actionDigest
  let cap ← registeredCapability objects action.capabilityDigest
  let schema ← demand .valueError (hash.schema cap.outputSchemaName)
  require (cap.outputSchemaDigest = schema) "growth_capability_schema"
  require (action.actionId ∉ ids) "growth_action_duplicate"
  require (0 ≤ F recipe.earliest ∧ F recipe.earliest < F recipe.expires) "growth_time_invalid"
  require (∀ key ∈ recipe.minimumCapacities.keys, key ∈ c.domains) "growth_domains_mismatch"
  checkNonnegative recipe.minimumCapacities
  require (∀ outcome ∈ knownOutcomes, outcome ∈ recipe.successors.map (·.outcome))
    "growth_successor_incomplete"
  require (recipe.successors.map (·.successorId)).Nodup "growth_successor_duplicate"
  require (c.modelCatalogue ⊆ recipe.successors.flatMap (·.applicableModelIds))
    "growth_successor_incomplete"
  recipe.successors.forM (validateSuccessor c cap)
  pure (action.actionId :: ids)

def validateDomains (c : GrowthContractSpec) (units : UnitRegistrySpec) : Checked Unit := do
  require (∀ key ∈ capacityCoordinates, key ∈ c.domains) "growth_domains_missing"
  require (c.domains.keys = c.initialState.capacities.keys ∧
    c.initialState.capacities.keys = c.initialState.quality.keys ∧
    c.initialState.quality.keys = c.initialState.coverage.keys) "growth_domains_mismatch"
  require (c.resourceUnits.keys = c.initialState.resources.keys ∧
    (∀ key ∈ c.costOrder, key ∈ c.resourceUnits) ∧
    (∀ key ∈ c.resourceUnits.keys, key ∈ c.costOrder) ∧ c.costOrder.Nodup)
    "growth_resource_domain"
  require (∀ key ∈ c.resourceFloors.keys, key ∈ c.resourceUnits) "growth_resource_domain"
  require (∀ key ∈ c.planningCharge.keys, key ∈ c.resourceUnits) "growth_resource_domain"
  require (c.sharedResources.keys = c.jointCoefficients.keys) "growth_reservation_domain"
  require (c.queueLimits.keys = c.debtLimits.keys ∧ c.debtLimits.keys = c.domains.keys)
    "growth_queue_domain"
  c.domains.toList.forM fun p => validateDomain units p.1 p.2
  c.resourceUnits.toList.forM fun p =>
    require (units.coordinateUnits[p.1]? = some p.2) "growth_units_mismatch"
  require (∀ definition ∈ units.units.values, 0 < F definition.scale) "growth_units_mismatch"
  require ((units.units[units.timeUnit]?.map (·.dimensions)) =
    some ((∅ : Dict ℤ).insert "time" 1)) "growth_units_mismatch"

def validateTerms (c : GrowthContractSpec) (units : UnitRegistrySpec) : Checked Unit := do
  require (c.modelTimeOrigin.offset.isSome = true) "growth_time_invalid"
  require (∀ unit ∈ c.domains.values.map (·.unit) ++ c.resourceUnits.values, unit ∈ units.units)
    "growth_units_mismatch"
  require (0 < F c.deadline ∧ 0 < F c.continuationHorizon ∧
    F c.deadline ≤ F c.jointServiceUntil ∧ 0 ≤ F c.planningDuration) "growth_time_invalid"
  require (1 < F c.continuationTaskFactor ∧ 1 < F c.continuationResearchFactor ∧
    0 < F c.comparisonMargin) "growth_factor_invalid"
  require (c.modelCatalogue.Nodup ∧ c.initialState.modelIds ⊆ c.modelCatalogue)
    "growth_model_domain"
  require (c.windows.map hash.window).Nodup "growth_window_invalid"
  c.windows.forM (validateWindow c)
  [c.sharedResources, c.resourceFloors, c.queueLimits, c.debtLimits, c.planningCharge].forM
    checkNonnegative
  c.jointCoefficients.values.forM fun coefficients => do
    require (∀ key ∈ coefficients.keys, key ∈ c.domains) "growth_reservation_domain"
    checkNonnegative coefficients

def validateContract (contract : GrowthContract) (objects : Objects) : Checked Unit := do
  let c := contract.spec
  require (∀ p ∈ objects.toList, p.1 = hash.document p.2) "growth_object_digest"
  let snapshot ← registeredSnapshot objects c.analysisSnapshotDigest
  let units ← registeredUnits objects c.unitRegistryDigest
  require (snapshot.unitRegistryDigest = c.unitRegistryDigest) "growth_units_mismatch"
  validateDomains c units
  validateTerms hash c units
  let _ ← c.actionCatalogue.foldlM (validateRecipe hash c objects) []
  require (c.comparators.map (·.comparatorId)).Nodup "growth_comparator_duplicate"
  checkState c c.initialState

def namedCatalogue (c : GrowthContractSpec) (objects : Objects) :
    Checked (List (Identifier × GrowthAction)) :=
  c.actionCatalogue.mapM fun r => do
    pure ((← actionDocument objects r.actionDigest).actionId, r)

/-- `actions.get(name)`: the last action of a name wins. -/
def namedAction (actions : List (Identifier × GrowthAction)) (name : Identifier) :
    Option GrowthAction := actions.reverse.lookup name

def specAt (objects : Objects) (digest : Digest) : Option DocumentSpec :=
  (objects[digest]?).map (·.spec)

def validateBinding (objects : Objects) (actions : List (Identifier × GrowthAction))
    (binding : GrowthFrontierBinding) : Checked Unit :=
  match specAt objects binding.actionDigest, specAt objects binding.capabilityDigest,
    specAt objects binding.executionPolicyDigest with
  | some (.action action), some (.capability cap), some (.executionPolicy allowed) => do
    let recipe ← demand .keyError (namedAction actions binding.actionId)
    require (recipe.actionDigest = binding.actionDigest ∧
      action.actionId = binding.actionId ∧
      action.capabilityDigest = binding.capabilityDigest ∧
      cap.outputSchemaDigest = binding.outputSchemaDigest ∧
      cap.executionPolicyDigest = binding.executionPolicyDigest ∧
      cap.imageDigest ∈ allowed) "growth_frontier_binding_mismatch"
  | _, _, _ => .error (.coded "growth_frontier_object_missing")

def validateRule (c : GrowthContractSpec) (objects : Objects)
    (actions : List (Identifier × GrowthAction)) (rule : GrowthActivationRule) : Checked Unit := do
  require (∃ recipe ∈ namedAction actions rule.producerActionId,
    rule.producerSuccessorId ∈ recipe.successors.map (·.successorId))
    "growth_frontier_producer_mismatch"
  require (rule.activatedActionIds ⊆ actions.map (·.1) ∧ rule.activatedActionIds.Nodup)
    "growth_frontier_target_undeclared"
  require (∀ digest ∈ rule.requiredCapabilityDigests, isCapability objects digest = true)
    "growth_frontier_capability_missing"
  require (rule.requiredModelIds ⊆ c.modelCatalogue ∧
    (∀ key ∈ rule.minimumCapacities.keys, key ∈ c.domains) ∧
    (∀ key ∈ rule.minimumResources.keys, key ∈ c.resourceUnits) ∧
    (∀ v ∈ rule.minimumCapacities.values ++ rule.minimumResources.values, 0 ≤ F v) ∧
    0 ≤ F rule.validFrom ∧ F rule.validFrom < F rule.expires ∧ F rule.expires ≤ F c.deadline)
    "growth_frontier_condition_invalid"

def validateFrontier (contract : GrowthContract) (objects : Objects)
    (frontier : GrowthCapabilityFrontier) : Checked Unit := do
  let f := frontier.spec
  require (f.contractDigest = contractDigest hash contract) "growth_frontier_contract_mismatch"
  let actions ← namedCatalogue contract.spec objects
  let names := actions.map (·.1)
  let initial := f.initialEnabledActionIds
  let latent := f.latentActionIds
  require (initial.Nodup ∧ latent.Nodup ∧ (∀ name ∈ initial, name ∉ latent) ∧
    initial ++ latent ⊆ names ∧ names ⊆ initial ++ latent) "growth_frontier_partition_invalid"
  let bound := f.bindings.map (·.actionId)
  require (bound.Nodup ∧ bound ⊆ names ∧ names ⊆ bound) "growth_frontier_binding_missing"
  require (f.maximumActivationDepth ≤ contract.spec.maxDecisions) "growth_frontier_depth_overflow"
  f.bindings.forM (validateBinding objects actions)
  require (f.activationRules.map (·.ruleId)).Nodup "growth_frontier_rule_duplicate"
  f.activationRules.forM (validateRule contract.spec objects actions)
  let carried := f.initialActivationLineage.map (·.actionId)
  require (carried.Nodup ∧ carried ⊆ initial) "growth_frontier_lineage_invalid"
  let _ ← checkFrontierState hash (← seed hash contract.spec.initialState frontier) frontier
  pure ()

theorem checkNonnegative_ok {values : Dict Rational} {u : Unit} :
    checkNonnegative values = .ok u ↔ ∀ v ∈ values.values, 0 ≤ F v := require_ok

theorem balance_nonneg {m : Dict Rational} (h : ∀ v ∈ m.values, 0 ≤ F v) (key : Identifier) :
    0 ≤ balance m key := by
  by_cases present : key ∈ m
  · have found := Std.ExtTreeMap.getElem?_eq_some_getElem present
    rw [balance_of_mem found]
    exact h _ (Dict.mem_values.mpr ⟨key, found⟩)
  · rw [balance_of_notMem present]

structure EffectFacts (effect : GrowthSuccessor) : Prop where
  duration : 0 < F effect.duration
  categories : effect.charges.keys ⊆ chargeCategories
  charges : ∀ bucket ∈ effect.charges.values, ∀ v ∈ bucket.values, 0 ≤ F v

structure RecipeFacts (c : GrowthContractSpec) (recipe : GrowthAction) : Prop where
  distinct : (recipe.successors.map (·.successorId)).Nodup
  covers : c.modelCatalogue ⊆ recipe.successors.flatMap (·.applicableModelIds)
  effects : ∀ effect ∈ recipe.successors, EffectFacts effect

/-- The part of a validated contract that every run relies on. -/
structure ContractFacts (c : GrowthContractSpec) (objects : Objects) : Prop where
  coordinates : ∀ key ∈ capacityCoordinates, key ∈ c.domains
  targets : ∀ domain ∈ c.domains.values, 0 < F domain.target
  costs : c.costOrder.Nodup
  horizon : 0 < F c.continuationHorizon
  planningCharge : ∀ v ∈ c.planningCharge.values, 0 ≤ F v
  recipes : ∀ recipe ∈ c.actionCatalogue, RecipeFacts c recipe
  named : ∃ ids : List Identifier, ids.Nodup ∧
    List.Forall₂ (fun recipe id => ∃ action,
      actionDocument objects recipe.actionDigest = .ok action ∧ action.actionId = id)
      c.actionCatalogue ids

theorem validateSuccessor_ok {c : GrowthContractSpec} {cap : CapabilitySpec}
    {effect : GrowthSuccessor} {u : Unit} (h : validateSuccessor c cap effect = .ok u) :
    EffectFacts effect := by
  simp only [validateSuccessor, bind_ok, require_ok, forM_ok, checkNonnegative_ok] at h
  obtain ⟨-, -, branch, -, -, duration, -, -, -, -, -, categories, -, charges, -⟩ := h
  refine ⟨duration.1, categories, fun bucket member => ?_⟩
  obtain ⟨-, -, nonnegative⟩ := charges bucket member
  exact nonnegative

theorem registeredAction_ok {objects : Objects} {digest : Digest} {spec : ActionSpec}
    (h : registeredAction objects digest = .ok spec) : actionDocument objects digest = .ok spec := by
  unfold registeredAction at h
  split at h
  case h_1 found =>
    cases h
    simp [actionDocument, Dict.item, found]
    rfl
  case h_2 => simp at h

theorem validateRecipe_ok {c : GrowthContractSpec} {objects : Objects}
    {ids ids' : List Identifier} {recipe : GrowthAction}
    (h : validateRecipe hash c objects ids recipe = .ok ids') :
    RecipeFacts c recipe ∧ ∃ action, actionDocument objects recipe.actionDigest = .ok action ∧
      action.actionId ∉ ids ∧ ids' = action.actionId :: ids := by
  simp only [validateRecipe, bind_ok, require_ok, forM_ok, pure_ok] at h
  obtain ⟨action, registered, cap, -, schema, -, -, -, -, fresh, -, -, -, -, -, -, -, -, -, distinct,
    -, covers, -, effects, rfl⟩ := h
  exact ⟨⟨distinct, covers, fun effect member => validateSuccessor_ok (effects effect member)⟩,
    action, registeredAction_ok registered, fresh, rfl⟩

theorem validateRecipes_ok {c : GrowthContractSpec} {objects : Objects} {ids : List Identifier}
    {recipes : List GrowthAction}
    (h : recipes.foldlM (validateRecipe hash c objects) [] = .ok ids) :
    (∀ recipe ∈ recipes, RecipeFacts c recipe) ∧ ids.reverse.Nodup ∧
      List.Forall₂ (fun recipe id => ∃ action,
        actionDocument objects recipe.actionDigest = .ok action ∧ action.actionId = id)
        recipes ids.reverse := by
  refine foldlM_invariant (fun done ids => (∀ recipe ∈ done, RecipeFacts c recipe) ∧
    ids.reverse.Nodup ∧ List.Forall₂ (fun recipe id => ∃ action,
      actionDocument objects recipe.actionDigest = .ok action ∧ action.actionId = id)
      done ids.reverse) ?_ (by simp) h
  intro done recipe ids ids' ⟨facts, distinct, named⟩ step
  obtain ⟨recipeFacts, action, found, fresh, rfl⟩ := validateRecipe_ok hash step
  rw [List.forall_mem_append, List.forall_mem_singleton, List.reverse_cons]
  refine ⟨⟨facts, recipeFacts⟩, ?_, List.rel_append named (.cons ⟨action, found, rfl⟩ .nil)⟩
  rw [List.nodup_append]
  refine ⟨distinct, List.nodup_singleton _, fun id member other last => ?_⟩
  rw [List.mem_singleton] at last
  rintro rfl
  exact fresh (last ▸ List.mem_reverse.mp member)

theorem validateDomains_ok {c : GrowthContractSpec} {units : UnitRegistrySpec} {u : Unit}
    (h : validateDomains c units = .ok u) :
    (∀ key ∈ capacityCoordinates, key ∈ c.domains) ∧
      (∀ domain ∈ c.domains.values, 0 < F domain.target) ∧ c.costOrder.Nodup := by
  simp only [validateDomains, bind_ok, require_ok, forM_ok, validateDomain] at h
  obtain ⟨-, coordinates, -, -, -, resources, -, -, -, -, -, -, -, -, -, domains, -⟩ := h
  refine ⟨coordinates, fun domain member => ?_, resources.2.2.2⟩
  obtain ⟨p, listed, rfl⟩ := List.mem_map.mp member
  obtain ⟨-, signs, -⟩ := domains p listed
  exact signs.1

theorem validateTerms_ok {c : GrowthContractSpec} {units : UnitRegistrySpec} {u : Unit}
    (h : validateTerms hash c units = .ok u) :
    0 < F c.continuationHorizon ∧ ∀ v ∈ c.planningCharge.values, 0 ≤ F v := by
  simp only [validateTerms, bind_ok, require_ok, forM_ok, checkNonnegative_ok] at h
  obtain ⟨-, -, -, -, -, times, -, -, -, -, -, -, -, -, -, signs, -⟩ := h
  exact ⟨times.2.1, signs c.planningCharge (by simp)⟩

theorem validateContract_ok {contract : GrowthContract} {objects : Objects} {u : Unit}
    (h : validateContract hash contract objects = .ok u) : ContractFacts contract.spec objects := by
  simp only [validateContract, bind_ok] at h
  obtain ⟨-, -, -, -, units, -, -, -, ⟨⟩, domains, ⟨⟩, terms, ids, recipes, -⟩ := h
  obtain ⟨coordinates, targets, costs⟩ := validateDomains_ok domains
  obtain ⟨horizon, planningCharge⟩ := validateTerms_ok hash terms
  obtain ⟨recipeFacts, distinct, named⟩ := validateRecipes_ok hash recipes
  exact ⟨coordinates, targets, costs, horizon, planningCharge, recipeFacts, ids.reverse, distinct,
    named⟩

/-! Two actions on one model: `idle` adds nothing and lapses at time one, `grow` adds one
unit of task and research service and measures the entry evidence. -/
namespace Sample

def dict {α : Type} (entries : List (Identifier × α)) : Dict α := .ofList entries

def each {α : Type} (keys : List Identifier) (value : α) : Dict α :=
  dict (keys.map fun key => (key, value))

def whole (n : ℕ) : Rational := .ofNat n

def flat (n : ℕ) : GrowthInterval := ⟨whole n, whole n⟩

def metadata (name : Identifier) : Metadata := ⟨"synthetic", "growth-example", name, ⟨0, some 0⟩⟩

def units : UnitRegistrySpec where
  units := dict [("action", ⟨dict [("action", 1)], whole 1⟩), ("second", ⟨dict [("time", 1)], whole 1⟩),
    ("unit", ⟨dict [("budget", 1)], whole 1⟩)]
  coordinateUnits := each ["task", "research", "verification", "credits", "tokens"] "unit"
  timeUnit := "second"
  actionUnit := "action"

def snapshot : SnapshotSpec where
  generationDigest := "generation"
  analysisBasisDigest := "basis"
  contractDigest := "phase-contract"
  trustPolicyDigest := "policy"
  trustedTimeReceiptDigest := "time"
  unitRegistryDigest := "units"
  objectDigests := ["units"]
  witnessDigests := []
  targetIds := ["task"]
  protectedFloors := ∅
  minimumIndependentDomains := 1
  requiredDimensions := ["provenance_integrity"]

def branch (outcome : OutcomeName) : BranchEffect where
  outcome := outcome
  mustAdd := []
  mayAdd := []
  mustRemove := []
  mayRemove := []
  resourceDeltaLower := dict [("credits", str (-1))]
  resourceDeltaUpper := dict [("credits", str (-1))]
  debt := []
  rollbackObligations := []
  hazardsAdded := []
  hazardsRemoved := []
  timeUpper := whole 1
  costUpper := whole 0
  verificationLoadUpper := whole 0

def capability : CapabilitySpec where
  executionPolicyDigest := "execution-policy"
  imageDigest := "image"
  outputSchemaName := "growth-observation"
  outputSchemaDigest := "schema"
  repeatable := true
  branches := knownOutcomes.map branch

def action (name : Identifier) : ActionSpec := ⟨name, "capability", [], [], []⟩

/-- Only `success` applies to the nominal model. -/
def effect (outcome : OutcomeName) (model : Identifier) (gain : ℕ)
    (evidence : Dict Rational) : GrowthSuccessor where
  successorId := model
  outcome := outcome
  applicableModelIds := [model]
  duration := whole 1
  capacityDelta := each ["task", "research"] (flat gain)
  quality := ∅
  coverage := ∅
  charges := dict [("investment", dict [("credits", whole 1)])]
  reservations := []
  arrivals := []
  debtAdded := []
  offeredService := ∅
  completedWork := ∅
  evidenceAdded := evidence
  evidenceRemoved := []
  pendingAdded := []
  pendingResolved := []
  assumptionsAdded := ∅
  assumptionsRemoved := []
  attribution := .endogenous

def recipe (name : Identifier) (interactions : List Identifier) (expires gain : ℕ)
    (evidence : Dict Rational) : GrowthAction where
  actionDigest := name
  requiredEvidence := []
  requiredAssumptions := []
  minimumCapacities := ∅
  interactions := interactions
  earliest := whole 0
  expires := whole expires
  successors := [effect .success "nominal" gain evidence, effect .partialOutcome "partial" 0 ∅,
    effect .failure "failure" 0 ∅, effect .timeout "timeout" 0 ∅]

def grow : GrowthAction := recipe "grow" ["reuse"] 2 1 (dict [("measured", whole 2)])

def idle : GrowthAction := recipe "idle" [] 1 0 ∅

def coordinates : List Identifier := ["task", "research", "verification"]

def declared : GrowthState where
  capacities := each coordinates (flat 1)
  quality := each coordinates (whole 1)
  coverage := each coordinates (whole 1)
  resources := dict [("credits", whole 8), ("tokens", whole 8)]
  reservations := []
  queue := []
  obligations := []
  elapsed := whole 0
  checkpoints := []
  evidence := ∅
  pendingResults := []
  usedActions := []
  assumptions := ∅
  modelIds := ["nominal"]
  spent := ∅
  charges := ∅
  offered := ∅
  completed := ∅
  attribution := .endogenous
  actualEvidenceDigests := []
  liveObjectDigests := []
  hazards := []
  frontier := none

def terms : GrowthContractSpec where
  analysisSnapshotDigest := "snapshot"
  unitRegistryDigest := "units"
  modelTimeOrigin := ⟨0, some 0⟩
  domains := dict [("task", ⟨"unit", whole 2, whole 1, whole 1, whole 1⟩),
    ("research", ⟨"unit", whole 2, whole 1, whole 1, whole 1⟩),
    ("verification", ⟨"unit", whole 1, whole 1, whole 1, whole 1⟩)]
  resourceUnits := each ["credits", "tokens"] "unit"
  resourceFloors := ∅
  sharedResources := dict [("gpu", whole 100)]
  jointCoefficients := dict [("gpu", each coordinates (whole 1))]
  jointServiceUntil := whole 2
  queueLimits := each coordinates (whole 10)
  debtLimits := each coordinates (whole 10)
  blockingObligationIds := []
  requiredEntryEvidence := ["measured"]
  modelCatalogue := ["nominal", "partial", "failure", "timeout"]
  initialState := declared
  windows := [⟨whole 0, whole 1, whole 2, whole 2⟩]
  continuationHorizon := whole 1
  continuationTaskFactor := str (3 / 2)
  continuationResearchFactor := str (3 / 2)
  deadline := whole 2
  maxDecisions := 2
  actionCatalogue := [grow, idle]
  comparators := [⟨"without-reuse", ["reuse"]⟩]
  comparisonMargin := str (1 / 10)
  costOrder := ["credits", "tokens"]
  monetaryResource := none
  searchLimits := ⟨64, 64, 64, 64, 4⟩
  planningCharge := dict [("credits", whole 1)]
  planningDuration := whole 0
  planningBoundary := .sharedBudget

def contract : GrowthContract := ⟨metadata "contract", ∅, terms⟩

def objects : Objects := dict [
  ("units", ⟨metadata "units", ∅, .unitRegistry units⟩),
  ("snapshot", ⟨metadata "snapshot", ∅, .analysisSnapshot snapshot⟩),
  ("capability", ⟨metadata "capability", ∅, .capability capability⟩),
  ("grow", ⟨metadata "grow", ∅, .action (action "grow")⟩),
  ("idle", ⟨metadata "idle", ∅, .action (action "idle")⟩)]

/-- Digests that tell apart what occurs in the sample: objects by name, ledgers and
checkpoints by time and service. -/
def digests : Hashing where
  document d := d.metadata.objectId
  state s := s.elapsed.text ++ ":" ++ String.intercalate "," (s.capacities.values.map (·.lower.text))
  checkpoint p := p.time.text ++ ":" ++ String.intercalate "," (p.capacities.values.map (·.lower.text))
  node n := n.stateDigest ++ (n.actionId.getD "")
  successor e := e.successorId
  window w := w.start.text ++ ":" ++ w.stop.text
  schema _ := some "schema"
  inputs c _ _ := "inputs:" ++ c
  checker input policy o := input ++ ":" ++ policy ++ ":" ++ o.worstEntryTime.text

theorem valid : validateContract digests contract objects = .ok () := by decide +kernel

end Sample

end CollectivePhaseControl
