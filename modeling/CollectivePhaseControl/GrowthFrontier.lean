import CollectivePhaseControl.GrowthLedger

/-! Finite model enablement. A frontier adds to the ledger the set of enabled actions
and, for each action enabled on the way, the record of the step that enabled it. -/
namespace CollectivePhaseControl

variable (hash : Hashing)

def baseState (s : GrowthState) : GrowthState := { s with frontier := none }

def frontierDigest (f : GrowthCapabilityFrontier) : Digest :=
  hash.document (f.document .growthCapabilityFrontier)

def maximumDepth (lineage : List GrowthActivation) : ℕ := (lineage.map (·.depth)).foldl max 0

def sortedLineage (lineage : List GrowthActivation) : List GrowthActivation :=
  lineage.insertionSort (fun a b => a.actionId ≤ b.actionId)

def seed (s : GrowthState) (f : GrowthCapabilityFrontier) : Checked GrowthState :=
  { baseState s with
    frontier := some
      { frontierDigest := frontierDigest hash f
        enabledActionIds := f.spec.initialEnabledActionIds.insertionSort (· ≤ ·)
        activationDepth := maximumDepth f.spec.initialActivationLineage
        activationLineage := sortedLineage f.spec.initialActivationLineage } }.validate

/-- `{x.action_id: x for x in lineage}`: the last record of an action wins. -/
def lineageOf (lineage : List GrowthActivation) (action : Identifier) : Option GrowthActivation :=
  lineage.reverse.find? (·.actionId = action)

/-- `{x.rule_id: x for x in rules}`. -/
def ruleOf (f : GrowthCapabilityFrontier) (rule : Identifier) : Option GrowthActivationRule :=
  f.spec.activationRules.reverse.find? (·.ruleId = rule)

/-- Enabled from the start and not through a carried record. -/
def initiallyEnabled (f : GrowthCapabilityFrontier) (action : Identifier) : Prop :=
  action ∈ f.spec.initialEnabledActionIds ∧
    action ∉ f.spec.initialActivationLineage.map (·.actionId)

instance (f : GrowthCapabilityFrontier) (action : Identifier) :
    Decidable (initiallyEnabled f action) := by unfold initiallyEnabled; infer_instance

def lineageEventValid (f : GrowthCapabilityFrontier) (s : GrowthState)
    (lineage : List GrowthActivation) (event : GrowthActivation) : Prop :=
  match ruleOf f event.ruleId with
  | none => False
  | some rule =>
    event.actionId ∈ rule.activatedActionIds ∧
      event.producerActionId = rule.producerActionId ∧
      event.producerSuccessorId = rule.producerSuccessorId ∧
      F event.modelTime ≤ F s.elapsed ∧
      match lineageOf lineage event.producerActionId with
      | none => initiallyEnabled f event.producerActionId ∧ event.depth = 1
      | some parent => event.depth = parent.depth + 1 ∧ F parent.modelTime < F event.modelTime

instance (f : GrowthCapabilityFrontier) (s : GrowthState) (lineage : List GrowthActivation)
    (event : GrowthActivation) : Decidable (lineageEventValid f s lineage event) := by
  unfold lineageEventValid
  split
  · infer_instance
  · split <;> infer_instance

def checkFrontierState (s : GrowthState) (f : GrowthCapabilityFrontier) :
    Checked FrontierFacet := do
  match s.frontier with
  | none => .error (.coded "growth_frontier_state_missing")
  | some facet =>
    require (facet.frontierDigest = frontierDigest hash f) "growth_frontier_digest_mismatch"
    let recorded := facet.activationLineage.map (·.actionId)
    let carried := f.spec.initialActivationLineage
    let initial := f.spec.initialEnabledActionIds.filter (initiallyEnabled f ·)
    require (recorded.Nodup ∧
      (∀ x ∈ carried, lineageOf facet.activationLineage x.actionId =
        lineageOf carried x.actionId) ∧
      (∀ action ∈ initial, action ∉ recorded) ∧
      (∀ action ∈ facet.enabledActionIds, action ∈ initial ∨ action ∈ recorded) ∧
      (∀ action ∈ initial ++ recorded, action ∈ facet.enabledActionIds) ∧
      facet.enabledActionIds.Nodup) "growth_frontier_lineage_invalid"
    facet.activationLineage.forM fun event =>
      require (lineageEventValid f s facet.activationLineage event)
        "growth_frontier_lineage_invalid"
    require (facet.activationDepth = maximumDepth facet.activationLineage ∧
      facet.activationDepth ≤ f.spec.maximumActivationDepth) "growth_frontier_depth_overflow"
    pure facet

def actionDocument (objects : Objects) (digest : Digest) : Checked ActionSpec := do
  match (← objects.item digest).spec with
  | .action spec => pure spec
  | _ => .error (.crash .attributeError)

def capabilityDocument (objects : Objects) (digest : Digest) : Checked CapabilitySpec := do
  match (← objects.item digest).spec with
  | .capability spec => pure spec
  | _ => .error (.crash .attributeError)

/-- `isinstance(objects.get(digest), CapabilityDocument)`. -/
def isCapability (objects : Objects) (digest : Digest) : Bool :=
  match objects[digest]? with
  | some ⟨_, _, .capability _⟩ => true
  | _ => false

def unitRegistry (objects : Objects) (digest : Digest) : Checked UnitRegistrySpec := do
  match (← objects.item digest).spec with
  | .unitRegistry spec => pure spec
  | _ => .error (.crash .attributeError)

def timeScale (c : GrowthContractSpec) (objects : Objects) : Checked ℚ := do
  let units ← unitRegistry objects c.unitRegistryDigest
  pure (F (← units.units.item units.timeUnit).scale)

def secondsAfter (origin at' : DateTime) : Checked ℚ := do
  pure ((← at'.minus origin) / 1000000)

/-- `_lifecycle`: the interval from `start` to `stop` lies inside the validity. -/
def checkLifecycle (c : GrowthContractSpec) (objects : Objects) (lifecycle : Lifecycle)
    (start stop : ℚ) : Checked Unit := do
  let scale ← timeScale c objects
  require ((← secondsAfter c.modelTimeOrigin lifecycle.validFrom) ≤ start * scale)
    "growth_frontier_object_expired"
  require (stop * scale ≤ (← secondsAfter c.modelTimeOrigin lifecycle.validUntil))
    "growth_frontier_object_expired"
  match lifecycle.withdrawnAt with
  | none => pure ()
  | some withdrawn =>
    require (stop * scale < (← secondsAfter c.modelTimeOrigin withdrawn))
      "growth_frontier_object_expired"

def bindingLive (c : GrowthContractSpec) (objects : Objects) (f : GrowthCapabilityFrontier)
    (s : GrowthState) (actionId : Identifier) (stop : ℚ) : Checked Unit := do
  let binding ← demand .stopIteration (f.spec.bindings.find? (·.actionId = actionId))
  let recipe ← demand .stopIteration
    (c.actionCatalogue.find? (·.actionDigest = binding.actionDigest))
  require (F s.elapsed < F recipe.expires ∧ stop ≤ F recipe.expires)
    "growth_frontier_object_expired"
  let action ← actionDocument objects binding.actionDigest
  let required := [binding.actionDigest, binding.capabilityDigest, binding.executionPolicyDigest]
    ++ action.requiredObjectDigests
  require (required ⊆ s.liveObjectDigests) "growth_frontier_object_unavailable"
  checkLifecycle c objects binding.lifecycle (F s.elapsed) stop
  required.forM fun digest =>
    match objects[digest]?.bind (·.spec.lifecycle) with
    | some lifecycle => checkLifecycle c objects lifecycle (F s.elapsed) stop
    | none => pure ()

/-- `all(available(k) >= v for k, v in minimum)`, stopping at the first failure. -/
def allCovered (available : Identifier → Checked ℚ) : List (Identifier × Rational) → Checked Bool
  | [] => .ok true
  | (key, minimum) :: rest => do
    if F minimum ≤ (← available key) then allCovered available rest else pure false

def lowerCapacity (s : GrowthState) (key : Identifier) : Checked ℚ := do
  pure (F (← s.capacities.item key).lower)

/-- `k in available and F(available[k]) >= stop`. -/
def holdsUntil (available : Dict Rational) (stop : ℚ) (key : Identifier) : Prop :=
  ∃ expiry ∈ available[key]?, stop ≤ F expiry

instance (available : Dict Rational) (stop : ℚ) (key : Identifier) :
    Decidable (holdsUntil available stop key) := by unfold holdsUntil; infer_instance

def conditions (rule : GrowthActivationRule) (s : GrowthState) (stop : ℚ) : Checked Bool := do
  if F rule.validFrom ≤ F s.elapsed ∧ stop ≤ F rule.expires ∧
      s.modelIds ⊆ rule.requiredModelIds ∧
      rule.requiredCapabilityDigests ⊆ s.liveObjectDigests ∧
      (∀ key ∈ rule.requiredEvidence, holdsUntil s.evidence stop key) then
    if ← allCovered (lowerCapacity s) rule.minimumCapacities.toList then
      allCovered (fun key => do pure (F (← s.resources.item key))) rule.minimumResources.toList
    else pure false
  else pure false

/-- The premises of an activation and of everything it was built on. The depth of the
first record bounds the number of records on the way to an initial action. -/
def checkPremises (c : GrowthContractSpec) (objects : Objects) (f : GrowthCapabilityFrontier)
    (s : GrowthState) (lineage : List GrowthActivation) (stop : ℚ) :
    ℕ → Option GrowthActivation → Checked Unit
  | _, none => .ok ()
  | 0, some _ => .error (.crash .diverges)
  | fuel + 1, some parent => do
    let rule ← demand .keyError (ruleOf f parent.ruleId)
    bindingLive c objects f s rule.producerActionId stop
    require ((← conditions rule s stop) = true) "growth_frontier_premise_unavailable"
    rule.requiredCapabilityDigests.forM fun digest =>
      require (isCapability objects digest = true) "growth_frontier_capability_missing"
    checkPremises c objects f s lineage stop fuel (lineageOf lineage parent.producerActionId)

def checkUse (c : GrowthContractSpec) (objects : Objects) (f : GrowthCapabilityFrontier)
    (s : GrowthState) (actionId : Identifier) (stop : ℚ) : Checked Unit := do
  let facet ← checkFrontierState hash s f
  require (actionId ∈ facet.enabledActionIds) "growth_frontier_action_latent"
  bindingLive c objects f s actionId stop
  let record := lineageOf facet.activationLineage actionId
  checkPremises c objects f s facet.activationLineage stop (maximumDepth facet.activationLineage)
    record

def activateTargets (c : GrowthContractSpec) (objects : Objects) (f : GrowthCapabilityFrontier)
    (after : GrowthState) (record : Identifier → GrowthActivation) (depth : ℕ) :
    List Identifier → List Identifier × List GrowthActivation →
      Checked (List Identifier × List GrowthActivation)
  | [], state => .ok state
  | target :: rest, (enabled, lineage) => do
    require (depth ≤ f.spec.maximumActivationDepth) "growth_frontier_depth_overflow"
    bindingLive c objects f after target (F after.elapsed)
    activateTargets c objects f after record depth rest
      (target :: enabled, lineage ++ [record target])

/-- The rules in order; each sees what the earlier ones enabled. -/
def activateRules (c : GrowthContractSpec) (objects : Objects) (f : GrowthCapabilityFrontier)
    (after : GrowthState) (producer successorId : Identifier) (depth : ℕ) (parent : Digest) :
    List GrowthActivationRule → List Identifier × List GrowthActivation →
      Checked (List Identifier × List GrowthActivation)
  | [], state => .ok state
  | rule :: rest, (enabled, lineage) => do
    let applies ← if rule.producerActionId = producer ∧ rule.producerSuccessorId = successorId then
        conditions rule after (F after.elapsed) else pure false
    if applies then
      let targets := sortedSet (rule.activatedActionIds.filter (· ∉ enabled))
      let record := fun target =>
        (⟨target, rule.ruleId, producer, successorId, depth, after.elapsed, parent⟩ :
          GrowthActivation)
      let state ← activateTargets c objects f after record depth targets (enabled, lineage)
      activateRules c objects f after producer successorId depth parent rest state
    else
      activateRules c objects f after producer successorId depth parent rest (enabled, lineage)

def activate (c : GrowthContractSpec) (objects : Objects) (f : GrowthCapabilityFrontier)
    (before after : GrowthState) (recipe : GrowthAction) (effect : GrowthSuccessor) :
    Checked GrowthState := do
  let facet ← checkFrontierState hash before f
  let producer := (← actionDocument objects recipe.actionDigest).actionId
  checkUse hash c objects f before producer (F after.elapsed)
  let depth := match facet.activationLineage.find? (·.actionId = producer) with
    | some parent => parent.depth + 1
    | none => 1
  let parent ← stateDigest hash before
  let (enabled, lineage) ← activateRules c objects f after producer effect.successorId depth parent
    (f.spec.activationRules.insertionSort (fun a b => a.ruleId ≤ b.ruleId))
    (facet.enabledActionIds, facet.activationLineage)
  { baseState after with
    frontier := some
      { frontierDigest := facet.frontierDigest
        enabledActionIds := enabled.insertionSort (· ≤ ·)
        activationDepth := maximumDepth lineage
        activationLineage := sortedLineage lineage } }.validate

end CollectivePhaseControl
