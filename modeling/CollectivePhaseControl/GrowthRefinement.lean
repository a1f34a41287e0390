import CollectivePhaseControl.GrowthLineage
import CollectivePhaseControl.GrowthTimeline

/-! Planning under a frontier refines planning without one. Forgetting the frontier facet
takes steps to steps, runs to runs and accepted trees to accepted trees; a step is lost on
the way back only where the frontier itself rejects it. -/
namespace CollectivePhaseControl

variable {hash : Hashing} {f : GrowthCapabilityFrontier} {contract : GrowthContract}
  {objects : Objects}

theorem canonical_base (s : GrowthState) : canonical (baseState s) = baseState (canonical s) := rfl

def FrontierFacet.accepted (facet : FrontierFacet) : Prop :=
  (1 ≤ facet.enabledActionIds.length ∧ facet.enabledActionIds.length ≤ 16) ∧
    facet.activationDepth ≤ 16 ∧ facet.activationLineage.length ≤ 16 ∧
    (∀ x ∈ facet.activationLineage, 1 ≤ x.depth ∧ x.depth ≤ 16) ∧
    ∀ x ∈ facet.activationLineage, x.modelTime.accepted

theorem rationals_base (s : GrowthState) : s.rationals =
    (baseState s).rationals ++ s.frontier.toList.flatMap fun facet =>
      facet.activationLineage.map (·.modelTime) := by
  cases present : s.frontier <;> simp [GrowthState.rationals, baseState, present]

theorem accepted_iff (s : GrowthState) :
    s.accepted = true ↔ (baseState s).accepted = true ∧ ∀ facet ∈ s.frontier, facet.accepted := by
  have texts := rationals_base s
  constructor
  · intro h
    rw [GrowthState.accepted, Bool.and_eq_true, Bool.and_eq_true] at h
    obtain ⟨⟨sizes, own⟩, both⟩ := h
    rw [texts, List.all_append, Bool.and_eq_true] at both
    obtain ⟨written, times⟩ := both
    constructor
    · rw [GrowthState.accepted, Bool.and_eq_true, Bool.and_eq_true]
      exact ⟨⟨sizes, rfl⟩, written⟩
    · intro facet present
      rw [Option.mem_def.mp present] at own times
      simpa [FrontierFacet.accepted, and_assoc] using And.intro own times
  · rintro ⟨base, bounds⟩
    rw [GrowthState.accepted, Bool.and_eq_true, Bool.and_eq_true] at base
    obtain ⟨⟨sizes, -⟩, written⟩ := base
    rw [GrowthState.accepted, Bool.and_eq_true, Bool.and_eq_true, texts, List.all_append, written,
      Bool.true_and]
    cases present : s.frontier with
    | none => exact ⟨⟨sizes, rfl⟩, rfl⟩
    | some facet =>
      have own := bounds facet present
      simp only [FrontierFacet.accepted] at own
      refine ⟨⟨sizes, ?_⟩, ?_⟩
      · simpa [and_assoc] using ⟨own.1.1, own.1.2, own.2.1, own.2.2.1, own.2.2.2.1⟩
      · simpa using own.2.2.2.2

theorem normalize_base {s t : GrowthState} (h : normalize s = .ok t) :
    normalize (baseState s) = .ok (baseState t) := by
  obtain ⟨accepted, rfl⟩ := normalize_ok.mp h
  exact normalize_ok.mpr ⟨((accepted_iff _).mp accepted).1, rfl⟩

theorem applicable_base {s : GrowthState} {recipe : GrowthAction}
    {both : ActionSpec × CapabilitySpec}
    (h : applicable hash contract s recipe objects (some f) = .ok both) :
    applicable hash contract (baseState s) recipe objects none = .ok both := by
  simp only [applicable, bind_ok, require_ok] at h ⊢
  obtain ⟨⟨⟩, models, action, document, cap, capability, ⟨⟩, -, rest⟩ := h
  exact ⟨⟨⟩, models, action, document, cap, capability, ⟨⟩, rfl, rest⟩

theorem bookService_base {s : GrowthState} {effect : GrowthSuccessor} {used : Dict Rational}
    {stages : List Identifier} {books : Dict Rational × Dict Rational} :
    bookService (baseState s) effect used stages books = bookService s effect used stages books := by
  induction stages generalizing books with
  | nil => rfl
  | cons stage stages ih =>
    simp only [bookService, ih]
    rfl

theorem stepParts_base {s : GrowthState} {recipe : GrowthAction} {effect : GrowthSuccessor}
    {action : ActionSpec} {cap : CapabilitySpec} :
    stepParts contract (baseState s) recipe effect objects action cap =
      stepParts contract s recipe effect objects action cap := by
  simp only [stepParts, bookService_base]
  rfl

theorem stepResult_base (s : GrowthState) (action : ActionSpec) (cap : CapabilitySpec)
    (effect : GrowthSuccessor) (p : StepParts) :
    stepResult (baseState s) action cap effect p = baseState (stepResult s action cap effect p) := rfl

theorem checkState_base (c : GrowthContractSpec) (s : GrowthState) :
    checkState c (baseState s) = checkState c s := rfl

theorem transition_base {s t : GrowthState} {recipe : GrowthAction} {effect : GrowthSuccessor}
    (h : transition hash contract s recipe effect objects (some f) = .ok t) :
    transition hash contract (baseState s) recipe effect objects none = .ok (baseState t) := by
  simp only [transition, bind_ok, require_ok] at h
  obtain ⟨⟨action, cap⟩, allowed, ⟨⟩, declared, parts, computed, result, normalized, ⟨⟩, hazards, ⟨⟩,
    checked, activated⟩ := h
  have same : baseState t = baseState result := activate_sameLedger activated
  simp only [transition, bind_ok, require_ok, stepParts_base, stepResult_base, pure_ok]
  refine ⟨(action, cap), applicable_base allowed, ⟨⟩, declared, parts, computed, baseState result,
    normalize_base normalized, ⟨⟩, hazards, ⟨⟩, ?_, same.symm⟩
  rw [checkState_base]
  exact checked

/-- What the types of the two documents promise: the declared ledger carries no facet, and
the catalogue and the depth bound are within the bounds of their fields. -/
structure FieldBounds (contract : GrowthContract) (f : GrowthCapabilityFrontier) : Prop where
  declared : contract.spec.initialState.frontier = none
  catalogue : contract.spec.actionCatalogue.length ≤ 16
  depth : f.spec.maximumActivationDepth ≤ 16

theorem initialState_base (bounds : FieldBounds contract f) {start : GrowthState}
    (h : initialState hash contract (some f) = .ok start) :
    initialState hash contract none = .ok (baseState start) := by
  simp only [initialState, bind_ok, pure_ok] at h ⊢
  obtain ⟨both, paid, checkpoints, added, ledger, normalized, ⟨⟩, checked, seeded⟩ := h
  have bare : ledger.frontier = none := by
    obtain ⟨-, rfl⟩ := normalize_ok.mp normalized
    simp [canonical, bounds.declared]
  refine ⟨both, paid, checkpoints, added, ledger, normalized, ⟨⟩, checked, ?_⟩
  rw [seed_sameLedger seeded, baseState, ← bare]

theorem run_base {s t : GrowthState} {moves : List Move}
    (run : Runs.Run (Steps hash contract objects (some f)) s moves t) :
    Runs.Run (Steps hash contract objects none) (baseState s) moves (baseState t) :=
  run.map fun _ _ _ step => ⟨step.1, transition_base step.2⟩

theorem require_true {condition : Prop} [Decidable condition] (holds : condition) (code : String) :
    require condition code = .ok () := require_ok.mpr holds

theorem applicable_facet {s : GrowthState} {recipe : GrowthAction}
    {both : ActionSpec × CapabilitySpec}
    (h : applicable hash contract (baseState s) recipe objects none = .ok both) :
    applicable hash contract s recipe objects (some f) = (do
      checkUse hash contract.spec objects f s both.1.actionId (F s.elapsed)
      pure both) := by
  simp only [applicable, bind_ok, require_ok] at h
  obtain ⟨⟨⟩, models, action, document, cap, capability, ⟨⟩, -, ⟨⟩, repeated, ⟨⟩, timely, ⟨⟩, required,
    ⟨⟩, hazards, ⟨⟩, evidence, ⟨⟩, assumptions, covered, enough, ⟨⟩, sufficient, same⟩ := h
  rw [pure_ok] at same
  subst same
  simp only [baseState] at models repeated timely required hazards evidence assumptions
  rw [applicable]
  have enough' : allCovered (lowerCapacity s) recipe.minimumCapacities.toList = .ok covered := enough
  simp only [require_true models, document, capability, require_true repeated, require_true timely,
    require_true required, require_true hazards, require_true evidence, require_true assumptions,
    enough', require_true sufficient, ok_bind]

theorem stepLedger_accepted {s : GrowthState} (normal : Normal s) {action : ActionSpec}
    {cap : CapabilitySpec} {effect : GrowthSuccessor} {p : StepParts}
    (base : (baseState (stepLedger s action cap effect p)).accepted = true) :
    (stepLedger s action cap effect p).accepted = true := by
  have own := ((accepted_iff s).mp (normal.canonical ▸ (normalize_ok.mp normal).1)).2
  have same : (stepLedger s action cap effect p).frontier = s.frontier := by
    conv_rhs => rw [← normal.canonical]
    rfl
  exact (accepted_iff _).mpr ⟨base, same ▸ own⟩

theorem transition_facet {s after : GrowthState} (normal : Normal s) {recipe : GrowthAction}
    {effect : GrowthSuccessor}
    (h : transition hash contract (baseState s) recipe effect objects none = .ok after) :
    ∃ action result, actionDocument objects recipe.actionDigest = .ok action ∧
      baseState result = after ∧ Normal result ∧ checkState contract.spec after = .ok () ∧
      transition hash contract s recipe effect objects (some f) = (do
        checkUse hash contract.spec objects f s action.actionId (F s.elapsed)
        activate hash contract.spec objects f s result recipe effect) := by
  simp only [transition, bind_ok, require_ok, stepParts_base, stepResult_base, pure_ok] at h
  obtain ⟨⟨action, cap⟩, allowed, ⟨⟩, declared, parts, computed, result, normalized, ⟨⟩, hazards, ⟨⟩,
    checked, rfl⟩ := h
  obtain ⟨accepted, rfl⟩ := normalize_ok.mp normalized
  have lifted : normalize (stepResult s action cap effect parts) =
      .ok (stepLedger s action cap effect parts) :=
    normalize_ok.mpr ⟨stepLedger_accepted normal accepted, rfl⟩
  refine ⟨action, stepLedger s action cap effect parts, applicable_action allowed, rfl,
    normal_of_normalize lifted, checked, ?_⟩
  have declared' : effect ∈ successors s recipe := declared
  have hazards' : ∀ hazard ∈ (stepLedger s action cap effect parts).hazards,
      hazard ∉ action.prohibitedHazards := hazards
  have checked' : checkState contract.spec (stepLedger s action cap effect parts) = .ok () := checked
  rw [transition, applicable_facet allowed]
  simp only [bind_assoc, require_true declared', computed, lifted, require_true hazards', checked',
    ok_bind, pure_bind]

/-- A target that may not be enabled at a ledger. -/
def Rejected (c : GrowthContractSpec) (objects : Objects) (f : GrowthCapabilityFrontier)
    (after : GrowthState) (depth : ℕ) (fault : Fault) (target : Identifier) : Prop :=
  (f.spec.maximumActivationDepth < depth ∧ fault = .coded "growth_frontier_depth_overflow") ∨
    bindingLive c objects f after target (F after.elapsed) = .error fault

theorem bind_error {ε α β : Type} {x : Except ε α} {g : α → Except ε β} {fault : ε} :
    (x >>= g) = .error fault ↔ x = .error fault ∨ ∃ a, x = .ok a ∧ g a = .error fault := by
  cases x <;> simp [bind, Except.bind]

theorem require_error {condition : Prop} [Decidable condition] {code : String} {fault : Fault} :
    require condition code = .error fault ↔ ¬ condition ∧ fault = .coded code := by
  unfold require
  split <;> simp [*, eq_comm]

theorem activateTargets_error {c : GrowthContractSpec} {after : GrowthState}
    {record : Identifier → GrowthActivation} {depth : ℕ} {fault : Fault} :
    ∀ {targets : List Identifier} {now : List Identifier × List GrowthActivation},
      activateTargets c objects f after record depth targets now = .error fault →
        ∃ target ∈ targets, Rejected c objects f after depth fault target := by
  intro targets
  induction targets with
  | nil => exact fun h => nomatch h
  | cons target targets ih =>
    rintro ⟨enabled, lineage⟩ h
    simp only [activateTargets, bind_error, require_error, require_ok] at h
    rcases h with ⟨deep, rfl⟩ | ⟨-, within, dead | ⟨-, live, rest⟩⟩
    · exact ⟨target, List.mem_cons_self, .inl ⟨not_le.mp deep, rfl⟩⟩
    · exact ⟨target, List.mem_cons_self, .inr dead⟩
    · obtain ⟨other, listed, rejected⟩ := ih rest
      exact ⟨other, List.mem_cons_of_mem _ listed, rejected⟩

/-- A rule that a step matches and one of its targets, not yet enabled, that is rejected. -/
def ActivationRejected (c : GrowthContractSpec) (objects : Objects) (f : GrowthCapabilityFrontier)
    (after : GrowthState) (producer successorId : Identifier) (depth : ℕ) (fault : Fault)
    (rules : List GrowthActivationRule) (enabled : List Identifier) : Prop :=
  ∃ rule ∈ rules, rule.producerActionId = producer ∧ rule.producerSuccessorId = successorId ∧
    conditions rule after (F after.elapsed) = .ok true ∧
    ∃ target ∈ rule.activatedActionIds, target ∉ enabled ∧
      Rejected c objects f after depth fault target

theorem activateRules_error {c : GrowthContractSpec} {after : GrowthState}
    {producer successorId : Identifier} {depth : ℕ} {parent : Digest} {fault : Fault} :
    ∀ {rules : List GrowthActivationRule} {now : List Identifier × List GrowthActivation},
      (∀ rule ∈ rules, ∃ b, conditions rule after (F after.elapsed) = .ok b) →
      activateRules c objects f after producer successorId depth parent rules now = .error fault →
        ActivationRejected c objects f after producer successorId depth fault rules now.1 := by
  intro rules
  induction rules with
  | nil => exact fun _ h => nomatch h
  | cons rule rules ih =>
    rintro ⟨enabled, lineage⟩ decided h
    obtain ⟨own, others⟩ := List.forall_mem_cons.mp decided
    have skipped : ∀ {now : List Identifier × List GrowthActivation}, enabled ⊆ now.1 →
        activateRules c objects f after producer successorId depth parent rules now =
          .error fault →
        ActivationRejected c objects f after producer successorId depth fault (rule :: rules)
          enabled := by
      intro now grown rest
      obtain ⟨other, listed, producer', successor', met, target, activated, fresh, rejected⟩ :=
        ih others rest
      exact ⟨other, List.mem_cons_of_mem _ listed, producer', successor', met, target, activated,
        fun old => fresh (grown old), rejected⟩
    simp only [activateRules] at h
    split at h
    case isFalse => exact skipped (List.Subset.refl _) h
    case isTrue names =>
      obtain ⟨applies, met⟩ := own
      rw [met, ok_bind] at h
      cases applies with
      | false => exact skipped (List.Subset.refl _) h
      | true =>
        simp only [if_true, bind_error] at h
        rcases h with stopped | ⟨⟨enabled', lineage'⟩, targeted, rest⟩
        · obtain ⟨target, listed, rejected⟩ := activateTargets_error stopped
          rw [mem_sortedSet, List.mem_filter, decide_eq_true_eq] at listed
          exact ⟨rule, List.mem_cons_self, names.1, names.2, met, target, listed.1, listed.2,
            rejected⟩
        · obtain ⟨rfl, -, -⟩ := activateTargets_ok targeted
          exact skipped (List.subset_append_right _ _) rest

theorem checkState_resourceKeys {c : GrowthContractSpec} {s : GrowthState} {u : Unit}
    (h : checkState c s = .ok u) : s.resources.keys = c.resourceUnits.keys := by
  simp only [checkState, bind_ok, require_ok] at h
  obtain ⟨-, -, -, -, -, keys, -⟩ := h
  exact keys

theorem Dict.item_of_keys {α β : Type} {m : Dict α} {m' : Dict β} (same : m.keys = m'.keys)
    {key : Identifier} (known : key ∈ m') : ∃ value, m.item key = .ok value := by
  have member : key ∈ m := by
    rw [← Std.ExtTreeMap.mem_keys, same, Std.ExtTreeMap.mem_keys]
    exact known
  exact ⟨m[key], Dict.item_ok.mpr (Std.ExtTreeMap.getElem?_eq_some_getElem member)⟩

theorem Dict.mem_keys_of_toList {α : Type} {m : Dict α} {p : Identifier × α}
    (listed : p ∈ m.toList) : p.1 ∈ m.keys := by
  rw [← Std.ExtTreeMap.map_fst_toList_eq_keys]
  exact List.mem_map_of_mem listed

theorem allCovered_total {available : Identifier → Checked ℚ}
    {minimums : List (Identifier × Rational)}
    (each : ∀ p ∈ minimums, ∃ held, available p.1 = .ok held) :
    ∃ b, allCovered available minimums = .ok b := by
  induction minimums with
  | nil => exact ⟨true, rfl⟩
  | cons p minimums ih =>
    obtain ⟨⟨held, found⟩, rest⟩ := List.forall_mem_cons.mp each
    obtain ⟨b, covered⟩ := ih rest
    rw [allCovered, found, ok_bind]
    split
    · exact ⟨b, covered⟩
    · exact ⟨false, rfl⟩

/-- The names of the catalogue and what a validated frontier says in them. -/
structure FrontierNames (c : GrowthContractSpec) (f : GrowthCapabilityFrontier)
    (names : List Identifier) : Prop where
  count : names.length = c.actionCatalogue.length
  initial : f.spec.initialEnabledActionIds ⊆ names
  activated : ∀ rule ∈ f.spec.activationRules, rule.activatedActionIds ⊆ names
  capacities : ∀ rule ∈ f.spec.activationRules, ∀ key ∈ rule.minimumCapacities.keys, key ∈ c.domains
  resources : ∀ rule ∈ f.spec.activationRules, ∀ key ∈ rule.minimumResources.keys,
    key ∈ c.resourceUnits

theorem validateFrontier_names {u : Unit} (h : validateFrontier hash contract objects f = .ok u) :
    ∃ names, FrontierNames contract.spec f names := by
  simp only [validateFrontier, bind_ok, require_ok, forM_ok, namedCatalogue, mapM_ok] at h
  obtain ⟨-, -, actions, named, -, partition, -, -, -, -, -, -, -, -, -, rules, -⟩ := h
  have each : ∀ rule ∈ f.spec.activationRules, rule.activatedActionIds ⊆ actions.map (·.1) ∧
      (∀ key ∈ rule.minimumCapacities.keys, key ∈ contract.spec.domains) ∧
      ∀ key ∈ rule.minimumResources.keys, key ∈ contract.spec.resourceUnits := by
    intro rule listed
    have checked := rules rule listed
    simp only [validateRule, bind_ok, require_ok] at checked
    obtain ⟨-, -, -, targets, -, -, -, capacities, resources, -⟩ := checked
    exact ⟨targets.1, capacities, resources⟩
  refine ⟨actions.map (·.1), ?_, ?_, fun rule listed => (each rule listed).1,
    fun rule listed => (each rule listed).2.1, fun rule listed => (each rule listed).2.2⟩
  · rw [List.length_map]
    exact named.length_eq.symm
  · exact fun name member => partition.2.2.2.1 (List.mem_append_left _ member)

theorem conditions_total {names : List Identifier} (facts : FrontierNames contract.spec f names)
    {after : GrowthState} (checked : checkState contract.spec after = .ok ())
    {rule : GrowthActivationRule} (listed : rule ∈ f.spec.activationRules) (stop : ℚ) :
    ∃ b, conditions rule after stop = .ok b := by
  have lower : ∃ b, allCovered (lowerCapacity after) rule.minimumCapacities.toList = .ok b := by
    refine allCovered_total fun p member => ?_
    have known := facts.capacities rule listed _ (Dict.mem_keys_of_toList member)
    obtain ⟨value, found⟩ := Dict.item_of_keys (checkState_keys checked) known
    exact ⟨F value.lower, by rw [lowerCapacity, found]; rfl⟩
  have held : ∃ b, allCovered (fun key => do pure (F (← after.resources.item key)))
      rule.minimumResources.toList = .ok b := by
    refine allCovered_total fun p member => ?_
    have known := facts.resources rule listed _ (Dict.mem_keys_of_toList member)
    obtain ⟨value, found⟩ := Dict.item_of_keys (checkState_resourceKeys checked) known
    exact ⟨F value, by rw [found]; rfl⟩
  obtain ⟨b, covered⟩ := lower
  obtain ⟨b', covered'⟩ := held
  rw [conditions]
  split
  · rw [covered, ok_bind]
    cases b with
    | true => exact ⟨b', covered'⟩
    | false => exact ⟨false, rfl⟩
  · exact ⟨false, rfl⟩

theorem Lineage.names {names : List Identifier} (facts : FrontierNames contract.spec f names)
    {s : GrowthState} {facet : FrontierFacet} (lineage : Lineage hash f s facet) :
    facet.enabledActionIds ⊆ names := by
  intro action enabled
  rcases (lineage.enabled action).mp enabled with initial | recorded'
  · exact facts.initial initial.1
  · obtain ⟨event, member, rfl⟩ := List.mem_map.mp recorded'
    obtain ⟨rule, found, activated, -⟩ := (lineage.events event member).rule
    have listed := List.mem_reverse.mp (List.mem_of_find?_eq_some found)
    exact facts.activated rule listed activated

theorem Lineage.accepted {names : List Identifier} (facts : FrontierNames contract.spec f names)
    (bounds : FieldBounds contract f) {s : GrowthState} {facet : FrontierFacet}
    (lineage : Lineage hash f s facet) (some' : facet.enabledActionIds ≠ [])
    (times : ∀ x ∈ facet.activationLineage, x.modelTime.accepted) : facet.accepted := by
  have within : facet.enabledActionIds.length ≤ 16 := by
    have listed := (List.subperm_of_subset lineage.enabledDistinct (lineage.names facts)).length_le
    rw [facts.count] at listed
    exact listed.trans bounds.catalogue
  have records : facet.activationLineage.length ≤ facet.enabledActionIds.length := by
    have listed := (List.subperm_of_subset lineage.distinct
      fun action member => (lineage.enabled action).mpr (.inr member)).length_le
    rwa [recorded, List.length_map] at listed
  have shallow := lineage.bounded.trans bounds.depth
  refine ⟨⟨List.length_pos_iff.mpr some', within⟩, shallow, records.trans within, fun x member => ?_,
    times⟩
  refine ⟨lineage.depth_pos member, ?_⟩
  rw [lineage.depth] at shallow
  exact maximumDepth_le.mp shallow x member

theorem normal_times {s : GrowthState} (normal : Normal s) : s.elapsed.accepted ∧
    ∀ facet ∈ s.frontier, ∀ x ∈ facet.activationLineage, x.modelTime.accepted := by
  have accepted : s.accepted = true := normal.canonical ▸ (normalize_ok.mp normal).1
  refine ⟨?_, fun facet present => (((accepted_iff s).mp accepted).2 facet present).2.2.2.2⟩
  rw [GrowthState.accepted, Bool.and_eq_true] at accepted
  have written := List.all_eq_true.mp accepted.2 s.elapsed (by simp [GrowthState.rationals])
  exact of_decide_eq_true written

theorem activate_error {names : List Identifier} (facts : FrontierFacts f)
    (nameFacts : FrontierNames contract.spec f names) (bounds : FieldBounds contract f)
    {before after : GrowthState} {facet : FrontierFacet} (lineage : Lineage hash f before facet)
    (normal : Normal before) (normal' : Normal after)
    (checked : checkState contract.spec after = .ok ()) (forward : F before.elapsed < F after.elapsed)
    {recipe : GrowthAction} {effect : GrowthSuccessor} {action : ActionSpec}
    (document : actionDocument objects recipe.actionDigest = .ok action) {fault : Fault}
    (h : activate hash contract.spec objects f before after recipe effect = .error fault) :
    checkUse hash contract.spec objects f before action.actionId (F after.elapsed) = .error fault ∨
      ActivationRejected contract.spec objects f after action.actionId effect.successorId
        (stepDepth facet action.actionId) fault f.spec.activationRules facet.enabledActionIds := by
  have start := checkFrontierState_ok.mpr lineage
  rw [activate, start, ok_bind, document, ok_bind, bind_error] at h
  refine h.imp_right ?_
  rintro ⟨⟨⟩, used, rest⟩
  rw [normal.stateDigest, ok_bind, bind_error] at rest
  rcases rest with stopped | ⟨now, activated, invalid⟩
  · have decided : ∀ rule ∈ orderedRules f, ∃ b, conditions rule after (F after.elapsed) = .ok b :=
      fun rule listed =>
        conditions_total nameFacts checked ((List.mem_insertionSort _).mp listed) _
    obtain ⟨rule, listed, rejected⟩ := activateRules_error decided stopped
    exact ⟨rule, (List.mem_insertionSort _).mp listed, rejected⟩
  · -- The recorded facet is valid, so the fields of the model accept it.
    exfalso
    simp only [checkUse, bind_ok, require_ok] at used
    obtain ⟨facet', checked', -, allowed, -⟩ := used
    cases start.symm.trans checked'
    obtain ⟨valid, enabled, -, origin⟩ :=
      activateRules_lineage facts lineage allowed forward activated
    have times : ∀ x ∈ (facet.renew now).activationLineage, x.modelTime.accepted := by
      intro x member
      rcases origin x member with old | recent
      · exact (normal_times normal).2 facet lineage.present x old
      · rw [recent]
        exact (normal_times normal').1
    have fits := valid.accepted nameFacts bounds (List.ne_nil_of_mem (enabled allowed)) times
    have base := ((accepted_iff after).mp (normal'.canonical ▸ (normalize_ok.mp normal').1)).1
    have accepted : (renewed after facet now).accepted = true :=
      (accepted_iff _).mpr ⟨base, fun own present => Option.mem_some_iff.mp present ▸ fits⟩
    have impossible := (validate_ok.mpr ⟨accepted, rfl⟩).symm.trans invalid
    cases impossible

/-- Why a step below a frontier has no counterpart under it: the use of the action, at its
start or over its duration, or one of the actions that it would enable. -/
def FrontierRejects (hash : Hashing) (contract : GrowthContract) (objects : Objects)
    (f : GrowthCapabilityFrontier) (s : GrowthState) (recipe : GrowthAction)
    (effect : GrowthSuccessor) (after : GrowthState) (fault : Fault) : Prop :=
  ∃ action facet, actionDocument objects recipe.actionDigest = .ok action ∧
    s.frontier = some facet ∧
    (checkUse hash contract.spec objects f s action.actionId (F s.elapsed) = .error fault ∨
      checkUse hash contract.spec objects f s action.actionId (F after.elapsed) = .error fault ∨
      ActivationRejected contract.spec objects f after action.actionId effect.successorId
        (stepDepth facet action.actionId) fault f.spec.activationRules facet.enabledActionIds)

theorem transition_lifts (valid : validateContract hash contract objects = .ok ())
    (accepted : validateFrontier hash contract objects f = .ok ()) (bounds : FieldBounds contract f)
    {s after : GrowthState} (reachable : Reachable hash contract objects (some f) s)
    {recipe : GrowthAction} {effect : GrowthSuccessor}
    (listed : recipe ∈ contract.spec.actionCatalogue)
    (below : transition hash contract (baseState s) recipe effect objects none = .ok after)
    {fault : Fault}
    (fails : transition hash contract s recipe effect objects (some f) = .error fault) :
    FrontierRejects hash contract objects f s recipe effect after fault := by
  obtain ⟨facts, -⟩ := validateFrontier_ok accepted
  obtain ⟨names, nameFacts⟩ := validateFrontier_names accepted
  have contractFacts := validateContract_ok hash valid
  have normal := reachable.admitted.1
  obtain ⟨moves, run⟩ := reachable
  obtain ⟨facet, lineage⟩ := growthRun_reached valid accepted run
  have step : Steps hash contract objects none (baseState s) ⟨recipe, effect⟩ after :=
    ⟨listed, below⟩
  have forward := step.elapsed_lt contractFacts
  obtain ⟨action, result, document, rfl, normal', checked, lifted⟩ := transition_facet normal below
  rw [lifted, bind_error] at fails
  refine ⟨action, facet, document, lineage.present, fails.imp_right ?_⟩
  rintro ⟨-, -, rejected⟩
  exact activate_error facts nameFacts bounds lineage normal normal' checked forward document rejected

/-- The ledger at which a branch of a node is taken up; the node's own one where no branch
is followed. -/
def branchState (hash : Hashing) (x : Search) (s : GrowthState) (actionId : Option Identifier)
    (successorId : Identifier) : GrowthState :=
  (do
    let name ← demand .keyError actionId
    let recipe ← namedRecipe x name
    let effect ← demand .keyError
      ((successors s recipe).find? fun e : GrowthSuccessor => e.successorId = successorId)
    transition hash x.contract s recipe effect x.objects x.frontier).toOption.getD s

/-- A tree over the ledgers without their facets: only the digests of the ledgers change. -/
def projected (hash : Hashing) (x : Search) : ℕ → GrowthPolicyNode → GrowthState → GrowthPolicyNode
  | 0, node, _ => node
  | fuel + 1, node, s =>
    { node with
      stateDigest := hash.state (canonical (baseState s))
      branches := node.branches.map fun b =>
        (b.1, projected hash x fuel b.2 (branchState hash x s node.actionId b.1)) }

def Search.unframed (x : Search) : Search := { x with frontier := none }

def Walk.base (w : Walk) : Walk := { w with terminals := w.terminals.map baseState }

theorem Walk.base_gather (parts : List Walk) :
    (Walk.gather parts).base = .gather (parts.map Walk.base) := by
  simp [Walk.gather, Walk.base, List.map_flatMap, List.flatMap_map, Function.comp_def]

theorem lookup_map {α β γ : Type} [BEq α] {g : α → β → γ} [LawfulBEq α] (entries : List (α × β))
    (key : α) : (entries.map fun b => (b.1, g b.1 b.2)).lookup key =
      (entries.lookup key).map (g key) := by
  induction entries with
  | nil => rfl
  | cons b entries ih =>
    rw [List.map_cons, List.lookup_cons, List.lookup_cons, ih]
    cases same : key == b.1 with
    | true => rw [eq_of_beq same]; rfl
    | false => rfl

theorem branchState_ok {x : Search} {s next : GrowthState} {actionId : Identifier}
    {recipe : GrowthAction} {effect : GrowthSuccessor}
    (named : namedRecipe x actionId = .ok recipe) (distinct :
      ((successors s recipe).map (·.successorId)).Nodup) (declared : effect ∈ successors s recipe)
    (moved : transition hash x.contract s recipe effect x.objects x.frontier = .ok next) :
    branchState hash x s (some actionId) effect.successorId = next := by
  have found : (successors s recipe).find? (·.successorId = effect.successorId) = some effect := by
    rw [← List.head?_filter, filter_eq_singleton distinct declared]
    rfl
  rw [branchState]
  simp only [demand, ok_bind, named, found, moved]
  rfl

theorem anyBlockSupported_base (s : GrowthState) (windows : List GrowthWindow) :
    anyBlockSupported (baseState s) windows = anyBlockSupported s windows := by
  induction windows with
  | nil => rfl
  | cons w windows ih =>
    simp only [anyBlockSupported, ih]
    rfl

theorem entryAllowed_base (c : GrowthContractSpec) (comparisons : List GrowthComparison)
    (s : GrowthState) : entryAllowed c comparisons (baseState s) = entryAllowed c comparisons s := by
  simp only [entryAllowed, anyBlockSupported_base]
  rfl

theorem checkNode_base {x : Search} {node : GrowthPolicyNode} {s : GrowthState}
    {entry : Option GrowthCheckpoint} {fuel : ℕ} {u : Unit}
    (h : checkNode hash x node s entry = .ok u) :
    checkNode hash x.unframed (projected hash x (fuel + 1) node s) (baseState s) entry = .ok () := by
  simp only [checkNode, bind_ok, require_ok] at h ⊢
  obtain ⟨⟨⟩, checked, ⟨⟩, models, digest, digested, ⟨⟩, -, own⟩ := h
  have digested' : stateDigest hash (baseState s) = .ok (hash.state (canonical (baseState s))) := by
    simp only [stateDigest, bind_ok, pure_ok] at digested ⊢
    obtain ⟨t, normalized, -⟩ := digested
    refine ⟨baseState t, normalize_base normalized, ?_⟩
    rw [← (normalize_ok.mp normalized).2]
    rfl
  refine ⟨⟨⟩, checked, ⟨⟩, models, _, digested', ⟨⟩, rfl, ?_⟩
  rw [entryAllowed_base]
  exact own

theorem checkBranches_base {x : Search} {node : GrowthPolicyNode} {s : GrowthState} {fuel : ℕ}
    {effects : List GrowthSuccessor} (h : checkBranches node effects = .ok ()) :
    checkBranches (projected hash x (fuel + 1) node s) effects = .ok () := by
  rw [checkBranches, require_ok] at h ⊢
  have keys : (projected hash x (fuel + 1) node s).branches.map (·.1) = node.branches.map (·.1) := by
    rw [projected, List.map_map]
    rfl
  have each : ∀ P : Identifier → Prop, (∀ b ∈ node.branches, P b.1) →
      ∀ b ∈ (projected hash x (fuel + 1) node s).branches, P b.1 := by
    intro P all b member
    obtain ⟨b', listed, rfl⟩ := List.mem_map.mp member
    exact all b' listed
  rw [keys]
  exact ⟨each _ h.1, h.2.1, h.2.2.1, each _ h.2.2.2.1, h.2.2.2.2⟩

theorem visit_base {x : Search} (framed : x.frontier = some f)
    (facts : ContractFacts x.contract.spec x.objects) :
    ∀ {fuel : ℕ} {node : GrowthPolicyNode} {s : GrowthState} {entry : Option GrowthCheckpoint}
      {v : Walk}, visit hash x fuel node s entry = .ok v →
        visit hash x.unframed fuel (projected hash x fuel node s) (baseState s) entry =
          .ok v.base := by
  intro fuel
  induction fuel with
  | zero => exact fun h => nomatch h
  | succ fuel ih =>
    intro node s entry v h
    obtain ⟨checked, rest⟩ := visit_ok.mp h
    refine visit_ok.mpr ⟨checkNode_base checked, ?_⟩
    rcases rest with ⟨stops, empty, ended, rfl⟩ | ⟨actionId, recipe, parts, acts, named, branches,
      followed, rfl⟩
    · refine .inl ⟨stops, ⟨?_, empty.2⟩, ended, rfl⟩
      rw [projected, List.isEmpty_map]
      exact empty.1
    · have distinct := (facts.recipes _ (namedRecipe_ok named).1.1).successors_nodup s
      refine .inr ⟨actionId, recipe, parts.map Walk.base, acts, named, checkBranches_base branches,
        ?_, ?_⟩
      · have declared := (List.forall₂_and_left _ _).mpr ⟨fun _ member => member, followed⟩
        refine List.forall₂_map_right_iff.mpr (declared.imp fun effect part ⟨member, follows⟩ => ?_)
        obtain ⟨child, next, follow, visited⟩ := follows
        obtain ⟨digest, moved, answered⟩ := followBranch_ok.mp follow
        have reached := branchState_ok named distinct member moved
        refine ⟨projected hash x fuel child next, baseState next, followBranch_ok.mpr
          ⟨digest, ?_, ?_⟩, ih visited⟩
        · rw [framed] at moved
          exact transition_base moved
        · rw [projected, lookup_map (g := fun key child => projected hash x fuel child
            (branchState hash x s node.actionId key)), answered, acts, Option.map_some, reached]
      · rw [← Walk.base_gather]
        rfl

theorem checkTree_base {x : Search} (framed : x.frontier = some f)
    (facts : ContractFacts x.contract.spec x.objects) {root : GrowthPolicyNode} {start : GrowthState}
    {entry : Option GrowthCheckpoint} {candidate : Candidate}
    (accepted : checkTree hash x root start entry = .ok candidate) :
    checkTree hash x.unframed (projected hash x (x.contract.spec.maxDecisions + 1) root start)
        (baseState start) entry =
      .ok ⟨projected hash x (x.contract.spec.maxDecisions + 1) root start,
        candidate.terminals.map baseState, candidate.entries, candidate.nodeCount⟩ := by
  simp only [checkTree, bind_ok, pure_ok, walk_ok, Walk.nil_join] at accepted ⊢
  obtain ⟨_, ⟨v, visited, rfl, within⟩, rfl⟩ := accepted
  exact ⟨v.base, ⟨v.base, visit_base framed facts visited, rfl, within⟩, rfl⟩

/-- Planning under an accepted frontier refines planning without one: steps, runs and
accepted trees project, and a step fails to lift only where the frontier rejects it. -/
theorem frontier_refines (valid : validateContract hash contract objects = .ok ())
    (accepted : validateFrontier hash contract objects f = .ok ())
    (bounds : FieldBounds contract f) :
    (∀ s recipe effect t, transition hash contract s recipe effect objects (some f) = .ok t →
        transition hash contract (baseState s) recipe effect objects none = .ok (baseState t)) ∧
      (∀ start, initialState hash contract (some f) = .ok start →
        initialState hash contract none = .ok (baseState start)) ∧
      (∀ moves s, GrowthRun hash contract objects (some f) moves s →
        GrowthRun hash contract objects none moves (baseState s)) ∧
      (∀ (x : Search) root start entry candidate, x.contract = contract → x.objects = objects →
        x.frontier = some f → checkTree hash x root start entry = .ok candidate →
          let tree := projected hash x (contract.spec.maxDecisions + 1) root start
          checkTree hash x.unframed tree (baseState start) entry =
            .ok ⟨tree, candidate.terminals.map baseState, candidate.entries,
              candidate.nodeCount⟩) ∧
      ∀ s after recipe effect, Reachable hash contract objects (some f) s →
        recipe ∈ contract.spec.actionCatalogue →
        transition hash contract (baseState s) recipe effect objects none = .ok after →
          (∃ t, transition hash contract s recipe effect objects (some f) = .ok t ∧
              baseState t = after) ∨
            ∃ fault, transition hash contract s recipe effect objects (some f) = .error fault ∧
              FrontierRejects hash contract objects f s recipe effect after fault := by
  refine ⟨fun _ _ _ _ => transition_base, fun _ => initialState_base bounds, ?_, ?_, ?_⟩
  · rintro moves s ⟨start, prepaidStart, steps⟩
    exact ⟨baseState start, initialState_base bounds prepaidStart, run_base steps⟩
  · rintro x root start entry candidate rfl rfl framed checked
    exact checkTree_base framed (validateContract_ok hash valid) checked
  · intro s after recipe effect reachable listed below
    cases lifted : transition hash contract s recipe effect objects (some f) with
    | ok t =>
      have same := (transition_base lifted).symm.trans below
      exact .inl ⟨t, rfl, Except.ok.inj same⟩
    | error fault =>
      exact .inr ⟨fault, rfl, transition_lifts valid accepted bounds reachable listed below lifted⟩

theorem Sample.framed_bounds : FieldBounds Sample.framedContract Sample.frontier :=
  ⟨rfl, by decide, by decide⟩

theorem frontier_refines_sample :
    GrowthRun Sample.digests Sample.framedContract Sample.framedObjects none [Sample.waitMove]
      (baseState Sample.framedAfter) :=
  (frontier_refines Sample.framed_valid.1 Sample.framed_valid.2 Sample.framed_bounds).2.2.1 _ _
    Sample.framed_run

end CollectivePhaseControl
