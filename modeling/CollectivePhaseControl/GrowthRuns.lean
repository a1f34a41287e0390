import CollectivePhaseControl.GrowthContracts
import CollectivePhaseControl.Runs

/-! What one successful step does, said once. Later modules cite these facts and do
not unfold the step again. -/
namespace CollectivePhaseControl

variable {hash : Hashing}

theorem validate_ok {s t : GrowthState} : s.validate = .ok t ↔ s.accepted = true ∧ s = t := by
  unfold GrowthState.validate
  split <;> simp [*]

theorem normalize_ok {s t : GrowthState} :
    normalize s = .ok t ↔ (canonical s).accepted = true ∧ canonical s = t := validate_ok

theorem sort_sort {α : Type*} {r : α → α → Prop} [DecidableRel r] (total : ∀ a b, r a b ∨ r b a)
    (trans : ∀ a b c, r a b → r b c → r a c) (xs : List α) :
    (xs.insertionSort r).insertionSort r = xs.insertionSort r := by
  have : Std.Total r := ⟨total⟩
  have : IsTrans α r := ⟨trans⟩
  exact (List.pairwise_insertionSort r xs).insertionSort_eq

theorem sort_sort_key {α β : Type*} [LinearOrder β] (key : α → β) (xs : List α) :
    (xs.insertionSort fun a b => key a ≤ key b).insertionSort (fun a b => key a ≤ key b) =
      xs.insertionSort fun a b => key a ≤ key b :=
  sort_sort (fun a b => le_total (key a) (key b)) (fun _ _ _ => le_trans) xs

theorem sortedSet_sortedSet (xs : List String) : sortedSet (sortedSet xs) = sortedSet xs := by
  have distinct : (sortedSet xs).Nodup :=
    (List.perm_insertionSort _ _).nodup_iff.mpr (List.nodup_dedup xs)
  rw [sortedSet, distinct.dedup]
  exact sort_sort_key id _

theorem sortedSet_ne_nil {xs : List String} (h : xs ≠ []) : sortedSet xs ≠ [] := by
  obtain ⟨x, member⟩ := List.exists_mem_of_ne_nil _ h
  exact List.ne_nil_of_mem
    ((List.mem_insertionSort _).mpr (List.mem_dedup.mpr member))

theorem reservationLE_total (a b : GrowthReservation) : reservationLE a b ∨ reservationLE b a := by
  unfold reservationLE
  rcases lt_trichotomy a.resource b.resource with resource | resource | resource
  · exact .inl (.inl resource)
  · rcases lt_trichotomy a.owner b.owner with owner | owner | owner
    · exact .inl (.inr ⟨resource, .inl owner⟩)
    · exact (le_total (F a.upto) (F b.upto)).imp (fun h => .inr ⟨resource, .inr ⟨owner, h⟩⟩)
        fun h => .inr ⟨resource.symm, .inr ⟨owner.symm, h⟩⟩
    · exact .inr (.inr ⟨resource.symm, .inl owner⟩)
  · exact .inr (.inl resource)

theorem reservationLE_trans (a b c : GrowthReservation) (first : reservationLE a b)
    (second : reservationLE b c) : reservationLE a c := by
  unfold reservationLE at *
  rcases first with ab | ⟨ab, first⟩ <;> rcases second with bc | ⟨bc, second⟩
  · exact .inl (ab.trans bc)
  · exact .inl (bc ▸ ab)
  · exact .inl (ab ▸ bc)
  · refine .inr ⟨ab.trans bc, ?_⟩
    rcases first with ab' | ⟨ab', first⟩ <;> rcases second with bc' | ⟨bc', second⟩
    · exact .inl (ab'.trans bc')
    · exact .inl (bc' ▸ ab')
    · exact .inl (ab' ▸ bc')
    · exact .inr ⟨ab'.trans bc', first.trans second⟩

theorem canonical_canonical (s : GrowthState) : canonical (canonical s) = canonical s := by
  have facet : (canonical (canonical s)).frontier = (canonical s).frontier := by
    cases h : s.frontier with
    | none => simp [canonical, h]
    | some f => simp [canonical, h, sort_sort_key, sort_sort_key (fun x : String => x)]
  simp only [canonical] at facet ⊢
  simp only [sortedSet_sortedSet, sort_sort_key, sort_sort reservationLE_total reservationLE_trans,
    facet]

def Normal (s : GrowthState) : Prop := normalize s = .ok s

theorem normal_of_normalize {s t : GrowthState} (h : normalize s = .ok t) : Normal t := by
  obtain ⟨accepted, rfl⟩ := normalize_ok.mp h
  rw [Normal, normalize_ok, canonical_canonical]
  exact ⟨accepted, rfl⟩

theorem Normal.stateDigest {s : GrowthState} (normal : Normal s) :
    stateDigest hash s = .ok (hash.state s) := by
  rw [CollectivePhaseControl.stateDigest, normal]
  rfl

theorem Normal.canonical {s : GrowthState} (normal : Normal s) : canonical s = s :=
  (normalize_ok.mp normal).2

theorem normal_withFacet {s t : GrowthState} {f : FrontierFacet} (canonicalBase : canonical s = s)
    (enabled : f.enabledActionIds.insertionSort (· ≤ ·) = f.enabledActionIds)
    (lineage : sortedLineage f.activationLineage = f.activationLineage)
    (h : GrowthState.validate { baseState s with frontier := some f } = .ok t) : Normal t := by
  obtain ⟨accepted, rfl⟩ := validate_ok.mp h
  have same : CollectivePhaseControl.canonical { baseState s with frontier := some f } =
      { baseState s with frontier := some f } := by
    conv_rhs => rw [← canonicalBase]
    simp only [CollectivePhaseControl.canonical, baseState, Option.map_some, enabled]
    rw [sortedLineage] at lineage
    rw [lineage]
  rw [Normal, normalize_ok, same]
  exact ⟨accepted, rfl⟩

theorem backlog_perm {xs ys : List GrowthWork} (perm : xs.Perm ys) (stage : Identifier) :
    backlog xs stage = backlog ys stage :=
  ((perm.filter _).map _).sum_eq

theorem backlog_append (xs ys : List GrowthWork) (stage : Identifier) :
    backlog (xs ++ ys) stage = backlog xs stage + backlog ys stage := by
  simp [backlog]

theorem backlog_canonical_queue (s : GrowthState) (stage : Identifier) :
    backlog (canonical s).queue stage = backlog s.queue stage :=
  backlog_perm (List.perm_insertionSort _ _) stage

theorem backlog_canonical_obligations (s : GrowthState) (stage : Identifier) :
    backlog (canonical s).obligations stage = backlog s.obligations stage :=
  backlog_perm (List.perm_insertionSort _ _) stage

def SameLedger (s t : GrowthState) : Prop := baseState s = baseState t

theorem SameLedger.field {β : Type*} {s t : GrowthState} (same : SameLedger s t)
    (field : GrowthState → β) (blind : ∀ u, field (baseState u) = field u) : field s = field t := by
  rw [← blind s, same, blind t]

theorem seed_sameLedger {s t : GrowthState} {f : GrowthCapabilityFrontier}
    (h : seed hash s f = .ok t) : SameLedger t s := by
  rw [seed, validate_ok] at h
  rw [← h.2]
  rfl

theorem activate_sameLedger {c : GrowthContractSpec} {objects : Objects}
    {f : GrowthCapabilityFrontier} {before after t : GrowthState} {recipe : GrowthAction}
    {effect : GrowthSuccessor} (h : activate hash c objects f before after recipe effect = .ok t) :
    SameLedger t after := by
  simp only [activate, bind_ok, validate_ok] at h
  obtain ⟨facet, -, action, -, -, -, parent, -, ⟨enabled, lineage⟩, -, -, rfl⟩ := h
  rfl

theorem seed_normal {s t : GrowthState} {f : GrowthCapabilityFrontier} (normal : Normal s)
    (h : seed hash s f = .ok t) : Normal t := by
  refine normal_withFacet normal.canonical ?_ ?_ h
  · exact sort_sort_key id _
  · exact sort_sort_key GrowthActivation.actionId _

theorem activate_normal {c : GrowthContractSpec} {objects : Objects}
    {f : GrowthCapabilityFrontier} {before after t : GrowthState} {recipe : GrowthAction}
    {effect : GrowthSuccessor} (normal : Normal after)
    (h : activate hash c objects f before after recipe effect = .ok t) : Normal t := by
  simp only [activate, bind_ok] at h
  obtain ⟨facet, -, action, -, -, -, parent, -, ⟨enabled, lineage⟩, -, valid⟩ := h
  refine normal_withFacet normal.canonical ?_ ?_ valid
  · exact sort_sort_key id _
  · exact sort_sort_key GrowthActivation.actionId _

theorem checkWorks_ok {c : GrowthContractSpec} {elapsed : ℚ} :
    ∀ {works : List GrowthWork} {seen seen' : List Identifier},
      checkWorks c elapsed seen works = .ok seen' →
        ∀ w ∈ works, w.stage ∈ c.domains ∧ 0 ≤ F w.remaining := by
  intro works
  induction works with
  | nil => simp
  | cons w works ih =>
    intro seen seen' h
    simp only [checkWorks, bind_ok, require_ok] at h
    obtain ⟨-, -, -, sound, -, -, rest⟩ := h
    exact List.forall_mem_cons.mpr ⟨sound, ih rest⟩

theorem checkState_keys {c : GrowthContractSpec} {s : GrowthState} {u : Unit}
    (h : checkState c s = .ok u) : s.capacities.keys = c.domains.keys := by
  simp only [checkState, bind_ok, require_ok] at h
  obtain ⟨-, keys, -⟩ := h
  exact keys.1.trans (keys.2.1.trans keys.2.2)

theorem checkState_works {c : GrowthContractSpec} {s : GrowthState} {u : Unit}
    (h : checkState c s = .ok u) :
    ∀ w ∈ s.queue ++ s.obligations, w.stage ∈ c.domains ∧ 0 ≤ F w.remaining := by
  simp only [checkState, bind_ok] at h
  obtain ⟨-, -, -, -, -, -, -, -, -, -, -, -, -, -, seen, queue, -, -, seen', obligations, -⟩ := h
  rw [List.forall_mem_append]
  exact ⟨checkWorks_ok queue, checkWorks_ok obligations⟩

theorem initialState_ok {contract : GrowthContract} {frontier : Frontier} {t : GrowthState}
    (h : initialState hash contract frontier = .ok t) :
    ∃ resources spent checkpoints,
      let s := contract.spec.initialState
      let start := canonical { s with
        resources, spent, checkpoints
        charges := prepaidCharges contract.spec
        elapsed := str (F s.elapsed + F contract.spec.planningDuration) }
      prepaid contract.spec = .ok (resources, spent) ∧ start.accepted = true ∧
        checkState contract.spec start = .ok () ∧ SameLedger t start := by
  simp only [initialState, bind_ok, normalize_ok] at h
  obtain ⟨⟨resources, spent⟩, paid, checkpoints, -, start, ⟨accepted, rfl⟩, ⟨⟩, checked, facet⟩ := h
  refine ⟨resources, spent, checkpoints, paid, accepted, checked, ?_⟩
  cases frontier with
  | none =>
    rw [pure_ok] at facet
    exact facet ▸ rfl
  | some f => exact seed_sameLedger facet

theorem initialState_normal {contract : GrowthContract} {frontier : Frontier} {t : GrowthState}
    (h : initialState hash contract frontier = .ok t) : Normal t := by
  simp only [initialState, bind_ok] at h
  obtain ⟨⟨resources, spent⟩, -, checkpoints, -, start, normalized, -, -, facet⟩ := h
  cases frontier with
  | none =>
    rw [pure_ok] at facet
    exact facet ▸ normal_of_normalize normalized
  | some f => exact seed_normal (normal_of_normalize normalized) facet

def stepWorks (s : GrowthState) (effect : GrowthSuccessor) : List GrowthWork :=
  (s.queue ++ effect.arrivals) ++ (s.obligations ++ effect.debtAdded)

/-- The checks that a step has passed, in the terms of its parts. -/
structure StepFacts (c : GrowthContractSpec) (s : GrowthState) (recipe : GrowthAction)
    (effect : GrowthSuccessor) (p : StepParts) : Prop where
  stop : p.stop = F s.elapsed + F effect.duration
  inTime : p.stop ≤ F recipe.expires ∧ p.stop ≤ F c.deadline
  admitted : checkState c { s with
    queue := s.queue ++ effect.arrivals
    obligations := s.obligations ++ effect.debtAdded } = .ok ()
  distinct : (GrowthState.workIds (stepWorks s effect)).Nodup
  known : ∀ id ∈ effect.completedWork.keys, id ∈ GrowthState.workIds (stepWorks s effect)
  service : ∃ used,
    completions (stepWorks s effect) p.stop effect.completedWork.toList ∅ = .ok used ∧
      bookService s effect used c.domains.keys (s.completed, s.offered) =
        .ok (p.completed, p.offered)
  queue : p.queue = remaining effect (s.queue ++ effect.arrivals)
  obligations : p.obligations = remaining effect (s.obligations ++ effect.debtAdded)
  books : bookCharges effect ⟨s.resources, s.spent, s.charges⟩ = .ok p.books
  capacities : creditCapacities effect.capacityDelta.toList s.capacities = .ok p.capacities
  transient : checkState c { s with
    reservations := s.reservations.filter (F s.elapsed < F ·.upto) ++ effect.reservations } = .ok ()
  reservations : p.reservations = s.reservations.filter (F s.elapsed < F ·.upto)
  checkpoints : boundaryCheckpoints s.capacities p.capacities p.stop
    (stepBoundaries c (F s.elapsed) p.stop) = .ok p.checkpoints

theorem stepParts_ok {contract : GrowthContract} {s : GrowthState} {recipe : GrowthAction}
    {effect : GrowthSuccessor} {objects : Objects} {action : ActionSpec} {cap : CapabilitySpec}
    {p : StepParts} (h : stepParts contract s recipe effect objects action cap = .ok p) :
    StepFacts contract.spec s recipe effect p := by
  simp only [stepParts, bind_ok, require_ok] at h
  obtain ⟨-, inTime, -, -, -, -, -, -, ⟨⟩, transient, ⟨⟩, admitted, -, distinct, -, known, -, -, -, -,
    used, counted, ⟨completed, offered⟩, booked, books, charged, capacities, credited, rest⟩ := h
  have assembled : ∃ branch removals checkpoints,
      boundaryCheckpoints s.capacities capacities (F s.elapsed + F effect.duration)
        (stepBoundaries contract.spec (F s.elapsed) (F s.elapsed + F effect.duration)) =
          .ok checkpoints ∧
      { stop := F s.elapsed + F effect.duration
        reservations := s.reservations.filter (F s.elapsed < F ·.upto)
        queue := remaining effect (s.queue ++ effect.arrivals)
        obligations := remaining effect (s.obligations ++ effect.debtAdded)
        completed, offered, books, capacities, branch, removals, checkpoints } = p := by
    split at rest <;> simp only [bind_ok, require_ok, pure_ok] at rest
    · obtain ⟨-, -, branch, -, -, -, -, -, -, -, checkpoints, marked, rfl⟩ := rest
      exact ⟨branch, _, checkpoints, marked, rfl⟩
    · obtain ⟨branch, -, -, -, -, -, -, -, checkpoints, marked, rfl⟩ := rest
      exact ⟨branch, _, checkpoints, marked, rfl⟩
  obtain ⟨branch, removals, checkpoints, marked, rfl⟩ := assembled
  exact
    { stop := rfl, inTime, admitted, distinct, known, service := ⟨used, counted, booked⟩,
      queue := rfl, obligations := rfl, books := charged, capacities := credited, transient,
      reservations := rfl, checkpoints := marked }

/-- The ledger that a step records, before its frontier facet is renewed. -/
def stepLedger (s : GrowthState) (action : ActionSpec) (cap : CapabilitySpec)
    (effect : GrowthSuccessor) (p : StepParts) : GrowthState :=
  canonical (stepResult s action cap effect p)

theorem transition_ok {contract : GrowthContract} {s t : GrowthState} {recipe : GrowthAction}
    {effect : GrowthSuccessor} {objects : Objects} {frontier : Frontier}
    (h : transition hash contract s recipe effect objects frontier = .ok t) :
    ∃ action cap parts,
      applicable hash contract s recipe objects frontier = .ok (action, cap) ∧
      effect ∈ successors s recipe ∧
      StepFacts contract.spec s recipe effect parts ∧
      (stepLedger s action cap effect parts).accepted = true ∧
      checkState contract.spec (stepLedger s action cap effect parts) = .ok () ∧
      SameLedger t (stepLedger s action cap effect parts) := by
  simp only [transition, bind_ok, require_ok, normalize_ok] at h
  obtain ⟨⟨action, cap⟩, allowed, -, declared, parts, computed, result, ⟨accepted, rfl⟩, -, -, ⟨⟩,
    checked, facet⟩ := h
  refine ⟨action, cap, parts, allowed, declared, stepParts_ok computed, accepted, checked, ?_⟩
  cases frontier with
  | none =>
    rw [pure_ok] at facet
    exact facet ▸ rfl
  | some f => exact activate_sameLedger facet

theorem transition_normal {contract : GrowthContract} {s t : GrowthState} {recipe : GrowthAction}
    {effect : GrowthSuccessor} {objects : Objects} {frontier : Frontier}
    (h : transition hash contract s recipe effect objects frontier = .ok t) : Normal t := by
  simp only [transition, bind_ok] at h
  obtain ⟨⟨action, cap⟩, -, -, -, parts, -, result, normalized, -, -, -, -, facet⟩ := h
  cases frontier with
  | none =>
    rw [pure_ok] at facet
    exact facet ▸ normal_of_normalize normalized
  | some f => exact activate_normal (normal_of_normalize normalized) facet

theorem applicable_models {contract : GrowthContract} {s : GrowthState} {recipe : GrowthAction}
    {objects : Objects} {frontier : Frontier} {both : ActionSpec × CapabilitySpec}
    (h : applicable hash contract s recipe objects frontier = .ok both) : s.modelIds ≠ [] := by
  simp only [applicable, bind_ok, require_ok] at h
  exact h.choose_spec.1

theorem applicable_action {contract : GrowthContract} {s : GrowthState} {recipe : GrowthAction}
    {objects : Objects} {frontier : Frontier} {both : ActionSpec × CapabilitySpec}
    (h : applicable hash contract s recipe objects frontier = .ok both) :
    actionDocument objects recipe.actionDigest = .ok both.1 := by
  simp only [applicable, bind_ok] at h
  obtain ⟨-, -, action, document, cap, -, rest⟩ := h
  cases frontier <;> simp only [bind_ok, pure_ok] at rest <;>
    obtain ⟨-, -, -, -, -, -, -, -, -, -, -, -, -, -, -, -, -, -, rfl⟩ := rest <;> exact document

theorem RecipeFacts.successors_nodup {c : GrowthContractSpec} {recipe : GrowthAction}
    (facts : RecipeFacts c recipe) (s : GrowthState) :
    ((successors s recipe).map (·.successorId)).Nodup := by
  have applicable := (List.filter_sublist (p := fun b => s.modelIds.any (· ∈ b.applicableModelIds))
    (l := recipe.successors)).map GrowthSuccessor.successorId
  exact ((List.perm_insertionSort _ _).map _).nodup_iff.mpr (facts.distinct.sublist applicable)

structure Move where
  recipe : GrowthAction
  effect : GrowthSuccessor

def Steps (hash : Hashing) (contract : GrowthContract) (objects : Objects) (frontier : Frontier)
    (s : GrowthState) (move : Move) (t : GrowthState) : Prop :=
  move.recipe ∈ contract.spec.actionCatalogue ∧
    transition hash contract s move.recipe move.effect objects frontier = .ok t

def GrowthRun (hash : Hashing) (contract : GrowthContract) (objects : Objects)
    (frontier : Frontier) (moves : List Move) (t : GrowthState) : Prop :=
  ∃ start, initialState hash contract frontier = .ok start ∧
    Runs.Run (Steps hash contract objects frontier) start moves t

theorem Steps.effectFacts {contract : GrowthContract} {objects : Objects} {frontier : Frontier}
    {s t : GrowthState} {move : Move} (facts : ContractFacts contract.spec objects)
    (step : Steps hash contract objects frontier s move t) : EffectFacts move.effect := by
  obtain ⟨listed, moved⟩ := step
  obtain ⟨-, -, -, -, declared, -⟩ := transition_ok moved
  rw [successors, List.mem_insertionSort, List.mem_filter] at declared
  exact (facts.recipes _ listed).effects _ declared.1

section steps
variable {contract : GrowthContract} {objects : Objects} {frontier : Frontier}
  {s t : GrowthState} {move : Move}

theorem Steps.elapsed_lt (contractFacts : ContractFacts contract.spec objects)
    (step : Steps hash contract objects frontier s move t) : F s.elapsed < F t.elapsed := by
  obtain ⟨action, cap, p, -, -, facts, -, -, same⟩ := transition_ok step.2
  have elapsed : t.elapsed = str p.stop := same.field (·.elapsed) fun _ => rfl
  rw [elapsed, F_str, facts.stop]
  exact lt_add_of_pos_right _ (step.effectFacts contractFacts).duration

theorem Steps.elapsed_le_deadline (step : Steps hash contract objects frontier s move t) :
    F t.elapsed ≤ F contract.spec.deadline := by
  obtain ⟨action, cap, p, -, -, facts, -, -, same⟩ := transition_ok step.2
  have elapsed : t.elapsed = str p.stop := same.field (·.elapsed) fun _ => rfl
  rw [elapsed, F_str]
  exact facts.inTime.2

theorem Steps.admitted (step : Steps hash contract objects frontier s move t) :
    Normal t ∧ checkState contract.spec t = .ok () ∧ t.modelIds ≠ [] := by
  obtain ⟨action, cap, p, allowed, -, -, accepted, checked, same⟩ := transition_ok step.2
  have models : t.modelIds = sortedSet s.modelIds := same.field (·.modelIds) fun _ => rfl
  refine ⟨transition_normal step.2, ?_, ?_⟩
  · rw [same.field (checkState contract.spec) fun _ => rfl]
    exact checked
  · rw [models]
    exact sortedSet_ne_nil (applicable_models allowed)

end steps

def Reachable (hash : Hashing) (contract : GrowthContract) (objects : Objects)
    (frontier : Frontier) (s : GrowthState) : Prop :=
  ∃ moves, GrowthRun hash contract objects frontier moves s

theorem Reachable.step {contract : GrowthContract} {objects : Objects} {frontier : Frontier}
    {s t : GrowthState} {move : Move} (reachable : Reachable hash contract objects frontier s)
    (step : Steps hash contract objects frontier s move t) :
    Reachable hash contract objects frontier t := by
  obtain ⟨moves, start, prepaidStart, run⟩ := reachable
  exact ⟨moves ++ [move], start, prepaidStart, run.snoc step⟩

theorem Reachable.admitted {contract : GrowthContract} {objects : Objects} {frontier : Frontier}
    {s : GrowthState} (reachable : Reachable hash contract objects frontier s) :
    Normal s ∧ checkState contract.spec s = .ok () := by
  obtain ⟨moves, start, prepaidStart, run⟩ := reachable
  refine run.invariant (I := fun u => Normal u ∧ checkState contract.spec u = .ok ())
    (fun _ _ _ _ step => ⟨step.admitted.1, step.admitted.2.1⟩) ?_
  obtain ⟨resources, spent, checkpoints, -, accepted, checked, same⟩ := initialState_ok prepaidStart
  refine ⟨initialState_normal prepaidStart, ?_⟩
  rw [same.field (checkState contract.spec) fun _ => rfl]
  exact checked

end CollectivePhaseControl
