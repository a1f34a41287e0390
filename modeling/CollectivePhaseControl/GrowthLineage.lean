import CollectivePhaseControl.GrowthRuns

/-! The lineage of enabled actions. A ledger under a frontier records, for every action
that was not enabled from the start, the step that enabled it. Steps only add records, each
one deeper and later than its producer's. -/
namespace CollectivePhaseControl

variable {hash : Hashing} {f : GrowthCapabilityFrontier}

def recorded (lineage : List GrowthActivation) : List Identifier := lineage.map (·.actionId)

theorem lineageOf_mem {lineage : List GrowthActivation} {action : Identifier}
    {event : GrowthActivation} (h : lineageOf lineage action = some event) :
    event ∈ lineage ∧ event.actionId = action := by
  rw [lineageOf] at h
  exact ⟨List.mem_reverse.mp (List.mem_of_find?_eq_some h), by simpa using List.find?_some h⟩

theorem lineageOf_eq_none {lineage : List GrowthActivation} {action : Identifier} :
    lineageOf lineage action = none ↔ action ∉ recorded lineage := by
  simp [lineageOf, recorded]

theorem lineageOf_eq_some {lineage : List GrowthActivation} (distinct : (recorded lineage).Nodup)
    {action : Identifier} {event : GrowthActivation} :
    lineageOf lineage action = some event ↔ event ∈ lineage ∧ event.actionId = action := by
  refine ⟨lineageOf_mem, ?_⟩
  rintro ⟨member, rfl⟩
  cases found : lineageOf lineage event.actionId with
  | none => exact absurd (List.mem_map_of_mem member) (lineageOf_eq_none.mp found)
  | some other =>
    obtain ⟨listed, same⟩ := lineageOf_mem found
    rw [List.inj_on_of_nodup_map distinct listed member same]

theorem lineageOf_perm {xs ys : List GrowthActivation} (distinct : (recorded xs).Nodup)
    (perm : xs.Perm ys) (action : Identifier) : lineageOf xs action = lineageOf ys action := by
  have distinct' : (recorded ys).Nodup := (perm.map _).nodup_iff.mp distinct
  ext event
  rw [lineageOf_eq_some distinct, lineageOf_eq_some distinct', perm.mem_iff]

theorem lineageOf_append {xs ys : List GrowthActivation} {action : Identifier}
    (fresh : action ∉ recorded ys) : lineageOf (xs ++ ys) action = lineageOf xs action := by
  have skipped : ys.reverse.find? (·.actionId = action) = none := lineageOf_eq_none.mpr fresh
  rw [lineageOf, List.reverse_append, List.find?_append, skipped, Option.none_or, lineageOf]

theorem foldl_max_le {depths : List ℕ} {first n : ℕ} :
    depths.foldl max first ≤ n ↔ first ≤ n ∧ ∀ d ∈ depths, d ≤ n := by
  induction depths generalizing first with
  | nil => simp
  | cons d depths ih => rw [List.foldl_cons, ih, max_le_iff, List.forall_mem_cons, and_assoc]

theorem maximumDepth_le {lineage : List GrowthActivation} {n : ℕ} :
    maximumDepth lineage ≤ n ↔ ∀ event ∈ lineage, event.depth ≤ n := by
  simp [maximumDepth, foldl_max_le]

theorem maximumDepth_perm {xs ys : List GrowthActivation} (perm : xs.Perm ys) :
    maximumDepth xs = maximumDepth ys := by
  have below : ∀ n, maximumDepth xs ≤ n ↔ maximumDepth ys ≤ n := fun n => by
    simp only [maximumDepth_le, perm.mem_iff]
  exact le_antisymm ((below _).mpr le_rfl) ((below _).mp le_rfl)

theorem sortedLineage_perm (lineage : List GrowthActivation) :
    (sortedLineage lineage).Perm lineage := List.perm_insertionSort _ _

/-- A record is one of its rule's, not later than the ledger, and one deeper and later than
its producer's record, or of depth one when the producer was enabled from the start. -/
structure EventValid (f : GrowthCapabilityFrontier) (elapsed : ℚ) (lineage : List GrowthActivation)
    (event : GrowthActivation) : Prop where
  rule : ∃ rule, ruleOf f event.ruleId = some rule ∧ event.actionId ∈ rule.activatedActionIds ∧
    event.producerActionId = rule.producerActionId ∧
    event.producerSuccessorId = rule.producerSuccessorId
  past : F event.modelTime ≤ elapsed
  rooted : lineageOf lineage event.producerActionId = none →
    initiallyEnabled f event.producerActionId ∧ event.depth = 1
  deeper : ∀ parent, lineageOf lineage event.producerActionId = some parent →
    event.depth = parent.depth + 1 ∧ F parent.modelTime < F event.modelTime

theorem lineageEventValid_iff {s : GrowthState} {lineage : List GrowthActivation}
    {event : GrowthActivation} :
    lineageEventValid f s lineage event ↔ EventValid f (F s.elapsed) lineage event := by
  unfold lineageEventValid
  constructor
  · intro valid
    split at valid
    · exact valid.elim
    case h_2 rule found =>
      obtain ⟨activated, producer, successor, past, origin⟩ := valid
      refine ⟨⟨rule, found, activated, producer, successor⟩, past, ?_, ?_⟩
      · intro none'
        rw [none'] at origin
        exact origin
      · intro parent some'
        rw [some'] at origin
        exact origin
  · rintro ⟨⟨rule, found, activated, producer, successor⟩, past, rooted, deeper⟩
    rw [found]
    refine ⟨activated, producer, successor, past, ?_⟩
    split
    case h_1 none' => exact rooted none'
    case h_2 parent some' => exact deeper parent some'

/-- What `checkFrontierState` checks. -/
structure Lineage (hash : Hashing) (f : GrowthCapabilityFrontier) (s : GrowthState)
    (facet : FrontierFacet) : Prop where
  present : s.frontier = some facet
  digest : facet.frontierDigest = frontierDigest hash f
  distinct : (recorded facet.activationLineage).Nodup
  carried : ∀ x ∈ f.spec.initialActivationLineage, lineageOf facet.activationLineage x.actionId =
    lineageOf f.spec.initialActivationLineage x.actionId
  fresh : ∀ action, initiallyEnabled f action → action ∉ recorded facet.activationLineage
  enabled : ∀ action, action ∈ facet.enabledActionIds ↔
    initiallyEnabled f action ∨ action ∈ recorded facet.activationLineage
  enabledDistinct : facet.enabledActionIds.Nodup
  events : ∀ event ∈ facet.activationLineage,
    EventValid f (F s.elapsed) facet.activationLineage event
  depth : facet.activationDepth = maximumDepth facet.activationLineage
  bounded : facet.activationDepth ≤ f.spec.maximumActivationDepth

theorem mem_initial {action : Identifier} :
    action ∈ f.spec.initialEnabledActionIds.filter (initiallyEnabled f ·) ↔
      initiallyEnabled f action := by
  rw [List.mem_filter, decide_eq_true_eq, initiallyEnabled]
  tauto

theorem checkFrontierState_ok {s : GrowthState} {facet : FrontierFacet} :
    checkFrontierState hash s f = .ok facet ↔ Lineage hash f s facet := by
  unfold checkFrontierState
  cases present : s.frontier with
  | none => exact ⟨(nomatch ·), fun lineage => nomatch present.symm.trans lineage.present⟩
  | some own =>
    simp only [bind_ok, require_ok, forM_ok, pure_ok, exists_punit, mem_initial,
      lineageEventValid_iff]
    constructor
    · rintro ⟨digest, ⟨distinct, carried, fresh, known, all, enabledDistinct⟩, events,
        ⟨depth, bounded⟩, rfl⟩
      refine ⟨present, digest, distinct, carried, fresh, fun action => ⟨known action, fun either => ?_⟩,
        enabledDistinct, events, depth, bounded⟩
      exact all action (List.mem_append.mpr (either.imp mem_initial.mpr id))
    · intro lineage
      cases Option.some.inj (present.symm.trans lineage.present)
      refine ⟨lineage.digest, ⟨lineage.distinct, lineage.carried, lineage.fresh,
        fun action => (lineage.enabled action).mp, fun action either => ?_,
        lineage.enabledDistinct⟩, lineage.events, ⟨lineage.depth, lineage.bounded⟩, rfl⟩
      exact (lineage.enabled action).mpr ((List.mem_append.mp either).imp mem_initial.mp id)

theorem activateTargets_ok {c : GrowthContractSpec} {objects : Objects} {after : GrowthState}
    {record : Identifier → GrowthActivation} {depth : ℕ} :
    ∀ {targets enabled enabled' : List Identifier} {lineage lineage' : List GrowthActivation},
      activateTargets c objects f after record depth targets (enabled, lineage) =
          .ok (enabled', lineage') →
        enabled' = targets.reverse ++ enabled ∧ lineage' = lineage ++ targets.map record ∧
          ∀ target ∈ targets, depth ≤ f.spec.maximumActivationDepth := by
  intro targets
  induction targets with
  | nil =>
    intro enabled enabled' lineage lineage' h
    cases h
    simp
  | cons target targets ih =>
    intro enabled enabled' lineage lineage' h
    simp only [activateTargets, bind_ok, require_ok] at h
    obtain ⟨-, within, -, -, rest⟩ := h
    obtain ⟨enabledEq, lineageEq, each⟩ := ih rest
    refine ⟨?_, ?_, List.forall_mem_cons.mpr ⟨within, each⟩⟩
    · rw [enabledEq, List.reverse_cons, List.append_assoc, List.singleton_append]
    · rw [lineageEq, List.append_assoc, List.singleton_append, List.map_cons]

/-- A record that one step adds: a target of one of the rules that the step matches. -/
structure AddedBy (f : GrowthCapabilityFrontier) (rules : List GrowthActivationRule)
    (after : GrowthState) (producer successorId : Identifier) (depth : ℕ)
    (event : GrowthActivation) : Prop where
  rule : ∃ rule ∈ rules, rule.ruleId = event.ruleId ∧ event.actionId ∈ rule.activatedActionIds ∧
    rule.producerActionId = producer ∧ rule.producerSuccessorId = successorId
  producerEq : event.producerActionId = producer
  successorEq : event.producerSuccessorId = successorId
  depthEq : event.depth = depth
  timeEq : event.modelTime = after.elapsed
  within : depth ≤ f.spec.maximumActivationDepth

/-- Records are only added, one for each action that is enabled on the way. -/
def Activated (f : GrowthCapabilityFrontier) (rules : List GrowthActivationRule)
    (after : GrowthState) (producer successorId : Identifier) (depth : ℕ)
    (before now : List Identifier × List GrowthActivation) : Prop :=
  ∃ added, now.2 = before.2 ++ added ∧ now.1.Perm (recorded added ++ before.1) ∧
    (before.1.Nodup → now.1.Nodup) ∧
    ∀ event ∈ added, AddedBy f rules after producer successorId depth event

theorem activateRules_ok {c : GrowthContractSpec} {objects : Objects} {after : GrowthState}
    {producer successorId : Identifier} {depth : ℕ} {parent : Digest} :
    ∀ {rules : List GrowthActivationRule} {before now : List Identifier × List GrowthActivation},
      activateRules c objects f after producer successorId depth parent rules before = .ok now →
        Activated f rules after producer successorId depth before now := by
  intro rules
  induction rules with
  | nil =>
    intro before now h
    cases h
    exact ⟨[], by simp, List.Perm.refl _, id, by simp⟩
  | cons rule rules ih =>
    rintro ⟨enabled, lineage⟩ ⟨enabled', lineage'⟩ h
    have later : ∀ event, AddedBy f rules after producer successorId depth event →
        AddedBy f (rule :: rules) after producer successorId depth event := by
      intro event added
      obtain ⟨other, listed, named⟩ := added.rule
      exact { added with rule := ⟨other, List.mem_cons_of_mem _ listed, named⟩ }
    have skipped : activateRules c objects f after producer successorId depth parent rules
        (enabled, lineage) = .ok (enabled', lineage') → Activated f (rule :: rules) after producer
          successorId depth (enabled, lineage) (enabled', lineage') := fun rest => by
      obtain ⟨added, lineageEq, perm, distinct, each⟩ := ih rest
      exact ⟨added, lineageEq, perm, distinct, fun event member => later event (each event member)⟩
    simp only [activateRules] at h
    split at h
    case isFalse => exact skipped h
    case isTrue names =>
      simp only [bind_ok] at h
      obtain ⟨applies, -, rest⟩ := h
      cases applies with
      | false => exact skipped rest
      | true =>
        simp only [if_true, bind_ok] at rest
        obtain ⟨⟨enabled₁, lineage₁⟩, targeted, rest⟩ := rest
        set record := fun target =>
          (⟨target, rule.ruleId, producer, successorId, depth, after.elapsed, parent⟩ :
            GrowthActivation)
        set targets := sortedSet (rule.activatedActionIds.filter (· ∉ enabled)) with targetsEq
        obtain ⟨rfl, rfl, within⟩ := activateTargets_ok targeted
        obtain ⟨added, lineageEq, perm, distinct, each⟩ := ih rest
        have target : ∀ t ∈ targets, t ∈ rule.activatedActionIds ∧ t ∉ enabled := by
          intro t member
          rw [targetsEq, mem_sortedSet, List.mem_filter, decide_eq_true_eq] at member
          exact member
        have own : recorded (targets.map record) = targets := by
          rw [recorded, List.map_map]
          exact List.map_id _
        refine ⟨targets.map record ++ added, lineageEq.trans (List.append_assoc ..), ?_, ?_, ?_⟩
        · have moved : (recorded added ++ (targets.reverse ++ enabled)).Perm
              (targets ++ recorded added ++ enabled) := by
            rw [← List.append_assoc]
            refine List.Perm.append_right _ (List.perm_append_comm.trans ?_)
            exact List.Perm.append_right _ (List.reverse_perm _)
          have split : recorded (targets.map record ++ added) = targets ++ recorded added :=
            (List.map_append ..).trans (congrArg (· ++ recorded added) own)
          rw [split]
          exact perm.trans moved
        · intro old
          apply distinct
          rw [List.nodup_append, List.nodup_reverse]
          refine ⟨sortedSet_nodup _, old, fun t member other listed => ?_⟩
          rintro rfl
          exact (target t (List.mem_reverse.mp member)).2 listed
        · intro event member
          rcases List.mem_append.mp member with first | after'
          · obtain ⟨t, listed, rfl⟩ := List.mem_map.mp first
            exact ⟨⟨rule, List.mem_cons_self, rfl, (target t listed).1, names⟩, rfl, rfl, rfl, rfl,
              within t listed⟩
          · exact later event (each event after')

structure FrontierFacts (f : GrowthCapabilityFrontier) : Prop where
  rules : (f.spec.activationRules.map (·.ruleId)).Nodup
  carried : (recorded f.spec.initialActivationLineage).Nodup

theorem ruleOf_ok (facts : FrontierFacts f) {rule : GrowthActivationRule}
    (listed : rule ∈ f.spec.activationRules) : ruleOf f rule.ruleId = some rule := by
  cases found : ruleOf f rule.ruleId with
  | none =>
    rw [ruleOf, List.find?_eq_none] at found
    exact absurd (found rule (List.mem_reverse.mpr listed)) (by simp)
  | some other =>
    rw [ruleOf] at found
    have member := List.mem_reverse.mp (List.mem_of_find?_eq_some found)
    have same : other.ruleId = rule.ruleId := by simpa using List.find?_some found
    rw [List.inj_on_of_nodup_map facts.rules member listed same]

theorem EventValid.later {elapsed elapsed' : ℚ} (later : elapsed ≤ elapsed')
    {lineage : List GrowthActivation} {event : GrowthActivation}
    (valid : EventValid f elapsed lineage event) : EventValid f elapsed' lineage event :=
  { valid with past := valid.past.trans later }

theorem EventValid.extend {elapsed : ℚ} {lineage added : List GrowthActivation}
    {event : GrowthActivation} (valid : EventValid f elapsed lineage event)
    (fresh : event.producerActionId ∉ recorded added) :
    EventValid f elapsed (lineage ++ added) event := by
  obtain ⟨rule, past, rooted, deeper⟩ := valid
  exact ⟨rule, past, by rwa [lineageOf_append fresh], by rwa [lineageOf_append fresh]⟩

theorem EventValid.perm {elapsed : ℚ} {xs ys : List GrowthActivation} {event : GrowthActivation}
    (distinct : (recorded xs).Nodup) (perm : xs.Perm ys) (valid : EventValid f elapsed xs event) :
    EventValid f elapsed ys event := by
  obtain ⟨rule, past, rooted, deeper⟩ := valid
  have same := lineageOf_perm distinct perm event.producerActionId
  exact ⟨rule, past, same ▸ rooted, same ▸ deeper⟩

theorem Lineage.producer_enabled {s : GrowthState} {facet : FrontierFacet}
    (lineage : Lineage hash f s facet) {event : GrowthActivation}
    (member : event ∈ facet.activationLineage) :
    event.producerActionId ∈ facet.enabledActionIds := by
  rw [lineage.enabled]
  by_cases own : event.producerActionId ∈ recorded facet.activationLineage
  · exact .inr own
  · exact .inl ((lineage.events event member).rooted (lineageOf_eq_none.mpr own)).1

def stepDepth (facet : FrontierFacet) (producer : Identifier) : ℕ :=
  match facet.activationLineage.find? (·.actionId = producer) with
  | some parent => parent.depth + 1
  | none => 1

def orderedRules (f : GrowthCapabilityFrontier) : List GrowthActivationRule :=
  f.spec.activationRules.insertionSort fun a b => a.ruleId ≤ b.ruleId

def FrontierFacet.renew (facet : FrontierFacet)
    (now : List Identifier × List GrowthActivation) : FrontierFacet where
  frontierDigest := facet.frontierDigest
  enabledActionIds := now.1.insertionSort (· ≤ ·)
  activationDepth := maximumDepth now.2
  activationLineage := sortedLineage now.2

def renewed (after : GrowthState) (facet : FrontierFacet)
    (now : List Identifier × List GrowthActivation) : GrowthState :=
  { baseState after with frontier := some (facet.renew now) }

theorem activate_ok {c : GrowthContractSpec} {objects : Objects} {before after t : GrowthState}
    {recipe : GrowthAction} {effect : GrowthSuccessor}
    (h : activate hash c objects f before after recipe effect = .ok t) :
    ∃ facet producer parent now,
      Lineage hash f before facet ∧ producer ∈ facet.enabledActionIds ∧
      activateRules c objects f after producer effect.successorId (stepDepth facet producer) parent
        (orderedRules f) (facet.enabledActionIds, facet.activationLineage) = .ok now ∧
      t = renewed after facet now := by
  simp only [activate, bind_ok, validate_ok] at h
  obtain ⟨facet, checked, action, -, ⟨⟩, used, parent, -, now, activated, -, rfl⟩ := h
  simp only [checkUse, bind_ok, require_ok] at used
  obtain ⟨facet', checked', -, allowed, -⟩ := used
  cases checked.symm.trans checked'
  exact ⟨facet, action.actionId, parent, now, checkFrontierState_ok.mp checked, allowed, activated,
    rfl⟩

theorem activateRules_lineage (facts : FrontierFacts f) {c : GrowthContractSpec} {objects : Objects}
    {before after : GrowthState} {producer successorId : Identifier} {parent : Digest}
    {facet : FrontierFacet} {now : List Identifier × List GrowthActivation}
    (valid : Lineage hash f before facet) (allowed : producer ∈ facet.enabledActionIds)
    (forward : F before.elapsed < F after.elapsed)
    (activated : activateRules c objects f after producer successorId (stepDepth facet producer)
      parent (orderedRules f) (facet.enabledActionIds, facet.activationLineage) = .ok now) :
    Lineage hash f (renewed after facet now) (facet.renew now) ∧
      facet.enabledActionIds ⊆ (facet.renew now).enabledActionIds ∧
      facet.activationLineage ⊆ (facet.renew now).activationLineage ∧
      ∀ x ∈ (facet.renew now).activationLineage,
        x ∈ facet.activationLineage ∨ x.modelTime = after.elapsed := by
  obtain ⟨enabled, all⟩ := now
  obtain ⟨added, rfl, perm, distinctEnabled, each⟩ := activateRules_ok activated
  simp only at perm distinctEnabled
  have enabledNodup := distinctEnabled valid.enabledDistinct
  have disjoint := (List.nodup_append.mp (perm.nodup_iff.mp enabledNodup))
  obtain ⟨addedNodup, -, apart⟩ := disjoint
  have new : ∀ action ∈ facet.enabledActionIds, action ∉ recorded added :=
    fun action old member => apart action member action old rfl
  have keep : ∀ action ∈ facet.enabledActionIds,
      lineageOf (facet.activationLineage ++ added) action =
        lineageOf facet.activationLineage action :=
    fun action old => lineageOf_append (new action old)
  have append : recorded (facet.activationLineage ++ added) =
      recorded facet.activationLineage ++ recorded added := List.map_append ..
  have distinct : (recorded (facet.activationLineage ++ added)).Nodup := by
    rw [append, List.nodup_append]
    refine ⟨valid.distinct, addedNodup, fun action old other recent => ?_⟩
    rintro rfl
    exact new action ((valid.enabled action).mpr (.inr old)) recent
  have sorted := sortedLineage_perm (facet.activationLineage ++ added)
  have sortedDistinct : (recorded (sortedLineage (facet.activationLineage ++ added))).Nodup :=
    (sorted.map _).nodup_iff.mpr distinct
  have members : ∀ action, action ∈ recorded (sortedLineage (facet.activationLineage ++ added)) ↔
      action ∈ recorded facet.activationLineage ∨ action ∈ recorded added := fun action => by
    rw [← List.mem_append, ← append]
    exact (sorted.map _).mem_iff
  have origin := keep producer allowed
  have firstRecord : facet.activationLineage.find? (·.actionId = producer) =
      lineageOf facet.activationLineage producer := by
    have reversed := lineageOf_perm valid.distinct
      (List.reverse_perm facet.activationLineage).symm producer
    rw [reversed, lineageOf, List.reverse_reverse]
  -- Old records keep their producers; a new one has the step's producer, which was enabled.
  have events : ∀ event ∈ facet.activationLineage ++ added,
      EventValid f (F after.elapsed) (facet.activationLineage ++ added) event := by
    intro event member
    rcases List.mem_append.mp member with old | recent
    · exact EventValid.later forward.le ((valid.events event old).extend
        (new _ (valid.producer_enabled old)))
    · obtain ⟨⟨rule, listed, named, target, producerEq, successorEq⟩, ofProducer, ofSuccessor, depthEq,
        timeEq, -⟩ := each event recent
      have rule' := ruleOf_ok facts ((List.mem_insertionSort _).mp listed)
      refine ⟨⟨rule, named ▸ rule', target, ofProducer.trans producerEq.symm,
        ofSuccessor.trans successorEq.symm⟩, by rw [timeEq], ?_, ?_⟩ <;> rw [ofProducer, origin]
      · intro none'
        rw [stepDepth, firstRecord, none'] at depthEq
        have initial := ((valid.enabled _).mp allowed).resolve_right (lineageOf_eq_none.mp none')
        exact ⟨initial, depthEq⟩
      · intro record some'
        rw [stepDepth, firstRecord, some'] at depthEq
        refine ⟨depthEq, ?_⟩
        have past := (valid.events record (lineageOf_mem some').1).past
        rw [timeEq]
        exact past.trans_lt forward
  refine ⟨⟨rfl, valid.digest, sortedDistinct, ?_, ?_, ?_, ?_, ?_, ?_, ?_⟩, ?_, ?_, ?_⟩ <;>
    simp only [FrontierFacet.renew]
  · intro x member
    have own : lineageOf f.spec.initialActivationLineage x.actionId = some x :=
      (lineageOf_eq_some facts.carried).mpr ⟨member, rfl⟩
    have there : lineageOf facet.activationLineage x.actionId = some x :=
      (valid.carried x member).trans own
    have enabledThere : x.actionId ∈ facet.enabledActionIds :=
      (valid.enabled _).mpr (.inr (List.mem_map.mpr ⟨x, (lineageOf_mem there).1, rfl⟩))
    rw [lineageOf_perm sortedDistinct sorted, keep _ enabledThere]
    exact valid.carried x member
  · intro action initial member
    rcases (members action).mp member with old | recent
    · exact valid.fresh action initial old
    · exact new action ((valid.enabled action).mpr (.inl initial)) recent
  · intro action
    have all := members action
    rw [List.mem_insertionSort, perm.mem_iff, List.mem_append, valid.enabled]
    tauto
  · exact (List.perm_insertionSort _ _).nodup_iff.mpr enabledNodup
  · intro event member
    exact (events event (sorted.mem_iff.mp member)).perm distinct sorted.symm
  · exact (maximumDepth_perm sorted).symm
  · rw [maximumDepth_le]
    intro event member
    rcases List.mem_append.mp member with old | recent
    · exact (maximumDepth_le.mp valid.depth.ge event old).trans valid.bounded
    · obtain ⟨-, -, -, depthEq, -, within⟩ := each event recent
      rw [depthEq]
      exact within
  · intro action old
    rw [List.mem_insertionSort, perm.mem_iff]
    exact List.mem_append_right _ old
  · intro event old
    exact sorted.mem_iff.mpr (List.mem_append_left _ old)
  · intro event member
    exact (List.mem_append.mp (sorted.mem_iff.mp member)).imp_right fun recent =>
      (each event recent).timeEq

theorem activate_lineage (facts : FrontierFacts f) {c : GrowthContractSpec} {objects : Objects}
    {before after t : GrowthState} {recipe : GrowthAction} {effect : GrowthSuccessor}
    (forward : F before.elapsed < F after.elapsed)
    (h : activate hash c objects f before after recipe effect = .ok t) :
    ∃ facet facet', Lineage hash f before facet ∧ Lineage hash f t facet' ∧
      facet.enabledActionIds ⊆ facet'.enabledActionIds ∧
      facet.activationLineage ⊆ facet'.activationLineage := by
  obtain ⟨facet, producer, parent, now, valid, allowed, activated, rfl⟩ := activate_ok h
  obtain ⟨valid', enabled, records, -⟩ :=
    activateRules_lineage facts valid allowed forward activated
  exact ⟨facet, facet.renew now, valid, valid', enabled, records⟩

def Descends (lineage chain : List GrowthActivation) : Prop :=
  chain ⊆ lineage ∧ chain.IsChain fun event parent => parent.actionId = event.producerActionId

section chains
variable {s : GrowthState} {facet : FrontierFacet} (lineage : Lineage hash f s facet)
include lineage

theorem Lineage.depth_pos {event : GrowthActivation} (member : event ∈ facet.activationLineage) :
    0 < event.depth := by
  have valid := lineage.events event member
  cases found : lineageOf facet.activationLineage event.producerActionId with
  | none => rw [(valid.rooted found).2]; exact Nat.one_pos
  | some parent => rw [(valid.deeper parent found).1]; exact Nat.succ_pos _

theorem Lineage.parent_depth {event parent : GrowthActivation}
    (member : event ∈ facet.activationLineage) (member' : parent ∈ facet.activationLineage)
    (produced : parent.actionId = event.producerActionId) : event.depth = parent.depth + 1 := by
  have found := (lineageOf_eq_some lineage.distinct).mpr ⟨member', produced⟩
  exact ((lineage.events event member).deeper parent found).1

theorem Lineage.descending {chain : List GrowthActivation}
    (descends : Descends facet.activationLineage chain) :
    chain.Pairwise (fun event parent => parent.depth < event.depth) ∧ (recorded chain).Nodup := by
  obtain ⟨inside, linked⟩ := descends
  have falls : chain.Pairwise fun event parent => parent.depth < event.depth := by
    have trans : IsTrans GrowthActivation fun event parent => parent.depth < event.depth :=
      ⟨fun _ _ _ first second => second.trans first⟩
    rw [← List.isChain_iff_pairwise]
    refine linked.imp_of_mem_imp fun event parent member member' produced => ?_
    have deeper := lineage.parent_depth (inside member) (inside member') produced
    omega
  refine ⟨falls, ?_⟩
  rw [recorded, List.Nodup, List.pairwise_map]
  refine falls.imp_of_mem fun member member' less same => ?_
  have equal := List.inj_on_of_nodup_map lineage.distinct (inside member) (inside member') same
  rw [equal] at less
  exact lt_irrefl _ less

theorem Lineage.rooted {event : GrowthActivation} (member : event ∈ facet.activationLineage) :
    ∃ chain last, Descends facet.activationLineage (event :: chain) ∧
      (event :: chain).getLast? = some last ∧ initiallyEnabled f last.producerActionId := by
  induction depth : event.depth using Nat.strong_induction_on generalizing event with
  | _ n ih =>
    have valid := lineage.events event member
    cases found : lineageOf facet.activationLineage event.producerActionId with
    | none =>
      exact ⟨[], event, ⟨by simpa using member, List.isChain_singleton _⟩, rfl,
        (valid.rooted found).1⟩
    | some parent =>
      obtain ⟨listed, produced⟩ := lineageOf_mem found
      have shallower : parent.depth < n := by
        rw [← depth, (valid.deeper parent found).1]
        exact Nat.lt_succ_self _
      obtain ⟨chain, last, ⟨inside, linked⟩, final, initial⟩ := ih _ shallower listed rfl
      refine ⟨parent :: chain, last, ⟨List.cons_subset.mpr ⟨member, inside⟩,
        List.isChain_cons_cons.mpr ⟨produced, linked⟩⟩, ?_, initial⟩
      rw [List.getLast?_cons_cons]
      exact final

end chains

theorem halts_item {α : Type} {m : Dict α} {key : Identifier} : Halts (m.item key) :=
  halts_demand (by decide) _

theorem halts_minus {a b : DateTime} : Halts (a.minus b) := by
  unfold DateTime.minus
  split
  · exact halts_ok _
  · exact halts_ok _
  · exact halts_crash (by decide)

theorem halts_lifecycle {c : GrowthContractSpec} {objects : Objects} {lifecycle : Lifecycle}
    {start stop : ℚ} : Halts (checkLifecycle c objects lifecycle start stop) := by
  have seconds : ∀ time, Halts (secondsAfter c.modelTimeOrigin time) :=
    fun time => halts_bind halts_minus fun _ _ => halts_ok _
  have scale : Halts (timeScale c objects) := by
    refine halts_bind (halts_bind halts_item fun document _ => ?_) fun units _ =>
      halts_bind halts_item fun _ _ => halts_ok _
    split
    · exact halts_ok _
    · exact halts_crash (by decide)
  refine halts_bind scale fun _ _ => halts_bind (seconds _) fun _ _ => halts_bind halts_require
    fun _ _ => halts_bind (seconds _) fun _ _ => halts_bind halts_require fun _ _ => ?_
  split
  · exact halts_ok _
  · exact halts_bind (seconds _) fun _ _ => halts_require

theorem halts_bindingLive {c : GrowthContractSpec} {objects : Objects} {s : GrowthState}
    {action : Identifier} {stop : ℚ} : Halts (bindingLive c objects f s action stop) := by
  refine halts_bind (halts_demand (by decide) _) fun binding _ =>
    halts_bind (halts_demand (by decide) _) fun recipe _ => halts_bind halts_require fun _ _ =>
    halts_bind ?_ fun spec _ => halts_bind halts_require fun _ _ =>
    halts_bind halts_lifecycle fun _ _ => halts_forM (fun digest => ?_) _
  · refine halts_bind halts_item fun document _ => ?_
    split
    · exact halts_ok _
    · exact halts_crash (by decide)
  · split
    · exact halts_lifecycle
    · exact halts_ok _

theorem halts_allCovered {available : Identifier → Checked ℚ} (each : ∀ key, Halts (available key))
    (minimums : List (Identifier × Rational)) : Halts (allCovered available minimums) := by
  induction minimums with
  | nil => exact halts_ok _
  | cons p minimums ih =>
    refine halts_bind (each p.1) fun held _ => ?_
    split
    · exact ih
    · exact halts_ok _

theorem halts_conditions {rule : GrowthActivationRule} {s : GrowthState} {stop : ℚ} :
    Halts (conditions rule s stop) := by
  have item : ∀ key, Halts (do pure (F (← s.resources.item key)) : Checked ℚ) :=
    fun key => halts_bind halts_item fun _ _ => halts_ok _
  have lower : ∀ key, Halts (lowerCapacity s key) :=
    fun key => halts_bind halts_item fun _ _ => halts_ok _
  unfold conditions
  split
  · refine halts_bind (halts_allCovered lower _) fun covered _ => ?_
    split
    · exact halts_allCovered item _
    · exact halts_ok _
  · exact halts_ok _

theorem halts_checkPremises {c : GrowthContractSpec} {objects : Objects} {s t : GrowthState}
    {facet : FrontierFacet} (lineage : Lineage hash f s facet) {stop : ℚ} :
    ∀ {fuel : ℕ} {record : Option GrowthActivation},
      (∀ event ∈ record, event ∈ facet.activationLineage ∧ event.depth ≤ fuel) →
        Halts (checkPremises c objects f t facet.activationLineage stop fuel record) := by
  intro fuel
  induction fuel with
  | zero =>
    intro record bounded
    cases record with
    | none => exact halts_ok _
    | some event =>
      obtain ⟨member, none'⟩ := bounded event rfl
      exact absurd (lineage.depth_pos member) (by omega)
  | succ fuel ih =>
    intro record bounded
    cases record with
    | none => exact halts_ok _
    | some event =>
      obtain ⟨member, within⟩ := bounded event rfl
      refine halts_bind (halts_demand (by decide) _) fun rule _ =>
        halts_bind halts_bindingLive fun _ _ => halts_bind halts_conditions fun _ _ =>
        halts_bind halts_require fun _ _ => halts_bind (halts_forM (fun _ => halts_require) _)
        fun _ _ => ih fun parent found => ?_
      obtain ⟨listed, produced⟩ := lineageOf_mem found
      have deeper := lineage.parent_depth member listed produced
      exact ⟨listed, by omega⟩

theorem halts_checkUse {c : GrowthContractSpec} {objects : Objects} {s : GrowthState}
    {action : Identifier} {stop : ℚ} : Halts (checkUse hash c objects f s action stop) := by
  have start : Halts (checkFrontierState hash s f) := by
    unfold checkFrontierState
    split
    · exact halts_coded _
    · exact halts_bind halts_require fun _ _ => halts_bind halts_require fun _ _ =>
        halts_bind (halts_forM (fun _ => halts_require) _) fun _ _ =>
        halts_bind halts_require fun _ _ => halts_ok _
  refine halts_bind start fun facet checked => halts_bind halts_require fun _ _ =>
    halts_bind halts_bindingLive fun _ _ => halts_checkPremises (checkFrontierState_ok.mp checked) ?_
  intro event found
  have listed := (lineageOf_mem found).1
  exact ⟨listed, maximumDepth_le.mp le_rfl event listed⟩

theorem validateFrontier_ok {contract : GrowthContract} {objects : Objects} {u : Unit}
    (h : validateFrontier hash contract objects f = .ok u) :
    FrontierFacts f ∧ ∃ seeded facet, seed hash contract.spec.initialState f = .ok seeded ∧
      Lineage hash f seeded facet := by
  simp only [validateFrontier, bind_ok, require_ok, checkFrontierState_ok] at h
  obtain ⟨-, -, actions, -, -, -, -, -, -, -, -, -, -, rules, -, -, -, carried, seeded, planted, facet,
    valid, -⟩ := h
  exact ⟨⟨rules, carried.1⟩, seeded, facet, planted, valid⟩

theorem Lineage.later {s t : GrowthState} {facet : FrontierFacet} (lineage : Lineage hash f s facet)
    (later : F s.elapsed ≤ F t.elapsed) (present : t.frontier = some facet) :
    Lineage hash f t facet :=
  { lineage with
    present
    events := fun event member => (lineage.events event member).later later }

section run
variable {contract : GrowthContract} {objects : Objects}

theorem validateContract_planning {u : Unit} (h : validateContract hash contract objects = .ok u) :
    0 ≤ F contract.spec.planningDuration := by
  simp only [validateContract, bind_ok] at h
  obtain ⟨-, -, -, -, units, -, -, -, -, -, ⟨⟩, terms, -⟩ := h
  simp only [validateTerms, bind_ok, require_ok] at terms
  obtain ⟨-, -, -, -, -, times, -⟩ := terms
  exact times.2.2.2

theorem initialState_lineage (valid : validateContract hash contract objects = .ok ())
    (accepted : validateFrontier hash contract objects f = .ok ()) {start : GrowthState}
    (h : initialState hash contract (some f) = .ok start) :
    ∃ facet, Lineage hash f start facet := by
  obtain ⟨-, seeded, facet, planted, lineage⟩ := validateFrontier_ok accepted
  have planning := validateContract_planning valid
  simp only [initialState, bind_ok, normalize_ok] at h
  obtain ⟨⟨resources, spent⟩, -, checkpoints, -, ledger, ⟨-, rfl⟩, -, -, started⟩ := h
  simp only [seed, validate_ok] at planted started
  obtain ⟨-, rfl⟩ := planted
  obtain ⟨-, rfl⟩ := started
  refine ⟨facet, lineage.later ?_ lineage.present⟩
  change F contract.spec.initialState.elapsed ≤ F (str (F contract.spec.initialState.elapsed +
    F contract.spec.planningDuration))
  rw [F_str]
  linarith

theorem Steps.lineage (contractFacts : ContractFacts contract.spec objects)
    (facts : FrontierFacts f) {s t : GrowthState} {move : Move}
    (step : Steps hash contract objects (some f) s move t) :
    ∃ facet facet', Lineage hash f s facet ∧ Lineage hash f t facet' ∧
      facet.enabledActionIds ⊆ facet'.enabledActionIds ∧
      facet.activationLineage ⊆ facet'.activationLineage := by
  have forward := step.elapsed_lt contractFacts
  obtain ⟨-, moved⟩ := step
  simp only [transition, bind_ok] at moved
  obtain ⟨-, -, -, -, parts, -, result, -, -, -, -, -, activated⟩ := moved
  have same := activate_sameLedger activated
  rw [same.field (F ·.elapsed) fun _ => rfl] at forward
  exact activate_lineage facts forward activated

/-- Two ledgers of one run: what is enabled and recorded in the first stays. -/
def Grows (hash : Hashing) (f : GrowthCapabilityFrontier) (s t : GrowthState) : Prop :=
  ∀ facet, Lineage hash f s facet → ∃ facet', Lineage hash f t facet' ∧
    facet.enabledActionIds ⊆ facet'.enabledActionIds ∧
    facet.activationLineage ⊆ facet'.activationLineage

theorem Lineage.unique {s : GrowthState} {facet facet' : FrontierFacet}
    (first : Lineage hash f s facet) (second : Lineage hash f s facet') : facet = facet' :=
  Option.some.inj (first.present.symm.trans second.present)

theorem run_grows (contractFacts : ContractFacts contract.spec objects) (facts : FrontierFacts f)
    {s t : GrowthState} {moves : List Move}
    (run : Runs.Run (Steps hash contract objects (some f)) s moves t) : Grows hash f s t := by
  refine run.related (R := Grows hash f) ?_ ?_ ?_
  · exact fun s facet valid => ⟨facet, valid, List.Subset.refl _, List.Subset.refl _⟩
  · intro s t u first second facet valid
    obtain ⟨facet', valid', enabled, records⟩ := first facet valid
    obtain ⟨facet'', valid'', enabled', records'⟩ := second facet' valid'
    exact ⟨facet'', valid'', List.Subset.trans enabled enabled', List.Subset.trans records records'⟩
  · intro s move t step facet valid
    obtain ⟨own, facet', ownValid, valid', enabled, records⟩ := step.lineage contractFacts facts
    cases valid.unique ownValid
    exact ⟨facet', valid', enabled, records⟩

theorem growthRun_reached (valid : validateContract hash contract objects = .ok ())
    (accepted : validateFrontier hash contract objects f = .ok ()) {moves : List Move}
    {s : GrowthState} (run : GrowthRun hash contract objects (some f) moves s) :
    ∃ facet, Lineage hash f s facet := by
  obtain ⟨facts, -⟩ := validateFrontier_ok accepted
  obtain ⟨start, prepaidStart, steps⟩ := run
  obtain ⟨first, started⟩ := initialState_lineage valid accepted prepaidStart
  obtain ⟨facet, lineage, -⟩ := run_grows (validateContract_ok hash valid) facts steps first started
  exact ⟨facet, lineage⟩

/-- Every ledger of every run under an accepted frontier carries a valid lineage: one record
an action, chains of producers that fall in depth down to an action enabled from the start,
and nothing that a continuation of the run would drop or replace. -/
theorem growthRun_lineage (valid : validateContract hash contract objects = .ok ())
    (accepted : validateFrontier hash contract objects f = .ok ()) {moves : List Move}
    {s : GrowthState} (run : GrowthRun hash contract objects (some f) moves s) :
    ∃ facet, s.frontier = some facet ∧ checkFrontierState hash s f = .ok facet ∧
      facet.activationDepth ≤ f.spec.maximumActivationDepth ∧
      (recorded facet.activationLineage).Nodup ∧
      (∀ chain, Descends facet.activationLineage chain →
        chain.Pairwise (fun event parent => parent.depth < event.depth) ∧
          (recorded chain).Nodup) ∧
      (∀ event ∈ facet.activationLineage, ∃ chain last,
        Descends facet.activationLineage (event :: chain) ∧
          (event :: chain).getLast? = some last ∧ initiallyEnabled f last.producerActionId) ∧
      (∀ action stop, Halts (checkUse hash contract.spec objects f s action stop)) ∧
      ∀ more u, Runs.Run (Steps hash contract objects (some f)) s more u →
        ∃ facet', checkFrontierState hash u f = .ok facet' ∧
          facet.enabledActionIds ⊆ facet'.enabledActionIds ∧
          facet.activationLineage ⊆ facet'.activationLineage := by
  have contractFacts := validateContract_ok hash valid
  obtain ⟨facts, -⟩ := validateFrontier_ok accepted
  obtain ⟨facet, lineage⟩ := growthRun_reached valid accepted run
  refine ⟨facet, lineage.present, checkFrontierState_ok.mpr lineage, lineage.bounded,
    lineage.distinct, fun chain => lineage.descending, fun event => lineage.rooted,
    fun action stop => halts_checkUse, fun more u next => ?_⟩
  obtain ⟨facet', lineage', enabled, records⟩ := run_grows contractFacts facts next facet lineage
  exact ⟨facet', checkFrontierState_ok.mpr lineage', enabled, records⟩

end run

/-! `idle` is enabled, and its nominal outcome enables `grow`. -/
namespace Sample

def framedTerms : GrowthContractSpec :=
  { terms with
    initialState := { declared with
      liveObjectDigests := ["capability", "execution-policy", "grow", "idle"] } }

def framedContract : GrowthContract := ⟨metadata "contract", ∅, framedTerms⟩

def framedObjects : Objects :=
  objects.insert "execution-policy" ⟨metadata "execution-policy", ∅, .executionPolicy ["image"]⟩

def binding (name : Identifier) : GrowthFrontierBinding where
  actionId := name
  actionDigest := name
  capabilityDigest := "capability"
  outputSchemaDigest := "schema"
  executionPolicyDigest := "execution-policy"
  lifecycle := ⟨⟨0, some 0⟩, ⟨10000000, some 0⟩, none⟩

def rule : GrowthActivationRule where
  ruleId := "rule"
  producerActionId := "idle"
  producerSuccessorId := "nominal"
  activatedActionIds := ["grow"]
  requiredCapabilityDigests := ["capability"]
  requiredEvidence := []
  requiredModelIds := ["nominal"]
  minimumCapacities := ∅
  minimumResources := ∅
  validFrom := whole 0
  expires := whole 2

def frontier : GrowthCapabilityFrontier := ⟨metadata "frontier", ∅,
  { contractDigest := "contract"
    initialEnabledActionIds := ["idle"]
    latentActionIds := ["grow"]
    bindings := [binding "idle", binding "grow"]
    activationRules := [rule]
    maximumActivationDepth := 2
    initialActivationLineage := [] }⟩

theorem framed_valid : validateContract digests framedContract framedObjects = .ok () ∧
    validateFrontier digests framedContract framedObjects frontier = .ok () := by decide +kernel

def framedStart : GrowthState :=
  (initialState digests framedContract (some frontier)).toOption.getD declared

def waitMove : Move := ⟨idle, effect .success "nominal" 0 ∅⟩

def framedAfter : GrowthState :=
  (transition digests framedContract framedStart waitMove.recipe waitMove.effect framedObjects
    (some frontier)).toOption.getD declared

theorem framed_run : GrowthRun digests framedContract framedObjects (some frontier) [waitMove]
    framedAfter :=
  ⟨framedStart, by decide +kernel, .cons ⟨by decide +kernel, by decide +kernel⟩ (.nil _)⟩

end Sample

theorem growthRun_lineage_sample : ∃ facet, Sample.framedAfter.frontier = some facet ∧
    (recorded facet.activationLineage).Nodup ∧ "grow" ∈ facet.enabledActionIds := by
  obtain ⟨facet, present, -, -, distinct, -⟩ :=
    growthRun_lineage Sample.framed_valid.1 Sample.framed_valid.2 Sample.framed_run
  refine ⟨facet, present, distinct, ?_⟩
  have enabled : ∃ own ∈ Sample.framedAfter.frontier, "grow" ∈ own.enabledActionIds := by
    decide +kernel
  obtain ⟨own, mine, member⟩ := enabled
  rw [present] at mine
  cases Option.mem_some_iff.mp mine
  exact member

end CollectivePhaseControl
