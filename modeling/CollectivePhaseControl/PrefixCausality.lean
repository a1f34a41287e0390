import CollectivePhaseControl.PrefixCompleteness

/-! Causality and conflict of the occurrence prefix. Conditions are numbered as they come, so
each has one producer; an event's causal predecessors are closed under causality and hold the
producers of what it depends on; and conflict relates events that neither causes. -/
namespace CollectivePhaseControl
namespace Prefix

section causality

def Registered (conditions : List Condition) (marking : Marking) : Prop :=
  ∀ (state : Identifier) (id : ConditionId), marking[state]? = some id →
    ∃ condition ∈ conditions, condition.conditionId = id ∧ condition.stateId = state

structure Consistent (s : Exploration) : Prop where
  events : s.rawEvents.map (·.eventId) = List.range s.rawEvents.length
  conditions : ∀ (i : ℕ) (condition : Condition), s.conditions[i]? = some condition →
    condition.conditionId = .initial i ∨ condition.conditionId = .produced i
  producers : ∀ condition ∈ s.conditions, ∀ p ∈ condition.producerEventId,
    ∃ e ∈ s.rawEvents, e.eventId = p ∧ condition.conditionId ∈ e.postsetConditionIds
  postsets : ∀ e ∈ s.rawEvents, ∀ id ∈ e.postsetConditionIds,
    ∃ condition ∈ s.conditions, condition.conditionId = id ∧
      condition.producerEventId = some e.eventId
  causes : ∀ e ∈ s.rawEvents, ∀ p ∈ e.causalPredecessorIds, p < e.eventId ∧
    s.causalOf p ⊆ e.causalPredecessorIds
  conflicts : ∀ e ∈ s.rawEvents, ∀ p ∈ e.conflictEventIds, p < e.eventId ∧
    p ∉ e.causalPredecessorIds
  markings : ∀ q ∈ s.queue, Registered s.conditions q.1

variable {s : Exploration} {marking : Marking} {history : Finset EventId}
  {id : Identifier} {t : TransformationAttestation}

theorem Consistent.event_lt (consistent : Consistent s) {e : RawEvent}
    (member : e ∈ s.rawEvents) : e.eventId < s.rawEvents.length := by
  have listed := List.mem_map_of_mem (f := fun e : RawEvent => e.eventId) member
  rw [consistent.events, List.mem_range] at listed
  exact listed

theorem Consistent.distinct (consistent : Consistent s) {e f : RawEvent}
    (first : e ∈ s.rawEvents) (second : f ∈ s.rawEvents) (same : e.eventId = f.eventId) :
    e = f := by
  have nodup : (s.rawEvents.map (·.eventId)).Nodup := by
    rw [consistent.events]
    exact List.nodup_range
  exact List.inj_on_of_nodup_map nodup first second same

theorem Consistent.nodup (consistent : Consistent s) :
    (s.conditions.map (·.conditionId)).Nodup := by
  rw [List.nodup_iff_injective_get]
  intro i j same
  simp only [List.get_eq_getElem, List.getElem_map] at same
  have first := consistent.conditions i _ (List.getElem?_eq_getElem (by simpa using i.2))
  have second := consistent.conditions j _ (List.getElem?_eq_getElem (by simpa using j.2))
  rw [same] at first
  refine Fin.ext ?_
  grind

theorem Consistent.causalOf_eq (consistent : Consistent s) {e : RawEvent}
    (member : e ∈ s.rawEvents) : s.causalOf e.eventId = e.causalPredecessorIds := by
  unfold Exploration.causalOf
  cases found : s.rawEvents.find? (·.eventId == e.eventId) with
  | none =>
    have absent := List.find?_eq_none.mp found e member
    simp at absent
  | some f =>
    have same : f.eventId = e.eventId := by simpa using List.find?_some found
    rw [consistent.distinct (List.mem_of_find?_eq_some found) member same]

theorem Consistent.producer_eq (consistent : Consistent s) {condition : Condition}
    (member : condition ∈ s.conditions) :
    s.producer condition.conditionId = condition.producerEventId := by
  unfold Exploration.producer
  cases found : s.conditions.find? (·.conditionId == condition.conditionId) with
  | none =>
    have absent := List.find?_eq_none.mp found condition member
    simp at absent
  | some other =>
    have same : other.conditionId = condition.conditionId := by simpa using List.find?_some found
    have equal := List.inj_on_of_nodup_map consistent.nodup (List.mem_of_find?_eq_some found)
      member same
    rw [equal, Option.bind_some]

theorem mem_dependencies {condition : ConditionId}
    (depends : condition ∈ dependencies marking t) :
    ∃ state : Identifier, marking[state]? = some condition := by
  unfold dependencies preset catalysts at depends
  rw [List.mem_append] at depends
  cases depends with
  | inl input =>
    obtain ⟨state, -, marked⟩ := List.mem_filterMap.mp input
    exact ⟨state, marked⟩
  | inr catalyst =>
    split at catalyst
    · obtain ⟨state, -, marked⟩ := List.mem_filterMap.mp catalyst
      exact ⟨state, marked⟩
    · simp at catalyst

theorem Registered.mono {conditions more : List Condition}
    (registered : Registered conditions marking) : Registered (conditions ++ more) marking := by
  intro state id marked
  obtain ⟨condition, member, same⟩ := registered state id marked
  exact ⟨condition, List.mem_append_left _ member, same⟩

theorem getElem?_foldl_insert {conditions : List Condition} : ∀ {marking : Marking}
    {state : Identifier} {id : ConditionId}, (conditions.foldl (fun marking condition =>
      marking.insert condition.stateId condition.conditionId) marking)[state]? = some id →
    (∃ condition ∈ conditions, condition.conditionId = id ∧ condition.stateId = state) ∨
      state ∉ conditions.map (·.stateId) ∧ marking[state]? = some id := by
  induction conditions with
  | nil => exact fun found => .inr ⟨by simp, found⟩
  | cons condition conditions ih =>
    intro marking state id found
    cases ih found with
    | inl later =>
      obtain ⟨other, member, same⟩ := later
      exact .inl ⟨other, List.mem_cons_of_mem _ member, same⟩
    | inr earlier =>
      obtain ⟨absent, earlier⟩ := earlier
      by_cases here : condition.stateId = state
      · subst here
        rw [Std.ExtTreeMap.getElem?_insert_self] at earlier
        exact .inl ⟨condition, List.mem_cons_self, Option.some.inj earlier, rfl⟩
      · rw [Std.ExtTreeMap.getElem?_insert, if_neg (by simpa using here)] at earlier
        refine .inr ⟨?_, earlier⟩
        rw [List.map_cons, List.mem_cons, not_or]
        exact ⟨Ne.symm here, absent⟩

theorem Registered.successor (registered : Registered s.conditions marking) :
    Registered (s.conditions ++ s.outputs t) (s.successor marking t) := by
  intro state id found
  cases getElem?_foldl_insert found with
  | inl new =>
    obtain ⟨condition, member, same⟩ := new
    exact ⟨condition, List.mem_append_right _ member, same⟩
  | inr old =>
    rw [Std.ExtTreeMap.getElem?_filter'] at old
    have marked : marking[state]? = some id := (Option.filter_eq_some_iff.mp old.2).1
    exact registered.mono state id marked

theorem Consistent.fresh (consistent : Consistent s)
    (registered : Registered s.conditions marking) {condition : Condition}
    (new : condition ∈ s.outputs t) {t' : TransformationAttestation}
    (depends : condition.conditionId ∈ dependencies marking t') : False := by
  obtain ⟨n, named, -⟩ := mem_outputs new
  obtain ⟨state, marked⟩ := mem_dependencies depends
  obtain ⟨old, member, same, -⟩ := registered state _ marked
  obtain ⟨i, found⟩ := List.mem_iff_getElem?.mp member
  have bound : i < s.conditions.length := (List.getElem?_eq_some_iff.mp found).1
  have either := consistent.conditions i old found
  rw [same, named] at either
  cases either with
  | inl initial => cases initial
  | inr produced =>
    rw [ConditionId.produced.injEq] at produced
    omega

theorem mem_causal {dependencies : List ConditionId} {p : EventId} :
    p ∈ s.causal dependencies ↔ ∃ d, (∃ condition ∈ dependencies, s.producer condition = some d) ∧
      (p = d ∨ p ∈ s.causalOf d) := by
  simp only [Exploration.causal, Finset.mem_union, Finset.mem_biUnion, List.mem_toFinset,
    List.mem_filterMap]
  grind

theorem Consistent.caused (consistent : Consistent s)
    (registered : Registered s.conditions marking) {d : EventId} {condition : ConditionId}
    (depends : condition ∈ dependencies marking t) (produced : s.producer condition = some d) :
    ∃ e ∈ s.rawEvents, e.eventId = d := by
  obtain ⟨state, marked⟩ := mem_dependencies depends
  obtain ⟨known, member, rfl, -⟩ := registered state _ marked
  rw [consistent.producer_eq member] at produced
  obtain ⟨e, happened, same, -⟩ := consistent.producers known member d produced
  exact ⟨e, happened, same⟩

theorem causalOf_append {s' : Exploration} {e : RawEvent} {p : EventId}
    (appended : s'.rawEvents = s.rawEvents ++ [e]) (happened : ∃ f ∈ s.rawEvents, f.eventId = p) :
    s'.causalOf p = s.causalOf p := by
  obtain ⟨f, member, same⟩ := happened
  have found : (s.rawEvents.find? (·.eventId == p)).isSome :=
    List.find?_isSome.mpr ⟨f, member, by simpa using same⟩
  unfold Exploration.causalOf
  rw [appended, List.find?_append, Option.or_of_isSome found]

theorem occur_rawEvents : (s.occur marking history id t).rawEvents =
    s.rawEvents ++ [s.event marking id t] := by
  unfold Exploration.occur
  dsimp only
  split_ifs <;> rfl

theorem occur_conditions : (s.occur marking history id t).conditions =
    s.conditions ++ s.outputs t := by
  unfold Exploration.occur
  dsimp only
  split_ifs <;> rfl

theorem occur_queue {q : Marking × Finset EventId}
    (member : q ∈ (s.occur marking history id t).queue) :
    q ∈ s.queue ∨ q.1 = s.successor marking t := by
  unfold Exploration.occur at member
  dsimp only at member
  split_ifs at member
  · exact .inl member
  · rw [List.mem_append, List.mem_singleton] at member
    exact member.imp_right fun new => by rw [new]

theorem Consistent.event_causes (consistent : Consistent s)
    (registered : Registered s.conditions marking) {p : EventId}
    (cause : p ∈ (s.event marking id t).causalPredecessorIds) :
    (∃ f ∈ s.rawEvents, f.eventId = p) ∧
      s.causalOf p ⊆ (s.event marking id t).causalPredecessorIds := by
  obtain ⟨d, ⟨condition, depends, produced⟩, either⟩ := mem_causal.mp cause
  obtain ⟨e, happened, rfl⟩ := consistent.caused registered depends produced
  have inherits : ∀ x ∈ s.causalOf e.eventId, x ∈ (s.event marking id t).causalPredecessorIds :=
    fun x member => mem_causal.mpr ⟨e.eventId, ⟨condition, depends, produced⟩, .inr member⟩
  cases either with
  | inl direct => exact ⟨⟨e, happened, direct.symm⟩, direct ▸ inherits⟩
  | inr indirect =>
    rw [consistent.causalOf_eq happened] at indirect inherits
    obtain ⟨earlier, closed⟩ := consistent.causes e happened p indirect
    have bound := consistent.event_lt happened
    have listed : p ∈ s.rawEvents.map (·.eventId) := by
      rw [consistent.events, List.mem_range]
      exact Nat.lt_trans earlier bound
    obtain ⟨f, member, same⟩ := List.mem_map.mp listed
    exact ⟨⟨f, member, same⟩, fun x member => inherits x (closed member)⟩

theorem Consistent.event_caused (consistent : Consistent s)
    (registered : Registered s.conditions marking) {condition : Condition}
    (member : condition ∈ s.conditions ++ s.outputs t)
    (depends : condition.conditionId ∈ dependencies marking t) {p : EventId}
    (produced : p ∈ condition.producerEventId) :
    p ∈ (s.event marking id t).causalPredecessorIds := by
  cases List.mem_append.mp member with
  | inl old =>
    refine mem_causal.mpr ⟨p, ⟨condition.conditionId, depends, ?_⟩, .inl rfl⟩
    rw [consistent.producer_eq old]
    exact produced
  | inr new => exact (consistent.fresh registered new depends).elim

theorem Consistent.occur (consistent : Consistent s) (registered : Registered s.conditions marking) :
    Consistent (s.occur marking history id t) := by
  have events := @occur_rawEvents s marking history id t
  have conditions := @occur_conditions s marking history id t
  have each : ∀ {P : RawEvent → Prop}, (∀ e ∈ s.rawEvents, P e) → P (s.event marking id t) →
      ∀ e ∈ (s.occur marking history id t).rawEvents, P e := by
    intro P old new e member
    rw [events, List.mem_append, List.mem_singleton] at member
    cases member with
    | inl before => exact old e before
    | inr here => exact here ▸ new
  refine ⟨?_, ?_, ?_, ?_, ?_, ?_, ?_⟩
  · rw [events, List.map_append, consistent.events, List.length_append, List.length_singleton,
      List.range_succ]
    rfl
  · intro i condition found
    rw [conditions] at found
    by_cases old : i < s.conditions.length
    · rw [List.getElem?_append_left old] at found
      exact consistent.conditions i condition found
    · rw [List.getElem?_append_right (by omega), Exploration.outputs, List.getElem?_mapIdx,
        Option.map_eq_some_iff] at found
      obtain ⟨state, -, rfl⟩ := found
      refine .inr ?_
      dsimp only
      congr 1
      omega
  · intro condition member p produced
    rw [conditions, List.mem_append] at member
    rw [events]
    cases member with
    | inl old =>
      obtain ⟨e, happened, same⟩ := consistent.producers condition old p produced
      exact ⟨e, List.mem_append_left _ happened, same⟩
    | inr new =>
      obtain ⟨n, -, named⟩ := mem_outputs new
      rw [named, Option.mem_some_iff] at produced
      exact ⟨s.event marking id t, by simp, produced, List.mem_map_of_mem new⟩
  · rw [conditions]
    refine each (fun e happened x posted => ?_) fun x posted => ?_
    · obtain ⟨condition, member, same⟩ := consistent.postsets e happened x posted
      exact ⟨condition, List.mem_append_left _ member, same⟩
    · obtain ⟨condition, new, rfl⟩ := List.mem_map.mp posted
      obtain ⟨n, -, named⟩ := mem_outputs new
      exact ⟨condition, List.mem_append_right _ new, rfl, named⟩
  · refine each (fun e happened p cause => ?_) fun p cause => ?_
    · obtain ⟨earlier, closed⟩ := consistent.causes e happened p cause
      have bound := consistent.event_lt happened
      have known : p ∈ s.rawEvents.map (·.eventId) := by
        rw [consistent.events, List.mem_range]
        exact Nat.lt_trans earlier bound
      rw [causalOf_append events (List.mem_map.mp known)]
      exact ⟨earlier, closed⟩
    · obtain ⟨happened, closed⟩ := consistent.event_causes registered cause
      rw [causalOf_append events happened]
      obtain ⟨f, member, rfl⟩ := happened
      exact ⟨consistent.event_lt member, closed⟩
  · refine each consistent.conflicts fun p conflict => ?_
    obtain ⟨f, member, rfl⟩ := List.mem_map.mp conflict
    obtain ⟨happened, clash⟩ := List.mem_filter.mp member
    rw [Bool.and_eq_true, decide_eq_true_eq] at clash
    exact ⟨consistent.event_lt happened, clash.2⟩
  · intro q member
    rw [conditions]
    cases occur_queue member with
    | inl old => exact (consistent.markings q old).mono
    | inr new => exact new ▸ registered.successor

theorem consistent_start (initial : Finset Identifier) : Consistent (start initial) := by
  refine ⟨rfl, ?_, ?_, ?_, ?_, ?_, ?_⟩
  · intro i condition found
    simp only [start, initialConditions, List.getElem?_mapIdx, Option.map_eq_some_iff] at found
    obtain ⟨state, -, rfl⟩ := found
    exact .inl rfl
  · intro condition member p produced
    have unproduced : condition.producerEventId = none := by
      obtain ⟨i, -, rfl⟩ := List.mem_mapIdx.mp member
      rfl
    rw [unproduced] at produced
    cases produced
  · simp [start]
  · simp [start]
  · simp [start]
  · intro q member state id marked
    obtain rfl : q = (initialMarking initial, ∅) := by simpa [start] using member
    obtain ⟨condition, listed, same⟩ := List.mem_map.mp (Dict.mem_of_ofList marked)
    rw [Prod.mk.injEq] at same
    exact ⟨condition, listed, same.2, same.1⟩

theorem mem_foldl_relate {conflicts : EventId → Finset EventId}
    (below : ∀ i j : ℕ, i ∈ conflicts j → i < j) (events : List RawEvent) :
    events.map (·.eventId) = List.range events.length → ∀ i j : ℕ,
      j ∈ events.foldl relate conflicts i ↔
        j ∈ conflicts i ∨ (j < events.length ∧ i ∈ conflicts j) := by
  induction events using List.reverseRecOn with
  | nil => simp
  | append_singleton events e ih =>
    intro numbered i j
    rw [List.map_append, List.length_append, List.length_singleton, List.range_succ] at numbered
    obtain ⟨before, here⟩ := List.append_inj' numbered rfl
    have last : e.eventId = events.length := by simpa using here
    have earlier := ih before
    have own : ∀ k, k ∈ events.foldl relate conflicts e.eventId ↔ k ∈ conflicts e.eventId := by
      intro k
      rw [earlier, or_iff_left_iff_imp]
      rintro ⟨less, later⟩
      exact absurd (below _ _ later) (by rw [last]; exact Nat.not_lt.mpr (Nat.le_of_lt less))
    rw [List.foldl_concat, relate]
    simp only [last, List.length_append, List.length_singleton, Nat.lt_succ_iff_lt_or_eq]
    split_ifs with related
    · rw [Finset.mem_insert, earlier]
      grind
    · rw [earlier]
      grind

theorem Consistent.ownConflicts_eq (consistent : Consistent s) {e : RawEvent}
    (member : e ∈ s.rawEvents) : ownConflicts s.rawEvents e.eventId = e.conflictEventIds.toFinset := by
  unfold ownConflicts
  split
  · rename_i other found
    have same : other.eventId = e.eventId := by simpa using List.find?_some found
    rw [consistent.distinct (List.mem_of_find?_eq_some found) member same]
  · rename_i found
    have absent := List.find?_eq_none.mp found e member
    simp at absent

theorem mem_ownConflicts {p q : ℕ} (member : p ∈ ownConflicts s.rawEvents q) :
    ∃ e ∈ s.rawEvents, e.eventId = q ∧ p ∈ e.conflictEventIds := by
  unfold ownConflicts at member
  split at member
  · rename_i e found
    exact ⟨e, List.mem_of_find?_eq_some found, by simpa using List.find?_some found,
      List.mem_toFinset.mp member⟩
  · simp at member

theorem Consistent.mem_conflictMap (consistent : Consistent s) {e : RawEvent}
    (member : e ∈ s.rawEvents) {p : ℕ} : p ∈ conflictMap s.rawEvents e.eventId ↔
      ∃ f ∈ s.rawEvents, f.eventId = p ∧ (p ∈ e.conflictEventIds ∨ e.eventId ∈ f.conflictEventIds) := by
  have below : ∀ i j : ℕ, i ∈ ownConflicts s.rawEvents j → i < j := by
    intro i j related
    obtain ⟨e, member, rfl, recorded⟩ := mem_ownConflicts related
    exact (consistent.conflicts e member i recorded).1
  rw [conflictMap, mem_foldl_relate below _ consistent.events]
  constructor
  · rintro (recorded | ⟨-, recorded⟩)
    · rw [consistent.ownConflicts_eq member, List.mem_toFinset] at recorded
      have earlier := (consistent.conflicts e member p recorded).1
      have listed : p ∈ s.rawEvents.map (·.eventId) := by
        rw [consistent.events, List.mem_range]
        exact Nat.lt_trans earlier (consistent.event_lt member)
      obtain ⟨f, happened, same⟩ := List.mem_map.mp listed
      exact ⟨f, happened, same, .inl recorded⟩
    · obtain ⟨f, happened, same, recorded⟩ := mem_ownConflicts recorded
      exact ⟨f, happened, same, .inr recorded⟩
  · rintro ⟨f, happened, rfl, recorded⟩
    rw [consistent.ownConflicts_eq member, consistent.ownConflicts_eq happened, List.mem_toFinset,
      List.mem_toFinset]
    exact recorded.imp_right fun later => ⟨consistent.event_lt happened, later⟩

theorem mem_sortedIds {events : Finset EventId} {p : EventId} : p ∈ sortedIds events ↔ p ∈ events := by
  rw [sortedIds, List.mem_mergeSort, Finset.mem_sort]

end causality

section termination
variable {s : Exploration} {marking : Marking} {history : Finset EventId}

def pending (s : Exploration) : ℕ := s.queue.length + (maximumEvents - s.rawEvents.length)

theorem pending_occur {id : Identifier} {t : TransformationAttestation}
    (few : s.rawEvents.length < maximumEvents) :
    (s.occur marking history id t).rawEvents.length ≤ maximumEvents ∧
      pending (s.occur marking history id t) ≤ pending s := by
  have length : (s.occur marking history id t).rawEvents.length = s.rawEvents.length + 1 := by
    rw [occur_rawEvents, List.length_append, List.length_singleton]
  have queue : (s.occur marking history id t).queue.length ≤ s.queue.length + 1 := by
    unfold Exploration.occur
    dsimp only
    split_ifs <;> simp
  unfold pending
  omega

theorem yields_explore_pending (items : List (Identifier × TransformationAttestation)) :
    ∀ s : Exploration, s.rawEvents.length ≤ maximumEvents →
      Yields (explore marking history items s) fun s' =>
        s'.rawEvents.length ≤ maximumEvents ∧ pending s' ≤ pending s := by
  induction items with
  | nil => exact fun s few => yields_pure ⟨few, le_refl _⟩
  | cons item items ih =>
    intro s few
    refine yields_bind (yields_spend 1) fun _ _ => ?_
    split_ifs with stuck many
    · exact ih s few
    · exact yields_pure ⟨few, by simp [pending]⟩
    · obtain ⟨bounded, fewer⟩ := @pending_occur s marking history item.1 item.2 (by omega)
      exact (ih _ bounded).mono fun s' both => ⟨both.1, both.2.trans fewer⟩

theorem spends_explore (items : List (Identifier × TransformationAttestation)) :
    ∀ s : Exploration, Spends (explore marking history items s) := by
  induction items with
  | nil => exact fun s => spends_pure s
  | cons item items ih =>
    intro s
    refine spends_bind (spends_spend 1) (yields_trivial _) fun _ _ => ?_
    split_ifs
    · exact ih s
    · exact spends_pure _
    · exact ih _

theorem spends_exploreQueue (network : Network) (n : ℕ) : ∀ s : Exploration,
    s.rawEvents.length ≤ maximumEvents → pending s < n → Spends (exploreQueue network n s) := by
  induction n with
  | zero => exact fun _ _ few => absurd few (Nat.not_lt_zero _)
  | succ n ih =>
    intro s bounded few
    rw [exploreQueue]
    split
    · exact spends_pure s
    · rename_i marking history queue waiting
      refine spends_bind (spends_explore _ _)
        (yields_explore_pending _ { s with queue := queue } bounded) fun s' both => ?_
      refine ih s' both.1 ?_
      have less : pending { s with queue := queue } < pending s := by
        simp [pending, waiting]
      omega

theorem spends_boundedOccurrencePrefix (network : Network) (initial : Finset Identifier) :
    Spends (boundedOccurrencePrefix initial network) := by
  unfold boundedOccurrencePrefix
  split_ifs
  · exact spends_pure _
  · have few : pending (start initial) < maximumEvents + 2 := by
      simp [start, pending]
      omega
    exact spends_bind (spends_exploreQueue network _ _ (Nat.zero_le _) few) (yields_trivial _)
      fun s _ => spends_pure _

end termination

section results
variable (network : Network) (initial : Finset Identifier) (occurrence : OccurrencePrefix)

def Causes (p q : EventId) : Prop :=
  ∃ e ∈ occurrence.events, e.eventId = q ∧ p ∈ e.causalPredecessorIds

def Conflicts (p q : EventId) : Prop :=
  ∃ e ∈ occurrence.events, e.eventId = q ∧ p ∈ e.conflictEventIds

variable {network initial} {s : Exploration}

theorem causes_finished {p q : EventId} :
    Causes (finished s) p q ↔ ∃ e ∈ s.rawEvents, e.eventId = q ∧ p ∈ e.causalPredecessorIds := by
  simp [Causes, finished, mem_sortedIds]

theorem conflicts_finished (consistent : Consistent s) {p q : EventId} :
    Conflicts (finished s) p q ↔ ∃ e ∈ s.rawEvents, ∃ f ∈ s.rawEvents, e.eventId = q ∧
      f.eventId = p ∧ (p ∈ e.conflictEventIds ∨ q ∈ f.conflictEventIds) := by
  simp only [Conflicts, finished, List.mem_map, exists_exists_and_eq_and, mem_sortedIds]
  constructor
  · rintro ⟨e, member, rfl, related⟩
    obtain ⟨f, happened, same⟩ := (consistent.mem_conflictMap member).mp related
    exact ⟨e, member, f, happened, rfl, same⟩
  · rintro ⟨e, member, f, happened, rfl, same⟩
    exact ⟨e, member, rfl, (consistent.mem_conflictMap member).mpr ⟨f, happened, same⟩⟩

theorem Consistent.related (consistent : Consistent s) {e f : RawEvent}
    (first : e ∈ s.rawEvents) (second : f ∈ s.rawEvents)
    (related : f.eventId ∈ e.conflictEventIds) :
    e ≠ f ∧ ¬ Causes (finished s) f.eventId e.eventId ∧ ¬ Causes (finished s) e.eventId f.eventId := by
  obtain ⟨earlier, apart⟩ := consistent.conflicts e first _ related
  refine ⟨fun same => ?_, fun cause => ?_, fun cause => ?_⟩
  · rw [same] at earlier
    exact lt_irrefl _ earlier
  · obtain ⟨e', member, same, inside⟩ := causes_finished.mp cause
    rw [consistent.distinct member first same] at inside
    exact apart inside
  · obtain ⟨f', member, same, inside⟩ := causes_finished.mp cause
    rw [consistent.distinct member second same] at inside
    exact lt_asymm earlier (consistent.causes f second _ inside).1

end results

end Prefix
end CollectivePhaseControl
