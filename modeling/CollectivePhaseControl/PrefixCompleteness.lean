import CollectivePhaseControl.OccurrencePrefix

/-! The occurrence prefix is complete: when it is exhaustive, the transformations that label
its events are those that fire in some reachable marking. Every marking that has been seen
waits in the queue or has had all its firings recorded. -/
namespace CollectivePhaseControl
namespace Prefix

def Fires (network : Network) (marked marked' : Finset Identifier) : Prop :=
  ∃ (id : Identifier) (t : TransformationAttestation), network[id]? = some t ∧
    firable marked t = true ∧ marked' = fire marked t

def Reachable (network : Network) (initial : Finset Identifier) : Finset Identifier → Prop :=
  Relation.ReflTransGen (Fires network) initial

section markings
variable {marking : Marking} {s : Exploration} {t : TransformationAttestation}

theorem mem_states {state : Identifier} : state ∈ marking.states ↔ state ∈ marking :=
  Dict.mem_keys_toFinset

theorem outputs_states : (s.outputs t).map (·.stateId) = (flows t).conclusions.sort (· ≤ ·) := by
  refine List.ext_getElem (by simp [Exploration.outputs]) fun n _ _ => ?_
  simp [Exploration.outputs]

theorem mem_outputs {condition : Condition} (member : condition ∈ s.outputs t) :
    ∃ n, condition.conditionId = .produced (s.conditions.length + n) ∧
      condition.producerEventId = some s.rawEvents.length := by
  obtain ⟨n, -, rfl⟩ := List.mem_mapIdx.mp member
  exact ⟨n, rfl, rfl⟩

theorem mem_foldl_insert {conditions : List Condition} : ∀ {marking : Marking} {state : Identifier},
    state ∈ conditions.foldl (fun marking condition =>
      marking.insert condition.stateId condition.conditionId) marking ↔
      state ∈ marking ∨ state ∈ conditions.map (·.stateId) := by
  induction conditions with
  | nil => simp
  | cons condition conditions ih =>
    intro marking state
    rw [List.foldl_cons, ih, Std.ExtTreeMap.mem_insert, Std.LawfulEqCmp.compare_eq_iff_eq]
    simp only [List.map_cons, List.mem_cons]
    grind

theorem successor_states : (s.successor marking t).states = fire marking.states t := by
  ext state
  rw [mem_states, Exploration.successor, mem_foldl_insert, outputs_states, Finset.mem_sort, fire,
    Finset.mem_union, Finset.mem_sdiff, mem_states]
  refine or_congr_left ?_
  rw [Std.ExtTreeMap.mem_filter]
  simp

theorem initialConditions_states (initial : Finset Identifier) :
    (initialConditions initial).map (·.stateId) = initial.sort (· ≤ ·) := by
  refine List.ext_getElem (by simp [initialConditions]) fun n _ _ => ?_
  simp [initialConditions]

theorem initial_states (initial : Finset Identifier) : (initialMarking initial).states = initial := by
  ext state
  rw [mem_states, initialMarking, Std.ExtTreeMap.mem_ofList, List.contains_iff_mem, List.map_map]
  change state ∈ (initialConditions initial).map (·.stateId) ↔ _
  rw [initialConditions_states, Finset.mem_sort]

end markings

section coverage
variable (network : Network) (initial : Finset Identifier)

def Recorded (s : Exploration) (marked : Finset Identifier) (id : Identifier)
    (t : TransformationAttestation) : Prop :=
  firable marked t = true →
    (∃ e ∈ s.rawEvents, e.transformationId = id) ∧ ∃ depth, (fire marked t, depth) ∈ s.seenMarkings

/-- What is recorded happens, and waits in the queue or has been followed, but at the marked
states that are being explored. -/
structure Covered (here : Finset Identifier → Prop) (s : Exploration) : Prop where
  reached : ∀ p ∈ s.seenMarkings, Reachable network initial p.1
  queued : ∀ q ∈ s.queue, Reachable network initial q.1.states
  labelled : ∀ e ∈ s.rawEvents, ∃ t marked, network[e.transformationId]? = some t ∧
    Reachable network initial marked ∧ firable marked t = true
  begun : ∃ depth, (initial, depth) ∈ s.seenMarkings
  followed : s.exhausted = true → ∀ p ∈ s.seenMarkings, (∃ q ∈ s.queue, q.1.states = p.1) ∨
    here p.1 ∨ ∀ id t, network[id]? = some t → Recorded s p.1 id t

variable {network initial} {here : Finset Identifier → Prop} {s : Exploration}
  {marking : Marking} {history : Finset EventId} {id : Identifier} {t : TransformationAttestation}

theorem Recorded.mono {s' : Exploration} {marked : Finset Identifier}
    (recorded : Recorded s marked id t) (events : s.rawEvents ⊆ s'.rawEvents)
    (seen : s.seenMarkings ⊆ s'.seenMarkings) : Recorded s' marked id t := by
  intro fires
  obtain ⟨⟨e, member, label⟩, depth, marked⟩ := recorded fires
  exact ⟨⟨e, events member, label⟩, depth, seen marked⟩

theorem occur_grows : s.rawEvents ⊆ (s.occur marking history id t).rawEvents ∧
    s.seenMarkings ⊆ (s.occur marking history id t).seenMarkings ∧
    (s.occur marking history id t).exhausted = s.exhausted := by
  unfold Exploration.occur
  dsimp only
  split_ifs
  · exact ⟨List.subset_append_left _ _, List.Subset.refl _, rfl⟩
  · exact ⟨List.subset_append_left _ _, List.subset_cons_self _ _, rfl⟩

theorem occur_recorded : Recorded (s.occur marking history id t) marking.states id t := by
  intro _
  rw [← successor_states (s := s)]
  unfold Exploration.occur
  dsimp only
  split_ifs with seen
  · refine ⟨⟨s.event marking id t, by simp, rfl⟩, ?_⟩
    obtain ⟨depth, looked, -⟩ := (Option.any_eq_true _ _).mp seen
    exact ⟨depth, mem_of_lookup looked⟩
  · exact ⟨⟨s.event marking id t, by simp, rfl⟩, _, List.mem_cons_self⟩

theorem Covered.occur (covered : Covered network initial here s)
    (listed : network[id]? = some t) (reached : Reachable network initial marking.states)
    (fires : firable marking.states t = true) :
    Covered network initial here (s.occur marking history id t) := by
  have next : Reachable network initial (s.successor marking t).states := by
    rw [successor_states]
    exact reached.tail ⟨id, t, listed, fires, rfl⟩
  obtain ⟨events, seen, flag⟩ := @occur_grows s marking history id t
  have label : ∀ e ∈ s.rawEvents ++ [s.event marking id t], ∃ t marked,
      network[e.transformationId]? = some t ∧ Reachable network initial marked ∧
        firable marked t = true := by
    intro e member
    rw [List.mem_append, List.mem_singleton] at member
    cases member with
    | inl old => exact covered.labelled e old
    | inr new => exact ⟨t, marking.states, new ▸ listed, reached, fires⟩
  obtain ⟨depth, begun⟩ := covered.begun
  refine ⟨?_, ?_, ?_, ⟨depth, seen begun⟩, ?_⟩
  · unfold Exploration.occur
    dsimp only
    split_ifs
    · exact covered.reached
    · exact List.forall_mem_cons.mpr ⟨next, covered.reached⟩
  · unfold Exploration.occur
    dsimp only
    split_ifs
    · exact covered.queued
    · intro q member
      rw [List.mem_append, List.mem_singleton] at member
      cases member with
      | inl old => exact covered.queued q old
      | inr new => exact new ▸ next
  · unfold Exploration.occur
    dsimp only
    split_ifs <;> exact label
  · rw [flag]
    intro whole
    have before := fun p member => (covered.followed whole p member).imp_right fun later =>
      later.imp_right fun each id t listed => (each id t listed).mono events seen
    unfold Exploration.occur at before ⊢
    dsimp only at before ⊢
    split_ifs at before ⊢
    · exact before
    · intro p member
      cases List.mem_cons.mp member with
      | inl new =>
        exact .inl ⟨_, List.mem_append_right _ (List.mem_singleton_self _), by rw [new]⟩
      | inr old =>
        refine (before p old).imp_left ?_
        rintro ⟨q, waits, same⟩
        exact ⟨q, List.mem_append_left _ waits, same⟩

theorem yields_explore (marking : Marking) (history : Finset EventId)
    (reached : Reachable network initial marking.states)
    (items : List (Identifier × TransformationAttestation)) :
    (∀ item ∈ items, network[item.1]? = some item.2) → ∀ s : Exploration,
    Covered network initial here s → Yields (explore marking history items s) fun s' =>
      Covered network initial here s' ∧ (s'.exhausted = true →
        s.rawEvents ⊆ s'.rawEvents ∧ s.seenMarkings ⊆ s'.seenMarkings ∧
        ∀ item ∈ items, Recorded s' marking.states item.1 item.2) := by
  induction items with
  | nil => exact fun _ s covered => yields_pure ⟨covered, fun _ => by simp⟩
  | cons item items ih =>
    intro listed s covered
    obtain ⟨known, later⟩ := List.forall_mem_cons.mp listed
    refine yields_bind (yields_spend 1) fun _ _ => ?_
    split_ifs with stuck many
    · refine (ih later s covered).mono fun s' both => ⟨both.1, fun whole => ?_⟩
      obtain ⟨events, seen, recorded⟩ := both.2 whole
      refine ⟨events, seen, List.forall_mem_cons.mpr ⟨fun fires => ?_, recorded⟩⟩
      rw [stuck] at fires
      cases fires
    · refine yields_pure ⟨⟨covered.reached, ?_, covered.labelled, covered.begun, ?_⟩, ?_⟩ <;> simp
    · rw [Bool.not_eq_false] at stuck
      refine (ih later _ (covered.occur known reached stuck)).mono fun s' both =>
        ⟨both.1, fun whole => ?_⟩
      obtain ⟨events, seen, recorded⟩ := both.2 whole
      obtain ⟨events', seen', -⟩ := @occur_grows s marking history item.1 item.2
      exact ⟨List.Subset.trans events' events, List.Subset.trans seen' seen,
        List.forall_mem_cons.mpr ⟨occur_recorded.mono events seen, recorded⟩⟩

theorem yields_exploreQueue (n : ℕ) : ∀ s : Exploration,
    Covered network initial (fun _ => False) s →
    Yields (exploreQueue network n s) fun s' =>
      Covered network initial (fun _ => False) s' ∧ s'.queue = [] := by
  induction n with
  | zero => exact fun _ _ => yields_throw _
  | succ n ih =>
    intro s covered
    rw [exploreQueue]
    split
    · rename_i none_left
      exact yields_pure ⟨covered, none_left⟩
    · rename_i marking history queue waiting
      have reached := covered.queued (marking, history) (by simp [waiting])
      have taken : Covered network initial (· = marking.states) { s with queue := queue } := by
        refine ⟨covered.reached, fun q member => covered.queued q (by simp [waiting, member]),
          covered.labelled, covered.begun, fun whole p member => ?_⟩
        refine (covered.followed whole p member).elim ?_ fun later => .inr (later.imp_left nofun)
        rintro ⟨q, listed, same⟩
        rw [waiting] at listed
        cases List.mem_cons.mp listed with
        | inl first => exact .inr (.inl (by rw [← same, first]))
        | inr rest => exact .inl ⟨q, rest, same⟩
      have entries : ∀ item ∈ network.toList, network[item.1]? = some item.2 :=
        fun item member => Std.ExtTreeMap.mem_toList_iff_getElem?_eq_some.mp member
      refine yields_bind (yields_explore marking history reached _ entries _ taken)
        fun s' both => ih s' ?_
      obtain ⟨after, recorded⟩ := both
      refine ⟨after.reached, after.queued, after.labelled, after.begun, fun whole p member => ?_⟩
      have all := (recorded whole).2.2
      refine (after.followed whole p member).imp_right fun either => .inr ?_
      cases either with
      | inl here =>
        rw [here]
        exact fun id t found =>
          all (id, t) (Std.ExtTreeMap.mem_toList_iff_getElem?_eq_some.mpr found)
      | inr followed => exact followed

theorem covered_start : Covered network initial (fun _ => False) (start initial) := by
  refine ⟨?_, ?_, ?_, ⟨0, ?_⟩, ?_⟩
  · simp [start, initial_states, Reachable, Relation.ReflTransGen.refl]
  · simp [start, initial_states, Reachable, Relation.ReflTransGen.refl]
  · simp [start]
  · simp [start, initial_states]
  · simp [start]

theorem Covered.complete (covered : Covered network initial (fun _ => False) s)
    (ended : s.queue = []) (whole : s.exhausted = true) {marked : Finset Identifier}
    (reached : Reachable network initial marked) (listed : network[id]? = some t)
    (fires : firable marked t = true) : ∃ e ∈ s.rawEvents, e.transformationId = id := by
  have recorded : ∀ p ∈ s.seenMarkings, ∀ id t, network[id]? = some t → Recorded s p.1 id t := by
    intro p member
    have followed := covered.followed whole p member
    rw [ended] at followed
    simpa using followed
  have seen : ∀ {marked}, Reachable network initial marked →
      ∃ depth, (marked, depth) ∈ s.seenMarkings := by
    intro marked reached
    induction reached with
    | refl => exact covered.begun
    | tail _ step ih =>
      obtain ⟨id, t, listed, fires, rfl⟩ := step
      obtain ⟨depth, member⟩ := ih
      exact (recorded _ member id t listed fires).2
  obtain ⟨depth, member⟩ := seen reached
  exact (recorded _ member id t listed fires).1

end coverage

end Prefix
end CollectivePhaseControl
