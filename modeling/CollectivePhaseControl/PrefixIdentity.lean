import CollectivePhaseControl.PrefixHistories

/-! When the occurrence prefix is a branching process. Its events are the first firings after the
earliest histories of the marked states, so two of them are one occurrence when a transformation
fires after two such histories from the same tokens. -/
namespace CollectivePhaseControl
namespace Prefix

open Histories

def exploreTraced (network : Network) :
    ℕ → Exploration → List Marking → Analysis (Exploration × List Marking)
  | 0, _, _ => throw (.crash .diverges)
  | n + 1, s, markings =>
    match s.queue with
    | [] => pure (s, markings)
    | (marking, history) :: queue => do
      let explored ← explore marking history network.toList { s with queue := queue }
      exploreTraced network n explored
        (markings ++ List.replicate (explored.rawEvents.length - s.rawEvents.length) marking)

def tracedOccurrencePrefix (initialStates : Finset Identifier) (network : Network) :
    Analysis (OccurrencePrefix × List Marking) := do
  if unitStoichiometry network = false then pure (⟨[], [], [], false⟩, [])
  else
    let traced ← exploreTraced network (maximumEvents + 2) (start initialStates) []
    pure (finished traced.1, traced.2)

theorem exploreTraced_fst (network : Network) (n : ℕ) : ∀ (s : Exploration) (markings : List Marking),
    Prod.fst <$> exploreTraced network n s markings = exploreQueue network n s := by
  induction n with
  | zero => exact fun s markings => rfl
  | succ n ih =>
    intro s markings
    rw [exploreTraced, exploreQueue]
    cases s.queue with
    | nil => rw [map_pure]
    | cons first queue =>
      rw [map_bind]
      exact bind_congr fun explored => ih _ _

theorem tracedOccurrencePrefix_fst (initial : Finset Identifier) (network : Network) :
    Prod.fst <$> tracedOccurrencePrefix initial network = boundedOccurrencePrefix initial network := by
  unfold tracedOccurrencePrefix boundedOccurrencePrefix
  split_ifs
  · rw [map_pure]
  · rw [← exploreTraced_fst network _ _ [], map_bind, bind_map_left]
    simp only [map_pure]

section traced
variable (network : Network) (initial : Finset Identifier)

/-- Each event is a firing after the history in its place, from the marking in its place; a marking
that waits stands for a history that waits. -/
structure Traced (s : Exploration) (markings : List Marking)
    (nodes waiting words : List (List Identifier)) : Prop where
  consistent : Consistent s
  apart : (s.conditions.map fun c => (c.stateId, c.producerEventId)).Nodup
  counted : words.length = s.rawEvents.length
  paired : markings.length = s.rawEvents.length
  few : s.rawEvents.length ≤ maximumEvents
  fired : ∀ (k : ℕ) (e : RawEvent), s.rawEvents[k]? = some e → ∃ history marking t,
    words[k]? = some (e.transformationId :: history) ∧ markings[k]? = some marking ∧
    network[e.transformationId]? = some t ∧ firable marking.states t = true ∧
    e.presetConditionIds = preset marking t ∧
    Represents network initial s.conditions words marking history
  caused : ∀ (k : ℕ) (e : RawEvent) (marking : Marking) (t : TransformationAttestation),
    s.rawEvents[k]? = some e → markings[k]? = some marking →
    network[e.transformationId]? = some t → ∀ condition ∈ s.conditions,
      condition.conditionId ∈ dependencies marking t → ∀ p ∈ condition.producerEventId,
        p ∈ e.causalPredecessorIds
  seen : ∀ p ∈ s.seenMarkings, ∃ y ∈ nodes,
    after (fireBy network) initial y = some p.1 ∧ p.2 = y.length
  known : ∀ y ∈ nodes, ∃ p ∈ s.seenMarkings, after (fireBy network) initial y = some p.1
  queued : List.Forall₂ (fun q y => Represents network initial s.conditions words q.1 y ∧
    q.2.card = y.length ∧ ∀ e ∈ q.2, e < s.rawEvents.length) s.queue waiting
  competing : ∀ e ∈ s.rawEvents, ∀ p ∈ e.conflictEventIds, ∃ f ∈ s.rawEvents, f.eventId = p ∧
    ∃ c ∈ e.presetConditionIds, c ∈ f.presetConditionIds

variable {network initial} {s : Exploration} {markings : List Marking}
  {nodes waiting words processed : List (List Identifier)} {here done rest : List Identifier}
  {marking : Marking} {history : Finset EventId} {id : Identifier} {t : TransformationAttestation}

theorem outputs_apart (consistent : Consistent s)
    (apart : (s.conditions.map fun c => (c.stateId, c.producerEventId)).Nodup) :
    ((s.conditions ++ s.outputs t).map fun c => (c.stateId, c.producerEventId)).Nodup := by
  rw [List.map_append, List.nodup_append]
  refine ⟨apart, ?_, ?_⟩
  · have states : ((s.outputs t).map (·.stateId)).Nodup := by
      rw [outputs_states]
      exact Finset.sort_nodup _ _
    refine List.Nodup.of_map Prod.fst ?_
    rwa [List.map_map]
  · intro pair old pair' new same
    subst same
    obtain ⟨condition, member, rfl⟩ := List.mem_map.mp old
    obtain ⟨condition', member', equal⟩ := List.mem_map.mp new
    obtain ⟨n, -, produced⟩ := mem_outputs member'
    rw [Prod.mk.injEq, produced] at equal
    obtain ⟨e, happened, same, -⟩ := consistent.producers condition member _ equal.2.symm
    have bound := consistent.event_lt happened
    rw [same] at bound
    exact lt_irrefl _ bound

theorem Traced.lookup (traced : Traced network initial s markings nodes waiting words)
    {next : List Identifier} (marked : Finset Identifier)
    (before : ∀ y ∈ nodes, Earlier y next) :
    ((s.seenMarkings.lookup marked).any (· ≤ next.length)) = true ↔
      ∃ y ∈ nodes, after (fireBy network) initial y = some marked := by
  constructor
  · intro found
    obtain ⟨depth, looked, -⟩ := (Option.any_eq_true _ _).mp found
    obtain ⟨y, node, reached, -⟩ := traced.seen _ (mem_of_lookup looked)
    exact ⟨y, node, reached⟩
  · intro given
    obtain ⟨y, node, reached⟩ := given
    obtain ⟨p, member, same⟩ := traced.known y node
    have equal : marked = p.1 := Option.some.inj (reached.symm.trans same)
    have found : (s.seenMarkings.lookup marked).isSome = true :=
      List.lookup_isSome_iff.mpr ⟨p, member, by simp [equal]⟩
    obtain ⟨depth, looked⟩ := Option.isSome_iff_exists.mp found
    obtain ⟨z, node', -, rfl⟩ := traced.seen _ (mem_of_lookup looked)
    rw [looked]
    simpa using (before z node').length_le

theorem Represents.registered
    (represents : Represents network initial s.conditions words marking here) :
    Registered s.conditions marking := by
  intro state condition marked
  obtain ⟨producer, member, -⟩ := represents.given state condition marked
  exact ⟨_, member, rfl, rfl⟩

theorem queued_snoc {queue : List (Marking × Finset EventId)} {more : List Condition}
    {next : List (List Identifier)} {event : RawEvent}
    (queued : List.Forall₂ (fun q y => Represents network initial s.conditions words q.1 y ∧
      q.2.card = y.length ∧ ∀ e ∈ q.2, e < s.rawEvents.length) queue waiting) :
    List.Forall₂ (fun q y => Represents network initial (s.conditions ++ more) (words ++ next) q.1 y ∧
      q.2.card = y.length ∧ ∀ e ∈ q.2, e < (s.rawEvents ++ [event]).length) queue waiting := by
  refine queued.imp fun q y both => ⟨both.1.mono _ _, both.2.1, fun e member => ?_⟩
  rw [List.length_append, List.length_singleton]
  exact Nat.lt_succ_of_lt (both.2.2 e member)

theorem Traced.caused_snoc (traced : Traced network initial s markings nodes waiting words)
    (registered : Registered s.conditions marking) (listed : network[id]? = some t) (k : ℕ)
    (e : RawEvent) (marking' : Marking) (t' : TransformationAttestation)
    (happened : (s.rawEvents ++ [s.event marking id t])[k]? = some e)
    (noted : (markings ++ [marking])[k]? = some marking')
    (listed' : network[e.transformationId]? = some t') (condition : Condition)
    (member : condition ∈ s.conditions ++ s.outputs t)
    (depends : condition.conditionId ∈ dependencies marking' t') (p : EventId)
    (produced : p ∈ condition.producerEventId) : p ∈ e.causalPredecessorIds := by
  by_cases before : k < s.rawEvents.length
  · rw [List.getElem?_append_left before] at happened
    rw [List.getElem?_append_left (by rw [traced.paired]; exact before)] at noted
    cases List.mem_append.mp member with
    | inl old =>
      exact traced.caused k e marking' t' happened noted listed' condition old depends p produced
    | inr new =>
      obtain ⟨x, m, u, -, noted', -, -, -, represents⟩ := traced.fired k e happened
      obtain rfl := Option.some.inj (noted.symm.trans noted')
      exact (traced.consistent.fresh represents.registered new depends).elim
  · rw [List.getElem?_append_right (by omega), List.getElem?_singleton] at happened
    rw [List.getElem?_append_right (by rw [traced.paired]; omega), List.getElem?_singleton] at noted
    split_ifs at happened
    split_ifs at noted
    obtain rfl := Option.some.inj happened
    obtain rfl := Option.some.inj noted
    obtain rfl := Option.some.inj (listed.symm.trans listed')
    exact traced.consistent.event_caused registered member depends produced

theorem Traced.record {s' : Exploration} {nodes' waiting' : List (List Identifier)}
    (traced : Traced network initial s markings nodes waiting words)
    (represents : Represents network initial s.conditions words marking here)
    (room : s.rawEvents.length < maximumEvents) (listed : network[id]? = some t)
    (fires : firable marking.states t = true)
    (events : s'.rawEvents = s.rawEvents ++ [s.event marking id t])
    (conditions : s'.conditions = s.conditions ++ s.outputs t) (consistent : Consistent s')
    (seen : ∀ p ∈ s'.seenMarkings, ∃ y ∈ nodes',
      after (fireBy network) initial y = some p.1 ∧ p.2 = y.length)
    (known : ∀ y ∈ nodes', ∃ p ∈ s'.seenMarkings, after (fireBy network) initial y = some p.1)
    (queued : List.Forall₂ (fun q y => Represents network initial (s.conditions ++ s.outputs t)
      (words ++ [id :: here]) q.1 y ∧ q.2.card = y.length ∧
      ∀ e ∈ q.2, e < (s.rawEvents ++ [s.event marking id t]).length) s'.queue waiting') :
    Traced network initial s' (markings ++ [marking]) nodes' waiting' (words ++ [id :: here]) := by
  refine ⟨consistent, ?_, ?_, ?_, ?_, fun k e found => ?_, ?_, seen, known, ?_,
    fun e member p conflict => ?_⟩
  · rw [conditions]
    exact outputs_apart traced.consistent traced.apart
  · simp [events, traced.counted]
  · simp [events, traced.paired]
  · rw [events, List.length_append, List.length_singleton]
    exact room
  · rw [events] at found
    rw [conditions]
    by_cases before : k < s.rawEvents.length
    · rw [List.getElem?_append_left before] at found
      obtain ⟨x, m, t', word, noted, rest⟩ := traced.fired k e found
      refine ⟨x, m, t', ?_, ?_, rest.1, rest.2.1, rest.2.2.1, rest.2.2.2.mono _ _⟩
      · rwa [List.getElem?_append_left (by rw [traced.counted]; exact before)]
      · rwa [List.getElem?_append_left (by rw [traced.paired]; exact before)]
    · rw [List.getElem?_append_right (by omega), List.getElem?_singleton] at found
      split_ifs at found with last
      obtain rfl := Option.some.inj found
      have newest : k = s.rawEvents.length := by omega
      refine ⟨here, marking, t, ?_, ?_, listed, fires, rfl, represents.mono _ _⟩
      · rw [newest, ← traced.counted]
        simp [Exploration.event]
      · rw [newest, ← traced.paired]
        simp
  · rw [conditions, events]
    exact traced.caused_snoc represents.registered listed
  · rw [conditions, events]
    exact queued
  · rw [events, List.mem_append, List.mem_singleton] at member
    have shares : ∃ f ∈ s.rawEvents, f.eventId = p ∧
        ∃ c ∈ e.presetConditionIds, c ∈ f.presetConditionIds := by
      cases member with
      | inl before => exact traced.competing e before p conflict
      | inr new =>
        subst new
        obtain ⟨f, chosen, same⟩ := List.mem_map.mp conflict
        obtain ⟨happened, clash⟩ := List.mem_filter.mp chosen
        rw [Bool.and_eq_true, List.any_eq_true] at clash
        obtain ⟨c, listed, shared⟩ := clash.1
        exact ⟨f, happened, same, c, listed, of_decide_eq_true shared⟩
    obtain ⟨f, happened, same⟩ := shares
    exact ⟨f, events ▸ List.mem_append_left _ happened, same⟩

theorem occur_seen (seen : ((s.seenMarkings.lookup (s.successor marking t).states).any
      (· ≤ history.card + 1)) = true) :
    (s.occur marking history id t).seenMarkings = s.seenMarkings ∧
      (s.occur marking history id t).queue = s.queue := by
  unfold Exploration.occur
  dsimp only
  rw [if_pos seen]
  exact ⟨rfl, rfl⟩

theorem occur_new (new : ¬((s.seenMarkings.lookup (s.successor marking t).states).any
      (· ≤ history.card + 1)) = true) :
    (s.occur marking history id t).seenMarkings =
        ((s.successor marking t).states, history.card + 1) :: s.seenMarkings ∧
      (s.occur marking history id t).queue =
        s.queue ++ [(s.successor marking t, insert s.rawEvents.length history)] := by
  unfold Exploration.occur
  dsimp only
  rw [if_neg new]
  exact ⟨rfl, rfl⟩

/-- A firing after the history that is followed is recorded, and followed if it leads to a new
state. -/
theorem Traced.occur (traced : Traced network initial s markings (processed ++ here :: waiting)
      waiting words)
    (within : Within (fireBy network) initial network.keys processed here done waiting words)
    (split : network.keys = done ++ id :: rest)
    (represents : Represents network initial s.conditions words marking here)
    (size : history.card = here.length) (old : ∀ e ∈ history, e < s.rawEvents.length)
    (room : s.rawEvents.length < maximumEvents) (listed : network[id]? = some t)
    (fires : firable marking.states t = true) :
    ∃ waiting',
      Within (fireBy network) initial network.keys processed here (done ++ [id]) waiting'
        (words ++ [id :: here]) ∧
      Traced network initial (s.occur marking history id t) (markings ++ [marking])
        (processed ++ here :: waiting') waiting' (words ++ [id :: here]) := by
  have next := represents.fire listed fires traced.counted
  have consistent := @Consistent.occur s marking history id t traced.consistent
    represents.registered
  have depth : history.card + 1 = (id :: here).length := by rw [size, List.length_cons]
  have looked := traced.lookup (s.successor marking t).states
    (within.node_earlier (split ▸ Dict.keys_sorted _))
  rw [← depth] at looked
  have possible : (after (fireBy network) initial (id :: here)).isSome = true := by
    rw [next.reached]
    rfl
  by_cases seen : ((s.seenMarkings.lookup (s.successor marking t).states).any
      (· ≤ history.card + 1)) = true
  · obtain ⟨marked, waits⟩ := @occur_seen s marking history id t seen
    refine ⟨waiting, within.again (split ▸ Dict.keys_sorted _) possible ?_,
      traced.record represents room listed fires occur_rawEvents occur_conditions consistent
        (marked ▸ traced.seen) (marked ▸ traced.known) (waits ▸ queued_snoc traced.queued)⟩
    rw [next.reached]
    exact looked.mp seen
  · obtain ⟨marked, waits⟩ := @occur_new s marking history id t seen
    have nodes : processed ++ here :: (waiting ++ [id :: here]) =
        (processed ++ here :: waiting) ++ [id :: here] := by simp
    refine ⟨waiting ++ [id :: here], within.follow split (Dict.keys_sorted _) allowed possible ?_,
      traced.record represents room listed fires occur_rawEvents occur_conditions consistent
        ?_ ?_ ?_⟩
    · intro y node same
      exact seen (looked.mpr ⟨y, node, same.trans next.reached⟩)
    · rw [marked, nodes, List.forall_mem_cons]
      refine ⟨⟨id :: here, by simp, next.reached, depth⟩, fun p member => ?_⟩
      obtain ⟨y, node, same⟩ := traced.seen p member
      exact ⟨y, List.mem_append_left _ node, same⟩
    · rw [marked, nodes]
      intro y node
      rw [List.mem_append, List.mem_singleton] at node
      cases node with
      | inl before =>
        obtain ⟨p, member, same⟩ := traced.known y before
        exact ⟨p, List.mem_cons_of_mem _ member, same⟩
      | inr new => exact ⟨_, List.mem_cons_self, new ▸ next.reached⟩
    · rw [waits]
      refine List.rel_append (queued_snoc traced.queued) (List.Forall₂.cons ⟨next, ?_, ?_⟩ .nil)
      · rw [Finset.card_insert_of_notMem fun member => lt_irrefl _ (old _ member), depth]
      · intro e member
        rw [Finset.mem_insert] at member
        rw [List.length_append, List.length_singleton]
        cases member with
        | inl new => exact new ▸ Nat.lt_succ_self _
        | inr before => exact Nat.lt_succ_of_lt (old e before)

variable (network initial) in
/-- Between two markings the search has followed all that it has processed; broken off, it has
recorded the first firings. -/
def Ready (s : Exploration) (markings : List Marking) : Prop :=
  ∃ nodes processed waiting words, Traced network initial s markings nodes waiting words ∧
    ((nodes = processed ++ waiting ∧ Histories.Search (fireBy network) initial nodes words ∧
        words = processed.flatMap (extensions (fireBy network) initial network.keys)) ∨
      (waiting = [] ∧ First (fireBy network) initial maximumEvents words))

theorem after_stuck (represents : Represents network initial s.conditions words marking here)
    (listed : network[id]? = some t) (stuck : firable marking.states t = false) :
    (after (fireBy network) initial (id :: here)).isSome = false := by
  rw [← Bool.not_eq_true, isSome_after_cons]
  intro given
  obtain ⟨marked, reached, fires⟩ := given
  obtain ⟨t', listed', fires⟩ := fireBy_isSome.mp fires
  have same := represents.reached.symm.trans reached
  rw [listed] at listed'
  rw [Option.some.inj same, Option.some.inj listed', fires] at stuck
  cases stuck

/-- The transformations at one marking: all its firings are recorded, or as many events as there
may be. -/
theorem yields_explore_traced (items : List (Identifier × TransformationAttestation)) :
    (∀ item ∈ items, network[item.1]? = some item.2) →
    ∀ (s : Exploration) (markings : List Marking) (waiting words : List (List Identifier))
      (done : List Identifier),
    network.keys = done ++ items.map Prod.fst →
    Represents network initial s.conditions words marking here →
    history.card = here.length → (∀ e ∈ history, e < s.rawEvents.length) →
    Within (fireBy network) initial network.keys processed here done waiting words →
    Traced network initial s markings (processed ++ here :: waiting) waiting words →
    Yields (explore marking history items s) fun s' => ∃ added,
      s'.rawEvents.length = s.rawEvents.length + added ∧
      Ready network initial s' (markings ++ List.replicate added marking) := by
  induction items with
  | nil =>
    intro _ s markings waiting words done split represents size old within traced
    rw [List.map_nil, List.append_nil] at split
    rw [← split] at within
    obtain ⟨search, words_eq⟩ := within.leave
    refine yields_pure ⟨0, rfl, processed ++ here :: waiting, processed ++ [here], waiting, words, ?_,
      Or.inl ⟨by simp, by simpa using search, words_eq⟩⟩
    simpa using traced
  | cons item items ih =>
    intro listed s markings waiting words done split represents size old within traced
    obtain ⟨known, later⟩ := List.forall_mem_cons.mp listed
    rw [List.map_cons] at split
    have onward : network.keys = (done ++ [item.1]) ++ items.map Prod.fst := by simp [split]
    refine yields_bind (yields_spend 1) fun _ _ => ?_
    split_ifs with stuck full
    · exact ih later s markings waiting words _ onward represents size old
        (within.skip (after_stuck represents known stuck)) traced
    · have count : words.length = maximumEvents := by
        rw [traced.counted]
        exact le_antisymm traced.few full
      refine yields_pure ⟨0, rfl, processed ++ here :: waiting, processed, [], words, ?_,
        Or.inr ⟨rfl, within.first split (Dict.keys_sorted _) allowed count⟩⟩
      rw [List.replicate_zero, List.append_nil]
      exact { traced with
        consistent := { traced.consistent with markings := by simp }
        queued := List.Forall₂.nil }
    · rw [Bool.not_eq_false] at stuck
      obtain ⟨waiting', within', traced'⟩ := traced.occur within split represents size old
        (Nat.lt_of_not_le full) known stuck
      have events := @occur_rawEvents s marking history item.1 item.2
      have represents' : Represents network initial
          (s.occur marking history item.1 item.2).conditions (words ++ [item.1 :: here]) marking
          here := by
        rw [occur_conditions]
        exact represents.mono _ _
      have longer : (s.occur marking history item.1 item.2).rawEvents.length =
          s.rawEvents.length + 1 := by simp [events]
      refine (ih later _ _ waiting' _ _ onward represents' size (fun e member => ?_) within'
        traced').mono fun s' found => ?_
      · rw [longer]
        exact Nat.lt_succ_of_lt (old e member)
      · obtain ⟨added, count, ready⟩ := found
        refine ⟨added + 1, by rw [count, longer]; omega, ?_⟩
        rwa [List.append_assoc, List.singleton_append, ← List.replicate_succ] at ready

theorem yields_exploreTraced (n : ℕ) : ∀ (s : Exploration) (markings : List Marking),
    Ready network initial s markings → Yields (exploreTraced network n s markings) fun traced =>
      ∃ nodes words, Traced network initial traced.1 traced.2 nodes [] words ∧
        First (fireBy network) initial maximumEvents words := by
  induction n with
  | zero => exact fun _ _ _ => yields_throw _
  | succ n ih =>
    intro s markings ready
    obtain ⟨nodes, processed, waiting, words, traced, either⟩ := ready
    have queued := traced.queued
    rw [exploreTraced]
    cases left : s.queue with
    | nil =>
      rw [left, List.forall₂_nil_left_iff] at queued
      subst queued
      refine yields_pure ⟨nodes, words, traced, ?_⟩
      cases either with
      | inl search =>
        obtain ⟨rfl, search, words_eq⟩ := search
        rw [List.append_nil] at search
        exact search.first words_eq allowed (traced.counted ▸ traced.few)
      | inr broken => exact broken.2
    | cons first queue =>
      obtain ⟨marking, history⟩ := first
      rw [left] at queued
      obtain ⟨here, later, ⟨represents, size, old⟩, rest, rfl⟩ := List.forall₂_cons_left_iff.mp queued
      obtain ⟨rfl, search, words_eq⟩ := either.resolve_right fun broken => by simp at broken
      have taken : Traced network initial { s with queue := queue } markings
          (processed ++ here :: later) later words :=
        { traced with
          consistent := { traced.consistent with
            markings := fun q member => traced.consistent.markings q (by simp [left, member]) }
          queued := rest }
      have entries : ∀ item ∈ network.toList, network[item.1]? = some item.2 :=
        fun item member => Std.ExtTreeMap.mem_toList_iff_getElem?_eq_some.mp member
      have split : network.keys = [] ++ network.toList.map Prod.fst := by
        rw [List.nil_append, Std.ExtTreeMap.map_fst_toList_eq_keys]
      refine yields_bind (yields_explore_traced _ entries _ markings later words [] split represents
        size old (Within.enter search words_eq) taken) fun s' found => ?_
      obtain ⟨added, count, ready⟩ := found
      dsimp only at count
      rw [count, Nat.add_sub_cancel_left]
      exact ih s' _ ready

theorem ready_start : Ready network initial (start initial) [] := by
  have states := initial_states initial
  refine ⟨[[]], [], [[]], [], ⟨consistent_start initial, ?_, rfl, rfl, Nat.zero_le _, ?_, ?_, ?_, ?_,
    ?_, ?_⟩, Or.inl ⟨rfl, search_start, rfl⟩⟩
  · refine List.Nodup.of_map Prod.fst ?_
    have distinct : ((initialConditions initial).map (·.stateId)).Nodup := by
      rw [initialConditions_states]
      exact Finset.sort_nodup _ _
    rwa [List.map_map]
  · simp [start]
  · simp [start]
  · simp [start, states, after]
  · simp [start, states, after]
  · refine List.Forall₂.cons ⟨⟨?_, fun state id marked => ?_⟩, by simp, by simp⟩ .nil
    · rw [after, states]
    · obtain ⟨condition, listed, same⟩ := List.mem_map.mp (Dict.mem_of_ofList marked)
      rw [Prod.mk.injEq] at same
      obtain ⟨rfl, rfl⟩ := same
      obtain ⟨n, inside, rfl⟩ := List.mem_mapIdx.mp listed
      exact ⟨none, listed, rfl⟩
  · simp [start]

theorem spends_exploreTraced (network : Network) (initial : Finset Identifier) :
    Spends (exploreTraced network (maximumEvents + 2) (start initial) []) := by
  have few : pending (start initial) < maximumEvents + 2 := by
    simp [start, pending]
    omega
  have spends := spends_exploreQueue network _ (start initial) (Nat.zero_le _) few
  rw [← exploreTraced_fst network _ _ []] at spends
  intro budget fault rest run
  refine spends budget fault rest ?_
  change EStateM.map Prod.fst _ budget = _
  rw [EStateM.map, run]

end traced

section identity
variable (network : Network) (initial : Finset Identifier)

/-- Two events, with the markings at which they are recorded, are of one transformation, and have
the same preset and the same catalyst conditions. -/
structure SameOccurrence (e f : Event × Marking) : Prop where
  transformation : e.1.transformationId = f.1.transformationId
  preset : e.1.presetConditionIds = f.1.presetConditionIds
  catalysts : ∀ t, network[e.1.transformationId]? = some t → catalysts e.2 t = catalysts f.2 t

/-- Every event denotes one occurrence, and only events that compete for a condition are in
conflict. -/
structure BranchingProcess (occurrence : OccurrencePrefix) (markings : List Marking) : Prop where
  paired : markings.length = occurrence.events.length
  identified : ∀ e ∈ occurrence.events.zip markings, ∀ f ∈ occurrence.events.zip markings,
    SameOccurrence network e f → e.1.eventId = f.1.eventId
  competing : ∀ e ∈ occurrence.events.zip markings, ∀ f ∈ occurrence.events.zip markings,
    f.1.eventId ∈ e.1.conflictEventIds → ¬SameOccurrence network e f ∧
      ∃ c ∈ e.1.presetConditionIds, c ∈ f.1.presetConditionIds

/-- The history is one firing after the earliest history of its marked states, and among the first
of these. -/
def Among (history : List Identifier) : Prop :=
  Listed (fireBy network) initial history ∧
    {y | Listed (fireBy network) initial y ∧ Earlier y history}.encard < maximumEvents

def inputTokens (t : TransformationAttestation) (history : List Identifier) :
    List (Identifier × List Identifier) :=
  tokens network history ((flows t).premises.sort (· ≤ ·))

def catalystTokens (t : TransformationAttestation) (history : List Identifier) :
    List (Identifier × List Identifier) :=
  match after (fireBy network) initial history with
  | some marked => tokens network history (markedClause marked t)
  | none => []

def Repeats : Prop :=
  ∃ (id : Identifier) (t : TransformationAttestation) (x y : List Identifier),
    network[id]? = some t ∧ x ≠ y ∧ Among network initial (id :: x) ∧
    Among network initial (id :: y) ∧ inputTokens network t x = inputTokens network t y ∧
    catalystTokens network initial t x = catalystTokens network initial t y

variable {network initial} {s : Exploration} {markings : List Marking}
  {nodes words : List (List Identifier)}

theorem First.nodup (first : First (fireBy network) initial maximumEvents words) : words.Nodup :=
  first.sorted.imp fun {y z} less => by
    rintro rfl
    exact earlier_irrefl y less

theorem Traced.tokens_biUnique (traced : Traced network initial s markings nodes [] words)
    (first : First (fireBy network) initial maximumEvents words) :
    Relator.BiUnique (Token s.conditions words) := by
  refine token_biUnique traced.consistent (First.nodup first) (fun member => ?_) traced.apart
  obtain ⟨-, a, before, same, -⟩ := first.listed [] member
  cases same

theorem conditions_eq_iff {conditions : List Condition}
    (unique : Relator.BiUnique (Token conditions words)) {marking marking' : Marking}
    {history history' : List Identifier} (states states' : List Identifier)
    (first : Represents network initial conditions words marking history)
    (second : Represents network initial conditions words marking' history')
    (marked : ∀ state ∈ states, state ∈ marking.states)
    (marked' : ∀ state ∈ states', state ∈ marking'.states) :
    states.filterMap (marking[·]?) = states'.filterMap (marking'[·]?) ↔
      tokens network history states = tokens network history' states' := by
  have left := first.tokens marked
  have right := second.tokens marked'
  constructor
  · intro same
    rw [same] at left
    exact List.left_unique_forall₂' unique.left left right
  · intro same
    rw [same] at left
    exact List.right_unique_forall₂' unique.right left right

/-- An event of the prefix with its marking, and the history it is fired after. -/
structure FiredAt (network : Network) (initial : Finset Identifier) (s : Exploration)
    (words : List (List Identifier)) (e : Event × Marking) (history : List Identifier)
    (t : TransformationAttestation) : Prop where
  word : words[e.1.eventId]? = some (e.1.transformationId :: history)
  listed : network[e.1.transformationId]? = some t
  preset : e.1.presetConditionIds = Prefix.preset e.2 t
  enabled : (flows t).premises ⊆ e.2.states
  represents : Represents network initial s.conditions words e.2 history

theorem firable_inputs {marked : Finset Identifier} {t : TransformationAttestation}
    (fires : firable marked t = true) : (flows t).premises ⊆ marked := by
  simp only [firable, Bool.and_eq_true, decide_eq_true_eq] at fires
  exact fires.1.1.1

theorem Consistent.eventId_eq (consistent : Consistent s) {k : ℕ} {raw : RawEvent}
    (happened : s.rawEvents[k]? = some raw) : raw.eventId = k := by
  have numbered : (s.rawEvents.map (·.eventId))[k]? = some raw.eventId := by
    rw [List.getElem?_map, happened]
    rfl
  rw [consistent.events, List.getElem?_range (List.getElem?_eq_some_iff.mp happened).1] at numbered
  exact (Option.some.inj numbered).symm

theorem Traced.firedAt (traced : Traced network initial s markings nodes [] words)
    {e : Event × Marking} (member : e ∈ (finished s).events.zip markings) :
    ∃ history t, FiredAt network initial s words e history t := by
  obtain ⟨k, found⟩ := List.mem_iff_getElem?.mp member
  rw [List.getElem?_zip_eq_some] at found
  obtain ⟨event, noted⟩ := found
  rw [finished, List.getElem?_map, Option.map_eq_some_iff] at event
  obtain ⟨raw, happened, built⟩ := event
  obtain ⟨history, marking, t, word, noted', listed, fires, preset, represents⟩ :=
    traced.fired k raw happened
  have number := traced.consistent.eventId_eq happened
  have same : e.2 = marking := Option.some.inj (noted.symm.trans noted')
  refine ⟨history, t, ?_, ?_, ?_, ?_, ?_⟩
  · rw [← built, number]
    exact word
  · rw [← built]
    exact listed
  · rw [← built, same]
    exact preset
  · rw [same]
    exact firable_inputs fires
  · rw [same]
    exact represents

theorem Traced.exists_event (traced : Traced network initial s markings nodes [] words) {k : ℕ}
    (inside : k < words.length) : ∃ e ∈ (finished s).events.zip markings, e.1.eventId = k := by
  have within : k < ((finished s).events.zip markings).length := by
    rw [List.length_zip, traced.paired, ← traced.counted]
    simpa [finished, ← traced.counted] using inside
  obtain ⟨e, found⟩ : ∃ e, ((finished s).events.zip markings)[k]? = some e :=
    ⟨_, List.getElem?_eq_getElem within⟩
  refine ⟨e, List.mem_of_getElem? found, ?_⟩
  rw [List.getElem?_zip_eq_some] at found
  obtain ⟨event, -⟩ := found
  rw [finished, List.getElem?_map, Option.map_eq_some_iff] at event
  obtain ⟨raw, happened, built⟩ := event
  rw [← built]
  exact traced.consistent.eventId_eq happened

theorem FiredAt.same_iff {e f : Event × Marking} {x y : List Identifier}
    {t t' : TransformationAttestation} (unique : Relator.BiUnique (Token s.conditions words))
    (first : FiredAt network initial s words e x t) (second : FiredAt network initial s words f y t')
    (same : e.1.transformationId = f.1.transformationId) :
    SameOccurrence network e f ↔ inputTokens network t x = inputTokens network t y ∧
      catalystTokens network initial t x = catalystTokens network initial t y := by
  have equal : t' = t := by
    have listed := second.listed
    rw [← same, first.listed] at listed
    exact (Option.some.inj listed).symm
  subst equal
  have inputs := conditions_eq_iff unique ((flows t').premises.sort (· ≤ ·))
    ((flows t').premises.sort (· ≤ ·)) first.represents second.represents
    (fun state member => first.enabled ((Finset.mem_sort _).mp member))
    (fun state member => second.enabled ((Finset.mem_sort _).mp member))
  have clauses := conditions_eq_iff unique (markedClause e.2.states t')
    (markedClause f.2.states t') first.represents second.represents markedClause_marked
    markedClause_marked
  rw [← catalysts_eq, ← catalysts_eq] at clauses
  have left : catalystTokens network initial t' x = tokens network x (markedClause e.2.states t') := by
    rw [catalystTokens, first.represents.reached]
  have right : catalystTokens network initial t' y = tokens network y (markedClause f.2.states t') := by
    rw [catalystTokens, second.represents.reached]
  rw [left, right, ← clauses]
  constructor
  · intro given
    refine ⟨inputs.mp ?_, given.catalysts t' first.listed⟩
    have preset := given.preset
    rw [first.preset, second.preset] at preset
    exact preset
  · intro given
    refine ⟨same, ?_, fun u listed => ?_⟩
    · rw [first.preset, second.preset]
      exact inputs.mpr given.1
    · rw [first.listed] at listed
      exact Option.some.inj listed ▸ given.2

theorem exists_raw {e : Event} (member : e ∈ (finished s).events) :
    ∃ raw ∈ s.rawEvents, raw.eventId = e.eventId ∧
      raw.presetConditionIds = e.presetConditionIds := by
  obtain ⟨raw, happened, rfl⟩ := List.mem_map.mp member
  exact ⟨raw, happened, rfl, rfl⟩

theorem Traced.conflict (traced : Traced network initial s markings nodes [] words) {e f : Event}
    (first : e ∈ (finished s).events) (second : f ∈ (finished s).events)
    (conflict : f.eventId ∈ e.conflictEventIds) :
    e.eventId ≠ f.eventId ∧ ∃ c ∈ e.presetConditionIds, c ∈ f.presetConditionIds := by
  have consistent := traced.consistent
  obtain ⟨raw, happened, number, preset⟩ := exists_raw first
  obtain ⟨raw', happened', number', preset'⟩ := exists_raw second
  obtain ⟨a, member, b, member', same, same', related⟩ :=
    (conflicts_finished consistent).mp ⟨e, first, rfl, conflict⟩
  obtain rfl := consistent.distinct happened member (number.trans same.symm)
  obtain rfl := consistent.distinct happened' member' (number'.trans same'.symm)
  have apart : ∀ {x y : RawEvent}, x ∈ s.rawEvents → y ∈ s.rawEvents →
      y.eventId ∈ x.conflictEventIds → x.eventId ≠ y.eventId ∧
        ∃ c ∈ x.presetConditionIds, c ∈ y.presetConditionIds := by
    intro x y left right recorded
    refine ⟨fun equal => (consistent.related left right recorded).1
      (consistent.distinct left right equal), ?_⟩
    obtain ⟨z, found, equal, shared⟩ := traced.competing x left _ recorded
    rwa [consistent.distinct found right equal] at shared
  rw [← number, ← number', ← preset, ← preset']
  cases related with
  | inl recorded => exact apart happened happened' (number' ▸ recorded)
  | inr recorded =>
    obtain ⟨other, c, shared, shared'⟩ := apart happened' happened (number ▸ recorded)
    exact ⟨other.symm, c, shared', shared⟩

theorem Traced.branching_iff (traced : Traced network initial s markings nodes [] words)
    (first : First (fireBy network) initial maximumEvents words) :
    BranchingProcess network (finished s) markings ↔ ¬Repeats network initial := by
  have unique := traced.tokens_biUnique first
  constructor
  · intro branching repeats
    obtain ⟨id, t, x, y, listed, apart, among, among', inputs, catalysts⟩ := repeats
    obtain ⟨k, inside, word⟩ := List.getElem_of_mem (first.mem_iff.mpr among)
    obtain ⟨k', inside', word'⟩ := List.getElem_of_mem (first.mem_iff.mpr among')
    obtain ⟨e, member, rfl⟩ := traced.exists_event inside
    obtain ⟨f, member', rfl⟩ := traced.exists_event inside'
    obtain ⟨z, u, fired⟩ := traced.firedAt member
    obtain ⟨z', u', fired'⟩ := traced.firedAt member'
    have left := fired.word
    have right := fired'.word
    rw [List.getElem?_eq_getElem inside, word, Option.some.injEq, List.cons.injEq] at left
    rw [List.getElem?_eq_getElem inside', word', Option.some.injEq, List.cons.injEq] at right
    have same : e.1.transformationId = f.1.transformationId := left.1.symm.trans right.1
    have equal : u = t := by
      have found := fired.listed
      rw [← left.1, listed] at found
      exact (Option.some.inj found).symm
    have occurrence := (fired.same_iff unique fired' same).mpr
      (by rw [equal, ← left.2, ← right.2]; exact ⟨inputs, catalysts⟩)
    have number := branching.identified e member f member' occurrence
    have words_eq : id :: x = id :: y := by
      rw [← word, ← word']
      simp only [number]
    exact apart (List.cons.inj words_eq).2
  · intro single
    have identified : ∀ e ∈ (finished s).events.zip markings,
        ∀ f ∈ (finished s).events.zip markings, SameOccurrence network e f →
          e.1.eventId = f.1.eventId := by
      intro e member f member' occurrence
      obtain ⟨x, t, fired⟩ := traced.firedAt member
      obtain ⟨y, u, fired'⟩ := traced.firedAt member'
      have tokens := (fired.same_iff unique fired' occurrence.transformation).mp occurrence
      by_contra other
      refine single ⟨e.1.transformationId, t, x, y, fired.listed, fun same => other ?_,
        first.mem_iff.mp (List.mem_of_getElem? fired.word),
        first.mem_iff.mp ?_, tokens⟩
      · have word := fired.word
        have word' := fired'.word
        rw [occurrence.transformation, same] at word
        exact (List.getElem?_inj (List.getElem?_eq_some_iff.mp word).1 (First.nodup first)).mp
          (word.trans word'.symm)
      · rw [occurrence.transformation]
        exact List.mem_of_getElem? fired'.word
    refine ⟨?_, identified, fun e member f member' conflict => ?_⟩
    · simpa [finished] using traced.paired
    · have apart := traced.conflict (List.of_mem_zip member).1 (List.of_mem_zip member').1 conflict
      exact ⟨fun occurrence => apart.1 (identified e member f member' occurrence), apart.2⟩

variable (network initial) in
/-- The prefix of a network with unit stoichiometry is a branching process when no transformation
fires twice from the same tokens. -/
theorem occurrencePrefix_branching (unit : unitStoichiometry network = true) :
    Prod.fst <$> tracedOccurrencePrefix initial network = boundedOccurrencePrefix initial network ∧
      Decides (tracedOccurrencePrefix initial network) fun traced =>
        BranchingProcess network traced.1 traced.2 ↔ ¬Repeats network initial := by
  refine ⟨tracedOccurrencePrefix_fst initial network, ?_⟩
  unfold tracedOccurrencePrefix
  rw [if_neg (by simp [unit]), decides_iff]
  constructor
  · refine yields_bind (yields_exploreTraced _ _ _ ready_start) fun traced found => yields_pure ?_
    obtain ⟨nodes, words, traced, first⟩ := found
    exact traced.branching_iff first
  · exact spends_bind (spends_exploreTraced network initial) (yields_trivial _)
      fun traced _ => spends_pure _

end identity

namespace IdentitySample
open NetworkSample

def concurrent : Network := .ofList [exchange "a" "x" "p", exchange "b" "y" "q"]

/-- What an event is of: its transformation, its preset and its catalyst conditions. -/
def occurrence (network : Network) (e : Event × Marking) :
    ℕ × Identifier × List ConditionId × List ConditionId :=
  (e.1.eventId, e.1.transformationId, e.1.presetConditionIds,
    (network[e.1.transformationId]?.map (catalysts e.2)).getD [])

def occurrences (initial : Finset Identifier) (network : Network) (budget : Budget) :
    List (ℕ × Identifier × List ConditionId × List ConditionId) :=
  match tracedOccurrencePrefix initial network budget with
  | .ok traced _ => (traced.1.events.zip traced.2).map (occurrence network)
  | .error _ _ => []

def generous : Budget := .ofOperations 1000 fun _ => false

def begun (states : List Identifier) : Exploration where
  conditions := states.zipIdx.map fun entry => ⟨.initial entry.2, entry.1, none⟩
  queue := [(.ofList (states.zipIdx.map fun entry => (entry.1, ConditionId.initial entry.2)), ∅)]
  seenMarkings := [(states.toFinset, 0)]
  rawEvents := []
  cutoff := []
  exhausted := true

theorem start_eq {states : List Identifier} (distinct : states.Nodup)
    (sorted : states.Pairwise (· ≤ ·)) : start states.toFinset = begun states := by
  have listed : states.toFinset.sort (· ≤ ·) = states :=
    (List.toFinset_sort (· ≤ ·) distinct).mpr sorted
  unfold start begun
  rw [initial_states]
  unfold initialMarking initialConditions
  rw [listed, List.mapIdx_eq_zipIdx_map, List.map_map]
  rfl

theorem traced_eq {network : Network} {states : List Identifier}
    (unit : unitStoichiometry network = true) (distinct : states.Nodup)
    (sorted : states.Pairwise (· ≤ ·)) : tracedOccurrencePrefix states.toFinset network = (do
      let traced ← exploreTraced network (maximumEvents + 2) (begun states) []
      pure (finished traced.1, traced.2)) := by
  unfold tracedOccurrencePrefix
  rw [if_neg (by simp [unit]), start_eq distinct sorted]

end IdentitySample

open IdentitySample in
/-- The second of two concurrent transformations has an event for each order. -/
theorem occurrencePrefix_repeats : ¬ ∀ (network : Network) (initial : Finset Identifier),
    unitStoichiometry network = true → Decides (tracedOccurrencePrefix initial network)
      fun traced => BranchingProcess network traced.1 traced.2 := by
  intro claim
  have events : occurrences {"x", "y"} concurrent generous =
      [(0, "a", [.initial 0], []), (1, "b", [.initial 1], []), (2, "b", [.initial 1], []),
        (3, "a", [.initial 0], [])] := by
    have equal := @traced_eq concurrent ["x", "y"] (by decide +kernel) (by decide) (by decide)
    rw [show ["x", "y"].toFinset = ({"x", "y"} : Finset Identifier) from rfl] at equal
    unfold occurrences
    rw [equal]
    decide +kernel
  have branching := claim concurrent {"x", "y"} (by decide +kernel) generous
  unfold occurrences at events
  split at branching
  · rename_i traced rest run
    rw [run] at events
    dsimp only at events
    have listed : ∀ x ∈ [(1, "b", [ConditionId.initial 1], []), (2, "b", [.initial 1], [])],
        ∃ e ∈ traced.1.events.zip traced.2, occurrence concurrent e = x := by
      intro x member
      refine List.mem_map.mp ?_
      rw [events]
      revert x
      decide
    obtain ⟨e, member, first⟩ := listed _ List.mem_cons_self
    obtain ⟨f, member', second⟩ := listed _ (List.mem_cons_of_mem _ List.mem_cons_self)
    simp only [occurrence, Prod.mk.injEq] at first second
    have same : SameOccurrence concurrent e f := by
      refine ⟨first.2.1.trans second.2.1.symm, first.2.2.1.trans second.2.2.1.symm, fun t found => ?_⟩
      have left := first.2.2.2
      have right := second.2.2.2
      rw [found, Option.map_some, Option.getD_some] at left
      rw [second.2.1, ← first.2.1, found, Option.map_some, Option.getD_some] at right
      exact left.trans right.symm
    have number := branching.identified e member f member' same
    rw [first.1, second.1] at number
    cases number
  · rename_i run
    rw [run] at events
    cases events

open NetworkSample in
theorem occurrencePrefix_branching_sample :
    Prod.fst <$> tracedOccurrencePrefix {"a"} network = boundedOccurrencePrefix {"a"} network ∧
      Decides (tracedOccurrencePrefix {"a"} network) fun traced =>
        BranchingProcess network traced.1 traced.2 ↔ ¬Repeats network {"a"} :=
  occurrencePrefix_branching network {"a"} (by decide +kernel)

end Prefix
end CollectivePhaseControl
