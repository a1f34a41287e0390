import CollectivePhaseControl.LegacyPrefixes

/-! Which firings the v0.5 occurrence prefix holds. Every event can occur. A firing may be
missing once some event occurs after two different firing histories: the search passes the
second occurrence by and never sees the marking it leads to. -/
namespace CollectivePhaseControl
namespace LegacyPrefix

open Histories

section histories
variable (digest : DigestTuple) (transformations : LegacyNetwork) (initial : Finset Identifier)

def markingAfter : List Identifier → Marking
  | [] => initialMarking initial
  | id :: before =>
    match transformations[id]? with
    | some edge =>
      nextMarking (markingAfter before) (eventId digest id (consumed (markingAfter before) edge)) edge
    | none => markingAfter before

def eventAfter : List Identifier → Option EventId
  | [] => none
  | id :: before => transformations[id]?.map fun edge =>
    eventId digest id (consumed (markingAfter digest transformations initial before) edge)

/-- No event occurs after two of the histories that are first, breadth first, to lead to
their markings. -/
def EventsDistinct : Prop :=
  ∀ x y, Listed (fireBy transformations) initial x → Listed (fireBy transformations) initial y →
    eventAfter digest transformations initial x = eventAfter digest transformations initial y → x = y

end histories

section markings
variable {digest : DigestTuple} {transformations : LegacyNetwork} {initial : Finset Identifier}
  {marked : Finset Identifier} {id : Identifier}

theorem markingAfter_cons {edge : JsonObject} {before : List Identifier}
    (listed : transformations[id]? = some edge) :
    markingAfter digest transformations initial (id :: before) =
      nextMarking (markingAfter digest transformations initial before) (eventId digest id
        (consumed (markingAfter digest transformations initial before) edge)) edge := by
  rw [markingAfter, listed]

theorem places_markingAfter : ∀ {x : List Identifier} {marked : Finset Identifier},
    after (fireBy transformations) initial x = some marked →
    places (markingAfter digest transformations initial x) = marked := by
  intro x
  induction x with
  | nil =>
    intro marked reached
    cases reached
    exact places_initialMarking initial
  | cons id before ih =>
    intro marked reached
    obtain ⟨earlier, reached', fires⟩ := Option.bind_eq_some_iff.mp reached
    obtain ⟨edge, listed, -, rfl⟩ := fireBy_eq_some.mp fires
    rw [markingAfter_cons listed, places_nextMarking, ih reached']

theorem reachable_iff : Reachable transformations initial marked ↔
    ∃ x, after (fireBy transformations) initial x = some marked := by
  constructor
  · intro reachable
    induction reachable with
    | refl => exact ⟨[], rfl⟩
    | tail _ fires ih =>
      obtain ⟨x, reached⟩ := ih
      obtain ⟨id, fires⟩ := fires
      exact ⟨id :: x, by rw [after, reached]; exact fires⟩
  · intro given
    obtain ⟨x, reached⟩ := given
    induction x generalizing marked with
    | nil =>
      cases reached
      exact .refl
    | cons id before ih =>
      obtain ⟨earlier, reached', fires⟩ := Option.bind_eq_some_iff.mp reached
      exact .tail (ih reached') ⟨id, fires⟩

theorem allowed (marked : Finset Identifier) (id : Identifier)
    (fires : (fireBy transformations marked id).isSome = true) : id ∈ transformations.keys := by
  obtain ⟨next, fires⟩ := Option.isSome_iff_exists.mp fires
  obtain ⟨edge, listed, -⟩ := fireBy_eq_some.mp fires
  exact Std.ExtTreeMap.mem_keys.mpr (Dict.mem_of_getElem? listed)

end markings

section sound
variable {digest : DigestTuple} {transformations : LegacyNetwork} {initial : Finset Identifier}
  {operationBudget : ℕ} {marking : Marking} {depth : ℕ} {s : Search} {id : Identifier}
  {edge : JsonObject}

structure Sound (transformations : LegacyNetwork) (initial : Finset Identifier) (s : Search) :
    Prop where
  queued : ∀ q ∈ s.queue, Reachable transformations initial (places q.1)
  labelled : ∀ e ∈ s.events.values, CanFire transformations initial e.transformationId

theorem Sound.occur (sound : Sound transformations initial s)
    (reachable : Reachable transformations initial (places marking))
    (listed : transformations[id]? = some edge) (fires : fireable (places marking) edge = true) :
    Sound transformations initial (s.occur digest marking depth id edge) := by
  have step : fireBy transformations (places marking) id = some (fire (places marking) edge) :=
    fireBy_eq_some.mpr ⟨edge, listed, fires, rfl⟩
  constructor
  · intro q member
    dsimp only [Search.occur] at member
    split_ifs at member with cutoff
    · exact sound.queued q member
    · rw [List.mem_append, List.mem_singleton] at member
      cases member with
      | inl old => exact sound.queued q old
      | inr new =>
        rw [new]
        dsimp only
        rw [places_nextMarking]
        exact .tail reachable ⟨id, step⟩
  · intro e member
    obtain ⟨key, found⟩ := Dict.mem_values.mp member
    dsimp only [Search.occur] at found
    rw [Std.ExtTreeMap.getElem?_insert] at found
    split_ifs at found with same
    · cases found
      exact ⟨places marking, reachable, by rw [step]; rfl⟩
    · exact sound.labelled e (Dict.mem_values.mpr ⟨key, found⟩)

theorem Sound.visit (reachable : Reachable transformations initial (places marking))
    (items : List (Identifier × JsonObject)) :
    (∀ item ∈ items, transformations[item.1]? = some item.2) →
    ∀ {s : Search}, Sound transformations initial s →
    Sound transformations initial (visit digest operationBudget marking depth items s) := by
  induction items with
  | nil => exact fun _ _ sound => sound
  | cons item items ih =>
    intro listed s sound
    obtain ⟨known, later⟩ := List.forall_mem_cons.mp listed
    have counted : Sound transformations initial { s with operations := s.operations + 1 } :=
      ⟨sound.queued, sound.labelled⟩
    rw [LegacyPrefix.visit]
    dsimp only
    split_ifs with full stuck old
    · exact ⟨fun q member => absurd member List.not_mem_nil, sound.labelled⟩
    · exact ih later counted
    · exact ih later counted
    · exact ih later (counted.occur reachable known (by rwa [Bool.not_eq_false] at stuck))

theorem Sound.searchLoop (n : ℕ) : ∀ {s result : Search}, Sound transformations initial s →
    searchLoop digest transformations operationBudget n s = .ok result →
    Sound transformations initial result := by
  induction n with
  | zero => exact fun _ run => nomatch run
  | succ n ih =>
    intro s result sound run
    rw [LegacyPrefix.searchLoop] at run
    split at run
    · cases run
      exact sound
    · rename_i marking depth queue waits
      have reachable := sound.queued (marking, depth) (by rw [waits]; exact List.mem_cons_self)
      have popped : Sound transformations initial { s with queue := queue } :=
        ⟨fun q member => sound.queued q (by rw [waits]; exact List.mem_cons_of_mem _ member),
          sound.labelled⟩
      exact ih (Sound.visit reachable _ (fun item member =>
        Std.ExtTreeMap.mem_toList_iff_getElem?_eq_some.mp member) popped) run

theorem sound_start (transformations : LegacyNetwork) (initial : Finset Identifier) :
    Sound transformations initial (start initial) := by
  constructor
  · intro q member
    rw [List.mem_singleton.mp member]
    dsimp only
    rw [places_initialMarking]
    exact .refl
  · intro e member
    obtain ⟨key, found⟩ := Dict.mem_values.mp member
    rw [start, Std.ExtTreeMap.getElem?_empty] at found
    cases found

theorem prefix_ok {result : Report} : boundedOneSafeOccurrencePrefix digest initial transformations
      operationBudget = .ok result ↔
    ∃ s, searchLoop digest transformations operationBudget (operationBudget + 2) (start initial) =
      .ok s ∧ report operationBudget s = result := by
  rw [boundedOneSafeOccurrencePrefix, bind_ok]
  simp only [pure_ok]

theorem labels_fire {result : Report} (run : boundedOneSafeOccurrencePrefix digest initial
      transformations operationBudget = .ok result) (labels : Labels result id) :
    CanFire transformations initial id := by
  obtain ⟨s, found, rfl⟩ := prefix_ok.mp run
  obtain ⟨e, member, rfl⟩ := labels
  exact (Sound.searchLoop _ (sound_start transformations initial) found).labelled e member

end sound

section complete
variable {digest : DigestTuple} {transformations : LegacyNetwork} {initial : Finset Identifier}
  {operationBudget : ℕ} {marking : Marking} {depth : ℕ} {s : Search} {id : Identifier}
  {edge : JsonObject} {nodes processed waiting words : List (List Identifier)}
  {here done rest : List Identifier}

/-- The search stands where a search of histories stands. -/
structure Traced (digest : DigestTuple) (transformations : LegacyNetwork)
    (initial : Finset Identifier) (s : Search) (nodes waiting words : List (List Identifier)) :
    Prop where
  seen : ∀ p ∈ s.seenMarkings, ∃ y ∈ nodes,
    after (fireBy transformations) initial y = some p.1 ∧ p.2 = y.length
  known : ∀ y ∈ nodes, ∃ p ∈ s.seenMarkings, after (fireBy transformations) initial y = some p.1
  queued : s.queue =
    waiting.map fun y => (markingAfter digest transformations initial y, y.length)
  occurred : ∀ event : EventId, event ∈ s.events ↔
    ∃ x ∈ words, eventAfter digest transformations initial x = some event
  labelled : ∀ id before, id :: before ∈ words → ∃ e ∈ s.events.values, e.transformationId = id

theorem Traced.lookup (traced : Traced digest transformations initial s nodes waiting words)
    {next : List Identifier} (marked : Finset Identifier) (before : ∀ y ∈ nodes, Earlier y next) :
    ((s.seenMarkings.lookup marked).any (· ≤ next.length)) = true ↔
      ∃ y ∈ nodes, after (fireBy transformations) initial y = some marked := by
  constructor
  · intro found
    obtain ⟨depth, looked, -⟩ := (Option.any_eq_true _ _).mp found
    obtain ⟨y, node, reached, -⟩ := traced.seen _ (mem_of_lookup looked)
    exact ⟨y, node, reached⟩
  · intro given
    obtain ⟨y, node, reached⟩ := given
    obtain ⟨p, member, same⟩ := traced.known y node
    have equal : marked = p.1 := Option.some.inj (reached.symm.trans same)
    have found : (s.seenMarkings.lookup marked).isSome = true :=
      List.lookup_isSome_iff.mpr ⟨p, member, by simp [equal]⟩
    obtain ⟨depth, looked⟩ := Option.isSome_iff_exists.mp found
    obtain ⟨z, node', -, rfl⟩ := traced.seen _ (mem_of_lookup looked)
    rw [looked]
    simpa using (before z node').length_le

theorem occur_seen (seen : ((s.seenMarkings.lookup (places (nextMarking marking
      (eventId digest id (consumed marking edge)) edge))).any (· ≤ depth + 1)) = true) :
    (s.occur digest marking depth id edge).seenMarkings = s.seenMarkings ∧
      (s.occur digest marking depth id edge).queue = s.queue := by
  rw [Search.occur]
  exact ⟨if_pos seen, if_pos seen⟩

theorem occur_new (new : ¬((s.seenMarkings.lookup (places (nextMarking marking
      (eventId digest id (consumed marking edge)) edge))).any (· ≤ depth + 1)) = true) :
    (s.occur digest marking depth id edge).seenMarkings =
        (places (nextMarking marking (eventId digest id (consumed marking edge)) edge),
          depth + 1) :: s.seenMarkings ∧
      (s.occur digest marking depth id edge).queue =
        s.queue ++
          [(nextMarking marking (eventId digest id (consumed marking edge)) edge, depth + 1)] := by
  rw [Search.occur]
  exact ⟨if_neg new, if_neg new⟩

theorem Traced.following {s' : Search} {nodes' waiting' : List (List Identifier)} {event : Event}
    (traced : Traced digest transformations initial s nodes waiting words)
    (listed : transformations[id]? = some edge)
    (new : eventId digest id (consumed (markingAfter digest transformations initial here) edge) ∉
      s.events)
    (events : s'.events = s.events.insert (eventId digest id
      (consumed (markingAfter digest transformations initial here) edge)) event)
    (named : event.transformationId = id)
    (seen : ∀ p ∈ s'.seenMarkings, ∃ y ∈ nodes',
      after (fireBy transformations) initial y = some p.1 ∧ p.2 = y.length)
    (known : ∀ y ∈ nodes', ∃ p ∈ s'.seenMarkings,
      after (fireBy transformations) initial y = some p.1)
    (queued : s'.queue =
      waiting'.map fun y => (markingAfter digest transformations initial y, y.length)) :
    Traced digest transformations initial s' nodes' waiting' (words ++ [id :: here]) := by
  have own : eventAfter digest transformations initial (id :: here) = some (eventId digest id
      (consumed (markingAfter digest transformations initial here) edge)) := by
    rw [eventAfter, listed]
    rfl
  refine ⟨seen, known, queued, fun other => ?_, fun id' before member => ?_⟩
  · rw [events, Std.ExtTreeMap.mem_insert, compare_eq_iff_eq, traced.occurred]
    simp only [List.mem_append, List.mem_singleton, or_and_right, exists_or, exists_eq_left, own,
      Option.some.injEq]
    exact or_comm
  · rw [events]
    rw [List.mem_append, List.mem_singleton] at member
    cases member with
    | inl old =>
      obtain ⟨e, member, same⟩ := traced.labelled id' before old
      obtain ⟨key, found⟩ := Dict.mem_values.mp member
      refine ⟨e, Dict.mem_values.mpr ⟨key, ?_⟩, same⟩
      rw [Std.ExtTreeMap.getElem?_insert, if_neg, found]
      rw [compare_eq_iff_eq]
      rintro rfl
      exact new (Dict.mem_of_getElem? found)
    | inr last =>
      obtain ⟨rfl, -⟩ := List.cons_eq_cons.mp last
      exact ⟨event, Dict.mem_values.mpr ⟨_, Std.ExtTreeMap.getElem?_insert_self⟩, named⟩

theorem Traced.occur (traced : Traced digest transformations initial s
      (processed ++ here :: waiting) waiting words)
    (within : Within (fireBy transformations) initial transformations.keys processed here done
      waiting words)
    (split : transformations.keys = done ++ id :: rest)
    (reached : (after (fireBy transformations) initial here).isSome = true)
    (listed : transformations[id]? = some edge)
    (fires : fireable (places (markingAfter digest transformations initial here)) edge = true)
    (new : eventId digest id (consumed (markingAfter digest transformations initial here) edge) ∉
      s.events) :
    ∃ waiting',
      Within (fireBy transformations) initial transformations.keys processed here (done ++ [id])
        waiting' (words ++ [id :: here]) ∧
      Traced digest transformations initial
        (s.occur digest (markingAfter digest transformations initial here) here.length id edge)
        (processed ++ here :: waiting') waiting' (words ++ [id :: here]) := by
  obtain ⟨marked, reached⟩ := Option.isSome_iff_exists.mp reached
  have marks := @places_markingAfter digest _ _ _ _ reached
  have next : after (fireBy transformations) initial (id :: here) = some (fire marked edge) := by
    rw [after, reached]
    exact fireBy_eq_some.mpr ⟨edge, listed, marks ▸ fires, rfl⟩
  have possible : (after (fireBy transformations) initial (id :: here)).isSome = true := by
    rw [next]
    rfl
  have left := @markingAfter_cons digest transformations initial id edge here listed
  have looked := traced.lookup (fire marked edge) (within.node_earlier (split ▸ Dict.keys_sorted _))
  rw [← @places_markingAfter digest _ _ _ _ next, left] at looked
  by_cases seen : ((s.seenMarkings.lookup (places (nextMarking
      (markingAfter digest transformations initial here) (eventId digest id (consumed
        (markingAfter digest transformations initial here) edge)) edge))).any
          (· ≤ here.length + 1)) = true
  · obtain ⟨marked', waits⟩ := occur_seen seen
    refine ⟨waiting, within.again (split ▸ Dict.keys_sorted _) possible ?_,
      traced.following listed new rfl rfl (marked' ▸ traced.seen) (marked' ▸ traced.known)
        (waits ▸ traced.queued)⟩
    rw [next, ← @places_markingAfter digest _ _ _ _ next, left]
    exact looked.mp seen
  · obtain ⟨marked', waits⟩ := occur_new seen
    have nodes : processed ++ here :: (waiting ++ [id :: here]) =
        (processed ++ here :: waiting) ++ [id :: here] := by simp
    refine ⟨waiting ++ [id :: here], within.follow split (Dict.keys_sorted _) allowed possible ?_,
      traced.following listed new rfl rfl ?_ ?_ ?_⟩
    · intro y node same
      refine seen (looked.mpr ⟨y, node, same.trans ?_⟩)
      rw [next, ← left, places_markingAfter next]
    · rw [marked', nodes, List.forall_mem_cons]
      refine ⟨⟨id :: here, by simp, ?_, rfl⟩, fun p member => ?_⟩
      · rw [next, ← left, places_markingAfter next]
      · obtain ⟨y, node, same⟩ := traced.seen p member
        exact ⟨y, List.mem_append_left _ node, same⟩
    · rw [marked', nodes]
      intro y node
      rw [List.mem_append, List.mem_singleton] at node
      cases node with
      | inl before =>
        obtain ⟨p, member, same⟩ := traced.known y before
        exact ⟨p, List.mem_cons_of_mem _ member, same⟩
      | inr new =>
        refine ⟨_, List.mem_cons_self, ?_⟩
        rw [new, next, ← left, places_markingAfter next]
    · rw [waits, traced.queued, List.map_append, List.map_singleton, left, List.length_cons]

/-- Between two markings the search has followed all that it has processed. -/
def Ready (digest : DigestTuple) (transformations : LegacyNetwork) (initial : Finset Identifier)
    (s : Search) : Prop :=
  s.exhausted = true ∧ s.queue = [] ∨ ∃ processed waiting words,
    Histories.Search (fireBy transformations) initial (processed ++ waiting) words ∧
    words = processed.flatMap
      (extensions (fireBy transformations) initial transformations.keys) ∧
    Traced digest transformations initial s (processed ++ waiting) waiting words

theorem ready_visit (distinct : EventsDistinct digest transformations initial)
    (reached : (after (fireBy transformations) initial here).isSome = true)
    (items : List (Identifier × JsonObject)) :
    (∀ item ∈ items, transformations[item.1]? = some item.2) →
    ∀ {s : Search} {waiting words : List (List Identifier)} {done : List Identifier},
    transformations.keys = done ++ items.map Prod.fst →
    Within (fireBy transformations) initial transformations.keys processed here done waiting words →
    Traced digest transformations initial s (processed ++ here :: waiting) waiting words →
    Ready digest transformations initial (visit digest operationBudget
      (markingAfter digest transformations initial here) here.length items s) := by
  induction items with
  | nil =>
    intro _ s waiting words done split within traced
    rw [List.map_nil, List.append_nil] at split
    rw [← split] at within
    obtain ⟨search, words_eq⟩ := within.leave
    refine .inr ⟨processed ++ [here], waiting, words, search, words_eq, ?_⟩
    rwa [List.append_assoc]
  | cons item items ih =>
    intro listed s waiting words done split within traced
    obtain ⟨known, later⟩ := List.forall_mem_cons.mp listed
    rw [List.map_cons] at split
    have onward : transformations.keys = (done ++ [item.1]) ++ items.map Prod.fst := by
      simp [split]
    have counted : Traced digest transformations initial
        { s with operations := s.operations + 1 } (processed ++ here :: waiting) waiting words :=
      ⟨traced.seen, traced.known, traced.queued, traced.occurred, traced.labelled⟩
    obtain ⟨marked, reached'⟩ := Option.isSome_iff_exists.mp reached
    have marks := @places_markingAfter digest _ _ _ _ reached'
    rw [visit]
    dsimp only
    split_ifs with full stuck old
    · exact .inl ⟨rfl, rfl⟩
    · refine ih later onward (within.skip ?_) counted
      rw [after, reached', Option.bind_some, fireBy, known]
      dsimp only
      rw [if_neg (by rw [← marks, stuck]; exact Bool.false_ne_true)]
      rfl
    · -- an event that occurs again would be the event of another first history
      exfalso
      obtain ⟨x, member, same⟩ := (traced.occurred _).mp old
      have earlier := within.earlier (split ▸ Dict.keys_sorted _) x member
      rw [Bool.not_eq_false] at stuck
      have possible : (after (fireBy transformations) initial (item.1 :: here)).isSome = true := by
        rw [after, reached', Option.bind_some,
          fireBy_eq_some.mpr ⟨item.2, known, marks ▸ stuck, rfl⟩]
        rfl
      have first : Listed (fireBy transformations) initial (item.1 :: here) :=
        ⟨possible, item.1, here, rfl, within.search.least here (by simp)⟩
      have own : eventAfter digest transformations initial (item.1 :: here) = some (eventId digest
          item.1 (consumed (markingAfter digest transformations initial here) item.2)) := by
        rw [eventAfter, known]
        rfl
      have again := distinct x (item.1 :: here) (within.listed x member) first (same.trans own.symm)
      exact earlier_irrefl _ (again ▸ earlier)
    · rw [Bool.not_eq_false] at stuck
      obtain ⟨waiting', within', traced'⟩ := counted.occur within split reached known stuck old
      exact ih later onward within' traced'

theorem ready_searchLoop (distinct : EventsDistinct digest transformations initial) (n : ℕ) :
    ∀ {s result : Search}, Ready digest transformations initial s →
    searchLoop digest transformations operationBudget n s = .ok result →
    Ready digest transformations initial result ∧ result.queue = [] := by
  induction n with
  | zero => exact fun _ run => nomatch run
  | succ n ih =>
    intro s result ready run
    rw [searchLoop] at run
    split at run
    · rename_i done
      cases run
      exact ⟨ready, done⟩
    · rename_i marking depth queue waits
      refine ih ?_ run
      rcases ready with broken | ⟨processed, waiting, words, search, words_eq, traced⟩
      · rw [broken.2] at waits
        cases waits
      have queued := traced.queued
      cases waiting with
      | nil =>
        rw [waits] at queued
        cases queued
      | cons here waiting =>
        rw [waits, List.map_cons, List.cons.injEq, Prod.mk.injEq] at queued
        obtain ⟨⟨rfl, rfl⟩, rest⟩ := queued
        have taken : Traced digest transformations initial { s with queue := queue }
            (processed ++ here :: waiting) waiting words :=
          ⟨traced.seen, traced.known, rest, traced.occurred, traced.labelled⟩
        refine ready_visit distinct (search.least here (by simp)).1 _ (fun item member =>
          Std.ExtTreeMap.mem_toList_iff_getElem?_eq_some.mp member) ?_
          (Within.enter search words_eq) taken
        rw [List.nil_append, Std.ExtTreeMap.map_fst_toList_eq_keys]

theorem ready_start (digest : DigestTuple) (transformations : LegacyNetwork)
    (initial : Finset Identifier) : Ready digest transformations initial (start initial) := by
  refine .inr ⟨[], [[]], [], search_start, rfl, ?_, ?_, rfl, fun event => ?_, by simp⟩
  · intro p member
    rw [List.mem_singleton.mp member]
    exact ⟨[], by simp, rfl, rfl⟩
  · intro y member
    rw [List.nil_append, List.mem_singleton] at member
    exact ⟨(initial, 0), List.mem_singleton_self _, member ▸ rfl⟩
  · simp [start]

/-- If no event recurs, a complete prefix labels what can fire. -/
theorem labels_iff {result : Report} (run : boundedOneSafeOccurrencePrefix digest initial
      transformations operationBudget = .ok result) (complete : result.status = .satisfied)
    (distinct : EventsDistinct digest transformations initial) :
    ∀ id, Labels result id ↔ CanFire transformations initial id := by
  refine fun id => ⟨labels_fire run, fun fires => ?_⟩
  obtain ⟨s, found, rfl⟩ := prefix_ok.mp run
  obtain ⟨marked, reachable, fires⟩ := fires
  obtain ⟨x, reached⟩ := reachable_iff.mp reachable
  obtain ⟨ready, empty⟩ := ready_searchLoop distinct _
    (ready_start digest transformations initial) found
  rcases ready with broken | ⟨processed, waiting, words, search, words_eq, traced⟩
  · rw [report, if_pos broken.1] at complete
    cases complete
  have queued := traced.queued
  rw [empty, eq_comm, List.map_eq_nil_iff] at queued
  subst queued
  rw [List.append_nil] at search
  -- the first history of the marking is followed by this firing
  obtain ⟨y, node, same, -⟩ := search.node_of words_eq allowed (x := x)
    (by rw [reached]; rfl)
  have listed : id :: y ∈ words := by
    rw [words_eq, List.mem_flatMap]
    refine ⟨y, node, mem_extensions.mpr ⟨id, allowed marked id fires, rfl, ?_⟩⟩
    rw [after, same, reached]
    exact fires
  exact traced.labelled id y listed

end complete

namespace Sample

def joined : DigestTuple := String.intercalate "\u0000"

def edge (inputs outputs : List Identifier) : JsonObject :=
  [("inputs", .array (inputs.map .str)), ("outputs", .array (outputs.map .str))]

/-- Two transformations that do not depend on each other. -/
def forked : LegacyNetwork := .ofList [("A", edge ["p"] ["a"]), ("B", edge ["q"] ["b"]),
  ("C", edge ["a", "b"] ["c"])]

def choosing : LegacyNetwork := .ofList [("A", edge ["p"] ["a"]), ("B", edge ["p"] ["b"]),
  ("C", edge ["a"] ["p"])]

theorem complete_of {transformations : LegacyNetwork} {initial : Finset Identifier}
    {labels : List Identifier}
    (computed : (boundedOneSafeOccurrencePrefix joined initial transformations 100).toOption.map
      (fun r => (decide (r.status = .satisfied), r.events.map (·.transformationId))) =
        some (true, labels)) :
    ∃ r, boundedOneSafeOccurrencePrefix joined initial transformations 100 = .ok r ∧
      r.status = .satisfied ∧ ∀ id, Labels r id ↔ id ∈ labels := by
  cases run : boundedOneSafeOccurrencePrefix joined initial transformations 100 with
  | error fault =>
    rw [run] at computed
    cases computed
  | ok r =>
    rw [run] at computed
    obtain ⟨complete, rfl⟩ := Prod.mk.inj (Option.some.inj computed)
    exact ⟨r, rfl, of_decide_eq_true complete, fun id => List.mem_map.symm⟩

theorem choosing_fires {marked next : Finset Identifier} {id : Identifier}
    (known : marked = {"p"} ∨ marked = {"a"} ∨ marked = {"b"})
    (fires : fireBy choosing marked id = some next) :
    marked = {"p"} ∧ id = "A" ∧ next = {"a"} ∨ marked = {"p"} ∧ id = "B" ∧ next = {"b"} ∨
      marked = {"a"} ∧ id = "C" ∧ next = {"p"} := by
  obtain ⟨e, listed, enabled, rfl⟩ := fireBy_eq_some.mp fires
  have entries := Dict.mem_of_ofList listed
  simp only [List.mem_cons, List.not_mem_nil, or_false, Prod.mk.injEq] at entries
  obtain ⟨rfl, rfl⟩ | ⟨rfl, rfl⟩ | ⟨rfl, rfl⟩ := entries <;> obtain rfl | rfl | rfl := known
  all_goals
    revert enabled
    decide +kernel

theorem choosing_after {x : List Identifier} : ∀ {marked : Finset Identifier},
    after (fireBy choosing) {"p"} x = some marked →
    marked = {"p"} ∨ marked = {"a"} ∧ (x = ["A"] ∨ Earlier ["A"] x) ∨
      marked = {"b"} ∧ (x = ["B"] ∨ Earlier ["B"] x) := by
  induction x with
  | nil =>
    intro marked reached
    cases reached
    exact .inl rfl
  | cons id before ih =>
    intro marked reached
    obtain ⟨earlier, reached', fires⟩ := Option.bind_eq_some_iff.mp reached
    have known : earlier = {"p"} ∨ earlier = {"a"} ∨ earlier = {"b"} :=
      (ih reached').imp_right (Or.imp And.left And.left)
    have onward : ∀ {choice : Identifier}, id = choice →
        id :: before = [choice] ∨ Earlier [choice] (id :: before) := by
      rintro _ rfl
      cases before with
      | nil => exact .inl rfl
      | cons => exact .inr (.inl trivial)
    obtain ⟨-, same, rfl⟩ | ⟨-, same, rfl⟩ | ⟨-, -, rfl⟩ := choosing_fires known fires
    · exact .inr (.inl ⟨rfl, onward same⟩)
    · exact .inr (.inr ⟨rfl, onward same⟩)
    · exact .inl rfl

theorem choosing_listed {x : List Identifier} (listed : Listed (fireBy choosing) {"p"} x) :
    x ∈ [["A"], ["B"], ["C", "A"]] := by
  obtain ⟨possible, id, before, rfl, first⟩ := listed
  obtain ⟨marked, reached⟩ := Option.isSome_iff_exists.mp possible
  obtain ⟨earlier, reached', fires⟩ := Option.bind_eq_some_iff.mp reached
  obtain rfl | ⟨rfl, either⟩ | ⟨rfl, -⟩ := choosing_after reached'
  · have start : before = [] := by
      cases before with
      | nil => rfl
      | cons => exact absurd (reached'.symm ▸ rfl) (first.2 [] trivial)
    subst start
    obtain ⟨-, rfl, -⟩ | ⟨-, rfl, -⟩ | ⟨other, -, -⟩ := choosing_fires (.inl rfl) fires
    · simp
    · simp
    · exact absurd other (by decide)
  · have turned : before = ["A"] := either.resolve_right fun less =>
      first.2 ["A"] less ((by decide +kernel : after (fireBy choosing) {"p"} ["A"] =
        some {"a"}).trans reached'.symm)
    subst turned
    obtain ⟨other, -, -⟩ | ⟨other, -, -⟩ | ⟨-, rfl, -⟩ := choosing_fires (.inr (.inl rfl)) fires
    · exact absurd other (by decide)
    · exact absurd other (by decide)
    · simp
  · obtain ⟨other, -, -⟩ | ⟨other, -, -⟩ | ⟨other, -, -⟩ := choosing_fires (.inr (.inr rfl)) fires
    all_goals exact absurd other (by decide)

theorem choosing_distinct : EventsDistinct joined choosing {"p"} := by
  have events : ([["A"], ["B"], ["C", "A"]].map (eventAfter joined choosing {"p"})).Nodup := by
    decide +kernel
  exact fun x y first second same =>
    List.inj_on_of_nodup_map events (choosing_listed first) (choosing_listed second) same

end Sample

theorem labels_iff_sample : ∃ r,
    boundedOneSafeOccurrencePrefix Sample.joined {"p"} Sample.choosing 100 = .ok r ∧
    ∀ id, Labels r id ↔ CanFire Sample.choosing {"p"} id := by
  obtain ⟨r, run, complete, -⟩ :=
    @Sample.complete_of Sample.choosing {"p"} ["A", "B", "C"] (by decide +kernel)
  exact ⟨r, run, labels_iff run complete Sample.choosing_distinct⟩

/-- The complete prefix has no event for a transformation that joins two concurrent outputs. -/
theorem joining_lost : ∃ r,
    boundedOneSafeOccurrencePrefix Sample.joined {"p", "q"} Sample.forked 100 = .ok r ∧
    r.status = .satisfied ∧ CanFire Sample.forked {"p", "q"} "C" ∧ ¬ Labels r "C" := by
  obtain ⟨r, run, complete, labels⟩ :=
    @Sample.complete_of Sample.forked {"p", "q"} ["A", "B"] (by decide +kernel)
  have reached : after (fireBy Sample.forked) {"p", "q"} ["B", "A"] = some {"a", "b"} := by
    decide +kernel
  refine ⟨r, run, complete, ⟨{"a", "b"}, reachable_iff.mpr ⟨_, reached⟩, by decide +kernel⟩, ?_⟩
  rw [labels]
  decide

end LegacyPrefix
end CollectivePhaseControl
