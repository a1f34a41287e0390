import CollectivePhaseControl.LegacyNetworks
import CollectivePhaseControl.Histories

/-! The occurrence prefix of the v0.5 format. Markings are searched breadth first, and an
event is a transformation with the conditions that it consumes; an event that has occurred
already is passed by, with the marking that it leads to. -/
namespace CollectivePhaseControl
namespace LegacyPrefix

/-- `digest_tuple` takes a digest of the identifiers joined. -/
abbrev DigestTuple := List String → String

abbrev ConditionId := String
abbrev EventId := String

abbrev Marking := Dict ConditionId

def places (marking : Marking) : Finset Identifier := marking.keys.toFinset

def inputs (edge : JsonObject) : Finset Identifier := idSet (edge.get "inputs")
def outputs (edge : JsonObject) : Finset Identifier := idSet (edge.get "outputs")

/-- The inputs are marked, and no output is that is not an input. -/
def fireable (marked : Finset Identifier) (edge : JsonObject) : Bool :=
  decide (inputs edge ⊆ marked) && decide (Disjoint (outputs edge \ inputs edge) marked)

def initialCondition (place : Identifier) : ConditionId := "condition:initial:" ++ place

def eventId (digest : DigestTuple) (transformationId : Identifier) (consumed : List ConditionId) :
    EventId :=
  "event:" ++ transformationId ++ ":" ++ digest consumed

def producedCondition (event : EventId) (place : Identifier) : ConditionId :=
  "condition:" ++ event ++ ":" ++ place

/-- `tuple(sorted(marking[item] for item in inputs))`. -/
def consumed (marking : Marking) (edge : JsonObject) : List ConditionId :=
  ((inOrder (inputs edge)).filterMap (marking[·]?)).insertionSort (· ≤ ·)

def nextMarking (marking : Marking) (event : EventId) (edge : JsonObject) : Marking :=
  (inOrder (outputs edge)).foldl (fun marking place =>
      marking.insert place (producedCondition event place))
    (marking.filter fun place _ => place ∉ inputs edge)

structure Condition where
  conditionId : ConditionId
  place : Identifier
  producerEvent : Option EventId
deriving DecidableEq

structure Event where
  eventId : EventId
  transformationId : Identifier
  consumedConditions : List ConditionId
  producedConditions : List ConditionId
  depth : ℕ
  cutoff : Bool
deriving DecidableEq

structure Search where
  queue : List (Marking × ℕ)
  seenMarkings : List (Finset Identifier × ℕ)
  conditions : Dict Condition
  events : Dict Event
  consumers : Dict (Finset EventId)
  operations : ℕ
  exhausted : Bool

/-- `consumers.setdefault(condition, set()).add(event)`. -/
def consume (event : EventId) (consumers : Dict (Finset EventId)) (condition : ConditionId) :
    Dict (Finset EventId) :=
  consumers.insert condition (insert event (consumers.getD condition ∅))

/-- A new event; its marking is searched unless it was seen at most as deep. -/
def Search.occur (digest : DigestTuple) (s : Search) (marking : Marking) (depth : ℕ)
    (transformationId : Identifier) (edge : JsonObject) : Search :=
  let taken := consumed marking edge
  let event := eventId digest transformationId taken
  let next := nextMarking marking event edge
  let cutoff := (s.seenMarkings.lookup (places next)).any (· ≤ depth + 1)
  { s with
    events := s.events.insert event {
      eventId := event
      transformationId := transformationId
      consumedConditions := taken
      producedConditions :=
        ((inOrder (outputs edge)).map (producedCondition event)).insertionSort (· ≤ ·)
      depth := depth + 1
      cutoff := cutoff }
    consumers := taken.foldl (consume event) s.consumers
    conditions := (inOrder (outputs edge)).foldl (fun conditions place =>
      conditions.insert (producedCondition event place)
        ⟨producedCondition event place, place, some event⟩) s.conditions
    seenMarkings := if cutoff then s.seenMarkings else (places next, depth + 1) :: s.seenMarkings
    queue := if cutoff then s.queue else s.queue ++ [(next, depth + 1)] }

def visit (digest : DigestTuple) (operationBudget : ℕ) (marking : Marking) (depth : ℕ) :
    List (Identifier × JsonObject) → Search → Search
  | [], s => s
  | (transformationId, edge) :: rest, s =>
    if operationBudget < s.operations + 1 then
      { s with operations := s.operations + 1, exhausted := true, queue := [] }
    else
      let counted := { s with operations := s.operations + 1 }
      if fireable (places marking) edge = false then
        visit digest operationBudget marking depth rest counted
      else if eventId digest transformationId (consumed marking edge) ∈ s.events then
        visit digest operationBudget marking depth rest counted
      else
        visit digest operationBudget marking depth rest
          (counted.occur digest marking depth transformationId edge)

/-- `while queue`. -/
def searchLoop (digest : DigestTuple) (transformations : LegacyNetwork) (operationBudget : ℕ) :
    ℕ → Search → Checked Search
  | 0, _ => .error (.crash .diverges)
  | n + 1, s =>
    match s.queue with
    | [] => .ok s
    | (marking, depth) :: queue =>
      searchLoop digest transformations operationBudget n
        (visit digest operationBudget marking depth transformations.toList { s with queue := queue })

def initialMarking (initial : Finset Identifier) : Marking :=
  .ofList ((inOrder initial).map fun place => (place, initialCondition place))

def start (initial : Finset Identifier) : Search where
  queue := [(initialMarking initial, 0)]
  seenMarkings := [(initial, 0)]
  conditions := .ofList ((inOrder initial).map fun place =>
    (initialCondition place, Condition.mk (initialCondition place) place none))
  events := ∅
  consumers := ∅
  operations := 0
  exhausted := false

/-- `combinations(values, 2)`. -/
def pairs : List EventId → List (EventId × EventId)
  | [] => []
  | left :: rest => rest.map (fun right => (left, right)) ++ pairs rest

def pairLE (a b : EventId × EventId) : Prop := a.1 < b.1 ∨ a.1 = b.1 ∧ a.2 ≤ b.2

instance pairLE_decidable : DecidableRel pairLE := fun a b =>
  inferInstanceAs (Decidable (a.1 < b.1 ∨ a.1 = b.1 ∧ a.2 ≤ b.2))

inductive Status where
  | satisfied | unknownDueToBudget
deriving DecidableEq, Repr

structure Report where
  conditions : List Condition
  events : List Event
  conflicts : List (EventId × EventId)
  cutoffEventIds : List EventId
  operationCount : ℕ
  status : Status

def report (operationBudget : ℕ) (s : Search) : Report where
  conditions := s.conditions.values
  events := s.events.values
  conflicts :=
    (s.consumers.values.flatMap fun events => pairs (inOrder events)).insertionSort pairLE
  cutoffEventIds := (s.events.toList.filter (·.2.cutoff)).map (·.1)
  operationCount := min s.operations operationBudget
  status := if s.exhausted then .unknownDueToBudget else .satisfied

/-- `bounded_one_safe_occurrence_prefix`; every marking but the last takes an operation. -/
def boundedOneSafeOccurrencePrefix (digest : DigestTuple) (initial : Finset Identifier)
    (transformations : LegacyNetwork) (operationBudget : ℕ) : Checked Report := do
  let s ← searchLoop digest transformations operationBudget (operationBudget + 2) (start initial)
  pure (report operationBudget s)

section firing
variable (transformations : LegacyNetwork) (initial : Finset Identifier)

def fire (marked : Finset Identifier) (edge : JsonObject) : Finset Identifier :=
  marked \ inputs edge ∪ outputs edge

/-- The places that are marked when a transformation has fired, if it can. -/
def fireBy (marked : Finset Identifier) (id : Identifier) : Option (Finset Identifier) :=
  match transformations[id]? with
  | some edge => if fireable marked edge then some (fire marked edge) else none
  | none => none

def Reachable : Finset Identifier → Prop :=
  Relation.ReflTransGen (fun marked next => ∃ id, fireBy transformations marked id = some next)
    initial

def CanFire (id : Identifier) : Prop :=
  ∃ marked, Reachable transformations initial marked ∧
    (fireBy transformations marked id).isSome = true

def Labels (report : Report) (id : Identifier) : Prop :=
  ∃ event ∈ report.events, event.transformationId = id

end firing

theorem mem_inOrder {s : Finset Identifier} {x : Identifier} : x ∈ inOrder s ↔ x ∈ s := by
  obtain ⟨⟨xs⟩, distinct⟩ := s
  exact List.mem_insertionSort _

section markings
variable {transformations : LegacyNetwork} {marking : Marking} {edge : JsonObject}
  {event : EventId} {marked next : Finset Identifier} {id place : Identifier}

theorem fireBy_eq_some : fireBy transformations marked id = some next ↔
    ∃ edge, transformations[id]? = some edge ∧ fireable marked edge = true ∧
      fire marked edge = next := by
  unfold fireBy
  cases transformations[id]? with
  | none => simp
  | some edge => simp

theorem mem_places : place ∈ places marking ↔ place ∈ marking := Dict.mem_keys_toFinset

theorem mem_foldl_produced (event : EventId) : ∀ (items : List Identifier) (marking : Marking),
    place ∈ items.foldl (fun marking place =>
      marking.insert place (producedCondition event place)) marking ↔
      place ∈ items ∨ place ∈ marking := by
  intro items
  induction items with
  | nil => simp
  | cons item items ih =>
    intro marking
    rw [List.foldl_cons, ih, Std.ExtTreeMap.mem_insert, List.mem_cons, compare_eq_iff_eq]
    grind

theorem places_nextMarking : places (nextMarking marking event edge) = fire (places marking) edge := by
  ext place
  rw [mem_places, nextMarking, mem_foldl_produced, mem_inOrder, fire, Finset.mem_union,
    Finset.mem_sdiff, mem_places, or_comm]
  refine or_congr_left ?_
  simp [Std.ExtTreeMap.mem_filter]

theorem places_initialMarking (initial : Finset Identifier) :
    places (initialMarking initial) = initial := by
  ext place
  rw [mem_places, initialMarking, Std.ExtTreeMap.mem_ofList]
  simp [mem_inOrder]

end markings

section returns
variable {digest : DigestTuple} {transformations : LegacyNetwork} {operationBudget : ℕ}
  {marking : Marking} {depth : ℕ}

/-- A search that can go on has operations left. -/
structure Budgeted (operationBudget : ℕ) (s : Search) : Prop where
  left : s.queue = [] ∨ s.operations ≤ operationBudget
  bound : s.operations ≤ operationBudget + 1

theorem visit_budgeted (items : List (Identifier × JsonObject)) : ∀ {s : Search},
    s.operations ≤ operationBudget →
    Budgeted operationBudget (visit digest operationBudget marking depth items s) ∧
      s.operations + min 1 items.length ≤
        (visit digest operationBudget marking depth items s).operations := by
  induction items with
  | nil => exact fun within => ⟨⟨.inr within, Nat.le_succ_of_le within⟩, le_rfl⟩
  | cons item items ih =>
    intro s within
    obtain ⟨id, edge⟩ := item
    rw [visit, List.length_cons, Nat.min_eq_left (Nat.le_add_left 1 _)]
    by_cases full : operationBudget < s.operations + 1
    · rw [if_pos full]
      exact ⟨⟨.inl rfl, Nat.succ_le_succ within⟩, le_rfl⟩
    · rw [if_neg full]
      have onward {s' : Search} (counted : s'.operations = s.operations + 1) :
          Budgeted operationBudget (visit digest operationBudget marking depth items s') ∧
            s.operations + 1 ≤ (visit digest operationBudget marking depth items s').operations := by
        obtain ⟨budgeted, more⟩ := @ih s' (counted ▸ Nat.not_lt.mp full)
        rw [counted] at more
        exact ⟨budgeted, (Nat.le_add_right _ _).trans more⟩
      dsimp only
      split_ifs
      · exact onward rfl
      · exact onward rfl
      · exact onward rfl

theorem searchLoop_total (some : transformations.toList ≠ []) (n : ℕ) : ∀ {s : Search},
    Budgeted operationBudget s → operationBudget + 1 < n + s.operations →
    ∃ result, searchLoop digest transformations operationBudget n s = .ok result := by
  induction n with
  | zero =>
    intro s budgeted enough
    exact absurd budgeted.bound (by omega)
  | succ n ih =>
    intro s budgeted enough
    rw [searchLoop]
    cases waits : s.queue with
    | nil => exact ⟨s, rfl⟩
    | cons first queue =>
      have within : s.operations ≤ operationBudget :=
        budgeted.left.resolve_left (by rw [waits]; exact List.cons_ne_nil _ _)
      obtain ⟨marking, depth⟩ := first
      obtain ⟨budgeted', more⟩ := @visit_budgeted digest operationBudget marking depth
        transformations.toList { s with queue := queue } within
      rw [Nat.min_eq_left (List.length_pos_iff.mpr some)] at more
      exact ih budgeted' (by dsimp only at more; omega)

theorem boundedOneSafeOccurrencePrefix_total (initial : Finset Identifier) :
    ∃ result, boundedOneSafeOccurrencePrefix digest initial transformations operationBudget =
      .ok result := by
  have total : ∃ s, searchLoop digest transformations operationBudget (operationBudget + 2)
      (start initial) = .ok s := by
    by_cases some : transformations.toList = []
    · rw [searchLoop, start]
      dsimp only
      rw [some, visit]
      exact ⟨_, rfl⟩
    · exact searchLoop_total some _ ⟨.inr (Nat.zero_le _), Nat.zero_le _⟩ (by simp [start])
  obtain ⟨s, run⟩ := total
  exact ⟨report operationBudget s, by rw [boundedOneSafeOccurrencePrefix, run]; rfl⟩

end returns

end LegacyPrefix
end CollectivePhaseControl
