import CollectivePhaseControl.NetworkEnumerations

/-! The bounded occurrence prefix of a network with unit stoichiometry: markings are explored
breadth first, every firing of a transformation is an event with conditions of its own, and a
marking over states that have been marked before is not explored again. -/
namespace CollectivePhaseControl
namespace Prefix

inductive ConditionId where
  | initial (index : ℕ)
  | produced (number : ℕ)
deriving DecidableEq

def ConditionId.text : ConditionId → String
  | initial index => "c-init-" ++ toString index
  | produced number => "c-" ++ toString number

/-- The number of an event; its text is `e-` and the number. -/
abbrev EventId := ℕ

def EventId.text (event : EventId) : String := "e-" ++ toString event

structure Condition where
  conditionId : ConditionId
  stateId : Identifier
  producerEventId : Option EventId

structure RawEvent where
  eventId : EventId
  transformationId : Identifier
  presetConditionIds : List ConditionId
  postsetConditionIds : List ConditionId
  causalPredecessorIds : Finset EventId
  conflictEventIds : List EventId

structure Event where
  eventId : EventId
  transformationId : Identifier
  presetConditionIds : List ConditionId
  postsetConditionIds : List ConditionId
  causalPredecessorIds : List EventId
  conflictEventIds : List EventId

structure OccurrencePrefix where
  conditions : List Condition
  events : List Event
  cutoffEventIds : List EventId
  exhaustive : Bool

abbrev Marking := Dict ConditionId

def Marking.states (marking : Marking) : Finset Identifier := marking.keys.toFinset

/-- The marked states let a transformation fire: its inputs and some catalyst clause are
marked, no inhibitor is, and no output is marked already. -/
def firable (marked : Finset Identifier) (t : TransformationAttestation) : Bool :=
  decide ((flows t).premises ⊆ marked) && t.spec.inhibitors.all (· ∉ marked) &&
    (t.spec.uncatalyzed || t.spec.catalystClauses.isEmpty ||
      t.spec.catalystClauses.any fun clause => clause.all (· ∈ marked)) &&
    decide (Disjoint (flows t).conclusions (marked \ (flows t).premises))

def fire (marked : Finset Identifier) (t : TransformationAttestation) : Finset Identifier :=
  marked \ (flows t).premises ∪ (flows t).conclusions

def preset (marking : Marking) (t : TransformationAttestation) : List ConditionId :=
  ((flows t).premises.sort (· ≤ ·)).filterMap (marking[·]?)

def catalysts (marking : Marking) (t : TransformationAttestation) : List ConditionId :=
  match t.spec.catalystClauses.find? fun clause => clause.all (· ∈ marking.states) with
  | some clause => clause.filterMap (marking[·]?)
  | none => []

def dependencies (marking : Marking) (t : TransformationAttestation) : List ConditionId :=
  preset marking t ++ catalysts marking t

structure Exploration where
  conditions : List Condition
  queue : List (Marking × Finset EventId)
  seenMarkings : List (Finset Identifier × ℕ)
  rawEvents : List RawEvent
  cutoff : List EventId
  exhausted : Bool

namespace Exploration
variable (s : Exploration)

def producer (condition : ConditionId) : Option EventId :=
  (s.conditions.find? (·.conditionId == condition)).bind (·.producerEventId)

def causalOf (event : EventId) : Finset EventId :=
  match s.rawEvents.find? (·.eventId == event) with
  | some previous => previous.causalPredecessorIds
  | none => ∅

def causal (dependencies : List ConditionId) : Finset EventId :=
  let direct := (dependencies.filterMap s.producer).toFinset
  direct ∪ direct.biUnion s.causalOf

def outputs (t : TransformationAttestation) : List Condition :=
  ((flows t).conclusions.sort (· ≤ ·)).mapIdx fun index state =>
    ⟨.produced (s.conditions.length + index), state, some s.rawEvents.length⟩

def successor (marking : Marking) (t : TransformationAttestation) : Marking :=
  (s.outputs t).foldl (fun marking condition => marking.insert condition.stateId
    condition.conditionId) (marking.filter fun state _ => state ∉ (flows t).premises)

def event (marking : Marking) (identifier : Identifier) (t : TransformationAttestation) :
    RawEvent :=
  let causal := s.causal (dependencies marking t)
  { eventId := s.rawEvents.length
    transformationId := identifier
    presetConditionIds := preset marking t
    postsetConditionIds := (s.outputs t).map (·.conditionId)
    causalPredecessorIds := causal
    conflictEventIds := (s.rawEvents.filter fun previous =>
      (preset marking t).any (· ∈ previous.presetConditionIds) && previous.eventId ∉ causal).map
      (·.eventId) }

/-- A firing is a new event; its marking is explored unless its states have been marked at
most as deep. -/
def occur (marking : Marking) (history : Finset EventId) (identifier : Identifier)
    (t : TransformationAttestation) : Exploration :=
  let event := s.event marking identifier t
  let successor := s.successor marking t
  let depth := history.card + 1
  let occurred := { s with
    conditions := s.conditions ++ s.outputs t
    rawEvents := s.rawEvents ++ [event] }
  if (s.seenMarkings.lookup successor.states).any (· ≤ depth) then
    { occurred with cutoff := s.cutoff ++ [event.eventId] }
  else
    { occurred with
      seenMarkings := (successor.states, depth) :: s.seenMarkings
      queue := s.queue ++ [(successor, insert event.eventId history)] }

end Exploration

def maximumEvents : ℕ := 4096

/-- The transformations at one marking; the exploration stops where an event is one too many. -/
def explore (marking : Marking) (history : Finset EventId) :
    List (Identifier × TransformationAttestation) → Exploration → Analysis Exploration
  | [], s => pure s
  | item :: rest, s => do
    spend 1
    if firable marking.states item.2 = false then explore marking history rest s
    else if maximumEvents ≤ s.rawEvents.length then
      pure { s with exhausted := false, queue := [] }
    else explore marking history rest (s.occur marking history item.1 item.2)

/-- `while queue`. -/
def exploreQueue (network : Network) : ℕ → Exploration → Analysis Exploration
  | 0, _ => throw (.crash .diverges)
  | n + 1, s =>
    match s.queue with
    | [] => pure s
    | (marking, history) :: queue => do
      let explored ← explore marking history network.toList { s with queue := queue }
      exploreQueue network n explored

def initialConditions (initialStates : Finset Identifier) : List Condition :=
  (initialStates.sort (· ≤ ·)).mapIdx fun index state => ⟨.initial index, state, none⟩

def initialMarking (initialStates : Finset Identifier) : Marking :=
  .ofList ((initialConditions initialStates).map fun condition =>
    (condition.stateId, condition.conditionId))

def start (initialStates : Finset Identifier) : Exploration where
  conditions := initialConditions initialStates
  queue := [(initialMarking initialStates, ∅)]
  seenMarkings := [((initialMarking initialStates).states, 0)]
  rawEvents := []
  cutoff := []
  exhausted := true

def relate (conflicts : EventId → Finset EventId) (event : RawEvent) : EventId → Finset EventId :=
  fun other => if other ∈ conflicts event.eventId then insert event.eventId (conflicts other)
    else conflicts other

def ownConflicts (rawEvents : List RawEvent) (event : EventId) : Finset EventId :=
  match rawEvents.find? (·.eventId == event) with
  | some raw => raw.conflictEventIds.toFinset
  | none => ∅

def conflictMap (rawEvents : List RawEvent) : EventId → Finset EventId :=
  rawEvents.foldl relate (ownConflicts rawEvents)

/-- `sorted` of identifiers, by their text. -/
def sortedIds (events : Finset EventId) : List EventId :=
  (events.sort (· ≤ ·)).mergeSort fun a b => decide (EventId.text a ≤ EventId.text b)

def finished (s : Exploration) : OccurrencePrefix where
  conditions := s.conditions
  events := s.rawEvents.map fun raw => {
    eventId := raw.eventId
    transformationId := raw.transformationId
    presetConditionIds := raw.presetConditionIds
    postsetConditionIds := raw.postsetConditionIds
    causalPredecessorIds := sortedIds raw.causalPredecessorIds
    conflictEventIds := sortedIds (conflictMap s.rawEvents raw.eventId) }
  cutoffEventIds := s.cutoff
  exhaustive := s.exhausted

def unitStoichiometry (network : Network) : Bool :=
  network.values.all fun t =>
    (t.spec.inputs.values ++ t.spec.outputs.values).all fun value => decide (F value = 1)

/-- `bounded_occurrence_prefix`. Each marking that is explored comes from an event. -/
def boundedOccurrencePrefix (initialStates : Finset Identifier) (network : Network) :
    Analysis OccurrencePrefix := do
  if unitStoichiometry network = false then pure ⟨[], [], [], false⟩
  else
    let s ← exploreQueue network (maximumEvents + 2) (start initialStates)
    pure (finished s)

end Prefix
end CollectivePhaseControl
