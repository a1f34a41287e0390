import CollectivePhaseControl.Histories
import CollectivePhaseControl.PrefixCausality

/-! The exploration of a network searches its firing histories breadth first. An event is one
action after the earliest history of the marked states, and its conditions are those that the
history produced last. -/
namespace CollectivePhaseControl
namespace Prefix

open Histories

section histories
variable (network : Network) (initial : Finset Identifier)

/-- The states that are marked when a transformation has fired, if it can. -/
def fireBy (marked : Finset Identifier) (id : Identifier) : Option (Finset Identifier) :=
  match network[id]? with
  | some t => if firable marked t = true then some (fire marked t) else none
  | none => none

/-- The history up to the last firing that gives a state; an initial state has none. -/
def origin (state : Identifier) : List Identifier → List Identifier
  | [] => []
  | id :: before =>
    match network[id]? with
    | some t => if state ∈ (flows t).conclusions then id :: before else origin state before
    | none => origin state before

def tokens (history states : List Identifier) : List (Identifier × List Identifier) :=
  states.map fun state => (state, origin network state history)

def markedClause (marked : Finset Identifier) (t : TransformationAttestation) :
    List Identifier :=
  (t.spec.catalystClauses.find? fun clause => clause.all (· ∈ marked)).getD []

variable {network initial}

theorem fireBy_eq_some {marked marked' : Finset Identifier} {id : Identifier} :
    fireBy network marked id = some marked' ↔
      ∃ t, network[id]? = some t ∧ firable marked t = true ∧ fire marked t = marked' := by
  unfold fireBy
  cases network[id]? with
  | none => simp
  | some t => simp

theorem fireBy_isSome {marked : Finset Identifier} {id : Identifier} :
    (fireBy network marked id).isSome = true ↔
      ∃ t, network[id]? = some t ∧ firable marked t = true := by
  rw [Option.isSome_iff_exists]
  simp [fireBy_eq_some]

theorem allowed (marked : Finset Identifier) (id : Identifier)
    (fires : (fireBy network marked id).isSome = true) : id ∈ network.keys := by
  obtain ⟨t, listed, -⟩ := fireBy_isSome.mp fires
  rw [Std.ExtTreeMap.mem_keys, Std.ExtTreeMap.mem_iff_isSome_getElem?, listed]
  rfl

theorem catalysts_eq {marking : Marking} {t : TransformationAttestation} :
    catalysts marking t = (markedClause marking.states t).filterMap (marking[·]?) := by
  unfold catalysts markedClause
  cases t.spec.catalystClauses.find? fun clause => clause.all (· ∈ marking.states) <;> simp

theorem markedClause_marked {marked : Finset Identifier} {t : TransformationAttestation} :
    ∀ state ∈ markedClause marked t, state ∈ marked := by
  unfold markedClause
  cases found : t.spec.catalystClauses.find? fun clause => clause.all (· ∈ marked) with
  | none => simp
  | some clause =>
    have all := List.find?_some found
    simpa using all

end histories

def Token (conditions : List Condition) (words : List (List Identifier))
    (token : Identifier × List Identifier) (id : ConditionId) : Prop :=
  ∃ producer, ⟨id, token.1, producer⟩ ∈ conditions ∧
    match producer with
    | none => token.2 = []
    | some event => words[event]? = some token.2

/-- The marking holds the conditions that a history produced last. -/
structure Represents (network : Network) (initial : Finset Identifier)
    (conditions : List Condition) (words : List (List Identifier)) (marking : Marking)
    (history : List Identifier) : Prop where
  reached : after (fireBy network) initial history = some marking.states
  given : ∀ (state : Identifier) (id : ConditionId), marking[state]? = some id →
    Token conditions words (state, origin network state history) id

section tokens
variable {network : Network} {initial : Finset Identifier} {s : Exploration}
  {words : List (List Identifier)} {marking marking' : Marking} {history history' : List Identifier}
  {id : Identifier} {t : TransformationAttestation}

theorem Token.mono {conditions : List Condition} {token : Identifier × List Identifier}
    {condition : ConditionId} (given : Token conditions words token condition)
    (more : List Condition) (next : List (List Identifier)) :
    Token (conditions ++ more) (words ++ next) token condition := by
  obtain ⟨producer, member, history⟩ := given
  refine ⟨producer, List.mem_append_left _ member, ?_⟩
  cases producer with
  | none => exact history
  | some event =>
    have inside := (List.getElem?_eq_some_iff.mp history).1
    dsimp only at history ⊢
    rw [List.getElem?_append_left inside, history]

theorem Represents.mono {conditions : List Condition}
    (represents : Represents network initial conditions words marking history)
    (more : List Condition) (next : List (List Identifier)) :
    Represents network initial (conditions ++ more) (words ++ next) marking history :=
  ⟨represents.reached, fun state id marked => (represents.given state id marked).mono more next⟩

theorem token_biUnique (consistent : Consistent s) (distinct : words.Nodup)
    (fired : [] ∉ words)
    (apart : (s.conditions.map fun c => (c.stateId, c.producerEventId)).Nodup) :
    Relator.BiUnique (Token s.conditions words) := by
  constructor
  · intro token token' condition first second
    obtain ⟨producer, member, history⟩ := first
    obtain ⟨producer', member', history'⟩ := second
    have same := List.inj_on_of_nodup_map consistent.nodup member member' rfl
    rw [Condition.mk.injEq] at same
    obtain ⟨-, state, rfl⟩ := same
    refine Prod.ext state ?_
    cases producer with
    | none => exact history.trans history'.symm
    | some event => exact Option.some.inj (history.symm.trans history')
  · intro token condition condition' first second
    obtain ⟨producer, member, history⟩ := first
    obtain ⟨producer', member', history'⟩ := second
    have same : producer = producer' := by
      cases producer with
      | none =>
        cases producer' with
        | none => rfl
        | some event =>
          dsimp only at history history'
          rw [history] at history'
          exact absurd (List.mem_of_getElem? history') fired
      | some event =>
        dsimp only at history
        cases producer' with
        | none =>
          dsimp only at history'
          rw [history'] at history
          exact absurd (List.mem_of_getElem? history) fired
        | some event' =>
          dsimp only at history'
          have inside := (List.getElem?_eq_some_iff.mp history).1
          rw [(List.getElem?_inj inside distinct).mp (history.trans history'.symm)]
    subst same
    have equal := List.inj_on_of_nodup_map apart member member' rfl
    exact (Condition.mk.injEq _ _ _ _ _ _ ▸ equal).1

theorem Represents.tokens {conditions : List Condition}
    (represents : Represents network initial conditions words marking history)
    {states : List Identifier} (marked : ∀ state ∈ states, state ∈ marking.states) :
    List.Forall₂ (Token conditions words) (tokens network history states)
      (states.filterMap (marking[·]?)) := by
  induction states with
  | nil => exact List.Forall₂.nil
  | cons state states ih =>
    obtain ⟨here, later⟩ := List.forall_mem_cons.mp marked
    have present := Std.ExtTreeMap.getElem?_eq_some_getElem (mem_states.mp here)
    rw [List.filterMap_cons_some present]
    exact List.Forall₂.cons (represents.given state _ present) (ih later)

theorem origin_here {state : Identifier} (listed : network[id]? = some t)
    (given : state ∈ (flows t).conclusions) :
    origin network state (id :: history) = id :: history := by
  rw [origin, listed]
  exact if_pos given

theorem origin_before {state : Identifier} (listed : network[id]? = some t)
    (other : state ∉ (flows t).conclusions) :
    origin network state (id :: history) = origin network state history := by
  rw [origin, listed]
  exact if_neg other

theorem Represents.fire (represents : Represents network initial s.conditions words marking history)
    (listed : network[id]? = some t) (fires : firable marking.states t = true)
    (counted : words.length = s.rawEvents.length) :
    Represents network initial (s.conditions ++ s.outputs t) (words ++ [id :: history])
      (s.successor marking t) (id :: history) := by
  refine ⟨?_, fun state condition marked => ?_⟩
  · rw [after, represents.reached, Option.bind_some, fireBy_eq_some, successor_states]
    exact ⟨t, listed, fires, rfl⟩
  · cases getElem?_foldl_insert marked with
    | inl new =>
      obtain ⟨⟨named, stateId, producer⟩, member, rfl, rfl⟩ := new
      obtain ⟨n, -, produced⟩ := mem_outputs member
      dsimp only at produced
      have given : stateId ∈ (flows t).conclusions := by
        have listed := List.mem_map_of_mem (f := fun c : Condition => c.stateId) member
        rwa [outputs_states, Finset.mem_sort] at listed
      rw [origin_here listed given]
      refine ⟨producer, List.mem_append_right _ member, ?_⟩
      rw [produced, ← counted]
      simp
    | inr kept =>
      obtain ⟨other, old⟩ := kept
      rw [outputs_states, Finset.mem_sort] at other
      rw [Std.ExtTreeMap.getElem?_filter'] at old
      rw [origin_before listed other]
      exact (represents.given state condition (Option.filter_eq_some_iff.mp old).1).mono _ _

end tokens

end Prefix
end CollectivePhaseControl
