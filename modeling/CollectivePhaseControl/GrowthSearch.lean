import CollectivePhaseControl.GrowthRuns
import CollectivePhaseControl.BudgetedSearch

/-! The bounded exact search over policy trees: gates, budget, the enumeration of every
tree of the entry game, and backward induction for one terminal scalar. Both searches
keep a memo and stop early in the same five ways. -/
namespace CollectivePhaseControl

variable (hash : Hashing)

inductive Bound where
  | lower | upper
deriving DecidableEq, Repr

def GrowthInterval.at' (i : GrowthInterval) : Bound → Rational
  | .lower => i.lower
  | .upper => i.upper

def coordinateAttainment (c : GrowthContractSpec) (s : GrowthState) (bound : Bound)
    (key : Identifier) : Checked ℚ := do
  let capacity ← s.capacities.item key
  let domain ← c.domains.item key
  if F domain.target = 0 then .error (.crash .zeroDivision)
  else pure (F (capacity.at' bound) / F domain.target)

def attainment (c : GrowthContractSpec) (s : GrowthState) (bound : Bound) : Checked ℚ := do
  let task ← coordinateAttainment c s bound "task"
  let research ← coordinateAttainment c s bound "research"
  pure (min task research)

/-- `all(F(state.capacities[k].lower) >= F(base[k].upper) * F(factor))`. -/
def grownBy (s : GrowthState) (base : Dict GrowthInterval) :
    List (Identifier × Rational) → Checked Bool
  | [] => .ok true
  | (key, factor) :: rest => do
    let capacity ← s.capacities.item key
    let before ← base.item key
    if F before.upper * F factor ≤ F capacity.lower then grownBy s base rest else pure false

def blockSupported (s : GrowthState) (w : GrowthWindow) : Checked Bool :=
  match s.checkpoints.find? (F ·.time = F w.start) with
  | none => .ok false
  | some first =>
    if F s.elapsed = F w.stop then
      grownBy s first.capacities [("task", w.taskFactor), ("research", w.researchFactor)]
    else .ok false

def anyBlockSupported (s : GrowthState) : List GrowthWindow → Checked Bool
  | [] => .ok false
  | w :: rest => do if ← blockSupported s w then pure true else anyBlockSupported s rest

/-- The attainment beats the comparison's upper bound by more than the margin. -/
def beats (c : GrowthContractSpec) (reached : ℚ) (x : GrowthComparison) : Prop :=
  x.search.complete = true ∧ ∃ upper ∈ x.upperBound, F upper + F c.comparisonMargin < reached

instance (c : GrowthContractSpec) (reached : ℚ) (x : GrowthComparison) :
    Decidable (beats c reached x) := by unfold beats; infer_instance

def entryAllowed (c : GrowthContractSpec) (comparisons : List GrowthComparison) (s : GrowthState) :
    Checked Bool := do
  let here := comparisons.filter (F ·.endpoint = F s.elapsed)
  let reached ← attainment c s .lower
  if 1 ≤ reached then
    if ← anyBlockSupported s c.windows then
      pure (decide ((∀ key ∈ c.requiredEntryEvidence, holdsUntil s.evidence (F s.elapsed) key) ∧
        s.pendingResults = [] ∧
        (∀ id ∈ GrowthState.workIds (s.queue ++ s.obligations), id ∉ c.blockingObligationIds) ∧
        here.length = c.comparators.length ∧ ∀ x ∈ here, beats c reached x))
    else pure false
  else pure false

/-- At a fixed endpoint, or after the whole continuation with both factors met. -/
def terminal (c : GrowthContractSpec) (endpoint : Option ℚ) (s : GrowthState)
    (entry : Option GrowthCheckpoint) : Checked Bool :=
  match endpoint, entry with
  | some time, _ => .ok (decide (F s.elapsed = time))
  | none, none => .ok false
  | none, some p =>
    if F s.elapsed = F p.time + F c.continuationHorizon then
      grownBy s p.capacities
        [("task", c.continuationTaskFactor), ("research", c.continuationResearchFactor)]
    else .ok false

structure Candidate where
  node : GrowthPolicyNode
  terminals : List GrowthState
  entries : List ℚ
  nodeCount : ℕ

structure ScalarSolution where
  lower : ℚ
  upper : ℚ
  candidate : Candidate

def leafNode (digest : Digest) : GrowthPolicyNode := ⟨digest, none, false, [], ∅⟩

def entryTimes (entry : Option GrowthCheckpoint) : List ℚ := entry.toList.map (F ·.time)

def leaf (digest : Digest) (s : GrowthState) (entry : Option GrowthCheckpoint) : Candidate :=
  ⟨leafNode digest, [s], entryTimes entry, 1⟩

def effectDigests (effects : List GrowthSuccessor) : Dict Digest :=
  .ofList (effects.map fun e => (e.successorId, hash.successor e))

/-- A decision node over one child for each effect, effects in key order. -/
def decisionNode (digest : Digest) (actionId : Identifier) (entered : Bool)
    (effects : List GrowthSuccessor) (children : List Candidate) : GrowthPolicyNode where
  stateDigest := digest
  actionId := some actionId
  entry := entered
  branches := (effects.map (·.successorId)).zip (children.map (·.node))
  effectDigests := effectDigests hash effects

def decision (digest : Digest) (actionId : Identifier) (entered : Bool)
    (effects : List GrowthSuccessor) (children : List Candidate) : Candidate where
  node := decisionNode hash digest actionId entered effects children
  terminals := children.flatMap (·.terminals)
  entries := children.flatMap (·.entries)
  nodeCount := 1 + (children.map (·.nodeCount)).sum

/-- `itertools.product`: the last factor varies fastest. -/
def product {α : Type} : List (List α) → List (List α)
  | [] => [[]]
  | xs :: rest => xs.flatMap fun x => (product rest).map (x :: ·)

inductive Counter where
  | states | expansions | policies
deriving DecidableEq, Repr

structure SearchBudget where
  states : ℕ
  expansions : ℕ
  policies : ℕ
  maximumDepth : ℕ
  complete : Bool
deriving DecidableEq

namespace SearchBudget

def fresh : SearchBudget := ⟨0, 0, 0, 0, true⟩

def used (b : SearchBudget) : Counter → ℕ
  | .states => b.states
  | .expansions => b.expansions
  | .policies => b.policies

def increment (b : SearchBudget) : Counter → SearchBudget
  | .states => { b with states := b.states + 1 }
  | .expansions => { b with expansions := b.expansions + 1 }
  | .policies => { b with policies := b.policies + 1 }

def report (b : SearchBudget) (limits : GrowthSearchLimits) : GrowthSearchReport :=
  ⟨b.complete, b.states, b.expansions, b.policies, b.maximumDepth, limits⟩

end SearchBudget

def GrowthSearchLimits.of (limits : GrowthSearchLimits) : Counter → ℕ
  | .states => limits.maxStates
  | .expansions => limits.maxExpansions
  | .policies => limits.maxPolicies

abbrev MemoKey := Digest × ℕ × Option Digest

structure SearchState where
  budget : SearchBudget
  counterexamples : List String
  memo : List (MemoKey × List Candidate)
  scalarMemo : List ((Digest × ℕ) × Option ScalarSolution)

def SearchState.fresh : SearchState := ⟨.fresh, [], [], []⟩

abbrev SearchM := EStateM Fault SearchState

/-- What a search does not change. -/
structure Search where
  contract : GrowthContract
  objects : Objects
  excluded : List Identifier
  endpoint : Option ℚ
  comparisons : List GrowthComparison
  frontier : Frontier

namespace Search
variable (x : Search)

def limits : GrowthSearchLimits := x.contract.spec.searchLimits

def take (counter : Counter) : SearchM Bool := fun σ =>
  if x.limits.of counter ≤ σ.budget.used counter then
    .ok false { σ with budget := { σ.budget with complete := false } }
  else .ok true { σ with budget := σ.budget.increment counter }

def exhaust : SearchM PUnit :=
  modify fun σ => { σ with budget := { σ.budget with complete := false } }

def reachDepth (depth : ℕ) : SearchM PUnit :=
  modify fun σ => { σ with
    budget := { σ.budget with maximumDepth := max σ.budget.maximumDepth depth } }

def blame (code : String) : SearchM PUnit :=
  modify fun σ => { σ with counterexamples := code :: σ.counterexamples }

def sortedRecipes : Checked (List (Identifier × GrowthAction)) := do
  let named ← namedCatalogue x.contract.spec x.objects
  pure (named.insertionSort fun a b => a.1 ≤ b.1)

def allowed (recipes : List (Identifier × GrowthAction)) : List (Identifier × GrowthAction) :=
  recipes.filter fun p => ∀ interaction ∈ p.2.interactions, interaction ∉ x.excluded

def entryStop (entry : Option GrowthCheckpoint) (otherwise : ℚ) : ℚ :=
  match entry with
  | some p => F p.time + F x.contract.spec.continuationHorizon
  | none => otherwise

def stop (entry : Option GrowthCheckpoint) : ℚ :=
  match x.endpoint with
  | some time => time
  | none => x.entryStop entry (F x.contract.spec.deadline)

/-- The entry carried on, and a new one where a new one is admissible. -/
def selectable (s : GrowthState) (entry : Option GrowthCheckpoint) :
    Checked (List (Option GrowthCheckpoint)) := do
  if entry = none ∧ x.endpoint = none then
    if ← entryAllowed x.contract.spec x.comparisons s then
      pure [entry, some ⟨s.elapsed, s.capacities⟩]
    else pure [entry]
  else pure [entry]

/-- The package's own errors rule an action out; others end the search. -/
def blaming {α : Type} (otherwise : α) : Fault → SearchM α
  | .coded code => do
    blame code
    pure otherwise
  | fault => throw fault

/-- The choices in turn, each adding to the options, until an attempt says that a counter
ran out. -/
def attempts {α β : Type} (attempt : α → List β → SearchM (List β × Bool)) :
    List α → List β → SearchM (List β × Bool)
  | [], options => pure (options, true)
  | choice :: rest, options => do
    let (options, going) ← tryCatch (attempt choice options) (blaming (options, true))
    if going then attempts attempt rest options else pure (options, false)

section enumeration
variable (recur : GrowthState → Option GrowthCheckpoint → SearchM (List Candidate))

/-- The options of every effect in turn, up to the first without any. `none` when the
expansions ran out. -/
def childOptions (s : GrowthState) (recipe : GrowthAction) (selected : Option GrowthCheckpoint)
    (stop : ℚ) : List GrowthSuccessor → SearchM (Option (List (List Candidate)))
  | [] => pure (some [])
  | effect :: rest => do
    if ← x.take .expansions then
      let next ← transition hash x.contract s recipe effect x.objects x.frontier
      let options ← if x.entryStop selected stop < F next.elapsed then pure []
        else recur next selected
      if options.isEmpty then pure (some [options])
      else
        match ← childOptions s recipe selected stop rest with
        | none => pure none
        | some others => pure (some (options :: others))
    else pure none

/-- Decision nodes over the products, `false` when the policies ran out. -/
def assemble (digest : Digest) (actionId : Identifier) (entered : Bool)
    (effects : List GrowthSuccessor) :
    List (List Candidate) → List Candidate → SearchM (List Candidate × Bool)
  | [], options => pure (options, true)
  | children :: rest, options => do
    if ← x.take .policies then
      let candidate := decision hash digest actionId entered effects children
      if x.limits.maxWitnessNodes < candidate.nodeCount then
        exhaust
        blame "growth_witness_limit"
        assemble digest actionId entered effects rest options
      else assemble digest actionId entered effects rest (options ++ [candidate])
    else pure (options, false)

def tryRecipe (s : GrowthState) (digest : Digest) (entry selected : Option GrowthCheckpoint)
    (recipe : GrowthAction) (options : List Candidate) : SearchM (List Candidate × Bool) := do
  let (action, _) ← applicable hash x.contract s recipe x.objects x.frontier
  let effects := successors s recipe
  require (effects ≠ []) "growth_successor_incomplete"
  match ← childOptions hash x recur s recipe selected (x.stop entry) effects with
  | none => pure (options, false)
  | some lists =>
    assemble hash x digest action.actionId (entry.isNone && selected.isSome) effects
      (product lists) options

/-- The choices at a state that is neither terminal nor too late. -/
def expand (s : GrowthState) (digest : Digest) (entry : Option GrowthCheckpoint) :
    SearchM (List Candidate × Bool) := do
  let entries ← x.selectable s entry
  let recipes ← x.sortedRecipes
  let choices := entries.flatMap fun selected =>
    (x.allowed recipes).map fun p => (selected, p.2)
  attempts (fun choice => tryRecipe hash x recur s digest entry choice.1 choice.2) choices []

def enumerateStep (depth remaining : ℕ) (s : GrowthState) (entry : Option GrowthCheckpoint) :
    SearchM (List Candidate) := do
  let digest ← stateDigest hash s
  let key : MemoKey := (digest, depth, entry.map hash.checkpoint)
  match (← get).memo.lookup key with
  | some found => pure found
  | none =>
    if ← x.take .states then
      reachDepth depth
      if ← terminal x.contract.spec x.endpoint s entry then pure [leaf digest s entry]
      else if x.stop entry ≤ F s.elapsed ∨ remaining = 0 then pure []
      else if x.limits.maxDepth ≤ depth then
        exhaust
        pure []
      else
        let (options, finished) ← expand hash x recur s digest entry
        modify fun σ => if finished && σ.budget.complete then
          { σ with memo := (key, options) :: σ.memo } else σ
        pure options
    else pure []

end enumeration

/-- All policies from a state with `remaining` of the contract's decisions left. -/
def enumerate : ℕ → GrowthState → Option GrowthCheckpoint → SearchM (List Candidate)
  | 0 => enumerateStep hash x (fun _ _ => pure []) x.contract.spec.maxDecisions 0
  | remaining + 1 => enumerateStep hash x (enumerate remaining)
      (x.contract.spec.maxDecisions - (remaining + 1)) (remaining + 1)

end Search

end CollectivePhaseControl
