import CollectivePhaseControl.EpistemicReference

/-! Enumeration of every observation policy, and the comparisons that it gives. Policies
keep all their leaves, so that objectives are taken over complete policies only. -/
namespace CollectivePhaseControl

variable {hash : EpistemicHashing}

structure Policy where
  node : EpistemicPolicyNode
  leaves : Support
  nodes : ℕ

/-- What a policy search does not change. -/
structure PolicySearch (hash : EpistemicHashing) where
  domain : Domain hash
  comparisons : List GrowthComparison
  endpoint : Option ℚ

structure PolicyState where
  budget : SearchBudget
  memo : List ((Digest × ℕ) × List Policy)
  storedNodes : ℕ

def PolicyState.fresh : PolicyState := ⟨.fresh, [], 0⟩

abbrev PolicyM := EStateM Fault PolicyState

def limitCodes : List String :=
  ["epistemic_search_budget", "epistemic_support_budget", "epistemic_history_budget"]

namespace PolicyM

def take (limits : GrowthSearchLimits) (counter : Counter) : PolicyM Bool := fun σ =>
  let (paid, budget) := σ.budget.take limits counter
  .ok paid { σ with budget := budget }

/-- `require(budget.take("expansions", limit), "epistemic_search_budget")`. -/
def chargeExpansion (limits : GrowthSearchLimits) : PolicyM PUnit := do
  if ← take limits .expansions then pure ⟨⟩ else throw (.coded "epistemic_search_budget")

def exhaust : PolicyM PUnit :=
  modify fun σ => { σ with budget := { σ.budget with complete := false } }

def reachDepth (depth : ℕ) : PolicyM PUnit :=
  modify fun σ => { σ with
    budget := { σ.budget with maximumDepth := max σ.budget.maximumDepth depth } }

end PolicyM

/-- What came of an action: its branches, a reason that rules it out, or a limit. -/
inductive Attempt where
  | branches (found : List (Identifier × Support))
  | ruledOut
  | limited

namespace PolicySearch
variable (x : PolicySearch hash)

def limits : GrowthSearchLimits := x.domain.limits

def stop (h : EpistemicHypothesis) : ℚ :=
  match x.endpoint, h.entry with
  | some time, _ => time
  | none, some p => F p.time + F x.domain.contract.spec.continuationHorizon
  | none, none => F x.domain.contract.spec.deadline

variable (hash) in
def leafPolicy (support : Support) : Policy :=
  ⟨⟨hash.support support, none, false, []⟩, support, 1⟩

variable (hash) in
def decisionPolicy (support : Support) (actionId : Identifier) (entry : Bool)
    (branches : List (Identifier × Support)) (children : List Policy) : Policy where
  node := ⟨hash.support support, some actionId, entry,
    (branches.map Prod.fst).zip (children.map (·.node))⟩
  leaves := children.flatMap (·.leaves)
  nodes := 1 + (children.map (·.nodes)).sum

/-- The support as it is and, where it is admissible, with an entry marked. -/
def selections (support : Support) : Checked (List (Bool × Support)) :=
  if x.endpoint = none ∧ ∀ h ∈ support, h.entry = none then
    match x.domain.markEntry support x.comparisons with
    | .ok marked => .ok [(false, support), (true, marked)]
    | .error (.coded code) =>
      if code = "epistemic_hidden_entry" then .ok [(false, support)] else .error (.coded code)
    | .error fault => .error fault
  else .ok [(false, support)]

/-- The package's own errors rule an action out; the limits among them end the search. -/
def judging : Fault → PolicyM Attempt
  | .coded code =>
    if code ∈ limitCodes then do
      PolicyM.exhaust
      pure .limited
    else pure .ruledOut
  | fault => throw fault

def attempt (support : Support) (actionId : Identifier) : PolicyM Attempt :=
  tryCatch (.branches <$> x.domain.advanceCharging (PolicyM.chargeExpansion x.limits) support
    actionId) judging

/-- Decisions over the products of the children, `false` when a limit is met. -/
def assemble (support : Support) (actionId : Identifier) (entry : Bool)
    (branches : List (Identifier × Support)) :
    List (List Policy) → List Policy → PolicyM (List Policy × Bool)
  | [], found => pure (found, true)
  | children :: rest, found => do
    let policy := decisionPolicy hash support actionId entry branches children
    if x.limits.maxWitnessNodes < (← get).storedNodes + policy.nodes then
      PolicyM.exhaust
      pure (found, false)
    else if ← PolicyM.take x.limits .policies then
      modify fun σ => { σ with storedNodes := σ.storedNodes + policy.nodes }
      assemble support actionId entry branches rest (found ++ [policy])
    else pure (found, false)

section enumeration
variable (recur : Support → PolicyM (List Policy))

def tryAction (support : Support) (entry : Bool) (selected : Support) (actionId : Identifier)
    (found : List Policy) : PolicyM (List Policy × Bool) := do
  match ← x.attempt selected actionId with
  | .ruledOut => pure (found, true)
  | .limited => pure (found, false)
  | .branches branches =>
    let choices ← branches.mapM fun b => recur b.2
    if choices.any List.isEmpty then pure (found, true)
    else x.assemble support actionId entry branches (product choices) found

def tryAll (support : Support) :
    List ((Bool × Support) × Identifier) → List Policy → PolicyM (List Policy × Bool)
  | [], found => pure (found, true)
  | choice :: rest, found => do
    let tried ← x.tryAction recur support choice.1.1 choice.1.2 choice.2 found
    if tried.2 then tryAll support rest tried.1 else pure (tried.1, false)

def choices (selections : List (Bool × Support)) : List ((Bool × Support) × Identifier) :=
  selections.flatMap fun selected => x.domain.recipes.keys.map fun actionId => (selected, actionId)

/-- Every policy that acts at a support, kept in the memo when no limit was met. -/
def expand (depth : ℕ) (support : Support) : PolicyM (List Policy) := do
  let selections ← x.selections support
  let tried ← x.tryAll recur support (x.choices selections) []
  modify fun σ => if (tried.2 && σ.budget.complete) = true then
    { σ with memo := ((hash.support support, depth), tried.1) :: σ.memo } else σ
  pure tried.1

def enumerateStep (depth : ℕ) (support : Support) : PolicyM (List Policy) := do
  match (← get).memo.lookup (hash.support support, depth) with
  | some found => pure found
  | none =>
    if ← PolicyM.take x.limits .states then
      PolicyM.reachDepth depth
      if ← x.domain.terminal support x.endpoint then pure [leafPolicy hash support]
      else if x.domain.contract.spec.maxDecisions ≤ depth then pure []
      else if x.domain.depthLimit ≤ depth then
        PolicyM.exhaust
        pure []
      else if ∃ h ∈ support, x.stop h ≤ F h.state.elapsed then pure []
      else x.expand recur depth support
    else pure []

end enumeration

/-- `enumerate` with a bound on the decisions that are left. -/
def enumerateWithin : ℕ → ℕ → Support → PolicyM (List Policy)
  | 0, depth, support => x.enumerateStep (fun _ => pure []) depth support
  | left + 1, depth, support => x.enumerateStep (enumerateWithin left (depth + 1)) depth support

def enumerate (support : Support) (depth : ℕ) : PolicyM (List Policy) :=
  x.enumerateWithin (x.domain.contract.spec.maxDecisions - depth) depth support

/-- A search that starts at what `start` gives. Limits and an inconsistent support leave it
incomplete, with no policy; the second is reported. -/
def searchFrom (start : Checked Support) (depth : ℕ) : PolicyM (List Policy × Bool) :=
  tryCatch (do
    let support ← liftM start
    let policies ← x.enumerate support depth
    pure (policies, false)) fun fault =>
      match fault with
      | .coded code =>
        if code ∈ limitCodes ∨ code = "epistemic_inconsistent_support" then do
          PolicyM.exhaust
          pure ([], decide (code = "epistemic_inconsistent_support"))
        else throw fault
      | fault => throw fault

end PolicySearch

namespace Domain
variable (d : Domain hash)

def bestOf (bound : Bound) (policies : List Policy) : Checked (Option ℚ) := do
  pure (← policies.mapM fun p => d.worstOf bound p.leaves).max?

def restrictedSearch (comparator : GrowthComparator) (endpoint : ℚ) : PolicySearch hash :=
  ⟨d.excluding comparator.excludedInteractions, [], some endpoint⟩

def compareAt (resume : Checked (Option Support)) (depth : ℕ) (comparator : GrowthComparator)
    (endpoint : ℚ) : Checked GrowthComparison := do
  let search := d.restrictedSearch comparator endpoint
  let ((policies, inconsistent), σ) ←
    runFrom (search.searchFrom (resume >>= search.domain.startOf) depth) .fresh
  let lower ← d.bestOf .lower policies
  let upper ← if σ.budget.complete then d.bestOf .upper policies else pure none
  GrowthComparison.validate
    { comparatorId := comparator.comparatorId
      endpoint := str endpoint
      status := if inconsistent then .inconsistent
        else if upper.isSome then .supported else .undetermined
      lowerBound := lower.map str
      upperBound := upper.map str
      search := σ.budget.report d.limits
      matchedBasisDigest := d.digest
      policyDigest := none }

def compareWith (resume : Checked (Option Support)) (depth : ℕ) :
    Checked (List GrowthComparison) :=
  d.comparisonClasses.mapM fun p => d.compareAt resume depth p.1 p.2

/-- The support that a comparison resumes from; without a history there is none. -/
def resume (history : List EpistemicStep) : Checked (Option Support) :=
  if history = [] then pure none
  else do
    let first ← d.compareWith (pure none) 0
    pure (some (← d.replay history first))

/-- `compare_epistemic`: every restricted class at the end of every window, after a history. -/
def compareEpistemic (history : List EpistemicStep) : Checked (List GrowthComparison) :=
  d.compareWith (d.resume history) history.length

end Domain

end CollectivePhaseControl
