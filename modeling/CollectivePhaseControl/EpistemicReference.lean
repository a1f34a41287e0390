import CollectivePhaseControl.EpistemicDomain

/-! Replay of an observed history, and the reference bounds of the restricted classes by
backward induction over supports. Each needs the other: an entry in a history is judged by
the bounds at an earlier point of it, and bounds after a history start from its replay. -/
namespace CollectivePhaseControl

def SearchBudget.take (limits : GrowthSearchLimits) (counter : Counter) (b : SearchBudget) :
    Bool × SearchBudget :=
  if limits.of counter ≤ b.used counter then (false, { b with complete := false })
  else (true, b.increment counter)

abbrev BudgetM := EStateM Fault SearchBudget

def runFrom {σ α : Type} (m : EStateM Fault σ α) (s : σ) : Checked (α × σ) :=
  match m s with
  | .ok a t => .ok (a, t)
  | .error fault _ => .error fault

theorem runFrom_ok {σ α : Type} {m : EStateM Fault σ α} {s t : σ} {a : α} :
    runFrom m s = .ok (a, t) ↔ m s = .ok a t := by
  unfold runFrom
  cases m s <;> simp

namespace BudgetM

/-- `require(budget.take(counter, limit), code)`. -/
def charge (limits : GrowthSearchLimits) (counter : Counter) (code : String) : BudgetM PUnit :=
  fun b =>
    match b.take limits counter with
    | (true, after) => .ok ⟨⟩ after
    | (false, after) => .error (.coded code) after

def reachDepth (depth : ℕ) : BudgetM PUnit :=
  modify fun b => { b with maximumDepth := max b.maximumDepth depth }

end BudgetM

namespace Domain
variable {hash : EpistemicHashing} (d : Domain hash)

def limits : GrowthSearchLimits := d.contract.spec.searchLimits

def depthLimit : ℕ := min d.limits.maxDepth d.epistemic.spec.maxHistory

def worstOf (bound : Bound) (support : Support) : Checked ℚ := do
  least (← support.mapM fun h => attainment d.contract.spec h.state bound)

section reference
variable (endpoint : ℚ) (recur : Support → BudgetM (Option (ℚ × ℚ)))

/-- The package's own errors rule an action out, save two that end the check. -/
def rulingOut {α : Type} : Fault → BudgetM (Option α)
  | .coded code =>
    if code ∈ ["epistemic_support_budget", "epistemic_search_budget"] then throw (.coded code)
    else pure none
  | fault => throw fault

def referenceBranches (support : Support) (actionId : Identifier) :
    BudgetM (Option (List (Identifier × Support))) :=
  tryCatch (some <$> d.advanceCharging
    (BudgetM.charge d.limits .expansions "epistemic_search_budget") support actionId) rulingOut

/-- The least of both bounds over the branches, when every branch has them. -/
def worstPair (children : List (Option (ℚ × ℚ))) : Checked (List (ℚ × ℚ)) :=
  if none ∈ children then .ok []
  else do
    let lower ← least (children.reduceOption.map Prod.fst)
    let upper ← least (children.reduceOption.map Prod.snd)
    pure [(lower, upper)]

def referenceOptions (support : Support) (actionId : Identifier) : BudgetM (List (ℚ × ℚ)) := do
  match ← d.referenceBranches support actionId with
  | none => pure []
  | some found =>
    let children ← found.mapM fun b => recur b.2
    worstPair children

def bestPair (options : List (ℚ × ℚ)) : Option (ℚ × ℚ) :=
  match (options.map Prod.fst).max?, (options.map Prod.snd).max? with
  | some lower, some upper => some (lower, upper)
  | _, _ => none

/-- The closure `value` of `reference_comparisons` at one support. -/
def referenceStep (depth : ℕ) (support : Support) : BudgetM (Option (ℚ × ℚ)) := do
  BudgetM.charge d.limits .states "epistemic_check_budget"
  BudgetM.reachDepth depth
  if ∀ h ∈ support, F h.state.elapsed = endpoint then
    let lower ← d.worstOf .lower support
    let upper ← d.worstOf .upper support
    pure (some (lower, upper))
  else if d.contract.spec.maxDecisions ≤ depth ∨ ∃ h ∈ support, endpoint ≤ F h.state.elapsed then
    pure none
  else
    liftM (require (depth < d.depthLimit) "epistemic_check_budget")
    let options ← d.recipes.keys.mapM fun actionId => d.referenceOptions recur support actionId
    pure (bestPair options.flatten)

end reference

/-- `value` with a bound on the decisions that are left. -/
def referenceValue (endpoint : ℚ) : ℕ → ℕ → Support → BudgetM (Option (ℚ × ℚ))
  | 0, depth, support => d.referenceStep endpoint (fun _ => pure none) depth support
  | left + 1, depth, support =>
    d.referenceStep endpoint (referenceValue endpoint left (depth + 1)) depth support

/-- The support that a comparison starts from: the resumed one, or the initial one. -/
def startOf (resumed : Option Support) : Checked Support :=
  match resumed with
  | some support => pure support
  | none => d.initial

/-- Comparators in the order of their identifiers, each with every window's end. -/
def comparisonClasses : List (GrowthComparator × ℚ) :=
  (d.contract.spec.comparators.insertionSort fun a b => a.comparatorId ≤ b.comparatorId).flatMap
    fun comparator => (windowEnds d.contract.spec).map fun endpoint => (comparator, endpoint)

def referenceAt (resumed : Option Support) (depth : ℕ) (comparator : GrowthComparator)
    (endpoint : ℚ) : Checked GrowthComparison := do
  let restricted := d.excluding comparator.excludedInteractions
  let start ← restricted.startOf resumed
  let (bounds, b) ← runFrom
    (restricted.referenceValue endpoint (d.contract.spec.maxDecisions - depth) depth start) .fresh
  GrowthComparison.validate
    { comparatorId := comparator.comparatorId
      endpoint := str endpoint
      status := if bounds.isSome then .supported else .undetermined
      lowerBound := bounds.map (str ·.1)
      upperBound := bounds.map (str ·.2)
      search := b.report d.limits
      matchedBasisDigest := d.digest
      policyDigest := none }

/-- `reference_comparisons` once its history is replayed. -/
def referenceFrom (resumed : Option Support) (depth : ℕ) : Checked (List GrowthComparison) :=
  d.comparisonClasses.mapM fun p => d.referenceAt resumed depth p.1 p.2

section replay
variable (basisAt : ℕ → Checked (List GrowthComparison)) (comparisons : List GrowthComparison)

/-- The comparisons that judge an entry: those given, or those at its own epoch. -/
def basisOf (step : EpistemicStep) : Checked (List GrowthComparison) :=
  if step.comparisonHistoryLength = 0 then pure comparisons
  else basisAt step.comparisonHistoryLength

def entryStep (support : Support) (step : EpistemicStep) : Checked Support :=
  if step.entry then do d.markEntry support (← basisOf basisAt comparisons step)
  else pure support

def observed (branches : List (Identifier × Support)) (symbol : Identifier) : Checked Support :=
  match branches.lookup symbol with
  | some support => pure support
  | none => .error (.coded "epistemic_observation_mismatch")

def replayStep (index : ℕ) (support : Support) (step : EpistemicStep) : Checked Support := do
  require (step.comparisonHistoryLength ≤ index ∧
    (step.entry = true ∨ step.comparisonHistoryLength = 0)) "epistemic_entry_epoch_invalid"
  let support ← d.entryStep basisAt comparisons support step
  let branches ← d.advance support step.actionId
  observed branches step.observation

def replayFrom : ℕ → List EpistemicStep → Support → Checked Support
  | _, [], support => .ok support
  | index, step :: rest, support => do
    replayFrom (index + 1) rest (← d.replayStep basisAt comparisons index support step)

def replayWith (history : List EpistemicStep) : Checked Support := do
  require (history.length ≤ d.epistemic.spec.maxHistory) "epistemic_history_budget"
  d.replayFrom basisAt comparisons 0 history (← d.initial)

end replay

/-- `reference_comparisons` for histories up to a length. A replay asks for the comparisons
of proper prefixes only, so the length bounds the recursion. -/
def referenceWithin : ℕ → List EpistemicStep → Checked (List GrowthComparison)
  | 0, _ => d.referenceFrom none 0
  | bound + 1, history =>
    if history = [] then d.referenceFrom none 0
    else do
      let first ← d.referenceFrom none 0
      let resumed ← d.replayWith (fun length => referenceWithin bound (history.take length)) first
        history
      d.referenceFrom (some resumed) history.length

def referenceComparisons (history : List EpistemicStep) : Checked (List GrowthComparison) :=
  d.referenceWithin history.length history

/-- `replay`: the hypotheses that a history of visible symbols leaves open. -/
def replay (history : List EpistemicStep) (comparisons : List GrowthComparison) :
    Checked Support :=
  d.replayWith (fun length => d.referenceComparisons (history.take length)) comparisons history

theorem replayStep_congr {basisAt basisAt' : ℕ → Checked (List GrowthComparison)} {index : ℕ}
    (same : ∀ length ≤ index, basisAt length = basisAt' length)
    (comparisons : List GrowthComparison) (support : Support) (step : EpistemicStep) :
    d.replayStep basisAt comparisons index support step =
      d.replayStep basisAt' comparisons index support step := by
  unfold replayStep require
  split
  case isTrue valid =>
    have basis : basisOf basisAt comparisons step = basisOf basisAt' comparisons step := by
      rw [basisOf, basisOf, same _ valid.1]
    rw [entryStep, entryStep, basis]
  case isFalse => rfl

theorem replayFrom_congr {basisAt basisAt' : ℕ → Checked (List GrowthComparison)}
    (comparisons : List GrowthComparison) : ∀ (rest : List EpistemicStep) (index : ℕ)
      (support : Support), (∀ length < index + rest.length, basisAt length = basisAt' length) →
      d.replayFrom basisAt comparisons index rest support =
        d.replayFrom basisAt' comparisons index rest support := by
  intro rest
  induction rest with
  | nil => exact fun _ _ _ => rfl
  | cons step rest ih =>
    intro index support same
    rw [List.length_cons] at same
    rw [replayFrom, replayFrom,
      d.replayStep_congr (fun length bound => same length (by omega)) comparisons support step]
    congr 1
    funext next
    exact ih (index + 1) next fun length bound => same length (by omega)

theorem replayWith_congr {basisAt basisAt' : ℕ → Checked (List GrowthComparison)}
    {history : List EpistemicStep}
    (same : ∀ length < history.length, basisAt length = basisAt' length)
    (comparisons : List GrowthComparison) :
    d.replayWith basisAt comparisons history = d.replayWith basisAt' comparisons history := by
  unfold replayWith
  congr 1
  funext _
  congr 1
  funext support
  exact replayFrom_congr d comparisons history 0 support fun length bound => same length (by omega)

theorem referenceWithin_eq : ∀ (bound : ℕ) (history : List EpistemicStep),
    history.length ≤ bound → d.referenceWithin bound history = d.referenceComparisons history := by
  intro bound
  induction bound using Nat.strong_induction_on with
  | _ bound ih =>
    intro history within
    unfold referenceComparisons
    cases bound with
    | zero =>
      rw [List.length_eq_zero_iff.mp (Nat.le_zero.mp within)]
      rfl
    | succ bound =>
      cases history with
      | nil => simp [referenceWithin]
      | cons step rest =>
        rw [List.length_cons] at within ⊢
        have basis : ∀ length < (step :: rest).length,
            d.referenceWithin bound ((step :: rest).take length) =
              d.referenceWithin rest.length ((step :: rest).take length) := by
          intro length short
          rw [List.length_cons] at short
          have taken : ((step :: rest).take length).length = length := by
            rw [List.length_take, List.length_cons]
            omega
          rw [ih bound (by omega) _ (by omega), ih rest.length (by omega) _ (by omega)]
        rw [referenceWithin, referenceWithin, if_neg (by simp), if_neg (by simp)]
        simp only [replayWith_congr d basis]

/-- `reference_comparisons` as the source writes it, for a history that is not empty. -/
theorem referenceComparisons_eq {history : List EpistemicStep} (some' : history ≠ []) :
    d.referenceComparisons history = d.referenceComparisons [] >>= fun first =>
      d.replay history first >>= fun resumed =>
        d.referenceFrom (some resumed) history.length := by
  obtain ⟨step, rest, rfl⟩ := List.exists_cons_of_ne_nil some'
  have basis : ∀ length < (step :: rest).length,
      d.referenceWithin rest.length ((step :: rest).take length) =
        d.referenceComparisons ((step :: rest).take length) := by
    intro length short
    refine d.referenceWithin_eq _ _ ?_
    rw [List.length_take, List.length_cons] at *
    omega
  rw [referenceComparisons, List.length_cons, referenceWithin, if_neg some']
  simp only [replayWith_congr d basis]
  rfl

end Domain

end CollectivePhaseControl
