import CollectivePhaseControl.GrowthRestricted

/-! Comparators. Each restricted class is searched from the charged start at the end of
every window, and the entry gate has to beat the upper bounds that come out. -/
namespace CollectivePhaseControl

open BudgetedSearch

variable {hash : Hashing} {x : Search}

/-- `input_digest`: the contract, the objects in digest order and the frontier. -/
def inputDigest (hash : Hashing) (contract : GrowthContract) (objects : Objects)
    (frontier : Frontier) : Digest :=
  hash.inputs (contractDigest hash contract)
    ((objects.values.map hash.document).insertionSort (· ≤ ·)) (frontier.map (frontierDigest hash))

def restrictedSearch (contract : GrowthContract) (objects : Objects) (frontier : Frontier)
    (excluded : List Identifier) (endpoint : ℚ) : Search :=
  { contract, objects, excluded, endpoint := some endpoint, comparisons := [], frontier }

/-- A search on a fresh budget, with the budget and the memo it leaves. -/
def runFresh {α : Type} (m : SearchM α) : Checked (α × SearchState) :=
  match m .fresh with
  | .ok a σ => .ok (a, σ)
  | .error fault _ => .error fault

namespace GrowthComparison

def rationals (comparison : GrowthComparison) : List Rational :=
  comparison.endpoint :: comparison.lowerBound.toList ++ comparison.upperBound.toList

def validate (comparison : GrowthComparison) : Checked GrowthComparison :=
  if ∀ r ∈ comparison.rationals, r.accepted then .ok comparison
  else .error (.crash .validationError)

theorem validate_ok {comparison valid : GrowthComparison} (h : comparison.validate = .ok valid) :
    comparison = valid := by
  unfold validate at h
  split at h
  · exact Except.ok.inj h
  · exact nomatch h

end GrowthComparison

/-- `search.scalar(start) if start.model_ids else None`. -/
def scalarFrom (hash : Hashing) (x : Search) (start : GrowthState) :
    Checked (Option ScalarSolution × SearchState) :=
  if start.modelIds ≠ [] then runFresh (x.scalar hash x.contract.spec.maxDecisions start)
  else .ok (none, .fresh)

/-- One restricted class against one endpoint. An upper bound needs the complete budget. -/
def compareAt (hash : Hashing) (contract : GrowthContract) (objects : Objects)
    (frontier : Frontier) (start : GrowthState) (comparator : GrowthComparator) (endpoint : ℚ) :
    Checked GrowthComparison := do
  let (solution, σ) ← scalarFrom hash
    (restrictedSearch contract objects frontier comparator.excludedInteractions endpoint) start
  let upper := if σ.budget.complete then solution.map (·.upper) else none
  GrowthComparison.validate
    { comparatorId := comparator.comparatorId
      endpoint := str endpoint
      status := if start.modelIds = [] then .inconsistent
        else if upper.isSome then .supported else .undetermined
      lowerBound := solution.map (str ·.lower)
      upperBound := upper.map str
      search := σ.budget.report contract.spec.searchLimits
      matchedBasisDigest := inputDigest hash contract objects frontier
      policyDigest := solution.map (hash.node ·.candidate.node) }

def windowEnds (c : GrowthContractSpec) : List ℚ := sortedTimes (c.windows.map (F ·.stop))

def checkFrontier (hash : Hashing) (contract : GrowthContract) (objects : Objects) :
    Frontier → Checked Unit
  | some f => validateFrontier hash contract objects f
  | none => .ok ()

/-- `compare`: every restricted class at the end of every window, from the charged start. -/
def compareGrowth (hash : Hashing) (contract : GrowthContract) (objects : Objects)
    (frontier : Frontier) : Checked (List GrowthComparison) := do
  validateContract hash contract objects
  checkFrontier hash contract objects frontier
  let start ← initialState hash contract frontier
  let comparators := contract.spec.comparators.insertionSort fun a b =>
    a.comparatorId ≤ b.comparatorId
  let classes := comparators.flatMap fun comparator =>
    (windowEnds contract.spec).map fun endpoint => (comparator, endpoint)
  classes.mapM fun p => compareAt hash contract objects frontier start p.1 p.2

section bounds
variable {contract : GrowthContract} {objects : Objects} {frontier : Frontier}

theorem runFresh_scalar (free : CollisionFree hash x.contract x.objects x.frontier)
    {start : GrowthState} (reachable : Reachable hash x.contract x.objects x.frontier start)
    {result : Option ScalarSolution} {σ : SearchState}
    (run : runFresh (x.scalar hash x.contract.spec.maxDecisions start) = .ok (result, σ))
    (complete : σ.budget.complete = true) :
    solve hash x x.contract.spec.maxDecisions start = .ok result := by
  have fresh : ScalarSound hash x .fresh := fun _ _ impossible => nomatch impossible
  obtain ⟨-, answer⟩ := computes_scalar free le_rfl reachable .fresh fresh
  unfold runFresh at run
  cases ran : x.scalar hash x.contract.spec.maxDecisions start .fresh with
  | error fault τ =>
    rw [ran] at run
    cases run
  | ok a τ =>
    rw [ran] at run answer
    cases run
    exact (answer complete).2.symm

theorem guaranteed_eq_empty (facts : ContractFacts x.contract.spec x.objects) {bound : Bound}
    {n : ℕ} {s : GrowthState} (reachable : Reachable hash x.contract x.objects x.frontier s) :
    guaranteed hash x bound n s = ∅ ↔ ¬ ∃ node leaves, Restricted hash x n node s leaves := by
  rw [Set.eq_empty_iff_forall_notMem]
  constructor
  · rintro nothing ⟨node, leaves, restricted⟩
    obtain ⟨some', within⟩ := restricted.reachable reachable
    obtain ⟨v, least⟩ := worst_total some' fun leaf member =>
      attainment_total facts (within leaf member).admitted.2 bound
    exact nothing v ⟨node, leaves, restricted, least⟩
  · rintro nothing v ⟨node, leaves, restricted, -⟩
    exact nothing ⟨node, leaves, restricted⟩

theorem Solved.result (facts : ContractFacts x.contract.spec x.objects) {n : ℕ} {s : GrowthState}
    (reachable : Reachable hash x.contract x.objects x.frontier s) {result : Option ScalarSolution}
    (solved : Solved hash x n s result) :
    (result = none ↔ ¬ ∃ node leaves, Restricted hash x n node s leaves) ∧
      ∀ solution ∈ result,
        (∀ bound, IsGreatest (guaranteed hash x bound n s) (solution.at' bound)) ∧
          Attains hash x n s solution := by
  cases result with
  | none =>
    refine ⟨⟨fun _ => ?_, fun _ => rfl⟩, fun _ absurd' => nomatch absurd'⟩
    exact (guaranteed_eq_empty facts reachable).mp (solved.best .lower)
  | some solution =>
    refine ⟨⟨(nomatch ·), fun nothing => ?_⟩, ?_⟩
    · exact absurd ⟨_, _, (solved.attains solution rfl).restricted⟩ nothing
    · rintro _ ⟨⟩
      exact ⟨solved.best, solved.attains solution rfl⟩

theorem anyBlockSupported_ok {s : GrowthState} : ∀ {windows : List GrowthWindow},
    anyBlockSupported s windows = .ok true → ∃ w ∈ windows, F s.elapsed = F w.stop := by
  intro windows
  induction windows with
  | nil => exact fun h => nomatch h
  | cons w windows ih =>
    intro h
    simp only [anyBlockSupported, bind_ok] at h
    obtain ⟨supported, block, rest⟩ := h
    cases supported with
    | true =>
      refine ⟨w, List.mem_cons_self, ?_⟩
      unfold blockSupported at block
      split at block
      · exact nomatch block
      · split at block
        case isTrue ended => exact ended
        case isFalse => exact nomatch block
    | false =>
      obtain ⟨other, listed, ended⟩ := ih rest
      exact ⟨other, List.mem_cons_of_mem _ listed, ended⟩

theorem entryAllowed_ok {c : GrowthContractSpec} {comparisons : List GrowthComparison}
    {s : GrowthState} (h : entryAllowed c comparisons s = .ok true) :
    ∃ reached, attainment c s .lower = .ok reached ∧ F s.elapsed ∈ windowEnds c ∧
      ∀ comparison ∈ comparisons, F comparison.endpoint = F s.elapsed →
        beats c reached comparison := by
  simp only [entryAllowed, bind_ok] at h
  obtain ⟨reached, value, rest⟩ := h
  split at rest
  case isFalse => exact nomatch rest
  simp only [bind_ok] at rest
  obtain ⟨supported, block, rest⟩ := rest
  cases supported with
  | false => exact nomatch rest
  | true =>
    obtain ⟨w, listed, ended⟩ := anyBlockSupported_ok block
    simp only [if_true, pure_ok, decide_eq_true_eq] at rest
    obtain ⟨-, -, -, -, all⟩ := rest
    refine ⟨reached, value, ?_, fun comparison member here => all comparison ?_⟩
    · rw [windowEnds, sortedTimes, List.mem_insertionSort, List.mem_dedup, ended]
      exact List.mem_map_of_mem listed
    · exact List.mem_filter.mpr ⟨member, by simpa using here⟩

theorem compareAt_ok (facts : ContractFacts contract.spec objects)
    (free : CollisionFree hash contract objects frontier) {start : GrowthState}
    (reachable : Reachable hash contract objects frontier start) {comparator : GrowthComparator}
    {endpoint : ℚ} {comparison : GrowthComparison}
    (h : compareAt hash contract objects frontier start comparator endpoint = .ok comparison) :
    F comparison.endpoint = endpoint ∧ ∀ upper ∈ comparison.upperBound,
      ∀ v ∈ guaranteed hash (restrictedSearch contract objects frontier
        comparator.excludedInteractions endpoint) .upper contract.spec.maxDecisions start,
        v ≤ F upper := by
  simp only [compareAt, bind_ok] at h
  obtain ⟨⟨solution, σ⟩, searched, valid⟩ := h
  cases GrowthComparison.validate_ok valid
  refine ⟨F_str endpoint, fun upper found v member => ?_⟩
  simp only [Option.mem_map] at found
  obtain ⟨u, best, rfl⟩ := found
  split at best
  case isFalse => exact nomatch best
  obtain ⟨result, chosen, rfl⟩ := Option.mem_map.mp best
  rw [F_str]
  unfold scalarFrom at searched
  split at searched
  case isFalse =>
    cases searched
    exact nomatch chosen
  case isTrue =>
    let y := restrictedSearch contract objects frontier comparator.excludedInteractions endpoint
    have solved : Solved hash y contract.spec.maxDecisions start solution :=
      solve_solved facts rfl reachable (runFresh_scalar free reachable searched ‹_›)
    obtain ⟨greatest, -⟩ := (solved.result facts reachable).2 result chosen
    exact (greatest .upper).2 member

theorem compareGrowth_ok {comparisons : List GrowthComparison}
    (h : compareGrowth hash contract objects frontier = .ok comparisons) :
    ∃ start, initialState hash contract frontier = .ok start ∧
      ∀ comparator ∈ contract.spec.comparators, ∀ endpoint ∈ windowEnds contract.spec,
        ∃ comparison ∈ comparisons,
          compareAt hash contract objects frontier start comparator endpoint = .ok comparison := by
  simp only [compareGrowth, bind_ok] at h
  obtain ⟨-, -, -, -, start, prepaidStart, compared⟩ := h
  refine ⟨start, prepaidStart, fun comparator listed endpoint ended => ?_⟩
  refine forall₂_mem_left (mapM_ok.mp compared) (comparator, endpoint) ?_
  rw [List.mem_flatMap]
  exact ⟨comparator, (List.mem_insertionSort _).mpr listed, List.mem_map_of_mem ended⟩

end bounds

/-- Comparator bounds are the best worst cases of the restricted class, and an open entry
gate beats every tree of every class. -/
theorem comparator_bounds {contract : GrowthContract} {objects : Objects} {frontier : Frontier}
    (valid : validateContract hash contract objects = .ok ())
    (free : CollisionFree hash contract objects frontier) :
    (∀ excluded endpoint start result σ, Reachable hash contract objects frontier start →
      runFresh ((restrictedSearch contract objects frontier excluded endpoint).scalar hash
        contract.spec.maxDecisions start) = .ok (result, σ) → σ.budget.complete = true →
      (result = none ↔ ¬ ∃ node leaves, Restricted hash
        (restrictedSearch contract objects frontier excluded endpoint) contract.spec.maxDecisions
        node start leaves) ∧
      ∀ solution ∈ result,
        (∀ bound, IsGreatest (guaranteed hash
          (restrictedSearch contract objects frontier excluded endpoint) bound
          contract.spec.maxDecisions start) (solution.at' bound)) ∧
        Attains hash (restrictedSearch contract objects frontier excluded endpoint)
          contract.spec.maxDecisions start solution) ∧
    ∀ comparisons start s, compareGrowth hash contract objects frontier = .ok comparisons →
      initialState hash contract frontier = .ok start →
      entryAllowed contract.spec comparisons s = .ok true →
      ∃ reached, attainment contract.spec s .lower = .ok reached ∧
        ∀ comparator ∈ contract.spec.comparators, ∀ v ∈ guaranteed hash
          (restrictedSearch contract objects frontier comparator.excludedInteractions
            (F s.elapsed)) .upper contract.spec.maxDecisions start,
          v + F contract.spec.comparisonMargin < reached := by
  have facts := validateContract_ok hash valid
  constructor
  · intro excluded endpoint start result σ reachable run complete
    let x := restrictedSearch contract objects frontier excluded endpoint
    have solved : Solved hash x contract.spec.maxDecisions start result :=
      solve_solved facts rfl reachable (runFresh_scalar free reachable run complete)
    exact solved.result facts reachable
  · intro comparisons start s compared prepaidStart gate
    obtain ⟨reached, value, ended, beaten⟩ := entryAllowed_ok gate
    obtain ⟨start', prepaidStart', each⟩ := compareGrowth_ok compared
    cases prepaidStart.symm.trans prepaidStart'
    refine ⟨reached, value, fun comparator listed v member => ?_⟩
    obtain ⟨comparison, inComparisons, at'⟩ := each comparator listed _ ended
    have reachable : Reachable hash contract objects frontier start :=
      ⟨[], start, prepaidStart, .nil start⟩
    obtain ⟨endpoint, upper⟩ := compareAt_ok facts free reachable at'
    obtain ⟨-, u, found, margin⟩ := beaten comparison inComparisons endpoint
    have below := upper u found v member
    linarith

namespace Sample

def nexts (s : GrowthState) : List GrowthState :=
  terms.actionCatalogue.flatMap fun recipe => (successors s recipe).filterMap fun effect =>
    (transition digests contract s recipe effect objects none).toOption

def ledgers : List GrowthState := start :: nexts start ++ (nexts start).flatMap nexts

theorem ledgers_closed : ∀ s ∈ ledgers, ∀ t ∈ nexts s, t ∈ ledgers := by decide +kernel

theorem reachable_ledgers {s : GrowthState} (reachable : Reachable digests contract objects none s) :
    s ∈ ledgers := by
  obtain ⟨moves, first, prepaidStart, run⟩ := reachable
  cases prepaidStart.symm.trans start_ok
  refine run.invariant (I := (· ∈ ledgers)) ?_ List.mem_cons_self
  rintro s ⟨recipe, effect⟩ t inLedgers ⟨listed, moved⟩
  obtain ⟨-, -, -, -, declared, -⟩ := transition_ok moved
  refine ledgers_closed s inLedgers t ?_
  rw [nexts, List.mem_flatMap]
  refine ⟨recipe, listed, List.mem_filterMap.mpr ⟨effect, declared, ?_⟩⟩
  rw [show transition digests contract s recipe effect objects none = .ok t from moved]
  rfl

theorem collisionFree : CollisionFree digests contract objects none := by
  have states : ∀ s ∈ ledgers, ∀ t ∈ ledgers, digests.state s = digests.state t → s = t := by
    decide +kernel
  refine ⟨fun s t reached reached' same =>
    states s (reachable_ledgers reached) t (reachable_ledgers reached') same,
    fun s t reached reached' same => ?_⟩
  rw [states s (reachable_ledgers reached) t (reachable_ledgers reached') same]

def waiting : Search := restrictedSearch contract objects none ["reuse"] 1

theorem waited : (fun p : Option ScalarSolution × SearchState =>
    (p.1.map (·.upper), p.2.budget.complete)) <$>
      runFresh (waiting.scalar digests 2 start) = .ok (some (1 / 2), true) := by decide +kernel

end Sample

theorem comparator_bounds_sample :
    IsGreatest (guaranteed Sample.digests Sample.waiting .upper 2 Sample.start) (1 / 2) := by
  obtain ⟨⟨result, σ⟩, run, same⟩ := map_ok.mp Sample.waited
  obtain ⟨upper, complete⟩ := Prod.mk.inj same
  obtain ⟨solution, chosen, half⟩ := Option.map_eq_some_iff.mp upper
  have reachable : Reachable Sample.digests Sample.contract Sample.objects none Sample.start :=
    ⟨[], Sample.start, Sample.start_ok, .nil _⟩
  have exact := (comparator_bounds Sample.valid Sample.collisionFree).1 ["reuse"] 1 Sample.start
    result σ reachable run complete
  have greatest := (exact.2 solution chosen).1 .upper
  rwa [ScalarSolution.at', half] at greatest

end CollectivePhaseControl
