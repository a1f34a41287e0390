import CollectivePhaseControl.GrowthPlanner

/-! What a growth plan says. The planner's own check cannot fail, whatever the budgets did; an
exact plan has the least objective key of all accepted trees, and an exact plan without a
policy says that no tree is accepted. -/
namespace CollectivePhaseControl

open BudgetedSearch

section plans
variable {hash : Hashing} {contract : GrowthContract} {objects : Objects} {frontier : Frontier}

theorem candidateKey_ok {c : GrowthContractSpec} {p : Candidate}
    {key : List ℚ ×ₗ Identifier ×ₗ Digest} (h : candidateKey hash c p = .ok key) :
    candidateOrder c p = .ok (ofLex key).1 := by
  simp only [candidateKey, bind_ok, pure_ok] at h
  obtain ⟨order, ordered, rfl⟩ := h
  exact ordered

theorem rankCandidates_ok {c : GrowthContractSpec} {candidates ranked : List Candidate}
    (h : rankCandidates hash c candidates = .ok ranked) : ranked.Perm candidates ∧
      ∀ best ∈ ranked.head?, ∃ key, candidateOrder c best = .ok key ∧
        ∀ p ∈ candidates, ∃ key', candidateOrder c p = .ok key' ∧ key ≤ key' := by
  simp only [rankCandidates, bind_ok, mapM_ok, pure_ok] at h
  obtain ⟨keyed, each, rfl⟩ := h
  have sorts : (keyed.insertionSort fun a b => a.1 ≤ b.1).Perm keyed := List.perm_insertionSort _ _
  have values : keyed.map Prod.snd = candidates := by
    have same : List.Forall₂ (· = ·) (keyed.map Prod.snd) candidates := by
      rw [List.forall₂_map_left_iff]
      refine each.flip.imp ?_
      rintro entry p ⟨key, -, rfl⟩
      rfl
    exact List.forall₂_eq_eq_eq ▸ same
  refine ⟨values ▸ sorts.map Prod.snd, fun best first => ?_⟩
  have ordered := List.pairwise_insertionSort
    (fun a b : (List ℚ ×ₗ Identifier ×ₗ Digest) × Candidate => a.1 ≤ b.1) keyed
  cases shape : keyed.insertionSort fun a b => a.1 ≤ b.1 with
  | nil =>
    rw [shape] at first
    exact nomatch first
  | cons entry rest =>
    rw [shape] at first ordered sorts
    cases Option.mem_some_iff.mp first
    have keyOf : ∀ e ∈ keyed, candidateOrder c e.2 = .ok (ofLex e.1).1 := by
      intro e member
      obtain ⟨p, -, key, built, rfl⟩ := forall₂_mem_right each e member
      exact candidateKey_ok built
    refine ⟨(ofLex entry.1).1, keyOf entry (sorts.mem_iff.mp List.mem_cons_self), fun p listed => ?_⟩
    obtain ⟨e, member, key, built, rfl⟩ := forall₂_mem_left each p listed
    refine ⟨_, candidateKey_ok built, ?_⟩
    have before : entry.1 ≤ key := by
      rcases List.mem_cons.mp (sorts.mem_iff.mpr member) with same | later
      · exact (congrArg Prod.fst same).ge
      · exact (List.pairwise_cons.mp ordered).1 _ later
    rcases Prod.Lex.le_iff.mp before with strict | ⟨same, -⟩
    · exact strict.le
    · exact same.le

/-- The findings of a run, with what the checker says about them. -/
structure Found (hash : Hashing) (contract : GrowthContract) (objects : Objects)
    (frontier : Frontier) (f : PlanFindings) : Prop where
  valid : validateContract hash contract objects = .ok ()
  start : initialState hash contract frontier = .ok f.start
  compared : compareGrowth hash contract objects frontier = .ok f.comparisons
  accepted : ∀ c ∈ f.candidates, checkTree hash (checker contract objects f.comparisons frontier)
    c.node f.start none = .ok c
  ordered : ∀ c ∈ f.candidates, InKeyOrder c.node
  models : f.candidates ≠ [] → f.start.modelIds ≠ []
  all : f.start.modelIds ≠ [] → f.complete = true → ∀ root c, InKeyOrder root →
    checkTree hash (checker contract objects f.comparisons frontier) root f.start none = .ok c →
      c ∈ f.candidates
  first : ∀ best ∈ f.best, ∃ key, candidateOrder contract.spec best = .ok key ∧
    ∀ p ∈ f.candidates, ∃ key', candidateOrder contract.spec p = .ok key' ∧ key ≤ key'
  fallback : 1 ≤ contract.spec.searchLimits.maxWitnessNodes → ∀ solution ∈ f.safe, ∃ c,
    checkTree hash (fallbackSearch contract objects frontier) solution.candidate.node f.start none =
      .ok c
  either : f.best.isSome → f.safe = none

theorem fallback_accepted (valid : validateContract hash contract objects = .ok ())
    (free : CollisionFree hash contract objects frontier)
    (limits : 1 ≤ contract.spec.searchLimits.maxWitnessNodes) {start : GrowthState}
    (prepaidStart : initialState hash contract frontier = .ok start)
    {safe : Option ScalarSolution} {σ : SearchState}
    (h : scalarFrom hash (fallbackSearch contract objects frontier) start = .ok (safe, σ)) :
    ∀ solution ∈ safe, ∃ c, checkTree hash (fallbackSearch contract objects frontier)
      solution.candidate.node start none = .ok c := by
  intro solution chosen
  unfold scalarFrom at h
  split at h
  case isFalse =>
    cases h
    exact nomatch chosen
  case isTrue models =>
    have facts := validateContract_ok hash valid
    have live : Live hash (fallbackSearch contract objects frontier) start :=
      ⟨⟨[], start, prepaidStart, .nil start⟩, models⟩
    have fresh : SolutionsAccepted hash (fallbackSearch contract objects frontier) .fresh :=
      fun _ _ impossible => nomatch impossible
    obtain ⟨-, all⟩ := ensures_scalar (x := fallbackSearch contract objects frontier) facts free le_rfl
      live .fresh fresh
    have accepted := (all safe σ (runFresh_ok.mp h) solution chosen).accepted
    refine ⟨solution.candidate, checkTree_ok.mpr ⟨rfl, accepted.walked, ?_⟩⟩
    exact accepted.bounded.trans (max_le limits le_rfl)

theorem searchPlan_found (free : CollisionFree hash contract objects frontier) {f : PlanFindings}
    (h : searchPlan hash contract objects frontier = .ok f) : Found hash contract objects frontier f := by
  simp only [searchPlan, bind_ok] at h
  obtain ⟨⟨⟩, valid, start, prepaidStart, comparisons, compared, ⟨found, search⟩, enumerated,
    candidates, ranked, h⟩ := h
  obtain ⟨perm, first⟩ := rankCandidates_ok ranked
  have unfound : start.modelIds = [] → candidates = [] := by
    intro none'
    rw [enumerateFrom, if_neg (not_not.mpr none')] at enumerated
    cases enumerated
    exact perm.eq_nil
  have exact' : start.modelIds ≠ [] → (∀ c ∈ found, InKeyOrder c.node ∧
      checkTree hash (checker contract objects comparisons frontier) c.node start none = .ok c) ∧
      (search.budget.complete = true → ∀ root c, InKeyOrder root →
        checkTree hash (checker contract objects comparisons frontier) root start none = .ok c →
          c ∈ found) := by
    intro models
    rw [enumerateFrom, if_pos models] at enumerated
    exact enumeration_exact valid free prepaidStart models enumerated
  have known : ∀ c ∈ candidates, InKeyOrder c.node ∧
      checkTree hash (checker contract objects comparisons frontier) c.node start none = .ok c := by
    intro c member
    have models : start.modelIds ≠ [] := fun none' => by
      rw [unfound none'] at member
      exact nomatch member
    exact (exact' models).1 c (perm.mem_iff.mp member)
  have every : start.modelIds ≠ [] → (search.budget.complete &&
      comparisons.all (·.search.complete)) = true → ∀ root c, InKeyOrder root →
      checkTree hash (checker contract objects comparisons frontier) root start none = .ok c →
        c ∈ candidates := by
    intro models complete root c ordered checked
    exact perm.mem_iff.mpr ((exact' models).2 (Bool.and_eq_true_iff.mp complete).1 root c ordered
      checked)
  have foremost : ∀ best ∈ candidates.head?, ∃ key, candidateOrder contract.spec best = .ok key ∧
      ∀ p ∈ candidates, ∃ key', candidateOrder contract.spec p = .ok key' ∧ key ≤ key' := by
    intro best chosen
    obtain ⟨key, own, least⟩ := first best chosen
    exact ⟨key, own, fun p member => least p (perm.mem_iff.mp member)⟩
  split at h
  case isTrue nothing =>
    simp only [bind_ok, pure_ok] at h
    obtain ⟨⟨safe, fallback⟩, searched, rfl⟩ := h
    exact
      { valid, start := prepaidStart, compared
        accepted := fun c member => (known c member).2
        ordered := fun c member => (known c member).1
        models := fun some' => absurd nothing some'
        all := every
        first := foremost
        fallback := fun limits => fallback_accepted valid free limits prepaidStart searched
        either := fun found => by simp [PlanFindings.best, nothing] at found }
  case isFalse some' =>
    cases h
    exact
      { valid, start := prepaidStart, compared
        accepted := fun c member => (known c member).2
        ordered := fun c member => (known c member).1
        models := fun _ none' => some' (unfound none')
        all := every
        first := foremost
        fallback := fun _ _ impossible => nomatch impossible
        either := fun _ => rfl }

/-- The fields of a draft that the checker and the readers of a plan look at. -/
structure Drafted (hash : Hashing) (contract : GrowthContract) (objects : Objects)
    (frontier : Frontier) (f : PlanFindings) (spec : GrowthPlanSpec) : Prop where
  contractDigest : spec.contractDigest = CollectivePhaseControl.contractDigest hash contract
  inputDigest : spec.inputDigest = CollectivePhaseControl.inputDigest hash contract objects frontier
  initialState : stateDigest hash f.start = .ok spec.initialStateDigest
  code : spec.code = growthPlanCode (decide (f.start.modelIds ≠ [])) f.complete f.best.isSome
  policy : spec.policy = f.best.map (·.node)
  policyDigest : spec.policyDigest = f.best.map (hash.node ·.node)
  objective : f.best.mapM (objective contract.spec) = .ok spec.objective
  safeFallback : spec.safeFallback = f.safe.map (·.candidate.node)
  comparisons : spec.comparisons = f.comparisons
  terminals : spec.modelPredictedTerminal = ((f.best.map (·.terminals)).getD []).map baseState
  frontier : frontierFacet hash contract objects f frontier = .ok spec.frontier
  unreported : spec.fallbackSearch = none

theorem GrowthPlan.validate_ok {plan valid : GrowthPlan} (h : plan.validate = .ok valid) :
    plan = valid := by
  unfold GrowthPlan.validate at h
  split at h
  · exact Except.ok.inj h
  · exact nomatch h

theorem draftPlan_ok {f : PlanFindings} {plan : GrowthPlan}
    (h : draftPlan hash contract objects frontier f = .ok plan) :
    Drafted hash contract objects frontier f plan.spec := by
  simp only [draftPlan, bind_ok, pure_ok] at h
  obtain ⟨worst, objective, digest, digested, drafted, valid, facet, described, rfl⟩ := h
  cases GrowthPlan.validate_ok valid
  exact
    { contractDigest := rfl, inputDigest := rfl, initialState := digested, code := rfl
      policy := rfl, policyDigest := rfl, objective := objective, safeFallback := rfl
      comparisons := rfl, terminals := rfl, frontier := described, unreported := rfl }

theorem compareGrowth_frontier {comparisons : List GrowthComparison}
    (h : compareGrowth hash contract objects frontier = .ok comparisons) :
    checkFrontier hash contract objects frontier = .ok () := by
  simp only [compareGrowth, bind_ok] at h
  obtain ⟨-, -, ⟨⟩, checked, -⟩ := h
  exact checked

theorem frontier_checked {f : PlanFindings} (found : Found hash contract objects frontier f)
    {spec : GrowthPlanSpec} (drafted : Drafted hash contract objects frontier f spec)
    {best : Candidate} (chosen : f.best = some best) :
    checkFrontierBinding hash contract objects frontier spec.frontier = .ok () ∧
      checkFrontierPlan hash contract objects frontier f.start best.node best spec.frontier =
        .ok () := by
  have declared := drafted.frontier
  have checked := compareGrowth_frontier found.compared
  cases frontier with
  | none =>
    rw [← pure_ok.mp declared]
    exact ⟨rfl, rfl⟩
  | some bound =>
    simp only [frontierFacet, chosen, Option.map_some, Option.getD_some, bind_ok, pure_ok] at declared
    obtain ⟨described, walked, facet⟩ := declared
    rw [← facet]
    simp only [checkFrontierBinding, checkFrontierPlan, bind_ok, require_ok, exists_punit]
    exact ⟨⟨rfl, checked, trivial, trivial⟩, ⟨trivial, trivial⟩, described, walked, rfl⟩

theorem checkPlan_draft {f : PlanFindings} (found : Found hash contract objects frontier f)
    {plan : GrowthPlan} (drafted : Drafted hash contract objects frontier f plan.spec)
    {best : Candidate} (chosen : f.best = some best) :
    ∃ digest, checkPlan hash contract objects plan frontier = .ok digest := by
  have member : best ∈ f.candidates := List.mem_of_mem_head? (Option.mem_def.mpr chosen)
  have policy := drafted.policy
  have policyDigest := drafted.policyDigest
  have objective := drafted.objective
  have terminals := drafted.terminals
  rw [chosen, Option.map_some] at policy policyDigest terminals
  simp only [chosen, Option.mapM_some, map_ok] at objective
  obtain ⟨worst, worstCase, sameObjective⟩ := objective
  obtain ⟨bound, described⟩ := frontier_checked found drafted chosen
  refine ⟨hash.checker plan.spec.inputDigest (hash.node best.node) worst, ?_⟩
  simp only [checkPlan, found.valid, bound, ok_bind, found.start, drafted.initialState, policy,
    found.compared, drafted.comparisons, found.accepted best member, worstCase, described, bind_ok,
    require_ok, exists_punit, pure_ok]
  exact ⟨⟨drafted.contractDigest, drafted.inputDigest⟩, trivial, policyDigest, trivial,
    sameObjective.symm, terminals, trivial⟩

theorem checkPlan_added (plan : GrowthPlan) (checked : Option Digest)
    (report : Option GrowthSearchReport) :
    checkPlan hash contract objects
      { plan with spec := { plan.spec with checkerDigest := checked, fallbackSearch := report } }
      frontier = checkPlan hash contract objects plan frontier := rfl

theorem certifyPlan_unfound {f : PlanFindings} {plan : GrowthPlan} (nothing : f.best = none)
    (safe : ∀ solution ∈ f.safe, ∃ c, checkTree hash (fallbackSearch contract objects frontier)
      solution.candidate.node f.start none = .ok c) (unreported : plan.spec.fallbackSearch = none) :
    ∃ report, certifyPlan hash contract objects frontier f plan =
      .ok { plan with spec := { plan.spec with fallbackSearch := report } } := by
  have kept : { plan with spec := { plan.spec with fallbackSearch := none } } = plan := by
    rw [← unreported]
  have checked : certifyPlan hash contract objects frontier f plan =
      if f.best.isNone ∧ f.start.modelIds ≠ [] then
        pure { plan with spec := { plan.spec with
          fallbackSearch := some (f.fallback.budget.report contract.spec.searchLimits) } }
      else pure plan := by
    unfold certifyPlan
    cases chosen : f.safe with
    | none => rw [nothing]; rfl
    | some solution =>
      obtain ⟨c, accepted⟩ := safe solution chosen
      rw [nothing]
      simp only [accepted]
      rfl
  rw [checked]
  split
  · exact ⟨_, rfl⟩
  · exact ⟨none, by rw [kept]; rfl⟩

/-- The planner's own check cannot fail: a plan that is drafted is returned, its policy passes
the checker under the recorded digest, and its fallback passes up to the deadline. -/
theorem planGrowth_certified (free : CollisionFree hash contract objects frontier)
    (limits : 1 ≤ contract.spec.searchLimits.maxWitnessNodes) {f : PlanFindings} {plan : GrowthPlan}
    (found : searchPlan hash contract objects frontier = .ok f)
    (drafted : draftPlan hash contract objects frontier f = .ok plan) :
    ∃ final, planGrowth hash contract objects frontier = .ok final ∧
      final.spec.policy = f.best.map (·.node) ∧
      (∀ root ∈ final.spec.policy, ∃ digest,
        checkPlan hash contract objects final frontier = .ok digest ∧
          final.spec.checkerDigest = some digest) ∧
      (final.spec.policy = none → ∀ tree ∈ final.spec.safeFallback, ∃ candidate,
        checkTree hash (fallbackSearch contract objects frontier) tree f.start none =
          .ok candidate) := by
  have known := searchPlan_found free found
  have fields := draftPlan_ok drafted
  rw [planGrowth, found, ok_bind, drafted, ok_bind]
  cases chosen : f.best with
  | some best =>
    obtain ⟨digest, checked⟩ := checkPlan_draft known fields chosen
    refine ⟨{ plan with spec := { plan.spec with checkerDigest := some digest } }, ?_, ?_, ?_, ?_⟩
    · simp only [certifyPlan, chosen, checked]
      rfl
    · rw [← chosen]
      exact fields.policy
    · exact fun _ _ => ⟨digest, checked, rfl⟩
    · intro none'
      have policy := fields.policy
      rw [chosen] at policy
      exact nomatch policy.symm.trans none'
  | none =>
    have policy := fields.policy
    rw [chosen] at policy
    obtain ⟨report, certified⟩ := certifyPlan_unfound chosen (known.fallback limits) fields.unreported
    refine ⟨_, certified, policy, fun root present => ?_, fun _ tree present => ?_⟩
    · exact nomatch policy.symm.trans present
    · have fallback := fields.safeFallback
      rw [show plan.spec.safeFallback = some tree from present] at fallback
      obtain ⟨solution, safe, rfl⟩ := Option.map_eq_some_iff.mp fallback.symm
      exact known.fallback limits solution safe

theorem certifyPlan_ok {f : PlanFindings} {plan final : GrowthPlan}
    (h : certifyPlan hash contract objects frontier f plan = .ok final) :
    ∃ checked report, final =
      { plan with spec := { plan.spec with checkerDigest := checked, fallbackSearch := report } } := by
  have reported : ∀ base : GrowthPlan, (if f.best.isNone = true ∧ f.start.modelIds ≠ [] then
        pure { base with spec := { base.spec with
          fallbackSearch := some (f.fallback.budget.report contract.spec.searchLimits) } }
      else pure base) = (.ok final : Checked GrowthPlan) →
      ∃ report, final = { base with spec := { base.spec with fallbackSearch := report } } := by
    intro base h
    split at h
    · exact ⟨_, (pure_ok.mp h).symm⟩
    · exact ⟨_, (pure_ok.mp h).symm⟩
  unfold certifyPlan at h
  cases chosen : f.best with
  | some best =>
    simp only [chosen, bind_ok, pure_ok, exists_eq_left'] at h reported
    obtain ⟨digest, -, h⟩ := h
    obtain ⟨report, rfl⟩ := reported _ h
    exact ⟨some digest, report, rfl⟩
  | none =>
    cases safe : f.safe with
    | some solution =>
      simp only [chosen, safe, bind_ok, pure_ok, exists_eq_left'] at h reported
      obtain ⟨-, -, h⟩ := h
      obtain ⟨report, rfl⟩ := reported _ h
      exact ⟨_, report, rfl⟩
    | none =>
      simp only [chosen, safe] at h reported
      obtain ⟨report, rfl⟩ := reported _ h
      exact ⟨_, report, rfl⟩

theorem growthPlanCode_missing {models complete found : Bool}
    (h : growthPlanCode models complete found = "growth_no_guaranteed_entry") :
    models = true ∧ complete = true ∧ found = false := by
  revert models complete found
  decide

theorem growthPlanCode_found {models complete found : Bool}
    (h : growthPlanCode models complete found = "growth_model_policy_found") :
    models = true ∧ complete = true ∧ found = true := by
  revert models complete found
  decide

/-- An accepted tree whose key is least among the accepted trees. -/
structure Optimal (hash : Hashing) (x : Search) (start : GrowthState) (c : Candidate) : Prop where
  ordered : InKeyOrder c.node
  accepted : checkTree hash x c.node start none = .ok c
  least : ∃ key, candidateOrder x.contract.spec c = .ok key ∧ ∀ root other, InKeyOrder root →
    checkTree hash x root start none = .ok other →
      ∃ key', candidateOrder x.contract.spec other = .ok key' ∧ key ≤ key'

/-- A plan that claims to be exhaustive is: the reported policy is the best of all trees that
pass the checker, and no policy is reported as missing while such a tree exists. -/
theorem planGrowth_exact (free : CollisionFree hash contract objects frontier) {start : GrowthState}
    (prepaidStart : initialState hash contract frontier = .ok start) {plan : GrowthPlan}
    (planned : planGrowth hash contract objects frontier = .ok plan) :
    (plan.spec.code = "growth_no_guaranteed_entry" → ∀ root c, InKeyOrder root →
      checkTree hash (checker contract objects plan.spec.comparisons frontier) root start none ≠
        .ok c) ∧
    (plan.spec.code = "growth_model_policy_found" → ∃ c, plan.spec.policy = some c.node ∧
      Optimal hash (checker contract objects plan.spec.comparisons frontier) start c ∧
      ∃ worst, objective contract.spec c = .ok worst ∧ plan.spec.objective = some worst) := by
  simp only [planGrowth, bind_ok] at planned
  obtain ⟨f, found, plan', drafted, certified⟩ := planned
  have known := searchPlan_found free found
  have fields := draftPlan_ok drafted
  cases prepaidStart.symm.trans known.start
  obtain ⟨checked, report, rfl⟩ := certifyPlan_ok certified
  simp only [fields.code, fields.comparisons]
  constructor
  · intro code root c ordered accepted
    obtain ⟨models, complete, unfound⟩ := growthPlanCode_missing code
    have listed := known.all (by simpa using models) complete root c ordered accepted
    cases shape : f.candidates with
    | nil =>
      rw [shape] at listed
      exact nomatch listed
    | cons first rest =>
      rw [PlanFindings.best, shape] at unfound
      exact nomatch unfound
  · intro code
    obtain ⟨models, complete, some'⟩ := growthPlanCode_found code
    obtain ⟨best, chosen⟩ := Option.isSome_iff_exists.mp some'
    have member : best ∈ f.candidates := List.mem_of_mem_head? (Option.mem_def.mpr chosen)
    obtain ⟨key, own, least⟩ := known.first best chosen
    have objective := fields.objective
    simp only [chosen, Option.mapM_some, map_ok] at objective
    obtain ⟨worst, worstCase, reported⟩ := objective
    refine ⟨best, by rw [fields.policy, chosen]; rfl, ⟨known.ordered best member,
      known.accepted best member, key, own, fun root other ordered accepted => ?_⟩, worst, worstCase,
      reported.symm⟩
    exact least other (known.all (by simpa using models) complete root other ordered accepted)

end plans

namespace Sample

theorem drafted : (do
    let found ← searchPlan digests contract objects none
    let plan ← draftPlan digests contract objects none found
    pure (found.candidates.length, plan.spec.policy.isSome)) =
      (.ok (1, true) : Checked (ℕ × Bool)) := by decide +kernel

theorem planned : (fun plan : GrowthPlan => plan.spec.code) <$>
    planGrowth digests contract objects none = .ok "growth_model_policy_found" := by decide +kernel

end Sample

theorem planGrowth_certified_sample : ∃ plan,
    planGrowth Sample.digests Sample.contract Sample.objects none = .ok plan ∧
      ∀ root ∈ plan.spec.policy, ∃ digest,
        checkPlan Sample.digests Sample.contract Sample.objects plan none = .ok digest ∧
          plan.spec.checkerDigest = some digest := by
  have drafted := Sample.drafted
  simp only [bind_ok, pure_ok] at drafted
  obtain ⟨f, found, plan, drafted, -⟩ := drafted
  obtain ⟨final, planned, -, checked, -⟩ := planGrowth_certified Sample.collisionFree
    (by decide +kernel) found drafted
  exact ⟨final, planned, checked⟩

theorem planGrowth_exact_sample : ∃ plan c,
    planGrowth Sample.digests Sample.contract Sample.objects none = .ok plan ∧
      plan.spec.policy = some c.node ∧ Optimal Sample.digests (checker Sample.contract Sample.objects
        plan.spec.comparisons none) Sample.start c := by
  obtain ⟨plan, planned, code⟩ := map_ok.mp Sample.planned
  obtain ⟨c, policy, best, -⟩ :=
    (planGrowth_exact Sample.collisionFree Sample.start_ok planned).2 code
  exact ⟨plan, c, planned, policy, best⟩

end CollectivePhaseControl
