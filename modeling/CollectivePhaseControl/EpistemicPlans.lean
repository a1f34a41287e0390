import CollectivePhaseControl.EpistemicWalks

/-! Plans and their checker. Whatever a planner's budgets did, a policy that it returns passes
the checker unless the checker runs out of expansions; and what a planner says that met no
limit holds against every plan that the checker accepts. -/
namespace CollectivePhaseControl

open BudgetedSearch

variable {hash : EpistemicHashing}

namespace PolicySearch
variable {x : PolicySearch hash}

theorem choose_ok {start : Checked Support} {depth : ℕ} {policies : List Policy} {code : String}
    {σ : PolicyState} (run : runFrom (x.choose start depth) .fresh = .ok ((policies, code), σ)) :
    (∃ support, start = .ok support ∧
      runFrom (x.enumerate support depth) .fresh = .ok (policies, σ) ∧
      code = "epistemic_no_guaranteed_entry") ∨
    policies = [] ∧ code ∈ reportedCodes := by
  rw [runFrom_ok] at run
  change EStateM.tryCatch _ _ _ = _ at run
  unfold EStateM.tryCatch at run
  split at run
  case h_1 fault τ failed =>
    cases fault with
    | crash exception => cases run
    | coded code' =>
      dsimp only at run
      split at run
      case isTrue listed =>
        cases run
        exact .inr ⟨rfl, listed⟩
      case isFalse => cases run
  case h_2 done =>
    cases start with
    | error fault => cases run
    | ok support =>
      refine .inl ⟨support, rfl, ?_⟩
      change EStateM.bind (x.enumerate support depth) _ _ = _ at run
      unfold EStateM.bind at run
      cases first : x.enumerate support depth .fresh with
      | error fault τ =>
        rw [first] at run
        cases run
      | ok found τ =>
        rw [first] at run
        cases run
        exact ⟨runFrom_ok.mpr first, rfl⟩

end PolicySearch

namespace Domain
variable {d : Domain hash}

def conclusiveCodes : List String := ["epistemic_policy_found", "epistemic_no_guaranteed_entry"]

theorem planCode_conclusive {complete found : Bool} {code : String}
    (h : planCode complete found code ∈ conclusiveCodes)
    (known : code = "epistemic_no_guaranteed_entry" ∨
      found = false ∧ code ∈ PolicySearch.reportedCodes) :
    complete = true ∧ code = "epistemic_no_guaranteed_entry" := by
  rcases known with rfl | ⟨rfl, listed⟩
  · refine ⟨?_, rfl⟩
    cases complete with
    | true => rfl
    | false => exact absurd h (by cases found <;> decide)
  · have reported : planCode complete false code = code := by
      have other : code ≠ "epistemic_no_guaranteed_entry" := by
        rintro rfl
        exact absurd listed (by decide)
      rw [planCode, if_neg Bool.false_ne_true, if_neg fun both => other both.2]
    rw [reported] at h
    have apart : ∀ code ∈ PolicySearch.reportedCodes, code ∉ conclusiveCodes := by decide
    exact absurd h (apart code listed)

structure Planned (d : Domain hash) (history : List EpistemicStep) (plan : EpistemicPlan)
    (comparisons : List GrowthComparison) (choices : List Policy) (code : String)
    (σ : PolicyState) (best : Option Policy) : Prop where
  compared : d.compareEpistemic history = .ok comparisons
  chosen : runFrom (PolicySearch.choose ⟨d, comparisons, none⟩
    ((if history = [] then pure comparisons else d.compareEpistemic []) >>= d.replay history)
    history.length) .fresh = .ok ((choices, code), σ)
  least : d.bestPolicy choices = .ok best
  binding : plan.inputDigest = d.digest ∧ plan.epistemicContractDigest = hash.epistemic d.epistemic ∧
    plan.observationMap = d.observationMap ∧ plan.excludedActionIds = sortedSet d.excludedActions ∧
    plan.excludedInteractions = sortedSet d.excludedInteractions
  history : plan.history = history
  code : plan.code = planCode (σ.budget.complete && comparisons.all (·.search.complete))
    best.isSome code
  policy : plan.policy = best.map (·.node)
  policyDigest : plan.policyDigest = best.map (hash.policy ·.node)
  objective : best.mapM d.policyObjective = .ok plan.objective

theorem Planned.stated {history : List EpistemicStep} {plan : EpistemicPlan}
    {comparisons : List GrowthComparison} {choices : List Policy} {code : String} {σ : PolicyState}
    {b : Policy} (made : d.Planned history plan comparisons choices code σ (some b)) :
    ∃ o, d.policyObjective b = .ok o ∧ plan.objective = some o := by
  have each := made.objective
  rw [Option.mapM_some] at each
  obtain ⟨o, value, same⟩ := map_ok.mp each
  exact ⟨o, value, same.symm⟩

theorem planEpistemic_ok {history : List EpistemicStep} {plan : EpistemicPlan}
    (h : d.planEpistemic history = .ok plan) :
    ∃ comparisons choices code σ best,
      d.Planned history plan comparisons choices code σ best := by
  simp only [planEpistemic, bind_ok] at h
  obtain ⟨comparisons, compared, ⟨⟨choices, code⟩, σ⟩, chosen, best, least, objective, each, valid⟩ := h
  unfold EpistemicPlan.validate at valid
  split at valid
  case isFalse => exact nomatch valid
  case isTrue =>
    cases valid
    exact ⟨comparisons, choices, code, σ, best, compared, chosen, least, ⟨rfl, rfl, rfl, rfl, rfl⟩,
      rfl, rfl, rfl, rfl, each⟩

theorem Planned.conclusive {history : List EpistemicStep} {plan : EpistemicPlan}
    {comparisons : List GrowthComparison} {choices : List Policy} {code : String} {σ : PolicyState}
    {best : Option Policy} (made : d.Planned history plan comparisons choices code σ best)
    (h : plan.code ∈ conclusiveCodes) :
    σ.budget.complete = true ∧ (∀ row ∈ comparisons, row.search.complete = true) ∧
      (best.isSome = true → plan.code = "epistemic_policy_found") ∧
      ∃ support, ((if history = [] then pure comparisons else d.compareEpistemic []) >>=
          d.replay history) = .ok support ∧
        runFrom (PolicySearch.enumerate ⟨d, comparisons, none⟩ support history.length) .fresh =
          .ok (choices, σ) := by
  have known : code = "epistemic_no_guaranteed_entry" ∨
      best.isSome = false ∧ code ∈ PolicySearch.reportedCodes := by
    rcases PolicySearch.choose_ok made.chosen with ⟨-, -, -, rfl⟩ | ⟨rfl, listed⟩
    · exact .inl rfl
    · exact .inr ⟨by rw [(bestPolicy_ok made.least).1.mpr rfl]; rfl, listed⟩
  rw [made.code] at h ⊢
  obtain ⟨complete, rfl⟩ := planCode_conclusive h known
  obtain ⟨searched, compared⟩ := Bool.and_eq_true_iff.mp complete
  refine ⟨searched, List.all_eq_true.mp compared, fun found => ?_, ?_⟩
  · rw [complete, found]
    rfl
  · rcases PolicySearch.choose_ok made.chosen with ⟨support, starts, enumerated, -⟩ | ⟨-, listed⟩
    · exact ⟨support, starts, enumerated⟩
    · exact absurd listed (by decide)

theorem replayed_alike (apart : d.SupportsApart fun s => d.initial = .ok s)
    {history : List EpistemicStep} {comparisons reference : List GrowthComparison}
    {support : Support} (compared : d.compareEpistemic history = .ok comparisons)
    (referred : d.referenceComparisons history = .ok reference)
    (replayed : ((if history = [] then pure comparisons else d.compareEpistemic []) >>=
      d.replay history) = .ok support) :
    (d.replayBasis history reference >>= d.replay history) = .ok support := by
  unfold replayBasis
  split at replayed
  case isTrue none' =>
    rw [if_pos none']
    exact replay_admits (admits_endorsed (referenceComparisons_endorse apart compared referred))
      replayed
  case isFalse some' =>
    rw [if_neg some']
    obtain ⟨basis, compared', replayed⟩ := bind_ok.mp replayed
    rw [d.referenceComparisons_eq some'] at referred
    obtain ⟨first, referred', -⟩ := bind_ok.mp referred
    refine bind_ok.mpr ⟨first, referred', ?_⟩
    exact replay_admits (admits_endorsed (referenceComparisons_endorse apart compared' referred'))
      replayed

theorem checkEpistemicPlan_bound {plan : EpistemicPlan} {policy : EpistemicPolicyNode}
    {claimed : GrowthObjective} (binding : plan.inputDigest = d.digest ∧
      plan.epistemicContractDigest = hash.epistemic d.epistemic ∧
      plan.observationMap = d.observationMap ∧
      plan.excludedActionIds = sortedSet d.excludedActions ∧
      plan.excludedInteractions = sortedSet d.excludedInteractions)
    (given : plan.policy = some policy) (stated : plan.objective = some claimed)
    (digest : plan.policyDigest = some (hash.policy policy)) {reference : List GrowthComparison}
    (referred : d.referenceComparisons plan.history = .ok reference) {support : Support}
    (replayed : (d.replayBasis plan.history reference >>= d.replay plan.history) = .ok support) :
    d.checkEpistemicPlan plan =
      runFrom (d.walkPlan reference policy support plan.history.length) .fresh >>= fun walked =>
        d.leavesObjective (hash.support support) walked.1.flatten >>= fun computed =>
          require (computed = claimed) "epistemic_objective_tampered" >>= fun _ =>
            pure ⟨d.digest, plan.policyDigest, computed, walked.2.nodes⟩ := by
  obtain ⟨basis, judged, replayed⟩ := bind_ok.mp replayed
  rw [checkEpistemicPlan, (require_ok (u := ())).mpr binding, ok_bind, given, stated]
  dsimp only
  rw [(require_ok (u := ())).mpr digest, ok_bind, referred, ok_bind, judged, ok_bind, replayed, ok_bind]

theorem checkEpistemicPlan_ok {plan : EpistemicPlan} {report : PolicyCheck}
    (h : d.checkEpistemicPlan plan = .ok report) :
    ∃ policy reference support leaves σ, d.referenceComparisons plan.history = .ok reference ∧
      (d.replayBasis plan.history reference >>= d.replay plan.history) = .ok support ∧
      runFrom (d.walkPlan reference policy support plan.history.length) .fresh = .ok (leaves, σ) ∧
      d.leavesObjective (hash.support support) leaves.flatten = .ok report.objective := by
  simp only [checkEpistemicPlan, bind_ok] at h
  obtain ⟨-, -, h⟩ := h
  split at h
  case h_2 => cases h
  case h_1 policy claimed given stated =>
    simp only [bind_ok, pure_ok] at h
    obtain ⟨-, -, reference, referred, basis, judged, support, replayed, ⟨leaves, σ⟩, walked,
      computed, value, -, -, rfl⟩ := h
    exact ⟨policy, reference, support, leaves, σ, referred, bind_ok.mpr ⟨basis, judged, replayed⟩,
      walked, value⟩

end Domain

/-- A policy that the planner returns passes the checker, with the plan's own objective and
within its bounds on nodes and depth, whatever the planner's budgets did; only the checker's
own expansions can run out. -/
theorem planEpistemic_checked (d : Domain hash) (apart : d.SupportsApart fun s => d.initial = .ok s)
    (limits : 1 ≤ d.limits.maxWitnessNodes) (history : List EpistemicStep) (plan : EpistemicPlan)
    (planned : d.planEpistemic history = .ok plan) (found : plan.policy ≠ none)
    (reference : List GrowthComparison) (referred : d.referenceComparisons history = .ok reference) :
    (∃ report, d.checkEpistemicPlan plan = .ok report ∧ plan.objective = some report.objective ∧
      report.policyDigest = plan.policyDigest ∧ report.witnessNodes ≤ d.limits.maxWitnessNodes) ∨
    d.checkEpistemicPlan plan = .error (.coded "epistemic_search_budget") := by
  obtain ⟨comparisons, choices, code, σ, best, made⟩ := Domain.planEpistemic_ok planned
  let x : PolicySearch hash := ⟨d, comparisons, none⟩
  obtain ⟨b, rfl⟩ : ∃ b, best = some b := by
    cases best with
    | some b => exact ⟨b, rfl⟩
    | none => exact absurd made.policy found
  obtain ⟨inChoices, -⟩ := (Domain.bestPolicy_ok made.least).2 b rfl
  rcases PolicySearch.choose_ok made.chosen with ⟨support, starts, enumerated, -⟩ | ⟨rfl, -⟩
  swap
  · exact absurd inChoices List.not_mem_nil
  have reached : d.ReachedSupport (fun s => d.initial = .ok s) support := by
    obtain ⟨basis, -, replayed⟩ := bind_ok.mp starts
    exact Domain.replayWith_reached replayed
  have feasible := (x.enumerate_ok apart reached enumerated).1 b inChoices
  have small := (PolicySearch.enumerate_limits apart reached enumerated).1 b inChoices
  have room : 0 + b.nodes ≤ d.limits.maxWitnessNodes := by
    rw [Nat.zero_add]
    exact small.trans (max_le limits le_rfl)
  obtain ⟨o, value, stated⟩ := made.stated
  have listed := made.history
  subst listed
  have replayed := Domain.replayed_alike apart made.compared referred starts
  have short : plan.history.length ≤ d.epistemic.spec.maxHistory ∧
      plan.history.length ≤ d.contract.spec.maxDecisions := by
    obtain ⟨basis, -, replayed⟩ := bind_ok.mp starts
    exact (Domain.replayWith_taken replayed).2
  rw [Domain.checkEpistemicPlan_bound made.binding made.policy stated made.policyDigest referred
    replayed]
  have admits : d.Admits reference comparisons := Domain.admits_endorsed
    (Domain.referenceComparisons_endorse apart made.compared referred)
  have walked := PolicySearch.leads_feasible (x := x) rfl admits feasible short.2 short.1 room
    WalkState.fresh rfl
  change Ended _ _ _ (d.walkPlan reference b.node support plan.history.length .fresh) at walked
  unfold runFrom
  cases run : d.walkPlan reference b.node support plan.history.length .fresh with
  | error fault τ =>
    rw [run] at walked
    have spent : fault = .coded "epistemic_search_budget" := walked
    exact .inr (congrArg Except.error spent)
  | ok leaves τ =>
    rw [run] at walked
    obtain ⟨counted, same⟩ := walked
    have computed : d.leavesObjective (hash.support support) leaves.flatten = .ok o := by
      simp only [Domain.policyObjective, bind_ok] at value
      obtain ⟨-, -, value⟩ := value
      exact Domain.leavesObjective_congr (fun h => by rw [same]) value
    left
    refine ⟨⟨d.digest, plan.policyDigest, o, τ.nodes⟩, ?_, stated, rfl, counted.trans_le room⟩
    rw [ok_bind, computed, ok_bind, (require_ok (u := ())).mpr rfl, ok_bind]
    rfl

namespace Sample

/-- A policy is found, and the checker accepts the plan. -/
theorem plan_accepted :
    ((fun plan => (plan.code, plan.policy.isSome)) <$> domain.planEpistemic []) =
      .ok ("epistemic_policy_found", true) ∧
    (domain.planEpistemic [] >>= domain.checkEpistemicPlan).toBool = true ∧
    1 ≤ domain.limits.maxWitnessNodes := by decide +kernel

end Sample

theorem planEpistemic_checked_sample : ∃ plan report, Sample.domain.planEpistemic [] = .ok plan ∧
    Sample.domain.checkEpistemicPlan plan = .ok report ∧
    plan.objective = some report.objective := by
  obtain ⟨found, accepted, room⟩ := Sample.plan_accepted
  obtain ⟨plan, planned, answer⟩ := map_ok.mp found
  obtain ⟨accepted, checked⟩ := exists_ok accepted
  rw [planned, ok_bind] at checked
  obtain ⟨reference, referred⟩ := exists_ok Sample.referred
  have found : plan.policy ≠ none := Option.isSome_iff_ne_none.mp (Prod.mk.inj answer).2
  rcases planEpistemic_checked Sample.domain Sample.supportsClosed.apart room []
    plan planned found reference referred with ⟨report, accepted', stated, -⟩ | spent
  · exact ⟨plan, report, planned, accepted', stated⟩
  · exact nomatch checked.symm.trans spent

/-- A plan with a conclusive code speaks of everything that the checker accepts for its
history: no such plan has an earlier objective than the policy that was found, and where no
policy was found there is none. -/
theorem planEpistemic_optimal (d : Domain hash) (apart : d.SupportsApart fun s => d.initial = .ok s)
    (free : d.CollisionFree d.Opening) (history : List EpistemicStep) (plan : EpistemicPlan)
    (planned : d.planEpistemic history = .ok plan) (conclusive : plan.code ∈ Domain.conclusiveCodes)
    (other : EpistemicPlan) (same : other.history = history) (report : PolicyCheck)
    (checked : d.checkEpistemicPlan other = .ok report) :
    plan.code = "epistemic_policy_found" ∧ ∃ objective key key', plan.objective = some objective ∧
      objectiveKey d.contract.spec objective = .ok key ∧
      objectiveKey d.contract.spec report.objective = .ok key' ∧ key ≤ key' := by
  subst same
  obtain ⟨comparisons, choices, code, σ, best, made⟩ := Domain.planEpistemic_ok planned
  let x : PolicySearch hash := ⟨d, comparisons, none⟩
  obtain ⟨nothing, least⟩ := Domain.bestPolicy_ok made.least
  obtain ⟨searched, compared, found, support, starts, enumerated⟩ := made.conclusive conclusive
  obtain ⟨basis, -, replayed⟩ := bind_ok.mp starts
  have reached : d.ReachedSupport (fun s => d.initial = .ok s) support :=
    Domain.replayWith_reached replayed
  have tracked := (Domain.replayWith_exact free replayed).tracked
  have all := (x.enumerate_ok apart reached enumerated).2 searched
  have within := (PolicySearch.enumerate_limits apart reached enumerated).2 searched
  -- The checker walks from the same support, and what it accepts stands for one of the choices.
  obtain ⟨policy, reference, support', leaves, τ, referred, replayed', walked, value⟩ :=
    Domain.checkEpistemicPlan_ok checked
  obtain ⟨basis', -, replayed'⟩ := bind_ok.mp replayed'
  cases Domain.replayWith_unique replayed replayed'
  have admits : d.Admits comparisons reference := Domain.admits_endorsing
    (Domain.referenceComparisons_endorse apart made.compared referred)
    compared
  obtain ⟨-, stands⟩ := Domain.walked_standsFor free admits (planRules_final d)
    tracked (Domain.replayWith_taken replayed).1 walked
  obtain ⟨p, feasible, same, -⟩ := stands within
  have listed := all p feasible
  obtain ⟨b, rfl⟩ : ∃ b, best = some b := by
    cases best with
    | some b => exact ⟨b, rfl⟩
    | none =>
      rw [nothing.mp rfl] at listed
      exact absurd listed List.not_mem_nil
  obtain ⟨-, key, ordered, lower⟩ := least b rfl
  obtain ⟨key', ordered', le⟩ := lower p listed
  obtain ⟨o, value'', stated⟩ := made.stated
  obtain ⟨o'', value₁, keyed⟩ := bind_ok.mp ordered
  cases value''.symm.trans value₁
  obtain ⟨o', value', keyed'⟩ := bind_ok.mp ordered'
  simp only [Domain.policyObjective, bind_ok] at value'
  obtain ⟨-, -, value'⟩ := value'
  have agreed : d.leavesObjective (hash.support support) leaves.flatten = .ok o' :=
    Domain.leavesObjective_congr (fun h => by rw [same]) value'
  cases agreed.symm.trans value
  exact ⟨found rfl, o, key, key', stated, keyed, keyed', le⟩

namespace Sample

theorem opening_start : initialState digests contract none =
    .ok ((initialState digests contract none).toOption.getD declared) := by decide +kernel

theorem opening_collisionFree : domain.CollisionFree domain.Opening := by
  refine opened_closed.2.1.collisionFree ?_
  rintro h ⟨theta, start, prepaidStart, listed, paid⟩
  cases prepaidStart.symm.trans opening_start
  have each : ∀ theta ∈ ((initialState digests contract none).toOption.getD declared).modelIds,
      ∀ h ∈ (domain.pay (Domain.opening
        ((initialState digests contract none).toOption.getD declared) theta)).toOption,
      h ∈ hypotheses domain := by decide +kernel
  exact each theta listed h (by rw [paid]; rfl)

end Sample

theorem planEpistemic_optimal_sample : ∃ plan report objective key key',
    Sample.domain.planEpistemic [] = .ok plan ∧
    Sample.domain.checkEpistemicPlan plan = .ok report ∧ plan.objective = some objective ∧
    objectiveKey Sample.contract.spec objective = .ok key ∧
    objectiveKey Sample.contract.spec report.objective = .ok key' ∧ key ≤ key' := by
  obtain ⟨found, accepted, -⟩ := Sample.plan_accepted
  obtain ⟨plan, planned, answer⟩ := map_ok.mp found
  obtain ⟨report, checked⟩ := exists_ok accepted
  rw [planned, ok_bind] at checked
  obtain ⟨comparisons, choices, code, σ, best, made⟩ := Domain.planEpistemic_ok planned
  have conclusive : plan.code ∈ Domain.conclusiveCodes := by
    rw [(Prod.mk.inj answer).1]
    exact List.mem_cons_self
  obtain ⟨-, objective, key, key', stated, keyed, keyed', le⟩ := planEpistemic_optimal Sample.domain
    Sample.supportsClosed.apart Sample.opening_collisionFree [] plan planned conclusive plan
    made.history report checked
  exact ⟨plan, report, objective, key, key', planned, checked, stated, keyed, keyed', le⟩

end CollectivePhaseControl
