import CollectivePhaseControl.EpistemicAgreement

/-! Plans. The search enumerates policies from what a history leaves open, and the plan is
the first policy of the least key; the key is the objective in a fixed lexicographic order. -/
namespace CollectivePhaseControl

variable {hash : EpistemicHashing}

/-- `policy_key` without its last two components: entry time, attainment, costs in their
order, debts by domain, duration. -/
def objectiveKey (c : GrowthContractSpec) (o : GrowthObjective) : Checked (List ℚ) := do
  let costs ← c.costOrder.mapM fun key => o.worstCost.item key
  let debts ← c.domains.keys.mapM fun key => o.worstDebt.item key
  pure ([F o.worstEntryTime, -F o.terminalMinAttainment] ++ costs.map F ++ debts.map F ++
    [F o.worstDuration])

namespace Domain
variable (d : Domain hash)

def leavesObjective (digest : Digest) (leaves : Support) : Checked GrowthObjective :=
  objective d.contract.spec ⟨leafNode digest, leaves.map (·.state),
    leaves.flatMap fun h => entryTimes h.entry, 1⟩

def policyObjective (p : Policy) : Checked GrowthObjective := do
  require (∀ h ∈ p.leaves, h.entry ≠ none) "epistemic_continuation_missing"
  d.leavesObjective p.node.supportDigest p.leaves

/-- The objective part of `policy_key`. -/
def policyOrder (p : Policy) : Checked (List ℚ) := do
  objectiveKey d.contract.spec (← d.policyObjective p)

def policyKey (p : Policy) : Checked (List ℚ ×ₗ Identifier ×ₗ Digest) := do
  pure (toLex (← d.policyOrder p, toLex (p.node.actionId.getD "", hash.policy p.node)))

/-- `min(choices, key=policy_key)`, `None` when there is no choice. -/
def bestPolicy (choices : List Policy) : Checked (Option Policy) := do
  let keyed ← choices.mapM fun p => do pure (← d.policyKey p, p)
  pure ((keyed.argmin Prod.fst).map Prod.snd)

variable {d}

theorem greatest_congr {xs ys : List ℚ} (same : ∀ v, v ∈ xs ↔ v ∈ ys) : greatest xs = greatest ys := by
  have tops : xs.max? = ys.max? := by
    cases top : ys.max? with
    | none =>
      rw [List.max?_eq_none_iff] at top ⊢
      subst top
      exact List.eq_nil_iff_forall_not_mem.mpr fun v member =>
        absurd ((same v).mp member) List.not_mem_nil
    | some v =>
      obtain ⟨member, upper⟩ := List.max?_eq_some_iff.mp top
      exact List.max?_eq_some_iff.mpr
        ⟨(same v).mpr member, fun w inXs => upper w ((same w).mp inXs)⟩
  rw [greatest, greatest, tops]

theorem mem_map_congr {α β : Type} {xs ys : List α} (same : ∀ a, a ∈ xs ↔ a ∈ ys) (f : α → β) :
    ∀ b, b ∈ xs.map f ↔ b ∈ ys.map f := by
  intro b
  simp only [List.mem_map, same]

theorem leavesObjective_congr {digest digest' : Digest} {leaves leaves' : Support}
    (same : ∀ h, h ∈ leaves ↔ h ∈ leaves') {o : GrowthObjective}
    (h : d.leavesObjective digest leaves = .ok o) : d.leavesObjective digest' leaves' = .ok o := by
  have states := mem_map_congr same (·.state)
  have times : ∀ t, t ∈ (leaves.flatMap fun h => entryTimes h.entry) ↔
      t ∈ leaves'.flatMap fun h => entryTimes h.entry := by
    intro t
    simp only [List.mem_flatMap, same]
  have worst : ∀ quantity keys, worstByKey (leaves.map (·.state)) quantity keys =
      worstByKey (leaves'.map (·.state)) quantity keys := by
    intro quantity keys
    unfold worstByKey
    congr 1
    funext key
    rw [greatest_congr (mem_map_congr states fun s => quantity s key)]
  simp only [leavesObjective, objective, bind_ok] at h ⊢
  obtain ⟨entry, latest, attained, each, reached, smallest, rest⟩ := h
  have total : ∀ s ∈ leaves'.map (·.state), ∃ a, attainment d.contract.spec s .lower = .ok a := by
    intro s member
    obtain ⟨a, -, value⟩ := forall₂_mem_left (mapM_ok.mp each) s ((states s).mpr member)
    exact ⟨a, value⟩
  obtain ⟨attained', each'⟩ := mapM_total total
  refine ⟨entry, greatest_congr times ▸ latest, attained', each', reached, ?_, ?_⟩
  · rw [least_ok] at smallest ⊢
    have values : ∀ a, a ∈ attained ↔ a ∈ attained' := by
      intro a
      constructor
      · intro member
        obtain ⟨s, listed, value⟩ := forall₂_mem_right (mapM_ok.mp each) a member
        obtain ⟨a', member', value'⟩ := forall₂_mem_left (mapM_ok.mp each') s ((states s).mp listed)
        cases value.symm.trans value'
        exact member'
      · intro member
        obtain ⟨s, listed, value⟩ := forall₂_mem_right (mapM_ok.mp each') a member
        obtain ⟨a', member', value'⟩ := forall₂_mem_left (mapM_ok.mp each) s ((states s).mpr listed)
        cases value.symm.trans value'
        exact member'
    exact (Set.ext values : {a | a ∈ attained} = {a | a ∈ attained'}) ▸ smallest
  · rw [← worst, ← worst, ← greatest_congr (mem_map_congr states (F ·.elapsed))]
    exact rest

theorem policyOrder_congr {p q : Policy} (same : ∀ h, h ∈ p.leaves ↔ h ∈ q.leaves) {key : List ℚ}
    (h : d.policyOrder p = .ok key) : d.policyOrder q = .ok key := by
  simp only [policyOrder, policyObjective, bind_ok, require_ok, exists_punit] at h ⊢
  obtain ⟨o, ⟨entered, worst⟩, ordered⟩ := h
  exact ⟨o, ⟨fun h member => entered h ((same h).mpr member), leavesObjective_congr same worst⟩,
    ordered⟩

theorem bestPolicy_ok {choices : List Policy} {best : Option Policy}
    (h : d.bestPolicy choices = .ok best) : (best = none ↔ choices = []) ∧
      ∀ b ∈ best, b ∈ choices ∧ ∃ key, d.policyOrder b = .ok key ∧
        ∀ p ∈ choices, ∃ key', d.policyOrder p = .ok key' ∧ key ≤ key' := by
  simp only [bestPolicy, bind_ok, mapM_ok, pure_ok] at h
  obtain ⟨keyed, each, rfl⟩ := h
  constructor
  · rw [Option.map_eq_none_iff, List.argmin_eq_none]
    constructor
    · rintro rfl
      exact List.forall₂_nil_right_iff.mp each
    · rintro rfl
      exact List.forall₂_nil_left_iff.mp each
  · intro b chosen
    obtain ⟨⟨key, b'⟩, least, rfl⟩ := Option.mem_map.mp chosen
    have parts : ∀ {p : Policy} {key : List ℚ ×ₗ Identifier ×ₗ Digest},
        d.policyKey p = .ok key → d.policyOrder p = .ok (ofLex key).1 := by
      intro p key keyed
      simp only [policyKey, bind_ok, pure_ok] at keyed
      obtain ⟨order, ordered, rfl⟩ := keyed
      exact ordered
    obtain ⟨p, listed, key', keyOf, same⟩ := forall₂_mem_right each _ (List.argmin_mem least)
    cases same
    refine ⟨listed, _, parts keyOf, fun q inChoices => ?_⟩
    obtain ⟨entry, inKeyed, key', keyOf', rfl⟩ := forall₂_mem_left each q inChoices
    refine ⟨_, parts keyOf', ?_⟩
    have notBefore := List.not_lt_of_mem_argmin inKeyed least
    rcases Prod.Lex.le_iff.mp (not_lt.mp notBefore) with before | ⟨same, -⟩
    · exact before.le
    · exact same.le

end Domain

structure EpistemicPlan where
  inputDigest : Digest
  epistemicContractDigest : Digest
  history : List EpistemicStep
  observationMap : Dict Identifier
  excludedActionIds : List Identifier
  excludedInteractions : List Identifier
  code : String
  policy : Option EpistemicPolicyNode
  policyDigest : Option Digest
  objective : Option GrowthObjective
  search : GrowthSearchReport
  comparisons : List GrowthComparison

def EpistemicPlan.validate (plan : EpistemicPlan) : Checked EpistemicPlan :=
  if plan.history.length ≤ 16 ∧ plan.observationMap.size ≤ 32 ∧
      plan.excludedActionIds.length ≤ 16 ∧ plan.excludedInteractions.length ≤ 32 ∧
      plan.comparisons.length ≤ 128 then .ok plan
  else .error (.crash .validationError)

namespace PolicySearch
variable (x : PolicySearch hash)

/-- Errors that leave a plan without a policy, reported by their code. -/
def reportedCodes : List String :=
  limitCodes ++ ["epistemic_inconsistent_support", "epistemic_observation_mismatch"]

/-- The choices from what a history leaves open, with the code to report. -/
def choose (start : Checked Support) (depth : ℕ) : PolicyM (List Policy × String) :=
  tryCatch (do
    let support ← liftM start
    let policies ← x.enumerate support depth
    pure (policies, "epistemic_no_guaranteed_entry")) fun fault =>
      match fault with
      | .coded code =>
        if code ∈ reportedCodes then do
          PolicyM.exhaust
          pure ([], code)
        else throw fault
      | fault => throw fault

end PolicySearch

namespace Domain
variable (d : Domain hash)

/-- `code` of a plan: a policy was found, or why not. -/
def planCode (complete : Bool) (found : Bool) (code : String) : String :=
  if found then (if complete then "epistemic_policy_found" else "epistemic_incumbent")
  else if complete = false ∧ code = "epistemic_no_guaranteed_entry" then "epistemic_search_unknown"
  else code

/-- `plan_epistemic`. The domain is rebuilt from its own inputs first, which changes nothing. -/
def planEpistemic (history : List EpistemicStep) : Checked EpistemicPlan := do
  let comparisons ← d.compareEpistemic history
  let search : PolicySearch hash := ⟨d, comparisons, none⟩
  let basis := if history = [] then pure comparisons else d.compareEpistemic []
  let chosen ← runFrom (search.choose (basis >>= d.replay history) history.length) .fresh
  let best ← d.bestPolicy chosen.1.1
  let complete := chosen.2.budget.complete && comparisons.all (·.search.complete)
  let objective ← best.mapM d.policyObjective
  EpistemicPlan.validate
    { inputDigest := d.digest
      epistemicContractDigest := hash.epistemic d.epistemic
      history := history
      observationMap := d.observationMap
      excludedActionIds := sortedSet d.excludedActions
      excludedInteractions := sortedSet d.excludedInteractions
      code := planCode complete best.isSome chosen.1.2
      policy := best.map (·.node)
      policyDigest := best.map (hash.policy ·.node)
      objective := objective
      search := { chosen.2.budget.report d.limits with complete := complete }
      comparisons := comparisons }

end Domain

end CollectivePhaseControl
