import CollectivePhaseControl.GrowthSearch

/-! The independent tree checker. It walks a submitted tree over every successor, without
the search's memo, and numbers the nodes against the witness limit. -/
namespace CollectivePhaseControl

variable (hash : Hashing)

structure Walk where
  terminals : List GrowthState
  entries : List ℚ
  count : ℕ

/-- The entry that is in force once a node's own entry decision is taken. -/
def entryAfter (node : GrowthPolicyNode) (s : GrowthState) (entry : Option GrowthCheckpoint) :
    Option GrowthCheckpoint :=
  if node.entry then some ⟨s.elapsed, s.capacities⟩ else entry

def checkNode (x : Search) (node : GrowthPolicyNode) (s : GrowthState)
    (entry : Option GrowthCheckpoint) : Checked Unit := do
  checkState x.contract.spec s
  require (s.modelIds ≠ []) "growth_inconsistent_models"
  require (node.stateDigest = (← stateDigest hash s)) "growth_plan_state_mismatch"
  if node.entry then
    require (entry = none) "growth_plan_entry_invalid"
    require ((← entryAllowed x.contract.spec x.comparisons s) = true) "growth_plan_entry_invalid"
  else pure ()

/-- The catalogue's only action of a name. -/
def namedRecipe (x : Search) (actionId : Identifier) : Checked GrowthAction := do
  let named ← namedCatalogue x.contract.spec x.objects
  match named.filter (·.1 = actionId) with
  | [(_, recipe)] => pure recipe
  | _ => .error (.coded "growth_plan_action_invalid")

def checkBranches (node : GrowthPolicyNode) (effects : List GrowthSuccessor) : Checked Unit :=
  require ((∀ b ∈ node.branches, b.1 ∈ effects.map (·.successorId)) ∧
    (∀ e ∈ effects, e.successorId ∈ node.branches.map (·.1)) ∧
    (∀ key ∈ node.effectDigests.keys, key ∈ node.branches.map (·.1)) ∧
    (∀ b ∈ node.branches, b.1 ∈ node.effectDigests) ∧ effects ≠ [])
    "growth_plan_branches_invalid"

/-- The effect's digest, the state after it and the subtree that answers it. -/
def followBranch (x : Search) (node : GrowthPolicyNode) (s : GrowthState) (recipe : GrowthAction)
    (effect : GrowthSuccessor) : Checked (GrowthPolicyNode × GrowthState) := do
  let declared ← node.effectDigests.item effect.successorId
  require (declared = hash.successor effect) "growth_plan_effect_mismatch"
  let next ← transition hash x.contract s recipe effect x.objects x.frontier
  let child ← demand .keyError (node.branches.lookup effect.successorId)
  pure (child, next)

/-- The closure of `check_tree`; `fuel` is the number of levels that the decision limit
still admits. -/
def walk (x : Search) : ℕ → GrowthPolicyNode → GrowthState → Option GrowthCheckpoint → Walk →
    Checked Walk
  | 0, _, _, _, _ => .error (.coded "growth_checker_budget")
  | fuel + 1, node, s, entry, w => do
    require (w.count + 1 ≤ x.limits.maxWitnessNodes) "growth_checker_budget"
    checkNode hash x node s entry
    let entry := entryAfter node s entry
    match node.actionId with
    | none =>
      require (node.branches.isEmpty = true ∧ node.effectDigests.isEmpty = true)
        "growth_plan_continuation_invalid"
      require ((← terminal x.contract.spec x.endpoint s entry) = true)
        "growth_plan_continuation_invalid"
      pure ⟨w.terminals ++ [s], w.entries ++ entryTimes entry, w.count + 1⟩
    | some actionId =>
      let recipe ← namedRecipe x actionId
      let effects := successors s recipe
      checkBranches node effects
      effects.foldlM (fun w effect => do
        let (child, next) ← followBranch hash x node s recipe effect
        walk x fuel child next entry w) { w with count := w.count + 1 }

def checkTree (x : Search) (root : GrowthPolicyNode) (start : GrowthState)
    (entry : Option GrowthCheckpoint) : Checked Candidate := do
  let w ← walk hash x (x.contract.spec.maxDecisions + 1) root start entry ⟨[], [], 0⟩
  pure ⟨root, w.terminals, w.entries, w.count⟩

/-! The collected lists only grow and the count is only compared with its limit, so a walk is
what its subtrees collect, put together, under the limit. -/

variable {hash}

namespace Walk

def one (s : GrowthState) (entry : Option GrowthCheckpoint) : Walk := ⟨[s], entryTimes entry, 1⟩

def join (a b : Walk) : Walk :=
  ⟨a.terminals ++ b.terminals, a.entries ++ b.entries, a.count + b.count⟩

def node : Walk := ⟨[], [], 1⟩

def gather (parts : List Walk) : Walk where
  terminals := parts.flatMap (·.terminals)
  entries := parts.flatMap (·.entries)
  count := (parts.map (·.count)).sum

theorem join_assoc (a b c : Walk) : (a.join b).join c = a.join (b.join c) := by
  simp [join, Nat.add_assoc]

theorem nil_join (w : Walk) : (⟨[], [], 0⟩ : Walk).join w = w := by
  simp [join]

theorem gather_cons (w : Walk) (parts : List Walk) :
    gather (w :: parts) = w.join (gather parts) := by
  simp [gather, join]

theorem join_gather_nil (w : Walk) : w.join (gather []) = w := by
  simp [gather, join]

end Walk

variable (hash) in
/-- What the walk of a subtree adds, without regard to the witness limit. -/
def visit (x : Search) : ℕ → GrowthPolicyNode → GrowthState → Option GrowthCheckpoint →
    Checked Walk
  | 0, _, _, _ => .error (.coded "growth_checker_budget")
  | fuel + 1, node, s, entry => do
    checkNode hash x node s entry
    let entry := entryAfter node s entry
    match node.actionId with
    | none =>
      require (node.branches.isEmpty = true ∧ node.effectDigests.isEmpty = true)
        "growth_plan_continuation_invalid"
      require ((← terminal x.contract.spec x.endpoint s entry) = true)
        "growth_plan_continuation_invalid"
      pure (.one s entry)
    | some actionId =>
      let recipe ← namedRecipe x actionId
      let effects := successors s recipe
      checkBranches node effects
      let parts ← effects.mapM fun effect => do
        let (child, next) ← followBranch hash x node s recipe effect
        visit x fuel child next entry
      pure (Walk.node.join (.gather parts))

def Follows (hash : Hashing) (x : Search) (fuel : ℕ) (node : GrowthPolicyNode) (s : GrowthState)
    (entry : Option GrowthCheckpoint) (recipe : GrowthAction) (effect : GrowthSuccessor)
    (v : Walk) : Prop :=
  ∃ child next, followBranch hash x node s recipe effect = .ok (child, next) ∧
    visit hash x fuel child next entry = .ok v

theorem visit_ok {x : Search} {fuel : ℕ} {node : GrowthPolicyNode} {s : GrowthState}
    {entry : Option GrowthCheckpoint} {v : Walk} :
    visit hash x (fuel + 1) node s entry = .ok v ↔
      checkNode hash x node s entry = .ok () ∧
        ((node.actionId = none ∧ (node.branches.isEmpty = true ∧ node.effectDigests.isEmpty = true) ∧
            terminal x.contract.spec x.endpoint s (entryAfter node s entry) = .ok true ∧
            .one s (entryAfter node s entry) = v) ∨
          ∃ actionId recipe parts, node.actionId = some actionId ∧
            namedRecipe x actionId = .ok recipe ∧
            checkBranches node (successors s recipe) = .ok () ∧
            List.Forall₂ (Follows hash x fuel node s (entryAfter node s entry) recipe)
              (successors s recipe) parts ∧
            Walk.node.join (.gather parts) = v) := by
  rw [visit, bind_ok, exists_punit]
  refine and_congr_right fun _ => ?_
  cases action : node.actionId with
  | none =>
    simp only [bind_ok, require_ok, pure_ok, exists_punit, reduceCtorEq, false_and, exists_false,
      or_false, true_and]
    constructor
    · rintro ⟨empty, _, reached, rfl, same⟩
      exact ⟨empty, reached, same⟩
    · rintro ⟨empty, reached, same⟩
      exact ⟨empty, true, reached, rfl, same⟩
  | some actionId =>
    simp only [bind_ok, pure_ok, mapM_ok, exists_punit, Prod.exists, reduceCtorEq, false_and, false_or,
      Option.some.injEq, exists_and_left, exists_eq_left']
    exact Iff.rfl

theorem visit_count_pos {x : Search} {fuel : ℕ} {node : GrowthPolicyNode} {s : GrowthState}
    {entry : Option GrowthCheckpoint} {v : Walk} (h : visit hash x fuel node s entry = .ok v) :
    1 ≤ v.count := by
  cases fuel with
  | zero => simp [visit] at h
  | succ fuel =>
    obtain ⟨-, ⟨-, -, -, rfl⟩ | ⟨-, -, parts, -, -, -, -, rfl⟩⟩ := visit_ok.mp h
    · simp [Walk.one]
    · simp [Walk.join, Walk.node]

theorem foldlM_walks {limit : ℕ} {α : Type} {step : Walk → α → Checked Walk}
    {part : α → Checked Walk}
    (each : ∀ a w w', step w a = .ok w' ↔
      ∃ v, part a = .ok v ∧ w.join v = w' ∧ w'.count ≤ limit) :
    ∀ {xs : List α} {w w' : Walk}, w.count ≤ limit → (xs.foldlM step w = .ok w' ↔
      ∃ parts, xs.mapM part = .ok parts ∧ w.join (.gather parts) = w' ∧ w'.count ≤ limit) := by
  intro xs
  induction xs with
  | nil =>
    intro w w' within
    simp only [List.foldlM_nil, List.mapM_nil, pure_ok, exists_eq_left', Walk.join_gather_nil]
    exact ⟨fun same => ⟨same, same ▸ within⟩, And.left⟩
  | cons a xs ih =>
    intro w w' within
    rw [List.foldlM_cons, bind_ok]
    simp only [List.mapM_cons, bind_ok, pure_ok, each]
    constructor
    · rintro ⟨u, ⟨v, head, rfl, limitU⟩, rest⟩
      obtain ⟨parts, tail, rfl, limitW⟩ := (ih limitU).mp rest
      refine ⟨v :: parts, ⟨v, head, parts, tail, rfl⟩, ?_, limitW⟩
      rw [Walk.gather_cons, Walk.join_assoc]
    · rintro ⟨_, ⟨v, head, parts, tail, rfl⟩, rfl, limitW⟩
      rw [Walk.gather_cons, ← Walk.join_assoc] at limitW ⊢
      have limitU : (w.join v).count ≤ limit := le_trans (Nat.le_add_right _ _) limitW
      exact ⟨w.join v, ⟨v, head, rfl, limitU⟩, (ih limitU).mpr ⟨parts, tail, rfl, limitW⟩⟩

theorem walk_ok {x : Search} :
    ∀ {fuel : ℕ} {node : GrowthPolicyNode} {s : GrowthState} {entry : Option GrowthCheckpoint}
      {w w' : Walk}, walk hash x fuel node s entry w = .ok w' ↔
        ∃ v, visit hash x fuel node s entry = .ok v ∧ w.join v = w' ∧
          w'.count ≤ x.limits.maxWitnessNodes := by
  intro fuel
  induction fuel with
  | zero => simp [walk, visit]
  | succ fuel ih =>
    intro node s entry w w'
    have each : ∀ recipe effect u u',
        (do
          let (child, next) ← followBranch hash x node s recipe effect
          walk hash x fuel child next (entryAfter node s entry) u) = .ok u' ↔
          ∃ v, (do
            let (child, next) ← followBranch hash x node s recipe effect
            visit hash x fuel child next (entryAfter node s entry)) = .ok v ∧
            u.join v = u' ∧ u'.count ≤ x.limits.maxWitnessNodes := by
      intro recipe effect u u'
      simp only [bind_ok, Prod.exists, ih]
      tauto
    rw [walk, bind_ok, exists_punit, require_ok, bind_ok, exists_punit]
    cases action : node.actionId with
    | none =>
      simp only [visit_ok, action, bind_ok, require_ok, pure_ok, exists_punit, reduceCtorEq,
        false_and, exists_false, or_false, true_and]
      constructor
      · rintro ⟨limit, own, empty, _, reached, rfl, rfl⟩
        exact ⟨_, ⟨own, empty, reached, rfl⟩, rfl, limit⟩
      · rintro ⟨_, ⟨own, empty, reached, rfl⟩, rfl, limit⟩
        exact ⟨limit, own, empty, true, reached, rfl, rfl⟩
    | some actionId =>
      simp only [visit_ok, action, bind_ok, exists_punit, reduceCtorEq, false_and, false_or,
        Option.some.injEq, exists_and_left, exists_eq_left']
      have started : w.join Walk.node = { w with count := w.count + 1 } := by
        simp [Walk.join, Walk.node]
      constructor
      · rintro ⟨limit, own, recipe, named, branches, folded⟩
        obtain ⟨parts, followed, rfl, limit'⟩ := (foldlM_walks (each recipe) limit).mp folded
        rw [mapM_ok] at followed
        refine ⟨_, ⟨own, recipe, named, branches, parts, ?_, rfl⟩, ?_, limit'⟩
        · simp only [bind_ok, Prod.exists] at followed
          exact followed
        · rw [← Walk.join_assoc, started]
      · rintro ⟨_, ⟨own, recipe, named, branches, parts, followed, rfl⟩, rfl, limit⟩
        rw [← Walk.join_assoc, started] at limit ⊢
        have limit' : w.count + 1 ≤ x.limits.maxWitnessNodes :=
          le_trans (Nat.le_add_right _ _) limit
        refine ⟨limit', own, recipe, named, branches, (foldlM_walks (each recipe) limit').mpr
          ⟨parts, ?_, rfl, limit⟩⟩
        rw [mapM_ok]
        simp only [bind_ok, Prod.exists]
        exact followed

end CollectivePhaseControl
