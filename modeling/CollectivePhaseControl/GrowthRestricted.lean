import CollectivePhaseControl.GrowthScalar

/-! Restricted policy trees, and what backward induction says about them: at every ledger
that a run reaches, the best worst case over all trees, and a tree that has it. -/
namespace CollectivePhaseControl

open BudgetedSearch

variable (hash : Hashing)

def Stops (x : Search) (node : GrowthPolicyNode) (s : GrowthState) (leaves : List GrowthState) :
    Prop :=
  node.actionId = none ∧ x.endpoint = some (F s.elapsed) ∧ leaves = [s]

/-- Within `n` decisions the tree uses catalogue actions without an excluded interaction,
answers every successor and ends every branch at the endpoint, in these leaves. -/
def Restricted (x : Search) : ℕ → GrowthPolicyNode → GrowthState → List GrowthState → Prop
  | 0, node, s, leaves => Stops x node s leaves
  | n + 1, node, s, leaves => Stops x node s leaves ∨ ∃ actionId recipe parts,
      node.actionId = some actionId ∧ Named x actionId recipe ∧
        (∀ interaction ∈ recipe.interactions, interaction ∉ x.excluded) ∧
        successors s recipe ≠ [] ∧
        List.Forall₂ (fun effect part => ∃ child next,
          transition hash x.contract s recipe effect x.objects x.frontier = .ok next ∧
            node.branches.lookup effect.successorId = some child ∧
            Restricted x n child next part) (successors s recipe) parts ∧
        parts.flatten = leaves

def Worst (c : GrowthContractSpec) (bound : Bound) (leaves : List GrowthState) (v : ℚ) : Prop :=
  IsLeast {a | ∃ leaf ∈ leaves, attainment c leaf bound = .ok a} v

def guaranteed (x : Search) (bound : Bound) (n : ℕ) (s : GrowthState) : Set ℚ :=
  {v | ∃ node leaves, Restricted hash x n node s leaves ∧ Worst x.contract.spec bound leaves v}

variable {hash} {x : Search}

theorem worst_singleton {c : GrowthContractSpec} {bound : Bound} {s : GrowthState} {v : ℚ} :
    Worst c bound [s] v ↔ attainment c s bound = .ok v := by
  simp only [Worst, List.mem_singleton, exists_eq_left]
  constructor
  · exact fun least => least.1
  · refine fun value => ⟨value, fun a other => ?_⟩
    cases value.symm.trans other
    exact le_rfl

theorem worst_flatten {c : GrowthContractSpec} {bound : Bound} {parts : List (List GrowthState)}
    {values : List ℚ} {v : ℚ} (each : List.Forall₂ (Worst c bound) parts values)
    (least : values.min? = some v) : Worst c bound parts.flatten v := by
  obtain ⟨listed, lower⟩ := List.min?_eq_some_iff.mp least
  constructor
  · obtain ⟨part, inParts, ⟨leaf, member, value⟩, -⟩ := forall₂_mem_right each v listed
    exact ⟨leaf, List.mem_flatten.mpr ⟨part, inParts, member⟩, value⟩
  · rintro a ⟨leaf, member, value⟩
    obtain ⟨part, inParts, inPart⟩ := List.mem_flatten.mp member
    obtain ⟨w, inValues, -, smallest⟩ := forall₂_mem_left each part inParts
    exact (lower w inValues).trans (smallest ⟨leaf, inPart, value⟩)

theorem worst_total {c : GrowthContractSpec} {bound : Bound} {leaves : List GrowthState}
    (some' : leaves ≠ []) (attained : ∀ leaf ∈ leaves, ∃ a, attainment c leaf bound = .ok a) :
    ∃ v, Worst c bound leaves v := by
  obtain ⟨values, each⟩ := mapM_total attained
  rw [mapM_ok] at each
  have nonempty : values ≠ [] := by
    rintro rfl
    rw [List.forall₂_nil_right_iff] at each
    exact some' each
  obtain ⟨v, least⟩ := MaxMin.exists_min? nonempty
  obtain ⟨listed, lower⟩ := List.min?_eq_some_iff.mp least
  refine ⟨v, forall₂_mem_right each v listed, ?_⟩
  rintro a ⟨leaf, member, value⟩
  obtain ⟨b, inValues, value'⟩ := forall₂_mem_left each leaf member
  cases value.symm.trans value'
  exact lower a inValues

theorem Restricted.reachable {n : ℕ} : ∀ {node : GrowthPolicyNode} {s : GrowthState}
    {leaves : List GrowthState}, Restricted hash x n node s leaves →
      Reachable hash x.contract x.objects x.frontier s →
      leaves ≠ [] ∧ ∀ leaf ∈ leaves, Reachable hash x.contract x.objects x.frontier leaf := by
  induction n with
  | zero =>
    rintro node s leaves ⟨-, -, rfl⟩ reachable
    exact ⟨List.cons_ne_nil _ _, by simpa using reachable⟩
  | succ n ih =>
    rintro node s leaves (⟨-, -, rfl⟩ | ⟨actionId, recipe, parts, -, named, -, some', each, rfl⟩)
      reachable
    · exact ⟨List.cons_ne_nil _ _, by simpa using reachable⟩
    · have below : ∀ part ∈ parts, part ≠ [] ∧
          ∀ leaf ∈ part, Reachable hash x.contract x.objects x.frontier leaf := by
        intro part listed
        obtain ⟨effect, -, child, next, moved, -, restricted⟩ := forall₂_mem_right each part listed
        exact ih restricted (reachable.step (named.steps moved))
      constructor
      · obtain ⟨effect, picked⟩ := List.exists_mem_of_ne_nil _ some'
        obtain ⟨part, listed, -⟩ := forall₂_mem_left each effect picked
        obtain ⟨leaf, member⟩ := List.exists_mem_of_ne_nil _ (below part listed).1
        exact List.ne_nil_of_mem (List.mem_flatten.mpr ⟨part, listed, member⟩)
      · intro leaf member
        obtain ⟨part, listed, inPart⟩ := List.mem_flatten.mp member
        exact (below part listed).2 leaf inPart

theorem Restricted.elapsed_le (facts : ContractFacts x.contract.spec x.objects) {time : ℚ}
    (fixed : x.endpoint = some time) {n : ℕ} : ∀ {node : GrowthPolicyNode} {s : GrowthState}
    {leaves : List GrowthState}, Restricted hash x n node s leaves →
      F s.elapsed ≤ time ∧ (node.actionId ≠ none → F s.elapsed < time) := by
  have atEnd : ∀ {node s leaves}, Stops x node s leaves →
      F s.elapsed ≤ time ∧ (node.actionId ≠ none → F s.elapsed < time) := by
    rintro node s leaves ⟨stays, ended, -⟩
    rw [fixed] at ended
    cases ended
    exact ⟨le_rfl, fun acts => absurd stays acts⟩
  induction n with
  | zero => exact fun stops => atEnd stops
  | succ n ih =>
    rintro node s leaves (stops | ⟨actionId, recipe, parts, -, named, -, some', each, -⟩)
    · exact atEnd stops
    · obtain ⟨effect, picked⟩ := List.exists_mem_of_ne_nil _ some'
      obtain ⟨part, -, child, next, moved, -, restricted⟩ := forall₂_mem_left each effect picked
      have before := ((named.steps moved).elapsed_lt facts).trans_le (ih restricted).1
      exact ⟨before.le, fun _ => before⟩

def answered (hash : Hashing) (x : Search) (bound : Bound) (n : ℕ) (s : GrowthState)
    (recipe : GrowthAction) : Set ℚ :=
  {v | ∃ nexts, successors s recipe ≠ [] ∧
    (successors s recipe).mapM (fun effect =>
      transition hash x.contract s recipe effect x.objects x.frontier) = .ok nexts ∧
    v ∈ MaxMin.minima (nexts.map (guaranteed hash x bound n))}

theorem restricted_act (facts : ContractFacts x.contract.spec x.objects) {n : ℕ} {s : GrowthState}
    {actionId : Identifier} {recipe : GrowthAction} (named : Named x actionId recipe)
    (avoids : ∀ interaction ∈ recipe.interactions, interaction ∉ x.excluded)
    (some' : successors s recipe ≠ []) {subtrees : List (GrowthPolicyNode × List GrowthState)}
    (each : List.Forall₂ (fun effect subtree => ∃ next,
      transition hash x.contract s recipe effect x.objects x.frontier = .ok next ∧
        Restricted hash x n subtree.1 next subtree.2) (successors s recipe) subtrees)
    {node : GrowthPolicyNode} (acts : node.actionId = some actionId)
    (branches : node.branches =
      ((successors s recipe).map (·.successorId)).zip (subtrees.map (·.1))) :
    Restricted hash x (n + 1) node s (subtrees.map (·.2)).flatten := by
  have sameLength : ((successors s recipe).map (·.successorId)).length =
      (subtrees.map (·.1)).length := by simpa using each.length_eq
  have found := forall₂_lookup_zip ((facts.recipes recipe named.1).successors_nodup s) sameLength
  rw [List.forall₂_map_left_iff, List.forall₂_map_right_iff, ← branches] at found
  refine .inr ⟨actionId, recipe, _, acts, named, avoids, some', ?_, rfl⟩
  rw [List.forall₂_map_right_iff]
  refine (forall₂_and each found).imp ?_
  rintro effect subtree ⟨⟨next, moved, restricted⟩, child⟩
  exact ⟨subtree.1, next, moved, child, restricted⟩

theorem parts_values (facts : ContractFacts x.contract.spec x.objects) (bound : Bound) {n : ℕ}
    {s : GrowthState} (reachable : Reachable hash x.contract x.objects x.frontier s)
    {recipe : GrowthAction} (listed : recipe ∈ x.contract.spec.actionCatalogue)
    {child : GrowthSuccessor → Option GrowthPolicyNode} {effects : List GrowthSuccessor}
    {parts : List (List GrowthState)}
    (each : List.Forall₂ (fun effect part => ∃ node next,
      transition hash x.contract s recipe effect x.objects x.frontier = .ok next ∧
        child effect = some node ∧ Restricted hash x n node next part) effects parts) :
    ∃ nexts values,
      List.Forall₂ (fun effect next =>
        transition hash x.contract s recipe effect x.objects x.frontier = .ok next) effects nexts ∧
      List.Forall₂ (· ∈ ·) values (nexts.map (guaranteed hash x bound n)) ∧
      List.Forall₂ (Worst x.contract.spec bound) parts values := by
  induction each with
  | nil => exact ⟨[], [], .nil, .nil, .nil⟩
  | cons head _ ih =>
    obtain ⟨nexts, values, moves, members, worst⟩ := ih
    obtain ⟨node, next, moved, -, restricted⟩ := head
    have step : Steps hash x.contract x.objects x.frontier s ⟨recipe, _⟩ next := ⟨listed, moved⟩
    obtain ⟨some', within⟩ := restricted.reachable (reachable.step step)
    obtain ⟨v, least⟩ := worst_total some' fun leaf member =>
      attainment_total facts (within leaf member).admitted.2 bound
    exact ⟨next :: nexts, v :: values, .cons moved moves,
      .cons ⟨node, _, restricted, least⟩ members, .cons least worst⟩

theorem picked_trees {bound : Bound} {n : ℕ} {s : GrowthState} {recipe : GrowthAction}
    {effects : List GrowthSuccessor} {nexts : List GrowthState} {values : List ℚ}
    (moves : List.Forall₂ (fun effect next =>
      transition hash x.contract s recipe effect x.objects x.frontier = .ok next) effects nexts)
    (members : List.Forall₂ (· ∈ ·) values (nexts.map (guaranteed hash x bound n))) :
    ∃ subtrees : List (GrowthPolicyNode × List GrowthState),
      List.Forall₂ (fun effect subtree => ∃ next,
        transition hash x.contract s recipe effect x.objects x.frontier = .ok next ∧
          Restricted hash x n subtree.1 next subtree.2) effects subtrees ∧
      List.Forall₂ (Worst x.contract.spec bound) (subtrees.map (·.2)) values := by
  induction moves generalizing values with
  | nil =>
    cases members
    exact ⟨[], .nil, .nil⟩
  | cons moved _ ih =>
    cases members with
    | cons member members =>
      obtain ⟨subtrees, each, worst⟩ := ih members
      obtain ⟨node, leaves, restricted, least⟩ := member
      exact ⟨(node, leaves) :: subtrees, .cons ⟨_, moved, restricted⟩ each, .cons least worst⟩

theorem guaranteed_succ (facts : ContractFacts x.contract.spec x.objects) {bound : Bound} {n : ℕ}
    {s : GrowthState} (reachable : Reachable hash x.contract x.objects x.frontier s)
    (before : x.endpoint ≠ some (F s.elapsed)) {recipes : List (Identifier × GrowthAction)}
    (sorted : x.sortedRecipes = .ok recipes) :
    guaranteed hash x bound (n + 1) s =
      {v | ∃ values ∈ (x.allowed recipes).map fun p => answered hash x bound n s p.2, v ∈ values} := by
  have known := sortedRecipes_ok sorted
  ext v
  simp only [Set.mem_ofPred_eq, List.mem_map, Search.allowed, List.mem_filter, decide_eq_true_eq,
    exists_exists_and_eq_and]
  constructor
  · rintro ⟨node, leaves, ⟨-, ended, -⟩ | ⟨actionId, recipe, parts, -, named, avoids, some', each, rfl⟩,
      least⟩
    · exact absurd ended before
    · obtain ⟨listed, action, document, same⟩ := id named
      obtain ⟨nexts, values, moves, members, worst⟩ :=
        parts_values facts bound reachable listed each
      have nonempty : values ≠ [] := by
        rintro rfl
        rw [List.forall₂_nil_right_iff] at worst
        rw [worst, List.forall₂_nil_right_iff] at each
        exact some' each
      obtain ⟨w, smallest⟩ := MaxMin.exists_min? nonempty
      cases least.unique (worst_flatten worst smallest)
      exact ⟨(actionId, recipe), ⟨(known _).mpr ⟨listed, action, document, same⟩, avoids⟩,
        nexts, some', mapM_ok.mpr moves, values, members, smallest⟩
  · rintro ⟨⟨actionId, recipe⟩, ⟨inRecipes, avoids⟩, nexts, some', moves, values, members, smallest⟩
    obtain ⟨listed, action, document, same⟩ := (known _).mp inRecipes
    obtain ⟨subtrees, each, worst⟩ := picked_trees (mapM_ok.mp moves) members
    let node : GrowthPolicyNode := ⟨"", some actionId, false,
      ((successors s recipe).map (·.successorId)).zip (subtrees.map (·.1)), ∅⟩
    exact ⟨node, _, restricted_act facts ⟨listed, action, document, same⟩ avoids some' each rfl rfl,
      worst_flatten worst smallest⟩

theorem answered_eq_empty {bound : Bound} {n : ℕ} {s : GrowthState} {recipe : GrowthAction}
    {effect : GrowthSuccessor} (picked : effect ∈ successors s recipe)
    (nothing : ∀ next, transition hash x.contract s recipe effect x.objects x.frontier = .ok next →
      guaranteed hash x bound n next = ∅) : answered hash x bound n s recipe = ∅ := by
  refine Set.eq_empty_iff_forall_notMem.mpr ?_
  rintro v ⟨nexts, -, moves, member⟩
  obtain ⟨next, listed, moved⟩ := forall₂_mem_left (mapM_ok.mp moves) effect picked
  have missing : ∅ ∈ nexts.map (guaranteed hash x bound n) :=
    List.mem_map.mpr ⟨next, listed, nothing next moved⟩
  rw [MaxMin.minima_eq_empty missing] at member
  exact member

theorem answered_eq {bound : Bound} {n : ℕ} {s : GrowthState} {recipe : GrowthAction}
    (some' : successors s recipe ≠ []) {nexts : List GrowthState}
    (moves : (successors s recipe).mapM (fun effect =>
      transition hash x.contract s recipe effect x.objects x.frontier) = .ok nexts) :
    answered hash x bound n s recipe = MaxMin.minima (nexts.map (guaranteed hash x bound n)) := by
  ext v
  constructor
  · rintro ⟨nexts', -, moves', member⟩
    cases moves.symm.trans moves'
    exact member
  · exact fun member => ⟨nexts, some', moves, member⟩

section solved
variable {recur : GrowthState → Checked (Option ScalarSolution)}

theorem solveChildren_ok {s : GrowthState} {recipe : GrowthAction} :
    ∀ {effects : List GrowthSuccessor} {children : List ScalarSolution},
      solveChildren hash x recur s recipe effects = .ok children →
        List.Forall₂ (fun effect child => ∃ next,
          transition hash x.contract s recipe effect x.objects x.frontier = .ok next ∧
            recur next = .ok (some child)) effects children ∨
        (children.length ≠ effects.length ∧ ∃ effect ∈ effects, ∃ next,
          transition hash x.contract s recipe effect x.objects x.frontier = .ok next ∧
            recur next = .ok none) := by
  intro effects
  induction effects with
  | nil =>
    intro children h
    rw [solveChildren, pure_ok] at h
    exact .inl (h ▸ .nil)
  | cons effect effects ih =>
    intro children h
    simp only [solveChildren, bind_ok] at h
    obtain ⟨next, moved, solution, solved, rest⟩ := h
    cases solution with
    | none =>
      cases pure_ok.mp rest
      exact .inr ⟨by simp, effect, List.mem_cons_self, next, moved, solved⟩
    | some child =>
      simp only [bind_ok, pure_ok] at rest
      obtain ⟨others, found, rfl⟩ := rest
      rcases ih found with all | ⟨short, other, listed, missing⟩
      · exact .inl (.cons ⟨next, moved, solved⟩ all)
      · exact .inr ⟨by simpa using short, other, List.mem_cons_of_mem _ listed, missing⟩

theorem solveChildren_coded (uncoded : ∀ next, Uncoded (recur next)) {s : GrowthState}
    {recipe : GrowthAction} {code : String} : ∀ {effects : List GrowthSuccessor},
      solveChildren hash x recur s recipe effects = .error (.coded code) →
        ∃ effect ∈ effects, ∀ next,
          transition hash x.contract s recipe effect x.objects x.frontier ≠ .ok next := by
  intro effects
  induction effects with
  | nil => exact fun h => nomatch h
  | cons effect effects ih =>
    intro h
    rw [solveChildren] at h
    cases moved : transition hash x.contract s recipe effect x.objects x.frontier with
    | error fault => exact ⟨effect, List.mem_cons_self, by simp [moved]⟩
    | ok next =>
      rw [moved, ok_bind] at h
      cases solved : recur next with
      | error fault =>
        rw [solved] at h
        cases h
        exact absurd solved (uncoded next code)
      | ok solution =>
        rw [solved, ok_bind] at h
        cases solution with
        | none => exact nomatch h
        | some child =>
          have later : solveChildren hash x recur s recipe effects = .error (.coded code) := by
            cases rest : solveChildren hash x recur s recipe effects with
            | ok others => rw [rest] at h; exact nomatch h
            | error fault => rw [rest] at h; cases h; rfl
          obtain ⟨other, listed, stuck⟩ := ih later
          exact ⟨other, List.mem_cons_of_mem _ listed, stuck⟩

theorem solveRecipe_coded (uncoded : ∀ next, Uncoded (recur next)) {s : GrowthState}
    {recipe : GrowthAction} (some' : successors s recipe ≠ []) {digest : Digest} {code : String}
    (h : solveRecipe hash x recur s digest recipe = .error (.coded code)) :
    ∃ effect ∈ successors s recipe, ∀ next,
      transition hash x.contract s recipe effect x.objects x.frontier ≠ .ok next := by
  rw [solveRecipe] at h
  cases allowed : applicable hash x.contract s recipe x.objects x.frontier with
  | error fault =>
    obtain ⟨effect, picked⟩ := List.exists_mem_of_ne_nil _ some'
    refine ⟨effect, picked, fun next moved => ?_⟩
    obtain ⟨action, cap, -, allowed', -⟩ := transition_ok moved
    cases allowed.symm.trans allowed'
  | ok both =>
    rw [allowed, ok_bind] at h
    have nonempty : require (successors s recipe ≠ []) "growth_successor_incomplete" = .ok () :=
      require_ok.mpr some'
    simp only [nonempty, ok_bind] at h
    cases solved : solveChildren hash x recur s recipe (successors s recipe) with
    | error fault =>
      rw [solved] at h
      cases h
      exact solveChildren_coded uncoded solved
    | ok children =>
      rw [solved, ok_bind] at h
      split at h
      · cases h
      · have built : Uncoded (composed hash digest both.1.actionId (successors s recipe) children) :=
          uncoded_bind uncoded_demand fun _ => uncoded_bind uncoded_demand fun _ => uncoded_ok _
        exact absurd h (uncoded_bind built (fun _ => uncoded_ok _) code)

theorem solved_nexts {s : GrowthState} {recipe : GrowthAction} {effects : List GrowthSuccessor}
    {children : List ScalarSolution}
    (all : List.Forall₂ (fun effect child => ∃ next,
      transition hash x.contract s recipe effect x.objects x.frontier = .ok next ∧
        recur next = .ok (some child)) effects children) :
    ∃ nexts, List.Forall₂ (fun effect next =>
        transition hash x.contract s recipe effect x.objects x.frontier = .ok next) effects nexts ∧
      List.Forall₂ (fun next child => recur next = .ok (some child)) nexts children := by
  induction all with
  | nil => exact ⟨[], .nil, .nil⟩
  | cons head _ ih =>
    obtain ⟨next, moved, solved⟩ := head
    obtain ⟨nexts, moves, ends⟩ := ih
    exact ⟨next :: nexts, .cons moved moves, .cons solved ends⟩

end solved

/-- A solution reaches its lower bound by a tree of its own. -/
structure Attains (hash : Hashing) (x : Search) (n : ℕ) (s : GrowthState)
    (solution : ScalarSolution) : Prop where
  restricted : Restricted hash x n solution.candidate.node s solution.candidate.terminals
  lower : Worst x.contract.spec .lower solution.candidate.terminals solution.lower

structure Solved (hash : Hashing) (x : Search) (n : ℕ) (s : GrowthState)
    (result : Option ScalarSolution) : Prop where
  best : ∀ bound, MaxMin.Best (guaranteed hash x bound n s) (result.map (·.at' bound))
  attains : ∀ solution ∈ result, Attains hash x n s solution

theorem composed_ok {digest : Digest} {actionId : Identifier} {effects : List GrowthSuccessor}
    {children : List ScalarSolution} {solution : ScalarSolution}
    (h : composed hash digest actionId effects children = .ok solution) :
    (∀ bound, (children.map (·.at' bound)).min? = some (solution.at' bound)) ∧
      solution.candidate.node =
        decisionNode hash digest actionId false effects (children.map (·.candidate)) ∧
      solution.candidate.terminals = (children.map (·.candidate.terminals)).flatten := by
  simp only [composed, bind_ok, pure_ok] at h
  obtain ⟨lower, low, upper, up, rfl⟩ := h
  refine ⟨fun bound => ?_, rfl, ?_⟩
  · cases bound with
    | lower => exact demand_ok.mp low
    | upper => exact demand_ok.mp up
  · simp [decision, List.flatMap_def]
    rfl

theorem solveRecipe_best (facts : ContractFacts x.contract.spec x.objects) {n : ℕ}
    {s : GrowthState} (reachable : Reachable hash x.contract x.objects x.frontier s)
    (uncoded : ∀ next, Uncoded (solve hash x n next))
    (ih : ∀ {next result}, Reachable hash x.contract x.objects x.frontier next →
      solve hash x n next = .ok result → Solved hash x n next result) {recipe : GrowthAction}
    (listed : recipe ∈ x.contract.spec.actionCatalogue)
    (avoids : ∀ interaction ∈ recipe.interactions, interaction ∉ x.excluded) {digest : Digest}
    {solutions : List ScalarSolution}
    (h : excused [] (solveRecipe hash x (solve hash x n) s digest recipe) = .ok solutions) :
    (∀ bound, MaxMin.Best (answered hash x bound n s recipe)
      (solutions.map (·.at' bound)).max?) ∧
      ∀ solution ∈ solutions, Attains hash x (n + 1) s solution := by
  have none' : (∀ bound, answered hash x bound n s recipe = ∅) →
      (∀ bound, MaxMin.Best (answered hash x bound n s recipe)
        (([] : List ScalarSolution).map (·.at' bound)).max?) ∧
        ∀ solution ∈ ([] : List ScalarSolution), Attains hash x (n + 1) s solution :=
    fun nothing => ⟨fun bound => nothing bound, by simp⟩
  rcases excused_ok.mp h with found | ⟨⟨code, failed⟩, rfl⟩
  · simp only [solveRecipe, bind_ok, require_ok] at found
    obtain ⟨⟨action, cap⟩, allowed, -, some', children, solved, rest⟩ := found
    have step : ∀ {effect next}, transition hash x.contract s recipe effect x.objects x.frontier =
        .ok next → Reachable hash x.contract x.objects x.frontier next :=
      fun {effect next} moved => reachable.step (show Steps hash x.contract x.objects x.frontier s
        ⟨recipe, effect⟩ next from ⟨listed, moved⟩)
    rcases solveChildren_ok solved with all | ⟨short, effect, picked, next, moved, missing⟩
    · rw [if_neg (not_not.mpr all.length_eq.symm)] at rest
      simp only [bind_ok, pure_ok] at rest
      obtain ⟨solution, built, rfl⟩ := rest
      obtain ⟨least, node, terminals⟩ := composed_ok built
      obtain ⟨nexts, moves, ends⟩ := solved_nexts all
      have each : List.Forall₂ (fun next child => Reachable hash x.contract x.objects x.frontier
          next ∧ Solved hash x n next (some child)) nexts children := by
        have reached : ∀ next ∈ nexts, Reachable hash x.contract x.objects x.frontier next := by
          intro next member
          obtain ⟨effect, -, moved⟩ := forall₂_mem_right moves next member
          exact step moved
        refine ((List.forall₂_and_left _ _).mpr ⟨reached, ends⟩).imp ?_
        rintro next child ⟨reached, solved⟩
        exact ⟨reached, ih reached solved⟩
      refine ⟨fun bound => ?_, fun solution' member => ?_⟩
      · rw [answered_eq some' (mapM_ok.mpr moves), List.map_singleton, List.max?_singleton]
        refine MaxMin.greatest_minima ?_ (least bound)
        rw [List.forall₂_map_left_iff, List.forall₂_map_right_iff]
        exact each.imp fun next child both => both.2.best bound
      · cases List.mem_singleton.mp member
        have reaches : List.Forall₂ (fun effect child => ∃ next,
            transition hash x.contract s recipe effect x.objects x.frontier = .ok next ∧
              Attains hash x n next child) (successors s recipe) children := by
          refine all.imp ?_
          rintro effect child ⟨next, moved, solved⟩
          exact ⟨next, moved, (ih (step moved) solved).attains child rfl⟩
        refine ⟨?_, ?_⟩
        · have subtrees : List.Forall₂ (fun effect subtree => ∃ next,
              transition hash x.contract s recipe effect x.objects x.frontier = .ok next ∧
                Restricted hash x n subtree.1 next subtree.2) (successors s recipe)
              (children.map fun child => (child.candidate.node, child.candidate.terminals)) := by
            rw [List.forall₂_map_right_iff]
            refine reaches.imp ?_
            rintro effect child ⟨next, moved, attains⟩
            exact ⟨next, moved, attains.restricted⟩
          have acts : solution.candidate.node.actionId = some action.actionId := by rw [node]; rfl
          have branches : solution.candidate.node.branches =
              ((successors s recipe).map (·.successorId)).zip
                ((children.map fun child => (child.candidate.node, child.candidate.terminals)).map
                  (·.1)) := by
            rw [node]
            simp [decisionNode, Function.comp_def]
          have built := restricted_act facts ⟨listed, action, applicable_action allowed, rfl⟩ avoids
            some' subtrees acts branches
          rw [terminals]
          simpa [Function.comp_def] using built
        · rw [terminals]
          refine worst_flatten ?_ (least .lower)
          rw [List.forall₂_map_left_iff, List.forall₂_map_right_iff, List.forall₂_same]
          intro child listed'
          obtain ⟨effect, -, next, -, attains⟩ := forall₂_mem_right reaches child listed'
          exact attains.lower
    · rw [if_pos short] at rest
      cases pure_ok.mp rest
      refine none' fun bound => answered_eq_empty picked fun next' moved' => ?_
      cases moved.symm.trans moved'
      exact (ih (step moved) missing).best bound
  · refine none' fun bound => ?_
    by_cases some' : successors s recipe = []
    · refine Set.eq_empty_iff_forall_notMem.mpr ?_
      rintro v ⟨nexts, nonempty, -⟩
      exact nonempty some'
    · obtain ⟨effect, picked, stuck⟩ := solveRecipe_coded uncoded some' failed
      exact answered_eq_empty picked fun next moved => absurd moved (stuck next)

theorem selectScalar_ok {choices : List ScalarSolution} {result : Option ScalarSolution}
    (h : selectScalar hash choices = .ok result) :
    (∀ bound, (choices.map (·.at' bound)).max? = result.map (·.at' bound)) ∧
      ∀ solution ∈ result, ∃ choice ∈ choices, choice.candidate = solution.candidate ∧
        choice.lower = solution.lower := by
  unfold selectScalar at h
  split at h
  case h_1 nothing =>
    cases pure_ok.mp h
    rw [List.argmin_eq_none] at nothing
    subst nothing
    exact ⟨fun _ => rfl, fun _ absurd' => nomatch absurd'⟩
  case h_2 best least =>
    simp only [bind_ok, pure_ok] at h
    obtain ⟨upper, greatest, rfl⟩ := h
    have member : best ∈ choices := List.argmin_mem least
    refine ⟨fun bound => ?_, ?_⟩
    · cases bound with
      | upper => exact demand_ok.mp greatest
      | lower =>
        refine List.max?_eq_some_iff.mpr ⟨List.mem_map.mpr ⟨best, member, rfl⟩, ?_⟩
        intro a listed
        obtain ⟨other, inChoices, rfl⟩ := List.mem_map.mp listed
        have order := List.not_lt_of_mem_argmin inChoices least
        rw [not_lt, scalarKey, scalarKey, Prod.Lex.toLex_le_toLex] at order
        have first : -best.lower ≤ -other.lower := by
          rcases order with strict | ⟨same, -⟩
          · exact strict.le
          · exact same.le
        exact neg_le_neg_iff.mp first
    · rintro solution ⟨⟩
      exact ⟨best, member, rfl, rfl⟩

theorem uncoded_terminal {time : ℚ} (fixed : x.endpoint = some time) {s : GrowthState}
    {entry : Option GrowthCheckpoint} : Uncoded (terminal x.contract.spec x.endpoint s entry) := by
  rw [fixed]
  exact uncoded_ok _

theorem uncoded_solveStep {time : ℚ} (fixed : x.endpoint = some time)
    {recur : GrowthState → Checked (Option ScalarSolution)} {n : ℕ} {s : GrowthState} :
    Uncoded (solveStep hash x recur n s) := by
  refine uncoded_bind uncoded_stateDigest fun _ => uncoded_bind (uncoded_terminal fixed) fun ended => ?_
  cases ended with
  | true =>
    exact uncoded_bind uncoded_attainment fun _ => uncoded_bind uncoded_attainment fun _ => uncoded_ok _
  | false =>
    have some' : require (x.endpoint ≠ none) "growth_scalar_endpoint_required" = .ok () :=
      require_ok.mpr (by simp [fixed])
    rw [if_neg Bool.false_ne_true, some', ok_bind]
    split
    · exact uncoded_ok _
    · refine uncoded_bind uncoded_sortedRecipes fun _ => uncoded_bind uncoded_gathered fun _ => ?_
      unfold selectScalar
      split
      · exact uncoded_ok _
      · exact uncoded_bind uncoded_demand fun _ => uncoded_ok _

theorem uncoded_solve {time : ℚ} (fixed : x.endpoint = some time) (n : ℕ) (s : GrowthState) :
    Uncoded (solve hash x n s) := by
  cases n <;> exact uncoded_solveStep fixed

theorem gathered_solved (facts : ContractFacts x.contract.spec x.objects) {time : ℚ}
    (fixed : x.endpoint = some time) {n : ℕ} {s : GrowthState}
    (reachable : Reachable hash x.contract x.objects x.frontier s)
    (before : x.endpoint ≠ some (F s.elapsed))
    (ih : ∀ {next result}, Reachable hash x.contract x.objects x.frontier next →
      solve hash x n next = .ok result → Solved hash x n next result)
    {recipes : List (Identifier × GrowthAction)} (sorted : x.sortedRecipes = .ok recipes)
    {digest : Digest} {choices : List ScalarSolution} {result : Option ScalarSolution}
    (found : gathered (fun p => solveRecipe hash x (solve hash x n) s digest p.2)
      (x.allowed recipes) = .ok choices) (selected : selectScalar hash choices = .ok result) :
    Solved hash x (n + 1) s result := by
  rw [gathered, map_ok] at found
  obtain ⟨lists, solved, rfl⟩ := found
  rw [mapM_ok] at solved
  have each : List.Forall₂ (fun p solutions =>
      (∀ bound, MaxMin.Best (answered hash x bound n s p.2)
        ((solutions.map (·.at' bound)).max?)) ∧
      ∀ solution ∈ solutions, Attains hash x (n + 1) s solution) (x.allowed recipes) lists := by
    refine ((List.forall₂_and_left _ _).mpr ⟨fun _ member => member, solved⟩).imp ?_
    rintro p solutions ⟨member, answer⟩
    obtain ⟨inRecipes, avoids⟩ := List.mem_filter.mp member
    obtain ⟨listed, -⟩ := (sortedRecipes_ok sorted p).mp inRecipes
    exact solveRecipe_best facts reachable (uncoded_solve fixed n) ih listed (by simpa using avoids)
      answer
  obtain ⟨tops, picks⟩ := selectScalar_ok selected
  constructor
  · intro bound
    rw [guaranteed_succ facts reachable before sorted, ← tops bound, List.map_flatten]
    refine MaxMin.best_union ?_
    rw [List.forall₂_map_left_iff, List.forall₂_map_right_iff]
    exact each.imp fun p solutions both => both.1 bound
  · intro solution chosen
    obtain ⟨choice, member, candidate, lower⟩ := picks solution chosen
    obtain ⟨solutions, inLists, inSolutions⟩ := List.mem_flatten.mp member
    obtain ⟨p, -, -, attains⟩ := forall₂_mem_right each solutions inLists
    have reached := attains choice inSolutions
    exact ⟨candidate ▸ reached.restricted, candidate ▸ lower ▸ reached.lower⟩

theorem Restricted.stops {n : ℕ} {node : GrowthPolicyNode} {s : GrowthState}
    {leaves : List GrowthState} (restricted : Restricted hash x n node s leaves)
    (stays : node.actionId = none) : Stops x node s leaves := by
  cases n with
  | zero => exact restricted
  | succ n =>
    rcases restricted with stops | ⟨actionId, _, _, acts, -⟩
    · exact stops
    · rw [stays] at acts
      cases acts

theorem solved_end (facts : ContractFacts x.contract.spec x.objects) {n : ℕ} {s : GrowthState}
    (ended : x.endpoint = some (F s.elapsed)) {lower upper : ℚ} {digest : Digest}
    (low : attainment x.contract.spec s .lower = .ok lower)
    (up : attainment x.contract.spec s .upper = .ok upper) :
    Solved hash x n s (some ⟨lower, upper, leaf digest s none⟩) := by
  have leafTree : Restricted hash x n (leafNode digest) s [s] := by
    cases n with
    | zero => exact ⟨rfl, ended, rfl⟩
    | succ n => exact .inl ⟨rfl, ended, rfl⟩
  have only : ∀ node leaves, Restricted hash x n node s leaves → leaves = [s] := by
    intro node leaves restricted
    by_contra other
    have acts : node.actionId ≠ none := fun stays => other (restricted.stops stays).2.2
    exact lt_irrefl _ ((restricted.elapsed_le facts ended).2 acts)
  have value : ∀ {bound a}, attainment x.contract.spec s bound = .ok a →
      IsGreatest (guaranteed hash x bound n s) a := by
    intro bound a reached
    refine ⟨⟨_, _, leafTree, worst_singleton.mpr reached⟩, ?_⟩
    rintro v ⟨node, leaves, restricted, least⟩
    rw [only node leaves restricted, worst_singleton] at least
    cases reached.symm.trans least
    exact le_rfl
  constructor
  · intro bound
    cases bound with
    | lower => exact value low
    | upper => exact value up
  · rintro solution ⟨⟩
    exact ⟨leafTree, worst_singleton.mpr low⟩

theorem solved_late (facts : ContractFacts x.contract.spec x.objects) {time : ℚ}
    (fixed : x.endpoint = some time) {n : ℕ} {s : GrowthState} (missed : F s.elapsed ≠ time)
    (late : time ≤ F s.elapsed ∨ n = 0) : Solved hash x n s none := by
  refine ⟨fun bound => Set.eq_empty_iff_forall_notMem.mpr ?_, fun _ absurd' => nomatch absurd'⟩
  rintro v ⟨node, leaves, restricted, -⟩
  rcases late with past | rfl
  · exact missed (le_antisymm (restricted.elapsed_le facts fixed).1 past)
  · obtain ⟨-, ended, -⟩ := restricted
    rw [fixed] at ended
    cases ended
    exact missed rfl

theorem solveStep_solved (facts : ContractFacts x.contract.spec x.objects) {time : ℚ}
    (fixed : x.endpoint = some time) {recur : GrowthState → Checked (Option ScalarSolution)} {n : ℕ}
    {s : GrowthState} {result : Option ScalarSolution}
    (reachable : Reachable hash x.contract x.objects x.frontier s)
    (searched : ∀ {m}, n = m + 1 → x.endpoint ≠ some (F s.elapsed) → ∀ {recipes choices},
      x.sortedRecipes = .ok recipes →
      gathered (fun p => solveRecipe hash x recur s (hash.state s) p.2) (x.allowed recipes) =
        .ok choices → selectScalar hash choices = .ok result → Solved hash x n s result)
    (h : solveStep hash x recur n s = .ok result) : Solved hash x n s result := by
  rw [solveStep, reachable.admitted.1.stateDigest, ok_bind, fixed] at h
  simp only [terminal, ok_bind, decide_eq_true_eq] at h
  split at h
  case isTrue ended =>
    simp only [bind_ok, pure_ok] at h
    obtain ⟨lower, low, upper, up, rfl⟩ := h
    exact solved_end facts (ended ▸ fixed) low up
  case isFalse missed =>
    simp only [bind_ok, Option.mem_some_iff, exists_eq_left'] at h
    obtain ⟨-, -, h⟩ := h
    split at h
    case isTrue late =>
      cases pure_ok.mp h
      exact solved_late facts fixed missed late
    case isFalse early =>
      simp only [bind_ok] at h
      obtain ⟨recipes, sorted, choices, found, selected⟩ := h
      obtain ⟨m, decisions⟩ := Nat.exists_eq_succ_of_ne_zero fun zero => early (.inr zero)
      have before : x.endpoint ≠ some (F s.elapsed) := by
        rw [fixed]
        exact fun same => missed (Option.some.inj same).symm
      exact searched decisions before sorted found selected

theorem solve_solved (facts : ContractFacts x.contract.spec x.objects) {time : ℚ}
    (fixed : x.endpoint = some time) {n : ℕ} : ∀ {s : GrowthState} {result : Option ScalarSolution},
      Reachable hash x.contract x.objects x.frontier s → solve hash x n s = .ok result →
        Solved hash x n s result := by
  induction n with
  | zero => exact fun reachable h => solveStep_solved facts fixed reachable (fun h => nomatch h) h
  | succ n ih =>
    intro s result reachable h
    refine solveStep_solved facts fixed reachable ?_ h
    intro m decisions before recipes choices sorted found selected
    exact gathered_solved facts fixed reachable before ih sorted found selected

end CollectivePhaseControl
