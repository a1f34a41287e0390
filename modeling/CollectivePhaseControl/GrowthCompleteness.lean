import CollectivePhaseControl.EpistemicPolicies
import CollectivePhaseControl.GrowthAcceptance

/-! The other direction: every tree that the independent walk accepts is among the plain
plans. Together with acceptance, a search that is not cut short lists exactly the accepted
trees. -/
namespace CollectivePhaseControl

open BudgetedSearch

variable {hash : Hashing} {x : Search}

theorem uncoded_grownBy {s : GrowthState} {base : Dict GrowthInterval} :
    ∀ factors, Uncoded (grownBy s base factors) := by
  intro factors
  induction factors with
  | nil => exact uncoded_ok _
  | cons p rest ih =>
    refine uncoded_bind uncoded_item fun capacity => uncoded_bind uncoded_item fun before => ?_
    split
    · exact ih
    · exact uncoded_ok _

theorem uncoded_blockSupported {s : GrowthState} {w : GrowthWindow} : Uncoded (blockSupported s w) := by
  unfold blockSupported
  split
  · exact uncoded_ok _
  · split
    · exact uncoded_grownBy _
    · exact uncoded_ok _

theorem uncoded_anyBlockSupported {s : GrowthState} : ∀ windows,
    Uncoded (anyBlockSupported s windows) := by
  intro windows
  induction windows with
  | nil => exact uncoded_ok _
  | cons w rest ih =>
    refine uncoded_bind uncoded_blockSupported fun supported => ?_
    split
    · exact uncoded_ok _
    · exact ih

theorem uncoded_entryAllowed {c : GrowthContractSpec} {comparisons : List GrowthComparison}
    {s : GrowthState} : Uncoded (entryAllowed c comparisons s) := by
  refine uncoded_bind uncoded_attainment fun reached => ?_
  split
  · refine uncoded_bind (uncoded_anyBlockSupported _) fun supported => ?_
    split <;> exact uncoded_ok _
  · exact uncoded_ok _

theorem uncoded_gate {s : GrowthState} {entry : Option GrowthCheckpoint} :
    Uncoded (terminal x.contract.spec x.endpoint s entry) := by
  unfold terminal
  split
  · exact uncoded_ok _
  · exact uncoded_ok _
  · split
    · exact uncoded_grownBy _
    · exact uncoded_ok _

theorem uncoded_selectable {s : GrowthState} {entry : Option GrowthCheckpoint} :
    Uncoded (x.selectable s entry) := by
  unfold Search.selectable
  split
  · refine uncoded_bind uncoded_entryAllowed fun allowed => ?_
    split <;> exact uncoded_ok _
  · exact uncoded_ok _

theorem uncoded_planStep {recur : GrowthState → Option GrowthCheckpoint → Checked (List Candidate)}
    {n : ℕ} {s : GrowthState} {entry : Option GrowthCheckpoint} :
    Uncoded (planStep hash x recur n s entry) := by
  refine uncoded_bind uncoded_stateDigest fun _ => uncoded_bind uncoded_gate fun ended => ?_
  split
  · exact uncoded_ok _
  · split
    · exact uncoded_ok _
    · exact uncoded_bind uncoded_selectable fun _ => uncoded_bind uncoded_sortedRecipes fun _ =>
        uncoded_gathered

theorem uncoded_plans (n : ℕ) (s : GrowthState) (entry : Option GrowthCheckpoint) :
    Uncoded (plans hash x n s entry) := by
  cases n <;> exact uncoded_planStep

theorem increasing_ext {xs ys : List Identifier} (first : xs.Pairwise (· < ·))
    (second : ys.Pairwise (· < ·)) (same : ∀ a, a ∈ xs ↔ a ∈ ys) : xs = ys := by
  have perm : xs.Perm ys := (List.perm_ext_iff_of_nodup (first.imp ne_of_lt)
    (second.imp ne_of_lt)).mpr same
  exact perm.eq_of_pairwise (fun a b _ _ less more => absurd (less.trans more) (lt_irrefl a)) first
    second

theorem follows_children {fuel : ℕ} {node : GrowthPolicyNode} {s : GrowthState}
    {entry : Option GrowthCheckpoint} {recipe : GrowthAction} {effects : List GrowthSuccessor}
    {parts : List Walk}
    (followed : List.Forall₂ (Follows hash x fuel node s entry recipe) effects parts) :
    ∃ children : List Candidate,
      List.Forall₂ (fun effect child => ∃ next,
        followBranch hash x node s recipe effect = .ok (child.node, next) ∧
          visit hash x fuel child.node next entry =
            .ok ⟨child.terminals, child.entries, child.nodeCount⟩) effects children ∧
      children.map (fun c => (⟨c.terminals, c.entries, c.nodeCount⟩ : Walk)) = parts := by
  induction followed with
  | nil => exact ⟨[], .nil, rfl⟩
  | cons head _ ih =>
    obtain ⟨children, each, rfl⟩ := ih
    obtain ⟨child, next, followed, visited⟩ := head
    exact ⟨⟨child, _, _, _⟩ :: children, .cons ⟨next, followed, visited⟩ each, rfl⟩

theorem decisionNode_eq {node : GrowthPolicyNode} {s : GrowthState} {recipe : GrowthAction}
    {actionId : Identifier} {entered : Bool} (facts : RecipeFacts x.contract.spec recipe)
    (sorted : (node.branches.map Prod.fst).Pairwise (· < ·)) (acts : node.actionId = some actionId)
    (digest : node.stateDigest = hash.state s) (own : node.entry = entered)
    (branches : checkBranches node (successors s recipe) = .ok ()) {children : List Candidate}
    (each : List.Forall₂ (fun effect child => ∃ next,
      followBranch hash x node s recipe effect = .ok (child.node, next)) (successors s recipe)
      children) :
    node = decisionNode hash (hash.state s) actionId entered (successors s recipe) children := by
  obtain ⟨inEffects, inBranches, declared, declares, -⟩ := require_ok.mp branches
  have keys : node.branches.map Prod.fst = (successors s recipe).map (·.successorId) := by
    refine increasing_ext sorted (successors_sorted facts s) fun id => ?_
    constructor
    · intro member
      obtain ⟨b, listed, rfl⟩ := List.mem_map.mp member
      exact inEffects b listed
    · intro member
      obtain ⟨e, listed, rfl⟩ := List.mem_map.mp member
      exact inBranches e listed
  have values : node.branches.map Prod.snd = children.map (·.node) := by
    have looked : List.Forall₂ (fun id child => node.branches.lookup id = some child)
        (node.branches.map Prod.fst) (node.branches.map Prod.snd) := by
      have found := forall₂_lookup_zip (sorted.imp ne_of_lt)
        (show (node.branches.map Prod.fst).length = (node.branches.map Prod.snd).length by simp)
      rwa [← List.zip_of_prod rfl rfl] at found
    rw [keys, List.forall₂_map_left_iff] at looked
    have same : List.Forall₂ (fun child c => child = c.node) (node.branches.map Prod.snd) children := by
      refine forall₂_compose ?_ looked.flip each
      rintro child effect c found ⟨next, followed⟩
      obtain ⟨-, -, found'⟩ := followBranch_ok.mp followed
      exact Option.some.inj (found.symm.trans found')
    rw [← List.forall₂_map_right_iff (f := fun c : Candidate => c.node) (R := fun a b => a = b)] at same
    exact List.forall₂_eq_eq_eq ▸ same
  have digests : node.effectDigests = effectDigests hash (successors s recipe) := by
    refine Std.ExtTreeMap.ext_getElem? fun id => ?_
    by_cases listed : id ∈ (successors s recipe).map (·.successorId)
    · obtain ⟨effect, member, rfl⟩ := List.mem_map.mp listed
      obtain ⟨child, -, next, followed⟩ := forall₂_mem_left each effect member
      rw [(followBranch_ok.mp followed).1,
        effectDigests_of_mem (facts.successors_nodup s) member]
    · have undeclared : id ∉ node.effectDigests := fun member =>
        listed (keys ▸ declared id (Std.ExtTreeMap.mem_keys.mpr member))
      rw [Std.ExtTreeMap.getElem?_eq_none undeclared,
        Std.ExtTreeMap.getElem?_eq_none fun member => listed (mem_effectDigests.mp member)]
  cases node with
  | mk stateDigest action entry own' own'' =>
    simp only at acts digest own digests keys values
    rw [acts, digest, own, digests, List.zip_of_prod keys values]
    rfl

section level
variable {recur : GrowthState → Option GrowthCheckpoint → Checked (List Candidate)}

theorem planOptions_complete {s : GrowthState} {recipe : GrowthAction}
    {selected : Option GrowthCheckpoint} {stop : ℚ} :
    ∀ {effects : List GrowthSuccessor} {children : List Candidate} {lists : List (List Candidate)},
      List.Forall₂ (fun effect child => ∃ next,
        transition hash x.contract s recipe effect x.objects x.frontier = .ok next ∧
          F next.elapsed ≤ x.entryStop selected stop ∧
          ∀ options, recur next selected = .ok options → child ∈ options) effects children →
      planOptions hash x recur s recipe selected stop effects = .ok lists →
        children ∈ product lists := by
  intro effects
  induction effects with
  | nil =>
    intro children lists each h
    cases each
    cases pure_ok.mp h
    exact List.mem_singleton.mpr rfl
  | cons effect rest ih =>
    intro children lists each h
    cases each with
    | cons head tail =>
      obtain ⟨next, moved, inTime, listed⟩ := head
      rw [planOptions, moved, ok_bind, if_neg (not_lt.mpr inTime), bind_ok] at h
      obtain ⟨options, found, h⟩ := h
      have member := listed options found
      have some' : ¬ options.isEmpty = true := by
        rw [List.isEmpty_iff]
        exact List.ne_nil_of_mem member
      simp only [if_neg some', bind_ok, pure_ok] at h
      obtain ⟨others, later, rfl⟩ := h
      exact PolicySearch.mem_product.mpr
        (.cons member (PolicySearch.mem_product.mp (ih tail later)))

theorem planOptions_coded (uncoded : ∀ next entry, Uncoded (recur next entry)) {s : GrowthState}
    {recipe : GrowthAction} {selected : Option GrowthCheckpoint} {stop : ℚ} {code : String} :
    ∀ {effects : List GrowthSuccessor},
      planOptions hash x recur s recipe selected stop effects = .error (.coded code) →
        ∃ effect ∈ effects, ∀ next,
          transition hash x.contract s recipe effect x.objects x.frontier ≠ .ok next := by
  intro effects
  induction effects with
  | nil =>
    intro h
    cases h
  | cons effect rest ih =>
    intro h
    rw [planOptions] at h
    cases moved : transition hash x.contract s recipe effect x.objects x.frontier with
    | error fault => exact ⟨effect, List.mem_cons_self, by simp [moved]⟩
    | ok next =>
      rw [moved, ok_bind] at h
      have answered : ∀ options : List Candidate, (if options.isEmpty = true then pure [options] else do
          let others ← planOptions hash x recur s recipe selected stop rest
          pure (options :: others)) = (.error (.coded code) : Checked (List (List Candidate))) →
          planOptions hash x recur s recipe selected stop rest = .error (.coded code) := by
        intro options fails
        split at fails
        · cases fails
        · cases later : planOptions hash x recur s recipe selected stop rest with
          | ok others => rw [later] at fails; cases fails
          | error fault => rw [later] at fails; cases fails; rfl
      have later : planOptions hash x recur s recipe selected stop rest = .error (.coded code) := by
        by_cases late : x.entryStop selected stop < F next.elapsed
        · rw [if_pos late] at h
          exact answered [] h
        · rw [if_neg late] at h
          cases found : recur next selected with
          | ok options => rw [found] at h; exact answered options h
          | error fault =>
            rw [found] at h
            cases h
            exact absurd found (uncoded next selected code)
      obtain ⟨other, listed, stuck⟩ := ih later
      exact ⟨other, List.mem_cons_of_mem _ listed, stuck⟩

end level

theorem planRecipe_coded {recur : GrowthState → Option GrowthCheckpoint → Checked (List Candidate)}
    (uncoded : ∀ next entry, Uncoded (recur next entry)) {s : GrowthState} {recipe : GrowthAction}
    (some' : successors s recipe ≠ []) {digest : Digest} {entry selected : Option GrowthCheckpoint}
    {code : String}
    (h : planRecipe hash x recur s digest entry selected recipe = .error (.coded code)) :
    ∃ effect ∈ successors s recipe, ∀ next,
      transition hash x.contract s recipe effect x.objects x.frontier ≠ .ok next := by
  rw [planRecipe] at h
  cases allowed : applicable hash x.contract s recipe x.objects x.frontier with
  | error fault =>
    obtain ⟨effect, picked⟩ := List.exists_mem_of_ne_nil _ some'
    refine ⟨effect, picked, fun next moved => ?_⟩
    obtain ⟨action, cap, -, allowed', -⟩ := transition_ok moved
    cases allowed.symm.trans allowed'
  | ok both =>
    rw [allowed, ok_bind] at h
    have nonempty : require (successors s recipe ≠ []) "growth_successor_incomplete" = .ok () :=
      require_ok.mpr some'
    simp only [nonempty, ok_bind] at h
    cases found : planOptions hash x recur s recipe selected (x.stop entry) (successors s recipe) with
    | error fault =>
      rw [found] at h
      cases h
      exact planOptions_coded uncoded found
    | ok lists =>
      rw [found] at h
      cases h

theorem entryAfter_given {fuel : ℕ} {node : GrowthPolicyNode} {s : GrowthState}
    {e : GrowthCheckpoint} {v : Walk} (accepted : visit hash x fuel node s (some e) = .ok v) :
    entryAfter node s (some e) = some e := by
  cases fuel with
  | zero => simp [visit] at accepted
  | succ fuel =>
    obtain ⟨-, -, -, own⟩ := checkNode_ok (visit_ok.mp accepted).1
    refine if_neg fun decides => ?_
    exact absurd (own decides).1 (Option.some_ne_none e)

theorem accepted_digest {fuel : ℕ} {node : GrowthPolicyNode} {s : GrowthState}
    {entry : Option GrowthCheckpoint} {v : Walk}
    (reachable : Reachable hash x.contract x.objects x.frontier s)
    (accepted : visit hash x (fuel + 1) node s entry = .ok v) : node.stateDigest = hash.state s := by
  obtain ⟨-, -, digested, -⟩ := checkNode_ok (visit_ok.mp accepted).1
  exact Except.ok.inj (digested.symm.trans reachable.admitted.1.stateDigest)

section complete
variable (facts : ContractFacts x.contract.spec x.objects) (free : x.endpoint = none)
include facts free

theorem accepted_leaf {fuel : ℕ} {node : GrowthPolicyNode} {s : GrowthState}
    {entry : Option GrowthCheckpoint} {v : Walk} (digest : node.stateDigest = hash.state s)
    (accepted : visit hash x (fuel + 1) node s entry = .ok v) (stays : node.actionId = none)
    (sorted : InKeyOrder node) :
    node = leafNode (hash.state s) ∧ v = .one s entry ∧
      terminal x.contract.spec x.endpoint s entry = .ok true := by
  obtain ⟨-, ⟨-, ⟨noBranches, noDigests⟩, ended, rfl⟩ | ⟨_, _, _, acts, -⟩⟩ := visit_ok.mp accepted
  case inr =>
    rw [stays] at acts
    cases acts
  have carried : node.entry = false := by
    by_contra enters
    have inForce : entryAfter node s entry = some ⟨s.elapsed, s.capacities⟩ :=
      if_pos (by simpa using enters)
    rw [free, terminal_ok, inForce] at ended
    obtain ⟨e, inForce', reached, -⟩ := ended
    cases inForce'
    exact (lt_add_of_pos_right _ facts.horizon).ne reached
  have same : entryAfter node s entry = entry := if_neg (by simp [carried])
  rw [same] at ended
  refine ⟨?_, by rw [same], ended⟩
  cases node with
  | mk stateDigest action entry' branches effectDigests =>
    simp only at digest stays carried noBranches noDigests
    rw [digest, stays, carried, List.isEmpty_iff.mp noBranches,
      Std.ExtTreeMap.isEmpty_iff.mp noDigests]
    rfl

theorem accepted_early {fuel : ℕ} {node : GrowthPolicyNode} {s : GrowthState}
    {entry : Option GrowthCheckpoint} {v : Walk} (accepted : visit hash x (fuel + 1) node s entry = .ok v)
    {actionId : Identifier} (acts : node.actionId = some actionId) :
    terminal x.contract.spec x.endpoint s entry ≠ .ok true ∧ F s.elapsed < x.stop entry := by
  have moving : node.actionId ≠ none := by simp [acts]
  cases entry with
  | some e =>
    have before := (accepted_horizon facts free accepted e (entryAfter_given accepted)).2 moving
    constructor
    · rw [free]
      intro ended
      obtain ⟨e', same, reached, -⟩ := terminal_ok.mp ended
      cases same
      exact before.ne reached
    · simpa [Search.stop, free, Search.entryStop] using before
  | none =>
    obtain ⟨recipe, parts, named, -, some', -, followed⟩ :=
      accepted_answers (p := ⟨node, s, none, []⟩) accepted acts
    obtain ⟨effect, picked⟩ := List.exists_mem_of_ne_nil _ some'
    obtain ⟨part, -, q, ⟨_, recipe', -, named', -, moved, -⟩, -⟩ :=
      forall₂_mem_left followed effect picked
    have later := (named'.steps moved).elapsed_lt facts
    have within := (named'.steps moved).elapsed_le_deadline
    constructor
    · rw [free]
      exact fun ended => nomatch ended
    · simpa [Search.stop, free, Search.entryStop] using later.trans_le within

omit facts in
theorem accepted_selected {fuel : ℕ} {node : GrowthPolicyNode} {s : GrowthState}
    {entry : Option GrowthCheckpoint} {v : Walk} (accepted : visit hash x (fuel + 1) node s entry = .ok v)
    {entries : List (Option GrowthCheckpoint)} (chosen : x.selectable s entry = .ok entries) :
    entryAfter node s entry ∈ entries ∧ node.entry = enters entry (entryAfter node s entry) := by
  obtain ⟨-, -, -, own⟩ := checkNode_ok (visit_ok.mp accepted).1
  unfold Search.selectable at chosen
  cases decides : node.entry with
  | true =>
    obtain ⟨rfl, gate⟩ := own decides
    rw [if_pos ⟨rfl, free⟩, gate] at chosen
    cases pure_ok.mp chosen
    rw [entryAfter, if_pos decides]
    exact ⟨by simp, rfl⟩
  | false =>
    have same : entryAfter node s entry = entry := if_neg (by simp [decides])
    rw [same]
    refine ⟨?_, by cases entry <;> rfl⟩
    split at chosen
    · simp only [bind_ok] at chosen
      obtain ⟨allowed, -, chosen⟩ := chosen
      cases allowed <;> cases pure_ok.mp chosen <;> simp
    · cases pure_ok.mp chosen
      simp

theorem accepted_inTime {fuel : ℕ} {node child : GrowthPolicyNode} {s next : GrowthState}
    {entry : Option GrowthCheckpoint} {move : Move} {v : Walk}
    (step : Steps hash x.contract x.objects x.frontier s move next)
    (visited : visit hash x fuel child next (entryAfter node s entry) = .ok v) :
    F next.elapsed ≤ x.entryStop (entryAfter node s entry) (x.stop entry) := by
  cases inForce : entryAfter node s entry with
  | some e =>
    rw [inForce] at visited
    exact (accepted_horizon facts free visited e (entryAfter_given visited)).1
  | none =>
    have fresh : entry = none := by
      unfold entryAfter at inForce
      split at inForce
      · exact nomatch inForce
      · exact inForce
    rw [fresh]
    simpa [Search.stop, free, Search.entryStop] using step.elapsed_le_deadline

theorem planStep_leaf {recur : GrowthState → Option GrowthCheckpoint → Checked (List Candidate)}
    {n : ℕ} {node : GrowthPolicyNode} {s : GrowthState} {entry : Option GrowthCheckpoint} {v : Walk}
    {listed : List Candidate} (reachable : Reachable hash x.contract x.objects x.frontier s)
    (sorted : InKeyOrder node) (accepted : visit hash x (n + 1) node s entry = .ok v)
    (stays : node.actionId = none) (h : planStep hash x recur n s entry = .ok listed) :
    (⟨node, v.terminals, v.entries, v.count⟩ : Candidate) ∈ listed := by
  obtain ⟨rfl, rfl, ended⟩ := accepted_leaf facts free (accepted_digest reachable accepted) accepted
    stays sorted
  rw [planStep, reachable.admitted.1.stateDigest, ok_bind, ended, ok_bind, if_pos rfl] at h
  cases pure_ok.mp h
  exact List.mem_singleton.mpr rfl

theorem planStep_acts (unrestricted : x.excluded = [])
    {recur : GrowthState → Option GrowthCheckpoint → Checked (List Candidate)}
    (uncoded : ∀ next entry, Uncoded (recur next entry)) {n : ℕ}
    (below : ∀ {child next selected v options},
      Reachable hash x.contract x.objects x.frontier next → InKeyOrder child →
      visit hash x (n + 1) child next selected = .ok v → recur next selected = .ok options →
      (⟨child, v.terminals, v.entries, v.count⟩ : Candidate) ∈ options)
    {node : GrowthPolicyNode} {s : GrowthState} {entry : Option GrowthCheckpoint} {v : Walk}
    {listed : List Candidate} (reachable : Reachable hash x.contract x.objects x.frontier s)
    (sorted : InKeyOrder node) (accepted : visit hash x (n + 2) node s entry = .ok v)
    {actionId : Identifier} (acts : node.actionId = some actionId)
    (h : planStep hash x recur (n + 1) s entry = .ok listed) :
    (⟨node, v.terminals, v.entries, v.count⟩ : Candidate) ∈ listed := by
  obtain ⟨notEnded, early⟩ := accepted_early facts free accepted acts
  simp only [planStep, bind_ok] at h
  obtain ⟨digest, digested, ended, isEnded, h⟩ := h
  cases reachable.admitted.1.stateDigest.symm.trans digested
  cases ended with
  | true => exact absurd isEnded notEnded
  | false =>
    rw [if_neg Bool.false_ne_true, if_neg (by simpa using early)] at h
    simp only [planDecisions, bind_ok, gathered, map_ok, mapM_ok] at h
    obtain ⟨entries, chosen, recipes, named, lists, tried, rfl⟩ := h
    obtain ⟨inEntries, own⟩ := accepted_selected free accepted chosen
    obtain ⟨-, ⟨stays, -⟩ | ⟨id, recipe, parts, acts', found, branches, followed, rfl⟩⟩ :=
      visit_ok.mp accepted
    · rw [acts] at stays
      cases stays
    cases acts.symm.trans acts'
    obtain ⟨isNamed, -⟩ := namedRecipe_ok found
    have choice : (entryAfter node s entry, recipe) ∈ entries.flatMap fun selected =>
        (x.allowed recipes).map fun p => (selected, p.2) := by
      refine List.mem_flatMap.mpr ⟨_, inEntries, List.mem_map.mpr ⟨(actionId, recipe), ?_, rfl⟩⟩
      rw [Search.allowed, unrestricted, List.mem_filter]
      exact ⟨(sortedRecipes_ok named _).mpr isNamed, by simp⟩
    obtain ⟨options, inLists, answer⟩ := forall₂_mem_left tried _ choice
    refine List.mem_flatten.mpr ⟨options, inLists, ?_⟩
    rcases excused_ok.mp answer with planned | ⟨⟨code, failed⟩, -⟩
    case inr =>
      obtain ⟨effect, picked, stuck⟩ := planRecipe_coded uncoded (checkBranches_ok branches) failed
      obtain ⟨part, -, child, next, branch, -⟩ := forall₂_mem_left followed effect picked
      exact absurd (followBranch_ok.mp branch).2.1 (stuck next)
    obtain ⟨children, each, rfl⟩ := follows_children followed
    simp only [planRecipe, bind_ok, require_ok, pure_ok] at planned
    obtain ⟨⟨action, cap⟩, allowed, -, some', lists', optioned, rfl⟩ := planned
    have combined : children ∈ product lists' := by
      refine planOptions_complete (each.imp ?_) optioned
      rintro effect child ⟨next, branch, visited⟩
      obtain ⟨-, moved, looked⟩ := followBranch_ok.mp branch
      have step := isNamed.steps moved
      refine ⟨next, moved, accepted_inTime facts free step visited, fun options found => ?_⟩
      cases sorted with
      | node _ subtrees =>
        exact below (reachable.step step) (subtrees _ (mem_of_lookup looked)) visited found
    refine List.mem_map.mpr ⟨children, combined, ?_⟩
    obtain ⟨-, action', document, same⟩ := id isNamed
    cases (applicable_action allowed).symm.trans document
    cases sorted with
    | node keys _ =>
      have built := decisionNode_eq (facts.recipes recipe isNamed.1) keys acts
        (accepted_digest reachable accepted) own branches (each.imp fun _ _ both =>
          both.imp fun _ => And.left)
      rw [decision, same, ← enters, ← built]
      simp [Walk.node, Walk.join, Walk.gather, List.flatMap_map, Function.comp_def]

theorem plans_complete (unrestricted : x.excluded = []) :
    ∀ {n : ℕ} {node : GrowthPolicyNode} {s : GrowthState} {entry : Option GrowthCheckpoint} {v : Walk}
      {listed : List Candidate}, Reachable hash x.contract x.objects x.frontier s →
      InKeyOrder node → visit hash x (n + 1) node s entry = .ok v →
      plans hash x n s entry = .ok listed →
      (⟨node, v.terminals, v.entries, v.count⟩ : Candidate) ∈ listed := by
  intro n
  induction n with
  | zero =>
    intro node s entry v listed reachable sorted accepted h
    cases acts : node.actionId with
    | none => exact planStep_leaf facts free reachable sorted accepted acts h
    | some actionId =>
      obtain ⟨recipe, parts, -, -, some', -, followed⟩ :=
        accepted_answers (p := ⟨node, s, entry, []⟩) accepted acts
      obtain ⟨effect, picked⟩ := List.exists_mem_of_ne_nil _ some'
      obtain ⟨part, -, q, -, visited, -⟩ := forall₂_mem_left followed effect picked
      simp [visit] at visited
  | succ n ih =>
    intro node s entry v listed reachable sorted accepted h
    cases acts : node.actionId with
    | none => exact planStep_leaf facts free reachable sorted accepted acts h
    | some actionId =>
      exact planStep_acts facts free unrestricted (uncoded_plans n)
        (fun reached ordered visited found => ih reached ordered visited found) reachable sorted
        accepted acts h

end complete

section entry
variable {contract : GrowthContract} {objects : Objects} {comparisons : List GrowthComparison}
  {frontier : Frontier}

theorem checkTree_ok {root : GrowthPolicyNode} {start : GrowthState} {entry : Option GrowthCheckpoint}
    {c : Candidate} : checkTree hash x root start entry = .ok c ↔ c.node = root ∧
      visit hash x (x.contract.spec.maxDecisions + 1) root start entry =
        .ok ⟨c.terminals, c.entries, c.nodeCount⟩ ∧ c.nodeCount ≤ x.limits.maxWitnessNodes := by
  simp only [checkTree, bind_ok, pure_ok, walk_ok, Walk.nil_join]
  constructor
  · rintro ⟨_, ⟨v, visited, rfl, within⟩, rfl⟩
    exact ⟨rfl, visited, within⟩
  · rintro ⟨rfl, visited, within⟩
    exact ⟨_, ⟨_, visited, rfl, within⟩, rfl⟩

theorem Accepted.within (facts : ContractFacts x.contract.spec x.objects) (free : x.endpoint = none)
    {n : ℕ} {s : GrowthState} (live : Live hash x s) {c : Candidate}
    (accepted : Accepted hash x n s none c) : c.nodeCount ≤ x.limits.maxWitnessNodes := by
  have large : 2 ≤ c.nodeCount := by
    obtain ⟨-, ⟨stays, -⟩ | ⟨_, recipe, parts, -, -, branches, followed, joined⟩⟩ :=
      visit_ok.mp accepted.walked
    · obtain ⟨-, -, ended⟩ := accepted_leaf facts free (accepted_digest live.reachable accepted.walked)
        accepted.walked stays accepted.ordered
      rw [free] at ended
      exact nomatch ended
    · obtain ⟨effect, picked⟩ := List.exists_mem_of_ne_nil _ (checkBranches_ok branches)
      obtain ⟨part, listed, child, next, -, visited⟩ := forall₂_mem_left followed effect picked
      have positive := visit_count_pos visited
      have summed : part.count ≤ (parts.map (·.count)).sum :=
        List.single_le_sum (by simp) _ (List.mem_map_of_mem listed)
      have counted := congrArg Walk.count joined
      simp only [Walk.join, Walk.node, Walk.gather] at counted
      omega
  have bounded := accepted.bounded
  omega

theorem runFresh_ok {α : Type} {m : SearchM α} {a : α} {σ : SearchState} :
    runFresh m = .ok (a, σ) ↔ m .fresh = .ok a σ := by
  unfold runFresh
  cases run : m .fresh with
  | ok b τ => simp [EStateM.Result.ok.injEq]
  | error fault τ => simp

/-- The candidates of the entry search pass the checker, and a search that was not cut short
has found every tree that does. -/
theorem enumeration_exact (valid : validateContract hash contract objects = .ok ())
    (free : CollisionFree hash contract objects frontier) {start : GrowthState}
    (prepaidStart : initialState hash contract frontier = .ok start) (models : start.modelIds ≠ [])
    {options : List Candidate} {σ : SearchState}
    (run : runFresh ((checker contract objects comparisons frontier).enumerate hash
      contract.spec.maxDecisions start none) = .ok (options, σ)) :
    (∀ c ∈ options, InKeyOrder c.node ∧
      checkTree hash (checker contract objects comparisons frontier) c.node start none = .ok c) ∧
    (σ.budget.complete = true → ∀ root c, InKeyOrder root →
      checkTree hash (checker contract objects comparisons frontier) root start none = .ok c →
        c ∈ options) := by
  have facts := validateContract_ok hash valid
  have reachable : Reachable hash contract objects frontier start :=
    ⟨[], start, prepaidStart, .nil start⟩
  let x := checker contract objects comparisons frontier
  have live : Live hash x start := ⟨reachable, models⟩
  rw [runFresh_ok] at run
  constructor
  · intro c member
    have fresh : OptionsAccepted hash x .fresh := fun _ _ impossible => nomatch impossible
    obtain ⟨-, all⟩ := ensures_enumerate (x := x) facts free le_rfl live entered_none .fresh fresh
    have accepted := all options σ run c member
    exact ⟨accepted.ordered, checkTree_ok.mpr ⟨rfl, accepted.walked, accepted.within facts rfl live⟩⟩
  · intro complete root c ordered checked
    have fresh : EnumerationSound hash x .fresh := fun _ _ impossible => nomatch impossible
    obtain ⟨-, answer⟩ :=
      computes_enumerate (x := x) free le_rfl reachable entered_none .fresh fresh
    have ran : x.enumerate hash x.contract.spec.maxDecisions start none .fresh = .ok options σ := run
    rw [ran] at answer
    obtain ⟨rfl, visited, -⟩ := checkTree_ok.mp checked
    exact plans_complete (x := x) facts rfl rfl reachable ordered visited (answer complete).2.symm

end entry

namespace Sample

theorem enumerated : (fun p : List Candidate × SearchState =>
    (p.1.length, p.2.budget.complete)) <$> runFresh ((checker contract objects comparisons
      none).enumerate digests 2 start none) = .ok (1, true) := by decide +kernel

end Sample

theorem enumeration_exact_sample : ∃ options : List Candidate, options.length = 1 ∧
    (∀ c ∈ options, InKeyOrder c.node ∧ checkTree Sample.digests
      (checker Sample.contract Sample.objects Sample.comparisons none) c.node Sample.start none =
        .ok c) ∧
    ∀ root c, InKeyOrder root → checkTree Sample.digests
      (checker Sample.contract Sample.objects Sample.comparisons none) root Sample.start none =
        .ok c → c ∈ options := by
  obtain ⟨⟨options, σ⟩, run, same⟩ := map_ok.mp Sample.enumerated
  obtain ⟨single, complete⟩ := Prod.mk.inj same
  obtain ⟨accepted, all⟩ := enumeration_exact Sample.valid Sample.collisionFree Sample.start_ok
    (by decide +kernel) run
  exact ⟨options, single, accepted, all complete⟩

end CollectivePhaseControl
