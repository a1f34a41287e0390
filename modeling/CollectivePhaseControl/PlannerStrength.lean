import CollectivePhaseControl.CompatibleProfiles
import CollectivePhaseControl.Planner

/-! What a strong policy guarantees. Whatever the outcomes, a run of the policy ends at the goal
within the horizon, and on the way the floors hold and the addressed blockers grow. -/
namespace CollectivePhaseControl.Planning

theorem lowered_fold {entries : List (Identifier × Rational)} {resources marking : Dict ℚ}
    (done : entries.foldlM (fun (resources : Dict ℚ) p => do
      let lower ← rational p.2
      pure (resources.insert p.1 (resources.getD p.1 0 + lower))) resources = .ok marking)
    (coordinate : Identifier) :
    marking.getD coordinate 0 = resources.getD coordinate 0 +
      (entries.map fun p => (Pi.single p.1 (F p.2) : Identifier → ℚ)).sum coordinate := by
  induction entries generalizing resources with
  | nil =>
    rw [List.foldlM_nil, pure_ok] at done
    simp [done]
  | cons p entries ih =>
    simp only [List.foldlM_cons, bind_ok, pure_ok] at done
    obtain ⟨_, ⟨lower, parsed, rfl⟩, rest⟩ := done
    rw [ih rest, rational_ok parsed, List.map_cons, List.sum_cons, Pi.add_apply]
    by_cases same : p.1 = coordinate
    · simp [same, add_assoc]
    · simp [Std.ExtTreeMap.getD_insert, same]

theorem lowered_ok {resources marking : Dict ℚ} {branch : BranchEffect}
    (done : lowered resources branch = .ok marking) (coordinate : Identifier) :
    marking.getD coordinate 0 =
      resources.getD coordinate 0 + balance branch.resourceDeltaLower coordinate := by
  rw [lowered_fold done, sum_single_toList]

/-- What a branch does to a state, apart from what the audit says of it. -/
structure Succeeds (state : ControlState) (branch : BranchEffect) (next : ControlState) :
    Prop where
  marking : lowered state.resources branch = .ok next.resources
  floors : next.floors = state.floors
  live : next.liveObjects = state.liveObjects.filter (· ∉ branch.removals)
  addressed : next.addressedBlockers =
    state.addressedBlockers ∪ branch.resolvesBlockers.toFinset ∩ state.blockers
  routes : next.evidenceRoutes = state.evidenceRoutes ∪ branch.guaranteedEvidenceRoutes.toFinset

section strength
variable {h : Services} {baseline : Baseline} {candidates : List Candidate}

theorem succeeds_of_successor {state next : ControlState} {branch : BranchEffect}
    (moves : successor h state branch baseline = .ok next) : Succeeds state branch next := by
  unfold successor at moves
  simp only [bind_ok] at moves
  obtain ⟨marking, booked, bounds, _, rest⟩ := moves
  cases baseline with
  | none =>
    rw [pure_ok] at rest
    subst rest
    exact ⟨booked, rfl, rfl, rfl, rfl⟩
  | some replayed =>
    simp only [recomputeScientificState, bind_ok, pure_ok] at rest
    obtain ⟨profile, _, rfl⟩ := rest
    exact ⟨booked, rfl, rfl, rfl, rfl⟩

theorem floors_of_resourceSafe {state next : ControlState} {branch : BranchEffect}
    (moved : Succeeds state branch next) (safe : resourceSafe state branch = .ok true)
    {coordinate : Identifier} {floor : ℚ} (declared : state.floors[coordinate]? = some floor) :
    floor ≤ next.resources.getD coordinate 0 := by
  simp only [resourceSafe, moved.marking, ok_bind, pure_ok, List.all_eq_true,
    decide_eq_true_eq] at safe
  exact safe (coordinate, floor) (Std.ExtTreeMap.mem_toList_iff_getElem?_eq_some.mpr declared)

/-- How the tree grows below an action, with so much of the horizon left at it. -/
def growing (h : Services) (baseline : Baseline) (candidates : List Candidate) (horizon : ℕ) :
    Growing :=
  if horizon ≤ 1 then none else some (strongTree h baseline candidates (horizon - 1))

theorem strongTree_eq (horizon : ℕ) :
    strongTree h baseline candidates horizon =
      strongNode h baseline candidates (growing h baseline candidates horizon) := by
  cases horizon with
  | zero => rfl
  | succ n =>
    cases n with
    | zero => rfl
    | succ n => rfl

theorem hardFilter_nil {state : ControlState} {action : ActionDocument}
    {capability : CapabilityDocument}
    (passes : hardFilter h state action (some capability) = .ok []) :
    (∀ digest ∈ action.spec.requiredObjectDigests, digest ∈ state.liveObjects) ∧
      ∀ branch ∈ capability.spec.branches,
        branchReasons h state action capability branch = .ok [] := by
  simp only [hardFilter, bind_ok, pure_ok] at passes
  obtain ⟨found, made, none⟩ := passes
  have clean : ∀ reason, reason ∉ reasonIf (h.capability capability ≠ action.spec.capabilityDigest)
        "capability_digest_mismatch" ++
      reasonIf (¬ ∀ digest ∈ action.spec.requiredObjectDigests, digest ∈ state.liveObjects)
        "required_object_missing" ++
      reasonIf (∃ hazard ∈ action.spec.prohibitedHazards, hazard ∈ state.hazards)
        "prohibited_hazard_active" ++ schemaReasons h capability ++ found.flatten := by
    intro reason member
    rw [List.eq_nil_iff_forall_not_mem] at none
    refine none reason ?_
    rw [sortedSet, List.mem_insertionSort, List.mem_dedup]
    exact member
  rw [← List.eq_nil_iff_forall_not_mem] at clean
  obtain ⟨⟨⟨⟨_, required⟩, _⟩, _⟩, branches⟩ := by
    simpa only [List.append_eq_nil_iff] using clean
  refine ⟨not_not.mp (reasonIf_eq_nil.mp required), fun branch member => ?_⟩
  obtain ⟨listed, inside, judged⟩ := forall₂_mem_left (mapM_ok.mp made) branch member
  rw [judged, List.flatten_eq_nil_iff.mp branches listed inside]

theorem mem_eligibleAtState {state : ControlState} {eligible : List Candidate}
    (found : eligibleAtState h state candidates = .ok eligible) :
    ∀ pair ∈ eligible, pair ∈ candidates ∧
      hardFilter h state pair.1 (some pair.2) = .ok [] := by
  refine foldlM_invariant (fun done kept => ∀ pair ∈ kept, pair ∈ done ∧
    hardFilter h state pair.1 (some pair.2) = .ok []) ?_ (by simp) found
  intro done pair kept after all run
  simp only [bind_ok, pure_ok] at run
  obtain ⟨reasons, filtered, rfl⟩ := run
  split_ifs with passes
  · subst passes
    intro other member
    cases List.mem_append.mp member with
    | inl earlier => exact ⟨List.mem_append_left _ (all other earlier).1, (all other earlier).2⟩
    | inr last =>
      rw [List.mem_singleton.mp last]
      exact ⟨by simp, filtered⟩
  · exact fun other member => ⟨List.mem_append_left _ (all other member).1, (all other member).2⟩

theorem mem_nextCandidates {state : ControlState} {level : List Candidate}
    (found : nextCandidates h state candidates = .ok level) :
    ∀ pair ∈ level, pair ∈ candidates ∧ hardFilter h state pair.1 (some pair.2) = .ok [] := by
  simp only [nextCandidates, bind_ok, pure_ok] at found
  obtain ⟨eligible, listed, rfl⟩ := found
  intro pair member
  exact mem_eligibleAtState listed pair
    ((List.mem_insertionSort _).mp (List.mem_of_mem_take member))

structure Follows (grow : ControlState → Candidate → Path → Checked PolicyNode)
    (state : ControlState) (last : ActionDocument) (path : Path) (pair : Candidate)
    (child : PolicyNode) : Prop where
  fresh : ¬ (pair.1.spec.actionId = last.spec.actionId ∧ pair.2.spec.repeatable = false)
  grown : grow state pair path = .ok child
  strong : child.strong = true

theorem follows_of_chooseNext {grow : ControlState → Candidate → Path → Checked PolicyNode}
    {state : ControlState} {last : ActionDocument} {path : Path} {level : List Candidate}
    {pair : Candidate} {child : PolicyNode}
    (chosen : chooseNext grow state last path level = .ok (some (pair, child))) :
    pair ∈ level ∧ Follows grow state last path pair child := by
  induction level with
  | nil => cases chosen
  | cons head rest ih =>
    unfold chooseNext at chosen
    split_ifs at chosen with repeated
    · exact ⟨List.mem_cons_of_mem _ (ih chosen).1, (ih chosen).2⟩
    · rw [bind_ok] at chosen
      obtain ⟨node, grown, rest⟩ := chosen
      split_ifs at rest with strong
      · cases rest
        exact ⟨List.mem_cons_self, repeated, grown, strong⟩
      · exact ⟨List.mem_cons_of_mem _ (ih rest).1, (ih rest).2⟩

/-- A branch that stays strong: it is safe and makes progress, and it reaches the goal or an
action follows whose policy is strong. -/
structure StaysStrong (h : Services) (baseline : Baseline) (candidates : List Candidate)
    (grow : Growing) (state : ControlState) (action : ActionDocument) (path : Path)
    (branch : BranchEffect) (chosen : Option (Candidate × PolicyNode)) (next : ControlState) :
    Prop where
  moves : successor h state branch baseline = .ok next
  safe : resourceSafe state branch = .ok true
  progress : branchMakesGuaranteedProgress state next = true
  ends : chosen = none → routeGoalSatisfied next = true
  goesOn : ∀ pair child, chosen = some (pair, child) → pair ∈ candidates ∧
    hardFilter h next pair.1 (some pair.2) = .ok [] ∧
    ∃ below, grow = some below ∧ Follows below next action path pair child

theorem staysStrong_of_strongBranch {grow : Growing} {state : ControlState}
    {action : ActionDocument} {path : Path} {branch : BranchEffect}
    {chosen : Option (Candidate × PolicyNode)}
    (made : strongBranch h baseline candidates grow state action path branch =
      .ok (true, chosen)) :
    ∃ next, StaysStrong h baseline candidates grow state action path branch chosen next := by
  unfold strongBranch at made
  simp only [bind_ok] at made
  obtain ⟨next, moves, safe, judged, rest⟩ := made
  split_ifs at rest with unguarded idle goal
  · cases rest
  · cases rest
  · have safely : safe = true := by simpa using unguarded
    have progress : branchMakesGuaranteedProgress state next = true := by simpa using idle
    cases rest
    exact ⟨next, moves, safely ▸ judged, progress, fun _ => goal, nofun⟩
  · have safely : safe = true := by simpa using unguarded
    have progress : branchMakesGuaranteedProgress state next = true := by simpa using idle
    cases grow with
    | none => cases rest
    | some below =>
      simp only [bind_ok, pure_ok, Prod.mk.injEq] at rest
      obtain ⟨level, listed, found, chose, isSome, rfl⟩ := rest
      refine ⟨next, moves, safely ▸ judged, progress, ?_, ?_⟩
      · rintro rfl
        cases isSome
      · rintro pair child rfl
        obtain ⟨member, follows⟩ := follows_of_chooseNext chose
        obtain ⟨candidate, passes⟩ := mem_nextCandidates listed pair member
        exact ⟨candidate, passes, below, rfl, follows⟩

theorem capability_outcomes (capability : CapabilityDocument) :
    (capability.spec.branches.map (·.outcome)).Nodup ∧
      ∀ outcome, ∃ branch ∈ capability.spec.branches, branch.outcome = outcome := by
  have four := capability.spec.fourOutcomes
  refine ⟨four.nodup_iff.mpr (by decide), fun outcome => ?_⟩
  have listed : outcome ∈ capability.spec.branches.map (·.outcome) := by
    rw [four.mem_iff]
    cases outcome <;> decide
  exact List.mem_map.mp listed

theorem children_of_strongNode {grow : Growing} {state : ControlState} {pair : Candidate}
    {path : Path} {node : PolicyNode}
    (made : strongNode h baseline candidates grow state pair path = .ok node)
    (strong : node.strong = true) :
    (node.branches.map Prod.fst).Nodup ∧ ∀ branch ∈ pair.2.spec.branches, ∃ chosen,
      strongBranch h baseline candidates grow state pair.1
        ((h.controlState state, pair.1.spec.actionId) :: path) branch = .ok (true, chosen) ∧
      (branch.outcome, chosen.map (·.2)) ∈ node.branches := by
  unfold strongNode at made
  dsimp only at made
  split_ifs at made with seen
  · cases made
    cases strong
  · simp only [bind_ok, pure_ok] at made
    obtain ⟨grown, each, rfl⟩ := made
    rw [mapM_ok] at each
    have all : ∀ made ∈ grown, made.1 = true := by
      simpa [PolicyNode.strong, List.all_eq_true] using strong
    constructor
    · have keys : ((pair.2.spec.branches.zip grown).map
          fun p => (p.1.outcome, p.2.2.map (·.2))).map Prod.fst =
          pair.2.spec.branches.map (·.outcome) := by
        rw [List.map_map]
        have firsts : (pair.2.spec.branches.zip grown).map Prod.fst = pair.2.spec.branches :=
          List.map_fst_zip each.length_eq.le
        conv_rhs => rw [← firsts]
        rw [List.map_map]
        rfl
      change (((pair.2.spec.branches.zip grown).map _).map Prod.fst).Nodup
      rw [keys]
      exact (capability_outcomes pair.2).1
    · intro branch member
      have zipped := List.forall₂_iff_zip.mp each
      obtain ⟨i, inside, rfl⟩ := List.getElem_of_mem member
      have inside' : i < grown.length := each.length_eq ▸ inside
      have both : (pair.2.spec.branches[i], grown[i]) ∈ pair.2.spec.branches.zip grown := by
        rw [List.mem_iff_getElem]
        exact ⟨i, by simp [inside, inside'], by simp⟩
      have strongly := all grown[i] (List.getElem_mem inside')
      refine ⟨grown[i].2, ?_, List.mem_map.mpr ⟨_, both, rfl⟩⟩
      rw [zipped.2 both, ← strongly]

structure Step where
  state : ControlState
  pair : Candidate
  branch : BranchEffect
  next : ControlState

/-- A policy carried out while outcomes occur, with the candidates that its nodes stand for. -/
inductive Carried (h : Services) (baseline : Baseline) (candidates : List Candidate) :
    ℕ → Path → ControlState → Candidate → PolicyNode → (ℕ → OutcomeName) → List Step → Prop
  | ends {horizon : ℕ} {path : Path} {state next : ControlState} {pair : Candidate}
      {node : PolicyNode} {outcomes : ℕ → OutcomeName} {branch : BranchEffect}
      (declared : branch ∈ pair.2.spec.branches) (occurs : branch.outcome = outcomes 0)
      (moves : successor h state branch baseline = .ok next)
      (below : (branch.outcome, none) ∈ node.branches) :
      Carried h baseline candidates horizon path state pair node outcomes
        [⟨state, pair, branch, next⟩]
  | goesOn {horizon : ℕ} {path : Path} {state next : ControlState} {pair following : Candidate}
      {node child : PolicyNode} {outcomes : ℕ → OutcomeName} {branch : BranchEffect}
      {kept : Bool} {steps : List Step}
      (declared : branch ∈ pair.2.spec.branches) (occurs : branch.outcome = outcomes 0)
      (moves : successor h state branch baseline = .ok next)
      (below : (branch.outcome, some child) ∈ node.branches)
      (chosen : strongBranch h baseline candidates (growing h baseline candidates horizon) state
        pair.1 ((h.controlState state, pair.1.spec.actionId) :: path) branch =
          .ok (kept, some (following, child)))
      (rest : Carried h baseline candidates (horizon - 1)
        ((h.controlState state, pair.1.spec.actionId) :: path) next following child
        (fun n => outcomes (n + 1)) steps) :
      Carried h baseline candidates horizon path state pair node outcomes
        (⟨state, pair, branch, next⟩ :: steps)

/-- What the run of a strong policy is like. -/
structure StrongRun (h : Services) (start : ControlState) (horizon : ℕ) (steps : List Step) :
    Prop where
  bounded : steps.length ≤ horizon
  floors : ∀ k, 0 < k → k ≤ steps.length → ∀ (coordinate : Identifier) floor,
    start.floors[coordinate]? = some floor → floor ≤ start.resources.getD coordinate 0 +
      ((steps.take k).map fun s => balance s.branch.resourceDeltaLower coordinate).sum
  grows : ∀ s ∈ steps, s.state.addressedBlockers ⊂ s.next.addressedBlockers
  filtered : ∀ s ∈ steps.tail, hardFilter h s.state s.pair.1 (some s.pair.2) = .ok []
  goal : ∃ last, steps.getLast? = some last ∧ last.next.blockers.Nonempty ∧
    last.next.blockers ⊆ last.next.addressedBlockers

theorem growing_some {horizon : ℕ}
    {below : ControlState → Candidate → Path → Checked PolicyNode}
    (grows : growing h baseline candidates horizon = some below) :
    1 < horizon ∧ below = strongTree h baseline candidates (horizon - 1) := by
  unfold growing at grows
  split_ifs at grows with short
  exact ⟨by omega, (Option.some.inj grows).symm⟩

theorem staysStrong_of_child {horizon : ℕ} {path : Path} {state : ControlState}
    {pair : Candidate} {node : PolicyNode} {branch : BranchEffect} {child : Option PolicyNode}
    (made : strongTree h baseline candidates horizon state pair path = .ok node)
    (strong : node.strong = true) (declared : branch ∈ pair.2.spec.branches)
    (below : (branch.outcome, child) ∈ node.branches) :
    ∃ chosen next, strongBranch h baseline candidates (growing h baseline candidates horizon)
        state pair.1 ((h.controlState state, pair.1.spec.actionId) :: path) branch =
          .ok (true, chosen) ∧ chosen.map (·.2) = child ∧
      StaysStrong h baseline candidates (growing h baseline candidates horizon) state pair.1
        ((h.controlState state, pair.1.spec.actionId) :: path) branch chosen next := by
  rw [strongTree_eq] at made
  obtain ⟨distinct, children⟩ := children_of_strongNode made strong
  obtain ⟨chosen, found, listed⟩ := children branch declared
  obtain ⟨next, stays⟩ := staysStrong_of_strongBranch found
  have same : (branch.outcome, chosen.map (·.2)) = (branch.outcome, child) :=
    List.inj_on_of_nodup_map distinct listed below rfl
  exact ⟨chosen, next, found, (Prod.ext_iff.mp same).2, stays⟩

theorem follows_of_carried {horizon : ℕ} {path : Path} {state next : ControlState}
    {pair following : Candidate} {node child : PolicyNode} {branch : BranchEffect} {kept : Bool}
    (made : strongTree h baseline candidates horizon state pair path = .ok node)
    (strong : node.strong = true) (declared : branch ∈ pair.2.spec.branches)
    (moves : successor h state branch baseline = .ok next)
    (below : (branch.outcome, some child) ∈ node.branches)
    (chosen : strongBranch h baseline candidates (growing h baseline candidates horizon) state
      pair.1 ((h.controlState state, pair.1.spec.actionId) :: path) branch =
        .ok (kept, some (following, child))) :
    1 < horizon ∧ following ∈ candidates ∧
      hardFilter h next following.1 (some following.2) = .ok [] ∧
      Follows (strongTree h baseline candidates (horizon - 1)) next pair.1
        ((h.controlState state, pair.1.spec.actionId) :: path) following child := by
  obtain ⟨made', next', found, _, stays⟩ := staysStrong_of_child made strong declared below
  have same : next' = next := Except.ok.inj (stays.moves.symm.trans moves)
  have agree := Except.ok.inj (found.symm.trans chosen)
  obtain ⟨member, passes, grow, grows, follows⟩ :=
    stays.goesOn following child (Prod.ext_iff.mp agree).2
  obtain ⟨long, rfl⟩ := growing_some grows
  rw [same] at passes follows
  exact ⟨long, member, passes, follows⟩

theorem strong_step {horizon : ℕ} {path : Path} {state next : ControlState}
    {pair : Candidate} {node : PolicyNode} {branch : BranchEffect} {child : Option PolicyNode}
    (made : strongTree h baseline candidates horizon state pair path = .ok node)
    (strong : node.strong = true) (declared : branch ∈ pair.2.spec.branches)
    (moves : successor h state branch baseline = .ok next)
    (below : (branch.outcome, child) ∈ node.branches) :
    state.addressedBlockers ⊂ next.addressedBlockers ∧
      (∀ (coordinate : Identifier) floor, state.floors[coordinate]? = some floor → floor ≤
        state.resources.getD coordinate 0 + balance branch.resourceDeltaLower coordinate) ∧
      (child = none → next.blockers.Nonempty ∧ next.blockers ⊆ next.addressedBlockers) := by
  obtain ⟨chosen, next', _, same, stays⟩ := staysStrong_of_child made strong declared below
  obtain rfl : next' = next := Except.ok.inj (stays.moves.symm.trans moves)
  have moved := succeeds_of_successor moves
  refine ⟨(of_decide_eq_true stays.progress).1, fun coordinate floor declares => ?_, fun none => ?_⟩
  · rw [← lowered_ok moved.marking]
    exact floors_of_resourceSafe moved stays.safe declares
  · rw [none, Option.map_eq_none_iff] at same
    exact of_decide_eq_true (stays.ends same)

theorem strongRun_of_carried {horizon : ℕ} {path : Path} {state : ControlState}
    {pair : Candidate} {node : PolicyNode} {outcomes : ℕ → OutcomeName} {steps : List Step}
    (carried : Carried h baseline candidates horizon path state pair node outcomes steps)
    (positive : 1 ≤ horizon)
    (made : strongTree h baseline candidates horizon state pair path = .ok node)
    (strong : node.strong = true) : StrongRun h state horizon steps := by
  induction carried with
  | ends declared occurs moves below =>
    obtain ⟨grows, floors, goal⟩ := strong_step made strong declared moves below
    refine ⟨by simpa using positive, ?_, by simpa using grows, by simp, ?_⟩
    · intro k started inside coordinate floor declares
      have first : k = 1 := by
        rw [List.length_singleton] at inside
        omega
      simpa [first] using floors coordinate floor declares
    · exact ⟨_, rfl, goal rfl⟩
  | @goesOn horizon path state next pair following node child outcomes branch kept steps
      declared occurs moves below chosen rest ih =>
    obtain ⟨grows, floors, _⟩ := strong_step made strong declared moves below
    obtain ⟨long, _, passes, follows⟩ := follows_of_carried made strong declared moves below chosen
    have later := ih (by omega) follows.grown follows.strong
    have moved := succeeds_of_successor moves
    refine ⟨?_, ?_, ?_, ?_, ?_⟩
    · have short := later.bounded
      rw [List.length_cons]
      omega
    · intro k started inside coordinate floor declares
      obtain ⟨k, rfl⟩ : ∃ m, k = m + 1 := ⟨k - 1, by omega⟩
      rw [List.take_succ_cons, List.map_cons, List.sum_cons, ← add_assoc]
      by_cases only : k = 0
      · simpa [only] using floors coordinate floor declares
      · rw [← lowered_ok moved.marking]
        rw [List.length_cons] at inside
        rw [← moved.floors] at declares
        exact later.floors k (by omega) (by omega) coordinate floor declares
    · rw [List.forall_mem_cons]
      exact ⟨grows, later.grows⟩
    · rw [List.tail_cons]
      cases rest with
      | ends => simpa using passes
      | goesOn =>
        rw [List.forall_mem_cons]
        exact ⟨passes, later.filtered⟩
    · obtain ⟨last, found, goal⟩ := later.goal
      refine ⟨last, ?_, goal⟩
      rw [List.getLast?_cons, found]
      rfl

theorem exists_carried {horizon : ℕ} {path : Path} {state : ControlState} {pair : Candidate}
    {node : PolicyNode}
    (made : strongTree h baseline candidates horizon state pair path = .ok node)
    (strong : node.strong = true) (outcomes : ℕ → OutcomeName) :
    ∃ steps, Carried h baseline candidates horizon path state pair node outcomes steps := by
  induction horizon using Nat.strong_induction_on generalizing path state pair node outcomes with
  | _ horizon ih =>
    obtain ⟨branch, declared, occurs⟩ := (capability_outcomes pair.2).2 (outcomes 0)
    have children := made
    rw [strongTree_eq] at children
    obtain ⟨chosen, found, below⟩ := (children_of_strongNode children strong).2 branch declared
    obtain ⟨next, stays⟩ := staysStrong_of_strongBranch found
    cases chosen with
    | none => exact ⟨_, .ends declared occurs stays.moves below⟩
    | some item =>
      obtain ⟨long, _, _, follows⟩ :=
        follows_of_carried made strong declared stays.moves below found
      obtain ⟨steps, rest⟩ := ih (horizon - 1) (by omega) follows.grown follows.strong
        fun n => outcomes (n + 1)
      exact ⟨_, .goesOn declared occurs stays.moves below found rest⟩

/-- Every sequence of outcomes is met by a run, and every run is as it should be. -/
theorem strongTree_strong {horizon : ℕ} {path : Path} {state : ControlState} {pair : Candidate}
    {node : PolicyNode} (positive : 1 ≤ horizon)
    (made : strongTree h baseline candidates horizon state pair path = .ok node)
    (strong : node.strong = true) (outcomes : ℕ → OutcomeName) :
    (∃ steps, Carried h baseline candidates horizon path state pair node outcomes steps) ∧
      ∀ steps, Carried h baseline candidates horizon path state pair node outcomes steps →
        StrongRun h state horizon steps :=
  ⟨exists_carried made strong outcomes,
    fun _ carried => strongRun_of_carried carried positive made strong⟩

end strength

section plans
variable (h : Services) (snapshot : AnalysisSnapshot) (objects : Objects)
  (profile : OperationalProfile) (actions : List ActionDocument)
  (capabilities : List CapabilityDocument)

/-- The candidates that a plan is made from, and the state that it is made in. -/
structure Prepared (state : ControlState) (screened : Screened) (candidates : List Candidate) :
    Prop where
  initial : initialState h snapshot objects profile = .ok state
  screens : screenActions h state actions capabilities = .ok screened
  undominated : nondominated screened.eligible = .ok candidates

variable {h snapshot objects profile actions capabilities}

theorem planActions_ok {horizon : ℤ} {result : PlanResult}
    (plan : planActions h snapshot objects profile actions capabilities horizon = .ok result) :
    (horizon ∉ ([1, 2, 3] : List ℤ) ∧
      result = .bare .error "planning_horizon_invalid" .none ∅ []) ∨
    horizon ∈ ([1, 2, 3] : List ℤ) ∧ ∃ state, initialState h snapshot objects profile = .ok state ∧
      ((state.blockers = ∅ ∧ result = .bare .ok "no_intervention_required" .exact ∅ []) ∨
      state.blockers ≠ ∅ ∧ ∃ screened candidates,
        Prepared h snapshot objects profile actions capabilities state screened candidates ∧
        ((maxEligible < candidates.length ∧ result = .bare .unknown
            "candidate_set_overflow_unknown" .incomplete screened.rejected
            (state.blockers.sort (· ≤ ·))) ∨
        candidates.length ≤ maxEligible ∧
          ((candidates = [] ∧ result = .bare .blocked "no_branch_safe_action" .exact
            screened.rejected (state.blockers.sort (· ≤ ·))) ∨
          candidates ≠ [] ∧ planned h snapshot objects state screened candidates horizon.toNat =
            .ok result))) := by
  unfold planActions at plan
  split_ifs at plan with inside
  · simp only [bind_ok] at plan
    obtain ⟨state, initial, plan⟩ := plan
    refine .inr ⟨inside, state, initial, ?_⟩
    split_ifs at plan with clear
    · exact .inl ⟨clear, (pure_ok.mp plan).symm⟩
    · simp only [bind_ok] at plan
      obtain ⟨screened, screens, candidates, undominated, plan⟩ := plan
      refine .inr ⟨clear, screened, candidates, ⟨initial, screens, undominated⟩, ?_⟩
      split_ifs at plan with many none
      · exact .inl ⟨many, (pure_ok.mp plan).symm⟩
      · exact .inr ⟨not_lt.mp many, .inl ⟨none, (pure_ok.mp plan).symm⟩⟩
      · exact .inr ⟨not_lt.mp many, .inr ⟨none, plan⟩⟩
  · exact .inl ⟨inside, (pure_ok.mp plan).symm⟩

theorem policy_of_planned {state : ControlState} {screened : Screened}
    {candidates : List Candidate} {horizon : ℕ} {result : PlanResult} {policy : PolicyNode}
    (plan : planned h snapshot objects state screened candidates horizon = .ok result)
    (returned : result.policy = some policy) :
    policy.strong = true ∧ ∃ pair, candidates = [pair] ∧
      strongTree h (some (snapshot, objects)) candidates horizon state pair [] = .ok policy := by
  simp only [planned, bind_ok] at plan
  obtain ⟨policies, made, counterexamples, _, plan⟩ := plan
  by_cases none : policies.filter (·.strong) = []
  · rw [if_pos none, pure_ok] at plan
    rw [← plan] at returned
    cases returned
  · rw [if_neg none, pure_ok] at plan
    rw [← plan] at returned
    dsimp only at returned
    split_ifs at returned with single
    · have listed := List.mem_filter.mp (List.mem_of_head? returned)
      obtain ⟨pair, rfl⟩ := List.length_eq_one_iff.mp single
      obtain ⟨other, member, grown⟩ := forall₂_mem_right (mapM_ok.mp made) policy listed.1
      rw [List.mem_singleton.mp member] at grown
      exact ⟨listed.2, pair, rfl, grown⟩

theorem policy_of_planActions {horizon : ℤ} {result : PlanResult} {policy : PolicyNode}
    (plan : planActions h snapshot objects profile actions capabilities horizon = .ok result)
    (returned : result.policy = some policy) :
    1 ≤ horizon.toNat ∧ policy.strong = true ∧ ∃ state screened pair,
      Prepared h snapshot objects profile actions capabilities state screened [pair] ∧
      strongTree h (some (snapshot, objects)) [pair] horizon.toNat state pair [] =
        .ok policy := by
  obtain ⟨_, rfl⟩ | ⟨inside, state, _, ⟨_, rfl⟩ | ⟨_, screened, candidates, prepared, ⟨_, rfl⟩ |
    ⟨_, ⟨_, rfl⟩ | ⟨_, plan⟩⟩⟩⟩ := planActions_ok plan
  · cases returned
  · cases returned
  · cases returned
  · cases returned
  · obtain ⟨strong, pair, rfl, made⟩ := policy_of_planned plan returned
    refine ⟨?_, strong, state, screened, pair, prepared, made⟩
    simp only [List.mem_cons, List.not_mem_nil, or_false] at inside
    omega

/-- A policy that a plan returns, with a candidate that it is the policy of. -/
structure Returned (h : Services) (snapshot : AnalysisSnapshot) (objects : Objects)
    (profile : OperationalProfile) (actions : List ActionDocument)
    (capabilities : List CapabilityDocument) (horizon : ℤ) (policy : PolicyNode)
    (state : ControlState) (candidates : List Candidate) (pair : Candidate) : Prop where
  prepared : ∃ screened,
    Prepared h snapshot objects profile actions capabilities state screened candidates
  member : pair ∈ candidates
  made : strongTree h (some (snapshot, objects)) candidates horizon.toNat state pair [] =
    .ok policy

/-- The actions of a run whose capabilities are not repeatable, by id. -/
def unrepeatable (steps : List Step) : List Identifier :=
  (steps.filter fun s => !s.pair.2.spec.repeatable).map (·.pair.1.spec.actionId)

theorem carried_single {baseline : Baseline} {single : Candidate} {horizon : ℕ} {path : Path}
    {state : ControlState} {pair : Candidate} {node : PolicyNode}
    {outcomes : ℕ → OutcomeName} {steps : List Step}
    (carried : Carried h baseline [single] horizon path state pair node outcomes steps)
    (same : pair = single)
    (made : strongTree h baseline [single] horizon state pair path = .ok node)
    (strong : node.strong = true) :
    (∀ s ∈ steps, s.pair = single) ∧
      (single.2.spec.repeatable = false → steps.length = 1) := by
  induction carried with
  | ends => simpa using same
  | goesOn declared occurs moves below chosen rest ih =>
    obtain ⟨_, member, _, follows⟩ := follows_of_carried made strong declared moves below chosen
    have again := List.mem_singleton.mp member
    obtain ⟨all, _⟩ := ih again follows.grown follows.strong
    refine ⟨List.forall_mem_cons.mpr ⟨same, all⟩, fun once => ?_⟩
    refine absurd ⟨?_, ?_⟩ follows.fresh
    · rw [again, same]
    · rw [again]
      exact once

theorem unrepeatable_nodup {single : Candidate} {steps : List Step}
    (all : ∀ s ∈ steps, s.pair = single)
    (once : single.2.spec.repeatable = false → steps.length = 1) :
    (unrepeatable steps).Nodup := by
  cases repeats : single.2.spec.repeatable with
  | true =>
    have none : steps.filter (fun s => !s.pair.2.spec.repeatable) = [] := by
      rw [List.filter_eq_nil_iff]
      intro s member
      rw [all s member, repeats]
      simp
    rw [unrepeatable, none]
    exact List.nodup_nil
  | false =>
    obtain ⟨s, rfl⟩ := List.length_eq_one_iff.mp (once repeats)
    simp [unrepeatable, all s (List.mem_singleton_self s), repeats]

theorem planActions_nonrepeatable {horizon : ℤ} {result : PlanResult} {policy : PolicyNode}
    (plan : planActions h snapshot objects profile actions capabilities horizon = .ok result)
    (returned : result.policy = some policy) :
    (∃ state candidates pair, Returned h snapshot objects profile actions capabilities horizon
      policy state candidates pair) ∧
    ∀ state candidates pair, Returned h snapshot objects profile actions capabilities horizon
        policy state candidates pair → ∀ outcomes,
      (∃ steps, Carried h (some (snapshot, objects)) candidates horizon.toNat [] state pair policy
        outcomes steps) ∧
      ∀ steps, Carried h (some (snapshot, objects)) candidates horizon.toNat [] state pair policy
        outcomes steps → (unrepeatable steps).Nodup := by
  obtain ⟨positive, strong, state, screened, pair, prepared, made⟩ :=
    policy_of_planActions plan returned
  refine ⟨⟨state, [pair], pair, ⟨screened, prepared⟩, List.mem_singleton_self pair, made⟩, ?_⟩
  rintro state' candidates' pair' ⟨⟨screened', prepared'⟩, member, made'⟩ outcomes
  obtain rfl := Except.ok.inj (prepared.initial.symm.trans prepared'.initial)
  obtain rfl := Except.ok.inj (prepared.screens.symm.trans prepared'.screens)
  obtain rfl := Except.ok.inj (prepared.undominated.symm.trans prepared'.undominated)
  refine ⟨exists_carried made' strong outcomes, fun steps carried => ?_⟩
  obtain ⟨all, once⟩ := carried_single carried (List.mem_singleton.mp member) made' strong
  exact unrepeatable_nodup all once

end plans

namespace PlannerSample

def services : Services :=
  { AuditSample.services with
    controlState := fun state => String.ofList (List.replicate state.resourceTrajectory.length 's')
    profile := fun _ => "profile"
    capability := fun capability => capability.metadata.objectId
    semantics := fun _ _ _ spec => spec.others.getD "capability_id" ""
    late := fun _ _ _ => false }

open IndecisiveSample in
/-- A snapshot whose references are to one object, which is not there. -/
def snapshot : AnalysisSnapshot :=
  ⟨⟨"tenant", "workspace", digest '0', .utc 0⟩, ∅,
    ⟨digest 'f', digest '0', digest 'a', digest 'a', digest 'a', digest 'a', [digest 'a'], [],
      ["target"], ∅, 1, mandatoryDimensions⟩⟩

theorem snapshot_accepted : snapshot.spec.Accepted :=
  @IndecisiveSample.spec_accepted mandatoryDimensions ['a'] 'a' 'a' 'a' 'a' (by decide)
    (List.cons_ne_nil _ _) (by decide) (List.nodup_singleton _) (by decide)

def missing : List Identifier := ["missing:" ++ IndecisiveSample.digest 'a']

def undetermined : List Identifier :=
  ["phase_contract_missing", "trust_policy_missing", "trusted_time_receipt_missing",
    "typed_live_snapshot_unavailable"]

def branch (resolves routes : List Identifier) (cost : ℕ) (outcome : OutcomeName) :
    BranchEffect where
  outcome
  mustAdd := []
  mayAdd := []
  mustRemove := []
  mayRemove := []
  resourceDeltaLower := ∅
  resourceDeltaUpper := ∅
  guaranteedEvidenceRoutes := routes
  resolvesBlockers := resolves
  debt := []
  rollbackObligations := []
  hazardsAdded := []
  hazardsRemoved := []
  timeUpper := .ofNat 0
  costUpper := .ofNat cost
  qualityLower := .ofNat 0
  safetyLower := .ofNat 0
  verificationLoadUpper := .ofNat 0
  independenceErosionUpper := .ofNat 0
  correlationConcentrationUpper := .ofNat 0
  cutExposureUpper := .ofNat 0

def outcomes : List OutcomeName := [.success, .partialOutcome, .failure, .timeout]

/-- A capability that is not repeatable. -/
def capability (name : Identifier) (effect : OutcomeName → BranchEffect)
    (integrity : ∀ branch ∈ outcomes.map effect, branch.accepted)
    (named : ∀ outcome, (effect outcome).outcome = outcome) : CapabilityDocument :=
  ⟨⟨"tenant", "workspace", name, .utc 0⟩, ∅,
    { others := .ofList [("capability_id", name)]
      outputSchemaName := "output"
      outputSchemaDigest := "schema"
      repeatable := false
      progressMeasure := none
      branches := outcomes.map effect
      integrity
      fourOutcomes := by
        have same : (outcomes.map effect).map (·.outcome) = outcomes := by
          simp [Function.comp_def, named]
        rw [same]
        exact .refl _
      measured := nofun }⟩

def action (id capability : Identifier) : ActionDocument :=
  ⟨⟨"tenant", "workspace", id, .utc 0⟩, ∅, ⟨id, capability, [], [], []⟩⟩

/-- Restores the objects; unless it times out it settles everything. -/
def restoring : CapabilityDocument :=
  capability "restoring" (fun outcome => branch
      (if outcome = .timeout then missing else missing ++ undetermined) ["route"] 1 outcome)
    (by decide +kernel) fun _ => rfl

def settling : CapabilityDocument :=
  capability "settling" (branch undetermined ["route"] 1) (by decide +kernel) fun _ => rfl

def completing : CapabilityDocument :=
  capability "completing" (branch (missing ++ undetermined) ["route"] 1) (by decide +kernel)
    fun _ => rfl

def initial : Checked ControlState := do
  let profile ← audit services snapshot ∅
  initialState services snapshot ∅ profile

def steps : List Candidate :=
  [(action "restore" "restoring", restoring), (action "settle" "settling", settling)]

def tree : Checked (ControlState × PolicyNode) := do
  let state ← initial
  let node ← strongTree services (some (snapshot, ∅)) steps 2 state
    (action "restore" "restoring", restoring) []
  pure (state, node)

/-- A tree of two levels: after a timeout the other action settles the rest. -/
theorem strongTree_sample : ∃ state node, initial = .ok state ∧
    strongTree services (some (snapshot, ∅)) steps 2 state
      (action "restore" "restoring", restoring) [] = .ok node ∧
    ∀ outcomes,
      (∃ steps', Carried services (some (snapshot, ∅)) steps 2 [] state
        (action "restore" "restoring", restoring) node outcomes steps') ∧
      ∀ steps', Carried services (some (snapshot, ∅)) steps 2 [] state
        (action "restore" "restoring", restoring) node outcomes steps' →
          StrongRun services state 2 steps' := by
  have run : tree.toOption.map (fun result => result.2.strong) = some true := by decide +kernel
  obtain ⟨result, done, strong⟩ := Option.map_eq_some_iff.mp run
  cases made : tree with
  | error fault =>
    rw [made] at done
    cases done
  | ok found =>
    rw [made] at done
    cases done
    simp only [tree, bind_ok, pure_ok] at made
    obtain ⟨state, initial, node, grown, rfl⟩ := made
    exact ⟨state, node, initial, grown, strongTree_strong (by decide) grown strong⟩

def plan : Checked (OperationalProfile × PlanResult) := do
  let profile ← audit services snapshot ∅
  let result ← planActions services snapshot ∅ profile [action "complete" "completing"]
    [completing] 1
  pure (profile, result)

/-- An action that settles everything is the plan's policy, and it is used once. -/
theorem planActions_nonrepeatable_sample : ∃ profile result policy,
    audit services snapshot ∅ = .ok profile ∧
    planActions services snapshot ∅ profile [action "complete" "completing"] [completing] 1 =
      .ok result ∧ result.policy = some policy ∧
    ((∃ state candidates pair, Returned services snapshot ∅ profile
      [action "complete" "completing"] [completing] 1 policy state candidates pair) ∧
    ∀ state candidates pair, Returned services snapshot ∅ profile
        [action "complete" "completing"] [completing] 1 policy state candidates pair →
        ∀ outcomes,
      (∃ steps, Carried services (some (snapshot, ∅)) candidates (1 : ℤ).toNat [] state pair
        policy outcomes steps) ∧
      ∀ steps, Carried services (some (snapshot, ∅)) candidates (1 : ℤ).toNat [] state pair
        policy outcomes steps → (unrepeatable steps).Nodup) := by
  have run : plan.toOption.map (fun result => result.2.policy.isSome) = some true := by
    decide +kernel
  obtain ⟨planned, done, has⟩ := Option.map_eq_some_iff.mp run
  cases made : plan with
  | error fault =>
    rw [made] at done
    cases done
  | ok found =>
    rw [made] at done
    cases done
    simp only [plan, bind_ok, pure_ok] at made
    obtain ⟨profile, audited, result, found, rfl⟩ := made
    obtain ⟨policy, returned⟩ := Option.isSome_iff_exists.mp has
    exact ⟨profile, result, policy, audited, found, returned,
      planActions_nonrepeatable found returned⟩

end PlannerSample

end CollectivePhaseControl.Planning
