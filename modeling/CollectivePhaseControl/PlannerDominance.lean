import CollectivePhaseControl.PlannerStrength

/-! What dominance keeps. It is a strict order on the worst cases, so that above every
eligible action an undominated one remains; whether an action is strong within one step is
a matter of its single branches. -/
namespace CollectivePhaseControl.Planning

theorem getD_of_atLeastAsGood {a b : Worst} (good : atLeastAsGood a b) (coordinate : Identifier) :
    b.resources.getD coordinate 0 ≤ a.resources.getD coordinate 0 := by
  by_cases listed : coordinate ∈ a.resources.keys ++ b.resources.keys
  · obtain ⟨_, _, _, _, _, _, _, _, _, _, resources, _⟩ := good
    exact resources coordinate listed
  · rw [List.mem_append, not_or, Std.ExtTreeMap.mem_keys, Std.ExtTreeMap.mem_keys] at listed
    rw [Std.ExtTreeMap.getD_eq_fallback listed.1, Std.ExtTreeMap.getD_eq_fallback listed.2]

theorem atLeastAsGood_refl (a : Worst) : atLeastAsGood a a := by
  simp [atLeastAsGood]

theorem atLeastAsGood_trans {a b c : Worst} (first : atLeastAsGood a b)
    (second : atLeastAsGood b c) : atLeastAsGood a c := by
  have resources (coordinate : Identifier) :
      c.resources.getD coordinate 0 ≤ a.resources.getD coordinate 0 :=
    (getD_of_atLeastAsGood second coordinate).trans (getD_of_atLeastAsGood first coordinate)
  obtain ⟨r₁, e₁, t₁, c₁, q₁, s₁, v₁, i₁, k₁, x₁, _, d₁, b₁, h₁⟩ := first
  obtain ⟨r₂, e₂, t₂, c₂, q₂, s₂, v₂, i₂, k₂, x₂, _, d₂, b₂, h₂⟩ := second
  exact ⟨r₂.trans r₁, e₂.trans e₁, t₁.trans t₂, c₁.trans c₂, q₂.trans q₁, s₂.trans s₁,
    v₁.trans v₂, i₁.trans i₂, k₁.trans k₂, x₁.trans x₂, fun coordinate _ => resources coordinate,
    d₁.trans d₂, b₁.trans b₂, h₁.trans h₂⟩

theorem strictlyBetter_iff {a b : Worst} (good : atLeastAsGood a b) :
    strictlyBetter a b ↔ ¬ atLeastAsGood b a := by
  constructor
  · intro better back
    have resources := getD_of_atLeastAsGood back
    obtain ⟨r₁, e₁, t₁, c₁, q₁, s₁, v₁, i₁, k₁, x₁, _, d₁, b₁, h₁⟩ := good
    obtain ⟨r₂, e₂, t₂, c₂, q₂, s₂, v₂, i₂, k₂, x₂, _, d₂, b₂, h₂⟩ := back
    rcases better with r | e | t | c | q | s | v | i | k | x | ⟨y, _, m⟩ | d | b | h
    · exact r (r₂.antisymm r₁)
    · exact e (e₂.antisymm e₁)
    · exact t₂.not_gt t
    · exact c₂.not_gt c
    · exact q₂.not_gt q
    · exact s₂.not_gt s
    · exact v₂.not_gt v
    · exact i₂.not_gt i
    · exact k₂.not_gt k
    · exact x₂.not_gt x
    · exact (resources y).not_gt m
    · exact d (d₁.antisymm d₂)
    · exact b (b₁.antisymm b₂)
    · exact h (h₁.antisymm h₂)
  · intro unmatched
    by_contra level
    simp only [strictlyBetter, not_or, ne_eq, not_not, not_lt, not_exists, not_and] at level
    obtain ⟨r, e, t, c, q, s, v, i, k, x, m, d, b, h⟩ := level
    refine unmatched ⟨r.le, e.le, t, c, q, s, v, i, k, x, fun coordinate member => ?_, d.ge, b.ge,
      h.ge⟩
    exact m coordinate (List.mem_append.mpr (List.mem_append.mp member).symm)

instance preorderWorst : Preorder Worst where
  le a b := atLeastAsGood b a
  le_refl := atLeastAsGood_refl
  le_trans _ _ _ first second := atLeastAsGood_trans second first

theorem dominates_iff {left right : CapabilityDocument} :
    dominates left right = .ok true ↔ ∃ a b, worstCoordinates left = .ok a ∧
      worstCoordinates right = .ok b ∧ b < a := by
  simp only [dominates, bind_ok, pure_ok, decide_eq_true_eq]
  constructor
  · rintro ⟨a, first, b, second, good, better⟩
    exact ⟨a, b, first, second, good, (strictlyBetter_iff good).mp better⟩
  · rintro ⟨a, b, first, second, good, unmatched⟩
    exact ⟨a, first, b, second, good, (strictlyBetter_iff good).mpr unmatched⟩

theorem dominates_irrefl (capability : CapabilityDocument) :
    dominates capability capability ≠ .ok true := by
  intro above
  obtain ⟨a, b, first, second, less⟩ := dominates_iff.mp above
  obtain rfl := Except.ok.inj (first.symm.trans second)
  exact less.ne rfl

def Undominated (eligible : List Candidate) (pair : Candidate) : Prop :=
  ∀ other ∈ eligible, dominates other.2 pair.2 ≠ .ok true

theorem anyM_ok {α : Type} {p : α → Checked Bool} {xs : List α} {found : Bool}
    (run : xs.anyM p = .ok found) :
    (found = true → ∃ x ∈ xs, p x = .ok true) ∧ (found = false → ∀ x ∈ xs, p x = .ok false) := by
  induction xs with
  | nil =>
    rw [List.anyM_nil, pure_ok] at run
    simp [← run]
  | cons x xs ih =>
    rw [List.anyM_cons, bind_ok] at run
    obtain ⟨first, head, rest⟩ := run
    cases first with
    | true =>
      rw [if_pos rfl, pure_ok] at rest
      exact ⟨fun _ => ⟨x, List.mem_cons_self, head⟩,
        fun none => absurd (rest.trans none) Bool.false_ne_true.symm⟩
    | false =>
      rw [if_neg Bool.false_ne_true] at rest
      refine ⟨fun some => ?_, fun none => ?_⟩
      · obtain ⟨y, member, holds⟩ := (ih rest).1 some
        exact ⟨y, List.mem_cons_of_mem _ member, holds⟩
      · exact List.forall_mem_cons.mpr ⟨head, (ih rest).2 none⟩

theorem dominatedAmong_ok {eligible : List Candidate} {item : Candidate × ℕ} {dominated : Bool}
    (member : item ∈ eligible.zipIdx) (run : dominatedAmong eligible item = .ok dominated) :
    dominated = true ↔ ¬ Undominated eligible item.1 := by
  obtain ⟨found, none⟩ := anyM_ok run
  cases dominated with
  | true =>
    refine iff_of_true rfl fun free => ?_
    obtain ⟨other, listed, above⟩ := found rfl
    split_ifs at above with same
    · cases above
    · exact free other.1 (List.fst_mem_of_mem_zipIdx listed) above
  | false =>
    refine iff_of_false Bool.false_ne_true (not_not.mpr fun other listed above => ?_)
    obtain ⟨i, inside, rfl⟩ := List.getElem_of_mem listed
    have indexed : (eligible[i], i) ∈ eligible.zipIdx := by
      rw [List.mk_mem_zipIdx_iff_getElem?]
      exact List.getElem?_eq_getElem inside
    have unbeaten := none rfl _ indexed
    split_ifs at unbeaten with same
    · have itself : eligible[i] = item.1 := by
        have here := List.mk_mem_zipIdx_iff_getElem?.mp member
        change i = item.2 at same
        rw [← same, List.getElem?_eq_getElem inside] at here
        exact Option.some.inj here
      rw [itself] at above
      exact dominates_irrefl _ above
    · exact absurd (Except.ok.inj (above.symm.trans unbeaten)) Bool.false_ne_true.symm

open Classical in
theorem nondominated_from {eligible kept candidates : List Candidate}
    {items : List (Candidate × ℕ)} (inside : ∀ item ∈ items, item ∈ eligible.zipIdx)
    (run : items.foldlM (fun kept item => do
      let dominated ← dominatedAmong eligible item
      pure (if dominated = true then kept else kept ++ [item.1])) kept = .ok candidates) :
    candidates = kept ++ (items.map Prod.fst).filter fun pair => Undominated eligible pair := by
  induction items generalizing kept with
  | nil =>
    rw [List.foldlM_nil, pure_ok] at run
    simp [run]
  | cons item items ih =>
    obtain ⟨here, later⟩ := List.forall_mem_cons.mp inside
    simp only [List.foldlM_cons, bind_ok, pure_ok] at run
    obtain ⟨_, ⟨dominated, judged, rfl⟩, rest⟩ := run
    rw [ih later rest, List.map_cons, List.filter_cons]
    have sound := dominatedAmong_ok here judged
    by_cases free : Undominated eligible item.1
    · have keeps : ¬ dominated = true := fun beaten => sound.mp beaten free
      rw [if_neg keeps, if_pos (decide_eq_true free), List.append_assoc, List.singleton_append]
    · rw [if_pos (sound.mpr free), if_neg (by simpa using free)]

open Classical in
theorem nondominated_ok {eligible candidates : List Candidate}
    (run : nondominated eligible = .ok candidates) :
    candidates = eligible.filter fun pair => Undominated eligible pair := by
  have all := nondominated_from (fun item member => member) run
  rw [List.nil_append, List.zipIdx_map_fst] at all
  exact all

theorem mem_nondominated {eligible candidates : List Candidate}
    (run : nondominated eligible = .ok candidates) {pair : Candidate} :
    pair ∈ candidates ↔ pair ∈ eligible ∧ Undominated eligible pair := by
  classical
  rw [nondominated_ok run, List.mem_filter, decide_eq_true_eq]

section eligible
variable {h : Services} {state : ControlState}

theorem resourceSafe_of_hardFilter {pair : Candidate}
    (passes : hardFilter h state pair.1 (some pair.2) = .ok []) :
    ∀ branch ∈ pair.2.spec.branches, resourceSafe state branch = .ok true := by
  intro branch member
  have none := (hardFilter_nil passes).2 branch member
  simp only [branchReasons, bind_ok, pure_ok] at none
  obtain ⟨safe, judged, _, _, nothing⟩ := none
  simp only [List.append_eq_nil_iff, reasonIf_eq_nil] at nothing
  rw [judged]
  congr 1
  simpa using nothing.1.2

theorem mem_screenActions {actions : List ActionDocument}
    {capabilities : List CapabilityDocument} {screened : Screened}
    (screens : screenActions h state actions capabilities = .ok screened) :
    ∀ pair ∈ screened.eligible, hardFilter h state pair.1 (some pair.2) = .ok [] := by
  refine foldlM_invariant (fun _ screened => ∀ pair ∈ screened.eligible,
    hardFilter h state pair.1 (some pair.2) = .ok []) ?_ (by simp) screens
  intro _ action before after all run
  simp only [screen, bind_ok] at run
  obtain ⟨filtered, made, rest⟩ := run
  revert made rest
  rcases (capabilities.foldl (tabulate h) ⟨∅, ∅⟩).byDigest[action.spec.capabilityDigest]? with
    _ | capability
  · intro _ rest
    rw [pure_ok] at rest
    rw [← rest]
    exact all
  · intro made rest
    dsimp only at rest
    split_ifs at rest with clean repeated
    · rw [pure_ok] at rest
      rw [← rest]
      exact all
    · rw [pure_ok] at rest
      rw [← rest]
      exact all
    · rw [pure_ok] at rest
      rw [← rest]
      intro pair member
      cases List.mem_append.mp member with
      | inl earlier => exact all pair earlier
      | inr last =>
        rw [List.mem_singleton.mp last]
        rw [(List.append_eq_nil_iff.mp (not_not.mp clean)).1] at made
        exact made

end eligible

section step
variable (h : Services) (snapshot : AnalysisSnapshot) (objects : Objects)

/-- Every branch of an action makes guaranteed progress and reaches the goal. -/
def Reaches (state : ControlState) (pair : Candidate) : Prop :=
  ∀ branch ∈ pair.2.spec.branches, ∃ next,
    successor h state branch (some (snapshot, objects)) = .ok next ∧
    branchMakesGuaranteedProgress state next = true ∧ routeGoalSatisfied next = true

instance decidableReaches (state : ControlState) (pair : Candidate) :
    Decidable (Reaches h snapshot objects state pair) :=
  decidable_of_iff (∀ branch ∈ pair.2.spec.branches,
    ((successor h state branch (some (snapshot, objects))).toOption.any fun next =>
      branchMakesGuaranteedProgress state next && routeGoalSatisfied next) = true) (by
    refine forall₂_congr fun branch _ => ?_
    cases successor h state branch (some (snapshot, objects)) with
    | ok next => simp [Except.toOption]
    | error fault => simp [Except.toOption])

def Resolves (state : ControlState) (pair : Candidate) : Prop :=
  state.blockers.Nonempty ∧
    ∀ branch ∈ pair.2.spec.branches, state.blockers ⊆ branch.resolvesBlockers.toFinset

/-- Every branch of an action guarantees some route, and the audit of what it leaves finds no
blocker that was not there. -/
def Clean (state : ControlState) (pair : Candidate) : Prop :=
  ∀ branch ∈ pair.2.spec.branches, branch.guaranteedEvidenceRoutes ≠ [] ∧
    ∃ profile, audit h
        (snapshotForLiveState h snapshot (state.liveObjects.filter (· ∉ branch.removals)))
        (successorObjects snapshot objects
          (state.liveObjects.filter (· ∉ branch.removals))) = .ok profile ∧
      profileBlockers profile ⊆ state.blockers

variable {h snapshot objects}

theorem branch_reaches_iff {state next : ControlState} {branch : BranchEffect}
    (moves : successor h state branch (some (snapshot, objects)) = .ok next)
    (unaddressed : state.addressedBlockers = ∅) (unrouted : state.evidenceRoutes = ∅) :
    (branchMakesGuaranteedProgress state next = true ∧ routeGoalSatisfied next = true) ↔
      (state.blockers.Nonempty ∧ state.blockers ⊆ branch.resolvesBlockers.toFinset) ∧
      branch.guaranteedEvidenceRoutes ≠ [] ∧ ∃ profile, audit h
          (snapshotForLiveState h snapshot (state.liveObjects.filter (· ∉ branch.removals)))
          (successorObjects snapshot objects
            (state.liveObjects.filter (· ∉ branch.removals))) = .ok profile ∧
        profileBlockers profile ⊆ state.blockers := by
  simp only [successor, bind_ok, recomputeScientificState, pure_ok] at moves
  obtain ⟨marking, _, bounds, _, profile, audited, rfl⟩ := moves
  have addressed : (projected state branch marking bounds).addressedBlockers =
      branch.resolvesBlockers.toFinset ∩ state.blockers := by simp [projected, unaddressed]
  have routes : (projected state branch marking bounds).evidenceRoutes =
      branch.guaranteedEvidenceRoutes.toFinset := by simp [projected, unrouted]
  have blockers : (projected state branch marking bounds).blockers = state.blockers := rfl
  simp only [branchMakesGuaranteedProgress, routeGoalSatisfied, decide_eq_true_eq, addressed,
    routes, blockers, unaddressed, List.toFinset_nonempty_iff, Finset.ssubset_iff_subset_ne]
  constructor
  · rintro ⟨⟨⟨_, some⟩, routed⟩, _, goal⟩
    have resolved : state.blockers ⊆ branch.resolvesBlockers.toFinset :=
      fun x member => (Finset.mem_inter.mp (goal (Finset.mem_union_left _ member))).1
    obtain ⟨x, member⟩ := Finset.nonempty_iff_ne_empty.mpr (Ne.symm some)
    refine ⟨⟨⟨x, (Finset.mem_inter.mp member).2⟩, resolved⟩, routed, profile, audited, ?_⟩
    exact fun x member => (Finset.mem_inter.mp (goal (Finset.mem_union_right _ member))).2
  · rintro ⟨⟨some, resolved⟩, routed, other, again, within⟩
    obtain rfl := Except.ok.inj (audited.symm.trans again)
    have all : branch.resolvesBlockers.toFinset ∩ state.blockers = state.blockers :=
      Finset.inter_eq_right.mpr resolved
    rw [all]
    refine ⟨⟨⟨Finset.empty_subset _, some.ne_empty.symm⟩, routed⟩, some.inl, ?_⟩
    exact Finset.union_subset subset_rfl within

theorem reaches_iff {state : ControlState} {pair : Candidate}
    (unaddressed : state.addressedBlockers = ∅) (unrouted : state.evidenceRoutes = ∅)
    (passes : hardFilter h state pair.1 (some pair.2) = .ok [])
    (bounded : ∀ branch ∈ pair.2.spec.branches, ∃ read, bounds branch = .ok read) :
    Reaches h snapshot objects state pair ↔
      Resolves state pair ∧ Clean h snapshot objects state pair := by
  obtain ⟨some, declared, _⟩ := (capability_outcomes pair.2).2 .success
  constructor
  · intro reaches
    have each : ∀ branch ∈ pair.2.spec.branches, _ := fun branch member =>
      have ⟨_, moves, goal⟩ := reaches branch member
      (branch_reaches_iff moves unaddressed unrouted).mp goal
    exact ⟨⟨(each some declared).1.1, fun branch member => (each branch member).1.2⟩,
      fun branch member => (each branch member).2⟩
  · rintro ⟨⟨blocked, resolves⟩, clean⟩ branch member
    obtain ⟨read, parsed⟩ := bounded branch member
    have safe := resourceSafe_of_hardFilter passes branch member
    simp only [resourceSafe, bind_ok] at safe
    obtain ⟨marking, booked, _⟩ := safe
    obtain ⟨routed, profile, audited, within⟩ := clean branch member
    have moves : ∃ next, successor h state branch (.some (snapshot, objects)) = .ok next := by
      simp only [successor, booked, parsed, ok_bind, recomputeScientificState]
      rw [show (projected state branch marking read).liveObjects =
        state.liveObjects.filter (· ∉ branch.removals) from rfl, audited]
      exact ⟨_, rfl⟩
    obtain ⟨next, moves⟩ := moves
    exact ⟨next, moves, (branch_reaches_iff moves unaddressed unrouted).mpr
      ⟨⟨blocked, resolves branch member⟩, routed, profile, audited, within⟩⟩

end step

section exactness
variable (h : Services) (snapshot : AnalysisSnapshot) (objects : Objects)
  (profile : OperationalProfile) (actions : List ActionDocument)
  (capabilities : List CapabilityDocument)

variable {h snapshot objects profile actions capabilities}

theorem Prepared.same {state state' : ControlState} {screened screened' : Screened}
    {candidates candidates' : List Candidate}
    (first : Prepared h snapshot objects profile actions capabilities state screened candidates)
    (second : Prepared h snapshot objects profile actions capabilities state' screened'
      candidates') : state = state' ∧ screened = screened' ∧ candidates = candidates' := by
  obtain rfl := Except.ok.inj (first.initial.symm.trans second.initial)
  obtain rfl := Except.ok.inj (first.screens.symm.trans second.screens)
  obtain rfl := Except.ok.inj (first.undominated.symm.trans second.undominated)
  exact ⟨rfl, rfl, rfl⟩

end exactness

namespace PlannerSample

def costly : CapabilityDocument :=
  capability "costly" (branch (missing ++ undetermined) ["route"] 2) (by decide +kernel)
    fun _ => rfl

def offered : List CapabilityDocument := [restoring, completing, costly]

def silent : CapabilityDocument :=
  capability "silent" (branch (missing ++ undetermined) [] 0) (by decide +kernel) fun _ => rfl

def discards (run : OperationalProfile × PlanResult × ControlState × Screened) : Prop :=
  run.2.1.code = "no_strong_policy_within_horizon" ∧ run.2.1.solutionClass = .exact ∧
    ∃ pair ∈ run.2.2.2.eligible, Reaches services snapshot ∅ run.2.2.1 pair

instance decidableDiscards (run : OperationalProfile × PlanResult × ControlState × Screened) :
    Decidable (discards run) := by
  unfold discards
  infer_instance

end PlannerSample

end CollectivePhaseControl.Planning
