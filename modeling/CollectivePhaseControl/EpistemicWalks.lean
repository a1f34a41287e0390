import CollectivePhaseControl.EpistemicChecks
import CollectivePhaseControl.EpistemicLimits
import CollectivePhaseControl.GrowthCompleteness

/-! Walks and searches. A policy that a search finds feasible passes the walk with its own
leaves, unless the walk runs out of expansions; and a policy that a walk accepts is one that
the search finds feasible, as far as the search looks. Both are judged by comparisons that say
the same. -/
namespace CollectivePhaseControl

open BudgetedSearch

variable {hash : EpistemicHashing}

theorem leads_require {σ β : Type} {condition : Prop} [Decidable condition] (holds : condition)
    {code : String} {f : Unit → EStateM Fault σ β} {I K : σ → Prop} {Q : β → Prop}
    {E : Fault → σ → Prop} (tail : Leads I (f ()) K Q E) :
    Leads I ((liftM (require condition code) : EStateM Fault σ Unit) >>= f) K Q E :=
  leads_ok (require_ok.mpr holds) tail

def Counted (n : ℕ) (σ : WalkState) : Prop := σ.nodes = n

/-- A walk ends early for want of expansions only. -/
def OutOfExpansions (e : Fault) (_ : WalkState) : Prop := e = .coded "epistemic_search_budget"

theorem leads_countNode {E : Fault → WalkState → Prop} (n : ℕ) :
    Leads (Counted n) WalkM.countNode (Counted (n + 1)) (· = n + 1) E := by
  rintro σ rfl
  exact ⟨rfl, rfl⟩

theorem shadows_chargeWalk (limits : GrowthSearchLimits) (n : ℕ) :
    Shadows (fun _ => True) (Counted n) (.coded "epistemic_search_budget")
      (WalkM.chargeExpansion limits) (.ok ⟨⟩) := by
  constructor
  · intro σ counted
    unfold WalkM.chargeExpansion
    split <;> exact ⟨counted, fun _ => trivial⟩
  · intro σ _
    unfold WalkM.chargeExpansion
    split
    · exact .inl rfl
    · exact .inr rfl

theorem flatten_leaves {children : List Policy} {parts : List (List Support)}
    (each : List.Forall₂ (fun child part => part.flatten = child.leaves) children parts) :
    parts.flatten.flatten = children.flatMap (·.leaves) := by
  induction each with
  | nil => rfl
  | cons head rest ih =>
    rw [List.flatten_cons, List.flatten_append, List.flatMap_cons, head, ih]

namespace PolicySearch
variable {x : PolicySearch hash}

theorem leads_leaf {rows : List GrowthComparison} {left depth n : ℕ} {support : Support}
    (ended : x.domain.terminal support none = .ok true)
    (decisions : depth ≤ x.domain.contract.spec.maxDecisions)
    (history : depth ≤ x.domain.epistemic.spec.maxHistory)
    (room : n + 1 ≤ x.domain.limits.maxWitnessNodes) :
    Leads (Counted n) (x.domain.walkPolicy rows x.domain.planRules (left + 1)
        (leafPolicy hash support).node support depth ()) (Counted (n + 1))
      (fun leaves => leaves.flatten = support) OutOfExpansions := by
  unfold Domain.walkPolicy
  refine leads_bind (leads_countNode n) fun nodes counted => ?_
  subst counted
  have within : x.domain.planRules.within (n + 1) depth = true := decide_eq_true ⟨room, decisions, history⟩
  refine leads_require within ?_
  refine leads_require rfl ?_
  refine leads_ok (a := support) rfl ?_
  have stopped : x.domain.planStop (leafPolicy hash support).node support = .ok () := by
    rw [Domain.planStop, if_pos ⟨rfl, rfl⟩, ended]
    rfl
  exact leads_ok stopped (ends_pure (by simp))

theorem Selects.running (fixed : x.endpoint = none) {support selected : Support} {entry : Bool} {depth : ℕ}
    (undecided : x.Undecided depth support) (selects : x.Selects support entry selected) :
    x.domain.terminal selected none = .ok false := by
  rcases selects with ⟨-, rfl⟩ | ⟨-, -, -, marking⟩
  · exact fixed ▸ undecided.running
  · obtain ⟨-, -, fits⟩ := Domain.markEntry_ok.mp marking
    rw [← fixed]
    refine running_inTime (Domain.bounded_ok.mp fits).2.2.some' fun y member => ?_
    obtain ⟨g, -, rfl⟩ := Domain.markEntry_origin marking member
    have horizon := (validateContract_ok hash.toHashing (Domain.validate_ok x.domain.valid).1).horizon
    have stop : x.stop (Domain.marked g).canonical =
        F g.state.elapsed + F x.domain.contract.spec.continuationHorizon := by
      rw [PolicySearch.stop, fixed]
      rfl
    rw [stop]
    exact lt_add_of_pos_right _ horizon

/-- A feasible policy passes the walk, with its own leaves and its own count of nodes, unless
the walk runs out of expansions. -/
theorem leads_feasible (fixed : x.endpoint = none) {rows : List GrowthComparison}
    (admits : x.domain.Admits rows x.comparisons) : ∀ {left depth n : ℕ} {support : Support}
    {p : Policy}, x.Feasible left depth support p → depth ≤ x.domain.contract.spec.maxDecisions →
    depth ≤ x.domain.epistemic.spec.maxHistory →
    n + p.nodes ≤ x.domain.limits.maxWitnessNodes →
    Leads (Counted n) (x.domain.walkPolicy rows x.domain.planRules (left + 1) p.node support depth ())
      (Counted (n + p.nodes)) (fun leaves => leaves.flatten = p.leaves) OutOfExpansions := by
  intro left
  induction left with
  | zero =>
    rintro depth n support p ⟨ended, rfl⟩ decisions history room
    exact leads_leaf (fixed ▸ ended) decisions history room
  | succ left ih =>
    rintro depth n support p (⟨ended, rfl⟩ | ⟨undecided, entry, selected, actionId, selects, branches,
      children, advanced, each, rfl⟩) decisions history room
    · exact leads_leaf (fixed ▸ ended) decisions history room
    · let p := decisionPolicy hash support actionId entry branches children
      have nodes : n + p.nodes = n + 1 + (children.map (·.nodes)).sum := (Nat.add_assoc _ _ _).symm
      have room : n + 1 + (children.map (·.nodes)).sum ≤ x.domain.limits.maxWitnessNodes :=
        nodes ▸ room
      change Leads (Counted n) (x.domain.walkPolicy rows x.domain.planRules (left + 1 + 1) p.node
        support depth ()) (Counted (n + p.nodes)) _ _
      rw [nodes]
      unfold Domain.walkPolicy
      refine leads_bind (leads_countNode n) fun nodes counted => ?_
      subst counted
      have within : x.domain.planRules.within (n + 1) depth = true :=
        decide_eq_true ⟨(Nat.le_add_right _ _).trans room, decisions, history⟩
      refine leads_require within ?_
      refine leads_require rfl ?_
      have entered : x.domain.entering rows p.node support = .ok selected := by
        rcases selects with ⟨rfl, rfl⟩ | ⟨rfl, -, -, marking⟩
        · rfl
        · exact Domain.markEntry_admits admits marking
      refine leads_ok entered ?_
      refine leads_ok (a := ()) rfl ?_
      refine leads_ok (selects.running fixed undecided) ?_
      refine leads_require rfl ?_
      refine leads_bind (((Domain.shadows_advance
        (shadows_chargeWalk x.domain.limits (n + 1)) selected actionId).ends).mono
        (fun _ => id) fun e _ said => said.resolve_left fun failed => ?_) fun found same => ?_
      · exact nomatch failed.symm.trans advanced
      cases advanced.symm.trans same
      have keys : p.node.branches.map Prod.fst = branches.map Prod.fst :=
        List.map_fst_zip (by simp [each.length_eq])
      have sameKeys : Domain.SameKeys branches p.node.branches := by
        rw [Domain.SameKeys, keys]
        exact ⟨List.Subset.refl _, List.Subset.refl _⟩
      refine leads_require sameKeys ?_
      have named := decision_children hash support entry actionId (Domain.advance_nodup advanced) each
      refine leads_bind (leads_mapM (C := Counted)
        (R := fun child part => part.flatten = child.leaves) ?_ named room) fun parts leaves =>
          ends_pure ?_
      · rintro b child m ⟨feasible, found⟩ fits
        refine leads_ok (demand_ok.mpr found) ?_
        exact ih feasible undecided.decisions
          (undecided.limit.trans_le (min_le_right _ _)) fits
      · exact flatten_leaves leaves

end PolicySearch

theorem forall₂_between {α β γ : Type} {R : α → β → Prop} {S : β → γ → Prop} {xs : List α}
    {zs : List γ} (each : List.Forall₂ (fun x z => ∃ y, R x y ∧ S y z) xs zs) :
    ∃ ys, List.Forall₂ R xs ys ∧ List.Forall₂ S ys zs := by
  induction each with
  | nil => exact ⟨[], .nil, .nil⟩
  | cons head rest ih =>
    obtain ⟨y, first, second⟩ := head
    obtain ⟨ys, firsts, seconds⟩ := ih
    exact ⟨y :: ys, .cons first firsts, .cons second seconds⟩

/-- Where a walk stops, its policy does, and the support is at its end. -/
def WalkRules.Final {τ : Type} (rules : WalkRules τ) (d : Domain hash) : Prop :=
  ∀ record node current, rules.stop record node current = .ok () →
    node.branches = [] ∧ node.entry = false ∧ d.terminal current none = .ok true

/-- The branches of every node are listed in the order of their symbols, as the dictionary they
stand for. -/
inductive InSymbolOrder : EpistemicPolicyNode → Prop
  | node {node : EpistemicPolicyNode} (sorted : (node.branches.map Prod.fst).Pairwise (· < ·))
      (below : ∀ b ∈ node.branches, InSymbolOrder b.2) : InSymbolOrder node

theorem planRules_final (d : Domain hash) : d.planRules.Final d := by
  intro record node current stopped
  have stopped : d.planStop node current = .ok () := stopped
  unfold Domain.planStop at stopped
  split at stopped
  case isFalse => cases stopped
  case isTrue leaf =>
    simp only [bind_ok, require_ok] at stopped
    obtain ⟨ended, answer, rfl⟩ := stopped
    exact ⟨List.isEmpty_iff.mp leaf.1, leaf.2, answer⟩

namespace PolicySearch
variable {x : PolicySearch hash} {roots : EpistemicHypothesis → Prop} {rows : List GrowthComparison}

/-- What an accepted walk goes through at a support: its end, or an action with every branch. -/
def Went (x : PolicySearch hash)
    (holds : Support → EpistemicPolicyNode → List Support → Prop) (support : Support)
    (node : EpistemicPolicyNode) (leaves : List Support) : Prop :=
  x.domain.terminal support none = .ok true ∧ node = (leafPolicy hash support).node ∧
    leaves = [support] ∨
  ∃ selected actionId branches parts, x.Selects support node.entry selected ∧
    node.supportDigest = hash.support support ∧ node.actionId = some actionId ∧
    x.domain.advance selected actionId = .ok branches ∧ Domain.SameKeys branches node.branches ∧
    List.Forall₂ (fun b part => ∃ child, node.branches.lookup b.1 = some child ∧
      holds b.2 child part) branches parts ∧ leaves = parts.flatten

theorem Selects.of_entering (fixed : x.endpoint = none)
    (admits : x.domain.Admits x.comparisons rows) {node : EpistemicPolicyNode}
    {support selected : Support} (h : x.domain.entering rows node support = .ok selected) :
    x.Selects support node.entry selected := by
  unfold Domain.entering at h
  split at h
  case isTrue marks =>
    obtain ⟨-, gate, -⟩ := Domain.markEntry_ok.mp h
    exact .inr ⟨marks, fixed, fun g member => (gate g member).1, Domain.markEntry_admits admits h⟩
  case isFalse carries => exact .inl ⟨by simpa using carries, (pure_ok.mp h).symm⟩

section walk
variable {τ : Type} {rules : WalkRules τ} (final : rules.Final x.domain) (fixed : x.endpoint = none)
  (free : x.domain.CollisionFree roots) (admits : x.domain.Admits x.comparisons rows)
include final fixed free admits

theorem ends_walkStep {fuel depth n : ℕ} {support : Support}
    (tracked : ∀ h ∈ support, x.domain.Tracked roots h) (taken : Domain.Taken n support)
    {holds : Support → EpistemicPolicyNode → List Support → Prop}
    (below : ∀ next child record, (∀ h ∈ next, x.domain.Tracked roots h) →
      Domain.Taken (n + 1) next → Ends (fun _ => True)
      (x.domain.walkPolicy rows rules fuel child next (depth + 1) record) (holds next child)
      fun _ _ => True) (node : EpistemicPolicyNode) (record : τ) :
    Ends (fun _ => True) (x.domain.walkPolicy rows rules (fuel + 1) node support depth record)
      (x.Went holds support node) fun _ _ => True := by
  have plain : ∀ {α : Type} (y : Checked α), Ends (fun _ => True) (liftM y : WalkM α)
      (fun a => y = .ok a) fun _ _ => True :=
    fun y => ends_lift (fun _ answer => answer) fun _ _ _ _ => trivial
  unfold Domain.walkPolicy
  refine leads_bind (J := fun _ => True) (P := fun _ => True) (fun _ _ => ⟨trivial, trivial⟩)
    fun nodes _ => ?_
  refine leads_bind (plain _) fun _ _ => leads_bind (plain _) fun _ digest => ?_
  refine leads_bind (plain _) fun selected entered => ?_
  have selects := Selects.of_entering fixed admits entered
  obtain ⟨digested, action, entry, children⟩ := node
  cases action with
  | none =>
    refine leads_bind (plain _) fun _ stopped => ends_pure (.inl ?_)
    obtain ⟨rfl, rfl, answer⟩ := final _ _ _ stopped
    rcases selects with ⟨-, rfl⟩ | ⟨impossible, -⟩
    · have same : digested = hash.support selected := require_ok.mp digest
      subst same
      exact ⟨answer, rfl, rfl⟩
    · exact absurd impossible Bool.false_ne_true
  | some actionId =>
    refine leads_bind (plain _) fun record' _ => leads_bind (plain _) fun _ _ => ?_
    refine leads_bind (plain _) fun _ _ => ?_
    have paid : Shadows (fun _ => True) (fun _ : WalkState => True)
        (.coded "epistemic_search_budget") (WalkM.chargeExpansion x.domain.limits) (.ok ⟨⟩) :=
      ⟨fun _ _ => ⟨trivial, fun _ => trivial⟩, fun σ _ => (shadows_chargeWalk _ σ.nodes).2 σ rfl⟩
    refine leads_bind ((Domain.shadows_advance paid selected actionId).ends.mono (fun _ => id)
      fun _ _ _ => trivial) fun branches advanced => ?_
    refine leads_bind (plain _) fun _ keys => ?_
    have tracked' := selects.tracked free tracked
    have taken' : Domain.Taken n selected := by
      rcases selects with ⟨-, rfl⟩ | ⟨-, -, -, marking⟩
      · exact taken
      · exact taken.entered marking
    refine leads_bind (ends_mapM (R := fun b part => ∃ child, children.lookup b.1 = some child ∧
      holds b.2 child part) fun b branch => ?_) fun parts each => ends_pure (.inr ⟨selected,
        actionId, branches, parts, selects, require_ok.mp digest, rfl, advanced,
        require_ok.mp keys, each, rfl⟩)
    refine leads_bind (plain _) fun child found => ?_
    exact (below b.2 child record' (branch_tracked free tracked' advanced branch)
      (taken'.branch advanced branch)).mono
        (fun part stands => ⟨child, demand_ok.mp found, stands⟩) fun _ _ _ => trivial

omit final fixed free admits

/-- The continuation after an entry is not over yet, or just over. -/
def Timely (x : PolicySearch hash) (h : EpistemicHypothesis) : Prop :=
  ∀ p ∈ h.entry, F h.state.elapsed ≤ F p.time + F x.domain.contract.spec.continuationHorizon

/-- What an accepted walk stands for: a feasible policy with its leaves, as far as the search
looks; and the policy itself where it is listed in order. -/
def StandsFor (x : PolicySearch hash) (left depth : ℕ) (support : Support)
    (node : EpistemicPolicyNode) (leaves : List Support) : Prop :=
  (∀ h ∈ support, x.Timely h) ∧ (x.WithinDepth left depth support →
    ∃ p, x.Feasible left depth support p ∧ p.leaves = leaves.flatten ∧
      (InSymbolOrder node → p.node = node))

theorem standsFor_ended (fixed : x.endpoint = none) {left depth : ℕ} {support : Support}
    (ended : x.domain.terminal support none = .ok true) :
    x.StandsFor left depth support (leafPolicy hash support).node [support] := by
  constructor
  · intro h member p entered
    have past := (Domain.terminal_ok.mp ended).2 h member
    rw [Option.mem_def.mp entered] at past
    by_cases exactly : F h.state.elapsed = F p.time + F x.domain.contract.spec.continuationHorizon
    · exact exactly.le
    · simp [CollectivePhaseControl.terminal, exactly] at past
  · intro _
    have stops : x.Stops support (leafPolicy hash support) := ⟨fixed ▸ ended, rfl⟩
    refine ⟨leafPolicy hash support, ?_, by simp [leafPolicy], fun _ => rfl⟩
    cases left with
    | zero => exact stops
    | succ left => exact .inl stops

theorem Selects.inTime (fixed : x.endpoint = none) (free : x.domain.CollisionFree roots)
    {support selected : Support} (tracked : ∀ h ∈ support, x.domain.Tracked roots h) {entry : Bool}
    (selects : x.Selects support entry selected) {actionId : Identifier}
    {branches : List (Identifier × Support)}
    (advanced : x.domain.advance selected actionId = .ok branches)
    (timely : ∀ b ∈ branches, ∀ h ∈ b.2, x.Timely h) :
    ∀ h ∈ support, F h.state.elapsed < x.stop h := by
  intro h member
  have inSelected := (selects.mem free tracked).mpr ⟨h, member, rfl⟩
  obtain ⟨symbol, next, step⟩ := Domain.advance_moves advanced inSelected
  obtain ⟨later, inTime, carried, -⟩ := step.later
  obtain ⟨support', shown⟩ := Domain.advance_shown advanced inSelected step
  have inBranch := (Domain.advance_support free (selects.tracked free tracked) advanced shown).mpr
    ⟨_, inSelected, step⟩
  have due := timely _ (mem_of_lookup shown) next inBranch
  unfold stop
  rw [fixed]
  rcases selects with ⟨rfl, rfl⟩ | ⟨rfl, -, unmarked, -⟩
  · cases entered : h.entry with
    | none => exact later.trans_le inTime
    | some p => exact later.trans_le (due p (carried.trans entered))
  · rw [unmarked h member]
    exact later.trans_le inTime

theorem decision_of_node {node : EpistemicPolicyNode} {support selected : Support}
    {actionId : Identifier} {branches : List (Identifier × Support)}
    (digest : node.supportDigest = hash.support support) (acts : node.actionId = some actionId)
    (advanced : x.domain.advance selected actionId = .ok branches)
    (keys : Domain.SameKeys branches node.branches)
    (sorted : (node.branches.map Prod.fst).Pairwise (· < ·)) {children : List Policy}
    (same : List.Forall₂ (fun b child => node.branches.lookup b.1 = some child.node) branches
      children) :
    (decisionPolicy hash support actionId node.entry branches children).node = node := by
  have symbols : branches.map Prod.fst = node.branches.map Prod.fst := by
    refine increasing_ext ?_ sorted fun symbol => ⟨fun listed => keys.1 listed, fun listed => keys.2 listed⟩
    obtain ⟨recipe, lists, -, -, grouped⟩ := Domain.advance_ok.mp advanced
    rw [Domain.branches_keys grouped, Std.ExtTreeMap.map_fst_toList_eq_keys]
    exact Dict.keys_sorted _
  have distinct : (node.branches.map Prod.fst).Nodup := sorted.imp ne_of_lt
  have nodes : children.map (·.node) = node.branches.map Prod.snd := by
    have looked : List.Forall₂ (fun symbol child => node.branches.lookup symbol = some child)
        (node.branches.map Prod.fst) (children.map (·.node)) := by
      rw [← symbols, List.forall₂_map_left_iff, List.forall₂_map_right_iff]
      exact same
    have own : List.Forall₂ (fun symbol child => node.branches.lookup symbol = some child)
        (node.branches.map Prod.fst) (node.branches.map Prod.snd) := by
      rw [List.forall₂_map_left_iff, List.forall₂_map_right_iff, List.forall₂_same]
      exact fun b listed => lookup_of_mem distinct listed
    have agree := forall₂_compose (T := fun a b : EpistemicPolicyNode => a = b)
      (fun a symbol b first second => Option.some.inj (first.symm.trans second)) looked.flip own
    exact List.forall₂_eq_eq_eq ▸ agree
  have zipped : (node.branches.map Prod.fst).zip (node.branches.map Prod.snd) = node.branches := by
    rw [← List.unzip_fst, ← List.unzip_snd, List.zip_unzip]
  obtain ⟨digested, action, entry, listed⟩ := node
  simp only at digest acts symbols nodes zipped
  rw [decisionPolicy, symbols, nodes, zipped, digest, acts]

include final fixed free admits in
theorem ends_standsFor : ∀ {fuel depth n : ℕ} {support : Support} {node : EpistemicPolicyNode}
    {record : τ}, (∀ h ∈ support, x.domain.Tracked roots h) → Domain.Taken n support →
    Ends (fun _ => True) (x.domain.walkPolicy rows rules fuel node support depth record)
      (x.StandsFor (x.domain.contract.spec.maxDecisions - n) n support node) fun _ _ => True := by
  intro fuel
  induction fuel with
  | zero => exact fun _ _ _ _ => trivial
  | succ fuel ih =>
    intro depth n support node record tracked taken
    refine (ends_walkStep final fixed free admits tracked taken
      (fun next child record' tracked' taken' => ih tracked' taken') node record).mono ?_
      fun _ _ _ => trivial
    rintro leaves (⟨ended, rfl, rfl⟩ | ⟨selected, actionId, branches, parts, selects, digest, acts,
      advanced, keys, each, rfl⟩)
    · exact standsFor_ended fixed ended
    · have timely : ∀ b ∈ branches, ∀ h ∈ b.2, x.Timely h := by
        intro b branch
        obtain ⟨part, -, child, -, stands⟩ := forall₂_mem_left each b branch
        exact stands.1
      have inTime := selects.inTime fixed free tracked advanced timely
      have some' : support ≠ [] := by
        obtain ⟨y, member⟩ := List.exists_mem_of_ne_nil _ (Domain.advance_some advanced)
        obtain ⟨h, listed, -⟩ := (selects.mem free tracked).mp member
        exact List.ne_nil_of_mem listed
      have running := running_inTime some' inTime
      have taken' : Domain.Taken n selected := by
        rcases selects with ⟨-, rfl⟩ | ⟨-, -, -, marking⟩
        · exact taken
        · exact taken.entered marking
      have room := taken'.room advanced
      obtain ⟨left, fuelLeft⟩ := Nat.exists_eq_add_of_lt room
      have here : x.domain.contract.spec.maxDecisions - n = left + 1 := by omega
      have next : x.domain.contract.spec.maxDecisions - (n + 1) = left := by omega
      rw [here]
      rw [next] at each
      constructor
      · intro h member p entered
        have early := (inTime h member).le
        rwa [stop, fixed, Option.mem_def.mp entered] at early
      · intro within
        obtain ⟨limit, onward⟩ := within running inTime
        have children : List.Forall₂ (fun b part => ∃ p : Policy,
            (x.Feasible left (n + 1) b.2 p ∧ (InSymbolOrder node →
              node.branches.lookup b.1 = some p.node)) ∧ part.flatten = p.leaves) branches parts := by
          rw [List.forall₂_iff_zip] at each ⊢
          refine ⟨each.1, fun {b part} member => ?_⟩
          have deep := onward node.entry selected actionId branches selects advanced b
            (List.of_mem_zip member).1
          obtain ⟨child, found, -, stands⟩ := each.2 member
          obtain ⟨p, feasible, leaves, same⟩ := stands deep
          refine ⟨p, ⟨feasible, fun ordered => ?_⟩, leaves.symm⟩
          obtain ⟨-, below⟩ := ordered
          rw [found, same (below _ (mem_of_lookup found))]
        obtain ⟨policies, both, leaves⟩ := forall₂_between children
        have undecided : x.Undecided n support := ⟨running, room, limit, inTime⟩
        refine ⟨_, .inr ⟨undecided, node.entry, selected, actionId, selects, branches, policies,
          advanced, both.imp fun _ _ holds => holds.1, rfl⟩, (flatten_leaves leaves).symm,
          fun ordered => ?_⟩
        have same := both.imp fun _ _ holds => holds.2 ordered
        obtain ⟨sorted, -⟩ := ordered
        exact decision_of_node digest acts advanced keys sorted same

end walk

end PolicySearch

theorem Domain.walked_standsFor {d : Domain hash} {roots : EpistemicHypothesis → Prop}
    (free : d.CollisionFree roots) {comparisons rows : List GrowthComparison}
    (admits : d.Admits comparisons rows) {τ : Type} {rules : WalkRules τ} (final : rules.Final d)
    {support : Support} (tracked : ∀ h ∈ support, d.Tracked roots h) {n : ℕ}
    (taken : Domain.Taken n support) {fuel depth : ℕ} {node : EpistemicPolicyNode} {record : τ}
    {leaves : List Support} {σ σ' : WalkState}
    (walked : runFrom (d.walkPolicy rows rules fuel node support depth record) σ = .ok (leaves, σ')) :
    PolicySearch.StandsFor ⟨d, comparisons, none⟩ (d.contract.spec.maxDecisions - n) n support node
      leaves := by
  have walks : Ends (fun _ => True) (d.walkPolicy rows rules fuel node support depth record)
      (PolicySearch.StandsFor ⟨d, comparisons, none⟩ (d.contract.spec.maxDecisions - n) n support
        node) fun _ _ => True :=
    PolicySearch.ends_standsFor (x := ⟨d, comparisons, none⟩) final rfl free admits tracked taken
  have stands := walks σ trivial
  rw [runFrom_ok.mp walked] at stands
  exact stands.2

end CollectivePhaseControl
