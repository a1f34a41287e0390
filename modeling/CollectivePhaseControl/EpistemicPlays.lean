import CollectivePhaseControl.EpistemicPlanning

/-! Hidden plays of an observation policy. The adversary picks an effect under the fixed
model and a raw symbol of its kernel row; the policy sees the symbol through its channel.
The leaves of a feasible policy are what its finished plays end in. -/
namespace CollectivePhaseControl

variable {hash : EpistemicHashing}

/-- What is done at one decision: the entry and the action by the policy, the rest hidden. -/
structure Act where
  entry : Bool
  actionId : Identifier
  effect : GrowthSuccessor
  raw : Identifier

structure Placed where
  node : EpistemicPolicyNode
  hypothesis : EpistemicHypothesis

/-- The hypothesis with an entry at its own ledger, when one is decided. -/
def withEntry (entry : Bool) (h : EpistemicHypothesis) : EpistemicHypothesis :=
  if entry then (Domain.marked h).canonical else h

namespace Domain
variable {d : Domain hash}

def Answers (d : Domain hash) (p : Placed) (act : Act) (q : Placed) : Prop :=
  p.node.actionId = some act.actionId ∧ p.node.entry = act.entry ∧
    d.HiddenStep (withEntry act.entry p.hypothesis) act.actionId act.effect act.raw
      q.hypothesis ∧
    ∃ symbol, d.observationMap[act.raw]? = some symbol ∧
      p.node.branches.lookup symbol = some q.node

/-- A play that ends in `final`, where the policy then does as `choice` says. -/
def Plays (d : Domain hash) (node : EpistemicPolicyNode) (h : EpistemicHypothesis)
    (acts : List Act) (choice : Bool × Option Identifier) (final : EpistemicHypothesis) : Prop :=
  ∃ last, Runs.Run d.Answers ⟨node, h⟩ acts ⟨last, final⟩ ∧ (last.entry, last.actionId) = choice

theorem plays_nil {node : EpistemicPolicyNode} {h final : EpistemicHypothesis}
    {choice : Bool × Option Identifier} : d.Plays node h [] choice final ↔
      final = h ∧ (node.entry, node.actionId) = choice := by
  constructor
  · rintro ⟨last, run, same⟩
    cases run
    exact ⟨rfl, same⟩
  · rintro ⟨rfl, same⟩
    exact ⟨node, .nil _, same⟩

theorem plays_cons {node : EpistemicPolicyNode} {h final : EpistemicHypothesis} {act : Act}
    {acts : List Act} {choice : Bool × Option Identifier} :
    d.Plays node h (act :: acts) choice final ↔ ∃ q, d.Answers ⟨node, h⟩ act q ∧
      d.Plays q.node q.hypothesis acts choice final := by
  constructor
  · rintro ⟨last, run, same⟩
    cases run with
    | cons head rest => exact ⟨_, head, last, rest, same⟩
  · rintro ⟨q, head, last, rest, same⟩
    exact ⟨last, .cons head rest, same⟩

theorem plays_stopped {node : EpistemicPolicyNode} {h final : EpistemicHypothesis}
    {acts : List Act} {choice : Bool × Option Identifier} (stopped : node.actionId = none) :
    d.Plays node h acts choice final ↔ acts = [] ∧ final = h ∧ (node.entry, none) = choice := by
  cases acts with
  | nil =>
    rw [plays_nil, stopped]
    exact (and_iff_right rfl).symm
  | cons act acts =>
    rw [plays_cons]
    constructor
    · rintro ⟨q, ⟨acting, -⟩, -⟩
      exact absurd (stopped.symm.trans acting) (Option.some_ne_none _).symm
    · rintro ⟨impossible, -⟩
      exact absurd impossible (List.cons_ne_nil _ _)

theorem advance_nodup {support : Support} {actionId : Identifier}
    {found : List (Identifier × Support)} (h : d.advance support actionId = .ok found) :
    (found.map Prod.fst).Nodup := by
  obtain ⟨recipe, lists, -, -, grouped⟩ := advance_ok.mp h
  rw [branches_keys grouped]
  exact Dict.nodup_toList _

end Domain

namespace PolicySearch
variable {x : PolicySearch hash} {roots : EpistemicHypothesis → Prop}

theorem Selects.mem (free : x.domain.CollisionFree roots) {support selected : Support}
    {entry : Bool} (tracked : ∀ h ∈ support, x.domain.Tracked roots h)
    (selects : x.Selects support entry selected) {y : EpistemicHypothesis} :
    y ∈ selected ↔ ∃ h ∈ support, withEntry entry h = y := by
  rcases selects with ⟨rfl, rfl⟩ | ⟨rfl, -, -, marking⟩
  · simp [withEntry]
  · exact Domain.mem_markEntry free tracked marking

theorem Selects.tracked (free : x.domain.CollisionFree roots) {support selected : Support}
    {entry : Bool} (tracked : ∀ h ∈ support, x.domain.Tracked roots h)
    (selects : x.Selects support entry selected) : ∀ y ∈ selected, x.domain.Tracked roots y := by
  rcases selects with ⟨rfl, rfl⟩ | ⟨rfl, -, -, marking⟩
  · exact tracked
  · intro y member
    obtain ⟨h, listed, rfl⟩ := (Domain.mem_markEntry free tracked marking).mp member
    exact .entered (tracked h listed)

theorem branch_tracked (free : x.domain.CollisionFree roots) {selected : Support}
    (tracked : ∀ h ∈ selected, x.domain.Tracked roots h) {actionId : Identifier}
    {branches : List (Identifier × Support)}
    (advanced : x.domain.advance selected actionId = .ok branches) {b : Identifier × Support}
    (branch : b ∈ branches) : ∀ y ∈ b.2, x.domain.Tracked roots y := by
  intro y member
  have shown := lookup_of_mem (Domain.advance_nodup advanced) branch
  obtain ⟨h, listed, stepped⟩ := (Domain.advance_support free tracked advanced shown).mp member
  exact stepped.tracked (tracked h listed)

variable (hash) in
theorem decision_children (support : Support) (entry : Bool) (actionId : Identifier)
    {branches : List (Identifier × Support)} {children : List Policy}
    (distinct : (branches.map Prod.fst).Nodup) {rest : Identifier × Support → Policy → Prop}
    (each : List.Forall₂ rest branches children) :
    List.Forall₂ (fun b child => rest b child ∧
      (decisionPolicy hash support actionId entry branches children).node.branches.lookup b.1 =
        some child.node) branches children := by
  refine forall₂_and each ?_
  have same : (branches.map Prod.fst).length = (children.map (·.node)).length := by
    simpa using each.length_eq
  have looked := forall₂_lookup_zip distinct same
  rwa [List.forall₂_map_left_iff, List.forall₂_map_right_iff] at looked

theorem mem_leaves (free : x.domain.CollisionFree roots) : ∀ {left depth : ℕ} {support : Support}
    {p : Policy}, x.Feasible left depth support p →
    (∀ h ∈ support, x.domain.Tracked roots h) → ∀ {y : EpistemicHypothesis},
    y ∈ p.leaves ↔ ∃ h ∈ support, ∃ acts, x.domain.Plays p.node h acts (false, none) y := by
  have leaf : ∀ (support : Support) {y : EpistemicHypothesis},
      y ∈ support ↔ ∃ h ∈ support, ∃ acts,
        x.domain.Plays (leafPolicy hash support).node h acts (false, none) y := by
    intro support y
    constructor
    · exact fun member => ⟨y, member, [], Domain.plays_nil.mpr ⟨rfl, rfl⟩⟩
    · rintro ⟨h, member, acts, play⟩
      obtain ⟨-, rfl, -⟩ := (Domain.plays_stopped rfl).mp play
      exact member
  intro left
  induction left with
  | zero =>
    rintro depth support p ⟨-, rfl⟩ - y
    exact leaf support
  | succ left ih =>
    rintro depth support p (⟨-, rfl⟩ | ⟨-, entry, selected, actionId, selects, branches, children,
      advanced, each, rfl⟩) tracked y
    · exact leaf support
    · have distinct := Domain.advance_nodup advanced
      have tracked' := selects.tracked free tracked
      have named := decision_children hash support entry actionId distinct each
      constructor
      · intro member
        obtain ⟨child, listed, inChild⟩ := List.mem_flatMap.mp member
        obtain ⟨b, branch, feasible, found⟩ := forall₂_mem_right named child listed
        obtain ⟨g, inBranch, acts, play⟩ :=
          (ih feasible (branch_tracked free tracked' advanced branch)).mp inChild
        have shown := lookup_of_mem distinct branch
        obtain ⟨s, inSelected, effect, raw, stepped, mapped⟩ :=
          (Domain.advance_support free tracked' advanced shown).mp inBranch
        obtain ⟨h, inSupport, rfl⟩ := (selects.mem free tracked).mp inSelected
        refine ⟨h, inSupport, ⟨entry, actionId, effect, raw⟩ :: acts, ?_⟩
        exact Domain.plays_cons.mpr
          ⟨⟨child.node, g⟩, ⟨rfl, rfl, stepped, b.1, mapped, found⟩, play⟩
      · rintro ⟨h, inSupport, acts, play⟩
        cases acts with
        | nil =>
          obtain ⟨-, impossible⟩ := Domain.plays_nil.mp play
          exact nomatch (Prod.mk.inj impossible).2
        | cons act acts =>
          obtain ⟨⟨node, next⟩, ⟨acting, entering, stepped, symbol, mapped, found⟩, play⟩ :=
            Domain.plays_cons.mp play
          cases acting
          cases entering
          have inSelected := (selects.mem free tracked).mpr ⟨h, inSupport, rfl⟩
          have shownStep : x.domain.ShownStep (withEntry act.entry h) act.actionId symbol next :=
            ⟨act.effect, act.raw, stepped, mapped⟩
          obtain ⟨support', shown⟩ := Domain.advance_shown advanced inSelected shownStep
          obtain ⟨child, listed, feasible, found'⟩ :=
            forall₂_mem_left named _ (mem_of_lookup shown)
          cases found.symm.trans found'
          refine List.mem_flatMap.mpr ⟨child, listed, ?_⟩
          rw [ih feasible (branch_tracked free tracked' advanced (mem_of_lookup shown))]
          refine ⟨next, ?_, acts, play⟩
          exact (Domain.advance_support free tracked' advanced shown).mpr ⟨_, inSelected, shownStep⟩

end PolicySearch

end CollectivePhaseControl
