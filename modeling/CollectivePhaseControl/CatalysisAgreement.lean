import CollectivePhaseControl.GenerativeSets
import CollectivePhaseControl.PrefixCausality

/-! The catalyst conditions of the kernels. The occurrence prefix takes a transformation
without clauses for catalysed, the others do not; where every transformation is uncatalyzed or
has a clause they agree, and the prefix fires nothing but what the generative layers hold. -/
namespace CollectivePhaseControl

/-- The catalyst condition of `bounded_occurrence_prefix`. -/
def prefixCatalysed (spec : TransformationSpec) (marked : Finset Identifier) : Bool :=
  spec.uncatalyzed || spec.catalystClauses.isEmpty ||
    spec.catalystClauses.any fun clause => clause.all (· ∈ marked)

theorem firable_eq (marked : Finset Identifier) (t : TransformationAttestation) :
    Prefix.firable marked t = (decide ((flows t).premises ⊆ marked) &&
      t.spec.inhibitors.all (· ∉ marked) && prefixCatalysed t.spec marked &&
      decide (Disjoint (flows t).conclusions (marked \ (flows t).premises))) := rfl

def StatesCatalysis (spec : TransformationSpec) : Prop :=
  spec.uncatalyzed = true ∨ spec.catalystClauses ≠ []

section conditions
variable {spec : TransformationSpec}

theorem prefixCatalysed_iff {marked : Finset Identifier} :
    prefixCatalysed spec marked = true ↔
      catalysed spec marked = true ∨ spec.catalystClauses = [] := by
  simp only [prefixCatalysed, catalysed, Bool.or_eq_true, List.isEmpty_iff]
  rw [or_right_comm]

/-- The conditions agree on all marked states exactly if the specification states its
catalysis. -/
theorem catalysis_agrees_iff :
    (∀ marked, prefixCatalysed spec marked = catalysed spec marked) ↔ StatesCatalysis spec := by
  constructor
  · intro agree
    by_cases clauses : spec.catalystClauses = []
    · have fires : catalysed spec ∅ = true := agree ∅ ▸ prefixCatalysed_iff.mpr (.inr clauses)
      rw [catalysed, clauses, List.any_nil, Bool.or_false] at fires
      exact .inl fires
    · exact .inr clauses
  · intro states marked
    refine Bool.eq_iff_iff.mpr (prefixCatalysed_iff.trans (or_iff_left_of_imp fun clauses => ?_))
    rw [catalysed, states.resolve_right (not_not.mpr clauses), Bool.true_or]

end conditions

section agreement
variable (network : Network)

def Unconditional : Prop :=
  ∀ t ∈ network.values, t.spec.inhibitors = [] ∧ t.spec.requiredEvidence = [] ∧
    t.spec.requiredAuthority = []

def Generated (food evidence authority : Finset Identifier) (id : Identifier) : Prop :=
  Decides (generativeLayers evidence authority (network.keys.length + 1) food network.toList)
    fun layers => id ∈ layers.1.flatten

/-- The kernels have the same catalyst condition, and the prefix of an unconditional network
fires what the layers generate. -/
structure CatalysisAgrees : Prop where
  conditions : ∀ t ∈ network.values, ∀ marked,
    prefixCatalysed t.spec marked = catalysed t.spec marked
  generated : Unconditional network → ∀ food evidence authority,
    Decides (Prefix.boundedOccurrencePrefix food network) fun occurrence =>
      ∀ e ∈ occurrence.events, Generated network food evidence authority e.transformationId

variable {network} {food evidence authority final : Finset Identifier}

theorem yields_labelled (network : Network) (food : Finset Identifier) :
    Yields (Prefix.boundedOccurrencePrefix food network) fun occurrence =>
      ∀ e ∈ occurrence.events, ∃ t marked, network[e.transformationId]? = some t ∧
        Prefix.Reachable network food marked ∧ Prefix.firable marked t = true := by
  unfold Prefix.boundedOccurrencePrefix
  split_ifs
  · exact yields_pure fun e member => absurd member List.not_mem_nil
  · refine yields_bind (Prefix.yields_exploreQueue _ _ Prefix.covered_start) fun s both =>
      yields_pure fun e member => ?_
    obtain ⟨raw, listed, rfl⟩ := List.mem_map.mp member
    exact both.1.labelled raw listed

theorem supported_of_firable (plain : Unconditional network)
    (agree : ∀ t ∈ network.values, ∀ marked,
      prefixCatalysed t.spec marked = catalysed t.spec marked)
    {t : TransformationAttestation} (listed : t ∈ network.values) {marked : Finset Identifier}
    (inside : marked ⊆ final) (fires : Prefix.firable marked t = true) :
    Supported evidence authority t (· ∈ final) := by
  obtain ⟨uninhibited, evident, authorized⟩ := plain t listed
  rw [firable_eq, agree t listed] at fires
  simp only [Bool.and_eq_true, decide_eq_true_eq] at fires
  obtain ⟨⟨⟨inputs, -⟩, catalysts⟩, -⟩ := fires
  have here : Supported evidence authority t (· ∈ marked) := by
    refine supported_iff.mpr ⟨inputs, ?_⟩
    simp [licensed, uninhibited, evident, authorized, catalysts]
  exact here.mono (fun x member => inside member) uninhibited

/-- Every marking that is reached lies within a set that holds the food and the outputs of
whatever it supports. -/
theorem reachable_subset (plain : Unconditional network)
    (agree : ∀ t ∈ network.values, ∀ marked,
      prefixCatalysed t.spec marked = catalysed t.spec marked) (start : food ⊆ final)
    (closed : ∀ (id : Identifier) (t : TransformationAttestation), network[id]? = some t →
      Supported evidence authority t (· ∈ final) → (flows t).conclusions ⊆ final)
    {marked : Finset Identifier} (reached : Prefix.Reachable network food marked) :
    marked ⊆ final := by
  induction reached with
  | refl => exact start
  | tail _ step ih =>
    obtain ⟨id, t, listed, fires, rfl⟩ := step
    have supports : Supported evidence authority t (· ∈ final) :=
      supported_of_firable plain agree (Dict.mem_values.mpr ⟨id, listed⟩) ih fires
    exact Finset.union_subset (Finset.sdiff_subset.trans ih) (closed id t listed supports)

theorem generated_of_firable (plain : Unconditional network)
    (agree : ∀ t ∈ network.values, ∀ marked,
      prefixCatalysed t.spec marked = catalysed t.spec marked)
    {id : Identifier} {t : TransformationAttestation} (listed : network[id]? = some t)
    {marked : Finset Identifier} (reached : Prefix.Reachable network food marked)
    (fires : Prefix.firable marked t = true) : Generated network food evidence authority id := by
  have entries : ∀ item, item ∈ network.toList ↔ network[item.1]? = some item.2 :=
    fun item => Std.ExtTreeMap.mem_toList_iff_getElem?_eq_some
  refine decides_iff.mpr ⟨fun budget layers after run => ?_, spends_generativeLayers _ _ _ ?_⟩
  · have layered := yields_generativeLayers _ _ _ budget layers after run
    have taken := yields_generativeLayers_all _ _ _ budget layers after run
    obtain ⟨start, outputs⟩ := layered.outputs fun item => (entries item).mp
    have closed : ∀ (id : Identifier) (t : TransformationAttestation), network[id]? = some t →
        Supported evidence authority t (· ∈ layers.2) → (flows t).conclusions ⊆ layers.2 := by
      intro id t listed supports
      obtain ⟨t', same, inside⟩ := outputs id (taken (id, t) ((entries _).mpr listed) supports)
      rw [listed] at same
      cases same
      exact inside
    have inside := reachable_subset plain agree start closed reached
    exact taken (id, t) ((entries _).mpr listed)
      (supported_of_firable plain agree (Dict.mem_values.mpr ⟨id, listed⟩) inside fires)
  · rw [← Std.ExtTreeMap.map_fst_toList_eq_keys, List.length_map]
    exact Nat.lt_succ_self _

end agreement

/-- The kernels agree on the catalysis of a network exactly if each of its transformations is
uncatalyzed or has a catalyst clause. -/
theorem kernels_agree_iff (network : Network) :
    CatalysisAgrees network ↔ ∀ t ∈ network.values, StatesCatalysis t.spec := by
  constructor
  · exact fun agrees t listed => catalysis_agrees_iff.mp (agrees.conditions t listed)
  · intro states
    have agree := fun t listed => catalysis_agrees_iff.mpr (states t listed)
    refine ⟨agree, fun plain food evidence authority => ?_⟩
    refine decides_iff.mpr ⟨?_, Prefix.spends_boundedOccurrencePrefix network food⟩
    refine (yields_labelled network food).mono fun occurrence labelled e member => ?_
    obtain ⟨t, marked, listed, reached, fires⟩ := labelled e member
    exact generated_of_firable plain agree listed reached fires

namespace CatalysisSample
open NetworkSample

/-- One unit of `a` becomes one of `b`, by nothing that is named. -/
def unstated : Identifier × TransformationAttestation :=
  let uncatalyzed := exchange "t" "a" "b"
  (uncatalyzed.1, { uncatalyzed.2 with
    spec := { uncatalyzed.2.spec with uncatalyzed := false } })

def network : Network := .ofList [unstated]

def budget : Budget := .ofOperations 1000 fun _ => false

def labels : List Identifier :=
  match Prefix.boundedOccurrencePrefix {"a"} network budget with
  | .ok occurrence _ => occurrence.events.map (·.transformationId)
  | .error _ _ => []

def layers : Option (List (List Identifier)) :=
  match generativeLayers ∅ ∅ (network.keys.length + 1) {"a"} network.toList budget with
  | .ok layers _ => some layers.1
  | .error _ _ => none

end CatalysisSample

open CatalysisSample in
/-- The prefix fires a transformation without clauses, which no layer generates. -/
theorem kernels_disagree : labels = ["t"] ∧ layers = some [] ∧ ¬ CatalysisAgrees network := by
  refine ⟨?_, ?_, fun agrees => ?_⟩
  · decide +kernel
  · decide +kernel
  · have same := agrees.conditions unstated.2 (by decide +kernel) ∅
    revert same
    decide +kernel

end CollectivePhaseControl
