import CollectivePhaseControl.HornLayers
import CollectivePhaseControl.LegacyNetworks
import CollectivePhaseControl.NetworkEnumerations

/-! Bounded cut sets of the v0.5 format and the cut sets of the v0.6 format. The earlier
enumeration starts at cuts of one transformation, the later one asks first whether anything
needs to be cut. -/
namespace CollectivePhaseControl
namespace Legacy

def rule (edge : JsonObject) : Horn.Rule Identifier :=
  ⟨idSet (edge.get "inputs"), idSet (edge.get "outputs")⟩

/-- `set(transformations) - removed`, in order. -/
def staying (transformations : LegacyNetwork) (removed : List Identifier) :
    List (Horn.Rule Identifier) :=
  (transformations.toList.filter (·.1 ∉ removed)).map (rule ·.2)

def additions (rules : List (Horn.Rule Identifier)) (available : Finset Identifier) :
    Finset Identifier :=
  rules.foldl (fun additions edge =>
    if edge.premises ⊆ available then additions ∪ edge.conclusions else additions) ∅

/-- `while True`. -/
def closureLoop (rules : List (Horn.Rule Identifier)) : ℕ → Finset Identifier →
    Checked (Finset Identifier)
  | 0, _ => .error (.crash .diverges)
  | n + 1, available =>
    let added := additions rules available
    if added ⊆ available then .ok available else closureLoop rules n (available ∪ added)

/-- `_closure`; its rounds are one more than what can be concluded. -/
def closure (initial : Finset Identifier) (transformations : LegacyNetwork)
    (removed : List Identifier) : Checked (Finset Identifier) :=
  let rules := staying transformations removed
  closureLoop rules ((Horn.conclusions rules).card + 1) initial

inductive CutStatus where
  | satisfied | unknownDueToBudget
deriving DecidableEq, Repr

structure CutReport where
  minimalCutSets : List (List Identifier)
  completeWithinCutSize : Bool
  maximumCutSize : ℕ
  operationCount : ℕ
  status : CutStatus
deriving DecidableEq

/-- The cuts and operations so far, and whether the budget is exhausted. -/
structure CutSearch where
  cuts : List (List Identifier)
  operations : ℕ
  exhausted : Bool

/-- A candidate joins if it is no superset of a cut and cuts off some target. -/
def considerCut (initial targets : Finset Identifier) (transformations : LegacyNetwork)
    (cuts : List (List Identifier)) (candidate : List Identifier) :
    Checked (List (List Identifier)) :=
  if cuts.any (fun existing => decide (existing ⊆ candidate)) then .ok cuts
  else do
    let reached ← closure initial transformations candidate
    pure (if targets ⊆ reached then cuts else cuts ++ [candidate])

def searchCuts (initial targets : Finset Identifier) (transformations : LegacyNetwork)
    (operationBudget : ℕ) : List (List Identifier) → ℕ → List (List Identifier) →
    Checked CutSearch
  | [], operations, cuts => .ok ⟨cuts, operations, false⟩
  | candidate :: rest, operations, cuts =>
    if operationBudget < operations + 1 then .ok ⟨cuts, operations + 1, true⟩
    else do
      let cuts ← considerCut initial targets transformations cuts candidate
      searchCuts initial targets transformations operationBudget rest (operations + 1) cuts

def boundedMinimalCutSets (initial : Finset Identifier) (transformations : LegacyNetwork)
    (targets : Finset Identifier) (maximumCutSize operationBudget : ℕ) : Checked CutReport := do
  let identifiers := transformations.keys
  let search ← searchCuts initial targets transformations operationBudget
    (candidates identifiers (List.range' 1 (min maximumCutSize identifiers.length))) 0 []
  pure {
    minimalCutSets := search.cuts
    completeWithinCutSize := !search.exhausted
    maximumCutSize := maximumCutSize
    operationCount := min search.operations operationBudget
    status := if search.exhausted then .unknownDueToBudget else .satisfied }

section closures
variable {initial available : Finset Identifier} {rules : List (Horn.Rule Identifier)}

theorem additions_eq (rules : List (Horn.Rule Identifier)) (available : Finset Identifier) :
    additions rules available = Horn.additions rules available := by
  have start : ∀ (rules : List (Horn.Rule Identifier)) (s : Finset Identifier),
      rules.foldl (fun additions edge =>
        if edge.premises ⊆ available then additions ∪ edge.conclusions else additions) s =
        s ∪ Horn.additions rules available := by
    intro rules
    induction rules with
    | nil => simp [Horn.additions, Horn.conclusions]
    | cons edge rules ih =>
      intro s
      rw [List.foldl_cons, ih]
      ext x
      simp only [Finset.mem_union, Horn.mem_additions, List.mem_cons, exists_eq_or_imp]
      split_ifs with enabled <;> simp [enabled, or_assoc]
  rw [additions, start]
  exact Finset.empty_union _

theorem closureLoop_eq (n : ℕ) (available : Finset Identifier) :
    closureLoop rules n available = demand .diverges (Horn.layered rules n available) := by
  induction n generalizing available with
  | zero => rfl
  | succ n ih =>
    rw [closureLoop, Horn.layered, additions_eq]
    split_ifs
    · rfl
    · exact ih _

theorem closure_spec (initial : Finset Identifier) (transformations : LegacyNetwork)
    (removed : List Identifier) :
    ∃ reached, closure initial transformations removed = .ok reached ∧
      ∀ x, x ∈ reached ↔
        Horn.Derivable {r | r ∈ staying transformations removed} ↑initial x := by
  obtain ⟨reached, layers⟩ := @Horn.layered_total _ _ (staying transformations removed)
    ((Horn.conclusions (staying transformations removed)).card + 1) initial
    (Nat.lt_succ_of_le (Finset.card_le_card Finset.sdiff_subset))
  refine ⟨reached, ?_, fun x => Horn.mem_layered layers⟩
  rw [closure, closureLoop_eq, layers]
  rfl

end closures

/-- A transformation in the v0.6 format has unit coefficients and the flows of the edge. -/
structure SameFlows (edge : JsonObject) (item : TransformationAttestation) : Prop where
  inputs : idSet (edge.get "inputs") = item.spec.inputs.keys.toFinset
  outputs : idSet (edge.get "outputs") = item.spec.outputs.keys.toFinset
  unitInputs : ∀ value ∈ item.spec.inputs.values, F value = 1
  unitOutputs : ∀ value ∈ item.spec.outputs.values, F value = 1

structure SameNetwork (transformations : LegacyNetwork) (network : Network) : Prop where
  keys : transformations.keys = network.keys
  flows : ∀ (id : Identifier) (edge : JsonObject) (item : TransformationAttestation),
    transformations[id]? = some edge → network[id]? = some item → SameFlows edge item

section agreement
variable {transformations : LegacyNetwork} {network : Network} {initial : Finset Identifier}
  {targets : List Identifier}

theorem positive_of_unit {m : Dict Rational} (units : ∀ value ∈ m.values, F value = 1) :
    positive m = m.keys.toFinset := by
  ext key
  simp only [positive, List.mem_toFinset, List.mem_map, List.mem_filter, decide_eq_true_eq,
    Prod.exists, exists_and_right, exists_eq_right, Std.ExtTreeMap.mem_keys]
  constructor
  · rintro ⟨value, listed, -⟩
    exact Dict.mem_of_getElem? (Std.ExtTreeMap.mem_toList_iff_getElem?_eq_some.mp listed)
  · intro member
    have found := Std.ExtTreeMap.getElem?_eq_some_getElem member
    refine ⟨_, Std.ExtTreeMap.mem_toList_iff_getElem?_eq_some.mpr found, ?_⟩
    rw [units _ (Dict.mem_values.mpr ⟨key, found⟩)]
    exact one_pos

theorem SameFlows.rule_eq {edge : JsonObject} {item : TransformationAttestation}
    (same : SameFlows edge item) : rule edge = flows item := by
  rw [rule, flows, same.inputs, same.outputs, positive_of_unit same.unitInputs,
    positive_of_unit same.unitOutputs]

theorem SameNetwork.mem_iff (same : SameNetwork transformations network) {id : Identifier} :
    id ∈ transformations ↔ id ∈ network := by
  rw [← Std.ExtTreeMap.mem_keys, same.keys, Std.ExtTreeMap.mem_keys]

theorem SameNetwork.derivable_iff (same : SameNetwork transformations network)
    (removed : List Identifier) (x : Identifier) :
    Horn.Derivable {r | r ∈ staying transformations removed} ↑initial x ↔
      ReachedBy network (network.keys.toFinset \ removed.toFinset) initial x := by
  rw [ReachedBy]
  congr! 1
  ext r
  simp only [Set.mem_ofPred_eq, staying, List.mem_map, List.mem_filter, Prod.exists,
    Std.ExtTreeMap.mem_toList_iff_getElem?_eq_some, decide_eq_true_eq, Finset.mem_sdiff,
    List.mem_toFinset, Std.ExtTreeMap.mem_keys]
  constructor
  · rintro ⟨id, edge, ⟨listed, stays⟩, rfl⟩
    have member := same.mem_iff.mp (Dict.mem_of_getElem? listed)
    have found := Std.ExtTreeMap.getElem?_eq_some_getElem member
    exact ⟨id, ⟨member, stays⟩, _, found, ((same.flows id edge _ listed found).rule_eq).symm⟩
  · rintro ⟨id, ⟨member, stays⟩, item, listed, rfl⟩
    have found := Std.ExtTreeMap.getElem?_eq_some_getElem (same.mem_iff.mpr member)
    exact ⟨id, _, ⟨found, stays⟩, (same.flows id _ item found listed).rule_eq⟩

theorem SameNetwork.considerCut_eq [DecidablePred (Cuts network initial targets)]
    (same : SameNetwork transformations network) (cuts : List (List Identifier))
    (candidate : List Identifier) :
    considerCut initial targets.toFinset transformations cuts candidate = .ok
      (MinimalSets.select List.toFinset (fun c => decide (Cuts network initial targets c.toFinset))
        cuts candidate) := by
  obtain ⟨reached, computed, holds⟩ := closure_spec initial transformations candidate
  have reaches : targets.toFinset ⊆ reached ↔
      ¬ Cuts network initial targets candidate.toFinset := by
    rw [Cuts, not_not, Enables]
    simp only [Finset.subset_iff, List.mem_toFinset, holds, same.derivable_iff]
  have below : (fun existing : List Identifier => decide (existing ⊆ candidate)) =
      fun existing => decide (existing.toFinset ≤ candidate.toFinset) := by
    funext existing
    exact decide_eq_decide.mpr toFinset_subset.symm
  rw [considerCut, MinimalSets.select, ← below, computed]
  split_ifs with above cut
  · rfl
  · rw [ok_bind, if_neg (mt reaches.mp (not_not.mpr (of_decide_eq_true cut)))]
    rfl
  · rw [ok_bind, if_pos (reaches.mpr (by simpa using cut))]
    rfl

theorem SameNetwork.searchCuts_eq [DecidablePred (Cuts network initial targets)]
    (same : SameNetwork transformations network) {budget : ℕ} (rest : List (List Identifier)) :
    ∀ {operations : ℕ} {cuts : List (List Identifier)} {search : CutSearch},
      searchCuts initial targets.toFinset transformations budget rest operations cuts =
        .ok search → search.exhausted = false →
      search.cuts = rest.foldl (MinimalSets.select List.toFinset
        fun c => decide (Cuts network initial targets c.toFinset)) cuts := by
  induction rest with
  | nil =>
    intro operations cuts search run _
    rw [← Except.ok.inj run]
    rfl
  | cons candidate rest ih =>
    intro operations cuts search run finished
    rw [searchCuts] at run
    split_ifs at run
    · rw [← Except.ok.inj run] at finished
      cases finished
    · rw [same.considerCut_eq, ok_bind] at run
      exact ih run finished

/-- The v0.5 search that finishes returns the minimal ones among the cuts of at least one and
at most so many transformations. -/
theorem boundedMinimalCutSets_exact (same : SameNetwork transformations network) {k budget : ℕ}
    {report : CutReport} (run : boundedMinimalCutSets initial transformations targets.toFinset k
      budget = .ok report) (finished : report.status = .satisfied) :
    ExactFamily network.keys
      (fun s => s.card ∈ List.range' 1 (min k network.keys.length) ∧ Cuts network initial targets s)
      ⟨report.minimalCutSets, true⟩ := by
  classical
  obtain ⟨search, searched, equal⟩ := bind_ok.mp run
  cases Except.ok.inj equal
  have complete : search.exhausted = false := by
    by_contra exhausted
    rw [Bool.not_eq_false] at exhausted
    dsimp only at finished
    rw [if_pos exhausted] at finished
    cases finished
  dsimp only
  rw [same.searchCuts_eq _ searched complete, same.keys]
  exact exactFamily_select Std.ExtTreeMap.nodup_keys List.pairwise_lt_range' fun c _ => by simp

theorem minimals_bounded (reachable : ¬ Cuts network initial targets ∅) (k : ℕ)
    {s : Finset Identifier} :
    s ∈ MinimalSets.minimals network.keys.toFinset (fun s =>
        s.card ∈ List.range' 1 (min k network.keys.length) ∧ Cuts network initial targets s) ↔
      s ∈ MinimalSets.minimals network.keys.toFinset (Cuts network initial targets) ∧
        s.card ≤ k := by
  have sized : ∀ t ⊆ network.keys.toFinset, Cuts network initial targets t →
      (t.card ∈ List.range' 1 (min k network.keys.length) ↔ t.card ≤ k) := by
    intro t within cuts
    have fits := Finset.card_le_card within
    rw [List.toFinset_card_of_nodup Std.ExtTreeMap.nodup_keys] at fits
    have some_removed : 0 < t.card := by
      rw [Finset.card_pos, Finset.nonempty_iff_ne_empty]
      rintro rfl
      exact reachable cuts
    rw [List.mem_range'_1]
    omega
  constructor
  · intro minimal
    obtain ⟨within, member, cuts⟩ := MinimalSets.prop_of_minimals minimal
    have small := (sized s within cuts).mp member
    refine ⟨⟨⟨within, cuts⟩, ?_⟩, small⟩
    rintro t ⟨inside, other⟩ below
    have smaller := (Finset.card_le_card below).trans small
    exact (MinimalSets.mem_minimals.mp minimal).le_of_le
      ⟨inside, (sized t inside other).mpr smaller, other⟩ below
  · rintro ⟨minimal, small⟩
    obtain ⟨within, cuts⟩ := MinimalSets.prop_of_minimals minimal
    refine ⟨⟨within, (sized s within cuts).mpr small, cuts⟩, ?_⟩
    rintro t ⟨inside, -, other⟩ below
    exact (MinimalSets.mem_minimals.mp minimal).le_of_le ⟨inside, other⟩ below

def CutsAgree (report : CutReport) (result : EnumerationResult) : Prop :=
  ∀ cut, cut ∈ report.minimalCutSets ↔
    cut ∈ result.values ∧ cut.length ≤ report.maximumCutSize

/-- The two enumerations agree exactly if the targets are reachable to begin with. -/
theorem cuts_agree_iff (same : SameNetwork transformations network)
    (few : network.size ≤ maximumTransformations) {k operationBudget : ℕ} {report : CutReport}
    (run : boundedMinimalCutSets initial transformations targets.toFinset k operationBudget =
      .ok report) (finished : report.status = .satisfied) {budget after : Budget}
    {result : EnumerationResult}
    (enumerated : enumerateMinimalCutSets initial targets network budget = .ok result after) :
    CutsAgree report result ↔ Enables network initial targets network.keys.toFinset := by
  have exact' := (decides_iff.mp (@decides_enumerateMinimalCutSets network initial targets
    few)).1 budget result after enumerated
  have bounded := boundedMinimalCutSets_exact same run finished
  have size : report.maximumCutSize = k := by
    obtain ⟨search, -, equal⟩ := bind_ok.mp run
    rw [← Except.ok.inj equal]
  have enables : Enables network initial targets network.keys.toFinset ↔
      ¬ Cuts network initial targets ∅ := by
    rw [Cuts, not_not, Finset.sdiff_empty]
  have length : ∀ s ⊆ network.keys.toFinset,
      (network.keys.filter (· ∈ s)).length = s.card := by
    intro s within
    rw [← List.toFinset_card_of_nodup (Std.ExtTreeMap.nodup_keys.filter _), toFinset_filter within]
  rw [enables]
  constructor
  · intro agree unreachable
    -- The empty cut is the only minimal one, and the earlier enumeration starts at size one.
    have least : ∅ ∈ MinimalSets.minimals network.keys.toFinset (Cuts network initial targets) :=
      ⟨⟨Finset.empty_subset _, unreachable⟩, fun _ _ _ => Finset.empty_subset _⟩
    have listed : [] ∈ result.values :=
      (exact'.values []).mpr ⟨∅, least, by simp⟩
    obtain ⟨s, minimal, empty⟩ := (bounded.values []).mp ((agree []).mpr ⟨listed, Nat.zero_le _⟩)
    obtain ⟨within, sized, -⟩ := MinimalSets.prop_of_minimals minimal
    have none : s.card = 0 := by rw [← length s within, ← empty, List.length_nil]
    rw [none, List.mem_range'_1] at sized
    omega
  · intro reachable cut
    rw [bounded.values, exact'.values, size]
    constructor
    · rintro ⟨s, minimal, rfl⟩
      obtain ⟨whole, small⟩ := (minimals_bounded reachable k).mp minimal
      refine ⟨⟨s, whole, rfl⟩, ?_⟩
      rw [length s (MinimalSets.prop_of_minimals whole).1]
      exact small
    · rintro ⟨⟨s, whole, rfl⟩, small⟩
      rw [length s (MinimalSets.prop_of_minimals whole).1] at small
      exact ⟨s, (minimals_bounded reachable k).mpr ⟨whole, small⟩, rfl⟩

end agreement

namespace CutSample
open NetworkSample

def edge (source product : Identifier) : JsonObject :=
  [("inputs", .array [.str source]), ("outputs", .array [.str product])]

def transformations : LegacyNetwork := .ofList [("t", edge "a" "b")]
def network : Network := .ofList [exchange "t" "a" "b"]

def chained : LegacyNetwork := .ofList [("t", edge "a" "b"), ("u", edge "b" "c")]
def chain : Network := .ofList [exchange "t" "a" "b", exchange "u" "b" "c"]

theorem unit_of_exchange (source product : Identifier) :
    (∀ value ∈ (exchange "t" source product).2.spec.inputs.values, F value = 1) ∧
      ∀ value ∈ (exchange "t" source product).2.spec.outputs.values, F value = 1 := by
  constructor
  all_goals
    intro value listed
    obtain ⟨key, read⟩ := Dict.mem_values.mp listed
    obtain ⟨-, rfl⟩ := Prod.mk.inj (List.mem_singleton.mp (Dict.mem_of_ofList read))
    exact F_ofNat 1

theorem sameFlows : SameFlows (edge "a" "b") (exchange "t" "a" "b").2 ∧
    SameFlows (edge "b" "c") (exchange "u" "b" "c").2 :=
  ⟨⟨by decide +kernel, by decide +kernel, (unit_of_exchange "a" "b").1,
      (unit_of_exchange "a" "b").2⟩,
    ⟨by decide +kernel, by decide +kernel, (unit_of_exchange "b" "c").1,
      (unit_of_exchange "b" "c").2⟩⟩

theorem same_keys : transformations.keys = network.keys ∧ chained.keys = chain.keys := by
  decide +kernel

theorem sameNetwork : SameNetwork transformations network where
  keys := same_keys.1
  flows id edge' item listed found := by
    have first := List.mem_singleton.mp (Dict.mem_of_ofList listed)
    have second := List.mem_singleton.mp (Dict.mem_of_ofList found)
    obtain ⟨rfl, rfl⟩ := Prod.mk.inj first
    obtain ⟨-, rfl⟩ := Prod.mk.inj second
    exact sameFlows.1

theorem sameChain : SameNetwork chained chain where
  keys := same_keys.2
  flows id edge' item listed found := by
    have first := Dict.mem_of_ofList listed
    have second := Dict.mem_of_ofList found
    rw [List.mem_pair, Prod.mk.injEq, Prod.mk.injEq] at first
    rw [List.mem_pair, exchange, exchange, Prod.mk.injEq, Prod.mk.injEq] at second
    obtain ⟨rfl, rfl⟩ | ⟨rfl, rfl⟩ := first
    · obtain ⟨-, rfl⟩ | ⟨other, -⟩ := second
      · exact sameFlows.1
      · exact absurd other (by decide)
    · obtain ⟨other, -⟩ | ⟨-, rfl⟩ := second
      · exact absurd other (by decide)
      · exact sameFlows.2

section runs
variable {transformations : LegacyNetwork} {network : Network} {initial : Finset Identifier}
  {targets : List Identifier}

def report (cuts : List (List Identifier)) (operations : ℕ) : CutReport :=
  ⟨cuts, true, 1, operations, .satisfied⟩

theorem run_report {found : CutReport}
    (run : (boundedMinimalCutSets initial transformations targets.toFinset 1 10).toOption =
      some found) :
    boundedMinimalCutSets initial transformations targets.toFinset 1 10 = .ok found := by
  cases made : boundedMinimalCutSets initial transformations targets.toFinset 1 10 with
  | ok other =>
    rw [made] at run
    rw [Option.some.inj run]
  | error fault =>
    rw [made] at run
    cases run

def budget : Budget := .ofOperations 1000 fun _ => false

/-- The result of a run, if it does not raise. -/
def outcome {α : Type} : EStateM.Result Fault Budget α → Option α
  | .ok result _ => some result
  | .error .. => none

theorem run_result {result : EnumerationResult}
    (run : outcome (enumerateMinimalCutSets initial targets network budget) = some result) :
    ∃ after, enumerateMinimalCutSets initial targets network budget = .ok result after := by
  cases found : enumerateMinimalCutSets initial targets network budget with
  | ok other after =>
    rw [found] at run
    rw [Option.some.inj run]
    exact ⟨after, rfl⟩
  | error fault after =>
    rw [found] at run
    cases run

end runs

end CutSample

open CutSample in
theorem cuts_agree_iff_sample :
    CutsAgree (report [["t"], ["u"]] 2) ⟨[["t"], ["u"]], true⟩ ↔
      Enables chain {"a"} ["c"] chain.keys.toFinset := by
  obtain ⟨after, enumerated⟩ := @run_result chain {"a"} ["c"] ⟨[["t"], ["u"]], true⟩
    (by decide +kernel)
  exact cuts_agree_iff sameChain (by decide +kernel)
    (@run_report chained {"a"} ["c"] (report [["t"], ["u"]] 2) (by decide +kernel)) rfl enumerated

open CutSample in
/-- Where the target is out of reach the v0.5 report cuts a transformation, and the empty cut
is the only minimal one. -/
theorem cuts_disagree : ¬ ∀ (transformations : LegacyNetwork) (network : Network)
    (initial : Finset Identifier) (targets : List Identifier) (k operationBudget : ℕ)
    (report : CutReport) (budget after : Budget) (result : EnumerationResult),
    SameNetwork transformations network → network.size ≤ maximumTransformations → targets ≠ [] →
    boundedMinimalCutSets initial transformations targets.toFinset k operationBudget =
      .ok report → report.status = .satisfied →
    enumerateMinimalCutSets initial targets network budget = .ok result after →
    CutsAgree report result := by
  intro claim
  obtain ⟨after, enumerated⟩ := @run_result network ∅ ["b"] ⟨[[]], true⟩ (by decide +kernel)
  have agree := claim transformations network ∅ ["b"] 1 10 (report [["t"]] 1) budget after _
    sameNetwork (by decide +kernel) (List.cons_ne_nil _ _)
    (@run_report transformations ∅ ["b"] (report [["t"]] 1) (by decide +kernel)) rfl enumerated
  obtain ⟨listed, -⟩ := (agree ["t"]).mp (List.mem_singleton_self _)
  cases List.mem_singleton.mp listed

end Legacy
end CollectivePhaseControl
