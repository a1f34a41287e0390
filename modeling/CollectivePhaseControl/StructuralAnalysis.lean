import CollectivePhaseControl.AnalysisBudget
import CollectivePhaseControl.Documents
import CollectivePhaseControl.HornClosure

/-! Bounded structural analyses of a network of transformations: minimal siphons, structural
closure, food-generated sets, and minimal cut and enablement sets. Sets of identifiers are
lists in key order where the source returns them in that order. -/
namespace CollectivePhaseControl

abbrev TransformationAttestation := Typed TransformationSpec

abbrev Network := Dict TransformationAttestation

structure EnumerationResult where
  values : List (List Identifier)
  exhaustive : Bool
deriving DecidableEq

def positive (m : Dict Rational) : Finset Identifier :=
  ((m.toList.filter fun p => 0 < F p.2).map Prod.fst).toFinset

/-- `_flows`. -/
def flows (transformation : TransformationAttestation) : Horn.Rule Identifier :=
  ⟨positive transformation.spec.inputs, positive transformation.spec.outputs⟩

/-- The coordinates a transformation lists, whatever their coefficients. -/
def listedFlows (transformation : TransformationAttestation) : Horn.Rule Identifier :=
  ⟨transformation.spec.inputs.keys.toFinset, transformation.spec.outputs.keys.toFinset⟩

section closure
variable (rules : List (Horn.Rule Identifier))

def grow (progress : Finset Identifier × Bool) (rule : Horn.Rule Identifier) :
    Finset Identifier × Bool :=
  if rule.premises ⊆ progress.1 then
    (progress.1 ∪ rule.conclusions,
      progress.2 || decide (progress.1.card < (progress.1 ∪ rule.conclusions).card))
  else progress

def closurePass (available : Finset Identifier) : Analysis (Finset Identifier × Bool) :=
  rules.foldlM (fun progress rule => do spend 1; pure (grow progress rule)) (available, false)

/-- `while changed`. -/
def closureLoop : ℕ → Finset Identifier → Analysis (Finset Identifier)
  | 0, _ => throw (.crash .diverges)
  | n + 1, available => do
    let progress ← closurePass rules available
    if progress.2 = true then closureLoop n progress.1 else pure progress.1

/-- The closure of a set; its passes are one more than what can be concluded. -/
def closureOf (available : Finset Identifier) : Analysis (Finset Identifier) :=
  closureLoop rules ((Horn.conclusions rules).card + 1) available

end closure

def structuralClosure (initialStates : Finset Identifier) (transformations : Network)
    (allowed : Identifier → Bool) : Analysis (Finset Identifier) :=
  closureOf ((transformations.toList.filter (allowed ·.1)).map (flows ·.2)) initialStates

/-- `_raf_closure`. -/
def rafClosure (food : Finset Identifier) (identifiers : List Identifier)
    (transformations : Network) : Analysis (Finset Identifier) :=
  closureOf ((transformations.toList.filter (·.1 ∈ identifiers)).map (flows ·.2)) food

/-- `itertools.combinations`. -/
def combinations {α : Type} : List α → ℕ → List (List α)
  | _, 0 => [[]]
  | [], _ + 1 => []
  | x :: xs, n + 1 => (combinations xs n).map (x :: ·) ++ combinations xs (n + 1)

def candidates {α : Type} (ordered : List α) (sizes : List ℕ) : List (List α) :=
  sizes.flatMap (combinations ordered)

/-- A candidate that passes the test joins unless it holds one that has passed. -/
def keepMinimal (test : List Identifier → Analysis Bool) (minimal : List (List Identifier))
    (candidate : List Identifier) : Analysis (List (List Identifier)) := do
  spend 1
  if minimal.any (fun existing => decide (existing ⊆ candidate)) then pure minimal
  else
    let passed ← test candidate
    pure (if passed then minimal ++ [candidate] else minimal)

def isSiphon (pairs : List (Horn.Rule Identifier)) (candidate : List Identifier) : Bool :=
  pairs.all fun pair =>
    !decide (∃ x ∈ pair.conclusions, x ∈ candidate) || decide (∃ x ∈ pair.premises, x ∈ candidate)

/-! Identifiers are sorted by these. -/

instance transIdentifiers : IsTrans Identifier (· ≤ ·) := inferInstance

instance antisymmIdentifiers : Std.Antisymm ((· ≤ ·) : Identifier → Identifier → Prop) :=
  inferInstance

def maximumCoordinates : ℕ := 20
def maximumTransformations : ℕ := 20

def enumerateMinimalSiphons (transformations : Network) (coordinates : Finset Identifier) :
    Analysis EnumerationResult := do
  let ordered := coordinates.sort (· ≤ ·)
  if maximumCoordinates < ordered.length then pure ⟨[], false⟩
  else
    let pairs := transformations.values.map flows
    let minimal ← (candidates ordered (List.range' 1 ordered.length)).foldlM
      (keepMinimal fun candidate => pure (isSiphon pairs candidate)) []
    pure ⟨minimal, true⟩

def unfedSiphons (siphons : List (List Identifier)) (initialMarkings : Identifier → ℚ)
    (supplied : Finset Identifier) : List (List Identifier) :=
  (siphons.filter fun siphon =>
    siphon.all fun item => !decide (0 < initialMarkings item) && item ∉ supplied).mergeSort

def enumerateMinimalCutSets (initialStates : Finset Identifier) (targets : List Identifier)
    (transformations : Network) : Analysis EnumerationResult := do
  let ordered := transformations.keys
  if maximumTransformations < ordered.length then pure ⟨[], false⟩
  else
    let reached ← structuralClosure initialStates transformations fun _ => true
    if ¬ ∀ target ∈ targets, target ∈ reached then pure ⟨[[]], true⟩
    else
      let minimal ← (candidates ordered (List.range' 1 ordered.length)).foldlM
        (keepMinimal fun candidate => do
          let reached ← structuralClosure initialStates transformations (· ∉ candidate)
          pure (decide ¬ ∀ target ∈ targets, target ∈ reached)) []
      pure ⟨minimal, true⟩

def enumerateMinimalEnablementSets (initialStates : Finset Identifier)
    (targets : List Identifier) (transformations : Network) : Analysis EnumerationResult := do
  let ordered := transformations.keys
  if maximumTransformations < ordered.length then pure ⟨[], false⟩
  else
    let minimal ← (candidates ordered (List.range (ordered.length + 1))).foldlM
      (keepMinimal fun candidate => do
        let reached ← structuralClosure initialStates transformations (· ∈ candidate)
        pure (decide (∀ target ∈ targets, target ∈ reached))) []
    pure ⟨minimal, true⟩

def catalysed (spec : TransformationSpec) (available : Finset Identifier) : Bool :=
  spec.uncatalyzed || spec.catalystClauses.any fun clause => clause.all (· ∈ available)

/-- What a transformation asks of the available objects, the evidence and the authority,
beyond its inputs. -/
def licensed (spec : TransformationSpec) (available evidence authority : Finset Identifier) :
    Bool :=
  spec.inhibitors.all (· ∉ available) && spec.requiredEvidence.all (· ∈ evidence) &&
    spec.requiredAuthority.all (· ∈ authority) && catalysed spec available

def isGeneralizedRaf (identifiers : List Identifier) (transformations : Network)
    (closure evidence authority : Finset Identifier) : Bool :=
  !identifiers.isEmpty && identifiers.all fun identifier =>
    match transformations[identifier]? with
    | some item => decide ((flows item).premises ⊆ closure) &&
        licensed item.spec closure evidence authority
    | none => false

structure RafAnalysis where
  maximalRafs : List (List Identifier)
  fullSetIsRaf : Bool
  generalizedClosure : Finset Identifier
  generativeLayers : List (List Identifier)
  generativeClosure : Finset Identifier
  exhaustive : Bool

section raf
variable (transformations : Network) (food evidence authority : Finset Identifier)

def keepRaf (valid : List (List Identifier × Finset Identifier)) (candidate : List Identifier) :
    Analysis (List (List Identifier × Finset Identifier)) := do
  spend 1
  let closure ← rafClosure food candidate transformations
  pure (if isGeneralizedRaf candidate transformations closure evidence authority then
    valid ++ [(candidate, closure)] else valid)

def generativeLayer (available : Finset Identifier)
    (remaining : List (Identifier × TransformationAttestation)) :
    Analysis (List (Identifier × TransformationAttestation)) :=
  remaining.foldlM (fun layer item => do
    spend 1
    pure (if (flows item.2).premises ⊆ available ∧
        licensed item.2.spec available evidence authority = true then layer ++ [item]
      else layer)) []

def produce (available : Finset Identifier)
    (layer : List (Identifier × TransformationAttestation)) : Finset Identifier :=
  layer.foldl (fun available item => available ∪ (flows item.2).conclusions) available

/-- `while remaining`. -/
def generativeLayers : ℕ → Finset Identifier → List (Identifier × TransformationAttestation) →
    Analysis (List (List Identifier) × Finset Identifier)
  | 0, _, _ => throw (.crash .diverges)
  | n + 1, available, remaining =>
    if remaining = [] then pure ([], available)
    else do
      let layer ← generativeLayer evidence authority available remaining
      if layer = [] then pure ([], available)
      else
        let rest ← generativeLayers n (produce available layer)
          (remaining.filter (fun item => item.1 ∉ layer.map Prod.fst))
        pure (layer.map Prod.fst :: rest.1, rest.2)

def exactGeneralizedGenerativeRaf : Analysis RafAnalysis := do
  let identifiers := transformations.keys
  if maximumTransformations < identifiers.length then pure ⟨[], false, food, [], food, false⟩
  else
    let valid ← (candidates identifiers (List.range' 1 identifiers.length)).foldlM
      (keepRaf transformations food evidence authority) []
    let maximal := (valid.map Prod.fst).filter fun candidate =>
      (valid.map Prod.fst).all fun other =>
        !(decide (candidate ⊆ other) && !decide (other ⊆ candidate))
    let full := valid.lookup identifiers
    let layers ← generativeLayers evidence authority (identifiers.length + 1) food
      transformations.toList
    pure {
      maximalRafs := maximal.mergeSort
      fullSetIsRaf := full.isSome
      generalizedClosure := full.getD food
      generativeLayers := layers.1
      generativeClosure := layers.2
      exhaustive := true }

end raf

section specifications
variable {rules : List (Horn.Rule Identifier)} {s : Finset Identifier} {n : ℕ}

theorem grow_eq (progress : Finset Identifier × Bool) (rule : Horn.Rule Identifier) :
    grow progress rule = (Horn.fire progress.1 rule,
      progress.2 || decide (progress.1 ≠ Horn.fire progress.1 rule)) := by
  unfold grow Horn.fire
  split
  · rename_i premises
    have grows : progress.1.card < (progress.1 ∪ rule.conclusions).card ↔
        progress.1 ≠ progress.1 ∪ rule.conclusions := by
      constructor
      · intro more same
        rw [← same] at more
        exact lt_irrefl _ more
      · intro different
        exact Finset.card_lt_card (Finset.subset_union_left.ssubset_of_ne different)
    simp [grows]
  · simp

theorem foldl_grow (rules : List (Horn.Rule Identifier)) : ∀ progress : Finset Identifier × Bool,
    rules.foldl grow progress = (Horn.pass rules progress.1,
      progress.2 || decide (progress.1 ≠ Horn.pass rules progress.1)) := by
  induction rules with
  | nil => simp [Horn.pass]
  | cons rule rules ih =>
    intro progress
    rw [List.foldl_cons, ih, grow_eq]
    have first := Horn.subset_fire progress.1 rule
    have rest := Horn.subset_pass rules (Horn.fire progress.1 rule)
    refine Prod.ext rfl ?_
    have either : (progress.1 ≠ Horn.fire progress.1 rule ∨
        Horn.fire progress.1 rule ≠ Horn.pass rules (Horn.fire progress.1 rule)) ↔
        progress.1 ≠ Horn.pass (rule :: rules) progress.1 := by
      change _ ↔ progress.1 ≠ Horn.pass rules (Horn.fire progress.1 rule)
      constructor
      · intro different same
        have equal : progress.1 = Horn.fire progress.1 rule :=
          Finset.Subset.antisymm first (rest.trans same.ge)
        cases different with
        | inl changed => exact changed equal
        | inr changed => exact changed (equal.symm.trans same)
      · intro different
        by_contra steady
        push Not at steady
        exact different (steady.1.trans steady.2)
    simp only [← either, Bool.decide_or, Bool.or_assoc]

theorem yields_closurePass (rules : List (Horn.Rule Identifier)) (s : Finset Identifier) :
    Yields (closurePass rules s) fun progress =>
      progress = (Horn.pass rules s, decide (s ≠ Horn.pass rules s)) := by
  refine (yields_foldlM_spend (g := grow) 1 rules (s, false)).mono fun progress same => ?_
  rw [same, foldl_grow]
  simp

theorem yields_closureLoop (rules : List (Horn.Rule Identifier)) (n : ℕ) :
    ∀ s : Finset Identifier,
      Yields (closureLoop rules n s) fun t => Horn.saturate rules n s = some t := by
  induction n with
  | zero => exact fun s => yields_throw _
  | succ n ih =>
    intro s
    refine yields_bind (yields_closurePass rules s) fun progress same => ?_
    subst same
    rw [Horn.saturate]
    by_cases fixed : Horn.pass rules s = s
    · rw [if_neg (by simp [fixed]), if_pos fixed]
      exact yields_pure (by rw [fixed])
    · rw [if_pos (by simpa using Ne.symm fixed), if_neg fixed]
      exact ih _

theorem yields_closureOf (rules : List (Horn.Rule Identifier)) (s : Finset Identifier) :
    Yields (closureOf rules s) fun t =>
      ∀ x, x ∈ t ↔ Horn.Derivable {r | r ∈ rules} ↑s x :=
  (yields_closureLoop rules _ s).mono fun _ saturated _ => Horn.mem_saturate saturated

end specifications

end CollectivePhaseControl
