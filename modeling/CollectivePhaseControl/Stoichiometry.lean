import CollectivePhaseControl.AuditedDimensions

/-! What dimensional consistency says of the coefficients of a snapshot's transformations. Of
a coordinate on both sides only the input is checked. -/
namespace CollectivePhaseControl

section collected
variable {α : Type} {f : α → Analysis (List String)} {Q : α → Prop}

theorem yields_reasons {step : List String → α → Analysis (List String)} {xs : List α}
    (each : ∀ reasons x, x ∈ xs → Yields (step reasons x) fun all =>
      all = [] → reasons = [] ∧ Q x) (start : List String) :
    Yields (xs.foldlM step start) fun all => all = [] → start = [] ∧ ∀ x ∈ xs, Q x := by
  induction xs generalizing start with
  | nil => exact yields_pure fun none_found => ⟨none_found, by simp⟩
  | cons x xs ih =>
    rw [List.foldlM_cons]
    refine yields_bind (each start x List.mem_cons_self) fun reasons head => ?_
    refine (ih (fun reasons x member => each reasons x (List.mem_cons_of_mem _ member))
      reasons).mono fun all tail none_found => ?_
    obtain ⟨empty, rest⟩ := tail none_found
    obtain ⟨clean, first⟩ := head empty
    exact ⟨clean, List.forall_mem_cons.mpr ⟨first, rest⟩⟩

theorem yields_append {x : Analysis (List String)} {P : Prop} (reasons : List String)
    (head : Yields x fun more => more = [] → P) :
    Yields (do let more ← x; pure (reasons ++ more)) fun all => all = [] → reasons = [] ∧ P := by
  refine yields_bind head fun more said => yields_pure fun none_found => ?_
  obtain ⟨clean, rest⟩ := List.append_eq_nil_iff.mp none_found
  exact ⟨clean, said rest⟩

theorem yields_collect {xs : List α}
    (each : ∀ x ∈ xs, Yields (f x) fun reasons => reasons = [] → Q x) :
    Yields (collect f xs) fun all => all = [] → ∀ x ∈ xs, Q x := by
  refine (yields_reasons (Q := Q) (fun reasons x member => ?_) []).mono
    fun all said none_found => (said none_found).2
  exact yields_bind (yields_spend 1) fun _ _ => yields_append reasons (each x member)

end collected

section stoichiometry
variable (registry : UnitRegistrySpec) (spec : TransformationSpec)

def CheckedStoichiometry : Prop :=
  ∀ coordinate ∈ spec.coordinates, coordinate ∈ registry.coordinateUnits ∧
    ∀ value ∈ checkedCoefficient spec coordinate, 0 ≤ F value

/-- Every coefficient is non-negative, every coordinate has a unit, and the positive parts
hold every flow. -/
structure SoundStoichiometry : Prop where
  inputs : ∀ coordinate : Identifier, ∀ value ∈ spec.inputs[coordinate]?, 0 ≤ F value
  outputs : ∀ coordinate : Identifier, ∀ value ∈ spec.outputs[coordinate]?, 0 ≤ F value
  typed : ∀ coordinate ∈ spec.coordinates, coordinate ∈ registry.coordinateUnits
  consumed : ∀ coordinate : Identifier, ∀ value ∈ spec.inputs[coordinate]?, F value ≠ 0 →
    coordinate ∈ positive spec.inputs
  produced : ∀ coordinate : Identifier, ∀ value ∈ spec.outputs[coordinate]?, F value ≠ 0 →
    coordinate ∈ positive spec.outputs

/-- No coordinate that is also an input has a negative output coefficient. -/
def PlainCatalysis : Prop :=
  ∀ coordinate ∈ spec.inputs, ∀ value ∈ spec.outputs[coordinate]?, 0 ≤ F value

variable {registry spec}

theorem mem_coordinates {coordinate : Identifier} :
    coordinate ∈ spec.coordinates ↔ coordinate ∈ spec.inputs ∨ coordinate ∈ spec.outputs := by
  simp [TransformationSpec.coordinates]

theorem mem_positive {m : Dict Rational} {coordinate : Identifier} :
    coordinate ∈ positive m ↔ ∃ value ∈ m[coordinate]?, 0 < F value := by
  simp [positive, Std.ExtTreeMap.mem_toList_iff_getElem?_eq_some]

theorem yields_coefficientValue (coordinate : Identifier) :
    Yields (coefficientValue spec coordinate) fun amount =>
      ∀ value ∈ checkedCoefficient spec coordinate, amount = F value := by
  unfold coefficientValue
  cases checkedCoefficient spec coordinate with
  | none => exact yields_pure (by simp)
  | some value => exact (yields_rational value).mono (by simp)

theorem yields_transformationReasons :
    Yields (transformationReasons registry spec) fun reasons =>
      reasons = [] → CheckedStoichiometry registry spec := by
  refine (yields_reasons (fun reasons coordinate _ => yields_append reasons ?_) []).mono
    fun all said none_found => (said none_found).2
  refine yields_bind (yields_coefficientValue coordinate) fun amount value => yields_pure ?_
  rw [List.append_eq_nil_iff, reasonIf_eq_nil, reasonIf_eq_nil, not_not, not_lt]
  rintro ⟨known, sign⟩
  exact ⟨known, fun written found => value written found ▸ sign⟩

theorem sound_iff (checked : CheckedStoichiometry registry spec) :
    SoundStoichiometry registry spec ↔ PlainCatalysis spec := by
  constructor
  · exact fun sound coordinate _ => sound.outputs coordinate
  · intro plain
    have inputs : ∀ coordinate : Identifier, ∀ value ∈ spec.inputs[coordinate]?, 0 ≤ F value := by
      intro coordinate value found
      have listed : coordinate ∈ spec.coordinates :=
        mem_coordinates.mpr (.inl (Std.ExtTreeMap.mem_iff_isSome_getElem?.mpr (by simp_all)))
      refine (checked coordinate listed).2 value ?_
      simp_all [checkedCoefficient]
    have outputs : ∀ coordinate : Identifier, ∀ value ∈ spec.outputs[coordinate]?,
        0 ≤ F value := by
      intro coordinate value found
      by_cases both : coordinate ∈ spec.inputs
      · exact plain coordinate both value found
      · have listed : coordinate ∈ spec.coordinates :=
          mem_coordinates.mpr (.inr (Std.ExtTreeMap.mem_iff_isSome_getElem?.mpr (by simp_all)))
        refine (checked coordinate listed).2 value ?_
        simp_all [checkedCoefficient]
    refine ⟨inputs, outputs, fun coordinate listed => (checked coordinate listed).1, ?_, ?_⟩
    · intro coordinate value found nonzero
      have sign := inputs coordinate value found
      exact mem_positive.mpr ⟨value, found, lt_of_le_of_ne sign (Ne.symm nonzero)⟩
    · intro coordinate value found nonzero
      have sign := outputs coordinate value found
      exact mem_positive.mpr ⟨value, found, lt_of_le_of_ne sign (Ne.symm nonzero)⟩

end stoichiometry

section consistency
variable (h : AuditServices) (snapshot : AnalysisSnapshot) (objects : Objects) (time : DateTime)

def snapshotRegistry : Option UnitRegistrySpec :=
  match objects[snapshot.spec.unitRegistryDigest]? with
  | some ⟨_, _, .unitRegistry registry⟩ => some registry
  | _ => none

def transformationSpecs : List TransformationSpec :=
  (typed objects DocumentSpec.transformation?).map Prod.snd

variable {h snapshot objects time}

theorem mem_transformationSpecs {spec : TransformationSpec} :
    spec ∈ transformationSpecs objects ↔ ∃ item ∈ objects.values, item.spec = .transformation spec := by
  simp only [transformationSpecs, typed, List.mem_map, List.mem_filterMap, Option.map_eq_some_iff,
    Prod.exists, Prod.mk.injEq]
  constructor
  · rintro ⟨_, _, ⟨item, member, found, kind, rfl, rfl⟩, rfl⟩
    refine ⟨item, member, ?_⟩
    unfold DocumentSpec.transformation? at kind
    split at kind
    · cases kind
      assumption
    · cases kind
  · rintro ⟨item, member, same⟩
    exact ⟨item, spec, ⟨item, member, spec, by simp [same, DocumentSpec.transformation?]⟩, rfl⟩

theorem yields_dimensionalConsistency :
    Yields (dimensionalConsistency h snapshot objects time) fun result =>
      result.status = .satisfied → ∃ registry, snapshotRegistry snapshot objects = some registry ∧
        ∀ spec ∈ transformationSpecs objects, CheckedStoichiometry registry spec := by
  unfold dimensionalConsistency
  split
  · rename_i metadata extensions registry found
    refine yields_bind (yields_trivial _) fun scales _ => ?_
    have each : ∀ item ∈ objects.values, Yields (objectReasons registry objects time item)
        fun reasons => reasons = [] → ∀ spec, item.spec = .transformation spec →
          CheckedStoichiometry registry spec := by
      intro item _
      unfold objectReasons
      split
      case h_3 spec kind =>
        refine yields_transformationReasons.mono fun reasons said none_found other same => ?_
        rw [kind] at same
        cases same
        exact said none_found
      all_goals
        rename_i kind
        intro _ _ _ _ _ spec same
        simp_all
    refine yields_bind (yields_collect each) fun reasons said => ?_
    refine yields_verdict.mono fun result status satisfied =>
      ⟨registry, by simp [snapshotRegistry, found], ?_⟩
    intro spec member
    obtain ⟨item, listed, same⟩ := mem_transformationSpecs.mp member
    have none_found := (List.append_eq_nil_iff.mp (status.mp satisfied)).2
    exact said none_found item listed spec same
  · exact yields_finding (by decide) _ _

/-- Of a snapshot that an audit finds dimensionally consistent, every coefficient is
non-negative exactly when no output is negative of a coordinate that is also an input. -/
theorem dimensionalConsistency_iff {allObjects : Objects} {includeRobustness : Bool}
    {evaluationAt : Option DateTime} {budget after : Budget} {profile : OperationalProfile}
    (run : auditSnapshot h snapshot allObjects includeRobustness evaluationAt budget =
      .ok profile after)
    (satisfied : (profile.dimensions["dimensional_consistency"]?).map (·.status) =
      some .satisfied) :
    (∃ registry, snapshotRegistry snapshot (liveObjects h snapshot allObjects) = some registry ∧
      ∀ spec ∈ transformationSpecs (liveObjects h snapshot allObjects),
        SoundStoichiometry registry spec) ↔
    ∀ spec ∈ transformationSpecs (liveObjects h snapshot allObjects), PlainCatalysis spec := by
  obtain ⟨result, found, status⟩ := Option.map_eq_some_iff.mp satisfied
  cases yields_auditSnapshot includeRobustness evaluationAt budget profile after run with
  | inl unfounded => exact absurd status (unfounded _ (by decide) result found)
  | inr founded =>
    obtain ⟨-, _, time, -, kernel⟩ := founded
    obtain ⟨r, listed, returned⟩ := kernel.dimensional
    rw [found] at listed
    cases listed
    obtain ⟨registry, named, checked⟩ := yields_dimensionalConsistency.returned returned status
    constructor
    · rintro ⟨other, same, sound⟩ spec member
      rw [named] at same
      cases same
      exact (sound_iff (checked spec member)).mp (sound spec member)
    · exact fun plain => ⟨registry, named, fun spec member =>
        (sound_iff (checked spec member)).mpr (plain spec member)⟩

end consistency

namespace StoichiometrySample
open AuditSample

/-- A catalyst is listed on both sides, with an output of the given amount. -/
def catalysis (amount : Rational) : List Document :=
  [transformation "t" [("a", one)] [("a", amount), ("b", one)]]

def documents (amount : Rational) : Objects :=
  objects (catalysis amount ++ framework ["b"] ∅ ["a", "b"])

def selfCatalysis (amount : Rational) : AnalysisSnapshot := snapshot ["b"] ∅ (catalysis amount)

end StoichiometrySample

open AuditSample StoichiometrySample in
theorem dimensionalConsistency_sample : ∃ registry, snapshotRegistry (selfCatalysis one)
      (liveObjects services (selfCatalysis one) (documents one)) = some registry ∧
    ∀ spec ∈ transformationSpecs (liveObjects services (selfCatalysis one) (documents one)),
      SoundStoichiometry registry spec := by
  have reported : status (selfCatalysis one) (documents one) "dimensional_consistency" =
      some .satisfied := by decide +kernel
  obtain ⟨profile, after, run, satisfied⟩ := run_of_status reported
  refine (dimensionalConsistency_iff run satisfied).mpr ?_
  have listed : transformationSpecs (liveObjects services (selfCatalysis one) (documents one)) =
      [⟨"t", amounts [("a", one)], amounts [("a", one), ("b", one)], [], [], true, [], [],
        lifecycle⟩] := by decide +kernel
  intro spec member coordinate both value found
  rw [listed, List.mem_singleton] at member
  subst member
  have outputs : ∀ p ∈ (amounts [("a", one), ("b", one)]).toList, 0 ≤ F p.2 := by decide +kernel
  exact outputs (coordinate, value) (Std.ExtTreeMap.mem_toList_iff_getElem?_eq_some.mpr found)

open AuditSample StoichiometrySample in
/-- The catalyst's output may be negative. -/
theorem dimensionalConsistency_negative : ¬ ∀ (h : AuditServices) (snapshot : AnalysisSnapshot)
    (allObjects : Objects) (budget after : Budget) (profile : OperationalProfile),
    auditSnapshot h snapshot allObjects true none budget = .ok profile after →
    (profile.dimensions["dimensional_consistency"]?).map (·.status) = some .satisfied →
    ∀ spec ∈ transformationSpecs (liveObjects h snapshot allObjects),
      ∀ value ∈ spec.outputs.values, 0 ≤ F value := by
  intro claim
  have reported : status (selfCatalysis ⟨true, 1, none⟩) (documents ⟨true, 1, none⟩)
      "dimensional_consistency" = some .satisfied := by decide +kernel
  obtain ⟨profile, after, run, satisfied⟩ := run_of_status reported
  have signs := claim services _ _ _ after profile run satisfied
  have negative : ∃ spec ∈ transformationSpecs (liveObjects services
      (selfCatalysis ⟨true, 1, none⟩) (documents ⟨true, 1, none⟩)),
      ∃ value ∈ spec.outputs.values, F value < 0 := by decide +kernel
  obtain ⟨spec, member, value, listed, below⟩ := negative
  exact absurd (signs spec member value listed) (not_le.mpr below)

end CollectivePhaseControl
