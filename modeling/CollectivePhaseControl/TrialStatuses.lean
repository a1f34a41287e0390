import CollectivePhaseControl.TrialAssessments

/-! Classification of a contradicted trial. The class is read off the texts of the
contradictions, and one of these texts carries an outcome's identifier. -/
namespace CollectivePhaseControl

theorem infix_separated {α : Type*} {word first second : List α} {separator : α}
    (inside : word <:+: first ++ separator :: second) (absent : separator ∉ word) :
    word <:+: first ∨ word <:+: second := by
  obtain ⟨before, after, equal⟩ := inside
  rw [List.append_assoc] at equal
  rcases List.append_eq_append_iff.mp equal with ⟨gap, rfl, rest⟩ | ⟨gap, rfl, rest⟩
  · rcases List.append_eq_append_iff.mp rest with ⟨more, rfl, tail⟩ | ⟨more, rfl, tail⟩
    · exact .inl ⟨before, more, by simp⟩
    · cases more with
      | nil => exact .inl ⟨before, [], by simp⟩
      | cons head more =>
        obtain ⟨rfl, -⟩ := List.cons.inj tail
        exact absurd (by simp) absent
  · cases gap with
    | nil =>
      cases word with
      | nil => exact .inl List.nil_infix
      | cons head word =>
        obtain ⟨rfl, -⟩ := List.cons.inj rest
        exact absurd List.mem_cons_self absent
    | cons head gap =>
      obtain ⟨-, rfl⟩ := List.cons.inj rest
      exact .inr ⟨gap, after, by simp⟩

namespace Trial

/-- `"quality_floor" in item`. -/
def NamesFloor (item : String) : Prop := "quality_floor".toList <:+: item.toList

instance decidableNamesFloor : DecidablePred NamesFloor := fun item =>
  inferInstanceAs (Decidable ("quality_floor".toList <:+: item.toList))

theorem namesFloor_separated {first second : String} (inside : NamesFloor (first ++ ":" ++ second)) :
    NamesFloor first ∨ NamesFloor second := by
  unfold NamesFloor at inside ⊢
  rw [String.toList_append, String.toList_append, List.append_assoc] at inside
  exact infix_separated inside (by decide)

theorem not_namesFloor_number (n : ℕ) : ¬ NamesFloor (toString n) := by
  intro inside
  have letter : '_' ∈ (toString n).toList := inside.mem (by decide)
  simp [toString, Nat.repr] at letter

namespace Findings

def Silent (f : Findings) : Prop := ∀ item ∈ f.contradictions, ¬ NamesFloor item

variable {f g : Findings}

theorem silent_join : (f.join g).Silent ↔ f.Silent ∧ g.Silent := by
  simp only [Silent, join, List.mem_append, or_imp, forall_and]

theorem silent_joined {findings : List Findings} :
    (joined findings).Silent ↔ ∀ f ∈ findings, f.Silent := by
  induction findings with
  | nil => simp [joined, none, Silent]
  | cons f findings ih =>
    rw [List.forall_mem_cons, ← ih]
    exact silent_join

theorem silent_none : none.Silent := nofun

theorem silent_blockers (blockers : List String) : Silent ⟨blockers, []⟩ := nofun

end Findings

namespace Record
variable {r : Record} {protocol : MeasurementProtocol}

theorem silent_reason {blockers : List String} {condition : Prop} [Decidable condition]
    {code : String} (plain : ¬ NamesFloor code) :
    Findings.Silent ⟨blockers, reasonIf condition code⟩ := by
  intro item listed
  rw [(mem_reasonIf.mp listed).2]
  exact plain

theorem silent_artifactFindings {digest : Digest} {expected : ArtifactType} {f : Findings}
    (found : r.artifactFindings protocol.spec digest expected = .ok f) : f.Silent := by
  unfold artifactFindings at found
  split at found
  · cases Except.ok.inj found
    exact Findings.silent_blockers _
  · obtain ⟨late, -, found⟩ := bind_ok.mp found
    cases Except.ok.inj found
    apply silent_reason
    cases expected <;> decide

theorem silent_registrationFindings {f : Findings}
    (found : r.registrationFindings protocol = .ok f) : f.Silent := by
  unfold registrationFindings at found
  split at found
  · obtain ⟨late, -, found⟩ := bind_ok.mp found
    cases Except.ok.inj found
    exact silent_reason (by decide)
  · cases Except.ok.inj found
    exact Findings.silent_blockers _

theorem silent_amendmentDecision {amendment : ProtocolAmendment} {f : Findings}
    (found : r.amendmentDecision protocol.spec amendment = .ok f) : f.Silent := by
  unfold amendmentDecision at found
  split at found
  · obtain ⟨timely, -, found⟩ := bind_ok.mp found
    cases Except.ok.inj found
    apply silent_reason
    intro names
    rcases @namesFloor_separated "amendment_time_quorum_invalid" _ names with text | number
    · exact absurd text (by decide)
    · exact not_namesFloor_number _ number
  · cases Except.ok.inj found
    exact Findings.silent_blockers _

theorem silent_chainFindings {chain : List ProtocolAmendment} :
    ∀ {sequence : ℕ} {prior : Option Digest} {seen : Finset ℕ} {f : Findings},
      r.chainFindings protocol.spec sequence prior seen chain = .ok f → f.Silent := by
  induction chain with
  | nil =>
    intro _ _ _ f found
    cases Except.ok.inj found
    exact Findings.silent_none
  | cons amendment rest ih =>
    intro sequence prior seen f found
    simp only [chainFindings, amendmentFindings, bind_ok, pure_ok] at found
    obtain ⟨_, ⟨late, -, decided, decision, rfl⟩, others, after, rfl⟩ := found
    refine Findings.silent_join.mpr ⟨Findings.silent_join.mpr ⟨?_, Findings.silent_join.mpr
      ⟨silent_amendmentDecision decision, Findings.silent_blockers _⟩⟩, ih after⟩
    -- The four texts of an amendment, one by one.
    have texts : ∀ item ∈ reasonIf (amendment.spec.sequence ∈ seen) "amendment_sequence_fork" ++
        reasonIf (amendment.spec.sequence ≠ sequence) "amendment_sequence_gap_or_fork" ++
        reasonIf (amendment.spec.priorAmendmentDigest ≠ prior) "amendment_hash_chain_fork" ++
        reasonIf (late = true) "post_start_protocol_amendment", ¬ NamesFloor item := by
      simp only [List.forall_mem_append]
      refine ⟨⟨⟨?_, ?_⟩, ?_⟩, ?_⟩
      all_goals exact @silent_reason [] _ _ _ (by decide)
    exact texts

theorem silent_protocolFindings {f : Findings} (found : r.protocolFindings protocol = .ok f) :
    f.Silent := by
  simp only [protocolFindings, bind_ok, pure_ok] at found
  obtain ⟨dataset, first, assignment, second, executable, third, registration, fourth, amendments,
    fifth, rfl⟩ := found
  simp only [Findings.silent_joined, List.forall_mem_cons, List.not_mem_nil, false_imp_iff,
    implies_true, and_true]
  exact ⟨Findings.silent_blockers _, silent_artifactFindings first,
    silent_artifactFindings second, silent_artifactFindings third,
    silent_registrationFindings fourth, silent_chainFindings fifth⟩

theorem silent_identityFindings : (r.identityFindings protocol).Silent := by
  unfold identityFindings Findings.Silent
  dsimp only
  simp only [List.forall_mem_append]
  refine ⟨⟨?_, ?_⟩, ?_⟩
  all_goals exact @silent_reason [] _ _ _ (by decide)

def LowQuality (definition : OutcomeDefinition) (effect : EffectInterval) : Prop :=
  F effect.qualityValue < F definition.qualityFloor

/-- A reversed interval of an outcome whose identifier reads like a quality floor. -/
def MisleadingReversal (definition : OutcomeDefinition) (effect : EffectInterval) : Prop :=
  F effect.upper < F effect.lower ∧ NamesFloor definition.outcomeId

def Reports (r : Record) (protocol : MeasurementProtocol)
    (kind : OutcomeDefinition → EffectInterval → Prop) : Prop :=
  ∃ result ∈ r.protocolResults protocol, ∃ definition ∈ protocol.spec.outcomes,
    ∃ effect ∈ result.spec.effects, effect.outcomeId = definition.outcomeId ∧
      kind definition effect

theorem namesFloor_quality (id : Identifier) : NamesFloor ("quality_floor_contradiction:" ++ id) :=
  ⟨[], "_contradiction:".toList ++ id.toList, by
    rw [List.nil_append, String.toList_append, ← List.append_assoc]
    rfl⟩

theorem namesFloor_reversed {id : Identifier} :
    NamesFloor ("effect_interval_reversed:" ++ id) ↔ NamesFloor id := by
  constructor
  · intro names
    rcases @namesFloor_separated "effect_interval_reversed" _ names with text | own
    · exact absurd text (by decide)
    · exact own
  · rintro ⟨before, after, equal⟩
    refine ⟨"effect_interval_reversed:".toList ++ before, after, ?_⟩
    rw [String.toList_append, ← equal]
    simp

theorem outcomeFindings_names {effects : List EffectInterval}
    (unique : (effects.map (·.outcomeId)).Nodup) {definition : OutcomeDefinition}
    {checked : List String × Bool}
    (found : outcomeFindings (.ofList (effects.map fun effect => (effect.outcomeId, effect)))
      definition = .ok checked) :
    (∃ item ∈ checked.1, NamesFloor item) ↔ ∃ effect ∈ effects,
      effect.outcomeId = definition.outcomeId ∧
        (LowQuality definition effect ∨ MisleadingReversal definition effect) := by
  have distinct : ((effects.map fun effect => (effect.outcomeId, effect)).map Prod.fst).Nodup := by
    rw [List.map_map]
    exact unique
  have lookup : ∀ effect ∈ effects, effect.outcomeId = definition.outcomeId →
      (Std.ExtTreeMap.ofList (effects.map fun effect => (effect.outcomeId, effect)) :
        Dict EffectInterval)[definition.outcomeId]? = some effect := fun effect listed same =>
    Dict.getElem?_ofList distinct (List.mem_map.mpr ⟨effect, listed, by rw [same]⟩)
  unfold outcomeFindings at found
  split at found
  · rename_i absent
    cases Except.ok.inj found
    refine iff_of_false nofun ?_
    rintro ⟨effect, listed, same, -⟩
    rw [lookup effect listed same] at absent
    cases absent
  · rename_i effect recorded
    simp only [bind_ok, pure_ok] at found
    obtain ⟨lower, lower', upper, upper', quality, quality', floor, floor', minimum, -, rfl⟩ := found
    obtain rfl := exactRational_ok lower'
    obtain rfl := exactRational_ok upper'
    obtain rfl := exactRational_ok quality'
    obtain rfl := exactRational_ok floor'
    have own : ∀ other ∈ effects, other.outcomeId = definition.outcomeId → other = effect := by
      intro other listed same
      rw [lookup other listed same] at recorded
      exact Option.some.inj recorded
    obtain ⟨effect', listed, equal⟩ := List.mem_map.mp (Dict.mem_of_ofList recorded)
    obtain ⟨same, rfl⟩ := Prod.mk.inj equal
    simp only [List.mem_append, or_and_right, exists_or, mem_reasonIf]
    constructor
    · rintro (⟨item, ⟨reversed, rfl⟩, names⟩ | ⟨item, ⟨low, rfl⟩, -⟩)
      · exact ⟨effect', listed, same, .inr ⟨reversed, namesFloor_reversed.mp names⟩⟩
      · exact ⟨effect', listed, same, .inl low⟩
    · rintro ⟨other, listed', same', suspect⟩
      rw [own other listed' same'] at suspect
      rcases suspect with low | ⟨reversed, names⟩
      · exact .inr ⟨_, ⟨low, rfl⟩, namesFloor_quality _⟩
      · exact .inl ⟨_, ⟨reversed, rfl⟩, namesFloor_reversed.mpr names⟩

theorem silent_compatibilityFindings {result : TrialResult} {f : Findings}
    (found : r.compatibilityFindings result = .ok f) : f.Silent := by
  unfold compatibilityFindings at found
  split at found
  · obtain ⟨early, -, found⟩ := bind_ok.mp found
    cases Except.ok.inj found
    exact silent_reason (by decide)
  · cases Except.ok.inj found
    exact Findings.silent_blockers _

theorem resultFindings_names {result : TrialResult} {checked : Findings × Option Tier}
    (found : r.resultFindings protocol.spec result = .ok checked) :
    ¬ checked.1.Silent ↔ ∃ definition ∈ protocol.spec.outcomes, ∃ effect ∈ result.spec.effects,
      effect.outcomeId = definition.outcomeId ∧
        (LowQuality definition effect ∨ MisleadingReversal definition effect) := by
  simp only [resultFindings, bind_ok, pure_ok, mapM_ok] at found
  obtain ⟨decided, compatible, unfinished, -, incomplete, -, outcomes, each, rfl⟩ := found
  have plain := silent_compatibilityFindings compatible
  have bindings : (r.bindingFindings protocol.spec result).Silent := Findings.silent_blockers _
  have texts : ∀ (p q s : Prop) [Decidable p] [Decidable q] [Decidable s],
      Findings.Silent ⟨[], reasonIf p "result_issued_before_observation_completion" ++
        reasonIf q "result_observation_incomplete" ++
        reasonIf s "primary_outcome_bundle_incomplete_or_extra" ++
          outcomes.flatMap Prod.fst⟩ ↔
        ∀ item ∈ outcomes.flatMap Prod.fst, ¬ NamesFloor item := by
    intro p q s _ _ _
    rw [Findings.Silent, List.forall_mem_append]
    refine and_iff_right ?_
    simp only [List.forall_mem_append]
    refine ⟨⟨?_, ?_⟩, ?_⟩
    all_goals exact @silent_reason [] _ _ _ (by decide)
  rw [Findings.silent_join, Findings.silent_join, and_iff_right bindings, and_iff_right plain,
    texts, not_forall]
  constructor
  · rintro ⟨item, loud⟩
    rw [Classical.not_imp, not_not] at loud
    obtain ⟨listed, own⟩ := loud
    obtain ⟨checked, member, inside⟩ := List.mem_flatMap.mp listed
    obtain ⟨definition, registered, found⟩ := forall₂_mem_right each checked member
    exact ⟨definition, registered,
      (outcomeFindings_names result.spec.unique found).mp ⟨item, inside, own⟩⟩
  · rintro ⟨definition, registered, suspect⟩
    obtain ⟨checked, member, found⟩ := forall₂_mem_left each definition registered
    obtain ⟨item, inside, own⟩ :=
      (outcomeFindings_names result.spec.unique found).mpr suspect
    exact ⟨item, fun silent => silent (List.mem_flatMap.mpr ⟨checked, member, inside⟩) own⟩

theorem conclude_external {f : Findings} {tier : Tier} :
    (conclude f tier).1 = .externalQualityOrSafetyContradiction ↔ ¬ f.Silent := by
  have names : namesQualityFloor f.contradictions = true ↔ ¬ f.Silent := by
    rw [namesQualityFloor, List.any_eq_true, Findings.Silent, not_forall]
    refine exists_congr fun item => ?_
    rw [Classical.not_imp, not_not, decide_eq_true_eq, NamesFloor]
  rw [← names, conclude]
  by_cases contradicted : f.contradictions = []
  · rw [if_neg (not_not.mpr contradicted), contradicted]
    split_ifs <;> simp [namesQualityFloor]
  · rw [if_pos contradicted]
    split_ifs with named <;> simp [named]

theorem conclude_deviation {f : Findings} {tier : Tier} (contradicted : f.contradictions ≠ [])
    (silent : f.Silent) : (conclude f tier).1 = .protocolDeviation := by
  have unnamed : ¬ (conclude f tier).1 = .externalQualityOrSafetyContradiction :=
    fun external => conclude_external.mp external silent
  unfold conclude at unnamed ⊢
  rw [if_pos contradicted] at unnamed ⊢
  split_ifs at unnamed ⊢ with named
  · exact absurd rfl unnamed
  · rfl

/-- The class tells whether a quality value is below its floor, and nothing else does. -/
structure Classified (r : Record) (protocol : MeasurementProtocol) (assessment : TrialAssessment) :
    Prop where
  external : assessment.status = .externalQualityOrSafetyContradiction ↔
    r.Reports protocol LowQuality
  deviation : assessment.contradictions ≠ [] → ¬ r.Reports protocol LowQuality →
    assessment.status = .protocolDeviation

theorem assessTrial_external {assessment : TrialAssessment}
    (assessed : r.assessTrial protocol = .ok assessment)
    (observed : r.protocolResults protocol ≠ []) :
    (assessment.status = .externalQualityOrSafetyContradiction ↔
      r.Reports protocol LowQuality ∨ r.Reports protocol MisleadingReversal) ∧
    (assessment.contradictions ≠ [] →
      assessment.status ≠ .externalQualityOrSafetyContradiction →
        assessment.status = .protocolDeviation) := by
  simp only [assessTrial, bind_ok, if_neg observed, pure_ok, mapM_ok] at assessed
  obtain ⟨found, looked, results, each, rfl⟩ := assessed
  dsimp only
  rw [conclude_external]
  constructor
  · have parts : (Findings.joined (found :: r.identityFindings protocol ::
        results.map Prod.fst)).Silent ↔ ∀ checked ∈ results, checked.1.Silent := by
      rw [Findings.silent_joined]
      simp [silent_protocolFindings looked, silent_identityFindings]
    rw [parts]
    simp only [not_forall]
    constructor
    · rintro ⟨checked, member, names⟩
      obtain ⟨result, listed, found⟩ := forall₂_mem_right each checked member
      obtain ⟨definition, registered, effect, reported, same, suspect⟩ :=
        (resultFindings_names found).mp names
      rcases suspect with low | misleading
      · exact .inl ⟨result, listed, definition, registered, effect, reported, same, low⟩
      · exact .inr ⟨result, listed, definition, registered, effect, reported, same, misleading⟩
    · intro suspect
      obtain ⟨result, listed, rest⟩ : ∃ result ∈ r.protocolResults protocol,
          ∃ definition ∈ protocol.spec.outcomes, ∃ effect ∈ result.spec.effects,
            effect.outcomeId = definition.outcomeId ∧
              (LowQuality definition effect ∨ MisleadingReversal definition effect) := by
        rcases suspect with ⟨result, listed, definition, registered, effect, reported, same, low⟩ |
          ⟨result, listed, definition, registered, effect, reported, same, misleading⟩
        · exact ⟨result, listed, definition, registered, effect, reported, same, .inl low⟩
        · exact ⟨result, listed, definition, registered, effect, reported, same, .inr misleading⟩
      obtain ⟨checked, member, found⟩ := forall₂_mem_left each result listed
      exact ⟨checked, member, (resultFindings_names found).mpr rest⟩
  · intro contradicted quiet
    refine conclude_deviation ?_ (not_not.mp (mt conclude_external.mpr quiet))
    intro none
    rw [none] at contradicted
    exact contradicted rfl

/-- The class is right exactly if no interval that is reversed under a misleading identifier
passes for a quality value below its floor. -/
theorem status_classified_iff (r : Record) (protocol : MeasurementProtocol)
    (assessment : TrialAssessment) (assessed : r.assessTrial protocol = .ok assessment)
    (observed : r.protocolResults protocol ≠ []) :
    r.Classified protocol assessment ↔
      (r.Reports protocol MisleadingReversal → r.Reports protocol LowQuality) := by
  obtain ⟨external, deviation⟩ := assessTrial_external assessed observed
  constructor
  · intro classified misleading
    exact classified.external.mp (external.mpr (.inr misleading))
  · intro covered
    have exact' : assessment.status = .externalQualityOrSafetyContradiction ↔
        r.Reports protocol LowQuality := external.trans (or_iff_left_of_imp covered)
    exact ⟨exact', fun contradicted high => deviation contradicted (mt exact'.mp high)⟩

end Record

namespace Sample

def renamed (id : Identifier) : MeasurementProtocol :=
  { protocol with spec := { protocol.spec with
    outcomes := [⟨id, .higher, .ofNat 2, .ofNat 1⟩]
    unique := List.nodup_singleton _ } }

/-- The result with a reversed interval and a quality value at the floor. -/
def reversed (id : Identifier) : TrialResult :=
  { result with spec := { result.spec with
    effects := [⟨id, .ofNat 4, .ofNat 3, .ofNat 1⟩]
    unique := List.nodup_singleton _ } }

def reversedRecord (id : Identifier) : Record :=
  { record with objects := record.objects.insert "result" (.trialResult (reversed id)) }

theorem reversed_assessed {id : Identifier} {status : Status}
    (run : ((reversedRecord id).assessTrial (renamed id)).toOption.map (·.status) = some status) :
    ∃ assessment, (reversedRecord id).assessTrial (renamed id) = .ok assessment ∧
      assessment.status = status := by
  cases found : (reversedRecord id).assessTrial (renamed id) with
  | ok assessment =>
    rw [found] at run
    exact ⟨assessment, rfl, Option.some.inj run⟩
  | error fault =>
    rw [found] at run
    cases run

theorem reversed_results (id : Identifier) :
    (reversedRecord id).protocolResults (renamed id) = [reversed id] := by
  rfl

theorem reversed_high (id : Identifier) :
    ¬ (reversedRecord id).Reports (renamed id) Record.LowQuality := by
  rintro ⟨result, listed, definition, registered, effect, reported, -, low⟩
  rw [reversed_results, List.mem_singleton] at listed
  subst listed
  obtain rfl := List.mem_singleton.mp registered
  obtain rfl := List.mem_singleton.mp reported
  exact lt_irrefl _ low

end Sample

theorem status_classified_iff_sample : ∃ assessment,
    (Sample.reversedRecord "speed").assessTrial (Sample.renamed "speed") = .ok assessment ∧
    ((Sample.reversedRecord "speed").Classified (Sample.renamed "speed") assessment ↔
      ((Sample.reversedRecord "speed").Reports (Sample.renamed "speed") Record.MisleadingReversal →
        (Sample.reversedRecord "speed").Reports (Sample.renamed "speed") Record.LowQuality)) := by
  obtain ⟨assessment, assessed, -⟩ := @Sample.reversed_assessed "speed" .protocolDeviation
    (by decide +kernel)
  exact ⟨assessment, assessed, Record.status_classified_iff _ _ _ assessed (by
    rw [Sample.reversed_results]
    exact List.cons_ne_nil _ _)⟩

/-- A reversed interval of an outcome named after a quality floor passes for a quality
contradiction. -/
theorem status_misread : ¬ ∀ (r : Record) (protocol : MeasurementProtocol)
    (assessment : TrialAssessment), r.assessTrial protocol = .ok assessment →
    r.protocolResults protocol ≠ [] → r.Classified protocol assessment := by
  intro claim
  obtain ⟨assessment, assessed, external⟩ := @Sample.reversed_assessed "quality_floor"
    .externalQualityOrSafetyContradiction (by decide +kernel)
  have classified := claim _ _ assessment assessed (by
    rw [Sample.reversed_results]
    exact List.cons_ne_nil _ _)
  exact Sample.reversed_high _ (classified.external.mp external)

end Trial
end CollectivePhaseControl
