import CollectivePhaseControl.Trials

/-! Soundness of trial assessments. A tier is reached only where nothing blocks and nothing
contradicts, and every check that finds nothing has seen what it asks for. -/
namespace CollectivePhaseControl
namespace Trial

namespace Findings
variable {f g : Findings}

theorem eq_none_iff : f = none ↔ f.blockers = [] ∧ f.contradictions = [] := by
  obtain ⟨blockers, contradictions⟩ := f
  simp [none]

theorem mk_eq_none {blockers contradictions : List String} :
    ⟨blockers, contradictions⟩ = none ↔ blockers = [] ∧ contradictions = [] := eq_none_iff

theorem join_eq_none : f.join g = none ↔ f = none ∧ g = none := by
  simp only [eq_none_iff, join, List.append_eq_nil_iff]
  exact and_and_and_comm

theorem joined_eq_none {findings : List Findings} :
    joined findings = none ↔ ∀ f ∈ findings, f = none := by
  induction findings with
  | nil => simp [joined]
  | cons f findings ih =>
    rw [List.forall_mem_cons, ← ih]
    exact join_eq_none

end Findings

theorem exactRational_ok {written : Rational} {value : ℚ}
    (read : exactRational written = .ok value) : value = F written := by
  unfold exactRational at read
  split_ifs at read
  exact (Except.ok.inj read).symm

namespace Record
variable (r : Record)

/-- A record of its type, bound to the protocol and committed before time zero. -/
def Committed (protocol : MeasurementProtocolSpec) (digest : Digest) (expected : ArtifactType) :
    Prop :=
  ∃ artifact, r.objects[digest]? = some (.artifactRecord artifact) ∧
    artifact.spec.artifactType = expected ∧ artifact.spec.protocolId = protocol.protocolId ∧
    artifact.spec.acquisitionCommittedAt.lt protocol.timeZero = .ok true

/-- There is exactly one decision of the type on the subject, and it is timely. -/
def DecidedOnce (decisionType : Identifier) (subject : Digest) (timely : DateTime → Prop) : Prop :=
  ∃ decision, r.decisions decisionType subject = [decision] ∧ timely decision.spec.decidedAt

/-- An amendment continues the chain of the earlier ones. -/
structure Amends (protocol : MeasurementProtocolSpec) (earlier : List ProtocolAmendment)
    (amendment : ProtocolAmendment) : Prop where
  sequence : amendment.spec.sequence = earlier.length + 1
  prior : amendment.spec.priorAmendmentDigest = earlier.getLast?.map r.amendmentDigest
  early : amendment.spec.amendedAt.lt protocol.timeZero = .ok true
  decided : r.DecidedOnce "protocol_amendment" (r.amendmentDigest amendment) fun time =>
    amendment.spec.amendedAt.le time = .ok true ∧ time.lt protocol.timeZero = .ok true

def OnSide (definition : OutcomeDefinition) (effect : EffectInterval) : Prop :=
  match definition.direction with
  | .higher => F definition.minimumEffect ≤ F effect.lower
  | .lower => F effect.upper ≤ F definition.minimumEffect

/-- The registered result: its effects are those of the protocol's outcomes. -/
structure Favorable (protocol : MeasurementProtocolSpec) (result : TrialResultSpec) : Prop where
  primary : result.primaryResultId = protocol.primaryResultId
  outcomes : (result.effects.map (·.outcomeId)).Perm (protocol.outcomes.map (·.outcomeId))
  effects : ∀ definition ∈ protocol.outcomes, ∀ effect ∈ result.effects,
    effect.outcomeId = definition.outcomeId → F effect.lower ≤ F effect.upper ∧
      OnSide definition effect ∧ F definition.qualityFloor ≤ F effect.qualityValue

/-- What a tier certifies of a protocol and of the objects around it. -/
structure Certified (protocol : MeasurementProtocol) : Prop where
  result : ∃ result, r.protocolResults protocol = [result] ∧ Favorable protocol.spec result.spec ∧
    r.DecidedOnce "acceleration_compatibility" (r.resultDigest result) fun time =>
      result.spec.issuedAt.le time = .ok true
  dataset : r.Committed protocol.spec protocol.spec.datasetRecordDigest .dataset
  assignment : r.Committed protocol.spec protocol.spec.assignmentRecordDigest .assignment
  executable : r.Committed protocol.spec protocol.spec.analysisExecutableRecordDigest
    .analysisExecutable
  registration : r.DecidedOnce "protocol_registration" (r.protocolDigest protocol) fun time =>
    time.lt protocol.spec.timeZero = .ok true
  amendments : ∃ chain, chain.Perm (r.protocolAmendments protocol) ∧
    ∀ earlier amendment later, chain = earlier ++ amendment :: later →
      r.Amends protocol.spec earlier amendment

section clean
variable {r} {protocol : MeasurementProtocol}

theorem artifact_eq_some {digest : Digest} {expected : ArtifactType} {artifact : ArtifactRecord}
    (found : r.artifact digest expected = some artifact) :
    r.objects[digest]? = some (.artifactRecord artifact) ∧
      artifact.spec.artifactType = expected := by
  rw [Record.artifact, Option.filter_eq_some_iff, Option.bind_eq_some_iff,
    decide_eq_true_eq] at found
  obtain ⟨⟨document, listed, record⟩, expected⟩ := found
  refine ⟨?_, expected⟩
  cases document with
  | artifactRecord document =>
    cases record
    exact listed
  | _ => cases record

theorem artifactFindings_clean {digest : Digest} {expected : ArtifactType}
    (silent : r.artifactFindings protocol.spec digest expected = .ok .none) :
    r.Committed protocol.spec digest expected := by
  unfold artifactFindings at silent
  cases found : r.artifact digest expected with
  | none =>
    rw [found] at silent
    cases silent
  | some artifact =>
    rw [found] at silent
    simp only [bind_ok, pure_ok, Findings.eq_none_iff, List.append_eq_nil_iff, reasonIf_eq_nil,
      not_not, Bool.not_eq_true] at silent
    obtain ⟨late, compared, ⟨⟨bound, -⟩, -⟩, rfl⟩ := silent
    obtain ⟨listed, same⟩ := artifact_eq_some found
    exact ⟨artifact, listed, same, bound, DateTime.le_false_iff.mp compared⟩

theorem registrationFindings_clean (silent : r.registrationFindings protocol = .ok .none) :
    r.DecidedOnce "protocol_registration" (r.protocolDigest protocol) fun time =>
      time.lt protocol.spec.timeZero = .ok true := by
  unfold registrationFindings at silent
  split at silent
  · rename_i registration only
    simp only [bind_ok, pure_ok, Findings.eq_none_iff, reasonIf_eq_nil, Bool.not_eq_true] at silent
    obtain ⟨late, compared, -, rfl⟩ := silent
    exact ⟨registration, only, DateTime.le_false_iff.mp compared⟩
  · cases silent

theorem decidedInTime_ok {amendment : ProtocolAmendmentSpec} {decision : QuorumDecisionSpec}
    (timely : decidedInTime protocol.spec amendment decision = .ok true) :
    amendment.amendedAt.le decision.decidedAt = .ok true ∧
      decision.decidedAt.lt protocol.spec.timeZero = .ok true := by
  simp only [decidedInTime, bind_ok] at timely
  obtain ⟨follows, compared, timely⟩ := timely
  cases follows with
  | true => exact ⟨compared, timely⟩
  | false => cases timely

theorem amendmentDecision_clean {amendment : ProtocolAmendment}
    (silent : r.amendmentDecision protocol.spec amendment = .ok .none) :
    r.DecidedOnce "protocol_amendment" (r.amendmentDigest amendment) fun time =>
      amendment.spec.amendedAt.le time = .ok true ∧
        time.lt protocol.spec.timeZero = .ok true := by
  unfold amendmentDecision at silent
  split at silent
  · rename_i decision only
    simp only [bind_ok, pure_ok, Findings.eq_none_iff, reasonIf_eq_nil,
      Bool.not_eq_false] at silent
    obtain ⟨timely, decided, -, rfl⟩ := silent
    exact ⟨decision, only, decidedInTime_ok decided⟩
  · cases silent

theorem chainFindings_clean {chain : List ProtocolAmendment} :
    ∀ {before : List ProtocolAmendment} {seen : Finset ℕ},
      r.chainFindings protocol.spec (before.length + 1) (before.getLast?.map r.amendmentDigest)
        seen chain = .ok .none →
      ∀ earlier amendment later, chain = earlier ++ amendment :: later →
        r.Amends protocol.spec (before ++ earlier) amendment := by
  induction chain with
  | nil => simp
  | cons first rest ih =>
    intro before seen silent earlier amendment later split
    simp only [chainFindings, bind_ok, pure_ok] at silent
    obtain ⟨found, checked, others, after, joined⟩ := silent
    obtain ⟨rfl, rfl⟩ := Findings.join_eq_none.mp joined
    cases earlier with
    | nil =>
      obtain ⟨rfl, -⟩ := List.cons.inj split
      simp only [amendmentFindings, bind_ok, pure_ok, Findings.join_eq_none,
        Findings.mk_eq_none, List.append_eq_nil_iff, reasonIf_eq_nil, not_not,
        Bool.not_eq_true] at checked
      obtain ⟨late, compared, decided, said, ⟨-, ⟨⟨-, sequence⟩, prior⟩, rfl⟩, rfl, -⟩ := checked
      rw [List.append_nil]
      exact ⟨sequence, prior, DateTime.le_false_iff.mp compared, amendmentDecision_clean said⟩
    | cons head earlier =>
      obtain ⟨rfl, tail⟩ := List.cons.inj split
      have next := @ih (before ++ [first]) (insert first.spec.sequence seen)
      rw [List.length_append, List.length_singleton, List.getLast?_concat] at next
      have amends := next after earlier amendment later tail
      rwa [List.append_assoc, List.singleton_append] at amends

theorem identityFindings_clean (silent : r.identityFindings protocol = .none)
    (some' : r.protocolResults protocol ≠ []) :
    ∃ result, r.protocolResults protocol = [result] ∧
      result.spec.primaryResultId = protocol.spec.primaryResultId := by
  simp only [identityFindings, List.partition_eq_filter_filter, Findings.eq_none_iff,
    List.append_eq_nil_iff, reasonIf_eq_nil, not_not] at silent
  obtain ⟨-, ⟨unexpected, single⟩, present⟩ := silent
  have all : ∀ result ∈ r.protocolResults protocol,
      result.spec.primaryResultId = protocol.spec.primaryResultId := by
    intro result member
    by_contra other
    exact (List.filter_eq_nil_iff.mp unexpected) result member (by simpa using other)
  rw [List.filter_eq_self.mpr fun result member => by simpa using all result member] at single
  cases found : r.protocolResults protocol with
  | nil => exact absurd found some'
  | cons result rest =>
    rw [found] at single all
    rw [List.length_cons] at single
    have few : rest = [] := List.length_eq_zero_iff.mp (by omega)
    exact ⟨result, by rw [few], all result List.mem_cons_self⟩

theorem compatibilityFindings_clean {result : TrialResult}
    (silent : r.compatibilityFindings result = .ok .none) :
    r.DecidedOnce "acceleration_compatibility" (r.resultDigest result) fun time =>
      result.spec.issuedAt.le time = .ok true := by
  unfold compatibilityFindings at silent
  split at silent
  · rename_i decision only
    simp only [bind_ok, pure_ok, Findings.eq_none_iff, reasonIf_eq_nil, Bool.not_eq_true] at silent
    obtain ⟨early, compared, -, rfl⟩ := silent
    obtain ⟨same, later⟩ := DateTime.lt_false_iff.mp compared
    exact ⟨decision, only, DateTime.le_true_iff.mpr ⟨same.symm, later⟩⟩
  · cases silent

theorem favorable_iff {definition : OutcomeDefinition} {effect : EffectInterval} :
    favorable definition (F effect.lower) (F effect.upper) (F definition.minimumEffect) = true ↔
      OnSide definition effect := by
  unfold favorable OnSide
  cases definition.direction <;> simp

theorem outcomeFindings_clean {actual : Dict EffectInterval} {definition : OutcomeDefinition}
    (silent : outcomeFindings actual definition = .ok ([], true)) :
    ∃ effect, actual[definition.outcomeId]? = some effect ∧ F effect.lower ≤ F effect.upper ∧
      OnSide definition effect ∧ F definition.qualityFloor ≤ F effect.qualityValue := by
  unfold outcomeFindings at silent
  split at silent
  · cases silent
  · rename_i effect found
    simp only [bind_ok, pure_ok, Prod.mk.injEq, List.append_eq_nil_iff, reasonIf_eq_nil, not_lt,
      Bool.and_eq_true, decide_eq_true_eq] at silent
    obtain ⟨lower, lower', upper, upper', quality, quality', floor, floor', minimum, minimum',
      ⟨-, high⟩, ordered, side⟩ := silent
    obtain rfl := exactRational_ok lower'
    obtain rfl := exactRational_ok upper'
    obtain rfl := exactRational_ok quality'
    obtain rfl := exactRational_ok floor'
    obtain rfl := exactRational_ok minimum'
    exact ⟨effect, found, ordered, favorable_iff.mp side, high⟩

theorem resultFindings_clean {result : TrialResult} {tier : Tier}
    (silent : r.resultFindings protocol.spec result = .ok (.none, some tier)) :
    Favorable protocol.spec result.spec ∧
      r.DecidedOnce "acceleration_compatibility" (r.resultDigest result) fun time =>
        result.spec.issuedAt.le time = .ok true := by
  simp only [resultFindings, bind_ok, pure_ok, Prod.mk.injEq, mapM_ok] at silent
  obtain ⟨decided, said, unfinished, -, incomplete, -, outcomes, each, joined, candidate⟩ := silent
  rw [Findings.join_eq_none, Findings.join_eq_none] at joined
  obtain ⟨-, rfl, others⟩ := joined
  simp only [Findings.eq_none_iff, List.append_eq_nil_iff, reasonIf_eq_nil, not_not,
    List.flatMap_eq_nil_iff] at others
  obtain ⟨-, ⟨-, covers⟩, quiet⟩ := others
  split_ifs at candidate with favored
  obtain ⟨primary, all⟩ := favored
  have keys : (result.spec.effects.map (·.outcomeId)).toFinset =
      (protocol.spec.outcomes.map (·.outcomeId)).toFinset := by
    rw [← covers]
    ext id
    rw [Dict.mem_keys_toFinset, Std.ExtTreeMap.mem_ofList]
    simp
  refine ⟨⟨primary, ?_, fun definition listed effect member same => ?_⟩,
    compatibilityFindings_clean said⟩
  · exact List.perm_of_nodup_nodup_toFinset_eq result.spec.unique protocol.spec.unique keys
  · obtain ⟨outcome, inside, ran⟩ := forall₂_mem_left each definition listed
    have clean : outcome = ([], true) :=
      Prod.ext (quiet outcome inside) (List.all_eq_true.mp all outcome inside)
    rw [clean] at ran
    obtain ⟨found, read, ordered, side, high⟩ := outcomeFindings_clean ran
    have own : (definition.outcomeId, effect) ∈
        result.spec.effects.map fun effect => (effect.outcomeId, effect) :=
      List.mem_map.mpr ⟨effect, member, by rw [same]⟩
    have distinct : ((result.spec.effects.map fun effect =>
        (effect.outcomeId, effect)).map Prod.fst).Nodup := by
      rw [List.map_map]
      exact result.spec.unique
    rw [Dict.getElem?_ofList distinct own] at read
    cases read
    exact ⟨ordered, side, high⟩

theorem protocolFindings_clean (silent : r.protocolFindings protocol = .ok .none) :
    r.Committed protocol.spec protocol.spec.datasetRecordDigest .dataset ∧
    r.Committed protocol.spec protocol.spec.assignmentRecordDigest .assignment ∧
    r.Committed protocol.spec protocol.spec.analysisExecutableRecordDigest .analysisExecutable ∧
    (r.DecidedOnce "protocol_registration" (r.protocolDigest protocol) fun time =>
      time.lt protocol.spec.timeZero = .ok true) ∧
    ∃ chain, chain.Perm (r.protocolAmendments protocol) ∧
      ∀ earlier amendment later, chain = earlier ++ amendment :: later →
        r.Amends protocol.spec earlier amendment := by
  simp only [protocolFindings, bind_ok, pure_ok, Findings.joined_eq_none, List.forall_mem_cons,
    List.not_mem_nil, false_imp_iff, implies_true, and_true] at silent
  obtain ⟨dataset, checked, assignment, checked', executable, checked'', registration, decided,
    amendments, linked, -, rfl, rfl, rfl, rfl, rfl⟩ := silent
  refine ⟨artifactFindings_clean checked, artifactFindings_clean checked',
    artifactFindings_clean checked'', registrationFindings_clean decided, _,
    List.perm_insertionSort r.Precedes _, ?_⟩
  exact fun earlier amendment later split =>
    @chainFindings_clean r protocol _ [] ∅ linked earlier amendment later split

end clean

theorem conclude_measured {findings : Findings} {tier : Tier}
    (measured : (conclude findings tier).2 ≠ .unmeasured) :
    findings = .none ∧ tier ≠ .unmeasured := by
  unfold conclude at measured
  by_cases contradicted : findings.contradictions ≠ []
  · rw [if_pos contradicted] at measured
    exact absurd rfl measured
  · rw [if_neg contradicted] at measured
    split_ifs at measured with blocked idle
    · exact absurd rfl measured
    · exact absurd rfl measured
    · exact ⟨Findings.eq_none_iff.mpr ⟨not_not.mp blocked, not_not.mp contradicted⟩, idle⟩

/-- A tier other than unmeasured certifies the trial. -/
theorem assessTrial_sound (r : Record) (protocol : MeasurementProtocol)
    (assessment : TrialAssessment) (assessed : r.assessTrial protocol = .ok assessment)
    (measured : assessment.tier ≠ .unmeasured) : r.Certified protocol := by
  simp only [assessTrial, bind_ok] at assessed
  obtain ⟨found, looked, assessed⟩ := assessed
  by_cases empty : r.protocolResults protocol = []
  · rw [if_pos empty, pure_ok] at assessed
    rw [← assessed] at measured
    exact absurd rfl measured
  · rw [if_neg empty] at assessed
    simp only [bind_ok, pure_ok, mapM_ok] at assessed
    obtain ⟨results, each, rfl⟩ := assessed
    obtain ⟨silent, reached⟩ := conclude_measured measured
    rw [Findings.joined_eq_none, List.forall_mem_cons, List.forall_mem_cons] at silent
    obtain ⟨rfl, identified, quiet⟩ := silent
    obtain ⟨result, only, primary⟩ := identityFindings_clean identified empty
    rw [only] at each
    obtain ⟨checked, rest, ran, nothing, rfl⟩ := List.forall₂_cons_left_iff.mp each
    cases nothing
    obtain ⟨findings, candidate⟩ := checked
    have clean : findings = .none := quiet findings (by simp)
    cases candidate with
    | none => exact absurd rfl reached
    | some tier =>
      rw [clean] at ran
      obtain ⟨favorable, compatible⟩ := resultFindings_clean ran
      obtain ⟨dataset, assignment, executable, registration, amendments⟩ :=
        protocolFindings_clean looked
      exact ⟨⟨result, only, favorable, compatible⟩, dataset, assignment, executable, registration,
        amendments⟩

end Record

namespace Sample

def metadata (objectId : Identifier) : Metadata := ⟨"tenant", "workspace", objectId, ⟨0, some 0⟩⟩

/-- Time zero is 10; the speed is to rise by at least 2 with a quality of at least 1. -/
def protocol : MeasurementProtocol := ⟨metadata "protocol", ∅, {
  protocolId := "protocol"
  authorPrincipalId := "author"
  evaluatorPrincipalId := "evaluator"
  qualityVerifierPrincipalId := "verifier"
  timeZero := .utc 10
  observationCompleteAt := .utc 20
  outcomes := [⟨"speed", .higher, .ofNat 2, .ofNat 1⟩]
  assignmentRecordDigest := "assignment"
  datasetRecordDigest := "dataset"
  analysisExecutableRecordDigest := "analysis-executable"
  primaryResultId := "primary"
  unique := List.nodup_singleton _ }⟩

def artifact (kind : ArtifactType) : TrialDocument :=
  .artifactRecord ⟨metadata kind.text, ∅, kind, "protocol", "producer", kind.text, .utc 5⟩

def decision (decisionType : Identifier) (subject : Digest) (time : ℤ) : TrialDocument :=
  .quorumDecision ⟨metadata decisionType, ∅, decisionType, subject, [], .utc time⟩

def result : TrialResult := ⟨metadata "result", ∅, {
  primaryResultId := "primary"
  protocolDigest := "protocol"
  datasetRecordDigest := "dataset"
  assignmentRecordDigest := "assignment"
  analysisExecutableRecordDigest := "analysis-executable"
  evaluatorPrincipalId := "evaluator"
  qualityVerifierPrincipalId := "verifier"
  observationCompletedAt := .utc 20
  issuedAt := .utc 21
  design := .randomized
  effects := [⟨"speed", .ofNat 3, .ofNat 4, .ofNat 1⟩]
  unique := List.nodup_singleton _ }⟩

def digest : TrialDocument → Digest
  | .measurementProtocol document => document.metadata.objectId
  | .artifactRecord document => document.metadata.objectId
  | .protocolAmendment document => document.metadata.objectId
  | .trialResult document => document.metadata.objectId
  | .quorumDecision document => document.metadata.objectId
  | .other kind _ => kind

def documents : List TrialDocument := [artifact .dataset, artifact .assignment,
  artifact .analysisExecutable, decision "protocol_registration" "protocol" 6,
  .protocolAmendment ⟨metadata "amendment", ∅, "protocol", "author", none, 1, .utc 7⟩,
  decision "protocol_amendment" "amendment" 8, .trialResult result,
  decision "acceleration_compatibility" "result" 22]

def record : Record where
  documentDigest := digest
  objects := .ofList (documents.map fun document => (digest document, document))
  signerPrincipals := none
  casDigests := none

end Sample

theorem assessTrial_sound_sample :
    (∃ assessment, Sample.record.assessTrial Sample.protocol = .ok assessment ∧
      assessment.tier = .preregisteredRandomizedAccelerationBundleCompatible) ∧
    Sample.record.Certified Sample.protocol := by
  have assessed : Sample.record.assessTrial Sample.protocol = .ok
      ⟨.ofTier .preregisteredRandomizedAccelerationBundleCompatible,
        .preregisteredRandomizedAccelerationBundleCompatible, [], [], "protocol", ["result"]⟩ := by
    decide +kernel
  exact ⟨⟨_, assessed, rfl⟩, Record.assessTrial_sound _ _ _ assessed nofun⟩

end Trial
end CollectivePhaseControl
