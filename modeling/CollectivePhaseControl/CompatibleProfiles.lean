import CollectivePhaseControl.AuditedDimensions
import CollectivePhaseControl.QuorumRoles

/-! What a profile's compatibility says of the mandatory dimensions. It is read off the
dimensions that the snapshot requires, so a snapshot that requires none of those that violated
provenance withholds is compatible whatever these are. -/
namespace CollectivePhaseControl

/-- The bounds of `required_dimensions`. -/
structure RequiredAccepted (required : List Identifier) : Prop where
  nonempty : required ≠ []
  few : required.length ≤ 32
  distinct : required.Nodup
  identifiers : ∀ name ∈ required, isIdentifier name = true

instance decidableRequiredAccepted (required : List Identifier) :
    Decidable (RequiredAccepted required) :=
  decidable_of_iff (required ≠ [] ∧ required.length ≤ 32 ∧ required.Nodup ∧
      ∀ name ∈ required, isIdentifier name = true)
    ⟨fun ⟨nonempty, few, distinct, identifiers⟩ => ⟨nonempty, few, distinct, identifiers⟩,
      fun ok => ⟨ok.nonempty, ok.few, ok.distinct, ok.identifiers⟩⟩

/-- The bounds of `SnapshotSpec`. -/
structure SnapshotSpec.Accepted (spec : SnapshotSpec) : Prop where
  digests : ∀ digest ∈ spec.generationDigest :: spec.analysisBasisDigest ::
    snapshotReferences spec, isDigest digest = true
  objects : spec.objectDigests ≠ [] ∧ spec.objectDigests.length ≤ 50000 ∧
    spec.objectDigests.Nodup
  witnesses : spec.witnessDigests.length ≤ 50000 ∧ spec.witnessDigests.Nodup
  disjoint : ∀ digest ∈ spec.objectDigests, digest ∉ spec.witnessDigests
  targets : spec.targetIds ≠ [] ∧ spec.targetIds.length ≤ 256 ∧ spec.targetIds.Nodup
  floors : spec.protectedFloors.size ≤ 10000
  identifiers : ∀ name ∈ spec.targetIds ++ spec.protectedFloors.keys, isIdentifier name = true
  domains : 1 ≤ spec.minimumIndependentDomains ∧ spec.minimumIndependentDomains ≤ 256
  required : RequiredAccepted spec.requiredDimensions

def OperationalProfile.FailClosed (profile : OperationalProfile) : Prop :=
  profile.operationalOrganizationCompatible = true → ∀ name ∈ mandatoryDimensions,
    (profile.dimensions[name]?).map (·.status) = some .satisfied

/-- Some required name is of a dimension that is not satisfied when provenance is violated. -/
def Decisive (required : List Identifier) : Prop :=
  ∃ name ∈ required, name ∈ mandatoryDimensions ∧ name ≠ "trust_quorum" ∧
    name ≠ "temporal_integrity"

section audits
variable {h : AuditServices} {snapshot : AnalysisSnapshot} {allObjects : Objects}
  {profile : OperationalProfile}

theorem profileOf_ok {dimensions : List (Identifier × DimensionResult)}
    (made : profileOf h snapshot dimensions = .ok profile) :
    profile.dimensions = .ofList dimensions ∧
      (profile.operationalOrganizationCompatible = true ↔
        (∀ name ∈ snapshot.spec.requiredDimensions, ∀ r, profile.dimensions[name]? = some r →
          r.status = .satisfied) ∧ ∀ name ∈ mandatoryDimensions, name ∈ profile.dimensions) := by
  rw [profileOf, validated_ok] at made
  obtain ⟨-, rfl⟩ := made
  refine ⟨rfl, ?_⟩
  simp only [Bool.and_eq_true, List.all_eq_true, decide_eq_true_eq]
  refine and_congr_left fun _ => forall₂_congr fun name _ => ?_
  cases (Std.ExtTreeMap.ofList dimensions : Dict DimensionResult)[name]? <;> simp

theorem failClosed_of_covered
    (covered : ∀ name ∈ mandatoryDimensions, name ∈ snapshot.spec.requiredDimensions)
    {dimensions : List (Identifier × DimensionResult)}
    (made : profileOf h snapshot dimensions = .ok profile) : profile.FailClosed := by
  intro compatible name mandatory
  obtain ⟨satisfied, present⟩ := (profileOf_ok made).2.mp compatible
  have found := Std.ExtTreeMap.getElem?_eq_some_getElem (present name mandatory)
  rw [found, Option.map_some, satisfied name (covered name mandatory) _ found]

theorem provenanceReasons_uncovered
    (uncovered : ¬ ∀ name ∈ mandatoryDimensions, name ∈ snapshot.spec.requiredDimensions) :
    provenanceReasons h snapshot allObjects ≠ [] := by
  intro clean
  simp only [provenanceReasons, List.append_eq_nil_iff, reasonIf_eq_nil, not_not] at clean
  exact uncovered clean.1.1.2

theorem duplicateIdentities_of_none {items : List Document} {seen : List (Identifier × Identifier)}
    (none : ∀ item ∈ items, typedIdentity item = none) : duplicateIdentities seen items = [] := by
  induction items with
  | nil => rfl
  | cons item items ih =>
    obtain ⟨first, others⟩ := List.forall_mem_cons.mp none
    rw [duplicateIdentities, first]
    exact ih others

theorem exists_verdict {blockers allowed evidence : List String} (within : blockers ⊆ allowed)
    (named : ∀ name ∈ allowed, isIdentifier name = true) (few : allowed.length ≤ 10000)
    (evident : evidence.length ≤ 10000) : ∃ r, verdict blockers evidence "" = .ok r := by
  have short : (sortedSet blockers).length ≤ allowed.length :=
    ((sortedSet_nodup blockers).subperm fun _ member =>
      within (mem_sortedSet.mp member)).length_le
  have evident' : (sortedSet evidence).length ≤ evidence.length :=
    ((sortedSet_nodup evidence).subperm fun _ member => mem_sortedSet.mp member).length_le
  refine ⟨_, validated_ok.mpr ⟨⟨?_, short.trans few, evident'.trans evident, Nat.zero_le _⟩, rfl⟩⟩
  exact fun blocker member => named blocker (within (mem_sortedSet.mp member))

theorem budgetUnknown_incompatible {digest : Digest}
    (made : budgetUnknown digest = .ok profile) : profile.FailClosed := by
  simp only [budgetUnknown, bind_ok, validated_ok] at made
  obtain ⟨results, -, -, rfl⟩ := made
  exact fun compatible => absurd compatible Bool.false_ne_true

theorem failClosed_of_withheld (decisive : Decisive snapshot.spec.requiredDimensions)
    {provenance trust temporal : DimensionResult} (violated : provenance.status ≠ .satisfied)
    {rest : List (Identifier × DimensionResult)} {blockers : List String}
    (listed : uniform .unknown blockers (mandatoryDimensions.drop 3) = .ok rest)
    (made : profileOf h snapshot ([("provenance_integrity", provenance), ("trust_quorum", trust),
      ("temporal_integrity", temporal)] ++ rest) = .ok profile) : profile.FailClosed := by
  intro compatible
  obtain ⟨name, required, mandatory, other, other'⟩ := decisive
  obtain ⟨table, iff⟩ := profileOf_ok made
  obtain ⟨satisfied, present⟩ := iff.mp compatible
  obtain ⟨result, found⟩ : ∃ result, profile.dimensions[name]? = some result :=
    ⟨_, Std.ExtTreeMap.getElem?_eq_some_getElem (present name mandatory)⟩
  have status := satisfied name required result found
  rw [table] at found
  have member := Dict.mem_of_ofList found
  rw [List.mem_append] at member
  exfalso
  cases member with
  | inl first =>
    simp only [List.mem_cons, Prod.mk.injEq, List.not_mem_nil, or_false] at first
    obtain ⟨-, same⟩ | ⟨same, -⟩ | ⟨same, -⟩ := first
    · exact violated (same ▸ status)
    · exact other same
    · exact other' same
  | inr late =>
    have unknown := (uniform_ok listed).2 _ late
    rw [status] at unknown
    cases unknown

theorem uniform_of_finding {status : ProfileStatus} {blockers : List String} {r : DimensionResult}
    (made : finding status blockers = .ok r) (names : List Identifier) :
    uniform status blockers names = .ok (names.map (·, r)) := by
  rw [uniform, mapM_ok]
  refine List.forall₂_map_right_iff.mpr (List.forall₂_same.mpr fun name _ => ?_)
  exact bind_ok.mpr ⟨r, made, rfl⟩

theorem exists_profileOf {dimensions : List (Identifier × DimensionResult)}
    (named : dimensions.map Prod.fst = mandatoryDimensions) :
    ∃ profile, profileOf h snapshot dimensions = .ok profile := by
  have distinct : (dimensions.map Prod.fst).Nodup := by
    rw [named]
    decide
  have apart : dimensions.Pairwise fun a b => ¬ compare a.1 b.1 = .eq := by
    rw [List.Nodup, List.pairwise_map] at distinct
    exact distinct.imp fun other same => other (Std.LawfulEqCmp.eq_of_compare same)
  have length : dimensions.length = 13 := by
    rw [← List.length_map Prod.fst, named]
    rfl
  exact ⟨_, validated_ok.mpr ⟨(Std.ExtTreeMap.size_ofList apart).trans length, rfl⟩⟩

theorem lift_ok {α : Type} (a : α) : lift (.ok a) = pure a := rfl

theorem auditWith_withheld {provenance temporal trust : DimensionResult} {objects : Objects}
    {time evaluationAt : Option DateTime} {rest : List (Identifier × DimensionResult)}
    {robustness : Objects → Analysis DimensionResult} {budget : Budget}
    (checked : CollectivePhaseControl.provenance h snapshot allObjects = .ok (provenance, objects))
    (violated : provenance.status ≠ .satisfied)
    (timed : CollectivePhaseControl.temporal h snapshot objects evaluationAt =
      .ok (temporal, time))
    (trusted : CollectivePhaseControl.trust h snapshot objects = .ok trust)
    (listed : uniform .unknown ["typed_live_snapshot_unavailable"] (mandatoryDimensions.drop 3) =
      .ok rest)
    (made : profileOf h snapshot ([("provenance_integrity", provenance), ("trust_quorum", trust),
      ("temporal_integrity", temporal)] ++ rest) = .ok profile) :
    auditWith h snapshot allObjects robustness evaluationAt budget = .ok profile budget := by
  have run : auditWith h snapshot allObjects robustness evaluationAt = exceptBudget (pure profile)
      (lift (budgetUnknown (h.document (snapshot.document .analysisSnapshot)))) := by
    unfold auditWith
    simp only [checked, timed, trusted, lift_ok, pure_bind]
    cases time with
    | none => simp only [listed, made, lift_ok, pure_bind]
    | some time =>
      cases status : provenance.status with
      | satisfied => exact absurd status violated
      | _ => simp only [listed, made, lift_ok, pure_bind]
  rw [run]
  rfl

theorem yields_auditWith_failClosed (decisive : Decisive snapshot.spec.requiredDimensions)
    (robustness : Objects → Analysis DimensionResult) (evaluationAt : Option DateTime) :
    Yields (auditWith h snapshot allObjects robustness evaluationAt)
      OperationalProfile.FailClosed := by
  refine yields_exceptBudget ?_ ((yields_lift _).mono fun _ => budgetUnknown_incompatible)
  refine yields_bind (yields_lift _) fun checked made => ?_
  obtain ⟨provenance, objects⟩ := checked
  obtain ⟨rfl, sound⟩ := provenance_ok made
  refine yields_bind (yields_lift _) fun timed found => ?_
  obtain ⟨temporal, time⟩ := timed
  refine yields_bind (yields_lift _) fun trust _ => ?_
  by_cases covered : ∀ name ∈ mandatoryDimensions, name ∈ snapshot.spec.requiredDimensions
  · dsimp only
    split
    · refine yields_bind (yields_returns _) fun kernel _ => ?_
      refine yields_bind (yields_returns _) fun robust _ => ?_
      exact (yields_lift _).mono fun _ => failClosed_of_covered covered
    · refine yields_bind (yields_lift _) fun rest _ => ?_
      exact (yields_lift _).mono fun _ => failClosed_of_covered covered
  · have violated : provenance.status ≠ .satisfied :=
      fun satisfied => provenanceReasons_uncovered covered (sound.mp satisfied)
    dsimp only
    split
    · rename_i satisfied
      exact absurd satisfied violated
    · refine yields_bind (yields_lift _) fun rest listed => ?_
      exact (yields_lift _).mono fun _ => failClosed_of_withheld decisive violated listed

end audits

namespace IndecisiveSample

def digestLabel : List Char := "sha256:".toList

@[irreducible] def digest (c : Char) : Digest :=
  String.ofList (digestLabel ++ List.replicate 64 c)

/-- A document's digest is its identifier, and the roots of a policy sign. -/
def services : AuditServices :=
  { Authority.Roster.authority ["workspace_root"] with
    proposalCommitmentDigest := fun _ _ _ _ => digest '9' }

def document (c : Char) (spec : DocumentSpec) : Document :=
  ⟨⟨"tenant", "workspace", digest c, .utc 0⟩, ∅, spec⟩

def rule : QuorumRule := ⟨"decision", ["workspace_root"], false, false⟩

def policy : TrustPolicySpec := (Authority.Roster.policy ["workspace_root"] rule).spec

def contract : Document :=
  document 'a' (.phaseContract ⟨["target"], ∅, mandatoryDimensions, 1⟩)

def pinned : Document := document 'b' (.trustPolicy policy)

def receipt : Document :=
  document 'c' (.trustedTimeReceipt ⟨"clock", .utc 5, .utc 10, "nonce"⟩)

def registry : Document := document 'd' (.unitRegistry ⟨∅, ∅, "unit", "unit"⟩)

def decision : Document :=
  document 'e' (.quorumDecision ⟨"decision", digest '1', [digest '2'], .utc 5⟩)

def documents : List Document := [contract, pinned, receipt, registry, decision]

def objects : Objects := .ofList (documents.map fun d => (d.metadata.objectId, d))

def snapshot (required : List Identifier) : AnalysisSnapshot :=
  ⟨⟨"tenant", "workspace", digest '0', .utc 0⟩, ∅,
    ⟨digest 'f', digest '0', digest 'a', digest 'b', digest 'c', digest 'd', [digest 'e'], [],
      ["target"], ∅, 1, required⟩⟩

variable {required : List Identifier}

theorem digest_injective : Function.Injective digest := by
  intro c c' same
  unfold digest at same
  have chars := List.append_cancel_left (String.ofList_injective same)
  exact (List.replicate_inj.mp chars).2.resolve_left (by decide)

theorem isDigest_digest {c : Char} (hex : lowerHex c = true) : isDigest (digest c) = true := by
  have size : digestLabel.length = 7 := rfl
  have body : ∀ x ∈ List.replicate 64 c, lowerHex x = true :=
    fun x member => List.eq_of_mem_replicate member ▸ hex
  unfold isDigest digest
  rw [String.toList_ofList, ← size, List.take_left, List.drop_left, List.length_append,
    List.length_replicate, size, List.all_eq_true.mpr body]
  exact Bool.and_eq_true_iff.mpr ⟨Bool.and_eq_true_iff.mpr ⟨beq_self_eq_true _, rfl⟩, rfl⟩

theorem spec_accepted {listed : List Char} {contract policy receipt registry : Char}
    (hex : ('f' :: '0' :: listed ++ [contract, policy, receipt, registry]).all lowerHex = true)
    (some : listed ≠ []) (few : listed.length ≤ 50000) (distinct : listed.Nodup)
    (accepted : RequiredAccepted required) :
    (⟨digest 'f', digest '0', digest contract, digest policy, digest receipt, digest registry,
      listed.map digest, [], ["target"], ∅, 1, required⟩ : SnapshotSpec).Accepted where
  digests text member := by
    have each : ∀ text ∈ ('f' :: '0' :: listed ++ [contract, policy, receipt, registry]).map
        digest, isDigest text = true :=
      List.forall_mem_map.mpr fun c member => isDigest_digest (List.all_eq_true.mp hex c member)
    refine each text ?_
    simpa [snapshotReferences] using member
  objects := ⟨by simpa using some, by simpa using few, distinct.map digest_injective⟩
  witnesses := ⟨Nat.zero_le _, List.nodup_nil⟩
  disjoint _ _ := List.not_mem_nil
  targets := ⟨List.cons_ne_nil _ _, (by decide : 1 ≤ 256), List.nodup_singleton _⟩
  floors := (by decide +kernel : (∅ : Dict Rational).size ≤ 10000)
  identifiers := (by decide +kernel : ∀ name ∈ ["target"] ++ (∅ : Dict Rational).keys,
    isIdentifier name = true)
  domains := (by decide : 1 ≤ 1 ∧ 1 ≤ 256)
  required := accepted

theorem snapshot_accepted (accepted : RequiredAccepted required) :
    (snapshot required).spec.Accepted :=
  @spec_accepted required ['e'] 'a' 'b' 'c' 'd' (by decide) (List.cons_ne_nil _ _) (by decide)
    (List.nodup_singleton _) accepted

theorem getElem?_objects {item : Document} (member : item ∈ documents) :
    objects[item.metadata.objectId]? = some item := by
  have names : (documents.map fun d => (d.metadata.objectId, d)).map Prod.fst =
      ['a', 'b', 'c', 'd', 'e'].map digest := rfl
  refine Dict.getElem?_ofList ?_ (List.mem_map_of_mem member)
  rw [names]
  exact (by decide : ['a', 'b', 'c', 'd', 'e'].Nodup).map digest_injective

theorem referenceReasons_snapshot {item : Document} (member : item ∈ documents) :
    referenceReasons services (snapshot required) item.metadata.objectId item = [] := by
  have scope : ∀ item ∈ documents, item.metadata.tenantId = "tenant" ∧
      item.metadata.workspaceId = "workspace" := by decide
  simp only [referenceReasons, List.append_eq_nil_iff, reasonIf_eq_nil, not_not]
  exact ⟨⟨rfl, (scope item member).1⟩, (scope item member).2⟩

theorem mem_snapshotReferences {reference : Digest} :
    reference ∈ snapshotReferences (snapshot required).spec ↔
      ∃ item ∈ documents, item.metadata.objectId = reference := by
  rw [← List.mem_map]
  have names : documents.map (·.metadata.objectId) =
      [digest 'a', digest 'b', digest 'c', digest 'd', digest 'e'] := rfl
  rw [names]
  simp only [snapshotReferences, snapshot, List.mem_append, List.mem_cons, List.not_mem_nil,
    or_false]
  tauto

def live (required : List Identifier) : Objects :=
  liveObjects services (snapshot required) objects

theorem getElem?_live {item : Document} (member : item ∈ documents) :
    (live required)[item.metadata.objectId]? = some item :=
  getElem?_liveObjects.mpr ⟨mem_snapshotReferences.mpr ⟨item, member, rfl⟩,
    getElem?_objects member, referenceReasons_snapshot member⟩

theorem mem_documents {item : Document} (member : item ∈ (live required).values) :
    item ∈ documents := by
  obtain ⟨digest, found⟩ := Dict.mem_values.mp member
  obtain ⟨named, held, -⟩ := getElem?_liveObjects.mp found
  obtain ⟨item', listed, rfl⟩ := mem_snapshotReferences.mp named
  cases (getElem?_objects listed).symm.trans held
  exact listed

def allowed : List Identifier :=
  ["mandatory_security_or_science_dimension_disabled", "snapshot_contract_binding_mismatch"]

theorem provenanceReasons_snapshot :
    provenanceReasons services (snapshot required) objects ⊆ allowed := by
  have references : (snapshotReferences (snapshot required).spec).flatMap (fun digest =>
      (reference services (snapshot required) objects digest).1) = [] := by
    rw [List.flatMap_eq_nil_iff]
    intro digest named
    obtain ⟨item, member, rfl⟩ := mem_snapshotReferences.mp named
    rw [reference, getElem?_objects member]
    exact referenceReasons_snapshot member
  have identities : duplicateIdentities [] (liveObjects services (snapshot required)
      objects).values = [] := by
    refine duplicateIdentities_of_none fun item member => ?_
    have none' : ∀ item ∈ documents, typedIdentity item = none := by decide
    exact none' item (mem_documents member)
  have named : (snapshot required).spec.contractDigest = contract.metadata.objectId := rfl
  have basis : (snapshot required).spec.analysisBasisDigest =
      analysisBasisDigest services (snapshot required) := rfl
  have unbound : ∀ reason ∈ contractReasons (snapshot required) objects,
      reason = "snapshot_contract_binding_mismatch" := by
    rw [contractReasons, named, getElem?_objects (by simp [documents] : contract ∈ documents)]
    exact fun reason member => (mem_reasonIf.mp member).2
  intro reason member
  simp only [provenanceReasons, references, identities, reasonIf_eq_nil.mpr (not_not.mpr basis),
    List.append_nil, List.nil_append, List.mem_append] at member
  cases member with
  | inl disabled => exact List.mem_cons.mpr (.inl (mem_reasonIf.mp disabled).2)
  | inr other => exact List.mem_cons.mpr (.inr (List.mem_singleton.mpr (unbound reason other)))

theorem live_size : (live required).size ≤ 5 :=
  Std.ExtTreeMap.size_ofList_le.trans (List.length_filterMap_le _ _)

theorem live_keys : (live required).keys.length ≤ 10000 := by
  have size := @live_size required
  rw [Std.ExtTreeMap.length_keys]
  omega

theorem temporal_snapshot : ∃ r, temporal services (snapshot required) (live required) none =
    .ok (r, some (.utc 5)) ∧ r.status = .satisfied := by
  have named : (snapshot required).spec.trustedTimeReceiptDigest = receipt.metadata.objectId := rfl
  refine ⟨⟨.satisfied, [], [digest 'c'], ""⟩, ?_, rfl⟩
  rw [temporal, named, getElem?_live (by simp [documents] : receipt ∈ documents)]
  rfl

theorem trust_snapshot : ∃ r, trust services (snapshot required) (live required) = .ok r ∧
    r.status = .satisfied := by
  have named : (snapshot required).spec.trustPolicyDigest = pinned.metadata.objectId := rfl
  have decided : typed (live required) DocumentSpec.decision? ≠ [] := by
    have member : decision ∈ (live required).values :=
      Dict.mem_values.mpr ⟨_, getElem?_live (by simp [documents] : decision ∈ documents)⟩
    exact List.ne_nil_of_mem (List.mem_filterMap.mpr ⟨decision, member, rfl⟩)
  have accepted : services.toAuthority.validatePolicy
      ⟨pinned.metadata, ∅, policy⟩ = .ok [] :=
    Authority.Roster.policy_accepted (Authority.Roster.rootReasons_policy List.not_mem_nil)
  have clean : ([] : List String) ++ reasonIf (typed (live required) DocumentSpec.decision? = [])
      "no_role_quorum_decision_in_snapshot" = [] := by
    rw [List.nil_append, reasonIf_eq_nil]
    exact decided
  have evident : (digest 'b' :: (typed (live required) DocumentSpec.decision?).map fun item =>
      services.document item.1).length ≤ 10000 := by
    have few := List.length_filterMap_le (fun item : Document =>
      (DocumentSpec.decision? item.spec).map (item, ·)) (live required).values
    have size := @live_size required
    rw [Dict.values, List.length_map, Std.ExtTreeMap.length_toList] at few
    rw [List.length_cons, List.length_map]
    exact Nat.succ_le_of_lt (Nat.lt_of_le_of_lt (few.trans size) (by decide))
  obtain ⟨r, made⟩ := exists_verdict (List.nil_subset allowed) (by decide) (by decide) evident
  refine ⟨r, ?_, (verdict_satisfied made).mpr rfl⟩
  rw [trust, named, getElem?_live (by simp [documents] : pinned ∈ documents)]
  refine bind_ok.mpr ⟨[], accepted, ?_⟩
  dsimp only
  rw [clean]
  exact made

/-- The result of a dimension that is not computed. -/
def withheld : DimensionResult := ⟨.unknown, ["typed_live_snapshot_unavailable"], [], ""⟩

theorem finding_withheld :
    finding .unknown ["typed_live_snapshot_unavailable"] = .ok withheld := rfl

/-- With nothing required that violated provenance withholds, the audit is compatible although
its provenance is violated. -/
theorem audit_snapshot (free : ¬ Decisive required) (budget : Budget) :
    ∃ profile, auditSnapshot services (snapshot required) objects true none budget =
        .ok profile budget ∧ profile.operationalOrganizationCompatible = true ∧
      ∃ r, profile.dimensions["provenance_integrity"]? = some r ∧ r.status = .violated := by
  have outside : ∀ name ∈ mandatoryDimensions, name ≠ "trust_quorum" →
      name ≠ "temporal_integrity" → name ∉ required :=
    fun name mandatory other other' member => free ⟨name, member, mandatory, other, other'⟩
  have uncovered : ¬ ∀ name ∈ mandatoryDimensions,
      name ∈ (snapshot required).spec.requiredDimensions :=
    fun covered => outside "provenance_integrity" (by decide) (by decide) (by decide)
      (covered _ (by decide))
  have reasons := @provenanceReasons_uncovered services _ objects uncovered
  obtain ⟨provenance, found⟩ := exists_verdict (@provenanceReasons_snapshot required) (by decide)
    (by decide) live_keys
  have status : provenance.status = .violated := by
    rw [(dimensionResult_ok found).1, if_neg reasons]
  have checked : CollectivePhaseControl.provenance services (snapshot required) objects =
      .ok (provenance, live required) := bind_ok.mpr ⟨_, found, rfl⟩
  obtain ⟨temporal, timed, current⟩ := @temporal_snapshot required
  obtain ⟨trust, trusted, decided⟩ := @trust_snapshot required
  have listed := uniform_of_finding finding_withheld (mandatoryDimensions.drop 3)
  obtain ⟨profile, made⟩ := @exists_profileOf services (snapshot required)
    ([("provenance_integrity", provenance), ("trust_quorum", trust),
      ("temporal_integrity", temporal)] ++ (mandatoryDimensions.drop 3).map (·, withheld)) rfl
  obtain ⟨table, compatible⟩ := profileOf_ok made
  refine ⟨profile, auditWith_withheld checked (status ▸ by decide) timed trusted listed made,
    compatible.mpr ⟨fun name member r held => ?_, fun name mandatory => ?_⟩, provenance, ?_, status⟩
  · rw [table] at held
    have entry := Dict.mem_of_ofList held
    rw [List.mem_append] at entry
    cases entry with
    | inl first =>
      simp only [List.mem_cons, Prod.mk.injEq, List.not_mem_nil, or_false] at first
      obtain ⟨rfl, -⟩ | ⟨-, rfl⟩ | ⟨-, rfl⟩ := first
      · exact absurd member (outside _ (by decide) (by decide) (by decide))
      · exact decided
      · exact current
    | inr late =>
      have withheld' : name ∈ mandatoryDimensions.drop 3 := by
        obtain ⟨other, listed, same⟩ := List.mem_map.mp late
        exact (Prod.mk.inj same).1 ▸ listed
      have indecisive : ∀ name ∈ mandatoryDimensions.drop 3, name ∈ mandatoryDimensions ∧
          name ≠ "trust_quorum" ∧ name ≠ "temporal_integrity" := by decide
      obtain ⟨mandatory, other, other'⟩ := indecisive name withheld'
      exact absurd member (outside name mandatory other other')
  · rw [table, Std.ExtTreeMap.mem_ofList, List.contains_iff_mem]
    exact mandatory
  · rw [table]
    exact Dict.getElem?_ofList (show mandatoryDimensions.Nodup by decide) List.mem_cons_self

end IndecisiveSample

/-- Audits fail closed for exactly the required dimensions among which is one that violated
provenance withholds. -/
theorem compatible_iff (required : List Identifier) (accepted : RequiredAccepted required) :
    (∀ (h : AuditServices) (snapshot : AnalysisSnapshot) (allObjects : Objects)
      (includeRobustness : Bool) (evaluationAt : Option DateTime) (budget after : Budget)
      (profile : OperationalProfile), snapshot.spec.Accepted →
      snapshot.spec.requiredDimensions = required →
      auditSnapshot h snapshot allObjects includeRobustness evaluationAt budget =
        .ok profile after → profile.FailClosed) ↔ Decisive required := by
  constructor
  · intro closed
    by_contra free
    obtain ⟨profile, run, compatible, r, found, violated⟩ :=
      IndecisiveSample.audit_snapshot free unhurried
    have satisfied := closed _ _ _ _ _ _ _ profile (IndecisiveSample.snapshot_accepted accepted)
      rfl run compatible "provenance_integrity" (by decide)
    rw [found, Option.map_some, violated] at satisfied
    cases satisfied
  · intro decisive h snapshot allObjects includeRobustness evaluationAt budget after profile _ same
      run
    exact yields_auditWith_failClosed (same ▸ decisive) _ _ budget profile after run

theorem compatible_iff_mandatory : RequiredAccepted mandatoryDimensions ∧
    ((∀ (h : AuditServices) (snapshot : AnalysisSnapshot) (allObjects : Objects)
      (includeRobustness : Bool) (evaluationAt : Option DateTime) (budget after : Budget)
      (profile : OperationalProfile), snapshot.spec.Accepted →
      snapshot.spec.requiredDimensions = mandatoryDimensions →
      auditSnapshot h snapshot allObjects includeRobustness evaluationAt budget =
        .ok profile after → profile.FailClosed) ↔ Decisive mandatoryDimensions) :=
  ⟨by decide, compatible_iff mandatoryDimensions (by decide)⟩

/-- A snapshot that requires a single unknown name is compatible with violated provenance. -/
theorem compatible_unknown : ∃ profile,
    (IndecisiveSample.snapshot ["liveness"]).spec.Accepted ∧
    auditSnapshot IndecisiveSample.services (IndecisiveSample.snapshot ["liveness"])
      IndecisiveSample.objects true none unhurried = .ok profile unhurried ∧
    profile.operationalOrganizationCompatible = true ∧ ¬ profile.FailClosed := by
  have free : ¬ Decisive ["liveness"] := by
    rintro ⟨name, member, mandatory, -⟩
    rw [List.mem_singleton.mp member] at mandatory
    exact absurd mandatory (by decide)
  obtain ⟨profile, run, compatible, r, found, violated⟩ :=
    IndecisiveSample.audit_snapshot free unhurried
  refine ⟨profile, IndecisiveSample.snapshot_accepted (by decide), run, compatible,
    fun closed => ?_⟩
  have satisfied := closed compatible "provenance_integrity" (by decide)
  rw [found, Option.map_some, violated] at satisfied
  cases satisfied

end CollectivePhaseControl
