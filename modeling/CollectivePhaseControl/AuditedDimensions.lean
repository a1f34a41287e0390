import CollectivePhaseControl.Perturbations

/-! What an audit's profile says of the dimensions: a dimension that it reports as satisfied
has been found so on the live objects of a snapshot whose provenance is satisfied. -/
namespace CollectivePhaseControl

def Returns {α : Type} (m : Analysis α) (a : α) : Prop := ∃ budget after, m budget = .ok a after

theorem yields_returns {α : Type} (m : Analysis α) : Yields m (Returns m) :=
  fun budget _ after run => ⟨budget, after, run⟩

theorem Yields.returned {α : Type} {m : Analysis α} {said : α → Prop} (yields : Yields m said)
    {a : α} (returned : Returns m a) : said a := by
  obtain ⟨budget, after, run⟩ := returned
  exact yields budget a after run

/-- Budgets decide whether an analysis returns, and not what. -/
def Steady {α : Type} (m : Analysis α) : Prop := ∀ a b, Returns m a → Returns m b → a = b

section steady
variable {α β : Type} {m : Analysis α}

theorem Yields.steady {a : α} (yields : Yields m (· = a)) : Steady m :=
  fun _ _ first second => (yields.returned first).trans (yields.returned second).symm

theorem steady_pure (a : α) : Steady (pure a : Analysis α) :=
  Yields.steady (a := a) (yields_pure rfl)

theorem steady_lift (x : Checked α) : Steady (lift x) := by
  intro a b first second
  have same := ((yields_lift x).returned first).symm.trans ((yields_lift x).returned second)
  cases same
  rfl

theorem steady_rational (written : Rational) : Steady (rational written) :=
  (yields_rational written).steady

theorem Returns.of_bind {f : α → Analysis β} {b : β} (returned : Returns (m >>= f) b) :
    ∃ a, Returns m a ∧ Returns (f a) b := by
  have both : Yields (m >>= f) fun b => ∃ a, Returns m a ∧ Returns (f a) b :=
    yields_bind (yields_returns m) fun a first =>
      (yields_returns (f a)).mono fun b second => ⟨a, first, second⟩
  exact both.returned returned

theorem Steady.bind {f : α → Analysis β} (head : Steady m) (tail : ∀ a, Steady (f a)) :
    Steady (m >>= f) := by
  intro b b' first second
  obtain ⟨a, started, ended⟩ := first.of_bind
  obtain ⟨a', started', ended'⟩ := second.of_bind
  cases head a a' started started'
  exact tail a b b' ended ended'

theorem steady_foldlM {f : β → α → Analysis β} (each : ∀ s x, Steady (f s x)) (xs : List α) :
    ∀ s, Steady (xs.foldlM f s) := by
  induction xs with
  | nil => exact fun s => steady_pure s
  | cons x xs ih =>
    intro s
    rw [List.foldlM_cons]
    exact (each s x).bind ih

end steady

theorem yields_exceptBudget {α : Type} {x handler : Analysis α} {said : α → Prop}
    (head : Yields x said) (rescue : Yields handler said) :
    Yields (exceptBudget x handler) said := by
  intro budget a after run
  unfold exceptBudget at run
  split at run
  · exact rescue _ a after run
  · exact head budget a after run

theorem dimensionResult_ok {status : ProfileStatus} {blockers evidence : List String}
    {detail : String} {result : DimensionResult}
    (made : dimensionResult status blockers evidence detail = .ok result) :
    result.status = status ∧ result.blockers = sortedSet blockers := by
  rw [dimensionResult, validated_ok] at made
  rw [← made.2]
  exact ⟨rfl, rfl⟩

theorem finding_status {status : ProfileStatus} {blockers : List String}
    {result : DimensionResult} (made : finding status blockers = .ok result) :
    result.status = status := (dimensionResult_ok made).1

theorem verdict_satisfied {blockers evidence : List String} {detail : String}
    {result : DimensionResult} (made : verdict blockers evidence detail = .ok result) :
    result.status = .satisfied ↔ blockers = [] := by
  rw [(dimensionResult_ok made).1]
  split <;> simp [*]

theorem yields_finding {status : ProfileStatus} (other : status ≠ .satisfied)
    (blockers : List String) (P : DimensionResult → Prop) :
    Yields (lift (finding status blockers)) fun result => result.status = .satisfied → P result := by
  refine (yields_lift _).mono fun result made satisfied => ?_
  rw [finding_status made] at satisfied
  exact absurd satisfied other

theorem yields_verdict {blockers evidence : List String} {detail : String} :
    Yields (lift (verdict blockers evidence detail)) fun result =>
      result.status = .satisfied ↔ blockers = [] :=
  (yields_lift _).mono fun _ made => verdict_satisfied made

section audits
variable (h : AuditServices) (snapshot : AnalysisSnapshot) (allObjects : Objects)

/-- The results of the dimensions that are computed from the live objects. -/
structure KernelRun (objects : Objects) (time : DateTime) (table : Dict DimensionResult) :
    Prop where
  structural : ∃ r, table["structural_reachability"]? = some r ∧
    Returns (structural snapshot objects time) r
  formation : ∃ r, table["causal_formation"]? = some r ∧ Returns (formation snapshot objects time) r
  dimensional : ∃ r, table["dimensional_consistency"]? = some r ∧
    Returns (dimensionalConsistency h snapshot objects time) r
  maintenance : ∃ r, table["exact_self_maintenance"]? = some r ∧
    Returns (selfMaintenance h snapshot objects time) r
  persistence : ∃ r, table["finite_horizon_resource_persistence"]? = some r ∧
    Returns (persistence h snapshot objects time) r
  raf : ∃ r, table["target_bound_generative_catalysis"]? = some r ∧
    Returns (raf snapshot objects time) r

/-- The names of the dimensions that the kernel computes with the snapshot's networks. -/
def kernelNames : List Identifier :=
  ["structural_reachability", "causal_formation", "dimensional_consistency",
    "exact_self_maintenance", "finite_horizon_resource_persistence",
    "target_bound_generative_catalysis"]

variable {h snapshot allObjects}

theorem yields_kernelDimensions {objects : Objects} {time : DateTime}
    {first : List (Identifier × DimensionResult)}
    (named : first.map Prod.fst = mandatoryDimensions.take 3) :
    Yields (kernelDimensions h snapshot objects time) fun kernel => ∀ robust,
      KernelRun h snapshot objects time
        (.ofList (first ++ kernel ++ [("perturbation_robustness", robust)])) := by
  refine yields_bind (yields_returns _) fun s structural => ?_
  refine yields_bind (yields_returns _) fun f formation => ?_
  refine yields_bind (yields_returns _) fun d dimensional => ?_
  refine yields_bind (yields_returns _) fun m maintenance => ?_
  refine yields_bind (yields_returns _) fun p persistence => ?_
  refine yields_bind (yields_returns _) fun r raf => ?_
  refine yields_bind (yields_returns _) fun v _ => ?_
  refine yields_bind (yields_returns _) fun i _ => ?_
  refine yields_bind (yields_returns _) fun c _ => ?_
  refine yields_pure fun robust => ?_
  have distinct : ((first ++ [("structural_reachability", s), ("causal_formation", f),
      ("dimensional_consistency", d), ("exact_self_maintenance", m),
      ("finite_horizon_resource_persistence", p), ("target_bound_generative_catalysis", r),
      ("verification_capacity", v), ("effective_independence", i),
      ("coordination_protocol_integrity", c)] ++
      [("perturbation_robustness", robust)]).map Prod.fst).Nodup := by
    rw [List.map_append, List.map_append, named]
    exact show mandatoryDimensions.Nodup by decide
  refine ⟨⟨s, ?_, structural⟩, ⟨f, ?_, formation⟩, ⟨d, ?_, dimensional⟩, ⟨m, ?_, maintenance⟩,
    ⟨p, ?_, persistence⟩, ⟨r, ?_, raf⟩⟩
  all_goals exact Dict.getElem?_ofList distinct (by simp)

theorem uniform_ok {status : ProfileStatus} {blockers : List String} {names : List Identifier}
    {results : List (Identifier × DimensionResult)}
    (made : uniform status blockers names = .ok results) :
    results.map Prod.fst = names ∧ ∀ entry ∈ results, entry.2.status = status := by
  rw [uniform, mapM_ok] at made
  induction made with
  | nil => simp
  | cons head _ ih =>
    simp only [bind_ok, pure_ok] at head
    obtain ⟨result, found, rfl⟩ := head
    refine ⟨by rw [List.map_cons, ih.1], ?_⟩
    rw [List.forall_mem_cons]
    exact ⟨finding_status found, ih.2⟩

def Founded (h : AuditServices) (snapshot : AnalysisSnapshot) (allObjects : Objects)
    (evaluationAt : Option DateTime) (profile : OperationalProfile) : Prop :=
  (∀ name ∈ kernelNames, ∀ r, profile.dimensions[name]? = some r → r.status ≠ .satisfied) ∨
  provenanceReasons h snapshot allObjects = [] ∧ ∃ result time,
    temporal h snapshot (liveObjects h snapshot allObjects) evaluationAt =
      .ok (result, some time) ∧
    KernelRun h snapshot (liveObjects h snapshot allObjects) time profile.dimensions

theorem yields_profileOf {dimensions : List (Identifier × DimensionResult)} :
    Yields (lift (profileOf h snapshot dimensions)) fun profile =>
      profile.dimensions = .ofList dimensions := by
  refine (yields_lift _).mono fun profile made => ?_
  rw [profileOf, validated_ok] at made
  rw [← made.2]

theorem provenance_ok {result : DimensionResult} {objects : Objects}
    (made : provenance h snapshot allObjects = .ok (result, objects)) :
    objects = liveObjects h snapshot allObjects ∧
      (result.status = .satisfied ↔ provenanceReasons h snapshot allObjects = []) := by
  simp only [provenance, bind_ok, pure_ok, Prod.mk.injEq] at made
  obtain ⟨_, found, rfl, rfl⟩ := made
  exact ⟨rfl, verdict_satisfied found⟩

theorem getElem?_liveObjects {digest : Digest} {item : Document} :
    (liveObjects h snapshot allObjects)[digest]? = some item ↔
      digest ∈ snapshotReferences snapshot.spec ∧ allObjects[digest]? = some item ∧
        referenceReasons h snapshot digest item = [] := by
  have entry (digest' : Digest) (found : Digest × Document) :
      (reference h snapshot allObjects digest').2 = some found ↔
        found.1 = digest' ∧ allObjects[digest']? = some found.2 ∧
          referenceReasons h snapshot digest' found.2 = [] := by
    unfold reference
    cases held : allObjects[digest']? with
    | none => simp
    | some item' =>
      dsimp only
      constructor
      · intro kept
        split_ifs at kept with clean
        cases kept
        exact ⟨rfl, rfl, clean⟩
      · rintro ⟨rfl, same, clean⟩
        cases same
        rw [if_pos clean]
  have listed (digest' : Digest) (item' : Document) : (digest', item') ∈
      (snapshotReferences snapshot.spec).filterMap (fun d => (reference h snapshot allObjects d).2) ↔
      digest' ∈ snapshotReferences snapshot.spec ∧ allObjects[digest']? = some item' ∧
        referenceReasons h snapshot digest' item' = [] := by
    rw [List.mem_filterMap]
    constructor
    · rintro ⟨d, member, kept⟩
      obtain ⟨rfl, held, clean⟩ := (entry d _).mp kept
      exact ⟨member, held, clean⟩
    · rintro ⟨member, held, clean⟩
      exact ⟨digest', member, (entry digest' _).mpr ⟨rfl, held, clean⟩⟩
  rw [liveObjects]
  constructor
  · exact fun found => (listed digest item).mp (Dict.mem_of_ofList found)
  · intro held
    refine (Dict.getElem?_ofList_iff fun other member => ?_).mpr ((listed digest item).mpr held)
    have both := ((listed digest other).mp member).2.1.symm.trans held.2.1
    exact Option.some.inj both

theorem unfounded_of_status {entries : List (Identifier × DimensionResult)}
    {status : ProfileStatus} (other : status ≠ .satisfied)
    (each : ∀ entry ∈ entries, entry.1 ∈ kernelNames → entry.2.status = status) :
    ∀ name ∈ kernelNames, ∀ r, (Std.ExtTreeMap.ofList entries : Dict DimensionResult)[name]? =
      some r → r.status ≠ .satisfied := by
  intro name kernel r found
  rw [each _ (Dict.mem_of_ofList found) kernel]
  exact other

theorem yields_auditWith (robustness : Objects → Analysis DimensionResult)
    (evaluationAt : Option DateTime) :
    Yields (auditWith h snapshot allObjects robustness evaluationAt)
      (Founded h snapshot allObjects evaluationAt) := by
  refine yields_exceptBudget ?_ ?_
  · refine yields_bind (yields_lift _) fun checked made => ?_
    obtain ⟨provenance, objects⟩ := checked
    obtain ⟨rfl, sound⟩ := provenance_ok made
    refine yields_bind (yields_lift _) fun timed found => ?_
    obtain ⟨temporal, time⟩ := timed
    refine yields_bind (yields_lift _) fun trust _ => ?_
    have named : [("provenance_integrity", provenance), ("trust_quorum", trust),
        ("temporal_integrity", temporal)].map Prod.fst = mandatoryDimensions.take 3 := rfl
    dsimp only
    split
    · rename_i time satisfied
      refine yields_bind (yields_kernelDimensions named) fun kernel ran => ?_
      refine yields_bind (yields_returns _) fun robust _ => ?_
      refine yields_profileOf.mono fun profile table => .inr ⟨sound.mp satisfied, temporal, time,
        found, ?_⟩
      rw [table]
      exact ran robust
    · refine yields_bind (yields_lift _) fun rest listed => ?_
      refine yields_profileOf.mono fun profile table => .inl ?_
      rw [table]
      have other : ProfileStatus.unknown ≠ .satisfied := by decide
      refine unfounded_of_status other fun entry member kernel => ?_
      cases List.mem_append.mp member with
      | inl early =>
        have outside : ∀ name ∈ mandatoryDimensions.take 3, name ∉ kernelNames := by decide
        exact absurd kernel (outside entry.1 (named ▸ List.mem_map_of_mem early))
      | inr late => exact (uniform_ok listed).2 entry late
  · refine (yields_lift _).mono fun profile made => .inl ?_
    simp only [budgetUnknown, bind_ok, validated_ok] at made
    obtain ⟨results, listed, _, rfl⟩ := made
    have other : ProfileStatus.unknownDueToBudget ≠ .satisfied := by decide
    exact unfounded_of_status other fun entry member _ => (uniform_ok listed).2 entry member

theorem yields_auditSnapshot (includeRobustness : Bool) (evaluationAt : Option DateTime) :
    Yields (auditSnapshot h snapshot allObjects includeRobustness evaluationAt)
      (Founded h snapshot allObjects evaluationAt) := yields_auditWith _ _

end audits

namespace AuditSample

def services : AuditServices where
  document d := d.metadata.objectId
  generation g := g.metadata.objectId
  envelope _ := "envelope"
  digestBytes _ := "bytes"
  canonical _ := none
  schema _ := some "schema"
  base64 _ := .error "base64"
  loads _ := .error "loads"
  payload _ := .error "payload"
  parse _ := .error (.valueError "document")
  derKey _ := .malformed
  spki _ := []
  verifies _ _ _ := false
  registered parsed := by cases parsed
  proposalCommitmentDigest _ _ _ _ := "commitment"

def lifecycle : Lifecycle := ⟨.utc 0, .utc 100, none⟩

def document (id : Identifier) (spec : DocumentSpec) : Document :=
  ⟨⟨"tenant", "workspace", id, .utc 0⟩, ∅, spec⟩

def one : Rational := .ofNat 1

def amounts (entries : List (Identifier × Rational)) : Dict Rational := .ofList entries

def transformation (id : Identifier) (inputs outputs : List (Identifier × Rational)) : Document :=
  document id (.transformation
    ⟨id, amounts inputs, amounts outputs, [], [], true, [], [], lifecycle⟩)

def state (id : Identifier) : Document := document id (.state ⟨id, true, true, lifecycle⟩)

/-- The contract, the policy, the trusted time and the units of some coordinates. -/
def framework (targets : List Identifier) (floors : Dict Rational)
    (coordinates : List Identifier) : List Document :=
  [document "contract" (.phaseContract ⟨targets, floors, mandatoryDimensions, 1⟩),
    document "policy" (.trustPolicy ⟨0, none, "key", [], []⟩),
    document "time" (.trustedTimeReceipt ⟨"author", .utc 10, .utc 20, "nonce"⟩),
    document "registry" (.unitRegistry ⟨.ofList [("unit", (⟨∅, one⟩ : UnitDefinition))],
      .ofList (coordinates.map (·, "unit")), "unit", "unit"⟩)]

def objects (documents : List Document) : Objects :=
  .ofList (documents.map fun d => (d.metadata.objectId, d))

def snapshot (targets : List Identifier) (floors : Dict Rational) (documents : List Document) :
    AnalysisSnapshot :=
  ⟨⟨"tenant", "workspace", "snapshot", .utc 0⟩, ∅,
    ⟨"generation", "snapshot", "contract", "policy", "time", "registry",
      documents.map (·.metadata.objectId), [], targets, floors, 1, mandatoryDimensions⟩⟩

def audited (snapshot : AnalysisSnapshot) (objects : Objects) : Option OperationalProfile :=
  match auditSnapshot services snapshot objects true none unhurried with
  | .ok profile _ => some profile
  | .error _ _ => none

def status (snapshot : AnalysisSnapshot) (objects : Objects) (name : Identifier) :
    Option ProfileStatus :=
  (audited snapshot objects).bind fun profile => (profile.dimensions[name]?).map (·.status)

theorem run_of_status {snapshot : AnalysisSnapshot} {objects : Objects} {name : Identifier}
    {found : ProfileStatus} (reported : status snapshot objects name = some found) :
    ∃ profile after, auditSnapshot services snapshot objects true none unhurried =
      .ok profile after ∧ (profile.dimensions[name]?).map (·.status) = some found := by
  unfold status audited at reported
  cases run : auditSnapshot services snapshot objects true none unhurried with
  | ok profile after =>
    rw [run] at reported
    exact ⟨profile, after, rfl, reported⟩
  | error fault after =>
    rw [run] at reported
    cases reported

end AuditSample

end CollectivePhaseControl
