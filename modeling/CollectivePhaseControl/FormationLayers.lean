import CollectivePhaseControl.PersistenceTrajectories

/-! The layers of causal formation. A transformation is formed in a layer when what is available
before the layer enables it; what the layers form, the closure that reachability is judged by
holds as well. -/
namespace CollectivePhaseControl

section attested
variable (time : DateTime)

def AttestsState (item : Document) (x : Identifier) : Prop :=
  ∃ spec, item.spec = .state spec ∧ spec.lifecycle.live time = .ok true ∧ spec.available = true ∧
    spec.stateId = x

def AttestsStock (item : Document) (x : Identifier) : Prop :=
  ∃ spec, item.spec = .resourceObservation spec ∧ spec.lifecycle.live time = .ok true ∧
    0 < F spec.quantity ∧ spec.coordinate = x

def AttestsEvidence (item : Document) (x : Identifier) : Prop :=
  ∃ spec, item.spec = .evidence spec ∧ spec.lifecycle.live time = .ok true ∧ spec.evidenceId = x

def AttestsAuthority (item : Document) (x : Identifier) : Prop :=
  ∃ spec, item.spec = .authority spec ∧ spec.lifecycle.live time = .ok true ∧ spec.authorityId = x

/-- The sets hold what they held before and what the documents attest. -/
structure AvailableSets.Booked (items : List Document) (sets after : AvailableSets) : Prop where
  available : ∀ x, x ∈ after.available ↔ x ∈ sets.available ∨ ∃ item ∈ items,
    AttestsState time item x ∨ AttestsStock time item x ∨ AttestsEvidence time item x ∨
      AttestsAuthority time item x
  evidence : ∀ x, x ∈ after.evidence ↔ x ∈ sets.evidence ∨ ∃ item ∈ items,
    AttestsEvidence time item x
  authority : ∀ x, x ∈ after.authority ↔ x ∈ sets.authority ∨ ∃ item ∈ items,
    AttestsAuthority time item x

variable {time}

theorem yields_book (sets : AvailableSets) (item : Document) :
    Yields (sets.book time item) (AvailableSets.Booked time [item] sets) := by
  unfold AvailableSets.book
  split
  · rename_i spec found
    refine yields_bind (yields_lift _) fun live judged => yields_pure ?_
    constructor <;> simp only [AttestsState, AttestsStock, AttestsEvidence, AttestsAuthority,
      List.mem_singleton, exists_eq_left, found] <;> split_ifs <;> grind
  · rename_i spec found
    refine yields_bind (yields_lift _) fun live judged => ?_
    split
    · rename_i current
      refine yields_bind (yields_rational _) fun quantity parsed => yields_pure ?_
      constructor <;> simp only [AttestsState, AttestsStock, AttestsEvidence, AttestsAuthority,
        List.mem_singleton, exists_eq_left, found, parsed] <;> split_ifs <;> grind
    · refine yields_pure ?_
      constructor <;> simp only [AttestsState, AttestsStock, AttestsEvidence, AttestsAuthority,
        List.mem_singleton, exists_eq_left, found] <;> grind
  · rename_i spec found
    refine yields_bind (yields_lift _) fun live judged => yields_pure ?_
    constructor <;> simp only [AttestsState, AttestsStock, AttestsEvidence, AttestsAuthority,
      List.mem_singleton, exists_eq_left, found] <;> split_ifs <;> grind
  · rename_i spec found
    refine yields_bind (yields_lift _) fun live judged => yields_pure ?_
    constructor <;> simp only [AttestsState, AttestsStock, AttestsEvidence, AttestsAuthority,
      List.mem_singleton, exists_eq_left, found] <;> split_ifs <;> grind
  · refine yields_pure ?_
    constructor <;> simp only [AttestsState, AttestsStock, AttestsEvidence, AttestsAuthority,
      List.mem_singleton, exists_eq_left] <;> grind

theorem yields_bookAll (items : List Document) (sets : AvailableSets) :
    Yields (items.foldlM (AvailableSets.book time) sets)
      (AvailableSets.Booked time items sets) := by
  induction items generalizing sets with
  | nil => exact yields_pure ⟨by simp, by simp, by simp⟩
  | cons item items ih =>
    rw [List.foldlM_cons]
    refine yields_bind (yields_book sets item) fun middle first => ?_
    refine (ih middle).mono fun after rest => ⟨fun x => ?_, fun x => ?_, fun x => ?_⟩
    · simp only [rest.available, first.available, List.mem_cons, List.not_mem_nil, or_false,
        exists_eq_or_imp, exists_eq_left, or_assoc]
    · simp only [rest.evidence, first.evidence, List.mem_cons, List.not_mem_nil, or_false,
        exists_eq_or_imp, exists_eq_left, or_assoc]
    · simp only [rest.authority, first.authority, List.mem_cons, List.not_mem_nil, or_false,
        exists_eq_or_imp, exists_eq_left, or_assoc]

theorem yields_attested {objects : Objects} :
    Yields (availableSets objects time) (AvailableSets.Booked time objects.values ⟨∅, ∅, ∅, ∅⟩) :=
  yields_bookAll _ _

end attested

section layers
variable (sets : AvailableSets)

/-- What enables a transformation, of what is at hand and of what is attested. -/
structure Enabled (t : TransformationAttestation) (atHand : Identifier → Prop) : Prop where
  inputs : ∀ x ∈ t.spec.inputs, atHand x
  catalysts : t.spec.uncatalyzed = true ∨ ∃ clause ∈ t.spec.catalystClauses, ∀ x ∈ clause, atHand x
  evidence : ∀ x ∈ t.spec.requiredEvidence, x ∈ sets.evidence
  authority : ∀ x ∈ t.spec.requiredAuthority, x ∈ sets.authority
  inhibitors : ∀ x ∈ t.spec.inhibitors, ¬ atHand x

def enabledAmong (available : Finset Identifier)
    (remaining : List (Identifier × TransformationAttestation)) :
    List (Identifier × TransformationAttestation) :=
  remaining.filter fun item => (listedFlows item.2).premises ⊆ available ∧
    licensed item.2.spec available sets.evidence sets.authority = true

def formed (available : Finset Identifier)
    (layer : List (Identifier × TransformationAttestation)) : Finset Identifier :=
  layer.foldl (fun available item => available ∪ (listedFlows item.2).conclusions) available

def layersFrom : ℕ → Finset Identifier → List (Identifier × TransformationAttestation) →
    List (List (Identifier × TransformationAttestation))
  | 0, _, _ => []
  | n + 1, available, remaining =>
    match enabledAmong sets available remaining with
    | [] => []
    | first :: others => (first :: others) :: layersFrom n (formed available (first :: others))
        (remaining.filter fun item => item.1 ∉ (first :: others).map Prod.fst)

variable {sets} {available : Finset Identifier}
  {remaining layer : List (Identifier × TransformationAttestation)}

theorem enabled_iff {t : TransformationAttestation} :
    Enabled sets t (· ∈ available) ↔ (listedFlows t).premises ⊆ available ∧
      licensed t.spec available sets.evidence sets.authority = true := by
  simp only [licensed, catalysed, Bool.and_eq_true, List.all_eq_true, decide_eq_true_eq,
    Bool.or_eq_true, List.any_eq_true]
  constructor
  · intro enabled
    refine ⟨fun x premise => ?_, ⟨⟨enabled.inhibitors, enabled.evidence⟩, enabled.authority⟩,
      enabled.catalysts⟩
    exact enabled.inputs x (Std.ExtTreeMap.mem_keys.mp (List.mem_toFinset.mp premise))
  · rintro ⟨inputs, ⟨⟨inhibitors, evidence⟩, authority⟩, catalysts⟩
    refine ⟨fun x input => inputs ?_, catalysts, evidence, authority, inhibitors⟩
    exact List.mem_toFinset.mpr (Std.ExtTreeMap.mem_keys.mpr input)

theorem mem_formed {x : Identifier} :
    x ∈ formed available layer ↔ x ∈ available ∨ ∃ item ∈ layer, x ∈ item.2.spec.outputs := by
  unfold formed
  induction layer generalizing available with
  | nil => simp
  | cons item layer ih =>
    have output : x ∈ (listedFlows item.2).conclusions ↔ x ∈ item.2.spec.outputs :=
      List.mem_toFinset.trans Std.ExtTreeMap.mem_keys
    rw [List.foldl_cons, ih, Finset.mem_union, or_assoc, output]
    simp

theorem yields_formationLayer :
    Yields (formationLayer sets available remaining)
      (· = enabledAmong sets available remaining) := by
  have pass := yields_foldlM_keep (fun item : Identifier × TransformationAttestation =>
    (listedFlows item.2).premises ⊆ available ∧
      licensed item.2.spec available sets.evidence sets.authority = true) 1 remaining []
  exact pass.mono fun enabled same => same.trans (List.nil_append _)

theorem layersFrom_of_nil {n : ℕ} (idle : enabledAmong sets available remaining = []) :
    layersFrom sets n available remaining = [] := by
  cases n with
  | zero => rfl
  | succ n => rw [layersFrom, idle]

theorem layersFrom_of_ne {n : ℕ} (busy : enabledAmong sets available remaining ≠ []) :
    layersFrom sets (n + 1) available remaining = enabledAmong sets available remaining ::
      layersFrom sets n (formed available (enabledAmong sets available remaining))
        (remaining.filter fun item =>
          item.1 ∉ (enabledAmong sets available remaining).map Prod.fst) := by
  rw [layersFrom]
  cases found : enabledAmong sets available remaining with
  | nil => exact absurd found busy
  | cons first others => rfl

theorem yields_formationLayers (n : ℕ) : ∀ (layers : ℕ) (available : Finset Identifier)
    (remaining : List (Identifier × TransformationAttestation)),
    Yields (formationLayers sets n layers available remaining) fun r =>
      r.1 = (layersFrom sets n available remaining).foldl formed available := by
  induction n with
  | zero => exact fun _ _ _ => yields_throw _
  | succ n ih =>
    intro layers available remaining
    rw [formationLayers]
    by_cases done : remaining = []
    · rw [if_pos done]
      refine yields_pure ?_
      rw [layersFrom_of_nil (by rw [done]; rfl), List.foldl_nil]
    · rw [if_neg done]
      refine yields_bind yields_formationLayer fun enabled same => ?_
      rw [same]
      by_cases idle : enabledAmong sets available remaining = []
      · rw [if_pos idle]
        refine yields_pure ?_
        rw [layersFrom_of_nil idle, List.foldl_nil]
      · rw [if_neg idle]
        split
        · exact yields_throw _
        · refine (ih _ _ _).mono fun r later => ?_
          rw [layersFrom_of_ne idle, List.foldl_cons]
          exact later

/-- At hand before a layer: what is available and what earlier layers put out. -/
def AtHand (available : Finset Identifier)
    (earlier : List (List (Identifier × TransformationAttestation))) (x : Identifier) : Prop :=
  x ∈ available ∨ ∃ item ∈ earlier.flatten, x ∈ item.2.spec.outputs

theorem atHand_formed {earlier : List (List (Identifier × TransformationAttestation))} :
    AtHand (formed available layer) earlier = AtHand available (layer :: earlier) := by
  funext x
  refine propext ?_
  simp only [AtHand, mem_formed, List.flatten_cons, List.mem_append]
  grind

theorem mem_foldl_formed {layers : List (List (Identifier × TransformationAttestation))}
    {x : Identifier} : x ∈ layers.foldl formed available ↔ AtHand available layers x := by
  induction layers generalizing available with
  | nil => simp [AtHand]
  | cons layer layers ih => rw [List.foldl_cons, ih, atHand_formed]

theorem layersFrom_enabled {n : ℕ}
    {earlier later : List (List (Identifier × TransformationAttestation))}
    (split : layersFrom sets n available remaining = earlier ++ layer :: later) :
    ∀ item ∈ layer, item ∈ remaining ∧ Enabled sets item.2 (AtHand available earlier) := by
  induction n generalizing available remaining earlier with
  | zero => simp [layersFrom] at split
  | succ n ih =>
    by_cases idle : enabledAmong sets available remaining = []
    · rw [layersFrom_of_nil idle] at split
      simp at split
    · rw [layersFrom_of_ne idle] at split
      intro item member
      cases earlier with
      | nil =>
        rw [List.nil_append, List.cons.injEq] at split
        rw [← split.1, enabledAmong, List.mem_filter, decide_eq_true_eq] at member
        have start : AtHand available [] = (· ∈ available) := by
          funext x
          simp [AtHand]
        rw [start]
        exact ⟨member.1, enabled_iff.mpr member.2⟩
      | cons head earlier =>
        rw [List.cons_append, List.cons.injEq] at split
        obtain ⟨rfl, split⟩ := split
        rw [← atHand_formed]
        obtain ⟨kept, enabled⟩ := ih split item member
        exact ⟨(List.mem_filter.mp kept).1, enabled⟩

theorem layersFrom_once {n : ℕ} (distinct : (remaining.map Prod.fst).Nodup) :
    ((layersFrom sets n available remaining).flatten.map Prod.fst).Nodup := by
  induction n generalizing available remaining with
  | zero => exact List.nodup_nil
  | succ n ih =>
    by_cases idle : enabledAmong sets available remaining = []
    · rw [layersFrom_of_nil idle]
      exact List.nodup_nil
    · rw [layersFrom_of_ne idle, List.flatten_cons, List.map_append, List.nodup_append]
      refine ⟨distinct.sublist (List.filter_sublist.map _),
        ih (distinct.sublist (List.filter_sublist.map _)), ?_⟩
      rintro id first other second rfl
      obtain ⟨item, member, rfl⟩ := List.mem_map.mp second
      obtain ⟨layer, listed, inside⟩ := List.mem_flatten.mp member
      obtain ⟨earlier, later, split⟩ := List.append_of_mem listed
      have kept := (layersFrom_enabled split item inside).1
      rw [List.mem_filter, decide_eq_true_eq] at kept
      exact kept.2 first

theorem layersFrom_reached {network : Network} {base : Finset Identifier} {n : ℕ}
    (listed : ∀ item ∈ remaining, network[item.1]? = some item.2)
    (start : ∀ x ∈ available, Reached listedFlows network base x) {x : Identifier}
    (atHand : AtHand available (layersFrom sets n available remaining) x) :
    Reached listedFlows network base x := by
  induction n generalizing available remaining with
  | zero =>
    obtain now | ⟨item, member, -⟩ := atHand
    · exact start x now
    · cases member
  | succ n ih =>
    by_cases idle : enabledAmong sets available remaining = []
    · rw [layersFrom_of_nil idle] at atHand
      obtain now | ⟨item, member, -⟩ := atHand
      · exact start x now
      · cases member
    · rw [layersFrom_of_ne idle, ← atHand_formed] at atHand
      refine ih (fun item member => listed item (List.mem_filter.mp member).1) ?_ atHand
      intro y known
      obtain old | ⟨item, member, output⟩ := mem_formed.mp known
      · exact start y old
      · rw [enabledAmong, List.mem_filter, decide_eq_true_eq] at member
        refine .fire (List.mem_map_of_mem (Dict.mem_values.mpr ⟨item.1, listed item member.1⟩)) ?_
          (List.mem_toFinset.mpr (Std.ExtTreeMap.mem_keys.mpr output))
        exact fun z premise => start z (member.2.1 premise)

end layers

structure Formation (objects : Objects) (time : DateTime) (organization : OrganizationSpec)
    (targets : List Identifier) (sets : AvailableSets) (network : Network)
    (layers : List (List (Identifier × TransformationAttestation))) : Prop where
  attested : AvailableSets.Booked time objects.values ⟨∅, ∅, ∅, ∅⟩ sets
  /-- What is formed is live and part of the organization, and it is formed once. -/
  organized : ∀ item ∈ layers.flatten, network[item.1]? = some item.2 ∧
    item.1 ∈ organization.transformationIds
  once : (layers.flatten.map Prod.fst).Nodup
  /-- It is enabled by what the layers before its own leave at hand. -/
  derived : ∀ earlier layer later, layers = earlier ++ layer :: later →
    ∀ item ∈ layer, Enabled sets item.2 (AtHand sets.available earlier)
  targets : ∀ target ∈ targets, AtHand sets.available layers target

section refinement
variable {snapshot : AnalysisSnapshot} {objects : Objects} {time : DateTime}

theorem yields_formation : Yields (formation snapshot objects time) fun result =>
    result.status = .satisfied → ∃ witness sets network,
      organizationWitness snapshot objects = some witness ∧
      Returns (availableSets objects time) sets ∧ Returns (transformations objects time) network ∧
      Formation objects time witness.2 snapshot.spec.targetIds sets network
        (layersFrom sets ((witnessed witness.2 network).1.length + 1) sets.available
          (witnessed witness.2 network).1) := by
  unfold formation
  split
  · exact yields_finding (by decide) _ _
  · rename_i witness found
    refine yields_bind (yields_returns _) fun sets read => ?_
    refine yields_bind (yields_returns _) fun network listed => ?_
    dsimp only
    split
    · exact yields_finding (by decide) _ _
    · refine yields_bind (yields_formationLayers _ _ _ _) fun r formed => ?_
      refine yields_verdict.mono fun result status satisfied => ?_
      have clean := (List.append_eq_nil_iff.mp (status.mp satisfied)).1
      rw [List.map_eq_nil_iff, missingTargets_eq_nil, formed] at clean
      have present : ∀ item ∈ (witnessed witness.2 network).1, network[item.1]? = some item.2 ∧
          item.1 ∈ witness.2.transformationIds := by
        intro item member
        rw [witnessed, List.mem_filter, decide_eq_true_eq] at member
        exact ⟨Std.ExtTreeMap.mem_toList_iff_getElem?_eq_some.mp member.1, member.2⟩
      refine ⟨witness, sets, network, found, read, listed, yields_attested.returned read, ?_, ?_,
        ?_, fun target member => mem_foldl_formed.mp (clean target member)⟩
      · intro item member
        obtain ⟨layer, inside, own⟩ := List.mem_flatten.mp member
        obtain ⟨earlier, later, split⟩ := List.append_of_mem inside
        exact present item (layersFrom_enabled split item own).1
      · refine layersFrom_once ?_
        exact (Dict.nodup_toList network).sublist (List.filter_sublist.map _)
      · exact fun earlier layer later split item own => (layersFrom_enabled split item own).2

/-- A snapshot whose targets are causally formed is structurally reachable, and the layers show
how each transformation of the organization came about. -/
theorem formation_refines (snapshot : AnalysisSnapshot) (objects : Objects) (time : DateTime)
    (result : DimensionResult) (formed : Returns (formation snapshot objects time) result)
    (satisfied : result.status = .satisfied) :
    (∀ reachability, Returns (structural snapshot objects time) reachability →
      reachability.status = .satisfied) ∧
    ∃ witness sets network, organizationWitness snapshot objects = some witness ∧
      Returns (availableSets objects time) sets ∧ Returns (transformations objects time) network ∧
      Formation objects time witness.2 snapshot.spec.targetIds sets network
        (layersFrom sets ((witnessed witness.2 network).1.length + 1) sets.available
          (witnessed witness.2 network).1) := by
  obtain ⟨witness, sets, network, found, read, listed, formation⟩ :=
    yields_formation.returned formed satisfied
  refine ⟨fun reachability judged => ?_, witness, sets, network, found, read, listed, formation⟩
  refine ((yields_structural read listed).returned judged).mpr fun target member => ?_
  refine layersFrom_reached (fun item present => ?_) (fun x here => .base here)
    (formation.targets target member)
  rw [witnessed, List.mem_filter] at present
  exact Std.ExtTreeMap.mem_toList_iff_getElem?_eq_some.mp present.1

theorem audit_formation_refines (h : AuditServices) (allObjects : Objects)
    (includeRobustness : Bool) (evaluationAt : Option DateTime) :
    Yields (auditSnapshot h snapshot allObjects includeRobustness evaluationAt) fun profile =>
      (profile.dimensions["causal_formation"]?).map (·.status) = some .satisfied →
        (profile.dimensions["structural_reachability"]?).map (·.status) = some .satisfied := by
  refine (yields_auditSnapshot includeRobustness evaluationAt).mono
    fun profile founded reported => ?_
  obtain ⟨r, entry, satisfied⟩ := Option.map_eq_some_iff.mp reported
  obtain unfounded | ⟨-, -, time, -, run⟩ := founded
  · exact absurd satisfied (unfounded _ (by decide) r entry)
  · obtain ⟨r', entry', formed⟩ := run.formation
    obtain ⟨s, reachability, judged⟩ := run.structural
    rw [entry] at entry'
    cases entry'
    rw [reachability]
    exact congrArg some ((formation_refines _ _ _ r formed satisfied).1 s judged)

end refinement

namespace FormationSample
open AuditSample AgreementSample

def steps : List Document :=
  [transformation "first" [("a", one)] [("b", one)],
    document "second" (.transformation ⟨"second", amounts [("b", one)], amounts [("c", one)],
      [["a"]], ["c"], false, [], ["key"], lifecycle⟩),
    state "a", document "key" (.authority ⟨"key", lifecycle⟩),
    document "witness" (.organizationWitness
      ⟨"snapshot", ["c"], ["first", "second"], .ofList [("first", one), ("second", one)]⟩)]

def formedSnapshot : AnalysisSnapshot := snapshot ["c"] ∅ steps

end FormationSample

open AuditSample AgreementSample FormationSample in
theorem formation_refines_sample : ∃ reachability,
    Returns (structural formedSnapshot (objects steps) (.utc 10)) reachability ∧
      reachability.status = .satisfied := by
  obtain ⟨result, formed, satisfied⟩ := @returns_of_found _ _
    (formation formedSnapshot (objects steps) (.utc 10)) (·.status) .satisfied (by decide +kernel)
  obtain ⟨reachability, judged, -⟩ := @returns_of_found _ _
    (structural formedSnapshot (objects steps) (.utc 10)) (fun _ => ()) () (by decide +kernel)
  exact ⟨reachability, judged,
    (formation_refines _ _ _ result formed satisfied).1 reachability judged⟩

end CollectivePhaseControl
