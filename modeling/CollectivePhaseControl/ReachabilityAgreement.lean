import CollectivePhaseControl.GenerativeSets
import CollectivePhaseControl.Stoichiometry

/-! Whether the audit and the structural analyses agree about what is reachable. The audit
follows the coordinates that a transformation lists, the analyses those with a positive
coefficient. -/
namespace CollectivePhaseControl

/-- A closure that follows only what both readings follow. -/
def strictFlows (transformation : TransformationAttestation) : Horn.Rule Identifier :=
  ⟨(listedFlows transformation).premises, (flows transformation).conclusions⟩

def generousFlows (transformation : TransformationAttestation) : Horn.Rule Identifier :=
  ⟨(flows transformation).premises, (listedFlows transformation).conclusions⟩

section reached
variable (reading reading' : TransformationAttestation → Horn.Rule Identifier)
  (network : Network) (base : Finset Identifier)

def Reached (x : Identifier) : Prop :=
  Horn.Derivable {r | r ∈ network.values.map reading} ↑base x

variable {reading reading' network base}

theorem positive_subset (m : Dict Rational) : positive m ⊆ m.keys.toFinset := by
  intro coordinate member
  obtain ⟨value, found, -⟩ := mem_positive.mp member
  simp only [List.mem_toFinset, Std.ExtTreeMap.mem_keys]
  exact Std.ExtTreeMap.mem_iff_isSome_getElem?.mpr (by simp_all)

theorem Reached.mono {x : Identifier} (reached : Reached reading network base x)
    (less : ∀ t, (reading' t).premises ⊆ (reading t).premises)
    (more : ∀ t, (reading t).conclusions ⊆ (reading' t).conclusions) :
    Reached reading' network base x := by
  refine Horn.Derivable.follow reached (Set.Subset.refl _) ?_
  intro r member premises y conclusion
  obtain ⟨t, listed, rfl⟩ := List.mem_map.mp member
  exact .fire (List.mem_map_of_mem listed) (fun z asked => premises z (less t asked))
    (more t conclusion)

theorem reached_congr (same : ∀ t ∈ network.values, reading t = reading' t) :
    Reached reading network base = Reached reading' network base := by
  unfold Reached
  rw [List.map_congr_left same]

end reached

section analyses
variable {snapshot : AnalysisSnapshot} {objects : Objects} {time : DateTime}
  {sets : AvailableSets} {network : Network}

theorem AvailableSets.steady_book (time : DateTime) (sets : AvailableSets) (item : Document) :
    Steady (AvailableSets.book time sets item) := by
  unfold AvailableSets.book
  split
  · exact (steady_lift _).bind fun live => steady_pure _
  · refine (steady_lift _).bind fun live => ?_
    split
    · exact (steady_rational _).bind fun quantity => steady_pure _
    · exact steady_pure _
  · exact (steady_lift _).bind fun live => steady_pure _
  · exact (steady_lift _).bind fun live => steady_pure _
  · exact steady_pure _

theorem steady_availableSets : Steady (availableSets objects time) :=
  steady_foldlM (AvailableSets.steady_book time) _ _

theorem steady_transformations : Steady (transformations objects time) :=
  (steady_lift _).bind fun _ => steady_pure _

theorem AvailableSets.yields_book (time : DateTime) {sets : AvailableSets}
    (holds : sets.food ⊆ sets.available) (item : Document) :
    Yields (AvailableSets.book time sets item) fun sets => sets.food ⊆ sets.available := by
  unfold AvailableSets.book
  split
  · refine yields_bind (yields_lift _) fun live _ => yields_pure ?_
    split_ifs <;> grind
  · refine yields_bind (yields_lift _) fun live _ => ?_
    split
    · refine yields_bind (yields_rational _) fun quantity _ => yields_pure ?_
      split_ifs <;> grind
    · exact yields_pure holds
  · refine yields_bind (yields_lift _) fun live _ => yields_pure ?_
    split_ifs <;> grind
  · refine yields_bind (yields_lift _) fun live _ => yields_pure ?_
    split_ifs <;> grind
  · exact yields_pure holds

theorem yields_availableSets :
    Yields (availableSets objects time) fun sets => sets.food ⊆ sets.available :=
  yields_foldlM (fun sets : AvailableSets => sets.food ⊆ sets.available)
    (fun _ holds item _ => AvailableSets.yields_book time holds item)
    (Finset.Subset.refl (∅ : Finset Identifier))

theorem missingTargets_eq_nil {available : Finset Identifier} :
    missingTargets snapshot available = [] ↔ ∀ x ∈ snapshot.spec.targetIds, x ∈ available := by
  unfold missingTargets
  rw [← List.length_eq_zero_iff, List.length_mergeSort, List.length_eq_zero_iff,
    List.dedup_eq_nil, List.filter_eq_nil_iff]
  simp

theorem rules_eq (network : Network) (reading : TransformationAttestation → Horn.Rule Identifier) :
    network.toList.map (fun p => reading p.2) = network.values.map reading := by
  rw [Dict.values, List.map_map]
  rfl

theorem yields_auditClosure : Yields (auditClosure objects time) fun closure => ∃ sets network,
    Returns (availableSets objects time) sets ∧ Returns (transformations objects time) network ∧
    ∀ x, x ∈ closure ↔ Reached listedFlows network sets.available x := by
  refine yields_bind (yields_returns _) fun sets read => ?_
  refine yields_bind (yields_returns _) fun network listed => ?_
  rw [rules_eq]
  exact (yields_closureOf _ _).mono fun closure reached => ⟨sets, network, read, listed, reached⟩

theorem yields_structural (read : Returns (availableSets objects time) sets)
    (listed : Returns (transformations objects time) network) :
    Yields (structural snapshot objects time) fun result => result.status = .satisfied ↔
      ∀ x ∈ snapshot.spec.targetIds, Reached listedFlows network sets.available x := by
  unfold structural
  refine yields_bind yields_auditClosure fun closure found => ?_
  obtain ⟨sets', network', read', listed', reached⟩ := found
  cases steady_availableSets _ _ read read'
  cases steady_transformations _ _ listed listed'
  refine yields_verdict.mono fun result status => ?_
  rw [status, List.map_eq_nil_iff, missingTargets_eq_nil]
  exact forall₂_congr fun x _ => reached x

theorem reachedBy_keys {initial : Finset Identifier} {x : Identifier} :
    ReachedBy network network.keys.toFinset initial x ↔ Reached flows network initial x := by
  rw [reachedBy_all, Reached]
  congr! 1
  ext r
  simp [flowRules]

theorem yields_closure (initial : Finset Identifier) :
    Yields (structuralClosure initial network fun _ => true) fun closure =>
      ∀ x, x ∈ closure ↔ Reached flows network initial x := by
  have all : ∀ id ∈ network, ((fun _ => true) id = true ↔ id ∈ network.keys.toFinset) :=
    fun id member => by simpa using member
  exact (yields_structuralClosure all).mono fun closure reached x =>
    (reached x).trans reachedBy_keys

theorem ExactFamily.nil_mem {ordered : List Identifier} {P : Finset Identifier → Prop}
    {result : EnumerationResult} (found : ExactFamily ordered P result) :
    [] ∈ result.values ↔ P ∅ := by
  rw [found.values]
  constructor
  · rintro ⟨s, minimal, same⟩
    obtain ⟨within, holds⟩ := MinimalSets.prop_of_minimals minimal
    have empty := toFinset_filter within
    rw [← same, List.toFinset_nil] at empty
    rwa [empty]
  · intro holds
    exact ⟨∅, ⟨⟨Finset.empty_subset _, holds⟩, fun _ _ _ => Finset.empty_subset _⟩, by simp⟩

/-- The empty cut is returned exactly of a network that is small enough to be cut and does not
reach the targets. -/
theorem yields_emptyCut {initial : Finset Identifier} {targets : List Identifier} :
    Yields (enumerateMinimalCutSets initial targets network) fun cuts => [] ∈ cuts.values ↔
      network.size ≤ maximumTransformations ∧ ¬ ∀ x ∈ targets, Reached flows network initial x := by
  by_cases few : network.size ≤ maximumTransformations
  · refine (decides_iff.mp (decides_enumerateMinimalCutSets few)).1.mono fun cuts found => ?_
    rw [found.nil_mem, Cuts, Finset.sdiff_empty, Enables]
    simp only [reachedBy_keys, few, true_and]
  · have length : network.keys.length = network.size := Std.ExtTreeMap.length_keys
    unfold enumerateMinimalCutSets
    dsimp only
    rw [if_pos (by omega)]
    exact yields_pure (by simp [few])

theorem ofList_getElem? {entries : List (Identifier × TransformationAttestation)}
    (listed : ∀ item ∈ entries, network[item.1]? = some item.2) {id : Identifier}
    {t : TransformationAttestation} (found : (Std.ExtTreeMap.ofList entries : Network)[id]? = some t) :
    network[id]? = some t := listed (id, t) (Dict.mem_of_ofList found)

theorem yields_exactRaf {food evidence authority available : Finset Identifier}
    {present : List (Identifier × TransformationAttestation)}
    (listed : ∀ item ∈ present, network[item.1]? = some item.2) (fed : food ⊆ available) :
    Yields (exactGeneralizedGenerativeRaf (.ofList present) food evidence authority)
      fun analysis => analysis.exhaustive = true → ∀ x ∈ analysis.generativeClosure,
        Reached flows network available x := by
  unfold exactGeneralizedGenerativeRaf
  dsimp only
  split
  · exact yields_pure fun whole => absurd whole (by simp)
  · refine yields_bind (yields_trivial _) fun valid _ => ?_
    refine yields_bind (yields_generativeLayers _ _ _) fun r layered => yields_pure ?_
    intro _ x member
    have entries : ∀ item ∈ (Std.ExtTreeMap.ofList present : Network).toList,
        (Std.ExtTreeMap.ofList present : Network)[item.1]? = some item.2 :=
      fun item member => Std.ExtTreeMap.mem_toList_iff_getElem?_eq_some.mp member
    refine Horn.Derivable.mono ((layered.closure entries).mp member) ?_ ?_
    · rintro rule ⟨id, -, t, found, rfl⟩
      exact List.mem_map_of_mem (Dict.mem_values.mpr ⟨id, ofList_getElem? listed found⟩)
    · exact Finset.coe_subset.mpr fed

theorem yields_raf (read : Returns (availableSets objects time) sets)
    (listed : Returns (transformations objects time) network) :
    Yields (raf snapshot objects time) fun result => result.status = .satisfied →
      ∀ x ∈ snapshot.spec.targetIds, Reached flows network sets.available x := by
  unfold raf
  split
  · exact yields_finding (by decide) _ _
  · rename_i witness found
    refine yields_bind (yields_returns _) fun sets' read' => ?_
    refine yields_bind (yields_returns _) fun network' listed' => ?_
    cases steady_availableSets _ _ read read'
    cases steady_transformations _ _ listed listed'
    have fed := yields_availableSets.returned read
    dsimp only
    have present : ∀ item ∈ (witnessed witness network).1, network[item.1]? = some item.2 := by
      intro item member
      exact Std.ExtTreeMap.mem_toList_iff_getElem?_eq_some.mp (List.mem_filter.mp member).1
    refine yields_bind (yields_exactRaf present fed) fun analysis generated => ?_
    split
    · exact yields_finding (by decide) _ _
    · rename_i exhaustive
      refine yields_verdict.mono fun result status satisfied => ?_
      have clean := (List.append_eq_nil_iff.mp (status.mp satisfied)).2
      simp only [rafBlockers, List.append_eq_nil_iff, List.map_eq_nil_iff,
        missingTargets_eq_nil] at clean
      exact fun x target => generated (by simpa using exhaustive) x (clean.1.1.2 x target)

end analyses

/-- What the audit and the analyses say of a snapshot's targets at a time. -/
structure Diagnosis (snapshot : AnalysisSnapshot) (objects : Objects) (time : DateTime) where
  sets : AvailableSets
  network : Network
  closure : Finset Identifier
  cuts : EnumerationResult
  reachability : DimensionResult
  catalysis : DimensionResult
  read : Returns (availableSets objects time) sets
  listed : Returns (transformations objects time) network
  closed : Returns (structuralClosure sets.available network fun _ => true) closure
  cut : Returns (enumerateMinimalCutSets sets.available snapshot.spec.targetIds network) cuts
  judged : Returns (structural snapshot objects time) reachability
  catalysed : Returns (raf snapshot objects time) catalysis

namespace Diagnosis
variable {snapshot : AnalysisSnapshot} {objects : Objects} {time : DateTime}
  (d : Diagnosis snapshot objects time)

def Targeted (reading : TransformationAttestation → Horn.Rule Identifier) : Prop :=
  ∀ x ∈ snapshot.spec.targetIds, Reached reading d.network d.sets.available x

structure Agrees : Prop where
  closure : d.reachability.status = .satisfied ↔ ∀ x ∈ snapshot.spec.targetIds, x ∈ d.closure
  cuts : d.reachability.status = .satisfied ↔ [] ∉ d.cuts.values
  catalysis : d.catalysis.status = .satisfied → d.reachability.status = .satisfied

/-- No coefficient that is not positive decides about a target, and a network too large for
cuts reaches all of them. -/
def Settled : Prop :=
  (d.Targeted strictFlows ∨ ¬ d.Targeted generousFlows) ∧
    (d.network.size ≤ maximumTransformations ∨ d.Targeted strictFlows)

/-- Only inputs are listed with other coefficients than positive ones, or only outputs. -/
def OneSided : Prop :=
  (∀ t ∈ d.network.values, (listedFlows t).premises = (flows t).premises) ∨
    ∀ t ∈ d.network.values, (listedFlows t).conclusions = (flows t).conclusions

variable {d}

theorem satisfied_iff : d.reachability.status = .satisfied ↔ d.Targeted listedFlows :=
  (yields_structural d.read d.listed).returned d.judged

theorem closure_iff : (∀ x ∈ snapshot.spec.targetIds, x ∈ d.closure) ↔ d.Targeted flows :=
  forall₂_congr fun x _ => (yields_closure d.sets.available).returned d.closed x

theorem cuts_iff : [] ∉ d.cuts.values ↔
    (d.network.size ≤ maximumTransformations → d.Targeted flows) := by
  rw [yields_emptyCut.returned d.cut, not_and, not_not]
  rfl

theorem Targeted.mono {reading reading' : TransformationAttestation → Horn.Rule Identifier}
    (targeted : d.Targeted reading) (less : ∀ t, (reading' t).premises ⊆ (reading t).premises)
    (more : ∀ t, (reading t).conclusions ⊆ (reading' t).conclusions) : d.Targeted reading' :=
  fun x target => (targeted x target).mono less more

/-- The audit agrees with the analyses when the two readings of the network do and the network
can be cut or is reached. -/
theorem agrees_iff : d.Agrees ↔ (d.Targeted listedFlows ↔ d.Targeted flows) ∧
    (d.network.size ≤ maximumTransformations ∨ d.Targeted flows) := by
  constructor
  · rintro ⟨closure, cuts, -⟩
    rw [satisfied_iff, closure_iff] at closure
    rw [satisfied_iff, cuts_iff] at cuts
    refine ⟨closure, ?_⟩
    by_contra neither
    push Not at neither
    have reached := cuts.mpr fun few => absurd few (by omega)
    exact neither.2 (closure.mp reached)
  · rintro ⟨same, small⟩
    refine ⟨by rw [satisfied_iff, closure_iff, same], ?_, fun generated => ?_⟩
    · rw [satisfied_iff, cuts_iff, same]
      constructor
      · exact fun reached _ => reached
      · intro reached
        cases small with
        | inl few => exact reached few
        | inr reached => exact reached
    · rw [satisfied_iff, same]
      exact (yields_raf d.read d.listed).returned d.catalysed generated

theorem strict_of_flows (inputs : ∀ t ∈ d.network.values,
    (listedFlows t).premises = (flows t).premises) :
    (d.Targeted flows ↔ d.Targeted strictFlows) ∧
      (d.Targeted listedFlows ↔ d.Targeted generousFlows) := by
  have first : Reached flows d.network d.sets.available =
      Reached strictFlows d.network d.sets.available := by
    refine reached_congr fun t member => ?_
    rw [strictFlows, inputs t member]
  have second : Reached listedFlows d.network d.sets.available =
      Reached generousFlows d.network d.sets.available := by
    refine reached_congr fun t member => ?_
    rw [generousFlows, ← inputs t member]
  exact ⟨by rw [Targeted, Targeted, first], by rw [Targeted, Targeted, second]⟩

theorem strict_of_listed (outputs : ∀ t ∈ d.network.values,
    (listedFlows t).conclusions = (flows t).conclusions) :
    (d.Targeted listedFlows ↔ d.Targeted strictFlows) ∧
      (d.Targeted flows ↔ d.Targeted generousFlows) := by
  have first : Reached listedFlows d.network d.sets.available =
      Reached strictFlows d.network d.sets.available := by
    refine reached_congr fun t member => ?_
    rw [strictFlows, ← outputs t member]
  have second : Reached flows d.network d.sets.available =
      Reached generousFlows d.network d.sets.available := by
    refine reached_congr fun t member => ?_
    rw [generousFlows, outputs t member]
  exact ⟨by rw [Targeted, Targeted, first], by rw [Targeted, Targeted, second]⟩

/-- A settled diagnosis agrees, and one of a one-sided network agrees only if it is settled. -/
theorem settled_agrees (d : Diagnosis snapshot objects time) :
    (d.Settled → d.Agrees) ∧ (d.OneSided → (d.Agrees ↔ d.Settled)) := by
  have listed_of_strict : d.Targeted strictFlows → d.Targeted listedFlows := fun reached =>
    reached.mono (fun _ => Finset.Subset.refl _) fun t => positive_subset _
  have flows_of_strict : d.Targeted strictFlows → d.Targeted flows := fun reached =>
    reached.mono (fun t => positive_subset _) fun _ => Finset.Subset.refl _
  have generous_of_listed : d.Targeted listedFlows → d.Targeted generousFlows := fun reached =>
    reached.mono (fun t => positive_subset _) fun _ => Finset.Subset.refl _
  have generous_of_flows : d.Targeted flows → d.Targeted generousFlows := fun reached =>
    reached.mono (fun _ => Finset.Subset.refl _) fun t => positive_subset _
  constructor
  · rintro ⟨either, small⟩
    rw [agrees_iff]
    grind
  · intro oneSided
    rw [agrees_iff, Settled]
    cases oneSided with
    | inl inputs =>
      obtain ⟨same, same'⟩ := strict_of_flows inputs
      grind
    | inr outputs =>
      obtain ⟨same, same'⟩ := strict_of_listed outputs
      grind

end Diagnosis

namespace AgreementSample
open AuditSample

def production (amount : Rational) : List Document :=
  [transformation "t" [("a", amount)] [("b", one)],
    document "witness" (.organizationWitness ⟨"snapshot", ["b"], ["t"], .ofList [("t", one)]⟩)]

def supplied : List Document := state "a" :: production one

section analyses
variable (given : List Document)

def documents : Objects := objects (given ++ framework ["b"] ∅ ["a", "b"])

def produced : AnalysisSnapshot := snapshot ["b"] ∅ given

def live : Objects := liveObjects services (produced given) (documents given)

/-- The available states and the network, and what the analyses say of them. -/
def analysed :
    Analysis (AvailableSets × Network × Finset Identifier × EnumerationResult) := do
  let sets ← availableSets (live given) (.utc 10)
  let network ← transformations (live given) (.utc 10)
  let closure ← structuralClosure sets.available network fun _ => true
  let cuts ← enumerateMinimalCutSets sets.available (produced given).spec.targetIds network
  pure (sets, network, closure, cuts)

end analyses

def found {α β : Type} (m : Analysis α) (f : α → β) : Option β :=
  match m unhurried with
  | .ok a _ => some (f a)
  | .error _ _ => none

theorem returns_of_found {α β : Type} {m : Analysis α} {f : α → β} {b : β}
    (computed : found m f = some b) : ∃ a, Returns m a ∧ f a = b := by
  unfold found at computed
  cases run : m unhurried with
  | ok a after =>
    rw [run] at computed
    exact ⟨a, ⟨_, _, run⟩, Option.some.inj computed⟩
  | error fault after =>
    rw [run] at computed
    cases computed

theorem exists_diagnosis {given : List Document} {judged catalysed : ProfileStatus}
    {P : AvailableSets → Network → EnumerationResult → Bool}
    (analyses : found (analysed given) (fun all => P all.1 all.2.1 all.2.2.2) = some true)
    (judges : found (structural (produced given) (live given) (.utc 10)) (·.status) = some judged)
    (catalyses : found (raf (produced given) (live given) (.utc 10)) (·.status) =
      some catalysed) :
    ∃ d : Diagnosis (produced given) (live given) (.utc 10),
      d.reachability.status = judged ∧ d.catalysis.status = catalysed ∧
        P d.sets d.network d.cuts = true := by
  obtain ⟨all, returned, holds⟩ := returns_of_found analyses
  obtain ⟨sets, read, returned⟩ := returned.of_bind
  obtain ⟨network, listed, returned⟩ := returned.of_bind
  obtain ⟨closure, closed, returned⟩ := returned.of_bind
  obtain ⟨cuts, cut, returned⟩ := returned.of_bind
  obtain ⟨_, _, ⟨⟩⟩ := returned
  obtain ⟨r, reported, rfl⟩ := returns_of_found judges
  obtain ⟨c, reported', rfl⟩ := returns_of_found catalyses
  exact ⟨⟨sets, network, closure, cuts, r, c, read, listed, closed, cut, reported, reported'⟩,
    rfl, rfl, holds⟩

/-- Every target is put out by a transformation whose listed inputs are available, and some
transformation cuts the targets off. -/
def produces (sets : AvailableSets) (network : Network) (cuts : EnumerationResult) : Bool :=
  decide (∀ x ∈ ["b"], ∃ t ∈ network.values, (strictFlows t).premises ⊆ sets.available ∧
    x ∈ (strictFlows t).conclusions) && decide (cuts.values = [["t"]])

end AgreementSample

open AgreementSample in
theorem settled_agrees_sample : ∃ d : Diagnosis (produced supplied) (live supplied) (.utc 10),
    d.cuts.values = [["t"]] ∧ d.Settled ∧ d.Agrees := by
  obtain ⟨d, judged, -, holds⟩ := @exists_diagnosis supplied .satisfied .satisfied produces
    (by decide +kernel) (by decide +kernel) (by decide +kernel)
  obtain ⟨fires, cuts⟩ := Bool.and_eq_true_iff.mp holds
  have strict : d.Targeted strictFlows := by
    intro x target
    obtain ⟨t, member, inputs, output⟩ := of_decide_eq_true fires x target
    exact .fire (List.mem_map_of_mem member) (fun y input => .base (inputs input)) output
  have settled : d.Settled := ⟨.inl strict, .inr strict⟩
  exact ⟨d, of_decide_eq_true cuts, settled, d.settled_agrees.1 settled⟩

open AuditSample AgreementSample in
/-- An input of amount zero is needed by the audit and by nothing else. -/
theorem audit_disagrees : ¬ ∀ (h : AuditServices) (snapshot : AnalysisSnapshot)
    (allObjects : Objects) (time : DateTime)
    (d : Diagnosis snapshot (liveObjects h snapshot allObjects) time),
    provenanceReasons h snapshot allObjects = [] → d.Agrees := by
  intro claim
  have sound : provenanceReasons services (produced (production (.ofNat 0)))
      (documents (production (.ofNat 0))) = [] := by decide +kernel
  obtain ⟨d, judged, catalysed, -⟩ := @exists_diagnosis (production (.ofNat 0)) .violated
    .satisfied (fun _ _ _ => true) (by decide +kernel) (by decide +kernel) (by decide +kernel)
  have agrees := (claim services _ _ _ d sound).catalysis catalysed
  rw [judged] at agrees
  cases agrees

end CollectivePhaseControl
