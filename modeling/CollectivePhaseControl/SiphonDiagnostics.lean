import CollectivePhaseControl.FormationLayers

/-! The unfed siphons of the audit and of the intervention report. Both look at the minimal
siphons of the live network; the audit takes an observed amount before an available state, and
the report takes whatever is attested, evidence and authority among it, for one unit. -/
namespace CollectivePhaseControl

section report
variable (objects : Objects) (time : DateTime)

def bookSupplied (supplied : Finset Identifier) (item : Document × SupplySpec) :
    Analysis (Finset Identifier) := do
  let live ← lift (item.2.lifecycle.live time)
  if live = true then
    let lower ← rational item.2.rateLower
    pure (if 0 < lower then insert item.2.coordinate supplied else supplied)
  else pure supplied

/-- `{coordinate: rational("1") for coordinate in available}`. -/
def initialMarking (available : Finset Identifier) (coordinate : Identifier) : ℚ :=
  if coordinate ∈ available then 1 else 0

/-- The siphons of `analyze_interventions`: all minimal ones and the unfed ones. -/
def interventionSiphons : Analysis (EnumerationResult × List (List Identifier)) := do
  let sets ← availableSets objects time
  let network ← transformations objects time
  let siphons ← enumerateMinimalSiphons network (networkCoordinates network)
  let supplied ← (typed objects DocumentSpec.supply?).foldlM (bookSupplied time) ∅
  pure (siphons, unfedSiphons siphons.values (initialMarking sets.available) supplied)

end report

section fed
variable (objects : Objects) (time : DateTime)

def HeldState (x : Identifier) : Prop := ∃ item ∈ objects.values, AttestsState time item x

def Stocked (x : Identifier) : Prop := ∃ item ∈ objects.values, AttestsStock time item x

def NamesEvidence (x : Identifier) : Prop := ∃ item ∈ objects.values, AttestsEvidence time item x

def NamesAuthority (x : Identifier) : Prop := ∃ item ∈ objects.values, AttestsAuthority time item x

def ObservedAt (x : Identifier) : Prop := ∃ spec, Observed objects time spec ∧ spec.coordinate = x

def Guaranteed (x : Identifier) : Prop :=
  ∃ supply, Supplied objects time supply ∧ supply.coordinate = x ∧ 0 < F supply.rateLower

/-- So does one that no later live supply of the same name replaces. -/
def GuaranteedLast (x : Identifier) : Prop :=
  ∃ items, liveTyped objects DocumentSpec.supply? SupplySpec.lifecycle time = .ok items ∧
    ∃ supply ∈ (Std.ExtTreeMap.ofList (items.map fun item => (item.2.supplyId, item.2)) :
      Dict SupplySpec).values, supply.coordinate = x ∧ 0 < F supply.rateLower

/-- The coordinate has an observed amount, is an available state that is not observed, or is
guaranteed. -/
def FedAt (x : Identifier) : Prop :=
  Stocked objects time x ∨ (HeldState objects time x ∧ ¬ ObservedAt objects time x) ∨
    GuaranteedLast objects time x

/-- The coordinate is named by evidence or authority, is an available state of which nothing is
observed to be left, or is guaranteed by a supply that another one of its name replaces. -/
def StrayAt (x : Identifier) : Prop :=
  NamesEvidence objects time x ∨ NamesAuthority objects time x ∨
    (HeldState objects time x ∧ ObservedAt objects time x ∧ ¬ Stocked objects time x) ∨
    (Guaranteed objects time x ∧ ¬ GuaranteedLast objects time x)

/-- A minimal siphon that something feeds in the wrong way is fed properly as well. -/
def StraysFed (network : Network) : Prop :=
  ∀ s ∈ MinimalSets.minimals (networkCoordinates network)
      (fun s => s.Nonempty ∧ Horn.Siphon (flowRules network) s),
    (∃ x ∈ s, StrayAt objects time x) → ∃ x ∈ s, FedAt objects time x

variable {objects time}

theorem stocked_iff {x : Identifier} : Stocked objects time x ↔
    ∃ spec, Observed objects time spec ∧ spec.coordinate = x ∧ 0 < F spec.quantity := by
  constructor
  · rintro ⟨item, member, spec, found, live, positive, same⟩
    exact ⟨spec, ⟨item, member, by rw [found]; rfl, live⟩, same, positive⟩
  · rintro ⟨spec, ⟨item, member, found, live⟩, same, positive⟩
    refine ⟨item, member, spec, ?_, live, positive, same⟩
    unfold DocumentSpec.resource? at found
    split at found
    · cases found
      assumption
    · cases found

theorem heldState_iff {x : Identifier} : HeldState objects time x ↔
    ∃ spec, Attested objects time DocumentSpec.state? StateSpec.lifecycle spec ∧
      spec.available = true ∧ spec.stateId = x := by
  constructor
  · rintro ⟨item, member, spec, found, live, available, same⟩
    exact ⟨spec, ⟨item, member, by rw [found]; rfl, live⟩, available, same⟩
  · rintro ⟨spec, ⟨item, member, found, live⟩, available, same⟩
    refine ⟨item, member, spec, ?_, live, available, same⟩
    unfold DocumentSpec.state? at found
    split at found
    · cases found
      assumption
    · cases found

theorem GuaranteedLast.guaranteed {x : Identifier} (last : GuaranteedLast objects time x) :
    Guaranteed objects time x := by
  obtain ⟨items, read, supply, listed, same, positive⟩ := last
  obtain ⟨id, held⟩ := Dict.mem_values.mp listed
  obtain ⟨item, member, pair⟩ := List.mem_map.mp (Dict.mem_of_ofList held)
  obtain ⟨rfl, rfl⟩ := Prod.mk.inj pair
  exact ⟨item.2, (attested_iff read _).mpr ⟨item, member, rfl⟩, same, positive⟩

end fed

theorem mem_unfed_iff {siphons : List (List Identifier)} {marking : Identifier → ℚ}
    {supplied : Finset Identifier} {siphon : List Identifier} :
    siphon ∈ unfedSiphons siphons marking supplied ↔
      siphon ∈ siphons ∧ ¬ ∃ x ∈ siphon, 0 < marking x ∨ x ∈ supplied := by
  unfold unfedSiphons
  rw [List.mem_mergeSort, List.mem_filter, List.all_eq_true]
  simp

theorem unfedSiphons_eq_iff {siphons : List (List Identifier)} {marking marking' : Identifier → ℚ}
    {supplied supplied' : Finset Identifier} :
    unfedSiphons siphons marking supplied = unfedSiphons siphons marking' supplied' ↔
      ∀ siphon ∈ siphons, (∃ x ∈ siphon, 0 < marking x ∨ x ∈ supplied) ↔
        ∃ x ∈ siphon, 0 < marking' x ∨ x ∈ supplied' := by
  constructor
  · intro same siphon member
    have both : siphon ∈ unfedSiphons siphons marking supplied ↔
        siphon ∈ unfedSiphons siphons marking' supplied' := by rw [same]
    rw [mem_unfed_iff, mem_unfed_iff, and_congr_right_iff] at both
    exact not_iff_not.mp (both member)
  · intro same
    unfold unfedSiphons
    congr 1
    refine List.filter_congr fun siphon member => ?_
    have each := not_congr (same siphon member)
    rw [Bool.eq_iff_iff, List.all_eq_true, List.all_eq_true]
    simpa using each

section steady
variable {objects : Objects} {time : DateTime}

theorem steady_spend (amount : ℤ) : Steady (spend amount) := fun _ _ _ _ => rfl

theorem steady_enumerateMinimalSiphons (network : Network) (coordinates : Finset Identifier) :
    Steady (enumerateMinimalSiphons network coordinates) := by
  unfold enumerateMinimalSiphons
  dsimp only
  split
  · exact steady_pure _
  · refine (steady_foldlM (fun minimal candidate => ?_) _ _).bind fun minimal => steady_pure _
    unfold keepMinimal
    refine (steady_spend 1).bind fun _ => ?_
    split
    · exact steady_pure _
    · exact (steady_pure _).bind fun _ => steady_pure _

end steady

/-- The siphons that the audit judges a snapshot's persistence by. -/
structure SiphonAudit (objects : Objects) (time : DateTime) where
  observed : List (Document × ResourceObservationSpec)
  observations : Dict ℚ
  network : Network
  supplies : List (Document × SupplySpec)
  siphons : EnumerationResult
  states : List (Document × StateSpec)
  supplied : Finset Identifier
  read : liveTyped objects DocumentSpec.resource? ResourceObservationSpec.lifecycle time =
    .ok observed
  booked : Returns (observed.foldlM observe ∅) observations
  unambiguous : (observed.map (·.2.coordinate)).Nodup
  listed : Returns (transformations objects time) network
  credited : liveTyped objects DocumentSpec.supply? SupplySpec.lifecycle time = .ok supplies
  searched : Returns (enumerateMinimalSiphons network (networkCoordinates network)) siphons
  exhaustive : siphons.exhaustive = true
  attested : liveTyped objects DocumentSpec.state? StateSpec.lifecycle time = .ok states
  fed : Returns (suppliedCoordinates (Std.ExtTreeMap.ofList (supplies.map fun item =>
    (item.2.supplyId, item.2)) : Dict SupplySpec).values) supplied

def SiphonAudit.unfed {objects : Objects} {time : DateTime} (audit : SiphonAudit objects time) :
    List (List Identifier) :=
  unfedSiphons audit.siphons.values (structuralMarking audit.observations audit.states)
    audit.supplied

structure SiphonReport (objects : Objects) (time : DateTime) where
  sets : AvailableSets
  network : Network
  siphons : EnumerationResult
  supplied : Finset Identifier
  read : Returns (availableSets objects time) sets
  listed : Returns (transformations objects time) network
  searched : Returns (enumerateMinimalSiphons network (networkCoordinates network)) siphons
  fed : Returns ((typed objects DocumentSpec.supply?).foldlM (bookSupplied time) ∅) supplied

def SiphonReport.unfed {objects : Objects} {time : DateTime} (report : SiphonReport objects time) :
    List (List Identifier) :=
  unfedSiphons report.siphons.values (initialMarking report.sets.available) report.supplied

theorem yields_interventionSiphons (objects : Objects) (time : DateTime) :
    Yields (interventionSiphons objects time) fun found => ∃ report : SiphonReport objects time,
      found = (report.siphons, report.unfed) := by
  refine yields_bind (yields_returns _) fun sets read => ?_
  refine yields_bind (yields_returns _) fun network listed => ?_
  refine yields_bind (yields_returns _) fun siphons searched => ?_
  refine yields_bind (yields_returns _) fun supplied fed => ?_
  exact yields_pure ⟨⟨sets, network, siphons, supplied, read, listed, searched, fed⟩, rfl⟩

def siphonBlocker (siphon : List Identifier) : String :=
  "unfed_minimal_siphon:" ++ ",".intercalate siphon

def StopsEarly (snapshot : AnalysisSnapshot) (objects : Objects) (time : DateTime) : Prop :=
  (∀ plan, persistencePlans snapshot objects ≠ [plan]) ∨
  (∃ observed, liveTyped objects DocumentSpec.resource? ResourceObservationSpec.lifecycle time =
    .ok observed ∧ repeated (observed.map (·.2.coordinate)) ≠ []) ∨
  (∃ rates, liveTyped objects DocumentSpec.rate? RateObservationSpec.lifecycle time = .ok rates ∧
    repeated (rates.map (·.2.transformationId)) ≠ []) ∨
  ∃ network, Returns (transformations objects time) network ∧
    maximumCoordinates < (networkCoordinates network).card

theorem yields_persistenceSiphons (h : AuditServices) (snapshot : AnalysisSnapshot)
    (objects : Objects) (time : DateTime) :
    Yields (persistence h snapshot objects time) fun result =>
      StopsEarly snapshot objects time ∨ ∃ audit : SiphonAudit objects time, ∃ reasons,
        result.blockers = sortedSet (reasons ++ audit.unfed.map siphonBlocker) := by
  unfold persistence
  split
  · rename_i document plan only
    refine yields_bind (yields_lift _) fun observed read => ?_
    refine yields_bind (yields_returns _) fun observations booked => ?_
    dsimp only
    split
    · rename_i ambiguous
      exact (yields_trivial _).mono fun _ _ => .inl (.inr (.inl ⟨observed, read, ambiguous⟩))
    · rename_i unambiguous
      refine yields_bind (yields_returns _) fun network listed => ?_
      refine yields_bind (yields_lift _) fun rates rated => ?_
      split
      · rename_i doubled
        exact (yields_trivial _).mono fun _ _ => .inl (.inr (.inr (.inl ⟨rates, rated, doubled⟩)))
      · refine yields_bind (yields_lift _) fun supplies credited => ?_
        refine yields_bind (yields_trivial _) fun duration _ => ?_
        refine yields_bind (yields_trivial _) fun reached _ => ?_
        refine yields_bind (yields_returns _) fun siphons searched => ?_
        split
        · rename_i many
          refine (yields_trivial _).mono fun _ _ => .inl (.inr (.inr (.inr ⟨network, listed, ?_⟩)))
          by_contra few
          have found := (decides_iff.mp (decides_enumerateMinimalSiphons
            (not_lt.mp few))).1.returned searched
          rw [found.exhaustive] at many
          cases many
        · rename_i exhaustive
          rw [Bool.not_eq_false] at exhaustive
          have distinct := repeated_eq_nil (not_not.mp unambiguous)
          refine yields_bind (yields_lift _) fun states attested => ?_
          refine yields_bind (yields_returns _) fun supplied fed => ?_
          refine (yields_lift _).mono fun result made => .inr ⟨⟨observed, observations, network,
            supplies, siphons, states, supplied, read, booked, distinct, listed, credited,
            searched, exhaustive, attested, fed⟩, reached.2, ?_⟩
          exact (dimensionResult_ok made).2
  · rename_i other
    refine (yields_trivial _).mono fun _ _ => .inl (.inl fun plan only => ?_)
    exact other plan.1 plan.2 only

section agreement
variable {objects : Objects} {time : DateTime} {x : Identifier}

theorem SiphonAudit.marked_iff (audit : SiphonAudit objects time) :
    0 < structuralMarking audit.observations audit.states x ↔
      Stocked objects time x ∨ (HeldState objects time x ∧ ¬ ObservedAt objects time x) := by
  obtain ⟨those, others⟩ :=
    (yields_observe audit.observed audit.unambiguous ∅).returned audit.booked
  rw [structuralMarking, Std.ExtTreeMap.getD_eq_getD_getElem?]
  by_cases seen : ObservedAt objects time x
  · obtain ⟨spec, attested, rfl⟩ := seen
    have amount : ∀ other, Observed objects time other →
        audit.observations[other.coordinate]? = some (F other.quantity) := by
      intro other attested
      obtain ⟨item, member, rfl⟩ := (attested_iff audit.read other).mp attested
      exact those item member
    rw [amount spec attested, Option.getD_some, stocked_iff]
    constructor
    · exact fun positive => .inl ⟨spec, attested, rfl, positive⟩
    · rintro (⟨other, attested', same, positive⟩ | ⟨-, unseen⟩)
      · have twice := amount other attested'
        rw [same, amount spec attested] at twice
        rwa [Option.some.inj twice]
      · exact absurd ⟨spec, attested, rfl⟩ unseen
  · have nothing : audit.observations[x]? = none := by
      rw [others x fun item member same =>
        seen ⟨item.2, (attested_iff audit.read _).mpr ⟨item, member, rfl⟩, same⟩]
      exact Std.ExtTreeMap.getElem?_empty
    have unstocked : ¬ Stocked objects time x := by
      rw [stocked_iff]
      rintro ⟨spec, attested, same, -⟩
      exact seen ⟨spec, attested, same⟩
    have held : (audit.states.any fun item => item.2.available && item.2.stateId == x) = true ↔
        HeldState objects time x := by
      rw [heldState_iff, List.any_eq_true]
      simp only [Bool.and_eq_true, beq_iff_eq]
      constructor
      · rintro ⟨item, member, said⟩
        exact ⟨item.2, (attested_iff audit.attested _).mpr ⟨item, member, rfl⟩, said⟩
      · rintro ⟨spec, attested, said⟩
        obtain ⟨item, member, rfl⟩ := (attested_iff audit.attested spec).mp attested
        exact ⟨item, member, said⟩
    rw [nothing, Option.getD_none, or_iff_right unstocked, and_iff_left seen, ← held]
    split <;> simp [*]

theorem SiphonAudit.supplied_iff (audit : SiphonAudit objects time) :
    x ∈ audit.supplied ↔ GuaranteedLast objects time x := by
  rw [(yields_suppliedCoordinates _).returned audit.fed x]
  constructor
  · exact fun last => ⟨audit.supplies, audit.credited, last⟩
  · rintro ⟨items, read, last⟩
    rw [audit.credited] at read
    obtain rfl := Except.ok.inj read
    exact last

theorem SiphonAudit.fed_iff (audit : SiphonAudit objects time) :
    (0 < structuralMarking audit.observations audit.states x ∨ x ∈ audit.supplied) ↔
      FedAt objects time x := by
  rw [audit.marked_iff, audit.supplied_iff, or_assoc, FedAt]

theorem yields_bookSupplied : Yields
    ((typed objects DocumentSpec.supply?).foldlM (bookSupplied time) ∅) fun supplied =>
      ∀ x, x ∈ supplied ↔ Guaranteed objects time x := by
  have fold : ∀ (items : List (Document × SupplySpec)) (held : Finset Identifier),
      Yields (items.foldlM (bookSupplied time) held) fun supplied => ∀ x, x ∈ supplied ↔ x ∈ held ∨
        ∃ item ∈ items, item.2.lifecycle.live time = .ok true ∧ item.2.coordinate = x ∧
          0 < F item.2.rateLower := by
    intro items
    induction items with
    | nil => exact fun held => yields_pure (by simp)
    | cons item items ih =>
      intro held
      rw [List.foldlM_cons]
      have first : Yields (bookSupplied time held item) fun next => ∀ x, x ∈ next ↔ x ∈ held ∨
          (item.2.lifecycle.live time = .ok true ∧ item.2.coordinate = x ∧
            0 < F item.2.rateLower) := by
        refine yields_bind (yields_lift _) fun live judged => ?_
        split
        · rename_i current
          refine yields_bind (yields_rational _) fun lower parsed => yields_pure fun x => ?_
          rw [judged, current, parsed]
          split_ifs with positive
          · rw [Finset.mem_insert, or_comm, eq_comm]
            simp [positive]
          · simp [positive]
        · rename_i past
          refine yields_pure fun x => ?_
          rw [judged]
          simp [past]
      refine yields_bind first fun next booked => (ih next).mono fun supplied said x => ?_
      rw [said, booked, List.exists_mem_cons_iff, or_assoc]
  refine (fold _ ∅).mono fun supplied said x => ?_
  rw [said, or_iff_right (Finset.notMem_empty x)]
  constructor
  · rintro ⟨item, member, live, same, positive⟩
    rw [typed, List.mem_filterMap] at member
    obtain ⟨document, listed, found⟩ := member
    obtain ⟨spec, kind, rfl⟩ := Option.map_eq_some_iff.mp found
    exact ⟨spec, ⟨document, listed, kind, live⟩, same, positive⟩
  · rintro ⟨spec, ⟨document, listed, kind, live⟩, same, positive⟩
    refine ⟨(document, spec), ?_, live, same, positive⟩
    rw [typed, List.mem_filterMap]
    exact ⟨document, listed, by rw [kind]; rfl⟩

theorem SiphonReport.fed_iff (report : SiphonReport objects time) :
    (0 < initialMarking report.sets.available x ∨ x ∈ report.supplied) ↔
      FedAt objects time x ∨ StrayAt objects time x := by
  have available : 0 < initialMarking report.sets.available x ↔ HeldState objects time x ∨
      Stocked objects time x ∨ NamesEvidence objects time x ∨ NamesAuthority objects time x := by
    have marked : 0 < initialMarking report.sets.available x ↔ x ∈ report.sets.available := by
      unfold initialMarking
      split <;> simp [*]
    rw [marked, (yields_attested.returned report.read).available,
      or_iff_right (Finset.notMem_empty x)]
    simp only [HeldState, Stocked, NamesEvidence, NamesAuthority, ← exists_or, ← and_or_left]
  rw [available, yields_bookSupplied.returned report.fed x, FedAt, StrayAt]
  have last := @GuaranteedLast.guaranteed objects time x
  tauto

theorem SiphonAudit.found (audit : SiphonAudit objects time) :
    ExactFamily ((networkCoordinates audit.network).sort (· ≤ ·))
      (fun s => s.Nonempty ∧ Horn.Siphon (flowRules audit.network) s) audit.siphons := by
  have few : (networkCoordinates audit.network).card ≤ maximumCoordinates := by
    by_contra many
    have refused : Yields (enumerateMinimalSiphons audit.network
        (networkCoordinates audit.network)) (·.exhaustive = false) := by
      unfold enumerateMinimalSiphons
      dsimp only
      rw [if_pos (by rw [Finset.length_sort]; omega)]
      exact yields_pure rfl
    have whole := audit.exhaustive
    rw [refused.returned audit.searched] at whole
    cases whole
  exact (decides_iff.mp (decides_enumerateMinimalSiphons few)).1.returned audit.searched

/-- The audit and the report list the same unfed siphons just if the coordinates that only the
report takes for fed lie in siphons that are fed for the audit. -/
theorem siphons_agree_iff (h : AuditServices) (snapshot : AnalysisSnapshot) (objects : Objects)
    (time : DateTime) (result : DimensionResult)
    (found : EnumerationResult × List (List Identifier))
    (judged : Returns (persistence h snapshot objects time) result)
    (reported : Returns (interventionSiphons objects time) found) :
    StopsEarly snapshot objects time ∨ ∃ (audit : SiphonAudit objects time) (reasons : List String),
      result.blockers = sortedSet (reasons ++ audit.unfed.map siphonBlocker) ∧
      (audit.unfed = found.2 ↔ StraysFed objects time audit.network) := by
  obtain ⟨report, rfl⟩ := (yields_interventionSiphons objects time).returned reported
  refine ((yields_persistenceSiphons h snapshot objects time).returned judged).imp_right ?_
  rintro ⟨audit, reasons, blockers⟩
  refine ⟨audit, reasons, blockers, ?_⟩
  have network : report.network = audit.network :=
    steady_transformations _ _ report.listed audit.listed
  have searched := report.searched
  rw [network] at searched
  have siphons : report.siphons = audit.siphons :=
    steady_enumerateMinimalSiphons _ _ _ _ searched audit.searched
  have values := audit.found.values
  rw [Finset.sort_toFinset] at values
  rw [SiphonAudit.unfed, SiphonReport.unfed, siphons, unfedSiphons_eq_iff]
  simp only [audit.fed_iff, report.fed_iff]
  constructor
  · intro same s minimal stray
    have within := (MinimalSets.prop_of_minimals minimal).1
    obtain ⟨x, member, strays⟩ := stray
    obtain ⟨y, inside, fed⟩ := (same _ ((values _).mpr ⟨s, minimal, rfl⟩)).mpr
      ⟨x, (mem_sorted within).mpr member, .inr strays⟩
    exact ⟨y, (mem_sorted within).mp inside, fed⟩
  · intro each siphon listed
    obtain ⟨s, minimal, rfl⟩ := (values siphon).mp listed
    have within := (MinimalSets.prop_of_minimals minimal).1
    constructor
    · rintro ⟨x, inside, fed⟩
      exact ⟨x, inside, .inl fed⟩
    · rintro ⟨x, inside, fed | strays⟩
      · exact ⟨x, inside, fed⟩
      · obtain ⟨y, member, fed⟩ := each s minimal ⟨x, (mem_sorted within).mp inside, strays⟩
        exact ⟨y, (mem_sorted within).mpr member, fed⟩

end agreement

namespace SiphonSample
open AuditSample

def plan : PersistencePlanSpec := ⟨"snapshot", one, []⟩

/-- A coordinate that reproduces itself, and something else of the same name. -/
def documents (other : Document) : Objects :=
  objects [transformation "t" [("a", one)] [("a", one)], document "plan" (.persistencePlan plan),
    other]

def observation : Document :=
  document "amount" (.resourceObservation ⟨"a", one, "unit", lifecycle⟩)

def authority : Document := document "key" (.authority ⟨"a", lifecycle⟩)

def plain (item : Document) : Bool :=
  match item.spec with
  | .evidence _ | .authority _ | .state _ | .supply _ => false
  | _ => true

theorem straysFed_of_plain {objects : Objects} {time : DateTime}
    (all : ∀ item ∈ objects.values, plain item = true) (network : Network) :
    StraysFed objects time network := by
  rintro s - ⟨x, -, ⟨item, member, spec, found, -⟩ | ⟨item, member, spec, found, -⟩ |
    ⟨⟨item, member, spec, found, -⟩, -⟩ | ⟨⟨supply, ⟨item, member, found, -⟩, -⟩, -⟩⟩
  · have none := all item member
    rw [plain, found] at none
    cases none
  · have none := all item member
    rw [plain, found] at none
    cases none
  · have none := all item member
    rw [plain, found] at none
    cases none
  · have none := all item member
    unfold plain at none
    unfold DocumentSpec.supply? at found
    split at none <;> simp_all

/-- What the audit computes about siphons where nothing is observed or supplied. -/
def judgement (objects : Objects) (time : DateTime) :
    Analysis (Dict ℚ × Network × EnumerationResult × Finset Identifier) := do
  let observations ← [].foldlM observe ∅
  let network ← transformations objects time
  let siphons ← enumerateMinimalSiphons network (networkCoordinates network)
  let supplied ← suppliedCoordinates (Std.ExtTreeMap.ofList ([] : List (Identifier × SupplySpec)) :
    Dict SupplySpec).values
  pure (observations, network, siphons, supplied)

end SiphonSample

section
open AuditSample AgreementSample SiphonSample

theorem siphons_agree_iff_sample : ∃ result found,
    Returns (persistence services (snapshot ["a"] ∅ []) (documents observation) (.utc 10)) result ∧
    Returns (interventionSiphons (documents observation) (.utc 10)) found ∧ result.blockers = [] ∧
    (StopsEarly (snapshot ["a"] ∅ []) (documents observation) (.utc 10) ∨
      ∃ audit : SiphonAudit (documents observation) (.utc 10), audit.unfed = found.2) := by
  obtain ⟨result, judged, clean⟩ := @returns_of_found _ _
    (persistence services (snapshot ["a"] ∅ []) (documents observation) (.utc 10)) (·.blockers) []
    (by decide +kernel)
  obtain ⟨found, reported, -⟩ := @returns_of_found _ _
    (interventionSiphons (documents observation) (.utc 10)) (fun _ => ()) () (by decide +kernel)
  refine ⟨result, found, judged, reported, clean, ?_⟩
  refine (siphons_agree_iff _ _ _ _ result found judged reported).imp_right ?_
  rintro ⟨audit, -, -, agree⟩
  exact ⟨audit, agree.mpr (straysFed_of_plain (by decide +kernel) _)⟩

/-- An authority of the same name counts as a resource in the report. -/
theorem siphons_disagree : ¬ ∀ (h : AuditServices) (snapshot : AnalysisSnapshot)
    (objects : Objects) (time : DateTime) (result : DimensionResult)
    (found : EnumerationResult × List (List Identifier)),
    Returns (persistence h snapshot objects time) result →
    Returns (interventionSiphons objects time) found →
      ∀ audit : SiphonAudit objects time, audit.unfed = found.2 := by
  intro claim
  obtain ⟨result, judged, -⟩ := @returns_of_found _ _
    (persistence services (snapshot ["a"] ∅ []) (documents authority) (.utc 10)) (·.blockers)
    ["unfed_minimal_siphon:a"] (by decide +kernel)
  obtain ⟨found, reported, fed⟩ := @returns_of_found _ _
    (interventionSiphons (documents authority) (.utc 10)) Prod.snd [] (by decide +kernel)
  obtain ⟨found', returned, said⟩ := @returns_of_found _ _
    (judgement (documents authority) (.utc 10)) (fun found => (found.2.2.1.exhaustive,
      unfedSiphons found.2.2.1.values (structuralMarking found.1 []) found.2.2.2))
    (true, [["a"]]) (by decide +kernel)
  obtain ⟨observations, booked, returned⟩ := returned.of_bind
  obtain ⟨network, listed, returned⟩ := returned.of_bind
  obtain ⟨siphons, searched, returned⟩ := returned.of_bind
  obtain ⟨supplied, credited, last⟩ := returned.of_bind
  obtain rfl := steady_pure (observations, network, siphons, supplied) _ _ last ⟨unhurried, _, rfl⟩
  obtain ⟨exhaustive, unfed⟩ := Prod.mk.inj said
  have audit := claim services _ _ _ result found judged reported
    ⟨[], observations, network, [], siphons, [], supplied, by rfl, booked, List.nodup_nil, listed,
      by rfl, searched, exhaustive, by rfl, credited⟩
  rw [fed] at audit
  have both := unfed.symm.trans audit
  cases both

end

end CollectivePhaseControl
