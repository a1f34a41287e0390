import CollectivePhaseControl.EpistemicDomain
import CollectivePhaseControl.GrowthRefinement
import CollectivePhaseControl.StableSorts

/-! What a growth state denotes, and when two states that denote one ledger have one
canonical form. `normalize` leaves each rational in the spelling it was given, and its
sorts leave tied items in the order they were given. -/
namespace CollectivePhaseControl
namespace LedgerSpellings
open StableSorts

structure ActivationFact where
  actionId : Identifier
  ruleId : Identifier
  producerActionId : Identifier
  producerSuccessorId : Identifier
  depth : ℕ
  modelTime : ℚ
  parentStateDigest : Digest

structure FrontierLedger where
  frontierDigest : Digest
  enabledActionIds : Finset Identifier
  activationDepth : ℕ
  activationLineage : Multiset ActivationFact

structure Ledger where
  capacities : Dict (ℚ × ℚ)
  quality : Dict ℚ
  coverage : Dict ℚ
  resources : Dict ℚ
  reservations : Multiset (Identifier × Identifier × ℚ × ℚ)
  queue : Multiset (Identifier × Identifier × ℚ × ℚ)
  obligations : Multiset (Identifier × Identifier × ℚ × ℚ)
  elapsed : ℚ
  checkpoints : Multiset (ℚ × Dict (ℚ × ℚ))
  evidence : Dict ℚ
  pendingResults : Finset Identifier
  usedActions : Finset Identifier
  assumptions : Dict ℚ
  modelIds : Finset Identifier
  spent : Dict ℚ
  charges : Dict (Dict ℚ)
  offered : Dict ℚ
  completed : Dict ℚ
  attribution : Attribution
  actualEvidenceDigests : Finset Digest
  liveObjectDigests : Finset Digest
  hazards : Finset Identifier
  frontier : Option FrontierLedger

def amounts (m : Dict Rational) : Dict ℚ := m.map fun _ => F

def bounds (m : Dict GrowthInterval) : Dict (ℚ × ℚ) := m.map fun _ v => (F v.lower, F v.upper)

def workFact (w : GrowthWork) : Identifier × Identifier × ℚ × ℚ :=
  (w.workId, w.stage, F w.remaining, F w.deadline)

def reservationFact (r : GrowthReservation) : Identifier × Identifier × ℚ × ℚ :=
  (r.resource, r.owner, F r.quantity, F r.upto)

def checkpointFact (p : GrowthCheckpoint) : ℚ × Dict (ℚ × ℚ) := (F p.time, bounds p.capacities)

def activationFact (a : GrowthActivation) : ActivationFact where
  actionId := a.actionId
  ruleId := a.ruleId
  producerActionId := a.producerActionId
  producerSuccessorId := a.producerSuccessorId
  depth := a.depth
  modelTime := F a.modelTime
  parentStateDigest := a.parentStateDigest

def frontierLedger (f : FrontierFacet) : FrontierLedger where
  frontierDigest := f.frontierDigest
  enabledActionIds := f.enabledActionIds.toFinset
  activationDepth := f.activationDepth
  activationLineage := Multiset.ofList (f.activationLineage.map activationFact)

def ledger (s : GrowthState) : Ledger where
  capacities := bounds s.capacities
  quality := amounts s.quality
  coverage := amounts s.coverage
  resources := amounts s.resources
  reservations := Multiset.ofList (s.reservations.map reservationFact)
  queue := Multiset.ofList (s.queue.map workFact)
  obligations := Multiset.ofList (s.obligations.map workFact)
  elapsed := F s.elapsed
  checkpoints := Multiset.ofList (s.checkpoints.map checkpointFact)
  evidence := amounts s.evidence
  pendingResults := s.pendingResults.toFinset
  usedActions := s.usedActions.toFinset
  assumptions := amounts s.assumptions
  modelIds := s.modelIds.toFinset
  spent := amounts s.spent
  charges := s.charges.map fun _ => amounts
  offered := amounts s.offered
  completed := amounts s.completed
  attribution := s.attribution
  actualEvidenceDigests := s.actualEvidenceDigests.toFinset
  liveObjectDigests := s.liveObjectDigests.toFinset
  hazards := s.hazards.toFinset
  frontier := s.frontier.map frontierLedger

def workLE (a b : GrowthWork) : Prop := a.workId ≤ b.workId
def checkpointLE (a b : GrowthCheckpoint) : Prop := F a.time ≤ F b.time
def lineageLE (a b : GrowthActivation) : Prop := a.actionId ≤ b.actionId

instance workLE_decidable : DecidableRel workLE := fun a b =>
  inferInstanceAs (Decidable (a.workId ≤ b.workId))

instance checkpointLE_decidable : DecidableRel checkpointLE := fun a b =>
  inferInstanceAs (Decidable (F a.time ≤ F b.time))

instance lineageLE_decidable : DecidableRel lineageLE := fun a b =>
  inferInstanceAs (Decidable (a.actionId ≤ b.actionId))

structure FrontierAlike (f g : FrontierFacet) : Prop where
  enabled : f.enabledActionIds.Perm g.enabledActionIds
  lineage : TiedAlike lineageLE f.activationLineage g.activationLineage

/-- The rationals of both states are spelled alike, and the items with one sort key are
listed in the same order. -/
structure WrittenAlike (s t : GrowthState) : Prop where
  capacities : s.capacities = t.capacities
  quality : s.quality = t.quality
  coverage : s.coverage = t.coverage
  resources : s.resources = t.resources
  reservations : TiedAlike reservationLE s.reservations t.reservations
  queue : TiedAlike workLE s.queue t.queue
  obligations : TiedAlike workLE s.obligations t.obligations
  elapsed : s.elapsed = t.elapsed
  checkpoints : TiedAlike checkpointLE s.checkpoints t.checkpoints
  evidence : s.evidence = t.evidence
  assumptions : s.assumptions = t.assumptions
  spent : s.spent = t.spent
  charges : s.charges = t.charges
  offered : s.offered = t.offered
  completed : s.completed = t.completed
  frontier : ∀ f ∈ s.frontier, ∀ g ∈ t.frontier, FrontierAlike f g

instance reservationLE_total' : Std.Total reservationLE := ⟨reservationLE_total⟩

instance reservationLE_trans' : IsTrans GrowthReservation reservationLE := ⟨reservationLE_trans⟩

instance workLE_total : Std.Total workLE := ⟨fun a b => le_total a.workId b.workId⟩

instance workLE_trans : IsTrans GrowthWork workLE := ⟨fun _ _ _ => le_trans⟩

instance checkpointLE_total : Std.Total checkpointLE := ⟨fun a b => le_total (F a.time) (F b.time)⟩

instance checkpointLE_trans : IsTrans GrowthCheckpoint checkpointLE := ⟨fun _ _ _ => le_trans⟩

instance lineageLE_total : Std.Total lineageLE := ⟨fun a b => le_total a.actionId b.actionId⟩

instance lineageLE_trans : IsTrans GrowthActivation lineageLE := ⟨fun _ _ _ => le_trans⟩

theorem sorted_eq_iff {xs ys : List String} :
    xs.insertionSort (· ≤ ·) = ys.insertionSort (· ≤ ·) ↔ xs.Perm ys := by
  constructor
  · intro same
    exact (List.perm_insertionSort _ xs).symm.trans (same ▸ List.perm_insertionSort _ ys)
  · intro perm
    have sorts := (List.perm_insertionSort (· ≤ ·) xs).trans
      (perm.trans (List.perm_insertionSort (· ≤ ·) ys).symm)
    exact sorts.eq_of_pairwise' (List.pairwise_insertionSort _ _) (List.pairwise_insertionSort _ _)

theorem sortedSet_of_toFinset {xs ys : List String} (same : xs.toFinset = ys.toFinset) :
    sortedSet xs = sortedSet ys := by
  refine sorted_eq_iff.mpr ((List.perm_ext_iff_of_nodup xs.nodup_dedup ys.nodup_dedup).mpr ?_)
  intro x
  rw [List.mem_dedup, List.mem_dedup, ← List.mem_toFinset, same, List.mem_toFinset]

def canonicalFacet (f : FrontierFacet) : FrontierFacet :=
  { f with
    enabledActionIds := f.enabledActionIds.insertionSort (· ≤ ·)
    activationLineage := f.activationLineage.insertionSort lineageLE }

theorem canonicalFacet_eq_iff {f g : FrontierFacet} (same : frontierLedger f = frontierLedger g) :
    canonicalFacet f = canonicalFacet g ↔ FrontierAlike f g := by
  have digest := congrArg FrontierLedger.frontierDigest same
  have depth := congrArg FrontierLedger.activationDepth same
  constructor
  · intro equal
    exact ⟨sorted_eq_iff.mp (congrArg FrontierFacet.enabledActionIds equal),
      insertionSort_eq_iff.mp (congrArg FrontierFacet.activationLineage equal)⟩
  · intro alike
    have enabled := sorted_eq_iff.mpr alike.enabled
    have lineage := insertionSort_eq_iff.mpr alike.lineage
    simp only [frontierLedger] at digest depth
    simp only [canonicalFacet, enabled, lineage, digest, depth]

theorem canonical_frontier (s : GrowthState) :
    (canonical s).frontier = s.frontier.map canonicalFacet := rfl

theorem frontier_eq_iff {s t : GrowthState} (same : ledger s = ledger t) :
    (canonical s).frontier = (canonical t).frontier ↔
      ∀ f ∈ s.frontier, ∀ g ∈ t.frontier, FrontierAlike f g := by
  have facets : s.frontier.map frontierLedger = t.frontier.map frontierLedger :=
    congrArg Ledger.frontier same
  rw [canonical_frontier, canonical_frontier]
  cases left : s.frontier with
  | none =>
    rw [left] at facets
    rw [Option.map_eq_none_iff.mp facets.symm]
    simp
  | some f =>
    rw [left] at facets
    obtain ⟨g, right, alike⟩ := Option.map_eq_some_iff.mp facets.symm
    rw [right]
    simp only [Option.map_some, Option.some.injEq, Option.mem_some_iff, forall_eq']
    exact canonicalFacet_eq_iff alike.symm

theorem canonical_eq_iff {s t : GrowthState} (same : ledger s = ledger t) :
    canonical s = canonical t ↔ WrittenAlike s t := by
  constructor
  · intro equal
    have part {β : Type} (read : GrowthState → β) : read (canonical s) = read (canonical t) :=
      congrArg read equal
    exact {
      capacities := part (·.capacities)
      quality := part (·.quality)
      coverage := part (·.coverage)
      resources := part (·.resources)
      reservations := insertionSort_eq_iff.mp (part (·.reservations))
      queue := insertionSort_eq_iff.mp (part (·.queue))
      obligations := insertionSort_eq_iff.mp (part (·.obligations))
      elapsed := part (·.elapsed)
      checkpoints := insertionSort_eq_iff.mp (part (·.checkpoints))
      evidence := part (·.evidence)
      assumptions := part (·.assumptions)
      spent := part (·.spent)
      charges := part (·.charges)
      offered := part (·.offered)
      completed := part (·.completed)
      frontier := (frontier_eq_iff same).mp (part (·.frontier)) }
  · intro alike
    have pending := sortedSet_of_toFinset (congrArg Ledger.pendingResults same)
    have used := sortedSet_of_toFinset (congrArg Ledger.usedActions same)
    have models := sortedSet_of_toFinset (congrArg Ledger.modelIds same)
    have evidence := sortedSet_of_toFinset (congrArg Ledger.actualEvidenceDigests same)
    have live := sortedSet_of_toFinset (congrArg Ledger.liveObjectDigests same)
    have hazards := sortedSet_of_toFinset (congrArg Ledger.hazards same)
    have attribution : s.attribution = t.attribution := congrArg Ledger.attribution same
    have facet := (frontier_eq_iff same).mpr alike.frontier
    have reservations := insertionSort_eq_iff.mpr alike.reservations
    have queue := insertionSort_eq_iff.mpr alike.queue
    have obligations := insertionSort_eq_iff.mpr alike.obligations
    have checkpoints := insertionSort_eq_iff.mpr alike.checkpoints
    exact (GrowthState.mk.injEq ..).mpr ⟨alike.capacities, alike.quality, alike.coverage,
      alike.resources, reservations, queue, obligations, alike.elapsed, checkpoints,
      alike.evidence, pending, used, alike.assumptions, models, alike.spent, alike.charges,
      alike.offered, alike.completed, attribution, evidence, live, hazards, facet⟩

/-- `_within_prediction` on one domain. -/
def covers (predicted actual : GrowthInterval) : Prop :=
  F predicted.lower ≤ F actual.lower ∧ F actual.lower ≤ F actual.upper ∧
    F actual.upper ≤ F predicted.upper

instance covers_decidable (predicted actual : GrowthInterval) :
    Decidable (covers predicted actual) := by
  unfold covers
  infer_instance

/-- The measured capacities are of the predicted domains and lie within the predicted ones. -/
def covered (actual predicted : GrowthState) : Bool :=
  (actual.capacities.keys == predicted.capacities.keys) &&
    actual.capacities.toList.all fun p =>
      predicted.capacities[p.1]?.any fun interval => decide (covers interval p.2)

def withinPrediction (actual predicted : GrowthState) : Checked Bool :=
  if covered actual predicted then do
    -- every facet other than the capacities is retained
    let left ← normalize actual
    let right ← normalize { predicted with capacities := actual.capacities }
    pure (decide (left = right))
  else .ok false

/-- The two states are one to the digests and to everything that compares normal forms. -/
structure Interchangeable (hash : EpistemicHashing) (s t : GrowthState) : Prop where
  normal : ∃ n, normalize s = .ok n ∧ normalize t = .ok n
  digest : stateDigest hash.toHashing s = stateDigest hash.toHashing t
  measured : ∀ predicted, withinPrediction s predicted = withinPrediction t predicted
  predicted : ∀ actual, withinPrediction actual s = withinPrediction actual t
  support : ∀ before (h : EpistemicHypothesis) after,
    canonicalSupport hash (before ++ { h with state := s } :: after) =
      canonicalSupport hash (before ++ { h with state := t } :: after)

theorem sortedSet_length (values : List String) : (sortedSet values).length ≤ values.length := by
  rw [sortedSet, List.length_insertionSort]
  exact (List.dedup_sublist values).length_le

theorem canonical_rationals {s : GrowthState} {r : Rational}
    (member : r ∈ (canonical (baseState s)).rationals) : r ∈ (baseState s).rationals := by
  simp only [GrowthState.rationals, canonical, baseState, Option.map_none, List.append_nil,
    List.mem_append, List.mem_flatMap, List.mem_insertionSort] at member ⊢
  exact member

theorem canonicalFacet_accepted {f : FrontierFacet} (accepted : f.accepted) :
    (canonicalFacet f).accepted := by
  simp only [FrontierFacet.accepted, canonicalFacet, List.length_insertionSort,
    List.mem_insertionSort] at accepted ⊢
  exact accepted

theorem canonical_accepted {s : GrowthState} (accepted : s.accepted = true) :
    (canonical s).accepted = true := by
  obtain ⟨base, facet⟩ := (accepted_iff s).mp accepted
  refine (accepted_iff _).mpr ⟨?_, fun g present => ?_⟩
  · rw [← canonical_base]
    simp only [GrowthState.accepted, Bool.and_eq_true, List.all_eq_true] at base ⊢
    obtain ⟨sizes, texts⟩ := base
    refine ⟨?_, fun r member => texts r (canonical_rationals member)⟩
    simp only [decide_eq_true_eq, and_assoc] at sizes ⊢
    simp only [canonical, List.length_insertionSort, List.mem_insertionSort]
    obtain ⟨c, c', q, q', v, v', r, r', reservations, queue, obligations, checkpoints, widths,
      evidence, pending, used, assumptions, models, spent, charges, offered, completed, digests,
      live, hazards, -⟩ := sizes
    exact ⟨c, c', q, q', v, v', r, r', reservations, queue, obligations, checkpoints, widths,
      evidence, (sortedSet_length _).trans pending, (sortedSet_length _).trans used, assumptions,
      (sortedSet_length _).trans models, spent, charges, offered, completed,
      (sortedSet_length _).trans digests, (sortedSet_length _).trans live,
      (sortedSet_length _).trans hazards, rfl⟩
  · rw [canonical_frontier] at present
    obtain ⟨f, own, rfl⟩ := Option.map_eq_some_iff.mp present
    exact canonicalFacet_accepted (facet f own)

theorem withinPrediction_measured {s t : GrowthState} (same : canonical s = canonical t)
    (predicted : GrowthState) : withinPrediction s predicted = withinPrediction t predicted := by
  have capacities : (canonical s).capacities = (canonical t).capacities := by rw [same]
  change s.capacities = t.capacities at capacities
  have cover : covered s predicted = covered t predicted := by rw [covered, covered, capacities]
  have normal : normalize s = normalize t := by rw [normalize, normalize, same]
  rw [withinPrediction, withinPrediction, cover, normal, capacities]

theorem withinPrediction_predicted {s t : GrowthState} (same : canonical s = canonical t)
    (actual : GrowthState) : withinPrediction actual s = withinPrediction actual t := by
  have capacities : (canonical s).capacities = (canonical t).capacities := by rw [same]
  change s.capacities = t.capacities at capacities
  have replaced : canonical { s with capacities := actual.capacities } =
      canonical { t with capacities := actual.capacities } :=
    congrArg (fun n : GrowthState => { n with capacities := actual.capacities }) same
  have cover : covered actual s = covered actual t := by rw [covered, covered, capacities]
  have normal : normalize { s with capacities := actual.capacities } =
      normalize { t with capacities := actual.capacities } := by
    rw [normalize, normalize, replaced]
  rw [withinPrediction, withinPrediction, cover, normal]

theorem canonicalSupport_state {hash : EpistemicHashing} {s t : GrowthState}
    (same : canonical s = canonical t) (before after : List EpistemicHypothesis)
    (h : EpistemicHypothesis) :
    canonicalSupport hash (before ++ { h with state := s } :: after) =
      canonicalSupport hash (before ++ { h with state := t } :: after) := by
  have alike : normalizeHypothesis { h with state := s } =
      normalizeHypothesis { h with state := t } := by
    simp only [normalizeHypothesis, normalize, same]
  simp only [canonicalSupport, List.mapM_append, List.mapM_cons, alike]

/-- Two states that denote one ledger are interchangeable exactly when they are written
alike: the canonical form keeps spellings and the order of ties. -/
theorem interchangeable_iff {hash : EpistemicHashing} {s t : GrowthState}
    (valid : s.accepted = true) (same : ledger s = ledger t) :
    Interchangeable hash s t ↔ WrittenAlike s t := by
  rw [← canonical_eq_iff same]
  constructor
  · intro alike
    obtain ⟨n, left, right⟩ := alike.normal
    rw [(normalize_ok.mp left).2, (normalize_ok.mp right).2]
  · intro equal
    have accepted := canonical_accepted valid
    exact {
      normal := ⟨canonical s, normalize_ok.mpr ⟨accepted, rfl⟩,
        normalize_ok.mpr ⟨equal ▸ accepted, equal.symm⟩⟩
      digest := by rw [stateDigest, stateDigest, normalize, normalize, equal]
      measured := withinPrediction_measured equal
      predicted := withinPrediction_predicted equal
      support := fun before h after => canonicalSupport_state equal before after h }

namespace Sample
open CollectivePhaseControl.Sample (declared whole dict)

/-- The same ledger after half a unit of time, in two spellings. -/
def half : GrowthState := { declared with elapsed := ⟨false, 1, some 2⟩ }
def quarters : GrowthState := { declared with elapsed := ⟨false, 2, some 4⟩ }

def booking (owner : Identifier) (quantity : ℕ) : GrowthReservation :=
  ⟨"gpu", owner, whole quantity, whole 1⟩

def booked (reservations : List GrowthReservation) : GrowthState :=
  { declared with reservations := reservations }

theorem half_ledger : ledger half = ledger quarters := by
  have same : F half.elapsed = F quarters.elapsed := by decide +kernel
  simp only [ledger, half, quarters] at same ⊢
  rw [same]

theorem booked_ledger {first second : List GrowthReservation} (perm : first.Perm second) :
    ledger (booked first) = ledger (booked second) := by
  have same : Multiset.ofList (first.map reservationFact) =
      Multiset.ofList (second.map reservationFact) := Multiset.coe_eq_coe.mpr (perm.map _)
  simp only [ledger, booked, same]

end Sample

/-- Reservations of different owners may be listed in either order. -/
theorem interchangeable_iff_sample :
    Interchangeable CollectivePhaseControl.Sample.epistemicDigests
      (Sample.booked [Sample.booking "a" 1, Sample.booking "b" 2])
      (Sample.booked [Sample.booking "b" 2, Sample.booking "a" 1]) := by
  refine (interchangeable_iff (by decide +kernel) (Sample.booked_ledger (.swap ..))).mpr ?_
  exact {
    capacities := rfl
    quality := rfl
    coverage := rfl
    resources := rfl
    reservations := insertionSort_eq_iff.mp (by decide +kernel)
    queue := fun _ => rfl
    obligations := fun _ => rfl
    elapsed := rfl
    checkpoints := fun _ => rfl
    evidence := rfl
    assumptions := rfl
    spent := rfl
    charges := rfl
    offered := rfl
    completed := rfl
    frontier := fun _ absent => nomatch absent }

/-- One ledger with two canonical forms: by a spelling, and by the order of two tied
reservations. -/
theorem normalize_not_canonical :
    (Sample.half.accepted = true ∧ Sample.quarters.accepted = true ∧
      ledger Sample.half = ledger Sample.quarters ∧
      ∃ n m, normalize Sample.half = .ok n ∧ normalize Sample.quarters = .ok m ∧ n ≠ m) ∧
    ∃ first second, first.accepted = true ∧ second.accepted = true ∧
      ledger first = ledger second ∧
      ∃ n m, normalize first = .ok n ∧ normalize second = .ok m ∧ n ≠ m := by
  have normal {s : GrowthState} (accepted : s.accepted = true) :
      normalize s = .ok (canonical s) := normalize_ok.mpr ⟨canonical_accepted accepted, rfl⟩
  constructor
  · have left : Sample.half.accepted = true := by decide +kernel
    have right : Sample.quarters.accepted = true := by decide +kernel
    refine ⟨left, right, Sample.half_ledger, _, _, normal left, normal right, fun same => ?_⟩
    have elapsed : Sample.half.elapsed = Sample.quarters.elapsed :=
      congrArg (fun n : GrowthState => n.elapsed) same
    exact absurd elapsed (by decide)
  · let first := Sample.booked [Sample.booking "a" 1, Sample.booking "a" 2]
    let second := Sample.booked [Sample.booking "a" 2, Sample.booking "a" 1]
    have left : first.accepted = true := by decide +kernel
    have right : second.accepted = true := by decide +kernel
    refine ⟨first, second, left, right, Sample.booked_ledger (.swap ..), _, _, normal left,
      normal right, fun same => ?_⟩
    have reservations : (canonical first).reservations = (canonical second).reservations := by
      rw [same]
    exact absurd reservations (by decide +kernel)

end LedgerSpellings
end CollectivePhaseControl
