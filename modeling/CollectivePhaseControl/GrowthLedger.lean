import CollectivePhaseControl.Documents

/-! The ledger's canonical form and its admissibility. `normalize` orders the list
facets and revalidates the size bounds of the model; `checkState` is run on every
prefix of a growth run. -/
namespace CollectivePhaseControl

variable (hash : Hashing)

/-- `sorted(set(values))`. -/
def sortedSet (values : List String) : List String := values.dedup.insertionSort (· ≤ ·)

theorem mem_sortedSet {values : List String} {x : String} : x ∈ sortedSet values ↔ x ∈ values := by
  rw [sortedSet, List.mem_insertionSort, List.mem_dedup]

theorem sortedSet_nodup (values : List String) : (sortedSet values).Nodup :=
  (List.perm_insertionSort _ _).nodup_iff.mpr (List.nodup_dedup values)

namespace GrowthState

def workIds (works : List GrowthWork) : List Identifier := works.map (·.workId)

def rationals (s : GrowthState) : List Rational :=
  (s.capacities.values.flatMap fun x => [x.lower, x.upper]) ++ s.quality.values ++
    s.coverage.values ++ s.resources.values ++
    (s.reservations.flatMap fun r => [r.quantity, r.upto]) ++
    ((s.queue ++ s.obligations).flatMap fun w => [w.remaining, w.deadline]) ++ [s.elapsed] ++
    (s.checkpoints.flatMap fun p =>
      p.time :: p.capacities.values.flatMap fun x => [x.lower, x.upper]) ++
    s.evidence.values ++ s.assumptions.values ++ s.spent.values ++
    (s.charges.values.flatMap fun bucket => bucket.values) ++ s.offered.values ++
    s.completed.values ++
    match s.frontier with
    | some f => f.activationLineage.map (·.modelTime)
    | none => []

/-- The field bounds of `GrowthState` and `GrowthFrontierState`. -/
def accepted (s : GrowthState) : Bool :=
  3 ≤ s.capacities.size && s.capacities.size ≤ 32 &&
    3 ≤ s.quality.size && s.quality.size ≤ 32 &&
    3 ≤ s.coverage.size && s.coverage.size ≤ 32 &&
    1 ≤ s.resources.size && s.resources.size ≤ 32 &&
    s.reservations.length ≤ 128 && s.queue.length ≤ 128 && s.obligations.length ≤ 128 &&
    s.checkpoints.length ≤ 64 &&
    s.checkpoints.all (fun p => 3 ≤ p.capacities.size && p.capacities.size ≤ 32) &&
    s.evidence.size ≤ 128 && s.pendingResults.length ≤ 128 && s.usedActions.length ≤ 32 &&
    s.assumptions.size ≤ 128 && s.modelIds.length ≤ 32 && s.spent.size ≤ 32 &&
    s.charges.size ≤ 16 && s.offered.size ≤ 32 && s.completed.size ≤ 32 &&
    s.actualEvidenceDigests.length ≤ 128 && s.liveObjectDigests.length ≤ 10000 &&
    s.hazards.length ≤ 128 &&
    (match s.frontier with
      | some f => 1 ≤ f.enabledActionIds.length && f.enabledActionIds.length ≤ 16 &&
          f.activationDepth ≤ 16 && f.activationLineage.length ≤ 16 &&
          f.activationLineage.all (fun x => 1 ≤ x.depth && x.depth ≤ 16)
      | none => true) &&
    s.rationals.all (fun r => decide r.accepted)

def validate (s : GrowthState) : Checked GrowthState :=
  if s.accepted then .ok s else .error (.crash .validationError)

end GrowthState

/-- Lexicographic order on `(resource, owner, F(until))`. -/
def reservationLE (a b : GrowthReservation) : Prop :=
  a.resource < b.resource ∨ a.resource = b.resource ∧
    (a.owner < b.owner ∨ a.owner = b.owner ∧ F a.upto ≤ F b.upto)

instance : DecidableRel reservationLE := fun a b => by unfold reservationLE; infer_instance

def canonical (s : GrowthState) : GrowthState :=
  { s with
    modelIds := sortedSet s.modelIds
    usedActions := sortedSet s.usedActions
    pendingResults := sortedSet s.pendingResults
    actualEvidenceDigests := sortedSet s.actualEvidenceDigests
    liveObjectDigests := sortedSet s.liveObjectDigests
    hazards := sortedSet s.hazards
    queue := s.queue.insertionSort (fun a b => a.workId ≤ b.workId)
    obligations := s.obligations.insertionSort (fun a b => a.workId ≤ b.workId)
    reservations := s.reservations.insertionSort reservationLE
    checkpoints := s.checkpoints.insertionSort (fun a b => F a.time ≤ F b.time)
    frontier := s.frontier.map fun f =>
      { f with
        enabledActionIds := f.enabledActionIds.insertionSort (· ≤ ·)
        activationLineage :=
          f.activationLineage.insertionSort (fun a b => a.actionId ≤ b.actionId) } }

def normalize (s : GrowthState) : Checked GrowthState := (canonical s).validate

def stateDigest (s : GrowthState) : Checked Digest := do
  pure (hash.state (← normalize s))

/-- `_intervals`: ordered, and nonnegative unless that is waived. -/
def checkIntervals (values : Dict GrowthInterval) (nonnegative : Bool) : Checked Unit :=
  require (∀ v ∈ values.values, F v.lower ≤ F v.upper ∧ (nonnegative = true → 0 ≤ F v.lower))
    "growth_interval_invalid"

def checkNonnegative (values : Dict Rational) : Checked Unit :=
  require (∀ v ∈ values.values, 0 ≤ F v) "growth_negative_quantity"

def backlog (works : List GrowthWork) (stage : Identifier) : ℚ :=
  ((works.filter (·.stage = stage)).map (F ·.remaining)).sum

/-- Quantity of one shared resource under reservations that outlast `elapsed`. -/
def reserved (s : GrowthState) (resource : Identifier) : ℚ :=
  ((s.reservations.filter fun r => r.resource = resource ∧ F s.elapsed < F r.upto).map
    (F ·.quantity)).sum

def checkWorks (c : GrowthContractSpec) (elapsed : ℚ) :
    List Identifier → List GrowthWork → Checked (List Identifier)
  | seen, [] => .ok seen
  | seen, work :: rest => do
    require (work.workId ∉ seen) "growth_work_duplicate"
    require (work.stage ∈ c.domains ∧ 0 ≤ F work.remaining) "growth_work_invalid"
    require (F work.remaining = 0 ∨ elapsed < F work.deadline) "growth_work_deadline"
    checkWorks c elapsed (work.workId :: seen) rest

def checkBacklog (limits : Dict Rational) (works : List GrowthWork) : Checked Unit :=
  works.forM fun work => do
    require (backlog works work.stage ≤ F (← limits.item work.stage)) "growth_backlog_limit"

def checkDomain (s : GrowthState) (key : Identifier) (domain : GrowthDomain) : Checked Unit := do
  let capacity ← s.capacities.item key
  require (F domain.serviceFloor ≤ F capacity.lower) "growth_service_floor"
  let quality ← s.quality.item key
  require (F domain.qualityFloor ≤ F quality ∧ F quality ≤ 1) "growth_quality_floor"
  let coverage ← s.coverage.item key
  require (F domain.coverageFloor ≤ F coverage ∧ F coverage ≤ 1) "growth_coverage_floor"

def jointDemand (s : GrowthState) (coefficients : Dict Rational) : Checked ℚ := do
  let terms ← coefficients.toList.mapM fun p => do
    pure (F p.2 * F (← s.capacities.item p.1).upper)
  pure terms.sum

def checkShared (c : GrowthContractSpec) (s : GrowthState) (key : Identifier)
    (amount : Rational) : Checked Unit := do
  let joint ← jointDemand s (← c.jointCoefficients.item key)
  require (joint + reserved s key ≤ F amount) "growth_shared_resource_double_booking"

def checkCheckpoint (c : GrowthContractSpec) (s : GrowthState) (p : GrowthCheckpoint) :
    Checked Unit := do
  require (p.capacities.keys = c.domains.keys ∧ 0 ≤ F p.time ∧ F p.time ≤ F s.elapsed)
    "growth_checkpoint_invalid"
  checkIntervals p.capacities true

def checkState (c : GrowthContractSpec) (s : GrowthState) : Checked Unit := do
  require (s.capacities.keys = s.quality.keys ∧ s.quality.keys = s.coverage.keys ∧
    s.coverage.keys = c.domains.keys) "growth_domains_mismatch"
  checkIntervals s.capacities true
  require (s.resources.keys = c.resourceUnits.keys) "growth_resource_domain"
  require (0 ≤ F s.elapsed ∧ F s.elapsed ≤ F c.deadline) "growth_deadline"
  require (s.modelIds ⊆ c.modelCatalogue) "growth_model_domain"
  c.domains.toList.forM fun p => checkDomain s p.1 p.2
  s.resources.toList.forM fun p =>
    require (F (c.resourceFloors.getD p.1 (.ofNat 0)) ≤ F p.2) "growth_resource_floor"
  let seen ← checkWorks c (F s.elapsed) [] s.queue
  checkBacklog c.queueLimits s.queue
  let _ ← checkWorks c (F s.elapsed) seen s.obligations
  checkBacklog c.debtLimits s.obligations
  s.reservations.forM fun r =>
    require (r.resource ∈ c.sharedResources ∧ 0 ≤ F r.quantity) "growth_reservation_domain"
  c.sharedResources.toList.forM fun p => checkShared c s p.1 p.2
  s.checkpoints.forM (checkCheckpoint c s)
  require (s.checkpoints.map (F ·.time)).Nodup "growth_checkpoint_invalid"

end CollectivePhaseControl
