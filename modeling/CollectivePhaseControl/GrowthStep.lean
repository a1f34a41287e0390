import CollectivePhaseControl.GrowthFrontier

/-! The prepaid start of a growth run and one model step. A step is cut into the
parts that the ledger laws speak about: timing, completed work, charges, capacity
credit, required objects, registered boundaries, and the assembled result. -/
namespace CollectivePhaseControl

variable (hash : Hashing)

abbrev Frontier := Option GrowthCapabilityFrontier

def planningCategory : PlanningBoundary → Identifier
  | .sharedBudget => "planner"
  | .externalPaid => "external-planner"

/-- The bucket that replaces the category's prior bucket: one entry for each resource
of the planning charge and no other. -/
def planningBucket (prior planningCharge : Dict Rational) : Dict Rational :=
  planningCharge.map fun key value => str (F (prior.getD key (.ofNat 0)) + F value)

def prepay : List (Identifier × Rational) → Dict Rational × Dict Rational →
    Checked (Dict Rational × Dict Rational)
  | [], ledger => .ok ledger
  | (key, value) :: rest, (resources, spent) => do
    let held ← resources.item key
    prepay rest (resources.insert key (str (F held - F value)), post spent key (F value))

/-- Resources and spent after the planning allowance; an external payer leaves them. -/
def prepaid (c : GrowthContractSpec) : Checked (Dict Rational × Dict Rational) :=
  let s := c.initialState
  if c.planningBoundary = .sharedBudget then prepay c.planningCharge.toList (s.resources, s.spent)
  else pure (s.resources, s.spent)

def prepaidCharges (c : GrowthContractSpec) : Dict (Dict Rational) :=
  let category := planningCategory c.planningBoundary
  let charges := c.initialState.charges
  charges.insert category (planningBucket (charges.getD category ∅) c.planningCharge)

def makeInterval (lower upper : ℚ) : Checked GrowthInterval :=
  if (str lower).accepted ∧ (str upper).accepted then .ok ⟨str lower, str upper⟩
  else .error (.crash .validationError)

def makeCheckpoint (time : ℚ) (capacities : Dict GrowthInterval) : Checked GrowthCheckpoint :=
  if (str time).accepted ∧ 3 ≤ capacities.size ∧ capacities.size ≤ 32 then
    .ok ⟨str time, capacities⟩
  else .error (.crash .validationError)

def sortedTimes (times : List ℚ) : List ℚ := times.dedup.insertionSort (· ≤ ·)

def windowTimes (c : GrowthContractSpec) : List ℚ :=
  c.windows.flatMap fun w => [F w.start, F w.stop]

/-- The declared time and the registered boundaries up to `elapsed`. -/
def initialBoundaries (c : GrowthContractSpec) (elapsed : ℚ) : List ℚ :=
  sortedTimes (F c.initialState.elapsed ::
    (windowTimes c).filter fun t => F c.initialState.elapsed ≤ t ∧ t ≤ elapsed)

/-- Add the checkpoints that are not there yet. -/
def addCheckpoints (capacities : Dict GrowthInterval) :
    List ℚ → List GrowthCheckpoint → Checked (List GrowthCheckpoint)
  | [], checkpoints => .ok checkpoints
  | boundary :: rest, checkpoints => do
    if checkpoints.any (F ·.time = boundary) then addCheckpoints capacities rest checkpoints
    else
      let checkpoint ← makeCheckpoint boundary capacities
      addCheckpoints capacities rest (checkpoints ++ [checkpoint])

def initialState (contract : GrowthContract) (frontier : Frontier) : Checked GrowthState := do
  let c := contract.spec
  let s := c.initialState
  let (resources, spent) ← prepaid c
  let elapsed := F s.elapsed + F c.planningDuration
  let checkpoints ← addCheckpoints s.capacities (initialBoundaries c elapsed) s.checkpoints
  let state ← normalize { s with
    resources := resources
    spent := spent
    charges := prepaidCharges c
    elapsed := str elapsed
    checkpoints := checkpoints }
  checkState c state
  match frontier with
  | some f => seed hash state f
  | none => pure state

/-- `k in available and F(available[k]) > at`. -/
def heldAfter (available : Dict Rational) (time : ℚ) (key : Identifier) : Prop :=
  ∃ expiry ∈ available[key]?, time < F expiry

instance (available : Dict Rational) (time : ℚ) (key : Identifier) :
    Decidable (heldAfter available time key) := by unfold heldAfter; infer_instance

def applicable (contract : GrowthContract) (s : GrowthState) (recipe : GrowthAction)
    (objects : Objects) (frontier : Frontier) : Checked (ActionSpec × CapabilitySpec) := do
  require (s.modelIds ≠ []) "growth_inconsistent_models"
  let action ← actionDocument objects recipe.actionDigest
  let cap ← capabilityDocument objects action.capabilityDigest
  match frontier with
  | some f => checkUse hash contract.spec objects f s action.actionId (F s.elapsed)
  | none => require (s.frontier = none) "growth_frontier_document_required"
  require (cap.repeatable = true ∨ action.actionId ∉ s.usedActions) "growth_nonrepeatable_reuse"
  require (F recipe.earliest ≤ F s.elapsed ∧ F s.elapsed < F recipe.expires)
    "growth_action_expired"
  require (action.requiredObjectDigests ⊆ s.liveObjectDigests) "growth_required_object"
  require (∀ hazard ∈ action.prohibitedHazards, hazard ∉ s.hazards) "growth_hazard"
  require (∀ key ∈ recipe.requiredEvidence, heldAfter s.evidence (F s.elapsed) key)
    "growth_premise_missing_or_expired"
  require (∀ key ∈ recipe.requiredAssumptions, heldAfter s.assumptions (F s.elapsed) key)
    "growth_premise_missing_or_expired"
  require ((← allCovered (lowerCapacity s) recipe.minimumCapacities.toList) = true)
    "growth_capacity_prerequisite"
  pure (action, cap)

def successors (s : GrowthState) (recipe : GrowthAction) : List GrowthSuccessor :=
  (recipe.successors.filter fun b => s.modelIds.any (· ∈ b.applicableModelIds)).insertionSort
    (fun a b => a.successorId ≤ b.successorId)

/-- `all(F(values[k]) >= end for k in names)`. -/
def premisesLast (values : Dict Rational) (stop : ℚ) (names : List Identifier) : Checked Unit := do
  let expiries ← names.mapM fun key => values.item key
  require (∀ expiry ∈ expiries, stop ≤ F expiry) "growth_premise_expires_during_action"

/-- `{w.work_id: w for w in works}`: the last item of an identifier wins. -/
def workOf (works : List GrowthWork) (id : Identifier) : Option GrowthWork :=
  works.reverse.find? (·.workId = id)

def completions (works : List GrowthWork) (stop : ℚ) :
    List (Identifier × Rational) → Dict Rational → Checked (Dict Rational)
  | [], used => .ok used
  | (id, amount) :: rest, used => do
    let item ← demand .keyError (workOf works id)
    require (0 ≤ F amount ∧ F amount ≤ F item.remaining) "growth_completion_exceeds_work"
    require (F amount = 0 ∨ stop ≤ F item.deadline) "growth_completion_late"
    completions works stop rest (post used item.stage (F amount))

def bookService (s : GrowthState) (effect : GrowthSuccessor) (used : Dict Rational) :
    List Identifier → Dict Rational × Dict Rational → Checked (Dict Rational × Dict Rational)
  | [], books => .ok books
  | stage :: rest, (completed, offered) => do
    let offer := balance effect.offeredService stage
    let capacity ← s.capacities.item stage
    require (balance used stage ≤ offer ∧ offer ≤ F capacity.lower * F effect.duration)
      "growth_service_overbooked"
    bookService s effect used rest
      (post completed stage (balance used stage), post offered stage offer)

def remaining (effect : GrowthSuccessor) (works : List GrowthWork) : List GrowthWork :=
  (works.filter fun w => balance effect.completedWork w.workId < F w.remaining).map fun w =>
    { w with remaining := str (F w.remaining - balance effect.completedWork w.workId) }

/-- The three ledgers that a charge is booked in. -/
structure ChargeBooks where
  resources : Dict Rational
  spent : Dict Rational
  charges : Dict (Dict Rational)

/-- Book one amount: withdrawn from resources, added to spent and to its bucket. -/
def chargeAmount (category : Identifier) (books : ChargeBooks) (key : Identifier)
    (amount : Rational) : Checked ChargeBooks := do
  let held ← books.resources.item key
  pure
    { resources := books.resources.insert key (str (F held - F amount))
      spent := post books.spent key (F amount)
      charges := books.charges.insert category
        (post (books.charges.getD category ∅) key (F amount)) }

def chargeCategory (books : ChargeBooks) (category : Identifier) (amounts : Dict Rational) :
    Checked ChargeBooks :=
  amounts.toList.foldlM (fun b p => chargeAmount category b p.1 p.2)
    { books with charges := books.charges.insert category (books.charges.getD category ∅) }

def bookCharges (effect : GrowthSuccessor) (books : ChargeBooks) : Checked ChargeBooks :=
  effect.charges.toList.foldlM (fun b p => chargeCategory b p.1 p.2) books

def creditCapacities : List (Identifier × GrowthInterval) → Dict GrowthInterval →
    Checked (Dict GrowthInterval)
  | [], capacities => .ok capacities
  | (key, delta) :: rest, capacities => do
    let capacity ← capacities.item key
    let credited ← makeInterval (F capacity.lower + F delta.lower) (F capacity.upper + F delta.upper)
    creditCapacities rest (capacities.insert key credited)

/-- A required object must be present and valid for the whole step on the model clock. -/
def requiredObjectLive (c : GrowthContractSpec) (objects : Objects) (scale start stop : ℚ)
    (digest : Digest) : Checked Unit := do
  match objects[digest]? with
  | none => .error (.coded "growth_required_object")
  | some document =>
    match document.spec.lifecycle with
    | none => pure ()
    | some lifecycle =>
      require ((← secondsAfter c.modelTimeOrigin lifecycle.validFrom) ≤ start * scale)
        "growth_required_object_expired"
      require (stop * scale ≤ (← secondsAfter c.modelTimeOrigin lifecycle.validUntil))
        "growth_required_object_expired"
      match lifecycle.withdrawnAt with
      | none => pure ()
      | some withdrawn =>
        require (stop * scale < (← secondsAfter c.modelTimeOrigin withdrawn))
          "growth_required_object_expired"

/-- Entries that neither expire before `stop` nor are removed, then the added ones. -/
def carryPremises (values added : Dict Rational) (removed : List Identifier) (stop : ℚ) :
    Dict Rational :=
  Dict.update (values.filter fun key value => key ∉ removed ∧ stop ≤ F value) added

/-- Checkpoints at the registered boundaries inside the step: old service before its
end and the credited service at its end. -/
def boundaryCheckpoints (before after : Dict GrowthInterval) (stop : ℚ) :
    List ℚ → Checked (List GrowthCheckpoint)
  | [] => .ok []
  | t :: rest => do
    let checkpoint ← makeCheckpoint t (if t = stop then after else before)
    pure (checkpoint :: (← boundaryCheckpoints before after stop rest))

def stepBoundaries (c : GrowthContractSpec) (start stop : ℚ) : List ℚ :=
  (sortedTimes (windowTimes c)).filter fun t => start < t ∧ t ≤ stop

def outcomeBranch (cap : CapabilitySpec) (outcome : OutcomeName) : Checked BranchEffect :=
  demand .stopIteration (cap.branches.find? (·.outcome = outcome))

/-- What a step computes before the result is put together. -/
structure StepParts where
  stop : ℚ
  reservations : List GrowthReservation
  queue : List GrowthWork
  obligations : List GrowthWork
  completed : Dict Rational
  offered : Dict Rational
  books : ChargeBooks
  capacities : Dict GrowthInterval
  branch : BranchEffect
  removals : List Digest
  checkpoints : List GrowthCheckpoint

def stepResult (s : GrowthState) (action : ActionSpec) (cap : CapabilitySpec)
    (effect : GrowthSuccessor) (p : StepParts) : GrowthState :=
  { s with
    capacities := p.capacities
    quality := s.quality.update effect.quality
    coverage := s.coverage.update effect.coverage
    resources := p.books.resources
    spent := p.books.spent
    charges := p.books.charges
    reservations := (p.reservations ++ effect.reservations).filter (p.stop < F ·.upto)
    queue := p.queue
    obligations := p.obligations
    elapsed := str p.stop
    checkpoints := s.checkpoints ++ p.checkpoints
    evidence := carryPremises s.evidence effect.evidenceAdded effect.evidenceRemoved p.stop
    assumptions :=
      carryPremises s.assumptions effect.assumptionsAdded effect.assumptionsRemoved p.stop
    usedActions := s.usedActions ++ (if cap.repeatable then [] else [action.actionId])
    pendingResults := sortedSet (s.pendingResults.filter (· ∉ effect.pendingResolved) ++
      effect.pendingAdded ++ p.branch.mustAdd ++ p.branch.mayAdd)
    liveObjectDigests := sortedSet (s.liveObjectDigests.filter (· ∉ p.removals))
    hazards := sortedSet (s.hazards.filter (· ∉ p.branch.hazardsRemoved) ++ p.branch.hazardsAdded)
    offered := p.offered
    completed := p.completed
    attribution := if s.attribution ≠ effect.attribution then .unresolved else s.attribution }

/-- Everything before the result, in the source's order of checks. -/
def stepParts (contract : GrowthContract) (s : GrowthState) (recipe : GrowthAction)
    (effect : GrowthSuccessor) (objects : Objects) (action : ActionSpec) (cap : CapabilitySpec) :
    Checked StepParts := do
  let c := contract.spec
  let stop := F s.elapsed + F effect.duration
  require (stop ≤ F recipe.expires ∧ stop ≤ F c.deadline) "growth_deadline"
  premisesLast s.evidence stop recipe.requiredEvidence
  premisesLast s.assumptions stop recipe.requiredAssumptions
  let reservations := s.reservations.filter (F s.elapsed < F ·.upto)
  require (∀ r ∈ effect.reservations, stop ≤ F r.upto) "growth_reservation_expired"
  -- The old service vector is still offered while the new reservations are checked.
  checkState c { s with reservations := reservations ++ effect.reservations }
  let queues := s.queue ++ effect.arrivals
  let debts := s.obligations ++ effect.debtAdded
  checkState c { s with queue := queues, obligations := debts }
  let works := queues ++ debts
  require (GrowthState.workIds works).Nodup "growth_work_duplicate"
  require (∀ id ∈ effect.completedWork.keys, id ∈ GrowthState.workIds works)
    "growth_completion_without_work"
  checkNonnegative effect.offeredService
  require (∀ key ∈ effect.offeredService.keys, key ∈ c.domains) "growth_queue_domain"
  let used ← completions works stop effect.completedWork.toList ∅
  let (completed, offered) ←
    bookService s effect used c.domains.keys (s.completed, s.offered)
  let queue := remaining effect queues
  let obligations := remaining effect debts
  let books ← bookCharges effect ⟨s.resources, s.spent, s.charges⟩
  let capacities ← creditCapacities effect.capacityDelta.toList s.capacities
  if effect.capacityDelta.values.any (0 < F ·.lower) then
    require (∀ id ∈ GrowthState.workIds (obligations ++ queue), id ∉ c.blockingObligationIds)
      "growth_credit_blocked_by_work"
  let branch ← outcomeBranch cap effect.outcome
  let scale ← timeScale c objects
  action.requiredObjectDigests.forM (requiredObjectLive c objects scale (F s.elapsed) stop)
  let removals := branch.mustRemove ++ branch.mayRemove
  require (∀ digest ∈ removals, digest ∉ action.protectedObjectDigests) "growth_protected_object"
  let checkpoints ← boundaryCheckpoints s.capacities capacities stop
    (stepBoundaries c (F s.elapsed) stop)
  pure { stop, reservations, queue, obligations, completed, offered, books, capacities, branch,
         removals, checkpoints }

def transition (contract : GrowthContract) (s : GrowthState) (recipe : GrowthAction)
    (effect : GrowthSuccessor) (objects : Objects) (frontier : Frontier) :
    Checked GrowthState := do
  let (action, cap) ← applicable hash contract s recipe objects frontier
  require (effect ∈ successors s recipe) "growth_undeclared_successor"
  let parts ← stepParts contract s recipe effect objects action cap
  let result ← normalize (stepResult s action cap effect parts)
  require (∀ hazard ∈ result.hazards, hazard ∉ action.prohibitedHazards) "growth_hazard"
  checkState contract.spec result
  match frontier with
  | some f => activate hash contract.spec objects f s result recipe effect
  | none => pure result

end CollectivePhaseControl
