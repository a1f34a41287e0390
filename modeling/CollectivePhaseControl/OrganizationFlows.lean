import CollectivePhaseControl.OrganizationKernels

/-! The remaining kernels of the v0.5 audit: the typed flow profile with its trajectory,
verifiers, independence, the quorum for trust updates and coordination sessions. -/
namespace CollectivePhaseControl
namespace Organization

/-- What a trajectory step raises; only the first kind is caught. -/
inductive FlowError where
  | invalid (detail : String)
  | keyError

structure FlowState where
  marking : Dict ℚ
  trajectory : List (Dict ℚ)
  reasons : List String

abbrev Flow := EStateM FlowError FlowState

def note (condition : Prop) [Decidable condition] (reason : String) : Flow Unit :=
  modify fun s => { s with reasons := s.reasons ++ reasonIf condition reason }

/-- What `_fraction` raises for a value that it does not read. -/
def fractionFailure (value : Json) : String :=
  let written := (text value).toList
  let negative := written.head? = some '-'
  let digits := if negative then written.tail else written
  match (digits.splitOn '/').mapM natural with
  | some [n, 0] => "Fraction(" ++ toString (if negative then -(n : ℤ) else n) ++ ", 0)"
  | some [_] | some [_, _] => "rational_bit_length_exceeded"
  | _ => "Invalid literal for Fraction: '" ++ text value ++ "'"

def exact (value : Json) : Flow ℚ :=
  match fraction value with
  | some result => pure result
  | none => throw (.invalid (fractionFailure value))

def addAction (transformations : JsonObject) (step : ℕ) (delta : Dict ℚ)
    (action : String × Json) : Flow (Dict ℚ) := do
  match members? (transformations.get action.1) with
  | none =>
    note True ("unknown_trajectory_transformation:" ++ action.1)
    pure delta
  | some declaration =>
    let amount ← exact action.2
    note (amount < 0) ("negative_action_count:" ++ action.1 ++ ":" ++ toString step)
    match members? (declaration.get "flow") with
    | none =>
      note True ("transformation_flow_invalid:" ++ action.1)
      pure delta
    | some flow =>
      flow.foldlM (fun delta item => do
        note (item.1 ∉ (← get).marking) ("flow_coordinate_unknown:" ++ item.1)
        let coefficient ← exact item.2
        pure (delta.add item.1 (amount * coefficient))) delta

def addBoundary (duration : ℚ) (delta : Dict ℚ) (supply : String × Json) : Flow (Dict ℚ) := do
  note (supply.1 ∉ (← get).marking) ("boundary_coordinate_unknown:" ++ supply.1)
  let rate ← exact supply.2
  pure (delta.add supply.1 (rate * duration))

def moveCoordinate (floors delta : Dict ℚ) (step : ℕ) (item : Identifier × ℚ) : Flow Unit := do
  let value := item.2 + delta.getD item.1 0
  modify fun s => { s with marking := s.marking.insert item.1 value }
  match floors[item.1]? with
  | none => throw .keyError
  | some floor =>
    note (value < floor) ("prefix_floor_violation:" ++ item.1 ++ ":" ++ toString (step + 1))

def flowStep (transformations : JsonObject) (floors : Dict ℚ) (duration : ℚ) (step : ℕ)
    (actions boundary : Json) : Flow Unit := do
  match members? actions, members? boundary with
  | some actions, some boundary =>
    let delta ← actions.foldlM (addAction transformations step) ∅
    let delta ← boundary.foldlM (addBoundary duration) delta
    for item in (← get).marking.toList do
      moveCoordinate floors delta step item
    modify fun s => { s with trajectory := s.trajectory ++ [s.marking] }
  | _, _ => throw (.invalid "flow step must be an object")

/-- All steps; both lists have to end together. -/
def flowSteps (transformations : JsonObject) (floors : Dict ℚ) (duration : ℚ) :
    ℕ → List Json → List Json → Flow Unit
  | _, [], [] => pure ()
  | step, actions :: counts, boundary :: supplies => do
    flowStep transformations floors duration step actions boundary
    flowSteps transformations floors duration (step + 1) counts supplies
  | _, [], _ :: _ => throw (.invalid "zip() argument 2 is longer than argument 1")
  | _, _ :: _, [] => throw (.invalid "zip() argument 2 is shorter than argument 1")

/-- The initial marking and the floors, as far as the declarations are valid. -/
def declare (units : JsonObject) : JsonObject → FlowState → Dict ℚ → FlowState × Dict ℚ
  | [], s, floors => (s, floors)
  | (coordinate, declaration) :: rest, s, floors =>
    let refuse (reason : String) : FlowState :=
      { s with reasons := s.reasons ++ [reason ++ coordinate] }
    match members? declaration with
    | none => declare units rest (refuse "coordinate_declaration_invalid:") floors
    | some declaration =>
      if (members? (units.get (text (declaration.get "unit")))).isNone then
        declare units rest (refuse "coordinate_unit_unknown:") floors
      else
        match fraction (declaration.get "initial") with
        | none => declare units rest (refuse "coordinate_quantity_invalid:") floors
        | some initial =>
          let marking := s.marking.insert coordinate initial
          match fraction (declaration.get "protected_floor") with
          | none =>
            declare units rest { refuse "coordinate_quantity_invalid:" with marking := marking }
              floors
          | some floor =>
            declare units rest { s with marking := marking } (floors.insert coordinate floor)

/-- Whether an amount of one of the coordinates is positive; an invalid one raises. -/
def anyPositive (amounts : JsonObject) : List Identifier → Checked Bool
  | [] => .ok false
  | item :: rest =>
    match fraction ((amounts.lookup item).getD (.str "0")) with
    | none => .error (.crash .valueError)
    | some value => if 0 < value then .ok true else anyPositive amounts rest

def anyFed (coordinates : List Identifier) : List JsonObject → Checked Bool
  | [] => .ok false
  | amounts :: rest => do
    if ← anyPositive amounts coordinates then pure true else anyFed coordinates rest

def siphonReasons (liveSourceIds : Finset Identifier) (initial : Dict ℚ) (supplies : List Json)
    (transformations : JsonObject) (siphon : Json) : Checked (List String) :=
  match members? siphon with
  | none => .ok ["fed_siphon_record_invalid"]
  | some siphon => do
    let coordinates := inOrder (idSet (siphon.get "coordinates"))
    let refs := idSet (siphon.get "source_refs")
    let live := reasonIf (refs = ∅ ∨ ¬ refs ⊆ liveSourceIds) "fed_siphon_source_not_live"
    match (siphon.get "coverage").string? with
    | some "initially_marked" =>
      pure (live ++ reasonIf (¬ ∃ item ∈ coordinates, 0 < initial.getD item 0)
        "fed_siphon_not_initially_marked")
    | some "boundary_fed" =>
      let fed ← anyFed coordinates (supplies.filterMap members?)
      pure (live ++ reasonIf (fed = false) "fed_siphon_not_boundary_fed")
    | some "replenished" =>
      let flows := (transformations.map Prod.snd).filterMap fun declaration =>
        (members? declaration).bind fun declaration => members? (declaration.get "flow")
      let fed ← anyFed coordinates flows
      pure (live ++ reasonIf (fed = false) "fed_siphon_not_replenished")
    | _ => pure live

structure TypedFlowResult where
  status : Status
  reasons : List String
  trajectory : List (Dict ℚ)

def headerReasons (digestRegistry : JsonObject → Digest) (schemaReasons : JsonObject → List String)
    (profile registry : JsonObject) (snapshot : Digest) : List String :=
  schemaReasons profile ++
  reasonIf ((profile.get "analysis_snapshot_digest").string? ≠ some snapshot)
    "typed_flow_snapshot_mismatch" ++
  reasonIf ((profile.get "unit_registry_digest").string? ≠ some (digestRegistry registry))
    "typed_flow_unit_registry_mismatch"

def stepDuration (profile : JsonObject) : ℚ × List String :=
  match fraction (profile.get "step_duration") with
  | some duration => (duration, reasonIf (duration ≤ 0) "typed_flow_duration_not_positive")
  | none => (0, ["typed_flow_duration_invalid"])

def horizonIs (profile : JsonObject) (length : ℕ) : Bool :=
  match profile.get "horizon_steps" with
  | .int horizon => horizon == length
  | .bool value => value.toNat == length
  | _ => false

def runFlow (start : FlowState) (steps : Flow Unit) : Checked FlowState :=
  match steps.run start with
  | .ok _ s => .ok s
  | .error (.invalid detail) s =>
    .ok { s with reasons := s.reasons ++ ["typed_flow_exact_arithmetic_invalid:" ++ detail] }
  | .error .keyError _ => .error (.crash .keyError)

def collected (f : Json → Checked (List String)) : List Json → Checked (List String)
  | [] => .ok []
  | item :: rest => do
    let reasons ← f item
    let more ← collected f rest
    pure (reasons ++ more)

/-- `validate_typed_flow_profile`; the schema's validator is a parameter. -/
def validateTypedFlowProfile (digestRegistry : JsonObject → Digest)
    (schemaReasons : JsonObject → List String) (profile registry : JsonObject)
    (liveSourceIds : Finset Identifier) (snapshot : Digest) : Checked TypedFlowResult :=
  let header := headerReasons digestRegistry schemaReasons profile registry snapshot
  match members? (registry.get "units") with
  | none => .ok ⟨.violated, header ++ ["unit_registry_invalid"], []⟩
  | some units =>
    match members? (profile.get "coordinates"), members? (profile.get "transformations"),
      items? (profile.get "action_counts"), items? (profile.get "boundary_rates") with
    | some coordinates, some transformations, some counts, some supplies => do
      let horizon := reasonIf (horizonIs profile counts.length = false ∨
        horizonIs profile supplies.length = false) "typed_flow_horizon_length_mismatch"
      let timeUnit := reasonIf ((members? (units.get (text (profile.get "time_unit")))).isNone)
        "typed_flow_time_unit_unknown"
      let (duration, durationReasons) := stepDuration profile
      let (start, floors) := declare units coordinates
        ⟨∅, [], header ++ horizon ++ timeUnit ++ durationReasons⟩ ∅
      let final ← runFlow { start with trajectory := [start.marking] }
        (flowSteps transformations floors duration 0 counts supplies)
      let siphons ← collected (siphonReasons liveSourceIds start.marking supplies transformations)
        ((items? (profile.get "fed_siphons")).getD [])
      let (status, reasons) := finding (final.reasons ++ siphons)
      pure ⟨status, reasons, final.trajectory⟩
    | _, _, _, _ => .ok ⟨.violated, header ++ ["typed_flow_structure_invalid"], []⟩

def orElse (value : Json) (default : String) : Json :=
  match value with
  | .null => .str default
  | value => value

/-- One verifier; the load routed on from it, and what is wrong with it. -/
def verifierReasons (subjects : Finset Identifier) (sourceDigests : Finset Digest)
    (routedArrival : ℚ) (record : Statement) : ℚ × List String :=
  let source := (record.attributes.get "source_record_digest").string?
  let invalid := reasonIf (source = some record.subjectDigest ∨
    source.all (· ∉ sourceDigests)) ("verifier_source_record_invalid:" ++ record.subjectId)
  let missing := reasonIf (¬ idSet (record.attributes.get "source_refs") ⊆ subjects)
    ("verifier_source_ref_missing:" ++ record.subjectId)
  match fraction (orElse (record.attributes.get "arrival_upper") "0"),
    fraction (orElse (record.attributes.get "service_lower") "0"),
    fraction (orElse (record.attributes.get "routing_amplification") "1") with
  | some arrivalUpper, some service, some amplification =>
    let arrival := max arrivalUpper routedArrival
    (arrival * amplification, invalid ++
      reasonIf (service ≤ arrival) ("verifier_overloaded:" ++ record.subjectId) ++ missing)
  | _, _, _ =>
    (routedArrival, invalid ++ ["verifier_interval_invalid:" ++ record.subjectId] ++ missing)

def verifierChain (subjects : Finset Identifier) (sourceDigests : Finset Digest) :
    ℚ → List Statement → List String
  | _, [] => []
  | routedArrival, record :: rest =>
    let (routed, reasons) := verifierReasons subjects sourceDigests routedArrival record
    reasons ++ verifierChain subjects sourceDigests routed rest

def verification (statements : List Statement) : Finding :=
  match statements.filter (·.recordType = .verifier) with
  | [] => (.unknown, ["typed_verifier_records_required"])
  | records => finding (verifierChain (statements.map Statement.subjectId).toFinset
      (statements.map Statement.subjectDigest).toFinset 0
      (records.insertionSort (·.subjectId ≤ ·.subjectId)))

def independenceDomains (record : Statement) : Finset Identifier :=
  {record.principalId} ∪ record.lineageRefs.toFinset ∪ record.correlationDomains.toFinset ∪
    idSet (record.attributes.get "infrastructure_domains")

def independenceReasons (record : Statement) : List String :=
  let observer := (record.attributes.get "observer_attestation_ref").string?
  reasonIf (observer = none ∨ observer = some record.attestationId)
    ("independence_observer_invalid:" ++ record.subjectId) ++
  reasonIf ((record.attributes.get "commitment_digest").string? = none)
    ("independence_commitment_missing:" ++ record.subjectId)

def mergeGroup (components : List (Finset Identifier)) (group : Finset Identifier) :
    List (Finset Identifier) :=
  components.filter (fun item => decide (item ∩ group = ∅)) ++
    [(components.filter fun item => decide (item ∩ group ≠ ∅)).foldl (· ∪ ·) group]

def independence (statements : List Statement) (minimum : ℕ) : Finding × ℕ :=
  let records := statements.filter (·.recordType = .independence)
  let components := (records.map independenceDomains).foldl mergeGroup []
  let exposed := ((statements.filter fun s => s.recordType = .exposure ∧
    (s.attributes.get "before_commitment").isTrue).map fun s =>
      text (s.attributes.get "artifact_digest")).toFinset
  let effective := components.length - exposed.card
  let reasons := records.flatMap independenceReasons ++
    reasonIf (effective < minimum) ("effective_independence_below_contract_minimum:" ++
      toString effective ++ ":" ++ toString minimum)
  let status : Status :=
    if reasons = [] then .satisfied else if records = [] then .unknown else .violated
  let given := if reasons = [] ∧ records = [] then ["independence_attestations_required"]
    else reasons
  ((status, sortedSet given), effective)

def disjoint (first second : Principal) : Bool :=
  decide (first.infrastructureDomains.toFinset ∩ second.infrastructureDomains.toFinset = ∅)

def independentTrio (root auditor timestamp : Principal) : Bool :=
  [root.principalId, auditor.principalId, timestamp.principalId].Nodup &&
  [root.keyId, auditor.keyId, timestamp.keyId].Nodup &&
  disjoint root auditor && disjoint root timestamp && disjoint auditor timestamp

def quorumFeasible (principals : List Principal) : Finding :=
  let choice (role : String) : List Principal :=
    principals.filter fun item => !item.revoked && item.roles.contains role
  let roots := choice "workspace_root"
  let auditors := choice "trust_auditor"
  let timestamps := choice "timestamp"
  if roots = [] ∨ auditors = [] ∨ timestamps = [] then
    (.violated, ["trust_update_quorum_role_unavailable"])
  else if roots.any fun root => auditors.any fun auditor => timestamps.any fun timestamp =>
      independentTrio root auditor timestamp then (.satisfied, [])
  else (.violated, ["trust_update_quorum_not_disjoint"])

def keySet (value : Json) : Finset String := (((members? value).getD []).map Prod.fst).toFinset

def sessionReasons (session : JsonObject) : List String :=
  let id := text (session.get "session_id")
  reasonIf ((session.get "state").string? ≠ some "TERMINATED")
    ("coordination_session_not_terminated:" ++ id) ++
  reasonIf ((session.get "verification_capacity_satisfied").isTrue = false)
    ("coordination_verification_capacity_unsatisfied:" ++ id) ++
  reasonIf (keySet (session.get "commitments") ≠ keySet (session.get "reveals"))
    ("coordination_commit_reveal_incomplete:" ++ id)

/-- The active objects of one kind that the store holds as JSON objects. -/
def activeObjects (getJson : Digest → Checked Json) (kind : String) :
    List LedgerObject → Checked (List JsonObject)
  | [] => .ok []
  | entry :: rest =>
    if entry.kind = kind ∧ entry.lifecycle = "active" then do
      let value ← getJson entry.digest
      let more ← activeObjects getJson kind rest
      pure ((members? value).toList ++ more)
    else activeObjects getJson kind rest

def coordination (getJson : Digest → Checked Json) (manifest : Manifest) : Checked Finding := do
  let sessions ← activeObjects getJson "coordination-session" manifest.objects
  match sessions with
  | [] => pure (.unknown, ["bounded_coordination_session_not_observed"])
  | sessions => pure (finding (sessions.flatMap sessionReasons))

end Organization
end CollectivePhaseControl
