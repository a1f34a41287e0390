import CollectivePhaseControl.Profile

/-! Validation of one coordination session: the event documents are put in the order of their
hash chain and folded through the session's states. Everything that is wrong with an event
adds a blocker and the fold goes on. -/
namespace CollectivePhaseControl

inductive CoordinationState where
  | created | commitOpen | commitClosed | revealOpen | verify | integrate | terminated
deriving DecidableEq, Repr

def CoordinationState.text : CoordinationState → String
  | created => "CREATED"
  | commitOpen => "COMMIT_OPEN"
  | commitClosed => "COMMIT_CLOSED"
  | revealOpen => "REVEAL_OPEN"
  | verify => "VERIFY"
  | integrate => "INTEGRATE"
  | terminated => "TERMINATED"

def CoordinationEventType.text : CoordinationEventType → String
  | openCommit => "open_commit"
  | commit => "commit"
  | closeCommit => "close_commit"
  | openReveal => "open_reveal"
  | reveal => "reveal"
  | exposure => "exposure"
  | verification => "verification"
  | integration => "integration"
  | terminate => "terminate"

/-- The digest of a document, and the digest that commits an actor of a session to a proposal
and its artifact. -/
structure CoordinationDigests where
  document : Document → Digest
  proposalCommitmentDigest :
    (sessionId proposalId actorPrincipalId : Identifier) → (artifactDigest : Digest) → Digest

abbrev CoordinationEvent := Typed CoordinationEventSpec

def CoordinationEvent.document (event : CoordinationEvent) : Document :=
  ⟨event.metadata, event.extensions, .coordinationEvent event.spec⟩

def coordinationPlans (objects : Objects) : List (Typed CoordinationPlanSpec) :=
  objects.values.filterMap fun item =>
    match item.spec with
    | .coordinationPlan spec => some ⟨item.metadata, item.extensions, spec⟩
    | _ => none

def sessionEvents (objects : Objects) (sessionId : Identifier) : List CoordinationEvent :=
  objects.values.filterMap fun item =>
    match item.spec with
    | .coordinationEvent spec =>
      if spec.sessionId = sessionId then some ⟨item.metadata, item.extensions, spec⟩ else none
    | _ => none

/-- `cast(str, …)`: the models give the event's type this field. -/
def castStr (field : Option String) : Checked String := demand .typeError field

section
variable (w : CoordinationDigests)

def CoordinationEvent.digest (event : CoordinationEvent) : Digest := w.document event.document

/-- `by_prior.get(prior, [])`. -/
def children (events : List CoordinationEvent) (prior : Option Digest) : List CoordinationEvent :=
  events.filter fun event => event.spec.priorEventDigest = prior

def duplicateEventIds : List CoordinationEvent → List Identifier → List String
  | [], _ => []
  | event :: rest, seen =>
    reasonIf (event.spec.eventId ∈ seen)
      ("duplicate_coordination_event_id:" ++ event.spec.eventId) ++
    duplicateEventIds rest (event.spec.eventId :: seen)

/-- The `while True` loop: the events from `current` on, and the event at which the chain
forks. It visits an event twice only if it never ends, so `fuel` is the number of events. -/
def followChain (events : List CoordinationEvent) :
    ℕ → CoordinationEvent → Checked (List CoordinationEvent × List String)
  | 0, _ => .error (.crash .diverges)
  | fuel + 1, current =>
    match children events (some (current.digest w)) with
    | [] => .ok ([current], [])
    | [child] => (fun found => (current :: found.1, found.2)) <$> followChain events fuel child
    | _ => .ok ([current], ["coordination_event_chain_fork:" ++ current.spec.eventId])

def orderedEvents (events : List CoordinationEvent) :
    Checked (List CoordinationEvent × List String) :=
  let duplicates := duplicateEventIds events []
  match children events none with
  | [root] => do
    let (ordered, forks) ← followChain w events events.length root
    let seen := (ordered.map (·.digest w)).dedup
    pure (ordered, duplicates ++ forks ++
      reasonIf (seen.length ≠ events.length) "coordination_event_chain_disconnected")
  | _ => .ok ([], duplicates ++ ["coordination_event_chain_root_not_unique"])

/-- What is known of the session after some of its events. -/
structure Session where
  commitments : Dict (Identifier × Digest)
  reveals : Dict Digest
  verified : Dict String
  verifierLoad : Dict ℕ
  committedActors : List Identifier
  state : CoordinationState
  exposureCount : ℕ
  previousTime : Option DateTime

variable (plan : CoordinationPlanSpec)

def Session.start : Session where
  commitments := ∅
  reveals := ∅
  verified := ∅
  verifierLoad := plan.verifierPrincipals.foldl (fun load principal => load.insert principal 0) ∅
  committedActors := []
  state := .created
  exposureCount := 0
  previousTime := none

/-- The signers that the loader has verified, when the caller gives them. -/
abbrev Signers := Option (Dict (List Identifier))

def signerMismatch (signers : Signers) (digest : Digest) (principal : Identifier) : Prop :=
  match signers with
  | none => False
  | some principals => principal ∉ principals.getD digest []

instance decidableSignerMismatch (signers : Signers) (digest : Digest) (principal : Identifier) :
    Decidable (signerMismatch signers digest principal) := by
  unfold signerMismatch
  cases signers <;> infer_instance

/-- `previous_time is not None and spec.occurred_at < previous_time`. -/
def reversedTime (session : Session) (spec : CoordinationEventSpec) : Checked Bool :=
  match session.previousTime with
  | some previous => spec.occurredAt.lt previous
  | none => pure false

def checkEvent (signers : Signers) (time : DateTime) (session : Session)
    (event : CoordinationEvent) : Checked (List String) := do
  let spec := event.spec
  let reversed ← reversedTime session spec
  let future ← time.lt spec.occurredAt
  pure <|
    reasonIf (reversed = true) ("coordination_event_time_reversed:" ++ spec.eventId) ++
    reasonIf (future = true) ("coordination_event_from_future:" ++ spec.eventId) ++
    reasonIf (spec.actorPrincipalId ∉ plan.participantPrincipals)
      ("coordination_actor_not_registered:" ++ spec.eventId) ++
    reasonIf (signerMismatch signers (event.digest w) spec.actorPrincipalId)
      ("coordination_event_signer_mismatch:" ++ spec.eventId)

def onOpenCommit (session : Session) (spec : CoordinationEventSpec) : Session × List String :=
  ({ session with state := .commitOpen },
    reasonIf (spec.actorPrincipalId ≠ plan.planPrincipalId) "commit_open_requires_plan_principal")

def onCommit (session : Session) (spec : CoordinationEventSpec) :
    Checked (Session × List String) := do
  let late ← plan.commitDeadline.lt spec.occurredAt
  let proposalId ← castStr spec.proposalId
  let commitment ← castStr spec.commitmentDigest
  pure ({ session with
      commitments := session.commitments.insert proposalId (spec.actorPrincipalId, commitment)
      committedActors := spec.actorPrincipalId :: session.committedActors },
    reasonIf (late = true) ("commit_after_deadline:" ++ spec.eventId) ++
    reasonIf (proposalId ∈ session.commitments) ("duplicate_proposal_commitment:" ++ proposalId) ++
    reasonIf (spec.actorPrincipalId ∈ session.committedActors)
      ("participant_committed_more_than_once:" ++ spec.actorPrincipalId))

def onCloseCommit (session : Session) (spec : CoordinationEventSpec) : Session × List String :=
  ({ session with state := .commitClosed },
    reasonIf (spec.actorPrincipalId ≠ plan.planPrincipalId)
      "commit_close_requires_plan_principal" ++
    reasonIf (session.commitments.size < plan.requiredProposalCount)
      "required_proposal_count_not_committed")

def onOpenReveal (session : Session) (spec : CoordinationEventSpec) : Session × List String :=
  ({ session with state := .revealOpen },
    reasonIf (spec.actorPrincipalId ≠ plan.planPrincipalId) "reveal_open_requires_plan_principal")

def onReveal (session : Session) (spec : CoordinationEventSpec) :
    Checked (Session × List String) := do
  let late ← plan.revealDeadline.lt spec.occurredAt
  let proposalId ← castStr spec.proposalId
  let artifactDigest ← castStr spec.artifactDigest
  let lateness := reasonIf (late = true) ("reveal_after_deadline:" ++ spec.eventId)
  match session.commitments[proposalId]? with
  | none => pure (session, lateness ++ ["reveal_without_actor_commitment:" ++ proposalId])
  | some committed =>
    if committed.1 ≠ spec.actorPrincipalId then
      pure (session, lateness ++ ["reveal_without_actor_commitment:" ++ proposalId])
    else
      let expected := w.proposalCommitmentDigest plan.sessionId proposalId spec.actorPrincipalId
        artifactDigest
      if spec.commitmentDigest ≠ some committed.2 ∨ expected ≠ committed.2 then
        pure (session, lateness ++ ["commitment_reveal_digest_mismatch:" ++ proposalId])
      else
        pure ({ session with reveals := session.reveals.insert proposalId artifactDigest }, lateness)

def onExposure (session : Session) (spec : CoordinationEventSpec) : Session × List String :=
  ({ session with exposureCount := session.exposureCount + 1 },
    reasonIf (∀ recipient ∈ spec.recipientPrincipalId, recipient ∉ plan.participantPrincipals)
      ("exposure_recipient_not_registered:" ++ spec.eventId))

def bookVerification (session : Session) (spec : CoordinationEventSpec) :
    Checked (Session × List String) :=
  if spec.actorPrincipalId ∉ plan.verifierPrincipals then
    pure (session, ["verification_actor_not_registered:" ++ spec.eventId])
  else do
    let load := (← session.verifierLoad.item spec.actorPrincipalId) + 1
    let capacity ← plan.verifierCapacity.item spec.actorPrincipalId
    pure ({ session with verifierLoad := session.verifierLoad.insert spec.actorPrincipalId load },
      reasonIf (capacity < load) ("verification_capacity_exceeded:" ++ spec.actorPrincipalId))

def onVerification (session : Session) (spec : CoordinationEventSpec) :
    Checked (Session × List String) := do
  let (session, booked) ← bookVerification plan { session with state := .verify } spec
  let artifactDigest ← castStr spec.artifactDigest
  if artifactDigest ∉ session.reveals.values then
    pure (session, booked ++ ["verification_artifact_not_revealed:" ++ spec.eventId])
  else do
    let status ← castStr spec.verificationStatus
    pure ({ session with verified := session.verified.insert artifactDigest status }, booked)

def onIntegration (session : Session) (spec : CoordinationEventSpec) : Session × List String :=
  ({ session with state := .integrate },
    reasonIf (spec.actorPrincipalId ≠ plan.integrationPrincipalId) "integration_actor_mismatch" ++
    reasonIf (session.reveals.values = [] ∨
        ∃ item ∈ session.reveals.values, session.verified[item]? ≠ some "passed")
      "integration_before_all_reveals_verified")

def onTerminate (session : Session) (spec : CoordinationEventSpec) : Session × List String :=
  ({ session with state := .terminated },
    reasonIf (spec.actorPrincipalId ≠ plan.integrationPrincipalId) "termination_actor_mismatch" ++
    reasonIf (spec.terminationReason = some "all_verified" ∧
        ∃ value ∈ session.verified.values, value ≠ "passed")
      "all_verified_termination_inconsistent")

/-- The chain of `elif`s. -/
def dispatch (session : Session) (spec : CoordinationEventSpec) :
    Checked (Session × List String) :=
  match spec.eventType, session.state with
  | .openCommit, .created => pure (onOpenCommit plan session spec)
  | .commit, .commitOpen => onCommit plan session spec
  | .closeCommit, .commitOpen => pure (onCloseCommit plan session spec)
  | .openReveal, .commitClosed => pure (onOpenReveal plan session spec)
  | .reveal, .revealOpen => onReveal w plan session spec
  | .exposure, .commitOpen => pure (onExposure plan session spec)
  | .exposure, .revealOpen => pure (onExposure plan session spec)
  | .exposure, .verify => pure (onExposure plan session spec)
  | .verification, .revealOpen => onVerification plan session spec
  | .verification, .verify => onVerification plan session spec
  | .integration, .verify => pure (onIntegration plan session spec)
  | .terminate, .integrate => pure (onTerminate plan session spec)
  | kind, state => pure (session,
      ["invalid_coordination_transition:" ++ state.text ++ ":" ++ kind.text])

def stepSession (signers : Signers) (time : DateTime) (found : Session × List String)
    (event : CoordinationEvent) : Checked (Session × List String) := do
  let general ← checkEvent w plan signers time found.1 event
  let session := { found.1 with previousTime := some event.spec.occurredAt }
  let (session, specific) ← dispatch w plan session event.spec
  pure (session, found.2 ++ general ++ specific)

def validateCoordination (objects : Objects) (time : DateTime) (signers : Signers) :
    Checked DimensionResult :=
  match coordinationPlans objects with
  | [plan] => do
    let planDigest := w.document ⟨plan.metadata, plan.extensions, .coordinationPlan plan.spec⟩
    let (ordered, chain) ← orderedEvents w (sessionEvents objects plan.spec.sessionId)
    let signed := reasonIf (signerMismatch signers planDigest plan.spec.planPrincipalId)
      "coordination_plan_signer_mismatch"
    let (session, folded) ← ordered.foldlM (stepSession w plan.spec signers time)
      (Session.start plan.spec, chain ++ signed)
    let missed ← plan.spec.terminationDeadline.lt time
    let blockers := folded ++
      reasonIf (plan.spec.maximumExposures < session.exposureCount)
        "coordination_exposure_limit_exceeded" ++
      reasonIf (session.state ≠ .terminated) "coordination_not_terminated" ++
      reasonIf (missed = true ∧ session.state ≠ .terminated)
        "coordination_termination_deadline_missed"
    validated DimensionResult.accepted
      ⟨if blockers = [] then .satisfied else .violated, sortedSet blockers,
        planDigest :: ordered.map (·.digest w),
        "terminal_state=" ++ session.state.text ++ ";reveals=" ++ toString session.reveals.size ++
          ";verified=" ++ toString session.verified.size⟩
  | _ => validated DimensionResult.accepted
      ⟨.unknown, ["exactly_one_signed_coordination_plan_required"], [], ""⟩

end

end CollectivePhaseControl
