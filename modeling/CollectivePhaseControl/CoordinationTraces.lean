import CollectivePhaseControl.Coordination

/-! What a session that validates has been through. An event that adds no blocker makes one
of the moves of the protocol, and what a session's dictionaries hold is what the events
before it say. -/
namespace CollectivePhaseControl.Coordination

/-- Every element stands in a given relation to what came before it. -/
def Everywhere {α : Type} (holds : List α → α → Prop) (trace : List α) : Prop :=
  ∀ before x after, trace = before ++ x :: after → holds before x

theorem everywhere_nil {α : Type} {holds : List α → α → Prop} : Everywhere holds [] := by
  intro before x after same
  simp at same

theorem everywhere_snoc {α : Type} {holds : List α → α → Prop} {trace : List α} {x : α} :
    Everywhere holds (trace ++ [x]) ↔ Everywhere holds trace ∧ holds trace x := by
  constructor
  · intro all
    refine ⟨fun before y after same => ?_, all trace x [] (by simp)⟩
    exact all before y (after ++ [x]) (by simp [same])
  · rintro ⟨all, last⟩ before y after same
    obtain rfl | ⟨after', z, rfl⟩ := List.eq_nil_or_concat after
    · obtain ⟨rfl, rest⟩ := List.append_inj' same rfl
      obtain rfl := List.singleton_inj.mp rest
      exact last
    · rw [List.concat_eq_append, ← List.cons_append, ← List.append_assoc] at same
      obtain ⟨rfl, -⟩ := List.append_inj' same rfl
      exact all before y after' rfl

def ofType (kind : CoordinationEventType) (trace : List CoordinationEvent) :
    List CoordinationEvent := trace.filter fun event => event.spec.eventType = kind

theorem ofType_snoc {kind : CoordinationEventType} {trace : List CoordinationEvent}
    {event : CoordinationEvent} : ofType kind (trace ++ [event]) =
      if event.spec.eventType = kind then ofType kind trace ++ [event] else ofType kind trace := by
  unfold ofType
  rw [List.filter_append]
  by_cases is' : event.spec.eventType = kind <;> simp [is']

def verifiedBy (principal : Identifier) (trace : List CoordinationEvent) :
    List CoordinationEvent :=
  (ofType .verification trace).filter fun event => event.spec.actorPrincipalId = principal

def verificationsOf (artifact : Digest) (trace : List CoordinationEvent) :
    List CoordinationEvent :=
  (ofType .verification trace).filter fun event => event.spec.artifactDigest = some artifact

/-- The kinds of a complete session in their order. Exposures go on until integration. -/
def Phases (kinds : List CoordinationEventType) : Prop :=
  ∃ commits reveals verifications,
    (∀ kind ∈ commits, kind = .commit ∨ kind = .exposure) ∧
    (∀ kind ∈ reveals, kind = .reveal ∨ kind = .exposure) ∧
    (∀ kind ∈ verifications, kind = .verification ∨ kind = .exposure) ∧
    kinds = .openCommit :: commits ++ .closeCommit :: .openReveal :: reveals ++
      .verification :: verifications ++ [.integration, .terminate]

section
variable (w : CoordinationDigests) (plan : CoordinationPlanSpec)

/-- The reveal opens a commitment that the same actor has made before. -/
def Opens (before : List CoordinationEvent) (event : CoordinationEvent) : Prop :=
  event.spec.eventType = .reveal → ∃ commit ∈ ofType .commit before, ∃ proposal artifact,
    commit.spec.actorPrincipalId = event.spec.actorPrincipalId ∧
    commit.spec.proposalId = some proposal ∧ event.spec.proposalId = some proposal ∧
    event.spec.artifactDigest = some artifact ∧
    commit.spec.commitmentDigest = some (w.proposalCommitmentDigest plan.sessionId proposal
      event.spec.actorPrincipalId artifact) ∧
    event.spec.commitmentDigest = commit.spec.commitmentDigest

/-- Something has been revealed before the integration, and of everything revealed the last
verification has passed. -/
def Integrates (before : List CoordinationEvent) (event : CoordinationEvent) : Prop :=
  event.spec.eventType = .integration → ofType .reveal before ≠ [] ∧
    ∀ reveal ∈ ofType .reveal before, ∃ artifact, reveal.spec.artifactDigest = some artifact ∧
      ∃ last, (verificationsOf artifact before).getLast? = some last ∧
        last.spec.actorPrincipalId ∈ plan.verifierPrincipals ∧
        last.spec.verificationStatus = some "passed"

def OnTime (event : CoordinationEvent) : Prop :=
  event.spec.eventType = .commit → plan.commitDeadline.lt event.spec.occurredAt = .ok false

def Enough (before : List CoordinationEvent) (event : CoordinationEvent) : Prop :=
  event.spec.eventType = .reveal →
    plan.requiredProposalCount ≤ ((ofType .commit before).map (·.spec.proposalId)).toFinset.card

/-- One event has the other as its prior and does not precede it. -/
def ChainsTo (event next : CoordinationEvent) : Prop :=
  next.spec.priorEventDigest = some (event.digest w) ∧
    next.spec.occurredAt.lt event.spec.occurredAt = .ok false

structure Coordinated (trace : List CoordinationEvent) : Prop where
  root : ∃ first, trace.head? = some first ∧ first.spec.priorEventDigest = none
  chain : trace.IsChain (ChainsTo w)
  phases : Phases (trace.map (·.spec.eventType))
  registered : ∀ event ∈ trace, event.spec.actorPrincipalId ∈ plan.participantPrincipals
  once : ((ofType .commit trace).map (·.spec.actorPrincipalId)).Nodup
  onTime : ∀ event ∈ trace, OnTime plan event
  enough : Everywhere (Enough plan) trace
  opened : Everywhere (Opens w plan) trace
  integrated : Everywhere (Integrates plan) trace
  verifiers : ∀ event ∈ ofType .verification trace,
    event.spec.actorPrincipalId ∈ plan.verifierPrincipals
  capacity : ∀ (principal : Identifier) capacity,
    plan.verifierCapacity[principal]? = some capacity →
      (verifiedBy principal trace).length ≤ capacity
  exposures : (ofType .exposure trace).length ≤ plan.maximumExposures

variable {w plan} {session next : Session} {spec : CoordinationEventSpec}

inductive Move (w : CoordinationDigests) (plan : CoordinationPlanSpec) (session : Session)
    (spec : CoordinationEventSpec) : Session → Prop
  | openCommit (kind : spec.eventType = .openCommit) (state : session.state = .created) :
      Move w plan session spec { session with state := .commitOpen }
  | commit (kind : spec.eventType = .commit) (state : session.state = .commitOpen)
      {proposal : Identifier} {digest : Digest} (of : spec.proposalId = some proposal)
      (binds : spec.commitmentDigest = some digest)
      (timely : plan.commitDeadline.lt spec.occurredAt = .ok false)
      (fresh : proposal ∉ session.commitments)
      (first : spec.actorPrincipalId ∉ session.committedActors) :
      Move w plan session spec { session with
        commitments := session.commitments.insert proposal (spec.actorPrincipalId, digest)
        committedActors := spec.actorPrincipalId :: session.committedActors }
  | closeCommit (kind : spec.eventType = .closeCommit) (state : session.state = .commitOpen)
      (enough : plan.requiredProposalCount ≤ session.commitments.size) :
      Move w plan session spec { session with state := .commitClosed }
  | openReveal (kind : spec.eventType = .openReveal) (state : session.state = .commitClosed) :
      Move w plan session spec { session with state := .revealOpen }
  | reveal (kind : spec.eventType = .reveal) (state : session.state = .revealOpen)
      {proposal : Identifier} {artifact : Digest} (of : spec.proposalId = some proposal)
      (shows : spec.artifactDigest = some artifact)
      (committed : session.commitments[proposal]? = some (spec.actorPrincipalId,
        w.proposalCommitmentDigest plan.sessionId proposal spec.actorPrincipalId artifact))
      (opens : spec.commitmentDigest = some (w.proposalCommitmentDigest plan.sessionId proposal
        spec.actorPrincipalId artifact)) :
      Move w plan session spec { session with
        reveals := session.reveals.insert proposal artifact }
  | exposure (kind : spec.eventType = .exposure)
      (state : session.state = .commitOpen ∨ session.state = .revealOpen ∨
        session.state = .verify) :
      Move w plan session spec { session with exposureCount := session.exposureCount + 1 }
  | verification (kind : spec.eventType = .verification)
      (state : session.state = .revealOpen ∨ session.state = .verify)
      {artifact : Digest} {status : String} {load capacity : ℕ}
      (of : spec.artifactDigest = some artifact) (finds : spec.verificationStatus = some status)
      (registered : spec.actorPrincipalId ∈ plan.verifierPrincipals)
      (charged : session.verifierLoad[spec.actorPrincipalId]? = some load)
      (bounded : plan.verifierCapacity[spec.actorPrincipalId]? = some capacity)
      (affordable : load + 1 ≤ capacity) (revealed : artifact ∈ session.reveals.values) :
      Move w plan session spec { session with
        state := .verify
        verifierLoad := session.verifierLoad.insert spec.actorPrincipalId (load + 1)
        verified := session.verified.insert artifact status }
  | integration (kind : spec.eventType = .integration) (state : session.state = .verify)
      (some' : session.reveals.values ≠ [])
      (passed : ∀ artifact ∈ session.reveals.values, session.verified[artifact]? = some "passed") :
      Move w plan session spec { session with state := .integrate }
  | terminate (kind : spec.eventType = .terminate) (state : session.state = .integrate) :
      Move w plan session spec { session with state := .terminated }

theorem onCommit_clean (kind : spec.eventType = .commit) (state : session.state = .commitOpen)
    (run : onCommit plan session spec = .ok (next, [])) : Move w plan session spec next := by
  simp only [onCommit, castStr, bind_ok, demand_ok, pure_ok, Prod.mk.injEq, List.append_eq_nil_iff,
    reasonIf_eq_nil, Bool.not_eq_true] at run
  obtain ⟨late, compared, proposal, of, digest, binds, rfl, ⟨timely, fresh⟩, first⟩ := run
  rw [timely] at compared
  exact .commit kind state of binds compared fresh first

theorem onReveal_clean (kind : spec.eventType = .reveal) (state : session.state = .revealOpen)
    (run : onReveal w plan session spec = .ok (next, [])) : Move w plan session spec next := by
  simp only [onReveal, castStr, bind_ok, demand_ok] at run
  obtain ⟨late, -, proposal, of, artifact, shows, run⟩ := run
  cases found : session.commitments[proposal]? with
  | none => simp [found, pure_ok] at run
  | some committed =>
    obtain ⟨actor, digest⟩ := committed
    rw [found] at run
    dsimp only at run
    split_ifs at run with other mismatch
    · simp [pure_ok] at run
    · simp [pure_ok] at run
    · rw [not_or, not_not, not_not] at mismatch
      rw [not_not] at other
      rw [pure_ok, Prod.mk.injEq] at run
      obtain ⟨rfl, -⟩ := run
      obtain ⟨opens, same⟩ := mismatch
      subst other
      rw [← same] at found opens
      exact .reveal kind state of shows found opens

theorem bookVerification_clean (run : bookVerification plan session spec = .ok (next, [])) :
    ∃ load capacity, spec.actorPrincipalId ∈ plan.verifierPrincipals ∧
      session.verifierLoad[spec.actorPrincipalId]? = some load ∧
      plan.verifierCapacity[spec.actorPrincipalId]? = some capacity ∧ load + 1 ≤ capacity ∧
      next = { session with
        verifierLoad := session.verifierLoad.insert spec.actorPrincipalId (load + 1) } := by
  unfold bookVerification at run
  split_ifs at run with registered
  · simp only [bind_ok, Dict.item_ok, pure_ok, Prod.mk.injEq, reasonIf_eq_nil, not_lt] at run
    obtain ⟨load, charged, capacity, bounded, rfl, affordable⟩ := run
    exact ⟨load, capacity, registered, charged, bounded, affordable, rfl⟩
  · simp [pure_ok] at run

theorem onVerification_clean (kind : spec.eventType = .verification)
    (state : session.state = .revealOpen ∨ session.state = .verify)
    (run : onVerification plan session spec = .ok (next, [])) : Move w plan session spec next := by
  simp only [onVerification, castStr, bind_ok, demand_ok] at run
  obtain ⟨⟨booked, texts⟩, book, artifact, of, run⟩ := run
  dsimp only at run
  split_ifs at run with revealed
  · simp only [bind_ok, demand_ok, pure_ok, Prod.mk.injEq] at run
    obtain ⟨status, finds, rfl, rfl⟩ := run
    obtain ⟨load, capacity, registered, charged, bounded, affordable, rfl⟩ :=
      bookVerification_clean book
    exact .verification kind state of finds registered charged bounded affordable revealed
  · simp [pure_ok] at run

theorem dispatch_clean (run : dispatch w plan session spec = .ok (next, [])) :
    Move w plan session spec next := by
  unfold dispatch at run
  split at run
  · simp only [onOpenCommit, pure_ok, Prod.mk.injEq] at run
    obtain ⟨rfl, -⟩ := run
    exact .openCommit ‹_› ‹_›
  · exact onCommit_clean ‹_› ‹_› run
  · simp only [onCloseCommit, pure_ok, Prod.mk.injEq, List.append_eq_nil_iff, reasonIf_eq_nil,
      not_lt] at run
    obtain ⟨rfl, -, enough⟩ := run
    exact .closeCommit ‹_› ‹_› enough
  · simp only [onOpenReveal, pure_ok, Prod.mk.injEq] at run
    obtain ⟨rfl, -⟩ := run
    exact .openReveal ‹_› ‹_›
  · exact onReveal_clean ‹_› ‹_› run
  · simp only [onExposure, pure_ok, Prod.mk.injEq] at run
    obtain ⟨rfl, -⟩ := run
    exact .exposure ‹_› (.inl ‹_›)
  · simp only [onExposure, pure_ok, Prod.mk.injEq] at run
    obtain ⟨rfl, -⟩ := run
    exact .exposure ‹_› (.inr (.inl ‹_›))
  · simp only [onExposure, pure_ok, Prod.mk.injEq] at run
    obtain ⟨rfl, -⟩ := run
    exact .exposure ‹_› (.inr (.inr ‹_›))
  · exact onVerification_clean ‹_› (.inl ‹_›) run
  · exact onVerification_clean ‹_› (.inr ‹_›) run
  · simp only [onIntegration, pure_ok, Prod.mk.injEq, List.append_eq_nil_iff, reasonIf_eq_nil,
      not_or, not_exists, not_and, not_not] at run
    obtain ⟨rfl, -, some', passed⟩ := run
    exact .integration ‹_› ‹_› some' passed
  · simp only [onTerminate, pure_ok, Prod.mk.injEq] at run
    obtain ⟨rfl, -⟩ := run
    exact .terminate ‹_› ‹_›
  · simp [pure_ok] at run

/-- What holds of an event to which the general checks find nothing to say. -/
structure Regular (plan : CoordinationPlanSpec) (session : Session) (spec : CoordinationEventSpec) :
    Prop where
  inOrder : ∀ previous ∈ session.previousTime, spec.occurredAt.lt previous = .ok false
  registered : spec.actorPrincipalId ∈ plan.participantPrincipals

theorem stepSession_clean {signers : Signers} {time : DateTime} {texts : List String}
    {event : CoordinationEvent}
    (run : stepSession w plan signers time (session, texts) event = .ok (next, [])) :
    texts = [] ∧ Regular plan session event.spec ∧
      Move w plan { session with previousTime := some event.spec.occurredAt } event.spec next := by
  simp only [stepSession, bind_ok, pure_ok, Prod.mk.injEq] at run
  obtain ⟨general, checked, ⟨after, specific⟩, moved, rfl, empty⟩ := run
  rw [List.append_eq_nil_iff, List.append_eq_nil_iff] at empty
  obtain ⟨⟨first, rfl⟩, rfl⟩ := empty
  refine ⟨first, ?_, dispatch_clean moved⟩
  simp only [checkEvent, bind_ok, pure_ok, List.append_eq_nil_iff, reasonIf_eq_nil, not_not,
    Bool.not_eq_true] at checked
  obtain ⟨reversed, compared, future, -, ⟨⟨inOrder, -⟩, registered⟩, -⟩ := checked
  refine ⟨fun previous last => ?_, registered⟩
  rw [Option.mem_def] at last
  rw [reversedTime, last, inOrder] at compared
  exact compared

/-- The kinds of the events so far, by the state they lead to. -/
def PhaseOf : CoordinationState → List CoordinationEventType → Prop
  | .created, kinds => kinds = []
  | .commitOpen, kinds => ∃ commits, (∀ kind ∈ commits, kind = .commit ∨ kind = .exposure) ∧
      kinds = .openCommit :: commits
  | .commitClosed, kinds => ∃ commits, (∀ kind ∈ commits, kind = .commit ∨ kind = .exposure) ∧
      kinds = .openCommit :: commits ++ [.closeCommit]
  | .revealOpen, kinds => ∃ commits reveals,
      (∀ kind ∈ commits, kind = .commit ∨ kind = .exposure) ∧
      (∀ kind ∈ reveals, kind = .reveal ∨ kind = .exposure) ∧
      kinds = .openCommit :: commits ++ .closeCommit :: .openReveal :: reveals
  | .verify, kinds => ∃ commits reveals verifications,
      (∀ kind ∈ commits, kind = .commit ∨ kind = .exposure) ∧
      (∀ kind ∈ reveals, kind = .reveal ∨ kind = .exposure) ∧
      (∀ kind ∈ verifications, kind = .verification ∨ kind = .exposure) ∧
      kinds = .openCommit :: commits ++ .closeCommit :: .openReveal :: reveals ++
        .verification :: verifications
  | .integrate, kinds => ∃ commits reveals verifications,
      (∀ kind ∈ commits, kind = .commit ∨ kind = .exposure) ∧
      (∀ kind ∈ reveals, kind = .reveal ∨ kind = .exposure) ∧
      (∀ kind ∈ verifications, kind = .verification ∨ kind = .exposure) ∧
      kinds = .openCommit :: commits ++ .closeCommit :: .openReveal :: reveals ++
        .verification :: verifications ++ [.integration]
  | .terminated, kinds => Phases kinds

/-- The dictionary of commitments, from the commits so far. -/
structure Commits (plan : CoordinationPlanSpec) (commits : List CoordinationEvent)
    (commitments : Dict (Identifier × Digest)) (actors : List Identifier) : Prop where
  made : ∀ (proposal : Identifier) actor digest,
    commitments[proposal]? = some (actor, digest) → ∃ event ∈ commits,
      event.spec.actorPrincipalId = actor ∧ event.spec.proposalId = some proposal ∧
        event.spec.commitmentDigest = some digest
  kept : ∀ event ∈ commits, ∃ proposal, event.spec.proposalId = some proposal ∧
    proposal ∈ commitments
  counted : commitments.size ≤ (commits.map (·.spec.proposalId)).toFinset.card
  actors : actors = (commits.map (·.spec.actorPrincipalId)).reverse
  once : (commits.map (·.spec.actorPrincipalId)).Nodup
  timely : ∀ event ∈ commits, plan.commitDeadline.lt event.spec.occurredAt = .ok false

/-- The dictionary of reveals, from the reveals so far. -/
structure Reveals (w : CoordinationDigests) (plan : CoordinationPlanSpec)
    (reveals : List CoordinationEvent) (revealed : Dict Digest)
    (commitments : Dict (Identifier × Digest)) : Prop where
  kept : ∀ event ∈ reveals, ∃ proposal artifact, event.spec.proposalId = some proposal ∧
    event.spec.artifactDigest = some artifact ∧ revealed[proposal]? = some artifact
  some' : ∀ (proposal : Identifier) artifact, revealed[proposal]? = some artifact → reveals ≠ []
  opened : ∀ (proposal : Identifier) artifact, revealed[proposal]? = some artifact →
    ∃ actor, commitments[proposal]? =
      some (actor, w.proposalCommitmentDigest plan.sessionId proposal actor artifact)

/-- The last findings and the verifiers' loads, from the verifications so far. -/
structure Verifies (plan : CoordinationPlanSpec) (verifications : List CoordinationEvent)
    (verified : Dict String) (load : Dict ℕ) : Prop where
  last : ∀ artifact : Digest, verified[artifact]? =
    (verifications.filter fun event => event.spec.artifactDigest = some artifact).getLast?.bind
      (·.spec.verificationStatus)
  verifiers : ∀ event ∈ verifications, event.spec.actorPrincipalId ∈ plan.verifierPrincipals
  loads : ∀ (principal : Identifier) booked, load[principal]? = some booked → booked =
    (verifications.filter fun event => event.spec.actorPrincipalId = principal).length
  capacity : ∀ (principal : Identifier) capacity,
    plan.verifierCapacity[principal]? = some capacity →
      (verifications.filter fun event => event.spec.actorPrincipalId = principal).length ≤ capacity

structure Knows (w : CoordinationDigests) (plan : CoordinationPlanSpec)
    (done : List CoordinationEvent) (session : Session) : Prop where
  phase : PhaseOf session.state (done.map (·.spec.eventType))
  commits : Commits plan (ofType .commit done) session.commitments session.committedActors
  reveals : Reveals w plan (ofType .reveal done) session.reveals session.commitments
  verifies : Verifies plan (ofType .verification done) session.verified session.verifierLoad
  exposures : session.exposureCount = (ofType .exposure done).length
  quota : session.state ≠ .created → session.state ≠ .commitOpen →
    plan.requiredProposalCount ≤ ((ofType .commit done).map (·.spec.proposalId)).toFinset.card
  enough : Everywhere (Enough plan) done
  opened : Everywhere (Opens w plan) done
  integrated : Everywhere (Integrates plan) done

theorem commits_snoc {commits : List CoordinationEvent}
    {commitments : Dict (Identifier × Digest)} {actors : List Identifier}
    (before : Commits plan commits commitments actors) {event : CoordinationEvent}
    {proposal : Identifier} {digest : Digest} (names : event.spec.proposalId = some proposal)
    (binds : event.spec.commitmentDigest = some digest)
    (timely : plan.commitDeadline.lt event.spec.occurredAt = .ok false)
    (fresh : proposal ∉ commitments) (first : event.spec.actorPrincipalId ∉ actors) :
    Commits plan (commits ++ [event])
      (commitments.insert proposal (event.spec.actorPrincipalId, digest))
      (event.spec.actorPrincipalId :: actors) where
  made p actor c found := by
    by_cases same : p = proposal
    · subst same
      rw [Std.ExtTreeMap.getElem?_insert_self, Option.some.injEq, Prod.mk.injEq] at found
      exact ⟨event, by simp, found.1, names, found.2 ▸ binds⟩
    · rw [Std.ExtTreeMap.getElem?_insert, if_neg (by simpa using Ne.symm same)] at found
      obtain ⟨e, member, holds⟩ := before.made p actor c found
      exact ⟨e, List.mem_append_left _ member, holds⟩
  kept e member := by
    obtain member | same := List.mem_append.mp member
    · obtain ⟨p, named, listed⟩ := before.kept e member
      exact ⟨p, named, Std.ExtTreeMap.mem_insert.mpr (.inr listed)⟩
    · rw [List.mem_singleton.mp same]
      exact ⟨proposal, names, Std.ExtTreeMap.mem_insert_self⟩
  counted := by
    have new : some proposal ∉ (commits.map (·.spec.proposalId)).toFinset := by
      intro listed
      obtain ⟨e, member, named⟩ := List.mem_map.mp (List.mem_toFinset.mp listed)
      obtain ⟨p, named', kept⟩ := before.kept e member
      rw [named', Option.some.injEq] at named
      exact fresh (named ▸ kept)
    rw [Std.ExtTreeMap.size_insert, List.map_append, List.toFinset_append, List.map_singleton,
      names]
    have := before.counted
    have size : (insert (some proposal) (commits.map (·.spec.proposalId)).toFinset).card =
      (commits.map (·.spec.proposalId)).toFinset.card + 1 := Finset.card_insert_of_notMem new
    rw [show (commits.map (·.spec.proposalId)).toFinset ∪ [some proposal].toFinset =
      insert (some proposal) (commits.map (·.spec.proposalId)).toFinset by ext x; simp,
      size]
    split <;> omega
  actors := by
    rw [before.actors, List.map_append, List.reverse_append]
    rfl
  once := by
    rw [before.actors, List.mem_reverse] at first
    rw [List.map_append, List.nodup_append]
    refine ⟨before.once, by simp, ?_⟩
    rintro a member b here rfl
    rw [List.map_singleton, List.mem_singleton] at here
    exact first (here ▸ member)
  timely e member := by
    obtain member | same := List.mem_append.mp member
    · exact before.timely e member
    · rwa [List.mem_singleton.mp same]

/-- Two artifacts that one actor's commitment to a proposal opens to are the same. -/
def Binding (w : CoordinationDigests) : Prop :=
  ∀ session proposal actor artifact artifact',
    w.proposalCommitmentDigest session proposal actor artifact =
      w.proposalCommitmentDigest session proposal actor artifact' → artifact = artifact'

theorem reveals_snoc (binding : Binding w) {reveals : List CoordinationEvent}
    {revealed : Dict Digest} {commitments : Dict (Identifier × Digest)}
    (before : Reveals w plan reveals revealed commitments) {event : CoordinationEvent}
    {proposal : Identifier} {artifact : Digest} (names : event.spec.proposalId = some proposal)
    (shows : event.spec.artifactDigest = some artifact)
    (committed : commitments[proposal]? = some (event.spec.actorPrincipalId,
      w.proposalCommitmentDigest plan.sessionId proposal event.spec.actorPrincipalId artifact)) :
    Reveals w plan (reveals ++ [event]) (revealed.insert proposal artifact) commitments where
  kept e member := by
    obtain member | same := List.mem_append.mp member
    · obtain ⟨p, a, named, shown, kept⟩ := before.kept e member
      refine ⟨p, a, named, shown, ?_⟩
      by_cases same : p = proposal
      · -- a second reveal of one proposal shows the same artifact
        subst same
        obtain ⟨actor, opened⟩ := before.opened p a kept
        rw [committed, Option.some.injEq, Prod.mk.injEq] at opened
        obtain ⟨rfl, digests⟩ := opened
        rw [Std.ExtTreeMap.getElem?_insert_self, binding _ _ _ _ _ digests]
      · rw [Std.ExtTreeMap.getElem?_insert, if_neg (by simpa using Ne.symm same)]
        exact kept
    · rw [List.mem_singleton.mp same]
      exact ⟨proposal, artifact, names, shows, Std.ExtTreeMap.getElem?_insert_self⟩
  some' := by simp
  opened p a found := by
    by_cases same : p = proposal
    · subst same
      rw [Std.ExtTreeMap.getElem?_insert_self, Option.some.injEq] at found
      exact ⟨_, found ▸ committed⟩
    · rw [Std.ExtTreeMap.getElem?_insert, if_neg (by simpa using Ne.symm same)] at found
      exact before.opened p a found

theorem reveals_commit {reveals : List CoordinationEvent} {revealed : Dict Digest}
    {commitments : Dict (Identifier × Digest)} {proposal : Identifier}
    {entry : Identifier × Digest} (before : Reveals w plan reveals revealed commitments)
    (fresh : proposal ∉ commitments) :
    Reveals w plan reveals revealed (commitments.insert proposal entry) where
  kept := before.kept
  some' := before.some'
  opened p a found := by
    obtain ⟨actor, opened⟩ := before.opened p a found
    refine ⟨actor, ?_⟩
    have other : p ≠ proposal := by
      rintro rfl
      rw [← Std.ExtTreeMap.isSome_getElem?_iff_mem, opened] at fresh
      exact fresh rfl
    rw [Std.ExtTreeMap.getElem?_insert, if_neg (by simpa using Ne.symm other)]
    exact opened

theorem verifies_snoc {verifications : List CoordinationEvent} {verified : Dict String}
    {loads : Dict ℕ} (before : Verifies plan verifications verified loads)
    {event : CoordinationEvent} {artifact : Digest} {status : String} {load capacity : ℕ}
    (names : event.spec.artifactDigest = some artifact)
    (finds : event.spec.verificationStatus = some status)
    (registered : event.spec.actorPrincipalId ∈ plan.verifierPrincipals)
    (charged : loads[event.spec.actorPrincipalId]? = some load)
    (bounded : plan.verifierCapacity[event.spec.actorPrincipalId]? = some capacity)
    (affordable : load + 1 ≤ capacity) :
    Verifies plan (verifications ++ [event]) (verified.insert artifact status)
      (loads.insert event.spec.actorPrincipalId (load + 1)) where
  last a := by
    rw [List.filter_append]
    by_cases same : a = artifact
    · subst same
      rw [Std.ExtTreeMap.getElem?_insert_self]
      simp [names, finds]
    · have other : event.spec.artifactDigest ≠ some a := by
        rw [names]
        simpa using Ne.symm same
      rw [Std.ExtTreeMap.getElem?_insert, if_neg (by simpa using Ne.symm same), before.last]
      simp [other]
  verifiers e member := by
    obtain member | same := List.mem_append.mp member
    · exact before.verifiers e member
    · rwa [List.mem_singleton.mp same]
  loads p booked found := by
    rw [List.filter_append, List.length_append]
    by_cases same : p = event.spec.actorPrincipalId
    · subst same
      rw [Std.ExtTreeMap.getElem?_insert_self, Option.some.injEq] at found
      rw [← found, before.loads _ _ charged]
      simp
    · rw [Std.ExtTreeMap.getElem?_insert, if_neg (by simpa using Ne.symm same)] at found
      rw [before.loads _ _ found]
      simp [Ne.symm same]
  capacity p bound found := by
    rw [List.filter_append, List.length_append]
    by_cases same : p = event.spec.actorPrincipalId
    · subst same
      rw [bounded, Option.some.injEq] at found
      rw [← before.loads _ _ charged, ← found]
      simpa using affordable
    · simpa [Ne.symm same] using before.capacity p bound found

theorem phase_step {kinds : List CoordinationEventType} (phase : PhaseOf session.state kinds)
    (move : Move w plan session spec next) : PhaseOf next.state (kinds ++ [spec.eventType]) := by
  cases move with
  | openCommit kind state =>
    rw [state] at phase
    exact ⟨[], by simp, by simp [show kinds = [] from phase, kind]⟩
  | commit kind state =>
    dsimp only
    rw [state] at phase ⊢
    obtain ⟨commits, all, rfl⟩ := phase
    refine ⟨commits ++ [.commit], ?_, by simp [kind]⟩
    simpa [or_imp, forall_and] using all
  | closeCommit kind state =>
    rw [state] at phase
    obtain ⟨commits, all, rfl⟩ := phase
    exact ⟨commits, all, by simp [kind]⟩
  | openReveal kind state =>
    rw [state] at phase
    obtain ⟨commits, all, rfl⟩ := phase
    exact ⟨commits, [], all, by simp, by simp [kind]⟩
  | reveal kind state =>
    dsimp only
    rw [state] at phase ⊢
    obtain ⟨commits, reveals, all, all', rfl⟩ := phase
    refine ⟨commits, reveals ++ [.reveal], all, ?_, by simp [kind]⟩
    simpa [or_imp, forall_and] using all'
  | exposure kind state =>
    dsimp only
    obtain state | state | state := state
    · rw [state] at phase ⊢
      obtain ⟨commits, all, rfl⟩ := phase
      refine ⟨commits ++ [.exposure], ?_, by simp [kind]⟩
      simpa [or_imp, forall_and] using all
    · rw [state] at phase ⊢
      obtain ⟨commits, reveals, all, all', rfl⟩ := phase
      refine ⟨commits, reveals ++ [.exposure], all, ?_, by simp [kind]⟩
      simpa [or_imp, forall_and] using all'
    · rw [state] at phase ⊢
      obtain ⟨commits, reveals, verifications, all, all', all'', rfl⟩ := phase
      refine ⟨commits, reveals, verifications ++ [.exposure], all, all', ?_, by simp [kind]⟩
      simpa [or_imp, forall_and] using all''
  | verification kind state =>
    obtain state | state := state
    · rw [state] at phase
      obtain ⟨commits, reveals, all, all', rfl⟩ := phase
      exact ⟨commits, reveals, [], all, all', by simp, by simp [kind]⟩
    · rw [state] at phase
      obtain ⟨commits, reveals, verifications, all, all', all'', rfl⟩ := phase
      refine ⟨commits, reveals, verifications ++ [.verification], all, all', ?_, by simp [kind]⟩
      simpa [or_imp, forall_and] using all''
  | integration kind state =>
    rw [state] at phase
    obtain ⟨commits, reveals, verifications, all, all', all'', rfl⟩ := phase
    exact ⟨commits, reveals, verifications, all, all', all'', by simp [kind]⟩
  | terminate kind state =>
    rw [state] at phase
    obtain ⟨commits, reveals, verifications, all, all', all'', rfl⟩ := phase
    exact ⟨commits, reveals, verifications, all, all', all'', by simp [kind]⟩

theorem quota_step {done : List CoordinationEvent} {event : CoordinationEvent}
    (before : Knows w plan done session) (move : Move w plan session event.spec next) :
    next.state ≠ .created → next.state ≠ .commitOpen → plan.requiredProposalCount ≤
      ((ofType .commit (done ++ [event])).map (·.spec.proposalId)).toFinset.card := by
  have quota := before.quota
  cases move with
  | openCommit => simp
  | commit kind state => simp [state]
  | closeCommit kind state enough =>
    intro _ _
    simpa [ofType_snoc, kind] using enough.trans before.commits.counted
  | openReveal kind state => simpa [ofType_snoc, kind, state] using quota
  | reveal kind state => simpa [ofType_snoc, kind, state] using quota
  | exposure kind => simpa [ofType_snoc, kind] using quota
  | verification kind state =>
    intro _ _
    obtain state | state := state
    · simpa [ofType_snoc, kind, state] using quota
    · simpa [ofType_snoc, kind, state] using quota
  | integration kind state => simpa [ofType_snoc, kind, state] using quota
  | terminate kind state => simpa [ofType_snoc, kind, state] using quota

theorem last_step {done : List CoordinationEvent} {event : CoordinationEvent}
    (before : Knows w plan done session) (move : Move w plan session event.spec next) :
    Enough plan done event ∧ Opens w plan done event ∧ Integrates plan done event := by
  cases move with
  | reveal kind state names shows committed opens =>
    refine ⟨fun _ => before.quota (by simp [state]) (by simp [state]), fun _ => ?_,
      fun other => by simp [kind] at other⟩
    obtain ⟨commit, member, actor, of, digest⟩ := before.commits.made _ _ _ committed
    exact ⟨commit, member, _, _, actor, of, names, shows, digest, opens.trans digest.symm⟩
  | integration kind state some' passed =>
    refine ⟨fun other => by simp [kind] at other, fun other => by simp [kind] at other,
      fun _ => ⟨?_, fun reveal member => ?_⟩⟩
    · obtain ⟨artifact, listed⟩ := List.exists_mem_of_ne_nil _ some'
      obtain ⟨proposal, found⟩ := Dict.mem_values.mp listed
      exact before.reveals.some' proposal artifact found
    · obtain ⟨proposal, artifact, -, shows, found⟩ := before.reveals.kept reveal member
      have status := passed artifact (Dict.mem_values.mpr ⟨proposal, found⟩)
      rw [before.verifies.last, Option.bind_eq_some_iff] at status
      obtain ⟨last, at', finds⟩ := status
      have listed := List.mem_of_getLast? at'
      exact ⟨artifact, shows, last, at',
        before.verifies.verifiers last (List.mem_of_mem_filter listed), finds⟩
  | openCommit kind => simp [Enough, Opens, Integrates, kind]
  | commit kind => simp [Enough, Opens, Integrates, kind]
  | closeCommit kind => simp [Enough, Opens, Integrates, kind]
  | openReveal kind => simp [Enough, Opens, Integrates, kind]
  | exposure kind => simp [Enough, Opens, Integrates, kind]
  | verification kind => simp [Enough, Opens, Integrates, kind]
  | terminate kind => simp [Enough, Opens, Integrates, kind]

theorem knows_step (binding : Binding w) {done : List CoordinationEvent}
    {event : CoordinationEvent} (before : Knows w plan done session)
    (move : Move w plan session event.spec next) : Knows w plan (done ++ [event]) next := by
  have phase := phase_step before.phase move
  have quota := quota_step before move
  obtain ⟨enough, opened, integrated⟩ := last_step before move
  have enough := everywhere_snoc.mpr ⟨before.enough, enough⟩
  have opened := everywhere_snoc.mpr ⟨before.opened, opened⟩
  have integrated := everywhere_snoc.mpr ⟨before.integrated, integrated⟩
  obtain ⟨-, commits, reveals, verifies, exposures, -, -, -, -⟩ := before
  cases move with
  | openCommit kind state =>
    exact ⟨by simpa using phase, by simpa [ofType_snoc, kind] using commits,
      by simpa [ofType_snoc, kind] using reveals, by simpa [ofType_snoc, kind] using verifies,
      by simpa [ofType_snoc, kind] using exposures, quota, enough, opened, integrated⟩
  | commit kind state of binds timely fresh first =>
    refine ⟨by simpa using phase, ?_, ?_, by simpa [ofType_snoc, kind] using verifies,
      by simpa [ofType_snoc, kind] using exposures, quota, enough, opened, integrated⟩
    · simpa [ofType_snoc, kind] using commits_snoc commits of binds timely fresh first
    · simpa [ofType_snoc, kind] using reveals_commit reveals fresh
  | closeCommit kind state =>
    exact ⟨by simpa using phase, by simpa [ofType_snoc, kind] using commits,
      by simpa [ofType_snoc, kind] using reveals, by simpa [ofType_snoc, kind] using verifies,
      by simpa [ofType_snoc, kind] using exposures, quota, enough, opened, integrated⟩
  | openReveal kind state =>
    exact ⟨by simpa using phase, by simpa [ofType_snoc, kind] using commits,
      by simpa [ofType_snoc, kind] using reveals, by simpa [ofType_snoc, kind] using verifies,
      by simpa [ofType_snoc, kind] using exposures, quota, enough, opened, integrated⟩
  | reveal kind state of shows committed opens =>
    refine ⟨by simpa using phase, by simpa [ofType_snoc, kind] using commits, ?_,
      by simpa [ofType_snoc, kind] using verifies, by simpa [ofType_snoc, kind] using exposures,
      quota, enough, opened, integrated⟩
    simpa [ofType_snoc, kind] using reveals_snoc binding reveals of shows committed
  | exposure kind state =>
    refine ⟨by simpa using phase, by simpa [ofType_snoc, kind] using commits,
      by simpa [ofType_snoc, kind] using reveals, by simpa [ofType_snoc, kind] using verifies,
      ?_, quota, enough, opened, integrated⟩
    simp [ofType_snoc, kind, exposures]
  | verification kind state of finds registered charged bounded affordable revealed =>
    refine ⟨by simpa using phase, by simpa [ofType_snoc, kind] using commits,
      by simpa [ofType_snoc, kind] using reveals, ?_,
      by simpa [ofType_snoc, kind] using exposures, quota, enough, opened, integrated⟩
    simpa [ofType_snoc, kind] using
      verifies_snoc verifies of finds registered charged bounded affordable
  | integration kind state some' passed =>
    exact ⟨by simpa using phase, by simpa [ofType_snoc, kind] using commits,
      by simpa [ofType_snoc, kind] using reveals, by simpa [ofType_snoc, kind] using verifies,
      by simpa [ofType_snoc, kind] using exposures, quota, enough, opened, integrated⟩
  | terminate kind state =>
    exact ⟨by simpa using phase, by simpa [ofType_snoc, kind] using commits,
      by simpa [ofType_snoc, kind] using reveals, by simpa [ofType_snoc, kind] using verifies,
      by simpa [ofType_snoc, kind] using exposures, quota, enough, opened, integrated⟩

theorem unloaded {principals : List Identifier} {loads : Dict ℕ}
    (before : ∀ (principal : Identifier) booked, loads[principal]? = some booked → booked = 0)
    {principal : Identifier} {booked : ℕ}
    (found : (principals.foldl (fun load p => load.insert p 0) loads)[principal]? = some booked) :
    booked = 0 := by
  induction principals generalizing loads with
  | nil => exact before principal booked found
  | cons p principals ih =>
    refine ih (fun q booked found => ?_) found
    rw [Std.ExtTreeMap.getElem?_insert] at found
    split at found
    · exact (Option.some.inj found).symm
    · exact before q booked found

theorem knows_start : Knows w plan [] (Session.start plan) where
  phase := rfl
  commits := ⟨by simp [Session.start], by simp [ofType], by simp [Session.start],
    by simp [Session.start, ofType], by simp [ofType], by simp [ofType]⟩
  reveals := ⟨by simp [ofType], by simp [Session.start], by simp [Session.start]⟩
  verifies := by
    refine ⟨by simp [Session.start, ofType], by simp [ofType], ?_, by simp [ofType]⟩
    intro principal booked found
    exact unloaded (by simp) found
  exposures := by simp [Session.start, ofType]
  quota := by simp [Session.start]
  enough := everywhere_nil
  opened := everywhere_nil
  integrated := everywhere_nil

/-- The loop over the events, as long as it has found nothing to say. -/
structure Passed (w : CoordinationDigests) (plan : CoordinationPlanSpec)
    (done : List CoordinationEvent) (session : Session) : Prop where
  knows : Knows w plan done session
  lastTime : session.previousTime = done.getLast?.map (·.spec.occurredAt)
  inOrder : done.IsChain fun event next => next.spec.occurredAt.lt event.spec.occurredAt = .ok false
  registered : ∀ event ∈ done, event.spec.actorPrincipalId ∈ plan.participantPrincipals
  timely : ∀ event ∈ done, OnTime plan event

theorem passed_step (binding : Binding w) {signers : Signers} {time : DateTime}
    {done : List CoordinationEvent} {texts : List String} {event : CoordinationEvent}
    (before : texts = [] → Passed w plan done session)
    (run : stepSession w plan signers time (session, texts) event = .ok (next, [])) :
    Passed w plan (done ++ [event]) next := by
  obtain ⟨rfl, regular, move⟩ := stepSession_clean run
  obtain ⟨knows, lastTime, inOrder, registered, timely⟩ := before rfl
  have knows' : Knows w plan done { session with previousTime := some event.spec.occurredAt } :=
    ⟨knows.phase, knows.commits, knows.reveals, knows.verifies, knows.exposures, knows.quota,
      knows.enough, knows.opened, knows.integrated⟩
  refine ⟨knows_step binding knows' move, ?_, ?_, ?_, ?_⟩
  · have kept : next.previousTime = some event.spec.occurredAt := by
      cases move <;> rfl
    simp [kept]
  · rw [List.isChain_append]
    refine ⟨inOrder, List.isChain_singleton _, fun last at' next' same => ?_⟩
    rw [List.head?_singleton, Option.mem_some_iff] at same
    subst same
    refine regular.inOrder _ ?_
    rw [lastTime, Option.mem_def.mp at']
    rfl
  · intro e member
    obtain member | same := List.mem_append.mp member
    · exact registered e member
    · rw [List.mem_singleton.mp same]
      exact regular.registered
  · intro e member
    obtain member | same := List.mem_append.mp member
    · exact timely e member
    · rw [List.mem_singleton.mp same]
      intro kind
      cases move with
      | commit _ _ _ _ timely => exact timely
      | openCommit other => simp [other] at kind
      | closeCommit other => simp [other] at kind
      | openReveal other => simp [other] at kind
      | reveal other => simp [other] at kind
      | exposure other => simp [other] at kind
      | verification other => simp [other] at kind
      | integration other => simp [other] at kind
      | terminate other => simp [other] at kind

theorem passed_fold (binding : Binding w) {signers : Signers} {time : DateTime}
    {trace : List CoordinationEvent} {texts : List String}
    (run : trace.foldlM (stepSession w plan signers time) (Session.start plan, texts) =
      .ok (next, [])) : texts = [] ∧ Passed w plan trace next := by
  refine foldlM_invariant (fun done found => found.2 = [] → texts = [] ∧ Passed w plan done found.1)
    (fun done event found after before step empty => ?_) (fun empty => ?_) run rfl
  · obtain ⟨session, said⟩ := found
    obtain ⟨next, said'⟩ := after
    dsimp only at empty before
    subst empty
    have clean := (stepSession_clean step).1
    exact ⟨(before clean).1, passed_step binding (fun none' => (before none').2) step⟩
  · exact ⟨empty, knows_start, rfl, List.isChain_nil, by simp, by simp⟩

theorem followChain_ok {events : List CoordinationEvent} {fuel : ℕ} {current : CoordinationEvent}
    {ordered : List CoordinationEvent} {forks : List String}
    (run : followChain w events fuel current = .ok (ordered, forks)) :
    ordered.head? = some current ∧ ordered.length ≤ fuel ∧
      (∀ event ∈ ordered, event = current ∨ event ∈ events) ∧
      ordered.IsChain fun event next => next.spec.priorEventDigest = some (event.digest w) := by
  induction fuel generalizing current ordered with
  | zero => cases run
  | succ fuel ih =>
    have child_of : ∀ child, children events (some (current.digest w)) = [child] →
        child ∈ events ∧ child.spec.priorEventDigest = some (current.digest w) := by
      intro child found
      have member : child ∈ children events (some (current.digest w)) := by simp [found]
      simpa [children] using member
    unfold followChain at run
    split at run
    · cases run
      simp
    · rename_i child found
      rw [map_ok] at run
      obtain ⟨⟨rest, forks'⟩, run, same⟩ := run
      cases same
      obtain ⟨first, short, listed, chain⟩ := ih run
      obtain ⟨known, prior⟩ := child_of child found
      refine ⟨rfl, by simpa using short, ?_, ?_⟩
      · intro event member
        obtain rfl | member := List.mem_cons.mp member
        · exact .inl rfl
        · obtain rfl | member := listed event member
          · exact .inr known
          · exact .inr member
      · rw [List.isChain_cons]
        refine ⟨fun next at' => ?_, chain⟩
        rw [first, Option.mem_some_iff] at at'
        exact at' ▸ prior
    · cases run
      simp

theorem orderedEvents_clean {events ordered : List CoordinationEvent}
    (run : orderedEvents w events = .ok (ordered, [])) : ordered.Perm events ∧
      (∃ first, ordered.head? = some first ∧ first.spec.priorEventDigest = none) ∧
      ordered.IsChain fun event next => next.spec.priorEventDigest = some (event.digest w) := by
  unfold orderedEvents at run
  dsimp only at run
  split at run
  · rename_i root found
    simp only [bind_ok, pure_ok, Prod.mk.injEq, List.append_eq_nil_iff, reasonIf_eq_nil,
      not_not] at run
    obtain ⟨⟨ordered', forks⟩, run, rfl, -, connected⟩ := run
    obtain ⟨first, short, listed, chain⟩ := followChain_ok run
    have known : root ∈ events ∧ root.spec.priorEventDigest = none := by
      have member : root ∈ children events none := by simp [found]
      simpa [children] using member
    refine ⟨?_, ⟨root, first, known.2⟩, chain⟩
    -- as many digests as events: nothing is visited twice and nothing is left out
    dsimp only at connected ⊢
    have whole := List.dedup_sublist (ordered'.map (·.digest w))
    have size := whole.length_le
    rw [List.length_map] at size
    have same := whole.eq_of_length (by rw [List.length_map]; omega)
    have distinct : ordered'.Nodup := (List.dedup_eq_self.mp same).of_map
    have inside : ordered' ⊆ events := by
      intro event member
      obtain rfl | member := listed event member
      · exact known.1
      · exact member
    exact (distinct.subperm inside).perm_of_length_le (by omega)
  · simp at run

/-- A session that validates has followed the protocol. -/
theorem validateCoordination_sound (w : CoordinationDigests) (binding : Binding w)
    (objects : Objects) (time : DateTime) (signers : Signers) (result : DimensionResult)
    (run : validateCoordination w objects time signers = .ok result)
    (satisfied : result.status = .satisfied) :
    ∃ plan trace, coordinationPlans objects = [plan] ∧
      trace.Perm (sessionEvents objects plan.spec.sessionId) ∧
      Coordinated w plan.spec trace := by
  unfold validateCoordination at run
  split at run
  · rename_i plan only
    simp only [bind_ok] at run
    obtain ⟨⟨ordered, chained⟩, order, ⟨session, folded⟩, fold, missed, -, run⟩ := run
    rw [validated_ok] at run
    obtain ⟨-, rfl⟩ := run
    dsimp only at satisfied
    split_ifs at satisfied with clean
    simp only [List.append_eq_nil_iff, reasonIf_eq_nil, not_lt, not_not] at clean
    obtain ⟨⟨⟨rfl, exposures⟩, terminated⟩, -⟩ := clean
    obtain ⟨start, knows, -, inOrder, registered, timely⟩ := passed_fold binding fold
    rw [List.append_eq_nil_iff] at start
    obtain ⟨rfl, -⟩ := start
    obtain ⟨perm, root, chain⟩ := orderedEvents_clean order
    have phase := knows.phase
    rw [terminated] at phase
    refine ⟨plan, ordered, only, perm, root, ?_, phase, registered, knows.commits.once, timely,
      knows.enough, knows.opened, knows.integrated, knows.verifies.verifiers,
      knows.verifies.capacity, knows.exposures ▸ exposures⟩
    rw [List.isChain_iff_getElem] at chain inOrder ⊢
    exact fun i inside => ⟨chain i inside, inOrder i inside⟩
  · rw [validated_ok] at run
    obtain ⟨-, rfl⟩ := run
    simp at satisfied

end

namespace Sample

def digests : CoordinationDigests where
  document document :=
    match document.spec with
    | .coordinationEvent spec => "sha256:" ++ spec.eventId
    | _ => "sha256:plan"
  proposalCommitmentDigest session proposal actor artifact :=
    session ++ "/" ++ proposal ++ "/" ++ actor ++ "/" ++ artifact

theorem binding : Binding digests := by
  intro session proposal actor artifact artifact' same
  exact (String.append_right_inj _).mp same

def plan : CoordinationPlanSpec where
  sessionId := "session"
  planPrincipalId := "lead"
  integrationPrincipalId := "lead"
  participantPrincipals := ["lead", "peer"]
  verifierPrincipals := ["peer"]
  verifierCapacity := .ofList [("peer", 1)]
  requiredProposalCount := 1
  commitDeadline := .utc 3
  revealDeadline := .utc 6
  terminationDeadline := .utc 9
  maximumExposures := 1

def metadata (name : Identifier) : Metadata := ⟨"tenant", "workspace", name, .utc 0⟩

def event (place : ℕ) (kind : CoordinationEventType) (actor : Identifier) :
    CoordinationEventSpec where
  sessionId := "session"
  eventId := "e" ++ toString place
  eventType := kind
  actorPrincipalId := actor
  occurredAt := .utc place
  proposalId := none
  recipientPrincipalId := none
  artifactDigest := none
  commitmentDigest := none
  verificationStatus := none
  terminationReason := none
  priorEventDigest := if place = 1 then none else some ("sha256:e" ++ toString (place - 1))

/-- One proposal is committed, revealed, shown to the lead, verified and integrated. -/
def events : List CoordinationEventSpec :=
  [event 1 .openCommit "lead",
    { event 2 .commit "peer" with
      proposalId := some "proposal", commitmentDigest := some "session/proposal/peer/artifact" },
    event 3 .closeCommit "lead", event 4 .openReveal "lead",
    { event 5 .reveal "peer" with
      proposalId := some "proposal", artifactDigest := some "artifact"
      commitmentDigest := some "session/proposal/peer/artifact" },
    { event 6 .exposure "peer" with
      recipientPrincipalId := some "lead", artifactDigest := some "artifact" },
    { event 7 .verification "peer" with
      artifactDigest := some "artifact", verificationStatus := some "passed" },
    { event 8 .integration "lead" with artifactDigest := some "artifact" },
    { event 9 .terminate "lead" with terminationReason := some "all_verified" }]

def documents : List Document :=
  ⟨metadata "plan", ∅, .coordinationPlan plan⟩ ::
    events.map fun spec => ⟨metadata spec.eventId, ∅, .coordinationEvent spec⟩

def objects : Objects := .ofList (documents.map fun item => (item.metadata.objectId, item))

theorem validates : ∃ result, validateCoordination digests objects (.utc 9) none = .ok result ∧
    result.status = .satisfied := by
  have ran : (validateCoordination digests objects (.utc 9) none).toBool = true := by decide +kernel
  obtain ⟨result, run⟩ := exists_ok ran
  have status : (validateCoordination digests objects (.utc 9) none).toOption.map (·.status) =
    some .satisfied := by decide +kernel
  rw [run] at status
  exact ⟨result, run, Option.some.inj status⟩

end Sample

theorem validateCoordination_sample : ∃ plan trace,
    coordinationPlans Sample.objects = [plan] ∧
      trace.Perm (sessionEvents Sample.objects plan.spec.sessionId) ∧
      Coordinated Sample.digests plan.spec trace := by
  obtain ⟨result, run, satisfied⟩ := Sample.validates
  exact validateCoordination_sound Sample.digests Sample.binding Sample.objects (.utc 9) none
    result run satisfied

/-- Exposures between the commits only. -/
def ExposedInCommits (kinds : List CoordinationEventType) : Prop :=
  ∃ commits reveals verifications,
    (∀ kind ∈ commits, kind = .commit ∨ kind = .exposure) ∧
    (∀ kind ∈ reveals, kind = CoordinationEventType.reveal) ∧
    (∀ kind ∈ verifications, kind = CoordinationEventType.verification) ∧
    kinds = .openCommit :: commits ++ .closeCommit :: .openReveal :: reveals ++ verifications ++
      [.integration, .terminate]

/-- An artifact may still be shown to somebody after the reveals have begun. -/
theorem exposed_after_commits : ∃ result trace,
    validateCoordination Sample.digests Sample.objects (.utc 9) none = .ok result ∧
      result.status = .satisfied ∧
      orderedEvents Sample.digests (sessionEvents Sample.objects "session") = .ok (trace, []) ∧
      ¬ ExposedInCommits (trace.map (·.spec.eventType)) := by
  obtain ⟨result, run, satisfied⟩ := Sample.validates
  have ran : (orderedEvents Sample.digests (sessionEvents Sample.objects "session")).toOption.map
      (fun found => (found.1.map (·.spec.eventType), found.2)) =
    some ([.openCommit, .commit, .closeCommit, .openReveal, .reveal, .exposure, .verification,
      .integration, .terminate], []) := by decide +kernel
  cases order : orderedEvents Sample.digests (sessionEvents Sample.objects "session") with
  | error fault => simp [order, Except.toOption] at ran
  | ok found =>
    obtain ⟨trace, forks⟩ := found
    simp only [order, Except.toOption, Option.map_some, Option.some.injEq, Prod.mk.injEq] at ran
    obtain ⟨kinds, rfl⟩ := ran
    refine ⟨result, trace, run, satisfied, rfl, ?_⟩
    rw [kinds]
    rintro ⟨commits, reveals, verifications, commit, reveal, verification, same⟩
    rcases commits with _ | ⟨x, _ | ⟨y, commits⟩⟩
    · simp at same
    · rcases reveals with _ | ⟨z, _ | ⟨z', reveals⟩⟩
      · rcases verifications with _ | ⟨v, verifications⟩
        · simp at same
        · have := verification v (by simp)
          simp [this] at same
      · rcases verifications with _ | ⟨v, verifications⟩
        · simp at same
        · have := verification v (by simp)
          simp [this] at same
      · have := reveal z' (by simp)
        simp [this] at same
    · have := commit y (by simp)
      simp only [List.cons_append, List.cons.injEq] at same
      rw [← same.2.2.1] at this
      simp at this

end CollectivePhaseControl.Coordination
