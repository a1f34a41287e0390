import CollectivePhaseControl.CoordinationTraces

/-! The deadlines of a session. Commitments and reveals are held against their deadlines one
by one; whether a session has ended in time is only asked of one that has not ended. -/
namespace CollectivePhaseControl

namespace Coordination

section
variable {w : CoordinationDigests} {plan : CoordinationPlanSpec} {signers : Signers}
  {time earlier : DateTime} {session next : Session} {texts : List String}
  {event : CoordinationEvent} {events : List CoordinationEvent}

/-- Every event of the kind has occurred no later than the deadline. -/
def Within (deadline : DateTime) (kind : CoordinationEventType) (events : List CoordinationEvent) :
    Prop :=
  ∀ event ∈ events, event.spec.eventType = kind → deadline.lt event.spec.occurredAt = .ok false

structure DeadlinesBind (plan : CoordinationPlanSpec) (events : List CoordinationEvent) : Prop where
  commits : Within plan.commitDeadline .commit events
  reveals : Within plan.revealDeadline .reveal events
  terminates : Within plan.terminationDeadline .terminate events

def Punctual (plan : CoordinationPlanSpec) (events : List CoordinationEvent) : Prop :=
  ∀ event ∈ events, event.spec.eventType = .terminate →
    plan.terminationDeadline.lt event.spec.occurredAt ≠ .ok true

def Finished (time : DateTime) (events : List CoordinationEvent) : Prop :=
  ∀ event ∈ events, time.lt event.spec.occurredAt = .ok false

theorem checkEvent_clean (clean : checkEvent w plan signers time session event = .ok []) :
    time.lt event.spec.occurredAt = .ok false := by
  simp only [checkEvent, bind_ok, pure_ok, List.append_eq_nil_iff, reasonIf_eq_nil,
    Bool.not_eq_true] at clean
  obtain ⟨_, -, future, compared, ⟨⟨-, past⟩, -⟩, -⟩ := clean
  rw [compared, past]

theorem reveal_clean (kind : event.spec.eventType = .reveal)
    (run : dispatch w plan session event.spec = .ok (next, [])) :
    plan.revealDeadline.lt event.spec.occurredAt = .ok false := by
  have state : session.state = .revealOpen := by
    cases dispatch_clean run with
    | reveal _ state => exact state
    | openCommit other | commit other | closeCommit other | openReveal other | exposure other
    | verification other | integration other | terminate other =>
      rw [kind] at other
      cases other
  rw [dispatch, kind, state] at run
  simp only [onReveal, bind_ok] at run
  obtain ⟨late, compared, proposal, -, artifact, -, run⟩ := run
  cases late with
  | false => exact compared
  | true =>
    -- whatever becomes of the reveal, its lateness has been noted
    exfalso
    split at run
    · simp [pure_ok] at run
    · split_ifs at run <;> simp [pure_ok, reasonIf] at run

theorem commit_clean (kind : event.spec.eventType = .commit)
    (run : dispatch w plan session event.spec = .ok (next, [])) :
    plan.commitDeadline.lt event.spec.occurredAt = .ok false := by
  cases dispatch_clean run with
  | commit _ _ _ _ timely => exact timely
  | openCommit other | closeCommit other | openReveal other | reveal other | exposure other
  | verification other | integration other | terminate other =>
    rw [kind] at other
    cases other

/-- What an event without blockers says of its time. -/
structure InTime (plan : CoordinationPlanSpec) (time : DateTime) (event : CoordinationEvent) :
    Prop where
  past : time.lt event.spec.occurredAt = .ok false
  commit : event.spec.eventType = .commit → plan.commitDeadline.lt event.spec.occurredAt = .ok false
  reveal : event.spec.eventType = .reveal → plan.revealDeadline.lt event.spec.occurredAt = .ok false

theorem stepSession_inTime
    (run : stepSession w plan signers time (session, texts) event = .ok (next, [])) :
    texts = [] ∧ InTime plan time event := by
  simp only [stepSession, bind_ok, pure_ok, Prod.mk.injEq] at run
  obtain ⟨general, checked, ⟨after, specific⟩, moved, rfl, empty⟩ := run
  rw [List.append_eq_nil_iff, List.append_eq_nil_iff] at empty
  obtain ⟨⟨first, rfl⟩, rfl⟩ := empty
  exact ⟨first, checkEvent_clean checked, fun kind => commit_clean kind moved,
    fun kind => reveal_clean kind moved⟩

theorem stepSession_eq (now : time.lt event.spec.occurredAt = .ok false)
    (before : earlier.lt event.spec.occurredAt = .ok false) (found : Session × List String) :
    stepSession w plan signers time found event =
      stepSession w plan signers earlier found event := by
  simp only [stepSession, checkEvent, now, before]

theorem fold_inTime {trace : List CoordinationEvent}
    (run : trace.foldlM (stepSession w plan signers time) (Session.start plan, texts) =
      .ok (next, [])) : ∀ event ∈ trace, InTime plan time event := by
  refine foldlM_invariant (fun done found => found.2 = [] → ∀ event ∈ done, InTime plan time event)
    (fun done event found after before step empty => ?_) (fun _ _ member => ?_) run rfl
  · obtain ⟨session, said⟩ := found
    obtain ⟨next, said'⟩ := after
    dsimp only at empty
    subst empty
    obtain ⟨clean, inTime⟩ := stepSession_inTime step
    intro other member
    rcases List.mem_append.mp member with old | new
    · exact before clean other old
    · rw [List.mem_singleton.mp new]
      exact inTime
  · cases member

theorem fold_eq {trace : List CoordinationEvent} (now : Finished time trace)
    (before : Finished earlier trace) (found : Session × List String) :
    trace.foldlM (stepSession w plan signers time) found =
      trace.foldlM (stepSession w plan signers earlier) found := by
  induction trace generalizing found with
  | nil => rfl
  | cons event trace ih =>
    rw [List.foldlM_cons, List.foldlM_cons,
      stepSession_eq (now event List.mem_cons_self) (before event List.mem_cons_self)]
    exact congrArg _ (funext fun found => ih (fun e member => now e (List.mem_cons_of_mem _ member))
      (fun e member => before e (List.mem_cons_of_mem _ member)) found)

def satisfiedResult (w : CoordinationDigests) (plan : Typed CoordinationPlanSpec)
    (ordered : List CoordinationEvent) (session : Session) : DimensionResult where
  status := .satisfied
  blockers := sortedSet []
  evidenceDigests := w.document ⟨plan.metadata, plan.extensions, .coordinationPlan plan.spec⟩ ::
    ordered.map (·.digest w)
  detail := "terminal_state=" ++ session.state.text ++ ";reveals=" ++
    toString session.reveals.size ++ ";verified=" ++ toString session.verified.size

/-- What a session that validates leaves of the checks. -/
structure Clean (w : CoordinationDigests) (plan : Typed CoordinationPlanSpec) (signers : Signers)
    (time : DateTime) (ordered : List CoordinationEvent) (session : Session) : Prop where
  signed : ¬ signerMismatch signers
    (w.document ⟨plan.metadata, plan.extensions, .coordinationPlan plan.spec⟩)
    plan.spec.planPrincipalId
  folded : ordered.foldlM (stepSession w plan.spec signers time) (Session.start plan.spec, []) =
    .ok (session, [])
  exposures : session.exposureCount ≤ plan.spec.maximumExposures
  terminated : session.state = .terminated

theorem validateCoordination_clean {objects : Objects} {result : DimensionResult}
    (run : validateCoordination w objects time signers = .ok result)
    (satisfied : result.status = .satisfied) :
    ∃ plan ordered session, coordinationPlans objects = [plan] ∧
      orderedEvents w (sessionEvents objects plan.spec.sessionId) = .ok (ordered, []) ∧
      Clean w plan signers time ordered session ∧
      (∃ missed, plan.spec.terminationDeadline.lt time = .ok missed) ∧
      (satisfiedResult w plan ordered session).accepted := by
  unfold validateCoordination at run
  split at run
  · rename_i plan only
    simp only [bind_ok] at run
    obtain ⟨⟨ordered, chained⟩, order, ⟨session, folded⟩, fold, missed, compared, run⟩ := run
    rw [validated_ok] at run
    obtain ⟨accepted, rfl⟩ := run
    dsimp only at satisfied
    split_ifs at satisfied with clean
    rw [if_pos clean, clean] at accepted
    simp only [List.append_eq_nil_iff, reasonIf_eq_nil, not_lt, not_not] at clean
    obtain ⟨⟨⟨rfl, exposures⟩, terminated⟩, -⟩ := clean
    have start := foldlM_invariant (fun _ found => found.2 = [] → chained ++ reasonIf _ _ = [])
      (fun _ _ found after before step empty => ?_) (fun empty => empty) fold rfl
    · rw [List.append_eq_nil_iff, reasonIf_eq_nil] at start
      obtain ⟨rfl, signed⟩ := start
      rw [reasonIf, if_neg signed] at fold
      exact ⟨plan, ordered, session, only, order, ⟨signed, fold, exposures, terminated⟩,
        ⟨missed, compared⟩, accepted⟩
    · obtain ⟨current, said⟩ := found
      obtain ⟨later, said'⟩ := after
      dsimp only at empty
      subst empty
      exact before (stepSession_clean step).1
  · rw [validated_ok] at run
    obtain ⟨-, rfl⟩ := run
    cases satisfied

theorem Clean.validates {objects : Objects} {found : Typed CoordinationPlanSpec}
    {ordered : List CoordinationEvent} (clean : Clean w found signers time ordered session)
    (only : coordinationPlans objects = [found])
    (order : orderedEvents w (sessionEvents objects found.spec.sessionId) = .ok (ordered, []))
    (compared : ∃ missed, found.spec.terminationDeadline.lt time = .ok missed)
    (accepted : (satisfiedResult w found ordered session).accepted) :
    validateCoordination w objects time signers =
      .ok (satisfiedResult w found ordered session) := by
  obtain ⟨missed, compared⟩ := compared
  unfold validateCoordination
  rw [only]
  simp only [bind_ok]
  refine ⟨_, order, (session, []), ?_, missed, compared, ?_⟩
  · rw [reasonIf, if_neg clean.signed]
    exact clean.folded
  · have none : [] ++ reasonIf (found.spec.maximumExposures < session.exposureCount)
        "coordination_exposure_limit_exceeded" ++
      reasonIf (session.state ≠ .terminated) "coordination_not_terminated" ++
      reasonIf (missed = true ∧ session.state ≠ .terminated)
        "coordination_termination_deadline_missed" = [] := by
      simp [reasonIf, clean.exposures, clean.terminated]
    rw [validated_ok, none, if_pos rfl]
    exact ⟨accepted, rfl⟩

/-- Where a session validates, its commitments and reveals are in time, and so is its end just
if no event ends it after the deadline. It has validated ever since its events occurred. -/
theorem deadlines_bind_iff (w : CoordinationDigests) (objects : Objects) (time : DateTime)
    (signers : Signers) (result : DimensionResult)
    (run : validateCoordination w objects time signers = .ok result)
    (satisfied : result.status = .satisfied) :
    ∃ plan, coordinationPlans objects = [plan] ∧
      (DeadlinesBind plan.spec (sessionEvents objects plan.spec.sessionId) ↔
        Punctual plan.spec (sessionEvents objects plan.spec.sessionId)) ∧
      (plan.spec.terminationDeadline.lt time = .ok false →
        Punctual plan.spec (sessionEvents objects plan.spec.sessionId)) ∧
      ∀ earlier, time.lt earlier = .ok false →
        Finished earlier (sessionEvents objects plan.spec.sessionId) →
          ∃ before, validateCoordination w objects earlier signers = .ok before ∧
            before.status = .satisfied := by
  obtain ⟨plan, ordered, session, only, order, clean, compared, accepted⟩ :=
    validateCoordination_clean run satisfied
  obtain ⟨perm, -, -⟩ := orderedEvents_clean order
  have inTime : ∀ event ∈ sessionEvents objects plan.spec.sessionId, InTime plan.spec time event :=
    fun event member => fold_inTime clean.folded event (perm.mem_iff.mpr member)
  obtain ⟨missed, compared⟩ := compared
  have comparable := (DateTime.lt_ok_iff.mp compared).1
  refine ⟨plan, only, ⟨fun binds event member kind late => ?_, fun punctual => ?_⟩, ?_, ?_⟩
  · rw [binds.terminates event member kind] at late
    cases late
  · refine ⟨fun event member => (inTime event member).commit,
      fun event member => (inTime event member).reveal, fun event member kind => ?_⟩
    have past := DateTime.lt_false_iff.mp (inTime event member).past
    have same : plan.spec.terminationDeadline.Comparable event.spec.occurredAt :=
      Eq.trans comparable past.1
    have notLate := punctual event member kind
    rw [Ne, DateTime.lt_true_iff, not_and, not_lt] at notLate
    exact DateTime.lt_false_iff.mpr ⟨same, notLate same⟩
  · intro early event member _ late
    rw [DateTime.notBefore_trans early (inTime event member).past] at late
    cases late
  · intro earlier before finished
    have past : Finished earlier ordered := fun event member =>
      finished event (perm.mem_iff.mp member)
    have now : Finished time ordered := fun event member =>
      (inTime event (perm.mem_iff.mp member)).past
    have clean' : Clean w plan signers earlier ordered session :=
      ⟨clean.signed, (fold_eq past now _).trans clean.folded, clean.exposures, clean.terminated⟩
    have compared' : ∃ missed, plan.spec.terminationDeadline.lt earlier = .ok missed :=
      ⟨_, DateTime.lt_ok_iff.mpr ⟨Eq.trans comparable (DateTime.lt_false_iff.mp before).1, rfl⟩⟩
    exact ⟨_, clean'.validates only order compared' accepted, rfl⟩

end

theorem deadlines_bind_iff_sample : ∃ plan, coordinationPlans Sample.objects = [plan] ∧
    DeadlinesBind plan.spec (sessionEvents Sample.objects plan.spec.sessionId) := by
  obtain ⟨result, run, satisfied⟩ := Sample.validates
  obtain ⟨plan, only, binds, early, -⟩ :=
    deadlines_bind_iff Sample.digests Sample.objects (.utc 9) none result run satisfied
  refine ⟨plan, only, binds.mpr (early ?_)⟩
  have plans : (coordinationPlans Sample.objects).map (·.spec.terminationDeadline) = [.utc 9] := by
    decide +kernel
  rw [only, List.map_singleton, List.singleton_inj] at plans
  rw [plans]
  decide

namespace Sample

def lateEvents : List CoordinationEventSpec :=
  events.dropLast ++ [{ event 9 .terminate "lead" with
    occurredAt := .utc 10, terminationReason := some "all_verified" }]

def lateDocuments : List Document :=
  ⟨metadata "plan", ∅, .coordinationPlan plan⟩ ::
    lateEvents.map fun spec => ⟨metadata spec.eventId, ∅, .coordinationEvent spec⟩

def lateObjects : Objects := .ofList (lateDocuments.map fun item => (item.metadata.objectId, item))

end Sample

/-- A session may validate though it was ended too late. -/
theorem terminates_late : ¬ ∀ (w : CoordinationDigests) (objects : Objects) (time : DateTime)
    (signers : Signers) (result : DimensionResult),
    validateCoordination w objects time signers = .ok result → result.status = .satisfied →
      ∃ plan, coordinationPlans objects = [plan] ∧
        DeadlinesBind plan.spec (sessionEvents objects plan.spec.sessionId) := by
  intro claim
  have ran : (validateCoordination Sample.digests Sample.lateObjects (.utc 10) none).toOption.map
    (·.status) = some .satisfied := by decide +kernel
  cases run : validateCoordination Sample.digests Sample.lateObjects (.utc 10) none with
  | error fault =>
    rw [run] at ran
    cases ran
  | ok result =>
    rw [run] at ran
    obtain ⟨plan, only, binds⟩ := claim _ _ _ _ result run (Option.some.inj ran)
    have plans : (coordinationPlans Sample.lateObjects).map
        (fun plan => (plan.spec.terminationDeadline, plan.spec.sessionId)) =
      [(.utc 9, "session")] := by decide +kernel
    rw [only, List.map_singleton, List.singleton_inj, Prod.mk.injEq] at plans
    have late : ∃ event ∈ sessionEvents Sample.lateObjects "session",
        event.spec.eventType = .terminate ∧ event.spec.occurredAt = .utc 10 := by decide +kernel
    obtain ⟨event, member, kind, time⟩ := late
    rw [← plans.2] at member
    have bound := binds.terminates event member kind
    rw [plans.1, time] at bound
    revert bound
    decide

end Coordination

end CollectivePhaseControl
