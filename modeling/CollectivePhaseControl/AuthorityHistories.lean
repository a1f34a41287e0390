import CollectivePhaseControl.AuthorityOrders

/-! The history of a ledger in two orders. Events are sorted by their instant before the chain
of their digests is checked, so the order of the ledger is that of the events of one instant. -/
namespace CollectivePhaseControl

namespace Authority
variable {w : Authority} {a : LoadArguments} {t t' : Trace} {ledger : List LedgerEntry}
  {digest : Digest}

variable (w) in
def eventDigest (e : AuditEvent) : Digest := w.document (e.document .auditEvent)

def Timed (events : List AuditEvent) : Prop :=
  events.Pairwise fun e f => instant e.spec.occurredAt ≤ instant f.spec.occurredAt

theorem historyFrom_chain {events : List AuditEvent} {index : ℕ} {prior : Option Digest}
    {ids : List Identifier} (clean : (w.historyFrom index prior ids events).1 = []) :
    (∀ first, events.head? = some first → first.spec.priorEventDigest = prior) ∧
      events.IsChain fun e f => f.spec.priorEventDigest = some (w.eventDigest e) := by
  induction events generalizing index prior ids with
  | nil => exact ⟨nofun, .nil⟩
  | cons e rest ih =>
    simp only [historyFrom, List.append_eq_nil_iff, reasonIf_eq_nil, not_not] at clean
    obtain ⟨⟨-, here⟩, later⟩ := clean
    obtain ⟨next, linked⟩ := ih later
    refine ⟨fun first at' => ?_, List.isChain_cons.mpr ⟨fun f at' => next f at', linked⟩⟩
    cases at'
    exact here

theorem validateHistory_chain {events : List AuditEvent} {head : Digest}
    (clean : w.validateHistory events head = []) :
    LinkedChains.Chain (·.spec.priorEventDigest) w.eventDigest events := by
  rw [validateHistory, normalized_eq_nil] at clean
  obtain ⟨root, linked⟩ := historyFrom_chain (List.append_eq_nil_iff.mp clean).1
  exact ⟨root, linked⟩

theorem mem_auditEvents {parsed : List (Digest × Document)} {q : Quarantine} {e : AuditEvent} :
    e ∈ w.auditEvents parsed q ↔
      (∃ d, (d, e.document .auditEvent) ∈ parsed) ∧ w.eventDigest e ∉ q := by
  simp only [auditEvents, List.mem_filterMap]
  constructor
  · rintro ⟨⟨d, document⟩, listed, found⟩
    dsimp only at found
    split at found
    · split at found
      · cases found
      · rename_i fresh
        cases found
        exact ⟨⟨d, listed⟩, fresh⟩
    · cases found
  · rintro ⟨⟨d, listed⟩, fresh⟩
    exact ⟨_, listed, if_neg fresh⟩

theorem Loads.mem_events (loads : w.Loads a t) {e : AuditEvent} (member : e ∈ t.events) :
    ∃ d ∈ liveDigests a, w.parseEntry a d = .ok (e.document .auditEvent) := by
  obtain ⟨-, sorted⟩ := sortEvents_ok.mp loads.events
  rw [sorted, List.mem_mergeSort] at member
  obtain ⟨⟨d, listed⟩, -⟩ := mem_auditEvents.mp member
  obtain ⟨live, parsed⟩ := (w.mem_parsed a).mp listed
  exact ⟨d, live, parsed⟩

theorem Loads.timed (loads : w.Loads a t) : Timed t.events := by
  obtain ⟨-, sorted⟩ := sortEvents_ok.mp loads.events
  rw [sorted]
  have trans : IsTrans AuditEvent fun e f =>
      instant e.spec.occurredAt ≤ instant f.spec.occurredAt := ⟨fun _ _ _ => le_trans⟩
  have total : Std.Total fun e f : AuditEvent =>
      instant e.spec.occurredAt ≤ instant f.spec.occurredAt := ⟨fun _ _ => le_total _ _⟩
  exact List.pairwise_mergeSort' (fun e f : AuditEvent =>
    instant e.spec.occurredAt ≤ instant f.spec.occurredAt) _

theorem Loads.events_free (loads : w.Loads a t) (free : w.CollisionFree) :
    LinkedChains.CollisionFree w.eventDigest t.events := by
  intro e first f second same
  obtain ⟨_, -, parsed⟩ := loads.mem_events first
  obtain ⟨_, -, parsed'⟩ := loads.mem_events second
  exact document_injective DocumentSpec.auditEvent.inj
    (free _ _ (parseEntry_parses parsed) (parseEntry_parses parsed') same)

variable (w a) in
/-- No event that the loader parses names one of the same instant as the one before it. -/
def Unlinked : Prop :=
  ∀ d ∈ liveDigests a, ∀ d' ∈ liveDigests a, ∀ e f : AuditEvent,
    w.parseEntry a d = .ok (e.document .auditEvent) →
    w.parseEntry a d' = .ok (f.document .auditEvent) → f.spec.priorEventDigest = some d →
    instant e.spec.occurredAt ≠ instant f.spec.occurredAt

theorem Unlinked.reordered (unlinked : w.Unlinked a) (clear : a.Unambiguous)
    (same : ledger.Perm a.generation.spec.ledger) : w.Unlinked (a.reordered ledger digest) :=
  fun d first d' second =>
    unlinked d ((clear.live_perm same).subset first) d' ((clear.live_perm same).subset second)

theorem Loads.events_increase (loads : w.Loads a t) (unlinked : w.Unlinked a)
    (chain : LinkedChains.Chain (·.spec.priorEventDigest) w.eventDigest t.events) :
    t.events.Pairwise fun e f => instant e.spec.occurredAt < instant f.spec.occurredAt := by
  have trans : IsTrans AuditEvent fun e f =>
      instant e.spec.occurredAt < instant f.spec.occurredAt := ⟨fun _ _ _ => lt_trans⟩
  rw [← List.isChain_iff_pairwise, List.isChain_iff_getElem]
  intro i inside
  have before := loads.timed
  rw [Timed, List.pairwise_iff_getElem] at before
  refine lt_of_le_of_ne (before i (i + 1) (by omega) inside (by omega)) ?_
  obtain ⟨d, live, parsed⟩ := loads.mem_events (t.events.getElem_mem (Nat.lt_of_succ_lt inside))
  obtain ⟨d', live', parsed'⟩ := loads.mem_events (List.getElem_mem inside)
  refine unlinked d live d' live' _ _ parsed parsed' ?_
  rw [← w.document_of_parseEntry a parsed]
  exact chain.prior_succ inside

theorem events_unique {events events' : List AuditEvent} (perm : events'.Perm events)
    (increase : events.Pairwise fun e f =>
      instant e.spec.occurredAt < instant f.spec.occurredAt) (timed : Timed events') :
    events' = events := by
  refine List.Perm.eq_of_pairwise ?_ timed (increase.imp le_of_lt) perm
  intro e f first second le le'
  by_contra apart
  have symm : Std.Symm fun e f : AuditEvent =>
      instant e.spec.occurredAt ≠ instant f.spec.occurredAt := ⟨fun _ _ => Ne.symm⟩
  exact (increase.imp ne_of_lt).forall (perm.subset first) second apart (le_antisymm le le')

/-- The views agree on validity, on the authoritative objects and on the quarantine. -/
structure Agree (view view' : AuthoritativeView) : Prop where
  valid : view'.valid = view.valid
  objects : view'.objects = view.objects
  quarantined : view'.quarantined = view.quarantined

theorem SameTrace.held (same : SameTrace t t') {d : Document} : Held t' d ↔ Held t d := by
  constructor
  · intro held
    cases held with
    | signed listed own stands =>
      obtain ⟨x, listed', alike⟩ := same.signing.back _ listed
      rw [alike.subject]
      rw [same.promoted.quarantine] at stands
      exact .signed listed' (alike.statements.subset own) stands
    | decision kept => exact .decision (same.decided.subset kept)
    | promoted listed => exact .promoted ((same.promoted.documents _).mp listed)
  · intro held
    cases held with
    | signed listed own stands =>
      obtain ⟨y, listed', alike⟩ := same.signing.forth _ listed
      rw [← alike.subject]
      rw [← same.promoted.quarantine] at stands
      exact .signed listed' (alike.statements.symm.subset own) stands
    | decision kept => exact .decision (same.decided.symm.subset kept)
    | promoted listed => exact .promoted ((same.promoted.documents _).mpr listed)

theorem SameTrace.reported (same : SameTrace t t') :
    t'.promoted.1.2 = [] ↔ t.promoted.1.2 = [] := by
  simp only [List.eq_nil_iff_forall_not_mem, same.promoted.reasons]

theorem SameTrace.events_eq (same : SameTrace t t') (loads : w.Loads a t)
    (loads' : w.Loads (a.reordered ledger digest) t') (unlinked : w.Unlinked a)
    (valid : (t.view w a).valid = true) : t'.events = t.events :=
  events_unique same.events
    (loads.events_increase unlinked (validateHistory_chain (valid_iff.mp valid).2.1)) loads'.timed

theorem SameTrace.valid (same : SameTrace t t') (loads : w.Loads a t)
    (loads' : w.Loads (a.reordered ledger digest) t') (unlinked : w.Unlinked a)
    (unlinked' : w.Unlinked (a.reordered ledger digest)) :
    (t'.view w (a.reordered ledger digest)).valid = (t.view w a).valid := by
  rw [Bool.eq_iff_iff]
  constructor
  · intro valid
    have chain := validateHistory_chain (valid_iff.mp valid).2.1
    have events := events_unique same.events.symm (loads'.events_increase unlinked' chain)
      loads.timed
    obtain ⟨reported, history, quarantine⟩ := valid_iff.mp valid
    rw [same.promoted.quarantine] at quarantine
    rw [← events] at history
    exact valid_iff.mpr ⟨same.reported.mp reported, history, quarantine⟩
  · intro valid
    have events := same.events_eq loads loads' unlinked valid
    obtain ⟨reported, history, quarantine⟩ := valid_iff.mp valid
    rw [← same.promoted.quarantine] at quarantine
    rw [← events] at history
    exact valid_iff.mpr ⟨same.reported.mpr reported, history, quarantine⟩

theorem Loads.agrees (loads : w.Loads a t) (free : w.CollisionFree) (clear : a.Unambiguous)
    (unlinked : w.Unlinked a) (same : ledger.Perm a.generation.spec.ledger)
    (own : w.generation a.generation = a.generation.spec.generationDigest)
    (own' : w.generation (a.reordered ledger digest).generation = digest) :
    ∃ view', w.loadAuthoritativeGeneration (a.reordered ledger digest) = .ok view' ∧
      Agree (t.view w a) view' := by
  obtain ⟨t', loads', alike⟩ := loads.reordered free clear same own own'
  refine ⟨_, load_ok.mpr ⟨t', loads', rfl⟩, ?_, ?_, alike.promoted.quarantine⟩
  · exact alike.valid loads loads' unlinked (unlinked.reordered clear same)
  · refine Std.ExtTreeMap.ext_getElem? fun d => Option.ext fun document => ?_
    rw [loads'.mem_objects free, loads.mem_objects free, alike.held]

theorem assign_fresh {α : Type} {entries : List (Digest × α)} {key : Digest} {value : α}
    (fresh : key ∉ entries.map Prod.fst) : assign entries key value = entries ++ [(key, value)] := by
  fun_induction assign entries key value with
  | case1 => rfl
  | case2 => exact absurd List.mem_cons_self fresh
  | case3 k old rest key value other ih =>
    rw [ih fun later => fresh (List.mem_cons_of_mem _ later), List.cons_append]

theorem entries_eq (distinct : (a.generation.spec.ledger.map (·.objectDigest)).Nodup) :
    a.entries = a.generation.spec.ledger.map fun e => (e.objectDigest, e) := by
  have fold : ∀ (items : List LedgerEntry) (entries : List (Digest × LedgerEntry)),
      (entries.map Prod.fst ++ items.map (·.objectDigest)).Nodup →
      items.foldl (fun entries item => assign entries item.objectDigest item) entries =
        entries ++ items.map fun e => (e.objectDigest, e) := by
    intro items
    induction items with
    | nil => simp
    | cons item items ih =>
      intro entries distinct
      have fresh : item.objectDigest ∉ entries.map Prod.fst := fun member =>
        (List.nodup_append.mp distinct).2.2 _ member _ List.mem_cons_self rfl
      rw [List.foldl_cons, assign_fresh fresh, ih _ (by simpa using distinct)]
      simp
  exact fold _ [] distinct

theorem liveDigests_reverse (distinct : (a.generation.spec.ledger.map (·.objectDigest)).Nodup) :
    liveDigests (a.reordered a.generation.spec.ledger.reverse digest) =
      (liveDigests a).reverse := by
  have backwards : (a.reordered a.generation.spec.ledger.reverse digest).entries =
      a.entries.reverse := by
    rw [entries_eq distinct, ← List.map_reverse]
    refine entries_eq ?_
    change (a.generation.spec.ledger.reverse.map _).Nodup
    rwa [List.map_reverse, List.nodup_reverse]
  rw [liveDigests, liveDigests, backwards, List.filter_reverse, List.map_reverse]

theorem auditEvents_filter {parsed : List (Digest × Document)} {q : Quarantine} :
    w.auditEvents parsed q = (w.auditEvents parsed ∅).filter fun e => w.eventDigest e ∉ q := by
  rw [auditEvents, auditEvents, List.filter_filterMap]
  refine List.filterMap_congr fun p _ => ?_
  obtain ⟨d, document⟩ := p
  dsimp only
  split
  · rename_i metadata extensions spec _
    rw [if_neg Std.ExtTreeMap.not_mem_empty]
    change _ = Option.filter _ (some (⟨metadata, extensions, spec⟩ : AuditEvent))
    rw [Option.filter_some]
    by_cases held : w.document ⟨metadata, extensions, .auditEvent spec⟩ ∈ q
    · simp [held, eventDigest, Typed.document]
    · simp [held, eventDigest, Typed.document]
  · rfl

theorem auditEvents_clean {parsed : List (Digest × Document)} {q : Quarantine}
    (clean : ∀ d, d ∉ q) : w.auditEvents parsed q = w.auditEvents parsed ∅ := by
  rw [auditEvents_filter, List.filter_eq_self]
  exact fun e _ => decide_eq_true (clean _)

theorem auditEvents_reverse (distinct : (a.generation.spec.ledger.map (·.objectDigest)).Nodup) :
    w.auditEvents (w.parseEntries (a.reordered a.generation.spec.ledger.reverse digest)).1 ∅ =
      (w.auditEvents (w.parseEntries a).1 ∅).reverse := by
  rw [parseEntries_eq, parseEntries_eq, liveDigests_reverse distinct]
  change w.auditEvents ((liveDigests a).reverse.filterMap (w.parsedEntry a)) ∅ = _
  rw [List.filterMap_reverse, auditEvents, List.filterMap_reverse]
  rfl

theorem pair_sublist {α : Type} {x y : α} {items : List α} (first : x ∈ items) (second : y ∈ items)
    (apart : x ≠ y) : [x, y].Sublist items ∨ [y, x].Sublist items := by
  induction items with
  | nil => cases first
  | cons z rest ih =>
    rcases List.mem_cons.mp first with rfl | first'
    · have later := (List.mem_cons.mp second).resolve_left (Ne.symm apart)
      exact .inl ((List.singleton_sublist.mpr later).cons_cons _)
    · rcases List.mem_cons.mp second with rfl | second'
      · exact .inr ((List.singleton_sublist.mpr first').cons_cons _)
      · exact (ih first' second').imp (·.cons _) (·.cons _)

theorem Loads.listed_after (loads : w.Loads a t) (free : w.CollisionFree)
    (valid : (t.view w a).valid = true) {e f : AuditEvent}
    (names : f.spec.priorEventDigest = some (w.eventDigest e))
    (tied : instant e.spec.occurredAt = instant f.spec.occurredAt) :
    ¬ [f, e].Sublist (w.auditEvents (w.parseEntries a).1 ∅) := by
  intro before
  have chain := validateHistory_chain (valid_iff.mp valid).2.1
  obtain ⟨-, sorted⟩ := sortEvents_ok.mp loads.events
  rw [auditEvents_clean (loads.not_quarantined free valid)] at sorted
  have kept : [f, e].Sublist t.events := by
    rw [sorted]
    refine List.sublist_mergeSort ?_ ?_ (by simpa using tied.ge) before
    · exact fun x y z first second => by simp_all only [decide_eq_true_eq]; omega
    · exact fun x y => by simpa using le_total _ _
  have apart := (chain.pairwise_prior_ne (loads.events_free free)).sublist kept
  rw [List.pairwise_pair] at apart
  exact apart names

theorem Loads.unlinked_of_agrees (loads : w.Loads a t) (free : w.CollisionFree)
    (valid : (t.view w a).valid = true)
    (backwards : ∃ view', w.loadAuthoritativeGeneration
      (a.reordered a.generation.spec.ledger.reverse digest) = .ok view' ∧ view'.valid = true) :
    w.Unlinked a := by
  obtain ⟨_, run, valid'⟩ := backwards
  obtain ⟨t', loads', rfl⟩ := load_ok.mp run
  intro d live d' live' e f parsed parsed' names tied
  have distinct : (a.generation.spec.ledger.map (·.objectDigest)).Nodup := by
    obtain ⟨-, checked, -, reasons⟩ := validateLedger_ok.mp loads.ledger
    rw [(loads.no_reasons free valid).1] at reasons
    simp only [List.nil_eq, List.append_eq_nil_iff, reasonIf_eq_nil, not_not] at reasons
    exact reasons.1.1.1
  have named : w.eventDigest e = d := w.document_of_parseEntry a parsed
  rw [← named] at names
  have listed : ∀ {d : Digest} {e : AuditEvent}, d ∈ liveDigests a →
      w.parseEntry a d = .ok (e.document .auditEvent) →
      e ∈ w.auditEvents (w.parseEntries a).1 ∅ := fun live parsed =>
    mem_auditEvents.mpr ⟨⟨_, (w.mem_parsed a).mpr ⟨live, parsed⟩⟩, Std.ExtTreeMap.not_mem_empty⟩
  have forwards := loads.listed_after free valid names tied
  have reversed := loads'.listed_after free valid' names tied
  rw [auditEvents_reverse distinct] at reversed
  have apart : e ≠ f := by
    rintro rfl
    have chain := validateHistory_chain (valid_iff.mp valid).2.1
    have member : e ∈ t.events := by
      rw [(sortEvents_ok.mp loads.events).2, List.mem_mergeSort,
        auditEvents_clean (loads.not_quarantined free valid)]
      exact listed live parsed
    obtain ⟨i, inside, here⟩ := List.mem_iff_getElem.mp member
    rw [← here] at names
    have next := (chain.prior_eq_iff (loads.events_free free) inside inside).mp names
    omega
  rcases pair_sublist (listed live parsed) (listed live' parsed') apart with first | first
  · exact reversed (by simpa using first.reverse)
  · exact forwards first

def loadSorting (w : Authority) (a : LoadArguments)
    (sort : List AuditEvent → Checked (List AuditEvent)) : Checked AuthoritativeView := do
  let ledgerReasons ← w.validateLedger a
  let (parsed, quarantine) := w.parseEntries a
  exactInteger a.policy.spec.policySequence
  let s ← w.signStatements a parsed quarantine
  let (checked, _) ← inspectSubjects (w.checkSubject a s) s.subjects
    (s.quarantine, ledgerReasons ++ w.activeReasons a s)
  let (quarantine, derived) ← w.decideQuorums a s parsed (rejectUnsigned parsed checked.1)
  let (required, _) ← inspectSubjects (requireQuorum derived) s.subjects (quarantine, checked.2)
  let (findings, promoted) ← inspectSubjects (w.promoteProjection a s derived) s.subjects required
  let events ← sort (w.auditEvents parsed findings.1)
  pure (w.view a s findings.1 derived promoted
    (findings.2 ++ w.validateHistory events a.generation.spec.historyHeadDigest))

theorem load_timed (timed : Timed (w.auditEvents (w.parseEntries a).1 ∅))
    (comparable : ∀ e ∈ w.auditEvents (w.parseEntries a).1 ∅,
      ∀ f ∈ w.auditEvents (w.parseEntries a).1 ∅,
      e.spec.occurredAt.Comparable f.spec.occurredAt) :
    w.loadAuthoritativeGeneration a = w.loadSorting a .ok := by
  have sorted : ∀ q, sortEvents (w.auditEvents (w.parseEntries a).1 q) =
      .ok (w.auditEvents (w.parseEntries a).1 q) := by
    intro q
    have among : (w.auditEvents (w.parseEntries a).1 q).Sublist
        (w.auditEvents (w.parseEntries a).1 ∅) := by
      rw [auditEvents_filter]
      exact List.filter_sublist
    have kept : Timed (w.auditEvents (w.parseEntries a).1 q) := List.Pairwise.sublist among timed
    rw [sortEvents_ok]
    refine ⟨fun e first f second => comparable e (among.subset first) f (among.subset second), ?_⟩
    exact (List.mergeSort_of_pairwise (kept.imp fun le => by simpa using le)).symm
  unfold loadAuthoritativeGeneration loadSorting
  simp only [sorted]

/-- Without links inside an instant every order of the ledger gives a view that agrees; where
the view is valid, only then. -/
theorem reordered_agrees_iff {view : AuthoritativeView} (free : w.CollisionFree)
    (zeroed : ∀ (g : WorkspaceGeneration) (digest : Digest),
      w.generation { g with spec := { g.spec with generationDigest := digest } } = w.generation g)
    (own : w.generation a.generation = a.generation.spec.generationDigest)
    (clear : a.Unambiguous) (run : w.loadAuthoritativeGeneration a = .ok view) :
    (w.Unlinked a → ∀ ledger digest, ledger.Perm a.generation.spec.ledger →
      w.generation (a.reordered ledger digest).generation = digest →
      ∃ view', w.loadAuthoritativeGeneration (a.reordered ledger digest) = .ok view' ∧
        Agree view view') ∧
    (view.valid = true → (∀ ledger digest, ledger.Perm a.generation.spec.ledger →
      w.generation (a.reordered ledger digest).generation = digest →
      ∃ view', w.loadAuthoritativeGeneration (a.reordered ledger digest) = .ok view' ∧
        Agree view view') → w.Unlinked a) := by
  obtain ⟨t, loads, rfl⟩ := load_ok.mp run
  refine ⟨fun unlinked ledger digest same own' =>
    loads.agrees free clear unlinked same own own', fun valid every => ?_⟩
  obtain ⟨view', run', agree⟩ := every a.generation.spec.ledger.reverse
    (w.generation (a.reordered a.generation.spec.ledger.reverse "").generation)
    (List.reverse_perm _) (zeroed (a.reordered a.generation.spec.ledger.reverse "").generation _)
  exact loads.unlinked_of_agrees free valid ⟨view', run', agree.valid.trans valid⟩

end Authority

namespace WorkspaceSample
open Authority AuthoritySample

def historyLedger (last : Digest) : List LedgerEntry :=
  [entry "policy-statement", entry "time-statement", ⟨"event", "audit-event", .active, []⟩,
    ⟨last, "audit-event", .active, []⟩]

def history (last : Digest) : LoadArguments :=
  { loading "root" "genesis" with
    generation := ⟨metadata "generation", ∅,
      ⟨"generation", none, 0, none, historyLedger last, last⟩⟩ }

def tiedLedger : List LedgerEntry := historyLedger "following"

def tied : LoadArguments := history "following"

def untied : LoadArguments := history "later"

theorem valid_of_timed {a : LoadArguments} {first last : AuditEvent}
    (run : ((workspace.loadSorting a .ok).toOption.map (·.valid)) = some true)
    (events : workspace.auditEvents (workspace.parseEntries a).1 ∅ = [first, last])
    (timed : Timed [first, last])
    (comparable : ∀ e ∈ [first, last], ∀ f ∈ [first, last],
      e.spec.occurredAt.Comparable f.spec.occurredAt) :
    ∃ view, view.valid = true ∧ workspace.loadAuthoritativeGeneration a = .ok view := by
  obtain ⟨view, loaded, valid⟩ := Option.map_eq_some_iff.mp run
  refine ⟨view, valid, ?_⟩
  rw [load_timed (events.symm ▸ timed) (events.symm ▸ comparable)]
  cases result : workspace.loadSorting a .ok with
  | ok found =>
    rw [result] at loaded
    rw [Option.some.inj loaded]
  | error fault =>
    rw [result] at loaded
    cases loaded

theorem tied_valid : ∃ view, view.valid = true ∧
    workspace.loadAuthoritativeGeneration tied = .ok view :=
  @valid_of_timed tied event following (by decide +kernel) (by decide +kernel)
    (List.pairwise_pair.mpr (by decide)) (by decide)

theorem untied_valid : ∃ view, view.valid = true ∧
    workspace.loadAuthoritativeGeneration untied = .ok view :=
  @valid_of_timed untied event later (by decide +kernel) (by decide +kernel)
    (List.pairwise_pair.mpr (by decide)) (by decide)

theorem tied_linked : ¬ workspace.Unlinked tied := by
  intro unlinked
  refine unlinked "event" ?_ "following" ?_ event following ?_ ?_ rfl rfl <;> decide +kernel

theorem untied_clear : untied.Unambiguous := by
  unfold LoadArguments.Unambiguous
  decide

theorem untied_event {d : Digest} {e : AuditEvent} (live : d ∈ liveDigests untied)
    (parsed : workspace.parseEntry untied d = .ok (e.document .auditEvent)) :
    d = "event" ∧ e = event ∨ d = "later" ∧ e = later := by
  have listed : d ∈ ["policy-statement", "time-statement", "event", "later"] := live
  have entries : ["policy-statement", "time-statement", "event", "later"].map
      (fun d => (workspace.parseEntry untied d).toOption) =
        [some (statement "policy-statement" "policy"), some (statement "time-statement" "time"),
          some (event.document .auditEvent), some (later.document .auditEvent)] := by
    decide +kernel
  simp only [List.map_cons, List.map_nil, List.cons.injEq, and_true] at entries
  obtain ⟨policy, time, first, last⟩ := entries
  simp only [List.mem_cons, List.not_mem_nil, or_false] at listed
  obtain rfl | rfl | rfl | rfl := listed
  · rw [parsed] at policy
    have kinds : "audit-event" = "signed-statement" :=
      Option.some.inj (congrArg (·.map (·.spec.kind)) policy)
    exact absurd kinds (by decide)
  · rw [parsed] at time
    have kinds : "audit-event" = "signed-statement" :=
      Option.some.inj (congrArg (·.map (·.spec.kind)) time)
    exact absurd kinds (by decide)
  · rw [parsed] at first
    exact .inl ⟨rfl, document_injective DocumentSpec.auditEvent.inj (Option.some.inj first)⟩
  · rw [parsed] at last
    exact .inr ⟨rfl, document_injective DocumentSpec.auditEvent.inj (Option.some.inj last)⟩

theorem untied_unlinked : workspace.Unlinked untied := by
  intro d live d' live' e f first second names
  obtain ⟨-, rfl⟩ | ⟨-, rfl⟩ := untied_event live' second
  · cases names
  · obtain ⟨-, rfl⟩ | ⟨rfl, -⟩ := untied_event live first
    · decide
    · exact absurd names (by decide)

end WorkspaceSample

open Authority WorkspaceSample in
/-- Events of different instants are put in order whatever the order of the ledger. -/
theorem reordered_agrees_iff_sample : workspace.Unlinked untied ∧ ∃ view, view.valid = true ∧
    workspace.loadAuthoritativeGeneration untied = .ok view ∧
    ∀ ledger digest, ledger.Perm (historyLedger "later") →
      workspace.generation (untied.reordered ledger digest).generation = digest →
      ∃ view', workspace.loadAuthoritativeGeneration (untied.reordered ledger digest) =
        .ok view' ∧ Agree view view' := by
  obtain ⟨view, valid, run⟩ := untied_valid
  exact ⟨untied_unlinked, view, valid, run, (reordered_agrees_iff workspace_collisionFree
    (fun _ _ => rfl) rfl untied_clear run).1 untied_unlinked⟩

open Authority WorkspaceSample in
/-- The chain of two events of one instant is recognised in one order of the ledger only. -/
theorem tied_order : ¬ ∀ (w : Authority) (a : LoadArguments) (view : AuthoritativeView)
    (ledger : List LedgerEntry) (digest : Digest), w.CollisionFree →
    (∀ (g : WorkspaceGeneration) (digest : Digest),
      w.generation { g with spec := { g.spec with generationDigest := digest } } =
        w.generation g) →
    w.generation a.generation = a.generation.spec.generationDigest →
    ledger.Perm a.generation.spec.ledger →
    w.generation (a.reordered ledger digest).generation = digest →
    w.loadAuthoritativeGeneration a = .ok view →
    ∃ view', w.loadAuthoritativeGeneration (a.reordered ledger digest) = .ok view' ∧
      Agree view view' := by
  intro claim
  obtain ⟨view, valid, run⟩ := tied_valid
  obtain ⟨view', run', agree⟩ := claim workspace tied view tiedLedger.reverse "generation"
    workspace_collisionFree (fun _ _ => rfl) rfl (List.reverse_perm _) rfl run
  obtain ⟨t, loads, rfl⟩ := load_ok.mp run
  exact tied_linked (loads.unlinked_of_agrees workspace_collisionFree valid
    ⟨view', run', agree.valid.trans valid⟩)

end CollectivePhaseControl
