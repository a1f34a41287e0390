import CollectivePhaseControl.GrowthCompleteness
import CollectivePhaseControl.GrowthDiagnostics
import CollectivePhaseControl.GrowthLineage

/-! The diagnostics of an accepted policy, read off its plays. The walk shares one list of
witnesses between branches and refers to it by position; what it reports is about the
positions that some play reaches and does not depend on the order of the branches. -/
namespace CollectivePhaseControl

variable {hash : Hashing} {x : Search} {f : GrowthCapabilityFrontier}

def Reaches (hash : Hashing) (x : Search) (p q : Position) : Prop := ∃ picks, Play hash x p picks q

theorem Reaches.refl (p : Position) : Reaches hash x p p := ⟨[], .nil p⟩

theorem reaches_iff {p q : Position} :
    Reaches hash x p q ↔ q = p ∨ ∃ effect r, Answers hash x p effect r ∧ Reaches hash x r q := by
  constructor
  · rintro ⟨picks, play⟩
    cases play with
    | nil => exact .inl rfl
    | cons answer rest => exact .inr ⟨_, _, answer, _, rest⟩
  · rintro (rfl | ⟨effect, r, answer, picks, rest⟩)
    · exact .refl q
    · exact ⟨effect :: picks, .cons answer rest⟩

def lineageAt (s : GrowthState) : List GrowthActivation :=
  (s.frontier.map (·.activationLineage)).getD []

theorem Lineage.lineageAt_eq {s : GrowthState} {facet : FrontierFacet}
    (lineage : Lineage hash f s facet) : lineageAt s = facet.activationLineage := by
  rw [lineageAt, lineage.present]
  rfl

/-- The position acts on an action that its ledger has a record of. -/
def Position.Uses (p : Position) (actionId : Identifier) : Prop :=
  p.node.actionId = some actionId ∧ actionId ∈ recorded (lineageAt p.state)

def Position.Serves (x : Search) (p : Position) : Prop :=
  ∃ actionId recipe, p.node.actionId = some actionId ∧ Named x actionId recipe ∧
    contributes p.state recipe = true

def FrontierTrace.activations (trace : FrontierTrace) : List GrowthActivation :=
  trace.witnesses.map (·.activation)

/-- The indices lead from the recorded actions, and from no other, to their records. -/
structure Located (lineage : List GrowthActivation) (indices : Indices)
    (activations : List GrowthActivation) : Prop where
  known : ∀ action, (indices.lookup action).isSome ↔ action ∈ recorded lineage
  found : ∀ action i, indices.lookup action = some i → ∃ event ∈ lineage,
    activations[i]? = some event ∧ event.actionId = action

theorem Located.later {lineage : List GrowthActivation} {indices : Indices}
    {activations activations' : List GrowthActivation}
    (located : Located lineage indices activations) (more : activations <+: activations') :
    Located lineage indices activations' where
  known := located.known
  found action i looked := by
    obtain ⟨event, member, at', same⟩ := located.found action i looked
    obtain ⟨rest, rfl⟩ := more
    have inside := (List.getElem?_eq_some_iff.mp at').1
    exact ⟨event, member, by rwa [List.getElem?_append_left inside], same⟩

def newcomer (event : GrowthActivation) : GrowthActivationWitness :=
  ⟨event, false, none, [], false, false⟩

theorem noteEnabled_eq : ∀ {events lineage : List GrowthActivation} {trace trace' : FrontierTrace}
    {indices indices' : Indices}, Located lineage indices trace.activations →
      (recorded events).Nodup → noteEnabled events (trace, indices) = (trace', indices') →
      Located (lineage ++ events) indices' trace'.activations ∧
        trace'.witnesses = trace.witnesses ++
          (events.filter (·.actionId ∉ recorded lineage)).map newcomer ∧
        trace'.enabled =
          (recorded (events.filter (·.actionId ∉ recorded lineage))).reverse ++ trace.enabled ∧
        trace'.used = trace.used := by
  intro events
  induction events with
  | nil =>
    intro lineage trace trace' indices indices' located _ same
    cases same
    simpa using ⟨located, rfl⟩
  | cons event events ih =>
    intro lineage trace trace' indices indices' located distinct same
    obtain ⟨fresh, distinct⟩ := List.nodup_cons.mp distinct
    by_cases old : event.actionId ∈ recorded lineage
    · rw [noteEnabled, if_pos ((located.known _).mpr old)] at same
      obtain ⟨located', witnesses, enabled, used⟩ := ih located distinct same
      rw [List.filter_cons_of_neg (by simpa using old)]
      refine ⟨⟨fun action => ?_, fun action i looked => ?_⟩, witnesses, enabled, used⟩
      · rw [located'.known]
        simp only [recorded, List.map_append, List.map_cons, List.mem_append, List.mem_cons]
        constructor
        · tauto
        · rintro (known | rfl | later)
          exacts [.inl known, .inl old, .inr later]
      · obtain ⟨record, member, at', named⟩ := located'.found action i looked
        refine ⟨record, ?_, at', named⟩
        rw [List.mem_append] at member ⊢
        exact member.imp_right (List.mem_cons_of_mem _)
    · rw [noteEnabled, if_neg (fun known => old ((located.known _).mp known))] at same
      have placed : trace.activations.length = trace.witnesses.length := List.length_map _
      have located₁ : Located (lineage ++ [event])
          ((event.actionId, trace.witnesses.length) :: indices)
          (trace.activations ++ [event]) := by
        refine ⟨fun action => ?_, fun action i looked => ?_⟩
        · rw [List.lookup_cons]
          simp only [recorded, List.map_append, List.map_cons, List.map_nil, List.mem_append,
            List.mem_singleton]
          by_cases own : action = event.actionId
          · simp [own]
          · rw [beq_false_of_ne own]
            simp only [own, or_false]
            exact located.known action
        · rw [List.lookup_cons] at looked
          by_cases own : action = event.actionId
          · subst own
            rw [beq_self_eq_true] at looked
            cases looked
            exact ⟨event, by simp, by rw [← placed]; simp, rfl⟩
          · rw [beq_false_of_ne own] at looked
            obtain ⟨record, member, at', named⟩ :=
              (located.later (List.prefix_append _ [event])).found action i looked
            exact ⟨record, List.mem_append_left _ member, at', named⟩
      have grown : ({ trace with
          enabled := event.actionId :: trace.enabled
          witnesses := trace.witnesses ++ [newcomer event] } : FrontierTrace).activations =
          trace.activations ++ [event] := by
        simp [FrontierTrace.activations, newcomer]
      obtain ⟨located', witnesses, enabled, used⟩ := ih (grown ▸ located₁) distinct same
      have kept : events.filter (·.actionId ∉ recorded (lineage ++ [event])) =
          events.filter (·.actionId ∉ recorded lineage) := by
        refine List.filter_congr fun e member => ?_
        have listed : e.actionId ∈ recorded events := List.mem_map_of_mem member
        have apart : e.actionId ≠ event.actionId := by
          intro equal
          rw [equal] at listed
          exact fresh listed
        simp [recorded, apart]
      rw [kept] at witnesses enabled
      rw [List.filter_cons_of_pos (by simpa using old)]
      refine ⟨?_, ?_, ?_, used⟩
      · simpa using located'
      · rw [witnesses]
        simp [newcomer]
      · rw [enabled]
        simp [recorded]

/-- What the walk over the positions `R` adds, below a ledger that knows `known`. -/
structure Adds (x : Search) (R : Position → Prop) (known : List Identifier)
    (trace trace' : FrontierTrace) : Prop where
  kept : trace.activations <+: trace'.activations
  enabled : ∀ action, action ∈ trace'.enabled ↔ action ∈ trace.enabled ∨
    action ∉ known ∧ ∃ q, R q ∧ action ∈ recorded (lineageAt q.state)
  events : ∀ event, event ∈ trace'.activations ↔ event ∈ trace.activations ∨
    event.actionId ∉ known ∧ ∃ q, R q ∧ event ∈ lineageAt q.state
  used : ∀ action, action ∈ trace'.used ↔ action ∈ trace.used ∨ ∃ q, R q ∧ q.Uses action
  continuation : (∃ w ∈ trace'.witnesses, w.continuationUse = true) ↔
    (∃ w ∈ trace.witnesses, w.continuationUse = true) ∨
      ∃ q action, R q ∧ q.Uses action ∧ q.entryNow.isSome = true
  verification : (∃ w ∈ trace'.witnesses, w.verificationCapacityEffect = true) ↔
    (∃ w ∈ trace.witnesses, w.verificationCapacityEffect = true) ∨
      ∃ q action, R q ∧ q.Uses action ∧ q.Serves x

theorem Adds.quiet {R : Position → Prop} {known : List Identifier} (trace : FrontierTrace)
    (plain : ∀ q, R q → (∀ action, ¬ q.Uses action) ∧ recorded (lineageAt q.state) ⊆ known) :
    Adds x R known trace trace where
  kept := List.prefix_rfl
  enabled action := by
    refine ⟨.inl, fun either => either.resolve_right ?_⟩
    rintro ⟨new, q, at', member⟩
    exact new ((plain q at').2 member)
  events event := by
    refine ⟨.inl, fun either => either.resolve_right ?_⟩
    rintro ⟨new, q, at', member⟩
    exact new ((plain q at').2 (List.mem_map_of_mem member))
  used action := ⟨.inl, fun either => either.resolve_right fun ⟨q, at', uses⟩ =>
    (plain q at').1 action uses⟩
  continuation := ⟨.inl, fun either => either.resolve_right fun ⟨q, action, at', uses, _⟩ =>
    (plain q at').1 action uses⟩
  verification := ⟨.inl, fun either => either.resolve_right fun ⟨q, action, at', uses, _⟩ =>
    (plain q at').1 action uses⟩

theorem Adds.trans {R S : Position → Prop} {known : List Identifier} {t t' t'' : FrontierTrace}
    (first : Adds x R known t t') (second : Adds x S known t' t'') :
    Adds x (fun q => R q ∨ S q) known t t'' where
  kept := first.kept.trans second.kept
  enabled action := by
    rw [second.enabled, first.enabled]
    grind
  events event := by
    rw [second.events, first.events]
    grind
  used action := by
    rw [second.used, first.used]
    grind
  continuation := by
    rw [second.continuation, first.continuation]
    grind
  verification := by
    rw [second.verification, first.verification]
    grind

theorem Adds.congr {R S : Position → Prop} {known : List Identifier} {t t' : FrontierTrace}
    (adds : Adds x R known t t') (same : ∀ q, R q ↔ S q) : Adds x S known t t' := by
  have equal : R = S := funext fun q => propext (same q)
  rwa [← equal]

theorem noteUse_found {lineage : List GrowthActivation} {indices : Indices} {trace : FrontierTrace}
    (located : Located lineage indices trace.activations) {actionId : Identifier}
    (known : actionId ∈ recorded lineage) (node : Digest) (path : List Identifier)
    (continuation effective : Bool) :
    ∃ front w rear, trace.witnesses = front ++ w :: rear ∧ w.activation ∈ lineage ∧
      w.activation.actionId = actionId ∧
      noteUse trace indices actionId node path continuation effective =
        ⟨trace.enabled, actionId :: trace.used,
          front ++ w.useAt node path continuation effective :: rear⟩ := by
  obtain ⟨i, looked⟩ := Option.isSome_iff_exists.mp ((located.known actionId).mpr known)
  obtain ⟨event, member, at', rfl⟩ := located.found actionId i looked
  obtain ⟨inside, here⟩ := List.getElem?_eq_some_iff.mp at'
  rw [FrontierTrace.activations, List.length_map] at inside
  obtain ⟨front, w, rear, split, length, changed⟩ :=
    List.exists_of_modify (·.useAt node path continuation effective) inside
  have own : w.activation = event := by
    subst length
    simpa [FrontierTrace.activations, split] using here
  refine ⟨front, w, rear, split, own ▸ member, congrArg _ own, ?_⟩
  simp only [noteUse, looked, changed]

theorem noteUse_unknown {lineage : List GrowthActivation} {indices : Indices} {trace : FrontierTrace}
    (located : Located lineage indices trace.activations) {actionId : Identifier}
    (unknown : actionId ∉ recorded lineage) (node : Digest) (path : List Identifier)
    (continuation effective : Bool) :
    noteUse trace indices actionId node path continuation effective = trace := by
  have looked := mt (located.known actionId).mp unknown
  rw [Option.not_isSome_iff_eq_none] at looked
  rw [noteUse, looked]

theorem noteUse_adds {p : Position} {indices : Indices} {trace : FrontierTrace}
    (located : Located (lineageAt p.state) indices trace.activations) {actionId : Identifier}
    (acts : p.node.actionId = some actionId) {recipe : GrowthAction}
    (named : Named x actionId recipe) (only : ∀ other, Named x actionId other → other = recipe)
    (node : Digest) (path : List Identifier) :
    Adds x (· = p) (recorded (lineageAt p.state)) trace
      (noteUse trace indices actionId node path p.entryNow.isSome (contributes p.state recipe)) := by
  by_cases known : actionId ∈ recorded (lineageAt p.state)
  · obtain ⟨front, w, rear, split, -, rfl, noted⟩ := noteUse_found located known node path
      p.entryNow.isSome (contributes p.state recipe)
    have uses : ∀ action, p.Uses action ↔ action = w.activation.actionId := by
      intro action
      rw [Position.Uses, acts, Option.some_inj]
      constructor
      · exact fun both => both.1.symm
      · rintro rfl
        exact ⟨rfl, known⟩
    have serves : p.Serves x ↔ contributes p.state recipe = true := by
      constructor
      · rintro ⟨actionId', recipe', acts', named', served⟩
        cases acts.symm.trans acts'
        exact only recipe' named' ▸ served
      · exact fun served => ⟨_, recipe, acts, named, served⟩
    have same : (noteUse trace indices w.activation.actionId node path p.entryNow.isSome
        (contributes p.state recipe)).activations = trace.activations := by
      simp [noted, FrontierTrace.activations, split, GrowthActivationWitness.useAt]
    refine ⟨same ▸ List.prefix_rfl, fun action => ?_, fun event => ?_, fun action => ?_, ?_, ?_⟩
    · rw [noted]
      refine ⟨.inl, fun either => either.resolve_right ?_⟩
      rintro ⟨new, _, rfl, member⟩
      exact new member
    · rw [same]
      refine ⟨.inl, fun either => either.resolve_right ?_⟩
      rintro ⟨new, _, rfl, member⟩
      exact new (List.mem_map_of_mem member)
    · simp only [noted, List.mem_cons, exists_eq_left, uses]
      exact or_comm
    · simp only [noted, split, exists_and_left, exists_eq_left, uses, List.mem_append, List.mem_cons,
        or_and_right, exists_or, GrowthActivationWitness.useAt, Bool.or_eq_true]
      grind
    · simp only [noted, split, exists_and_left, exists_eq_left, uses, List.mem_append, List.mem_cons,
        or_and_right, exists_or, GrowthActivationWitness.useAt, Bool.or_eq_true, serves]
      grind
  · rw [noteUse_unknown located known]
    refine .quiet trace ?_
    rintro _ rfl
    refine ⟨fun action uses => known ?_, List.Subset.refl _⟩
    cases acts.symm.trans uses.1
    exact uses.2

theorem Adds.entered {q : Position} {known : List GrowthActivation} {trace trace₁ trace' : FrontierTrace}
    {fresh : List GrowthActivation}
    (witnesses : trace₁.witnesses = trace.witnesses ++ fresh.map newcomer)
    (enabled : trace₁.enabled = (recorded fresh).reverse ++ trace.enabled)
    (used : trace₁.used = trace.used)
    (isFresh : ∀ event, event ∈ fresh ↔
      event ∈ lineageAt q.state ∧ event.actionId ∉ recorded known)
    (sub : recorded known ⊆ recorded (lineageAt q.state))
    (keeps : ∀ r, Reaches hash x q r → ∀ event ∈ lineageAt r.state,
      event.actionId ∈ recorded (lineageAt q.state) → event ∈ lineageAt q.state)
    (below : Adds x (Reaches hash x q) (recorded (lineageAt q.state)) trace₁ trace') :
    Adds x (Reaches hash x q) (recorded known) trace trace' := by
  have activations : trace₁.activations = trace.activations ++ fresh := by
    simp [FrontierTrace.activations, witnesses, newcomer, Function.comp_def]
  -- A record of a reached ledger is new below the step, or the step's own.
  have split : ∀ event, event.actionId ∉ recorded known →
      ((∃ r, Reaches hash x q r ∧ event ∈ lineageAt r.state) ↔ event ∈ fresh ∨
        event.actionId ∉ recorded (lineageAt q.state) ∧
          ∃ r, Reaches hash x q r ∧ event ∈ lineageAt r.state) := by
    intro event new
    constructor
    · rintro ⟨r, reached, member⟩
      by_cases old : event.actionId ∈ recorded (lineageAt q.state)
      · exact .inl ((isFresh event).mpr ⟨keeps r reached event member old, new⟩)
      · exact .inr ⟨old, r, reached, member⟩
    · rintro (own | ⟨-, below⟩)
      · exact ⟨q, .refl q, ((isFresh event).mp own).1⟩
      · exact below
  have named : ∀ action, action ∉ recorded known →
      ((∃ r, Reaches hash x q r ∧ action ∈ recorded (lineageAt r.state)) ↔ action ∈ recorded fresh ∨
        action ∉ recorded (lineageAt q.state) ∧
          ∃ r, Reaches hash x q r ∧ action ∈ recorded (lineageAt r.state)) := by
    intro action new
    constructor
    · rintro ⟨r, reached, member⟩
      by_cases old : action ∈ recorded (lineageAt q.state)
      · obtain ⟨event, listed, rfl⟩ := List.mem_map.mp member
        have own := (isFresh event).mpr ⟨keeps r reached event listed old, new⟩
        exact .inl (List.mem_map_of_mem own)
      · exact .inr ⟨old, r, reached, member⟩
    · rintro (own | ⟨-, below⟩)
      · obtain ⟨event, listed, rfl⟩ := List.mem_map.mp own
        exact ⟨q, .refl q, List.mem_map_of_mem ((isFresh event).mp listed).1⟩
      · exact below
  have unused : ∀ flag : GrowthActivationWitness → Bool, (∀ event, flag (newcomer event) = false) →
      ((∃ w ∈ trace₁.witnesses, flag w = true) ↔ ∃ w ∈ trace.witnesses, flag w = true) := by
    intro flag unset
    simp [witnesses, or_and_right, exists_or, unset]
  refine ⟨?_, fun action => ?_, fun event => ?_, fun action => ?_, ?_, ?_⟩
  · exact (activations ▸ List.prefix_append _ _ : trace.activations <+: trace₁.activations).trans
      below.kept
  · rw [below.enabled, enabled, List.mem_append, List.mem_reverse]
    by_cases new : action ∈ recorded known
    · have notFresh : action ∉ recorded fresh := by
        intro own
        obtain ⟨event, listed, rfl⟩ := List.mem_map.mp own
        exact ((isFresh event).mp listed).2 new
      simp [new, sub new, notFresh]
    · rw [named action new]
      grind
  · rw [below.events, activations, List.mem_append]
    by_cases new : event.actionId ∈ recorded known
    · have old := sub new
      have notFresh : event ∉ fresh := fun own => ((isFresh event).mp own).2 new
      simp [new, old, notFresh]
    · rw [split event new]
      tauto
  · rw [below.used, used]
  · rw [below.continuation, unused (·.continuationUse) fun _ => rfl]
  · rw [below.verification, unused (·.verificationCapacityEffect) fun _ => rfl]

def pathOf (picks : List GrowthSuccessor) : List Identifier := picks.map (·.successorId)

/-- The policy acts on the witness's action where its ledger has the witness's record. -/
def UsedAt (hash : Hashing) (x : Search) (root : Position) (w : GrowthActivationWitness)
    (picks : List GrowthSuccessor) (q : Position) : Prop :=
  Play hash x root picks q ∧ q.node.actionId = some w.activation.actionId ∧
    w.activation ∈ lineageAt q.state

/-- Everything that a witness says of its record happens in some play. -/
structure Sound (hash : Hashing) (x : Search) (f : GrowthCapabilityFrontier) (root : Position)
    (w : GrowthActivationWitness) : Prop where
  carried : w.carriedFromInitialFrontier = true ↔ w.activation ∈ f.spec.initialActivationLineage
  unused : w.firstPolicyNodeUsingActivation = none →
    w.policyPath = [] ∧ w.continuationUse = false ∧ w.verificationCapacityEffect = false
  first : ∀ digest ∈ w.firstPolicyNodeUsingActivation, ∃ picks q, UsedAt hash x root w picks q ∧
    w.policyPath = pathOf picks ∧ hash.node q.node = digest
  continuation : w.continuationUse = true →
    ∃ picks q, UsedAt hash x root w picks q ∧ q.entryNow.isSome = true
  verification : w.verificationCapacityEffect = true →
    ∃ picks q, UsedAt hash x root w picks q ∧ q.Serves x

theorem Sound.newcomer {root : Position} {event : GrowthActivation}
    (new : event ∉ f.spec.initialActivationLineage) : Sound hash x f root (newcomer event) where
  carried := by simpa [CollectivePhaseControl.newcomer] using new
  unused _ := ⟨rfl, rfl, rfl⟩
  first digest named := nomatch named
  continuation used := nomatch used
  verification used := nomatch used

theorem Sound.useAt {root p : Position} {w : GrowthActivationWitness} {picks : List GrowthSuccessor}
    (sound : Sound hash x f root w) (here : UsedAt hash x root w picks p) {effective : Bool}
    (serves : effective = true → p.Serves x) :
    Sound hash x f root
      (w.useAt (hash.node p.node) (pathOf picks) p.entryNow.isSome effective) where
  carried := sound.carried
  unused none' := by
    simp [GrowthActivationWitness.useAt] at none'
  first digest named := by
    cases old : w.firstPolicyNodeUsingActivation with
    | none =>
      rw [GrowthActivationWitness.useAt, old] at named
      cases named
      refine ⟨picks, p, here, ?_, rfl⟩
      rw [GrowthActivationWitness.useAt, old]
      rfl
    | some first =>
      rw [GrowthActivationWitness.useAt, old] at named
      cases named
      obtain ⟨picks', q, there, path, same⟩ := sound.first digest old
      refine ⟨picks', q, there, ?_, same⟩
      rw [GrowthActivationWitness.useAt, old]
      exact path
  continuation used := by
    rcases Bool.or_eq_true_iff.mp used with old | new
    · exact sound.continuation old
    · exact ⟨picks, p, here, new⟩
  verification used := by
    rcases Bool.or_eq_true_iff.mp used with old | new
    · exact sound.verification old
    · exact ⟨picks, p, here, serves new⟩

theorem firstNamed_of (facts : ContractFacts x.contract.spec x.objects) {actionId : Identifier}
    {recipe : GrowthAction} (named : Named x actionId recipe)
    (only : ∀ other, Named x actionId other → other = recipe) :
    firstNamed x.objects actionId x.contract.spec.actionCatalogue = .ok recipe := by
  obtain ⟨ids, -, each⟩ := facts.named
  have search : ∀ catalogue : List GrowthAction, catalogue ⊆ x.contract.spec.actionCatalogue →
      recipe ∈ catalogue → firstNamed x.objects actionId catalogue = .ok recipe := by
    intro catalogue
    induction catalogue with
    | nil => exact fun _ impossible => nomatch impossible
    | cons head rest ih =>
      intro inside member
      obtain ⟨listed, inside⟩ := List.cons_subset.mp inside
      obtain ⟨_, -, action, document, rfl⟩ := forall₂_mem_left each head listed
      rw [firstNamed, document, ok_bind]
      by_cases same : action.actionId = actionId
      · rw [if_pos same, only head ⟨listed, action, document, same⟩]
        rfl
      · rw [if_neg same]
        refine ih inside ((List.mem_cons.mp member).resolve_left ?_)
        rintro rfl
        obtain ⟨-, other, document', same'⟩ := named
        cases document.symm.trans document'
        exact same same'
  exact search _ (List.Subset.refl _) named.1

theorem entryNow_isSome (p : Position) : p.entryNow.isSome = (p.entry.isSome || p.node.entry) := by
  rw [Position.entryNow, entryAfter]
  cases p.node.entry <;> simp

theorem noteUse_sound {root p : Position} {picks : List GrowthSuccessor}
    (play : Play hash x root picks p) {indices : Indices} {trace : FrontierTrace}
    (located : Located (lineageAt p.state) indices trace.activations)
    (sound : ∀ w ∈ trace.witnesses, Sound hash x f root w) {actionId : Identifier}
    (acts : p.node.actionId = some actionId) (effective : Bool)
    (serves : effective = true → p.Serves x) :
    ∀ w ∈ (noteUse trace indices actionId (hash.node p.node) (pathOf picks)
      p.entryNow.isSome effective).witnesses, Sound hash x f root w := by
  by_cases known : actionId ∈ recorded (lineageAt p.state)
  · obtain ⟨front, w, rear, split, member, rfl, noted⟩ := noteUse_found located known
      (hash.node p.node) (pathOf picks) p.entryNow.isSome effective
    rw [noted]
    rw [split, List.forall_mem_append, List.forall_mem_cons] at sound
    rw [List.forall_mem_append, List.forall_mem_cons]
    exact ⟨sound.1, sound.2.1.useAt ⟨play, acts, member⟩ serves, sound.2.2⟩
  · rw [noteUse_unknown located known]
    exact sound

def Walks (hash : Hashing) (x : Search) (f : GrowthCapabilityFrontier) (root : Position) (fuel : ℕ)
    (p : Position) : Prop :=
  ∀ picks indices trace, Play hash x root picks p →
    Located (lineageAt p.state) indices trace.activations →
    (∀ w ∈ trace.witnesses, Sound hash x f root w) →
    ∃ trace', traceWalk hash x.contract x.objects f fuel p.node p.state (pathOf picks)
        p.entry.isSome indices trace = .ok trace' ∧
      Adds x (Reaches hash x p) (recorded (lineageAt p.state)) trace trace' ∧
      ∀ w ∈ trace'.witnesses, Sound hash x f root w

theorem adds_fold {α : Type} {step : FrontierTrace → α → Checked FrontierTrace}
    {R : α → Position → Prop} {known : List Identifier} {P : FrontierTrace → Prop} :
    ∀ {choices : List α}, (∀ a ∈ choices, ∀ t, P t →
        ∃ t', step t a = .ok t' ∧ Adds x (R a) known t t' ∧ P t') →
      ∀ t, P t → ∃ t', choices.foldlM step t = .ok t' ∧
        Adds x (fun q => ∃ a ∈ choices, R a q) known t t' ∧ P t' := by
  intro choices
  induction choices with
  | nil =>
    intro _ t holds
    exact ⟨t, rfl, .quiet t fun q impossible => (nomatch impossible), holds⟩
  | cons a choices ih =>
    intro each t holds
    obtain ⟨first, others⟩ := List.forall_mem_cons.mp each
    obtain ⟨t', step', adds, holds'⟩ := first t holds
    obtain ⟨t'', folded, adds', holds''⟩ := ih others t' holds'
    refine ⟨t'', ?_, (adds.trans adds').congr fun q => ?_, holds''⟩
    · rw [List.foldlM_cons, step', ok_bind, folded]
    · simp

section walk
variable (contractFacts : ContractFacts x.contract.spec x.objects) (facts : FrontierFacts f)
  (framed : x.frontier = some f)
include contractFacts facts framed

theorem Answers.lineage {p q : Position} {effect : GrowthSuccessor} (answer : Answers hash x p effect q) :
    ∃ facet facet', Lineage hash f p.state facet ∧ Lineage hash f q.state facet' ∧
      facet.activationLineage ⊆ facet'.activationLineage := by
  obtain ⟨_, recipe, -, named, -, moved, -⟩ := answer
  rw [framed] at moved
  have step : Steps hash x.contract x.objects (some f) p.state ⟨recipe, effect⟩ q.state :=
    ⟨named.1, moved⟩
  obtain ⟨facet, facet', before, after, -, records⟩ := step.lineage contractFacts facts
  exact ⟨facet, facet', before, after, records⟩

theorem reaches_grows {p q : Position} (reached : Reaches hash x p q) {facet : FrontierFacet}
    (lineage : Lineage hash f p.state facet) : ∃ facet', Lineage hash f q.state facet' ∧
      facet.activationLineage ⊆ facet'.activationLineage := by
  obtain ⟨picks, play⟩ := reached
  induction play generalizing facet with
  | nil p => exact ⟨facet, lineage, List.Subset.refl _⟩
  | cons answer _ ih =>
    obtain ⟨own, next, ownLineage, nextLineage, records⟩ :=
      answer.lineage contractFacts facts framed
    cases lineage.unique ownLineage
    obtain ⟨facet', reached, records'⟩ := ih nextLineage
    exact ⟨facet', reached, List.Subset.trans records records'⟩

theorem reaches_keeps {p q : Position} (reached : Reaches hash x p q) {facet : FrontierFacet}
    (lineage : Lineage hash f p.state facet) {event : GrowthActivation}
    (member : event ∈ lineageAt q.state) (known : event.actionId ∈ recorded (lineageAt p.state)) :
    event ∈ lineageAt p.state := by
  obtain ⟨facet', later, records⟩ := reaches_grows contractFacts facts framed reached lineage
  rw [later.lineageAt_eq] at member
  rw [lineage.lineageAt_eq] at known ⊢
  obtain ⟨old, listed, same⟩ := List.mem_map.mp known
  rwa [List.inj_on_of_nodup_map later.distinct member (records listed) same.symm]

theorem walks_branch {root p q : Position} {fuel : ℕ} {picks : List GrowthSuccessor}
    (play : Play hash x root picks p) {effect : GrowthSuccessor}
    (answer : Answers hash x p effect q) (below : Walks hash x f root fuel q)
    {indices : Indices} {trace : FrontierTrace}
    (located : Located (lineageAt p.state) indices trace.activations)
    (sound : ∀ w ∈ trace.witnesses, Sound hash x f root w) {recipe : GrowthAction}
    (moved : transition hash x.contract p.state recipe effect x.objects (some f) = .ok q.state) :
    ∃ trace', (do
        let next ← transition hash x.contract p.state recipe effect x.objects (some f)
        let facet ← facetOf next
        let (trace, indices) := noteEnabled facet.activationLineage (trace, indices)
        let child ← demand .keyError (p.node.branches.lookup effect.successorId)
        traceWalk hash x.contract x.objects f fuel child next
          (pathOf picks ++ [effect.successorId]) p.entryNow.isSome indices trace) =
        .ok trace' ∧
      Adds x (Reaches hash x q) (recorded (lineageAt p.state)) trace trace' ∧
      ∀ w ∈ trace'.witnesses, Sound hash x f root w := by
  obtain ⟨facet, facet', before, after, records⟩ := answer.lineage contractFacts facts framed
  obtain ⟨-, -, -, -, -, -, answered, entry, -⟩ := id answer
  rcases noted : noteEnabled facet'.activationLineage (trace, indices) with ⟨trace₁, indices₁⟩
  obtain ⟨located₁, witnesses, enabled, used⟩ := noteEnabled_eq located after.distinct noted
  have sub : lineageAt p.state ⊆ lineageAt q.state := by
    rw [before.lineageAt_eq, after.lineageAt_eq]
    exact records
  have merged : Located (lineageAt q.state) indices₁ trace₁.activations := by
    refine ⟨fun action => ?_, fun action i looked => ?_⟩
    · rw [located₁.known, recorded, List.map_append, List.mem_append, after.lineageAt_eq]
      refine ⟨fun either => either.elim (fun old => ?_) id, .inr⟩
      rw [← after.lineageAt_eq]
      exact List.map_subset _ sub old
    · obtain ⟨event, member, at', named⟩ := located₁.found action i looked
      refine ⟨event, ?_, at', named⟩
      rcases List.mem_append.mp member with old | own
      · exact sub old
      · rwa [after.lineageAt_eq]
  have isFresh : ∀ event,
      event ∈ facet'.activationLineage.filter (·.actionId ∉ recorded (lineageAt p.state)) ↔
        event ∈ lineageAt q.state ∧ event.actionId ∉ recorded (lineageAt p.state) := by
    intro event
    rw [after.lineageAt_eq, List.mem_filter, decide_eq_true_eq]
  have sound₁ : ∀ w ∈ trace₁.witnesses, Sound hash x f root w := by
    rw [witnesses, List.forall_mem_append]
    refine ⟨sound, fun w member => ?_⟩
    obtain ⟨event, fresh, rfl⟩ := List.mem_map.mp member
    refine .newcomer fun carried => ((isFresh event).mp fresh).2 ?_
    have own := (before.carried event carried).trans
      ((lineageOf_eq_some facts.carried).mpr ⟨carried, rfl⟩)
    rw [before.lineageAt_eq]
    exact List.mem_map_of_mem (lineageOf_mem own).1
  obtain ⟨trace', walked, adds, sound'⟩ := below (picks ++ [effect]) indices₁ trace₁
    (play.snoc answer) merged sound₁
  refine ⟨trace', ?_, adds.entered witnesses enabled used isFresh (List.map_subset _ sub) ?_, sound'⟩
  · rw [moved, ok_bind, facetOf, after.present]
    simp only [demand, ok_bind, noted, answered]
    rw [entry, pathOf, List.map_append] at walked
    exact walked
  · exact fun r reached event member known =>
      reaches_keeps contractFacts facts framed reached after member known

theorem traceWalk_adds {root : Position} :
    ∀ {fuel : ℕ} {p : Position} {v : Walk}, visit hash x fuel p.node p.state p.entry = .ok v →
      (∃ facet, Lineage hash f p.state facet) → Walks hash x f root fuel p := by
  intro fuel
  induction fuel with
  | zero => simp [visit]
  | succ fuel ih =>
    intro p v accepted lineage picks indices trace play located sound
    cases acts : p.node.actionId with
    | none =>
      have alone : ∀ q, Reaches hash x p q ↔ q = p := by
        intro q
        rw [reaches_iff]
        refine ⟨fun either => either.resolve_right ?_, .inl⟩
        rintro ⟨_, _, ⟨_, _, acts', -⟩, -⟩
        cases acts.symm.trans acts'
      refine ⟨trace, by rw [traceWalk, acts]; rfl, (Adds.quiet trace ?_).congr fun q => (alone q).symm,
        sound⟩
      rintro _ rfl
      exact ⟨fun action uses => absurd (acts.symm.trans uses.1) (Option.some_ne_none _).symm,
        List.Subset.refl _⟩
    | some actionId =>
      obtain ⟨recipe, parts, named, only, -, -, followed⟩ := accepted_answers accepted acts
      have noted := noteUse_adds located acts named only (hash.node p.node)
        (pathOf picks)
      have sound₁ := noteUse_sound play located sound acts (contributes p.state recipe)
        fun served => ⟨_, recipe, acts, named, served⟩
      have each : ∀ effect ∈ successors p.state recipe, ∀ t,
          (Located (lineageAt p.state) indices t.activations ∧
            ∀ w ∈ t.witnesses, Sound hash x f root w) →
          ∃ t', (do
              let next ← transition hash x.contract p.state recipe effect x.objects (some f)
              let facet ← facetOf next
              let (t, indices) := noteEnabled facet.activationLineage (t, indices)
              let child ← demand .keyError (p.node.branches.lookup effect.successorId)
              traceWalk hash x.contract x.objects f fuel child next
                (pathOf picks ++ [effect.successorId]) p.entryNow.isSome indices t) = .ok t' ∧
            Adds x (fun q => ∃ r, Answers hash x p effect r ∧ Reaches hash x r q)
              (recorded (lineageAt p.state)) t t' ∧
            Located (lineageAt p.state) indices t'.activations ∧
            ∀ w ∈ t'.witnesses, Sound hash x f root w := by
        rintro effect picked t ⟨located', sound'⟩
        obtain ⟨part, -, q, answer, visited, unique⟩ := forall₂_mem_left followed effect picked
        obtain ⟨facet, facet', -, after, -⟩ := answer.lineage contractFacts facts framed
        obtain ⟨_, recipe', acts', named', -, moved, -⟩ := id answer
        cases acts.symm.trans acts'
        cases only recipe' named'
        rw [framed] at moved
        obtain ⟨t', walked, adds, sound''⟩ := walks_branch contractFacts facts framed play answer
          (ih visited ⟨facet', after⟩) located' sound' moved
        refine ⟨t', walked, adds.congr fun r => ⟨fun reached => ⟨q, answer, reached⟩, ?_⟩,
          located'.later adds.kept, sound''⟩
        rintro ⟨q', answer', reached⟩
        rwa [← unique q' answer']
      obtain ⟨trace', folded, adds, -, sound'⟩ :=
        adds_fold each _ ⟨located.later noted.kept, sound₁⟩
      refine ⟨trace', ?_, (noted.trans adds).congr fun q => ?_, sound'⟩
      · rw [traceWalk, acts]
        simp only [firstNamed_of contractFacts named only, ok_bind, ← entryNow_isSome]
        exact folded
      · rw [reaches_iff]
        refine or_congr_right ⟨?_, ?_⟩
        · rintro ⟨effect, -, r, answer, reached⟩
          exact ⟨effect, r, answer, reached⟩
        · rintro ⟨effect, r, answer, reached⟩
          obtain ⟨_, recipe', acts', named', picked, -⟩ := id answer
          cases acts.symm.trans acts'
          cases only recipe' named'
          exact ⟨effect, picked, r, answer, reached⟩

end walk

theorem positions_located (witnesses : List GrowthActivationWitness) :
    Located (witnesses.map (·.activation)) (positions witnesses) (witnesses.map (·.activation)) := by
  have same : (witnesses.map (·.activation.actionId)).length =
      (List.range witnesses.length).length := by simp
  refine ⟨fun action => ?_, fun action i looked => ?_⟩
  · have keys := List.map_fst_zip same.le
    have listed : (∃ p ∈ positions witnesses, action == p.1) ↔
        action ∈ witnesses.map (·.activation.actionId) := by
      rw [← keys]
      simp [positions]
    rw [List.lookup_isSome_iff, listed, recorded, List.map_map]
    rfl
  · have member := List.mem_reverse.mp (mem_of_lookup looked)
    obtain ⟨j, at'⟩ := List.mem_iff_getElem?.mp member
    obtain ⟨keyed, counted⟩ := List.getElem?_zip_eq_some.mp at'
    obtain ⟨inside, rfl⟩ := List.getElem?_eq_some_iff.mp counted
    rw [List.getElem?_map, Option.map_eq_some_iff] at keyed
    rw [List.getElem_range]
    obtain ⟨w, here, rfl⟩ := keyed
    refine ⟨w.activation, List.mem_map_of_mem (List.mem_of_getElem? here), ?_, rfl⟩
    rw [List.getElem?_map, here]
    rfl

theorem initialState_records {contract : GrowthContract} {start : GrowthState}
    (h : initialState hash contract (some f) = .ok start) :
    lineageAt start = sortedLineage f.spec.initialActivationLineage := by
  simp only [initialState, bind_ok] at h
  obtain ⟨-, -, -, -, ledger, -, -, -, started⟩ := h
  simp only [seed, validate_ok] at started
  obtain ⟨-, rfl⟩ := started
  rfl

/-- What the diagnostics say about a policy, in terms of its plays. -/
structure Diagnosed (hash : Hashing) (x : Search) (f : GrowthCapabilityFrontier) (root : Position)
    (d : GrowthFrontierDiagnostics) : Prop where
  newlyEnabled : ∀ action, action ∈ d.newlyEnabledActionIds ↔
    action ∉ recorded f.spec.initialActivationLineage ∧
      ∃ q, Reaches hash x root q ∧ action ∈ recorded (lineageAt q.state)
  used : ∀ action, action ∈ d.actionsUsedAfterActivation ↔
    ∃ q, Reaches hash x root q ∧ q.Uses action
  depth : ∀ n, d.maximumActivationDepth ≤ n ↔
    ∀ q, Reaches hash x root q → ∀ event ∈ lineageAt q.state, event.depth ≤ n
  endogenous : d.endogenousFrontierUsed = true ↔ ∃ q action, Reaches hash x root q ∧ q.Uses action
  continuation : d.continuationDependsOnFrontier = true ↔
    ∃ q action, Reaches hash x root q ∧ q.Uses action ∧ q.entryNow.isSome = true
  verification : d.verificationCapacityContribution = true ↔
    ∃ q action, Reaches hash x root q ∧ q.Uses action ∧ q.Serves x
  recursive : d.recursiveActivationUsed = true ↔ ∃ q event r, Reaches hash x root q ∧
    event ∈ lineageAt q.state ∧ Reaches hash x root r ∧ r.Uses event.producerActionId
  witnessed : ∀ event, event ∈ d.witnesses.map (·.activation) ↔
    ∃ q, Reaches hash x root q ∧ event ∈ lineageAt q.state
  sound : ∀ w ∈ d.witnesses, Sound hash x f root w

theorem Adds.diagnosed {root : Position} {carried trace : FrontierTrace}
    (lineage : lineageAt root.state = sortedLineage f.spec.initialActivationLineage)
    (first : carried.activations = lineageAt root.state) (enabled : carried.enabled = [])
    (used : carried.used = [])
    (unused : ∀ w ∈ carried.witnesses, w.continuationUse = false ∧
      w.verificationCapacityEffect = false)
    (keeps : ∀ q, Reaches hash x root q → ∀ event ∈ lineageAt q.state,
      event.actionId ∈ recorded (lineageAt root.state) → event ∈ lineageAt root.state)
    (adds : Adds x (Reaches hash x root) (recorded (lineageAt root.state)) carried trace)
    (sound : ∀ w ∈ trace.witnesses, Sound hash x f root w) :
    Diagnosed hash x f root trace.report := by
  have known : ∀ action, action ∈ recorded (lineageAt root.state) ↔
      action ∈ recorded f.spec.initialActivationLineage := by
    intro action
    rw [lineage]
    exact ((sortedLineage_perm _).map _).mem_iff
  have ever : ∀ event, event ∈ trace.activations ↔
      ∃ q, Reaches hash x root q ∧ event ∈ lineageAt q.state := by
    intro event
    rw [adds.events, first]
    constructor
    · rintro (own | ⟨-, later⟩)
      exacts [⟨root, .refl root, own⟩, later]
    · rintro ⟨q, reached, member⟩
      by_cases old : event.actionId ∈ recorded (lineageAt root.state)
      · exact .inl (keeps q reached event member old)
      · exact .inr ⟨old, q, reached, member⟩
  have uses : ∀ action, action ∈ trace.used ↔ ∃ q, Reaches hash x root q ∧ q.Uses action := by
    intro action
    rw [adds.used, used]
    simp
  have quiet : ∀ flag : GrowthActivationWitness → Bool, (∀ w ∈ carried.witnesses, flag w = false) →
      ¬ ∃ w ∈ carried.witnesses, flag w = true := by
    rintro flag unset ⟨w, member, set'⟩
    exact Bool.false_ne_true ((unset w member).symm.trans set')
  refine ⟨fun action => ?_, fun action => ?_, fun n => ?_, ?_, ?_, ?_, ?_, ever, sound⟩
  · rw [FrontierTrace.report, mem_sortedSet, adds.enabled, enabled, known]
    simp
  · rw [FrontierTrace.report, mem_sortedSet, uses]
  · rw [FrontierTrace.report, maximumDepth_le]
    constructor
    · exact fun within q reached event member => within event ((ever event).mpr ⟨q, reached, member⟩)
    · intro within event member
      obtain ⟨q, reached, there⟩ := (ever event).mp member
      exact within q reached event there
  · have some' : trace.used ≠ [] ↔ ∃ q action, Reaches hash x root q ∧ q.Uses action := by
      constructor
      · intro some'
        obtain ⟨action, member⟩ := List.exists_mem_of_ne_nil _ some'
        obtain ⟨q, there⟩ := (uses action).mp member
        exact ⟨q, action, there⟩
      · rintro ⟨q, action, there⟩
        exact List.ne_nil_of_mem ((uses action).mpr ⟨q, there⟩)
    rw [← some']
    simp [FrontierTrace.report]
  · rw [FrontierTrace.report, List.any_eq_true, adds.continuation]
    exact or_iff_right (quiet (·.continuationUse) fun w member => (unused w member).1)
  · rw [FrontierTrace.report, List.any_eq_true, adds.verification]
    exact or_iff_right (quiet (·.verificationCapacityEffect) fun w member => (unused w member).2)
  · simp only [FrontierTrace.report, List.any_eq_true, decide_eq_true_eq, uses]
    constructor
    · rintro ⟨w, member, r, reached', used'⟩
      obtain ⟨q, reached, there⟩ := (ever w.activation).mp (List.mem_map_of_mem member)
      exact ⟨q, w.activation, r, reached, there, reached', used'⟩
    · rintro ⟨q, event, r, reached, there, reached', used'⟩
      obtain ⟨w, member, rfl⟩ := List.mem_map.mp ((ever event).mpr ⟨q, reached, there⟩)
      exact ⟨w, member, r, reached', used'⟩

/-- The diagnostics of an accepted policy say what its plays do, all of them and no other:
no report is lost between branches that share a witness, and none is made up. -/
theorem diagnostics_exact {contract : GrowthContract} {objects : Objects}
    {comparisons : List GrowthComparison} (valid : validateContract hash contract objects = .ok ())
    (framed : validateFrontier hash contract objects f = .ok ()) {root : GrowthPolicyNode}
    {start : GrowthState} (prepaidStart : initialState hash contract (some f) = .ok start)
    {c : Candidate} (accepted : checkTree hash (checker contract objects comparisons (some f)) root
      start none = .ok c) :
    ∃ d, diagnostics hash contract objects f (some root) = d.validate ∧
      Diagnosed hash (checker contract objects comparisons (some f)) f ⟨root, start, none, []⟩ d := by
  have contractFacts := validateContract_ok hash valid
  obtain ⟨facts, -⟩ := validateFrontier_ok framed
  obtain ⟨facet, lineage⟩ := initialState_lineage valid framed prepaidStart
  obtain ⟨-, visited, -⟩ := checkTree_ok.mp accepted
  have records := initialState_records prepaidStart
  set x := checker contract objects comparisons (some f)
  set p : Position := ⟨root, start, none, []⟩
  set carried : FrontierTrace := ⟨[], [], carriedWitnesses f⟩ with carriedEq
  have same : carried.activations = lineageAt p.state := by
    rw [records, carriedEq, FrontierTrace.activations, carriedWitnesses, List.map_map]
    exact List.map_id _
  have located : Located (lineageAt p.state) (positions (carriedWitnesses f)) carried.activations := by
    rw [← same]
    exact positions_located _
  have unused : ∀ w ∈ carried.witnesses, w.continuationUse = false ∧
      w.verificationCapacityEffect = false ∧ Sound hash x f p w := by
    intro w member
    obtain ⟨event, there, rfl⟩ := List.mem_map.mp member
    have own := (sortedLineage_perm _).mem_iff.mp there
    exact ⟨rfl, rfl, ⟨fun _ => own, fun _ => rfl⟩, fun _ => ⟨rfl, rfl, rfl⟩,
      fun _ impossible => (nomatch impossible), fun impossible => (nomatch impossible),
      fun impossible => (nomatch impossible)⟩
  have walks : Walks hash x f p _ p := traceWalk_adds contractFacts facts rfl visited ⟨facet, lineage⟩
  obtain ⟨trace, walked, adds, sound⟩ := walks [] (positions (carriedWitnesses f)) carried (.nil p)
    located fun w member => (unused w member).2.2
  have reported : diagnostics hash contract objects f (some root) = trace.report.validate := by
    rw [diagnostics, prepaidStart, ok_bind]
    exact congrArg (· >>= _) walked
  exact ⟨trace.report, reported, adds.diagnosed records same rfl rfl
    (fun w member => ⟨(unused w member).1, (unused w member).2.1⟩)
    (fun q reached event => reaches_keeps contractFacts facts rfl reached lineage) sound⟩

namespace Sample

def patientTerms : GrowthContractSpec :=
  { framedTerms with
    jointServiceUntil := whole 3
    windows := [⟨whole 1, whole 2, whole 2, whole 2⟩]
    deadline := whole 3
    maxDecisions := 3
    actionCatalogue := [recipe "grow" ["reuse"] 3 1 (dict [("measured", whole 3)]),
      recipe "idle" [] 3 0 ∅] }

def patientContract : GrowthContract := ⟨metadata "contract", ∅, patientTerms⟩

def patientFrontier : GrowthCapabilityFrontier :=
  { frontier with spec := { frontier.spec with
      activationRules := [{ rule with expires := whole 3 }] } }

def patientStart : GrowthState :=
  (initialState digests patientContract (some patientFrontier)).toOption.getD declared

def patientAfter (s : GrowthState) (name : Identifier) : GrowthState :=
  match firstNamed framedObjects name patientTerms.actionCatalogue with
  | .error _ => s
  | .ok recipe => match recipe.successors with
    | [] => s
    | effect :: _ => (transition digests patientContract s recipe effect framedObjects
        (some patientFrontier)).toOption.getD s

def patientChecker : Search :=
  checker patientContract framedObjects (comparisons.map ({ · with endpoint := whole 2 }))
    (some patientFrontier)

def patientNode (s : GrowthState) (name : Identifier) (entered : Bool) (child : GrowthPolicyNode) :
    GrowthPolicyNode :=
  ⟨digests.state s, some name, entered, [("nominal", child)], dict [("nominal", "nominal")]⟩

def patientPolicy : GrowthPolicyNode :=
  let afterWait := patientAfter patientStart "idle"
  let afterGrow := patientAfter afterWait "grow"
  patientNode patientStart "idle" false <| patientNode afterWait "grow" false <|
    patientNode afterGrow "grow" true (leafNode (digests.state (patientAfter afterGrow "grow")))

/-- The policy is accepted, and its report depends on the frontier. -/
theorem patient_accepted :
    validateContract digests patientContract framedObjects = .ok () ∧
    validateFrontier digests patientContract framedObjects patientFrontier = .ok () ∧
    initialState digests patientContract (some patientFrontier) = .ok patientStart ∧
    (checkTree digests patientChecker patientPolicy patientStart none).toBool = true ∧
    (diagnostics digests patientContract framedObjects patientFrontier
      (some patientPolicy)).toOption.any (·.continuationDependsOnFrontier) = true := by
  decide +kernel

end Sample

theorem diagnostics_exact_sample : ∃ q action,
    Reaches Sample.digests Sample.patientChecker
        ⟨Sample.patientPolicy, Sample.patientStart, none, []⟩ q ∧
      q.Uses action ∧ q.entryNow.isSome = true := by
  obtain ⟨valid, framed, start, accepted, flagged⟩ := Sample.patient_accepted
  obtain ⟨c, accepted⟩ := exists_ok accepted
  obtain ⟨d, reported, diagnosed⟩ := diagnostics_exact valid framed start accepted
  rw [reported, GrowthFrontierDiagnostics.validate] at flagged
  split at flagged
  · exact diagnosed.continuation.mp flagged
  · exact nomatch flagged

end CollectivePhaseControl
