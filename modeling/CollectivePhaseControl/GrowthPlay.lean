import CollectivePhaseControl.GrowthTree
import CollectivePhaseControl.GrowthConservation
import CollectivePhaseControl.MaxMin

/-! Plays against a policy tree. At every decision the adversary picks one of the declared
successors; an accepted tree answers each pick, passes every gate on the way, decides on
entry once, and stops exactly at the end of the continuation. The objective is the worst
case over these plays. -/
namespace CollectivePhaseControl

variable {hash : Hashing}

namespace GrowthObjective

def rationals (o : GrowthObjective) : List Rational :=
  [o.worstEntryTime, o.terminalMinAttainment, o.worstDuration] ++ o.worstCost.values ++
    o.worstDebt.values

def validate (o : GrowthObjective) : Checked GrowthObjective :=
  if o.worstCost.size ≤ 32 ∧ o.worstDebt.size ≤ 32 ∧ ∀ r ∈ o.rationals, r.accepted then .ok o
  else .error (.crash .validationError)

end GrowthObjective

/-- `max` of a sequence, which raises when it is empty. -/
def greatest (values : List ℚ) : Checked ℚ := demand .valueError values.max?

def least (values : List ℚ) : Checked ℚ := demand .valueError values.min?

def worstByKey (terminals : List GrowthState) (quantity : GrowthState → Identifier → ℚ)
    (keys : List Identifier) : Checked (List (Identifier × Rational)) :=
  keys.mapM fun key => do pure (key, str (← greatest (terminals.map fun s => quantity s key)))

def objective (c : GrowthContractSpec) (candidate : Candidate) : Checked GrowthObjective := do
  let entry ← greatest candidate.entries
  let attained ← candidate.terminals.mapM fun s => attainment c s .lower
  let reached ← least attained
  let cost ← worstByKey candidate.terminals (fun s => balance s.spent) c.costOrder
  let debt ← worstByKey candidate.terminals (fun s => backlog s.obligations) c.domains.keys
  let duration ← greatest (candidate.terminals.map (F ·.elapsed))
  GrowthObjective.validate
    ⟨str entry, str reached, .ofList cost, .ofList debt, str duration⟩

/-- Where a play stands: the subtree in force, the ledger, the entry carried along, and
the ledgers at which an entry was decided. -/
structure Position where
  node : GrowthPolicyNode
  state : GrowthState
  entry : Option GrowthCheckpoint
  entered : List GrowthState

namespace Position

def entryNow (p : Position) : Option GrowthCheckpoint := entryAfter p.node p.state p.entry

def enteredNow (p : Position) : List GrowthState :=
  p.entered ++ if p.node.entry then [p.state] else []

def Finished (p : Position) : Prop := p.node.actionId = none

end Position

def Named (x : Search) (actionId : Identifier) (recipe : GrowthAction) : Prop :=
  recipe ∈ x.contract.spec.actionCatalogue ∧
    ∃ action, actionDocument x.objects recipe.actionDigest = .ok action ∧
      action.actionId = actionId

/-- The adversary picks `effect` and the tree answers. -/
def Answers (hash : Hashing) (x : Search) (p : Position) (effect : GrowthSuccessor)
    (q : Position) : Prop :=
  ∃ actionId recipe, p.node.actionId = some actionId ∧ Named x actionId recipe ∧
    effect ∈ successors p.state recipe ∧
    transition hash x.contract p.state recipe effect x.objects x.frontier = .ok q.state ∧
    p.node.branches.lookup effect.successorId = some q.node ∧
    q.entry = p.entryNow ∧ q.entered = p.enteredNow

abbrev Play (hash : Hashing) (x : Search) (p : Position) (picks : List GrowthSuccessor)
    (q : Position) : Prop := Runs.Run (Answers hash x) p picks q

/-- The continuation is over: exactly its horizon after the entry, with both factors met. -/
def Continued (c : GrowthContractSpec) (s : GrowthState) (entry : Option GrowthCheckpoint) : Prop :=
  ∃ p ∈ entry, F s.elapsed = F p.time + F c.continuationHorizon ∧
    ∀ x ∈ [("task", c.continuationTaskFactor), ("research", c.continuationResearchFactor)],
      ∃ capacity before, s.capacities[x.1]? = some capacity ∧ p.capacities[x.1]? = some before ∧
        F before.upper * F x.2 ≤ F capacity.lower

theorem grownBy_ok {s : GrowthState} {base : Dict GrowthInterval} :
    ∀ {factors : List (Identifier × Rational)}, grownBy s base factors = .ok true ↔
      ∀ x ∈ factors, ∃ capacity before, s.capacities[x.1]? = some capacity ∧
        base[x.1]? = some before ∧ F before.upper * F x.2 ≤ F capacity.lower := by
  intro factors
  induction factors with
  | nil => simp [grownBy]
  | cons x factors ih =>
    obtain ⟨key, factor⟩ := x
    simp only [grownBy, bind_ok, Dict.item_ok, List.forall_mem_cons]
    constructor
    · rintro ⟨capacity, found, before, base', rest⟩
      split at rest
      case isTrue grown => exact ⟨⟨capacity, before, found, base', grown⟩, ih.mp rest⟩
      case isFalse => simp [pure, Except.pure] at rest
    · rintro ⟨⟨capacity, before, found, base', grown⟩, rest⟩
      refine ⟨capacity, found, before, base', ?_⟩
      rw [if_pos grown]
      exact ih.mpr rest

theorem terminal_ok {c : GrowthContractSpec} {s : GrowthState} {entry : Option GrowthCheckpoint} :
    terminal c none s entry = .ok true ↔ Continued c s entry := by
  cases entry with
  | none => simp [terminal, Continued]
  | some p =>
    simp only [terminal, Continued, Option.mem_some_iff, exists_eq_left']
    split
    case isTrue reached => rw [grownBy_ok]; exact ⟨fun h => ⟨reached, h⟩, And.right⟩
    case isFalse other => simp [other]

theorem checkNode_ok {x : Search} {node : GrowthPolicyNode} {s : GrowthState}
    {entry : Option GrowthCheckpoint} {u : Unit} (h : checkNode hash x node s entry = .ok u) :
    checkState x.contract.spec s = .ok () ∧ s.modelIds ≠ [] ∧
      stateDigest hash s = .ok node.stateDigest ∧
      (node.entry = true → entry = none ∧
        entryAllowed x.contract.spec x.comparisons s = .ok true) := by
  simp only [checkNode, bind_ok, require_ok] at h
  obtain ⟨⟨⟩, checked, -, models, digest, digested, -, same, own⟩ := h
  refine ⟨checked, models, same ▸ digested, fun decides => ?_⟩
  rw [if_pos decides] at own
  simp only [bind_ok, require_ok] at own
  obtain ⟨-, fresh, allowed, gate, rfl⟩ := own
  exact ⟨fresh, gate⟩

theorem namedRecipe_ok {x : Search} {actionId : Identifier} {recipe : GrowthAction}
    (h : namedRecipe x actionId = .ok recipe) :
    Named x actionId recipe ∧ ∀ other, Named x actionId other → other = recipe := by
  simp only [namedRecipe, namedCatalogue, bind_ok, mapM_ok, pure_ok] at h
  obtain ⟨named, listed, picked⟩ := h
  split at picked
  case h_2 => simp at picked
  case h_1 id found single =>
    rw [pure_ok] at picked
    subst picked
    have member : ∀ p, p ∈ named.filter (·.1 = actionId) ↔ p = (id, found) := by
      rw [single]
      exact fun _ => List.mem_singleton
    obtain ⟨inNamed, sameId⟩ := List.mem_filter.mp ((member _).mpr rfl)
    obtain ⟨r, inCatalogue, action, document, built⟩ := forall₂_mem_right listed _ inNamed
    cases built
    refine ⟨⟨inCatalogue, action, document, by simpa using sameId⟩, ?_⟩
    rintro other ⟨otherListed, otherAction, otherDocument, rfl⟩
    obtain ⟨p, inNamed', action', document', rfl⟩ := forall₂_mem_left listed _ otherListed
    cases otherDocument.symm.trans document'
    have inFilter : (otherAction.actionId, other) ∈
        named.filter (·.1 = otherAction.actionId) :=
      List.mem_filter.mpr ⟨inNamed', by simp⟩
    exact congrArg Prod.snd ((member _).mp inFilter)

theorem checkBranches_ok {node : GrowthPolicyNode} {effects : List GrowthSuccessor} {u : Unit}
    (h : checkBranches node effects = .ok u) : effects ≠ [] := (require_ok.mp h).2.2.2.2

theorem followBranch_ok {x : Search} {node : GrowthPolicyNode} {s : GrowthState}
    {recipe : GrowthAction} {effect : GrowthSuccessor} {child : GrowthPolicyNode}
    {next : GrowthState} :
    followBranch hash x node s recipe effect = .ok (child, next) ↔
      node.effectDigests[effect.successorId]? = some (hash.successor effect) ∧
        transition hash x.contract s recipe effect x.objects x.frontier = .ok next ∧
        node.branches.lookup effect.successorId = some child := by
  simp only [followBranch, bind_ok, Dict.item_ok, require_ok, demand_ok, pure_ok, Prod.mk.injEq]
  constructor
  · rintro ⟨declared, found, -, rfl, next', moved, child', answered, rfl, rfl⟩
    exact ⟨found, moved, answered⟩
  · rintro ⟨found, moved, answered⟩
    exact ⟨_, found, ⟨⟩, rfl, next, moved, child, answered, rfl, rfl⟩

section plays
variable {x : Search}

theorem Named.steps {actionId : Identifier} {recipe : GrowthAction} (named : Named x actionId recipe)
    {s t : GrowthState} {effect : GrowthSuccessor}
    (moved : transition hash x.contract s recipe effect x.objects x.frontier = .ok t) :
    Steps hash x.contract x.objects x.frontier s ⟨recipe, effect⟩ t := ⟨named.1, moved⟩

/-- A position of a play: its subtree is accepted, and entry decisions and gates are
accounted for. `given` is the entry that the caller passed in. -/
structure Guarded (hash : Hashing) (x : Search) (given : Option GrowthCheckpoint) (fuel : ℕ)
    (p : Position) : Prop where
  accepted : ∃ v, visit hash x fuel p.node p.state p.entry = .ok v
  counted : p.entered.length + given.toList.length = p.entry.toList.length
  allowed : ∀ s ∈ p.entered, entryAllowed x.contract.spec x.comparisons s = .ok true

theorem Guarded.checked {given : Option GrowthCheckpoint} {fuel : ℕ} {p : Position}
    (guarded : Guarded hash x given (fuel + 1) p) :
    checkNode hash x p.node p.state p.entry = .ok () := by
  obtain ⟨v, accepted⟩ := guarded.accepted
  exact (visit_ok.mp accepted).1

theorem Guarded.now {given : Option GrowthCheckpoint} {fuel : ℕ} {p : Position}
    (guarded : Guarded hash x given (fuel + 1) p) :
    p.enteredNow.length + given.toList.length = p.entryNow.toList.length ∧
      ∀ s ∈ p.enteredNow, entryAllowed x.contract.spec x.comparisons s = .ok true := by
  obtain ⟨-, -, -, own⟩ := checkNode_ok guarded.checked
  have counted := guarded.counted
  by_cases decides : p.node.entry = true
  · obtain ⟨fresh, gate⟩ := own decides
    rw [fresh, Option.toList_none, List.length_nil] at counted
    constructor
    · rw [Position.enteredNow, Position.entryNow, entryAfter, if_pos decides, if_pos decides,
        List.length_append, Option.toList_some, List.length_singleton, List.length_singleton]
      omega
    · simp only [Position.enteredNow, if_pos decides, List.forall_mem_append,
        List.forall_mem_singleton]
      exact ⟨guarded.allowed, gate⟩
  · constructor
    · simpa [Position.enteredNow, Position.entryNow, entryAfter, decides] using counted
    · simpa [Position.enteredNow, decides] using guarded.allowed

theorem accepted_answers {fuel : ℕ} {p : Position} {v : Walk}
    (accepted : visit hash x (fuel + 1) p.node p.state p.entry = .ok v) {actionId : Identifier}
    (acts : p.node.actionId = some actionId) :
    ∃ recipe parts, Named x actionId recipe ∧ (∀ other, Named x actionId other → other = recipe) ∧
      successors p.state recipe ≠ [] ∧ v = Walk.node.join (.gather parts) ∧
      List.Forall₂ (fun effect part => ∃ q, Answers hash x p effect q ∧
        visit hash x fuel q.node q.state q.entry = .ok part ∧
        ∀ q', Answers hash x p effect q' → q' = q) (successors p.state recipe) parts := by
  obtain ⟨-, ⟨stays, -⟩ | ⟨id, recipe, parts, acts', named, branches, followed, rfl⟩⟩ :=
    visit_ok.mp accepted
  · rw [stays] at acts
    cases acts
  · rw [acts'] at acts
    cases acts
    obtain ⟨isNamed, only⟩ := namedRecipe_ok named
    refine ⟨recipe, parts, isNamed, only, checkBranches_ok branches, rfl, ?_⟩
    refine ((List.forall₂_and_left _ _).mpr ⟨fun _ member => member, followed⟩).imp ?_
    rintro effect part ⟨member, child, next, branch, visited⟩
    obtain ⟨-, moved, answered⟩ := followBranch_ok.mp branch
    refine ⟨⟨child, next, p.entryNow, p.enteredNow⟩,
      ⟨actionId, recipe, acts', isNamed, member, moved, answered, rfl, rfl⟩, visited, ?_⟩
    rintro ⟨child', next', entry', entered'⟩
      ⟨id', recipe', acts'', named', -, moved', answered', rfl, rfl⟩
    rw [acts'] at acts''
    cases acts''
    cases only recipe' named'
    cases moved.symm.trans moved'
    cases answered.symm.trans answered'
    rfl

theorem guarded_step {given : Option GrowthCheckpoint} {fuel : ℕ} {p q : Position}
    {effect : GrowthSuccessor} (guarded : Guarded hash x given (fuel + 1) p)
    (answer : Answers hash x p effect q) : Guarded hash x given fuel q := by
  obtain ⟨v, accepted⟩ := guarded.accepted
  obtain ⟨counted, allowed⟩ := guarded.now
  obtain ⟨actionId, recipe, acts, named, picked, -, -, entry, entered⟩ := id answer
  obtain ⟨recipe', parts, -, only, -, -, followed⟩ := accepted_answers accepted acts
  cases only recipe named
  obtain ⟨part, -, q', -, visited, unique⟩ := forall₂_mem_left followed effect picked
  cases unique q answer
  exact ⟨⟨part, visited⟩, by rw [entry, entered]; exact counted, by rw [entered]; exact allowed⟩

theorem guarded_play {given : Option GrowthCheckpoint} {p q : Position}
    {picks : List GrowthSuccessor} (play : Play hash x p picks q) :
    ∀ {fuel : ℕ}, Guarded hash x given fuel p →
      ∃ left, fuel = picks.length + left ∧ Guarded hash x given left q := by
  induction play with
  | nil p => exact fun {fuel} guarded => ⟨fuel, (Nat.zero_add fuel).symm, guarded⟩
  | cons answer _ ih =>
    intro fuel guarded
    cases fuel with
    | zero =>
      obtain ⟨v, accepted⟩ := guarded.accepted
      simp [visit] at accepted
    | succ fuel =>
      obtain ⟨left, spent, rest⟩ := ih (guarded_step guarded answer)
      exact ⟨left, by rw [spent, List.length_cons]; omega, rest⟩

/-- A position of an accepted subtree with an entry in force is within the horizon, and
strictly so while it still acts. -/
theorem accepted_horizon (facts : ContractFacts x.contract.spec x.objects) (free : x.endpoint = none) :
    ∀ {fuel : ℕ} {node : GrowthPolicyNode} {s : GrowthState} {entry : Option GrowthCheckpoint}
      {v : Walk}, visit hash x fuel node s entry = .ok v →
      ∀ e ∈ entryAfter node s entry,
        F s.elapsed ≤ F e.time + F x.contract.spec.continuationHorizon ∧
          (node.actionId ≠ none →
            F s.elapsed < F e.time + F x.contract.spec.continuationHorizon) := by
  intro fuel
  induction fuel with
  | zero => simp [visit]
  | succ fuel ih =>
    intro node s entry v accepted e inForce
    cases acts : node.actionId with
    | none =>
      obtain ⟨-, ⟨-, -, ended, -⟩ | ⟨_, _, _, acts', -⟩⟩ := visit_ok.mp accepted
      · rw [free, terminal_ok] at ended
        obtain ⟨e', inForce', reached, -⟩ := ended
        cases Option.mem_unique inForce inForce'
        exact ⟨reached.le, fun absurd' => absurd rfl absurd'⟩
      · rw [acts] at acts'
        cases acts'
    | some actionId =>
      obtain ⟨recipe, parts, named, -, some', -, followed⟩ :=
        accepted_answers (p := ⟨node, s, entry, []⟩) accepted acts
      obtain ⟨effect, picked⟩ := List.exists_mem_of_ne_nil _ some'
      obtain ⟨part, -, q, ⟨_, recipe', acts', named', -, moved, -, carried, -⟩, visited, -⟩ :=
        forall₂_mem_left followed effect picked
      have later : F s.elapsed < F q.state.elapsed := (named'.steps moved).elapsed_lt facts
      have carriedOn : e ∈ entryAfter q.node q.state q.entry := by
        obtain ⟨left, rfl⟩ : ∃ left, fuel = left + 1 := by
          cases fuel with
          | zero => simp [visit] at visited
          | succ left => exact ⟨left, rfl⟩
        obtain ⟨-, -, -, own⟩ := checkNode_ok (visit_ok.mp visited).1
        have given : q.entry = some e := carried.trans inForce
        have stays : ¬ q.node.entry = true := by
          intro decides
          rw [given] at own
          exact absurd (own decides).1 (Option.some_ne_none e)
        rw [entryAfter, if_neg stays, given]
        exact rfl
      have within := lt_of_lt_of_le later (ih visited e carriedOn).1
      exact ⟨within.le, fun _ => within⟩

theorem visit_terminals_ne_nil :
    ∀ {fuel : ℕ} {node : GrowthPolicyNode} {s : GrowthState} {entry : Option GrowthCheckpoint}
      {v : Walk}, visit hash x fuel node s entry = .ok v → v.terminals ≠ [] := by
  intro fuel
  induction fuel with
  | zero => simp [visit]
  | succ fuel ih =>
    intro node s entry v accepted
    obtain ⟨-, ⟨-, -, -, rfl⟩ | ⟨_, recipe, parts, -, -, branches, followed, rfl⟩⟩ :=
      visit_ok.mp accepted
    · exact List.cons_ne_nil _ _
    · obtain ⟨effect, picked⟩ := List.exists_mem_of_ne_nil _ (checkBranches_ok branches)
      obtain ⟨part, listed, child, next, -, visited⟩ := forall₂_mem_left followed effect picked
      obtain ⟨t, leaf⟩ := List.exists_mem_of_ne_nil _ (ih visited)
      exact List.ne_nil_of_mem (List.mem_flatMap.mpr ⟨part, listed, leaf⟩)

theorem accepted_finished :
    ∀ {fuel : ℕ} {p : Position} {v : Walk}, visit hash x fuel p.node p.state p.entry = .ok v →
      (∀ picks q, Play hash x p picks q → q.Finished →
          q.state ∈ v.terminals ∧ ∀ e ∈ q.entryNow, F e.time ∈ v.entries) ∧
        (∀ s ∈ v.terminals, ∃ picks q, Play hash x p picks q ∧ q.Finished ∧ q.state = s) ∧
        ∀ time ∈ v.entries, ∃ picks q, Play hash x p picks q ∧ q.Finished ∧
          ∃ e ∈ q.entryNow, F e.time = time := by
  intro fuel
  induction fuel with
  | zero => simp [visit]
  | succ fuel ih =>
    intro p v accepted
    cases acts : p.node.actionId with
    | none =>
      obtain ⟨-, ⟨-, -, -, rfl⟩ | ⟨_, _, _, acts', -⟩⟩ := visit_ok.mp accepted
      case inr =>
        rw [acts] at acts'
        cases acts'
      refine ⟨?_, ?_, ?_⟩
      · intro picks q play _
        cases play with
        | nil => exact ⟨List.mem_singleton.mpr rfl, fun e inForce => by
            simpa [Walk.one, entryTimes] using ⟨e, inForce, rfl⟩⟩
        | cons answer _ =>
          obtain ⟨id, -, acts', -⟩ := answer
          rw [acts] at acts'
          cases acts'
      · intro s member
        exact ⟨[], p, .nil p, acts, (List.mem_singleton.mp member).symm⟩
      · intro time member
        obtain ⟨e, inForce, rfl⟩ := List.mem_map.mp member
        exact ⟨[], p, .nil p, acts, e, Option.mem_toList.mp inForce, rfl⟩
    | some actionId =>
      obtain ⟨recipe, parts, -, only, -, rfl, followed⟩ := accepted_answers accepted acts
      refine ⟨?_, ?_, ?_⟩
      · intro picks q play finished
        cases play with
        | nil =>
          rw [Position.Finished, acts] at finished
          cases finished
        | cons answer rest =>
          obtain ⟨_, recipe', acts', named, picked, -⟩ := id answer
          rw [acts] at acts'
          cases acts'
          cases only recipe' named
          obtain ⟨part, listed, q', -, visited, unique⟩ := forall₂_mem_left followed _ picked
          cases unique _ answer
          obtain ⟨states, times⟩ := (ih visited).1 _ _ rest finished
          exact ⟨List.mem_flatMap.mpr ⟨part, listed, states⟩, fun e inForce =>
            List.mem_flatMap.mpr ⟨part, listed, times e inForce⟩⟩
      · intro s member
        obtain ⟨part, listed, inPart⟩ := List.mem_flatMap.mp member
        obtain ⟨effect, -, q, answer, visited, -⟩ := forall₂_mem_right followed part listed
        obtain ⟨picks, final, play, finished⟩ := (ih visited).2.1 s inPart
        exact ⟨effect :: picks, final, .cons answer play, finished⟩
      · intro time member
        obtain ⟨part, listed, inPart⟩ := List.mem_flatMap.mp member
        obtain ⟨effect, -, q, answer, visited, -⟩ := forall₂_mem_right followed part listed
        obtain ⟨picks, final, play, finished⟩ := (ih visited).2.2 time inPart
        exact ⟨effect :: picks, final, .cons answer play, finished⟩

end plays

theorem greatest_ok {values : List ℚ} {a : ℚ} :
    greatest values = .ok a ↔ IsGreatest {b | b ∈ values} a := by
  rw [greatest, demand_ok, List.max?_eq_some_iff]
  rfl

theorem least_ok {values : List ℚ} {a : ℚ} : least values = .ok a ↔ IsLeast {b | b ∈ values} a := by
  rw [least, demand_ok, List.min?_eq_some_iff]
  rfl

theorem greatest_map_ok {terminals : List GrowthState} {quantity : GrowthState → ℚ} {a : ℚ} :
    greatest (terminals.map quantity) = .ok a ↔
      IsGreatest {b | ∃ s ∈ terminals, quantity s = b} a := by
  rw [greatest_ok]
  simp only [List.mem_map]

theorem greatest_total {values : List ℚ} (some' : values ≠ []) : ∃ a, greatest values = .ok a := by
  obtain ⟨a, found⟩ := MaxMin.exists_max? some'
  exact ⟨a, demand_ok.mpr found⟩

theorem least_total {values : List ℚ} (some' : values ≠ []) : ∃ a, least values = .ok a := by
  obtain ⟨a, found⟩ := MaxMin.exists_min? some'
  exact ⟨a, demand_ok.mpr found⟩

theorem worstByKey_ok {terminals : List GrowthState} {quantity : GrowthState → Identifier → ℚ}
    {keys : List Identifier} (distinct : keys.Nodup) {entries : List (Identifier × Rational)}
    (h : worstByKey terminals quantity keys = .ok entries) :
    ∀ k ∈ keys, ∃ v, (Std.ExtTreeMap.ofList entries : Dict Rational)[k]? = some v ∧
      IsGreatest {a | ∃ s ∈ terminals, quantity s k = a} (F v) := by
  simp only [worstByKey, mapM_ok, bind_ok, pure_ok] at h
  have heads : entries.map Prod.fst = keys := by
    clear distinct
    induction h with
    | nil => rfl
    | cons head _ ih =>
      obtain ⟨a, -, rfl⟩ := head
      rw [List.map_cons, ih]
  intro k member
  obtain ⟨p, listed, a, worst, rfl⟩ := forall₂_mem_left h k member
  refine ⟨str a, Dict.getElem?_ofList (heads ▸ distinct) listed, ?_⟩
  rw [F_str]
  exact greatest_map_ok.mp worst

/-- With a terminal and an entry the objective is the worst of them, and only the bounds of
the model can reject it. -/
theorem objective_worst {c : GrowthContractSpec} (costs : c.costOrder.Nodup) {candidate : Candidate}
    (entries : candidate.entries ≠ []) (terminals : candidate.terminals ≠ [])
    (attained : ∀ s ∈ candidate.terminals, ∃ a, attainment c s .lower = .ok a) :
    ∃ o, objective c candidate = GrowthObjective.validate o ∧
      IsGreatest {t | t ∈ candidate.entries} (F o.worstEntryTime) ∧
      IsLeast {a | ∃ s ∈ candidate.terminals, attainment c s .lower = .ok a}
        (F o.terminalMinAttainment) ∧
      (∀ k ∈ c.costOrder, ∃ v, o.worstCost[k]? = some v ∧
        IsGreatest {a | ∃ s ∈ candidate.terminals, balance s.spent k = a} (F v)) ∧
      (∀ k ∈ c.domains, ∃ v, o.worstDebt[k]? = some v ∧
        IsGreatest {a | ∃ s ∈ candidate.terminals, backlog s.obligations k = a} (F v)) ∧
      IsGreatest {a | ∃ s ∈ candidate.terminals, F s.elapsed = a} (F o.worstDuration) := by
  have byKey : ∀ quantity keys, ∃ worst, worstByKey candidate.terminals quantity keys = .ok worst := by
    intro quantity keys
    apply mapM_total
    intro k _
    have quantities : (candidate.terminals.map fun s => quantity s k) ≠ [] := by
      simpa using terminals
    obtain ⟨a, found⟩ := greatest_total quantities
    exact ⟨(k, str a), by rw [found]; rfl⟩
  obtain ⟨entry, latest⟩ := greatest_total entries
  obtain ⟨values, each⟩ := mapM_total attained
  have listed : {b | b ∈ values} =
      {a | ∃ s ∈ candidate.terminals, attainment c s .lower = .ok a} := by
    ext a
    constructor
    · exact fun member => forall₂_mem_right (mapM_ok.mp each) a member
    · rintro ⟨s, member, value⟩
      obtain ⟨b, found, value'⟩ := forall₂_mem_left (mapM_ok.mp each) s member
      cases value.symm.trans value'
      exact found
  have attainments : values ≠ [] := by
    rintro rfl
    rw [mapM_ok, List.forall₂_nil_right_iff] at each
    exact terminals each
  obtain ⟨reached, worst⟩ := least_total attainments
  obtain ⟨cost, costly⟩ := byKey (fun s => balance s.spent) c.costOrder
  obtain ⟨debt, owed⟩ := byKey (fun s => backlog s.obligations) c.domains.keys
  have durations : candidate.terminals.map (F ·.elapsed) ≠ [] := by simpa using terminals
  obtain ⟨duration, longest⟩ := greatest_total durations
  refine ⟨⟨str entry, str reached, .ofList cost, .ofList debt, str duration⟩, ?_, ?_, ?_,
    worstByKey_ok costs costly, fun k member => ?_, ?_⟩
  · simp only [objective, latest, each, worst, costly, owed, longest, bind, Except.bind]
  · rw [F_str]
    exact greatest_ok.mp latest
  · rw [F_str, ← listed]
    exact least_ok.mp worst
  · exact worstByKey_ok Std.ExtTreeMap.nodup_keys owed k (Std.ExtTreeMap.mem_keys.mpr member)
  · rw [F_str]
    exact greatest_map_ok.mp longest

theorem attainment_total {c : GrowthContractSpec} {objects : Objects} (facts : ContractFacts c objects)
    {s : GrowthState} {u : Unit} (checked : checkState c s = .ok u) (bound : Bound) :
    ∃ a, attainment c s bound = .ok a := by
  have keys := checkState_keys checked
  have each : ∀ key ∈ capacityCoordinates, ∃ a, coordinateAttainment c s bound key = .ok a := by
    intro key coordinate
    have domain := facts.coordinates key coordinate
    have capacity : key ∈ s.capacities := by
      rw [← Std.ExtTreeMap.mem_keys, keys, Std.ExtTreeMap.mem_keys]
      exact domain
    have domainAt := Std.ExtTreeMap.getElem?_eq_some_getElem domain
    have capacityAt := Std.ExtTreeMap.getElem?_eq_some_getElem capacity
    have positive := facts.targets _ (Dict.mem_values.mpr ⟨key, domainAt⟩)
    refine ⟨F (s.capacities[key].at' bound) / F c.domains[key].target, ?_⟩
    rw [coordinateAttainment, Dict.item_ok.mpr capacityAt, Dict.item_ok.mpr domainAt]
    exact if_neg positive.ne'
  obtain ⟨task, first⟩ := each "task" (by simp [capacityCoordinates])
  obtain ⟨research, second⟩ := each "research" (by simp [capacityCoordinates])
  exact ⟨min task research, by rw [attainment, first, second]; rfl⟩

/-- The search that `check_tree` checks against when no endpoint is fixed. -/
def checker (contract : GrowthContract) (objects : Objects) (comparisons : List GrowthComparison)
    (frontier : Frontier) : Search :=
  { contract, objects, excluded := [], endpoint := none, comparisons, frontier }

def outcomes (hash : Hashing) (x : Search) (root : GrowthPolicyNode) (start : GrowthState)
    (entry : Option GrowthCheckpoint) : Set Position :=
  {q | ∃ picks, Play hash x ⟨root, start, entry, []⟩ picks q ∧ q.Finished}

/-- What holds wherever a play on an accepted tree stands after `picks`. -/
structure PlaySound (hash : Hashing) (x : Search) (given : Option GrowthCheckpoint)
    (picks : List GrowthSuccessor) (q : Position) : Prop where
  checked : checkState x.contract.spec q.state = .ok ()
  answers : ∀ actionId, q.node.actionId = some actionId →
    ∃ recipe, Named x actionId recipe ∧ (∀ other, Named x actionId other → other = recipe) ∧
      successors q.state recipe ≠ [] ∧
      ∀ effect ∈ successors q.state recipe, ∃ q', Answers hash x q effect q'
  gated : ∀ s ∈ q.enteredNow, entryAllowed x.contract.spec x.comparisons s = .ok true
  once : q.enteredNow.length + given.toList.length ≤ 1
  entered : q.Finished → q.enteredNow.length + given.toList.length = 1
  stops : q.Finished ↔ Continued x.contract.spec q.state q.entryNow
  decisions : picks.length ≤ x.contract.spec.maxDecisions

/-- An objective is the worst case over a set of finished plays. -/
structure WorstCase (c : GrowthContractSpec) (plays : Set Position) (o : GrowthObjective) :
    Prop where
  entryTime : IsGreatest {t | ∃ q ∈ plays, ∃ e ∈ q.entryNow, F e.time = t} (F o.worstEntryTime)
  attained : IsLeast {a | ∃ q ∈ plays, attainment c q.state .lower = .ok a}
    (F o.terminalMinAttainment)
  cost : ∀ k ∈ c.costOrder, ∃ v, o.worstCost[k]? = some v ∧
    IsGreatest {a | ∃ q ∈ plays, balance q.state.spent k = a} (F v)
  debt : ∀ k ∈ c.domains, ∃ v, o.worstDebt[k]? = some v ∧
    IsGreatest {a | ∃ q ∈ plays, backlog q.state.obligations k = a} (F v)
  duration : IsGreatest {a | ∃ q ∈ plays, F q.state.elapsed = a} (F o.worstDuration)

theorem playSound {x : Search} (facts : ContractFacts x.contract.spec x.objects)
    (free : x.endpoint = none) {root : GrowthPolicyNode} {start : GrowthState}
    {entry : Option GrowthCheckpoint} {v : Walk}
    (accepted : visit hash x (x.contract.spec.maxDecisions + 1) root start entry = .ok v)
    {picks : List GrowthSuccessor} {q : Position}
    (play : Play hash x ⟨root, start, entry, []⟩ picks q) : PlaySound hash x entry picks q := by
  have atStart : Guarded hash x entry (x.contract.spec.maxDecisions + 1) ⟨root, start, entry, []⟩ :=
    ⟨⟨v, accepted⟩, Nat.zero_add _, by simp⟩
  obtain ⟨left, spent, guarded⟩ := guarded_play play atStart
  cases left with
  | zero =>
    obtain ⟨w, impossible⟩ := guarded.accepted
    simp [visit] at impossible
  | succ left =>
    obtain ⟨counted, gated⟩ := guarded.now
    obtain ⟨w, reached⟩ := guarded.accepted
    have stops : q.Finished ↔ Continued x.contract.spec q.state q.entryNow := by
      constructor
      · intro finished
        obtain ⟨-, ⟨-, -, ended, -⟩ | ⟨_, _, _, acts, -⟩⟩ := visit_ok.mp reached
        · rw [free] at ended
          exact terminal_ok.mp ended
        · rw [Position.Finished, acts] at finished
          cases finished
      · rintro ⟨e, inForce, ended, -⟩
        by_contra acts
        exact ((accepted_horizon facts free reached e inForce).2 acts).ne ended
    refine ⟨(checkNode_ok guarded.checked).1, ?_, gated, ?_, ?_, stops, by omega⟩
    · intro actionId acts
      obtain ⟨recipe, parts, named, only, some', -, followed⟩ := accepted_answers reached acts
      refine ⟨recipe, named, only, some', fun effect picked => ?_⟩
      obtain ⟨-, -, q', answer, -⟩ := forall₂_mem_left followed effect picked
      exact ⟨q', answer⟩
    · rw [counted]
      cases q.entryNow <;> simp
    · intro finished
      obtain ⟨e, inForce, -⟩ := stops.mp finished
      rw [counted, Option.mem_def.mp inForce]
      rfl

/-- An accepted tree is sound against every adversary, and its objective is the worst case
over exactly its plays. -/
theorem checkTree_sound {contract : GrowthContract} {objects : Objects}
    {comparisons : List GrowthComparison} {frontier : Frontier}
    (valid : validateContract hash contract objects = .ok ()) {root : GrowthPolicyNode}
    {start : GrowthState} {entry : Option GrowthCheckpoint} {candidate : Candidate}
    (accepted : checkTree hash (checker contract objects comparisons frontier) root start entry =
      .ok candidate) :
    (∀ picks q, Play hash (checker contract objects comparisons frontier)
        ⟨root, start, entry, []⟩ picks q →
        PlaySound hash (checker contract objects comparisons frontier) entry picks q) ∧
      ∃ o, objective contract.spec candidate = GrowthObjective.validate o ∧
        WorstCase contract.spec
          (outcomes hash (checker contract objects comparisons frontier) root start entry) o := by
  have facts := validateContract_ok hash valid
  simp only [checkTree, bind_ok, pure_ok, walk_ok, Walk.nil_join] at accepted
  obtain ⟨_, ⟨v, visited, rfl, -⟩, rfl⟩ := accepted
  have sound : ∀ picks q, Play hash (checker contract objects comparisons frontier)
      ⟨root, start, entry, []⟩ picks q →
      PlaySound hash (checker contract objects comparisons frontier) entry picks q :=
    fun picks q => playSound facts rfl visited
  obtain ⟨collected, leaves, times⟩ := accepted_finished (p := ⟨root, start, entry, []⟩) visited
  have attained : ∀ s ∈ v.terminals, ∃ a, attainment contract.spec s .lower = .ok a := by
    intro s leaf
    obtain ⟨picks, q, play, -, rfl⟩ := leaves s leaf
    exact attainment_total facts (sound picks q play).checked .lower
  have entries : v.entries ≠ [] := by
    obtain ⟨s, leaf⟩ := List.exists_mem_of_ne_nil _ (visit_terminals_ne_nil visited)
    obtain ⟨picks, q, play, finished, -⟩ := leaves s leaf
    obtain ⟨e, inForce, -⟩ := (sound picks q play).stops.mp finished
    exact List.ne_nil_of_mem ((collected picks q play finished).2 e inForce)
  have terminals : (⟨root, v.terminals, v.entries, v.count⟩ : Candidate).terminals ≠ [] :=
    visit_terminals_ne_nil visited
  obtain ⟨o, result, entryTime, least, cost, debt, duration⟩ :=
    objective_worst facts.costs entries terminals attained
  -- The collected terminals and entry times are those of the finished plays.
  have finals : ∀ P : GrowthState → Prop, (∃ s ∈ v.terminals, P s) ↔
      ∃ q ∈ outcomes hash (checker contract objects comparisons frontier) root start entry,
        P q.state := by
    intro P
    constructor
    · rintro ⟨s, leaf, holds⟩
      obtain ⟨picks, q, play, finished, rfl⟩ := leaves s leaf
      exact ⟨q, ⟨picks, play, finished⟩, holds⟩
    · rintro ⟨q, ⟨picks, play, finished⟩, holds⟩
      exact ⟨q.state, (collected picks q play finished).1, holds⟩
  have entered : ∀ t, t ∈ v.entries ↔
      ∃ q ∈ outcomes hash (checker contract objects comparisons frontier) root start entry,
        ∃ e ∈ q.entryNow, F e.time = t := by
    intro t
    constructor
    · intro member
      obtain ⟨picks, q, play, finished, e, inForce, same⟩ := times t member
      exact ⟨q, ⟨picks, play, finished⟩, e, inForce, same⟩
    · rintro ⟨q, ⟨picks, play, finished⟩, e, inForce, rfl⟩
      exact (collected picks q play finished).2 e inForce
  simp only [finals, entered] at entryTime least cost debt duration
  exact ⟨sound, o, result, entryTime, least, cost, debt, duration⟩

namespace Sample

/-- Waiting reaches one half at time one, so an entry has to beat three fifths. -/
def comparisons : List GrowthComparison :=
  [⟨"without-reuse", whole 1, .supported, some (str (1 / 2)), some (str (1 / 2)),
    ⟨true, 2, 1, 1, 1, terms.searchLimits⟩, "inputs:contract", none⟩]

def grownOnce : GrowthState := after start grow

def grownTwice : GrowthState := after grownOnce grow

def growNode (s : GrowthState) (entered : Bool) (child : GrowthPolicyNode) : GrowthPolicyNode :=
  ⟨digests.state s, some "grow", entered, [("nominal", child)], dict [("nominal", "nominal")]⟩

def policy : GrowthPolicyNode :=
  growNode start false (growNode grownOnce true (leafNode (digests.state grownTwice)))

theorem policy_accepted : (checkTree digests (checker contract objects comparisons none) policy start
    none).toBool = true := by decide +kernel

end Sample

theorem checkTree_sound_sample : ∃ candidate,
    checkTree Sample.digests (checker Sample.contract Sample.objects Sample.comparisons none)
        Sample.policy Sample.start none = .ok candidate ∧
      ∃ o, objective Sample.contract.spec candidate = GrowthObjective.validate o ∧
        WorstCase Sample.contract.spec (outcomes Sample.digests
          (checker Sample.contract Sample.objects Sample.comparisons none) Sample.policy Sample.start
          none) o := by
  obtain ⟨candidate, accepted⟩ := exists_ok Sample.policy_accepted
  exact ⟨candidate, accepted, (checkTree_sound Sample.valid accepted).2⟩

end CollectivePhaseControl
