import CollectivePhaseControl.EpistemicReference
import CollectivePhaseControl.GrowthTimeline

/-! Supports are exact. Every step of a replay keeps the hypotheses that some hidden outcome
under their own fixed model leads to and that could have shown the recorded symbol, and no
others; over a whole history a hypothesis is kept exactly when one hidden run explains it. -/
namespace CollectivePhaseControl

variable {hash : EpistemicHashing} {d : Domain hash}

theorem allM_ok {α : Type} {p : α → Checked Bool} {xs : List α} :
    xs.allM p = .ok true ↔ ∀ x ∈ xs, p x = .ok true := by
  induction xs with
  | nil => simp [List.allM, pure, Except.pure]
  | cons x xs ih =>
    rw [List.allM, bind_ok, List.forall_mem_cons]
    constructor
    · rintro ⟨answer, head, rest⟩
      cases answer with
      | true => exact ⟨head, ih.mp rest⟩
      | false => exact nomatch rest
    · intro both
      exact ⟨true, both.1, ih.mpr both.2⟩

theorem groups_append (arrived : List (Identifier × EpistemicHypothesis))
    (p : Identifier × EpistemicHypothesis) : Domain.groups (arrived ++ [p]) =
      (Domain.groups arrived).insert p.1 ((Domain.groups arrived).getD p.1 [] ++ [p.2]) := by
  simp [Domain.groups]

def arrivedWith (arrived : List (Identifier × EpistemicHypothesis)) (symbol : Identifier) :
    List EpistemicHypothesis :=
  (arrived.filter (·.1 = symbol)).map Prod.snd

theorem groups_getElem? {arrived : List (Identifier × EpistemicHypothesis)} {symbol : Identifier} :
    (Domain.groups arrived)[symbol]? = if arrivedWith arrived symbol = [] then none
      else some (arrivedWith arrived symbol) := by
  induction arrived using List.reverseRecOn with
  | nil => simp [Domain.groups, arrivedWith]
  | append_singleton arrived p ih =>
    have split : arrivedWith (arrived ++ [p]) symbol =
        arrivedWith arrived symbol ++ if p.1 = symbol then [p.2] else [] := by
      rw [arrivedWith, List.filter_append, List.map_append]
      congr 1
      by_cases same : p.1 = symbol <;> simp [same]
    rw [groups_append, Std.ExtTreeMap.getElem?_insert, split]
    by_cases same : p.1 = symbol
    · subst same
      rw [if_pos (by simp), if_pos rfl, if_neg (by simp), Std.ExtTreeMap.getD_eq_getD_getElem?, ih]
      split
      case isTrue nothing => simp [nothing]
      case isFalse => simp
    · have other : compare p.1 symbol ≠ .eq := by simpa using same
      rw [if_neg other, if_neg same, List.append_nil, ih]

theorem unique_append (values : List EpistemicHypothesis) (h : EpistemicHypothesis) :
    unique hash (values ++ [h]) = (unique hash values).insert (hash.hypothesis h) h := by
  simp [unique]

theorem unique_getElem? {values : List EpistemicHypothesis} {key : Digest}
    {h : EpistemicHypothesis} (found : (unique hash values)[key]? = some h) :
    h ∈ values ∧ hash.hypothesis h = key := by
  induction values using List.reverseRecOn with
  | nil => simp [unique] at found
  | append_singleton values last ih =>
    rw [unique_append, Std.ExtTreeMap.getElem?_insert] at found
    split at found
    case isTrue same =>
      cases found
      exact ⟨by simp, by simpa using same⟩
    case isFalse =>
      obtain ⟨listed, digest⟩ := ih found
      exact ⟨List.mem_append_left _ listed, digest⟩

theorem mem_unique {values : List EpistemicHypothesis} {h : EpistemicHypothesis}
    (listed : h ∈ values) : hash.hypothesis h ∈ unique hash values := by
  induction values using List.reverseRecOn with
  | nil => simp at listed
  | append_singleton values last ih =>
    rw [unique_append, Std.ExtTreeMap.mem_insert]
    rcases List.mem_append.mp listed with earlier | here
    · exact .inr (ih earlier)
    · rw [List.mem_singleton.mp here]
      simp

theorem mem_values_unique {values : List EpistemicHypothesis}
    (apart : ∀ g ∈ values, ∀ h ∈ values, hash.hypothesis g = hash.hypothesis h → g = h)
    {h : EpistemicHypothesis} : h ∈ (unique hash values).values ↔ h ∈ values := by
  rw [Dict.mem_values]
  constructor
  · rintro ⟨key, found⟩
    exact (unique_getElem? found).1
  · intro listed
    have present : hash.hypothesis h ∈ unique hash values := mem_unique listed
    have found := Std.ExtTreeMap.getElem?_eq_some_getElem present
    obtain ⟨listed', same⟩ := unique_getElem? found
    rw [apart _ listed' _ listed same] at found
    exact ⟨_, found⟩

theorem nodup_values_unique {values : List EpistemicHypothesis} :
    ((unique hash values).values.map hash.hypothesis).Nodup := by
  have same : (unique hash values).values.map hash.hypothesis =
      (unique hash values).toList.map Prod.fst := by
    rw [Dict.values, List.map_map]
    apply List.map_congr_left
    rintro ⟨key, h⟩ listed
    exact (unique_getElem? (Std.ExtTreeMap.mem_toList_iff_getElem?_eq_some.mp listed)).2
  rw [same]
  exact Dict.nodup_toList _

theorem Normal.modelIds {s : GrowthState} (normal : Normal s) : sortedSet s.modelIds = s.modelIds :=
  congrArg GrowthState.modelIds normal.canonical

theorem accepted_single {s : GrowthState} (accepted : s.accepted = true) (theta : Identifier) :
    GrowthState.accepted { s with modelIds := [theta] } = true := by
  have same : GrowthState.rationals { s with modelIds := [theta] } = s.rationals := rfl
  simp only [GrowthState.accepted, same, Bool.and_eq_true, decide_eq_true_eq] at accepted ⊢
  simp_all

theorem checkState_single {c : GrowthContractSpec} {s : GrowthState} {theta : Identifier}
    (checked : checkState c s = .ok ()) (listed : theta ∈ s.modelIds) :
    checkState c { s with modelIds := [theta] } = .ok () := by
  simp only [checkState, bind_ok, require_ok] at checked ⊢
  obtain ⟨⟨⟩, keys, ⟨⟩, intervals, ⟨⟩, resources, ⟨⟩, times, ⟨⟩, models, rest⟩ := checked
  refine ⟨⟨⟩, keys, ⟨⟩, intervals, ⟨⟩, resources, ⟨⟩, times, ⟨⟩, ?_, rest⟩
  intro model member
  rw [List.mem_singleton.mp member]
  exact models listed

def EpistemicHypothesis.canonical (h : EpistemicHypothesis) : EpistemicHypothesis :=
  { h with state := CollectivePhaseControl.canonical h.state }

namespace Domain

/-- A hidden outcome: an effect of the action that applies to the hypothesis' own model, the
hypothesis after it with its fees, and a raw symbol of the kernel row. -/
def HiddenStep (d : Domain hash) (h : EpistemicHypothesis) (actionId : Identifier)
    (effect : GrowthSuccessor) (raw : Identifier) (next : EpistemicHypothesis) : Prop :=
  ∃ recipe row, d.recipes[actionId]? = some recipe ∧
    effect ∈ recipe.successors ∧ h.modelId ∈ effect.applicableModelIds ∧
    d.moved h recipe effect = .ok next ∧
    d.kernel.lookup ⟨h.modelId, recipe.actionDigest, effect.successorId⟩ = some row ∧ raw ∈ row

/-- A recorded step explained by a hidden outcome under the model `theta`. -/
def Explains (d : Domain hash) (theta : Identifier) (h : EpistemicHypothesis)
    (step : EpistemicStep) (next : EpistemicHypothesis) : Prop :=
  h.modelId = theta ∧ next.modelId = theta ∧ ∃ effect raw,
    d.HiddenStep (if step.entry then marked h else h) step.actionId effect raw next ∧
      d.observationMap[raw]? = some step.observation

/-- The first hypothesis of a model: the prepaid start under that model alone, with the fees
that are due before any step. -/
def Opens (d : Domain hash) (theta : Identifier) (first : EpistemicHypothesis) : Prop :=
  ∃ start, initialState hash.toHashing d.contract d.frontier = .ok start ∧
    theta ∈ start.modelIds ∧ d.pay (opening start theta) = .ok first

/-- What hidden outcomes and entry decisions can make of some hypotheses. -/
inductive Tracked (d : Domain hash) (roots : EpistemicHypothesis → Prop) :
    EpistemicHypothesis → Prop
  | root {h : EpistemicHypothesis} : roots h → Tracked d roots h
  | entered {h : EpistemicHypothesis} : Tracked d roots h → Tracked d roots (marked h).canonical
  | moved {h next : EpistemicHypothesis} {actionId : Identifier} {recipe : GrowthAction}
      {effect : GrowthSuccessor} : Tracked d roots h → d.recipes[actionId]? = some recipe →
      d.moved h recipe effect = .ok next → Tracked d roots next

/-- Digests tell apart the hypotheses that can come of `roots`. -/
def CollisionFree (d : Domain hash) (roots : EpistemicHypothesis → Prop) : Prop :=
  ∀ g h, d.Tracked roots g → d.Tracked roots h → hash.hypothesis g = hash.hypothesis h → g = h

def Admitted (d : Domain hash) (s : GrowthState) : Prop :=
  Normal s ∧ checkState d.contract.spec s = .ok ()

theorem checkWorks_charged (h : EpistemicHypothesis) (event : EpistemicCostEvent) (elapsed : ℚ) :
    ∀ (works : List GrowthWork) (seen : List Identifier),
      checkWorks (d.chargedContract h event).spec elapsed seen works =
        checkWorks d.contract.spec elapsed seen works := by
  intro works
  induction works with
  | nil => exact fun _ => rfl
  | cons w works ih =>
    intro seen
    simp only [checkWorks, ih]
    rfl

theorem checkState_charged (h : EpistemicHypothesis) (event : EpistemicCostEvent)
    (s : GrowthState) :
    checkState (d.chargedContract h event).spec s = checkState d.contract.spec s := by
  simp only [checkState, checkWorks_charged]
  rfl

/-- A payment changes the ledger alone, and neither its models nor its admissibility. -/
structure Paid (d : Domain hash) (h paid : EpistemicHypothesis) : Prop where
  admitted : d.Admitted paid.state
  models : paid.state.modelIds = h.state.modelIds
  modelId : paid.modelId = h.modelId
  entry : paid.entry = h.entry
  steps : paid.primitiveSteps = h.primitiveSteps

theorem payEvent_ok {h paid : EpistemicHypothesis} {event : EpistemicCostEvent}
    (normal : Normal h.state) (h' : d.payEvent h event = .ok paid) : d.Paid h paid := by
  simp only [payEvent, bind_ok, require_ok, pure_ok] at h'
  obtain ⟨state, charged, -, -, rfl⟩ := h'
  obtain ⟨resources, spent, checkpoints, -, -, checked, same⟩ := initialState_ok charged
  refine ⟨⟨initialState_normal charged, ?_⟩, ?_, rfl, rfl, rfl⟩
  · rw [same.field (checkState d.contract.spec) fun _ => rfl, ← checkState_charged]
    exact checked
  · have models : state.modelIds = sortedSet h.state.modelIds :=
      same.field (·.modelIds) fun _ => rfl
    rw [models, normal.modelIds]

theorem pay_ok {h paid : EpistemicHypothesis} (admitted : d.Admitted h.state)
    (h' : d.pay h = .ok paid) : d.Paid h paid := by
  unfold pay at h'
  generalize d.dueEvents h.primitiveSteps = events at h'
  have keep : ∀ (done : List EpistemicCostEvent) event g g', d.Paid h g →
      d.payEvent g event = .ok g' → d.Paid h g' := by
    intro done event g g' before step
    have after := payEvent_ok before.admitted.1 step
    exact ⟨after.admitted, after.models.trans before.models, after.modelId.trans before.modelId,
      after.entry.trans before.entry, after.steps.trans before.steps⟩
  exact foldlM_invariant (fun _ g => d.Paid h g) keep ⟨admitted, rfl, rfl, rfl, rfl⟩ h'

theorem moved_ok {h next : EpistemicHypothesis} {recipe : GrowthAction} {effect : GrowthSuccessor}
    (h' : d.moved h recipe effect = .ok next) :
    d.Admitted next.state ∧ next.state.modelIds = sortedSet h.state.modelIds ∧
      next.modelId = h.modelId ∧ next.entry = h.entry ∧
      next.primitiveSteps = h.primitiveSteps + 1 := by
  simp only [moved, bind_ok, require_ok] at h'
  obtain ⟨after, stepped, -, -, paid⟩ := h'
  obtain ⟨action, cap, parts, -, -, -, -, checked, same⟩ := transition_ok stepped
  have admitted : d.Admitted after := by
    refine ⟨transition_normal stepped, ?_⟩
    rw [same.field (checkState d.contract.spec) fun _ => rfl]
    exact checked
  have models : after.modelIds = sortedSet h.state.modelIds :=
    same.field (·.modelIds) fun _ => rfl
  have due := pay_ok (h := ⟨h.modelId, after, h.entry, h.primitiveSteps + 1⟩) admitted paid
  exact ⟨due.admitted, due.models.trans models, due.modelId, due.entry, due.steps⟩

theorem Opens.admitted {theta : Identifier} {first : EpistemicHypothesis}
    (opens : d.Opens theta first) : d.Admitted first.state ∧ first.state.modelIds = [theta] ∧
      first.modelId = theta ∧ first.entry = none ∧ first.primitiveSteps = 0 := by
  obtain ⟨start, prepaidStart, listed, paid⟩ := opens
  have reachable : Reachable hash.toHashing d.contract d.objects d.frontier start :=
    ⟨[], start, prepaidStart, .nil start⟩
  obtain ⟨normal, checked⟩ := reachable.admitted
  have admitted : d.Admitted (opening start theta).state := by
    constructor
    · obtain ⟨accepted, same⟩ := normalize_ok.mp normal
      rw [same] at accepted
      have canonical' : CollectivePhaseControl.canonical (opening start theta).state =
          (opening start theta).state := by
        conv_rhs => rw [opening, ← same]
        simp [CollectivePhaseControl.canonical, opening, sortedSet]
      rw [Normal, normalize_ok, canonical']
      exact ⟨accepted_single accepted theta, rfl⟩
    · exact checkState_single checked listed
  have due := pay_ok admitted paid
  exact ⟨due.admitted, due.models, due.modelId, due.entry, due.steps⟩

theorem validate_ok {inputs : DomainInputs} {recipes : Dict GrowthAction} {kernel : Kernel}
    (h : inputs.validate hash = .ok (recipes, kernel)) :
    validateContract hash.toHashing inputs.contract inputs.objects = .ok () ∧
      (∃ named, namedCatalogue inputs.contract.spec inputs.objects = .ok named ∧
        .ofList named = recipes) ∧
      inputs.epistemic.spec.kernel.foldlM (addRow inputs.epistemic.spec.observationAlphabet) [] =
        .ok kernel := by
  simp only [DomainInputs.validate, bind_ok, require_ok, pure_ok, Prod.mk.injEq] at h
  obtain ⟨⟨⟩, contract, -, -, -, -, named, catalogue, -, -, kernel', rows, -, -, -, -, -, -, -, -, -, -,
    same, rfl⟩ := h
  exact ⟨contract, ⟨named, catalogue, same⟩, rows⟩

theorem row_shown {key : KernelKey} {row : List Identifier}
    (found : d.kernel.lookup key = some row) : row ≠ [] := by
  have each : ∀ entry ∈ d.kernel, entry.2 ≠ [] := by
    refine foldlM_invariant (fun _ kernel => ∀ entry ∈ kernel, entry.2 ≠ []) ?_ (by simp)
      (validate_ok d.valid).2.2
    intro done row kernel kernel' before step
    simp only [addRow, bind_ok, require_ok, pure_ok] at step
    obtain ⟨-, -, rfl⟩ := step
    rw [List.forall_mem_append, List.forall_mem_singleton]
    refine ⟨before, fun empty => row.shown ?_⟩
    exact List.length_eq_zero_iff.mp
      ((List.length_insertionSort _ _).symm.trans (List.length_eq_zero_iff.mpr empty))
  exact each _ (mem_of_lookup found)

theorem normalizeHypotheses_ok {values normalized : List EpistemicHypothesis} :
    values.mapM normalizeHypothesis = .ok normalized ↔
      (∀ h ∈ values, (CollectivePhaseControl.canonical h.state).accepted = true) ∧
        values.map (·.canonical) = normalized := by
  induction values generalizing normalized with
  | nil => simp [pure, Except.pure]
  | cons h values ih =>
    simp only [List.mapM_cons, normalizeHypothesis, bind_ok, pure_ok, normalize_ok,
      List.forall_mem_cons, List.map_cons]
    constructor
    · rintro ⟨g, ⟨state, ⟨accepted, rfl⟩, rfl⟩, rest, tail, rfl⟩
      obtain ⟨each, rfl⟩ := ih.mp tail
      exact ⟨⟨accepted, each⟩, rfl⟩
    · rintro ⟨⟨accepted, each⟩, rfl⟩
      exact ⟨_, ⟨_, ⟨accepted, rfl⟩, rfl⟩, _, ih.mpr ⟨each, rfl⟩, rfl⟩

/-- The limits of a support, each with room for it. -/
structure Fits (d : Domain hash) (support : Support) : Prop where
  some' : support ≠ []
  count : support.length ≤ d.epistemic.spec.maxSupport
  bytes : supportBytes hash support ≤ d.epistemic.spec.maxSupportBytes

theorem bounded_ok {values : List EpistemicHypothesis} {support : Support} :
    d.bounded values = .ok support ↔
      (∀ h ∈ values, (CollectivePhaseControl.canonical h.state).accepted = true) ∧
        (unique hash (values.map (·.canonical))).values = support ∧ d.Fits support := by
  simp only [bounded, canonicalSupport, bind_ok, normalizeHypotheses_ok, require_ok, pure_ok,
    exists_punit]
  constructor
  · rintro ⟨_, ⟨normalized, ⟨accepted, rfl⟩, rfl⟩, some', count, bytes, rfl⟩
    exact ⟨accepted, rfl, some', count, bytes⟩
  · rintro ⟨accepted, rfl, some', count, bytes⟩
    exact ⟨_, ⟨_, ⟨accepted, rfl⟩, rfl⟩, some', count, bytes, rfl⟩

theorem mem_bounded {roots : EpistemicHypothesis → Prop} (free : d.CollisionFree roots)
    {values : List EpistemicHypothesis} (tracked : ∀ h ∈ values, d.Tracked roots h.canonical)
    {support : Support} (h' : d.bounded values = .ok support) {x : EpistemicHypothesis} :
    x ∈ support ↔ ∃ h ∈ values, h.canonical = x := by
  obtain ⟨-, rfl, -⟩ := bounded_ok.mp h'
  rw [mem_values_unique, List.mem_map]
  intro g listed h listed' same
  obtain ⟨g, inValues, rfl⟩ := List.mem_map.mp listed
  obtain ⟨h, inValues', rfl⟩ := List.mem_map.mp listed'
  exact free _ _ (tracked g inValues) (tracked h inValues') same

theorem Admitted.canonical {h : EpistemicHypothesis} (admitted : d.Admitted h.state) :
    h.canonical = h := by
  rw [EpistemicHypothesis.canonical, admitted.1.canonical]

theorem mem_successors {s : GrowthState} {recipe : GrowthAction} {effect : GrowthSuccessor} :
    effect ∈ successors s recipe ↔
      effect ∈ recipe.successors ∧ ∃ theta ∈ s.modelIds, theta ∈ effect.applicableModelIds := by
  simp [successors]

theorem chosenRecipe_ok {support : Support} {actionId : Identifier} {recipe : GrowthAction} :
    d.chosenRecipe support actionId = .ok recipe ↔ support ≠ [] ∧
      d.recipes[actionId]? = some recipe ∧ actionId ∉ d.excludedActions ∧
      ∀ interaction ∈ recipe.interactions, interaction ∉ d.excludedInteractions := by
  simp only [chosenRecipe, bind_ok, require_ok, exists_punit]
  refine and_congr_right fun _ => ?_
  cases found : d.recipes[actionId]? with
  | none => simp
  | some other =>
    simp only [bind_ok, require_ok, exists_punit, pure_ok, Option.some.injEq]
    constructor
    · rintro ⟨allowed, rfl⟩
      exact ⟨rfl, allowed⟩
    · rintro ⟨rfl, allowed⟩
      exact ⟨allowed, rfl⟩

theorem hiddenOptions_ok {h : EpistemicHypothesis} {recipe : GrowthAction}
    {effects : List GrowthSuccessor} : d.hiddenOptions h recipe = .ok effects ↔
      h.state.modelIds = [h.modelId] ∧
        (∃ use, applicable hash.toHashing d.contract h.state recipe d.objects d.frontier = .ok use) ∧
        effects ≠ [] ∧ successors h.state recipe = effects := by
  simp only [hiddenOptions, bind_ok, require_ok, exists_punit, pure_ok]
  constructor
  · rintro ⟨same, use, allowed, some', rfl⟩
    exact ⟨same, ⟨use, allowed⟩, some', rfl⟩
  · rintro ⟨same, ⟨use, allowed⟩, some', rfl⟩
    exact ⟨same, use, allowed, some', rfl⟩

theorem arrivals_ok {h : EpistemicHypothesis} {recipe : GrowthAction} {effect : GrowthSuccessor}
    {arrived : List (Identifier × EpistemicHypothesis)} :
    d.arrivals h recipe effect = .ok arrived ↔ ∃ next row, d.moved h recipe effect = .ok next ∧
      d.kernel.lookup ⟨h.modelId, recipe.actionDigest, effect.successorId⟩ = some row ∧
      List.Forall₂ (fun raw p => d.observationMap[raw]? = some p.1 ∧ p.2 = next) row arrived := by
  simp only [arrivals, kernelRow, bind_ok, demand_ok, mapM_ok, pure_ok, Dict.item_ok]
  constructor
  · rintro ⟨next, stepped, row, found, each⟩
    refine ⟨next, row, stepped, found, each.imp ?_⟩
    rintro raw p ⟨symbol, shown, rfl⟩
    exact ⟨shown, rfl⟩
  · rintro ⟨next, row, stepped, found, each⟩
    refine ⟨next, stepped, row, found, each.imp ?_⟩
    rintro raw ⟨symbol, _⟩ ⟨shown, rfl⟩
    exact ⟨symbol, shown, rfl⟩

def answers (d : Domain hash) (recipe : GrowthAction) (h : EpistemicHypothesis) :
    Checked (List (List (Identifier × EpistemicHypothesis))) := do
  (← d.hiddenOptions h recipe).mapM (d.arrivals h recipe)

theorem advance_eq (support : Support) (actionId : Identifier) : d.advance support actionId =
    d.chosenRecipe support actionId >>= fun recipe => support.mapM (d.answers recipe) >>= fun lists =>
      d.branches lists.flatten.flatten := rfl

theorem advance_ok {support : Support} {actionId : Identifier}
    {found : List (Identifier × Support)} : d.advance support actionId = .ok found ↔
      ∃ recipe lists, d.chosenRecipe support actionId = .ok recipe ∧
        List.Forall₂ (fun h list => d.answers recipe h = .ok list) support lists ∧
        d.branches lists.flatten.flatten = .ok found := by
  rw [advance_eq]
  simp only [bind_ok, mapM_ok]
  constructor
  · rintro ⟨recipe, chosen, lists, each, grouped⟩
    exact ⟨recipe, lists, chosen, each, grouped⟩
  · rintro ⟨recipe, lists, chosen, each, grouped⟩
    exact ⟨recipe, chosen, lists, each, grouped⟩

theorem mem_arrived {support : Support} {actionId : Identifier} {recipe : GrowthAction}
    {lists : List (List (List (Identifier × EpistemicHypothesis)))}
    (chosen : d.chosenRecipe support actionId = .ok recipe)
    (each : List.Forall₂ (fun h list => d.answers recipe h = .ok list) support lists)
    {symbol : Identifier} {x : EpistemicHypothesis} :
    (symbol, x) ∈ lists.flatten.flatten ↔ ∃ h ∈ support, ∃ effect raw,
      d.HiddenStep h actionId effect raw x ∧ d.observationMap[raw]? = some symbol := by
  obtain ⟨-, named, -⟩ := chosenRecipe_ok.mp chosen
  simp only [List.mem_flatten]
  constructor
  · rintro ⟨inner, ⟨list, listed, inList⟩, inInner⟩
    obtain ⟨h, member, answered⟩ := forall₂_mem_right each list listed
    simp only [answers, bind_ok, mapM_ok] at answered
    obtain ⟨effects, options, arrived⟩ := answered
    obtain ⟨models, -, -, rfl⟩ := hiddenOptions_ok.mp options
    obtain ⟨effect, declared, shown⟩ := forall₂_mem_right arrived inner inList
    obtain ⟨next, row, stepped, found, symbols⟩ := arrivals_ok.mp shown
    obtain ⟨raw, inRow, mapped, same⟩ := forall₂_mem_right symbols _ inInner
    obtain ⟨inCatalogue, theta, only, applies⟩ := mem_successors.mp declared
    rw [models, List.mem_singleton] at only
    subst only same
    exact ⟨h, member, effect, raw,
      ⟨recipe, row, named, inCatalogue, applies, stepped, found, inRow⟩, mapped⟩
  · rintro ⟨h, member, effect, raw, ⟨other, row, named', inCatalogue, applies, stepped, found,
      inRow⟩, mapped⟩
    cases named.symm.trans named'
    obtain ⟨list, listed, answered⟩ := forall₂_mem_left each h member
    simp only [answers, bind_ok, mapM_ok] at answered
    obtain ⟨effects, options, arrived⟩ := answered
    obtain ⟨models, -, -, rfl⟩ := hiddenOptions_ok.mp options
    have declared : effect ∈ successors h.state recipe := by
      rw [mem_successors, models]
      exact ⟨inCatalogue, h.modelId, List.mem_singleton_self _, applies⟩
    obtain ⟨inner, inList, shown⟩ := forall₂_mem_left arrived effect declared
    obtain ⟨next, row', stepped', found', symbols⟩ := arrivals_ok.mp shown
    cases stepped.symm.trans stepped'
    cases found.symm.trans found'
    obtain ⟨⟨symbol', x'⟩, inInner, mapped', same⟩ := forall₂_mem_left symbols raw inRow
    cases mapped.symm.trans mapped'
    cases same
    exact ⟨inner, ⟨list, listed, inList⟩, inInner⟩

theorem branches_ok {arrived : List (Identifier × EpistemicHypothesis)}
    {found : List (Identifier × Support)} : d.branches arrived = .ok found ↔
      List.Forall₂ (fun p b => d.bounded p.2 = .ok b.2 ∧ p.1 = b.1) (groups arrived).toList found := by
  simp only [branches, mapM_ok, bind_ok, pure_ok]
  apply Iff.of_eq
  congr 1
  funext p b
  apply propext
  constructor
  · rintro ⟨support, fits, rfl⟩
    exact ⟨fits, rfl⟩
  · rintro ⟨fits, same⟩
    exact ⟨b.2, fits, by rw [same]⟩

theorem branches_keys {arrived : List (Identifier × EpistemicHypothesis)}
    {found : List (Identifier × Support)} (h : d.branches arrived = .ok found) :
    found.map Prod.fst = (groups arrived).toList.map Prod.fst := by
  have each := branches_ok.mp h
  clear h
  generalize (groups arrived).toList = entries at each
  induction each with
  | nil => rfl
  | cons head _ ih => rw [List.map_cons, List.map_cons, ih, head.2]

theorem lookup_branches {arrived : List (Identifier × EpistemicHypothesis)}
    {found : List (Identifier × Support)} (h : d.branches arrived = .ok found)
    {symbol : Identifier} {support : Support} : found.lookup symbol = some support ↔
      arrivedWith arrived symbol ≠ [] ∧ d.bounded (arrivedWith arrived symbol) = .ok support := by
  have distinct : (found.map Prod.fst).Nodup := by
    rw [branches_keys h]
    exact Dict.nodup_toList _
  have listed : ∀ values, (symbol, values) ∈ (groups arrived).toList ↔
      arrivedWith arrived symbol ≠ [] ∧ arrivedWith arrived symbol = values := by
    intro values
    rw [Std.ExtTreeMap.mem_toList_iff_getElem?_eq_some, groups_getElem?]
    split <;> simp [*]
  constructor
  · intro shown
    obtain ⟨⟨key, values⟩, member, fits, same⟩ :=
      forall₂_mem_right (branches_ok.mp h) _ (mem_of_lookup shown)
    cases same
    obtain ⟨some', rfl⟩ := (listed values).mp member
    exact ⟨some', fits⟩
  · rintro ⟨some', fits⟩
    obtain ⟨⟨key, support'⟩, member, fits', same⟩ :=
      forall₂_mem_left (branches_ok.mp h) _ ((listed _).mpr ⟨some', rfl⟩)
    cases same
    cases fits.symm.trans fits'
    exact lookup_of_mem distinct member

theorem mem_arrivedWith {arrived : List (Identifier × EpistemicHypothesis)} {symbol : Identifier}
    {x : EpistemicHypothesis} : x ∈ arrivedWith arrived symbol ↔ (symbol, x) ∈ arrived := by
  simp [arrivedWith]

def ShownStep (d : Domain hash) (h : EpistemicHypothesis) (actionId symbol : Identifier)
    (next : EpistemicHypothesis) : Prop :=
  ∃ effect raw, d.HiddenStep h actionId effect raw next ∧ d.observationMap[raw]? = some symbol

theorem ShownStep.tracked {roots : EpistemicHypothesis → Prop} {h next : EpistemicHypothesis}
    {actionId symbol : Identifier} (step : d.ShownStep h actionId symbol next)
    (tracked : d.Tracked roots h) : d.Tracked roots next := by
  obtain ⟨effect, raw, ⟨recipe, row, named, -, -, stepped, -⟩, -⟩ := step
  exact .moved tracked named stepped

theorem ShownStep.admitted {h next : EpistemicHypothesis} {actionId symbol : Identifier}
    (step : d.ShownStep h actionId symbol next) : d.Admitted next.state := by
  obtain ⟨effect, raw, ⟨recipe, row, -, -, -, stepped, -⟩, -⟩ := step
  exact (moved_ok stepped).1

section advance
variable {support : Support} {actionId : Identifier} {found : List (Identifier × Support)}

theorem advance_support {roots : EpistemicHypothesis → Prop} (free : d.CollisionFree roots)
    (tracked : ∀ h ∈ support, d.Tracked roots h) (h : d.advance support actionId = .ok found)
    {symbol : Identifier} {next : Support} (shown : found.lookup symbol = some next)
    {x : EpistemicHypothesis} :
    x ∈ next ↔ ∃ h ∈ support, d.ShownStep h actionId symbol x := by
  obtain ⟨recipe, lists, chosen, each, grouped⟩ := advance_ok.mp h
  obtain ⟨-, fits⟩ := (lookup_branches grouped).mp shown
  have steps : ∀ y, y ∈ arrivedWith lists.flatten.flatten symbol ↔
      ∃ h ∈ support, d.ShownStep h actionId symbol y := fun y =>
    mem_arrivedWith.trans (mem_arrived chosen each)
  have normal : ∀ y ∈ arrivedWith lists.flatten.flatten symbol,
      y.canonical = y ∧ d.Tracked roots y := by
    intro y member
    obtain ⟨h, listed, step⟩ := (steps y).mp member
    exact ⟨step.admitted.canonical, step.tracked (tracked h listed)⟩
  rw [mem_bounded free (fun y member => (normal y member).1.symm ▸ (normal y member).2) fits,
    ← steps]
  constructor
  · rintro ⟨y, member, rfl⟩
    rwa [(normal y member).1]
  · exact fun member => ⟨x, member, (normal x member).1⟩

theorem advance_shown (h : d.advance support actionId = .ok found) {symbol : Identifier}
    {g x : EpistemicHypothesis} (member : g ∈ support) (step : d.ShownStep g actionId symbol x) :
    ∃ next, found.lookup symbol = some next := by
  obtain ⟨recipe, lists, chosen, each, grouped⟩ := advance_ok.mp h
  have arrived : x ∈ arrivedWith lists.flatten.flatten symbol :=
    mem_arrivedWith.mpr ((mem_arrived chosen each).mpr ⟨g, member, step⟩)
  have some' := List.ne_nil_of_mem arrived
  have listed : (symbol, arrivedWith lists.flatten.flatten symbol) ∈
      (groups lists.flatten.flatten).toList := by
    rw [Std.ExtTreeMap.mem_toList_iff_getElem?_eq_some, groups_getElem?, if_neg some']
  obtain ⟨⟨key, next⟩, -, fits, -⟩ := forall₂_mem_left (branches_ok.mp grouped) _ listed
  exact ⟨next, (lookup_branches grouped).mpr ⟨some', fits⟩⟩

theorem advance_ne_nil (h : d.advance support actionId = .ok found) : found ≠ [] := by
  obtain ⟨recipe, lists, chosen, each, grouped⟩ := advance_ok.mp h
  obtain ⟨some', -⟩ := chosenRecipe_ok.mp chosen
  obtain ⟨g, member⟩ := List.exists_mem_of_ne_nil _ some'
  obtain ⟨list, listed, answered⟩ := forall₂_mem_left each g member
  simp only [answers, bind_ok, mapM_ok] at answered
  obtain ⟨effects, options, arrived⟩ := answered
  obtain ⟨-, -, some', -⟩ := hiddenOptions_ok.mp options
  obtain ⟨effect, declared⟩ := List.exists_mem_of_ne_nil _ some'
  obtain ⟨inner, inList, shown⟩ := forall₂_mem_left arrived effect declared
  obtain ⟨next, row, -, row', symbols⟩ := arrivals_ok.mp shown
  obtain ⟨raw, inRow⟩ := List.exists_mem_of_ne_nil _ (row_shown row')
  obtain ⟨⟨symbol, x⟩, inInner, -⟩ := forall₂_mem_left symbols raw inRow
  have present : x ∈ arrivedWith lists.flatten.flatten symbol :=
    mem_arrivedWith.mpr (List.mem_flatten.mpr ⟨inner, List.mem_flatten.mpr ⟨list, listed, inList⟩,
      inInner⟩)
  have entry : (symbol, arrivedWith lists.flatten.flatten symbol) ∈
      (groups lists.flatten.flatten).toList := by
    rw [Std.ExtTreeMap.mem_toList_iff_getElem?_eq_some, groups_getElem?,
      if_neg (List.ne_nil_of_mem present)]
  obtain ⟨b, branch, -⟩ := forall₂_mem_left (branches_ok.mp grouped) _ entry
  exact List.ne_nil_of_mem branch

end advance

theorem markEntry_ok {support entered : Support} {comparisons : List GrowthComparison} :
    d.markEntry support comparisons = .ok entered ↔ support ≠ [] ∧
      (∀ h ∈ support, h.entry = none ∧
        entryAllowed d.contract.spec comparisons h.state = .ok true) ∧
      d.bounded (support.map marked) = .ok entered := by
  have gate : ∀ h : EpistemicHypothesis,
      (if h.entry = none then entryAllowed d.contract.spec comparisons h.state else pure false) =
        .ok true ↔ h.entry = none ∧
          entryAllowed d.contract.spec comparisons h.state = .ok true := by
    intro h
    split
    case isTrue none' => simp [none']
    case isFalse some' => simp [some', pure, Except.pure]
  simp only [markEntry, bind_ok, require_ok, exists_punit]
  constructor
  · rintro ⟨answer, all, ⟨some', rfl⟩, fits⟩
    exact ⟨some', fun h member => (gate h).mp (allM_ok.mp all h member), fits⟩
  · rintro ⟨some', all, fits⟩
    exact ⟨true, allM_ok.mpr fun h member => (gate h).mpr (all h member), ⟨some', rfl⟩, fits⟩

theorem mem_markEntry {roots : EpistemicHypothesis → Prop} (free : d.CollisionFree roots)
    {support entered : Support} {comparisons : List GrowthComparison}
    (tracked : ∀ h ∈ support, d.Tracked roots h)
    (h' : d.markEntry support comparisons = .ok entered) {x : EpistemicHypothesis} :
    x ∈ entered ↔ ∃ h ∈ support, (marked h).canonical = x := by
  obtain ⟨-, -, fits⟩ := markEntry_ok.mp h'
  rw [mem_bounded free (fun g member => ?_) fits]
  · simp
  · obtain ⟨h, listed, rfl⟩ := List.mem_map.mp member
    exact .entered (tracked h listed)

/-- What is open at the start: one hypothesis for each model, under no action. -/
def Opening (d : Domain hash) (first : EpistemicHypothesis) : Prop := ∃ theta, d.Opens theta first

theorem mem_initial (free : d.CollisionFree d.Opening) {support : Support}
    (h : d.initial = .ok support) {x : EpistemicHypothesis} : x ∈ support ↔ d.Opening x := by
  simp only [initial, bind_ok, mapM_ok] at h
  obtain ⟨start, prepaidStart, paid, each, fits⟩ := h
  have opened : ∀ y, y ∈ paid ↔ d.Opening y := by
    intro y
    constructor
    · intro member
      obtain ⟨theta, listed, due⟩ := forall₂_mem_right each y member
      exact ⟨theta, start, prepaidStart, (List.mem_insertionSort _).mp listed, due⟩
    · rintro ⟨theta, start', prepaidStart', listed, due⟩
      cases prepaidStart.symm.trans prepaidStart'
      obtain ⟨y', member, due'⟩ :=
        forall₂_mem_left each theta ((List.mem_insertionSort _).mpr listed)
      cases due.symm.trans due'
      exact member
  have normal : ∀ y ∈ paid, y.canonical = y := by
    intro y member
    obtain ⟨theta, opens⟩ := (opened y).mp member
    exact opens.admitted.1.canonical
  rw [mem_bounded free (fun y member => ?_) fits, ← opened]
  · constructor
    · rintro ⟨y, member, rfl⟩
      rwa [normal y member]
    · exact fun member => ⟨x, member, normal x member⟩
  · rw [normal y member]
    exact .root ((opened y).mp member)

/-- A support is as it should be after some steps: it holds exactly what hidden runs under a
fixed model explain. -/
structure Exact (d : Domain hash) (done : List EpistemicStep) (support : Support) : Prop where
  explained : ∀ x, x ∈ support ↔
    ∃ theta first, d.Opens theta first ∧ Runs.Run (d.Explains theta) first done x
  tracked : ∀ x ∈ support, d.Tracked d.Opening x
  admitted : ∀ x ∈ support, d.Admitted x.state
  models : ∀ x ∈ support, x.state.modelIds = [x.modelId]

theorem entryStep_ok {basisAt : ℕ → Checked (List GrowthComparison)}
    {comparisons : List GrowthComparison} {support entered : Support} {step : EpistemicStep}
    (h : d.entryStep basisAt comparisons support step = .ok entered) :
    (step.entry = false ∧ entered = support) ∨
      (step.entry = true ∧ ∃ basis, basisOf basisAt comparisons step = .ok basis ∧
        d.markEntry support basis = .ok entered) := by
  unfold entryStep at h
  split at h
  case isTrue marks =>
    obtain ⟨basis, judged, entered⟩ := bind_ok.mp h
    exact .inr ⟨marks, basis, judged, entered⟩
  case isFalse carries => exact .inl ⟨by simpa using carries, (pure_ok.mp h).symm⟩

theorem mem_entryStep (free : d.CollisionFree d.Opening)
    {basisAt : ℕ → Checked (List GrowthComparison)} {comparisons : List GrowthComparison}
    {support entered : Support} {step : EpistemicStep}
    (tracked : ∀ x ∈ support, d.Tracked d.Opening x) (admitted : ∀ x ∈ support, d.Admitted x.state)
    (h : d.entryStep basisAt comparisons support step = .ok entered) {x : EpistemicHypothesis} :
    x ∈ entered ↔ ∃ g ∈ support, (if step.entry then marked g else g) = x := by
  rcases entryStep_ok h with ⟨carries, rfl⟩ | ⟨marks, basis, -, entry⟩
  · simp [carries]
  · rw [mem_markEntry free tracked entry, marks]
    have plain : ∀ g ∈ support, (marked g).canonical = marked g := fun g member =>
      Admitted.canonical (h := marked g) (admitted g member)
    constructor
    · rintro ⟨g, member, rfl⟩
      exact ⟨g, member, (plain g member).symm⟩
    · rintro ⟨g, member, rfl⟩
      exact ⟨g, member, plain g member⟩

theorem Explains.keeps {theta : Identifier} {h next : EpistemicHypothesis} {step : EpistemicStep}
    (explains : d.Explains theta h step next) : d.Admitted next.state ∧
      next.state.modelIds = sortedSet h.state.modelIds ∧ next.modelId = h.modelId := by
  obtain ⟨-, -, effect, raw, ⟨recipe, row, -, -, -, stepped, -⟩, -⟩ := explains
  obtain ⟨admitted, models, same, -⟩ := moved_ok stepped
  cases entry : step.entry <;> rw [entry] at models same <;> exact ⟨admitted, models, same⟩

/-- An admitted ledger under the one model of its hypothesis. -/
structure Under (d : Domain hash) (theta : Identifier) (x : EpistemicHypothesis) : Prop where
  admitted : d.Admitted x.state
  models : x.state.modelIds = [theta]
  modelId : x.modelId = theta

theorem explained_under {theta : Identifier} {first x : EpistemicHypothesis}
    {done : List EpistemicStep} (opens : d.Opens theta first)
    (run : Runs.Run (d.Explains theta) first done x) : d.Under theta x := by
  have keep : ∀ y step z, d.Under theta y → d.Explains theta y step z → d.Under theta z := by
    intro y step z before explains
    obtain ⟨admitted, models, same⟩ := explains.keeps
    refine ⟨admitted, ?_, same.trans before.modelId⟩
    rw [models, before.models]
    rfl
  obtain ⟨admitted, models, same, -⟩ := opens.admitted
  exact run.invariant keep ⟨admitted, models, same⟩

theorem exact_initial (free : d.CollisionFree d.Opening) {support : Support}
    (h : d.initial = .ok support) : d.Exact [] support := by
  have opened : ∀ x, x ∈ support ↔ d.Opening x := fun x => mem_initial free h
  constructor
  · intro x
    rw [opened]
    constructor
    · rintro ⟨theta, opens⟩
      exact ⟨theta, x, opens, .nil x⟩
    · rintro ⟨theta, first, opens, run⟩
      cases run
      exact ⟨theta, opens⟩
  · exact fun x member => .root ((opened x).mp member)
  · rintro x member
    obtain ⟨theta, opens⟩ := (opened x).mp member
    exact opens.admitted.1
  · rintro x member
    obtain ⟨theta, opens⟩ := (opened x).mp member
    obtain ⟨-, models, same, -⟩ := opens.admitted
    rw [models, same]

theorem replayStep_exact (free : d.CollisionFree d.Opening)
    {basisAt : ℕ → Checked (List GrowthComparison)} {comparisons : List GrowthComparison}
    {index : ℕ} {support next : Support} {done : List EpistemicStep} {step : EpistemicStep}
    (before : d.Exact done support)
    (h : d.replayStep basisAt comparisons index support step = .ok next) :
    d.Exact (done ++ [step]) next := by
  simp only [replayStep, bind_ok, require_ok, exists_punit] at h
  obtain ⟨-, entered, entry, found, advanced, shown⟩ := h
  have shown : found.lookup step.observation = some next := by
    unfold observed at shown
    split at shown
    case h_1 same => rw [same, pure_ok.mp shown]
    case h_2 => exact nomatch shown
  have inEntered : ∀ x, x ∈ entered ↔ ∃ g ∈ support, (if step.entry then marked g else g) = x :=
    fun x => mem_entryStep free before.tracked before.admitted entry
  have tracked : ∀ x ∈ entered, d.Tracked d.Opening x := by
    intro x member
    rcases entryStep_ok entry with ⟨-, rfl⟩ | ⟨-, basis, -, marks⟩
    · exact before.tracked x member
    · obtain ⟨g, listed, rfl⟩ := (mem_markEntry free before.tracked marks).mp member
      exact .entered (before.tracked g listed)
  have inNext : ∀ x, x ∈ next ↔ ∃ g ∈ support,
      d.ShownStep (if step.entry then marked g else g) step.actionId step.observation x := by
    intro x
    rw [advance_support free tracked advanced shown]
    constructor
    · rintro ⟨y, member, stepped⟩
      obtain ⟨g, listed, rfl⟩ := (inEntered y).mp member
      exact ⟨g, listed, stepped⟩
    · rintro ⟨g, listed, stepped⟩
      exact ⟨_, (inEntered _).mpr ⟨g, listed, rfl⟩, stepped⟩
  have explains : ∀ g x, g ∈ support →
      (d.ShownStep (if step.entry then marked g else g) step.actionId step.observation x ↔
        d.Explains g.modelId g step x) := by
    intro g x member
    constructor
    · rintro ⟨effect, raw, stepped, mapped⟩
      refine ⟨rfl, ?_, effect, raw, stepped, mapped⟩
      obtain ⟨recipe, row, -, -, -, moved', -⟩ := stepped
      have same := (moved_ok moved').2.2.1
      cases flag : step.entry <;> rw [flag] at same <;> exact same
    · rintro ⟨-, -, effect, raw, stepped, mapped⟩
      exact ⟨effect, raw, stepped, mapped⟩
  have explained : ∀ x, x ∈ next ↔ ∃ theta first, d.Opens theta first ∧
      Runs.Run (d.Explains theta) first (done ++ [step]) x := by
    intro x
    rw [inNext]
    constructor
    · rintro ⟨g, member, stepped⟩
      obtain ⟨theta, first, opens, run⟩ := (before.explained g).mp member
      have same := (explained_under opens run).modelId
      have last := (explains g x member).mp stepped
      rw [same] at last
      exact ⟨theta, first, opens, run.snoc last⟩
    · rintro ⟨theta, first, opens, run⟩
      obtain ⟨g, run', last⟩ := Runs.Run.snoc_iff.mp run
      have member : g ∈ support := (before.explained g).mpr ⟨theta, first, opens, run'⟩
      have same := (explained_under opens run').modelId
      rw [← same] at last
      exact ⟨g, member, (explains g x member).mpr last⟩
  refine ⟨explained, fun x member => ?_, fun x member => ?_, fun x member => ?_⟩
  · obtain ⟨y, listed, stepped⟩ := (advance_support free tracked advanced shown).mp member
    exact stepped.tracked (tracked y listed)
  · obtain ⟨theta, first, opens, run⟩ := (explained x).mp member
    exact (explained_under opens run).admitted
  · obtain ⟨theta, first, opens, run⟩ := (explained x).mp member
    have under := explained_under opens run
    rw [under.models, under.modelId]

theorem replayFrom_exact (free : d.CollisionFree d.Opening)
    {basisAt : ℕ → Checked (List GrowthComparison)} {comparisons : List GrowthComparison} :
    ∀ {history : List EpistemicStep} {index : ℕ} {support final : Support}
      {done : List EpistemicStep}, d.Exact done support →
      d.replayFrom basisAt comparisons index history support = .ok final →
      d.Exact (done ++ history) final := by
  intro history
  induction history with
  | nil =>
    intro index support final done before h
    cases h
    simpa using before
  | cons step history ih =>
    intro index support final done before h
    obtain ⟨next, head, rest⟩ := bind_ok.mp h
    have after := ih (replayStep_exact free before head) rest
    rwa [List.append_assoc, List.singleton_append] at after

theorem replayWith_exact (free : d.CollisionFree d.Opening)
    {basisAt : ℕ → Checked (List GrowthComparison)} {comparisons : List GrowthComparison}
    {history : List EpistemicStep} {support : Support}
    (h : d.replayWith basisAt comparisons history = .ok support) : d.Exact history support := by
  simp only [replayWith, bind_ok, require_ok, exists_punit] at h
  obtain ⟨-, first, opened, rest⟩ := h
  simpa using replayFrom_exact free (exact_initial free opened) rest

end Domain

/-- A replayed support holds exactly the hypotheses that one hidden run under one fixed model
explains, whatever comparisons the entries were judged by. -/
theorem replay_exact (d : Domain hash) (free : d.CollisionFree d.Opening)
    (history : List EpistemicStep) (comparisons : List GrowthComparison) (support : Support)
    (replayed : d.replay history comparisons = .ok support) :
    (∀ x, x ∈ support ↔
      ∃ theta first, d.Opens theta first ∧ Runs.Run (d.Explains theta) first history x) ∧
    (∀ theta first x, d.Opens theta first → Runs.Run (d.Explains theta) first history x →
      x.modelId = theta ∧ x.state.modelIds = [theta]) := by
  refine ⟨(Domain.replayWith_exact free replayed).explained, ?_⟩
  intro theta first x opens run
  have under := Domain.explained_under opens run
  exact ⟨under.modelId, under.models⟩

namespace Sample

/-- The hypotheses after one hidden outcome, whatever the action. -/
def movedFrom (d : Domain epistemicDigests) (h : EpistemicHypothesis) : List EpistemicHypothesis :=
  d.recipes.values.flatMap fun recipe => recipe.successors.filterMap fun effect =>
    (d.moved h recipe effect).toOption

def withEntries (hypotheses : List EpistemicHypothesis) : List EpistemicHypothesis :=
  hypotheses ++ hypotheses.map fun h => (Domain.marked h).canonical

def openings (d : Domain epistemicDigests) : List EpistemicHypothesis := d.initial.toOption.getD []

def hypotheses (d : Domain epistemicDigests) : List EpistemicHypothesis :=
  let first := withEntries (openings d)
  let second := withEntries (first.flatMap (movedFrom d))
  first ++ second ++ withEntries (second.flatMap (movedFrom d))

/-- What the evaluation of a sample domain has to show for its digests to be good enough. -/
def Closed (d : Domain epistemicDigests) : Prop :=
  (∀ g ∈ hypotheses d, ∀ h ∈ hypotheses d,
    epistemicDigests.hypothesis g = epistemicDigests.hypothesis h → g = h) ∧
  (∀ h ∈ hypotheses d, (Domain.marked h).canonical ∈ hypotheses d) ∧
  ∀ h ∈ hypotheses d, ∀ next ∈ movedFrom d h, next ∈ hypotheses d

/-- It is enough to look at each hypothesis once. -/
theorem closed_of_dedup {d : Domain epistemicDigests}
    (distinct : ((hypotheses d).dedup.map epistemicDigests.hypothesis).Nodup)
    (entered : ∀ h ∈ (hypotheses d).dedup, (Domain.marked h).canonical ∈ (hypotheses d).dedup)
    (moved : ∀ h ∈ (hypotheses d).dedup, ∀ next ∈ movedFrom d h, next ∈ (hypotheses d).dedup) :
    Closed d := by
  simp only [List.mem_dedup] at entered moved
  exact ⟨fun g first h second same => List.inj_on_of_nodup_map distinct (List.mem_dedup.mpr first)
    (List.mem_dedup.mpr second) same, entered, moved⟩

theorem mem_movedFrom {d : Domain epistemicDigests} {h next : EpistemicHypothesis}
    {actionId : Identifier} {recipe : GrowthAction} {effect : GrowthSuccessor}
    (named : d.recipes[actionId]? = some recipe) (stepped : d.moved h recipe effect = .ok next) :
    next ∈ movedFrom d h := by
  have declared : effect ∈ recipe.successors := by
    simp only [Domain.moved, bind_ok] at stepped
    obtain ⟨after, moved, -⟩ := stepped
    obtain ⟨-, -, -, -, declared, -⟩ := transition_ok moved
    exact (Domain.mem_successors.mp declared).1
  rw [movedFrom, List.mem_flatMap]
  refine ⟨recipe, Dict.mem_values.mpr ⟨actionId, named⟩, ?_⟩
  rw [List.mem_filterMap]
  exact ⟨effect, declared, by rw [stepped]; rfl⟩

theorem Closed.collisionFree {d : Domain epistemicDigests} (closed : Closed d)
    {roots : EpistemicHypothesis → Prop} (start : ∀ h, roots h → h ∈ hypotheses d) :
    d.CollisionFree roots := by
  have within : ∀ h, d.Tracked roots h → h ∈ hypotheses d := by
    intro h tracked
    induction tracked with
    | root root => exact start _ root
    | entered _ ih => exact closed.2.1 _ ih
    | moved _ named stepped ih => exact closed.2.2 _ ih _ (mem_movedFrom named stepped)
  exact fun g h reached reached' => closed.1 g (within g reached) h (within h reached')

def unclear : List EpistemicStep := [⟨"grow", "low", false, 0⟩]

theorem doubtful_closed : Closed doubtfulDomain ∧ initialState digests doubtful none =
      .ok ((initialState digests doubtful none).toOption.getD declared) ∧
    (doubtfulDomain.replay unclear []).toBool = true := by
  have evaluated : ((hypotheses doubtfulDomain).dedup.map epistemicDigests.hypothesis).Nodup ∧
      (∀ h ∈ (hypotheses doubtfulDomain).dedup,
        (Domain.marked h).canonical ∈ (hypotheses doubtfulDomain).dedup ∧
        ∀ next ∈ movedFrom doubtfulDomain h, next ∈ (hypotheses doubtfulDomain).dedup) ∧
      initialState digests doubtful none =
        .ok ((initialState digests doubtful none).toOption.getD declared) ∧
      (doubtfulDomain.replay unclear []).toBool = true := by decide +kernel
  obtain ⟨distinct, closed, rest⟩ := evaluated
  exact ⟨closed_of_dedup distinct (fun h listed => (closed h listed).1)
    fun h listed => (closed h listed).2, rest⟩

theorem doubtful_collisionFree : doubtfulDomain.CollisionFree doubtfulDomain.Opening := by
  obtain ⟨closed, declares, -⟩ := doubtful_closed
  refine closed.collisionFree ?_
  rintro h ⟨theta, start, prepaidStart, listed, paid⟩
  cases prepaidStart.symm.trans declares
  have each : ∀ theta ∈ ((initialState digests doubtful none).toOption.getD declared).modelIds,
      ∀ h ∈ (doubtfulDomain.pay (Domain.opening
        ((initialState digests doubtful none).toOption.getD declared) theta)).toOption,
      h ∈ hypotheses doubtfulDomain := by decide +kernel
  exact each theta listed h (by rw [paid]; rfl)

end Sample

theorem replay_exact_sample : ∃ support, Sample.doubtfulDomain.replay Sample.unclear [] = .ok support ∧
    ∀ x, x ∈ support ↔ ∃ theta first, Sample.doubtfulDomain.Opens theta first ∧
      Runs.Run (Sample.doubtfulDomain.Explains theta) first Sample.unclear x := by
  obtain ⟨support, replayed⟩ := exists_ok Sample.doubtful_closed.2.2
  exact ⟨support, replayed,
    (replay_exact Sample.doubtfulDomain Sample.doubtful_collisionFree _ _ support replayed).1⟩

end CollectivePhaseControl
