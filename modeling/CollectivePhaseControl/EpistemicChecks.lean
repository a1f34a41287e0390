import CollectivePhaseControl.EpistemicChecking
import CollectivePhaseControl.EpistemicSimulation

/-! What a checker takes from the reference. Reference rows are complete, so they open every
gate that searched rows open, and a history replays under them to the same support; and every
step of a support takes time and a primitive step. -/
namespace CollectivePhaseControl

open BudgetedSearch

variable {hash : EpistemicHashing}

namespace Domain
variable {d : Domain hash}

theorem ends_advance {σ : Type} {I : σ → Prop} {E : Fault → σ → Prop}
    {charge : EStateM Fault σ PUnit} (paid : Ends I charge (fun _ => True) E)
    (any : ∀ e s, I s → E e s) (support : Support) (actionId : Identifier) :
    Ends I (d.advanceCharging charge support actionId) (fun _ => True) E := by
  have plain : ∀ {α : Type} (x : Checked α), Ends I (liftM x : EStateM Fault σ α) (fun _ => True) E :=
    fun x => ends_lift (fun _ _ => trivial) fun e _ => any e
  refine leads_bind (plain _) fun recipe _ => ?_
  refine leads_bind (ends_mapM (R := fun _ _ => True) fun h _ => ?_) fun lists _ => plain _
  refine leads_bind (plain _) fun effects _ => ?_
  refine (ends_mapM (R := fun _ _ => True) fun effect _ => ?_).mono (fun _ _ => trivial)
    fun _ _ said => said
  exact leads_bind paid fun _ _ => plain _

def Unspent (b : SearchBudget) : Prop := b.complete = true

/-- A budget that is not complete at the end has ended the check. -/
def Spent (e : Fault) (b : SearchBudget) : Prop :=
  e = .coded "epistemic_search_budget" ∨ e = .coded "epistemic_check_budget" ∨ Unspent b

theorem ends_chargeBudget (limits : GrowthSearchLimits) (counter : Counter) (code : String) :
    Ends Unspent (BudgetM.charge limits counter code) (fun _ => True)
      fun e b => e = .coded code ∨ Unspent b := by
  intro b unspent
  unfold BudgetM.charge SearchBudget.take
  by_cases full : limits.of counter ≤ b.used counter
  · rw [if_pos full]
    exact .inl rfl
  · rw [if_neg full]
    refine ⟨?_, trivial⟩
    cases counter <;> exact unspent

theorem ends_rulingOut {α : Type} (fault : Fault) (b : SearchBudget)
    (left : fault = .coded "epistemic_search_budget" ∨ Unspent b) :
    Ended Unspent (fun _ => True) Spent ((rulingOut fault : BudgetM (Option α)) b) := by
  cases fault with
  | crash exception =>
    exact .inr (.inr (left.resolve_left fun impossible => nomatch impossible))
  | coded code =>
    by_cases limited : code ∈ ["epistemic_support_budget", "epistemic_search_budget"]
    · have raised : (rulingOut (.coded code) : BudgetM (Option α)) = throw (.coded code) :=
        if_pos limited
      rw [raised]
      exact left.imp_right .inr
    · have judged : (rulingOut (.coded code) : BudgetM (Option α)) = pure none := if_neg limited
      rw [judged]
      refine ⟨left.resolve_left ?_, trivial⟩
      rintro ⟨⟩
      exact limited (by simp)

theorem ends_options {recur : Support → BudgetM (Option (ℚ × ℚ))}
    (below : ∀ next, Ends Unspent (recur next) (fun _ => True) Spent) (support : Support)
    (actionId : Identifier) :
    Ends Unspent (d.referenceOptions recur support actionId) (fun _ => True) Spent := by
  have plain : ∀ {α : Type} (x : Checked α),
      Ends Unspent (liftM x : BudgetM α) (fun _ => True) Spent :=
    fun x => ends_lift (fun _ _ => trivial) fun e _ b unspent => .inr (.inr unspent)
  have paid := ends_chargeBudget d.limits .expansions "epistemic_search_budget"
  refine leads_bind (J := Unspent) (P := fun _ => True) ?_ fun found _ => ?_
  · exact ends_caught (ends_map (ends_advance paid (fun _ _ => .inr) support actionId)
      fun _ _ => trivial) ends_rulingOut
  · cases found with
    | none => exact ends_pure trivial
    | some found =>
      exact leads_bind (ends_mapM (R := fun _ _ => True) fun b _ => below b.2) fun _ _ => plain _

theorem ends_referenceStep {endpoint : ℚ} {recur : Support → BudgetM (Option (ℚ × ℚ))}
    (below : ∀ next, Ends Unspent (recur next) (fun _ => True) Spent) (depth : ℕ)
    (support : Support) :
    Ends Unspent (d.referenceStep endpoint recur depth support) (fun _ => True) Spent := by
  have plain : ∀ {α : Type} (x : Checked α),
      Ends Unspent (liftM x : BudgetM α) (fun _ => True) Spent :=
    fun x => ends_lift (fun _ _ => trivial) fun e _ b unspent => .inr (.inr unspent)
  unfold referenceStep
  refine leads_bind ((ends_chargeBudget _ _ _).mono (fun _ => id) fun e b => ?_) fun _ _ => ?_
  · exact fun said => .inr said
  refine leads_bind (J := Unspent) (P := fun _ => True) (fun b unspent => ⟨unspent, trivial⟩) fun _ _ => ?_
  split
  · exact leads_bind (plain _) fun _ _ => leads_bind (plain _) fun _ _ => ends_pure trivial
  · split
    · exact ends_pure trivial
    · exact leads_bind (plain _) fun _ _ => leads_bind
        (ends_mapM (R := fun _ _ => True) fun actionId _ => ends_options below support actionId)
        fun _ _ => ends_pure trivial

theorem ends_referenceValue (endpoint : ℚ) : ∀ (left depth : ℕ) (support : Support),
    Ends Unspent (d.referenceValue endpoint left depth support) (fun _ => True) Spent := by
  intro left
  induction left with
  | zero => exact fun depth support => ends_referenceStep (fun _ => ends_pure trivial) depth support
  | succ left ih => exact fun depth support => ends_referenceStep (ih (depth + 1)) depth support

theorem referenceAt_complete {resumed : Option Support} {depth : ℕ}
    {restriction : GrowthComparator × ℚ} {row : GrowthComparison}
    (h : d.referenceAt resumed depth restriction.1 restriction.2 = .ok row) :
    row.search.complete = true := by
  simp only [referenceAt, bind_ok] at h
  obtain ⟨start, -, ⟨bounds, b⟩, run, valid⟩ := h
  cases GrowthComparison.validate_ok valid
  have ended := ends_referenceValue (d := d.excluding restriction.1.excludedInteractions)
    restriction.2 (d.contract.spec.maxDecisions - depth) depth start .fresh rfl
  rw [runFrom_ok.mp run] at ended
  exact ended.1

end Domain

/-- A complete row, at the same endpoint, with the same upper bound if the other is complete. -/
structure Endorses (row other : GrowthComparison) : Prop where
  endpoint : row.endpoint = other.endpoint
  complete : row.search.complete = true
  upper : other.search.complete = true → row.upperBound = other.upperBound

theorem entryAllowed_rows {c : GrowthContractSpec} {rows others : List GrowthComparison}
    (each : List.Forall₂ (fun row other => row.endpoint = other.endpoint ∧
      ∀ reached, beats c reached other → beats c reached row) rows others) {s : GrowthState}
    (h : entryAllowed c others s = .ok true) : entryAllowed c rows s = .ok true := by
  have here : List.Forall₂ (fun row other => ∀ reached, beats c reached other → beats c reached row)
      (rows.filter (F ·.endpoint = F s.elapsed)) (others.filter (F ·.endpoint = F s.elapsed)) := by
    clear h
    induction each with
    | nil => exact .nil
    | cons head rest ih =>
      rw [List.filter_cons, List.filter_cons, head.1]
      split
      case isTrue => exact .cons head.2 ih
      case isFalse => exact ih
  simp only [entryAllowed, bind_ok] at h ⊢
  obtain ⟨reached, value, rest⟩ := h
  refine ⟨reached, value, ?_⟩
  split at rest
  case isFalse => cases rest
  case isTrue enough =>
    simp only [if_pos enough, bind_ok] at rest ⊢
    obtain ⟨supported, block, rest⟩ := rest
    refine ⟨supported, block, ?_⟩
    cases supported with
    | false => cases rest
    | true =>
      simp only [if_true, pure_ok, decide_eq_true_eq] at rest ⊢
      obtain ⟨evidence, pending, works, count, all⟩ := rest
      refine ⟨evidence, pending, works, here.length_eq.trans count, fun row listed => ?_⟩
      obtain ⟨other, listed', beaten⟩ := forall₂_mem_left here row listed
      exact beaten reached (all other listed')

namespace Domain
variable {d : Domain hash} {rows others : List GrowthComparison}

theorem admits_endorsed (each : List.Forall₂ Endorses rows others) : d.Admits rows others := by
  refine fun s => entryAllowed_rows (each.imp fun row other endorses => ⟨endorses.endpoint, ?_⟩)
  rintro reached ⟨complete, beaten⟩
  refine ⟨endorses.complete, ?_⟩
  rw [endorses.upper complete]
  exact beaten

theorem admits_endorsing (each : List.Forall₂ Endorses rows others)
    (complete : ∀ other ∈ others, other.search.complete = true) : d.Admits others rows := by
  have both : List.Forall₂ (fun other row => other.endpoint = row.endpoint ∧
      ∀ reached, beats d.contract.spec reached row → beats d.contract.spec reached other)
      others rows := by
    rw [List.forall₂_iff_get] at each ⊢
    obtain ⟨count, each⟩ := each
    refine ⟨count.symm, fun i inOthers inRows => ?_⟩
    have endorses := each i inRows inOthers
    have done := complete _ (List.get_mem others ⟨i, inOthers⟩)
    refine ⟨endorses.endpoint.symm, fun reached beaten => ⟨done, ?_⟩⟩
    rw [← endorses.upper done]
    exact beaten.2
  exact fun s => entryAllowed_rows both

theorem markEntry_admits (admits : d.Admits rows others) {support entered : Support}
    (h : d.markEntry support others = .ok entered) : d.markEntry support rows = .ok entered := by
  obtain ⟨some', gate, fits⟩ := markEntry_ok.mp h
  exact markEntry_ok.mpr ⟨some', fun h member => (gate h member).imp_right (admits h.state), fits⟩

theorem compareAt_endpoint {resume : Checked (Option Support)} {depth : ℕ}
    {restriction : GrowthComparator × ℚ} {row : GrowthComparison}
    (h : d.compareAt resume depth restriction.1 restriction.2 = .ok row) :
    row.endpoint = str restriction.2 := by
  simp only [compareAt, bind_ok] at h
  obtain ⟨⟨⟨policies, inconsistent⟩, σ⟩, run, lower, least, rest⟩ := h
  split at rest <;>
  · obtain ⟨upper, -, valid⟩ := bind_ok.mp rest
    cases GrowthComparison.validate_ok valid
    rfl

theorem referenceComparisons_endorse (apart : d.SupportsApart fun s => d.initial = .ok s)
    {history : List EpistemicStep} {searched reference : List GrowthComparison}
    (compared : d.compareEpistemic history = .ok searched)
    (referred : d.referenceComparisons history = .ok reference) :
    List.Forall₂ Endorses reference searched := by
  have resumes : ∃ resumed, (∀ resumed', d.resume history = .ok resumed' → resumed' = resumed) ∧
      d.referenceFrom resumed history.length = .ok reference := by
    by_cases none' : history = []
    · subst none'
      exact ⟨none, fun resumed' known => (Except.ok.inj known).symm, referred⟩
    · rw [d.referenceComparisons_eq none'] at referred
      obtain ⟨first, -, rest⟩ := bind_ok.mp referred
      obtain ⟨resumed, replayed, referred⟩ := bind_ok.mp rest
      refine ⟨some resumed, fun resumed' known => ?_, referred⟩
      obtain ⟨first', final, -, replayed', rfl⟩ := (resume_ok none').mp known
      rw [replayWith_unique replayed replayed']
  obtain ⟨resumed, only, referred⟩ := resumes
  refine forall₂_compose ?_ (List.Forall₂.flip (mapM_ok.mp referred)) (mapM_ok.mp compared)
  intro row restriction other built built'
  have tells := referenceAt_tells built
  refine ⟨tells.2.1.trans (compareAt_endpoint built').symm, referenceAt_complete built,
    fun complete => ?_⟩
  obtain ⟨resumed', known, tells'⟩ :=
    compareAt_tells apart (fun _ _ known starts => resume_reached known starts) built' complete
  cases only resumed' known
  have same := tells.unique tells'
  simp only [said, Prod.mk.injEq] at same
  exact same.2.2.2

theorem replayFrom_admits {basisAt : ℕ → Checked (List GrowthComparison)}
    (admits : d.Admits rows others) : ∀ {history : List EpistemicStep} {index : ℕ}
    {support final : Support}, d.replayFrom basisAt others index history support = .ok final →
    d.replayFrom basisAt rows index history support = .ok final := by
  intro history
  induction history with
  | nil => exact id
  | cons step history ih =>
    intro index support final h
    obtain ⟨next, head, rest⟩ := bind_ok.mp h
    refine bind_ok.mpr ⟨next, ?_, ih rest⟩
    simp only [replayStep, bind_ok] at head ⊢
    obtain ⟨_, epoch, entered, entry, after⟩ := head
    refine ⟨_, epoch, entered, ?_, after⟩
    unfold entryStep basisOf at entry ⊢
    split at entry
    case isFalse carries => rwa [if_neg carries]
    case isTrue marks =>
      rw [if_pos marks]
      obtain ⟨basis, judged, marking⟩ := bind_ok.mp entry
      split at judged
      case isFalse later =>
        rw [if_neg later]
        exact bind_ok.mpr ⟨basis, judged, marking⟩
      case isTrue first =>
        cases pure_ok.mp judged
        rw [if_pos first]
        exact markEntry_admits admits marking

theorem replay_admits (admits : d.Admits rows others) {history : List EpistemicStep}
    {final : Support} (h : d.replay history others = .ok final) :
    d.replay history rows = .ok final := by
  simp only [replay, replayWith, bind_ok] at h ⊢
  obtain ⟨_, short, first, opened, rest⟩ := h
  exact ⟨_, short, first, opened, replayFrom_admits admits rest⟩

end Domain

namespace Domain
variable {d : Domain hash}

theorem costEvent_duration {event : EpistemicCostEvent}
    (listed : event ∈ d.epistemic.spec.costEvents) : 0 ≤ F event.duration := by
  have valid := d.valid
  simp only [DomainInputs.validate, bind_ok, require_ok, pure_ok, forM_ok] at valid
  obtain ⟨-, -, -, -, -, -, -, -, -, -, -, -, -, -, -, -, -, -, -, -, -, events, -⟩ := valid
  have accepted := events event listed
  simp only [validateEvent, require_ok] at accepted
  exact accepted.1

theorem recipe_listed {actionId : Identifier} {recipe : GrowthAction}
    (named : d.recipes[actionId]? = some recipe) : recipe ∈ d.contract.spec.actionCatalogue := by
  obtain ⟨-, ⟨catalogue, listed, same⟩, -⟩ := validate_ok d.valid
  rw [← same] at named
  obtain ⟨r, inCatalogue, built⟩ :=
    forall₂_mem_right (mapM_ok.mp listed) _ (Dict.mem_of_ofList named)
  simp only [bind_ok, pure_ok, Prod.mk.injEq] at built
  obtain ⟨action, -, -, rfl⟩ := built
  exact inCatalogue

theorem pay_later {h paid : EpistemicHypothesis} (h' : d.pay h = .ok paid) :
    F h.state.elapsed ≤ F paid.state.elapsed ∧ (F h.state.elapsed ≤ F d.contract.spec.deadline →
      F paid.state.elapsed ≤ F d.contract.spec.deadline) := by
  have due : ∀ event ∈ d.dueEvents h.primitiveSteps, 0 ≤ F event.duration := by
    intro event member
    exact costEvent_duration ((List.mem_insertionSort _).mp (List.mem_filter.mp member).1)
  unfold pay at h'
  generalize d.dueEvents h.primitiveSteps = events at h' due
  induction events generalizing h with
  | nil =>
    cases h'
    exact ⟨le_rfl, id⟩
  | cons event events ih =>
    obtain ⟨next, head, rest⟩ := bind_ok.mp h'
    obtain ⟨first, others⟩ := List.forall_mem_cons.mp due
    obtain ⟨later, kept⟩ := ih rest others
    simp only [payEvent, bind_ok, require_ok, pure_ok] at head
    obtain ⟨state, charged, -, inTime, rfl⟩ := head
    obtain ⟨resources, spent, checkpoints, -, -, -, same⟩ := initialState_ok charged
    have elapsed : state.elapsed = str (F h.state.elapsed + F event.duration) :=
      same.field (·.elapsed) fun _ => rfl
    have forward : F h.state.elapsed ≤ F state.elapsed := by
      rw [elapsed, F_str]
      exact le_add_of_nonneg_right first
    exact ⟨forward.trans later, fun _ => kept inTime⟩

theorem moved_later {h next : EpistemicHypothesis} {actionId : Identifier} {recipe : GrowthAction}
    {effect : GrowthSuccessor} (named : d.recipes[actionId]? = some recipe)
    (h' : d.moved h recipe effect = .ok next) : F h.state.elapsed < F next.state.elapsed ∧
      F next.state.elapsed ≤ F d.contract.spec.deadline ∧
      h.primitiveSteps < d.contract.spec.maxDecisions := by
  have facts := validateContract_ok hash.toHashing (validate_ok d.valid).1
  simp only [moved, bind_ok, require_ok] at h'
  obtain ⟨after, stepped, -, room, paid⟩ := h'
  have step : Steps hash.toHashing d.contract d.objects d.frontier h.state ⟨recipe, effect⟩ after :=
    ⟨recipe_listed named, stepped⟩
  obtain ⟨later, kept⟩ := pay_later paid
  exact ⟨(step.elapsed_lt facts).trans_le later, kept step.elapsed_le_deadline, room⟩

theorem ShownStep.later {h next : EpistemicHypothesis} {actionId symbol : Identifier}
    (step : d.ShownStep h actionId symbol next) : F h.state.elapsed < F next.state.elapsed ∧
      F next.state.elapsed ≤ F d.contract.spec.deadline ∧ next.entry = h.entry ∧
      next.primitiveSteps = h.primitiveSteps + 1 ∧
      h.primitiveSteps < d.contract.spec.maxDecisions := by
  obtain ⟨effect, raw, ⟨recipe, row, named, -, -, stepped, -⟩, -⟩ := step
  obtain ⟨later, inTime, room⟩ := moved_later named stepped
  obtain ⟨-, -, -, entry, steps⟩ := moved_ok stepped
  exact ⟨later, inTime, entry, steps, room⟩

theorem bounded_origin {values : List EpistemicHypothesis} {support : Support}
    (h : d.bounded values = .ok support) {y : EpistemicHypothesis} (member : y ∈ support) :
    ∃ g ∈ values, g.canonical = y := by
  obtain ⟨-, rfl, -⟩ := bounded_ok.mp h
  obtain ⟨key, found⟩ := Dict.mem_values.mp member
  obtain ⟨g, listed, rfl⟩ := List.mem_map.mp (unique_getElem? found).1
  exact ⟨g, listed, rfl⟩

theorem markEntry_origin {support entered : Support} {comparisons : List GrowthComparison}
    (h : d.markEntry support comparisons = .ok entered) {y : EpistemicHypothesis}
    (member : y ∈ entered) : ∃ g ∈ support, (marked g).canonical = y := by
  obtain ⟨-, -, fits⟩ := markEntry_ok.mp h
  obtain ⟨entered, listed, rfl⟩ := bounded_origin fits member
  obtain ⟨g, inSupport, rfl⟩ := List.mem_map.mp listed
  exact ⟨g, inSupport, rfl⟩

section advance
variable {support : Support} {actionId : Identifier} {branches : List (Identifier × Support)}

theorem advance_origin (h : d.advance support actionId = .ok branches) {b : Identifier × Support}
    (branch : b ∈ branches) {y : EpistemicHypothesis} (member : y ∈ b.2) :
    ∃ g ∈ support, d.ShownStep g actionId b.1 y := by
  obtain ⟨recipe, lists, chosen, each, grouped⟩ := advance_ok.mp h
  have distinct : (branches.map Prod.fst).Nodup := by
    rw [branches_keys grouped]
    exact Dict.nodup_toList _
  obtain ⟨-, fits⟩ := (lookup_branches grouped).mp (lookup_of_mem distinct branch)
  obtain ⟨x, listed, rfl⟩ := bounded_origin fits member
  obtain ⟨g, inSupport, effect, raw, stepped, mapped⟩ :=
    (mem_arrived chosen each).mp (mem_arrivedWith.mp listed)
  have step : d.ShownStep g actionId b.1 x := ⟨effect, raw, stepped, mapped⟩
  exact ⟨g, inSupport, step.admitted.canonical.symm ▸ step⟩

theorem advance_moves (h : d.advance support actionId = .ok branches) {g : EpistemicHypothesis}
    (member : g ∈ support) : ∃ symbol next, d.ShownStep g actionId symbol next := by
  obtain ⟨recipe, lists, chosen, each, -⟩ := advance_ok.mp h
  obtain ⟨-, named, -⟩ := chosenRecipe_ok.mp chosen
  obtain ⟨list, -, answered⟩ := forall₂_mem_left each g member
  simp only [answers, bind_ok, mapM_ok] at answered
  obtain ⟨effects, options, arrived⟩ := answered
  obtain ⟨models, -, some', rfl⟩ := hiddenOptions_ok.mp options
  obtain ⟨effect, declared⟩ := List.exists_mem_of_ne_nil _ some'
  obtain ⟨inner, -, shown⟩ := forall₂_mem_left arrived effect declared
  obtain ⟨next, row, stepped, found, symbols⟩ := arrivals_ok.mp shown
  obtain ⟨raw, inRow⟩ := List.exists_mem_of_ne_nil _ (row_shown found)
  obtain ⟨p, -, mapped, -⟩ := forall₂_mem_left symbols raw inRow
  obtain ⟨inCatalogue, theta, only, applies⟩ := mem_successors.mp declared
  rw [models, List.mem_singleton] at only
  subst only
  exact ⟨p.1, next, effect, raw,
    ⟨recipe, row, named, inCatalogue, applies, stepped, found, inRow⟩, mapped⟩

theorem advance_some (h : d.advance support actionId = .ok branches) : support ≠ [] := by
  obtain ⟨recipe, -, chosen, -⟩ := advance_ok.mp h
  exact (chosenRecipe_ok.mp chosen).1

end advance

def Taken (n : ℕ) (support : Support) : Prop := ∀ h ∈ support, h.primitiveSteps = n

theorem Taken.entered {n : ℕ} {support entered : Support} {comparisons : List GrowthComparison}
    (taken : Taken n support) (h : d.markEntry support comparisons = .ok entered) :
    Taken n entered := by
  intro y member
  obtain ⟨g, listed, rfl⟩ := markEntry_origin h member
  exact taken g listed

theorem Taken.branch {n : ℕ} {support : Support} {actionId : Identifier}
    {branches : List (Identifier × Support)} (taken : Taken n support)
    (h : d.advance support actionId = .ok branches) {b : Identifier × Support} (branch : b ∈ branches) :
    Taken (n + 1) b.2 := by
  intro y member
  obtain ⟨g, listed, stepped⟩ := advance_origin h branch member
  rw [stepped.later.2.2.2.1, taken g listed]

theorem Taken.room {n : ℕ} {support : Support} {actionId : Identifier}
    {branches : List (Identifier × Support)} (taken : Taken n support)
    (h : d.advance support actionId = .ok branches) : n < d.contract.spec.maxDecisions := by
  obtain ⟨g, listed⟩ := List.exists_mem_of_ne_nil _ (advance_some h)
  obtain ⟨symbol, y, stepped⟩ := advance_moves h listed
  exact taken g listed ▸ stepped.later.2.2.2.2

theorem replayFrom_taken {basisAt : ℕ → Checked (List GrowthComparison)}
    {comparisons : List GrowthComparison} : ∀ {history : List EpistemicStep} {index : ℕ}
    {support final : Support}, Taken index support → index ≤ d.contract.spec.maxDecisions →
    d.replayFrom basisAt comparisons index history support = .ok final →
    Taken (index + history.length) final ∧
      index + history.length ≤ d.contract.spec.maxDecisions := by
  intro history
  induction history with
  | nil =>
    intro index support final taken room h
    cases h
    exact ⟨taken, room⟩
  | cons step history ih =>
    intro index support final taken _ h
    obtain ⟨next, head, rest⟩ := bind_ok.mp h
    simp only [replayStep, bind_ok] at head
    obtain ⟨-, -, entered, entry, branches, advanced, shown⟩ := head
    have taken' : Taken index entered := by
      rcases entryStep_ok entry with ⟨-, rfl⟩ | ⟨-, basis, -, marking⟩
      · exact taken
      · exact taken.entered marking
    have after : Taken (index + 1) next := by
      unfold observed at shown
      split at shown
      case h_2 => cases shown
      case h_1 support' found =>
        cases pure_ok.mp shown
        exact taken'.branch advanced (mem_of_lookup found)
    rw [List.length_cons, Nat.add_comm history.length, ← Nat.add_assoc]
    exact ih after (taken'.room advanced) rest

theorem replayWith_taken {basisAt : ℕ → Checked (List GrowthComparison)}
    {comparisons : List GrowthComparison} {history : List EpistemicStep} {final : Support}
    (h : d.replayWith basisAt comparisons history = .ok final) : Taken history.length final ∧
      history.length ≤ d.epistemic.spec.maxHistory ∧
      history.length ≤ d.contract.spec.maxDecisions := by
  simp only [replayWith, bind_ok, require_ok] at h
  obtain ⟨-, short, first, opened, rest⟩ := h
  have taken : Taken 0 first := by
    simp only [initial, bind_ok, mapM_ok] at opened
    obtain ⟨start, prepaidStart, paid, each, fits⟩ := opened
    intro y member
    obtain ⟨g, listed, rfl⟩ := bounded_origin fits member
    obtain ⟨theta, inModels, due⟩ := forall₂_mem_right each g listed
    have opens : d.Opens theta g :=
      ⟨start, prepaidStart, (List.mem_insertionSort _).mp inModels, due⟩
    exact opens.admitted.2.2.2.2
  obtain ⟨taken', room⟩ := replayFrom_taken taken (Nat.zero_le _) rest
  rw [Nat.zero_add] at taken' room
  exact ⟨taken', short, room⟩

end Domain

end CollectivePhaseControl
