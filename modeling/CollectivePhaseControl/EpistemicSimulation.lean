import CollectivePhaseControl.EpistemicPlays

/-! A finer channel can do what a coarser one does. The finer one splits every support, and
each part carries the policy that the coarse support carries: entry decisions, applicable
actions and limits pass to parts of a support, and at a support where a policy acts no part
is at its end. -/
namespace CollectivePhaseControl

variable {hash : EpistemicHashing}

namespace Domain
variable {d : Domain hash} {roots : EpistemicHypothesis → Prop}

/-- The same inputs under a coarser channel: its symbols are `f` of the finer ones. -/
structure Coarsens (fine coarse : Domain hash) (f : Identifier → Identifier) : Prop where
  inputs : coarse.toDomainInputs =
    { fine.toDomainInputs with observationMap := coarse.observationMap }
  shown : ∀ raw : Identifier, coarse.observationMap[raw]? = fine.observationMap[raw]?.map f

def observing (d : Domain hash) (channel : Dict Identifier)
    (valid : { d.toDomainInputs with observationMap := channel }.validate hash =
      .ok (d.recipes, d.kernel)) : Domain hash :=
  ⟨{ d.toDomainInputs with observationMap := channel }, d.recipes, d.kernel, valid⟩

theorem Coarsens.form {fine coarse : Domain hash} {f : Identifier → Identifier}
    (coarsens : fine.Coarsens coarse f) : ∃ channel valid, coarse = fine.observing channel valid := by
  obtain ⟨inputs, recipes, kernel, valid⟩ := coarse
  have same : inputs = { fine.toDomainInputs with observationMap := inputs.observationMap } :=
    coarsens.inputs
  clear coarsens
  generalize inputs.observationMap = channel at same
  subst same
  obtain ⟨-, ⟨named, catalogue, byName⟩, rows⟩ := validate_ok valid
  obtain ⟨-, ⟨named', catalogue', byName'⟩, rows'⟩ := validate_ok fine.valid
  cases catalogue.symm.trans catalogue'
  cases rows.symm.trans rows'
  cases byName.symm.trans byName'
  exact ⟨channel, valid, rfl⟩

theorem tracked_observing {channel : Dict Identifier} {valid}
    {h : EpistemicHypothesis} :
    (d.observing channel valid).Tracked roots h ↔ d.Tracked roots h := by
  constructor
  · intro tracked
    induction tracked with
    | root start => exact .root start
    | entered _ ih => exact .entered ih
    | moved _ named stepped ih => exact .moved ih named stepped
  · intro tracked
    induction tracked with
    | root start => exact .root start
    | entered _ ih => exact .entered ih
    | moved _ named stepped ih => exact .moved ih named stepped

theorem Fits.part {support part : Support} (fits : d.Fits support) (some' : part ≠ [])
    (distinct : part.Nodup) (within : part ⊆ support) : d.Fits part := by
  obtain ⟨rest, same, inside⟩ := List.subperm_of_subset distinct within
  have count : part.length ≤ support.length := same.length_eq ▸ inside.length_le
  have sizes : (part.map hash.size).sum ≤ (support.map hash.size).sum := by
    rw [← (same.map hash.size).sum_eq]
    exact (inside.map hash.size).sum_le_sum fun _ _ => Nat.zero_le _
  refine ⟨some', count.trans fits.count, le_trans ?_ fits.bytes⟩
  unfold supportBytes
  omega

theorem bounded_part (free : d.CollisionFree roots) {values part : List EpistemicHypothesis}
    {support : Support} (tracked : ∀ h ∈ values, d.Tracked roots h.canonical)
    (h : d.bounded values = .ok support) (some' : part ≠ []) (within : part ⊆ values) :
    ∃ kept, d.bounded part = .ok kept ∧ kept ⊆ support := by
  have tracked' : ∀ h ∈ part, d.Tracked roots h.canonical := fun h member =>
    tracked h (within member)
  obtain ⟨accepted, -, fits⟩ := bounded_ok.mp h
  let kept := (unique hash (part.map (·.canonical))).values
  have inKept : ∀ y, y ∈ kept ↔ ∃ h ∈ part, h.canonical = y := by
    intro y
    rw [mem_values_unique, List.mem_map]
    intro g listed h listed' same
    obtain ⟨g, inPart, rfl⟩ := List.mem_map.mp listed
    obtain ⟨h, inPart', rfl⟩ := List.mem_map.mp listed'
    exact free _ _ (tracked' g inPart) (tracked' h inPart') same
  have inside : kept ⊆ support := by
    intro y member
    obtain ⟨g, inPart, rfl⟩ := (inKept y).mp member
    exact (mem_bounded free tracked h).mpr ⟨g, within inPart, rfl⟩
  have nonempty : kept ≠ [] := by
    obtain ⟨g, inPart⟩ := List.exists_mem_of_ne_nil _ some'
    exact List.ne_nil_of_mem ((inKept _).mpr ⟨g, inPart, rfl⟩)
  have distinct : kept.Nodup := List.Nodup.of_map _ nodup_values_unique
  exact ⟨kept, bounded_ok.mpr ⟨fun h member => accepted h (within member), rfl,
    fits.part nonempty distinct inside⟩, inside⟩

def Admits (d : Domain hash) (comparisons others : List GrowthComparison) : Prop :=
  ∀ s, entryAllowed d.contract.spec others s = .ok true →
    entryAllowed d.contract.spec comparisons s = .ok true

theorem markEntry_part (free : d.CollisionFree roots) {support part entered : Support}
    {comparisons others : List GrowthComparison} (admits : d.Admits comparisons others)
    (tracked : ∀ h ∈ support, d.Tracked roots h)
    (h : d.markEntry support others = .ok entered) (some' : part ≠ []) (within : part ⊆ support) :
    ∃ kept, d.markEntry part comparisons = .ok kept ∧ kept ⊆ entered := by
  obtain ⟨-, gate, fits⟩ := markEntry_ok.mp h
  have marks : ∀ g ∈ support.map marked, d.Tracked roots g.canonical := by
    intro g member
    obtain ⟨h, listed, rfl⟩ := List.mem_map.mp member
    exact .entered (tracked h listed)
  have nonempty : part.map marked ≠ [] := by simpa using some'
  obtain ⟨kept, fits', inside⟩ := bounded_part free marks fits nonempty (List.map_subset _ within)
  exact ⟨kept, markEntry_ok.mpr ⟨some', fun h member =>
    (gate h (within member)).imp_right (admits h.state), fits'⟩, inside⟩

section finer
variable {channel : Dict Identifier} {valid} {f : Identifier → Identifier}

theorem answers_finer (shown : ∀ raw : Identifier, channel[raw]? = d.observationMap[raw]?.map f)
    {recipe : GrowthAction} {h : EpistemicHypothesis}
    {list : List (List (Identifier × EpistemicHypothesis))}
    (answered : (d.observing channel valid).answers recipe h = .ok list) :
    ∃ list', d.answers recipe h = .ok list' := by
  simp only [answers, bind_ok] at answered
  obtain ⟨effects, options, arrived⟩ := answered
  have each : ∀ effect ∈ effects, ∃ list', d.arrivals h recipe effect = .ok list' := by
    intro effect declared
    obtain ⟨list', -, arrival⟩ := forall₂_mem_left (mapM_ok.mp arrived) effect declared
    obtain ⟨next, row, stepped, found, symbols⟩ := arrivals_ok.mp arrival
    have seen : ∀ raw ∈ row, ∃ p : Identifier × EpistemicHypothesis,
        d.observationMap[raw]? = some p.1 ∧ p.2 = next := by
      intro raw listed
      obtain ⟨p, -, mapped, -⟩ := forall₂_mem_left symbols raw listed
      have mapped : channel[raw]? = some p.1 := mapped
      rw [shown] at mapped
      obtain ⟨symbol, visible, -⟩ := Option.map_eq_some_iff.mp mapped
      exact ⟨(symbol, next), visible, rfl⟩
    obtain ⟨list', symbols'⟩ := exists_forall₂ seen
    exact ⟨list', arrivals_ok.mpr ⟨next, row, stepped, found, symbols'⟩⟩
  obtain ⟨lists, all⟩ := mapM_total each
  refine ⟨lists, ?_⟩
  simp only [answers, bind_ok]
  exact ⟨effects, options, all⟩

/-- Where an action is taken at a support, it can be taken at every part of it under a finer
channel, and every branch is part of the coarser one. -/
theorem advance_finer (free : d.CollisionFree roots)
    (shown : ∀ raw : Identifier, channel[raw]? = d.observationMap[raw]?.map f)
    {support part : Support} (tracked : ∀ h ∈ support, d.Tracked roots h) {actionId : Identifier}
    {branches : List (Identifier × Support)}
    (h : (d.observing channel valid).advance support actionId = .ok branches) (some' : part ≠ [])
    (within : part ⊆ support) :
    ∃ branches', d.advance part actionId = .ok branches' ∧
      ∀ b ∈ branches', ∃ next, (f b.1, next) ∈ branches ∧ b.2 ⊆ next ∧ b.2 ≠ [] := by
  obtain ⟨recipe, lists, chosen, each, grouped⟩ := advance_ok.mp h
  have chosen' : d.chosenRecipe part actionId = .ok recipe := by
    obtain ⟨-, allowed⟩ := chosenRecipe_ok.mp chosen
    exact chosenRecipe_ok.mpr ⟨some', allowed⟩
  have total : ∀ h ∈ part, ∃ list', d.answers recipe h = .ok list' := by
    intro h member
    obtain ⟨list, -, answered⟩ := forall₂_mem_left each h (within member)
    exact answers_finer shown answered
  obtain ⟨lists', each'⟩ := exists_forall₂ total
  have arrivedPart : ∀ symbol, arrivedWith lists'.flatten.flatten symbol ⊆
      arrivedWith lists.flatten.flatten (f symbol) := by
    intro symbol y member
    obtain ⟨g, listed, effect, raw, stepped, mapped⟩ :=
      (mem_arrived chosen' each').mp (mem_arrivedWith.mp member)
    refine mem_arrivedWith.mpr ((mem_arrived chosen each).mpr ⟨g, within listed, effect, raw,
      stepped, ?_⟩)
    change channel[raw]? = some (f symbol)
    rw [shown, mapped]
    rfl
  have arrivals : ∀ symbol, ∀ y ∈ arrivedWith lists.flatten.flatten symbol,
      d.Tracked roots y.canonical := by
    intro symbol y member
    obtain ⟨g, listed, effect, raw, stepped, mapped⟩ :=
      (mem_arrived chosen each).mp (mem_arrivedWith.mp member)
    have step : (d.observing channel valid).ShownStep g actionId symbol y :=
      ⟨effect, raw, stepped, mapped⟩
    have normal : y.canonical = y := step.admitted.canonical
    rw [normal]
    exact tracked_observing.mp (step.tracked (tracked_observing.mpr (tracked g listed)))
  have kept : ∀ group ∈ (groups lists'.flatten.flatten).toList, ∃ b : Identifier × Support,
      (d.bounded group.2 = .ok b.2 ∧ group.1 = b.1) ∧
        ∃ next, (f b.1, next) ∈ branches ∧ b.2 ⊆ next ∧ b.2 ≠ [] := by
    rintro ⟨symbol, values⟩ listed
    rw [Std.ExtTreeMap.mem_toList_iff_getElem?_eq_some, groups_getElem?] at listed
    split at listed
    case isTrue => exact nomatch listed
    case isFalse nonempty =>
      cases listed
      obtain ⟨y, member⟩ := List.exists_mem_of_ne_nil _ nonempty
      obtain ⟨g, inSupport, step⟩ := (mem_arrived chosen each).mp
        (mem_arrivedWith.mp (arrivedPart symbol member))
      obtain ⟨next, found⟩ := advance_shown h inSupport step
      obtain ⟨-, fits⟩ := (lookup_branches grouped).mp found
      obtain ⟨part', fits', inside⟩ := bounded_part free (arrivals (f symbol)) fits nonempty
        (arrivedPart symbol)
      exact ⟨(symbol, part'), ⟨fits', rfl⟩, next, mem_of_lookup found, inside,
        (bounded_ok.mp fits').2.2.some'⟩
  obtain ⟨branches', both⟩ := exists_forall₂ kept
  refine ⟨branches', advance_ok.mpr ⟨recipe, lists', chosen', each',
    branches_ok.mpr (both.imp fun _ _ holds => holds.1)⟩, fun b branch => ?_⟩
  obtain ⟨group, -, -, coarser⟩ := forall₂_mem_right both b branch
  exact coarser

end finer

theorem terminal_ok {support : Support} {endpoint : Option ℚ} :
    d.terminal support endpoint = .ok true ↔ support ≠ [] ∧ ∀ h ∈ support,
      CollectivePhaseControl.terminal d.contract.spec endpoint h.state h.entry = .ok true := by
  unfold terminal
  split
  case isTrue nothing => simp [nothing, pure, Except.pure]
  case isFalse some' => simp [allM_ok, some']

end Domain

namespace PolicySearch

theorem running_inTime {x : PolicySearch hash} {support : Support} (some' : support ≠ [])
    (inTime : ∀ h ∈ support, F h.state.elapsed < x.stop h) :
    x.domain.terminal support x.endpoint = .ok false := by
  obtain ⟨h, rest, rfl⟩ := List.exists_cons_of_ne_nil some'
  have early := inTime h List.mem_cons_self
  have here : CollectivePhaseControl.terminal x.domain.contract.spec x.endpoint h.state h.entry =
      .ok false := by
    unfold stop at early
    generalize x.endpoint = endpoint at early
    generalize h.entry = entry at early
    cases endpoint with
    | some time => exact congrArg Except.ok (decide_eq_false (ne_of_lt early))
    | none =>
      cases entry with
      | none => rfl
      | some p => exact if_neg (ne_of_lt early)
  rw [Domain.terminal, if_neg some', List.allM, here]
  rfl

def observing (x : PolicySearch hash) (channel : Dict Identifier)
    (valid : { x.domain.toDomainInputs with observationMap := channel }.validate hash =
      .ok (x.domain.recipes, x.domain.kernel)) (others : List GrowthComparison) :
    PolicySearch hash :=
  { x with domain := x.domain.observing channel valid, comparisons := others }

section finer
variable {x : PolicySearch hash} {roots : EpistemicHypothesis → Prop} {channel : Dict Identifier}
  {valid} {f : Identifier → Identifier} {others : List GrowthComparison}

theorem Selects.part (free : x.domain.CollisionFree roots)
    (admits : x.domain.Admits x.comparisons others) {support part selected : Support}
    {entry : Bool} (tracked : ∀ h ∈ support, x.domain.Tracked roots h)
    (selects : (x.observing channel valid others).Selects support entry selected) (some' : part ≠ [])
    (within : part ⊆ support) : ∃ selected', x.Selects part entry selected' ∧
      selected' ⊆ selected ∧ selected' ≠ [] := by
  rcases selects with ⟨rfl, rfl⟩ | ⟨rfl, free', unmarked, marking⟩
  · exact ⟨part, .inl ⟨rfl, rfl⟩, within, some'⟩
  · have marking : x.domain.markEntry support others = .ok selected := marking
    obtain ⟨kept, marked, inside⟩ := Domain.markEntry_part free admits tracked marking some' within
    obtain ⟨-, -, fits⟩ := Domain.markEntry_ok.mp marked
    exact ⟨kept, .inr ⟨rfl, free', fun h member => unmarked h (within member), marked⟩, inside,
      (Domain.bounded_ok.mp fits).2.2.some'⟩

def SamePlays (d c : Domain hash) (part : Support) (q p : EpistemicPolicyNode) : Prop :=
  ∀ h ∈ part, ∀ acts choice final, c.Plays p h acts choice final ↔ d.Plays q h acts choice final

/-- Every policy of the coarser channel has one of the finer channel, at every part of its
support, with the same plays. -/
theorem feasible_finer (free : x.domain.CollisionFree roots)
    (admits : x.domain.Admits x.comparisons others)
    (shown : ∀ raw : Identifier, channel[raw]? = x.domain.observationMap[raw]?.map f) :
    ∀ {left depth : ℕ} {support part : Support} {p : Policy},
    (x.observing channel valid others).Feasible left depth support p →
    (∀ h ∈ support, x.domain.Tracked roots h) → part ≠ [] → part ⊆ support →
    ∃ q, x.Feasible left depth part q ∧
      SamePlays x.domain (x.observing channel valid others).domain part q.node p.node := by
  have stopping : ∀ {support part : Support} {p : Policy},
      (x.observing channel valid others).Stops support p → part ≠ [] → part ⊆ support →
      x.Stops part (leafPolicy hash part) ∧ SamePlays x.domain (x.observing channel valid others).domain
        part (leafPolicy hash part).node p.node := by
    rintro support part p ⟨ended, rfl⟩ some' within
    obtain ⟨-, each⟩ := Domain.terminal_ok.mp ended
    refine ⟨⟨Domain.terminal_ok.mpr ⟨some', fun h member => each h (within member)⟩, rfl⟩, ?_⟩
    intro h _ acts choice final
    rw [Domain.plays_stopped rfl, Domain.plays_stopped rfl]
    rfl
  intro left
  induction left with
  | zero =>
    intro depth support part p feasible _ some' within
    obtain ⟨stops, same⟩ := stopping feasible some' within
    exact ⟨_, stops, same⟩
  | succ left ih =>
    rintro depth support part p (stops | ⟨undecided, entry, selected, actionId, selects, branches,
      children, advanced, each, rfl⟩) tracked some' within
    · obtain ⟨stops', same⟩ := stopping stops some' within
      exact ⟨_, .inl stops', same⟩
    · have inTime : ∀ h ∈ part, F h.state.elapsed < x.stop h := fun h member =>
        undecided.inTime h (within member)
      have undecided' : x.Undecided depth part :=
        ⟨running_inTime some' inTime, undecided.decisions, undecided.limit, inTime⟩
      obtain ⟨selected', selects', inside, nonempty⟩ := selects.part free admits tracked some' within
      have freeC : (x.observing channel valid others).domain.CollisionFree roots :=
        fun g h reached reached' =>
        free g h (Domain.tracked_observing.mp reached) (Domain.tracked_observing.mp reached')
      have trackedC : ∀ h ∈ selected, (x.observing channel valid others).domain.Tracked roots h :=
        selects.tracked freeC fun h member => Domain.tracked_observing.mpr (tracked h member)
      have trackedSelected : ∀ h ∈ selected, x.domain.Tracked roots h := fun h member =>
        Domain.tracked_observing.mp (trackedC h member)
      obtain ⟨branches', advanced', parts⟩ :=
        Domain.advance_finer free shown trackedSelected advanced nonempty inside
      let p := decisionPolicy hash support actionId entry branches children
      have named := decision_children hash support entry actionId (Domain.advance_nodup advanced) each
      have chosen : ∀ b ∈ branches', ∃ q : Policy, x.Feasible left (depth + 1) b.2 q ∧
          ∃ child : Policy, p.node.branches.lookup (f b.1) = some child.node ∧
            SamePlays x.domain (x.observing channel valid others).domain b.2 q.node child.node := by
        intro b branch
        obtain ⟨next, coarser, within', some''⟩ := parts b branch
        obtain ⟨child, -, feasible, found⟩ := forall₂_mem_left named _ coarser
        have trackedNext : ∀ h ∈ next, x.domain.Tracked roots h := fun h member =>
          Domain.tracked_observing.mp (branch_tracked freeC trackedC advanced coarser h member)
        obtain ⟨q, feasible', same⟩ := ih feasible trackedNext some'' within'
        exact ⟨q, feasible', child, found, same⟩
      obtain ⟨children', both⟩ := exists_forall₂ chosen
      let q := decisionPolicy hash part actionId entry branches' children'
      have named' := decision_children hash part entry actionId (Domain.advance_nodup advanced') both
      refine ⟨q, .inr ⟨undecided', entry, selected', actionId, selects', branches', children',
        advanced', both.imp fun _ _ holds => holds.1, rfl⟩, fun h member acts choice final => ?_⟩
      cases acts with
      | nil =>
        rw [Domain.plays_nil, Domain.plays_nil]
        rfl
      | cons act acts =>
        -- Whatever a hidden step shows, both policies go on alike from there.
        have follows : ∀ {effect raw symbol next},
            x.domain.HiddenStep (withEntry entry h) actionId effect raw next →
            x.domain.observationMap[raw]? = some symbol → ∃ child child' : Policy,
              p.node.branches.lookup (f symbol) = some child.node ∧
              q.node.branches.lookup symbol = some child'.node ∧
              ((x.observing channel valid others).domain.Plays child.node next acts choice final ↔
                x.domain.Plays child'.node next acts choice final) := by
          intro effect raw symbol next stepped mapped
          have inSelected := (selects'.mem free fun h inPart => tracked h (within inPart)).mpr
            ⟨h, member, rfl⟩
          have trackedPart : ∀ h ∈ selected', x.domain.Tracked roots h := fun h listed =>
            trackedSelected h (inside listed)
          have step : x.domain.ShownStep (withEntry entry h) actionId symbol next :=
            ⟨effect, raw, stepped, mapped⟩
          obtain ⟨next', found⟩ := Domain.advance_shown advanced' inSelected step
          obtain ⟨child', -, ⟨-, child, looked, same⟩, looked'⟩ :=
            forall₂_mem_left named' _ (mem_of_lookup found)
          have inNext : next ∈ next' :=
            (Domain.advance_support free trackedPart advanced' found).mpr ⟨_, inSelected, step⟩
          exact ⟨child, child', looked, looked', same next inNext acts choice final⟩
        rw [Domain.plays_cons, Domain.plays_cons]
        constructor
        · rintro ⟨⟨node, next⟩, ⟨acting, entering, stepped, symbol, mapped, found⟩, play⟩
          cases acting
          cases entering
          have mapped : channel[act.raw]? = some symbol := mapped
          rw [shown] at mapped
          obtain ⟨symbol', visible, rfl⟩ := Option.map_eq_some_iff.mp mapped
          obtain ⟨child, child', looked, looked', same⟩ := follows stepped visible
          cases found.symm.trans looked
          exact ⟨⟨child'.node, next⟩, ⟨rfl, rfl, stepped, symbol', visible, looked'⟩, same.mp play⟩
        · rintro ⟨⟨node, next⟩, ⟨acting, entering, stepped, symbol, visible, found⟩, play⟩
          cases acting
          cases entering
          obtain ⟨child, child', looked, looked', same⟩ := follows stepped visible
          cases found.symm.trans looked'
          have mapped : channel[act.raw]? = some (f symbol) := by
            rw [shown, visible]
            rfl
          exact ⟨⟨child.node, next⟩, ⟨rfl, rfl, stepped, f symbol, mapped, looked⟩, same.mpr play⟩

end finer

end PolicySearch

/-- Under a coarser channel, with the comparisons that gate entry held fixed, every policy that
the search returns has a policy feasible under the finer channel with the same plays and the
same leaves; so a complete search under the finer channel finds an objective no worse. -/
theorem coarse_simulated {fine coarse : Domain hash} {f : Identifier → Identifier}
    (coarsens : fine.Coarsens coarse f) (comparisons : List GrowthComparison)
    (endpoint : Option ℚ) (support : Support) (depth : ℕ)
    (free : fine.CollisionFree (· ∈ support)) (apart : coarse.SupportsApart (· = support))
    (apart' : fine.SupportsApart (· = support)) (policies : List Policy) (σ : PolicyState)
    (searched : runFrom (PolicySearch.enumerate ⟨coarse, comparisons, endpoint⟩ support depth)
      .fresh = .ok (policies, σ)) :
    (∀ p ∈ policies, ∃ q,
      PolicySearch.Feasible ⟨fine, comparisons, endpoint⟩
        (fine.contract.spec.maxDecisions - depth) depth support q ∧
      PolicySearch.SamePlays fine coarse support q.node p.node ∧
      ∀ h, h ∈ p.leaves ↔ h ∈ q.leaves) ∧
    ∀ policies' τ, runFrom (PolicySearch.enumerate ⟨fine, comparisons, endpoint⟩ support depth)
        .fresh = .ok (policies', τ) → τ.budget.complete = true →
      ∀ best best', coarse.bestPolicy policies = .ok (some best) →
        fine.bestPolicy policies' = .ok best' →
        ∃ b key key', best' = some b ∧ coarse.policyOrder best = .ok key ∧
          fine.policyOrder b = .ok key' ∧ key' ≤ key := by
  obtain ⟨channel, valid, rfl⟩ := coarsens.form
  let x : PolicySearch hash := ⟨fine, comparisons, endpoint⟩
  obtain ⟨sound, -⟩ := (x.observing channel valid comparisons).enumerate_ok apart (.root rfl) searched
  have shown : ∀ raw : Identifier, channel[raw]? = x.domain.observationMap[raw]?.map f :=
    coarsens.shown
  have simulated : ∀ p ∈ policies, ∃ q,
      x.Feasible (fine.contract.spec.maxDecisions - depth) depth support q ∧
      PolicySearch.SamePlays fine (fine.observing channel valid) support q.node p.node ∧
      ∀ h, h ∈ p.leaves ↔ h ∈ q.leaves := by
    intro p listed
    have tracked : ∀ h ∈ support, fine.Tracked (· ∈ support) h := fun h member => .root member
    obtain ⟨q, feasible, same⟩ := PolicySearch.feasible_finer free (fun _ => id) shown
      (sound p listed) tracked (sound p listed).support_ne_nil (List.Subset.refl support)
    refine ⟨q, feasible, same, fun h => ?_⟩
    have freeC : (x.observing channel valid comparisons).domain.CollisionFree (· ∈ support) :=
      fun g h reached reached' =>
        free g h (Domain.tracked_observing.mp reached) (Domain.tracked_observing.mp reached')
    rw [PolicySearch.mem_leaves freeC (sound p listed) fun h member => .root member,
      PolicySearch.mem_leaves free feasible tracked]
    refine exists_congr fun g => and_congr_right fun member => exists_congr fun acts => ?_
    exact same g member acts (false, none) h
  refine ⟨simulated, fun policies' τ searched' complete best best' chosen chosen' => ?_⟩
  obtain ⟨-, full⟩ := x.enumerate_ok apart' (.root rfl) searched'
  obtain ⟨listed, key, ordered, -⟩ := (Domain.bestPolicy_ok chosen).2 best rfl
  obtain ⟨q, feasible, -, leaves⟩ := simulated best listed
  obtain ⟨nothing, least⟩ := Domain.bestPolicy_ok chosen'
  have listed' : q ∈ policies' := full complete q feasible
  cases best' with
  | none =>
    rw [nothing.mp rfl] at listed'
    exact absurd listed' List.not_mem_nil
  | some b =>
    obtain ⟨-, key', ordered', lower⟩ := least b rfl
    obtain ⟨keyQ, orderedQ, le⟩ := lower q listed'
    have same : fine.policyOrder q = .ok key := Domain.policyOrder_congr leaves ordered
    cases orderedQ.symm.trans same
    exact ⟨b, _, key', rfl, ordered, ordered', le⟩

namespace Sample

/-- A channel that shows the same symbol whatever happens. -/
def mute : Dict Identifier := dict [("high", "low"), ("low", "low")]

def mutedDomain : Domain epistemicDigests where
  toDomainInputs := { inputs contract with observationMap := mute }
  recipes := namedRecipes
  kernel := rows
  valid := by decide +kernel

theorem mute_coarsens : domain.Coarsens mutedDomain fun _ => "low" := by
  refine ⟨rfl, fun raw => ?_⟩
  change mute[raw]? = (DomainInputs.identityMap ["high", "low"])[raw]?.map fun _ => "low"
  by_cases high : raw = "high"
  · subst high
    decide
  by_cases low : raw = "low"
  · subst low
    decide
  have absent : ∀ entries : List (Identifier × Identifier), entries.map Prod.fst = ["high", "low"] →
      (Std.ExtTreeMap.ofList entries : Dict Identifier)[raw]? = none := by
    intro entries keys
    refine Std.ExtTreeMap.getElem?_ofList_of_contains_eq_false ?_
    rw [keys]
    simp [high, low]
  rw [mute, dict, DomainInputs.identityMap, absent _ rfl, absent _ rfl]
  rfl

def opened : Support := domain.initial.toOption.getD []

def judged : List GrowthComparison := (domain.compareEpistemic []).toOption.getD []

theorem opened_closed : domain.initial = .ok opened ∧ Closed domain ∧
    ∀ h ∈ opened, h ∈ hypotheses domain := by
  have evaluated : ((hypotheses domain).dedup.map epistemicDigests.hypothesis).Nodup ∧
      (∀ h ∈ (hypotheses domain).dedup,
        (Domain.marked h).canonical ∈ (hypotheses domain).dedup ∧
        ∀ next ∈ movedFrom domain h, next ∈ (hypotheses domain).dedup) ∧
      domain.initial = .ok opened ∧ ∀ h ∈ opened, h ∈ hypotheses domain := by decide +kernel
  obtain ⟨distinct, closed, started, within⟩ := evaluated
  exact ⟨started, closed_of_dedup distinct (fun h listed => (closed h listed).1)
    fun h listed => (closed h listed).2, within⟩

/-- Both searches end, and the coarse one finds a policy. -/
theorem searches_end : SupportsClosed mutedDomain ∧
    (runFrom (PolicySearch.enumerate ⟨mutedDomain, judged, none⟩ opened 0) .fresh
      >>= fun run => Option.isSome <$> mutedDomain.bestPolicy run.1) = .ok true ∧
    (runFrom (PolicySearch.enumerate ⟨domain, judged, none⟩ opened 0) .fresh
      >>= fun run => (fun _ => run.2.budget.complete) <$> domain.bestPolicy run.1) = .ok true := by
  decide +kernel

end Sample

theorem coarse_simulated_sample : ∃ run run' best b key key',
    runFrom (PolicySearch.enumerate ⟨Sample.mutedDomain, Sample.judged, none⟩ Sample.opened 0)
      .fresh = .ok run ∧
    runFrom (PolicySearch.enumerate ⟨Sample.domain, Sample.judged, none⟩ Sample.opened 0)
      .fresh = .ok run' ∧
    Sample.mutedDomain.bestPolicy run.1 = .ok (some best) ∧
    Sample.domain.bestPolicy run'.1 = .ok (some b) ∧
    Sample.mutedDomain.policyOrder best = .ok key ∧ Sample.domain.policyOrder b = .ok key' ∧
    key' ≤ key := by
  obtain ⟨opened, closed, apart⟩ := Sample.opened_closed
  obtain ⟨muted, coarse, fine⟩ := Sample.searches_end
  obtain ⟨⟨policies, σ⟩, searched, chosen⟩ := bind_ok.mp coarse
  obtain ⟨best, chosen, found⟩ := map_ok.mp chosen
  obtain ⟨best, rfl⟩ := Option.isSome_iff_exists.mp found
  obtain ⟨⟨policies', τ⟩, searched', chosen'⟩ := bind_ok.mp fine
  obtain ⟨best', chosen', complete⟩ := map_ok.mp chosen'
  have starts : ∀ s, s = Sample.opened → Sample.domain.initial = .ok s := by
    rintro s rfl
    exact opened
  obtain ⟨-, better⟩ := coarse_simulated Sample.mute_coarsens Sample.judged none Sample.opened 0
    (closed.collisionFree apart)
    (muted.apart.mono starts) (Sample.supportsClosed.apart.mono starts)
    policies σ searched
  obtain ⟨b, key, key', rfl, ordered, ordered', le⟩ :=
    better policies' τ searched' complete best best' chosen chosen'
  exact ⟨_, _, best, b, key, key', searched, searched', chosen, chosen', ordered, ordered', le⟩

end CollectivePhaseControl
