import CollectivePhaseControl.GrowthComparisons

/-! What the enumeration of policy trees computes while no limit stops it: every tree of the
entry game, level by level. The memo only repeats what an earlier call with the same ledger,
depth and entry computed. -/
namespace CollectivePhaseControl

open BudgetedSearch

variable (hash : Hashing)

section plans
variable (x : Search) (recur : GrowthState → Option GrowthCheckpoint → Checked (List Candidate))

def planOptions (s : GrowthState) (recipe : GrowthAction) (selected : Option GrowthCheckpoint)
    (stop : ℚ) : List GrowthSuccessor → Checked (List (List Candidate))
  | [] => pure []
  | effect :: rest => do
    let next ← transition hash x.contract s recipe effect x.objects x.frontier
    let options ← if x.entryStop selected stop < F next.elapsed then pure []
      else recur next selected
    if options.isEmpty then pure [options]
    else do
      let others ← planOptions s recipe selected stop rest
      pure (options :: others)

def planRecipe (s : GrowthState) (digest : Digest) (entry selected : Option GrowthCheckpoint)
    (recipe : GrowthAction) : Checked (List Candidate) := do
  let (action, _) ← applicable hash x.contract s recipe x.objects x.frontier
  let effects := successors s recipe
  require (effects ≠ []) "growth_successor_incomplete"
  let lists ← planOptions hash x recur s recipe selected (x.stop entry) effects
  pure ((product lists).map
    (decision hash digest action.actionId (entry.isNone && selected.isSome) effects))

/-- All decisions at a ledger: which entry to carry on, and which allowed action to take. -/
def planDecisions (s : GrowthState) (digest : Digest) (entry : Option GrowthCheckpoint) :
    Checked (List Candidate) := do
  let entries ← x.selectable s entry
  let recipes ← x.sortedRecipes
  let choices := entries.flatMap fun selected =>
    (x.allowed recipes).map fun p => (selected, p.2)
  gathered (fun choice => planRecipe hash x recur s digest entry choice.1 choice.2) choices

def planStep (remaining : ℕ) (s : GrowthState) (entry : Option GrowthCheckpoint) :
    Checked (List Candidate) := do
  let digest ← stateDigest hash s
  if ← terminal x.contract.spec x.endpoint s entry then pure [leaf digest s entry]
  else if x.stop entry ≤ F s.elapsed ∨ remaining = 0 then pure []
  else planDecisions hash x recur s digest entry

end plans

def plans (x : Search) : ℕ → GrowthState → Option GrowthCheckpoint → Checked (List Candidate)
  | 0 => planStep hash x (fun _ _ => pure []) 0
  | remaining + 1 => planStep hash x (plans x remaining) (remaining + 1)

variable {hash} {x : Search}

def Entered (hash : Hashing) (x : Search) (entry : Option GrowthCheckpoint) : Prop :=
  ∀ p ∈ entry, ∃ t, Reachable hash x.contract x.objects x.frontier t ∧
    p = ⟨t.elapsed, t.capacities⟩

theorem entered_none : Entered hash x none := fun _ impossible => nomatch impossible

theorem entered_here {s : GrowthState}
    (reachable : Reachable hash x.contract x.objects x.frontier s) :
    Entered hash x (some ⟨s.elapsed, s.capacities⟩) := by
  rintro p ⟨⟩
  exact ⟨s, reachable, rfl⟩

theorem Entered.eq_of_digest (free : CollisionFree hash x.contract x.objects x.frontier)
    {a b : Option GrowthCheckpoint} (first : Entered hash x a) (second : Entered hash x b)
    (same : a.map hash.checkpoint = b.map hash.checkpoint) : a = b := by
  cases a with
  | none =>
    cases b with
    | none => rfl
    | some q => exact nomatch same
  | some p =>
    cases b with
    | none => exact nomatch same
    | some q =>
      obtain ⟨s, reached, rfl⟩ := first p rfl
      obtain ⟨t, reached', rfl⟩ := second q rfl
      rw [free.checkpoint s t reached reached' (Option.some.inj same)]

/-- Stored options are those of every reachable ledger and entry that have the key. -/
def EnumerationSound (hash : Hashing) (x : Search) (σ : SearchState) : Prop :=
  ∀ key found, (key, found) ∈ σ.memo → ∀ remaining ≤ x.contract.spec.maxDecisions, ∀ s entry,
    Reachable hash x.contract x.objects x.frontier s → Entered hash x entry →
    key = (hash.state s, x.contract.spec.maxDecisions - remaining, entry.map hash.checkpoint) →
    plans hash x remaining s entry = .ok found

theorem enumerationSound_blind : Blind (EnumerationSound hash x) := fun _ _ _ sound => sound

theorem selectable_entered {s : GrowthState} {entry selected : Option GrowthCheckpoint}
    {entries : List (Option GrowthCheckpoint)}
    (reachable : Reachable hash x.contract x.objects x.frontier s) (taken : Entered hash x entry)
    (h : x.selectable s entry = .ok entries) (member : selected ∈ entries) :
    Entered hash x selected := by
  unfold Search.selectable at h
  split at h
  case isFalse =>
    cases pure_ok.mp h
    cases List.mem_singleton.mp member
    exact taken
  case isTrue =>
    simp only [bind_ok] at h
    obtain ⟨allowed, -, h⟩ := h
    cases allowed with
    | false =>
      cases pure_ok.mp h
      cases List.mem_singleton.mp member
      exact taken
    | true =>
      cases pure_ok.mp h
      rcases List.mem_cons.mp member with rfl | member
      · exact taken
      · cases List.mem_singleton.mp member
        exact entered_here reachable

section computes
variable {recur : GrowthState → Option GrowthCheckpoint → SearchM (List Candidate)}
  {spec : GrowthState → Option GrowthCheckpoint → Checked (List Candidate)}
  {I : SearchState → Prop} (blind : Blind I)
  (each : ∀ next entry, Reachable hash x.contract x.objects x.frontier next →
    Entered hash x entry → Computes Complete I (recur next entry) (spec next entry))

theorem computes_answered {s : GrowthState} {recipe : GrowthAction}
    {selected : Option GrowthCheckpoint} {stop : ℚ} {rest : List GrowthSuccessor}
    (ih : Computes Complete I (Search.childOptions hash x recur s recipe selected stop rest)
      (some <$> planOptions hash x spec s recipe selected stop rest)) :
    ∀ options, Computes Complete I
      (if options.isEmpty = true then pure (some [options]) else do
        match ← Search.childOptions hash x recur s recipe selected stop rest with
        | none => pure none
        | some others => pure (some (options :: others)))
      (some <$> if options.isEmpty = true then pure [options] else do
        let others ← planOptions hash x spec s recipe selected stop rest
        pure (options :: others)) := by
  intro options
  split
  · exact computes_pure _
  · let joined : Option (List (List Candidate)) → Checked (Option (List (List Candidate))) :=
      fun found => .ok (found.map (options :: ·))
    have same : some <$> (do
          let others ← planOptions hash x spec s recipe selected stop rest
          pure (options :: others)) =
        (some <$> planOptions hash x spec s recipe selected stop rest) >>= joined := by
      cases planOptions hash x spec s recipe selected stop rest <;> rfl
    rw [same]
    refine computes_bind ih fun found => ?_
    cases found with
    | none => exact computes_pure _
    | some others => exact computes_pure _

include blind

include each in
theorem computes_childOptions {s : GrowthState} {recipe : GrowthAction}
    {selected : Option GrowthCheckpoint}
    (reachable : Reachable hash x.contract x.objects x.frontier s)
    (listed : recipe ∈ x.contract.spec.actionCatalogue) (taken : Entered hash x selected)
    (stop : ℚ) : ∀ effects, Computes Complete I
      (Search.childOptions hash x recur s recipe selected stop effects)
      (some <$> planOptions hash x spec s recipe selected stop effects) := by
  intro effects
  induction effects with
  | nil => exact computes_pure _
  | cons effect rest ih =>
    refine computes_charge (charges_take blind .expansions) ?_ (keeps_pure _)
    rw [planOptions]
    simp only [map_bind]
    refine computes_bind_lift fun next moved => ?_
    have step : Steps hash x.contract x.objects x.frontier s ⟨recipe, effect⟩ next := ⟨listed, moved⟩
    have answered := computes_answered ih
    by_cases late : x.entryStop selected stop < F next.elapsed
    · rw [if_pos late, if_pos late]
      exact answered []
    · rw [if_neg late, if_neg late, map_bind]
      exact computes_bind (each next selected (reachable.step step) taken) answered

theorem computes_assemble (digest : Digest) (actionId : Identifier) (entered : Bool)
    (effects : List GrowthSuccessor) : ∀ (picks : List (List Candidate)) (options : List Candidate),
      Computes Complete I (Search.assemble hash x digest actionId entered effects picks options)
        (.ok (options ++ picks.map (decision hash digest actionId entered effects), true)) := by
  intro picks
  induction picks with
  | nil =>
    intro options
    rw [List.map_nil, List.append_nil]
    exact computes_pure _
  | cons children rest ih =>
    intro options
    refine computes_charge (charges_take blind .policies) ?_ (keeps_pure _)
    by_cases large : x.limits.maxWitnessNodes <
        (decision hash digest actionId entered effects children).nodeCount
    · simp only [if_pos large]
      exact computes_exhausted blind (computes_blamed blind (ih options)).keeps
    · simp only [if_neg large]
      have appended := ih (options ++ [decision hash digest actionId entered effects children])
      rw [List.append_assoc, List.singleton_append] at appended
      exact appended

include each in
theorem computes_tryRecipe {s : GrowthState} {digest : Digest}
    {entry selected : Option GrowthCheckpoint} {recipe : GrowthAction}
    (reachable : Reachable hash x.contract x.objects x.frontier s)
    (listed : recipe ∈ x.contract.spec.actionCatalogue) (taken : Entered hash x selected)
    (options : List Candidate) :
    Computes Complete I (Search.tryRecipe hash x recur s digest entry selected recipe options)
      ((fun new => (options ++ new, true)) <$>
        planRecipe hash x spec s digest entry selected recipe) := by
  simp only [planRecipe, map_bind]
  refine computes_bind_lift fun both _ => ?_
  refine computes_bind_lift fun _ _ => ?_
  let built : Option (List (List Candidate)) → Checked (List Candidate × Bool) := fun found =>
    found.elim (.ok (options, false)) fun lists => .ok (options ++ (product lists).map (decision hash
      digest both.1.actionId (entry.isNone && selected.isSome) (successors s recipe)), true)
  have same : ((do
        let lists ← planOptions hash x spec s recipe selected (x.stop entry) (successors s recipe)
        (fun new => (options ++ new, true)) <$> pure ((product lists).map (decision hash digest
          both.1.actionId (entry.isNone && selected.isSome) (successors s recipe)))) :
        Checked (List Candidate × Bool)) =
      (some <$> planOptions hash x spec s recipe selected (x.stop entry) (successors s recipe)) >>=
        built := by
    cases planOptions hash x spec s recipe selected (x.stop entry) (successors s recipe) <;> rfl
  rw [same]
  refine computes_bind (computes_childOptions blind each reachable listed taken (x.stop entry) _)
    fun found => ?_
  cases found with
  | none => exact computes_pure (options, false)
  | some lists => exact computes_assemble blind digest both.1.actionId _ _ (product lists) options

end computes

theorem computes_expand {recur : GrowthState → Option GrowthCheckpoint → SearchM (List Candidate)}
    {spec : GrowthState → Option GrowthCheckpoint → Checked (List Candidate)}
    (each : ∀ next entry, Reachable hash x.contract x.objects x.frontier next →
      Entered hash x entry → Computes Complete (EnumerationSound hash x) (recur next entry)
        (spec next entry)) {s : GrowthState} {entry : Option GrowthCheckpoint} {digest : Digest}
    (reachable : Reachable hash x.contract x.objects x.frontier s) (taken : Entered hash x entry) :
    Computes Complete (EnumerationSound hash x) (Search.expand hash x recur s digest entry)
      ((·, true) <$> planDecisions hash x spec s digest entry) := by
  simp only [Search.expand, planDecisions, map_bind]
  refine computes_bind_lift fun entries chosen => computes_bind_lift fun recipes sorted => ?_
  have tried : ∀ choice ∈ entries.flatMap fun selected =>
      (x.allowed recipes).map fun p => (selected, p.2), ∀ options,
      Computes Complete (EnumerationSound hash x)
        (Search.tryRecipe hash x recur s digest entry choice.1 choice.2 options)
        ((fun new => (options ++ new, true)) <$>
          planRecipe hash x spec s digest entry choice.1 choice.2) := by
    intro choice member
    obtain ⟨selected, inEntries, inRecipes⟩ := List.mem_flatMap.mp member
    obtain ⟨p, allowed, rfl⟩ := List.mem_map.mp inRecipes
    have inCatalogue := (sortedRecipes_ok sorted p).mp (List.mem_of_mem_filter allowed)
    exact computes_tryRecipe enumerationSound_blind each reachable inCatalogue.1
      (selectable_entered reachable taken chosen inEntries)
  have attempted := computes_attempts enumerationSound_blind tried []
  simp only [List.nil_append] at attempted
  exact attempted

theorem computes_enumerateStep (free : CollisionFree hash x.contract x.objects x.frontier)
    {recur : GrowthState → Option GrowthCheckpoint → SearchM (List Candidate)}
    {spec : GrowthState → Option GrowthCheckpoint → Checked (List Candidate)}
    (each : ∀ next entry, Reachable hash x.contract x.objects x.frontier next →
      Entered hash x entry → Computes Complete (EnumerationSound hash x) (recur next entry)
        (spec next entry))
    {remaining : ℕ} (within : remaining ≤ x.contract.spec.maxDecisions) {s : GrowthState}
    {entry : Option GrowthCheckpoint}
    (reachable : Reachable hash x.contract x.objects x.frontier s) (taken : Entered hash x entry)
    (own : plans hash x remaining s entry = planStep hash x spec remaining s entry) :
    Computes Complete (EnumerationSound hash x)
      (Search.enumerateStep hash x recur (x.contract.spec.maxDecisions - remaining) remaining s entry)
      (plans hash x remaining s entry) := by
  have digested : stateDigest hash s = .ok (hash.state s) := reachable.admitted.1.stateDigest
  rw [Search.enumerateStep, digested]
  refine computes_ok (computes_get fun σ sound => ?_)
  let key : MemoKey :=
    (hash.state s, x.contract.spec.maxDecisions - remaining, entry.map hash.checkpoint)
  cases stored : σ.memo.lookup key with
  | some found =>
    have member := mem_of_lookup stored
    rw [sound _ found member remaining within s entry reachable taken rfl]
    exact computes_pure found σ sound
  | none =>
    refine computes_charge (charges_take enumerationSound_blind .states) ?_ (keeps_pure _) σ sound
    refine computes_reached enumerationSound_blind ?_
    have keyed : ∀ remaining' ≤ x.contract.spec.maxDecisions, ∀ t entry',
        Reachable hash x.contract x.objects x.frontier t → Entered hash x entry' →
        key = (hash.state t, x.contract.spec.maxDecisions - remaining',
          entry'.map hash.checkpoint) →
        plans hash x remaining' t entry' = plans hash x remaining s entry := by
      intro remaining' within' t entry' reached taken' same
      obtain ⟨sameState, rest⟩ := Prod.mk.inj same
      obtain ⟨sameDepth, sameEntry⟩ := Prod.mk.inj rest
      have : remaining' = remaining := by omega
      rw [this, free.state s t reachable reached sameState, taken.eq_of_digest free taken' sameEntry]
    rw [own, planStep, digested, ok_bind]
    refine computes_bind_lift fun ended isEnded => ?_
    cases ended with
    | true => exact computes_pure _
    | false =>
      rw [if_neg Bool.false_ne_true, if_neg Bool.false_ne_true]
      by_cases late : x.stop entry ≤ F s.elapsed ∨ remaining = 0
      · rw [if_pos late, if_pos late]
        exact computes_pure _
      · rw [if_neg late, if_neg late]
        split
        · exact computes_exhausted enumerationSound_blind (keeps_pure _)
        · let save : List Candidate × Bool → SearchState → SearchState := fun found σ =>
            { σ with memo := (key, found.1) :: σ.memo }
          let due : List Candidate × Bool → SearchState → Bool := fun found σ =>
            found.2 && σ.budget.complete
          have sound' : ∀ found τ,
              (·, true) <$> planDecisions hash x spec s (hash.state s) entry = .ok found →
              EnumerationSound hash x τ → EnumerationSound hash x (save found τ) := by
            intro found τ answer kept key' found' member remaining' within' t entry' reached taken' same
            rcases List.mem_cons.mp member with head | tail
            · cases head
              rw [keyed remaining' within' t entry' reached taken' same, own, planStep, digested,
                ok_bind, isEnded, ok_bind, if_neg Bool.false_ne_true, if_neg late]
              obtain ⟨options, found, rfl⟩ := map_ok.mp answer
              exact found
            · exact kept key' found' tail remaining' within' t entry' reached taken' same
          have saved := computes_store save due Prod.fst (computes_expand each reachable taken) sound'
            (fun _ _ done => done) fun found τ both => (Bool.and_eq_true_iff.mp both).2
          rw [← comp_map, Function.comp_def, id_map'] at saved
          exact saved

theorem computes_enumerate (free : CollisionFree hash x.contract x.objects x.frontier) :
    ∀ {remaining : ℕ}, remaining ≤ x.contract.spec.maxDecisions →
      ∀ {s : GrowthState} {entry : Option GrowthCheckpoint},
      Reachable hash x.contract x.objects x.frontier s → Entered hash x entry →
      Computes Complete (EnumerationSound hash x) (Search.enumerate hash x remaining s entry)
        (plans hash x remaining s entry) := by
  intro remaining
  induction remaining with
  | zero =>
    intro within s entry reachable taken
    rw [Search.enumerate, ← Nat.sub_zero x.contract.spec.maxDecisions]
    exact computes_enumerateStep free (fun _ _ _ _ => computes_pure []) within reachable taken rfl
  | succ remaining ih =>
    intro within s entry reachable taken
    have earlier : remaining ≤ x.contract.spec.maxDecisions := by omega
    exact computes_enumerateStep free (fun next entry' reached taken' => ih earlier reached taken')
      within reachable taken rfl

end CollectivePhaseControl
