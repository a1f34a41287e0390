import CollectivePhaseControl.GrowthBudget
import CollectivePhaseControl.GrowthPlay
import CollectivePhaseControl.MaxMin

/-! Backward induction for one terminal scalar. With a complete budget its bounds are the
best worst cases over all policy trees that avoid the excluded interactions and end every
branch at the endpoint, whatever the history. -/
namespace CollectivePhaseControl

open BudgetedSearch

variable (hash : Hashing)

def ScalarSolution.at' (solution : ScalarSolution) : Bound → ℚ
  | .lower => solution.lower
  | .upper => solution.upper

/-- `(-lower, action_id or "", content_digest(node))`. -/
def scalarKey (p : ScalarSolution) : ℚ ×ₗ Identifier ×ₗ Digest :=
  toLex (-p.lower, toLex (p.candidate.node.actionId.getD "", hash.node p.candidate.node))

/-- The first solution of the least key, with the greatest upper value of all. -/
def selectScalar (choices : List ScalarSolution) : Checked (Option ScalarSolution) :=
  match choices.argmin (scalarKey hash) with
  | none => pure none
  | some best => do pure (some { best with upper := ← greatest (choices.map (·.upper)) })

def composed (digest : Digest) (actionId : Identifier) (effects : List GrowthSuccessor)
    (children : List ScalarSolution) : Checked ScalarSolution := do
  let lower ← least (children.map (·.lower))
  let upper ← least (children.map (·.upper))
  let candidate := decision hash digest actionId false effects (children.map (·.candidate))
  pure ⟨lower, upper, { candidate with entries := [] }⟩

namespace Search
variable (x : Search)

section scalar
variable (recur : GrowthState → SearchM (Option ScalarSolution))

/-- The solutions after the effects in turn, up to the first without one or the end of the
expansions. -/
def scalarChildren (s : GrowthState) (recipe : GrowthAction) :
    List GrowthSuccessor → SearchM (List ScalarSolution)
  | [] => pure []
  | effect :: rest => do
    if ← x.take .expansions then
      let next ← transition hash x.contract s recipe effect x.objects x.frontier
      match ← recur next with
      | none => pure []
      | some child => do
        let others ← scalarChildren s recipe rest
        pure (child :: others)
    else pure []

def tryScalar (s : GrowthState) (digest : Digest) (recipe : GrowthAction)
    (choices : List ScalarSolution) : SearchM (List ScalarSolution × Bool) := do
  let (action, _) ← applicable hash x.contract s recipe x.objects x.frontier
  let effects := successors s recipe
  require (effects ≠ []) "growth_successor_incomplete"
  let children ← scalarChildren hash x recur s recipe effects
  if children.length ≠ effects.length then pure (choices, true)
  else if x.limits.maxWitnessNodes < 1 + (children.map (·.candidate.nodeCount)).sum then
    exhaust
    blame "growth_witness_limit"
    pure (choices, true)
  else
    if ← x.take .policies then
      let solution ← composed hash digest action.actionId effects children
      pure (choices ++ [solution], true)
    else pure (choices, false)

def scalarStep (depth remaining : ℕ) (s : GrowthState) : SearchM (Option ScalarSolution) := do
  let digest ← stateDigest hash s
  match (← get).scalarMemo.lookup (digest, depth) with
  | some found => pure found
  | none =>
    if ← x.take .states then
      reachDepth depth
      if ← terminal x.contract.spec x.endpoint s none then
        let lower ← attainment x.contract.spec s .lower
        let upper ← attainment x.contract.spec s .upper
        pure (some ⟨lower, upper, leaf digest s none⟩)
      else
        require (x.endpoint ≠ none) "growth_scalar_endpoint_required"
        if (∃ time ∈ x.endpoint, time ≤ F s.elapsed) ∨ remaining = 0 then pure none
        else if x.limits.maxDepth ≤ depth then
          exhaust
          pure none
        else
          let recipes ← x.sortedRecipes
          let found ← attempts (fun p => tryScalar hash x recur s digest p.2)
            (x.allowed recipes) []
          let best ← selectScalar hash found.1
          modify fun σ => if σ.budget.complete then
            { σ with scalarMemo := ((digest, depth), best) :: σ.scalarMemo } else σ
          pure best
    else pure none

end scalar

/-- The best terminal scalar from a state with `remaining` of the contract's decisions. -/
def scalar : ℕ → GrowthState → SearchM (Option ScalarSolution)
  | 0 => scalarStep hash x (fun _ => pure none) x.contract.spec.maxDecisions 0
  | remaining + 1 => scalarStep hash x (scalar remaining)
      (x.contract.spec.maxDecisions - (remaining + 1)) (remaining + 1)

end Search

section solve
variable (x : Search) (recur : GrowthState → Checked (Option ScalarSolution))

def solveChildren (s : GrowthState) (recipe : GrowthAction) :
    List GrowthSuccessor → Checked (List ScalarSolution)
  | [] => pure []
  | effect :: rest => do
    let next ← transition hash x.contract s recipe effect x.objects x.frontier
    match ← recur next with
    | none => pure []
    | some child => do
      let others ← solveChildren s recipe rest
      pure (child :: others)

def solveRecipe (s : GrowthState) (digest : Digest) (recipe : GrowthAction) :
    Checked (List ScalarSolution) := do
  let (action, _) ← applicable hash x.contract s recipe x.objects x.frontier
  let effects := successors s recipe
  require (effects ≠ []) "growth_successor_incomplete"
  let children ← solveChildren hash x recur s recipe effects
  if children.length ≠ effects.length then pure []
  else do
    let solution ← composed hash digest action.actionId effects children
    pure [solution]

def solveStep (remaining : ℕ) (s : GrowthState) : Checked (Option ScalarSolution) := do
  let digest ← stateDigest hash s
  if ← terminal x.contract.spec x.endpoint s none then
    let lower ← attainment x.contract.spec s .lower
    let upper ← attainment x.contract.spec s .upper
    pure (some ⟨lower, upper, leaf digest s none⟩)
  else
    require (x.endpoint ≠ none) "growth_scalar_endpoint_required"
    if (∃ time ∈ x.endpoint, time ≤ F s.elapsed) ∨ remaining = 0 then pure none
    else
      let recipes ← x.sortedRecipes
      let choices ← gathered (fun p => solveRecipe hash x recur s digest p.2) (x.allowed recipes)
      selectScalar hash choices

end solve

def solve (x : Search) : ℕ → GrowthState → Checked (Option ScalarSolution)
  | 0 => solveStep hash x (fun _ => pure none) 0
  | remaining + 1 => solveStep hash x (solve x remaining) (remaining + 1)

variable {hash} {x : Search}

/-- Stored solutions are those of every reachable ledger that has the key. -/
def ScalarSound (hash : Hashing) (x : Search) (σ : SearchState) : Prop :=
  ∀ key found, (key, found) ∈ σ.scalarMemo → ∀ remaining ≤ x.contract.spec.maxDecisions, ∀ s,
    Reachable hash x.contract x.objects x.frontier s →
    key = (hash.state s, x.contract.spec.maxDecisions - remaining) →
    solve hash x remaining s = .ok found

theorem scalarSound_blind : Blind (ScalarSound hash x) := fun _ _ _ sound => sound

theorem sortedRecipes_ok {recipes : List (Identifier × GrowthAction)}
    (h : x.sortedRecipes = .ok recipes) :
    ∀ p, p ∈ recipes ↔ p.2 ∈ x.contract.spec.actionCatalogue ∧
      ∃ action, actionDocument x.objects p.2.actionDigest = .ok action ∧ action.actionId = p.1 := by
  simp only [Search.sortedRecipes, namedCatalogue, bind_ok, mapM_ok, pure_ok] at h
  obtain ⟨named, listed, rfl⟩ := h
  rintro ⟨id, recipe⟩
  rw [List.mem_insertionSort]
  constructor
  · intro member
    obtain ⟨r, inCatalogue, action, document, same⟩ := forall₂_mem_right listed _ member
    cases same
    exact ⟨inCatalogue, action, document, rfl⟩
  · rintro ⟨inCatalogue, action, document, rfl⟩
    obtain ⟨p, member, action', document', rfl⟩ := forall₂_mem_left listed recipe inCatalogue
    cases document.symm.trans document'
    exact member

section computes
variable {recur : GrowthState → SearchM (Option ScalarSolution)}
  {spec : GrowthState → Checked (Option ScalarSolution)} {I : SearchState → Prop}
  (blind : Blind I)
  (each : ∀ next, Reachable hash x.contract x.objects x.frontier next →
    Computes Complete I (recur next) (spec next))
include blind each

theorem computes_scalarChildren {s : GrowthState} {recipe : GrowthAction}
    (reachable : Reachable hash x.contract x.objects x.frontier s)
    (listed : recipe ∈ x.contract.spec.actionCatalogue) :
    ∀ effects, Computes Complete I (Search.scalarChildren hash x recur s recipe effects)
      (solveChildren hash x spec s recipe effects) := by
  intro effects
  induction effects with
  | nil => exact computes_pure []
  | cons effect rest ih =>
    refine computes_charge (charges_take blind .expansions) ?_ (keeps_pure _)
    refine computes_bind_lift fun next moved => ?_
    have step : Steps hash x.contract x.objects x.frontier s ⟨recipe, effect⟩ next := ⟨listed, moved⟩
    refine computes_bind (each next (reachable.step step)) fun solution => ?_
    cases solution with
    | none => exact computes_pure []
    | some child => exact computes_bind ih fun others => computes_pure _

theorem computes_tryScalar {s : GrowthState} {digest : Digest} {recipe : GrowthAction}
    (reachable : Reachable hash x.contract x.objects x.frontier s)
    (listed : recipe ∈ x.contract.spec.actionCatalogue) (choices : List ScalarSolution) :
    Computes Complete I (Search.tryScalar hash x recur s digest recipe choices)
      ((fun new => (choices ++ new, true)) <$> solveRecipe hash x spec s digest recipe) := by
  simp only [solveRecipe, map_bind]
  refine computes_bind_lift fun both _ => ?_
  refine computes_bind_lift fun _ _ => ?_
  refine computes_bind (computes_scalarChildren blind each reachable listed _) fun children => ?_
  by_cases short : children.length ≠ (successors s recipe).length
  · rw [if_pos short, if_pos short]
    have nothing : (fun new => (choices ++ new, true)) <$> (pure [] : Checked (List ScalarSolution)) =
        .ok (choices, true) := by simp [pure, Except.pure, Functor.map, Except.map]
    rw [nothing]
    exact computes_pure _
  · rw [if_neg short, if_neg short]
    split
    · refine computes_exhausted blind ?_
      exact (computes_blamed blind (computes_pure _)).keeps
    · refine computes_charge (charges_take blind .policies) ?_ (keeps_pure _)
      simp only [map_bind]
      exact computes_bind_lift fun solution _ => computes_pure _

end computes

theorem computes_scalarStep (free : CollisionFree hash x.contract x.objects x.frontier)
    {recur : GrowthState → SearchM (Option ScalarSolution)}
    {spec : GrowthState → Checked (Option ScalarSolution)}
    (each : ∀ next, Reachable hash x.contract x.objects x.frontier next →
      Computes Complete (ScalarSound hash x) (recur next) (spec next))
    {remaining : ℕ} (within : remaining ≤ x.contract.spec.maxDecisions) {s : GrowthState}
    (reachable : Reachable hash x.contract x.objects x.frontier s)
    (own : solve hash x remaining s = solveStep hash x spec remaining s) :
    Computes Complete (ScalarSound hash x)
      (Search.scalarStep hash x recur (x.contract.spec.maxDecisions - remaining) remaining s)
      (solve hash x remaining s) := by
  have digested : stateDigest hash s = .ok (hash.state s) := reachable.admitted.1.stateDigest
  rw [Search.scalarStep, digested]
  refine computes_ok (computes_get fun σ sound => ?_)
  cases stored : σ.scalarMemo.lookup (hash.state s, x.contract.spec.maxDecisions - remaining) with
  | some found =>
    have member := mem_of_lookup stored
    rw [sound _ found member remaining within s reachable rfl]
    exact computes_pure found σ sound
  | none =>
    refine computes_charge (charges_take scalarSound_blind .states) ?_ (keeps_pure _) σ sound
    refine computes_reached scalarSound_blind ?_
    have key : ∀ remaining' ≤ x.contract.spec.maxDecisions, ∀ t,
        Reachable hash x.contract x.objects x.frontier t →
        (hash.state s, x.contract.spec.maxDecisions - remaining) =
          (hash.state t, x.contract.spec.maxDecisions - remaining') →
        solve hash x remaining' t = solve hash x remaining s := by
      intro remaining' within' t reached same
      obtain ⟨sameState, sameDepth⟩ := Prod.mk.inj same
      have : remaining' = remaining := by omega
      rw [this, free.state s t reachable reached sameState]
    rw [own, solveStep, digested, ok_bind]
    refine computes_bind_lift fun ended isEnded => ?_
    cases ended with
    | true => exact computes_bind_lift fun lower _ => computes_bind_lift fun upper _ => computes_pure _
    | false =>
      refine computes_bind_lift fun _ fixed => ?_
      by_cases late : (∃ time ∈ x.endpoint, time ≤ F s.elapsed) ∨ remaining = 0
      · rw [if_pos late, if_pos late]
        exact computes_pure _
      · rw [if_neg late, if_neg late]
        split
        · exact computes_exhausted scalarSound_blind (keeps_pure _)
        · refine computes_bind_lift fun recipes listed => ?_
          have tried : ∀ p ∈ x.allowed recipes, ∀ choices, Computes Complete (ScalarSound hash x)
              (Search.tryScalar hash x recur s (hash.state s) p.2 choices)
              ((fun new => (choices ++ new, true)) <$>
                solveRecipe hash x spec s (hash.state s) p.2) := by
            intro p member
            have inCatalogue := (sortedRecipes_ok listed p).mp (List.mem_of_mem_filter member)
            exact computes_tryScalar scalarSound_blind each reachable inCatalogue.1
          have selected := computes_bind (computes_attempts scalarSound_blind tried []) fun p =>
            computes_lift (selectScalar hash p.1)
          rw [bind_map_left] at selected
          let save : Option ScalarSolution → SearchState → SearchState := fun best σ =>
            { σ with scalarMemo :=
              ((hash.state s, x.contract.spec.maxDecisions - remaining), best) :: σ.scalarMemo }
          let due : Option ScalarSolution → SearchState → Bool := fun _ σ => σ.budget.complete
          have sound' : ∀ best τ, (gathered (fun p => solveRecipe hash x spec s (hash.state s) p.2)
              (x.allowed recipes) >>= fun choices => selectScalar hash choices) = .ok best →
              ScalarSound hash x τ → ScalarSound hash x (save best τ) := by
            intro best τ found kept stored' found' member remaining' within' t reached same
            rcases List.mem_cons.mp member with head | tail
            · cases head
              rw [key remaining' within' t reached same, own, solveStep, digested, ok_bind, isEnded,
                ok_bind, if_neg Bool.false_ne_true, fixed, ok_bind, if_neg late, listed, ok_bind]
              exact found
            · exact kept stored' found' tail remaining' within' t reached same
          have saved := computes_store save due id selected sound' (fun _ _ done => done)
            fun _ _ done => done
          rw [id_map, bind_assoc] at saved
          exact saved

theorem computes_scalar (free : CollisionFree hash x.contract x.objects x.frontier) :
    ∀ {remaining : ℕ}, remaining ≤ x.contract.spec.maxDecisions → ∀ {s : GrowthState},
      Reachable hash x.contract x.objects x.frontier s →
      Computes Complete (ScalarSound hash x) (Search.scalar hash x remaining s)
        (solve hash x remaining s) := by
  intro remaining
  induction remaining with
  | zero =>
    intro within s reachable
    rw [Search.scalar, ← Nat.sub_zero x.contract.spec.maxDecisions]
    exact computes_scalarStep free (fun _ _ => computes_pure none) within reachable rfl
  | succ remaining ih =>
    intro within s reachable
    have earlier : remaining ≤ x.contract.spec.maxDecisions := by omega
    exact computes_scalarStep free (fun next reached => ih earlier reached) within reachable rfl

end CollectivePhaseControl
