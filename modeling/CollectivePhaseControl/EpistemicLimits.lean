import CollectivePhaseControl.EpistemicPolicies

/-! The limits of a search, seen from its end. Whatever it lists keeps to the limit on nodes;
and where it met no limit at all, every support at which a decision was due lies above the
limit on depth, so that no policy was left out for its depth. -/
namespace CollectivePhaseControl

open BudgetedSearch

variable {hash : EpistemicHashing}

namespace PolicySearch

def Onward (x : PolicySearch hash) (holds : Support → Prop) (support : Support) : Prop :=
  ∀ entry selected actionId branches, x.Selects support entry selected →
    x.domain.advance selected actionId = .ok branches → ∀ b ∈ branches, holds b.2

/-- The depth limit is not met where a decision is due, here or further on. -/
def WithinDepth (x : PolicySearch hash) : ℕ → ℕ → Support → Prop
  | 0, _, _ => True
  | left + 1, depth, support => x.domain.terminal support x.endpoint = .ok false →
      (∀ h ∈ support, F h.state.elapsed < x.stop h) →
      depth < x.domain.depthLimit ∧ x.Onward (WithinDepth x left (depth + 1)) support

/-- Policies that a witness may hold; a single leaf is one in any case. -/
def Small (x : PolicySearch hash) (policies : List Policy) : Prop :=
  ∀ p ∈ policies, p.nodes ≤ max 1 x.limits.maxWitnessNodes

def MemoWithin (x : PolicySearch hash) (roots : Support → Prop) (σ : PolicyState) : Prop :=
  ∀ support depth policies, x.domain.ReachedSupport roots support →
    ((hash.support support, depth), policies) ∈ σ.memo → x.Small policies ∧
    x.WithinDepth (x.domain.contract.spec.maxDecisions - depth) depth support

variable {x : PolicySearch hash} {roots : Support → Prop}

theorem MemoWithin.unmetered : Unmetered (x.MemoWithin roots) := fun _ _ within => within

theorem assemble_delivers (support : Support) (actionId : Identifier) (entry : Bool)
    (branches : List (Identifier × Support)) : ∀ (lists : List (List Policy)) (found : List Policy),
    x.Small found →
    Delivers Intact (x.MemoWithin roots) (x.assemble support actionId entry branches lists found)
      (fun tried => x.Small tried.1) fun tried => tried.2 = true := by
  intro lists
  induction lists with
  | nil => exact fun found small => delivers_pure small rfl
  | cons children lists ih =>
    intro found small
    let policy := decisionPolicy hash support actionId entry branches children
    have stopped : Delivers Intact (x.MemoWithin roots)
        (pure (found, false) : PolicyM (List Policy × Bool)) (fun tried => x.Small tried.1)
        fun _ => True := delivers_pure small trivial
    have charged : x.Small (found ++ [policy]) → Delivers Intact (x.MemoWithin roots)
        (PolicyM.take x.limits .policies >>= fun paid => if paid = true then do
            modify fun σ => { σ with storedNodes := σ.storedNodes + policy.nodes }
            x.assemble support actionId entry branches lists (found ++ [policy])
          else pure (found, false)) (fun tried => x.Small tried.1) fun tried => tried.2 = true :=
      fun more => delivers_charge (charges_takeUnit MemoWithin.unmetered .policies)
        (delivers_modify (fun _ within => within) (fun _ done => done) (ih _ more)) stopped
    rw [assemble]
    refine delivers_get fun σ start tried τ run => ?_
    split at run
    case isTrue =>
      have spent : Delivers Intact (x.MemoWithin roots)
          (PolicyM.exhaust >>= fun _ => pure (found, false)) (fun tried => x.Small tried.1)
          fun tried => tried.2 = true := delivers_exhausted MemoWithin.unmetered stopped
      exact spent σ tried τ start run
    case isFalse fits =>
      refine charged ?_ σ tried τ start run
      intro p member
      rcases List.mem_append.mp member with earlier | here
      · exact small p earlier
      · rw [List.mem_singleton.mp here]
        exact le_max_of_le_right (le_trans (Nat.le_add_left _ _) (not_lt.mp fits))

section onward
variable {recur : Support → PolicyM (List Policy)} {deep : Support → Prop}

theorem tryAction_delivers (support : Support) (entry : Bool) (selected : Support)
    (actionId : Identifier)
    (below : ∀ branches, x.domain.advance selected actionId = .ok branches → ∀ b ∈ branches,
      Delivers Intact (x.MemoWithin roots) (recur b.2) x.Small fun _ => deep b.2)
    {found : List Policy} (small : x.Small found) :
    Delivers Intact (x.MemoWithin roots) (x.tryAction recur support entry selected actionId found)
      (fun tried => x.Small tried.1) fun tried => tried.2 = true ∧ ∀ branches,
        x.domain.advance selected actionId = .ok branches → ∀ b ∈ branches, deep b.2 := by
  unfold tryAction
  refine delivers_bind (delivers_attempt MemoWithin.unmetered selected actionId)
    fun attempt attempted => ?_
  cases attempt with
  | ruledOut =>
    refine delivers_pure small fun refused => ⟨rfl, fun branches advanced => ?_⟩
    exact absurd advanced (refused branches)
  | limited => exact delivers_pure small False.elim
  | branches branches =>
    have advanced : x.domain.advance selected actionId = .ok branches := attempted
    refine delivers_bind (delivers_mapM (below branches advanced)) fun options _ => ?_
    have every : List.Forall₂ (fun (b : Identifier × Support) (_ : List Policy) => deep b.2)
        branches options → ∀ branches', x.domain.advance selected actionId = .ok branches' →
        ∀ b ∈ branches', deep b.2 := by
      intro each branches' advanced' b branch
      cases advanced.symm.trans advanced'
      obtain ⟨-, -, holds⟩ := forall₂_mem_left each b branch
      exact holds
    split
    case isTrue => exact delivers_pure small fun each _ => ⟨rfl, every each⟩
    case isFalse =>
      exact (assemble_delivers support actionId entry branches (product options) found small).mono
        (fun _ holds => holds) fun tried _ going each _ => ⟨going, every each⟩

theorem tryAll_delivers (support : Support) : ∀ (choices : List ((Bool × Support) × Identifier))
    (found : List Policy), x.Small found → (∀ choice ∈ choices, ∀ branches,
      x.domain.advance choice.1.2 choice.2 = .ok branches → ∀ b ∈ branches,
      Delivers Intact (x.MemoWithin roots) (recur b.2) x.Small fun _ => deep b.2) →
    Delivers Intact (x.MemoWithin roots) (x.tryAll recur support choices found)
      (fun tried => x.Small tried.1) fun tried => tried.2 = true ∧ ∀ choice ∈ choices, ∀ branches,
        x.domain.advance choice.1.2 choice.2 = .ok branches → ∀ b ∈ branches, deep b.2 := by
  intro choices
  induction choices with
  | nil => exact fun found small _ => delivers_pure small ⟨rfl, by simp⟩
  | cons choice choices ih =>
    intro found small below
    obtain ⟨first, others⟩ := List.forall_mem_cons.mp below
    rw [tryAll]
    refine delivers_bind (tryAction_delivers support choice.1.1 choice.1.2 choice.2 first small)
      fun tried small' => ?_
    split
    case isTrue going =>
      refine (ih tried.1 small' others).mono (fun _ holds => holds) fun tried' _ later here => ?_
      exact ⟨later.1, List.forall_mem_cons.mpr ⟨here.2, later.2⟩⟩
    case isFalse stopped => exact delivers_pure small' fun here => absurd here.1 stopped

theorem expand_delivers (apart : x.domain.SupportsApart roots) {depth : ℕ} {support : Support}
    (reached : x.domain.ReachedSupport roots support)
    (below : ∀ next, x.domain.ReachedSupport roots next →
      Delivers Intact (x.MemoWithin roots) (recur next) x.Small fun _ => deep next)
    (within : x.Onward deep support →
      x.WithinDepth (x.domain.contract.spec.maxDecisions - depth) depth support) :
    Delivers Intact (x.MemoWithin roots) (x.expand recur depth support) x.Small
      fun _ => x.WithinDepth (x.domain.contract.spec.maxDecisions - depth) depth support := by
  unfold expand
  refine delivers_bind (delivers_known _) fun options selected => ?_
  have inside : ∀ choice ∈ x.choices options, ∀ branches,
      x.domain.advance choice.1.2 choice.2 = .ok branches → ∀ b ∈ branches,
      Delivers Intact (x.MemoWithin roots) (recur b.2) x.Small fun _ => deep b.2 := by
    rintro ⟨⟨entry, next⟩, actionId⟩ listed branches advanced b branch
    have selects := (selections_ok selected).mp (mem_choices.mp listed).1
    exact below b.2 (.branch (selects.reached reached) advanced branch)
  have onward : (∀ choice ∈ x.choices options, ∀ branches,
      x.domain.advance choice.1.2 choice.2 = .ok branches → ∀ b ∈ branches, deep b.2) →
      x.Onward deep support := by
    intro each entry next actionId branches selects advanced
    obtain ⟨recipe, -, chosen, -⟩ := Domain.advance_ok.mp advanced
    obtain ⟨-, named, -⟩ := Domain.chosenRecipe_ok.mp chosen
    have known : actionId ∈ x.domain.recipes :=
      Std.ExtTreeMap.mem_iff_isSome_getElem?.mpr (by rw [named]; rfl)
    exact each ((entry, next), actionId)
      (mem_choices.mpr ⟨(selections_ok selected).mpr selects, known⟩) branches advanced
  have nothing : x.Small [] := fun _ member => absurd member List.not_mem_nil
  refine delivers_store (fun tried σ =>
      { σ with memo := ((hash.support support, depth), tried.1) :: σ.memo })
    (fun tried σ => tried.2 && σ.budget.complete) Prod.fst
    (tryAll_delivers support (x.choices options) [] nothing inside) ?_ ?_ ?_ ?_
  · rintro tried σ small ⟨-, each⟩ sound support' depth' policies reached' listed
    rcases List.mem_cons.mp listed with here | earlier
    · obtain ⟨key, rfl⟩ := Prod.mk.inj here
      obtain ⟨digest, rfl⟩ := Prod.mk.inj key
      cases apart _ _ reached' reached digest
      exact ⟨small, within (onward each)⟩
    · exact sound support' depth' policies reached' earlier
  · intro tried σ now
    exact (Bool.and_eq_true _ _ ▸ now).2
  · exact fun tried small => small
  · exact fun tried _ full _ => within (onward full.2)

theorem step_delivers (apart : x.domain.SupportsApart roots) {depth : ℕ} {support : Support}
    (reached : x.domain.ReachedSupport roots support)
    (below : ∀ next, x.domain.ReachedSupport roots next →
      Delivers Intact (x.MemoWithin roots) (recur next) x.Small fun _ => deep next)
    (within : (x.domain.terminal support x.endpoint = .ok false →
        depth < x.domain.contract.spec.maxDecisions →
        (∀ h ∈ support, F h.state.elapsed < x.stop h) →
        depth < x.domain.depthLimit ∧ x.Onward deep support) →
      x.WithinDepth (x.domain.contract.spec.maxDecisions - depth) depth support) :
    Delivers Intact (x.MemoWithin roots) (x.enumerateStep recur depth support) x.Small
      fun _ => x.WithinDepth (x.domain.contract.spec.maxDecisions - depth) depth support := by
  let full := fun _ : List Policy =>
    x.WithinDepth (x.domain.contract.spec.maxDecisions - depth) depth support
  have nothing : x.Small [] := fun _ member => absurd member List.not_mem_nil
  have leaf : x.Small [leafPolicy hash support] := by
    intro p member
    rw [List.mem_singleton.mp member]
    exact le_max_left _ _
  have early : Delivers Intact (x.MemoWithin roots) (pure [] : PolicyM (List Policy))
      x.Small fun _ => True := delivers_pure nothing trivial
  have fresh : Delivers Intact (x.MemoWithin roots)
      (PolicyM.take x.limits .states >>= fun paid => if paid = true then do
          PolicyM.reachDepth depth
          if ← x.domain.terminal support x.endpoint then pure [leafPolicy hash support]
          else if x.domain.contract.spec.maxDecisions ≤ depth then pure []
          else if x.domain.depthLimit ≤ depth then
            PolicyM.exhaust
            pure []
          else if ∃ h ∈ support, x.stop h ≤ F h.state.elapsed then pure []
          else x.expand recur depth support
        else pure []) x.Small full := by
    refine delivers_charge (charges_takeUnit MemoWithin.unmetered .states) ?_ early
    refine delivers_modify (fun _ sound => sound) (fun _ done => done) ?_
    refine delivers_bind (delivers_known _) fun ended answer => ?_
    cases ended with
    | true =>
      refine delivers_pure leaf fun _ => within fun running => ?_
      exact nomatch running.symm.trans answer
    | false =>
      suffices each : Delivers Intact (x.MemoWithin roots) _ x.Small full from
        each.mono (fun _ holds => holds) fun _ _ all _ => all
      simp only [Bool.false_eq_true, if_false]
      split
      case isTrue late =>
        exact delivers_pure nothing (within fun _ decisions => absurd decisions (by omega))
      case isFalse decisions =>
        split
        case isTrue => exact delivers_exhausted MemoWithin.unmetered early
        case isFalse limit =>
          split
          case isTrue late =>
            obtain ⟨h, listed, past⟩ := late
            exact delivers_pure nothing
              (within fun _ _ inTime => absurd (inTime h listed) (not_lt.mpr past))
          case isFalse inTime =>
            refine expand_delivers apart reached below fun onward => within fun _ _ _ => ?_
            exact ⟨not_le.mp limit, onward⟩
  unfold enumerateStep
  refine delivers_get fun σ memo ps τ run => ?_
  cases known : σ.memo.lookup (hash.support support, depth) with
  | some found =>
    simp only [known] at run
    cases run
    obtain ⟨small, deep⟩ := memo support depth ps reached (mem_of_lookup known)
    exact ⟨memo, small, fun done => ⟨done, deep⟩⟩
  | none =>
    simp only [known] at run
    exact fresh σ ps τ memo run

end onward

theorem enumerate_within (apart : x.domain.SupportsApart roots) :
    ∀ (left depth : ℕ) (support : Support), left = x.domain.contract.spec.maxDecisions - depth →
      x.domain.ReachedSupport roots support →
      Delivers Intact (x.MemoWithin roots) (x.enumerateWithin left depth support)
        x.Small fun _ => x.WithinDepth left depth support := by
  intro left
  induction left with
  | zero =>
    intro depth support fuel reached
    have nothing : ∀ next, x.domain.ReachedSupport roots next →
        Delivers Intact (x.MemoWithin roots) (pure [] : PolicyM (List Policy)) x.Small
          fun _ => True := fun _ _ => delivers_pure (fun _ member => absurd member List.not_mem_nil) trivial
    have ended : x.WithinDepth (x.domain.contract.spec.maxDecisions - depth) depth support := by
      rw [← fuel]
      trivial
    have step := step_delivers apart reached nothing fun _ => ended
    rwa [← fuel] at step
  | succ left ih =>
    intro depth support fuel reached
    have below : ∀ next, x.domain.ReachedSupport roots next →
        Delivers Intact (x.MemoWithin roots) (x.enumerateWithin left (depth + 1) next)
          x.Small fun _ => x.WithinDepth left (depth + 1) next :=
      fun next reached' => ih (depth + 1) next (by omega) reached'
    have step := step_delivers apart reached below fun each => by
      rw [← fuel]
      exact fun running inTime => each running (by omega) inTime
    rwa [← fuel] at step

theorem enumerate_limits (apart : x.domain.SupportsApart roots) {depth : ℕ} {support : Support}
    (reached : x.domain.ReachedSupport roots support) {policies : List Policy} {σ : PolicyState}
    (run : runFrom (x.enumerate support depth) .fresh = .ok (policies, σ)) :
    x.Small policies ∧ (σ.budget.complete = true →
      x.WithinDepth (x.domain.contract.spec.maxDecisions - depth) depth support) := by
  have fresh : x.MemoWithin roots .fresh := fun _ _ _ _ listed => nomatch listed
  obtain ⟨-, small, full⟩ := enumerate_within apart _ depth support rfl reached .fresh _ _ fresh
    (runFrom_ok.mp run)
  exact ⟨small, fun complete => (full complete).2⟩

end PolicySearch

end CollectivePhaseControl
