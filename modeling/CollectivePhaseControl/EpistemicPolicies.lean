import CollectivePhaseControl.EpistemicFilter
import CollectivePhaseControl.EpistemicSearch

/-! Feasible observation policies, and the search that enumerates them. Whatever a search
returns is feasible; a search that met no limit returns every feasible policy. -/
namespace CollectivePhaseControl

open BudgetedSearch

variable {hash : EpistemicHashing}

namespace Domain
variable {d : Domain hash}

/-- The supports that entry decisions and actions make of some. -/
inductive ReachedSupport (d : Domain hash) (roots : Support → Prop) : Support → Prop
  | root {support : Support} : roots support → ReachedSupport d roots support
  | entered {support entered : Support} {comparisons : List GrowthComparison} :
      ReachedSupport d roots support → d.markEntry support comparisons = .ok entered →
      ReachedSupport d roots entered
  | branch {support next : Support} {actionId symbol : Identifier}
      {found : List (Identifier × Support)} : ReachedSupport d roots support →
      d.advance support actionId = .ok found → (symbol, next) ∈ found →
      ReachedSupport d roots next

/-- Digests tell apart the supports that can come of `roots`. -/
def SupportsApart (d : Domain hash) (roots : Support → Prop) : Prop :=
  ∀ s t, d.ReachedSupport roots s → d.ReachedSupport roots t → hash.support s = hash.support t → s = t

theorem SupportsApart.mono {roots roots' : Support → Prop} (apart : d.SupportsApart roots)
    (within : ∀ s, roots' s → roots s) : d.SupportsApart roots' := by
  have reached : ∀ s, d.ReachedSupport roots' s → d.ReachedSupport roots s := by
    intro s reached
    induction reached with
    | root start => exact .root (within _ start)
    | entered _ marking ih => exact .entered ih marking
    | branch _ advanced listed ih => exact .branch ih advanced listed
  exact fun s t first second => apart s t (reached s first) (reached t second)

theorem shadows_advance {σ : Type} {intact I : σ → Prop} {out : Fault}
    {charge : EStateM Fault σ PUnit} (paid : Shadows intact I out charge (.ok ⟨⟩))
    (support : Support) (actionId : Identifier) :
    Shadows intact I out (d.advanceCharging charge support actionId)
      (d.advance support actionId) := by
  refine shadows_bind (shadows_lift _) fun recipe => ?_
  refine shadows_bind (shadows_mapM (fun h => ?_) _) fun lists => shadows_lift _
  refine shadows_bind (shadows_lift _) fun effects => shadows_mapM (fun effect => ?_) _
  exact shadows_bind paid fun _ => shadows_lift _

end Domain

namespace PolicySearch

def Stops (x : PolicySearch hash) (support : Support) (p : Policy) : Prop :=
  x.domain.terminal support x.endpoint = .ok true ∧ p = leafPolicy hash support

/-- A support at which a decision is still to be taken, and may be. -/
structure Undecided (x : PolicySearch hash) (depth : ℕ) (support : Support) : Prop where
  running : x.domain.terminal support x.endpoint = .ok false
  decisions : depth < x.domain.contract.spec.maxDecisions
  limit : depth < x.domain.depthLimit
  inTime : ∀ h ∈ support, F h.state.elapsed < x.stop h

/-- The support as it is, or with an entry marked where every hypothesis admits one. -/
def Selects (x : PolicySearch hash) (support : Support) (entry : Bool) (selected : Support) :
    Prop :=
  entry = false ∧ selected = support ∨
    entry = true ∧ x.endpoint = none ∧ (∀ h ∈ support, h.entry = none) ∧
      x.domain.markEntry support x.comparisons = .ok selected

/-- One action at a selected support, with a policy of `rest` for every branch. -/
def Decides (x : PolicySearch hash) (rest : Support → Policy → Prop) (support : Support)
    (entry : Bool) (selected : Support) (actionId : Identifier) (p : Policy) : Prop :=
  ∃ branches children, x.domain.advance selected actionId = .ok branches ∧
    List.Forall₂ (fun b child => rest b.2 child) branches children ∧
    p = decisionPolicy hash support actionId entry branches children

/-- The policies from a support at a depth, with a bound on the decisions left. -/
def Feasible (x : PolicySearch hash) : ℕ → ℕ → Support → Policy → Prop
  | 0, _, support, p => x.Stops support p
  | left + 1, depth, support, p => x.Stops support p ∨
      x.Undecided depth support ∧ ∃ entry selected actionId, x.Selects support entry selected ∧
        x.Decides (Feasible x left (depth + 1)) support entry selected actionId p

variable {x : PolicySearch hash}

theorem selections_ok {support : Support} {options : List (Bool × Support)}
    (h : x.selections support = .ok options) {entry : Bool} {selected : Support} :
    (entry, selected) ∈ options ↔ x.Selects support entry selected := by
  unfold PolicySearch.selections at h
  unfold Selects
  split at h
  case isTrue free =>
    split at h
    case h_1 marked marking =>
      cases h
      simp only [List.mem_cons, Prod.mk.injEq, List.not_mem_nil, or_false, marking, free,
        Except.ok.injEq, true_and]
      constructor
      · rintro (kept | ⟨rfl, rfl⟩)
        · exact .inl kept
        · exact .inr ⟨rfl, free.2, rfl⟩
      · rintro (kept | ⟨rfl, -, rfl⟩)
        · exact .inl kept
        · exact .inr ⟨rfl, rfl⟩
    case h_2 code refused =>
      split at h
      case isTrue =>
        cases h
        simp [refused]
      case isFalse => exact nomatch h
    case h_3 => exact nomatch h
  case isFalse bound =>
    cases h
    simp only [List.mem_singleton, Prod.mk.injEq]
    constructor
    · exact .inl
    · rintro (kept | ⟨-, fixed, unmarked, -⟩)
      · exact kept
      · exact absurd ⟨fixed, unmarked⟩ bound

theorem mem_product {α : Type} : ∀ {lists : List (List α)} {picks : List α},
    picks ∈ product lists ↔ List.Forall₂ (· ∈ ·) picks lists := by
  intro lists
  induction lists with
  | nil =>
    intro picks
    simp [product]
  | cons xs lists ih =>
    intro picks
    simp only [product, List.mem_flatMap, List.mem_map]
    constructor
    · rintro ⟨a, member, rest, listed, rfl⟩
      exact .cons member (ih.mp listed)
    · intro both
      cases both with
      | cons member rest => exact ⟨_, member, _, ih.mpr rest, rfl⟩

def Intact (σ : PolicyState) : Prop := σ.budget.complete = true

/-- The memo holds exactly the feasible policies of what it was asked about. -/
def MemoSound (x : PolicySearch hash) (roots : Support → Prop) (σ : PolicyState) : Prop :=
  ∀ support depth policies, x.domain.ReachedSupport roots support →
    ((hash.support support, depth), policies) ∈ σ.memo →
    ∀ p, p ∈ policies ↔
      x.Feasible (x.domain.contract.spec.maxDecisions - depth) depth support p

def Attempted (x : PolicySearch hash) (support : Support) (actionId : Identifier) : Attempt → Prop
  | .branches found => x.domain.advance support actionId = .ok found
  | .ruledOut => True
  | .limited => True

/-- An attempt that was not cut short: without branches there are none. -/
def Decisive (x : PolicySearch hash) (support : Support) (actionId : Identifier) : Attempt → Prop
  | .branches _ => True
  | .ruledOut => ∀ found, x.domain.advance support actionId ≠ .ok found
  | .limited => False

/-- Invariants that do not look at the budget. -/
def Unmetered (I : PolicyState → Prop) : Prop :=
  ∀ (σ : PolicyState) (budget : SearchBudget), I σ → I { σ with budget := budget }

section search
variable {roots : Support → Prop}

theorem MemoSound.unmetered : Unmetered (x.MemoSound roots) := fun _ _ sound => sound

section unmetered
variable {I : PolicyState → Prop} (unmetered : Unmetered I)
include unmetered

theorem charges_takeUnit (counter : Counter) :
    Charges Intact I (PolicyM.take x.limits counter) := by
  constructor
  · exact fun σ => ⟨_, _, rfl⟩
  · intro σ sound
    refine ⟨unmetered σ _ sound, ?_⟩
    change Intact { σ with budget := (σ.budget.take x.limits counter).2 } → Intact σ
    unfold Intact SearchBudget.take
    split
    · exact (nomatch ·)
    · cases counter <;> exact id
  · intro σ τ refused
    change EStateM.Result.ok (σ.budget.take x.limits counter).1
      { σ with budget := (σ.budget.take x.limits counter).2 } = .ok false τ at refused
    unfold SearchBudget.take at refused
    split at refused
    · cases refused
      exact (nomatch ·)
    · cases refused

theorem delivers_exhausted {α : Type} {g : PolicyM α} {sound full : α → Prop}
    (rest : Delivers Intact I g sound fun _ => True) :
    Delivers Intact I (PolicyM.exhaust >>= fun _ => g) sound full :=
  delivers_exhaust (fun _ sound => ⟨unmetered _ _ sound, fun done => nomatch done⟩)
    (fun _ => ⟨_, rfl, fun done => nomatch done⟩) rest

theorem shadows_expansion : Shadows Intact I (.coded "epistemic_search_budget")
    (PolicyM.chargeExpansion x.limits) (.ok ⟨⟩) :=
  shadows_charge (charges_takeUnit unmetered .expansions)

theorem delivers_attempt (support : Support) (actionId : Identifier) :
    Delivers Intact I (x.attempt support actionId)
      (x.Attempted support actionId) (x.Decisive support actionId) := by
  have limited : ∀ code, code ∈ limitCodes → Delivers Intact I
      (judging (.coded code)) (x.Attempted support actionId) (x.Decisive support actionId) := by
    intro code listed
    rw [judging, if_pos listed]
    exact delivers_exhausted unmetered (delivers_pure trivial trivial)
  refine delivers_caught (Domain.shadows_advance (shadows_expansion unmetered) support actionId)
    (fun found advanced => ⟨advanced, trivial⟩) (limited _ (by simp [limitCodes]))
    fun fault failed => ?_
  cases fault with
  | crash exception => exact delivers_throw _
  | coded code =>
    by_cases listed : code ∈ limitCodes
    · exact limited code listed
    · rw [judging, if_neg listed]
      refine delivers_pure trivial fun found advanced => ?_
      rw [advanced] at failed
      exact nomatch failed

end unmetered

/-- What was found before is kept, and what is new is one of `wanted`. -/
def Adds (wanted : Policy → Prop) (found : List Policy) (tried : List Policy × Bool) : Prop :=
  ∀ p ∈ tried.1, p ∈ found ∨ wanted p

/-- No limit was met, and nothing that is `wanted` is missing. -/
def AddsAll (wanted : Policy → Prop) (found : List Policy) (tried : List Policy × Bool) : Prop :=
  tried.2 = true ∧ (∀ p ∈ found, p ∈ tried.1) ∧ ∀ p, wanted p → p ∈ tried.1

theorem delivers_unchanged {wanted : Policy → Prop} {found : List Policy}
    (none' : ∀ p, ¬ wanted p) : Delivers Intact (x.MemoSound roots)
      (pure (found, true) : PolicyM (List Policy × Bool)) (Adds wanted found)
      (AddsAll wanted found) :=
  delivers_pure (fun _ member => .inl member)
    ⟨rfl, fun _ member => member, fun p holds => absurd holds (none' p)⟩

theorem delivers_assemble (support : Support) (actionId : Identifier) (entry : Bool)
    (branches : List (Identifier × Support)) : ∀ (lists : List (List Policy)) (found : List Policy),
    Delivers Intact (x.MemoSound roots) (x.assemble support actionId entry branches lists found)
      (Adds (fun p => ∃ children ∈ lists,
        p = decisionPolicy hash support actionId entry branches children) found)
      (AddsAll (fun p => ∃ children ∈ lists,
        p = decisionPolicy hash support actionId entry branches children) found) := by
  intro lists
  induction lists with
  | nil => exact fun found => delivers_unchanged (by simp)
  | cons children lists ih =>
    intro found
    let policy := decisionPolicy hash support actionId entry branches children
    let wanted := fun p : Policy => ∃ children' ∈ children :: lists,
      p = decisionPolicy hash support actionId entry branches children'
    have stopped : Delivers Intact (x.MemoSound roots)
        (pure (found, false) : PolicyM (List Policy × Bool)) (Adds wanted found) fun _ => True :=
      delivers_pure (fun _ member => .inl member) trivial
    have goesOn : Delivers Intact (x.MemoSound roots)
        (x.assemble support actionId entry branches lists (found ++ [policy])) (Adds wanted found)
        (AddsAll wanted found) := by
      refine (ih (found ++ [policy])).mono ?_ ?_
      · intro tried holds p member
        rcases holds p member with before | ⟨others, listed, rfl⟩
        · rcases List.mem_append.mp before with earlier | here
          · exact .inl earlier
          · exact .inr ⟨children, List.mem_cons_self, List.mem_singleton.mp here⟩
        · exact .inr ⟨others, List.mem_cons_of_mem _ listed, rfl⟩
      · rintro tried - ⟨going, kept, all⟩
        refine ⟨going, fun p member => kept p (List.mem_append_left _ member), ?_⟩
        rintro p ⟨others, listed, rfl⟩
        rcases List.mem_cons.mp listed with rfl | rest
        · exact kept _ (List.mem_append_right _ (List.mem_singleton_self _))
        · exact all _ ⟨others, rest, rfl⟩
    have charged : Delivers Intact (x.MemoSound roots)
        (PolicyM.take x.limits .policies >>= fun paid => if paid = true then do
            modify fun σ => { σ with storedNodes := σ.storedNodes + policy.nodes }
            x.assemble support actionId entry branches lists (found ++ [policy])
          else pure (found, false)) (Adds wanted found) (AddsAll wanted found) :=
      delivers_charge (charges_takeUnit MemoSound.unmetered .policies)
        (delivers_modify (fun _ sound => sound) (fun _ done => done) goesOn) stopped
    rw [assemble]
    refine delivers_get fun σ start tried τ run => ?_
    split at run
    case isTrue => exact delivers_exhausted MemoSound.unmetered stopped σ tried τ start run
    case isFalse => exact charged σ tried τ start run

section choices
variable {recur : Support → PolicyM (List Policy)} {rest : Support → Policy → Prop}

theorem delivers_tryAction (support : Support) (entry : Bool) (selected : Support)
    (actionId : Identifier)
    (below : ∀ branches, x.domain.advance selected actionId = .ok branches → ∀ b ∈ branches,
      Delivers Intact (x.MemoSound roots) (recur b.2) (fun ps => ∀ p ∈ ps, rest b.2 p)
        fun ps => ∀ p, rest b.2 p → p ∈ ps) (found : List Policy) :
    Delivers Intact (x.MemoSound roots) (x.tryAction recur support entry selected actionId found)
      (Adds (x.Decides rest support entry selected actionId) found)
      (AddsAll (x.Decides rest support entry selected actionId) found) := by
  unfold tryAction
  refine delivers_bind (delivers_attempt MemoSound.unmetered selected actionId) fun attempt attempted => ?_
  cases attempt with
  | ruledOut =>
    refine delivers_pure (fun _ member => .inl member) fun refused => ?_
    refine ⟨rfl, fun _ member => member, ?_⟩
    rintro p ⟨branches, children, advanced, -⟩
    exact absurd advanced (refused branches)
  | limited => exact delivers_pure (fun _ member => .inl member) False.elim
  | branches branches =>
    have advanced : x.domain.advance selected actionId = .ok branches := attempted
    refine delivers_bind (delivers_mapM (below branches advanced)) fun options sound => ?_
    split
    case isTrue missing =>
      refine delivers_pure (fun _ member => .inl member) fun full _ => ?_
      refine ⟨rfl, fun _ member => member, ?_⟩
      rintro p ⟨branches', children, advanced', each, -⟩
      cases advanced.symm.trans advanced'
      obtain ⟨none', listed, empty⟩ := List.any_eq_true.mp missing
      obtain ⟨b, branch, all⟩ := forall₂_mem_right full none' listed
      obtain ⟨child, -, feasible⟩ := forall₂_mem_left each b branch
      have impossible := all child feasible
      rw [List.isEmpty_iff.mp empty] at impossible
      exact absurd impossible List.not_mem_nil
    case isFalse =>
      refine (delivers_assemble support actionId entry branches (product options) found).mono ?_ ?_
      · intro tried adds p member
        refine (adds p member).imp_right ?_
        rintro ⟨children, picked, rfl⟩
        refine ⟨branches, children, advanced, ?_, rfl⟩
        exact forall₂_compose (fun b options child all chosen => all child chosen) sound
          (mem_product.mp picked).flip
      · rintro tried - ⟨going, kept, all⟩ full -
        refine ⟨going, kept, ?_⟩
        rintro p ⟨branches', children, advanced', each, rfl⟩
        cases advanced.symm.trans advanced'
        refine all _ ⟨children, mem_product.mpr ?_, rfl⟩
        exact forall₂_compose (fun child b options feasible all => all child feasible) each.flip full

theorem delivers_tryAll (support : Support) : ∀ (choices : List ((Bool × Support) × Identifier))
    (found : List Policy), (∀ choice ∈ choices, ∀ branches,
      x.domain.advance choice.1.2 choice.2 = .ok branches → ∀ b ∈ branches,
      Delivers Intact (x.MemoSound roots) (recur b.2) (fun ps => ∀ p ∈ ps, rest b.2 p)
        fun ps => ∀ p, rest b.2 p → p ∈ ps) →
    Delivers Intact (x.MemoSound roots) (x.tryAll recur support choices found)
      (Adds (fun p => ∃ choice ∈ choices,
        x.Decides rest support choice.1.1 choice.1.2 choice.2 p) found)
      (AddsAll (fun p => ∃ choice ∈ choices,
        x.Decides rest support choice.1.1 choice.1.2 choice.2 p) found) := by
  intro choices
  induction choices with
  | nil => exact fun found _ => delivers_unchanged (by simp)
  | cons choice choices ih =>
    intro found below
    obtain ⟨first, others⟩ := List.forall_mem_cons.mp below
    rw [tryAll]
    refine delivers_bind (delivers_tryAction support choice.1.1 choice.1.2 choice.2 first found)
      fun tried adds => ?_
    split
    case isTrue going =>
      refine (ih tried.1 others).mono ?_ ?_
      · intro tried' adds' p member
        rcases adds' p member with before | ⟨other, listed, decides⟩
        · refine (adds p before).imp_right fun decides => ?_
          exact ⟨choice, List.mem_cons_self, decides⟩
        · exact .inr ⟨other, List.mem_cons_of_mem _ listed, decides⟩
      · rintro tried' - ⟨going', kept', all'⟩ ⟨-, kept, all⟩
        refine ⟨going', fun p member => kept' p (kept p member), ?_⟩
        rintro p ⟨other, listed, decides⟩
        rcases List.mem_cons.mp listed with rfl | later
        · exact kept' p (all p decides)
        · exact all' p ⟨other, later, decides⟩
    case isFalse stopped =>
      refine delivers_pure (fun p member => ?_) fun full => absurd full.1 stopped
      exact (adds p member).imp_right fun decides => ⟨choice, List.mem_cons_self, decides⟩

theorem mem_choices {options : List (Bool × Support)} {choice : (Bool × Support) × Identifier} :
    choice ∈ x.choices options ↔ choice.1 ∈ options ∧ choice.2 ∈ x.domain.recipes := by
  obtain ⟨selected, actionId⟩ := choice
  simp [choices]

theorem Decides.known {support selected : Support} {entry : Bool} {actionId : Identifier}
    {p : Policy} (decides : x.Decides rest support entry selected actionId p) :
    actionId ∈ x.domain.recipes := by
  obtain ⟨branches, children, advanced, -⟩ := decides
  obtain ⟨recipe, lists, chosen, -⟩ := Domain.advance_ok.mp advanced
  obtain ⟨-, named, -⟩ := Domain.chosenRecipe_ok.mp chosen
  exact Std.ExtTreeMap.mem_iff_isSome_getElem?.mpr (by rw [named]; rfl)

theorem Selects.reached {support selected : Support} {entry : Bool}
    (selects : x.Selects support entry selected)
    (reached : x.domain.ReachedSupport roots support) : x.domain.ReachedSupport roots selected := by
  rcases selects with ⟨-, rfl⟩ | ⟨-, -, -, marking⟩
  · exact reached
  · exact .entered reached marking

/-- Everything that acts at a support, in the terms of the search's own choices. -/
def ActsAt (x : PolicySearch hash) (rest : Support → Policy → Prop) (support : Support)
    (p : Policy) : Prop :=
  ∃ entry selected actionId, x.Selects support entry selected ∧
    x.Decides rest support entry selected actionId p

theorem delivers_expand (apart : x.domain.SupportsApart roots) {depth : ℕ} {support : Support}
    (reached : x.domain.ReachedSupport roots support) (undecided : x.Undecided depth support)
    (below : ∀ next, x.domain.ReachedSupport roots next →
      Delivers Intact (x.MemoSound roots) (recur next) (fun ps => ∀ p ∈ ps, rest next p)
        fun ps => ∀ p, rest next p → p ∈ ps)
    (feasible : ∀ p, x.Feasible (x.domain.contract.spec.maxDecisions - depth) depth support p ↔
      x.ActsAt rest support p) :
    Delivers Intact (x.MemoSound roots) (x.expand recur depth support)
      (fun ps => ∀ p ∈ ps, x.ActsAt rest support p)
      (fun ps => ∀ p, x.ActsAt rest support p → p ∈ ps) := by
  unfold expand
  refine delivers_bind (delivers_known _) fun options selected => ?_
  have choosing : ∀ p, (∃ choice ∈ x.choices options,
      x.Decides rest support choice.1.1 choice.1.2 choice.2 p) ↔ x.ActsAt rest support p := by
    intro p
    constructor
    · rintro ⟨⟨⟨entry, next⟩, actionId⟩, listed, decides⟩
      exact ⟨entry, next, actionId, (selections_ok selected).mp (mem_choices.mp listed).1, decides⟩
    · rintro ⟨entry, next, actionId, selects, decides⟩
      exact ⟨((entry, next), actionId),
        mem_choices.mpr ⟨(selections_ok selected).mpr selects, decides.known⟩, decides⟩
  have inside : ∀ choice ∈ x.choices options, ∀ branches,
      x.domain.advance choice.1.2 choice.2 = .ok branches → ∀ b ∈ branches,
      Delivers Intact (x.MemoSound roots) (recur b.2) (fun ps => ∀ p ∈ ps, rest b.2 p)
        fun ps => ∀ p, rest b.2 p → p ∈ ps := by
    rintro ⟨⟨entry, next⟩, actionId⟩ listed branches advanced b branch
    have selects := (selections_ok selected).mp (mem_choices.mp listed).1
    exact below b.2 (.branch (selects.reached reached) advanced branch)
  have each := delivers_tryAll support (x.choices options) [] inside
  refine delivers_store (fun tried σ =>
      { σ with memo := ((hash.support support, depth), tried.1) :: σ.memo })
    (fun tried σ => tried.2 && σ.budget.complete) Prod.fst each ?_ ?_ ?_ ?_
  · rintro tried σ adds ⟨-, -, all⟩ sound support' depth' policies reached' listed
    rcases List.mem_cons.mp listed with here | earlier
    · obtain ⟨key, rfl⟩ := Prod.mk.inj here
      obtain ⟨digest, rfl⟩ := Prod.mk.inj key
      cases apart _ _ reached' reached digest
      intro p
      rw [feasible, ← choosing]
      constructor
      · exact fun member => (adds p member).resolve_left List.not_mem_nil
      · exact all p
    · exact sound support' depth' policies reached' earlier
  · intro tried σ now
    exact (Bool.and_eq_true _ _ ▸ now).2
  · exact fun tried adds p member =>
      (choosing p).mp ((adds p member).resolve_left List.not_mem_nil)
  · exact fun tried adds full _ p acts => full.2.2 p ((choosing p).mpr acts)

theorem delivers_step (apart : x.domain.SupportsApart roots) {depth : ℕ} {support : Support}
    (reached : x.domain.ReachedSupport roots support)
    (below : ∀ next, x.domain.ReachedSupport roots next →
      Delivers Intact (x.MemoSound roots) (recur next) (fun ps => ∀ p ∈ ps, rest next p)
        fun ps => ∀ p, rest next p → p ∈ ps)
    (feasible : ∀ p, x.Feasible (x.domain.contract.spec.maxDecisions - depth) depth support p ↔
      x.Stops support p ∨ x.Undecided depth support ∧ x.ActsAt rest support p) :
    Delivers Intact (x.MemoSound roots) (x.enumerateStep recur depth support)
      (fun ps => ∀ p ∈ ps,
        x.Feasible (x.domain.contract.spec.maxDecisions - depth) depth support p)
      (fun ps => ∀ p,
        x.Feasible (x.domain.contract.spec.maxDecisions - depth) depth support p → p ∈ ps) := by
  let sound := fun ps : List Policy => ∀ p ∈ ps,
    x.Feasible (x.domain.contract.spec.maxDecisions - depth) depth support p
  let full := fun ps : List Policy => ∀ p,
    x.Feasible (x.domain.contract.spec.maxDecisions - depth) depth support p → p ∈ ps
  -- What is neither at its end nor undecided has no policy.
  have stuck : x.domain.terminal support x.endpoint = .ok false → ¬ x.Undecided depth support →
      Delivers Intact (x.MemoSound roots) (pure [] : PolicyM (List Policy)) sound full := by
    intro running decided
    refine delivers_pure (by simp [sound]) fun p holds => ?_
    rcases (feasible p).mp holds with ⟨ended, -⟩ | ⟨undecided, -⟩
    · rw [running] at ended
      exact nomatch ended
    · exact absurd undecided decided
  have early : Delivers Intact (x.MemoSound roots) (pure [] : PolicyM (List Policy)) sound
      fun _ => True := delivers_pure (by simp [sound]) trivial
  have fresh : Delivers Intact (x.MemoSound roots)
      (PolicyM.take x.limits .states >>= fun paid => if paid = true then do
          PolicyM.reachDepth depth
          if ← x.domain.terminal support x.endpoint then pure [leafPolicy hash support]
          else if x.domain.contract.spec.maxDecisions ≤ depth then pure []
          else if x.domain.depthLimit ≤ depth then
            PolicyM.exhaust
            pure []
          else if ∃ h ∈ support, x.stop h ≤ F h.state.elapsed then pure []
          else x.expand recur depth support
        else pure []) sound full := by
    refine delivers_charge (charges_takeUnit MemoSound.unmetered .states) ?_ early
    refine delivers_modify (fun _ sound => sound) (fun _ done => done) ?_
    refine delivers_bind (delivers_known _) fun ended answer => ?_
    cases ended with
    | true =>
      refine delivers_pure ?_ fun _ p holds => ?_
      · intro p member
        rw [List.mem_singleton.mp member]
        exact (feasible _).mpr (.inl ⟨answer, rfl⟩)
      · rcases (feasible p).mp holds with ⟨-, rfl⟩ | ⟨undecided, -⟩
        · exact List.mem_singleton_self _
        · rw [undecided.running] at answer
          exact nomatch answer
    | false =>
      suffices each : Delivers Intact (x.MemoSound roots) _ sound full from
        each.mono (fun _ holds => holds) fun _ _ all _ => all
      simp only [Bool.false_eq_true, if_false]
      split
      case isTrue late => exact stuck answer fun undecided => absurd undecided.decisions (by omega)
      case isFalse decisions =>
        split
        case isTrue => exact delivers_exhausted MemoSound.unmetered early
        case isFalse limit =>
          split
          case isTrue late =>
            obtain ⟨h, listed, past⟩ := late
            exact stuck answer fun undecided => absurd (undecided.inTime h listed) (not_lt.mpr past)
          case isFalse inTime =>
            push Not at inTime decisions limit
            have undecided : x.Undecided depth support := ⟨answer, decisions, limit, inTime⟩
            have acts : ∀ p, x.Feasible (x.domain.contract.spec.maxDecisions - depth) depth
                support p ↔ x.ActsAt rest support p := by
              intro p
              rw [feasible]
              constructor
              · rintro (⟨ended, -⟩ | ⟨-, acts⟩)
                · rw [answer] at ended
                  exact nomatch ended
                · exact acts
              · exact fun acts => .inr ⟨undecided, acts⟩
            exact (delivers_expand apart reached undecided below acts).mono
              (fun _ holds p member => (acts p).mpr (holds p member))
              fun _ _ all p holds => all p ((acts p).mp holds)
  unfold enumerateStep
  refine delivers_get fun σ memo ps τ run => ?_
  cases known : σ.memo.lookup (hash.support support, depth) with
  | some found =>
    simp only [known] at run
    cases run
    have exactly := memo support depth ps reached (mem_of_lookup known)
    exact ⟨memo, fun p member => (exactly p).mp member,
      fun done => ⟨done, fun p holds => (exactly p).mpr holds⟩⟩
  | none =>
    simp only [known] at run
    exact fresh σ ps τ memo run

end choices

theorem delivers_enumerate (apart : x.domain.SupportsApart roots) :
    ∀ (left depth : ℕ) (support : Support), left = x.domain.contract.spec.maxDecisions - depth →
      x.domain.ReachedSupport roots support →
      Delivers Intact (x.MemoSound roots) (x.enumerateWithin left depth support)
        (fun ps => ∀ p ∈ ps, x.Feasible left depth support p)
        fun ps => ∀ p, x.Feasible left depth support p → p ∈ ps := by
  intro left
  induction left with
  | zero =>
    intro depth support fuel reached
    rw [enumerateWithin]
    have nothing : ∀ next, x.domain.ReachedSupport roots next →
        Delivers Intact (x.MemoSound roots) (pure [] : PolicyM (List Policy))
          (fun ps => ∀ p ∈ ps, False) fun ps => ∀ p, False → p ∈ ps :=
      fun _ _ => delivers_pure (by simp) (by simp)
    have stops : ∀ p, x.Feasible (x.domain.contract.spec.maxDecisions - depth) depth support p ↔
        x.Stops support p ∨
          x.Undecided depth support ∧ x.ActsAt (fun _ _ => False) support p := by
      intro p
      rw [← fuel]
      constructor
      · exact .inl
      · rintro (stops | ⟨undecided, -⟩)
        · exact stops
        · exact absurd undecided.decisions (by omega)
    have step := delivers_step apart reached nothing stops
    rwa [← fuel] at step
  | succ left ih =>
    intro depth support fuel reached
    rw [enumerateWithin]
    have below : ∀ next, x.domain.ReachedSupport roots next →
        Delivers Intact (x.MemoSound roots) (x.enumerateWithin left (depth + 1) next)
          (fun ps => ∀ p ∈ ps, x.Feasible left (depth + 1) next p)
          fun ps => ∀ p, x.Feasible left (depth + 1) next p → p ∈ ps :=
      fun next reached' => ih (depth + 1) next (by omega) reached'
    have acts : ∀ p, x.Feasible (x.domain.contract.spec.maxDecisions - depth) depth support p ↔
        x.Stops support p ∨
          x.Undecided depth support ∧ x.ActsAt (x.Feasible left (depth + 1)) support p := by
      intro p
      rw [← fuel]
      exact Iff.rfl
    have step := delivers_step apart reached below acts
    rwa [← fuel] at step

end search

end PolicySearch

end CollectivePhaseControl
