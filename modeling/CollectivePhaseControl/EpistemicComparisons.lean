import CollectivePhaseControl.EpistemicPolicies

/-! Two computations of one bound. The search enumerates policies and takes the best of their
worst leaves; the reference folds the bounds over the branches, without a memo and without
policies. Both compute the best worst case that a feasible policy guarantees. -/
namespace CollectivePhaseControl

open BudgetedSearch

variable {hash : EpistemicHashing}

namespace Domain
variable {d : Domain hash} {bound : Bound}

theorem worstOf_ok {support : Support} {v : ℚ} : d.worstOf bound support = .ok v ↔
    (∀ h ∈ support, ∃ a, attainment d.contract.spec h.state bound = .ok a) ∧
      Worst d.contract.spec bound (support.map (·.state)) v := by
  simp only [worstOf, bind_ok, mapM_ok]
  constructor
  · rintro ⟨attained, each, smallest⟩
    obtain ⟨listed, lower⟩ := least_ok.mp smallest
    refine ⟨fun h member => ?_, ?_, ?_⟩
    · obtain ⟨a, -, value⟩ := forall₂_mem_left each h member
      exact ⟨a, value⟩
    · obtain ⟨h, member, value⟩ := forall₂_mem_right each v listed
      exact ⟨h.state, List.mem_map_of_mem member, value⟩
    · rintro a ⟨s, member, value⟩
      obtain ⟨h, inSupport, rfl⟩ := List.mem_map.mp member
      obtain ⟨b, inAttained, value'⟩ := forall₂_mem_left each h inSupport
      cases value.symm.trans value'
      exact lower inAttained
  · rintro ⟨total, ⟨s, member, value⟩, lower⟩
    obtain ⟨attained, each⟩ := mapM_total total
    rw [mapM_ok] at each
    refine ⟨attained, each, least_ok.mpr ⟨?_, ?_⟩⟩
    · obtain ⟨h, inSupport, rfl⟩ := List.mem_map.mp member
      obtain ⟨b, inAttained, value'⟩ := forall₂_mem_left each h inSupport
      cases value.symm.trans value'
      exact inAttained
    · intro b inAttained
      obtain ⟨h, inSupport, value'⟩ := forall₂_mem_right each b inAttained
      exact lower ⟨h.state, List.mem_map_of_mem inSupport, value'⟩

theorem worstOf_flatten {parts : List Support} (some' : ∀ part ∈ parts, part ≠ []) {v : ℚ} :
    d.worstOf bound parts.flatten = .ok v ↔ ∃ values,
      List.Forall₂ (fun part w => d.worstOf bound part = .ok w) parts values ∧
        values.min? = some v := by
  have flattened : parts.flatten.map (·.state) = (parts.map (·.map (·.state))).flatten := by
    rw [List.map_flatten]
  constructor
  · intro h
    obtain ⟨total, least⟩ := worstOf_ok.mp h
    have each : ∀ part ∈ parts, ∃ w, d.worstOf bound part = .ok w := by
      intro part listed
      have attained : ∀ h ∈ part, ∃ a, attainment d.contract.spec h.state bound = .ok a :=
        fun h member => total h (List.mem_flatten.mpr ⟨part, listed, member⟩)
      have nonempty : part.map (·.state) ≠ [] := by simpa using some' part listed
      have values : ∀ s ∈ part.map (·.state), ∃ a, attainment d.contract.spec s bound = .ok a := by
        simpa using attained
      obtain ⟨w, worst⟩ := worst_total nonempty values
      exact ⟨w, worstOf_ok.mpr ⟨attained, worst⟩⟩
    obtain ⟨values, worst⟩ := mapM_total each
    rw [mapM_ok] at worst
    have nonempty : values ≠ [] := by
      rintro rfl
      rw [List.forall₂_nil_right_iff] at worst
      subst worst
      obtain ⟨s, impossible, -⟩ := least.1
      exact absurd impossible List.not_mem_nil
    obtain ⟨w, smallest⟩ := MaxMin.exists_min? nonempty
    have both : Worst d.contract.spec bound (parts.flatten.map (·.state)) w := by
      rw [flattened]
      refine worst_flatten ?_ smallest
      rw [List.forall₂_map_left_iff]
      exact worst.imp fun part w same => (worstOf_ok.mp same).2
    cases least.unique both
    exact ⟨values, worst, smallest⟩
  · rintro ⟨values, worst, smallest⟩
    refine worstOf_ok.mpr ⟨fun h member => ?_, ?_⟩
    · obtain ⟨part, listed, inPart⟩ := List.mem_flatten.mp member
      obtain ⟨w, -, same⟩ := forall₂_mem_left worst part listed
      exact (worstOf_ok.mp same).1 h inPart
    · rw [flattened]
      refine worst_flatten ?_ smallest
      rw [List.forall₂_map_left_iff]
      exact worst.imp fun part w same => (worstOf_ok.mp same).2

end Domain

namespace PolicySearch
variable {x : PolicySearch hash} {bound : Bound}

def guaranteed (x : PolicySearch hash) (bound : Bound) (left depth : ℕ) (support : Support) :
    Set ℚ :=
  {v | ∃ p, x.Feasible left depth support p ∧ x.domain.worstOf bound p.leaves = .ok v}

def guaranteedBy (x : PolicySearch hash) (bound : Bound) (left depth : ℕ) (support : Support)
    (actionId : Identifier) : Set ℚ :=
  {v | ∃ p, x.Decides (x.Feasible left (depth + 1)) support false support actionId p ∧
    x.domain.worstOf bound p.leaves = .ok v}

theorem terminal_ne_nil {support : Support}
    (h : x.domain.terminal support x.endpoint = .ok true) : support ≠ [] := by
  rintro rfl
  exact nomatch h

theorem Feasible.support_ne_nil {left depth : ℕ} {support : Support} {p : Policy}
    (feasible : x.Feasible left depth support p) : support ≠ [] := by
  cases left with
  | zero => exact terminal_ne_nil feasible.1
  | succ left =>
    rcases feasible with ⟨ended, -⟩ | ⟨-, entry, selected, actionId, selects, branches, children,
      advanced, -⟩
    · exact terminal_ne_nil ended
    · obtain ⟨recipe, lists, chosen, -⟩ := Domain.advance_ok.mp advanced
      obtain ⟨some', -⟩ := Domain.chosenRecipe_ok.mp chosen
      rcases selects with ⟨-, rfl⟩ | ⟨-, -, -, marking⟩
      · exact some'
      · exact (Domain.markEntry_ok.mp marking).1

theorem Feasible.leaves_ne_nil : ∀ {left depth : ℕ} {support : Support} {p : Policy},
    x.Feasible left depth support p → p.leaves ≠ [] := by
  intro left
  induction left with
  | zero =>
    rintro depth support p ⟨ended, rfl⟩
    exact terminal_ne_nil ended
  | succ left ih =>
    rintro depth support p (⟨ended, rfl⟩ | ⟨-, entry, selected, actionId, -, branches, children,
      advanced, each, rfl⟩)
    · exact terminal_ne_nil ended
    · obtain ⟨b, branch⟩ := List.exists_mem_of_ne_nil _ (Domain.advance_ne_nil advanced)
      obtain ⟨child, listed, feasible⟩ := forall₂_mem_left each b branch
      obtain ⟨leaf, member⟩ := List.exists_mem_of_ne_nil _ (ih feasible)
      exact List.ne_nil_of_mem (List.mem_flatMap.mpr ⟨child, listed, member⟩)

theorem guaranteedBy_eq {left depth : ℕ} {support : Support} {actionId : Identifier}
    {branches : List (Identifier × Support)}
    (advanced : x.domain.advance support actionId = .ok branches) :
    x.guaranteedBy bound left depth support actionId =
      MaxMin.minima (branches.map fun b => x.guaranteed bound left (depth + 1) b.2) := by
  ext v
  constructor
  · rintro ⟨p, ⟨branches', children, advanced', each, rfl⟩, worst⟩
    cases advanced.symm.trans advanced'
    have parts : ∀ part ∈ children.map (·.leaves), part ≠ [] := by
      intro part listed
      obtain ⟨child, inChildren, rfl⟩ := List.mem_map.mp listed
      obtain ⟨b, -, feasible⟩ := forall₂_mem_right each child inChildren
      exact feasible.leaves_ne_nil
    have worst' : x.domain.worstOf bound (children.map (·.leaves)).flatten = .ok v := worst
    obtain ⟨values, worsts, smallest⟩ := (Domain.worstOf_flatten parts).mp worst'
    rw [List.forall₂_map_left_iff] at worsts
    refine ⟨values, ?_, smallest⟩
    rw [List.forall₂_map_right_iff]
    exact (forall₂_compose (fun b child w feasible least => ⟨child, feasible, least⟩) each worsts).flip
  · rintro ⟨picks, picked, smallest⟩
    rw [List.forall₂_map_right_iff] at picked
    have chosen : ∃ children,
        List.Forall₂ (fun b child => x.Feasible left (depth + 1) b.2 child) branches children ∧
          List.Forall₂ (fun child w => x.domain.worstOf bound child.leaves = .ok w) children
            picks := by
      clear smallest advanced
      induction picked with
      | nil => exact ⟨[], .nil, .nil⟩
      | cons head _ ih =>
        obtain ⟨children, each, worsts⟩ := ih
        obtain ⟨child, feasible, least⟩ := head
        exact ⟨child :: children, .cons feasible each, .cons least worsts⟩
    obtain ⟨children, each, worsts⟩ := chosen
    refine ⟨_, ⟨branches, children, advanced, each, rfl⟩, ?_⟩
    have parts : ∀ part ∈ children.map (·.leaves), part ≠ [] := by
      intro part listed
      obtain ⟨child, inChildren, rfl⟩ := List.mem_map.mp listed
      obtain ⟨b, -, feasible⟩ := forall₂_mem_right each child inChildren
      exact feasible.leaves_ne_nil
    refine (Domain.worstOf_flatten parts).mpr ⟨picks, ?_, smallest⟩
    rwa [List.forall₂_map_left_iff]

section fixed
variable {time : ℚ} (fixed : x.endpoint = some time)
include fixed

theorem terminal_fixed (support : Support) : x.domain.terminal support x.endpoint =
    .ok (decide (support ≠ [] ∧ ∀ h ∈ support, F h.state.elapsed = time)) := by
  have each : ∀ rest : Support, rest.allM (fun h => CollectivePhaseControl.terminal
      x.domain.contract.spec x.endpoint h.state h.entry) =
        .ok (decide (∀ h ∈ rest, F h.state.elapsed = time)) := by
    intro rest
    induction rest with
    | nil => rfl
    | cons h rest ih =>
      rw [List.allM, ih, fixed, CollectivePhaseControl.terminal]
      by_cases here : F h.state.elapsed = time <;> simp [here, ok_bind, pure, Except.pure]
  unfold Domain.terminal
  split
  case isTrue nothing => simp [nothing, pure, Except.pure]
  case isFalse some' => simp [each, some']

theorem stops_iff {support : Support} {p : Policy} : x.Stops support p ↔
    (support ≠ [] ∧ ∀ h ∈ support, F h.state.elapsed = time) ∧ p = leafPolicy hash support := by
  rw [Stops, terminal_fixed fixed]
  simp

theorem guaranteed_ended {left depth : ℕ} {support : Support} (some' : support ≠ [])
    (ended : ∀ h ∈ support, F h.state.elapsed = time) {v : ℚ} :
    v ∈ x.guaranteed bound left depth support ↔ x.domain.worstOf bound support = .ok v := by
  have only : ∀ p, x.Feasible left depth support p ↔ p = leafPolicy hash support := by
    intro p
    have running : ¬ x.Undecided depth support := by
      intro undecided
      have answer := undecided.running
      rw [terminal_fixed fixed] at answer
      simp [some'] at answer
      obtain ⟨h, member, late⟩ := answer
      exact late (ended h member)
    have stops : x.Stops support p ↔ p = leafPolicy hash support := by
      rw [stops_iff fixed]
      exact and_iff_right ⟨some', ended⟩
    cases left with
    | zero => exact stops
    | succ left => simp [Feasible, stops, running]
  constructor
  · rintro ⟨p, feasible, worst⟩
    rw [(only p).mp feasible] at worst
    exact worst
  · exact fun worst => ⟨_, (only _).mpr rfl, worst⟩

theorem guaranteed_stuck {left depth : ℕ} {support : Support}
    (running : ¬ ∀ h ∈ support, F h.state.elapsed = time) (decided : ¬ x.Undecided depth support) :
    x.guaranteed bound left depth support = ∅ := by
  refine Set.eq_empty_iff_forall_notMem.mpr ?_
  rintro v ⟨p, feasible, -⟩
  have stops : ¬ x.Stops support p := by
    rw [stops_iff fixed]
    exact fun ended => running ended.1.2
  cases left with
  | zero => exact stops feasible
  | succ left =>
    rcases feasible with ended | ⟨undecided, -⟩
    · exact stops ended
    · exact decided undecided

theorem guaranteed_undecided {left depth : ℕ} {support : Support}
    (undecided : x.Undecided depth support) : x.guaranteed bound (left + 1) depth support =
      {v | ∃ values ∈ x.domain.recipes.keys.map (x.guaranteedBy bound left depth support),
        v ∈ values} := by
  ext v
  constructor
  · rintro ⟨p, ⟨ended, -⟩ | ⟨-, entry, selected, actionId, selects, decides⟩, worst⟩
    · rw [undecided.running] at ended
      exact nomatch ended
    · rcases selects with ⟨rfl, rfl⟩ | ⟨-, free, -⟩
      · refine ⟨_, List.mem_map.mpr ⟨actionId, ?_, rfl⟩, p, decides, worst⟩
        exact Std.ExtTreeMap.mem_keys.mpr decides.known
      · rw [fixed] at free
        exact nomatch free
  · rintro ⟨values, listed, member⟩
    obtain ⟨actionId, -, rfl⟩ := List.mem_map.mp listed
    obtain ⟨p, decides, worst⟩ := member
    exact ⟨p, .inr ⟨undecided, false, support, actionId, .inl ⟨rfl, rfl⟩, decides⟩, worst⟩

end fixed

def Solves (x : PolicySearch hash) (left depth : ℕ) (support : Support)
    (result : Option (ℚ × ℚ)) : Prop :=
  MaxMin.Best (x.guaranteed .lower left depth support) (result.map Prod.fst) ∧
    MaxMin.Best (x.guaranteed .upper left depth support) (result.map Prod.snd)

def Returns {α : Type} (m : BudgetM α) (sound : α → Prop) : Prop :=
  Delivers (fun _ => True) (fun _ => True) m sound fun _ => True

theorem returns_charge {limits : GrowthSearchLimits} {counter : Counter} {code : String} :
    Returns (BudgetM.charge limits counter code) fun _ => True :=
  fun _ _ _ _ _ => ⟨trivial, trivial, fun _ => ⟨trivial, trivial⟩⟩

theorem returns_bind {α β : Type} {m : BudgetM α} {f : α → BudgetM β} {sound : α → Prop}
    {sound' : β → Prop} (head : Returns m sound) (tail : ∀ a, sound a → Returns (f a) sound') :
    Returns (m >>= f) sound' :=
  delivers_bind head fun a holds => (tail a holds).mono (fun _ holds' => holds') fun _ _ _ _ => trivial

theorem returns_lift {α : Type} (y : Checked α) :
    Returns (liftM y : BudgetM α) fun a => y = .ok a :=
  delivers_lift (fun _ same => same) fun _ _ => trivial

theorem returns_pure {α : Type} {a : α} {sound : α → Prop} (holds : sound a) :
    Returns (pure a : BudgetM α) sound := delivers_pure holds trivial

theorem returns_mapM {α β : Type} {f : α → BudgetM β} {sound : α → β → Prop} {xs : List α}
    (each : ∀ a ∈ xs, Returns (f a) (sound a)) :
    Returns (xs.mapM f) (List.Forall₂ sound xs) :=
  (delivers_mapM each).mono (fun _ holds => holds) fun _ _ _ => trivial

def BranchesOf (x : PolicySearch hash) (support : Support) (actionId : Identifier) :
    Option (List (Identifier × Support)) → Prop
  | some found => x.domain.advance support actionId = .ok found
  | none => ∀ found, x.domain.advance support actionId ≠ .ok found

theorem returns_branches (support : Support) (actionId : Identifier) :
    Returns (x.domain.referenceBranches support actionId) (x.BranchesOf support actionId) := by
  have paid : Shadows (fun _ => True) (fun _ => True) (.coded "epistemic_search_budget")
      (BudgetM.charge x.domain.limits .expansions "epistemic_search_budget") (.ok ⟨⟩) := by
    refine ⟨fun _ _ => ⟨trivial, fun _ => trivial⟩, fun b _ => ?_⟩
    unfold BudgetM.charge
    split
    · exact .inl rfl
    · exact .inr rfl
  refine delivers_caught (Domain.shadows_advance paid support actionId)
    (fun found advanced => ⟨advanced, trivial⟩) ?_ fun fault failed => ?_
  · rw [Domain.rulingOut, if_pos (by simp)]
    exact delivers_throw _
  · cases fault with
    | crash exception => exact delivers_throw _
    | coded code =>
      rw [Domain.rulingOut]
      split
      · exact delivers_throw _
      · refine returns_pure fun found advanced => ?_
        rw [advanced] at failed
        exact nomatch failed

theorem map_some_reduceOption {α : Type} {xs : List (Option α)} (h : none ∉ xs) :
    xs.reduceOption.map some = xs := by
  induction xs with
  | nil => rfl
  | cons y xs ih =>
    rw [List.mem_cons, not_or] at h
    cases y with
    | none => exact absurd rfl h.1
    | some a => rw [List.reduceOption_cons_of_some, List.map_cons, ih h.2]

theorem worstPair_best {left depth : ℕ} {support : Support} {actionId : Identifier}
    {branches : List (Identifier × Support)} {children : List (Option (ℚ × ℚ))}
    (advanced : x.domain.advance support actionId = .ok branches)
    (solved : List.Forall₂ (fun b r => x.Solves left (depth + 1) b.2 r) branches children)
    {options : List (ℚ × ℚ)} (h : Domain.worstPair children = .ok options) :
    MaxMin.Best (x.guaranteedBy .lower left depth support actionId) (options.map Prod.fst).max? ∧
      MaxMin.Best (x.guaranteedBy .upper left depth support actionId)
        (options.map Prod.snd).max? := by
  rw [guaranteedBy_eq advanced, guaranteedBy_eq advanced]
  unfold Domain.worstPair at h
  split at h
  case isTrue missing =>
    cases h
    obtain ⟨b, branch, lower, upper⟩ := forall₂_mem_right solved none missing
    exact ⟨MaxMin.minima_eq_empty (List.mem_map.mpr ⟨b, branch, lower⟩),
      MaxMin.minima_eq_empty (List.mem_map.mpr ⟨b, branch, upper⟩)⟩
  case isFalse all =>
    simp only [bind_ok, pure_ok] at h
    obtain ⟨lower, lowest, upper, uppest, rfl⟩ := h
    rw [← map_some_reduceOption all, List.forall₂_map_right_iff] at solved
    have single : ∀ v : ℚ, [v].max? = some v := fun v => rfl
    simp only [List.map_cons, List.map_nil, single]
    rw [least, demand_ok] at lowest uppest
    constructor
    · refine MaxMin.greatest_minima ?_ lowest
      rw [List.forall₂_map_left_iff, List.forall₂_map_right_iff]
      exact solved.imp fun b r best => best.1
    · refine MaxMin.greatest_minima ?_ uppest
      rw [List.forall₂_map_left_iff, List.forall₂_map_right_iff]
      exact solved.imp fun b r best => best.2

theorem returns_options {recur : Support → BudgetM (Option (ℚ × ℚ))} {left depth : ℕ}
    (below : ∀ next, Returns (recur next) (x.Solves left (depth + 1) next)) (support : Support)
    (actionId : Identifier) : Returns (x.domain.referenceOptions recur support actionId)
      fun options =>
        MaxMin.Best (x.guaranteedBy .lower left depth support actionId)
          (options.map Prod.fst).max? ∧
        MaxMin.Best (x.guaranteedBy .upper left depth support actionId)
          (options.map Prod.snd).max? := by
  unfold Domain.referenceOptions
  refine returns_bind (returns_branches support actionId) fun found answered => ?_
  cases found with
  | none =>
    have nothing : ∀ bound, x.guaranteedBy bound left depth support actionId = ∅ := by
      intro bound
      refine Set.eq_empty_iff_forall_notMem.mpr ?_
      rintro v ⟨p, ⟨branches, children, advanced, -⟩, -⟩
      exact answered branches advanced
    exact returns_pure ⟨nothing _, nothing _⟩
  | some branches =>
    refine returns_bind (returns_mapM fun b _ => below b.2) fun children solved => ?_
    exact (returns_lift _).mono (fun options same => worstPair_best answered solved same)
      fun _ _ _ => trivial

theorem bestPair_map (options : List (ℚ × ℚ)) :
    (Domain.bestPair options).map Prod.fst = (options.map Prod.fst).max? ∧
      (Domain.bestPair options).map Prod.snd = (options.map Prod.snd).max? := by
  cases options with
  | nil => exact ⟨rfl, rfl⟩
  | cons p options =>
    have some' : ∀ f : ℚ × ℚ → ℚ, (p :: options).map f ≠ [] := fun f => List.cons_ne_nil _ _
    obtain ⟨lower, first⟩ := MaxMin.exists_max? (some' Prod.fst)
    obtain ⟨upper, second⟩ := MaxMin.exists_max? (some' Prod.snd)
    rw [Domain.bestPair, first, second]
    exact ⟨rfl, rfl⟩

theorem returns_step {time : ℚ} (fixed : x.endpoint = some time)
    {recur : Support → BudgetM (Option (ℚ × ℚ))} {left depth : ℕ}
    (below : 0 < left → ∀ next, Returns (recur next) (x.Solves (left - 1) (depth + 1) next))
    (fuel : left = x.domain.contract.spec.maxDecisions - depth) (support : Support) :
    Returns (x.domain.referenceStep time recur depth support) (x.Solves left depth support) := by
  unfold Domain.referenceStep
  refine returns_bind returns_charge fun _ _ => ?_
  refine delivers_modify (fun _ _ => trivial) (fun _ _ => trivial) ?_
  split
  case isTrue ended =>
    refine returns_bind (returns_lift _) fun lower lowest => ?_
    refine returns_bind (returns_lift _) fun upper uppest => returns_pure ?_
    have some' : support ≠ [] := by
      rintro rfl
      cases lowest
    have greatest : ∀ {bound : Bound} {v : ℚ}, x.domain.worstOf bound support = .ok v →
        IsGreatest (x.guaranteed bound left depth support) v := by
      intro bound v worst
      refine ⟨(guaranteed_ended fixed some' ended).mpr worst, fun w member => ?_⟩
      have other := (guaranteed_ended fixed some' ended).mp member
      rw [worst] at other
      cases other
      exact le_rfl
    exact ⟨greatest lowest, greatest uppest⟩
  case isFalse running =>
    split
    case isTrue late =>
      have stuck : ¬ x.Undecided depth support := by
        intro undecided
        rcases late with spent | ⟨h, member, past⟩
        · exact absurd undecided.decisions (by omega)
        · have before := undecided.inTime h member
          rw [stop, fixed] at before
          exact absurd before (not_lt.mpr past)
      exact returns_pure ⟨guaranteed_stuck fixed running stuck, guaranteed_stuck fixed running stuck⟩
    case isFalse inTime =>
      push Not at inTime
      refine returns_bind (returns_lift _) fun _ limit => ?_
      rw [require_ok] at limit
      have undecided : x.Undecided depth support := by
        refine ⟨?_, inTime.1, limit, fun h member => ?_⟩
        · rw [terminal_fixed fixed]
          simp [running]
        · rw [stop, fixed]
          exact inTime.2 h member
      obtain ⟨left, rfl⟩ : ∃ n, left = n + 1 := ⟨left - 1, by have := inTime.1; omega⟩
      refine returns_bind (returns_mapM fun actionId _ =>
        returns_options (below (Nat.succ_pos left)) support actionId) fun options best => ?_
      refine returns_pure ?_
      rw [Solves, guaranteed_undecided fixed undecided, guaranteed_undecided fixed undecided,
        (bestPair_map _).1, (bestPair_map _).2, List.map_flatten, List.map_flatten]
      constructor
      · apply MaxMin.best_union
        rw [List.forall₂_map_left_iff, List.forall₂_map_right_iff]
        exact best.imp fun actionId options both => both.1
      · apply MaxMin.best_union
        rw [List.forall₂_map_left_iff, List.forall₂_map_right_iff]
        exact best.imp fun actionId options both => both.2

theorem returns_value {time : ℚ} (fixed : x.endpoint = some time) : ∀ (left depth : ℕ)
    (support : Support), left = x.domain.contract.spec.maxDecisions - depth →
    Returns (x.domain.referenceValue time left depth support) (x.Solves left depth support) := by
  intro left
  induction left with
  | zero =>
    intro depth support fuel
    rw [Domain.referenceValue]
    exact returns_step fixed (fun impossible => absurd impossible (lt_irrefl 0)) fuel support
  | succ left ih =>
    intro depth support fuel
    rw [Domain.referenceValue]
    exact returns_step fixed (fun _ next => ih (depth + 1) next (by omega)) fuel support

end PolicySearch

end CollectivePhaseControl
