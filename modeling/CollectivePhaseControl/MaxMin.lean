import CollectivePhaseControl.Fallible

/-! The best worst case. A chooser picks an action, an adversary picks among the answers
to it, and both look at one value. The values that can be guaranteed are a set, its best is
an `Option`; the laws say what becomes of the best under a product over answers and a
union over actions. -/
namespace MaxMin

open Fallible

variable {V : Type*} [LinearOrder V]

/-- The greatest of a set, `none` when there is nothing to choose. -/
def Best (values : Set V) : Option V → Prop
  | some v => IsGreatest values v
  | none => values = ∅

theorem Best.unique {values : Set V} {v w : Option V} (first : Best values v)
    (second : Best values w) : v = w := by
  cases v with
  | none =>
    cases w with
    | none => rfl
    | some w => exact absurd second.1 (first ▸ Set.notMem_empty w)
  | some v =>
    cases w with
    | none => exact absurd first.1 (second ▸ Set.notMem_empty v)
    | some w => exact congrArg some (IsGreatest.unique first second)

theorem best_list {values : Set V} {found : List V} (listed : ∀ v, v ∈ found ↔ v ∈ values) :
    Best values found.max? := by
  cases top : found.max? with
  | none =>
    rw [List.max?_eq_none_iff] at top
    refine Set.eq_empty_iff_forall_notMem.mpr fun v member => ?_
    rw [← listed, top] at member
    exact absurd member List.not_mem_nil
  | some v =>
    obtain ⟨member, upper⟩ := List.max?_eq_some_iff.mp top
    exact ⟨(listed v).mp member, fun w inValues => upper w ((listed w).mpr inValues)⟩

def minima (sets : List (Set V)) : Set V :=
  {v | ∃ picks, List.Forall₂ (· ∈ ·) picks sets ∧ picks.min? = some v}

theorem exists_min? {values : List V} (some' : values ≠ []) : ∃ v, values.min? = some v := by
  cases found : values.min? with
  | none => exact absurd (List.min?_eq_none_iff.mp found) some'
  | some v => exact ⟨v, rfl⟩

theorem exists_max? {values : List V} (some' : values ≠ []) : ∃ v, values.max? = some v := by
  cases found : values.max? with
  | none => exact absurd (List.max?_eq_none_iff.mp found) some'
  | some v => exact ⟨v, rfl⟩

theorem min?_le_min? {picks tops : List V} (below : List.Forall₂ (· ≤ ·) picks tops) {v w : V}
    (least : picks.min? = some v) (top : tops.min? = some w) : v ≤ w := by
  obtain ⟨listed, -⟩ := List.min?_eq_some_iff.mp top
  obtain ⟨-, lower⟩ := List.min?_eq_some_iff.mp least
  obtain ⟨pick, chosen, le⟩ := forall₂_mem_right below w listed
  exact (lower pick chosen).trans le

theorem greatest_minima {sets : List (Set V)} {tops : List V} {v : V}
    (each : List.Forall₂ IsGreatest sets tops) (least : tops.min? = some v) :
    IsGreatest (minima sets) v := by
  constructor
  · exact ⟨tops, each.flip.imp fun _ _ greatest => greatest.1, least⟩
  · rintro w ⟨picks, chosen, lowest⟩
    refine min?_le_min? ?_ lowest least
    clear least lowest
    induction each generalizing picks with
    | nil =>
      cases chosen
      exact .nil
    | cons head _ ih =>
      cases chosen with
      | cons pick rest => exact .cons (head.2 pick) (ih _ rest)

theorem minima_eq_empty {sets : List (Set V)} (missing : ∅ ∈ sets) : minima sets = ∅ := by
  rw [Set.eq_empty_iff_forall_notMem]
  rintro v ⟨picks, chosen, -⟩
  obtain ⟨pick, -, impossible⟩ := forall₂_mem_right chosen ∅ missing
  exact impossible

/-- The best over several actions is the greatest of their bests, each the greatest of
some of its values. -/
theorem best_union {sets : List (Set V)} {found : List (List V)}
    (each : List.Forall₂ (fun values some' => Best values some'.max?) sets found) :
    Best {v | ∃ values ∈ sets, v ∈ values} found.flatten.max? := by
  have bounded : ∀ values ∈ sets, ∀ v ∈ values, ∃ w ∈ found.flatten, v ≤ w := by
    intro values listed v member
    obtain ⟨some', inFound, best⟩ := forall₂_mem_left each values listed
    cases top : some'.max? with
    | none =>
      rw [top] at best
      rw [show values = ∅ from best] at member
      exact absurd member (Set.notMem_empty v)
    | some w =>
      rw [top] at best
      have inSome : w ∈ some' := (List.max?_eq_some_iff.mp top).1
      exact ⟨w, List.mem_flatten.mpr ⟨some', inFound, inSome⟩, best.2 member⟩
  cases top : found.flatten.max? with
  | none =>
    have nothing : found.flatten = [] := List.max?_eq_none_iff.mp top
    refine Set.eq_empty_iff_forall_notMem.mpr ?_
    rintro v ⟨values, listed, member⟩
    obtain ⟨w, impossible, -⟩ := bounded values listed v member
    rw [nothing] at impossible
    exact absurd impossible List.not_mem_nil
  | some v =>
    obtain ⟨listed, upper⟩ := List.max?_eq_some_iff.mp top
    constructor
    · obtain ⟨some', inFound, inSome⟩ := List.mem_flatten.mp listed
      obtain ⟨values, inSets, best⟩ := forall₂_mem_right each some' inFound
      have topmost : some'.max? = some v := List.max?_eq_some_iff.mpr
        ⟨inSome, fun w member => upper w (List.mem_flatten.mpr ⟨some', inFound, member⟩)⟩
      rw [topmost] at best
      exact ⟨values, inSets, best.1⟩
    · rintro w ⟨values, inSets, member⟩
      obtain ⟨u, inFound, le⟩ := bounded values inSets w member
      exact le.trans (upper u inFound)

end MaxMin
