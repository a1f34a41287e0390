import Mathlib.Data.List.Sort

/-! Sorting by a relation under which distinct items may tie. A stable sort keeps
the order of tied items, so two lists have one sorted form exactly when every class
of tied items is listed alike in both. -/
namespace StableSorts

variable {α : Type*} (r : α → α → Prop) [DecidableRel r]

/-- The items tied with `x`, in list order. -/
def ties (x : α) (items : List α) : List α := items.filter fun y => r x y ∧ r y x

def TiedAlike (xs ys : List α) : Prop := ∀ x, ties r x xs = ties r x ys

variable {r}

theorem mem_ties {x y : α} {items : List α} :
    y ∈ ties r x items ↔ y ∈ items ∧ r x y ∧ r y x := by
  rw [ties, List.mem_filter, decide_eq_true_iff]

theorem ties_cons (x y : α) (items : List α) :
    ties r x (y :: items) = if r x y ∧ r y x then y :: ties r x items else ties r x items := by
  simp only [ties, List.filter_cons, decide_eq_true_eq]

theorem ties_pairwise [IsTrans α r] (x : α) (items : List α) : (ties r x items).Pairwise r := by
  refine List.pairwise_of_forall_mem_list fun y first z second => ?_
  exact IsTrans.trans _ _ _ (mem_ties.mp first).2.2 (mem_ties.mp second).2.1

theorem ties_insertionSort [IsTrans α r] (x : α) (items : List α) :
    ties r x (items.insertionSort r) = ties r x items := by
  have kept : (ties r x items).Sublist (items.insertionSort r) :=
    List.sublist_insertionSort (ties_pairwise x items) List.filter_sublist
  have again : (ties r x items).Sublist (ties r x (items.insertionSort r)) := by
    have filtered := kept.filter fun y => decide (r x y ∧ r y x)
    simp only [ties, List.filter_filter, Bool.and_self] at filtered
    exact filtered
  have same : (ties r x items).length = (ties r x (items.insertionSort r)).length :=
    ((List.perm_insertionSort r items).symm.filter _).length_eq
  exact (again.eq_of_length same).symm

omit [DecidableRel r] in
theorem self_tied [Std.Total r] (x : α) : r x x ∧ r x x :=
  have own : r x x := (Std.Total.total x x).elim id id
  ⟨own, own⟩

variable [Std.Total r]

theorem TiedAlike.mem_iff {xs ys : List α} (alike : TiedAlike r xs ys) {x : α} :
    x ∈ xs ↔ x ∈ ys := by
  have member (items : List α) : x ∈ items ↔ x ∈ ties r x items := by
    rw [mem_ties, and_iff_left (self_tied x)]
  rw [member xs, member ys, alike x]

theorem TiedAlike.eq_nil {ys : List α} (alike : TiedAlike r [] ys) : ys = [] := by
  rw [List.eq_nil_iff_forall_not_mem]
  exact fun x member => List.not_mem_nil (alike.mem_iff.mpr member)

theorem TiedAlike.eq_of_sorted {xs ys : List α} (first : xs.Pairwise r) (second : ys.Pairwise r)
    (alike : TiedAlike r xs ys) : xs = ys := by
  induction xs generalizing ys with
  | nil => exact alike.eq_nil.symm
  | cons x xs ih =>
    cases ys with
    | nil => exact absurd (alike.mem_iff.mp List.mem_cons_self) List.not_mem_nil
    | cons y ys =>
      obtain ⟨below, firstTail⟩ := List.pairwise_cons.mp first
      obtain ⟨below', secondTail⟩ := List.pairwise_cons.mp second
      -- each head is least in its own list, hence the heads tie
      have left : r x y := (List.mem_cons.mp (alike.mem_iff.mpr List.mem_cons_self)).elim
        (fun same => same ▸ (self_tied y).1) (below y)
      have right : r y x := (List.mem_cons.mp (alike.mem_iff.mp List.mem_cons_self)).elim
        (fun same => same ▸ (self_tied x).1) (below' x)
      have heads := alike x
      rw [ties_cons, ties_cons, if_pos (self_tied x), if_pos ⟨left, right⟩] at heads
      obtain ⟨same, -⟩ := List.cons_eq_cons.mp heads
      subst same
      refine congrArg (List.cons x) (ih firstTail secondTail fun z => ?_)
      have rest := alike z
      rw [ties_cons, ties_cons] at rest
      split at rest
      · exact (List.cons_eq_cons.mp rest).2
      · exact rest

theorem insertionSort_eq_iff [IsTrans α r] {xs ys : List α} :
    xs.insertionSort r = ys.insertionSort r ↔ TiedAlike r xs ys := by
  constructor
  · intro same x
    rw [← ties_insertionSort x xs, same, ties_insertionSort]
  · intro alike
    refine TiedAlike.eq_of_sorted (List.pairwise_insertionSort r xs)
      (List.pairwise_insertionSort r ys) fun x => ?_
    rw [ties_insertionSort, ties_insertionSort, alike x]

end StableSorts
