import Mathlib.Data.List.Chain
import Mathlib.Data.List.Nodup
import Mathlib.Data.List.Perm.Subperm

/-! Lists in which every element but the first names the one before it by a digest. Where no
two elements share a digest, such a list comes back to none of its elements. -/
namespace LinkedChains

variable {α β : Type*} {prior : α → Option β} {digest : α → β} {path : List α}

/-- The first element names none and every later one names the one before it. -/
structure Chain (prior : α → Option β) (digest : α → β) (path : List α) : Prop where
  root : ∀ first, path.head? = some first → prior first = none
  linked : path.IsChain fun x y => prior y = some (digest x)

def CollisionFree (digest : α → β) (elements : List α) : Prop :=
  ∀ x ∈ elements, ∀ y ∈ elements, digest x = digest y → x = y

def naming [DecidableEq β] (prior : α → Option β) (target : Option β) (elements : List α) :
    List α := elements.filter fun x => prior x = target

theorem mem_naming [DecidableEq β] {target : Option β} {elements : List α} {x : α} :
    x ∈ naming prior target elements ↔ x ∈ elements ∧ prior x = target := by
  simp [naming]

theorem CollisionFree.mono {elements others : List α} (free : CollisionFree digest others)
    (inside : elements ⊆ others) : CollisionFree digest elements :=
  fun x hx y hy => free x (inside hx) y (inside hy)

namespace Chain

theorem singleton {first : α} (root : prior first = none) : Chain prior digest [first] := by
  refine ⟨fun x at' => ?_, List.isChain_singleton _⟩
  rw [List.head?_cons, Option.some_inj] at at'
  exact at' ▸ root

theorem snoc {current next : α} (chain : Chain prior digest (path ++ [current]))
    (names : prior next = some (digest current)) :
    Chain prior digest (path ++ [current] ++ [next]) := by
  refine ⟨fun first at' => chain.root first ?_, ?_⟩
  · cases path <;> simpa using at'
  · rw [List.isChain_append]
    refine ⟨chain.linked, List.isChain_singleton _, fun x last y first => ?_⟩
    simp only [List.getLast?_concat, List.head?_cons, Option.mem_some_iff] at last first
    subst last first
    exact names

theorem prior_zero (chain : Chain prior digest path) (inside : 0 < path.length) :
    prior path[0] = none := by
  apply chain.root
  rw [List.head?_eq_getElem?, List.getElem?_eq_getElem inside]

theorem prior_succ (chain : Chain prior digest path) {i : ℕ} (inside : i + 1 < path.length) :
    prior path[i + 1] = some (digest path[i]) :=
  List.isChain_iff_getElem.mp chain.linked i inside

/-- Were two places of the chain equal, so would be the places before them, down to the first
element, which names none. -/
theorem getElem_ne (chain : Chain prior digest path) (free : CollisionFree digest path)
    {i j : ℕ} (before : i < j) (inside : j < path.length) : path[i] ≠ path[j] := by
  intro same
  obtain ⟨j, rfl⟩ : ∃ k, j = k + 1 := ⟨j - 1, by omega⟩
  have names := chain.prior_succ inside
  rw [← same] at names
  induction i generalizing j with
  | zero =>
    rw [chain.prior_zero (by omega)] at names
    cases names
  | succ i ih =>
    rw [chain.prior_succ (by omega), Option.some_inj] at names
    have earlier := free _ (List.getElem_mem _) _ (List.getElem_mem _) names
    obtain ⟨j, rfl⟩ : ∃ k, j = k + 1 := ⟨j - 1, by omega⟩
    have named := chain.prior_succ (i := j) (by omega)
    rw [← earlier] at named
    exact ih j (by omega) (by omega) earlier named

theorem nodup (chain : Chain prior digest path) (free : CollisionFree digest path) :
    path.Nodup := by
  rw [List.nodup_iff_pairwise_ne, List.pairwise_iff_getElem]
  intro i j _ inside before
  exact chain.getElem_ne free before inside

theorem length_le {elements : List α} (chain : Chain prior digest path)
    (free : CollisionFree digest elements) (inside : path ⊆ elements) :
    path.length ≤ elements.length :=
  ((chain.nodup (free.mono inside)).subperm inside).length_le

theorem prior_eq_iff (chain : Chain prior digest path) (free : CollisionFree digest path)
    {i j : ℕ} (here : i < path.length) (there : j < path.length) :
    prior path[j] = some (digest path[i]) ↔ j = i + 1 := by
  constructor
  · intro names
    cases j with
    | zero =>
      rw [chain.prior_zero (by omega)] at names
      cases names
    | succ j =>
      rw [chain.prior_succ there, Option.some_inj] at names
      have same := free _ (List.getElem_mem _) _ (List.getElem_mem _) names
      rw [(chain.nodup free).getElem_inj_iff] at same
      rw [same]
  · rintro rfl
    exact chain.prior_succ there

theorem pairwise_prior_ne (chain : Chain prior digest path) (free : CollisionFree digest path) :
    path.Pairwise fun x y => prior x ≠ some (digest y) := by
  rw [List.pairwise_iff_getElem]
  intro i j here there before names
  have next := (chain.prior_eq_iff free there here).mp names
  omega

variable [DecidableEq β]

theorem naming_none (chain : Chain prior digest path) :
    naming prior none path = path.head?.toList := by
  cases path with
  | nil => rfl
  | cons first rest =>
    have root := chain.root first rfl
    rw [naming, List.filter_cons_of_pos (by simpa using root)]
    simp only [List.head?_cons, Option.toList_some, List.cons.injEq, true_and,
      List.filter_eq_nil_iff, decide_eq_true_eq]
    intro x member none'
    obtain ⟨i, inside, rfl⟩ := List.mem_iff_getElem.mp member
    have names := chain.prior_succ (i := i) (by simpa using inside)
    rw [List.getElem_cons_succ, none'] at names
    cases names

theorem naming_some [DecidableEq α] (chain : Chain prior digest path)
    (free : CollisionFree digest path) {i : ℕ} (inside : i < path.length) :
    naming prior (some (digest path[i])) path = path[i + 1]?.toList := by
  have once := chain.nodup free
  by_cases more : i + 1 < path.length
  · have same : naming prior (some (digest path[i])) path = path.filter (· == path[i + 1]) := by
      refine List.filter_congr fun x member => ?_
      obtain ⟨j, there, rfl⟩ := List.mem_iff_getElem.mp member
      rw [Bool.eq_iff_iff, decide_eq_true_iff, beq_iff_eq, chain.prior_eq_iff free inside there,
        once.getElem_inj_iff]
    rw [same, List.filter_beq, List.count_eq_one_of_mem once (List.getElem_mem more),
      List.getElem?_eq_getElem more]
    rfl
  · rw [List.getElem?_eq_none (by omega), Option.toList_none, naming, List.filter_eq_nil_iff]
    intro x member names
    obtain ⟨j, there, rfl⟩ := List.mem_iff_getElem.mp member
    rw [decide_eq_true_iff, chain.prior_eq_iff free inside there] at names
    omega

end Chain
end LinkedChains
