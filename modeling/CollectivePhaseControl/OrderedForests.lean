import Mathlib

/-! Forests in an order. Every element stands above its parent or is a root, and the roots are
one for each class of an equivalence; shortening a path keeps this, and a tree that is put
under another root joins two classes. -/
namespace OrderedForests

section joined
variable {α : Type*} {related : α → α → Prop} {a b x y : α}

def Joined (related : α → α → Prop) (a b x y : α) : Prop :=
  related x y ∨ (related x a ∧ related b y) ∨ (related x b ∧ related a y)

theorem joined_equivalence (equivalence : Equivalence related) :
    Equivalence (Joined related a b) := by
  obtain ⟨refl, symm, trans⟩ := equivalence
  refine ⟨fun x => .inl (refl x), fun joined => ?_, fun first second => ?_⟩
  · unfold Joined at *
    grind
  · unfold Joined at *
    grind

theorem joined_of_related (equivalence : Equivalence related) (same : related a b) :
    Joined related a b = related := by
  obtain ⟨refl, symm, trans⟩ := equivalence
  funext x y
  refine propext ⟨fun joined => ?_, .inl⟩
  unfold Joined at joined
  grind

theorem eqvGen_cons {links : List (α × α)} :
    Relation.EqvGen (fun x y => (x, y) ∈ (a, b) :: links) =
      Joined (Relation.EqvGen fun x y => (x, y) ∈ links) a b := by
  have equivalence := Relation.EqvGen.is_equivalence fun x y => (x, y) ∈ links
  have joined := @joined_equivalence _ _ a b equivalence
  funext x y
  refine propext ⟨fun linked => ?_, fun linked => ?_⟩
  · induction linked with
    | rel x y listed =>
      obtain same | old := List.mem_cons.mp listed
      · obtain ⟨rfl, rfl⟩ := Prod.mk.inj same
        exact .inr (.inl ⟨equivalence.refl _, equivalence.refl _⟩)
      · exact .inl (.rel _ _ old)
    | refl x => exact joined.refl x
    | symm x y _ ih => exact joined.symm ih
    | trans x y z _ _ first second => exact joined.trans first second
  · have more : ∀ x y, Relation.EqvGen (fun x y => (x, y) ∈ links) x y →
        Relation.EqvGen (fun x y => (x, y) ∈ (a, b) :: links) x y :=
      Relation.EqvGen.mono fun _ _ => List.mem_cons_of_mem _
    have new : Relation.EqvGen (fun x y => (x, y) ∈ (a, b) :: links) a b :=
      .rel _ _ List.mem_cons_self
    obtain old | ⟨first, second⟩ | ⟨first, second⟩ := linked
    · exact more _ _ old
    · exact ((more _ _ first).trans _ _ _ new).trans _ _ _ (more _ _ second)
    · exact ((more _ _ first).trans _ _ _ (new.symm _ _)).trans _ _ _ (more _ _ second)

end joined

section parents
variable {α : Type*} [LinearOrder α] {parent : α → Option α} {related : α → α → Prop}
  {x p g r s a b : α}

structure Represents (parent : α → Option α) (related : α → α → Prop) : Prop where
  equivalence : Equivalence related
  known : ∀ x p, parent x = some p → ∃ q, parent p = some q
  below : ∀ x p, parent x = some p → p ≤ x
  within : ∀ x p, parent x = some p → related x p
  unique : ∀ r s, parent r = some r → parent s = some s → related r s → r = s

theorem Represents.plant (forest : Represents parent related)
    (alone : ∀ y, related x y → y = x) :
    Represents (Function.update parent x (some x)) related where
  equivalence := forest.equivalence
  known := by
    intro y p found
    by_cases here : p = x
    · exact ⟨x, by rw [here, Function.update_self]⟩
    · rw [Function.update_of_ne here]
      by_cases same : y = x
      · rw [same, Function.update_self] at found
        exact absurd (Option.some.inj found).symm here
      · rw [Function.update_of_ne same] at found
        exact forest.known y p found
  below := by
    intro y p found
    by_cases same : y = x
    · rw [same, Function.update_self] at found
      rw [same, Option.some.inj found]
    · rw [Function.update_of_ne same] at found
      exact forest.below y p found
  within := by
    intro y p found
    by_cases same : y = x
    · rw [same, Function.update_self] at found
      rw [same, Option.some.inj found]
      exact forest.equivalence.refl _
    · rw [Function.update_of_ne same] at found
      exact forest.within y p found
  unique := by
    intro r s first second together
    by_cases here : r = x
    · rw [here] at together ⊢
      exact (alone s together).symm
    · by_cases there : s = x
      · rw [there] at together ⊢
        exact alone r (forest.equivalence.symm together)
      · rw [Function.update_of_ne here] at first
        rw [Function.update_of_ne there] at second
        exact forest.unique r s first second together

theorem Represents.halve (forest : Represents parent related) (up : parent x = some p)
    (inner : p ≠ x) (top : parent p = some g) :
    Represents (Function.update parent x (some g)) related := by
  have shorter : g < x :=
    (forest.below p g top).trans_lt (lt_of_le_of_ne (forest.below x p up) inner)
  refine ⟨forest.equivalence, ?_, ?_, ?_, ?_⟩
  · intro y q found
    by_cases same : y = x
    · rw [same, Function.update_self] at found
      rw [← Option.some.inj found, Function.update_of_ne shorter.ne]
      exact forest.known p g top
    · rw [Function.update_of_ne same] at found
      by_cases here : q = x
      · exact ⟨g, by rw [here, Function.update_self]⟩
      · rw [Function.update_of_ne here]
        exact forest.known y q found
  · intro y q found
    by_cases same : y = x
    · rw [same, Function.update_self] at found
      rw [same, ← Option.some.inj found]
      exact shorter.le
    · rw [Function.update_of_ne same] at found
      exact forest.below y q found
  · intro y q found
    by_cases same : y = x
    · rw [same, Function.update_self] at found
      rw [same, ← Option.some.inj found]
      exact forest.equivalence.trans (forest.within x p up) (forest.within p g top)
    · rw [Function.update_of_ne same] at found
      exact forest.within y q found
  · have elsewhere : ∀ r, Function.update parent x (some g) r = some r → parent r = some r := by
      intro r root
      by_cases same : r = x
      · rw [same, Function.update_self] at root
        exact absurd (Option.some.inj root) shorter.ne
      · rwa [Function.update_of_ne same] at root
    exact fun r s first second => forest.unique r s (elsewhere r first) (elsewhere s second)

theorem halve_root (up : parent x = some p) (inner : p ≠ x) (shorter : g ≠ x) :
    Function.update parent x (some g) r = some r ↔ parent r = some r := by
  by_cases same : r = x
  · rw [same, Function.update_self, up]
    exact iff_of_false (fun root => shorter (Option.some.inj root))
      fun root => inner (Option.some.inj root)
  · rw [Function.update_of_ne same]

theorem Represents.attach (forest : Represents parent related) (first : parent r = some r)
    (second : parent s = some s) (toR : related a r) (toS : related b s) (apart : r ≠ s) :
    Represents (Function.update parent (max r s) (some (min r s))) (Joined related a b) := by
  have equivalence := forest.equivalence
  have less : min r s < max r s := min_lt_max.mpr apart
  have lesser : parent (min r s) = some (min r s) := by
    obtain same | same := min_choice r s
    · rw [same, first]
    · rw [same, second]
  have joins : Joined related a b (max r s) (min r s) := by
    obtain ⟨high, low⟩ | ⟨high, low⟩ : (max r s = r ∧ min r s = s) ∨ (max r s = s ∧ min r s = r) := by
      obtain below | below := le_total r s
      · exact .inr ⟨max_eq_right below, min_eq_left below⟩
      · exact .inl ⟨max_eq_left below, min_eq_right below⟩
    · rw [high, low]
      exact .inr (.inl ⟨equivalence.symm toR, toS⟩)
    · rw [high, low]
      exact .inr (.inr ⟨equivalence.symm toS, toR⟩)
  refine ⟨joined_equivalence equivalence, ?_, ?_, ?_, ?_⟩
  · intro y q found
    by_cases here : q = max r s
    · exact ⟨min r s, by rw [here, Function.update_self]⟩
    · rw [Function.update_of_ne here]
      by_cases same : y = max r s
      · rw [same, Function.update_self] at found
        exact ⟨min r s, by rw [← Option.some.inj found, lesser]⟩
      · rw [Function.update_of_ne same] at found
        exact forest.known y q found
  · intro y q found
    by_cases same : y = max r s
    · rw [same, Function.update_self] at found
      rw [same, ← Option.some.inj found]
      exact less.le
    · rw [Function.update_of_ne same] at found
      exact forest.below y q found
  · intro y q found
    by_cases same : y = max r s
    · rw [same, Function.update_self] at found
      rw [same, ← Option.some.inj found]
      exact joins
    · rw [Function.update_of_ne same] at found
      exact .inl (forest.within y q found)
  · have old : ∀ t, Function.update parent (max r s) (some (min r s)) t = some t →
        parent t = some t ∧ t ≠ max r s := by
      intro t root
      by_cases same : t = max r s
      · rw [same, Function.update_self] at root
        exact absurd (Option.some.inj root) less.ne
      · rw [Function.update_of_ne same] at root
        exact ⟨root, same⟩
    -- a root of either class is one of the two, and the greater is no root any more
    have ofR : ∀ t, parent t = some t → related t a → t = r := fun t root toA =>
      forest.unique t r root first (equivalence.trans toA toR)
    have ofS : ∀ t, parent t = some t → related t b → t = s := fun t root toB =>
      forest.unique t s root second (equivalence.trans toB toS)
    intro t u newT newU joined
    obtain ⟨rootT, lowT⟩ := old t newT
    obtain ⟨rootU, lowU⟩ := old u newU
    have either : r = max r s ∨ s = max r s := (max_choice r s).imp Eq.symm Eq.symm
    obtain together | ⟨left, right⟩ | ⟨left, right⟩ := joined
    · exact forest.unique t u rootT rootU together
    · obtain rfl := ofR t rootT left
      obtain rfl := ofS u rootU (equivalence.symm right)
      obtain greater | greater := either
      · exact absurd greater lowT
      · exact absurd greater lowU
    · obtain rfl := ofS t rootT left
      obtain rfl := ofR u rootU (equivalence.symm right)
      obtain greater | greater := either
      · exact absurd greater lowU
      · exact absurd greater lowT

theorem Represents.card_components (forest : Represents parent related) {known : Set α}
    {graph : SimpleGraph known} (classes : ∀ u v : known, graph.Reachable u v ↔ related ↑u ↑v)
    {roots : List α} (distinct : roots.Nodup) (rooted : ∀ r ∈ roots, r ∈ known ∧ parent r = some r)
    (reach : ∀ x ∈ known, ∃ r ∈ roots, related x r) :
    Nat.card graph.ConnectedComponent = roots.length := by
  let component : {r // r ∈ roots.toFinset} → graph.ConnectedComponent := fun r =>
    graph.connectedComponentMk ⟨r.1, (rooted r.1 (List.mem_toFinset.mp r.2)).1⟩
  have bijective : Function.Bijective component := by
    constructor
    · rintro ⟨r, hr⟩ ⟨s, hs⟩ same
      have together := (classes _ _).mp (SimpleGraph.ConnectedComponent.exact same)
      exact Subtype.ext (forest.unique r s (rooted r (List.mem_toFinset.mp hr)).2
        (rooted s (List.mem_toFinset.mp hs)).2 together)
    · intro c
      induction c using SimpleGraph.ConnectedComponent.ind with
      | h v =>
        obtain ⟨r, listed, together⟩ := reach v.1 v.2
        refine ⟨⟨r, List.mem_toFinset.mpr listed⟩, SimpleGraph.ConnectedComponent.sound ?_⟩
        exact (classes _ _).mpr (forest.equivalence.symm together)
  rw [← Nat.card_eq_of_bijective component bijective, Nat.card_eq_fintype_card,
    Fintype.card_coe, List.toFinset_card_of_nodup distinct]

end parents

end OrderedForests
