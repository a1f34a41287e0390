import CollectivePhaseControl.FluxCoupling

/-! Joining elements by their parents. Finding an element keeps every root; a union gives two
elements one root; the classes are those of a common root. -/
namespace CollectivePhaseControl
namespace Flux
namespace Parents

variable {n : ℕ}

def root (p : Parents n) (index : Fin n) : Fin n :=
  if p.parent index = index then index else root p (p.parent index)
termination_by index
decreasing_by
  have strict : p.parent index < index := lt_of_le_of_ne (p.below index) ‹_›
  exact strict

section roots
variable {p : Parents n} {index : Fin n}

theorem root_of_fixed (fixed : p.parent index = index) : p.root index = index := by
  rw [root, if_pos fixed]

@[simp] theorem root_parent : p.root (p.parent index) = p.root index := by
  by_cases fixed : p.parent index = index
  · rw [fixed]
  · rw [root.eq_def p index, if_neg fixed]

theorem root_eq {f : Fin n → Fin n} (fixed : ∀ i, p.parent i = i → f i = i)
    (step : ∀ i, f (p.parent i) = f i) (index : Fin n) : p.root index = f index := by
  induction index using root.induct p with
  | case1 index top => rw [root_of_fixed top, fixed index top]
  | case2 index low ih => rw [← root_parent, ih, step]

theorem root_halve :
    (p.set index (p.parent (p.parent index)) ((p.below _).trans (p.below _))).root = p.root := by
  funext other
  refine root_eq (fun i top => ?_) (fun i => ?_) other
  · by_cases same : i = index
    · subst same
      have grand : p.parent (p.parent i) = i := by simpa [set] using top
      refine root_of_fixed (le_antisymm (p.below i) ?_)
      calc i = p.parent (p.parent i) := grand.symm
        _ ≤ p.parent i := p.below _
    · exact root_of_fixed (by simpa [set, same] using top)
  · by_cases same : i = index
    · subst same
      simp [set]
    · simp [set, same]

theorem find_spec (p : Parents n) (index : Fin n) :
    (p.find index).1.root = p.root ∧ (p.find index).2 = p.root index := by
  induction p, index using find.induct with
  | case1 p index top =>
    rw [find, if_pos top]
    exact ⟨rfl, (root_of_fixed top).symm⟩
  | case2 p index low grandparent ih =>
    rw [find, if_neg low]
    refine ⟨ih.1.trans root_halve, ih.2.trans ?_⟩
    rw [root_halve, root_parent, root_parent]

end roots

end Parents

section related
variable {n : ℕ} {related : Fin n × Fin n → Bool} {same : Fin n → Fin n → Prop}

end related

section classes
variable {n : ℕ} {p : Parents n}

/-- The classes of the elements dealt with, each under its root. -/
structure Classified (p : Parents n) (done : List (Fin n))
    (state : Parents n × List (Fin n × List (Fin n))) : Prop where
  roots : state.1.root = p.root
  members : ∀ entry ∈ state.2, ∀ i, i ∈ entry.2 ↔ i ∈ done ∧ p.root i = entry.1
  covered : ∀ i ∈ done, ∃ entry ∈ state.2, entry.1 = p.root i

theorem Classified.step {done : List (Fin n)} {state : Parents n × List (Fin n × List (Fin n))}
    (classified : Classified p done state) (index : Fin n) :
    Classified p (done ++ [index]) (classify state index) := by
  have found := state.1.find_spec index
  rw [classified.roots] at found
  rw [classify]
  revert found
  rcases state.1.find index with ⟨q, root⟩
  intro found
  dsimp only at found ⊢
  obtain ⟨roots, rfl⟩ := found
  split_ifs with known
  · refine ⟨roots, fun entry listed i => ?_, fun i member => ?_⟩
    · obtain ⟨old, before, rfl⟩ := List.mem_map.mp listed
      have kept := classified.members old before i
      split_ifs with here
      · have either : i ∈ done ++ [index] ↔ i ∈ done ∨ i = index := by simp
        grind
      · grind
    · rw [List.mem_append, List.mem_singleton] at member
      have earlier : ∃ entry ∈ state.2, entry.1 = p.root i := by
        cases member with
        | inl old => exact classified.covered i old
        | inr new => simpa [new] using known
      obtain ⟨entry, listed, key⟩ := earlier
      refine ⟨_, List.mem_map_of_mem listed, ?_⟩
      split_ifs with here
      · exact here.symm.trans key
      · exact key
  · refine ⟨roots, fun entry listed i => ?_, fun i member => ?_⟩
    · rw [List.mem_append, List.mem_singleton] at listed
      cases listed with
      | inl old =>
        have kept := classified.members entry old i
        have apart : entry.1 ≠ p.root index := by
          simp only [List.any_eq_true, beq_iff_eq, not_exists, not_and] at known
          exact known entry old
        grind
      | inr new =>
        -- no element dealt with has this root
        have absent : ∀ i ∈ done, p.root i ≠ p.root index := by
          intro i member same
          obtain ⟨entry, listed, key⟩ := classified.covered i member
          simp only [List.any_eq_true, beq_iff_eq, not_exists, not_and] at known
          exact known entry listed (key.trans same)
        grind
    · rw [List.mem_append, List.mem_singleton] at member
      cases member with
      | inl old =>
        obtain ⟨entry, listed, key⟩ := classified.covered i old
        exact ⟨entry, List.mem_append_left _ listed, key⟩
      | inr new => exact ⟨(p.root index, [index]), by simp, by rw [new]⟩

end classes
end Flux
end CollectivePhaseControl
