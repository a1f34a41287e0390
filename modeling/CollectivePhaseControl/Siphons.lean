import CollectivePhaseControl.HornClosure
import CollectivePhaseControl.MinimalSets

/-! Siphons of a system of rules. Whatever concludes a member of a siphon has a premise in it,
so nothing of a siphon that the base does not feed is derivable; and what is not derivable is
itself a siphon. -/
namespace Horn

variable {α : Type*} [DecidableEq α] {rules : Set (Rule α)} {base : Set α}
  {ground s : Finset α}

def Siphon (rules : Set (Rule α)) (s : Finset α) : Prop :=
  ∀ r ∈ rules, (r.conclusions ∩ s).Nonempty → (r.premises ∩ s).Nonempty

theorem Siphon.avoids (siphon : Siphon rules s) (unfed : ∀ x ∈ s, x ∉ base) {x : α}
    (derivable : Derivable rules base x) : x ∉ s := by
  induction derivable with
  | base member => exact fun inside => unfed _ inside member
  | fire member _ conclusion ih =>
    intro inside
    obtain ⟨y, both⟩ := siphon _ member ⟨_, Finset.mem_inter.mpr ⟨conclusion, inside⟩⟩
    rw [Finset.mem_inter] at both
    exact ih y both.1 both.2

open Classical in
theorem siphon_underivable (covers : ∀ r ∈ rules, r.premises ⊆ ground) :
    Siphon rules (ground.filter fun x => ¬ Derivable rules base x) := by
  intro r member meets
  obtain ⟨x, both⟩ := meets
  rw [Finset.mem_inter, Finset.mem_filter] at both
  have missing : ¬ ∀ y ∈ r.premises, Derivable rules base y :=
    fun all => both.2.2 (.fire member all both.1)
  push Not at missing
  obtain ⟨y, premise, stuck⟩ := missing
  exact ⟨y, Finset.mem_inter.mpr
    ⟨premise, Finset.mem_filter.mpr ⟨covers r member premise, stuck⟩⟩⟩

theorem derivable_iff_fed (covers : ∀ r ∈ rules, r.premises ⊆ ground) :
    (∀ x ∈ ground, Derivable rules base x) ↔
      ∀ s ∈ MinimalSets.minimals ground (fun s => s.Nonempty ∧ Siphon rules s),
        ∃ x ∈ s, x ∈ base := by
  classical
  constructor
  · intro all s minimal
    obtain ⟨within, ⟨x, inside⟩, siphon⟩ := MinimalSets.prop_of_minimals minimal
    by_contra unfed
    push Not at unfed
    exact siphon.avoids unfed (all x (within inside)) inside
  · intro fed x inside
    by_contra stuck
    have siphon : (ground.filter fun x => ¬ Derivable rules base x).Nonempty ∧
        Siphon rules (ground.filter fun x => ¬ Derivable rules base x) :=
      ⟨⟨x, Finset.mem_filter.mpr ⟨inside, stuck⟩⟩, siphon_underivable covers⟩
    obtain ⟨s, minimal, below⟩ := @MinimalSets.exists_minimal _ ground
      (fun s => s.Nonempty ∧ Siphon rules s) _ (Finset.filter_subset _ _) siphon
    obtain ⟨y, member, source⟩ := fed s minimal
    exact (Finset.mem_filter.mp (below member)).2 (.base source)

end Horn
