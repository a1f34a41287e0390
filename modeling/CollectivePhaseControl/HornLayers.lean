import CollectivePhaseControl.HornClosure

/-! Closure in layers. A layer holds what the rules conclude from everything before it, and
nothing that its own rules conclude; the layers add up to what is derivable. -/
namespace Horn

variable {α : Type*} [DecidableEq α]

def additions (rules : List (Rule α)) (s : Finset α) : Finset α :=
  conclusions (rules.filter fun r => r.premises ⊆ s)

/-- Add layers until one brings nothing new, at most so many times. -/
def layered (rules : List (Rule α)) : ℕ → Finset α → Option (Finset α)
  | 0, _ => none
  | n + 1, s => if additions rules s ⊆ s then some s else layered rules n (s ∪ additions rules s)

variable {rules : List (Rule α)} {s t : Finset α} {n : ℕ}

theorem mem_additions {x : α} :
    x ∈ additions rules s ↔ ∃ r ∈ rules, r.premises ⊆ s ∧ x ∈ r.conclusions := by
  simp only [additions, mem_conclusions, List.mem_filter, decide_eq_true_eq, and_assoc]

theorem additions_subset (rules : List (Rule α)) (s : Finset α) :
    additions rules s ⊆ conclusions rules := by
  intro x member
  obtain ⟨r, listed, -, conclusion⟩ := mem_additions.mp member
  exact mem_conclusions.mpr ⟨r, listed, conclusion⟩

theorem mem_layered (layers : layered rules n s = some t) {x : α} :
    x ∈ t ↔ Derivable {r | r ∈ rules} ↑s x := by
  induction n generalizing s with
  | zero => simp [layered] at layers
  | succ n ih =>
    rw [layered] at layers
    split at layers
    · rename_i fixed
      cases layers
      refine ⟨fun member => .base member, fun derivable => derivable.mem (fun _ member => member) ?_⟩
      exact fun r listed premises x conclusion =>
        fixed (mem_additions.mpr ⟨r, listed, premises, conclusion⟩)
    · rw [ih layers]
      constructor
      · intro derivable
        refine derivable.mem ?_ closed_derivable
        intro y member
        rcases Finset.mem_union.mp member with old | new
        · exact .base old
        · obtain ⟨r, listed, premises, conclusion⟩ := mem_additions.mp new
          exact .fire listed (fun z known => .base (premises known)) conclusion
      · exact fun derivable => derivable.mono (fun _ member => member)
          fun _ member => Finset.mem_union_left _ member

theorem layered_total : ∀ {n : ℕ} {s : Finset α}, (conclusions rules \ s).card < n →
    ∃ t, layered rules n s = some t := by
  intro n
  induction n with
  | zero => intro s few; omega
  | succ n ih =>
    intro s few
    rw [layered]
    split
    · exact ⟨s, rfl⟩
    · rename_i grows
      apply ih
      obtain ⟨x, added, fresh⟩ := Finset.not_subset.mp grows
      have smaller : conclusions rules \ (s ∪ additions rules s) ⊂ conclusions rules \ s := by
        refine ⟨Finset.sdiff_subset_sdiff (Finset.Subset.refl _) Finset.subset_union_left, ?_⟩
        intro all
        have member := all (Finset.mem_sdiff.mpr ⟨additions_subset rules s added, fresh⟩)
        exact (Finset.mem_sdiff.mp member).2 (Finset.mem_union_right s added)
      have fewer := Finset.card_lt_card smaller
      omega

end Horn
