import Mathlib

/-! Two runs of one machine, the second without the inputs of a hidden party. If a relation
of the states survives hidden inputs on the first run alone and visible inputs on both, with
equal answers, then whoever sees only visible inputs sees the same answers. -/
namespace Unwinding

variable {σ α ρ : Type*} (step : σ → α → σ × ρ)

def outputs : σ → List α → List (α × ρ)
  | _, [] => []
  | s, a :: as => (a, (step s a).2) :: outputs (step s a).1 as

/-- Every input of the run is given in a state that permits it. -/
def Permitted (permit : σ → α → Prop) : σ → List α → Prop
  | _, [] => True
  | s, a :: as => permit s a ∧ Permitted permit (step s a).1 as

instance decidablePermitted (permit : σ → α → Prop) [∀ s a, Decidable (permit s a)] :
    ∀ s as, Decidable (Permitted step permit s as)
  | _, [] => inferInstanceAs (Decidable True)
  | s, a :: as =>
    have := decidablePermitted permit (step s a).1 as
    inferInstanceAs (Decidable (permit s a ∧ Permitted step permit (step s a).1 as))

variable {step} {R : σ → σ → Prop} {permit : σ → α → Prop} {visible : α → Bool}

theorem outputs_filter
    (hidden : ∀ s t a, R s t → permit s a → visible a = false → R (step s a).1 t)
    (shown : ∀ s t a, R s t → permit s a → visible a = true →
      R (step s a).1 (step t a).1 ∧ (step s a).2 = (step t a).2)
    {s t : σ} {as : List α} (related : R s t) (permitted : Permitted step permit s as) :
    (outputs step s as).filter (fun x => visible x.1) = outputs step t (as.filter visible) := by
  induction as generalizing s t with
  | nil => rfl
  | cons a as ih =>
    obtain ⟨now, later⟩ := permitted
    cases h : visible a with
    | false =>
      rw [outputs, List.filter_cons_of_neg (by simp [h]), List.filter_cons_of_neg (by simp [h])]
      exact ih (hidden s t a related now h) later
    | true =>
      obtain ⟨next, same⟩ := shown s t a related now h
      rw [outputs, List.filter_cons_of_pos (by simp [h]), List.filter_cons_of_pos (by simp [h]),
        outputs, same, ih next later]

end Unwinding
