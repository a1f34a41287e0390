import Mathlib

/-! Sequences of fallible steps. A successful sequence is taken apart into its successful
steps, a list of steps into a pointwise relation of arguments and results. -/
namespace Fallible

universe u

theorem exists_ok {ε α : Type*} {x : Except ε α} (h : x.toBool = true) : ∃ a, x = .ok a := by
  cases x with
  | ok a => exact ⟨a, rfl⟩
  | error e => cases h

theorem exists_punit {p : PUnit → Prop} : (∃ u, p u) ↔ p ⟨⟩ :=
  ⟨fun ⟨⟨⟩, h⟩ => h, fun h => ⟨⟨⟩, h⟩⟩

theorem bind_ok {ε : Type*} {α β : Type u} {x : Except ε α} {f : α → Except ε β} {b : β} :
    (x >>= f) = .ok b ↔ ∃ a, x = .ok a ∧ f a = .ok b := by
  cases x with
  | error e => simp [bind, Except.bind]
  | ok a => simp [bind, Except.bind]

theorem ok_bind {ε : Type*} {α β : Type u} (a : α) (f : α → Except ε β) :
    ((.ok a : Except ε α) >>= f) = f a := rfl

theorem pure_ok {ε α : Type*} {a b : α} : (pure a : Except ε α) = .ok b ↔ a = b := by
  simp [pure, Except.pure]

theorem map_ok {ε : Type*} {α β : Type u} {f : α → β} {x : Except ε α} {b : β} :
    (f <$> x) = .ok b ↔ ∃ a, x = .ok a ∧ f a = b := by
  cases x <;> simp [Functor.map, Except.map]

theorem forM_ok {ε α : Type*} {xs : List α} {f : α → Except ε PUnit} {done : PUnit} :
    xs.forM f = .ok done ↔ ∀ x ∈ xs, f x = .ok ⟨⟩ := by
  induction xs with
  | nil => simp [List.forM, pure, Except.pure]
  | cons x xs ih =>
    change (f x >>= fun _ => xs.forM f) = .ok done ↔ _
    simp only [bind_ok, List.forall_mem_cons]
    exact ⟨fun ⟨_, head, rest⟩ => ⟨head, ih.mp rest⟩,
      fun ⟨head, rest⟩ => ⟨⟨⟩, head, ih.mpr rest⟩⟩

theorem mapM_ok {ε : Type*} {α β : Type u} {xs : List α} {f : α → Except ε β} {ys : List β} :
    xs.mapM f = .ok ys ↔ List.Forall₂ (fun x y => f x = .ok y) xs ys := by
  induction xs generalizing ys with
  | nil => cases ys <;> simp [pure, Except.pure]
  | cons x xs ih =>
    simp only [List.mapM_cons, bind_ok, pure_ok]
    constructor
    · rintro ⟨y, head, rest, tail, rfl⟩
      exact .cons head (ih.mp tail)
    · intro both
      cases both with
      | cons head tail => exact ⟨_, head, _, ih.mpr tail, rfl⟩

theorem forall₂_mem_left {α β : Type*} {R : α → β → Prop} {xs : List α} {ys : List β}
    (both : List.Forall₂ R xs ys) : ∀ x ∈ xs, ∃ y ∈ ys, R x y := by
  induction both with
  | nil => simp
  | cons head _ ih =>
    rw [List.forall_mem_cons]
    refine ⟨⟨_, List.mem_cons_self, head⟩, fun x member => ?_⟩
    obtain ⟨y, listed, related⟩ := ih x member
    exact ⟨y, List.mem_cons_of_mem _ listed, related⟩

theorem forall₂_mem_right {α β : Type*} {R : α → β → Prop} {xs : List α} {ys : List β}
    (both : List.Forall₂ R xs ys) : ∀ y ∈ ys, ∃ x ∈ xs, R x y :=
  forall₂_mem_left both.flip

theorem forall₂_and {α β : Type*} {R S : α → β → Prop} {xs : List α} {ys : List β}
    (first : List.Forall₂ R xs ys) (second : List.Forall₂ S xs ys) :
    List.Forall₂ (fun x y => R x y ∧ S x y) xs ys := by
  rw [List.forall₂_iff_zip] at *
  exact ⟨first.1, fun member => ⟨first.2 member, second.2 member⟩⟩

theorem forall₂_compose {α β γ : Type*} {R : α → β → Prop} {S : β → γ → Prop} {T : α → γ → Prop}
    (both : ∀ a b c, R a b → S b c → T a c) {xs : List α} {ys : List β} {zs : List γ}
    (first : List.Forall₂ R xs ys) (second : List.Forall₂ S ys zs) : List.Forall₂ T xs zs := by
  induction first generalizing zs with
  | nil =>
    cases second
    exact .nil
  | cons head _ ih =>
    cases second with
    | cons head' rest' => exact .cons (both _ _ _ head head') (ih rest')

theorem exists_forall₂ {α β : Type*} {R : α → β → Prop} {xs : List α}
    (each : ∀ x ∈ xs, ∃ y, R x y) : ∃ ys, List.Forall₂ R xs ys := by
  induction xs with
  | nil => exact ⟨[], .nil⟩
  | cons x xs ih =>
    obtain ⟨⟨y, head⟩, rest⟩ := List.forall_mem_cons.mp each
    obtain ⟨ys, tail⟩ := ih rest
    exact ⟨y :: ys, .cons head tail⟩

theorem mapM_total {ε : Type*} {α β : Type u} {xs : List α} {f : α → Except ε β}
    (each : ∀ x ∈ xs, ∃ y, f x = .ok y) : ∃ ys, xs.mapM f = .ok ys := by
  induction xs with
  | nil => exact ⟨[], rfl⟩
  | cons x xs ih =>
    obtain ⟨⟨y, head⟩, rest⟩ := List.forall_mem_cons.mp each
    obtain ⟨ys, tail⟩ := ih rest
    exact ⟨y :: ys, mapM_ok.mpr (.cons head (mapM_ok.mp tail))⟩

private theorem foldlM_invariant_from {ε α σ : Type*} {f : σ → α → Except ε σ}
    {I : List α → σ → Prop}
    (step : ∀ done x s t, I done s → f s x = .ok t → I (done ++ [x]) t) :
    ∀ {xs : List α} {done : List α} {s t : σ}, I done s → xs.foldlM f s = .ok t →
      I (done ++ xs) t := by
  intro xs
  induction xs with
  | nil =>
    intro done s t start run
    rw [List.foldlM_nil, pure_ok] at run
    simpa [run] using start
  | cons x xs ih =>
    intro done s t start run
    rw [List.foldlM_cons, bind_ok] at run
    obtain ⟨u, head, tail⟩ := run
    have next := ih (step done x s u start head) tail
    simpa using next

/-- A property of the elements folded so far and the accumulator that every step of a
fallible fold keeps. -/
theorem foldlM_invariant {ε α σ : Type*} {f : σ → α → Except ε σ} (I : List α → σ → Prop)
    (step : ∀ done x s t, I done s → f s x = .ok t → I (done ++ [x]) t) {xs : List α} {s t : σ}
    (start : I [] s) (run : xs.foldlM f s = .ok t) : I xs t := by
  simpa using foldlM_invariant_from step start run

theorem foldlM_record_ok {ε α : Type*} {β σ : Type u} {f : α → Except ε β} {g : σ → α → β → σ}
    {xs : List α} {s t : σ} :
    xs.foldlM (fun s x => g s x <$> f x) s = .ok t ↔
      ∃ ys, List.Forall₂ (fun x y => f x = .ok y) xs ys ∧
        t = (xs.zip ys).foldl (fun s p => g s p.1 p.2) s := by
  induction xs generalizing s with
  | nil => simp [pure, Except.pure, eq_comm]
  | cons x xs ih =>
    simp only [List.foldlM_cons, bind_ok, map_ok, ih, List.forall₂_cons_left_iff]
    constructor
    · rintro ⟨_, ⟨y, head, rfl⟩, ys, tail, rfl⟩
      exact ⟨y :: ys, ⟨y, ys, head, tail, rfl⟩, rfl⟩
    · rintro ⟨_, ⟨y, ys, head, tail, rfl⟩, rfl⟩
      exact ⟨_, ⟨y, head, rfl⟩, ys, tail, rfl⟩

/-- The verdict on an element may be taken at the start, if what was recorded before the
element is reached does not change it. `I` speaks of the elements still to come. -/
theorem foldlM_record_stable {ε α : Type*} {β σ : Type u} {f : σ → α → Except ε β}
    {f₀ : α → Except ε β} {g : σ → α → β → σ} (I : List α → σ → Prop)
    (here : ∀ s x xs, I (x :: xs) s → f s x = f₀ x)
    (next : ∀ s x xs y, I (x :: xs) s → f₀ x = .ok y → I xs (g s x y)) {xs : List α} {s : σ}
    (start : I xs s) :
    xs.foldlM (fun s x => g s x <$> f s x) s = xs.foldlM (fun s x => g s x <$> f₀ x) s := by
  induction xs generalizing s with
  | nil => rfl
  | cons x xs ih =>
    rw [List.foldlM_cons, List.foldlM_cons, here s x xs start]
    cases verdict : f₀ x with
    | error e => rfl
    | ok y => exact ih (next s x xs y start verdict)

/-- Both succeed with related values, or both fail in the same way. -/
def Lift {ε α β : Type*} (R : α → β → Prop) : Except ε α → Except ε β → Prop
  | .ok a, .ok b => R a b
  | .error e, .error f => e = f
  | _, _ => False

theorem Lift.self {ε α : Type*} (x : Except ε α) : Lift (fun a b => x = .ok a ∧ a = b) x x := by
  cases x with
  | ok a => exact ⟨rfl, rfl⟩
  | error e => exact rfl

theorem Lift.bind {ε : Type*} {α β γ δ : Type u} {R : α → β → Prop} {S : γ → δ → Prop}
    {x : Except ε α} {y : Except ε β} {f : α → Except ε γ} {g : β → Except ε δ}
    (first : Lift R x y) (rest : ∀ a b, R a b → Lift S (f a) (g b)) :
    Lift S (x >>= f) (y >>= g) := by
  cases x with
  | ok a =>
    cases y with
    | ok b => exact rest a b first
    | error f => exact first.elim
  | error e =>
    cases y with
    | ok b => exact first.elim
    | error f => exact first

theorem Lift.bind_self {ε : Type*} {α γ δ : Type u} {S : γ → δ → Prop} {x : Except ε α}
    {f : α → Except ε γ} {g : α → Except ε δ}
    (rest : ∀ a, x = .ok a → Lift S (f a) (g a)) : Lift S (x >>= f) (x >>= g) :=
  (Lift.self x).bind fun a _ h => h.2 ▸ rest a h.1

theorem Lift.map {ε : Type*} {α β γ δ : Type u} {R : α → β → Prop} {S : γ → δ → Prop}
    {x : Except ε α} {y : Except ε β} {f : α → γ} {g : β → δ} (both : Lift R x y)
    (each : ∀ a b, R a b → S (f a) (g b)) : Lift S (f <$> x) (g <$> y) := by
  cases x with
  | ok a =>
    cases y with
    | ok b => exact each a b both
    | error f => exact both.elim
  | error e =>
    cases y with
    | ok b => exact both.elim
    | error f => exact both

theorem Lift.foldlM {ε α : Type*} {σ τ : Type u} {R : σ → τ → Prop} {f : σ → α → Except ε σ}
    {g : τ → α → Except ε τ} (each : ∀ s t x, R s t → Lift R (f s x) (g t x)) {xs : List α}
    {s : σ} {t : τ} (start : R s t) : Lift R (xs.foldlM f s) (xs.foldlM g t) := by
  induction xs generalizing s t with
  | nil => exact start
  | cons x xs ih =>
    rw [List.foldlM_cons, List.foldlM_cons]
    exact (each s t x start).bind fun _ _ => ih

end Fallible
