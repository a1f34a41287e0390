import Mathlib

/-! Finite labelled runs of an arbitrary step relation. A quantity that every step
changes by an amount read off its label changes over a run by the sum of those
amounts. -/
namespace Runs

variable {σ α M : Type*} {step : σ → α → σ → Prop} {I : σ → Prop}

inductive Run (step : σ → α → σ → Prop) : σ → List α → σ → Prop
  | nil (s : σ) : Run step s [] s
  | cons {s t u : σ} {a : α} {as : List α} : step s a t → Run step t as u → Run step s (a :: as) u

namespace Run

theorem snoc {s t u : σ} {a : α} {as : List α} (run : Run step s as t) (last : step t a u) :
    Run step s (as ++ [a]) u := by
  induction run with
  | nil s => exact .cons last (.nil u)
  | cons head _ ih => exact .cons head (ih last)

theorem append_iff {s u : σ} {as bs : List α} :
    Run step s (as ++ bs) u ↔ ∃ t, Run step s as t ∧ Run step t bs u := by
  constructor
  · intro run
    induction as generalizing s with
    | nil => exact ⟨s, .nil s, run⟩
    | cons a as ih =>
      cases run with
      | cons head rest =>
        obtain ⟨t, first, last⟩ := ih rest
        exact ⟨t, .cons head first, last⟩
  · rintro ⟨t, first, last⟩
    induction first with
    | nil s => exact last
    | cons head _ ih => exact .cons head (ih last)

theorem snoc_iff {s u : σ} {a : α} {as : List α} :
    Run step s (as ++ [a]) u ↔ ∃ t, Run step s as t ∧ step t a u := by
  rw [append_iff]
  constructor
  · rintro ⟨t, first, last⟩
    cases last with
    | cons head rest =>
      cases rest
      exact ⟨t, first, head⟩
  · rintro ⟨t, first, head⟩
    exact ⟨t, first, .cons head (.nil u)⟩

theorem unique (once : ∀ s a t u, step s a t → step s a u → t = u) {s t u : σ} {as : List α}
    (first : Run step s as t) (second : Run step s as u) : t = u := by
  induction first with
  | nil s =>
    cases second
    rfl
  | cons head _ ih =>
    cases second with
    | cons head' rest' =>
      rw [← once _ _ _ _ head head'] at rest'
      exact ih rest'

theorem invariant (keep : ∀ s a t, I s → step s a t → I t) {s t : σ} {as : List α}
    (run : Run step s as t) (start : I s) : I t := by
  induction run with
  | nil s => exact start
  | cons head _ ih => exact ih (keep _ _ _ start head)

theorem labels {P : α → Prop} (each : ∀ s a t, step s a t → P a) {s t : σ} {as : List α}
    (run : Run step s as t) : ∀ a ∈ as, P a := by
  induction run with
  | nil s => simp
  | cons head _ ih => exact List.forall_mem_cons.mpr ⟨each _ _ _ head, ih⟩

theorem map {τ : Type*} {step' : τ → α → τ → Prop} {f : σ → τ}
    (each : ∀ s a t, step s a t → step' (f s) a (f t)) {s t : σ} {as : List α}
    (run : Run step s as t) : Run step' (f s) as (f t) := by
  induction run with
  | nil s => exact .nil _
  | cons head _ ih => exact .cons (each _ _ _ head) ih

/-- A quantity that each step increases by `d` of its label. -/
theorem accumulates [AddCommMonoid M] {q : σ → M} {d : α → M}
    (each : ∀ s a t, step s a t → q t = q s + d a) {s t : σ} {as : List α}
    (run : Run step s as t) : q t = q s + (as.map d).sum := by
  induction run with
  | nil s => simp
  | cons head _ ih => rw [ih, each _ _ _ head, List.map_cons, List.sum_cons, add_assoc]

theorem conserved {q : σ → M} (each : ∀ s a t, step s a t → q t = q s) {s t : σ} {as : List α}
    (run : Run step s as t) : q t = q s := by
  induction run with
  | nil s => rfl
  | cons head _ ih => rw [ih, each _ _ _ head]

theorem related {R : σ → σ → Prop} (refl : ∀ s, R s s) (trans : ∀ s t u, R s t → R t u → R s u)
    (each : ∀ s a t, step s a t → R s t) {s t : σ} {as : List α} (run : Run step s as t) :
    R s t := by
  induction run with
  | nil s => exact refl s
  | cons head _ ih => exact trans _ _ _ (each _ _ _ head) ih

theorem monotone [Preorder M] {q : σ → M} (each : ∀ s a t, step s a t → q s ≤ q t) {s t : σ}
    {as : List α} (run : Run step s as t) : q s ≤ q t :=
  run.related (R := fun u v => q u ≤ q v) (fun _ => le_rfl) (fun _ _ _ => le_trans) each

end Run

/-! A clock that every step advances makes a run a piecewise constant function of time: a
state is in force from its own time until the next one's. -/

variable {T : Type*} [LinearOrder T] {clock : σ → T}

inductive Holds (step : σ → α → σ → Prop) (clock : σ → T) : σ → List α → σ → T → σ → Prop
  | last {s : σ} {t : T} : clock s ≤ t → Holds step clock s [] s t s
  | before {s u e : σ} {a : α} {as : List α} {t : T} : step s a u → Run step u as e →
      clock s ≤ t → t < clock u → Holds step clock s (a :: as) e t s
  | after {s u e v : σ} {a : α} {as : List α} {t : T} : step s a u → clock u ≤ t →
      Holds step clock u as e t v → Holds step clock s (a :: as) e t v

theorem holds_total {s e : σ} {as : List α} (run : Run step s as e) :
    ∀ {t : T}, clock s ≤ t → ∃ v, Holds step clock s as e t v := by
  induction run with
  | nil s => exact fun reached => ⟨s, .last reached⟩
  | @cons s u e a as head rest ih =>
    intro t reached
    rcases lt_or_ge t (clock u) with early | late
    · exact ⟨s, .before head rest reached early⟩
    · obtain ⟨v, holds⟩ := ih late
      exact ⟨v, .after head late holds⟩

theorem Holds.run {s e v : σ} {as : List α} {t : T} (holds : Holds step clock s as e t v) :
    Run step s as e := by
  induction holds with
  | last => exact .nil _
  | before head rest => exact .cons head rest
  | after head _ _ ih => exact .cons head ih

theorem Holds.begun (forward : ∀ s a t, step s a t → clock s < clock t) {s e v : σ} {as : List α}
    {t : T} (holds : Holds step clock s as e t v) : clock s ≤ t := by
  cases holds with
  | last begun => exact begun
  | before _ _ begun _ => exact begun
  | after head begun _ => exact (forward _ _ _ head).le.trans begun

theorem Holds.here (forward : ∀ s a t, step s a t → clock s < clock t) {s e v : σ} {as : List α}
    (holds : Holds step clock s as e (clock s) v) : v = s := by
  cases holds with
  | last => rfl
  | before => rfl
  | after head begun => exact absurd (forward _ _ _ head) (not_lt.mpr begun)

end Runs
