import CollectivePhaseControl.Perturbations

/-! The same analysis on a larger budget. As long as its operations last, a run goes the same
way however many more there are; where no deadline is met, nothing else of a budget matters. -/
namespace CollectivePhaseControl

variable {α β : Type}

def left : EStateM.Result Fault Budget α → Budget
  | .ok _ after => after
  | .error _ after => after

def outcome : EStateM.Result Fault Budget α → Checked α
  | .ok a _ => .ok a
  | .error fault _ => .error fault

structure Richer (extra : ℤ) (budget richer : Budget) : Prop where
  remaining : richer.remaining = budget.remaining + extra
  timely : ∀ n, budget.late n = false
  timely' : ∀ n, richer.late n = false

def Overdrawn (budget after : Budget) : Prop :=
  after.remaining < 0 ∧ after.remaining < budget.remaining

theorem overdrawn_trans {budget middle after : Budget} (spent : middle.remaining ≤ budget.remaining)
    (less : after.remaining ≤ middle.remaining) :
    Overdrawn budget after ↔ Overdrawn budget middle ∨ Overdrawn middle after := by
  unfold Overdrawn
  omega

/-- A run that does not overdraw its budget goes the same way on a larger one. -/
structure Durable (m : Analysis α) : Prop where
  pays : ∀ budget, (left (m budget)).remaining ≤ budget.remaining ∧
    (left (m budget)).late = budget.late
  lasts : ∀ {extra : ℤ} {budget richer : Budget}, 0 ≤ extra → Richer extra budget richer →
    ¬ Overdrawn budget (left (m budget)) → outcome (m richer) = outcome (m budget) ∧
      Richer extra (left (m budget)) (left (m richer))

structure Solvent (m : Analysis α) : Prop extends Durable m where
  solvent : ∀ budget a after, m budget = .ok a after → ¬ Overdrawn budget after

section combinators
variable {m : Analysis α} {f : α → Analysis β} {extra : ℤ} {budget richer after : Budget}

theorem Durable.ok (lasting : Durable m) {a : α} (more : 0 ≤ extra)
    (rich : Richer extra budget richer) (run : m budget = .ok a after)
    (lasts : ¬ Overdrawn budget after) :
    ∃ after', m richer = .ok a after' ∧ Richer extra after after' := by
  have last := lasting.lasts more rich
  rw [run] at last
  obtain ⟨same, rich'⟩ := last lasts
  cases run' : m richer with
  | ok a' after' =>
    rw [run'] at same rich'
    cases same
    exact ⟨after', rfl, rich'⟩
  | error fault after' =>
    rw [run'] at same
    cases same

theorem Durable.error (lasting : Durable m) {fault : Fault} (more : 0 ≤ extra)
    (rich : Richer extra budget richer) (run : m budget = .error fault after)
    (lasts : ¬ Overdrawn budget after) :
    ∃ after', m richer = .error fault after' ∧ Richer extra after after' := by
  have last := lasting.lasts more rich
  rw [run] at last
  obtain ⟨same, rich'⟩ := last lasts
  cases run' : m richer with
  | ok a after' =>
    rw [run'] at same
    cases same
  | error fault' after' =>
    rw [run'] at same rich'
    cases same
    exact ⟨after', rfl, rich'⟩

theorem Durable.pays_ok (lasting : Durable m) {a : α} (run : m budget = .ok a after) :
    after.remaining ≤ budget.remaining ∧ after.late = budget.late := by
  have paid := lasting.pays budget
  rw [run] at paid
  exact paid

theorem Durable.pays_error (lasting : Durable m) {fault : Fault}
    (run : m budget = .error fault after) :
    after.remaining ≤ budget.remaining ∧ after.late = budget.late := by
  have paid := lasting.pays budget
  rw [run] at paid
  exact paid

theorem bind_raised {fault : Fault} (first : m budget = .error fault after) :
    (m >>= f) budget = .error fault after := by
  change EStateM.bind m f budget = _
  unfold EStateM.bind
  rw [first]

theorem exists_of_bind {b : β} (run : (m >>= f) budget = .ok b after) :
    ∃ a middle, m budget = .ok a middle ∧ f a middle = .ok b after := by
  cases first : m budget with
  | error fault middle =>
    rw [bind_raised first] at run
    cases run
  | ok a middle => exact ⟨a, middle, rfl, (bind_run first).symm.trans run⟩

theorem lift_run {x : Checked α} {a : α} : lift x budget = .ok a after ↔ x = .ok a ∧ after = budget := by
  cases x with
  | ok b =>
    constructor
    · rintro ⟨⟩
      exact ⟨rfl, rfl⟩
    · rintro ⟨⟨⟩, rfl⟩
      rfl
  | error fault =>
    constructor
    · rintro ⟨⟩
    · rintro ⟨⟨⟩, -⟩

theorem not_overdrawn_self (budget : Budget) : ¬ Overdrawn budget budget :=
  fun over' => lt_irrefl _ over'.2

theorem solvent_pure (a : α) : Solvent (pure a : Analysis α) where
  pays _ := ⟨le_refl _, rfl⟩
  lasts _ rich _ := ⟨rfl, rich⟩
  solvent budget _ _ run := by
    cases run
    exact not_overdrawn_self budget

theorem solvent_throw (fault : Fault) : Solvent (throw fault : Analysis α) where
  pays _ := ⟨le_refl _, rfl⟩
  lasts _ rich _ := ⟨rfl, rich⟩
  solvent _ _ _ run := by cases run

theorem solvent_lift (x : Checked α) : Solvent (lift x) := by
  cases x with
  | ok a => exact solvent_pure a
  | error fault => exact solvent_throw fault

theorem solvent_rational (written : Rational) : Solvent (rational written) := by
  unfold rational
  dsimp only
  split
  · exact solvent_throw _
  · exact solvent_pure _

theorem spend_run {amount : ℤ} {budget : Budget} (timely : ∀ n, budget.late n = false) :
    spend amount budget =
      if budget.remaining < amount then .error analysisBudgetExceeded
        { budget with remaining := budget.remaining - amount, charges := budget.charges + 1 }
      else .ok ()
        { budget with remaining := budget.remaining - amount, charges := budget.charges + 1 } := by
  unfold spend
  have short : budget.remaining - amount < 0 ↔ budget.remaining < amount := by omega
  simp only [timely, Bool.false_eq_true, or_false, short]

theorem left_spend (amount : ℤ) (budget : Budget) : left (spend amount budget) =
    { budget with remaining := budget.remaining - amount, charges := budget.charges + 1 } := by
  unfold spend
  dsimp only
  split <;> rfl

theorem solvent_spend {amount : ℤ} (positive : 0 < amount) : Solvent (spend amount) where
  pays budget := by
    rw [left_spend]
    exact ⟨by dsimp only; omega, rfl⟩
  lasts {extra budget richer} more rich lasting := by
    rw [left_spend] at lasting
    simp only [Overdrawn, not_and, not_lt] at lasting
    have enough : ¬ budget.remaining < amount := by omega
    have enough' : ¬ richer.remaining < amount := by
      have := rich.remaining
      omega
    rw [spend_run rich.timely, spend_run rich.timely', if_neg enough, if_neg enough']
    refine ⟨rfl, ?_, rich.timely, rich.timely'⟩
    have := rich.remaining
    simp only [left]
    omega
  solvent budget a after run := by
    unfold spend at run
    dsimp only at run
    split at run
    · cases run
    · rename_i lasts
      cases run
      exact fun over' => lasts (.inl over'.1)

theorem Durable.bind (head : Durable m) (tail : ∀ a, Durable (f a)) : Durable (m >>= f) where
  pays budget := by
    cases run : m budget with
    | error fault after =>
      rw [bind_raised run]
      exact head.pays_error run
    | ok a middle =>
      rw [bind_run run]
      have paid := head.pays_ok run
      have rest := (tail a).pays middle
      exact ⟨rest.1.trans paid.1, rest.2.trans paid.2⟩
  lasts {extra budget richer} more rich lasts := by
    cases run : m budget with
    | error fault after =>
      rw [bind_raised run] at lasts ⊢
      obtain ⟨after', run', rich'⟩ := head.error more rich run lasts
      rw [bind_raised run']
      exact ⟨rfl, rich'⟩
    | ok a middle =>
      rw [bind_run run] at lasts ⊢
      rw [overdrawn_trans (head.pays_ok run).1 ((tail a).pays middle).1, not_or] at lasts
      obtain ⟨middle', run', rich'⟩ := head.ok more rich run lasts.1
      rw [bind_run run']
      exact (tail a).lasts more rich' lasts.2

theorem Solvent.bind (head : Solvent m) (tail : ∀ a, Solvent (f a)) : Solvent (m >>= f) where
  toDurable := head.toDurable.bind fun a => (tail a).toDurable
  solvent budget b after run := by
    cases first : m budget with
    | error fault middle =>
      rw [bind_raised first] at run
      cases run
    | ok a middle =>
      rw [bind_run first] at run
      rw [overdrawn_trans (head.pays_ok first).1 ((tail a).pays_ok run).1, not_or]
      exact ⟨head.solvent _ _ _ first, (tail a).solvent _ _ _ run⟩

theorem Durable.bind_spend (head : Durable m) (tail : ∀ a, Solvent (f a)) :
    Solvent (m >>= fun a => spend 1 >>= fun _ => f a) where
  toDurable := head.bind fun a =>
    ((solvent_spend one_pos).bind fun _ => tail a).toDurable
  solvent budget b after run := by
    obtain ⟨a, middle, -, rest⟩ := exists_of_bind run
    obtain ⟨_, paid, charged, last⟩ := exists_of_bind rest
    have solvent := (tail a).solvent _ _ _ last
    have enough : 0 ≤ paid.remaining := by
      unfold spend at charged
      dsimp only at charged
      split at charged
      · cases charged
      · rename_i lasts
        cases charged
        exact not_lt.mp fun short => lasts (.inl short)
    simp only [Overdrawn, not_and, not_lt] at solvent ⊢
    omega

theorem Durable.map (head : Durable m) (g : α → β) : Durable (g <$> m) := by
  have bound : g <$> m = m >>= fun a => pure (g a) := map_eq_pure_bind g m
  rw [bound]
  exact head.bind fun a => (solvent_pure (g a)).toDurable

theorem durable_foldlM {f : β → α → Analysis β} (each : ∀ s x, Durable (f s x)) (xs : List α) :
    ∀ s, Durable (xs.foldlM f s) := by
  induction xs with
  | nil => exact fun s => (solvent_pure s).toDurable
  | cons x xs ih =>
    intro s
    rw [List.foldlM_cons]
    exact (each s x).bind ih

theorem solvent_foldlM {f : β → α → Analysis β} (each : ∀ s x, Solvent (f s x)) (xs : List α) :
    ∀ s, Solvent (xs.foldlM f s) := by
  induction xs with
  | nil => exact fun s => solvent_pure s
  | cons x xs ih =>
    intro s
    rw [List.foldlM_cons]
    exact (each s x).bind ih

theorem exceptBudget_ok {handler : Analysis α} {a : α} (run : m budget = .ok a after) :
    exceptBudget m handler budget = .ok a after := by
  unfold exceptBudget
  rw [run]

theorem exceptBudget_exceeded {handler : Analysis α}
    (run : m budget = .error analysisBudgetExceeded after) :
    exceptBudget m handler budget = handler after := by
  unfold exceptBudget
  rw [run]
  rfl

theorem exceptBudget_error {handler : Analysis α} {fault : Fault}
    (run : m budget = .error fault after) (other : fault ≠ analysisBudgetExceeded) :
    exceptBudget m handler budget = .error fault after := by
  unfold exceptBudget
  rw [run]
  split
  · rename_i same
    cases same
    exact absurd rfl other
  · rfl

theorem Durable.exceptBudget {handler : Analysis α} (head : Durable m) (rescue : Durable handler) :
    Durable (exceptBudget m handler) where
  pays budget := by
    cases run : m budget with
    | ok a after =>
      rw [exceptBudget_ok run]
      exact head.pays_ok run
    | error fault after =>
      have paid := head.pays_error run
      by_cases exceeded : fault = analysisBudgetExceeded
      · rw [exceptBudget_exceeded (exceeded ▸ run)]
        have rest := rescue.pays after
        exact ⟨rest.1.trans paid.1, rest.2.trans paid.2⟩
      · rw [exceptBudget_error run exceeded]
        exact paid
  lasts {extra budget richer} more rich lasts := by
    cases run : m budget with
    | ok a after =>
      rw [exceptBudget_ok run] at lasts ⊢
      obtain ⟨after', run', rich'⟩ := head.ok more rich run lasts
      rw [exceptBudget_ok run']
      exact ⟨rfl, rich'⟩
    | error fault after =>
      by_cases exceeded : fault = analysisBudgetExceeded
      · subst exceeded
        rw [exceptBudget_exceeded run] at lasts ⊢
        rw [overdrawn_trans (head.pays_error run).1 (rescue.pays after).1, not_or] at lasts
        obtain ⟨after', run', rich'⟩ := head.error more rich run lasts.1
        rw [exceptBudget_exceeded run']
        exact rescue.lasts more rich' lasts.2
      · rw [exceptBudget_error run exceeded] at lasts ⊢
        obtain ⟨after', run', rich'⟩ := head.error more rich run lasts
        rw [exceptBudget_error run' exceeded]
        exact ⟨rfl, rich'⟩

end combinators

end CollectivePhaseControl
