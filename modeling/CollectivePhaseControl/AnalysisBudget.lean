import CollectivePhaseControl.Rationals

/-! The operations budget of the analyses. A charge that finds the budget used up, or the
deadline passed, raises; what an analysis returns is therefore computed on a budget that
lasted, and does not depend on it. -/
namespace CollectivePhaseControl

/-- `late n` says whether the deadline has passed when the charge after `n` others is made. -/
structure Budget where
  operations : ℤ
  remaining : ℤ
  charges : ℕ
  late : ℕ → Bool

def maxOperations : ℤ := 10000000

namespace Budget

/-- `Budget(operations)`, as `__post_init__` leaves it. -/
def ofOperations (operations : ℤ) (late : ℕ → Bool) : Budget := ⟨operations, operations, 0, late⟩

end Budget

abbrev Analysis := EStateM Fault Budget

def analysisBudgetExceeded : Fault := .coded "AnalysisBudgetExceeded"

def spend (amount : ℤ) : Analysis Unit := fun budget =>
  let booked := { budget with remaining := budget.remaining - amount,
                              charges := budget.charges + 1 }
  if booked.remaining < 0 ∨ budget.late budget.charges = true then
    .error analysisBudgetExceeded booked
  else .ok () booked

def maxRationalBits : ℕ := 4096

def rational (written : Rational) : Analysis ℚ :=
  let result := F written
  if maxRationalBits < result.num.natAbs.size ∨ maxRationalBits < result.den.size then
    throw analysisBudgetExceeded
  else
    pure result

def Yields {α : Type} (m : Analysis α) (said : α → Prop) : Prop :=
  ∀ budget a after, m budget = .ok a after → said a

section yields
variable {α β : Type} {said : α → Prop} {said' : β → Prop}

theorem yields_trivial (m : Analysis α) : Yields m fun _ => True := fun _ _ _ _ => trivial

theorem yields_pure {a : α} (holds : said a) : Yields (pure a : Analysis α) said := by
  rintro budget _ after ⟨⟩
  exact holds

theorem yields_throw (fault : Fault) : Yields (throw fault : Analysis α) said := by
  rintro budget a after ⟨⟩

theorem yields_spend (amount : ℤ) : Yields (spend amount) fun _ => True :=
  fun _ _ _ _ => trivial

theorem yields_rational (written : Rational) : Yields (rational written) (· = F written) := by
  unfold rational
  dsimp only
  split
  · exact yields_throw _
  · exact yields_pure rfl

theorem yields_bind {m : Analysis α} {f : α → Analysis β} (head : Yields m said)
    (tail : ∀ a, said a → Yields (f a) said') : Yields (m >>= f) said' := by
  intro budget b after run
  change EStateM.bind m f budget = .ok b after at run
  unfold EStateM.bind at run
  cases first : m budget with
  | error fault middle =>
    rw [first] at run
    cases run
  | ok a middle =>
    rw [first] at run
    exact tail a (head budget a middle first) middle b after run

theorem Yields.mono {m : Analysis α} {weaker : α → Prop} (h : Yields m said)
    (imp : ∀ a, said a → weaker a) : Yields m weaker :=
  fun budget a after run => imp a (h budget a after run)

theorem yields_foldlM {f : β → α → Analysis β} (I : β → Prop) {xs : List α}
    (step : ∀ s, I s → ∀ x ∈ xs, Yields (f s x) I) {s : β} (start : I s) :
    Yields (xs.foldlM f s) I := by
  induction xs generalizing s with
  | nil => exact yields_pure start
  | cons x xs ih =>
    rw [List.foldlM_cons]
    refine yields_bind (step s start x List.mem_cons_self) fun t next => ?_
    exact ih (fun s now y member => step s now y (List.mem_cons_of_mem _ member)) next

theorem yields_foldlM_spend {g : β → α → β} (amount : ℤ) (xs : List α) (s : β) :
    Yields (xs.foldlM (fun s x => do spend amount; pure (g s x)) s) fun t => t = xs.foldl g s := by
  induction xs generalizing s with
  | nil => exact yields_pure rfl
  | cons x xs ih =>
    rw [List.foldlM_cons, List.foldl_cons]
    have first : Yields (do spend amount; pure (g s x)) fun t => t = g s x :=
      yields_bind (yields_spend amount) fun _ _ => yields_pure rfl
    refine yields_bind first fun t same => ?_
    rw [same]
    exact ih (g s x)

theorem yields_foldlM_keep (keeps : α → Prop) [DecidablePred keeps] (amount : ℤ)
    (xs kept : List α) :
    Yields (xs.foldlM (fun kept x => do
        spend amount
        pure (if keeps x then kept ++ [x] else kept)) kept)
      (· = kept ++ xs.filter fun x => decide (keeps x)) := by
  refine (yields_foldlM_spend amount xs kept).mono fun after same => ?_
  rw [same]
  clear same after
  induction xs generalizing kept with
  | nil => simp
  | cons x xs ih =>
    rw [List.foldl_cons, ih, List.filter_cons]
    split_ifs <;> simp_all

theorem yields_foldlM_eq {f : β → α → Analysis β} {g : β → α → β} {xs : List α}
    (step : ∀ s, ∀ x ∈ xs, Yields (f s x) (· = g s x)) (s : β) :
    Yields (xs.foldlM f s) (· = xs.foldl g s) := by
  induction xs generalizing s with
  | nil => exact yields_pure rfl
  | cons x xs ih =>
    rw [List.foldlM_cons, List.foldl_cons]
    refine yields_bind (step s x List.mem_cons_self) fun t same => ?_
    rw [same]
    exact ih (fun s y member => step s y (List.mem_cons_of_mem _ member)) (g s x)

theorem bind_run {m : Analysis α} {f : α → Analysis β} {a : α} {budget after : Budget}
    (first : m budget = .ok a after) : (m >>= f) budget = f a after := by
  change EStateM.bind m f budget = _
  unfold EStateM.bind
  rw [first]

theorem foldlM_spend_run {g : β → α → β} {xs : List α} {s : β} {budget : Budget}
    (enough : xs.length ≤ budget.remaining) (timely : ∀ n, budget.late n = false) :
    (xs.foldlM (fun s x => do spend 1; pure (g s x)) s : Analysis β) budget =
      .ok (xs.foldl g s) { budget with remaining := budget.remaining - xs.length,
                                       charges := budget.charges + xs.length } := by
  induction xs generalizing s budget with
  | nil => simp [pure, EStateM.pure]
  | cons x xs ih =>
    simp only [List.length_cons, Nat.cast_add, Nat.cast_one] at enough ⊢
    have paid : spend 1 budget = .ok () { budget with remaining := budget.remaining - 1,
                                                      charges := budget.charges + 1 } := by
      unfold spend
      have : ¬ budget.remaining - 1 < 0 := by omega
      simp [this, timely]
    have head : (do spend 1; pure (g s x) : Analysis β) budget = .ok (g s x)
        { budget with remaining := budget.remaining - 1, charges := budget.charges + 1 } :=
      bind_run paid
    have next : (xs.length : ℤ) ≤ budget.remaining - 1 := by omega
    have rest := @ih (g s x) { budget with remaining := budget.remaining - 1,
                                           charges := budget.charges + 1 } next timely
    rw [List.foldlM_cons, List.foldl_cons, bind_run head, rest, EStateM.Result.ok.injEq,
      Budget.mk.injEq]
    refine ⟨rfl, rfl, ?_, ?_, rfl⟩ <;> dsimp only <;> omega

end yields

/-- Nothing but the budget makes the analysis raise. -/
def Spends {α : Type} (m : Analysis α) : Prop :=
  ∀ budget fault after, m budget = .error fault after → fault = analysisBudgetExceeded

/-- The analysis returns what is said, or raises that the budget is exceeded. -/
def Decides {α : Type} (m : Analysis α) (said : α → Prop) : Prop :=
  ∀ budget, match m budget with
    | .ok a _ => said a
    | .error fault _ => fault = analysisBudgetExceeded

section spends
variable {α β : Type} {said : α → Prop}

theorem decides_iff {m : Analysis α} : Decides m said ↔ Yields m said ∧ Spends m := by
  constructor
  · refine fun decides => ⟨fun budget a after run => ?_, fun budget fault after run => ?_⟩
    · have holds := decides budget
      rw [run] at holds
      exact holds
    · have holds := decides budget
      rw [run] at holds
      exact holds
  · rintro ⟨yields, spends⟩ budget
    split
    · rename_i a after run
      exact yields budget a after run
    · rename_i fault after run
      exact spends budget fault after run

theorem spends_pure (a : α) : Spends (pure a : Analysis α) := by
  rintro budget fault after ⟨⟩

theorem spends_spend (amount : ℤ) : Spends (spend amount) := by
  intro budget fault after run
  unfold spend at run
  dsimp only at run
  split at run
  · cases run
    rfl
  · cases run

theorem spends_bind {m : Analysis α} {f : α → Analysis β} (head : Spends m)
    (yields : Yields m said) (tail : ∀ a, said a → Spends (f a)) : Spends (m >>= f) := by
  intro budget fault after run
  change EStateM.bind m f budget = .error fault after at run
  unfold EStateM.bind at run
  cases first : m budget with
  | error early middle =>
    rw [first] at run
    cases run
    exact head budget fault after first
  | ok a middle =>
    rw [first] at run
    exact tail a (yields budget a middle first) middle fault after run

theorem spends_foldlM {f : β → α → Analysis β} (each : ∀ s x, Spends (f s x)) (xs : List α) :
    ∀ s, Spends (xs.foldlM f s) := by
  induction xs with
  | nil => exact fun s => spends_pure s
  | cons x xs ih =>
    intro s
    rw [List.foldlM_cons]
    exact spends_bind (each s x) (yields_trivial _) fun t _ => ih t

theorem decides_pure {a : α} (holds : said a) : Decides (pure a : Analysis α) said :=
  decides_iff.mpr ⟨yields_pure holds, spends_pure a⟩

theorem decides_spend (amount : ℤ) : Decides (spend amount) fun _ => True :=
  decides_iff.mpr ⟨yields_spend amount, spends_spend amount⟩

theorem decides_bind {said' : β → Prop} {m : Analysis α} {f : α → Analysis β}
    (head : Decides m said) (tail : ∀ a, said a → Decides (f a) said') :
    Decides (m >>= f) said' := by
  rw [decides_iff] at head ⊢
  constructor
  · exact yields_bind head.1 fun a holds => (decides_iff.mp (tail a holds)).1
  · exact spends_bind head.2 head.1 fun a holds => (decides_iff.mp (tail a holds)).2

theorem Decides.and {said' : α → Prop} {m : Analysis α} (first : Decides m said)
    (second : Decides m said') : Decides m fun a => said a ∧ said' a := by
  rw [decides_iff] at first second ⊢
  exact ⟨fun budget a after run => ⟨first.1 budget a after run, second.1 budget a after run⟩,
    first.2⟩

theorem Decides.of_map {said' : β → Prop} {m : Analysis α} {f : α → β}
    (image : Decides (f <$> m) said') : Decides m fun a => said' (f a) := by
  rw [decides_iff] at image ⊢
  have mapped : ∀ budget, (f <$> m) budget = EStateM.map f m budget := fun _ => rfl
  refine ⟨fun budget a after run => image.1 budget (f a) after ?_,
    fun budget fault after run => image.2 budget fault after ?_⟩
  · rw [mapped, EStateM.map, run]
  · rw [mapped, EStateM.map, run]

end spends

/-- With enough operations and time the analysis returns a value, within a bounded cost. -/
def Affordable {α : Type} (m : Analysis α) : Prop :=
  ∃ (a : α) (cost : ℤ), ∀ budget : Budget, cost ≤ budget.remaining →
    (∀ n, budget.late n = false) → ∃ after, m budget = .ok a after ∧
      budget.remaining - cost ≤ after.remaining ∧ after.late = budget.late

section affordable
variable {α β : Type} {said : α → Prop}

theorem affordable_pure (a : α) : Affordable (pure a : Analysis α) :=
  ⟨a, 0, fun budget _ _ => ⟨budget, rfl, by omega, rfl⟩⟩

theorem affordable_spend (amount : ℤ) : Affordable (spend amount) := by
  refine ⟨(), amount, fun budget enough timely => ?_⟩
  refine ⟨{ budget with remaining := budget.remaining - amount, charges := budget.charges + 1 },
    ?_, le_refl _, rfl⟩
  unfold spend
  dsimp only
  rw [if_neg]
  rw [timely, not_or]
  exact ⟨by omega, Bool.false_ne_true⟩

theorem Affordable.bind {m : Analysis α} {f : α → Analysis β} (head : Affordable m)
    (yields : Yields m said) (tail : ∀ a, said a → Affordable (f a)) : Affordable (m >>= f) := by
  obtain ⟨a, cost, first⟩ := head
  have rich : ∃ budget : Budget, cost ≤ budget.remaining ∧ ∀ n, budget.late n = false :=
    ⟨.ofOperations cost fun _ => false, le_refl _, fun _ => rfl⟩
  obtain ⟨budget, enough, timely⟩ := rich
  obtain ⟨after, run, -⟩ := first budget enough timely
  obtain ⟨b, cost', second⟩ := tail a (yields budget a after run)
  refine ⟨b, max cost (cost + cost'), fun budget enough timely => ?_⟩
  obtain ⟨middle, run, left, late⟩ := first budget (by omega) timely
  obtain ⟨after, run', left', late'⟩ := second middle (by omega) (late ▸ timely)
  refine ⟨after, ?_, by omega, late'.trans late⟩
  change EStateM.bind m f budget = .ok b after
  unfold EStateM.bind
  rw [run]
  exact run'

theorem affordable_foldlM {f : β → α → Analysis β} {xs : List α}
    (each : ∀ s, ∀ x ∈ xs, Affordable (f s x)) : ∀ s, Affordable (xs.foldlM f s) := by
  induction xs with
  | nil => exact fun s => affordable_pure s
  | cons x xs ih =>
    intro s
    rw [List.foldlM_cons]
    refine (each s x List.mem_cons_self).bind (yields_trivial _) fun t _ => ?_
    exact ih (fun s y member => each s y (List.mem_cons_of_mem _ member)) t

theorem affordable_rational {written : Rational}
    (short : ¬ (maxRationalBits < (F written).num.natAbs.size ∨
      maxRationalBits < (F written).den.size)) : Affordable (rational written) := by
  unfold rational
  dsimp only
  rw [if_neg short]
  exact affordable_pure _

end affordable

end CollectivePhaseControl
