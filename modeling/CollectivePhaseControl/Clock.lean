import CollectivePhaseControl.Rationals

/-! Written times. A time may or may not carry a UTC offset; the two kinds cannot be
ordered against each other, and trying to do so raises. Units are microseconds. -/
namespace CollectivePhaseControl

structure DateTime where
  wall : ℤ
  offset : Option ℤ
deriving DecidableEq, Repr

namespace DateTime

/-- `a - b`, raising when exactly one of them carries an offset. -/
def minus (a b : DateTime) : Checked ℤ :=
  match a.offset, b.offset with
  | some x, some y => .ok ((a.wall - x) - (b.wall - y))
  | none, none => .ok (a.wall - b.wall)
  | _, _ => .error (.crash .typeError)

def le (a b : DateTime) : Checked Bool := do
  pure (decide ((← a.minus b) ≤ 0))

def lt (a b : DateTime) : Checked Bool := do
  pure (decide ((← a.minus b) < 0))

/-- `==` never raises: times of different kinds are unequal. -/
def same (a b : DateTime) : Bool :=
  match a.minus b with
  | .ok difference => difference == 0
  | .error _ => false

def Comparable (a b : DateTime) : Prop := a.offset.isSome = b.offset.isSome

instance (a b : DateTime) : Decidable (a.Comparable b) := by unfold Comparable; infer_instance

theorem minus_ok_iff {a b : DateTime} : (∃ d, a.minus b = .ok d) ↔ a.Comparable b := by
  cases ha : a.offset <;> cases hb : b.offset <;> simp [minus, Comparable, ha, hb]

variable {a b c : DateTime}

/-- The microseconds since the epoch, or since the start of an unknown local time. -/
def instant (a : DateTime) : ℤ := a.wall - a.offset.getD 0

theorem minus_eq (same : a.Comparable b) : a.minus b = .ok (a.instant - b.instant) := by
  unfold Comparable at same
  unfold minus instant
  cases x : a.offset <;> cases y : b.offset <;> simp_all

theorem lt_ok_iff {answer : Bool} :
    a.lt b = .ok answer ↔ a.Comparable b ∧ answer = decide (a.instant < b.instant) := by
  constructor
  · intro compared
    simp only [lt, bind_ok, pure_ok] at compared
    obtain ⟨difference, found, rfl⟩ := compared
    have same : a.Comparable b := minus_ok_iff.mp ⟨difference, found⟩
    rw [minus_eq same] at found
    cases found
    exact ⟨same, decide_eq_decide.mpr (by omega)⟩
  · rintro ⟨same, rfl⟩
    simp only [lt, bind_ok, pure_ok]
    exact ⟨_, minus_eq same, decide_eq_decide.mpr (by omega)⟩

/-- `a >= b`, as the negation of `a < b`. -/
theorem lt_false_iff : a.lt b = .ok false ↔ a.Comparable b ∧ b.instant ≤ a.instant := by
  rw [lt_ok_iff, eq_comm, decide_eq_false_iff_not, not_lt]

theorem lt_true_iff : a.lt b = .ok true ↔ a.Comparable b ∧ a.instant < b.instant := by
  rw [lt_ok_iff, eq_comm, decide_eq_true_eq]

theorem le_ok_iff {answer : Bool} :
    a.le b = .ok answer ↔ a.Comparable b ∧ answer = decide (a.instant ≤ b.instant) := by
  constructor
  · intro compared
    simp only [le, bind_ok, pure_ok] at compared
    obtain ⟨difference, found, rfl⟩ := compared
    have same : a.Comparable b := minus_ok_iff.mp ⟨difference, found⟩
    rw [minus_eq same] at found
    cases found
    exact ⟨same, decide_eq_decide.mpr (by omega)⟩
  · rintro ⟨same, rfl⟩
    simp only [le, bind_ok, pure_ok]
    exact ⟨_, minus_eq same, decide_eq_decide.mpr (by omega)⟩

theorem le_true_iff : a.le b = .ok true ↔ a.Comparable b ∧ a.instant ≤ b.instant := by
  rw [le_ok_iff, eq_comm, decide_eq_true_eq]

/-- `a <= b` fails exactly where `b < a` holds. -/
theorem le_false_iff : a.le b = .ok false ↔ b.lt a = .ok true := by
  rw [le_ok_iff, lt_true_iff, eq_comm, decide_eq_false_iff_not, not_le]
  exact and_congr_left' eq_comm

theorem notBefore_trans (first : a.lt b = .ok false) (second : b.lt c = .ok false) :
    a.lt c = .ok false := by
  rw [lt_false_iff] at first second ⊢
  exact ⟨Eq.trans first.1 second.1, second.2.trans first.2⟩

end DateTime

structure Lifecycle where
  validFrom : DateTime
  validUntil : DateTime
  withdrawnAt : Option DateTime
deriving DecidableEq, Repr

end CollectivePhaseControl
