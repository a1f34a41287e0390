import CollectivePhaseControl.Checked

/-! Exact rationals in their written form. Documents carry text, computation is in
`ℚ`, and results are written back in lowest terms. Two spellings of one number are
different texts, so the written form is kept apart from its value. -/
namespace CollectivePhaseControl

abbrev Identifier := String
abbrev Digest := String

/-- The texts of `RATIONAL_PATTERN`: a sign, a numerator without leading zeros and,
after a slash, a positive denominator. -/
structure Rational where
  negative : Bool
  numerator : ℕ
  denominator : Option ℕ+
deriving DecidableEq

namespace Rational

def text (r : Rational) : String :=
  (if r.negative then "-" else "") ++ toString r.numerator ++
    match r.denominator with
    | some d => "/" ++ toString (d : ℕ)
    | none => ""

/-- `max_length=1234` of the `Rational` annotation. -/
def accepted (r : Rational) : Prop := r.text.length ≤ 1234

instance (r : Rational) : Decidable r.accepted := by unfold accepted; infer_instance

def ofNat (n : ℕ) : Rational := ⟨false, n, none⟩

end Rational

/-- The source abbreviates `Fraction` to `F`. -/
def F (r : Rational) : ℚ :=
  mkRat (if r.negative then -r.numerator else r.numerator)
    (match r.denominator with | some d => d | none => 1)

/-- Python's `str` of a fraction: lowest terms, no denominator when it is one. -/
def str (q : ℚ) : Rational :=
  ⟨decide (q.num < 0), q.num.natAbs, if q.den = 1 then none else some ⟨q.den, q.pos⟩⟩

@[simp] theorem F_str (q : ℚ) : F (str q) = q := by
  have sign : (if decide (q.num < 0) then -(q.num.natAbs : ℤ) else q.num.natAbs) = q.num := by
    by_cases h : q.num < 0
    · rw [if_pos (decide_eq_true h)]
      omega
    · rw [if_neg (by simpa using h)]
      omega
  by_cases h : q.den = 1
  · simp only [F, str, sign, h, if_true]
    conv_rhs => rw [← Rat.mkRat_self q, h]
  · simp only [F, str, sign, h, if_false, PNat.mk_coe, Rat.mkRat_self]

@[simp] theorem F_ofNat (n : ℕ) : F (.ofNat n) = n := by
  simp [F, Rational.ofNat, Rat.mkRat_one]

example : F ⟨false, 2, some 4⟩ = F ⟨false, 1, some 2⟩ := by decide +kernel
example : str (-6 / 4) = ⟨true, 3, some 2⟩ := by decide +kernel

end CollectivePhaseControl
