import CollectivePhaseControl.JsonOrders
import CollectivePhaseControl.JsonReader

/-! What every spelling of a value has in common: it spells code points only, and it is at least
as long as the value written. -/
namespace JsonText
open CodePoints

theorem Separated.each {α : Type} {P : List Char → α → Prop} {cs : List Char} {xs : List α}
    (separated : Separated P cs xs) : ∀ x ∈ xs, ∃ text, P text x := by
  induction separated with
  | last first blank =>
    intro x member
    obtain rfl := List.mem_singleton.mp member
    exact ⟨_, first⟩
  | cons first blank blank' others ih => exact List.forall_mem_cons.mpr ⟨⟨_, first⟩, ih⟩

theorem SpelledMember.parts {P : List Char → Value → Prop} {cs : List Char} {m : Text × Value}
    (member : SpelledMember P cs m) : ∃ keyText text, SpelledText keyText m.1 ∧ P text m.2 := by
  cases member with
  | mk name blank blank' spelled => exact ⟨_, _, name, spelled⟩

def Passed (checked : List (Text × Value) → Prop) : Value → Prop
  | .object members => checked members
  | _ => True

/-- The strings of the value itself, its keys included, consist of code points. -/
def Bounded : Value → Prop
  | .str text => ∀ c ∈ text, c < 0x110000
  | .object members => ∀ m ∈ members, ∀ c ∈ m.1, c < 0x110000
  | _ => True

theorem hexValue_lt {c : Char} {n : ℕ} (read : hexValue c = some n) : n < 16 := by
  have order : ∀ d e : Char, d ≤ e → d.toNat ≤ e.toNat := fun _ _ le => le
  unfold hexValue at read
  split_ifs at read with digit lower upper
  · rw [Option.some_inj] at read
    rw [Char.isDigit, Bool.and_eq_true, decide_eq_true_iff, decide_eq_true_iff] at digit
    have most : c.toNat ≤ '9'.toNat := digit.2
    simp only [Char.reduceToNat] at read most
    omega
  · rw [Option.some_inj] at read
    have most := order _ _ lower.2
    simp only [Char.reduceToNat] at read most
    omega
  · rw [Option.some_inj] at read
    have most := order _ _ upper.2
    simp only [Char.reduceToNat] at read most
    omega

theorem hex4_lt {a b c d : Char} {code : ℕ} (read : hex4 a b c d = some code) : code < 0x10000 := by
  simp only [hex4, Option.bind_eq_bind, Option.bind_eq_some_iff, Option.pure_def,
    Option.some_inj] at read
  obtain ⟨w, first, x, second, y, third, z, fourth, rfl⟩ := read
  have := hexValue_lt first
  have := hexValue_lt second
  have := hexValue_lt third
  have := hexValue_lt fourth
  omega

theorem paired_lt {high low : ℕ} (isHigh : highSurrogate high = true)
    (isLow : lowSurrogate low = true) : paired high low < 0x110000 := by
  rw [highSurrogate, Bool.and_eq_true, decide_eq_true_iff, decide_eq_true_iff] at isHigh
  rw [lowSurrogate, Bool.and_eq_true, decide_eq_true_iff, decide_eq_true_iff] at isLow
  unfold paired
  omega

theorem Spelled.bounded {piece : List Char} {code : ℕ} (spelled : Spelled piece code) :
    code < 0x110000 := by
  cases spelled with
  | plain c printable quote backslash =>
    obtain low | ⟨-, high⟩ := c.valid
    · exact Nat.lt_trans low (by decide)
    · exact high
  | short c code listed =>
    have each : ∀ p ∈ shortEscapes, p.2 < 0x110000 := by decide
    exact each _ listed
  | hex a b c d code read => exact (hex4_lt read).trans (by decide)
  | pair a b c d e f g h high low read read' isHigh isLow => exact paired_lt isHigh isLow

theorem SpelledText.bounded {cs : List Char} {text : Text} (spelled : SpelledText cs text) :
    ∀ c ∈ text, c < 0x110000 := by
  induction spelled with
  | nil => simp
  | cons first others ih => exact List.forall_mem_cons.mpr ⟨first.bounded, ih⟩

theorem closed_bounded {checked : List (Text × Value) → Prop} :
    Closed checked fun _ v => All Bounded v where
  null := trivial
  bool_true := trivial
  bool_false := trivial
  int _ _ _ _ := trivial
  float _ _ _ := trivial
  str _ _ spelled := spelled.bounded
  emptyArray _ _ := all_array.mpr ⟨trivial, by simp⟩
  array _ _ _ _ separated := all_array.mpr ⟨trivial, fun v member =>
    (separated.each v member).choose_spec⟩
  emptyObject _ _ _ := all_object.mpr ⟨fun m member => absurd member List.not_mem_nil, by simp⟩
  object _ _ members _ separated _ := by
    refine all_object.mpr ⟨fun m member => ?_, fun m member => ?_⟩
    · obtain ⟨_, spelled⟩ := separated.each m member
      obtain ⟨_, _, name, -⟩ := spelled.parts
      exact name.bounded
    · obtain ⟨_, spelled⟩ := separated.each m member
      obtain ⟨_, _, -, inside⟩ := spelled.parts
      exact inside

theorem closed_passed {checked : List (Text × Value) → Prop} :
    Closed checked fun _ v => All (Passed checked) v where
  null := trivial
  bool_true := trivial
  bool_false := trivial
  int _ _ _ _ := trivial
  float _ _ _ := trivial
  str _ _ _ := trivial
  emptyArray _ _ := all_array.mpr ⟨trivial, by simp⟩
  array _ _ _ _ separated := all_array.mpr ⟨trivial, fun v member =>
    (separated.each v member).choose_spec⟩
  emptyObject _ _ passed := all_object.mpr ⟨passed, by simp⟩
  object _ _ members _ separated passed := by
    refine all_object.mpr ⟨passed, fun m member => ?_⟩
    obtain ⟨_, spelled⟩ := separated.each m member
    obtain ⟨_, _, -, inside⟩ := spelled.parts
    exact inside

theorem length_le_size (cs : List Char) : cs.length ≤ size (ofChars cs) := by
  induction cs with
  | nil => simp
  | cons c cs ih =>
    have pos := width_pos c.toNat
    rw [ofChars_cons, size_cons, List.length_cons]
    omega

theorem size_ascii {cs : List Char} (ascii : ∀ c ∈ cs, c.toNat < 0x80) :
    size (ofChars cs) = cs.length := by
  induction cs with
  | nil => rfl
  | cons c cs ih =>
    rw [List.forall_mem_cons] at ascii
    rw [ofChars_cons, size_cons, ih ascii.2, width, if_pos ascii.1, List.length_cons, Nat.add_comm]

theorem size_escaped_le (c : ℕ) : size (escaped c) ≤ 6 := by
  by_cases special : c < 0x20 ∨ c = 34 ∨ c = 92
  · obtain control | rfl | rfl := special
    · interval_cases c <;> decide
    · decide
    · decide
  · have narrow := width_le c
    rw [escaped_plain special, size_cons, size_nil]
    omega

theorem Spelled.size_escaped {piece : List Char} {code : ℕ} (spelled : Spelled piece code) :
    size (escaped code) ≤ size (ofChars piece) := by
  have bound := size_escaped_le code
  have longer := length_le_size piece
  cases spelled with
  | plain c printable quote backslash =>
    have differs : ∀ d : Char, c ≠ d → c.toNat ≠ d.toNat := fun d other same =>
      other (Char.ext (UInt32.toNat_inj.mp same))
    have second := differs '"' quote
    have third := differs '\\' backslash
    simp only [Char.reduceToNat] at second third
    rw [escaped_plain (by omega)]
    exact Nat.le_refl _
  | short c code listed =>
    have each : ∀ p ∈ shortEscapes, size (escaped p.2) ≤ size (ofChars ['\\', p.1]) := by decide
    exact each _ listed
  | hex a b c d code read => exact bound.trans longer
  | pair a b c d e f g h high low read read' isHigh isLow =>
    refine bound.trans (Nat.le_trans ?_ longer)
    exact Nat.le_add_left 6 6

theorem SpelledText.size_quote {cs : List Char} {text : Text} (spelled : SpelledText cs text) :
    size (quote text) ≤ size (ofChars ('"' :: cs ++ ['"'])) := by
  have inside : size (text.flatMap escaped) ≤ size (ofChars cs) := by
    induction spelled with
    | nil => exact Nat.le_refl _
    | cons first others ih =>
      have here := first.size_escaped
      rw [List.flatMap_cons, ofChars_append, size_append, size_append]
      omega
  simp only [quote, List.cons_append, ofChars_cons, ofChars_append, size_cons, size_append,
    ofChars_nil]
  omega

theorem ofDigitChars_lt {digits : List Char} (all : ∀ c ∈ digits, c.isDigit = true) :
    Nat.ofDigitChars 10 digits 0 < 10 ^ digits.length := by
  induction digits using List.reverseRecOn with
  | nil => simp
  | append_singleton digits c ih =>
    rw [List.forall_mem_append, List.forall_mem_singleton] at all
    have shorter := ih all.1
    have digit := all.2
    rw [Char.isDigit, Bool.and_eq_true, decide_eq_true_iff, decide_eq_true_iff] at digit
    have most : c.toNat ≤ '9'.toNat := digit.2
    rw [Nat.ofDigitChars_append, Nat.ofDigitChars_cons, Nat.ofDigitChars_nil, List.length_append,
      List.length_singleton, Nat.pow_succ]
    simp only [Char.reduceToNat] at most ⊢
    omega

theorem size_decimal {negative : Bool} {digits : List Char} (some' : digits ≠ [])
    (all : ∀ c ∈ digits, c.isDigit = true) :
    size (ofChars (decimal (signed negative (Nat.ofDigitChars 10 digits 0)))) ≤
      size (ofChars ((if negative = true then ['-'] else []) ++ digits)) := by
  have digitAscii : ∀ c : Char, c.isDigit = true → c.toNat < 0x80 := by
    intro c digit
    rw [Char.isDigit, Bool.and_eq_true, decide_eq_true_iff, decide_eq_true_iff] at digit
    have most : c.toNat ≤ '9'.toNat := digit.2
    exact most.trans_lt (by decide)
  have pos := List.length_pos_iff.mpr some'
  have shorter : (Nat.toDigits 10 (Nat.ofDigitChars 10 digits 0)).length ≤ digits.length :=
    (Nat.length_toDigits_le_iff (by decide) pos).mpr (ofDigitChars_lt all)
  have magnitude : (signed negative (Nat.ofDigitChars 10 digits 0)).natAbs =
      Nat.ofDigitChars 10 digits 0 := by
    unfold signed
    split_ifs <;> omega
  have written : ∀ c ∈ Nat.toDigits 10 (Nat.ofDigitChars 10 digits 0), c.toNat < 0x80 :=
    fun c member => digitAscii c (Nat.isDigit_of_mem_toDigits (by decide) (by decide) member)
  have read : ∀ c ∈ digits, c.toNat < 0x80 := fun c member => digitAscii c (all c member)
  rw [decimal, magnitude, ofChars_append, ofChars_append, size_append, size_append,
    size_ascii written, size_ascii read]
  refine Nat.add_le_add ?_ shorter
  cases negative with
  | true =>
    rw [if_pos rfl]
    split_ifs
    · exact Nat.le_refl _
    · exact Nat.zero_le _
  | false =>
    have plus : ¬ signed false (Nat.ofDigitChars 10 digits 0) < 0 := by
      simp only [signed, Bool.false_eq_true, if_false]
      omega
    rw [if_neg plus, if_neg Bool.false_ne_true]

theorem Separated.size_commas {α : Type} {P : List Char → α → Prop} {written : α → Text}
    (each : ∀ cs x, P cs x → size (written x) ≤ size (ofChars cs)) {cs : List Char} {xs : List α}
    (separated : Separated P cs xs) : size (commas (xs.map written)) ≤ size (ofChars cs) := by
  induction separated with
  | last first blank =>
    have here := each _ _ first
    rw [List.map_singleton, commas, ofChars_append, size_append]
    omega
  | @cons text after before more x xs first blank blank' others ih =>
    have here := each _ _ first
    have some' : xs.map written ≠ [] := by
      cases others <;> simp
    rw [List.map_cons, commas_cons _ some', size_append, size_cons]
    simp only [ofChars_append, ofChars_cons, size_append, size_cons]
    omega

theorem closed_size {checked : List (Text × Value) → Prop} :
    Closed checked fun cs v => size (write v) ≤ size (ofChars cs) where
  null := Nat.le_refl _
  bool_true := Nat.le_refl _
  bool_false := Nat.le_refl _
  int _ _ some' all := size_decimal some' all
  float _ _ _ := Nat.le_refl _
  str _ _ spelled := spelled.size_quote
  emptyArray blank _ := by
    simp only [write, writeItems, commas, List.cons_append, ofChars_cons, ofChars_append,
      size_cons, size_append, List.nil_append, ofChars_nil]
    omega
  array blank cs items _ separated := by
    have inside : size (commas (items.map write)) ≤ size (ofChars cs) :=
      separated.size_commas fun _ _ shorter => shorter
    rw [write, writeItems_eq]
    simp only [List.cons_append, ofChars_cons, ofChars_append, size_cons, size_append, ofChars_nil]
    omega
  emptyObject blank _ _ := by
    simp only [write, writeMembers, commas, List.cons_append, ofChars_cons, ofChars_append,
      size_cons, size_append, List.nil_append, ofChars_nil]
    omega
  object blank cs members _ separated _ := by
    have inside : size (commas (members.map writeMember)) ≤ size (ofChars cs) := by
      refine separated.size_commas fun cs m member => ?_
      cases member with
      | mk name blank blank' spelled =>
        have key := name.size_quote
        simp only [writeMember, List.cons_append, ofChars_cons, ofChars_append, size_cons,
          size_append, ofChars_nil, size_nil] at key ⊢
        omega
    rw [write, writeMembers_eq]
    simp only [List.cons_append, ofChars_cons, ofChars_append, size_cons, size_append, ofChars_nil]
    omega

end JsonText
