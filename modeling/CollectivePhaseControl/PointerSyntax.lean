import Mathlib

/-! Syntax of JSON pointers. A tilde is always part of an escape, a position of an array is
written in decimal without leading zeros, and so every path has one pointer. -/
namespace Rfc6901

def unescape : List Char → Option (List Char)
  | [] => some []
  | '~' :: '0' :: rest => (unescape rest).map ('~' :: ·)
  | '~' :: '1' :: rest => (unescape rest).map ('/' :: ·)
  | '~' :: _ => none
  | c :: rest => (unescape rest).map (c :: ·)

def escapeChar (c : Char) : List Char :=
  if c = '~' then ['~', '0'] else if c = '/' then ['~', '1'] else [c]

def escape (text : List Char) : List Char := text.flatMap escapeChar

def tokens : List Char → Option (List (List Char))
  | [] => some []
  | '/' :: path => (path.splitOn '/').mapM unescape
  | _ => none

def isDigit (c : Char) : Bool := '0' ≤ c && c ≤ '9'
def digit (c : Char) : ℕ := c.toNat - '0'.toNat

def number (token : List Char) : ℕ := Nat.ofDigits 10 (token.reverse.map digit)

def IsIndex (token : List Char) : Prop :=
  token = ['0'] ∨ token ≠ [] ∧ token.head? ≠ some '0' ∧ ∀ c ∈ token, isDigit c = true

instance decidableIsIndex (token : List Char) : Decidable (IsIndex token) :=
  inferInstanceAs (Decidable (_ ∨ _))

def index (token : List Char) : Option ℕ := if IsIndex token then some (number token) else none

section escapes
variable {raw text token token' : List Char} {n : ℕ}

theorem unescape_plain {c : Char} (plain : c ≠ '~') (rest : List Char) :
    unescape (c :: rest) = (unescape rest).map (c :: ·) := by
  rw [unescape]
  all_goals simp [plain]

theorem unescape_escape (text : List Char) : unescape (escape text) = some text := by
  induction text with
  | nil => rfl
  | cons c text ih =>
    rw [escape, List.flatMap_cons, ← escape, escapeChar]
    split_ifs with tilde slash
    · subst tilde
      rw [List.cons_append, List.singleton_append, unescape, ih]
      rfl
    · subst slash
      rw [List.cons_append, List.singleton_append, unescape, ih]
      rfl
    · rw [List.singleton_append, unescape_plain tilde, ih]
      rfl

theorem slash_notMem_escape (text : List Char) : '/' ∉ escape text := by
  intro member
  obtain ⟨c, -, listed⟩ := List.mem_flatMap.mp member
  rw [escapeChar] at listed
  split_ifs at listed with tilde slash
  · simp at listed
  · simp at listed
  · exact slash (List.mem_singleton.mp listed).symm

theorem escape_unescape : ∀ {text : List Char}, '/' ∉ raw → unescape raw = some text →
    escape text = raw := by
  fun_induction unescape raw with
  | case1 =>
    intro text _ parsed
    rw [← Option.some.inj parsed]
    rfl
  | case2 rest ih | case3 rest ih =>
    intro text absent parsed
    obtain ⟨tail, inner, rfl⟩ := Option.map_eq_some_iff.mp parsed
    rw [escape, List.flatMap_cons, ← escape, ih (by simpa using absent) inner]
    rfl
  | case4 => intro text _ parsed; cases parsed
  | case5 c rest _ _ other ih =>
    intro text absent parsed
    obtain ⟨tail, inner, rfl⟩ := Option.map_eq_some_iff.mp parsed
    rw [List.mem_cons, not_or] at absent
    have tilde : c ≠ '~' := other
    rw [escape, List.flatMap_cons, ← escape, ih absent.2 inner, escapeChar, if_neg tilde,
      if_neg (Ne.symm absent.1), List.singleton_append]

theorem slash_notMem_splitOn : ∀ {path raw : List Char}, raw ∈ path.splitOn '/' → '/' ∉ raw := by
  intro path
  induction path with
  | nil => simp
  | cons c path ih =>
    intro raw listed
    rw [List.splitOn_cons_eq_if_modifyHead] at listed
    split_ifs at listed with slash
    · rcases List.mem_cons.mp listed with rfl | listed
      · exact List.not_mem_nil
      · exact ih listed
    · cases split : path.splitOn '/' with
      | nil => exact absurd split (List.splitOn_ne_nil _ _)
      | cons head tail =>
        rw [split, List.modifyHead_cons] at listed
        rcases List.mem_cons.mp listed with rfl | listed
        · have absent := ih (split ▸ List.mem_cons_self)
          rw [List.mem_cons, not_or]
          exact ⟨fun same => slash (by simp [← same]), absent⟩
        · exact ih (split ▸ List.mem_cons_of_mem _ listed)

theorem cons_intercalate {α : Type*} (x : α) : ∀ {parts : List (List α)}, parts ≠ [] →
    x :: [x].intercalate parts = parts.flatMap (x :: ·) := by
  intro parts
  induction parts with
  | nil => intro absent; exact absurd rfl absent
  | cons part parts ih =>
    intro _
    cases parts with
    | nil => simp
    | cons next parts =>
      rw [List.intercalate_cons_cons, List.flatMap_cons, ← ih (List.cons_ne_nil _ _)]
      simp

theorem flatMap_splitOn (path : List Char) :
    ((path.splitOn '/').flatMap fun raw => '/' :: raw) = '/' :: path := by
  rw [← cons_intercalate '/' (List.splitOn_ne_nil _ _), List.intercalate_splitOn]

end escapes

section positions
variable {token token' : List Char} {n : ℕ}

theorem digit_lt {c : Char} (digits : isDigit c = true) : digit c < 10 := by
  simp only [isDigit, Bool.and_eq_true, decide_eq_true_eq] at digits
  have low : '0'.toNat ≤ c.toNat := digits.1
  have high : c.toNat ≤ '9'.toNat := digits.2
  rw [digit]
  have : '9'.toNat = '0'.toNat + 9 := rfl
  omega

theorem digit_injective {c d : Char} (first : isDigit c = true) (second : isDigit d = true)
    (same : digit c = digit d) : c = d := by
  simp only [isDigit, Bool.and_eq_true, decide_eq_true_eq] at first second
  have low : '0'.toNat ≤ c.toNat := first.1
  have low' : '0'.toNat ≤ d.toNat := second.1
  rw [digit, digit] at same
  exact Char.toNat_inj.mp (by omega)

def significant (token : List Char) : List ℕ := if token = ['0'] then [] else token.reverse.map digit

theorem IsIndex.significant_eq (is : IsIndex token) :
    significant token = Nat.digits 10 (number token) := by
  rw [significant]
  split_ifs with isZero
  · subst isZero
    rfl
  · obtain ⟨some, leading, digits⟩ := is.resolve_left isZero
    refine (Nat.digits_ofDigits 10 (by norm_num) _ ?_ ?_).symm
    · intro d listed
      obtain ⟨c, member, rfl⟩ := List.mem_map.mp listed
      exact digit_lt (digits c (List.mem_reverse.mp member))
    · intro nonempty
      cases token with
      | nil => exact absurd rfl some
      | cons c rest =>
        simp only [List.reverse_cons, List.map_append, List.map_cons, List.map_nil,
          List.getLast_append_singleton]
        intro none
        have digits' : isDigit '0' = true := rfl
        have same : c = '0' := digit_injective (digits c List.mem_cons_self) digits' none
        exact leading (by rw [same]; rfl)

theorem digits_of_isIndex (is : IsIndex token) : ∀ c ∈ token, isDigit c = true := by
  rcases is with rfl | ⟨-, -, digits⟩
  · simp [isDigit]
  · exact digits

theorem map_digit_injective : ∀ {token token' : List Char}, (∀ c ∈ token, isDigit c = true) →
    (∀ c ∈ token', isDigit c = true) → token.map digit = token'.map digit → token = token' := by
  intro token
  induction token with
  | nil =>
    intro token' _ _ same
    exact (List.map_eq_nil_iff.mp same.symm).symm
  | cons c token ih =>
    intro token' first second same
    cases token' with
    | nil => cases same
    | cons d token' =>
      obtain ⟨head, tail⟩ := List.cons.inj same
      rw [digit_injective (first c List.mem_cons_self) (second d List.mem_cons_self) head,
        ih (fun c member => first c (List.mem_cons_of_mem _ member))
          (fun d member => second d (List.mem_cons_of_mem _ member)) tail]

theorem index_injective (first : index token = some n) (second : index token' = some n) :
    token = token' := by
  simp only [index, Option.ite_none_right_eq_some, Option.some.injEq] at first second
  obtain ⟨is, rfl⟩ := first
  obtain ⟨is', same⟩ := second
  have equal : significant token = significant token' := by
    rw [is.significant_eq, is'.significant_eq, same]
  rw [significant, significant] at equal
  split_ifs at equal with isZero isZero' isZero'
  · rw [isZero, isZero']
  · rw [eq_comm, List.map_eq_nil_iff, List.reverse_eq_nil_iff] at equal
    exact absurd equal (is'.resolve_left isZero').1
  · rw [List.map_eq_nil_iff, List.reverse_eq_nil_iff] at equal
    exact absurd equal (is.resolve_left isZero).1
  · rw [List.map_reverse, List.map_reverse, List.reverse_inj] at equal
    exact map_digit_injective (digits_of_isIndex is) (digits_of_isIndex is') equal

def digitChar (d : ℕ) : Char := Char.ofNat ('0'.toNat + d)

def position (n : ℕ) : List Char :=
  if n = 0 then ['0'] else (Nat.digits 10 n).reverse.map digitChar

theorem digit_digitChar : ∀ d < 10, digit (digitChar d) = d ∧ isDigit (digitChar d) = true ∧
    (d ≠ 0 → digitChar d ≠ '0') := by
  decide

theorem index_position (n : ℕ) : index (position n) = some n := by
  by_cases isZero : n = 0
  · subst isZero
    rfl
  have small : ∀ d ∈ Nat.digits 10 n, d < 10 := fun d listed =>
    Nat.digits_lt_base (by norm_num) listed
  have token : position n = (Nat.digits 10 n).reverse.map digitChar := if_neg isZero
  have is : IsIndex (position n) := by
    refine .inr ⟨?_, ?_, ?_⟩
    · rw [token, Ne, List.map_eq_nil_iff, List.reverse_eq_nil_iff]
      exact Nat.digits_ne_nil_iff_ne_zero.mpr isZero
    · have nonempty := Nat.digits_ne_nil_iff_ne_zero (b := 10).mpr isZero
      have last := Nat.getLast_digit_ne_zero 10 isZero
      rw [token, List.head?_map, List.head?_reverse, List.getLast?_eq_getLast_of_ne_nil nonempty,
        Option.map_some]
      intro same
      exact (digit_digitChar _ (small _ (List.getLast_mem nonempty))).2.2 last
        (Option.some.inj same)
    · intro c listed
      rw [token] at listed
      obtain ⟨d, member, rfl⟩ := List.mem_map.mp listed
      exact (digit_digitChar d (small d (List.mem_reverse.mp member))).2.1
  have back : (position n).reverse.map digit = Nat.digits 10 n := by
    rw [token, ← List.map_reverse, List.reverse_reverse, List.map_map]
    exact (List.map_congr_left fun d listed => (digit_digitChar d (small d listed)).1).trans
      (List.map_id _)
  rw [index, if_pos is, number, back, Nat.ofDigits_digits]

end positions

end Rfc6901
