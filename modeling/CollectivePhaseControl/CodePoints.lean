import Mathlib.Data.List.Basic
import Mathlib.Tactic.Ring
import Mathlib.Tactic.SplitIfs

/-! Texts as sequences of code points. A lone surrogate is a code point and no character,
so a text that holds one has code units in UTF-16 and no encoding in UTF-8. -/
namespace CodePoints

abbrev Text := List ℕ

def highSurrogate (c : ℕ) : Bool := 0xD800 ≤ c && c ≤ 0xDBFF

def lowSurrogate (c : ℕ) : Bool := 0xDC00 ≤ c && c ≤ 0xDFFF

def surrogate (c : ℕ) : Bool := 0xD800 ≤ c && c ≤ 0xDFFF

def ofChars (cs : List Char) : Text := cs.map Char.toNat

/-- The characters of a text; a code point that is none is replaced. -/
def chars (text : Text) : List Char := text.map Char.ofNat

def Scalar (text : Text) : Prop := ∀ c ∈ text, c.isValidChar

instance scalarDecidable (text : Text) : Decidable (Scalar text) :=
  inferInstanceAs (Decidable (∀ c ∈ text, c.isValidChar))

def encoded (cs : List Char) : List UInt8 := cs.flatMap String.utf8EncodeChar

/-- Strict UTF-8; `none` if a code point is no character. -/
def utf8 (text : Text) : Option ByteArray :=
  if Scalar text then some (encoded (chars text)).toByteArray else none

def units (c : ℕ) : List ℕ :=
  if c < 0x10000 then [c] else [0xD800 + (c - 0x10000) / 0x400, 0xDC00 + (c - 0x10000) % 0x400]

/-- The bytes of UTF-16, the higher one of a code unit first. Lone surrogates pass. -/
def utf16 (text : Text) : List ℕ := (text.flatMap units).flatMap fun u => [u / 0x100, u % 0x100]

def paired (high low : ℕ) : ℕ := 0x10000 + (high - 0xD800) * 0x400 + (low - 0xDC00)

def width (c : ℕ) : ℕ :=
  if c < 0x80 then 1 else if c < 0x800 then 2 else if c < 0x10000 then 3 else 4

def size (text : Text) : ℕ := (text.map width).sum

@[simp] theorem chars_nil : chars [] = [] := rfl

@[simp] theorem chars_cons (c : ℕ) (text : Text) :
    chars (c :: text) = Char.ofNat c :: chars text := rfl

@[simp] theorem chars_append (x y : Text) : chars (x ++ y) = chars x ++ chars y :=
  List.map_append

@[simp] theorem ofChars_nil : ofChars [] = [] := rfl

@[simp] theorem ofChars_cons (c : Char) (cs : List Char) :
    ofChars (c :: cs) = c.toNat :: ofChars cs := rfl

@[simp] theorem ofChars_append (x y : List Char) : ofChars (x ++ y) = ofChars x ++ ofChars y :=
  List.map_append

@[simp] theorem chars_ofChars (cs : List Char) : chars (ofChars cs) = cs := by
  rw [chars, ofChars, List.map_map]
  exact (List.map_congr_left fun c _ => Char.ofNat_toNat c).trans (List.map_id _)

theorem toNat_ofNat {c : ℕ} (valid : c.isValidChar) : (Char.ofNat c).toNat = c := by
  rw [Char.ofNat, dif_pos valid]
  rfl

theorem ofChars_chars {text : Text} (scalar : Scalar text) : ofChars (chars text) = text := by
  rw [chars, ofChars, List.map_map]
  refine (List.map_congr_left fun c member => ?_).trans (List.map_id _)
  exact toNat_ofNat (scalar c member)

@[simp] theorem scalar_nil : Scalar [] := by
  simp [Scalar]

@[simp] theorem scalar_cons {c : ℕ} {text : Text} :
    Scalar (c :: text) ↔ c.isValidChar ∧ Scalar text := List.forall_mem_cons

@[simp] theorem scalar_append {x y : Text} : Scalar (x ++ y) ↔ Scalar x ∧ Scalar y :=
  List.forall_mem_append

@[simp] theorem scalar_ofChars (cs : List Char) : Scalar (ofChars cs) := by
  intro c member
  obtain ⟨char, -, rfl⟩ := List.mem_map.mp member
  exact char.valid

theorem scalar_iff {text : Text} (bounded : ∀ c ∈ text, c < 0x110000) :
    Scalar text ↔ ∀ c ∈ text, surrogate c = false := by
  refine forall₂_congr fun c member => ?_
  have bound := bounded c member
  rw [surrogate, Bool.and_eq_false_iff, decide_eq_false_iff_not, decide_eq_false_iff_not,
    Nat.isValidChar]
  omega

theorem utf8_eq_some {text : Text} {bytes : ByteArray} :
    utf8 text = some bytes ↔ Scalar text ∧ (encoded (chars text)).toByteArray = bytes := by
  rw [utf8]
  split_ifs with scalar
  · simp [scalar]
  · simp [scalar]

@[simp] theorem size_nil : size [] = 0 := rfl

@[simp] theorem size_cons (c : ℕ) (text : Text) : size (c :: text) = width c + size text :=
  rfl

@[simp] theorem size_append (x y : Text) : size (x ++ y) = size x + size y := by
  simp [size]

theorem width_pos (c : ℕ) : 0 < width c := by
  unfold width
  split_ifs <;> decide

theorem width_le (c : ℕ) : width c ≤ 4 := by
  unfold width
  split_ifs <;> decide

theorem width_toNat (c : Char) : width c.toNat = c.utf8Size := by
  simp only [width, Char.utf8Size, UInt32.le_iff_toNat_le, UInt32.toNat_ofNatLT, Char.toNat]
  split_ifs <;> omega

theorem length_encoded (cs : List Char) : (encoded cs).length = size (ofChars cs) := by
  induction cs with
  | nil => rfl
  | cons c cs ih =>
    rw [encoded, List.flatMap_cons, List.length_append, String.length_utf8EncodeChar,
      ofChars_cons, size_cons, width_toNat]
    rw [encoded] at ih
    rw [ih]

theorem bytes_injective {x y : List ℕ} (same : (x.flatMap fun u => [u / 0x100, u % 0x100]) =
    y.flatMap fun u => [u / 0x100, u % 0x100]) : x = y := by
  induction x generalizing y with
  | nil =>
    cases y with
    | nil => rfl
    | cons v y => simp at same
  | cons u x ih =>
    cases y with
    | nil => simp at same
    | cons v y =>
      simp only [List.flatMap_cons, List.cons_append, List.nil_append, List.cons.injEq] at same
      obtain ⟨high, low, rest⟩ := same
      rw [ih rest, show u = v by omega]

theorem units_injective {x y : Text} (first : Scalar x) (second : Scalar y)
    (same : x.flatMap units = y.flatMap units) : x = y := by
  have some' : ∀ c, units c ≠ [] := fun c => by unfold units; split_ifs <;> simp
  induction x generalizing y with
  | nil =>
    cases y with
    | nil => rfl
    | cons d y => simp [some'] at same
  | cons c x ih =>
    cases y with
    | nil => simp [some'] at same
    | cons d y =>
      rw [scalar_cons, Nat.isValidChar] at first second
      rw [List.flatMap_cons, List.flatMap_cons, units, units] at same
      -- the first unit tells a pair from a character of its own, which is no surrogate
      split_ifs at same
      · simp only [List.cons_append, List.nil_append, List.cons.injEq] at same
        rw [same.1, ih first.2 second.2 same.2]
      · simp only [List.cons_append, List.nil_append, List.cons.injEq] at same
        omega
      · simp only [List.cons_append, List.nil_append, List.cons.injEq] at same
        omega
      · simp only [List.cons_append, List.nil_append, List.cons.injEq] at same
        obtain ⟨high, low, rest⟩ := same
        rw [ih first.2 second.2 rest, show c = d by omega]

theorem utf16_injective {x y : Text} (first : Scalar x) (second : Scalar y)
    (same : utf16 x = utf16 y) : x = y :=
  units_injective first second (bytes_injective same)

end CodePoints
