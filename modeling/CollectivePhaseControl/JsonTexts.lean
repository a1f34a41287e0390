import CollectivePhaseControl.CodePoints

/-! JSON values, how texts spell them, and one text for each. Strings hold code points: an
escape may spell a surrogate, and two that pair spell one code point. -/
namespace JsonText
open CodePoints

/-- A value as it is read. A number with a fraction or an exponent keeps its text, and the
members of an object keep their order. -/
inductive Value where
  | null
  | bool (value : Bool)
  | int (value : ℤ)
  | float (text : List Char)
  | str (text : Text)
  | array (items : List Value)
  | object (members : List (Text × Value))

theorem Value.induct {P : Value → Prop} (null : P .null) (bool : ∀ b, P (.bool b))
    (int : ∀ z, P (.int z)) (float : ∀ text, P (.float text)) (str : ∀ text, P (.str text))
    (array : ∀ items, (∀ v ∈ items, P v) → P (.array items))
    (object : ∀ members, (∀ m ∈ members, P m.2) → P (.object members)) (v : Value) : P v := by
  refine Value.rec (motive_2 := fun items => ∀ v ∈ items, P v)
    (motive_3 := fun members => ∀ m ∈ members, P m.2) (motive_4 := fun m => P m.2)
    null bool int float str array object ?_ ?_ ?_ ?_ ?_ v
  · exact fun _ member => absurd member List.not_mem_nil
  · exact fun v items first rest => List.forall_mem_cons.mpr ⟨first, rest⟩
  · exact fun _ member => absurd member List.not_mem_nil
  · exact fun m members first rest => List.forall_mem_cons.mpr ⟨first, rest⟩
  · exact fun _ _ value => value

mutual

def height : Value → ℕ
  | .array items => 1 + heights items
  | .object members => 1 + memberHeights members
  | _ => 0

def heights : List Value → ℕ
  | [] => 0
  | v :: rest => max (height v) (heights rest)

def memberHeights : List (Text × Value) → ℕ
  | [] => 0
  | (_, v) :: rest => max (height v) (memberHeights rest)

end

mutual

def All (P : Value → Prop) : Value → Prop
  | .array items => P (.array items) ∧ AllItems P items
  | .object members => P (.object members) ∧ AllMembers P members
  | v => P v

def AllItems (P : Value → Prop) : List Value → Prop
  | [] => True
  | v :: rest => All P v ∧ AllItems P rest

def AllMembers (P : Value → Prop) : List (Text × Value) → Prop
  | [] => True
  | (_, v) :: rest => All P v ∧ AllMembers P rest

end

section
variable {P Q : Value → Prop}

theorem allItems_iff {items : List Value} : AllItems P items ↔ ∀ v ∈ items, All P v := by
  induction items with
  | nil => simp [AllItems]
  | cons v rest ih => rw [AllItems, ih, List.forall_mem_cons]

theorem allMembers_iff {members : List (Text × Value)} :
    AllMembers P members ↔ ∀ m ∈ members, All P m.2 := by
  induction members with
  | nil => simp [AllMembers]
  | cons m rest ih => rw [AllMembers, ih, List.forall_mem_cons]

theorem all_array {items : List Value} :
    All P (.array items) ↔ P (.array items) ∧ ∀ v ∈ items, All P v := by
  rw [All, allItems_iff]

theorem all_object {members : List (Text × Value)} :
    All P (.object members) ↔ P (.object members) ∧ ∀ m ∈ members, All P m.2 := by
  rw [All, allMembers_iff]

theorem All.self {v : Value} (all : All P v) : P v := by
  cases v with
  | array items => exact (all_array.mp all).1
  | object members => exact (all_object.mp all).1
  | _ => exact all

theorem All.mono (each : ∀ v, P v → Q v) {v : Value} (all : All P v) : All Q v := by
  induction v using Value.induct with
  | array items ih =>
    obtain ⟨here, inside⟩ := all_array.mp all
    exact all_array.mpr ⟨each _ here, fun v member => ih v member (inside v member)⟩
  | object members ih =>
    obtain ⟨here, inside⟩ := all_object.mp all
    exact all_object.mpr ⟨each _ here, fun m member => ih m member (inside m member)⟩
  | _ => exact each _ all

theorem All.and {v : Value} (first : All P v) (second : All Q v) :
    All (fun w => P w ∧ Q w) v := by
  induction v using Value.induct with
  | array items ih =>
    obtain ⟨here, inside⟩ := all_array.mp first
    obtain ⟨here', inside'⟩ := all_array.mp second
    exact all_array.mpr ⟨⟨here, here'⟩,
      fun v member => ih v member (inside v member) (inside' v member)⟩
  | object members ih =>
    obtain ⟨here, inside⟩ := all_object.mp first
    obtain ⟨here', inside'⟩ := all_object.mp second
    exact all_object.mpr ⟨⟨here, here'⟩,
      fun m member => ih m member (inside m member) (inside' m member)⟩
  | _ => exact ⟨first, second⟩

theorem all_congr {R : Value → Prop} (each : ∀ v, P v → (Q v ↔ R v)) {v : Value} (all : All P v) :
    All Q v ↔ All R v :=
  ⟨fun other => (all.and other).mono fun w both => (each w both.1).mp both.2,
    fun other => (all.and other).mono fun w both => (each w both.1).mpr both.2⟩

theorem heights_le {items : List Value} {bound : ℕ} :
    heights items ≤ bound ↔ ∀ v ∈ items, height v ≤ bound := by
  induction items with
  | nil => simp [heights]
  | cons v rest ih => rw [heights, Nat.max_le, ih, List.forall_mem_cons]

theorem memberHeights_le {members : List (Text × Value)} {bound : ℕ} :
    memberHeights members ≤ bound ↔ ∀ m ∈ members, height m.2 ≤ bound := by
  induction members with
  | nil => simp [memberHeights]
  | cons m rest ih => rw [memberHeights, Nat.max_le, ih, List.forall_mem_cons]

end

def isBlank (c : Char) : Bool := c == ' ' || c == '\t' || c == '\n' || c == '\r'

def isPlain (c : Char) : Bool := c ≠ '"' && c ≠ '[' && c ≠ ']' && c ≠ '{' && c ≠ '}'

def Blank (cs : List Char) : Prop := ∀ c ∈ cs, isBlank c = true

def Plain (cs : List Char) : Prop := ∀ c ∈ cs, isPlain c = true

def signed (negative : Bool) (n : ℕ) : ℤ := if negative then -n else n

def hexValue (c : Char) : Option ℕ :=
  if c.isDigit then some (c.toNat - '0'.toNat)
  else if 'a' ≤ c ∧ c ≤ 'f' then some (c.toNat - 'a'.toNat + 10)
  else if 'A' ≤ c ∧ c ≤ 'F' then some (c.toNat - 'A'.toNat + 10)
  else none

def hex4 (a b c d : Char) : Option ℕ := do
  let a ← hexValue a
  let b ← hexValue b
  let c ← hexValue c
  let d ← hexValue d
  pure (((a * 16 + b) * 16 + c) * 16 + d)

def shortEscapes : List (Char × ℕ) :=
  [('"', 34), ('\\', 92), ('/', 47), ('b', 8), ('f', 12), ('n', 10), ('r', 13), ('t', 9)]

/-- A piece of a string and the code point that it spells. -/
inductive Spelled : List Char → ℕ → Prop
  | plain (c : Char) (printable : 0x20 ≤ c.toNat) (quote : c ≠ '"') (backslash : c ≠ '\\') :
      Spelled [c] c.toNat
  | short (c : Char) (code : ℕ) (listed : (c, code) ∈ shortEscapes) :
      Spelled ['\\', c] code
  | hex (a b c d : Char) (code : ℕ) (read : hex4 a b c d = some code) :
      Spelled ['\\', 'u', a, b, c, d] code
  | pair (a b c d e f g h : Char) (high low : ℕ) (read : hex4 a b c d = some high)
      (read' : hex4 e f g h = some low) (isHigh : highSurrogate high = true)
      (isLow : lowSurrogate low = true) :
      Spelled ['\\', 'u', a, b, c, d, '\\', 'u', e, f, g, h] (paired high low)

inductive SpelledText : List Char → Text → Prop
  | nil : SpelledText [] []
  | cons {piece rest : List Char} {code : ℕ} {text : Text} (first : Spelled piece code)
      (others : SpelledText rest text) : SpelledText (piece ++ rest) (code :: text)

inductive Separated {α : Type} (P : List Char → α → Prop) : List Char → List α → Prop
  | last {text after : List Char} {x : α} (first : P text x) (blank : Blank after) :
      Separated P (text ++ after) [x]
  | cons {text after before more : List Char} {x : α} {xs : List α} (first : P text x)
      (blank : Blank after) (blank' : Blank before) (others : Separated P more xs) :
      Separated P (text ++ after ++ ',' :: (before ++ more)) (x :: xs)

inductive SpelledMember (P : List Char → Value → Prop) : List Char → Text × Value → Prop
  | mk {keyText between before text : List Char} {key : Text} {v : Value}
      (name : SpelledText keyText key) (blank : Blank between) (blank' : Blank before)
      (spelled : P text v) :
      SpelledMember P ('"' :: keyText ++ '"' :: between ++ ':' :: before ++ text) (key, v)

/-- What holds between the texts and the values that a reader meets, if it holds of the parts.
The members of an object have passed a check. -/
structure Closed (checked : List (Text × Value) → Prop) (P : List Char → Value → Prop) :
    Prop where
  null : P ['n', 'u', 'l', 'l'] .null
  bool_true : P ['t', 'r', 'u', 'e'] (.bool true)
  bool_false : P ['f', 'a', 'l', 's', 'e'] (.bool false)
  int : ∀ negative digits, digits ≠ [] → (∀ c ∈ digits, c.isDigit = true) →
    P ((if negative = true then ['-'] else []) ++ digits)
      (.int (signed negative (Nat.ofDigitChars 10 digits 0)))
  float : ∀ text, text ≠ [] → Plain text → P text (.float text)
  str : ∀ cs text, SpelledText cs text → P ('"' :: cs ++ ['"']) (.str text)
  emptyArray : ∀ blank, Blank blank → P ('[' :: blank ++ [']']) (.array [])
  array : ∀ blank cs items, Blank blank → Separated P cs items →
    P ('[' :: blank ++ cs ++ [']']) (.array items)
  emptyObject : ∀ blank, Blank blank → checked [] → P ('{' :: blank ++ ['}']) (.object [])
  object : ∀ blank cs members, Blank blank → Separated (SpelledMember P) cs members →
    checked members → P ('{' :: blank ++ cs ++ ['}']) (.object members)

/-- The escape of a code point in a string, where it needs one. -/
def escaped (c : ℕ) : Text :=
  if c = 34 then ofChars ['\\', '"']
  else if c = 92 then ofChars ['\\', '\\']
  else if c = 8 then ofChars ['\\', 'b']
  else if c = 12 then ofChars ['\\', 'f']
  else if c = 10 then ofChars ['\\', 'n']
  else if c = 13 then ofChars ['\\', 'r']
  else if c = 9 then ofChars ['\\', 't']
  else if c < 0x20 then
    ofChars ['\\', 'u', '0', '0', (c / 16).digitChar, (c % 16).digitChar]
  else [c]

theorem escaped_plain {c : ℕ} (special : ¬ (c < 0x20 ∨ c = 34 ∨ c = 92)) : escaped c = [c] := by
  unfold escaped
  repeat rw [if_neg (by omega)]

def quote (text : Text) : Text := '"'.toNat :: text.flatMap escaped ++ ['"'.toNat]

def decimal (z : ℤ) : List Char :=
  (if z < 0 then ['-'] else []) ++ Nat.toDigits 10 z.natAbs

def commas : List Text → Text
  | [] => []
  | [text] => text
  | text :: rest => text ++ ','.toNat :: commas rest

theorem commas_cons (text : Text) {rest : List Text} (some' : rest ≠ []) :
    commas (text :: rest) = text ++ ','.toNat :: commas rest := by
  cases rest with
  | nil => exact absurd rfl some'
  | cons other rest => rfl

mutual

def write : Value → Text
  | .null => ofChars ['n', 'u', 'l', 'l']
  | .bool true => ofChars ['t', 'r', 'u', 'e']
  | .bool false => ofChars ['f', 'a', 'l', 's', 'e']
  | .int z => ofChars (decimal z)
  | .float text => ofChars text
  | .str text => quote text
  | .array items => '['.toNat :: commas (writeItems items) ++ [']'.toNat]
  | .object members => '{'.toNat :: commas (writeMembers members) ++ ['}'.toNat]

def writeItems : List Value → List Text
  | [] => []
  | v :: rest => write v :: writeItems rest

def writeMembers : List (Text × Value) → List Text
  | [] => []
  | (key, v) :: rest => (quote key ++ ':'.toNat :: write v) :: writeMembers rest

end

theorem writeItems_eq (items : List Value) : writeItems items = items.map write := by
  induction items with
  | nil => rfl
  | cons v rest ih => rw [writeItems, ih, List.map_cons]

def writeMember (m : Text × Value) : Text := quote m.1 ++ ':'.toNat :: write m.2

theorem writeMembers_eq (members : List (Text × Value)) :
    writeMembers members = members.map writeMember := by
  induction members with
  | nil => rfl
  | cons m rest ih => rw [writeMembers, ih, List.map_cons, writeMember]

end JsonText
