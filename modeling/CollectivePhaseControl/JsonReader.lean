import CollectivePhaseControl.Fallible
import CollectivePhaseControl.JsonTexts

/-! A reader of JSON texts that checks the members of every object it closes. It always ends,
and what it reads is spelled by the text that it takes. -/
namespace JsonText
open CodePoints Fallible

/-- Why a text is not read. `diverges` is a bound on the reader's steps that was too small. -/
inductive Failure (ε : Type) where
  | malformed
  | refused (error : ε)
  | diverges

/-- What has been read, with the text after it, or why nothing has. -/
abbrev Outcome (ε : Type) := Except (Failure ε)

def expect (c : Char) : List Char → Option (List Char)
  | [] => none
  | d :: rest => if d = c then some rest else none

def skipBlanks (s : List Char) : List Char := s.dropWhile isBlank

def hexCode : List Char → Option (ℕ × List Char)
  | a :: b :: c :: d :: rest => (hex4 a b c d).map fun code => (code, rest)
  | _ => none

/-- After `\u`: four digits, or eight with another `\u` between them that make a pair. -/
def unicodeEscape (s : List Char) : Option (ℕ × List Char) := do
  let (first, rest) ← hexCode s
  if highSurrogate first = true then
    match (expect '\\' rest).bind (expect 'u') with
    | none => pure (first, rest)
    | some more => do
      let (second, more) ← hexCode more
      pure (if lowSurrogate second = true then (paired first second, more) else (first, rest))
  else pure (first, rest)

def escape : List Char → Option (ℕ × List Char)
  | [] => none
  | c :: rest =>
    if c = 'u' then unicodeEscape rest else (shortEscapes.lookup c).map fun code => (code, rest)

def codePoint : List Char → Option (ℕ × List Char)
  | [] => none
  | c :: rest =>
    if c = '\\' then escape rest else if c.toNat < 0x20 then none else some (c.toNat, rest)

section
variable {ε α : Type}

def quoted : ℕ → List Char → Outcome ε (Text × List Char)
  | 0, _ => .error .diverges
  | n + 1, s =>
    match expect '"' s with
    | some rest => .ok ([], rest)
    | none =>
      match codePoint s with
      | none => .error .malformed
      | some (code, rest) => (fun found => (code :: found.1, found.2)) <$> quoted n rest

def string (s : List Char) : Outcome ε (Text × List Char) := quoted (s.length + 1) s

def literals : List (List Char × Value) :=
  [(['n', 'u', 'l', 'l'], .null), (['t', 'r', 'u', 'e'], .bool true),
   (['f', 'a', 'l', 's', 'e'], .bool false), (['N', 'a', 'N'], .float ['N', 'a', 'N']),
   (['I', 'n', 'f', 'i', 'n', 'i', 't', 'y'], .float ['I', 'n', 'f', 'i', 'n', 'i', 't', 'y']),
   (['-', 'I', 'n', 'f', 'i', 'n', 'i', 't', 'y'],
    .float ['-', 'I', 'n', 'f', 'i', 'n', 'i', 't', 'y'])]

def literal (s : List Char) : Option (Value × List Char) :=
  (literals.find? fun p => p.1.isPrefixOf s).map fun p => (p.2, s.drop p.1.length)

def whole : List Char → Option (List Char × List Char)
  | [] => none
  | c :: rest =>
    if c = '0' then some ([c], rest)
    else if c.isDigit then
      some ((c :: rest).takeWhile Char.isDigit, (c :: rest).dropWhile Char.isDigit)
    else none

/-- A part of a number with digits after its mark. Without them nothing of `s` is taken. -/
def marked (mark rest s : List Char) : List Char × List Char :=
  if rest.takeWhile Char.isDigit = [] then ([], s)
  else (mark ++ rest.takeWhile Char.isDigit, rest.dropWhile Char.isDigit)

def fraction (s : List Char) : List Char × List Char :=
  match expect '.' s with
  | some rest => marked ['.'] rest s
  | none => ([], s)

def exponent : List Char → List Char × List Char
  | [] => ([], [])
  | e :: rest =>
    if e = 'e' ∨ e = 'E' then
      match rest with
      | [] => ([], [e])
      | sign :: more =>
        if sign = '+' ∨ sign = '-' then marked [e, sign] more (e :: sign :: more)
        else marked [e] (sign :: more) (e :: sign :: more)
    else ([], e :: rest)

/-- Integers of more digits are not converted. -/
def maxDigits : ℕ := 4300

def unsigned (negative : Bool) (s : List Char) : Option (Value × List Char) := do
  let (digits, rest) ← whole s
  let (tenths, rest) := fraction rest
  let (power, rest) := exponent rest
  if tenths = [] ∧ power = [] then
    if digits.length ≤ maxDigits then
      pure (.int (signed negative (Nat.ofDigitChars 10 digits 0)), rest)
    else none
  else pure (.float ((if negative = true then ['-'] else []) ++ digits ++ tenths ++ power), rest)

def number (s : List Char) : Option (Value × List Char) :=
  match expect '-' s with
  | some rest => unsigned true rest
  | none => unsigned false s

def simple (s : List Char) : Outcome ε (Value × List Char) :=
  match (literal s).or (number s) with
  | some found => .ok found
  | none => .error .malformed

/-- One or more readings with commas between them, up to the closing bracket. -/
def separated (close : Char) (one : List Char → Outcome ε (α × List Char)) :
    ℕ → List Char → Outcome ε (List α × List Char)
  | 0, _ => .error .diverges
  | n + 1, s => do
    let (first, rest) ← one s
    match expect ',' (skipBlanks rest) with
    | some more => do
      let (others, rest) ← separated close one n (skipBlanks more)
      pure (first :: others, rest)
    | none =>
      match expect close (skipBlanks rest) with
      | some rest => pure ([first], rest)
      | none => .error .malformed

def bracketed (close : Char) (one : List Char → Outcome ε (α × List Char)) (s : List Char) :
    Outcome ε (List α × List Char) :=
  match expect close (skipBlanks s) with
  | some rest => .ok ([], rest)
  | none => separated close one (s.length + 1) (skipBlanks s)

def member (one : List Char → Outcome ε (Value × List Char)) (s : List Char) :
    Outcome ε ((Text × Value) × List Char) :=
  match expect '"' s with
  | none => .error .malformed
  | some rest => do
    let (key, rest) ← string rest
    match expect ':' (skipBlanks rest) with
    | none => .error .malformed
    | some rest => do
      let (v, rest) ← one (skipBlanks rest)
      pure ((key, v), rest)

variable (check : List (Text × Value) → Except ε Unit)

def closeObject (members : List (Text × Value)) : Outcome ε Value :=
  match check members with
  | .ok _ => .ok (.object members)
  | .error error => .error (.refused error)

def value : ℕ → List Char → Outcome ε (Value × List Char)
  | 0, _ => .error .diverges
  | _ + 1, [] => .error .malformed
  | n + 1, c :: rest =>
    if c = '"' then do
      let (text, rest) ← string rest
      pure (.str text, rest)
    else if c = '[' then do
      let (items, rest) ← bracketed ']' (value n) rest
      pure (.array items, rest)
    else if c = '{' then do
      let (members, rest) ← bracketed '}' (member (value n)) rest
      let object ← closeObject check members
      pure (object, rest)
    else simple (c :: rest)

/-- A whole text. It may not begin with a byte order mark. -/
def document (s : List Char) : Outcome ε Value :=
  if s.head? = some '\uFEFF' then .error .malformed
  else do
    let (found, rest) ← value check (s.length + 1) (skipBlanks s)
    if skipBlanks rest = [] then pure found else .error .malformed

end

theorem expect_eq_some {c : Char} {s rest : List Char} :
    expect c s = some rest ↔ s = c :: rest := by
  cases s with
  | nil => simp [expect]
  | cons d s =>
    rw [expect]
    split_ifs with same
    · simp [same]
    · simp [same]

theorem exists_blank (s : List Char) : ∃ blank, Blank blank ∧ s = blank ++ skipBlanks s :=
  ⟨s.takeWhile isBlank, fun _ member => List.mem_takeWhile_imp member,
    List.takeWhile_append_dropWhile.symm⟩

theorem hexCode_spelled {s rest : List Char} {code : ℕ}
    (read : hexCode s = some (code, rest)) :
    ∃ a b c d, s = a :: b :: c :: d :: rest ∧ hex4 a b c d = some code := by
  unfold hexCode at read
  split at read
  · rename_i a b c d rest'
    simp only [Option.map_eq_some_iff, Prod.mk.injEq] at read
    obtain ⟨code', found, rfl, rfl⟩ := read
    exact ⟨a, b, c, d, rfl, found⟩
  · cases read

theorem unicodeEscape_spelled {s rest : List Char} {code : ℕ}
    (read : unicodeEscape s = some (code, rest)) :
    ∃ piece, s = piece ++ rest ∧ Spelled ('\\' :: 'u' :: piece) code := by
  simp only [unicodeEscape, Option.bind_eq_bind, Option.bind_eq_some_iff] at read
  obtain ⟨⟨first, after⟩, read, chosen⟩ := read
  obtain ⟨a, b, c, d, rfl, digits⟩ := hexCode_spelled read
  have alone : Spelled ['\\', 'u', a, b, c, d] first := .hex a b c d first digits
  dsimp only at chosen
  split_ifs at chosen with high
  · split at chosen
    · cases chosen
      exact ⟨[a, b, c, d], rfl, alone⟩
    · rename_i more found
      obtain ⟨middle, slash, letter⟩ := Option.bind_eq_some_iff.mp found
      obtain rfl := expect_eq_some.mp slash
      obtain rfl := expect_eq_some.mp letter
      simp only [Option.bind_eq_some_iff] at chosen
      obtain ⟨⟨second, further⟩, read', chosen⟩ := chosen
      obtain ⟨e, f, g, h, rfl, digits'⟩ := hexCode_spelled read'
      dsimp only at chosen
      split_ifs at chosen with low
      · rw [Option.pure_def, Option.some_inj, Prod.mk.injEq] at chosen
        obtain ⟨rfl, rfl⟩ := chosen
        exact ⟨[a, b, c, d, '\\', 'u', e, f, g, h], rfl,
          .pair a b c d e f g h first second digits digits' high low⟩
      · cases chosen
        exact ⟨[a, b, c, d], rfl, alone⟩
  · cases chosen
    exact ⟨[a, b, c, d], rfl, alone⟩

theorem codePoint_spelled {s rest : List Char} {code : ℕ}
    (open' : expect '"' s = none) (read : codePoint s = some (code, rest)) :
    ∃ piece, s = piece ++ rest ∧ Spelled piece code := by
  cases s with
  | nil => cases read
  | cons c s =>
    rw [expect] at open'
    rw [codePoint] at read
    split_ifs at open' with quote
    split_ifs at read with backslash control
    · subst backslash
      cases s with
      | nil => cases read
      | cons d s =>
        rw [escape] at read
        split_ifs at read with unicode
        · subst unicode
          obtain ⟨piece, rfl, spelled⟩ := unicodeEscape_spelled read
          exact ⟨'\\' :: 'u' :: piece, rfl, spelled⟩
        · simp only [Option.map_eq_some_iff, Prod.mk.injEq] at read
          obtain ⟨code', found, rfl, rfl⟩ := read
          obtain ⟨before, after, listed, -⟩ := List.lookup_eq_some_iff.mp found
          have member : (d, code') ∈ shortEscapes := by simp [listed]
          exact ⟨['\\', d], rfl, .short d code' member⟩
    · cases read
      exact ⟨[c], rfl, .plain c (by omega) quote backslash⟩

section
variable {ε α : Type}

theorem quoted_spelled {n : ℕ} {s rest : List Char} {text : Text}
    (read : (quoted n s : Outcome ε (Text × List Char)) = .ok (text, rest)) :
    ∃ cs, s = cs ++ '"' :: rest ∧ SpelledText cs text := by
  induction n generalizing s text with
  | zero => cases read
  | succ n ih =>
    rw [quoted] at read
    split at read
    · rename_i closed
      cases read
      exact ⟨[], expect_eq_some.mp closed, .nil⟩
    · rename_i open'
      split at read
      · cases read
      · rename_i code after found
        rw [map_ok] at read
        obtain ⟨⟨text', rest'⟩, read, same⟩ := read
        cases same
        obtain ⟨piece, rfl, first⟩ := codePoint_spelled open' found
        obtain ⟨cs, rfl, others⟩ := ih read
        exact ⟨piece ++ cs, by rw [List.append_assoc], .cons first others⟩

theorem string_spelled {s rest : List Char} {text : Text}
    (read : (string s : Outcome ε (Text × List Char)) = .ok (text, rest)) :
    ∃ cs, s = cs ++ '"' :: rest ∧ SpelledText cs text :=
  quoted_spelled read

theorem separated_spelled {close : Char} {one : List Char → Outcome ε (α × List Char)}
    {P : List Char → α → Prop}
    (spelled : ∀ s x rest, one s = .ok (x, rest) → ∃ cs, s = cs ++ rest ∧ P cs x)
    {n : ℕ} {s rest : List Char} {xs : List α}
    (read : separated close one n s = .ok (xs, rest)) :
    ∃ cs, s = cs ++ close :: rest ∧ Separated P cs xs := by
  induction n generalizing s xs with
  | zero => cases read
  | succ n ih =>
    simp only [separated, bind_ok] at read
    obtain ⟨⟨first, after⟩, read, chosen⟩ := read
    obtain ⟨cs, rfl, here⟩ := spelled _ _ _ read
    obtain ⟨blank, isBlank, split'⟩ := exists_blank after
    dsimp only at chosen
    split at chosen
    · rename_i more comma
      rw [bind_ok] at chosen
      obtain ⟨⟨others, rest'⟩, read', same⟩ := chosen
      cases same
      obtain ⟨blank', isBlank', split''⟩ := exists_blank more
      obtain ⟨cs', following, there⟩ := ih read'
      refine ⟨cs ++ blank ++ ',' :: (blank' ++ cs'), ?_, .cons here isBlank isBlank' there⟩
      rw [split', expect_eq_some.mp comma, split'', following]
      simp
    · split at chosen
      · rename_i closed
        cases chosen
        refine ⟨cs ++ blank, ?_, .last here isBlank⟩
        rw [split', expect_eq_some.mp closed, List.append_assoc]
      · cases chosen

theorem bracketed_spelled {close : Char} {one : List Char → Outcome ε (α × List Char)}
    {P : List Char → α → Prop}
    (spelled : ∀ s x rest, one s = .ok (x, rest) → ∃ cs, s = cs ++ rest ∧ P cs x)
    {s rest : List Char} {xs : List α} (read : bracketed close one s = .ok (xs, rest)) :
    ∃ blank cs, Blank blank ∧ s = blank ++ cs ++ close :: rest ∧
      (cs = [] ∧ xs = [] ∨ Separated P cs xs) := by
  obtain ⟨blank, isBlank, split'⟩ := exists_blank s
  rw [bracketed] at read
  split at read
  · rename_i closed
    cases read
    refine ⟨blank, [], isBlank, ?_, .inl ⟨rfl, rfl⟩⟩
    rw [expect_eq_some.mp closed] at split'
    simpa using split'
  · obtain ⟨cs, following, all⟩ := separated_spelled spelled read
    refine ⟨blank, cs, isBlank, ?_, .inr all⟩
    rw [following] at split'
    simpa using split'

theorem member_spelled {one : List Char → Outcome ε (Value × List Char)}
    {P : List Char → Value → Prop}
    (spelled : ∀ s v rest, one s = .ok (v, rest) → ∃ cs, s = cs ++ rest ∧ P cs v)
    (s : List Char) (m : Text × Value) (rest : List Char) (read : member one s = .ok (m, rest)) :
    ∃ cs, s = cs ++ rest ∧ SpelledMember P cs m := by
  rw [member] at read
  split at read
  · cases read
  · rename_i inside quote
    simp only [bind_ok] at read
    obtain ⟨⟨key, after⟩, name, read⟩ := read
    dsimp only at read
    split at read
    · cases read
    · rename_i more colon
      simp only [bind_ok] at read
      obtain ⟨⟨v, rest'⟩, read, same⟩ := read
      cases same
      obtain ⟨keyText, rfl, named⟩ := string_spelled name
      obtain ⟨between, isBlank, split'⟩ := exists_blank after
      obtain ⟨before, isBlank', split''⟩ := exists_blank more
      obtain ⟨cs, following, here⟩ := spelled _ _ _ read
      refine ⟨'"' :: keyText ++ '"' :: between ++ ':' :: before ++ cs, ?_,
        .mk named isBlank isBlank' here⟩
      rw [expect_eq_some.mp quote, split', expect_eq_some.mp colon, split'', following]
      simp

theorem mem_literals {p : List Char × Value} (member : p ∈ literals)
    {checked : List (Text × Value) → Prop} {P : List Char → Value → Prop}
    (closed : Closed checked P) : P p.1 p.2 := by
  simp only [literals, List.mem_cons, List.not_mem_nil, or_false] at member
  obtain rfl | rfl | rfl | rfl | rfl | rfl := member
  · exact closed.null
  · exact closed.bool_true
  · exact closed.bool_false
  · exact closed.float _ (by simp) (by simp [Plain, isPlain])
  · exact closed.float _ (by simp) (by simp [Plain, isPlain])
  · exact closed.float _ (by simp) (by simp [Plain, isPlain])

theorem literal_spelled {s rest : List Char} {v : Value} {checked : List (Text × Value) → Prop}
    {P : List Char → Value → Prop} (closed : Closed checked P)
    (read : literal s = some (v, rest)) : ∃ cs, s = cs ++ rest ∧ P cs v := by
  simp only [literal, Option.map_eq_some_iff, Prod.mk.injEq] at read
  obtain ⟨p, found, rfl, rfl⟩ := read
  have starts : p.1.isPrefixOf s = true := by simpa using List.find?_some found
  obtain ⟨after, rfl⟩ := List.isPrefixOf_iff_prefix.mp starts
  exact ⟨p.1, by rw [List.drop_left], mem_literals (List.mem_of_find?_eq_some found) closed⟩

theorem isPlain_of_isDigit {c : Char} (digit : c.isDigit = true) : isPlain c = true := by
  have each : ∀ d ∈ ['"', '[', ']', '{', '}'], d.isDigit = false := by simp
  have other : ∀ d ∈ ['"', '[', ']', '{', '}'], c ≠ d := by
    rintro d member rfl
    rw [each c member] at digit
    cases digit
  simp only [List.forall_mem_cons] at other
  simp [isPlain, other]

theorem plain_append {x y : List Char} : Plain (x ++ y) ↔ Plain x ∧ Plain y :=
  List.forall_mem_append

theorem digits_plain {digits : List Char} (all : ∀ c ∈ digits, c.isDigit = true) : Plain digits :=
  fun c member => isPlain_of_isDigit (all c member)

theorem takeWhile_isDigit (s : List Char) : ∀ c ∈ s.takeWhile Char.isDigit, c.isDigit = true :=
  fun _ member => List.mem_takeWhile_imp member

theorem whole_spelled {s digits rest : List Char} (read : whole s = some (digits, rest)) :
    s = digits ++ rest ∧ digits ≠ [] ∧ ∀ c ∈ digits, c.isDigit = true := by
  cases s with
  | nil => cases read
  | cons c s =>
    rw [whole] at read
    split_ifs at read with zero digit
    · cases read
      exact ⟨rfl, by simp, by simpa using zero ▸ rfl⟩
    · cases read
      refine ⟨List.takeWhile_append_dropWhile.symm, ?_, takeWhile_isDigit _⟩
      rw [List.takeWhile_cons_of_pos digit]
      exact List.cons_ne_nil _ _

theorem marked_spelled {mark rest s taken after : List Char} (plain : Plain mark)
    (split' : s = mark ++ rest) (read : marked mark rest s = (taken, after)) :
    s = taken ++ after ∧ Plain taken := by
  rw [marked] at read
  split_ifs at read with none'
  · cases read
    exact ⟨rfl, by simp [Plain]⟩
  · cases read
    refine ⟨?_, plain_append.mpr ⟨plain, digits_plain (takeWhile_isDigit rest)⟩⟩
    rw [List.append_assoc, List.takeWhile_append_dropWhile, split']

theorem fraction_spelled {s taken after : List Char} (read : fraction s = (taken, after)) :
    s = taken ++ after ∧ Plain taken := by
  rw [fraction] at read
  split at read
  · rename_i rest point
    exact marked_spelled (by simp [Plain, isPlain]) (expect_eq_some.mp point) read
  · cases read
    exact ⟨rfl, by simp [Plain]⟩

theorem exponent_spelled {s taken after : List Char} (read : exponent s = (taken, after)) :
    s = taken ++ after ∧ Plain taken := by
  have plain_e : ∀ e : Char, e = 'e' ∨ e = 'E' → isPlain e = true := by
    rintro e (rfl | rfl) <;> decide
  have plain_sign : ∀ sign : Char, sign = '+' ∨ sign = '-' → isPlain sign = true := by
    rintro sign (rfl | rfl) <;> decide
  unfold exponent at read
  split at read
  · cases read
    exact ⟨rfl, by simp [Plain]⟩
  · rename_i e rest
    split_ifs at read with letter
    · split at read
      · cases read
        exact ⟨rfl, by simp [Plain]⟩
      · rename_i sign more
        split_ifs at read with hasSign
        · refine marked_spelled ?_ rfl read
          simp [Plain, plain_e e letter, plain_sign sign hasSign]
        · refine marked_spelled ?_ rfl read
          simp [Plain, plain_e e letter]
    · cases read
      exact ⟨rfl, by simp [Plain]⟩

theorem unsigned_spelled {negative : Bool} {s rest : List Char} {v : Value}
    {checked : List (Text × Value) → Prop} {P : List Char → Value → Prop}
    (closed : Closed checked P) (read : unsigned negative s = some (v, rest)) :
    ∃ cs, s = cs ++ rest ∧ P ((if negative = true then ['-'] else []) ++ cs) v := by
  simp only [unsigned, Option.bind_eq_bind, Option.bind_eq_some_iff] at read
  obtain ⟨⟨digits, after⟩, found, read⟩ := read
  obtain ⟨rfl, some', all⟩ := whole_spelled found
  cases tenths : fraction after with
  | mk tenths' after' =>
  obtain ⟨rfl, plain⟩ := fraction_spelled tenths
  cases power : exponent after' with
  | mk power' after'' =>
  obtain ⟨rfl, plain'⟩ := exponent_spelled power
  rw [tenths] at read
  dsimp only at read
  rw [power] at read
  dsimp only at read
  by_cases whole' : tenths' = [] ∧ power' = []
  · rw [if_pos whole'] at read
    split_ifs at read with short
    obtain ⟨rfl, rfl⟩ := whole'
    cases read
    exact ⟨digits, rfl, closed.int negative digits some' all⟩
  · rw [if_neg whole'] at read
    cases read
    refine ⟨digits ++ tenths' ++ power', by simp, ?_⟩
    have text : (if negative = true then ['-'] else []) ++ (digits ++ tenths' ++ power') =
        (if negative = true then ['-'] else []) ++ digits ++ tenths' ++ power' := by
      simp only [List.append_assoc]
    rw [text]
    refine closed.float _ (by simp [some']) ?_
    refine plain_append.mpr ⟨plain_append.mpr ⟨plain_append.mpr ⟨?_, digits_plain all⟩, plain⟩,
      plain'⟩
    cases negative <;> simp [Plain, isPlain]

theorem number_spelled {s rest : List Char} {v : Value} {checked : List (Text × Value) → Prop}
    {P : List Char → Value → Prop} (closed : Closed checked P)
    (read : number s = some (v, rest)) : ∃ cs, s = cs ++ rest ∧ P cs v := by
  rw [number] at read
  split at read
  · rename_i after minus
    obtain ⟨cs, rfl, spelled⟩ := unsigned_spelled closed read
    exact ⟨'-' :: cs, expect_eq_some.mp minus, spelled⟩
  · exact unsigned_spelled closed read

theorem simple_spelled {s rest : List Char} {v : Value} {checked : List (Text × Value) → Prop}
    {P : List Char → Value → Prop} (closed : Closed checked P)
    (read : (simple s : Outcome ε (Value × List Char)) = .ok (v, rest)) :
    ∃ cs, s = cs ++ rest ∧ P cs v := by
  rw [simple] at read
  split at read
  · rename_i found either
    cases read
    obtain literally | ⟨-, numerally⟩ := Option.or_eq_some_iff.mp either
    · exact literal_spelled closed literally
    · exact number_spelled closed numerally
  · cases read

variable {check : List (Text × Value) → Except ε Unit}

theorem closeObject_ok {members : List (Text × Value)} {v : Value}
    (run : closeObject check members = .ok v) : v = .object members ∧ check members = .ok ⟨⟩ := by
  rw [closeObject] at run
  split at run
  · rename_i passed
    cases run
    exact ⟨rfl, passed⟩
  · cases run

theorem value_spelled {P : List Char → Value → Prop}
    (closed : Closed (fun members => check members = .ok ⟨⟩) P) {n : ℕ} (s : List Char)
    (v : Value) (rest : List Char) (read : value check n s = .ok (v, rest)) :
    ∃ cs, s = cs ++ rest ∧ P cs v := by
  induction n generalizing s v rest with
  | zero => cases read
  | succ n ih =>
    cases s with
    | nil => cases read
    | cons c s =>
      rw [value] at read
      split_ifs at read with quote square curly
      · rw [bind_ok] at read
        obtain ⟨⟨text, after⟩, read, same⟩ := read
        cases same
        obtain ⟨cs, rfl, spelled⟩ := string_spelled read
        exact ⟨'"' :: cs ++ ['"'], by simp [quote], closed.str cs text spelled⟩
      · rw [bind_ok] at read
        obtain ⟨⟨items, after⟩, read, same⟩ := read
        cases same
        obtain ⟨blank, cs, isBlank, rfl, ⟨rfl, rfl⟩ | all⟩ := bracketed_spelled ih read
        · exact ⟨'[' :: blank ++ [']'], by simp [square], closed.emptyArray blank isBlank⟩
        · exact ⟨'[' :: blank ++ cs ++ [']'], by simp [square],
            closed.array blank cs items isBlank all⟩
      · rw [bind_ok] at read
        obtain ⟨⟨members, after⟩, read, closing⟩ := read
        rw [bind_ok] at closing
        obtain ⟨object, closing, same⟩ := closing
        cases same
        obtain ⟨rfl, passed⟩ := closeObject_ok closing
        obtain ⟨blank, cs, isBlank, rfl, ⟨rfl, rfl⟩ | all⟩ :=
          bracketed_spelled (member_spelled ih) read
        · exact ⟨'{' :: blank ++ ['}'], by simp [curly], closed.emptyObject blank isBlank passed⟩
        · exact ⟨'{' :: blank ++ cs ++ ['}'], by simp [curly],
            closed.object blank cs members isBlank all passed⟩
      · exact simple_spelled closed read

theorem document_spelled {P : List Char → Value → Prop}
    (closed : Closed (fun members => check members = .ok ⟨⟩) P) {s : List Char} {v : Value}
    (read : document check s = .ok v) :
    ∃ before cs after, Blank before ∧ Blank after ∧ s = before ++ cs ++ after ∧ P cs v := by
  rw [document] at read
  split_ifs at read with mark
  simp only [bind_ok] at read
  obtain ⟨⟨found, rest⟩, read, last⟩ := read
  dsimp only at last
  split_ifs at last with ended
  cases last
  obtain ⟨before, isBlank, split'⟩ := exists_blank s
  obtain ⟨after, isBlank', split''⟩ := exists_blank rest
  obtain ⟨cs, following, spelled⟩ := value_spelled closed _ _ _ read
  refine ⟨before, cs, after, isBlank, isBlank', ?_, spelled⟩
  rw [ended, List.append_nil] at split''
  rw [split', following, split'', List.append_assoc]

/-- The bound on the steps has not been met. -/
def Ends (x : Outcome ε α) : Prop := x ≠ .error .diverges

theorem ends_ok (a : α) : Ends (.ok a : Outcome ε α) := nofun

theorem ends_malformed : Ends (.error .malformed : Outcome ε α) := nofun

theorem ends_bind {β : Type} {x : Outcome ε α} {f : α → Outcome ε β} (first : Ends x)
    (next : ∀ a, x = .ok a → Ends (f a)) : Ends (x >>= f) := by
  cases x with
  | error failure =>
    intro same
    cases same
    exact first rfl
  | ok a => exact next a rfl

theorem length_skipBlanks (s : List Char) : (skipBlanks s).length ≤ s.length :=
  (List.dropWhile_sublist isBlank).length_le

theorem length_expect {c : Char} {s rest : List Char} (found : expect c s = some rest) :
    rest.length < s.length := by
  rw [expect_eq_some.mp found]
  exact Nat.lt_succ_self _

theorem Spelled.length_pos {piece : List Char} {code : ℕ} (spelled : Spelled piece code) :
    0 < piece.length := by
  cases spelled <;> simp

theorem quoted_ends {n : ℕ} {s : List Char} (enough : s.length < n) :
    Ends (quoted n s : Outcome ε (Text × List Char)) := by
  induction n generalizing s with
  | zero => omega
  | succ n ih =>
    rw [quoted]
    split
    · exact ends_ok _
    · rename_i open'
      split
      · exact ends_malformed
      · rename_i code rest found
        obtain ⟨piece, rfl, spelled⟩ := codePoint_spelled open' found
        have some' := spelled.length_pos
        rw [List.length_append] at enough
        exact ends_bind (ih (by omega)) fun _ _ => ends_ok _

theorem string_ends (s : List Char) : Ends (string s : Outcome ε (Text × List Char)) :=
  quoted_ends (Nat.lt_succ_self _)

def Consumes (one : List Char → Outcome ε (α × List Char)) : Prop :=
  ∀ s x rest, one s = .ok (x, rest) → rest.length < s.length

theorem string_consumes {s rest : List Char} {text : Text}
    (read : (string s : Outcome ε (Text × List Char)) = .ok (text, rest)) :
    rest.length < s.length := by
  obtain ⟨cs, rfl, -⟩ := string_spelled read
  simp
  omega

theorem separated_ends {close : Char} {one : List Char → Outcome ε (α × List Char)} {bound n : ℕ}
    (ends : ∀ s, s.length ≤ bound → Ends (one s)) (consumes : Consumes one) {s : List Char}
    (inside : s.length ≤ bound) (enough : s.length < n) : Ends (separated close one n s) := by
  induction n generalizing s with
  | zero => omega
  | succ n ih =>
    rw [separated]
    refine ends_bind (ends s inside) fun ⟨first, rest⟩ read => ?_
    have less := consumes s first rest read
    have blanks := length_skipBlanks rest
    dsimp only
    split
    · rename_i more comma
      have shorter := length_expect comma
      have blanks' := length_skipBlanks more
      exact ends_bind (ih (by omega) (by omega)) fun _ _ => ends_ok _
    · split
      · exact ends_ok _
      · exact ends_malformed

theorem bracketed_ends {close : Char} {one : List Char → Outcome ε (α × List Char)} {s : List Char}
    (ends : ∀ t, t.length ≤ s.length → Ends (one t)) (consumes : Consumes one) :
    Ends (bracketed close one s) := by
  have blanks := length_skipBlanks s
  rw [bracketed]
  split
  · exact ends_ok _
  · exact separated_ends ends consumes blanks (Nat.lt_succ_of_le blanks)

theorem member_ends {one : List Char → Outcome ε (Value × List Char)} {s : List Char}
    (ends : ∀ t, t.length ≤ s.length → Ends (one t)) : Ends (member one s) := by
  rw [member]
  split
  · exact ends_malformed
  · rename_i inside quote
    refine ends_bind (string_ends inside) fun ⟨key, rest⟩ read => ?_
    have opened := length_expect quote
    have closed := string_consumes read
    have blanks := length_skipBlanks rest
    dsimp only
    split
    · exact ends_malformed
    · rename_i more colon
      have shorter := length_expect colon
      have blanks' := length_skipBlanks more
      exact ends_bind (ends _ (by omega)) fun _ _ => ends_ok _

theorem member_consumes {one : List Char → Outcome ε (Value × List Char)}
    (spelled : ∀ s v rest, one s = .ok (v, rest) → ∃ cs, s = cs ++ rest ∧ cs ≠ []) :
    Consumes (member one) := by
  intro s m rest read
  have spelled' : ∀ s v rest, one s = .ok (v, rest) → ∃ cs, s = cs ++ rest ∧
      (fun (_ : List Char) (_ : Value) => True) cs v := fun s v rest read =>
    (spelled s v rest read).imp fun _ parts => ⟨parts.1, trivial⟩
  obtain ⟨cs, rfl, member⟩ := member_spelled spelled' s m rest read
  cases member
  simp
  omega

theorem closed_ne_nil {checked : List (Text × Value) → Prop} :
    Closed checked fun cs _ => cs ≠ [] := by
  constructor <;> intros <;> simp_all

theorem value_ends (n : ℕ) (s : List Char) (enough : s.length < n) : Ends (value check n s) := by
  have consumed : ∀ n s v rest, value check n s = .ok (v, rest) → ∃ cs, s = cs ++ rest ∧ cs ≠ [] :=
    fun n s v rest => value_spelled closed_ne_nil s v rest
  have consumes : ∀ n, Consumes (value check n) := by
    intro n s v rest read
    obtain ⟨cs, rfl, some'⟩ := consumed n s v rest read
    have pos := List.length_pos_iff.mpr some'
    rw [List.length_append]
    omega
  induction n generalizing s with
  | zero => omega
  | succ n ih =>
    cases s with
    | nil => exact ends_malformed
    | cons c s =>
      rw [List.length_cons] at enough
      rw [value]
      split_ifs
      · exact ends_bind (string_ends s) fun _ _ => ends_ok _
      · refine ends_bind (bracketed_ends ?_ (consumes n)) fun _ _ => ends_ok _
        exact fun t shorter => ih t (by omega)
      · refine ends_bind (bracketed_ends ?_ (member_consumes (consumed n))) fun found _ => ?_
        · exact fun t shorter => member_ends fun u shorter' => ih u (by omega)
        · refine ends_bind ?_ fun _ _ => ends_ok _
          rw [closeObject]
          split
          · exact ends_ok _
          · nofun
      · rw [simple]
        split
        · exact ends_ok _
        · exact ends_malformed

theorem document_ends (s : List Char) : Ends (document check s) := by
  rw [document]
  split_ifs
  · exact ends_malformed
  · refine ends_bind (value_ends _ _ (Nat.lt_succ_of_le (length_skipBlanks s))) fun found _ => ?_
    dsimp only
    split_ifs
    · exact ends_ok _
    · exact ends_malformed

end

end JsonText
