import CollectivePhaseControl.JsonReader

/-! What is written is read back. A written value begins with a character that tells what it is
and ends where a comma or a bracket follows. -/
namespace JsonText
open CodePoints Fallible

section
variable {ε α : Type}

theorem codePoint_escaped {c : ℕ} (valid : c.isValidChar) (rest : List Char) :
    expect '"' (chars (escaped c) ++ rest) = none ∧
      codePoint (chars (escaped c) ++ rest) = some (c, rest) := by
  by_cases special : c < 0x20 ∨ c = 34 ∨ c = 92
  · obtain control | rfl | rfl := special
    · interval_cases c <;> exact ⟨rfl, rfl⟩
    · exact ⟨rfl, rfl⟩
    · exact ⟨rfl, rfl⟩
  · have plain := escaped_plain special
    rw [not_or, not_or, Nat.not_lt] at special
    obtain ⟨printable, quote, backslash⟩ := special
    have other : ∀ d : Char, c ≠ d.toNat → Char.ofNat c ≠ d := by
      rintro d differs rfl
      exact differs (toNat_ofNat valid).symm
    rw [plain]
    refine ⟨if_neg (other '"' quote), ?_⟩
    change codePoint (Char.ofNat c :: rest) = _
    rw [codePoint, if_neg (other '\\' backslash), if_neg (by rw [toNat_ofNat valid]; omega),
      toNat_ofNat valid]

theorem quoted_written {n : ℕ} {text : Text} (scalar : Scalar text) (rest : List Char)
    (enough : text.length < n) :
    (quoted n (chars (text.flatMap escaped) ++ '"' :: rest) : Outcome ε (Text × List Char)) =
      .ok (text, rest) := by
  induction n generalizing text with
  | zero => omega
  | succ n ih =>
    cases text with
    | nil => simp [quoted, expect]
    | cons c text =>
      rw [scalar_cons] at scalar
      obtain ⟨open', first⟩ := codePoint_escaped scalar.1
        (chars (text.flatMap escaped) ++ '"' :: rest)
      rw [List.flatMap_cons, chars_append, List.append_assoc, quoted, open']
      dsimp only
      rw [first]
      dsimp only
      rw [ih scalar.2 (by simpa using enough)]
      rfl

theorem length_escaped (c : ℕ) : 0 < (escaped c).length := by
  unfold escaped
  split_ifs <;> simp

theorem length_flatMap_escaped (text : Text) : text.length ≤ (text.flatMap escaped).length := by
  induction text with
  | nil => simp
  | cons c text ih =>
    have some' := length_escaped c
    rw [List.flatMap_cons, List.length_append, List.length_cons]
    omega

theorem length_chars (text : Text) : (chars text).length = text.length := List.length_map _

theorem string_written {text : Text} (scalar : Scalar text) (rest : List Char) :
    (string (chars (text.flatMap escaped) ++ '"' :: rest) : Outcome ε (Text × List Char)) =
      .ok (text, rest) := by
  refine quoted_written scalar rest ?_
  have longer := length_flatMap_escaped text
  rw [List.length_append, length_chars]
  omega

theorem chars_quote (text : Text) (rest : List Char) :
    chars (quote text) ++ rest = '"' :: (chars (text.flatMap escaped) ++ '"' :: rest) := by
  simp [quote]

def starts (c : Char) : Bool :=
  c.isDigit || c = '-' || c = 'n' || c = 't' || c = 'f' || c = '"' || c = '[' || c = '{'

def Starts (cs : List Char) : Prop := ∃ c rest, cs = c :: rest ∧ starts c = true

def Delimited (rest : List Char) : Prop :=
  ∀ c, rest.head? = some c → c = ',' ∨ c = ']' ∨ c = '}'

theorem ne_of_starts {c d : Char} (begins : starts c = true) (never : starts d = false) :
    c ≠ d := by
  rintro rfl
  rw [begins] at never
  cases never

theorem starts_not_blank {c : Char} (begins : starts c = true) : isBlank c = false := by
  have space := ne_of_starts begins (d := ' ') rfl
  have tab := ne_of_starts begins (d := '\t') rfl
  have line := ne_of_starts begins (d := '\n') rfl
  have carriage := ne_of_starts begins (d := '\r') rfl
  simp [isBlank, space, tab, line, carriage]

theorem skipBlanks_cons {c : Char} (solid : isBlank c = false) (rest : List Char) :
    skipBlanks (c :: rest) = c :: rest :=
  List.dropWhile_cons_of_neg (by simp [solid])

theorem Starts.skipBlanks {cs : List Char} (begins : Starts cs) (rest : List Char) :
    skipBlanks (cs ++ rest) = cs ++ rest := by
  obtain ⟨c, more, rfl, first⟩ := begins
  exact skipBlanks_cons (starts_not_blank first) _

theorem Starts.expect {cs : List Char} (begins : Starts cs) {d : Char} (never : starts d = false)
    (rest : List Char) : expect d (cs ++ rest) = none := by
  obtain ⟨c, more, rfl, first⟩ := begins
  exact if_neg (ne_of_starts first never)

theorem Starts.append {cs : List Char} (begins : Starts cs) (rest : List Char) :
    Starts (cs ++ rest) := by
  obtain ⟨c, more, rfl, first⟩ := begins
  exact ⟨c, more ++ rest, rfl, first⟩

theorem Starts.ne_nil {cs : List Char} (begins : Starts cs) : cs ≠ [] := by
  obtain ⟨c, more, rfl, -⟩ := begins
  exact List.cons_ne_nil _ _

theorem delimited_cons {c : Char} (closes : c = ',' ∨ c = ']' ∨ c = '}') (rest : List Char) :
    Delimited (c :: rest) := by
  intro d first
  rw [List.head?_cons, Option.some_inj] at first
  exact first ▸ closes

theorem delimited_nil : Delimited [] := by
  intro c first
  cases first

theorem head_toDigits {n : ℕ} : ∃ c rest, Nat.toDigits 10 n = c :: rest ∧ c.isDigit = true ∧
    (c = '0' → rest = []) := by
  have all : ∀ c ∈ Nat.toDigits 10 n, c.isDigit = true :=
    fun c member => Nat.isDigit_of_mem_toDigits (by decide) (by decide) member
  have leading : n ≠ 0 → (Nat.toDigits 10 n).head? ≠ some '0' := by
    induction n using Nat.strong_induction_on with
    | _ n ih =>
      intro some'
      by_cases small : n < 10
      · rw [Nat.toDigits_of_lt_base small]
        interval_cases n <;> simp at some' ⊢
      · rw [Nat.toDigits_of_base_le (by decide) (by omega),
          List.head?_append_of_ne_nil _ Nat.toDigits_ne_nil]
        refine ih (n / 10) (by omega) ?_ (by omega)
        exact fun c member => Nat.isDigit_of_mem_toDigits (by decide) (by decide) member
  cases digits : Nat.toDigits 10 n with
  | nil => exact absurd digits Nat.toDigits_ne_nil
  | cons c rest =>
    refine ⟨c, rest, rfl, all c (by simp [digits]), fun zero => ?_⟩
    by_cases null : n = 0
    · rw [null, Nat.toDigits_zero] at digits
      exact (List.cons.inj digits).2.symm
    · rw [digits, List.head?_cons] at leading
      exact absurd (congrArg some zero) (leading null)

theorem Delimited.takeWhile {rest : List Char} (delimited : Delimited rest) :
    rest.takeWhile Char.isDigit = [] ∧ rest.dropWhile Char.isDigit = rest := by
  cases rest with
  | nil => exact ⟨rfl, rfl⟩
  | cons c rest =>
    have other : c.isDigit = false := by
      obtain rfl | rfl | rfl := delimited c rfl <;> rfl
    exact ⟨List.takeWhile_cons_of_neg (by simp [other]),
      List.dropWhile_cons_of_neg (by simp [other])⟩

theorem Delimited.expect {rest : List Char} (delimited : Delimited rest) {d : Char}
    (never : d ≠ ',' ∧ d ≠ ']' ∧ d ≠ '}') : expect d rest = none := by
  cases rest with
  | nil => rfl
  | cons c rest =>
    refine if_neg ?_
    rintro rfl
    obtain same | same | same := delimited c rfl
    · exact never.1 same
    · exact never.2.1 same
    · exact never.2.2 same

theorem Delimited.exponent {rest : List Char} (delimited : Delimited rest) :
    exponent rest = ([], rest) := by
  cases rest with
  | nil => rfl
  | cons c rest =>
    have other : ¬ (c = 'e' ∨ c = 'E') := by
      obtain rfl | rfl | rfl := delimited c rfl <;> decide
    unfold JsonText.exponent
    dsimp only
    rw [if_neg other]

theorem whole_written (n : ℕ) {rest : List Char} (delimited : Delimited rest) :
    whole (Nat.toDigits 10 n ++ rest) = some (Nat.toDigits 10 n, rest) := by
  have all : ∀ c ∈ Nat.toDigits 10 n, c.isDigit = true :=
    fun c member => Nat.isDigit_of_mem_toDigits (by decide) (by decide) member
  obtain ⟨c, more, digits, digit, alone⟩ := @head_toDigits n
  rw [digits] at all ⊢
  rw [List.cons_append, whole]
  split_ifs with zero
  · rw [zero, alone zero, List.nil_append]
  · rw [← List.cons_append, List.takeWhile_append_of_pos all, List.dropWhile_append_of_pos all,
      delimited.takeWhile.1, delimited.takeWhile.2, List.append_nil]

theorem unsigned_written (negative : Bool) {n : ℕ} {rest : List Char}
    (delimited : Delimited rest) (short : (Nat.toDigits 10 n).length ≤ maxDigits) :
    unsigned negative (Nat.toDigits 10 n ++ rest) = some (.int (signed negative n), rest) := by
  have point : fraction rest = ([], rest) := by
    rw [fraction, delimited.expect (by decide)]
  rw [unsigned, whole_written n delimited]
  simp only [Option.bind_eq_bind, Option.bind_some, point, delimited.exponent, and_self, if_true,
    if_pos short, Nat.ofDigitChars_ten_toDigits]
  rfl

theorem number_written {z : ℤ} {rest : List Char} (delimited : Delimited rest)
    (short : (Nat.toDigits 10 z.natAbs).length ≤ maxDigits) :
    number (decimal z ++ rest) = some (.int z, rest) := by
  rw [decimal, number]
  split_ifs with negative
  · have minus : signed true z.natAbs = z := by
      simp only [signed, if_true]
      omega
    rw [List.append_assoc, List.singleton_append, expect, if_pos rfl]
    dsimp only
    rw [unsigned_written true delimited short, minus]
  · have plus : signed false z.natAbs = z := by
      simp only [signed, Bool.false_eq_true, if_false]
      omega
    obtain ⟨c, more, digits, digit, -⟩ := @head_toDigits z.natAbs
    have begins : Starts (Nat.toDigits 10 z.natAbs) := ⟨c, more, digits, by simp [starts, digit]⟩
    have unmarked : expect '-' (Nat.toDigits 10 z.natAbs ++ rest) = none := by
      rw [digits, List.cons_append, expect, if_neg]
      rintro rfl
      cases digit
    rw [List.nil_append, unmarked]
    dsimp only
    rw [unsigned_written false delimited short, plus]

theorem literal_digit {c : Char} (digit : c.isDigit = true) (rest : List Char) :
    literal (c :: rest) = none ∧ literal ('-' :: c :: rest) = none := by
  have other : ∀ d : Char, d.isDigit = false → d ≠ c := by
    rintro d never rfl
    rw [digit] at never
    cases never
  have n := other 'n' rfl
  have t := other 't' rfl
  have f := other 'f' rfl
  have N := other 'N' rfl
  have I := other 'I' rfl
  have minus := other '-' rfl
  constructor
  · simp [literal, literals, n, t, f, N, I, minus]
  · simp [literal, literals, I]

theorem simple_written {z : ℤ} {rest : List Char} (delimited : Delimited rest)
    (short : (Nat.toDigits 10 z.natAbs).length ≤ maxDigits) :
    (simple (decimal z ++ rest) : Outcome ε (Value × List Char)) = .ok (.int z, rest) := by
  obtain ⟨c, more, digits, digit, -⟩ := @head_toDigits z.natAbs
  have none' : literal (decimal z ++ rest) = none := by
    rw [decimal, digits]
    split_ifs
    · exact (literal_digit digit _).2
    · exact (literal_digit digit _).1
  rw [simple, none', number_written delimited short]
  rfl

theorem head_decimal (z : ℤ) : ∃ c rest, decimal z = c :: rest ∧ (c.isDigit = true ∨ c = '-') := by
  obtain ⟨c, more, digits, digit, -⟩ := @head_toDigits z.natAbs
  rw [decimal]
  split_ifs
  · exact ⟨'-', _, rfl, .inr rfl⟩
  · exact ⟨c, more, digits, .inl digit⟩

theorem starts_decimal (z : ℤ) : Starts (decimal z) := by
  obtain ⟨c, rest, same, digit | rfl⟩ := head_decimal z
  · exact ⟨c, rest, same, by simp [starts, digit]⟩
  · exact ⟨'-', rest, same, rfl⟩

theorem starts_quote (text : Text) : Starts (chars (quote text)) :=
  ⟨'"', _, rfl, rfl⟩

theorem starts_write {v : Value} (whole : ∀ text, v ≠ .float text) : Starts (chars (write v)) := by
  cases v with
  | null => exact ⟨'n', _, rfl, rfl⟩
  | bool b =>
    cases b with
    | false => exact ⟨'f', _, rfl, rfl⟩
    | true => exact ⟨'t', _, rfl, rfl⟩
  | int z =>
    rw [write, chars_ofChars]
    exact starts_decimal z
  | float text => exact absurd rfl (whole text)
  | str text => exact starts_quote text
  | array items => exact ⟨'[', _, rfl, rfl⟩
  | object members => exact ⟨'{', _, rfl, rfl⟩

theorem starts_writeMember (m : Text × Value) : Starts (chars (writeMember m)) := by
  rw [writeMember, chars_append]
  exact (starts_quote m.1).append _

theorem length_commas {texts : List Text} (some' : ∀ text ∈ texts, text ≠ []) :
    texts.length ≤ (commas texts).length := by
  induction texts with
  | nil => simp
  | cons text rest ih =>
    rw [List.forall_mem_cons] at some'
    have pos := List.length_pos_iff.mpr some'.1
    have shorter := ih some'.2
    by_cases last : rest = []
    · subst last
      exact pos
    · rw [commas_cons text last, List.length_append, List.length_cons, List.length_cons]
      omega

theorem starts_commas {written : α → Text} {xs : List α} (some' : xs ≠ [])
    (begins : ∀ x ∈ xs, Starts (chars (written x))) : Starts (chars (commas (xs.map written))) := by
  cases xs with
  | nil => exact absurd rfl some'
  | cons x xs =>
    have first := begins x List.mem_cons_self
    by_cases alone : xs = []
    · subst alone
      exact first
    · rw [List.map_cons, commas_cons _ (by simpa using alone), chars_append]
      exact first.append _

theorem separated_written {close : Char} {one : List Char → Outcome ε (α × List Char)}
    {written : α → Text} {xs : List α} (closes : close = ']' ∨ close = '}') (some' : xs ≠ [])
    (begins : ∀ x ∈ xs, Starts (chars (written x)))
    (reads : ∀ x ∈ xs, ∀ rest, Delimited rest → one (chars (written x) ++ rest) = .ok (x, rest))
    {n : ℕ} (enough : xs.length ≤ n) (rest : List Char) :
    separated close one n (chars (commas (xs.map written)) ++ close :: rest) =
      .ok (xs, rest) := by
  have solid : isBlank close = false := by
    obtain rfl | rfl := closes <;> rfl
  induction xs generalizing n with
  | nil => exact absurd rfl some'
  | cons x xs ih =>
    rw [List.forall_mem_cons] at begins reads
    obtain ⟨n, rfl⟩ : ∃ k, n = k + 1 := ⟨n - 1, by rw [List.length_cons] at enough; omega⟩
    by_cases last : xs = []
    · subst last
      have read := reads.1 (close :: rest) (delimited_cons (.inr closes) rest)
      have other : close ≠ ',' := by
        obtain rfl | rfl := closes <;> decide
      rw [List.map_singleton, commas, separated, read, ok_bind]
      dsimp only
      rw [skipBlanks_cons solid, expect, if_neg other]
      dsimp only
      rw [expect, if_pos rfl]
      rfl
    · have more : xs.map written ≠ [] := by simpa using last
      have read := reads.1 (',' :: (chars (commas (xs.map written)) ++ close :: rest))
        (delimited_cons (.inl rfl) _)
      have comma : Char.ofNat (','.toNat) = ',' := rfl
      have following := starts_commas last begins.2
      rw [List.map_cons, commas_cons _ more, chars_append, chars_cons, comma, List.append_assoc,
        List.cons_append, separated, read, ok_bind]
      dsimp only
      rw [skipBlanks_cons rfl, expect, if_pos rfl]
      dsimp only
      rw [following.skipBlanks, ih last begins.2 reads.2 (by simpa using enough)]
      rfl

theorem bracketed_written {close : Char} {one : List Char → Outcome ε (α × List Char)}
    {written : α → Text} {xs : List α} (closes : close = ']' ∨ close = '}')
    (begins : ∀ x ∈ xs, Starts (chars (written x)))
    (reads : ∀ x ∈ xs, ∀ rest, Delimited rest → one (chars (written x) ++ rest) = .ok (x, rest))
    (rest : List Char) :
    bracketed close one (chars (commas (xs.map written)) ++ close :: rest) = .ok (xs, rest) := by
  have solid : isBlank close = false ∧ starts close = false := by
    obtain rfl | rfl := closes <;> exact ⟨rfl, rfl⟩
  rw [bracketed]
  by_cases none' : xs = []
  · subst none'
    rw [List.map_nil, commas, chars_nil, List.nil_append, skipBlanks_cons solid.1, expect,
      if_pos rfl]
  · have following := starts_commas none' begins
    rw [following.skipBlanks, following.expect solid.2]
    dsimp only
    refine separated_written closes none' begins reads ?_ rest
    have longer : (xs.map written).length ≤ (commas (xs.map written)).length := by
      refine length_commas fun text member => ?_
      obtain ⟨x, listed, rfl⟩ := List.mem_map.mp member
      intro empty
      exact (begins x listed).ne_nil (by rw [empty, chars_nil])
    rw [List.length_map] at longer
    rw [List.length_append, length_chars]
    omega

theorem member_written {one : List Char → Outcome ε (Value × List Char)} {m : Text × Value}
    (scalar : Scalar m.1) (begins : Starts (chars (write m.2))) {rest : List Char}
    (reads : one (chars (write m.2) ++ rest) = .ok (m.2, rest)) :
    member one (chars (writeMember m) ++ rest) = .ok (m, rest) := by
  have colon : Char.ofNat (':'.toNat) = ':' := rfl
  rw [writeMember, chars_append, chars_cons, colon, List.append_assoc, chars_quote, member,
    expect, if_pos rfl]
  dsimp only
  rw [string_written scalar, ok_bind]
  dsimp only
  rw [List.cons_append, skipBlanks_cons rfl, expect, if_pos rfl]
  dsimp only
  rw [begins.skipBlanks, reads]
  rfl

/-- What the reader can get back: texts of characters, integers that it converts, and objects
that it does not refuse. -/
def Readable (check : List (Text × Value) → Except ε Unit) : Value → Prop
  | .int z => (Nat.toDigits 10 z.natAbs).length ≤ maxDigits
  | .float _ => False
  | .str text => Scalar text
  | .object members => (∀ m ∈ members, Scalar m.1) ∧ check members = .ok ⟨⟩
  | _ => True

variable {check : List (Text × Value) → Except ε Unit}

theorem Readable.not_float {v : Value} (readable : Readable check v) (text : List Char) :
    v ≠ .float text := by
  rintro rfl
  exact readable

theorem height_le_length (v : Value) : height v ≤ (write v).length := by
  have part : ∀ {texts : List Text} {text : Text}, text ∈ texts →
      text.length ≤ (commas texts).length := by
    intro texts text member
    induction texts with
    | nil => cases member
    | cons first rest ih =>
      by_cases last : rest = []
      · subst last
        obtain rfl := List.mem_singleton.mp member
        exact Nat.le_refl _
      · rw [commas_cons first last, List.length_append, List.length_cons]
        obtain rfl | member := List.mem_cons.mp member
        · omega
        · have shorter := ih member
          omega
  induction v using Value.induct with
  | array items ih =>
    have inside : heights items ≤ (commas (writeItems items)).length := by
      refine heights_le.mpr fun v member => (ih v member).trans (part ?_)
      rw [writeItems_eq]
      exact List.mem_map_of_mem member
    rw [height, write, List.length_append, List.length_cons]
    omega
  | object members ih =>
    have inside : memberHeights members ≤ (commas (writeMembers members)).length := by
      refine memberHeights_le.mpr fun m member => (ih m member).trans ?_
      have longer : (writeMember m).length ≤ (commas (writeMembers members)).length := by
        refine part ?_
        rw [writeMembers_eq]
        exact List.mem_map_of_mem member
      rw [writeMember, List.length_append, List.length_cons] at longer
      omega
    rw [height, write, List.length_append, List.length_cons]
    omega
  | _ => exact Nat.zero_le _

theorem chars_array (items : List Value) (rest : List Char) : chars (write (.array items)) ++ rest =
    '[' :: (chars (commas (items.map write)) ++ ']' :: rest) := by
  rw [write, writeItems_eq]
  simp

theorem chars_object (members : List (Text × Value)) (rest : List Char) :
    chars (write (.object members)) ++ rest =
      '{' :: (chars (commas (members.map writeMember)) ++ '}' :: rest) := by
  rw [write, writeMembers_eq]
  simp

theorem value_decimal {z : ℤ} (short : (Nat.toDigits 10 z.natAbs).length ≤ maxDigits) (n : ℕ)
    {rest : List Char} (delimited : Delimited rest) :
    value check (n + 1) (decimal z ++ rest) = .ok (.int z, rest) := by
  have read := @simple_written ε z rest delimited short
  obtain ⟨c, more, same, first⟩ := head_decimal z
  have other : ∀ d : Char, d.isDigit = false → d ≠ '-' → c ≠ d := by
    rintro d never differs rfl
    obtain digit | minus := first
    · rw [digit] at never
      cases never
    · exact differs minus
  rw [same, List.cons_append] at read ⊢
  rw [value, if_neg (other '"' rfl (by decide)), if_neg (other '[' rfl (by decide)),
    if_neg (other '{' rfl (by decide)), read]

theorem value_written {v : Value} (readable : All (Readable check) v) {n : ℕ}
    (enough : height v < n) {rest : List Char} (delimited : Delimited rest) :
    value check n (chars (write v) ++ rest) = .ok (v, rest) := by
  induction v using Value.induct generalizing n rest with
  | null =>
    obtain ⟨n, rfl⟩ : ∃ k, n = k + 1 := ⟨n - 1, by omega⟩
    rfl
  | bool b =>
    obtain ⟨n, rfl⟩ : ∃ k, n = k + 1 := ⟨n - 1, by omega⟩
    cases b <;> rfl
  | int z =>
    obtain ⟨n, rfl⟩ : ∃ k, n = k + 1 := ⟨n - 1, by omega⟩
    rw [write, chars_ofChars]
    exact value_decimal readable n delimited
  | float text => exact absurd readable.self id
  | str text =>
    obtain ⟨n, rfl⟩ : ∃ k, n = k + 1 := ⟨n - 1, by omega⟩
    rw [write, chars_quote, value, if_pos rfl, string_written readable]
    rfl
  | array items ih =>
    obtain ⟨-, each⟩ := all_array.mp readable
    obtain ⟨n, rfl⟩ : ∃ k, n = k + 1 := ⟨n - 1, by omega⟩
    rw [height, Nat.add_comm, Nat.add_lt_add_iff_right] at enough
    have lower := fun v member => (heights_le.mp (Nat.le_refl _) v member).trans_lt enough
    have begins : ∀ v ∈ items, Starts (chars (write v)) :=
      fun v member => starts_write (each v member).self.not_float
    have reads : ∀ v ∈ items, ∀ rest, Delimited rest →
        value check n (chars (write v) ++ rest) = .ok (v, rest) :=
      fun v member rest delimited => ih v member (each v member) (lower v member) delimited
    rw [chars_array, value, if_neg (by decide), if_pos rfl,
      bracketed_written (.inl rfl) begins reads]
    rfl
  | object members ih =>
    obtain ⟨⟨scalar, passed⟩, each⟩ := all_object.mp readable
    obtain ⟨n, rfl⟩ : ∃ k, n = k + 1 := ⟨n - 1, by omega⟩
    rw [height, Nat.add_comm, Nat.add_lt_add_iff_right] at enough
    have lower := fun m member => (memberHeights_le.mp (Nat.le_refl _) m member).trans_lt enough
    have begins : ∀ m ∈ members, Starts (chars (write m.2)) :=
      fun m member => starts_write (each m member).self.not_float
    have reads : ∀ m ∈ members, ∀ rest, Delimited rest →
        JsonText.member (value check n) (chars (writeMember m) ++ rest) = .ok (m, rest) :=
      fun m member rest delimited => member_written (scalar m member) (begins m member)
        (ih m member (each m member) (lower m member) delimited)
    rw [chars_object, value, if_neg (by decide), if_neg (by decide), if_pos rfl,
      bracketed_written (.inr rfl) (fun m _ => starts_writeMember m) reads, ok_bind]
    dsimp only
    rw [closeObject, passed]
    rfl

theorem document_written {v : Value} (readable : All (Readable check) v) :
    document check (chars (write v)) = .ok v := by
  have begins := starts_write readable.self.not_float
  have unmarked : (chars (write v)).head? ≠ some '\uFEFF' := by
    obtain ⟨c, rest, same, first⟩ := begins
    rw [same, List.head?_cons, ne_eq, Option.some_inj]
    exact ne_of_starts first rfl
  have lower : height v < (chars (write v)).length + 1 := by
    rw [length_chars]
    exact Nat.lt_succ_of_le (height_le_length v)
  have blanks := begins.skipBlanks []
  have read := value_written readable lower delimited_nil
  rw [List.append_nil] at blanks read
  rw [document, if_neg unmarked, blanks, read]
  rfl

end

end JsonText
