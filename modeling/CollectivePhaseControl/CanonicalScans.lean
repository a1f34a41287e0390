import CollectivePhaseControl.CanonicalJson
import CollectivePhaseControl.JsonSpellings

/-! The scan for nesting goes over bytes and knows no JSON. On the spelling of a value it
counts the brackets of the value: those in strings are skipped. -/
namespace CollectivePhaseControl.Canonical
open CodePoints JsonText Fallible

theorem ascii_byte {c : Char} {byte : UInt8} (member : byte ∈ String.utf8EncodeChar c)
    (small : byte.toNat < 0x80) : byte.toNat = c.toNat := by
  have value : c.toNat = c.val.toNat := rfl
  unfold String.utf8EncodeChar at member
  dsimp only at member
  split_ifs at member
  · obtain rfl := List.mem_singleton.mp member
    rw [UInt8.toNat_ofNat']
    omega
  all_goals
    simp only [List.mem_cons, List.not_mem_nil, or_false] at member
    rcases member with rfl | rfl | rfl | rfl <;> rw [UInt8.toNat_ofNat'] at small <;> omega

theorem ne_byte {c d : Char} (other : c ≠ d) (ascii : d.toNat < 0x80) {byte : UInt8}
    (member : byte ∈ String.utf8EncodeChar c) : byte.toNat ≠ d.toNat := by
  intro same
  have own := ascii_byte member (same ▸ ascii)
  exact other (Char.ext (UInt32.toNat_inj.mp (own.symm.trans same)))

theorem foldlM_still {σ : Type} {step : σ → UInt8 → Except JsonError σ} {s : σ} {bytes : List UInt8}
    (still : ∀ byte ∈ bytes, step s byte = .ok s) : bytes.foldlM step s = .ok s := by
  induction bytes with
  | nil => rfl
  | cons byte bytes ih =>
    rw [List.forall_mem_cons] at still
    rw [List.foldlM_cons, still.1, ok_bind, ih still.2]

def scanText (maxDepth : ℕ) (scan : Scan) (cs : List Char) : Except JsonError Scan :=
  (encoded cs).foldlM (scanByte maxDepth) scan

def Scan.outside (depth : ℕ) : Scan := ⟨depth, false, false⟩

def Scan.inside (depth : ℕ) : Scan := ⟨depth, true, false⟩

section
variable {maxDepth depth : ℕ}

theorem scanText_append (scan : Scan) (x y : List Char) :
    scanText maxDepth scan (x ++ y) =
      scanText maxDepth scan x >>= fun after => scanText maxDepth after y := by
  rw [scanText, encoded, List.flatMap_append, List.foldlM_append]
  rfl

theorem scanText_cons (scan : Scan) (c : Char) (cs : List Char) :
    scanText maxDepth scan (c :: cs) =
      scanText maxDepth scan [c] >>= fun after => scanText maxDepth after cs :=
  scanText_append scan [c] cs

theorem scanText_letters {cs : List Char} (letters : ∀ c ∈ cs, c ≠ '"' ∧ c ≠ '\\') :
    scanText maxDepth (.inside depth) cs = .ok (.inside depth) := by
  refine foldlM_still fun byte member => ?_
  obtain ⟨c, listed, member⟩ := List.mem_flatMap.mp member
  have quote := ne_byte (letters c listed).1 (by decide) member
  have backslash := ne_byte (letters c listed).2 (by decide) member
  have first : byte ≠ 0x5C := fun same => backslash (by rw [same]; rfl)
  have second : byte ≠ 0x22 := fun same => quote (by rw [same]; rfl)
  rw [scanByte, Scan.inside, if_pos rfl, if_neg Bool.false_ne_true, if_neg first, if_neg second]

theorem hexValue_letter {c : Char} {n : ℕ} (read : hexValue c = some n) : c ≠ '"' ∧ c ≠ '\\' := by
  constructor <;> rintro rfl <;> cases read

theorem hex4_letters {a b c d : Char} {code : ℕ} (read : hex4 a b c d = some code) :
    ∀ e ∈ [a, b, c, d], e ≠ '"' ∧ e ≠ '\\' := by
  simp only [hex4, Option.bind_eq_bind, Option.bind_eq_some_iff] at read
  obtain ⟨w, first, x, second, y, third, z, fourth, -⟩ := read
  simp only [List.forall_mem_cons, List.not_mem_nil, false_imp_iff, implies_true, and_true]
  exact ⟨hexValue_letter first, hexValue_letter second, hexValue_letter third,
    hexValue_letter fourth⟩

theorem scanText_unicode :
    scanText maxDepth (.inside depth) ['\\', 'u'] = .ok (.inside depth) := rfl

theorem scanText_spelled {piece : List Char} {code : ℕ} (spelled : Spelled piece code) :
    scanText maxDepth (.inside depth) piece = .ok (.inside depth) := by
  cases spelled with
  | plain c printable quote backslash =>
    refine scanText_letters fun d member => ?_
    obtain rfl := List.mem_singleton.mp member
    exact ⟨quote, backslash⟩
  | short c code listed =>
    simp only [shortEscapes, List.mem_cons, List.not_mem_nil, or_false, Prod.mk.injEq] at listed
    obtain ⟨rfl, -⟩ | ⟨rfl, -⟩ | ⟨rfl, -⟩ | ⟨rfl, -⟩ | ⟨rfl, -⟩ | ⟨rfl, -⟩ | ⟨rfl, -⟩ | ⟨rfl, -⟩ :=
      listed <;> rfl
  | hex a b c d code read =>
    have parts : ['\\', 'u', a, b, c, d] = ['\\', 'u'] ++ [a, b, c, d] := rfl
    rw [parts, scanText_append, scanText_unicode, ok_bind, scanText_letters (hex4_letters read)]
  | pair a b c d e f g h high low read read' isHigh isLow =>
    have parts : ['\\', 'u', a, b, c, d, '\\', 'u', e, f, g, h] =
        ['\\', 'u'] ++ ([a, b, c, d] ++ (['\\', 'u'] ++ [e, f, g, h])) := rfl
    rw [parts, scanText_append, scanText_unicode, ok_bind, scanText_append,
      scanText_letters (hex4_letters read), ok_bind, scanText_append, scanText_unicode, ok_bind,
      scanText_letters (hex4_letters read')]

theorem scanText_inside {cs : List Char} {text : Text} (spelled : SpelledText cs text) :
    scanText maxDepth (.inside depth) cs = .ok (.inside depth) := by
  induction spelled with
  | nil => rfl
  | cons first others ih => rw [scanText_append, scanText_spelled first, ok_bind, ih]

theorem scanText_quote {cs : List Char} {text : Text} (spelled : SpelledText cs text) :
    scanText maxDepth (.outside depth) ('"' :: cs ++ ['"']) = .ok (.outside depth) := by
  have opening : scanText maxDepth (.outside depth) ['"'] = .ok (.inside depth) := rfl
  have closing : scanText maxDepth (.inside depth) ['"'] = .ok (.outside depth) := rfl
  rw [List.cons_append, scanText_cons, opening, ok_bind, scanText_append, scanText_inside spelled,
    ok_bind, closing]

end

/-- The scan of the text goes through exactly if there is room for as many brackets. -/
def Nested (height : ℕ) (cs : List Char) : Prop :=
  ∀ maxDepth depth, depth ≤ maxDepth → scanText maxDepth (.outside depth) cs =
    if depth + height ≤ maxDepth then .ok (.outside depth)
    else .error (.inputLimit "json_nesting_too_deep")

theorem Nested.append {m n : ℕ} {x y : List Char} (first : Nested m x) (second : Nested n y) :
    Nested (max m n) (x ++ y) := by
  intro maxDepth depth room
  rw [scanText_append, first maxDepth depth room]
  by_cases fits : depth + m ≤ maxDepth
  · rw [if_pos fits, ok_bind, second maxDepth depth room]
    by_cases fits' : depth + n ≤ maxDepth
    · rw [if_pos fits', if_pos (by omega)]
    · rw [if_neg fits', if_neg (by omega)]
  · rw [if_neg fits, if_neg (by omega)]
    rfl

theorem nested_plain {cs : List Char} (plain : Plain cs) : Nested 0 cs := by
  intro maxDepth depth room
  rw [Nat.add_zero, if_pos room]
  refine foldlM_still fun byte member => ?_
  obtain ⟨c, listed, member⟩ := List.mem_flatMap.mp member
  have solid := plain c listed
  simp only [isPlain, ne_eq, Bool.and_eq_true, decide_eq_true_iff] at solid
  obtain ⟨⟨⟨⟨quote, square⟩, square'⟩, curly⟩, curly'⟩ := solid
  have other : ∀ (d : Char) (ascii : d.toNat < 0x80) (b : UInt8), c ≠ d → b.toNat = d.toNat →
      byte ≠ b := fun d ascii b differs value same =>
    ne_byte differs ascii member (same ▸ value)
  rw [scanByte, Scan.outside, if_neg Bool.false_ne_true,
    if_neg (other '"' (by decide) 0x22 quote rfl),
    if_neg (not_or.mpr ⟨other '[' (by decide) 0x5B square rfl,
      other '{' (by decide) 0x7B curly rfl⟩),
    if_neg (not_or.mpr ⟨other ']' (by decide) 0x5D square' rfl,
      other '}' (by decide) 0x7D curly' rfl⟩)]

theorem plain_of_blank {cs : List Char} (blank : Blank cs) : Plain cs := by
  intro c member
  have white := blank c member
  simp only [isBlank, Bool.or_eq_true, beq_iff_eq] at white
  obtain ((rfl | rfl) | rfl) | rfl := white <;> rfl

theorem nested_blank {cs : List Char} (blank : Blank cs) : Nested 0 cs :=
  nested_plain (plain_of_blank blank)

theorem nested_quote {cs : List Char} {text : Text} (spelled : SpelledText cs text) :
    Nested 0 ('"' :: cs ++ ['"']) := by
  intro maxDepth depth room
  rw [Nat.add_zero, if_pos room, scanText_quote spelled]

theorem Nested.bracket {height : ℕ} {cs : List Char} (inside : Nested height cs)
    {opening closing : Char}
    (pair : opening = '[' ∧ closing = ']' ∨ opening = '{' ∧ closing = '}') :
    Nested (1 + height) (opening :: cs ++ [closing]) := by
  intro maxDepth depth room
  have opens : scanText maxDepth (.outside depth) [opening] =
      if maxDepth < depth + 1 then .error (.inputLimit "json_nesting_too_deep")
      else .ok (.outside (depth + 1)) := by
    obtain ⟨rfl, -⟩ | ⟨rfl, -⟩ := pair
    · change (if maxDepth < depth + 1 then _ else _) >>= pure = _
      split_ifs <;> rfl
    · change (if maxDepth < depth + 1 then _ else _) >>= pure = _
      split_ifs <;> rfl
  have closes : scanText maxDepth (.outside (depth + 1)) [closing] = .ok (.outside depth) := by
    obtain ⟨-, rfl⟩ | ⟨-, rfl⟩ := pair <;> rfl
  rw [List.cons_append, scanText_cons, opens]
  by_cases full : maxDepth < depth + 1
  · rw [if_pos full, if_neg (by omega)]
    rfl
  · rw [if_neg full, ok_bind, scanText_append, inside maxDepth (depth + 1) (by omega)]
    by_cases fits : depth + 1 + height ≤ maxDepth
    · rw [if_pos fits, ok_bind, closes, if_pos (by omega)]
    · rw [if_neg fits, if_neg (by omega)]
      rfl

theorem Nested.congr {m n : ℕ} {x y : List Char} (nested : Nested m x) (text : x = y)
    (height : m = n) : Nested n y := by
  rw [← text, ← height]
  exact nested

theorem nested_separated {α : Type} {P : List Char → α → Prop} {level : α → ℕ}
    (each : ∀ cs x, P cs x → Nested (level x) cs) {cs : List Char} {xs : List α}
    (separated : Separated P cs xs) :
    Nested (xs.foldr (fun x height => max (level x) height) 0) cs := by
  induction separated with
  | last first blank => exact ((each _ _ first).append (nested_blank blank)).congr rfl rfl
  | @cons text after before more x xs first blank blank' others ih =>
    have comma : Nested 0 [','] := nested_plain (by simp [Plain, isPlain])
    have parts := ((each _ _ first).append (nested_blank blank)).append
      (comma.append ((nested_blank blank').append ih))
    exact parts.congr (by simp) (by simp)

theorem nested_member {P : List Char → Value → Prop} (each : ∀ cs v, P cs v → Nested (height v) cs)
    (cs : List Char) (m : Text × Value) (member : SpelledMember P cs m) :
    Nested (height m.2) cs := by
  cases member with
  | @mk keyText between before text key v name blank blank' spelled =>
    have colon : Nested 0 [':'] := nested_plain (by simp [Plain, isPlain])
    have parts := (nested_quote name).append ((nested_blank blank).append
      (colon.append ((nested_blank blank').append (each _ _ spelled))))
    exact parts.congr (by simp) (by simp)

theorem heights_foldr (items : List Value) :
    items.foldr (fun v height' => max (height v) height') 0 = heights items := by
  induction items with
  | nil => rfl
  | cons v rest ih => rw [List.foldr_cons, ih, heights]

theorem memberHeights_foldr (members : List (Text × Value)) :
    members.foldr (fun m height' => max (height m.2) height') 0 = memberHeights members := by
  induction members with
  | nil => rfl
  | cons m rest ih => rw [List.foldr_cons, ih, memberHeights]

theorem closed_nested {checked : List (Text × Value) → Prop} :
    Closed checked fun cs v => Nested (height v) cs where
  null := nested_plain (by simp [Plain, isPlain])
  bool_true := nested_plain (by simp [Plain, isPlain])
  bool_false := nested_plain (by simp [Plain, isPlain])
  int negative digits _ all := by
    refine nested_plain (plain_append.mpr ⟨?_, digits_plain all⟩)
    cases negative <;> simp [Plain, isPlain]
  float _ _ plain := nested_plain plain
  str _ _ spelled := nested_quote spelled
  emptyArray _ blank := (nested_blank blank).bracket (.inl ⟨rfl, rfl⟩)
  array blank cs items isBlank separated := by
    have inside := (nested_blank isBlank).append
      (nested_separated (fun _ _ nested => nested) separated)
    exact (inside.bracket (.inl ⟨rfl, rfl⟩)).congr rfl (by rw [Nat.zero_max, heights_foldr, height])
  emptyObject _ blank _ := (nested_blank blank).bracket (.inr ⟨rfl, rfl⟩)
  object blank cs members isBlank separated _ := by
    have inside := (nested_blank isBlank).append
      (nested_separated (nested_member fun _ _ nested => nested) separated)
    exact (inside.bracket (.inr ⟨rfl, rfl⟩)).congr rfl
      (by rw [Nat.zero_max, memberHeights_foldr, height])

theorem scanNesting_nested {height limit : ℕ} {cs : List Char} (nested : Nested height cs) :
    scanNesting (encoded cs).toByteArray limit = .ok ⟨⟩ ↔ height ≤ limit := by
  have scanned := nested limit 0 (Nat.zero_le _)
  rw [scanText, Nat.zero_add] at scanned
  rw [scanNesting, List.toList_data_toByteArray]
  change (List.foldlM (scanByte limit) (Scan.outside 0) (encoded cs) >>= _) = _ ↔ _
  rw [scanned]
  split_ifs with fits
  · exact iff_of_true rfl fits
  · exact iff_of_false nofun fits

end CollectivePhaseControl.Canonical
