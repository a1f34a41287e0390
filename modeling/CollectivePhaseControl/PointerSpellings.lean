import CollectivePhaseControl.PointerLocations

/-! The pointers that are accepted for one location of a document. A position can be written
with more zeros in front and a tilde that no 0 or 1 follows can stand for itself, so only a
location of members whose tildes are all followed by 0 or 1 has one accepted pointer. -/
namespace CollectivePhaseControl
namespace Pointer

def Reads (segment : List Char) : Step → Prop
  | .member key => String.ofList segment = key
  | .item position => arrayIndex segment = some position

def Spells (location : List Step) (pointer : String) : Prop :=
  ∃ segments, readSegments pointer.toList = some segments ∧ List.Forall₂ Reads segments location

/-- A step into an object at a name whose tildes are all followed by 0 or 1. -/
def Settled (step : Step) : Prop :=
  ∃ key, step = .member key ∧ (Rfc6901.unescape key.toList).isSome

/-- A pointer denotes in a document what its syntax says, and is the only accepted pointer of
the location it leads to. -/
structure FollowsRfc (value : Json) (pointer : String) : Prop where
  evaluates : resolvePointer value pointer = evaluate value pointer
  identifies : ∀ location other, locate value pointer = some location →
    locate value other = some location → other = pointer

section segments
variable {raw text : List Char} {c : Char}

theorem readSegment_plain (plain : c ≠ '~') (rest : List Char) :
    readSegment (c :: rest) = c :: readSegment rest := by
  rw [readSegment, unescapeTilde_plain plain, unescapeTilde_plain plain, ← readSegment]

theorem readSegment_zero (rest : List Char) :
    readSegment ('~' :: '0' :: rest) = '~' :: readSegment rest := by
  rw [readSegment, unescapeTilde_miss (by decide), unescapeTilde_plain (c := '0') (by decide),
    unescapeTilde_hit, ← readSegment]

theorem readSegment_one (rest : List Char) :
    readSegment ('~' :: '1' :: rest) = '/' :: readSegment rest := by
  rw [readSegment, unescapeTilde_hit, unescapeTilde_plain (by decide), ← readSegment]

theorem unescapeTilde_head (c : Char) (rest : List Char) :
    ∃ d tail, unescapeTilde '1' '/' (c :: rest) = d :: tail ∧ (d = c ∨ d = '/') := by
  by_cases tilde : c = '~'
  · subst tilde
    cases rest with
    | nil => exact ⟨'~', [], rfl, .inl rfl⟩
    | cons c rest =>
      by_cases one : c = '1'
      · subst one
        exact ⟨'/', _, unescapeTilde_hit rest, .inr rfl⟩
      · exact ⟨'~', _, unescapeTilde_miss one rest, .inl rfl⟩
  · exact ⟨c, _, unescapeTilde_plain tilde rest, .inl rfl⟩

theorem readSegment_stray (zero : c ≠ '0') (one : c ≠ '1') (rest : List Char) :
    readSegment ('~' :: c :: rest) = '~' :: readSegment (c :: rest) := by
  obtain ⟨d, tail, read, head⟩ := unescapeTilde_head c rest
  have other : d ≠ '0' := by
    rcases head with rfl | rfl
    · exact zero
    · decide
  rw [readSegment, unescapeTilde_miss one, read, unescapeTilde_miss other, ← read, ← readSegment]

theorem readSegment_head (zero : c ≠ '0') (one : c ≠ '1') (rest : List Char) :
    ∃ d tail, readSegment (c :: rest) = d :: tail ∧ d ≠ '0' ∧ d ≠ '1' := by
  by_cases tilde : c = '~'
  · subst tilde
    cases rest with
    | nil => exact ⟨'~', [], rfl, by decide, by decide⟩
    | cons c rest =>
      by_cases zero : c = '0'
      · subst zero
        exact ⟨'~', _, readSegment_zero rest, by decide, by decide⟩
      by_cases one : c = '1'
      · subst one
        exact ⟨'/', _, readSegment_one rest, by decide, by decide⟩
      · exact ⟨'~', _, readSegment_stray zero one rest, by decide, by decide⟩
  · exact ⟨c, _, readSegment_plain tilde rest, zero, one⟩

theorem unescape_stray (zero : c ≠ '0') (one : c ≠ '1') (rest : List Char) :
    Rfc6901.unescape ('~' :: c :: rest) = none := by
  rw [Rfc6901.unescape]
  · exact fun rest same => zero (List.cons.inj same).1
  · exact fun rest same => one (List.cons.inj same).1

theorem unescape_tilde (stray : Rfc6901.unescape text = none) :
    Rfc6901.unescape ('~' :: text) = none := by
  cases text with
  | nil => cases stray
  | cons c rest =>
    by_cases zero : c = '0'
    · subst zero
      rw [Rfc6901.unescape_plain (by decide), Option.map_eq_none_iff] at stray
      rw [Rfc6901.unescape, stray, Option.map_none]
    by_cases one : c = '1'
    · subst one
      rw [Rfc6901.unescape_plain (by decide), Option.map_eq_none_iff] at stray
      rw [Rfc6901.unescape, stray, Option.map_none]
    · exact unescape_stray zero one rest

theorem stray_stays (stray : Rfc6901.unescape raw = none) :
    Rfc6901.unescape (readSegment raw) = none := by
  fun_induction Rfc6901.unescape raw with
  | case1 => cases stray
  | case2 rest ih =>
    rw [readSegment_zero]
    exact unescape_tilde (ih (Option.map_eq_none_iff.mp stray))
  | case3 rest ih =>
    rw [readSegment_one, Rfc6901.unescape_plain (by decide), ih (Option.map_eq_none_iff.mp stray),
      Option.map_none]
  | case4 rest zero one =>
    cases rest with
    | nil => rfl
    | cons c rest =>
      have zero : c ≠ '0' := fun same => zero rest (by rw [same])
      have one : c ≠ '1' := fun same => one rest (by rw [same])
      obtain ⟨d, tail, read, other⟩ := readSegment_head zero one rest
      rw [readSegment_stray zero one, read]
      exact unescape_stray other.1 other.2 tail
  | case5 c rest _ _ other ih =>
    rw [readSegment_plain other, Rfc6901.unescape_plain other,
      ih (Option.map_eq_none_iff.mp stray), Option.map_none]

theorem eq_escape_of_reads (absent : '/' ∉ raw) (read : readSegment raw = text)
    (settled : (Rfc6901.unescape text).isSome) : raw = Rfc6901.escape text := by
  cases stands : Rfc6901.unescape raw with
  | none =>
    rw [← read, stray_stays stands] at settled
    cases settled
  | some token =>
    rw [← read, readSegment_eq stands]
    exact (Rfc6901.escape_unescape absent stands).symm

theorem readSegment_escape (text : List Char) : readSegment (Rfc6901.escape text) = text :=
  readSegment_eq (Rfc6901.unescape_escape text)

theorem escape_head (zero : c ≠ '0') (one : c ≠ '1') (rest : List Char) :
    ∃ d tail, Rfc6901.escape (c :: rest) = d :: tail ∧ d ≠ '0' ∧ d ≠ '1' := by
  rw [Rfc6901.escape, List.flatMap_cons, ← Rfc6901.escape, Rfc6901.escapeChar]
  split_ifs with tilde slash
  · exact ⟨'~', _, rfl, by decide, by decide⟩
  · exact ⟨'~', _, rfl, by decide, by decide⟩
  · exact ⟨c, _, rfl, zero, one⟩

theorem exists_other_segment (stray : Rfc6901.unescape text = none) :
    ∃ raw, '/' ∉ raw ∧ readSegment raw = text ∧ raw ≠ Rfc6901.escape text := by
  fun_induction Rfc6901.unescape text with
  | case1 => cases stray
  | case2 rest ih =>
    obtain ⟨raw, absent, read, other⟩ := ih (Option.map_eq_none_iff.mp stray)
    refine ⟨'~' :: '0' :: '0' :: raw, by simpa using absent, ?_, ?_⟩
    · rw [readSegment_zero, readSegment_plain (by decide), read]
    · simpa [Rfc6901.escape, Rfc6901.escapeChar] using other
  | case3 rest ih =>
    obtain ⟨raw, absent, read, other⟩ := ih (Option.map_eq_none_iff.mp stray)
    refine ⟨'~' :: '0' :: '1' :: raw, by simpa using absent, ?_, ?_⟩
    · rw [readSegment_zero, readSegment_plain (by decide), read]
    · simpa [Rfc6901.escape, Rfc6901.escapeChar] using other
  | case4 rest zero one =>
    cases rest with
    | nil => exact ⟨['~'], by decide, rfl, by decide⟩
    | cons c rest =>
      have zero : c ≠ '0' := fun same => zero rest (by rw [same])
      have one : c ≠ '1' := fun same => one rest (by rw [same])
      obtain ⟨d, tail, escaped, other⟩ := escape_head zero one rest
      refine ⟨'~' :: Rfc6901.escape (c :: rest), ?_, ?_, ?_⟩
      · rw [List.mem_cons, not_or]
        exact ⟨by decide, Rfc6901.slash_notMem_escape _⟩
      · rw [escaped, readSegment_stray other.1 other.2, ← escaped, readSegment_escape]
      · intro same
        rw [escaped] at same
        -- The escape of a tilde has a zero where the segment goes on with `d`.
        exact other.1 (List.cons.inj (List.cons.inj same).2).1
  | case5 c rest _ _ tilde ih =>
    obtain ⟨raw, absent, read, other⟩ := ih (Option.map_eq_none_iff.mp stray)
    have tilde : c ≠ '~' := tilde
    by_cases slash : c = '/'
    · subst slash
      refine ⟨'~' :: '1' :: raw, by simpa using absent, by rw [readSegment_one, read], ?_⟩
      intro same
      exact other (List.cons.inj (List.cons.inj same).2).2
    · refine ⟨c :: raw, ?_, by rw [readSegment_plain tilde, read], ?_⟩
      · rw [List.mem_cons, not_or]
        exact ⟨Ne.symm slash, absent⟩
      · rw [Rfc6901.escape, List.flatMap_cons, ← Rfc6901.escape, Rfc6901.escapeChar,
          if_neg tilde, if_neg slash]
        exact fun same => other (List.cons.inj same).2

end segments

section writings
variable {raw token : List Char} {step : Step} {n : ℕ}

theorem arrayIndex_zero (index : arrayIndex token = some n) :
    arrayIndex ('0' :: token) = some n := by
  cases token with
  | nil => cases index
  | cons c token =>
    have zero : decimalDigit '0' = some 0 := decimalDigit_of_isDigit rfl
    rw [arrayIndex, if_neg (by simp)] at index ⊢
    rw [List.foldlM_cons, zero]
    exact index

def Writes (raw : List Char) (step : Step) : Prop := '/' ∉ raw ∧ Reads (readSegment raw) step

theorem writes_token (step : Step) : Writes (Rfc6901.escape step.token) step := by
  refine ⟨Rfc6901.slash_notMem_escape _, ?_⟩
  rw [readSegment_escape]
  cases step with
  | member key => exact String.ofList_toList
  | item position => exact arrayIndex_of_index (Rfc6901.index_position position)

theorem Writes.eq_token (writes : Writes raw step) (settled : Settled step) :
    raw = Rfc6901.escape step.token := by
  obtain ⟨key, rfl, settled⟩ := settled
  obtain ⟨absent, read⟩ := writes
  have read : readSegment raw = key.toList := by
    rw [← show String.ofList (readSegment raw) = key from read, String.toList_ofList]
  exact eq_escape_of_reads absent read settled

theorem exists_other_writing (unsettled : ¬ Settled step) :
    ∃ raw, Writes raw step ∧ raw ≠ Rfc6901.escape step.token := by
  cases step with
  | member key =>
    have stray : Rfc6901.unescape key.toList = none := by
      rw [← Option.not_isSome_iff_eq_none]
      exact fun settled => unsettled ⟨key, rfl, settled⟩
    obtain ⟨raw, absent, read, other⟩ := exists_other_segment stray
    exact ⟨raw, ⟨absent, by rw [read, Reads, String.ofList_toList]⟩, other⟩
  | item position =>
    obtain ⟨absent, read⟩ := writes_token (.item position)
    refine ⟨'0' :: Rfc6901.escape (Step.item position).token, ⟨?_, ?_⟩, List.cons_ne_self _ _⟩
    · rw [List.mem_cons, not_or]
      exact ⟨by decide, absent⟩
    · rw [readSegment_plain (by decide)]
      exact arrayIndex_zero read

end writings

section spellings
variable {value found : Json} {location : List Step} {pointer other : String}
variable {raws raws' : List (List Char)} {segments : List (List Char)}

def written (raws : List (List Char)) : String := String.ofList (raws.flatMap ('/' :: ·))

theorem readSegments_written (absent : ∀ raw ∈ raws, '/' ∉ raw) :
    readSegments (written raws).toList = some (raws.map readSegment) := by
  rw [written, String.toList_ofList]
  cases raws with
  | nil => rfl
  | cons raw raws =>
    rw [← Rfc6901.cons_intercalate '/' (List.cons_ne_nil _ _), readSegments,
      List.splitOn_intercalate _ _ (List.cons_ne_nil _ _)]
    simpa using absent

theorem written_injective (absent : ∀ raw ∈ raws, '/' ∉ raw) (absent' : ∀ raw ∈ raws', '/' ∉ raw)
    (same : written raws = written raws') : raws = raws' := by
  have text : raws.flatMap ('/' :: ·) = raws'.flatMap ('/' :: ·) := String.ofList_injective same
  cases raws with
  | nil =>
    cases raws' with
    | nil => rfl
    | cons => cases text
  | cons raw raws =>
    cases raws' with
    | nil => cases text
    | cons raw' raws' =>
      rw [← Rfc6901.cons_intercalate '/' (List.cons_ne_nil _ _),
        ← Rfc6901.cons_intercalate '/' (List.cons_ne_nil _ _)] at text
      rw [← List.splitOn_intercalate '/' (by simpa using absent) (List.cons_ne_nil raw raws),
        (List.cons.inj text).2,
        List.splitOn_intercalate '/' (by simpa using absent') (List.cons_ne_nil raw' raws')]

theorem forall₂_writes_iff : List.Forall₂ Writes raws location ↔
    (∀ raw ∈ raws, '/' ∉ raw) ∧ List.Forall₂ Reads (raws.map readSegment) location := by
  rw [List.forall₂_map_left_iff]
  exact List.forall₂_and_left raws location

theorem spells_written (writes : List.Forall₂ Writes raws location) :
    Spells location (written raws) := by
  obtain ⟨absent, reads⟩ := forall₂_writes_iff.mp writes
  exact ⟨_, readSegments_written absent, reads⟩

theorem Spells.exists_writes (spells : Spells location pointer) :
    ∃ raws, pointer = written raws ∧ List.Forall₂ Writes raws location := by
  obtain ⟨segments, read, reads⟩ := spells
  cases text : pointer.toList with
  | nil =>
    rw [text] at read
    cases read
    cases reads
    exact ⟨[], String.toList_injective (by rw [text]; rfl), .nil⟩
  | cons c path =>
    rw [text] at read
    by_cases slash : c = '/'
    · subst slash
      cases read
      refine ⟨path.splitOn '/', String.toList_injective ?_, ?_⟩
      · rw [text, written, String.toList_ofList, Rfc6901.flatMap_splitOn]
      · exact forall₂_writes_iff.mpr ⟨fun raw => Rfc6901.slash_notMem_splitOn, reads⟩
    · simp [readSegments, slash] at read

theorem pointerOf_eq (location : List Step) :
    pointerOf location = written (location.map fun step => Rfc6901.escape step.token) := by
  rw [pointerOf, written, List.flatMap_map]

theorem writes_tokens (location : List Step) :
    List.Forall₂ Writes (location.map fun step => Rfc6901.escape step.token) location := by
  rw [List.forall₂_map_left_iff]
  exact List.forall₂_same.mpr fun step _ => writes_token step

theorem Spells.eq_pointerOf (spells : Spells location pointer)
    (settled : ∀ step ∈ location, Settled step) : pointer = pointerOf location := by
  obtain ⟨raws, rfl, writes⟩ := spells.exists_writes
  rw [pointerOf_eq]
  congr 1
  clear spells
  induction writes with
  | nil => rfl
  | cons head _ ih =>
    rw [List.forall_mem_cons] at settled
    rw [List.map_cons, head.eq_token settled.1, ih settled.2]

theorem exists_other_pointer {step : Step} (listed : step ∈ location) (unsettled : ¬ Settled step) :
    ∃ other, Spells location other ∧ other ≠ pointerOf location := by
  obtain ⟨before, after, rfl⟩ := List.append_of_mem listed
  obtain ⟨raw, writes, different⟩ := exists_other_writing unsettled
  have all : List.Forall₂ Writes (before.map (fun step => Rfc6901.escape step.token) ++ raw ::
      after.map fun step => Rfc6901.escape step.token) (before ++ step :: after) :=
    List.rel_append (writes_tokens before) (.cons writes (writes_tokens after))
  refine ⟨_, spells_written all, fun same => different ?_⟩
  rw [pointerOf_eq] at same
  have equal := written_injective (forall₂_writes_iff.mp all).1
    (forall₂_writes_iff.mp (writes_tokens _)).1 same
  rw [List.map_append, List.map_cons, List.append_cancel_left_eq] at equal
  exact (List.cons.inj equal).1

end spellings

section pointers
variable {value found : Json} {location : List Step} {pointer other : String}
variable {segments : List (List Char)}

theorem walk_object {members : List (String × Json)} {token : List Char} :
    walk arrayIndex (.object members) (token :: segments) = some (location, found) ↔
      ∃ next rest, members.lookup (String.ofList token) = some next ∧
        walk arrayIndex next segments = some (rest, found) ∧
        location = .member (String.ofList token) :: rest := by
  simp only [walk, Option.bind_eq_bind, Option.bind_eq_some_iff, Option.map_eq_some_iff,
    Prod.exists, Prod.map_apply, id_eq, Prod.mk.injEq]
  constructor
  · rintro ⟨next, chosen, rest, _, walked, rfl, rfl⟩
    exact ⟨next, rest, chosen, walked, rfl⟩
  · rintro ⟨next, rest, chosen, walked, rfl⟩
    exact ⟨next, chosen, rest, found, walked, rfl, rfl⟩

theorem walk_array {items : List Json} {token : List Char} :
    walk arrayIndex (.array items) (token :: segments) = some (location, found) ↔
      ∃ position next rest, arrayIndex token = some position ∧ items[position]? = some next ∧
        walk arrayIndex next segments = some (rest, found) ∧
        location = .item position :: rest := by
  simp only [walk, Option.bind_eq_bind, Option.bind_eq_some_iff, Option.map_eq_some_iff,
    Prod.exists, Prod.map_apply, id_eq, Prod.mk.injEq]
  constructor
  · rintro ⟨position, read, next, chosen, rest, _, walked, rfl, rfl⟩
    exact ⟨position, next, rest, read, chosen, walked, rfl⟩
  · rintro ⟨position, next, rest, read, chosen, walked, rfl⟩
    exact ⟨position, read, next, chosen, rest, found, walked, rfl, rfl⟩

theorem walk_eq_some_iff : walk arrayIndex value segments = some (location, found) ↔
    reach value location = some found ∧ List.Forall₂ Reads segments location := by
  induction segments generalizing value location with
  | nil =>
    rw [List.forall₂_nil_left_iff]
    constructor
    · intro walked
      cases value <;> cases walked <;> exact ⟨rfl, rfl⟩
    · rintro ⟨reached, rfl⟩
      cases value <;> cases reached <;> rfl
  | cons token rest ih =>
    rw [List.forall₂_cons_left_iff]
    cases value with
    | object members =>
      rw [walk_object]
      constructor
      · rintro ⟨next, tail, chosen, walked, rfl⟩
        obtain ⟨reached, reads⟩ := ih.mp walked
        refine ⟨by rw [reach, chosen]; exact reached, .member _, tail, ?_, reads, rfl⟩
        exact rfl
      · rintro ⟨reached, step, tail, head, reads, rfl⟩
        cases step with
        | item => cases reached
        | member key =>
          cases head
          obtain ⟨next, chosen, reached⟩ := Option.bind_eq_some_iff.mp reached
          exact ⟨next, tail, chosen, ih.mpr ⟨reached, reads⟩, rfl⟩
    | array items =>
      rw [walk_array]
      constructor
      · rintro ⟨position, next, tail, read, chosen, walked, rfl⟩
        obtain ⟨reached, reads⟩ := ih.mp walked
        exact ⟨by rw [reach, chosen]; exact reached, .item _, tail, read, reads, rfl⟩
      · rintro ⟨reached, step, tail, head, reads, rfl⟩
        cases step with
        | member => cases reached
        | item position =>
          obtain ⟨next, chosen, reached⟩ := Option.bind_eq_some_iff.mp reached
          exact ⟨position, next, tail, head, chosen, ih.mpr ⟨reached, reads⟩, rfl⟩
    | _ =>
      simp only [walk, reduceCtorEq, false_iff, not_and]
      rintro reached ⟨step, tail, -, -, rfl⟩
      cases step <;> cases reached

theorem locate_eq_some_iff : locate value pointer = some location ↔
    (∃ found, reach value location = some found) ∧ Spells location pointer := by
  rw [locate, Option.bind_eq_bind, Option.bind_eq_some_iff]
  constructor
  · rintro ⟨segments, read, walked⟩
    obtain ⟨⟨_, found⟩, inner, rfl⟩ := Option.map_eq_some_iff.mp walked
    obtain ⟨reached, reads⟩ := walk_eq_some_iff.mp inner
    exact ⟨⟨found, reached⟩, segments, read, reads⟩
  · rintro ⟨⟨found, reached⟩, segments, read, reads⟩
    exact ⟨segments, read, by rw [walk_eq_some_iff.mpr ⟨reached, reads⟩]; rfl⟩

theorem walk_of_index (walked : walk Rfc6901.index value segments = some (location, found)) :
    walk arrayIndex value segments = some (location, found) := by
  induction segments generalizing value location with
  | nil =>
    rw [walk] at walked ⊢
    exact walked
  | cons token rest ih =>
    cases value with
    | object members =>
      obtain ⟨next, chosen, walked⟩ := Option.bind_eq_some_iff.mp walked
      obtain ⟨⟨tail, _⟩, inner, equal⟩ := Option.map_eq_some_iff.mp walked
      cases equal
      exact walk_object.mpr ⟨next, tail, chosen, ih inner, rfl⟩
    | array items =>
      obtain ⟨position, read, walked⟩ := Option.bind_eq_some_iff.mp walked
      obtain ⟨next, chosen, walked⟩ := Option.bind_eq_some_iff.mp walked
      obtain ⟨⟨tail, _⟩, inner, equal⟩ := Option.map_eq_some_iff.mp walked
      cases equal
      exact walk_array.mpr ⟨position, next, tail, arrayIndex_of_index read, chosen, ih inner, rfl⟩
    | _ => cases walked

theorem locate_of_evaluate (denotes : evaluate value pointer = some found) :
    ∃ location, locate value pointer = some location := by
  obtain ⟨tokens, parsed, walked⟩ := Option.bind_eq_some_iff.mp denotes
  obtain ⟨⟨location, _⟩, inner, -⟩ := Option.map_eq_some_iff.mp walked
  refine ⟨location, ?_⟩
  rw [locate, readSegments_of_tokens parsed, Option.bind_eq_bind, Option.bind_some,
    walk_of_index inner]
  rfl

theorem resolvePointer_eq_none (nowhere : locate value pointer = none) :
    resolvePointer value pointer = none := by
  rw [resolvePointer_eq]
  cases read : readSegments pointer.toList with
  | none => rfl
  | some segments =>
    rw [locate, read, Option.bind_eq_bind, Option.bind_some, Option.map_eq_none_iff] at nowhere
    rw [Option.bind_some, nowhere]
    rfl

/-- All steps of a location that a pointer spells in a document are settled. -/
def AllSettled (value : Json) (pointer : String) : Prop :=
  ∀ location found, reach value location = some found → Spells location pointer →
    ∀ step ∈ location, Settled step

theorem AllSettled.eq_pointerOf (settled : AllSettled value pointer)
    (located : locate value pointer = some location) : pointer = pointerOf location := by
  obtain ⟨⟨found, reached⟩, spells⟩ := locate_eq_some_iff.mp located
  exact spells.eq_pointerOf (settled location found reached spells)

theorem AllSettled.evaluates (settled : AllSettled value pointer) :
    resolvePointer value pointer = evaluate value pointer := by
  cases located : locate value pointer with
  | none =>
    rw [resolvePointer_eq_none located]
    cases denotes : evaluate value pointer with
    | none => rfl
    | some found =>
      obtain ⟨location, located'⟩ := locate_of_evaluate denotes
      cases located.symm.trans located'
  | some location =>
    obtain ⟨⟨found, reached⟩, -⟩ := locate_eq_some_iff.mp located
    obtain ⟨resolved, denotes⟩ := resolvePointer_pointerOf reached
    rw [settled.eq_pointerOf located, resolved, denotes]

theorem AllSettled.identifies (settled : AllSettled value pointer)
    (located : locate value pointer = some location)
    (located' : locate value other = some location) : other = pointer := by
  obtain ⟨⟨found, reached⟩, spells⟩ := locate_eq_some_iff.mp located
  obtain ⟨-, spells'⟩ := locate_eq_some_iff.mp located'
  rw [settled.eq_pointerOf located]
  exact spells'.eq_pointerOf (settled location found reached spells)

/-- A pointer is the only accepted one of its location, and denotes what its syntax says,
exactly if it leads through members alone whose tildes are all followed by 0 or 1. -/
theorem follows_rfc_iff (value : Json) (pointer : String) :
    FollowsRfc value pointer ↔ AllSettled value pointer := by
  constructor
  · intro follows location found reached spells step listed
    by_contra unsettled
    obtain ⟨other, spells', different⟩ := exists_other_pointer listed unsettled
    have located := locate_eq_some_iff.mpr ⟨⟨found, reached⟩, spells⟩
    have second := locate_eq_some_iff.mpr ⟨⟨found, reached⟩, spells'⟩
    have proper := locate_eq_some_iff.mpr
      ⟨⟨found, reached⟩, pointerOf_eq location ▸ spells_written (writes_tokens location)⟩
    exact different ((follows.identifies location other located second).trans
      (follows.identifies location _ located proper).symm)
  · intro settled
    exact ⟨settled.evaluates, fun location other => settled.identifies⟩

end pointers

example : locate (.object [("00", .null)]) "/00" = some [.member "00"] := by decide +kernel

/-- A position with leading zeros is none by the syntax, and is followed. -/
theorem leading_zeros_followed : ¬ ∀ value pointer, FollowsRfc value pointer := by
  intro follows
  have same := congrArg Option.isSome (follows (.array [.null]) "/00").evaluates
  revert same
  decide +kernel

end Pointer
end CollectivePhaseControl
