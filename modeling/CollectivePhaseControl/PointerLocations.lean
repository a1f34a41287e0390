import CollectivePhaseControl.PointerSyntax
import CollectivePhaseControl.RunnerModels

/-! What the resolution of pointers accepts beyond their syntax: stray tildes, leading zeros
and digits of other scripts. -/
namespace CollectivePhaseControl
namespace Pointer

inductive Step where
  | member (key : String)
  | item (position : ℕ)
deriving DecidableEq, Repr

/-- The location that tokens lead to and its value, as positions are read in some way. -/
def walk (read : List Char → Option ℕ) : Json → List (List Char) → Option (List Step × Json)
  | value, [] => some ([], value)
  | .object members, token :: rest => do
    let value ← members.lookup (String.ofList token)
    (walk read value rest).map (Prod.map (.member (String.ofList token) :: ·) id)
  | .array items, token :: rest => do
    let position ← read token
    let value ← items[position]?
    (walk read value rest).map (Prod.map (.item position :: ·) id)
  | _, _ :: _ => none

def evaluate (value : Json) (pointer : String) : Option Json := do
  let tokens ← Rfc6901.tokens pointer.toList
  (walk Rfc6901.index value tokens).map Prod.snd

def readSegment (raw : List Char) : List Char := unescapeTilde '0' '~' (unescapeTilde '1' '/' raw)

def readSegments : List Char → Option (List (List Char))
  | [] => some []
  | '/' :: path => some ((path.splitOn '/').map readSegment)
  | _ => none

def locate (value : Json) (pointer : String) : Option (List Step) := do
  let segments ← readSegments pointer.toList
  (walk arrayIndex value segments).map Prod.fst

/-- Every tilde belongs to an escape, and what is a run of decimal digits is a position. -/
def PlainSegment (raw : List Char) : Prop :=
  ∃ token, Rfc6901.unescape raw = some token ∧
    ((arrayIndex token).isSome → (Rfc6901.index token).isSome)

def Plain (pointer : String) : Prop :=
  ∀ path, pointer.toList = '/' :: path → ∀ raw ∈ path.splitOn '/', PlainSegment raw

section segments
variable {raw token : List Char} {code mark c : Char} {n : ℕ}

theorem unescapeTilde_plain (plain : c ≠ '~') (rest : List Char) :
    unescapeTilde code mark (c :: rest) = c :: unescapeTilde code mark rest := by
  rw [unescapeTilde]
  simp [plain]

theorem unescapeTilde_hit (rest : List Char) :
    unescapeTilde code mark ('~' :: code :: rest) = mark :: unescapeTilde code mark rest := by
  rw [unescapeTilde, if_pos rfl]

theorem unescapeTilde_miss (other : c ≠ code) (rest : List Char) :
    unescapeTilde code mark ('~' :: c :: rest) =
      '~' :: unescapeTilde code mark (c :: rest) := by
  rw [unescapeTilde, if_neg other]

theorem readSegment_eq : ∀ {token : List Char}, Rfc6901.unescape raw = some token →
    readSegment raw = token := by
  fun_induction Rfc6901.unescape raw with
  | case1 =>
    intro token parsed
    rw [← Option.some.inj parsed]
    rfl
  | case2 rest ih =>
    intro token parsed
    obtain ⟨tail, inner, rfl⟩ := Option.map_eq_some_iff.mp parsed
    rw [readSegment, unescapeTilde_miss (by decide), unescapeTilde_plain (c := '0') (by decide),
      unescapeTilde_hit, ← readSegment, ih inner]
  | case3 rest ih =>
    intro token parsed
    obtain ⟨tail, inner, rfl⟩ := Option.map_eq_some_iff.mp parsed
    rw [readSegment, unescapeTilde_hit, unescapeTilde_plain (by decide), ← readSegment, ih inner]
  | case4 => intro token parsed; cases parsed
  | case5 c rest _ _ other ih =>
    intro token parsed
    obtain ⟨tail, inner, rfl⟩ := Option.map_eq_some_iff.mp parsed
    rw [readSegment, unescapeTilde_plain other, unescapeTilde_plain other, ← readSegment, ih inner]

theorem decimalDigit_of_isDigit (digit : Rfc6901.isDigit c = true) :
    decimalDigit c = some (Rfc6901.digit c) := by
  simp only [Rfc6901.isDigit, Bool.and_eq_true, decide_eq_true_eq] at digit
  have low : 0x30 ≤ c.toNat := digit.1
  have high : c.toNat ≤ 0x39 := digit.2
  have first : (0x30 ≤ c.toNat && c.toNat < 0x30 + 10) = true := by
    rw [Bool.and_eq_true, decide_eq_true_eq, decide_eq_true_eq]
    omega
  have zeros : decimalZeros = 0x30 :: decimalZeros.tail := rfl
  rw [decimalDigit, zeros, List.find?_cons_of_pos]
  · rfl
  · exact first

theorem foldlM_digits (digits : ∀ c ∈ token, Rfc6901.isDigit c = true) :
    token.foldlM (fun value c => (decimalDigit c).map (10 * value + ·)) 0 =
      some (Rfc6901.number token) := by
  induction token using List.reverseRecOn with
  | nil => rfl
  | append_singleton token c ih =>
    have last := decimalDigit_of_isDigit (digits c (by simp))
    rw [List.foldlM_append, ih fun d member => digits d (List.mem_append_left _ member)]
    simp only [Option.bind_eq_bind, Option.bind_some, List.foldlM_cons, last, Option.map_some,
      List.foldlM_nil, Rfc6901.number, List.reverse_append, List.reverse_singleton,
      List.singleton_append, List.map_cons, Nat.ofDigits_cons]
    exact congrArg some (Nat.add_comm _ _)

theorem arrayIndex_of_index (position : Rfc6901.index token = some n) :
    arrayIndex token = some n := by
  simp only [Rfc6901.index, Option.ite_none_right_eq_some, Option.some.injEq] at position
  obtain ⟨is, rfl⟩ := position
  have nonempty : token.isEmpty = false := by
    rcases is with rfl | ⟨nonempty, -⟩
    · rfl
    · simpa using nonempty
  rw [arrayIndex, nonempty, if_neg (by decide)]
  exact foldlM_digits (Rfc6901.digits_of_isIndex is)

end segments

section walks
variable {value found found' : Json} {location : List Step} {segments segments' : List (List Char)}

theorem resolveSegments_eq_walk (value : Json) (segments : List (List Char)) :
    resolveSegments value segments = (walk arrayIndex value segments).map Prod.snd := by
  fun_induction walk arrayIndex value segments with
  | case1 => rfl
  | case2 members token rest ih =>
    rw [resolveSegments]
    cases members.lookup (String.ofList token) with
    | none => rfl
    | some value =>
      simp only [Option.bind_eq_bind, Option.bind_some, Option.map_map, ih value]
      rfl
  | case3 items token rest ih =>
    rw [resolveSegments]
    cases arrayIndex token with
    | none => rfl
    | some position =>
      simp only [Option.bind_eq_bind, Option.bind_some]
      cases items[position]? with
      | none => rfl
      | some value =>
        simp only [Option.bind_some, Option.map_map, ih value]
        rfl
  | case4 value token rest scalar list =>
    rw [resolveSegments]
    · rfl
    · exact scalar
    · exact list

theorem resolvePointer_eq (value : Json) (pointer : String) :
    resolvePointer value pointer = (readSegments pointer.toList).bind fun segments =>
      (walk arrayIndex value segments).map Prod.snd := by
  rw [resolvePointer]
  cases pointer.toList with
  | nil => rfl
  | cons c path =>
    by_cases slash : c = '/'
    · subst slash
      exact resolveSegments_eq_walk _ _
    · simp [readSegments, slash]

theorem walk_congr {read read' : List Char → Option ℕ}
    (same : ∀ token ∈ segments, read token = read' token) :
    walk read value segments = walk read' value segments := by
  fun_induction walk read value segments with
  | case1 => rw [walk]
  | case2 members token rest ih =>
    rw [walk]
    cases members.lookup (String.ofList token) with
    | none => rfl
    | some value =>
      simp only [Option.bind_eq_bind, Option.bind_some]
      rw [ih value fun token listed => same token (List.mem_cons_of_mem _ listed)]
  | case3 items token rest ih =>
    rw [walk, ← same token List.mem_cons_self]
    cases read token with
    | none => rfl
    | some position =>
      simp only [Option.bind_eq_bind, Option.bind_some]
      cases items[position]? with
      | none => rfl
      | some value =>
        simp only [Option.bind_some]
        rw [ih value fun token listed => same token (List.mem_cons_of_mem _ listed)]
  | case4 value token rest scalar list =>
    rw [walk]
    · exact scalar
    · exact list

theorem eq_nil_of_walk {read : List Char → Option ℕ}
    (here : (walk read value segments).map Prod.fst = some []) : segments = [] := by
  cases segments with
  | nil => rfl
  | cons token rest =>
    obtain ⟨⟨location, found⟩, walked, rfl⟩ := Option.map_eq_some_iff.mp here
    cases value <;> simp [walk, Option.bind_eq_some_iff] at walked

theorem walk_cons {read : List Char → Option ℕ} {step : Step} {token : List Char}
    {rest : List (List Char)}
    (walked : (walk read value (token :: rest)).map Prod.fst = some (step :: location)) :
    (∃ members next, value = .object members ∧ step = .member (String.ofList token) ∧
      members.lookup (String.ofList token) = some next ∧
      (walk read next rest).map Prod.fst = some location) ∨
    ∃ items position next, value = .array items ∧ step = .item position ∧
      read token = some position ∧ items[position]? = some next ∧
      (walk read next rest).map Prod.fst = some location := by
  obtain ⟨⟨_, found⟩, walked, equal⟩ := Option.map_eq_some_iff.mp walked
  cases equal
  cases value with
  | object members =>
    simp only [walk, Option.bind_eq_bind, Option.bind_eq_some_iff] at walked
    obtain ⟨next, chosen, walked⟩ := walked
    obtain ⟨⟨tail, found'⟩, inner, equal⟩ := Option.map_eq_some_iff.mp walked
    cases equal
    exact .inl ⟨members, next, rfl, rfl, chosen, by rw [inner]; rfl⟩
  | array items =>
    simp only [walk, Option.bind_eq_bind, Option.bind_eq_some_iff] at walked
    obtain ⟨position, position_eq, next, chosen, walked⟩ := walked
    obtain ⟨⟨tail, found'⟩, inner, equal⟩ := Option.map_eq_some_iff.mp walked
    cases equal
    exact .inr ⟨items, position, next, rfl, rfl, position_eq, chosen, by rw [inner]; rfl⟩
  | _ => simp [walk] at walked

theorem index_of_arrayIndex {token : List Char} {n : ℕ} (position : arrayIndex token = some n)
    (plain : (arrayIndex token).isSome → (Rfc6901.index token).isSome) :
    Rfc6901.index token = some n := by
  obtain ⟨m, index⟩ := Option.isSome_iff_exists.mp (plain (by rw [position]; rfl))
  rw [index, ← position, arrayIndex_of_index index]

theorem walk_injective : ∀ {value : Json} {segments segments' : List (List Char)},
    (∀ token ∈ segments, (arrayIndex token).isSome → (Rfc6901.index token).isSome) →
    (∀ token ∈ segments', (arrayIndex token).isSome → (Rfc6901.index token).isSome) →
    (walk arrayIndex value segments).map Prod.fst = some location →
    (walk arrayIndex value segments').map Prod.fst = some location → segments = segments' := by
  induction location with
  | nil =>
    intro value segments segments' _ _ first second
    rw [eq_nil_of_walk first, eq_nil_of_walk second]
  | cons step location ih =>
    intro value segments segments' plain plain' first second
    cases segments with
    | nil => simp [walk] at first
    | cons token rest =>
      cases segments' with
      | nil => simp [walk] at second
      | cons token' rest' =>
        have tail := fun t listed => plain t (List.mem_cons_of_mem token listed)
        have tail' := fun t listed => plain' t (List.mem_cons_of_mem token' listed)
        rcases walk_cons first with ⟨members, next, rfl, rfl, chosen, walked⟩ |
          ⟨items, position, next, rfl, rfl, position_eq, chosen, walked⟩
        · rcases walk_cons second with ⟨_, next', equal, named, chosen', walked'⟩ |
            ⟨_, _, _, equal, -⟩
          · cases equal
            have same : token = token' := String.ofList_injective (Step.member.inj named)
            subst same
            cases Option.some.inj (chosen.symm.trans chosen')
            rw [ih tail tail' walked walked']
          · cases equal
        · rcases walk_cons second with ⟨_, _, equal, -⟩ |
            ⟨_, _, next', equal, named, position_eq', chosen', walked'⟩
          · cases equal
          · cases equal
            cases named
            cases Option.some.inj (chosen.symm.trans chosen')
            rw [ih tail tail' walked walked', Rfc6901.index_injective
              (index_of_arrayIndex position_eq (plain token List.mem_cons_self))
              (index_of_arrayIndex position_eq' (plain' token' List.mem_cons_self))]

end walks

/-- A value under which a segment is followed: an array if it is no position but read as one. -/
def under (token : List Char) (value : Json) : Json :=
  match arrayIndex token with
  | some position =>
    if (Rfc6901.index token).isSome then .object [(String.ofList token, value)]
    else .array (List.replicate (position + 1) value)
  | none => .object [(String.ofList token, value)]

def accepting (segments : List (List Char)) : Json := segments.foldr under .null

section documents
variable {value : Json} {token : List Char} {segments : List (List Char)}

theorem resolveSegments_under :
    resolveSegments (under token value) (token :: segments) = resolveSegments value segments := by
  have object : resolveSegments (.object [(String.ofList token, value)]) (token :: segments) =
      resolveSegments value segments := by
    rw [resolveSegments, List.lookup_cons_self]
    rfl
  rw [under]
  cases position : arrayIndex token with
  | none => exact object
  | some n =>
    dsimp only
    split_ifs
    · exact object
    · rw [resolveSegments, position]
      simp

theorem resolveSegments_accepting (segments : List (List Char)) :
    resolveSegments (accepting segments) segments = some .null := by
  induction segments with
  | nil => rfl
  | cons token segments ih =>
    rw [accepting, List.foldr_cons, ← accepting, resolveSegments_under, ih]

theorem walk_accepting (bad : ∃ token ∈ segments,
      (arrayIndex token).isSome ∧ (Rfc6901.index token).isSome = false) :
    walk Rfc6901.index (accepting segments) segments = none := by
  induction segments with
  | nil => simp at bad
  | cons token segments ih =>
    rw [accepting, List.foldr_cons, ← accepting, under]
    by_cases here : (arrayIndex token).isSome ∧ (Rfc6901.index token).isSome = false
    · obtain ⟨n, position⟩ := Option.isSome_iff_exists.mp here.1
      have absent : Rfc6901.index token = none := by simpa using here.2
      rw [position, absent]
      change walk Rfc6901.index (.array _) (token :: segments) = none
      rw [walk, absent]
      rfl
    · have later : ∃ token ∈ segments,
          (arrayIndex token).isSome ∧ (Rfc6901.index token).isSome = false := by
        obtain ⟨t, listed, bad⟩ := bad
        rcases List.mem_cons.mp listed with rfl | listed
        · exact absurd bad here
        · exact ⟨t, listed, bad⟩
      have object : walk Rfc6901.index (.object [(String.ofList token, accepting segments)])
          (token :: segments) = none := by
        rw [walk, List.lookup_cons_self]
        simp [ih later]
      cases position : arrayIndex token with
      | none => exact object
      | some n =>
        dsimp only
        rw [if_pos]
        · exact object
        · rw [position] at here
          exact Option.isSome_iff_ne_none.mpr (by simpa using here)

end documents

section pointers
variable {pointer other : String} {path : List Char} {value : Json}

theorem mapM_eq_some {α β : Type*} {f : α → Option β} {g : α → β} : ∀ {xs : List α},
    (∀ x ∈ xs, f x = some (g x)) → xs.mapM f = some (xs.map g) := by
  intro xs
  induction xs with
  | nil => intro _; rfl
  | cons x xs ih =>
    intro all
    rw [List.mapM_cons, all x List.mem_cons_self,
      ih fun y listed => all y (List.mem_cons_of_mem x listed)]
    rfl

theorem mapM_eq_none {α β : Type*} {f : α → Option β} {x : α} : ∀ {xs : List α},
    x ∈ xs → f x = none → xs.mapM f = none := by
  intro xs
  induction xs with
  | nil => intro listed; cases listed
  | cons y xs ih =>
    intro listed none
    rw [List.mapM_cons]
    rcases List.mem_cons.mp listed with rfl | listed
    · rw [none]
      rfl
    · rw [ih listed none]
      cases f y <;> rfl

theorem tokens_eq (valid : ∀ raw ∈ path.splitOn '/', (Rfc6901.unescape raw).isSome) :
    Rfc6901.tokens ('/' :: path) = readSegments ('/' :: path) := by
  rw [Rfc6901.tokens, readSegments]
  refine mapM_eq_some fun raw listed => ?_
  obtain ⟨token, parsed⟩ := Option.isSome_iff_exists.mp (valid raw listed)
  rw [readSegment_eq parsed, parsed]

theorem valid_of_tokens {tokens : List (List Char)}
    (parsed : Rfc6901.tokens ('/' :: path) = some tokens) :
    ∀ raw ∈ path.splitOn '/', (Rfc6901.unescape raw).isSome := by
  intro raw listed
  by_contra stray
  rw [Rfc6901.tokens, mapM_eq_none listed (Option.not_isSome_iff_eq_none.mp stray)] at parsed
  cases parsed

theorem readSegments_of_tokens {text : List Char} {tokens : List (List Char)}
    (parsed : Rfc6901.tokens text = some tokens) : readSegments text = some tokens := by
  cases text with
  | nil => exact parsed
  | cons c path =>
    by_cases slash : c = '/'
    · subst slash
      rw [← tokens_eq (valid_of_tokens parsed), parsed]
    · simp [Rfc6901.tokens, slash] at parsed

theorem evaluate_of_plain (plain : Plain pointer) (value : Json) :
    resolvePointer value pointer = evaluate value pointer := by
  rw [resolvePointer_eq, evaluate]
  cases text : pointer.toList with
  | nil =>
    simp only [readSegments, Rfc6901.tokens, Option.bind_some, Option.bind_eq_bind, walk]
  | cons c path =>
    by_cases slash : c = '/'
    · subst slash
      have valid := plain path text
      rw [tokens_eq fun raw listed => by
        obtain ⟨token, parsed, -⟩ := valid raw listed
        rw [parsed]
        rfl]
      simp only [readSegments, Option.bind_some, Option.bind_eq_bind]
      rw [walk_congr]
      intro token listed
      obtain ⟨raw, member, rfl⟩ := List.mem_map.mp listed
      obtain ⟨token, parsed, positions⟩ := valid raw member
      rw [readSegment_eq parsed]
      cases index : Rfc6901.index token with
      | some n => exact arrayIndex_of_index index
      | none =>
        rw [index] at positions
        refine Option.not_isSome_iff_eq_none.mp fun some => ?_
        cases positions some
    · simp [readSegments, Rfc6901.tokens, slash]

theorem plain_of_evaluate
    (same : ∀ value, resolvePointer value pointer = evaluate value pointer) : Plain pointer := by
  intro path text
  -- The document in which the pointer is followed to its end.
  have accepted := same (accepting ((path.splitOn '/').map readSegment))
  rw [resolvePointer_eq, text, evaluate, text, readSegments, Option.bind_some,
    ← resolveSegments_eq_walk, resolveSegments_accepting] at accepted
  obtain ⟨tokens, parsed, walked⟩ := Option.bind_eq_some_iff.mp accepted.symm
  have valid := valid_of_tokens parsed
  rw [tokens_eq valid, readSegments] at parsed
  cases parsed
  intro raw listed
  obtain ⟨token, stands⟩ := Option.isSome_iff_exists.mp (valid raw listed)
  refine ⟨token, stands, fun position => ?_⟩
  by_contra bad
  rw [walk_accepting ⟨token, ?_, position, by simpa using bad⟩] at walked
  · cases walked
  · exact List.mem_map.mpr ⟨raw, listed, readSegment_eq stands⟩

theorem positions_of_plain {segments : List (List Char)} (plain : Plain pointer)
    (read : readSegments pointer.toList = some segments) :
    (∀ token ∈ segments, (arrayIndex token).isSome → (Rfc6901.index token).isSome) ∧
      pointer.toList = segments.flatMap fun token => '/' :: Rfc6901.escape token := by
  cases text : pointer.toList with
  | nil =>
    rw [text] at read
    cases read
    exact ⟨nofun, rfl⟩
  | cons c path =>
    rw [text] at read
    by_cases slash : c = '/'
    · subst slash
      cases read
      constructor
      · intro token listed
        obtain ⟨raw, member, rfl⟩ := List.mem_map.mp listed
        obtain ⟨token, parsed, positions⟩ := plain path text raw member
        rw [readSegment_eq parsed]
        exact positions
      · rw [← Rfc6901.flatMap_splitOn, List.flatMap_map]
        refine List.flatMap_congr fun raw listed => ?_
        obtain ⟨token, parsed, -⟩ := plain path text raw listed
        rw [readSegment_eq parsed,
          Rfc6901.escape_unescape (Rfc6901.slash_notMem_splitOn listed) parsed]
    · simp [readSegments, slash] at read

theorem plain_injective {location : List Step} (plain : Plain pointer) (plain' : Plain other)
    (first : locate value pointer = some location) (second : locate value other = some location) :
    other = pointer := by
  obtain ⟨segments, read, walked⟩ := Option.bind_eq_some_iff.mp first
  obtain ⟨segments', read', walked'⟩ := Option.bind_eq_some_iff.mp second
  obtain ⟨positions, text⟩ := positions_of_plain plain read
  obtain ⟨positions', text'⟩ := positions_of_plain plain' read'
  rw [← walk_injective positions positions' walked walked', ← text] at text'
  exact String.toList_injective text'

/-- A pointer is evaluated by the syntax in all documents exactly if its tildes belong to
escapes and its runs of digits are positions. -/
theorem evaluates_iff (pointer : String) :
    (∀ value, resolvePointer value pointer = evaluate value pointer) ↔ Plain pointer :=
  ⟨plain_of_evaluate, evaluate_of_plain⟩

end pointers

def reach : Json → List Step → Option Json
  | value, [] => some value
  | .object members, .member key :: rest => do reach (← members.lookup key) rest
  | .array items, .item position :: rest => do reach (← items[position]?) rest
  | _, _ :: _ => none

def Step.token : Step → List Char
  | .member key => key.toList
  | .item position => Rfc6901.position position

def pointerOf (location : List Step) : String :=
  String.ofList (location.flatMap fun step => '/' :: Rfc6901.escape step.token)

theorem walk_reach {read : List Char → Option ℕ} (positions : ∀ n, read (Rfc6901.position n) = some n)
    {value found : Json} {location : List Step} (reached : reach value location = some found) :
    walk read value (location.map Step.token) = some (location, found) := by
  fun_induction reach value location with
  | case1 value =>
    cases reached
    rfl
  | case2 members key rest ih =>
    obtain ⟨next, chosen, reached⟩ := Option.bind_eq_some_iff.mp reached
    rw [List.map_cons, walk, Step.token, String.ofList_toList, chosen]
    simp [ih next reached]
  | case3 items position rest ih =>
    obtain ⟨next, chosen, reached⟩ := Option.bind_eq_some_iff.mp reached
    rw [List.map_cons, walk, Step.token, positions, Option.bind_eq_bind, Option.bind_some, chosen]
    simp [ih next reached]
  | case4 => cases reached

theorem tokens_pointerOf (location : List Step) :
    Rfc6901.tokens (pointerOf location).toList = some (location.map Step.token) := by
  rw [pointerOf, String.toList_ofList]
  cases location with
  | nil => rfl
  | cons step rest =>
    have parts : (step :: rest).map (fun step => Rfc6901.escape step.token) ≠ [] :=
      List.cons_ne_nil _ _
    have text := Rfc6901.cons_intercalate '/' parts
    rw [List.flatMap_map] at text
    rw [← text, Rfc6901.tokens, List.splitOn_intercalate _ _ parts, List.mapM_map]
    · exact mapM_eq_some fun step _ => Rfc6901.unescape_escape _
    · intro part listed
      obtain ⟨step, -, rfl⟩ := List.mem_map.mp listed
      exact Rfc6901.slash_notMem_escape _

theorem resolvePointer_pointerOf {value found : Json} {location : List Step}
    (reached : reach value location = some found) :
    resolvePointer value (pointerOf location) = some found ∧
      evaluate value (pointerOf location) = some found := by
  have tokens := tokens_pointerOf location
  constructor
  · rw [resolvePointer_eq, readSegments_of_tokens tokens, Option.bind_some,
      walk_reach (fun n => arrayIndex_of_index (Rfc6901.index_position n)) reached]
    rfl
  · rw [evaluate, tokens, Option.bind_eq_bind, Option.bind_some,
      walk_reach Rfc6901.index_position reached]
    rfl

end Pointer
end CollectivePhaseControl
