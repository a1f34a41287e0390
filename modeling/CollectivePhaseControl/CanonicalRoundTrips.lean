import CollectivePhaseControl.CanonicalScans

/-! What the canonical bytes of an accepted document are. They are its members in order, they
are accepted themselves, and they are missing where a string holds a lone surrogate. -/
namespace CollectivePhaseControl.Canonical
open CodePoints JsonText Fallible

def Within : Value → Prop
  | .float _ => False
  | .int z => z.natAbs ≤ maxInteger
  | .array items => items.length ≤ maxArrayItems
  | .object members => members.length ≤ maxObjectMembers
  | _ => True

theorem depthCheck_ok {depth : ℕ} : depthCheck depth = .ok ⟨⟩ ↔ depth ≤ maxDepth := by
  rw [depthCheck]
  split_ifs with deep
  · exact iff_of_false nofun (by omega)
  · exact iff_of_true rfl (by omega)

theorem validateItems_ok {depth : ℕ} {items : List Value} :
    validateItems depth items = .ok ⟨⟩ ↔ ∀ v ∈ items, validateTree depth v = .ok ⟨⟩ := by
  induction items with
  | nil => simp [validateItems, pure, Except.pure]
  | cons v rest ih =>
    simp only [validateItems, bind_ok, List.forall_mem_cons, ih]
    exact ⟨fun ⟨⟨⟩, first, others⟩ => ⟨first, others⟩, fun ⟨first, others⟩ => ⟨⟨⟩, first, others⟩⟩

theorem validateMembers_ok {depth : ℕ} {members : List (Text × Value)} :
    validateMembers depth members = .ok ⟨⟩ ↔ ∀ m ∈ members, validateTree depth m.2 = .ok ⟨⟩ := by
  induction members with
  | nil => simp [validateMembers, pure, Except.pure]
  | cons m rest ih =>
    simp only [validateMembers, bind_ok, List.forall_mem_cons, ih]
    exact ⟨fun ⟨⟨⟩, first, others⟩ => ⟨first, others⟩, fun ⟨first, others⟩ => ⟨⟨⟩, first, others⟩⟩

theorem bounded_ok {bound n : ℕ} {error : JsonError} {next : Except JsonError Unit} :
    (if bound < n then .error error else next) = .ok ⟨⟩ ↔ n ≤ bound ∧ next = .ok ⟨⟩ := by
  split_ifs with large
  · exact iff_of_false nofun fun fits => absurd fits.1 (by omega)
  · exact (and_iff_right (by omega)).symm

theorem validateTree_array {depth : ℕ} {items : List Value} :
    validateTree depth (.array items) = .ok ⟨⟩ ↔ depth ≤ maxDepth ∧ items.length ≤ maxArrayItems ∧
      ∀ v ∈ items, validateTree (depth + 1) v = .ok ⟨⟩ := by
  simp only [validateTree, bind_ok]
  rw [← validateItems_ok, ← bounded_ok, ← depthCheck_ok]
  exact ⟨fun ⟨⟨⟩, deep, rest⟩ => ⟨deep, rest⟩, fun ⟨deep, rest⟩ => ⟨⟨⟩, deep, rest⟩⟩

theorem validateTree_object {depth : ℕ} {members : List (Text × Value)} :
    validateTree depth (.object members) = .ok ⟨⟩ ↔ depth ≤ maxDepth ∧
      members.length ≤ maxObjectMembers ∧
      ∀ m ∈ members, validateTree (depth + 1) m.2 = .ok ⟨⟩ := by
  simp only [validateTree, bind_ok]
  rw [← validateMembers_ok, ← bounded_ok, ← depthCheck_ok]
  exact ⟨fun ⟨⟨⟩, deep, rest⟩ => ⟨deep, rest⟩, fun ⟨deep, rest⟩ => ⟨⟨⟩, deep, rest⟩⟩

theorem validateTree_int {depth : ℕ} {z : ℤ} :
    validateTree depth (.int z) = .ok ⟨⟩ ↔ depth ≤ maxDepth ∧ z.natAbs ≤ maxInteger := by
  simp only [validateTree, bind_ok]
  rw [← depthCheck_ok, ← and_true (z.natAbs ≤ maxInteger)]
  have passes : (pure () : Except JsonError Unit) = .ok ⟨⟩ ↔ True := iff_of_true rfl trivial
  rw [← passes, ← bounded_ok]
  exact ⟨fun ⟨⟨⟩, deep, rest⟩ => ⟨deep, rest⟩, fun ⟨deep, rest⟩ => ⟨⟨⟩, deep, rest⟩⟩

theorem validateTree_within {depth : ℕ} {v : Value} (valid : validateTree depth v = .ok ⟨⟩) :
    All Within v := by
  induction v using Value.induct generalizing depth with
  | int z => exact (validateTree_int.mp valid).2
  | float text =>
    simp only [validateTree, bind_ok] at valid
    obtain ⟨-, -, never⟩ := valid
    cases never
  | array items ih =>
    obtain ⟨-, short, each⟩ := validateTree_array.mp valid
    exact all_array.mpr ⟨short, fun v member => ih v member (each v member)⟩
  | object members ih =>
    obtain ⟨-, short, each⟩ := validateTree_object.mp valid
    exact all_object.mpr ⟨short, fun m member => ih m member (each m member)⟩
  | _ => trivial

theorem validateTree_of_within {depth : ℕ} {v : Value} (within : All Within v)
    (room : depth + height v ≤ maxDepth) : validateTree depth v = .ok ⟨⟩ := by
  induction v using Value.induct generalizing depth with
  | int z => exact validateTree_int.mpr ⟨by omega, within⟩
  | float text => exact absurd within.self id
  | array items ih =>
    obtain ⟨short, each⟩ := all_array.mp within
    rw [height] at room
    refine validateTree_array.mpr ⟨by omega, short, fun v member => ih v member (each v member) ?_⟩
    have lower := heights_le.mp (Nat.le_refl _) v member
    omega
  | object members ih =>
    obtain ⟨short, each⟩ := all_object.mp within
    rw [height] at room
    refine validateTree_object.mpr ⟨by omega, short,
      fun m member => ih m member (each m member) ?_⟩
    have lower := memberHeights_le.mp (Nat.le_refl _) m member
    omega
  | _ => exact depthCheck_ok.mpr (by omega)

theorem uniqueKeys_ok {pairs : List (Text × Value)} {seen : List Text} :
    uniqueKeys pairs seen = .ok ⟨⟩ ↔
      (pairs.map Prod.fst).Nodup ∧ ∀ m ∈ pairs, m.1 ∉ seen := by
  induction pairs generalizing seen with
  | nil => simp [uniqueKeys, pure, Except.pure]
  | cons m rest ih =>
    rw [uniqueKeys, List.map_cons, List.nodup_cons, List.forall_mem_cons]
    split_ifs with known
    · exact iff_of_false nofun fun all => all.2.1 known
    · rw [ih]
      simp only [List.mem_cons, not_or, List.mem_map, not_exists, not_and, known, not_false_eq_true,
        true_and]
      constructor
      · rintro ⟨once, apart⟩
        exact ⟨⟨fun n listed => (apart n listed).1, once⟩, fun n listed => (apart n listed).2⟩
      · rintro ⟨⟨fresh, once⟩, apart⟩
        exact ⟨once, fun n listed => ⟨fresh n listed, apart n listed⟩⟩

theorem uniqueObject_ok {pairs : List (Text × Value)} :
    uniqueObject pairs = .ok ⟨⟩ ↔
      pairs.length ≤ maxObjectMembers ∧ (pairs.map Prod.fst).Nodup := by
  rw [uniqueObject, bounded_ok, uniqueKeys_ok]
  simp

structure Accepted (v : Value) : Prop where
  within : All Within v
  distinct : All DistinctKeys v
  shallow : height v ≤ maxDepth
  object : ∃ members, v = .object members

theorem Accepted.ordered {v : Value} (accepted : Accepted v) : Accepted (ordered v) where
  within := by
    refine (all_ordered (fun xs => ?_) (fun ms ns same => ?_) v).mpr accepted.within
    · rw [Within, Within, List.length_map]
    · have length := same.length_eq
      rw [List.length_map, List.length_map] at length
      rw [Within, Within, length]
  distinct := by
    refine (all_ordered (fun _ => Iff.rfl) (fun ms ns same => ?_) v).mpr accepted.distinct
    exact same.nodup_iff
  shallow := (height_ordered v).le.trans accepted.shallow
  object := by
    obtain ⟨members, rfl⟩ := accepted.object
    exact ⟨_, ordered_object members⟩

theorem topLevelObject_ok {v w : Value} :
    topLevelObject v = .ok w ↔ v = w ∧ ∃ members, v = .object members := by
  cases v <;> simp [topLevelObject]

theorem decode_ok {data : ByteArray} {cs : List Char} :
    decode data = .ok cs ↔ data = (encoded cs).toByteArray := by
  constructor
  · intro run
    rw [decode] at run
    split at run
    · rename_i text found
      cases run
      have valid : data.utf8Decode?.isSome := by rw [found]; rfl
      have bytes := @ByteArray.utf8Encode_get_utf8Decode? data valid
      simp only [found, Option.get_some] at bytes
      exact bytes.symm
    · cases run
  · rintro rfl
    have text : (encoded cs).toByteArray.utf8Decode? = some cs.toArray :=
      List.utf8Decode?_utf8Encode
    rw [decode, text]

theorem ofOutcome_ok {α : Type} {x : Outcome JsonError α} {a : α} :
    ofOutcome x = .ok a ↔ x = .ok a := by
  rcases x with (_ | _ | _) | _ <;> simp [ofOutcome]

theorem loadsBounded_ok {limit : ℕ} {data : ByteArray} {v : Value} :
    loadsBounded limit data = .ok v ↔ data.size ≤ limit ∧ scanNesting data maxDepth = .ok ⟨⟩ ∧
      ∃ cs, data = (encoded cs).toByteArray ∧ document uniqueObject cs = .ok v ∧
        validateTree 0 v = .ok ⟨⟩ ∧ ∃ members, v = .object members := by
  rw [loadsBounded]
  split_ifs with large
  · exact iff_of_false nofun fun all => absurd all.1 (by omega)
  · simp only [bind_ok, decode_ok, ofOutcome_ok, topLevelObject_ok]
    constructor
    · rintro ⟨⟨⟩, scanned, cs, bytes, w, read, ⟨⟩, valid, rfl, object⟩
      exact ⟨by omega, scanned, cs, bytes, read, valid, object⟩
    · rintro ⟨-, scanned, cs, bytes, read, valid, object⟩
      exact ⟨⟨⟩, scanned, cs, bytes, v, read, ⟨⟩, valid, rfl, object⟩

theorem size_encoded (cs : List Char) : (encoded cs).toByteArray.size = size (ofChars cs) := by
  rw [List.size_toByteArray, length_encoded]

theorem nested_document {height : ℕ} {before cs after : List Char} (blank : Blank before)
    (nested : Nested height cs) (blank' : Blank after) : Nested height (before ++ cs ++ after) :=
  (((nested_blank blank).append nested).append (nested_blank blank')).congr rfl (by simp)

theorem loadsBounded_spelled {limit : ℕ} {data : ByteArray} {v : Value}
    (run : loadsBounded limit data = .ok v) : data.size ≤ limit ∧ size (write v) ≤ data.size ∧
      All Bounded v ∧ Accepted v := by
  obtain ⟨small, scanned, cs, rfl, read, valid, object⟩ := loadsBounded_ok.mp run
  obtain ⟨before, text, after, blank, blank', same, nested⟩ := document_spelled closed_nested read
  obtain ⟨before', text', after', -, -, same', longer⟩ := document_spelled closed_size read
  obtain ⟨-, -, -, -, -, -, bounded⟩ := document_spelled closed_bounded read
  obtain ⟨-, -, -, -, -, -, passed⟩ := document_spelled closed_passed read
  refine ⟨small, ?_, bounded, validateTree_within valid, passed.mono ?_, ?_, object⟩
  · rw [size_encoded, same', ofChars_append, ofChars_append, size_append, size_append]
    omega
  · intro w unique
    cases w with
    | object members => exact (uniqueObject_ok.mp unique).2
    | _ => trivial
  · rw [same, scanNesting_nested (nested_document blank nested blank')] at scanned
    exact scanned

theorem readable_of_within {v : Value} (within : All Within v) (distinct : All DistinctKeys v)
    (scalar : All ScalarTexts v) : All (Readable uniqueObject) v := by
  refine (within.and (distinct.and scalar)).mono fun w ⟨bounds, names, texts⟩ => ?_
  cases w with
  | int z =>
    have few : (Nat.toDigits 10 z.natAbs).length ≤ 16 :=
      (Nat.length_toDigits_le_iff (by decide) (by decide)).mpr
        (Nat.lt_of_le_of_lt bounds (by decide))
    exact few.trans (by decide)
  | float text => exact bounds
  | str text => exact texts
  | object members => exact ⟨texts, uniqueObject_ok.mpr ⟨bounds, names⟩⟩
  | _ => trivial

theorem loadsBounded_written {limit : ℕ} {v : Value} (accepted : Accepted v)
    (scalar : All ScalarTexts v) (small : size (write v) ≤ limit) :
    loadsBounded limit (encoded (chars (write v))).toByteArray = .ok v := by
  have read := document_written (readable_of_within accepted.within accepted.distinct scalar)
  have text := ofChars_chars ((scalar_write v).mpr scalar)
  obtain ⟨before, cs, after, blank, blank', same, nested⟩ := document_spelled closed_nested read
  refine loadsBounded_ok.mpr ⟨?_, ?_, chars (write v), rfl, read, ?_, accepted.object⟩
  · rw [size_encoded, text]
    exact small
  · rw [same, scanNesting_nested (nested_document blank nested blank')]
    exact accepted.shallow
  · exact validateTree_of_within accepted.within (by rw [Nat.zero_add]; exact accepted.shallow)

theorem v3Value_within {v : Value} (within : All Within v) : v3Value v = .ok v := by
  induction v using Value.induct with
  | int z =>
    have bound : z.natAbs ≤ maxInteger := within
    rw [v3Value, if_neg (by omega)]
  | float text => exact absurd within.self id
  | array items ih =>
    obtain ⟨-, each⟩ := all_array.mp within
    have all : ∀ xs, (∀ v ∈ xs, v3Value v = .ok v) → v3Items xs = .ok xs := by
      intro xs checked
      induction xs with
      | nil => rfl
      | cons v rest ih =>
        rw [List.forall_mem_cons] at checked
        rw [v3Items, checked.1, ok_bind, ih checked.2]
        rfl
    rw [v3Value, all items fun v member => ih v member (each v member)]
    rfl
  | object members ih =>
    obtain ⟨-, each⟩ := all_object.mp within
    have all : ∀ ms, (∀ m ∈ ms, v3Value m.2 = .ok m.2) → v3Members ms = .ok ms := by
      intro ms checked
      induction ms with
      | nil => rfl
      | cons m rest ih =>
        rw [List.forall_mem_cons] at checked
        rw [v3Members, checked.1, ok_bind, ih checked.2]
        rfl
    rw [v3Value, all members fun m member => ih m member (each m member)]
    rfl
  | _ => rfl

theorem encode_within {v : Value} (within : All Within v) :
    encode v = .ok (write (ordered v)) := by
  induction v using Value.induct with
  | null => rfl
  | bool b => cases b <;> rfl
  | int z => rfl
  | float text => exact absurd within.self id
  | str text => rfl
  | array items ih =>
    obtain ⟨-, each⟩ := all_array.mp within
    have all : ∀ xs, (∀ v ∈ xs, encode v = .ok (write (ordered v))) →
        encodeItems xs = .ok ((xs.map ordered).map write) := by
      intro xs written
      induction xs with
      | nil => rfl
      | cons v rest ih =>
        rw [List.forall_mem_cons] at written
        rw [encodeItems, written.1, ok_bind, ih written.2]
        rfl
    rw [encode, all items fun v member => ih v member (each v member), ordered_array, write,
      writeItems_eq]
    rfl
  | object members ih =>
    obtain ⟨-, each⟩ := all_object.mp within
    have all : ∀ ms, (∀ m ∈ ms, encode m.2 = .ok (write (ordered m.2))) →
        encodeMembers ms = .ok ((ms.map orderedMember).map fun m => (m.1, write m.2)) := by
      intro ms written
      induction ms with
      | nil => rfl
      | cons m rest ih =>
        rw [List.forall_mem_cons] at written
        rw [encodeMembers, written.1, ok_bind, ih written.2]
        rfl
    have sorts := sortMembers_map write (members.map orderedMember)
    rw [encode, all members fun m member => ih m member (each m member), ordered_object, write,
      writeMembers_eq, ok_bind, ← sorts, List.map_map]
    rfl

theorem encodeUtf8_ok {text : Text} {bytes : ByteArray} :
    encodeUtf8 text = .ok bytes ↔ Scalar text ∧ (encoded (chars text)).toByteArray = bytes := by
  rw [← utf8_eq_some, encodeUtf8]
  cases utf8 text <;> simp

theorem canonicalBytes_ok {v : Value} (within : All Within v) {bytes : ByteArray} :
    canonicalBytes v = .ok bytes ↔ All ScalarTexts v ∧
      (encoded (chars (write (ordered v)))).toByteArray = bytes := by
  rw [canonicalBytes, v3Value_within within, ok_bind, encode_within within, ok_bind, encodeUtf8_ok,
    scalar_write, scalarTexts_ordered]

/-- No string of the value itself, no key included, holds a surrogate. -/
def NoSurrogates : Value → Prop
  | .str text => ∀ c ∈ text, surrogate c = false
  | .object members => ∀ m ∈ members, ∀ c ∈ m.1, surrogate c = false
  | _ => True

/-- No string anywhere in the value, and no key, holds a surrogate. -/
def SurrogateFree (v : Value) : Prop := All NoSurrogates v

theorem scalarTexts_iff {v : Value} (bounded : All Bounded v) :
    All ScalarTexts v ↔ SurrogateFree v := by
  refine all_congr (fun w bounds => ?_) bounded
  cases w with
  | str text => exact scalar_iff bounds
  | object members => exact forall₂_congr fun m member => scalar_iff (bounds m member)
  | _ => exact Iff.rfl

/-- What canonical bytes are to do for the value `v` of the document `data`. -/
structure RoundTrips (limit : ℕ) (data : ByteArray) (v : Value) : Prop where
  /-- They exist, are no longer than the document and are accepted themselves, with the same
  value and the same canonical bytes. -/
  roundTrip : ∃ bytes again, canonicalBytes v = .ok bytes ∧ bytes.size ≤ data.size ∧
    loadsBounded limit bytes = .ok again ∧ Alike again v ∧ canonicalBytes again = .ok bytes
  /-- No other value has them. -/
  injective : ∀ limit' data' w bytes, loadsBounded limit' data' = .ok w →
    canonicalBytes v = .ok bytes → canonicalBytes w = .ok bytes → Alike v w
  /-- The value with its members in any other order has them. -/
  orderFree : ∀ limit' data' w, loadsBounded limit' data' = .ok w → Alike v w →
    ∃ bytes, canonicalBytes v = .ok bytes ∧ canonicalBytes w = .ok bytes

theorem Accepted.alike_iff {v w : Value} (first : Accepted v) (second : Accepted w)
    (scalar : All ScalarTexts v) : Alike v w ↔ JsonText.ordered v = JsonText.ordered w :=
  JsonText.alike_iff first.distinct second.distinct scalar

theorem write_injective {v w : Value} (first : Accepted v) (second : Accepted w)
    (scalar : All ScalarTexts v) (scalar' : All ScalarTexts w)
    (same : (encoded (chars (write v))).toByteArray = (encoded (chars (write w))).toByteArray) :
    v = w := by
  have read := document_written (readable_of_within first.within first.distinct scalar)
  have read' := document_written (readable_of_within second.within second.distinct scalar')
  have texts := (decode_ok.mpr rfl).symm.trans (decode_ok.mpr same)
  rw [Except.ok.injEq] at texts
  rw [texts, read', Except.ok.injEq] at read
  exact read.symm

theorem roundTrip_of_scalar {limit : ℕ} {data : ByteArray} {v : Value}
    (run : loadsBounded limit data = .ok v) (scalar : All ScalarTexts v) :
    ∃ bytes again, canonicalBytes v = .ok bytes ∧ bytes.size ≤ data.size ∧
      loadsBounded limit bytes = .ok again ∧ Alike again v ∧ canonicalBytes again = .ok bytes := by
  obtain ⟨small, longer, -, accepted⟩ := loadsBounded_spelled run
  have scalar' := (scalarTexts_ordered v).mpr scalar
  have text := ofChars_chars ((scalar_write _).mpr scalar')
  have size' := size_write_ordered v
  refine ⟨_, ordered v, (canonicalBytes_ok accepted.within).mpr ⟨scalar, rfl⟩, ?_,
    loadsBounded_written accepted.ordered scalar' (by omega), ?_, ?_⟩
  · rw [size_encoded, text, size']
    exact longer
  · exact (accepted.ordered.alike_iff accepted scalar').mpr (ordered_idem v)
  · exact (canonicalBytes_ok accepted.ordered.within).mpr ⟨scalar', by rw [ordered_idem]⟩

/-- Canonical bytes do what they are to do exactly for the documents without a lone surrogate in
a string or a key. -/
theorem roundTrips_iff (limit : ℕ) (data : ByteArray) (v : Value)
    (run : loadsBounded limit data = .ok v) : RoundTrips limit data v ↔ SurrogateFree v := by
  obtain ⟨-, -, bounded, accepted⟩ := loadsBounded_spelled run
  rw [← scalarTexts_iff bounded]
  constructor
  · intro trips
    obtain ⟨bytes, again, encoded, -⟩ := trips.roundTrip
    exact ((canonicalBytes_ok accepted.within).mp encoded).1
  · intro scalar
    have scalar' := (scalarTexts_ordered v).mpr scalar
    refine ⟨roundTrip_of_scalar run scalar, fun limit' data' w bytes run' first second => ?_,
      fun limit' data' w run' alike => ?_⟩
    · obtain ⟨-, -, -, accepted'⟩ := loadsBounded_spelled run'
      obtain ⟨-, same⟩ := (canonicalBytes_ok accepted.within).mp first
      obtain ⟨other, same'⟩ := (canonicalBytes_ok accepted'.within).mp second
      have sorted := write_injective accepted.ordered accepted'.ordered scalar'
        ((scalarTexts_ordered w).mpr other) (same.trans same'.symm)
      exact (accepted.alike_iff accepted' scalar).mpr sorted
    · obtain ⟨-, -, -, accepted'⟩ := loadsBounded_spelled run'
      have sorted := (accepted.alike_iff accepted' scalar).mp alike
      have other := (scalarTexts_ordered w).mp (sorted ▸ scalar')
      exact ⟨_, (canonicalBytes_ok accepted.within).mpr ⟨scalar, rfl⟩,
        (canonicalBytes_ok accepted'.within).mpr ⟨other, by rw [sorted]⟩⟩

namespace Sample

theorem loadsBounded_chars {limit : ℕ} {cs : List Char} {v : Value}
    (small : size (ofChars cs) ≤ limit)
    (scanned : scanText maxDepth (.outside 0) cs = .ok (.outside 0))
    (read : document uniqueObject cs = .ok v) (valid : validateTree 0 v = .ok ⟨⟩)
    (object : ∃ members, v = .object members) :
    loadsBounded limit (encoded cs).toByteArray = .ok v := by
  refine loadsBounded_ok.mpr ⟨(size_encoded cs).le.trans small, ?_, cs, rfl, read, valid, object⟩
  rw [scanNesting, List.toList_data_toByteArray]
  change scanText maxDepth (.outside 0) cs >>= _ = _
  rw [scanned]
  rfl

def document : List Char := ['{', '"', 'b', '"', ':', ' ', '[', '1', ']', ',', '"', 'a', '"', ':',
  '"', '\\', 'u', '0', '0', 'e', '9', '"', '}']

def value : Value :=
  .object [(ofChars ['b'], .array [.int 1]), (ofChars ['a'], .str [0xE9])]

theorem loads : loadsBounded maxJsonBytes (encoded document).toByteArray = .ok value :=
  loadsBounded_chars (by decide) rfl rfl rfl ⟨_, rfl⟩

def loneDocument : List Char :=
  ['{', '"', 'a', '"', ':', '"', '\\', 'u', 'd', '8', '0', '0', '"', '}']

def loneValue : Value := .object [(ofChars ['a'], .str [0xD800])]

theorem loads_lone : loadsBounded maxJsonBytes (encoded loneDocument).toByteArray = .ok loneValue :=
  loadsBounded_chars (by decide) rfl rfl rfl ⟨_, rfl⟩

end Sample

theorem roundTrips_iff_sample :
    RoundTrips maxJsonBytes (encoded Sample.document).toByteArray Sample.value ↔
      SurrogateFree Sample.value :=
  roundTrips_iff maxJsonBytes (encoded Sample.document).toByteArray Sample.value Sample.loads

/-- A document with a lone surrogate is accepted, and its value has no canonical bytes. -/
theorem surrogate_no_roundTrip :
    loadsBounded maxJsonBytes (encoded Sample.loneDocument).toByteArray = .ok Sample.loneValue ∧
      canonicalBytes Sample.loneValue = .error .unicodeEncode ∧
      ¬ RoundTrips maxJsonBytes (encoded Sample.loneDocument).toByteArray Sample.loneValue := by
  have fails : canonicalBytes Sample.loneValue = .error .unicodeEncode := rfl
  refine ⟨Sample.loads_lone, fails, fun trips => ?_⟩
  obtain ⟨bytes, again, encoded, -⟩ := trips.roundTrip
  rw [fails] at encoded
  cases encoded

end CollectivePhaseControl.Canonical
