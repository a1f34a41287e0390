import CollectivePhaseControl.JsonTexts
import Mathlib.Data.List.Sort
import Mathlib.Order.Lattice
import Mathlib.Data.List.Lex
import Mathlib.Data.List.Perm.Subperm
import Mathlib.Tactic.IntervalCases

/-! Values up to the order of their members. Members sorted by the UTF-16 form of their keys
give one representative, and writing it takes as many bytes as writing the value. -/
namespace JsonText
open CodePoints

section
variable {β : Type}

def keyLE (a b : Text × β) : Prop := utf16 a.1 ≤ utf16 b.1

instance keyLE_decidable : DecidableRel (@keyLE β) :=
  fun a b => inferInstanceAs (Decidable (utf16 a.1 ≤ utf16 b.1))

instance keyLE_total : Std.Total (@keyLE β) := ⟨fun a b => le_total (utf16 a.1) (utf16 b.1)⟩

instance keyLE_trans : IsTrans (Text × β) keyLE := ⟨fun _ _ _ => le_trans⟩

def sortMembers (members : List (Text × β)) : List (Text × β) := members.insertionSort keyLE

theorem sortMembers_perm (members : List (Text × β)) : (sortMembers members).Perm members :=
  List.perm_insertionSort _ _

theorem sortMembers_idem (members : List (Text × β)) :
    sortMembers (sortMembers members) = sortMembers members :=
  (List.pairwise_insertionSort keyLE members).insertionSort_eq

theorem sortMembers_map {γ : Type} (f : β → γ) (members : List (Text × β)) :
    (sortMembers members).map (fun m => (m.1, f m.2)) =
      sortMembers (members.map fun m => (m.1, f m.2)) :=
  List.map_insertionSort keyLE keyLE (fun m => (m.1, f m.2)) members fun _ _ _ _ => Iff.rfl

theorem sortMembers_eq {xs ys : List (Text × β)} (same : xs.Perm ys)
    (distinct : (xs.map Prod.fst).Nodup) (scalar : ∀ m ∈ xs, Scalar m.1) :
    sortMembers xs = sortMembers ys := by
  have sorts := (sortMembers_perm xs).trans (same.trans (sortMembers_perm ys).symm)
  refine sorts.eq_of_pairwise (fun a b first second le ge => ?_)
    (List.pairwise_insertionSort keyLE xs) (List.pairwise_insertionSort keyLE ys)
  have here := (sortMembers_perm xs).subset first
  have there := same.symm.subset ((sortMembers_perm ys).subset second)
  have keys := utf16_injective (scalar a here) (scalar b there) (le_antisymm le ge)
  exact List.inj_on_of_nodup_map distinct here there keys

end

mutual

def ordered : Value → Value
  | .array items => .array (orderedItems items)
  | .object members => .object (sortMembers (orderedMembers members))
  | v => v

def orderedItems : List Value → List Value
  | [] => []
  | v :: rest => ordered v :: orderedItems rest

def orderedMembers : List (Text × Value) → List (Text × Value)
  | [] => []
  | (key, v) :: rest => (key, ordered v) :: orderedMembers rest

end

def orderedMember (m : Text × Value) : Text × Value := (m.1, ordered m.2)

theorem ordered_array (items : List Value) :
    ordered (.array items) = .array (items.map ordered) := by
  have each : orderedItems items = items.map ordered := by
    induction items with
    | nil => rfl
    | cons v rest ih => rw [orderedItems, ih, List.map_cons]
  rw [ordered, each]

theorem ordered_object (members : List (Text × Value)) :
    ordered (.object members) = .object (sortMembers (members.map orderedMember)) := by
  have each : orderedMembers members = members.map orderedMember := by
    induction members with
    | nil => rfl
    | cons m rest ih => rw [orderedMembers, ih, List.map_cons, orderedMember]
  rw [ordered, each]

theorem mem_ordered_object {members : List (Text × Value)} {m : Text × Value} :
    m ∈ sortMembers (members.map orderedMember) ↔ ∃ n ∈ members, orderedMember n = m := by
  rw [(sortMembers_perm _).mem_iff, List.mem_map]

theorem keys_ordered_object (members : List (Text × Value)) :
    ((sortMembers (members.map orderedMember)).map Prod.fst).Perm (members.map Prod.fst) := by
  have keys : (members.map orderedMember).map Prod.fst = members.map Prod.fst := by
    rw [List.map_map]
    rfl
  exact keys ▸ (sortMembers_perm (members.map orderedMember)).map Prod.fst

theorem ordered_idem (v : Value) : ordered (ordered v) = ordered v := by
  induction v using Value.induct with
  | array items ih =>
    rw [ordered_array, ordered_array, List.map_map]
    exact congrArg Value.array (List.map_congr_left ih)
  | object members ih =>
    have again : (members.map orderedMember).map orderedMember = members.map orderedMember := by
      rw [List.map_map]
      refine List.map_congr_left fun m member => ?_
      exact congrArg (Prod.mk m.1) (ih m member)
    have commute := sortMembers_map ordered (members.map orderedMember)
    rw [ordered_object, ordered_object]
    refine congrArg Value.object ?_
    change sortMembers
      ((sortMembers (members.map orderedMember)).map fun m => (m.1, ordered m.2)) = _
    rw [commute, sortMembers_idem]
    exact congrArg sortMembers again
  | _ => rfl

theorem height_ordered (v : Value) : height (ordered v) = height v := by
  induction v using Value.induct with
  | array items ih =>
    refine eq_of_forall_ge_iff fun bound => ?_
    have parts : heights (items.map ordered) = heights items := by
      refine eq_of_forall_ge_iff fun bound => ?_
      rw [heights_le, heights_le, List.forall_mem_map]
      exact forall₂_congr fun v member => by rw [ih v member]
    rw [ordered_array, height, height, parts]
  | object members ih =>
    have parts : memberHeights (sortMembers (members.map orderedMember)) =
        memberHeights members := by
      refine eq_of_forall_ge_iff fun bound => ?_
      rw [memberHeights_le, memberHeights_le]
      simp only [mem_ordered_object, forall_exists_index, and_imp, forall_apply_eq_imp_iff₂]
      exact forall₂_congr fun m member => by rw [orderedMember, ih m member]
    rw [ordered_object, height, height, parts]
  | _ => rfl

theorem all_ordered {P : Value → Prop}
    (items : ∀ xs, P (.array (xs.map ordered)) ↔ P (.array xs))
    (members : ∀ ms ns : List (Text × Value), (ns.map Prod.fst).Perm (ms.map Prod.fst) →
      (P (.object ns) ↔ P (.object ms)))
    (v : Value) : All P (ordered v) ↔ All P v := by
  induction v using Value.induct with
  | array xs ih =>
    rw [ordered_array, all_array, all_array, List.forall_mem_map, items xs]
    exact and_congr_right fun _ => forall₂_congr ih
  | object ms ih =>
    rw [ordered_object, all_object, all_object, members ms _ (keys_ordered_object ms)]
    refine and_congr_right fun _ => ?_
    simp only [mem_ordered_object, forall_exists_index, and_imp, forall_apply_eq_imp_iff₂]
    exact forall₂_congr ih
  | _ => exact Iff.rfl

/-- The strings of the value itself, its keys included, consist of characters. -/
def ScalarTexts : Value → Prop
  | .str text => Scalar text
  | .object members => ∀ m ∈ members, Scalar m.1
  | _ => True

theorem scalar_escaped (c : ℕ) : Scalar (escaped c) ↔ c.isValidChar := by
  by_cases special : c < 0x20 ∨ c = 34 ∨ c = 92
  · have valid : c.isValidChar := .inl (by omega)
    simp only [valid, iff_true]
    obtain control | rfl | rfl := special
    · interval_cases c <;> exact scalar_ofChars _
    · exact scalar_ofChars _
    · exact scalar_ofChars _
  · rw [escaped_plain special, scalar_cons, and_iff_left scalar_nil]

theorem scalar_quote (text : Text) : Scalar (quote text) ↔ Scalar text := by
  have mark : '"'.toNat.isValidChar := '"'.valid
  have inside : Scalar (text.flatMap escaped) ↔ Scalar text := by
    induction text with
    | nil => simp
    | cons c text ih => rw [List.flatMap_cons, scalar_append, scalar_escaped, ih, scalar_cons]
  simp only [quote, List.cons_append, scalar_cons, scalar_append, inside, mark, scalar_nil,
    true_and, and_true]

theorem scalar_commas (texts : List Text) :
    Scalar (commas texts) ↔ ∀ text ∈ texts, Scalar text := by
  have mark : ','.toNat.isValidChar := ','.valid
  induction texts with
  | nil => simp [commas]
  | cons text rest ih =>
    cases rest with
    | nil => simp [commas]
    | cons other rest =>
      rw [commas_cons text (List.cons_ne_nil _ _), scalar_append, scalar_cons,
        List.forall_mem_cons]
      simp only [mark, true_and, ih]

theorem scalar_write (v : Value) : Scalar (write v) ↔ All ScalarTexts v := by
  have bracket : '['.toNat.isValidChar ∧ ']'.toNat.isValidChar := ⟨'['.valid, ']'.valid⟩
  have brace : '{'.toNat.isValidChar ∧ '}'.toNat.isValidChar := ⟨'{'.valid, '}'.valid⟩
  have colon : ':'.toNat.isValidChar := ':'.valid
  induction v using Value.induct with
  | null => exact iff_of_true (scalar_ofChars _) trivial
  | bool b => cases b <;> exact iff_of_true (scalar_ofChars _) trivial
  | int z => exact iff_of_true (scalar_ofChars _) trivial
  | float text => exact iff_of_true (scalar_ofChars _) trivial
  | str text => exact scalar_quote text
  | array items ih =>
    rw [write, List.cons_append, scalar_cons, scalar_append, scalar_commas, writeItems_eq,
      List.forall_mem_map, all_array, scalar_cons]
    simp only [bracket, scalar_nil, and_true, true_and]
    exact (forall₂_congr ih).trans (and_iff_right trivial).symm
  | object members ih =>
    rw [write, List.cons_append, scalar_cons, scalar_append, scalar_commas, writeMembers_eq,
      List.forall_mem_map, all_object, scalar_cons]
    simp only [brace, scalar_nil, and_true, true_and]
    have each : ∀ m ∈ members, Scalar (writeMember m) ↔ Scalar m.1 ∧ All ScalarTexts m.2 := by
      intro m member
      rw [writeMember, scalar_append, scalar_cons, scalar_quote]
      simp only [colon, true_and, ih m member]
    exact (forall₂_congr each).trans forall₂_and

theorem scalarTexts_ordered (v : Value) : All ScalarTexts (ordered v) ↔ All ScalarTexts v := by
  refine all_ordered (fun _ => Iff.rfl) (fun ms ns same => ?_) v
  have keys : ∀ members : List (Text × Value),
      ScalarTexts (.object members) ↔ ∀ key ∈ members.map Prod.fst, Scalar key := by
    intro members
    rw [List.forall_mem_map, ScalarTexts]
  rw [keys, keys]
  exact forall_congr' fun key => by rw [same.mem_iff]

theorem size_commas (texts : List Text) :
    size (commas texts) = (texts.map size).sum + (texts.length - 1) := by
  have comma : width ','.toNat = 1 := rfl
  induction texts with
  | nil => rfl
  | cons text rest ih =>
    cases rest with
    | nil => simp [commas]
    | cons other rest =>
      rw [commas_cons text (List.cons_ne_nil _ _), size_append, size_cons, comma, ih]
      simp only [List.map_cons, List.sum_cons, List.length_cons]
      omega

theorem size_commas_perm {xs ys : List Text} (same : xs.Perm ys) :
    size (commas xs) = size (commas ys) := by
  rw [size_commas, size_commas, same.length_eq, (same.map size).sum_nat]

theorem size_write_ordered (v : Value) : size (write (ordered v)) = size (write v) := by
  induction v using Value.induct with
  | array items ih =>
    have sizes : ((items.map ordered).map write).map size = (items.map write).map size := by
      simp only [List.map_map]
      exact List.map_congr_left ih
    rw [ordered_array, write, write, writeItems_eq, writeItems_eq]
    simp only [List.cons_append, size_cons, size_append, size_commas, sizes, List.length_map]
  | object members ih =>
    have sizes : ((members.map orderedMember).map writeMember).map size =
        (members.map writeMember).map size := by
      simp only [List.map_map]
      refine List.map_congr_left fun m member => ?_
      simp only [Function.comp_apply, writeMember, orderedMember, size_append, size_cons,
        ih m member]
    have sorts := size_commas_perm ((sortMembers_perm (members.map orderedMember)).map writeMember)
    rw [ordered_object, write, write, writeMembers_eq, writeMembers_eq]
    simp only [List.cons_append, size_cons, size_append, sorts]
    simp only [size_commas, sizes, List.length_map]
  | _ => rfl

mutual

/-- The same value, members in any order. Objects are compared as dictionaries are: as many
members, and for each member one of the same key with the same value. -/
def Alike : Value → Value → Prop
  | .null, .null => True
  | .bool a, .bool b => a = b
  | .int a, .int b => a = b
  | .float a, .float b => a = b
  | .str a, .str b => a = b
  | .array xs, .array ys => AlikeItems xs ys
  | .object ms, .object ns => ms.length = ns.length ∧ AlikeMembers ms ns
  | _, _ => False

def AlikeItems : List Value → List Value → Prop
  | [], [] => True
  | x :: xs, y :: ys => Alike x y ∧ AlikeItems xs ys
  | _, _ => False

def AlikeMembers : List (Text × Value) → List (Text × Value) → Prop
  | [], _ => True
  | (key, v) :: rest, ns => (∃ w, (key, w) ∈ ns ∧ Alike v w) ∧ AlikeMembers rest ns

end

def DistinctKeys : Value → Prop
  | .object members => (members.map Prod.fst).Nodup
  | _ => True

theorem alikeItems_iff {xs ys : List Value}
    (each : ∀ x ∈ xs, ∀ y ∈ ys, Alike x y ↔ ordered x = ordered y) :
    AlikeItems xs ys ↔ xs.map ordered = ys.map ordered := by
  induction xs generalizing ys with
  | nil => cases ys <;> simp [AlikeItems]
  | cons x xs ih =>
    cases ys with
    | nil => simp [AlikeItems]
    | cons y ys =>
      rw [AlikeItems, List.map_cons, List.map_cons, List.cons.injEq,
        each x List.mem_cons_self y List.mem_cons_self]
      refine and_congr_right fun _ => ih fun x' first y' second => ?_
      exact each x' (List.mem_cons_of_mem _ first) y' (List.mem_cons_of_mem _ second)

theorem alikeMembers_iff {ms ns : List (Text × Value)} :
    AlikeMembers ms ns ↔ ∀ m ∈ ms, ∃ w, (m.1, w) ∈ ns ∧ Alike m.2 w := by
  induction ms with
  | nil => simp [AlikeMembers]
  | cons m ms ih => rw [AlikeMembers, ih, List.forall_mem_cons]

theorem alike_object_iff {ms ns : List (Text × Value)} (distinct : (ms.map Prod.fst).Nodup)
    (each : ∀ m ∈ ms, ∀ n ∈ ns, Alike m.2 n.2 ↔ ordered m.2 = ordered n.2) :
    Alike (.object ms) (.object ns) ↔ (ms.map orderedMember).Perm (ns.map orderedMember) := by
  rw [Alike, alikeMembers_iff]
  constructor
  · rintro ⟨sizes, found⟩
    have once : (ms.map orderedMember).Nodup := by
      refine List.Nodup.of_map Prod.fst ?_
      rw [List.map_map]
      exact distinct
    have inside : ms.map orderedMember ⊆ ns.map orderedMember := by
      intro m member
      obtain ⟨m, listed, rfl⟩ := List.mem_map.mp member
      obtain ⟨w, listed', alike⟩ := found m listed
      refine List.mem_map.mpr ⟨(m.1, w), listed', ?_⟩
      exact congrArg (Prod.mk m.1) ((each m listed (m.1, w) listed').mp alike).symm
    refine (once.subperm inside).perm_of_length_le ?_
    rw [List.length_map, List.length_map, sizes]
  · intro perm
    refine ⟨by simpa using perm.length_eq, fun m listed => ?_⟩
    obtain ⟨n, listed', same⟩ := List.mem_map.mp (perm.subset (List.mem_map_of_mem listed))
    obtain ⟨keys, values⟩ := Prod.mk.inj same
    exact ⟨n.2, keys ▸ listed', (each m listed n listed').mpr values.symm⟩

theorem alike_iff {v w : Value} (distinct : All DistinctKeys v) (distinct' : All DistinctKeys w)
    (scalar : All ScalarTexts v) : Alike v w ↔ ordered v = ordered w := by
  induction v using Value.induct generalizing w with
  | array xs ih =>
    cases w with
    | array ys =>
      rw [all_array] at distinct distinct' scalar
      rw [Alike, ordered_array, ordered_array, Value.array.injEq]
      refine alikeItems_iff fun x first y second => ?_
      exact ih x first (distinct.2 x first) (distinct'.2 y second) (scalar.2 x first)
    | _ => simp [Alike, ordered]
  | object ms ih =>
    cases w with
    | object ns =>
      rw [all_object] at distinct distinct' scalar
      rw [ordered_object, ordered_object, Value.object.injEq, alike_object_iff distinct.1
        fun m first n second => ih m first (distinct.2 m first) (distinct'.2 n second)
          (scalar.2 m first)]
      constructor
      · intro perm
        refine sortMembers_eq perm ?_ fun m member => ?_
        · rw [List.map_map]
          exact distinct.1
        · obtain ⟨n, listed, rfl⟩ := List.mem_map.mp member
          exact scalar.1 n listed
      · intro same
        exact (sortMembers_perm _).symm.trans (same ▸ sortMembers_perm _)
    | _ => simp [Alike, ordered]
  | _ => cases w <;> simp [Alike, ordered]

end JsonText
