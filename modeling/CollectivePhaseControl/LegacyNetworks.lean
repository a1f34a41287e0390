import CollectivePhaseControl.RunnerModels

/-! The networks of the earlier formats, which are JSON objects. A member that is absent
reads as null, and a list of identifiers is read leniently. -/
namespace CollectivePhaseControl

abbrev JsonObject := List (String × Json)

/-- `edge.get(name)`. -/
def JsonObject.get (edge : JsonObject) (name : String) : Json := (edge.lookup name).getD .null

def Json.string? : Json → Option String
  | .str value => some value
  | _ => none

/-- `id_set`: the strings of a list, and nothing of any other value. -/
def idSet : Json → Finset Identifier
  | .array items => (items.filterMap Json.string?).toFinset
  | _ => ∅

theorem insertionSort_perm {xs ys : List Identifier} (same : xs.Perm ys) :
    xs.insertionSort (· ≤ ·) = ys.insertionSort (· ≤ ·) :=
  ((List.perm_insertionSort _ _).trans (same.trans (List.perm_insertionSort _ _).symm)).eq_of_pairwise'
    (List.pairwise_insertionSort _ _) (List.pairwise_insertionSort _ _)

def inOrder (s : Finset Identifier) : List Identifier :=
  Quotient.liftOn s.val (fun xs => xs.insertionSort (· ≤ ·)) fun _ _ => insertionSort_perm

/-- `values is True`. -/
def Json.isTrue : Json → Bool
  | .bool value => value
  | _ => false

abbrev LegacyNetwork := Dict JsonObject

end CollectivePhaseControl
