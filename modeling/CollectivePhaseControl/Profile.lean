import CollectivePhaseControl.GrowthLedger
import CollectivePhaseControl.RunnerReceipts

/-! The result of one dimension of an operational profile. Its blockers are identifiers, so
building a result from a text that is none, or from too many, raises. -/
namespace CollectivePhaseControl

inductive ProfileStatus where
  | satisfied | violated | unknown | unknownDueToBudget
deriving DecidableEq, Repr

structure DimensionResult where
  status : ProfileStatus
  blockers : List Identifier
  evidenceDigests : List Digest
  detail : String
deriving DecidableEq

/-- The field bounds of `DimensionResult`. Digests are hex by construction. -/
def DimensionResult.accepted (result : DimensionResult) : Prop :=
  (∀ blocker ∈ result.blockers, isIdentifier blocker = true) ∧ result.blockers.length ≤ 10000 ∧
    result.evidenceDigests.length ≤ 10000 ∧ result.detail.length ≤ 4096

instance decidableDimensionResultAccepted (result : DimensionResult) :
    Decidable result.accepted := by
  unfold DimensionResult.accepted
  infer_instance

def validated {α : Type} (accepted : α → Prop) [DecidablePred accepted] (value : α) : Checked α :=
  if accepted value then .ok value else .error (.crash .validationError)

@[simp] theorem validated_ok {α : Type} {accepted : α → Prop} [DecidablePred accepted]
    {value result : α} : validated accepted value = .ok result ↔ accepted value ∧ value = result := by
  unfold validated
  split <;> simp [*]

/-- `_result`. -/
def dimensionResult (status : ProfileStatus) (blockers evidence : List String)
    (detail : String) : Checked DimensionResult :=
  validated DimensionResult.accepted ⟨status, sortedSet blockers, sortedSet evidence, detail⟩

end CollectivePhaseControl
