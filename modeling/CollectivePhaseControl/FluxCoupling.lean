import CollectivePhaseControl.StructuralAnalysis

/-! Blocked and fully coupled fluxes of a network in a steady state. A solver says which
transformations can carry flux; of the others the null space of the stoichiometric matrix is
computed by elimination, and those whose rows are proportional in it are joined. -/
namespace CollectivePhaseControl
namespace Flux

def netFlow (t : TransformationAttestation) (coordinate : Identifier) : ℚ :=
  F (t.spec.outputs.getD coordinate (.ofNat 0)) - F (t.spec.inputs.getD coordinate (.ofNat 0))

def coordinates (network : Network) : List Identifier :=
  (network.values.foldr (fun (t : TransformationAttestation) all =>
    t.spec.inputs.keys.toFinset ∪ t.spec.outputs.keys.toFinset ∪ all) ∅).sort (· ≤ ·)

def columns (network : Network) : List (Identifier × TransformationAttestation) := network.toList

abbrev Rows (m n : ℕ) := Fin m → Fin n → ℚ

def stoichiometricMatrix (network : Network) :
    Rows (coordinates network).length (columns network).length :=
  fun row column => netFlow (columns network)[column].2 (coordinates network)[row]

instance lawfulColumns (n : ℕ) : LawfulBEq (Fin n) := inferInstance

section nullspace
variable {m n : ℕ}

structure Reduction (m n : ℕ) where
  rows : Rows m n
  pivotColumns : List (Fin n)

/-- Exchange two rows, divide the pivot row by its entry in the column, and take its multiples
from the other rows. -/
def pivotAt (rows : Rows m n) (pivot selected : Fin m) (column : Fin n) : Rows m n :=
  let swapped := fun index => rows (Equiv.swap pivot selected index)
  let normalized := Function.update swapped pivot
    fun j => swapped pivot j / swapped pivot column
  fun index =>
    if index = pivot ∨ normalized index column = 0 then normalized index
    else fun j => normalized index j - normalized index column * normalized pivot j

def reduce : List (Fin n) → Reduction m n → Reduction m n
  | [], r => r
  | column :: rest, r =>
    match (List.finRange m).find? fun index : Fin m =>
        decide (r.pivotColumns.length ≤ (index : ℕ)) && decide (r.rows index column ≠ 0) with
    | none => reduce rest r
    | some selected =>
      if room : r.pivotColumns.length < m then
        let reduced : Reduction m n :=
          ⟨pivotAt r.rows ⟨r.pivotColumns.length, room⟩ selected column,
            r.pivotColumns ++ [column]⟩
        if reduced.pivotColumns.length = m then reduced else reduce rest reduced
      else r

def rowAt (rows : Rows m n) (index : ℕ) : Fin n → ℚ :=
  if inside : index < m then rows ⟨index, inside⟩ else 0

/-- The vector of a free column: one there, and at each pivot what its row asks for. -/
def freeVector (r : Reduction m n) (free : Fin n) : Fin n → ℚ :=
  r.pivotColumns.zipIdx.foldl
    (fun vector pivot => Function.update vector pivot.1 (-(rowAt r.rows pivot.2 free)))
    (Function.update 0 free 1)

/-- `_nullspace`. -/
def nullspace (rows : Rows m n) : List (Fin n → ℚ) :=
  let r := reduce (List.finRange n) ⟨rows, []⟩
  ((List.finRange n).filter (· ∉ r.pivotColumns)).map (freeVector r)

end nullspace

def proportionalFrom : Option ℚ → List (ℚ × ℚ) → Bool
  | ratio, [] => ratio.isSome
  | ratio, (left, right) :: rest =>
    if left = 0 ∧ right = 0 then proportionalFrom ratio rest
    else if left = 0 ∨ right = 0 then false
    else if left / right ≤ 0 then false
    else match ratio with
      | none => proportionalFrom (some (left / right)) rest
      | some ratio =>
        if left / right ≠ ratio then false else proportionalFrom (some ratio) rest

def proportional (left right : List ℚ) : Bool := proportionalFrom none (left.zip right)

/-- The parents of the elements; none is above its element. -/
structure Parents (n : ℕ) where
  parent : Fin n → Fin n
  below : ∀ index, parent index ≤ index

namespace Parents
variable {n : ℕ}

/-- `parent = list(range(…))`. -/
def range (n : ℕ) : Parents n := ⟨id, fun _ => le_refl _⟩

def set (p : Parents n) (index value : Fin n) (less : value ≤ index) : Parents n where
  parent := Function.update p.parent index value
  below other := by
    by_cases same : other = index
    · subst same
      simpa using less
    · simpa [same] using p.below other

/-- The root of an element, with every second parent on the way moved up. -/
def find (p : Parents n) (index : Fin n) : Parents n × Fin n :=
  if p.parent index = index then (p, index)
  else
    let grandparent := p.parent (p.parent index)
    find (p.set index grandparent ((p.below _).trans (p.below _))) grandparent
termination_by index
decreasing_by
  have strict : p.parent index < index := lt_of_le_of_ne (p.below index) ‹_›
  exact lt_of_le_of_lt (p.below _) strict

def union (p : Parents n) (left right : Fin n) : Parents n :=
  let (p, leftRoot) := p.find left
  let (p, rightRoot) := p.find right
  if leftRoot ≠ rightRoot then
    p.set (max leftRoot rightRoot) (min leftRoot rightRoot) min_le_max
  else p

end Parents

/-- A solver of linear queries: given a matrix and a column, a flux that is nowhere negative,
sums to one, is in the null space and is positive at the column, if it finds one. -/
structure Solver where
  name : String
  version : String
  check : {m n : ℕ} → Rows m n → Fin n → Option (Fin n → ℚ)

structure FluxCouplingAnalysis where
  status : String
  blocked : List Identifier
  fullyCoupledClasses : List (List Identifier)
  exactModelsRechecked : Bool
  solverName : String
  solverVersion : String

section coupling
variable {m n : ℕ}

def recheckFailed : Fault := .crash .valueError

def recheck (rows : Rows m n) (index : Fin n) (fluxes : Fin n → ℚ) : Analysis Unit := do
  if (∃ j, fluxes j < 0) ∨ ∑ j, fluxes j ≠ 1 then throw recheckFailed
  else if ∃ i, ∑ j, rows i j * fluxes j ≠ 0 then throw recheckFailed
  else if fluxes index ≤ 0 then throw recheckFailed
  else pure ()

def checkFlux (solver : Solver) (rows : Rows m n) (blocked : List (Fin n)) (index : Fin n) :
    Analysis (List (Fin n)) := do
  spend 1
  match solver.check rows index with
  | none => pure (blocked ++ [index])
  | some fluxes => do
    recheck rows index fluxes
    pure blocked

def couple (rowsByFlux : Fin n → List ℚ) (p : Parents n) (pair : Fin n × Fin n) :
    Analysis (Parents n) := do
  spend 1
  pure (if proportional (rowsByFlux pair.1) (rowsByFlux pair.2) = true then
    p.union pair.1 pair.2 else p)

/-- `combinations(range(…), 2)`. -/
def pairs (n : ℕ) : List (Fin n × Fin n) :=
  (List.finRange n).flatMap fun left =>
    ((List.finRange n).filter (left < ·)).map fun right => (left, right)

def classify (state : Parents n × List (Fin n × List (Fin n))) (index : Fin n) :
    Parents n × List (Fin n × List (Fin n)) :=
  let (p, root) := state.1.find index
  (p, if state.2.any (·.1 == root) then
      state.2.map fun entry => if entry.1 = root then (root, entry.2 ++ [index]) else entry
    else state.2 ++ [(root, [index])])

def classes (p : Parents n) : List (List (Fin n)) :=
  ((List.finRange n).foldl classify (p, [])).2.map Prod.snd

end coupling

/-- `exact_flux_coupling`; without a solver nothing is known. -/
def exactFluxCoupling (solver : Option Solver) (network : Network) :
    Analysis FluxCouplingAnalysis := do
  match solver with
  | none => pure ⟨"unknown", [], [], false, "unavailable", "unavailable"⟩
  | some solver =>
    if network.isEmpty = true then pure ⟨"satisfied", [], [], true, solver.name, solver.version⟩
    else
      let rows := stoichiometricMatrix network
      let identifier := fun column : Fin (columns network).length => (columns network)[column].1
      let blocked ← (List.finRange _).foldlM (checkFlux solver rows) []
      let unblocked := (List.finRange _).filter (· ∉ blocked)
      let basis := nullspace fun row (column : Fin unblocked.length) => rows row unblocked[column]
      let joined ← (pairs unblocked.length).foldlM
        (couple fun index => basis.map fun vector => vector index) (.range _)
      let coupled := (classes joined).filter (1 < ·.length)
      pure {
        status := "satisfied"
        blocked := blocked.map identifier
        fullyCoupledClasses :=
          (coupled.map fun members => members.map fun index => identifier unblocked[index]).mergeSort
        exactModelsRechecked := true
        solverName := solver.name
        solverVersion := solver.version }

end Flux
end CollectivePhaseControl
