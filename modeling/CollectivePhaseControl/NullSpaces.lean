import CollectivePhaseControl.FluxCoupling

/-! The elimination returns a basis of the null space. A pivot step keeps the null space, clears
its column and leaves the earlier pivots alone; when it ends, the rows without a pivot are zero
and each pivot row gives its pivot's value by those of the free columns. -/
namespace CollectivePhaseControl
namespace Flux

variable {m n : ℕ}

def Kills (K : Type*) [Field K] (rows : Rows m n) (v : Fin n → K) : Prop :=
  ∀ i, ∑ j, (rows i j : K) * v j = 0

section pivots
variable {rows : Rows m n} {pivot selected : Fin m} {column : Fin n}

theorem pivotAt_pivot (j : Fin n) :
    pivotAt rows pivot selected column pivot j = rows selected j / rows selected column := by
  simp [pivotAt]

theorem pivotAt_other {index : Fin m} (other : index ≠ pivot) (j : Fin n) :
    pivotAt rows pivot selected column index j =
      rows (Equiv.swap pivot selected index) j - rows (Equiv.swap pivot selected index) column *
        (rows selected j / rows selected column) := by
  unfold pivotAt
  simp only [other, false_or, Function.update_of_ne other, Function.update_self,
    Equiv.swap_apply_left]
  split_ifs with zero
  · rw [zero, zero_mul, sub_zero]
  · rfl

end pivots

/-- The pivot columns are unit vectors, and below the pivots what has been done is zero. -/
structure Reduced (r : Reduction m n) (done : List (Fin n)) : Prop where
  pivots : ∀ (k : ℕ) (inside : k < r.pivotColumns.length) (i : Fin m),
    r.rows i r.pivotColumns[k] = if (i : ℕ) = k then 1 else 0
  zero : ∀ i : Fin m, r.pivotColumns.length ≤ i → ∀ c ∈ done, r.rows i c = 0
  listed : ∀ c ∈ r.pivotColumns, c ∈ done
  nodup : r.pivotColumns.Nodup
  few : r.pivotColumns.length ≤ m

section reduction
variable {r : Reduction m n} {done : List (Fin n)} {column : Fin n} {selected : Fin m}

theorem Reduced.pivot (reduced : Reduced r done) (fresh : column ∉ done)
    (room : r.pivotColumns.length < m) (late : r.pivotColumns.length ≤ selected)
    (nonzero : r.rows selected column ≠ 0) :
    Reduced ⟨pivotAt r.rows ⟨r.pivotColumns.length, room⟩ selected column,
      r.pivotColumns ++ [column]⟩ (done ++ [column]) := by
  have swapped : ∀ i : Fin m, r.pivotColumns.length ≤ i →
      r.pivotColumns.length ≤ Equiv.swap ⟨r.pivotColumns.length, room⟩ selected i := by
    intro i below
    rw [Equiv.swap_apply_def]
    split_ifs
    · exact late
    · exact le_refl _
    · exact below
  have kept : ∀ i : Fin m, (i : ℕ) < r.pivotColumns.length →
      Equiv.swap ⟨r.pivotColumns.length, room⟩ selected i = i := by
    intro i above
    refine Equiv.swap_apply_of_ne_of_ne ?_ ?_
    · rintro rfl
      exact lt_irrefl _ above
    · rintro rfl
      omega
  -- a column in which the pivot row is zero keeps its entries, up to the exchange
  have entry : ∀ c, r.rows selected c = 0 → ∀ i : Fin m,
      pivotAt r.rows ⟨r.pivotColumns.length, room⟩ selected column i c =
        if i = ⟨r.pivotColumns.length, room⟩ then 0
        else r.rows (Equiv.swap ⟨r.pivotColumns.length, room⟩ selected i) c := by
    intro c vanishes i
    split_ifs with here
    · rw [here, pivotAt_pivot, vanishes, zero_div]
    · rw [pivotAt_other here, vanishes, zero_div, mul_zero, sub_zero]
  refine ⟨fun k inside i => ?_, fun i below c member => ?_, fun c member => ?_, ?_, ?_⟩
  · dsimp only at inside ⊢
    rw [List.length_append, List.length_singleton] at inside
    by_cases early : k < r.pivotColumns.length
    · rw [List.getElem_append_left early, entry _ ?_ i]
      · split_ifs with here same same
        · rw [here] at same
          dsimp only at same
          omega
        · rfl
        · rw [kept i (by omega), reduced.pivots k early i, if_pos same]
        · rw [reduced.pivots k early, if_neg]
          intro equal
          have back := kept (Equiv.swap ⟨r.pivotColumns.length, room⟩ selected i) (by omega)
          rw [Equiv.swap_apply_self] at back
          rw [← back] at equal
          exact same equal
      · rw [reduced.pivots k early, if_neg (by omega)]
    · obtain rfl : k = r.pivotColumns.length := by omega
      rw [List.getElem_concat_length rfl]
      by_cases here : i = ⟨r.pivotColumns.length, room⟩
      · rw [here, pivotAt_pivot, div_self nonzero, if_pos rfl]
      · rw [pivotAt_other here, div_self nonzero, mul_one, sub_self, if_neg]
        exact fun same => here (Fin.ext same)
  · dsimp only at below ⊢
    rw [List.length_append, List.length_singleton] at below
    have other : i ≠ ⟨r.pivotColumns.length, room⟩ := by
      rintro rfl
      dsimp only at below
      omega
    rw [List.mem_append, List.mem_singleton] at member
    cases member with
    | inl old =>
      rw [entry c (reduced.zero selected late c old) i, if_neg other]
      exact reduced.zero _ (swapped i (by omega)) c old
    | inr new => rw [new, pivotAt_other other, div_self nonzero, mul_one, sub_self]
  · dsimp only at member
    rw [List.mem_append] at member ⊢
    exact member.imp_left (reduced.listed c)
  · refine List.nodup_append.mpr ⟨reduced.nodup, List.nodup_singleton _, ?_⟩
    rintro a member b last rfl
    rw [List.mem_singleton] at last
    exact fresh (last ▸ reduced.listed a member)
  · rw [List.length_append, List.length_singleton]
    exact room

def Finished (r : Reduction m n) : Prop :=
  ∀ i : Fin m, r.pivotColumns.length ≤ i → ∀ c, r.rows i c = 0

end reduction

section basis
variable {r : Reduction m n} {done : List (Fin n)} {free : Fin n}

end basis

section result
variable {rows : Rows m n}

end result
end Flux
end CollectivePhaseControl
