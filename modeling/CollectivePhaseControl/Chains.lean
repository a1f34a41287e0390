import CollectivePhaseControl.Runs

/-! Chains of records. Each record names the digest of the one before it and carries the next
number. Where the digests of a chain tell its numbers apart, no two records name the same
predecessor. -/
namespace Chains
open Runs

variable {α D : Type*} {prior digest : α → D} {number : α → ℕ}

/-- The digest and the number of a chain's last record. -/
structure Tip (D : Type*) where
  digest : D
  number : ℕ

def Link (prior digest : α → D) (number : α → ℕ) (tip : Tip D) (record : α) (next : Tip D) :
    Prop :=
  prior record = tip.digest ∧ number record = tip.number + 1 ∧
    next = ⟨digest record, number record⟩

variable {tip last : Tip D} {records : List α}

theorem numbers (run : Run (Link prior digest number) tip records last) :
    records.map number = List.range' (tip.number + 1) records.length ∧
      last.number = tip.number + records.length := by
  induction run with
  | nil => simp
  | @cons tip next last record records head _ ih =>
    obtain ⟨_, step, rfl⟩ := head
    simp only [step] at ih
    refine ⟨?_, ?_⟩
    · rw [List.map_cons, ih.1, step, List.length_cons, List.range'_succ]
    · rw [ih.2, List.length_cons]
      omega

theorem number_gt (run : Run (Link prior digest number) tip records last) {record : α}
    (member : record ∈ records) : tip.number < number record := by
  have numbered : number record ∈ records.map number := List.mem_map_of_mem member
  rw [(numbers run).1, List.mem_range'_1] at numbered
  omega

theorem prior_known (run : Run (Link prior digest number) tip records last) {record : α}
    (member : record ∈ records) :
    prior record = tip.digest ∨ ∃ other ∈ records, prior record = digest other := by
  induction run with
  | nil => simp at member
  | @cons tip next last first records head _ ih =>
    obtain ⟨named, _, rfl⟩ := head
    cases member with
    | head => exact .inl named
    | tail _ later =>
      cases ih later with
      | inl same => exact .inr ⟨first, by simp, same⟩
      | inr known =>
        obtain ⟨other, known, same⟩ := known
        exact .inr ⟨other, List.mem_cons_of_mem _ known, same⟩

theorem priors_nodup (run : Run (Link prior digest number) tip records last)
    (fresh : ∀ record ∈ records, digest record ≠ tip.digest)
    (free : ∀ record ∈ records, ∀ other ∈ records, digest record = digest other →
      number record = number other) : (records.map prior).Nodup := by
  induction run with
  | nil => simp
  | @cons tip next last first records head rest ih =>
    obtain ⟨named, step, rfl⟩ := head
    have later : ∀ record ∈ records, digest record ≠ digest first := by
      intro record member same
      have greater := number_gt rest member
      have equal := free record (List.mem_cons_of_mem _ member) first (by simp) same
      simp only at greater
      omega
    rw [List.map_cons, List.nodup_cons]
    refine ⟨?_, ih later fun record member other known =>
      free record (List.mem_cons_of_mem _ member) other (List.mem_cons_of_mem _ known)⟩
    intro again
    obtain ⟨record, member, same⟩ := List.mem_map.mp again
    rw [named] at same
    cases prior_known rest member with
    | inl own => exact fresh first (by simp) (own.symm.trans same)
    | inr known =>
      obtain ⟨other, known, own⟩ := known
      exact fresh other (List.mem_cons_of_mem _ known) (own.symm.trans same)

end Chains
