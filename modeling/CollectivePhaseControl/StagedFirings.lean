import Mathlib

/-! Monotone systems of labels that gain items of two kinds when they fire. Layers that fire
only the labels with new items of the first kind may miss items of the second. -/
namespace Staged

abbrev Stage (σ κ : Type*) := Finset σ × Finset κ

structure System (τ σ κ : Type*) [DecidableEq σ] [DecidableEq κ] where
  labels : List τ
  enabled : τ → Stage σ κ → Bool
  gain : τ → Stage σ κ
  monotone : ∀ t s s', s ≤ s' → enabled t s = true → enabled t s' = true

namespace System
variable {τ σ κ : Type*} [DecidableEq σ] [DecidableEq κ] (m : System τ σ κ)

inductive Reaches (start : Stage σ κ) : Stage σ κ → Prop
  | start : Reaches start start
  | fire {s : Stage σ κ} {t : τ} : Reaches start s → t ∈ m.labels → m.enabled t s = true →
      Reaches start (s ⊔ m.gain t)

/-- A label is enabled and would gain an item of the first kind. -/
def productive (s : Stage σ κ) (t : τ) : Bool := m.enabled t s && !decide ((m.gain t).1 ⊆ s.1)

def advance (s : Stage σ κ) : Stage σ κ :=
  (m.labels.filter (m.productive s)).foldl (fun s t => s ⊔ m.gain t) s

def Settled (s : Stage σ κ) : Prop :=
  ∀ t ∈ m.labels, m.enabled t s = true → (m.gain t).1 ⊆ s.1

/-- Labels depend on items of the second kind only where these are needed. -/
def Depends (needed : κ → Prop) : Prop :=
  ∀ t ∈ m.labels, ∀ s s' : Stage σ κ, s.1 ⊆ s'.1 → (∀ k ∈ s.2, needed k → k ∈ s'.2) →
    m.enabled t s = true → m.enabled t s' = true

/-- What an enabled label would gain of the second kind, in a layer where it gains nothing of
the first, is in some layer or not needed. -/
def Keeps (needed : κ → Prop) (start : Stage σ κ) : Prop :=
  ∀ n, ∀ t ∈ m.labels, m.enabled t (m.advance^[n] start) = true →
    (m.gain t).1 ⊆ (m.advance^[n] start).1 → ∀ k ∈ (m.gain t).2, needed k →
      ∃ i, k ∈ (m.advance^[i] start).2

variable {m} {start s s' : Stage σ κ} {n : ℕ} {needed : κ → Prop}

theorem Reaches.le (reaches : m.Reaches start s) : start ≤ s := by
  induction reaches with
  | start => exact le_rfl
  | fire _ _ _ ih => exact ih.trans le_sup_left

theorem Reaches.trans (first : m.Reaches start s) (second : m.Reaches s s') :
    m.Reaches start s' := by
  induction second with
  | start => exact first
  | fire _ listed enabled ih => exact .fire ih listed enabled

theorem foldl_fire (ts : List τ) (s : Stage σ κ) (all : ∀ t ∈ ts, t ∈ m.labels ∧
    m.enabled t s = true) : m.Reaches s (ts.foldl (fun s t => s ⊔ m.gain t) s) := by
  induction ts using List.reverseRecOn with
  | nil => exact .start
  | append_singleton ts t ih =>
    have before := ih fun u listed => all u (List.mem_append_left _ listed)
    obtain ⟨listed, enabled⟩ := all t (List.mem_append_right _ (List.mem_singleton_self t))
    rw [List.foldl_concat]
    exact .fire before listed (m.monotone _ _ _ before.le enabled)

theorem reaches_advance (s : Stage σ κ) : m.Reaches s (m.advance s) := by
  refine foldl_fire _ _ fun t listed => ?_
  obtain ⟨member, productive⟩ := List.mem_filter.mp listed
  exact ⟨member, (Bool.and_eq_true_iff.mp productive).1⟩

theorem reaches_iterate (start : Stage σ κ) (n : ℕ) : m.Reaches start (m.advance^[n] start) := by
  induction n with
  | zero => exact .start
  | succ n ih =>
    rw [Function.iterate_succ_apply']
    exact ih.trans (reaches_advance _)

theorem advance_of_settled (settled : m.Settled s) : m.advance s = s := by
  have none : m.labels.filter (m.productive s) = [] := by
    refine List.filter_eq_nil_iff.mpr fun t listed productive => ?_
    obtain ⟨enabled, new⟩ := Bool.and_eq_true_iff.mp productive
    simp [settled t listed enabled] at new
  rw [advance, none, List.foldl_nil]

theorem iterate_of_settled (settled : m.Settled (m.advance^[n] start)) (k : ℕ) :
    m.advance^[n + k] start = m.advance^[n] start := by
  induction k with
  | zero => rfl
  | succ k ih => rw [← Nat.add_assoc, Function.iterate_succ_apply', ih, advance_of_settled settled]

theorem iterate_mono {i : ℕ} (le : i ≤ n) : m.advance^[i] start ≤ m.advance^[n] start := by
  obtain ⟨d, rfl⟩ := Nat.exists_eq_add_of_le le
  rw [Nat.add_comm, Function.iterate_add_apply]
  exact (reaches_iterate _ d).le

theorem iterate_le_settled (settled : m.Settled (m.advance^[n] start)) (i : ℕ) :
    m.advance^[i] start ≤ m.advance^[n] start := by
  rcases Nat.le_total i n with le | le
  · exact iterate_mono le
  · obtain ⟨d, rfl⟩ := Nat.exists_eq_add_of_le le
    exact (iterate_of_settled settled d).le

/-- One firing adds no item of the first kind and no needed one of the second to settled
layers, if none is lost. -/
theorem Keeps.fire (keeps : m.Keeps needed start) (depends : m.Depends needed)
    (settled : m.Settled (m.advance^[n] start)) {t : τ} (listed : t ∈ m.labels)
    (states : s.1 ⊆ (m.advance^[n] start).1)
    (items : ∀ k ∈ s.2, needed k → k ∈ (m.advance^[n] start).2) (enabled : m.enabled t s = true) :
    (m.gain t).1 ⊆ (m.advance^[n] start).1 ∧
      ∀ k ∈ (m.gain t).2, needed k → k ∈ (m.advance^[n] start).2 := by
  have enabled' := depends t listed s _ states items enabled
  have idle := settled t listed enabled'
  refine ⟨idle, fun k gained need => ?_⟩
  obtain ⟨i, member⟩ := keeps n t listed enabled' idle k gained need
  exact (iterate_le_settled settled i).2 member

/-- Settled layers hold exactly the reachable items of the first kind, if no needed item of
the second kind is lost. -/
theorem Keeps.exact (keeps : m.Keeps needed start) (depends : m.Depends needed)
    (settled : m.Settled (m.advance^[n] start)) (x : σ) :
    x ∈ (m.advance^[n] start).1 ↔ ∃ s, m.Reaches start s ∧ x ∈ s.1 := by
  have begins : start ≤ m.advance^[n] start := (reaches_iterate start n).le
  -- What a sequence of firings gains, the layers have, up to items that are not needed.
  have within : ∀ s, m.Reaches start s → s.1 ⊆ (m.advance^[n] start).1 ∧
      ∀ k ∈ s.2, needed k → k ∈ (m.advance^[n] start).2 := by
    intro s reaches
    induction reaches with
    | start => exact ⟨begins.1, fun k member _ => begins.2 member⟩
    | fire _ listed enabled ih =>
      obtain ⟨states, items⟩ := keeps.fire depends settled listed ih.1 ih.2 enabled
      refine ⟨Finset.union_subset ih.1 states, fun k member need => ?_⟩
      rcases Finset.mem_union.mp member with member | member
      · exact ih.2 k member need
      · exact items k member need
  exact ⟨fun member => ⟨_, reaches_iterate start n, member⟩,
    fun ⟨s, reaches, member⟩ => (within s reaches).1 member⟩

theorem keeps_of_settled (settled : m.Settled (m.advance^[n] start))
    (all : ∀ t ∈ m.labels, m.enabled t (m.advance^[n] start) = true → ∀ k ∈ (m.gain t).2,
      needed k → k ∈ (m.advance^[n] start).2) : m.Keeps needed start := by
  intro i t listed enabled _ k gained need
  have later := m.monotone t _ _ (iterate_le_settled settled i) enabled
  exact ⟨n, all t listed later k gained need⟩

theorem le_foldl (ts : List τ) (s : Stage σ κ) :
    s ≤ ts.foldl (fun s t => s ⊔ m.gain t) s ∧
      ∀ t ∈ ts, m.gain t ≤ ts.foldl (fun s t => s ⊔ m.gain t) s := by
  induction ts using List.reverseRecOn with
  | nil => exact ⟨le_rfl, fun t listed => absurd listed List.not_mem_nil⟩
  | append_singleton ts t ih =>
    rw [List.foldl_concat]
    refine ⟨ih.1.trans le_sup_left, fun u listed => ?_⟩
    rcases List.mem_append.mp listed with earlier | last
    · exact (ih.2 u earlier).trans le_sup_left
    · rw [List.mem_singleton.mp last]
      exact le_sup_right

theorem mem_foldl {x : σ} (ts : List τ) (s : Stage σ κ)
    (member : x ∈ (ts.foldl (fun s t => s ⊔ m.gain t) s).1) :
    x ∈ s.1 ∨ ∃ t ∈ ts, x ∈ (m.gain t).1 := by
  induction ts using List.reverseRecOn with
  | nil => exact .inl member
  | append_singleton ts t ih =>
    rw [List.foldl_concat] at member
    rcases Finset.mem_union.mp member with earlier | last
    · refine (ih earlier).imp_right fun ⟨u, listed, gained⟩ => ?_
      exact ⟨u, List.mem_append_left _ listed, gained⟩
    · exact .inr ⟨t, List.mem_append_right _ (List.mem_singleton_self t), last⟩

theorem exists_fired {x : σ} (member : x ∈ (m.advance^[n] start).1) (fresh : x ∉ start.1) :
    ∃ t ∈ m.labels, x ∈ (m.gain t).1 ∧ m.gain t ≤ m.advance^[n] start := by
  induction n with
  | zero => exact absurd member fresh
  | succ n ih =>
    rw [Function.iterate_succ_apply'] at member ⊢
    have above : m.advance^[n] start ≤ m.advance (m.advance^[n] start) := (reaches_advance _).le
    rcases mem_foldl _ _ member with earlier | ⟨t, listed, gained⟩
    · obtain ⟨t, listed, gained, fired⟩ := ih earlier
      exact ⟨t, listed, gained, fired.trans above⟩
    · exact ⟨t, (List.mem_filter.mp listed).1, gained, (le_foldl _ _).2 t listed⟩

/-- No needed item is lost if each label that gains one has an item of the first kind of its
own, which no other label gains. -/
theorem keeps_of_own (own : ∀ t ∈ m.labels, ∀ k ∈ (m.gain t).2, needed k → k ∉ start.2 →
    ∃ x ∈ (m.gain t).1, x ∉ start.1 ∧ ∀ u ∈ m.labels, x ∈ (m.gain u).1 → u = t) :
    m.Keeps needed start := by
  intro n t listed _ idle k gained need
  by_cases begins : k ∈ start.2
  · exact ⟨0, begins⟩
  · obtain ⟨x, output, fresh, only⟩ := own t listed k gained need begins
    obtain ⟨u, listed', output', fired⟩ := exists_fired (idle output) fresh
    rw [only u listed' output'] at fired
    exact ⟨n, fired.2 gained⟩

end System
end Staged
