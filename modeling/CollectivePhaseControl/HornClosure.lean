import Mathlib

/-! Closure of a set under rules. What is derivable from a base is the least set that holds
the base and is closed under the rules; passing over a list of rules until nothing changes
computes it. -/
namespace Horn

variable {α : Type*}

structure Rule (α : Type*) where
  premises : Finset α
  conclusions : Finset α

inductive Derivable (rules : Set (Rule α)) (base : Set α) : α → Prop
  | base {x : α} : x ∈ base → Derivable rules base x
  | fire {r : Rule α} {x : α} : r ∈ rules → (∀ y ∈ r.premises, Derivable rules base y) →
      x ∈ r.conclusions → Derivable rules base x

def Closed (rules : Set (Rule α)) (s : Set α) : Prop :=
  ∀ r ∈ rules, (∀ y ∈ r.premises, y ∈ s) → ∀ x ∈ r.conclusions, x ∈ s

section derivable
variable {rules rules' : Set (Rule α)} {base base' s : Set α} {x : α}

theorem closed_derivable : Closed rules {x | Derivable rules base x} :=
  fun _ member premises _ conclusion => .fire member premises conclusion

theorem Derivable.mem (derivable : Derivable rules base x) (holds : base ⊆ s)
    (closed : Closed rules s) : x ∈ s := by
  induction derivable with
  | base member => exact holds member
  | fire member _ conclusion ih => exact closed _ member ih _ conclusion

theorem Derivable.follow (derivable : Derivable rules base x) (holds : base ⊆ base')
    (closed : Closed rules {x | Derivable rules' base' x}) : Derivable rules' base' x :=
  derivable.mem (fun _ member => .base (holds member)) closed

theorem Derivable.mono (derivable : Derivable rules base x) (fewer : rules ⊆ rules')
    (holds : base ⊆ base') : Derivable rules' base' x :=
  derivable.follow holds fun _ member premises _ conclusion =>
    .fire (fewer member) premises conclusion

theorem Derivable.origin (derivable : Derivable rules base x) :
    x ∈ base ∨ ∃ r ∈ rules, (∀ y ∈ r.premises, Derivable rules base y) ∧ x ∈ r.conclusions := by
  cases derivable with
  | base member => exact .inl member
  | fire member premises conclusion => exact .inr ⟨_, member, premises, conclusion⟩

end derivable

section saturate
variable [DecidableEq α]

def fire (s : Finset α) (r : Rule α) : Finset α :=
  if r.premises ⊆ s then s ∪ r.conclusions else s

def pass (rules : List (Rule α)) (s : Finset α) : Finset α := rules.foldl fire s

/-- Pass over the rules until nothing changes, at most so many times. -/
def saturate (rules : List (Rule α)) : ℕ → Finset α → Option (Finset α)
  | 0, _ => none
  | n + 1, s => if pass rules s = s then some s else saturate rules n (pass rules s)

variable {rules : List (Rule α)} {s t : Finset α} {n : ℕ}

theorem subset_fire (s : Finset α) (r : Rule α) : s ⊆ fire s r := by
  unfold fire
  split
  · exact Finset.subset_union_left
  · exact Finset.Subset.refl s

theorem subset_pass (rules : List (Rule α)) : ∀ s : Finset α, s ⊆ pass rules s := by
  induction rules with
  | nil => exact fun s => Finset.Subset.refl s
  | cons r rules ih => exact fun s => (subset_fire s r).trans (ih (fire s r))

theorem pass_subset {u : Set α} (closed : Closed {r | r ∈ rules} u) :
    ∀ {s : Finset α}, ↑s ⊆ u → ↑(pass rules s) ⊆ u := by
  have inside : ∀ r ∈ rules, ∀ s : Finset α, ↑s ⊆ u → ↑(fire s r) ⊆ u := by
    intro r member s holds
    unfold fire
    split
    · rename_i premises
      intro x
      rw [Finset.mem_coe, Finset.mem_union]
      intro either
      cases either with
      | inl old => exact holds old
      | inr new => exact closed r member (fun y known => holds (premises known)) x new
    · exact holds
  intro s holds
  exact List.foldlRecOn (motive := fun t => ↑t ⊆ u) rules fire holds
    fun t inner r member => inside r member t inner

theorem closed_of_pass : ∀ {rules : List (Rule α)} {s : Finset α}, pass rules s = s →
    Closed {r | r ∈ rules} (↑s : Set α) := by
  intro rules
  induction rules with
  | nil => intro s _ r member; simp at member
  | cons first rules ih =>
    intro s fixed
    have steady : fire s first = s :=
      Finset.Subset.antisymm ((subset_pass rules _).trans fixed.le) (subset_fire s first)
    have rest : pass rules s = s := by
      conv_rhs => rw [← fixed]
      change pass rules s = pass rules (fire s first)
      rw [steady]
    intro r member premises x conclusion
    cases List.mem_cons.mp member with
    | inr later => exact ih rest r later premises x conclusion
    | inl here =>
      subst here
      have fires : r.premises ⊆ s := premises
      rw [fire, if_pos fires] at steady
      rw [← steady]
      exact Finset.mem_coe.mpr (Finset.mem_union_right s conclusion)

theorem mem_saturate (saturated : saturate rules n s = some t) {x : α} :
    x ∈ t ↔ Derivable {r | r ∈ rules} ↑s x := by
  induction n generalizing s with
  | zero => simp [saturate] at saturated
  | succ n ih =>
    rw [saturate] at saturated
    split at saturated
    · rename_i fixed
      cases saturated
      exact ⟨fun member => .base member, fun derivable =>
        derivable.mem (fun _ member => member) (closed_of_pass fixed)⟩
    · rw [ih saturated]
      constructor
      · intro derivable
        refine derivable.mem ?_ closed_derivable
        exact pass_subset closed_derivable fun y member => .base member
      · exact fun derivable => derivable.mono (fun _ member => member) (subset_pass rules s)

def conclusions (rules : List (Rule α)) : Finset α :=
  rules.foldr (fun r all => r.conclusions ∪ all) ∅

theorem mem_conclusions {x : α} : x ∈ conclusions rules ↔ ∃ r ∈ rules, x ∈ r.conclusions := by
  induction rules with
  | nil => simp [conclusions]
  | cons r rules ih =>
    rw [conclusions, List.foldr_cons, Finset.mem_union]
    change x ∈ r.conclusions ∨ x ∈ conclusions rules ↔ _
    rw [ih]
    simp

theorem saturate_total : ∀ {n : ℕ} {s : Finset α}, (conclusions rules \ s).card < n →
    ∃ t, saturate rules n s = some t := by
  intro n
  induction n with
  | zero => intro s few; omega
  | succ n ih =>
    intro s few
    rw [saturate]
    split
    · exact ⟨s, rfl⟩
    · rename_i grows
      apply ih
      have inside : pass rules s ⊆ s ∪ conclusions rules := by
        have closed : Closed {r | r ∈ rules} (↑(s ∪ conclusions rules) : Set α) := by
          intro r member _ x conclusion
          exact Finset.mem_coe.mpr
            (Finset.mem_union_right s (mem_conclusions.mpr ⟨r, member, conclusion⟩))
        have holds : (↑s : Set α) ⊆ ↑(s ∪ conclusions rules) := by simp
        exact Finset.coe_subset.mp (pass_subset closed holds)
      obtain ⟨x, reached, fresh⟩ : ∃ x ∈ pass rules s, x ∉ s := by
        by_contra none_new
        push Not at none_new
        exact grows (Finset.Subset.antisymm none_new (subset_pass rules s))
      have concluded : x ∈ conclusions rules := by
        cases Finset.mem_union.mp (inside reached) with
        | inl old => exact absurd old fresh
        | inr new => exact new
      have smaller : conclusions rules \ pass rules s ⊂ conclusions rules \ s := by
        refine ⟨Finset.sdiff_subset_sdiff (Finset.Subset.refl _) (subset_pass rules s), ?_⟩
        intro all
        have member := all (Finset.mem_sdiff.mpr ⟨concluded, fresh⟩)
        exact (Finset.mem_sdiff.mp member).2 reached
      have fewer := Finset.card_lt_card smaller
      omega

end saturate

end Horn
