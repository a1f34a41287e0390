import Mathlib

/-! Minimal sets. Candidates that come after everything below them are thinned to the minimal
ones by keeping what passes a test and lies above nothing kept so far. Over a finite ground
set the minimal sets of a monotone property and the minimal sets whose removal defeats it
are the minimal hitting sets of each other. -/
namespace MinimalSets

section selection
variable {α β : Type*} [PartialOrder β] [DecidableLE β] (rank : α → β) (passes : α → Bool)

def select (kept : List α) (x : α) : List α :=
  if kept.any (fun k => decide (rank k ≤ rank x)) = true then kept
  else if passes x = true then kept ++ [x] else kept

variable {rank passes} {xs : List α} {x y : α}

theorem prefix_select (kept : List α) (x : α) : kept <+: select rank passes kept x := by
  unfold select
  split_ifs <;> simp

theorem exists_select (passed : passes y = true) (kept : List α) :
    ∃ k ∈ select rank passes kept y, rank k ≤ rank y := by
  unfold select
  split_ifs with above
  · simpa using above
  · exact ⟨y, by simp, le_refl _⟩

theorem exists_kept (member : y ∈ xs) (passed : passes y = true) :
    ∃ k ∈ xs.foldl (select rank passes) [], rank k ≤ rank y := by
  induction xs using List.reverseRecOn with
  | nil => simp at member
  | append_singleton xs x ih =>
    rw [List.foldl_concat]
    rw [List.mem_append, List.mem_singleton] at member
    cases member with
    | inl early =>
      obtain ⟨k, kept, below⟩ := ih early
      exact ⟨k, (prefix_select _ x).subset kept, below⟩
    | inr last =>
      subst last
      exact exists_select passed _

theorem sublist_select (xs : List α) : (xs.foldl (select rank passes) []).Sublist xs := by
  induction xs using List.reverseRecOn with
  | nil => simp
  | append_singleton xs x ih =>
    rw [List.foldl_concat, select]
    split_ifs
    · exact ih.trans (List.sublist_append_left xs [x])
    · exact ih.append_right [x]
    · exact ih.trans (List.sublist_append_left xs [x])

theorem passes_of_kept (kept : x ∈ xs.foldl (select rank passes) []) : passes x = true := by
  induction xs using List.reverseRecOn with
  | nil => simp at kept
  | append_singleton xs z ih =>
    rw [List.foldl_concat, select] at kept
    split_ifs at kept with above passed
    · exact ih kept
    · rw [List.mem_append, List.mem_singleton] at kept
      cases kept with
      | inl early => exact ih early
      | inr last => exact last ▸ passed
    · exact ih kept

theorem mem_foldl_select (sorted : xs.Pairwise fun a b => ¬ rank b ≤ rank a) :
    x ∈ xs.foldl (select rank passes) [] ↔
      x ∈ xs ∧ passes x = true ∧ ∀ y ∈ xs, passes y = true → rank y ≤ rank x → y = x := by
  induction xs using List.reverseRecOn with
  | nil => simp
  | append_singleton xs z ih =>
    obtain ⟨early, -, later⟩ := List.pairwise_append.mp sorted
    have apart : ∀ a ∈ xs, ¬ rank z ≤ rank a := fun a member => later a member z (by simp)
    have old := ih early
    have before : x ∈ xs.foldl (select rank passes) [] ↔ x ∈ xs ∧ passes x = true ∧
        ∀ y ∈ xs ++ [z], passes y = true → rank y ≤ rank x → y = x := by
      rw [old]
      grind
    rw [List.foldl_concat, select]
    split_ifs with above passed
    · rw [before]
      obtain ⟨k, kept, below⟩ : ∃ k ∈ xs.foldl (select rank passes) [], rank k ≤ rank z := by
        simpa using above
      have listed : k ∈ xs := (sublist_select xs).subset kept
      have sound : passes k = true := passes_of_kept kept
      grind
    · have fresh : ∀ k ∈ xs.foldl (select rank passes) [], ¬ rank k ≤ rank z := by
        simpa using above
      have least : ∀ y ∈ xs, passes y = true → ¬ rank y ≤ rank z := by
        intro y member sound below
        obtain ⟨k, kept, under⟩ := @exists_kept _ _ _ _ rank passes _ _ member sound
        exact fresh k kept (under.trans below)
      rw [List.mem_append, before, List.mem_singleton]
      grind
    · rw [before]
      grind

theorem nodup_select (sorted : xs.Pairwise fun a b => ¬ rank b ≤ rank a) :
    (xs.foldl (select rank passes) []).Nodup := by
  refine (sublist_select xs).nodup (sorted.imp ?_)
  rintro a b different rfl
  exact different (le_refl _)

end selection

section hitting
variable {α : Type*} {ground : Finset α}

def minimals (ground : Finset α) (P : Finset α → Prop) : Set (Finset α) :=
  {s | Minimal (fun s => s ⊆ ground ∧ P s) s}

theorem mem_minimals {P : Finset α → Prop} {s : Finset α} :
    s ∈ minimals ground P ↔ Minimal (fun s => s ⊆ ground ∧ P s) s := Iff.rfl

theorem prop_of_minimals {P : Finset α → Prop} {s : Finset α} (minimal : s ∈ minimals ground P) :
    s ⊆ ground ∧ P s := (mem_minimals.mp minimal).prop

theorem exists_minimal {P : Finset α → Prop} {s : Finset α} (within : s ⊆ ground) (holds : P s) :
    ∃ t ∈ minimals ground P, t ⊆ s := by
  obtain ⟨t, below, minimal⟩ :=
    exists_minimal_le_of_wellFoundedLT (fun s => s ⊆ ground ∧ P s) s ⟨within, holds⟩
  exact ⟨t, minimal, below⟩

theorem minimals_congr {P Q : Finset α → Prop} (same : ∀ s ⊆ ground, (P s ↔ Q s)) :
    minimals ground P = minimals ground Q := by
  unfold minimals
  have equal : (fun s => s ⊆ ground ∧ P s) = fun s => s ⊆ ground ∧ Q s := by
    funext s
    exact propext (and_congr_right (same s))
  rw [equal]

theorem isAntichain_minimals (P : Finset α → Prop) :
    IsAntichain (· ⊆ ·) (minimals ground P) := by
  intro s minimal t other different below
  have above : t ⊆ s := (mem_minimals.mp other).le_of_le (prop_of_minimals minimal) below
  exact different (Finset.Subset.antisymm below above)

variable [DecidableEq α] {Enables : Finset α → Prop}

def Hits (family : Set (Finset α)) (s : Finset α) : Prop := ∀ t ∈ family, (s ∩ t).Nonempty

theorem defeats_iff_hits (monotone : ∀ s t, s ⊆ t → Enables s → Enables t) {s : Finset α} :
    ¬ Enables (ground \ s) ↔ Hits (minimals ground Enables) s := by
  constructor
  · intro defeats t minimal
    by_contra disjoint
    rw [Finset.not_nonempty_iff_eq_empty, ← Finset.disjoint_iff_inter_eq_empty] at disjoint
    have rest : t ⊆ ground \ s := Finset.subset_sdiff.mpr ⟨(prop_of_minimals minimal).1, disjoint.symm⟩
    exact defeats (monotone t _ rest (prop_of_minimals minimal).2)
  · intro hits enables
    obtain ⟨t, minimal, rest⟩ := exists_minimal Finset.sdiff_subset enables
    obtain ⟨x, both⟩ := hits t minimal
    have apart := (Finset.mem_sdiff.mp (rest (Finset.mem_inter.mp both).2)).2
    exact apart (Finset.mem_inter.mp both).1

theorem enables_iff_hits (monotone : ∀ s t, s ⊆ t → Enables s → Enables t) {s : Finset α}
    (within : s ⊆ ground) :
    Enables s ↔ Hits (minimals ground fun t => ¬ Enables (ground \ t)) s := by
  have defeated : ∀ t u, t ⊆ u → ¬ Enables (ground \ t) → ¬ Enables (ground \ u) :=
    fun t u subset defeats enables =>
      defeats (monotone _ _ (Finset.sdiff_subset_sdiff (Finset.Subset.refl _) subset) enables)
  rw [← defeats_iff_hits defeated, not_not, Finset.sdiff_sdiff_eq_self within]

theorem minimals_defeats (monotone : ∀ s t, s ⊆ t → Enables s → Enables t) :
    minimals ground (fun s => ¬ Enables (ground \ s)) =
      minimals ground (Hits (minimals ground Enables)) :=
  minimals_congr fun _ _ => defeats_iff_hits monotone

theorem minimals_enables (monotone : ∀ s t, s ⊆ t → Enables s → Enables t) :
    minimals ground Enables =
      minimals ground (Hits (minimals ground fun s => ¬ Enables (ground \ s))) :=
  minimals_congr fun _ within => enables_iff_hits monotone within

end hitting

end MinimalSets
