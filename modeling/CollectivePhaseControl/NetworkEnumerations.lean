import CollectivePhaseControl.Siphons
import CollectivePhaseControl.StructuralAnalysis

/-! The bounded enumerations are exact: what they keep of the subsets of an ordered ground set
is its minimal subsets with the property that they test, each once. Minimal siphons say what a
network cannot reach, and minimal cuts and enablement sets are dual. -/
namespace CollectivePhaseControl

section combinations
variable {α : Type}

theorem combinations_perm (xs : List α) : ∀ n, (combinations xs n).Perm (xs.sublistsLen n) := by
  induction xs with
  | nil =>
    intro n
    cases n <;> simp [combinations]
  | cons x xs ih =>
    intro n
    cases n with
    | zero => simp [combinations]
    | succ n =>
      rw [combinations, List.sublistsLen_succ_cons]
      exact (((ih n).map _).append (ih (n + 1))).trans List.perm_append_comm

theorem mem_combinations {xs c : List α} {n : ℕ} :
    c ∈ combinations xs n ↔ c.Sublist xs ∧ c.length = n := by
  rw [(combinations_perm xs n).mem_iff, List.mem_sublistsLen]

theorem nodup_combinations {xs : List α} (distinct : xs.Nodup) (n : ℕ) :
    (combinations xs n).Nodup :=
  (combinations_perm xs n).nodup_iff.mpr (List.nodup_sublistsLen n distinct)

variable {ordered : List α} {sizes : List ℕ}

theorem mem_candidates {c : List α} :
    c ∈ candidates ordered sizes ↔ c.Sublist ordered ∧ c.length ∈ sizes := by
  simp [candidates, mem_combinations, and_comm]

variable [DecidableEq α]

theorem filter_of_sublist {c : List α} (distinct : ordered.Nodup) (sub : c.Sublist ordered) :
    ordered.filter (· ∈ c.toFinset) = c := by
  induction sub with
  | slnil => rfl
  | @cons c xs x sub ih =>
    have fresh : x ∉ c := fun member => distinct.notMem (sub.subset member)
    simpa [fresh] using ih distinct.of_cons
  | @cons_cons c xs x sub ih =>
    have others : ∀ y ∈ xs, (y ∈ (x :: c).toFinset ↔ y ∈ c.toFinset) := by
      intro y member
      have other : y ≠ x := ne_of_mem_of_not_mem member distinct.notMem
      simp [other]
    rw [List.filter_cons_of_pos (by simp),
      List.filter_congr fun y member => decide_eq_decide.mpr (others y member),
      ih distinct.of_cons]

theorem toFinset_subset {a b : List α} : a.toFinset ⊆ b.toFinset ↔ a ⊆ b := by
  simp [Finset.subset_iff, List.subset_def]

theorem toFinset_filter {s : Finset α} (within : s ⊆ ordered.toFinset) :
    (ordered.filter (· ∈ s)).toFinset = s := by
  ext x
  have listed : x ∈ s → x ∈ ordered := fun member => List.mem_toFinset.mp (within member)
  simpa using listed

theorem candidates_sorted (distinct : ordered.Nodup) (increasing : sizes.Pairwise (· < ·)) :
    (candidates ordered sizes).Pairwise fun a b => ¬ b.toFinset ≤ a.toFinset := by
  rw [candidates, List.pairwise_flatMap]
  have card : ∀ n, ∀ c ∈ combinations ordered n, c.toFinset.card = n := by
    intro n c member
    obtain ⟨sub, length⟩ := mem_combinations.mp member
    rw [List.toFinset_card_of_nodup (sub.nodup distinct), length]
  constructor
  · intro n _
    refine (nodup_combinations distinct n).pairwise_of_forall_ne fun a first b second other => ?_
    intro below
    have same : b.toFinset = a.toFinset :=
      Finset.eq_of_subset_of_card_le below (by rw [card n a first, card n b second])
    apply other
    rw [← filter_of_sublist distinct (mem_combinations.mp first).1,
      ← filter_of_sublist distinct (mem_combinations.mp second).1, same]
  · refine increasing.imp fun {n m} less a first b second below => ?_
    have fewer := Finset.card_le_card below
    rw [card n a first, card m b second] at fewer
    omega

end combinations

/-- The values are the minimal subsets with a property, each once and in order. -/
structure ExactFamily (ordered : List Identifier) (P : Finset Identifier → Prop)
    (result : EnumerationResult) : Prop where
  exhaustive : result.exhaustive = true
  nodup : result.values.Nodup
  values : ∀ v, v ∈ result.values ↔
    ∃ s ∈ MinimalSets.minimals ordered.toFinset P, v = ordered.filter (· ∈ s)

def EnumerationResult.family (result : EnumerationResult) : Set (Finset Identifier) :=
  {s | ∃ v ∈ result.values, v.toFinset = s}

section kept
variable {ordered : List Identifier} {sizes : List ℕ} {P Q : Finset Identifier → Prop}

theorem ExactFamily.family_eq {result : EnumerationResult} (found : ExactFamily ordered P result) :
    result.family = MinimalSets.minimals ordered.toFinset P := by
  ext s
  constructor
  · rintro ⟨v, listed, rfl⟩
    obtain ⟨t, minimal, rfl⟩ := (found.values v).mp listed
    rwa [toFinset_filter (MinimalSets.prop_of_minimals minimal).1]
  · intro minimal
    exact ⟨_, (found.values _).mpr ⟨s, minimal, rfl⟩,
      toFinset_filter (MinimalSets.prop_of_minimals minimal).1⟩

theorem ExactFamily.congr {result : EnumerationResult} (found : ExactFamily ordered P result)
    (same : ∀ s ⊆ ordered.toFinset, (P s ↔ Q s)) : ExactFamily ordered Q result := by
  refine ⟨found.exhaustive, found.nodup, ?_⟩
  rw [← MinimalSets.minimals_congr same]
  exact found.values

theorem exactFamily_select (distinct : ordered.Nodup) (increasing : sizes.Pairwise (· < ·))
    {passes : List Identifier → Bool}
    (tested : ∀ c ∈ candidates ordered sizes, (passes c = true ↔ P c.toFinset)) :
    ExactFamily ordered (fun s => s.card ∈ sizes ∧ P s)
      ⟨(candidates ordered sizes).foldl (MinimalSets.select List.toFinset passes) [], true⟩ := by
  have sorted := candidates_sorted distinct increasing
  refine ⟨rfl, MinimalSets.nodup_select sorted, fun v => ?_⟩
  rw [MinimalSets.mem_foldl_select sorted]
  have listed : ∀ s ⊆ ordered.toFinset, s.card ∈ sizes →
      ordered.filter (· ∈ s) ∈ candidates ordered sizes := by
    intro s within sized
    have length : (ordered.filter (· ∈ s)).length = s.card := by
      rw [← List.toFinset_card_of_nodup (distinct.filter _), toFinset_filter within]
    exact mem_candidates.mpr ⟨List.filter_sublist, length ▸ sized⟩
  have card : ∀ c ∈ candidates ordered sizes, c.toFinset ⊆ ordered.toFinset ∧
      c.toFinset.card ∈ sizes ∧ ordered.filter (· ∈ c.toFinset) = c := by
    intro c member
    obtain ⟨sub, sized⟩ := mem_candidates.mp member
    refine ⟨toFinset_subset.mpr sub.subset, ?_, filter_of_sublist distinct sub⟩
    rwa [List.toFinset_card_of_nodup (sub.nodup distinct)]
  constructor
  · rintro ⟨member, passed, least⟩
    obtain ⟨within, sized, same⟩ := card v member
    refine ⟨v.toFinset, ⟨⟨within, sized, (tested v member).mp passed⟩, ?_⟩, same.symm⟩
    rintro t ⟨inside, fits, holds⟩ below
    have other := listed t inside fits
    have equal : ordered.filter (· ∈ t) = v := by
      refine least _ other ((tested _ other).mpr ?_) ?_
      · rwa [toFinset_filter inside]
      · rwa [toFinset_filter inside]
    rw [← equal, toFinset_filter inside]
  · rintro ⟨s, minimal, rfl⟩
    obtain ⟨within, sized, holds⟩ := MinimalSets.prop_of_minimals minimal
    have member := listed s within sized
    refine ⟨member, (tested _ member).mpr (by rwa [toFinset_filter within]), ?_⟩
    intro c other passed below
    obtain ⟨inside, fits, same⟩ := card c other
    rw [toFinset_filter within] at below
    have above : s ≤ c.toFinset :=
      (MinimalSets.mem_minimals.mp minimal).le_of_le ⟨inside, fits, (tested c other).mp passed⟩ below
    rw [← same, Finset.Subset.antisymm below above]

variable {test : List Identifier → Analysis Bool} {passes : List Identifier → Bool}

theorem yields_keepMinimal {minimal : List (List Identifier)} {candidate : List Identifier}
    (tests : Yields (test candidate) (· = passes candidate)) :
    Yields (keepMinimal test minimal candidate)
      (· = MinimalSets.select List.toFinset passes minimal candidate) := by
  have same : (fun existing : List Identifier => decide (existing ⊆ candidate)) =
      fun existing => decide (existing.toFinset ≤ candidate.toFinset) := by
    funext existing
    exact decide_eq_decide.mpr toFinset_subset.symm
  refine yields_bind (yields_spend 1) fun _ _ => ?_
  rw [MinimalSets.select, ← same]
  split_ifs with above passed
  · exact yields_pure rfl
  · refine yields_bind tests fun b result => yields_pure ?_
    rw [result, passed, if_pos rfl]
  · refine yields_bind tests fun b result => yields_pure ?_
    rw [result, if_neg passed]

theorem spends_keepMinimal (spends : ∀ c, Spends (test c)) (minimal : List (List Identifier))
    (candidate : List Identifier) : Spends (keepMinimal test minimal candidate) := by
  refine spends_bind (spends_spend 1) (yields_trivial _) fun _ _ => ?_
  split_ifs
  · exact spends_pure _
  · exact spends_bind (spends candidate) (yields_trivial _) fun _ _ => spends_pure _

theorem yields_enumeration (distinct : ordered.Nodup) (increasing : sizes.Pairwise (· < ·))
    (tests : ∀ c ∈ candidates ordered sizes, Yields (test c) fun b => b = true ↔ P c.toFinset) :
    Yields ((candidates ordered sizes).foldlM (keepMinimal test) []) fun minimal =>
      ExactFamily ordered (fun s => s.card ∈ sizes ∧ P s) ⟨minimal, true⟩ := by
  classical
  have tested : ∀ c ∈ candidates ordered sizes,
      Yields (test c) (· = decide (P c.toFinset)) := by
    refine fun c member => (tests c member).mono fun b said => ?_
    rw [Bool.eq_iff_iff, said, decide_eq_true_iff]
  have step : ∀ minimal, ∀ c ∈ candidates ordered sizes, Yields (keepMinimal test minimal c)
      (· = MinimalSets.select List.toFinset (fun c => decide (P c.toFinset)) minimal c) :=
    fun minimal c member => yields_keepMinimal (tested c member)
  refine (yields_foldlM_eq step []).mono fun minimal same => ?_
  rw [same]
  exact exactFamily_select distinct increasing fun c _ => by simp

end kept

section closures
variable {network : Network} {allowed allowed' initial : Finset Identifier}

def ReachedBy (network : Network) (allowed initial : Finset Identifier) (x : Identifier) : Prop :=
  Horn.Derivable {r | ∃ id ∈ allowed, ∃ t, network[id]? = some t ∧ flows t = r} ↑initial x

theorem ReachedBy.mono {x : Identifier} (reached : ReachedBy network allowed initial x)
    (more : allowed ⊆ allowed') : ReachedBy network allowed' initial x := by
  refine Horn.Derivable.mono reached ?_ (Set.Subset.refl _)
  rintro r ⟨id, member, listed⟩
  exact ⟨id, more member, listed⟩

theorem yields_structuralClosure {allows : Identifier → Bool}
    (allowance : ∀ id ∈ network, (allows id = true ↔ id ∈ allowed)) :
    Yields (structuralClosure initial network allows) fun closure =>
      ∀ x, x ∈ closure ↔ ReachedBy network allowed initial x := by
  refine (yields_closureOf _ initial).mono fun closure derived x => ?_
  rw [derived x, ReachedBy]
  congr! 1
  ext r
  simp only [Set.mem_ofPred_eq, List.mem_map, List.mem_filter, Prod.exists,
    Std.ExtTreeMap.mem_toList_iff_getElem?_eq_some]
  constructor
  · rintro ⟨id, t, ⟨listed, permitted⟩, rfl⟩
    exact ⟨id, (allowance id (Dict.mem_of_getElem? listed)).mp permitted, t,
      listed, rfl⟩
  · rintro ⟨id, permitted, t, listed, rfl⟩
    exact ⟨id, t, ⟨listed,
      (allowance id (Dict.mem_of_getElem? listed)).mpr permitted⟩, rfl⟩

theorem spends_closureLoop (rules : List (Horn.Rule Identifier)) (n : ℕ) :
    ∀ s : Finset Identifier, (∃ t, Horn.saturate rules n s = some t) →
      Spends (closureLoop rules n s) := by
  induction n with
  | zero =>
    rintro s ⟨t, saturated⟩
    simp [Horn.saturate] at saturated
  | succ n ih =>
    rintro s ⟨t, saturated⟩
    have paid : Spends (closurePass rules s) := spends_foldlM (fun progress rule =>
      spends_bind (spends_spend 1) (yields_trivial _) fun _ _ => spends_pure _) _ _
    refine spends_bind paid (yields_closurePass rules s) fun progress same => ?_
    rw [same]
    rw [Horn.saturate] at saturated
    split_ifs with changed
    · refine ih _ ⟨t, ?_⟩
      rw [if_neg (by simpa using Ne.symm (of_decide_eq_true changed))] at saturated
      exact saturated
    · exact spends_pure _

theorem spends_closureOf (rules : List (Horn.Rule Identifier)) (s : Finset Identifier) :
    Spends (closureOf rules s) := by
  refine spends_closureLoop rules _ s (Horn.saturate_total ?_)
  exact Nat.lt_succ_of_le (Finset.card_le_card Finset.sdiff_subset)

end closures

section siphons
variable (network : Network) (coordinates : Finset Identifier)

def flowRules : Set (Horn.Rule Identifier) := {r | ∃ t ∈ network.values, flows t = r}

def fedStates (markings : Dict ℚ) (supplied : Finset Identifier) : Finset Identifier :=
  ((markings.toList.filter fun p => decide (0 < p.2)).map Prod.fst).toFinset ∪ supplied

variable {network coordinates}

theorem mem_fedStates {markings : Dict ℚ} {supplied : Finset Identifier} {x : Identifier} :
    x ∈ fedStates markings supplied ↔ 0 < markings.getD x 0 ∨ x ∈ supplied := by
  simp only [fedStates, Finset.mem_union, List.mem_toFinset, List.mem_map, List.mem_filter,
    Prod.exists, Std.ExtTreeMap.mem_toList_iff_getElem?_eq_some, decide_eq_true_eq]
  rw [Std.ExtTreeMap.getD_eq_getD_getElem?]
  refine or_congr_left ?_
  cases found : markings[x]? with
  | none => simp [found]
  | some value => simp [found]

theorem isSiphon_iff {candidate : List Identifier} :
    isSiphon (network.values.map flows) candidate = true ↔
      Horn.Siphon (flowRules network) candidate.toFinset := by
  simp only [isSiphon, List.all_map, List.all_eq_true, Function.comp_apply, Bool.or_eq_true,
    Bool.not_eq_true', decide_eq_false_iff_not, decide_eq_true_eq, Horn.Siphon, flowRules,
    Set.mem_ofPred_eq, forall_exists_index, and_imp, forall_apply_eq_imp_iff₂]
  refine forall₂_congr fun t _ => ?_
  simp only [Finset.Nonempty, Finset.mem_inter, List.mem_toFinset]
  exact Decidable.imp_iff_not_or.symm

theorem reachedBy_all {initial : Finset Identifier} {x : Identifier} :
    ReachedBy network network.keys.toFinset initial x ↔
      Horn.Derivable (flowRules network) ↑initial x := by
  unfold ReachedBy flowRules
  congr! 1
  ext r
  simp only [Set.mem_ofPred_eq, Dict.mem_values]
  constructor
  · rintro ⟨id, -, t, listed, rfl⟩
    exact ⟨t, ⟨id, listed⟩, rfl⟩
  · rintro ⟨t, ⟨id, listed⟩, rfl⟩
    exact ⟨id, Dict.mem_keys_toFinset.mpr (Dict.mem_of_getElem? listed), t, listed, rfl⟩

theorem decides_enumerateMinimalSiphons (few : coordinates.card ≤ maximumCoordinates) :
    Decides (enumerateMinimalSiphons network coordinates)
      (ExactFamily (coordinates.sort (· ≤ ·)) fun s =>
        s.Nonempty ∧ Horn.Siphon (flowRules network) s) := by
  have length : (coordinates.sort (· ≤ ·)).length = coordinates.card :=
    Finset.length_sort (· ≤ ·)
  unfold enumerateMinimalSiphons
  dsimp only
  rw [if_neg (by omega), decides_iff]
  constructor
  · refine yields_bind (yields_enumeration (Finset.sort_nodup _ _) List.pairwise_lt_range'
      fun c _ => yields_pure isSiphon_iff) fun minimal kept => yields_pure ?_
    refine kept.congr fun s within => and_congr_left fun _ => ?_
    rw [List.mem_range'_1, ← Finset.card_pos]
    have fits := Finset.card_le_card within
    rw [Finset.sort_toFinset] at fits
    omega
  · exact spends_bind (spends_foldlM (spends_keepMinimal fun c => spends_pure _) _ _)
      (yields_trivial _) fun minimal _ => spends_pure _

theorem mem_unfedSiphons {siphons : List (List Identifier)} {markings : Dict ℚ}
    {supplied : Finset Identifier} {siphon : List Identifier} :
    siphon ∈ unfedSiphons siphons (markings.getD · 0) supplied ↔
      siphon ∈ siphons ∧ ∀ x ∈ siphon, x ∉ fedStates markings supplied := by
  simp [unfedSiphons, mem_fedStates]

theorem mem_sorted {s : Finset Identifier} {x : Identifier} (within : s ⊆ coordinates) :
    x ∈ (coordinates.sort (· ≤ ·)).filter (· ∈ s) ↔ x ∈ s := by
  simp only [List.mem_filter, Finset.mem_sort, decide_eq_true_eq]
  exact and_iff_right_of_imp fun member => within member

/-- The siphons are the minimal ones, and those that are not fed say what is not reached. -/
structure CharacteristicSiphons (network : Network) (coordinates : Finset Identifier)
    (result : EnumerationResult) : Prop where
  minimal : ExactFamily (coordinates.sort (· ≤ ·))
    (fun s => s.Nonempty ∧ Horn.Siphon (flowRules network) s) result
  unreached : ∀ (markings : Dict ℚ) (supplied : Finset Identifier),
    Decides (structuralClosure (fedStates markings supplied) network fun _ => true) fun closure =>
      ((∀ t ∈ network.values, (flows t).premises ∪ (flows t).conclusions ⊆ coordinates) →
        (unfedSiphons result.values (markings.getD · 0) supplied = [] ↔ coordinates ⊆ closure)) ∧
      ∀ siphon ∈ unfedSiphons result.values (markings.getD · 0) supplied,
        ∀ x ∈ siphon, x ∉ closure

theorem minimalSiphons_characterise (network : Network) (coordinates : Finset Identifier)
    (few : coordinates.card ≤ maximumCoordinates) :
    Decides (enumerateMinimalSiphons network coordinates)
      (CharacteristicSiphons network coordinates) := by
  obtain ⟨yields, spends⟩ := decides_iff.mp (@decides_enumerateMinimalSiphons network _ few)
  refine decides_iff.mpr ⟨yields.mono fun result found => ⟨found, ?_⟩, spends⟩
  intro markings supplied
  refine decides_iff.mpr ⟨?_, spends_closureOf _ _⟩
  have allowance : ∀ id ∈ network, ((fun _ => true) id = true ↔ id ∈ network.keys.toFinset) :=
    fun id member => by simpa using member
  refine (yields_structuralClosure allowance).mono fun closure reached => ?_
  have derived : ∀ x, x ∈ closure ↔
      Horn.Derivable (flowRules network) ↑(fedStates markings supplied) x :=
    fun x => (reached x).trans reachedBy_all
  -- a returned siphon is a minimal siphon in the order of the coordinates
  have returned : ∀ v, v ∈ result.values ↔ ∃ s ∈ MinimalSets.minimals coordinates
      (fun s => s.Nonempty ∧ Horn.Siphon (flowRules network) s),
      v = (coordinates.sort (· ≤ ·)).filter (· ∈ s) := by
    have values := found.values
    rwa [Finset.sort_toFinset] at values
  constructor
  · intro covers
    have premises : ∀ r ∈ flowRules network, r.premises ⊆ coordinates := by
      rintro r ⟨t, listed, rfl⟩
      exact Finset.subset_union_left.trans (covers t listed)
    have fed := @Horn.derivable_iff_fed _ _ _ ↑(fedStates markings supplied) _ premises
    rw [List.eq_nil_iff_forall_not_mem, Finset.subset_iff]
    simp only [derived]
    rw [fed]
    constructor
    · intro none_unfed s minimal
      by_contra unfed
      push Not at unfed
      have within := (MinimalSets.prop_of_minimals minimal).1
      refine none_unfed _ (mem_unfedSiphons.mpr ⟨(returned _).mpr ⟨s, minimal, rfl⟩, ?_⟩)
      exact fun x member => unfed x ((mem_sorted within).mp member)
    · intro each v member
      obtain ⟨listed, unfed⟩ := mem_unfedSiphons.mp member
      obtain ⟨s, minimal, rfl⟩ := (returned v).mp listed
      obtain ⟨x, inside, source⟩ := each s minimal
      have within := (MinimalSets.prop_of_minimals minimal).1
      exact unfed x ((mem_sorted within).mpr inside) source
  · intro v member x inside
    obtain ⟨listed, unfed⟩ := mem_unfedSiphons.mp member
    obtain ⟨s, minimal, rfl⟩ := (returned v).mp listed
    obtain ⟨within, -, siphon⟩ := MinimalSets.prop_of_minimals minimal
    intro reachable
    refine siphon.avoids (fun y held => ?_) ((derived x).mp reachable) ((mem_sorted within).mp inside)
    exact unfed y ((mem_sorted within).mpr held)

end siphons

namespace NetworkSample

def exchange (id source product : Identifier) : Identifier × TransformationAttestation :=
  (id, ⟨⟨"tenant", "workspace", id, ⟨0, some 0⟩⟩, ∅, ⟨id, .ofList [(source, Rational.ofNat 1)],
    .ofList [(product, Rational.ofNat 1)], [], [], true, [], [],
    ⟨⟨0, some 0⟩, ⟨100, some 0⟩, none⟩⟩⟩)

def network : Network := .ofList [exchange "t" "a" "b", exchange "u" "b" "a"]

end NetworkSample

open NetworkSample in
theorem minimalSiphons_sample : Decides (enumerateMinimalSiphons network {"a", "b"})
    (CharacteristicSiphons network {"a", "b"}) :=
  minimalSiphons_characterise network {"a", "b"} (by decide)

section duality
variable (network : Network) (initial : Finset Identifier) (targets : List Identifier)

def Enables (allowed : Finset Identifier) : Prop :=
  ∀ x ∈ targets, ReachedBy network allowed initial x

/-- Without the removed transformations some target is not reached. -/
def Cuts (removed : Finset Identifier) : Prop :=
  ¬ Enables network initial targets (network.keys.toFinset \ removed)

variable {network initial targets}

theorem Enables.mono {s t : Finset Identifier} (more : s ⊆ t)
    (enables : Enables network initial targets s) : Enables network initial targets t :=
  fun x target => (enables x target).mono more

variable (targets) in
theorem yields_reaches {allows : Identifier → Bool} {allowed : Finset Identifier}
    (allowance : ∀ id ∈ network, (allows id = true ↔ id ∈ allowed)) :
    Yields (structuralClosure initial network allows) fun closure =>
      (∀ x ∈ targets, x ∈ closure) ↔ Enables network initial targets allowed :=
  (yields_structuralClosure allowance).mono fun _ reached => forall₂_congr fun x _ => reached x

theorem decides_enumerateMinimalCutSets (few : network.size ≤ maximumTransformations) :
    Decides (enumerateMinimalCutSets initial targets network)
      (ExactFamily network.keys (Cuts network initial targets)) := by
  have length : network.keys.length = network.size := Std.ExtTreeMap.length_keys
  have distinct : network.keys.Nodup := Std.ExtTreeMap.nodup_keys
  unfold enumerateMinimalCutSets
  dsimp only
  rw [if_neg (by omega), decides_iff]
  have all : ∀ id ∈ network, ((fun _ => true) id = true ↔ id ∈ network.keys.toFinset) :=
    fun id member => by simpa using member
  have others : ∀ c : List Identifier, ∀ id ∈ network,
      (decide (id ∉ c) = true ↔ id ∈ network.keys.toFinset \ c.toFinset) :=
    fun c id member => by simpa using fun _ => member
  constructor
  · refine yields_bind (yields_reaches targets all) fun closure whole => ?_
    split_ifs with reachable
    · have tests : ∀ c ∈ candidates network.keys (List.range' 1 network.keys.length),
          Yields (do let reached ← structuralClosure initial network (· ∉ c)
                     pure (decide ¬ ∀ target ∈ targets, target ∈ reached))
            fun b => b = true ↔ Cuts network initial targets c.toFinset := by
        refine fun c _ => yields_bind (yields_reaches targets (others c)) fun closure reached => ?_
        exact yields_pure (decide_eq_true_iff.trans (not_congr reached))
      refine yields_bind (yields_enumeration distinct List.pairwise_lt_range' tests)
        fun minimal kept => yields_pure ?_
      refine kept.congr fun s within => and_iff_right_of_imp fun cuts => ?_
      have fits := Finset.card_le_card within
      rw [List.toFinset_card_of_nodup distinct] at fits
      have some_removed : 0 < s.card := by
        rw [Finset.card_pos, Finset.nonempty_iff_ne_empty]
        rintro rfl
        exact cuts (by simpa using whole.mp reachable)
      rw [List.mem_range'_1]
      omega
    · have empty : Cuts network initial targets ∅ := by
        simpa [Cuts] using fun enables => reachable (whole.mpr enables)
      have least : ∅ ∈ MinimalSets.minimals network.keys.toFinset (Cuts network initial targets) :=
        ⟨⟨Finset.empty_subset _, empty⟩, fun _ _ _ => Finset.empty_subset _⟩
      refine yields_pure ⟨rfl, List.nodup_singleton _, fun v => ?_⟩
      rw [List.mem_singleton]
      constructor
      · intro same
        exact ⟨∅, least, by simp [same]⟩
      · rintro ⟨s, minimal, rfl⟩
        have below := (MinimalSets.mem_minimals.mp minimal).le_of_le
          (MinimalSets.prop_of_minimals least) (Finset.empty_subset s)
        rw [Finset.subset_empty.mp below]
        simp
  · refine spends_bind (spends_closureOf _ _) (yields_trivial _) fun closure _ => ?_
    split_ifs
    · exact spends_bind (spends_foldlM (spends_keepMinimal fun c => spends_bind
        (spends_closureOf _ _) (yields_trivial _) fun _ _ => spends_pure _) _ _)
        (yields_trivial _) fun minimal _ => spends_pure _
    · exact spends_pure _

theorem decides_enumerateMinimalEnablementSets (few : network.size ≤ maximumTransformations) :
    Decides (enumerateMinimalEnablementSets initial targets network)
      (ExactFamily network.keys (Enables network initial targets)) := by
  have length : network.keys.length = network.size := Std.ExtTreeMap.length_keys
  have distinct : network.keys.Nodup := Std.ExtTreeMap.nodup_keys
  unfold enumerateMinimalEnablementSets
  dsimp only
  rw [if_neg (by omega), decides_iff]
  have chosen : ∀ c : List Identifier, ∀ id ∈ network, (decide (id ∈ c) = true ↔ id ∈ c.toFinset) :=
    fun c id _ => by simp
  constructor
  · have tests : ∀ c ∈ candidates network.keys (List.range (network.keys.length + 1)),
        Yields (do let reached ← structuralClosure initial network (· ∈ c)
                   pure (decide (∀ target ∈ targets, target ∈ reached)))
          fun b => b = true ↔ Enables network initial targets c.toFinset := by
      refine fun c _ => yields_bind (yields_reaches targets (chosen c)) fun closure reached => ?_
      exact yields_pure (decide_eq_true_iff.trans reached)
    refine yields_bind (yields_enumeration distinct List.pairwise_lt_range tests)
      fun minimal kept => yields_pure ?_
    refine kept.congr fun s within => and_iff_right_of_imp fun _ => ?_
    have fits := Finset.card_le_card within
    rw [List.toFinset_card_of_nodup distinct] at fits
    rw [List.mem_range]
    omega
  · exact spends_bind (spends_foldlM (spends_keepMinimal fun c => spends_bind
      (spends_closureOf _ _) (yields_trivial _) fun _ _ => spends_pure _) _ _)
      (yields_trivial _) fun minimal _ => spends_pure _

/-- What is returned of the cuts and of the enablement sets of a network. -/
structure DualFamilies (network : Network) (initial : Finset Identifier)
    (targets : List Identifier) (cuts enablements : EnumerationResult) : Prop where
  cutsExact : ExactFamily network.keys (Cuts network initial targets) cuts
  enablementsExact : ExactFamily network.keys (Enables network initial targets) enablements
  cutsApart : IsAntichain (· ⊆ ·) cuts.family
  enablementsApart : IsAntichain (· ⊆ ·) enablements.family
  cutsHit : cuts.family =
    MinimalSets.minimals network.keys.toFinset (MinimalSets.Hits enablements.family)
  enablementsHit : enablements.family =
    MinimalSets.minimals network.keys.toFinset (MinimalSets.Hits cuts.family)

/-- Minimal cuts and minimal enablement sets are exact and dual. -/
theorem cuts_dual_enablements (network : Network) (initial : Finset Identifier)
    (targets : List Identifier) (few : network.size ≤ maximumTransformations) :
    Decides (enumerateMinimalCutSets initial targets network) fun cuts =>
      Decides (enumerateMinimalEnablementSets initial targets network) fun enablements =>
        DualFamilies network initial targets cuts enablements := by
  obtain ⟨yields, spends⟩ := decides_iff.mp (@decides_enumerateMinimalCutSets _ initial targets few)
  obtain ⟨yields', spends'⟩ :=
    decides_iff.mp (@decides_enumerateMinimalEnablementSets _ initial targets few)
  refine decides_iff.mpr ⟨yields.mono fun cuts cut => ?_, spends⟩
  refine decides_iff.mpr ⟨yields'.mono fun enablements enabled => ?_, spends'⟩
  have monotone : ∀ s t, s ⊆ t → Enables network initial targets s →
      Enables network initial targets t := fun _ _ => Enables.mono
  refine ⟨cut, enabled, ?_, ?_, ?_, ?_⟩
  · rw [cut.family_eq]
    exact MinimalSets.isAntichain_minimals _
  · rw [enabled.family_eq]
    exact MinimalSets.isAntichain_minimals _
  · rw [cut.family_eq, enabled.family_eq]
    exact MinimalSets.minimals_defeats monotone
  · rw [cut.family_eq, enabled.family_eq]
    exact MinimalSets.minimals_enables monotone

end duality

open NetworkSample in
theorem cuts_dual_sample : Decides (enumerateMinimalCutSets {"a"} ["b"] network) fun cuts =>
    Decides (enumerateMinimalEnablementSets {"a"} ["b"] network) fun enablements =>
      DualFamilies network {"a"} ["b"] cuts enablements :=
  cuts_dual_enablements network {"a"} ["b"] (by decide +kernel)

end CollectivePhaseControl
