import CollectivePhaseControl.NetworkEnumerations

/-! Food-generated sets. The layers of a network's generation are strictly prior to each other
and their union generates what its own closure holds; it is a generalized RAF if nothing it
generates inhibits it; and without inhibitors the generalized RAFs have a greatest one. -/
namespace CollectivePhaseControl

section rafs
variable (network : Network) (food evidence authority : Finset Identifier)

/-- What a transformation asks of what is at hand. -/
structure Supported (t : TransformationAttestation) (atHand : Identifier → Prop) : Prop where
  inputs : ∀ x ∈ (flows t).premises, atHand x
  inhibitors : ∀ x ∈ t.spec.inhibitors, ¬ atHand x
  evidence : ∀ x ∈ t.spec.requiredEvidence, x ∈ evidence
  authority : ∀ x ∈ t.spec.requiredAuthority, x ∈ authority
  catalysts : t.spec.uncatalyzed = true ∨ ∃ clause ∈ t.spec.catalystClauses, ∀ x ∈ clause, atHand x

/-- A set of transformations that its own closure of the food supports. -/
structure GeneralizedRaf (s : Finset Identifier) : Prop where
  nonempty : s.Nonempty
  supported : ∀ id ∈ s, ∃ t, network[id]? = some t ∧
    Supported evidence authority t (ReachedBy network s food)

variable {network food evidence authority}

theorem supported_iff {t : TransformationAttestation} {available : Finset Identifier} :
    Supported evidence authority t (· ∈ available) ↔
      (flows t).premises ⊆ available ∧ licensed t.spec available evidence authority = true := by
  simp only [licensed, catalysed, Bool.and_eq_true, List.all_eq_true, decide_eq_true_eq,
    Bool.or_eq_true, List.any_eq_true]
  constructor
  · rintro ⟨inputs, inhibitors, evidence, authority, catalysts⟩
    exact ⟨inputs, ⟨⟨inhibitors, evidence⟩, authority⟩, catalysts⟩
  · rintro ⟨inputs, ⟨⟨inhibitors, evidence⟩, authority⟩, catalysts⟩
    exact ⟨inputs, inhibitors, evidence, authority, catalysts⟩

theorem isGeneralizedRaf_iff {candidate : List Identifier} {closure : Finset Identifier}
    (reached : ∀ x, x ∈ closure ↔ ReachedBy network candidate.toFinset food x) :
    isGeneralizedRaf candidate network closure evidence authority = true ↔
      GeneralizedRaf network food evidence authority candidate.toFinset := by
  have same : (· ∈ closure) = ReachedBy network candidate.toFinset food :=
    funext fun x => propext (reached x)
  rw [isGeneralizedRaf, Bool.and_eq_true, List.all_eq_true]
  constructor
  · rintro ⟨some_listed, all⟩
    refine ⟨by simpa using some_listed, fun id member => ?_⟩
    have listed := all id (List.mem_toFinset.mp member)
    split at listed
    · rename_i item found
      exact ⟨item, found, by simpa [← same, supported_iff] using listed⟩
    · cases listed
  · rintro ⟨some_listed, supported⟩
    refine ⟨by simpa using some_listed, fun id member => ?_⟩
    obtain ⟨item, found, holds⟩ := supported id (List.mem_toFinset.mpr member)
    rw [found]
    simpa [← same, supported_iff] using holds

theorem yields_rafClosure (identifiers : List Identifier) :
    Yields (rafClosure food identifiers network) fun closure =>
      ∀ x, x ∈ closure ↔ ReachedBy network identifiers.toFinset food x := by
  have allowance : ∀ id ∈ network, (decide (id ∈ identifiers) = true ↔ id ∈ identifiers.toFinset) :=
    fun id _ => by simp
  exact yields_structuralClosure allowance

theorem spends_rafClosure (identifiers : List Identifier) :
    Spends (rafClosure food identifiers network) := spends_closureOf _ _

/-- The layers that are generated from what is available, and what is available in the end. -/
inductive Layered (evidence authority : Finset Identifier) : Finset Identifier →
    List (Identifier × TransformationAttestation) → List (List Identifier) →
    Finset Identifier → Prop
  | stop (available : Finset Identifier)
      (remaining : List (Identifier × TransformationAttestation)) :
      Layered evidence authority available remaining [] available
  | layer {available final : Finset Identifier}
      {remaining rest layer : List (Identifier × TransformationAttestation)}
      {layers : List (List Identifier)} :
      (∀ item ∈ layer, item ∈ remaining ∧ Supported evidence authority item.2 (· ∈ available)) →
      rest ⊆ remaining →
      Layered evidence authority (produce available layer) rest layers final →
      Layered evidence authority available remaining (layer.map Prod.fst :: layers) final

theorem mem_produce {available : Finset Identifier}
    {layer : List (Identifier × TransformationAttestation)} {x : Identifier} :
    x ∈ produce available layer ↔
      x ∈ available ∨ ∃ item ∈ layer, x ∈ (flows item.2).conclusions := by
  unfold produce
  induction layer generalizing available with
  | nil => simp
  | cons item layer ih =>
    rw [List.foldl_cons, ih, Finset.mem_union, or_assoc]
    simp

theorem yields_generativeLayer {available : Finset Identifier}
    {remaining : List (Identifier × TransformationAttestation)} :
    Yields (generativeLayer evidence authority available remaining) fun layer => ∀ item,
      item ∈ layer ↔ item ∈ remaining ∧ Supported evidence authority item.2 (· ∈ available) := by
  have pass := yields_foldlM_keep (fun item : Identifier × TransformationAttestation =>
    (flows item.2).premises ⊆ available ∧
      licensed item.2.spec available evidence authority = true) 1 remaining []
  refine Yields.mono pass fun layer same item => ?_
  rw [same, List.nil_append, List.mem_filter, decide_eq_true_eq, supported_iff]

theorem yields_generativeLayers (n : ℕ) : ∀ (available : Finset Identifier)
    (remaining : List (Identifier × TransformationAttestation)),
    Yields (generativeLayers evidence authority n available remaining) fun r =>
      Layered evidence authority available remaining r.1 r.2 := by
  induction n with
  | zero => exact fun _ _ => yields_throw _
  | succ n ih =>
    intro available remaining
    rw [generativeLayers]
    split_ifs
    · exact yields_pure (.stop available remaining)
    · refine yields_bind yields_generativeLayer fun layer supported => ?_
      split_ifs
      · exact yields_pure (.stop available remaining)
      · refine yields_bind (ih _ _) fun r later => yields_pure ?_
        exact .layer (fun item member => (supported item).mp member)
          (List.filter_subset_self _) later

theorem yields_generativeLayers_all (n : ℕ) : ∀ (available : Finset Identifier)
    (remaining : List (Identifier × TransformationAttestation)),
    Yields (generativeLayers evidence authority n available remaining) fun r =>
      ∀ item ∈ remaining, Supported evidence authority item.2 (· ∈ r.2) →
        item.1 ∈ r.1.flatten := by
  induction n with
  | zero => exact fun _ _ => yields_throw _
  | succ n ih =>
    intro available remaining
    rw [generativeLayers]
    split_ifs with done
    · exact yields_pure fun item member => by simp [done] at member
    · refine yields_bind yields_generativeLayer fun layer supported => ?_
      split_ifs with empty
      · refine yields_pure fun item member supports => ?_
        have inside := (supported item).mpr ⟨member, supports⟩
        rw [empty] at inside
        cases inside
      · refine yields_bind (ih _ _) fun r later => yields_pure fun item member supports => ?_
        rw [List.flatten_cons, List.mem_append]
        by_cases taken : item.1 ∈ layer.map Prod.fst
        · exact .inl taken
        · exact .inr (later item (List.mem_filter.mpr ⟨member, decide_eq_true taken⟩) supports)

/-- At hand before a layer: the food and what earlier layers produce. -/
def Prior (network : Network) (food : Finset Identifier) (earlier : List (List Identifier))
    (x : Identifier) : Prop :=
  x ∈ food ∨ ∃ id ∈ earlier.flatten, ∃ t, network[id]? = some t ∧ x ∈ (flows t).conclusions

section layered
variable {available final : Finset Identifier} {layers : List (List Identifier)}
  {remaining : List (Identifier × TransformationAttestation)}

theorem Layered.outputs (layered : Layered evidence authority available remaining layers final)
    (listed : ∀ item ∈ remaining, network[item.1]? = some item.2) :
    available ⊆ final ∧ ∀ id ∈ layers.flatten, ∃ t, network[id]? = some t ∧
      (flows t).conclusions ⊆ final := by
  induction layered with
  | stop available remaining => simp
  | @layer available final remaining rest layer layers supported fewer _ ih =>
    obtain ⟨grows, later⟩ := ih fun item member => listed item (fewer member)
    refine ⟨fun x member => grows (mem_produce.mpr (.inl member)), fun id member => ?_⟩
    rw [List.flatten_cons, List.mem_append, List.mem_map] at member
    cases member with
    | inl here =>
      obtain ⟨item, member, rfl⟩ := here
      refine ⟨item.2, listed item (supported item member).1, fun x output => grows ?_⟩
      exact mem_produce.mpr (.inr ⟨item, member, output⟩)
    | inr after => exact later id after

theorem mem_flatten_cons {layer : List (Identifier × TransformationAttestation)} {id : Identifier} :
    id ∈ (layer.map Prod.fst :: layers).flatten ↔
      (∃ item ∈ layer, item.1 = id) ∨ id ∈ layers.flatten := by
  rw [List.flatten_cons, List.mem_append, List.mem_map]

theorem Layered.closure (layered : Layered evidence authority available remaining layers final)
    (listed : ∀ item ∈ remaining, network[item.1]? = some item.2) {x : Identifier} :
    x ∈ final ↔ ReachedBy network layers.flatten.toFinset available x := by
  constructor
  · induction layered with
    | stop available remaining => exact fun member => .base member
    | @layer available final remaining rest layer layers supported fewer _ ih =>
      intro member
      refine Horn.Derivable.mem (ih (fun item other => listed item (fewer other)) member) ?_ ?_
      · intro y at_hand
        cases mem_produce.mp at_hand with
        | inl start => exact .base start
        | inr output =>
          obtain ⟨item, member, output⟩ := output
          obtain ⟨known, supports⟩ := supported item member
          refine .fire ⟨item.1, ?_, item.2, listed item known, rfl⟩
            (fun z premise => .base (supports.inputs z premise)) output
          exact List.mem_toFinset.mpr (mem_flatten_cons.mpr (.inl ⟨item, member, rfl⟩))
      · rintro r ⟨id, member, t, found, rfl⟩ premises y output
        refine .fire ⟨id, ?_, t, found, rfl⟩ premises output
        exact List.mem_toFinset.mpr (mem_flatten_cons.mpr (.inr (List.mem_toFinset.mp member)))
  · intro reached
    obtain ⟨start, outputs⟩ := layered.outputs listed
    refine Horn.Derivable.mem reached start ?_
    rintro r ⟨id, member, t, found, rfl⟩ _ y output
    obtain ⟨t', same, inside⟩ := outputs id (List.mem_toFinset.mp member)
    rw [found] at same
    cases same
    exact inside output

theorem prior_produce {layer : List (Identifier × TransformationAttestation)}
    (listed : ∀ item ∈ layer, network[item.1]? = some item.2) {earlier : List (List Identifier)} :
    Prior network (produce available layer) earlier =
      Prior network available (layer.map Prod.fst :: earlier) := by
  funext x
  refine propext ?_
  simp only [Prior, mem_produce, mem_flatten_cons]
  constructor
  · rintro ((start | ⟨item, member, output⟩) | ⟨id, member, t, found, output⟩)
    · exact .inl start
    · exact .inr ⟨item.1, .inl ⟨item, member, rfl⟩, item.2, listed item member, output⟩
    · exact .inr ⟨id, .inr member, t, found, output⟩
  · rintro (start | ⟨id, (⟨item, member, rfl⟩ | member), t, found, output⟩)
    · exact .inl (.inl start)
    · rw [listed item member] at found
      cases found
      exact .inl (.inr ⟨item, member, output⟩)
    · exact .inr ⟨id, member, t, found, output⟩

theorem Layered.strict (layered : Layered evidence authority available remaining layers final)
    (listed : ∀ item ∈ remaining, network[item.1]? = some item.2) :
    ∀ earlier layer later, layers = earlier ++ layer :: later → ∀ id ∈ layer,
      ∃ t, network[id]? = some t ∧
        Supported evidence authority t (Prior network available earlier) := by
  induction layered with
  | stop available remaining => simp
  | @layer available final remaining rest first layers supported fewer _ ih =>
    intro earlier layer later split id member
    cases earlier with
    | nil =>
      rw [List.nil_append, List.cons.injEq] at split
      rw [← split.1, List.mem_map] at member
      obtain ⟨item, member, rfl⟩ := member
      obtain ⟨known, supports⟩ := supported item member
      have start : Prior network available [] = (· ∈ available) := by
        funext x
        simp [Prior]
      exact ⟨item.2, listed item known, start ▸ supports⟩
    | cons head earlier =>
      rw [List.cons_append, List.cons.injEq] at split
      obtain ⟨rfl, split⟩ := split
      rw [← prior_produce fun item member => listed item (supported item member).1]
      exact ih (fun item member => listed item (fewer member)) earlier layer later split id member

theorem Prior.mono {earlier later : List (List Identifier)} {x : Identifier}
    (prior : Prior network food earlier x) (more : ∀ id ∈ earlier.flatten, id ∈ later.flatten) :
    Prior network food later x := by
  refine prior.imp_right ?_
  rintro ⟨id, member, t, found, output⟩
  exact ⟨id, more id member, t, found, output⟩

theorem Layered.raf (layered : Layered evidence authority food remaining layers final)
    (listed : ∀ item ∈ remaining, network[item.1]? = some item.2)
    (nonempty : layers.flatten ≠ [])
    (uninhibited : ∀ id ∈ layers.flatten, ∀ t, network[id]? = some t →
      ∀ x ∈ t.spec.inhibitors, x ∉ final) :
    GeneralizedRaf network food evidence authority layers.flatten.toFinset := by
  have held : ∀ x, Prior network food layers x → x ∈ final := by
    obtain ⟨start, outputs⟩ := layered.outputs listed
    rintro x (source | ⟨id, member, t, found, output⟩)
    · exact start source
    · obtain ⟨t', same, inside⟩ := outputs id member
      rw [found] at same
      cases same
      exact inside output
  refine ⟨by simpa using nonempty, fun id member => ?_⟩
  obtain ⟨layer, inside, member⟩ := List.mem_flatten.mp (List.mem_toFinset.mp member)
  obtain ⟨earlier, later, split⟩ := List.append_of_mem inside
  obtain ⟨t, found, supports⟩ := layered.strict listed earlier layer later split id member
  have reached : ∀ x, Prior network food earlier x →
      ReachedBy network layers.flatten.toFinset food x := by
    intro x prior
    refine (layered.closure listed).mp (held x (prior.mono fun other listed => ?_))
    rw [split, List.flatten_append]
    exact List.mem_append_left _ listed
  have own : id ∈ layers.flatten := List.mem_flatten.mpr ⟨layer, inside, member⟩
  refine ⟨t, found, fun x input => reached x (supports.inputs x input), ?_, supports.evidence,
    supports.authority, ?_⟩
  · exact fun x inhibitor at_hand =>
      uninhibited id own t found x inhibitor ((layered.closure listed).mpr at_hand)
  · refine supports.catalysts.imp_right ?_
    rintro ⟨clause, member, present⟩
    exact ⟨clause, member, fun x inside => reached x (present x inside)⟩

end layered

theorem Supported.mono {t : TransformationAttestation} {atHand atHand' : Identifier → Prop}
    (supports : Supported evidence authority t atHand) (more : ∀ x, atHand x → atHand' x)
    (uninhibited : t.spec.inhibitors = []) : Supported evidence authority t atHand' := by
  refine ⟨fun x input => more x (supports.inputs x input), by simp [uninhibited],
    supports.evidence, supports.authority, supports.catalysts.imp_right ?_⟩
  rintro ⟨clause, member, present⟩
  exact ⟨clause, member, fun x inside => more x (present x inside)⟩

theorem GeneralizedRaf.union {s t : Finset Identifier}
    (left : GeneralizedRaf network food evidence authority s)
    (right : GeneralizedRaf network food evidence authority t)
    (uninhibited : ∀ item ∈ network.values, item.spec.inhibitors = []) :
    GeneralizedRaf network food evidence authority (s ∪ t) := by
  refine ⟨left.nonempty.mono Finset.subset_union_left, fun id member => ?_⟩
  cases Finset.mem_union.mp member with
  | inl first =>
    obtain ⟨item, found, supports⟩ := left.supported id first
    exact ⟨item, found, supports.mono (fun x reached => reached.mono Finset.subset_union_left)
      (uninhibited item (Dict.mem_values.mpr ⟨id, found⟩))⟩
  | inr second =>
    obtain ⟨item, found, supports⟩ := right.supported id second
    exact ⟨item, found, supports.mono (fun x reached => reached.mono Finset.subset_union_right)
      (uninhibited item (Dict.mem_values.mpr ⟨id, found⟩))⟩

section enumeration

open Classical in
noncomputable def reachedSet (network : Network) (food : Finset Identifier)
    (candidate : List Identifier) : Finset Identifier :=
  (food ∪ (network.values.map flows).foldr (fun r all => r.conclusions ∪ all) ∅).filter
    fun x => ReachedBy network candidate.toFinset food x

theorem mem_reachedSet {candidate : List Identifier} {x : Identifier} :
    x ∈ reachedSet network food candidate ↔ ReachedBy network candidate.toFinset food x := by
  classical
  rw [reachedSet, Finset.mem_filter, and_iff_right_iff_imp, Finset.mem_union]
  intro reached
  cases Horn.Derivable.origin reached with
  | inl start => exact .inl start
  | inr fired =>
    obtain ⟨r, ⟨id, -, t, found, rfl⟩, -, output⟩ := fired
    refine .inr (Horn.mem_conclusions.mpr ⟨flows t, ?_, output⟩)
    exact List.mem_map_of_mem (Dict.mem_values.mpr ⟨id, found⟩)

open Classical in
theorem yields_keepRaf (valid : List (List Identifier × Finset Identifier))
    (candidate : List Identifier) :
    Yields (keepRaf network food evidence authority valid candidate)
      (· = if GeneralizedRaf network food evidence authority candidate.toFinset then
        valid ++ [(candidate, reachedSet network food candidate)] else valid) := by
  refine yields_bind (yields_spend 1) fun _ _ => ?_
  refine yields_bind (yields_rafClosure candidate) fun closure reached => yields_pure ?_
  have same : closure = reachedSet network food candidate := by
    ext x
    rw [reached, mem_reachedSet]
  rw [if_congr (isGeneralizedRaf_iff reached) rfl rfl, same]

open Classical in
theorem yields_valid (tried : List (List Identifier)) :
    Yields (tried.foldlM (keepRaf network food evidence authority) []) fun valid =>
      valid.map Prod.fst = tried.filter fun c =>
        decide (GeneralizedRaf network food evidence authority c.toFinset) := by
  refine (yields_foldlM_eq (fun valid c _ => yields_keepRaf valid c) []).mono fun valid same => ?_
  subst same
  induction tried using List.reverseRecOn with
  | nil => simp
  | append_singleton tried c ih =>
    rw [List.foldl_concat, List.filter_append]
    split_ifs with raf
    · rw [List.map_append, ih]
      simp [raf]
    · rw [ih]
      simp [raf]

theorem spends_keepRaf (valid : List (List Identifier × Finset Identifier))
    (candidate : List Identifier) :
    Spends (keepRaf network food evidence authority valid candidate) :=
  spends_bind (spends_spend 1) (yields_trivial _) fun _ _ =>
    spends_bind (spends_rafClosure _) (yields_trivial _) fun _ _ => spends_pure _

theorem remaining_lt {remaining layer : List (Identifier × TransformationAttestation)}
    (nonempty : layer ≠ []) (inside : ∀ item ∈ layer, item ∈ remaining) :
    (remaining.filter (fun item => item.1 ∉ layer.map Prod.fst)).length < remaining.length := by
  obtain ⟨item, member⟩ := List.exists_mem_of_ne_nil layer nonempty
  refine List.length_filter_lt_length_iff_exists.mpr ⟨item, inside item member, ?_⟩
  simpa using ⟨item.2, member⟩

theorem spends_generativeLayers (n : ℕ) : ∀ (available : Finset Identifier)
    (remaining : List (Identifier × TransformationAttestation)), remaining.length < n →
    Spends (generativeLayers evidence authority n available remaining) := by
  induction n with
  | zero => exact fun _ _ few => absurd few (Nat.not_lt_zero _)
  | succ n ih =>
    intro available remaining few
    rw [generativeLayers]
    split_ifs
    · exact spends_pure _
    · have paid : Spends (generativeLayer evidence authority available remaining) :=
        spends_foldlM (fun layer item => spends_bind (spends_spend 1) (yields_trivial _)
          fun _ _ => spends_pure _) _ _
      refine spends_bind paid yields_generativeLayer fun layer supported => ?_
      split_ifs with empty
      · exact spends_pure _
      · refine spends_bind (ih _ _ ?_) (yields_trivial _) fun _ _ => spends_pure _
        have fewer := remaining_lt empty fun item member => ((supported item).mp member).1
        omega

/-- The generalized RAFs among some sets that no other one properly holds. -/
def maximalAmong (rafs : List (List Identifier)) : List (List Identifier) :=
  rafs.filter fun candidate =>
    rafs.all fun other => !(decide (candidate ⊆ other) && !decide (other ⊆ candidate))

theorem mem_maximalAmong {rafs : List (List Identifier)} {m : List Identifier} :
    m ∈ maximalAmong rafs ↔ m ∈ rafs ∧ ∀ other ∈ rafs, m ⊆ other → other ⊆ m := by
  simp only [maximalAmong, List.mem_filter, List.all_eq_true, Bool.not_eq_true',
    Bool.and_eq_false_iff, decide_eq_false_iff_not, Bool.not_eq_false', decide_eq_true_eq]
  refine and_congr_right fun _ => forall₂_congr fun other _ => ?_
  exact imp_iff_not_or.symm

theorem exists_maximalAmong {rafs : List (List Identifier)} {c : List Identifier}
    (member : c ∈ rafs) : ∃ m ∈ maximalAmong rafs, c ⊆ m := by
  obtain ⟨s, above, maximal⟩ := (rafs.map List.toFinset).finite_toSet.exists_le_maximal
    (List.mem_map_of_mem member)
  obtain ⟨m, listed, rfl⟩ := List.mem_map.mp maximal.prop
  refine ⟨m, mem_maximalAmong.mpr ⟨listed, fun other another below => ?_⟩,
    toFinset_subset.mp above⟩
  exact toFinset_subset.mp (maximal.le_of_ge (List.mem_map_of_mem another)
    (toFinset_subset.mpr below))

/-- What the analysis of a network's food-generated sets says. -/
structure RafStructure (network : Network) (food evidence authority : Finset Identifier)
    (analysis : RafAnalysis) : Prop where
  exhaustive : analysis.exhaustive = true
  closure : Decides (rafClosure food analysis.generativeLayers.flatten network)
    (· = analysis.generativeClosure)
  strict : ∀ earlier layer later, analysis.generativeLayers = earlier ++ layer :: later →
    ∀ id ∈ layer, ∃ t, network[id]? = some t ∧
      Supported evidence authority t (Prior network food earlier)
  generated : analysis.generativeLayers.flatten ≠ [] →
    (∀ id ∈ analysis.generativeLayers.flatten, ∀ t, network[id]? = some t →
      ∀ x ∈ t.spec.inhibitors, x ∉ analysis.generativeClosure) →
    GeneralizedRaf network food evidence authority analysis.generativeLayers.flatten.toFinset ∧
      ∃ m ∈ analysis.maximalRafs, analysis.generativeLayers.flatten ⊆ m
  greatest : (∀ t ∈ network.values, t.spec.inhibitors = []) →
    analysis.maximalRafs.length ≤ 1 ∧
      ∀ s, GeneralizedRaf network food evidence authority s →
        ∃ m ∈ analysis.maximalRafs, s ⊆ m.toFinset

theorem GeneralizedRaf.subset {s : Finset Identifier}
    (raf : GeneralizedRaf network food evidence authority s) : s ⊆ network.keys.toFinset := by
  intro id member
  obtain ⟨t, found, -⟩ := raf.supported id member
  exact Dict.mem_keys_toFinset.mpr (Dict.mem_of_getElem? found)

theorem GeneralizedRaf.tried {s : Finset Identifier}
    (raf : GeneralizedRaf network food evidence authority s) :
    network.keys.filter (· ∈ s) ∈ candidates network.keys (List.range' 1 network.keys.length) := by
  have distinct : network.keys.Nodup := Std.ExtTreeMap.nodup_keys
  have length : (network.keys.filter (· ∈ s)).length = s.card := by
    rw [← List.toFinset_card_of_nodup (distinct.filter _), toFinset_filter raf.subset]
  have fits := Finset.card_le_card raf.subset
  rw [List.toFinset_card_of_nodup distinct] at fits
  have positive := Finset.card_pos.mpr raf.nonempty
  refine mem_candidates.mpr ⟨List.filter_sublist, ?_⟩
  rw [length, List.mem_range'_1]
  omega

theorem maximalAmong_rafs {rafs : List (List Identifier)}
    (listed : ∀ c, c ∈ rafs ↔ c ∈ candidates network.keys (List.range' 1 network.keys.length) ∧
      GeneralizedRaf network food evidence authority c.toFinset) (distinct : rafs.Nodup) :
    (∀ s, GeneralizedRaf network food evidence authority s →
      ∃ m ∈ maximalAmong rafs, s ⊆ m.toFinset) ∧
    ((∀ t ∈ network.values, t.spec.inhibitors = []) → (maximalAmong rafs).length ≤ 1) := by
  have held : ∀ s, GeneralizedRaf network food evidence authority s →
      ∃ c ∈ rafs, c.toFinset = s := by
    intro s raf
    have same := toFinset_filter raf.subset
    exact ⟨_, (listed _).mpr ⟨raf.tried, same.symm ▸ raf⟩, same⟩
  constructor
  · intro s raf
    obtain ⟨c, member, rfl⟩ := held s raf
    obtain ⟨m, maximal, above⟩ := exists_maximalAmong member
    exact ⟨m, maximal, toFinset_subset.mpr above⟩
  · intro uninhibited
    have single : ∀ a ∈ maximalAmong rafs, ∀ b ∈ maximalAmong rafs, a ⊆ b := by
      intro a first b second
      obtain ⟨known, top⟩ := mem_maximalAmong.mp first
      obtain ⟨known', top'⟩ := mem_maximalAmong.mp second
      obtain ⟨c, member, whole⟩ := held _
        (((listed a).mp known).2.union ((listed b).mp known').2 uninhibited)
      have below : b ⊆ c := toFinset_subset.mp (whole ▸ Finset.subset_union_right)
      have inside : a ⊆ c := toFinset_subset.mp (whole ▸ Finset.subset_union_left)
      exact List.Subset.trans inside (top' c member below)
    have sub : ∀ c ∈ maximalAmong rafs, c.Sublist network.keys := fun c member =>
      (mem_candidates.mp ((listed c).mp (mem_maximalAmong.mp member).1).1).1
    have keys : network.keys.Nodup := Std.ExtTreeMap.nodup_keys
    have unique : ∀ a ∈ maximalAmong rafs, ∀ b ∈ maximalAmong rafs, a = b := by
      intro a first b second
      have same : a.toFinset = b.toFinset := Finset.Subset.antisymm
        (toFinset_subset.mpr (single a first b second))
        (toFinset_subset.mpr (single b second a first))
      rw [← filter_of_sublist keys (sub a first), ← filter_of_sublist keys (sub b second), same]
    have apart : (maximalAmong rafs).Nodup := distinct.filter _
    match found : maximalAmong rafs with
    | [] => simp
    | [_] => simp
    | a :: b :: rest =>
      rw [found] at apart unique
      exact absurd (unique a (by simp) b (by simp)) (by grind)

theorem rafs_characterise (network : Network) (food evidence authority : Finset Identifier)
    (few : network.size ≤ maximumTransformations) :
    Decides (exactGeneralizedGenerativeRaf network food evidence authority)
      (RafStructure network food evidence authority) := by
  classical
  have length : network.keys.length = network.size := Std.ExtTreeMap.length_keys
  have keys : network.keys.Nodup := Std.ExtTreeMap.nodup_keys
  unfold exactGeneralizedGenerativeRaf
  dsimp only
  rw [if_neg (by omega), decides_iff]
  constructor
  · refine yields_bind (yields_valid _) fun valid kept => ?_
    refine yields_bind (yields_generativeLayers _ _ _) fun r layered => yields_pure ?_
    have entries : ∀ item ∈ network.toList, network[item.1]? = some item.2 :=
      fun item member => Std.ExtTreeMap.mem_toList_iff_getElem?_eq_some.mp member
    have sorted := candidates_sorted keys
      (@List.pairwise_lt_range' 1 network.keys.length 1 Nat.one_pos)
    have tried : ∀ c, c ∈ valid.map Prod.fst ↔
        c ∈ candidates network.keys (List.range' 1 network.keys.length) ∧
          GeneralizedRaf network food evidence authority c.toFinset := by
      rw [kept]
      simp
    have distinct : (valid.map Prod.fst).Nodup := by
      rw [kept]
      refine List.Nodup.filter _ (sorted.imp fun different => ?_)
      rintro rfl
      exact different (le_refl _)
    obtain ⟨inside, few_maximal⟩ := maximalAmong_rafs tried distinct
    have maximal : ∀ s, GeneralizedRaf network food evidence authority s →
        ∃ m ∈ (maximalAmong (valid.map Prod.fst)).mergeSort, s ⊆ m.toFinset := by
      intro s raf
      obtain ⟨m, member, above⟩ := inside s raf
      exact ⟨m, List.mem_mergeSort.mpr member, above⟩
    refine ⟨rfl, ?_, layered.strict entries, ?_, ?_⟩
    · refine decides_iff.mpr ⟨(yields_rafClosure _).mono fun closure reached => ?_,
        spends_rafClosure _⟩
      ext x
      rw [reached, ← layered.closure entries]
    · intro nonempty uninhibited
      have raf := layered.raf entries nonempty uninhibited
      obtain ⟨m, member, above⟩ := maximal _ raf
      exact ⟨raf, m, member, toFinset_subset.mp above⟩
    · intro uninhibited
      refine ⟨?_, maximal⟩
      rw [List.length_mergeSort]
      exact few_maximal uninhibited
  · refine spends_bind (spends_foldlM spends_keepRaf _ _) (yields_trivial _) fun valid _ => ?_
    refine spends_bind (spends_generativeLayers _ _ _ ?_) (yields_trivial _)
      fun r _ => spends_pure _
    rw [← Std.ExtTreeMap.map_fst_toList_eq_keys, List.length_map]
    exact Nat.lt_succ_self _

end enumeration

end rafs

open NetworkSample in
theorem rafs_sample : Decides (exactGeneralizedGenerativeRaf network {"a"} ∅ ∅)
    (RafStructure network {"a"} ∅ ∅) :=
  rafs_characterise network {"a"} ∅ ∅ (by decide +kernel)

end CollectivePhaseControl
