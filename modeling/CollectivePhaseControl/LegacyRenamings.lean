import CollectivePhaseControl.LegacyClosures

/-! What the closures of the earlier formats owe to the names of transformations. A renaming
only reorders the worklists, so it matters exactly if firing one transformation can block
another. -/
namespace CollectivePhaseControl
namespace Legacy
open Firing

def system (transformations : Dict Edge) (labels : List Identifier) (initial : Finset Identifier)
    (blockers : Edge → Finset Identifier → List String) : System Identifier Identifier where
  labels := labels
  enabled id available :=
    (transformations[id]?).any fun edge => decide (blockers edge available = [])
  outputs id := (transformations[id]?).elim ∅ fun edge => idSet edge.producedOutputs
  base := initial

def feasibleSystem (transformations : Dict Edge) (nodes : Dict Node)
    (initial : Finset Identifier) : System Identifier Identifier :=
  system transformations transformations.keys initial fun edge available =>
    baseEdgeBlockers edge available nodes

def verifiedSystem (transformations : Dict Edge) (nodes : Dict Node)
    (initial : Finset Identifier) (feasibleEdges : List Identifier) :
    System Identifier Identifier :=
  system transformations feasibleEdges initial fun edge available =>
    verifiedEdgeBlockers edge available nodes

section blockers
variable {edge : Edge} {nodes : Dict Node} {s s' s'' : Finset Identifier}

theorem baseEdgeBlockers_between (first : baseEdgeBlockers edge s nodes = [])
    (last : baseEdgeBlockers edge s'' nodes = []) (above : s ⊆ s') (below : s' ⊆ s'') :
    baseEdgeBlockers edge s' nodes = [] := by
  simp only [baseEdgeBlockers, List.append_eq_nil_iff, reasonIf_eq_nil, not_not] at first last ⊢
  refine ⟨⟨⟨first.1.1.1, ?_⟩, first.1.2.trans above⟩, first.2⟩
  rw [← Finset.subset_empty, ← last.1.1.2]
  exact Finset.inter_subset_inter_left below

theorem baseEdgeBlockers_union {added : Finset Identifier}
    (unblocked : baseEdgeBlockers edge s nodes = [])
    (apart : Disjoint (idSet edge.inhibitors) added) :
    baseEdgeBlockers edge (s ∪ added) nodes = [] := by
  simp only [baseEdgeBlockers, List.append_eq_nil_iff, reasonIf_eq_nil, not_not] at unblocked ⊢
  refine ⟨⟨⟨unblocked.1.1.1, ?_⟩, unblocked.1.2.trans Finset.subset_union_left⟩, unblocked.2⟩
  rw [Finset.inter_union_distrib_left, unblocked.1.1.2, Finset.disjoint_iff_inter_eq_empty.mp apart,
    Finset.empty_union]

theorem sortedSet_eq_nil {values : List String} : sortedSet values = [] ↔ values = [] := by
  simp only [List.eq_nil_iff_forall_not_mem, mem_sortedSet]

theorem availableEvidence_mono (above : s ⊆ s') :
    availableEvidence s nodes ⊆ availableEvidence s' nodes :=
  Finset.filter_subset_filter _ above

theorem availableRoles_mono (above : s ⊆ s') : availableRoles s nodes ⊆ availableRoles s' nodes :=
  Finset.image_subset_image (Finset.filter_subset_filter _ above)

theorem base_of_verified (unblocked : verifiedEdgeBlockers edge s nodes = []) :
    baseEdgeBlockers edge s nodes = [] := by
  simp only [verifiedEdgeBlockers, sortedSet_eq_nil, List.append_eq_nil_iff] at unblocked
  tauto

theorem verifiedEdgeBlockers_mono (unblocked : verifiedEdgeBlockers edge s nodes = [])
    (above : s ⊆ s') (base : baseEdgeBlockers edge s' nodes = []) :
    verifiedEdgeBlockers edge s' nodes = [] := by
  simp only [verifiedEdgeBlockers, sortedSet_eq_nil, List.append_eq_nil_iff, reasonIf_eq_nil,
    not_and_or, not_not] at unblocked ⊢
  obtain ⟨⟨⟨⟨⟨⟨⟨⟨⟨⟨-, required⟩, evidence⟩, roles⟩, residual⟩, issued⟩, floor⟩, digest⟩, event⟩,
    lineage⟩, stale⟩ := unblocked
  exact ⟨⟨⟨⟨⟨⟨⟨⟨⟨⟨base, required⟩, evidence.imp_right fun held => held.trans
    (availableEvidence_mono above)⟩, roles.imp_right fun held => held.trans
    (availableRoles_mono above)⟩, residual⟩, issued⟩, floor⟩, digest⟩, event⟩, lineage⟩, stale⟩

end blockers

section loops
variable {transformations transformations' : Dict Edge} {nodes : Dict Node}
  {initial : Finset Identifier} {σ : Equiv.Perm Identifier} {order labels : List Identifier}

def Edge.renamed (σ : Equiv.Perm Identifier) (edge : Edge) : Edge :=
  { edge with transformationId := σ edge.transformationId }

def Renamed (σ : Equiv.Perm Identifier) (transformations transformations' : Dict Edge) : Prop :=
  ∀ id : Identifier, transformations'[σ id]? = (transformations[id]?).map (Edge.renamed σ)

theorem reached_of_fired {m : System Identifier Identifier} {fired : List Identifier}
    {id : Identifier} (member : id ∈ fired) : m.outputs id ⊆ m.reached fired :=
  fun _ output => System.mem_reached.mpr (.inr ⟨id, member, output⟩)

theorem mem_map_fired {fired : List Identifier} {id : Identifier} :
    σ id ∈ (fired.map σ).toFinset ↔ id ∈ fired := by simp

theorem toFinset_map_concat (fired : List Identifier) (id : Identifier) :
    insert (σ id) (fired.map σ).toFinset = ((fired ++ [id]).map σ).toFinset := by
  ext x
  simp

theorem filter_map_fired (order fired : List Identifier) :
    (order.map σ).filter (· ∉ (fired.map σ).toFinset) = (order.filter (· ∉ fired)).map σ := by
  rw [List.filter_map]
  congr 1
  refine List.filter_congr fun id _ => ?_
  exact decide_eq_decide.mpr (not_congr mem_map_fired)

theorem system_enabled {blockers : Edge → Finset Identifier → List String} {id : Identifier}
    {edge : Edge} (found : transformations[id]? = some edge) (s : Finset Identifier) :
    (system transformations labels initial blockers).enabled id s =
      decide (blockers edge s = []) := by
  simp only [system, found, Option.any_some]

theorem system_outputs {blockers : Edge → Finset Identifier → List String} {id : Identifier}
    {edge : Edge} (found : transformations[id]? = some edge) :
    (system transformations labels initial blockers).outputs id = idSet edge.producedOutputs := by
  simp only [system, found, Option.elim_some]

theorem baseEdgeBlockers_renamed (edge : Edge) (s : Finset Identifier) :
    baseEdgeBlockers (edge.renamed σ) s nodes = baseEdgeBlockers edge s nodes := rfl

theorem verifiedEdgeBlockers_renamed (edge : Edge) (s : Finset Identifier) :
    verifiedEdgeBlockers (edge.renamed σ) s nodes = verifiedEdgeBlockers edge s nodes := rfl

theorem producedOutputs_renamed (edge : Edge) :
    (edge.renamed σ).producedOutputs = edge.producedOutputs := rfl

theorem Renamed.item {id : Identifier} (renamed : Renamed σ transformations transformations')
    (member : id ∈ transformations.keys) : ∃ edge, transformations[id]? = some edge ∧
      transformations'.item (σ id) = .ok (edge.renamed σ) := by
  have found := Std.ExtTreeMap.getElem?_eq_some_getElem (Std.ExtTreeMap.mem_keys.mp member)
  refine ⟨_, found, ?_⟩
  rw [Dict.item_ok, renamed id, found]
  rfl

/-- What the sets of a loop are for the labels that have fired. -/
def outcome (m : System Identifier Identifier) (σ : Equiv.Perm Identifier)
    (fired : List Identifier) : Finset Identifier × Finset Identifier :=
  (m.reached fired, (fired.map σ).toFinset)

theorem feasibleLoop_eq {m : System Identifier Identifier}
    (same : m = feasibleSystem transformations nodes initial)
    (renamed : Renamed σ transformations transformations')
    (keys : transformations'.keys = order.map σ)
    (listed : order ⊆ transformations.keys) : ∀ (n : ℕ) (queue fired : List Identifier),
    queue ⊆ transformations.keys →
    feasibleLoop transformations' nodes n (queue.map σ) (m.reached fired)
        (fired.map σ).toFinset =
      demand .diverges ((m.work order n queue fired).map (outcome m σ)) := by
  intro n
  induction n with
  | zero => intro queue fired _; rfl
  | succ n ih =>
    intro queue fired queued
    cases queue with
    | nil => rfl
    | cons id queue =>
      obtain ⟨member, rest⟩ := List.cons_subset.mp queued
      obtain ⟨edge, found, item⟩ := renamed.item member
      have enabled : m.enabled id (m.reached fired) =
          decide (baseEdgeBlockers edge (m.reached fired) nodes = []) := by
        rw [same]
        exact system_enabled found _
      have outputs : m.outputs id = idSet edge.producedOutputs := by
        rw [same]
        exact system_outputs found
      rw [List.map_cons, feasibleLoop, System.work]
      by_cases known : id ∈ fired
      · rw [if_pos (mem_map_fired.mpr known), if_pos (.inl known)]
        exact ih queue fired rest
      rw [if_neg (mt mem_map_fired.mp known), item, ok_bind]
      dsimp only
      rw [baseEdgeBlockers_renamed, producedOutputs_renamed, toFinset_map_concat, keys,
        filter_map_fired, ← List.map_append, ← outputs, ← System.reached_concat]
      by_cases unblocked : baseEdgeBlockers edge (m.reached fired) nodes = []
      · have taken : ¬ (id ∈ fired ∨ m.enabled id (m.reached fired) = false) := by
          simp [known, enabled, unblocked]
        rw [if_neg (not_not.mpr unblocked), if_neg taken]
        by_cases idle : m.outputs id ⊆ m.reached fired
        · have reached : m.reached (fired ++ [id]) = m.reached fired := by
            rw [System.reached_concat, Finset.union_eq_left.mpr idle]
          rw [if_pos idle, if_pos idle, ← reached]
          exact ih queue (fired ++ [id]) rest
        · rw [if_neg idle, if_neg idle]
          exact ih (queue ++ order.filter (· ∉ fired ++ [id])) (fired ++ [id])
            (List.append_subset.mpr ⟨rest, List.Subset.trans (List.filter_subset_self _) listed⟩)
      · rw [if_pos unblocked, if_pos (.inr (by rw [enabled]; exact decide_eq_false unblocked))]
        exact ih queue fired rest

theorem verifiedLoop_eq {m : System Identifier Identifier}
    (same : m = verifiedSystem transformations nodes initial labels)
    (renamed : Renamed σ transformations transformations')
    (listed : order ⊆ transformations.keys) : ∀ (n : ℕ) (queue fired : List Identifier),
    queue ⊆ transformations.keys →
    verifiedLoop transformations' nodes (order.map σ) n (queue.map σ) (m.reached fired)
        (fired.map σ).toFinset =
      demand .diverges ((m.work order n queue fired).map (outcome m σ)) := by
  intro n
  induction n with
  | zero => intro queue fired _; rfl
  | succ n ih =>
    intro queue fired queued
    cases queue with
    | nil => rfl
    | cons id queue =>
      obtain ⟨member, rest⟩ := List.cons_subset.mp queued
      obtain ⟨edge, found, item⟩ := renamed.item member
      have enabled : m.enabled id (m.reached fired) =
          decide (verifiedEdgeBlockers edge (m.reached fired) nodes = []) := by
        rw [same]
        exact system_enabled found _
      have outputs : m.outputs id = idSet edge.producedOutputs := by
        rw [same]
        exact system_outputs found
      rw [List.map_cons, verifiedLoop, System.work, item, ok_bind]
      dsimp only
      rw [verifiedEdgeBlockers_renamed, producedOutputs_renamed, toFinset_map_concat,
        filter_map_fired, ← List.map_append, ← outputs, ← System.reached_concat]
      by_cases unblocked : verifiedEdgeBlockers edge (m.reached fired) nodes = []
      · rw [if_neg (not_not.mpr unblocked)]
        by_cases known : id ∈ fired
        · -- An applied transformation is taken again, and adds nothing.
          have idle : m.outputs id ⊆ m.reached fired := reached_of_fired known
          have reached : m.reached (fired ++ [id]) = m.reached fired := by
            rw [System.reached_concat, Finset.union_eq_left.mpr idle]
          rw [if_pos idle, if_pos (.inl known), reached, ← toFinset_map_concat,
            Finset.insert_eq_of_mem (mem_map_fired.mpr known)]
          exact ih queue fired rest
        have taken : ¬ (id ∈ fired ∨ m.enabled id (m.reached fired) = false) := by
          simp [known, enabled, unblocked]
        rw [if_neg taken]
        by_cases idle : m.outputs id ⊆ m.reached fired
        · rw [if_pos idle, if_pos idle]
          exact ih queue (fired ++ [id]) rest
        · rw [if_neg idle, if_neg idle]
          exact ih (queue ++ order.filter (· ∉ fired ++ [id])) (fired ++ [id])
            (List.append_subset.mpr ⟨rest, List.Subset.trans (List.filter_subset_self _) listed⟩)
      · rw [if_pos unblocked, if_pos (.inr (by rw [enabled]; exact decide_eq_false unblocked))]
        exact ih queue fired rest

end loops

section tables
variable {α : Type} {identifier : α → Identifier} {items : List α} {table : Dict α}
  {transformations transformations' : Dict Edge} {network : Document} {σ : Equiv.Perm Identifier}
  {order : List Identifier}

theorem index_ok : index identifier items = .ok table ↔ (items.map identifier).Nodup ∧
    Std.ExtTreeMap.ofList (items.map fun item => (identifier item, item)) = table := by
  rw [index]
  split_ifs with distinct <;> simp [distinct]

theorem mem_index (indexed : index identifier items = .ok table) {id : Identifier} {item : α} :
    table[id]? = some item ↔ item ∈ items ∧ identifier item = id := by
  obtain ⟨distinct, rfl⟩ := index_ok.mp indexed
  have pairs : ((id, item) ∈ items.map fun item => (identifier item, item)) ↔
      item ∈ items ∧ identifier item = id := by
    simp only [List.mem_map, Prod.mk.injEq]
    exact ⟨fun ⟨_, listed, named, same⟩ => same ▸ ⟨listed, named⟩,
      fun ⟨listed, named⟩ => ⟨item, listed, named, rfl⟩⟩
  rw [← pairs]
  refine ⟨Dict.mem_of_ofList, Dict.getElem?_ofList ?_⟩
  rw [List.map_map]
  exact distinct

def Document.renamed (σ : Equiv.Perm Identifier) (network : Document) : Document :=
  { network with transformations := network.transformations.map (Edge.renamed σ) }

theorem identifiers_renamed : (network.renamed σ).transformations.map Edge.transformationId =
    (network.transformations.map Edge.transformationId).map σ := by
  rw [Document.renamed, List.map_map, List.map_map]
  rfl

theorem transformationIndex_renamed (indexed : transformationIndex network = .ok transformations) :
    ∃ transformations', transformationIndex (network.renamed σ) = .ok transformations' ∧
      Renamed σ transformations transformations' := by
  have distinct := (index_ok.mp indexed).1
  rw [← List.nodup_map_iff σ.injective, ← identifiers_renamed] at distinct
  have indexed' := index_ok.mpr ⟨distinct, rfl⟩
  refine ⟨_, indexed', fun id => Option.ext fun edge => ?_⟩
  rw [mem_index indexed', Option.map_eq_some_iff, Document.renamed, List.mem_map]
  simp only [mem_index indexed]
  constructor
  · rintro ⟨⟨edge, listed, rfl⟩, named⟩
    exact ⟨edge, ⟨listed, σ.injective named⟩, rfl⟩
  · rintro ⟨edge, ⟨listed, named⟩, rfl⟩
    exact ⟨⟨edge, listed, rfl⟩, congrArg σ named⟩

theorem transformationIndex_refused {fault : Fault}
    (refused : transformationIndex network = .error fault) :
    transformationIndex (network.renamed σ) = .error fault := by
  rw [transformationIndex, index] at refused
  split_ifs at refused with distinct
  rw [← List.nodup_map_iff σ.injective, ← identifiers_renamed] at distinct
  rw [transformationIndex, index, if_neg distinct]
  exact refused

theorem Renamed.mem_keys (renamed : Renamed σ transformations transformations') (id : Identifier) :
    σ id ∈ transformations'.keys ↔ id ∈ transformations.keys := by
  rw [Std.ExtTreeMap.mem_keys, Std.ExtTreeMap.mem_keys, Std.ExtTreeMap.mem_iff_isSome_getElem?,
    Std.ExtTreeMap.mem_iff_isSome_getElem?, renamed id, Option.isSome_map]

theorem Renamed.reordered (renamed : Renamed σ transformations transformations') :
    (transformations'.keys.map σ.symm).Perm transformations.keys := by
  refine (List.perm_ext_iff_of_nodup (Std.ExtTreeMap.nodup_keys.map σ.symm.injective)
    Std.ExtTreeMap.nodup_keys).mpr fun id => ?_
  rw [← renamed.mem_keys, List.mem_map]
  constructor
  · rintro ⟨key, listed, rfl⟩
    rwa [σ.apply_symm_apply]
  · exact fun listed => ⟨_, listed, σ.symm_apply_apply id⟩

theorem exists_renaming {names names' : List Identifier} (distinct : names.Nodup)
    (reordered : names'.Perm names) : ∃ σ : Equiv.Perm Identifier, names'.map σ = names := by
  have length := reordered.length_eq
  obtain ⟨σ, taken⟩ := Equiv.Perm.exists_extending_pair (fun i => names'.get i)
    (fun i => names.get (i.cast length)) (reordered.nodup_iff.mpr distinct).injective_get
    fun i j equal => Fin.cast_injective length (distinct.injective_get equal)
  refine ⟨σ, List.ext_get (by rw [List.length_map, length]) fun i bound bound' => ?_⟩
  rw [List.get_eq_getElem, List.getElem_map]
  exact taken ⟨i, by rwa [List.length_map] at bound⟩

theorem Renamed.keys_eq (renamed : Renamed σ transformations transformations')
    (reordered : order.Perm transformations.keys) (taken : order.map σ = transformations.keys) :
    transformations'.keys = transformations.keys := by
  have same := (renamed.reordered.trans reordered.symm).map σ
  rw [List.map_map, σ.self_comp_symm, List.map_id, taken] at same
  exact List.Perm.eq_of_pairwise' (Dict.keys_sorted _) (Dict.keys_sorted _) same

end tables

section closures
variable {contract : Contract} {network : Document} {nodes : Dict Node}
  {transformations transformations' : Dict Edge} {σ : Equiv.Perm Identifier}
  {order labels : List Identifier} {run : Checked ClosureResult} {feasible : ClosureResult}
  {m : System Identifier Identifier}

/-- A closure ends with the sets of some labels that the worklist fires. -/
def EndsWith (run : Checked ClosureResult) (m : System Identifier Identifier)
    (σ : Equiv.Perm Identifier) (fired : List Identifier) : Prop :=
  ∃ result, run = .ok result ∧
    (result.availableStates, result.appliedTransformations) = outcome m σ fired

theorem feasibleClosure_renamed (same : m = feasibleSystem transformations nodes
      (initialStates contract nodes))
    (nodesIndexed : nodeIndex network = .ok nodes)
    (indexed : transformationIndex (network.renamed σ) = .ok transformations')
    (renamed : Renamed σ transformations transformations')
    (keys : transformations'.keys = order.map σ) (listed : order.Perm transformations.keys) :
    ∃ fired, m.run order = some fired ∧
      EndsWith (feasibleClosure contract (network.renamed σ)) m σ fired := by
  obtain ⟨fired, run⟩ : ∃ fired, m.run order = some fired := by
    rw [same]
    exact System.run_total listed
  refine ⟨fired, run, ?_⟩
  have loop := feasibleLoop_eq same renamed keys listed.subset (System.turns order.length) order []
    listed.subset
  rw [System.run] at run
  have base : m.reached [] = initialStates contract nodes := by rw [same]; rfl
  rw [run, base, List.map_nil, List.toFinset_nil] at loop
  rw [EndsWith, feasibleClosure, show nodeIndex (network.renamed σ) = _ from nodesIndexed, ok_bind,
    indexed, ok_bind]
  dsimp only
  rw [keys, List.length_map, loop]
  exact ⟨_, rfl, rfl⟩

theorem verifiedClosure_renamed (same : m = verifiedSystem transformations nodes
      (initialStates contract nodes) labels)
    (nodesIndexed : nodeIndex network = .ok nodes)
    (indexed : transformationIndex (network.renamed σ) = .ok transformations')
    (renamed : Renamed σ transformations transformations')
    (found : feasibleClosure contract (network.renamed σ) = .ok feasible)
    (edges : feasible.appliedTransformations.sort (· ≤ ·) = order.map σ)
    (known : order ⊆ transformations.keys) (listed : order.Perm labels) :
    ∃ fired, m.run order = some fired ∧
      EndsWith (verifiedClosure contract (network.renamed σ) none) m σ fired := by
  obtain ⟨fired, run⟩ : ∃ fired, m.run order = some fired := by
    rw [same]
    exact System.run_total listed
  refine ⟨fired, run, ?_⟩
  have loop := verifiedLoop_eq same renamed known (System.turns order.length) order [] known
  rw [System.run] at run
  have base : m.reached [] = initialStates contract nodes := by rw [same]; rfl
  rw [run, base, List.map_nil, List.toFinset_nil] at loop
  rw [EndsWith, verifiedClosure, Option.elim_none, found, ok_bind,
    show nodeIndex (network.renamed σ) = _ from nodesIndexed, ok_bind, indexed, ok_bind]
  dsimp only
  rw [edges, List.length_map, loop]
  exact ⟨_, rfl, rfl⟩

theorem restricts (known : labels ⊆ transformations.keys) (initial : Finset Identifier) :
    System.Restricts (verifiedSystem transformations nodes initial labels)
      (feasibleSystem transformations nodes initial) where
  labels := known
  base := rfl
  outputs _ := rfl
  enabled id s enabled := by
    simp only [verifiedSystem, feasibleSystem, system, Option.any_eq_true, decide_eq_true_eq]
      at enabled ⊢
    exact enabled.imp fun edge => And.imp_right base_of_verified
  further id s s' above enabled base := by
    simp only [verifiedSystem, feasibleSystem, system, Option.any_eq_true, decide_eq_true_eq]
      at enabled base ⊢
    obtain ⟨edge, found, unblocked⟩ := enabled
    obtain ⟨_, found', base⟩ := base
    cases Option.some.inj (found.symm.trans found')
    exact ⟨edge, found, verifiedEdgeBlockers_mono unblocked above base⟩

theorem enabled_iff {initial s : Finset Identifier} {id : Identifier} :
    (feasibleSystem transformations nodes initial).enabled id s = true ↔
      ∃ edge, transformations[id]? = some edge ∧ baseEdgeBlockers edge s nodes = [] := by
  simp only [feasibleSystem, system, Option.any_eq_true, decide_eq_true_eq]

theorem feasibleSystem_convex (initial : Finset Identifier) (id : Identifier) :
    Set.OrdConnected {s | (feasibleSystem transformations nodes initial).enabled id s = true} := by
  refine ⟨fun s first s'' last s' ⟨above, below⟩ => ?_⟩
  obtain ⟨edge, found, unblocked⟩ := enabled_iff.mp first
  obtain ⟨_, found', unblocked'⟩ := enabled_iff.mp last
  cases Option.some.inj (found.symm.trans found')
  exact enabled_iff.mpr ⟨edge, found, baseEdgeBlockers_between unblocked unblocked' above below⟩

theorem exists_feasible (contract : Contract) (same : m = feasibleSystem transformations nodes
      (initialStates contract nodes))
    (nodesIndexed : nodeIndex network = .ok nodes)
    (indexed : transformationIndex network = .ok transformations) (σ : Equiv.Perm Identifier) :
    ∃ order fired, order.Perm transformations.keys ∧ m.run order = some fired ∧
      EndsWith (feasibleClosure contract (network.renamed σ)) m σ fired := by
  obtain ⟨transformations', indexed', renamed⟩ := transformationIndex_renamed indexed
  refine ⟨transformations'.keys.map σ.symm, ?_⟩
  obtain ⟨fired, run, ends⟩ := feasibleClosure_renamed same nodesIndexed indexed' renamed
    (by rw [List.map_map, σ.self_comp_symm, List.map_id]) renamed.reordered
  exact ⟨fired, renamed.reordered, run, ends⟩

theorem exists_verified (same : m = verifiedSystem transformations nodes
      (initialStates contract nodes) labels)
    (nodesIndexed : nodeIndex network = .ok nodes)
    (indexed : transformationIndex network = .ok transformations)
    (known : labels ⊆ transformations.keys) (distinct : labels.Nodup)
    (found : feasibleClosure contract (network.renamed σ) = .ok feasible)
    (applied : feasible.appliedTransformations = (labels.map σ).toFinset) :
    ∃ order fired, order.Perm labels ∧ m.run order = some fired ∧
      EndsWith (verifiedClosure contract (network.renamed σ) none) m σ fired := by
  obtain ⟨transformations', indexed', renamed⟩ := transformationIndex_renamed indexed
  have listed : ((feasible.appliedTransformations.sort (· ≤ ·)).map σ.symm).Perm labels := by
    refine (List.perm_ext_iff_of_nodup ((Finset.sort_nodup _ _).map σ.symm.injective)
      distinct).mpr fun id => ?_
    have member : id ∈ labels ↔ σ id ∈ feasible.appliedTransformations := by
      rw [applied, mem_map_fired]
    rw [member, List.mem_map]
    simp only [Finset.mem_sort]
    constructor
    · rintro ⟨key, member, rfl⟩
      rwa [σ.apply_symm_apply]
    · exact fun member => ⟨_, member, σ.symm_apply_apply id⟩
  obtain ⟨fired, run, ends⟩ := verifiedClosure_renamed same nodesIndexed indexed' renamed found
    (by rw [List.map_map, σ.self_comp_symm, List.map_id])
    (List.Subset.trans listed.subset known) listed
  exact ⟨_, fired, listed, run, ends⟩

end closures

/-- Two outcomes are one, up to the names of the applied transformations. -/
inductive SameUpTo (σ : Equiv.Perm Identifier) :
    Checked ClosureResult → Checked ClosureResult → Prop
  | results {first second : ClosureResult}
      (available : second.availableStates = first.availableStates)
      (applied : second.appliedTransformations = first.appliedTransformations.image σ) :
      SameUpTo σ (.ok first) (.ok second)
  | refused (fault : Fault) : SameUpTo σ (.error fault) (.error fault)

/-- The closures end, the verified one within the feasible one, and do not depend on the
names of transformations. -/
structure NamesIrrelevant (contract : Contract) (network : Document) : Prop where
  feasibleEnds : feasibleClosure contract network ≠ .error (.crash .diverges)
  verifiedEnds : verifiedClosure contract network none ≠ .error (.crash .diverges)
  below : ∀ feasible verified, feasibleClosure contract network = .ok feasible →
    verifiedClosure contract network none = .ok verified →
    verified.availableStates ⊆ feasible.availableStates
  feasible : ∀ σ : Equiv.Perm Identifier, SameUpTo σ (feasibleClosure contract network)
    (feasibleClosure contract (network.renamed σ))
  verified : ∀ σ : Equiv.Perm Identifier, SameUpTo σ (verifiedClosure contract network none)
    (verifiedClosure contract (network.renamed σ) none)

/-- As unblocked transformations are applied one after the other, none blocks another that is
unblocked and not yet applied. -/
def NeverBlocks (contract : Contract) (network : Document) : Prop :=
  ∀ nodes transformations, nodeIndex network = .ok nodes →
    transformationIndex network = .ok transformations →
    (feasibleSystem transformations nodes (initialStates contract nodes)).Persistent

section names
variable {contract : Contract} {network : Document} {nodes : Dict Node}
  {transformations : Dict Edge} {σ : Equiv.Perm Identifier} {m : System Identifier Identifier}
  {first second : Checked ClosureResult} {fired fired' : List Identifier}

theorem renamed_refl (network : Document) : network.renamed (Equiv.refl _) = network := by
  have same : Edge.renamed (Equiv.refl _) = id := rfl
  rw [Document.renamed, same, List.map_id]

theorem image_fired : (fired.map σ).toFinset = fired.toFinset.image σ := by
  ext x
  simp

theorem EndsWith.same_iff (before : EndsWith first m (Equiv.refl _) fired)
    (after : EndsWith second m σ fired') :
    SameUpTo σ first second ↔ ∀ id, id ∈ fired ↔ id ∈ fired' := by
  obtain ⟨result, rfl, sets⟩ := before
  obtain ⟨result', rfl, sets'⟩ := after
  obtain ⟨available, applied⟩ := Prod.mk.inj sets
  obtain ⟨available', applied'⟩ := Prod.mk.inj sets'
  rw [image_fired] at applied applied'
  rw [Equiv.coe_refl, Finset.image_id] at applied
  constructor
  · rintro (⟨-, renamed⟩ | _) id
    rw [applied, applied'] at renamed
    rw [← List.mem_toFinset, ← List.mem_toFinset, Finset.image_injective σ.injective renamed]
  · intro members
    refine .results ?_ ?_
    · rw [available, available', System.reached_congr members]
    · rw [applied, applied']
      congr 1
      ext id
      rw [List.mem_toFinset, List.mem_toFinset, members]

theorem SameUpTo.refused_both {fault : Fault} (before : first = .error fault)
    (after : second = .error fault) : SameUpTo σ first second := by
  rw [before, after]
  exact .refused fault

theorem EndsWith.ends (ends : EndsWith first m σ fired) :
    first ≠ .error (.crash .diverges) := by
  obtain ⟨result, rfl, -⟩ := ends
  nofun

theorem index_refused {α : Type} {identifier : α → Identifier} {items : List α} {fault : Fault}
    (refused : index identifier items = .error fault) : fault = .crash .valueError := by
  rw [index] at refused
  split_ifs at refused
  exact (Except.error.inj refused).symm

theorem feasibleClosure_refused (absent : ∀ nodes transformations, nodeIndex network = .ok nodes →
    transformationIndex network ≠ .ok transformations) :
    feasibleClosure contract (network.renamed σ) = .error (.crash .valueError) := by
  rw [feasibleClosure]
  cases indexed : nodeIndex network with
  | error fault =>
    rw [show nodeIndex (network.renamed σ) = _ from indexed, index_refused indexed]
    rfl
  | ok nodes =>
    rw [show nodeIndex (network.renamed σ) = _ from indexed, ok_bind]
    cases found : transformationIndex network with
    | error fault =>
      rw [transformationIndex_refused found, index_refused found]
      rfl
    | ok transformations => exact absurd found (absent nodes transformations indexed)

theorem verifiedClosure_refused {fault : Fault}
    (refused : feasibleClosure contract network = .error fault) :
    verifiedClosure contract network none = .error fault := by
  rw [verifiedClosure, Option.elim_none, refused]
  rfl

/-- The closures under the given names fire what can be fired in some order, the verified one
among what the feasible one fires. -/
theorem exists_closures (contract : Contract) (nodesIndexed : nodeIndex network = .ok nodes)
    (indexed : transformationIndex network = .ok transformations) :
    ∃ order fired order' fired', order.Perm transformations.keys ∧
      (feasibleSystem transformations nodes (initialStates contract nodes)).run order =
        some fired ∧
      EndsWith (feasibleClosure contract network)
        (feasibleSystem transformations nodes (initialStates contract nodes)) (Equiv.refl _)
        fired ∧
      order'.Perm fired ∧
      (verifiedSystem transformations nodes (initialStates contract nodes) fired).run order' =
        some fired' ∧
      EndsWith (verifiedClosure contract network none)
        (verifiedSystem transformations nodes (initialStates contract nodes) fired)
        (Equiv.refl _) fired' := by
  obtain ⟨order, fired, listed, run, base⟩ :=
    exists_feasible contract rfl nodesIndexed indexed (Equiv.refl _)
  have fires := (System.run_complete listed run).1
  obtain ⟨feasible, found, sets⟩ := id base
  obtain ⟨available, applied⟩ := Prod.mk.inj sets
  obtain ⟨order', fired', listed', run', base'⟩ :=
    exists_verified rfl nodesIndexed indexed fires.subset fires.nodup found applied
  rw [renamed_refl] at base base'
  exact ⟨order, fired, order', fired', listed, run, base, listed', run', base'⟩

theorem closures_bounded (contract : Contract) (network : Document) :
    feasibleClosure contract network ≠ .error (.crash .diverges) ∧
    verifiedClosure contract network none ≠ .error (.crash .diverges) ∧
    ∀ feasible verified, feasibleClosure contract network = .ok feasible →
      verifiedClosure contract network none = .ok verified →
      verified.availableStates ⊆ feasible.availableStates := by
  by_cases indices : ∃ nodes transformations, nodeIndex network = .ok nodes ∧
      transformationIndex network = .ok transformations
  · obtain ⟨nodes, transformations, nodesIndexed, indexed⟩ := indices
    obtain ⟨order, fired, order', fired', listed, run, base, listed', run', base'⟩ :=
      exists_closures contract nodesIndexed indexed
    have known : fired ⊆ transformations.keys := (System.run_complete listed run).1.subset
    have further : System.Restricts
        (verifiedSystem transformations nodes (initialStates contract nodes) fired)
        (feasibleSystem transformations nodes (initialStates contract nodes)) := restricts known _
    refine ⟨base.ends, base'.ends, fun first second ok ok' => ?_⟩
    obtain ⟨first', equal, sets⟩ := base
    obtain ⟨second', equal', sets'⟩ := base'
    cases Except.ok.inj (ok.symm.trans equal)
    cases Except.ok.inj (ok'.symm.trans equal')
    rw [(Prod.mk.inj sets).1, (Prod.mk.inj sets').1, further.reached]
    exact System.reached_mono (System.run_complete listed' run').1.subset
  · push Not at indices
    have refused := @feasibleClosure_refused contract network (Equiv.refl _)
      fun nodes transformations found indexed => indices nodes transformations found indexed
    rw [renamed_refl] at refused
    refine ⟨?_, ?_, fun _ _ found => ?_⟩
    · rw [refused]
      nofun
    · rw [verifiedClosure_refused refused]
      nofun
    · rw [refused] at found
      cases found

theorem namesIrrelevant_of_refused
    (feasible : ∀ σ, feasibleClosure contract (network.renamed σ) = .error (.crash .valueError)) :
    NamesIrrelevant contract network := by
  obtain ⟨feasibleEnds, verifiedEnds, below⟩ := closures_bounded contract network
  have base := feasible (Equiv.refl _)
  rw [renamed_refl] at base
  exact ⟨feasibleEnds, verifiedEnds, below, fun σ => .refused_both base (feasible σ),
    fun σ => .refused_both (verifiedClosure_refused base) (verifiedClosure_refused (feasible σ))⟩

theorem namesIrrelevant_of_persistent (nodesIndexed : nodeIndex network = .ok nodes)
    (indexed : transformationIndex network = .ok transformations)
    (persistent : (feasibleSystem transformations nodes
      (initialStates contract nodes)).Persistent) : NamesIrrelevant contract network := by
  obtain ⟨feasibleEnds, verifiedEnds, below⟩ := closures_bounded contract network
  -- The two closures under the given names.
  obtain ⟨order, fired, order', fired', listed, run, base, listed', run', base'⟩ :=
    exists_closures contract nodesIndexed indexed
  have fires := (System.run_complete listed run).1
  have known : fired ⊆ transformations.keys := fires.subset
  have further : System.Restricts
      (verifiedSystem transformations nodes (initialStates contract nodes) fired)
      (feasibleSystem transformations nodes (initialStates contract nodes)) := restricts known _
  refine ⟨feasibleEnds, verifiedEnds, below, fun σ => ?_, fun σ => ?_⟩
  · obtain ⟨other, fired'', listed'', run'', ends''⟩ :=
      exists_feasible contract rfl nodesIndexed indexed σ
    exact (base.same_iff ends'').mpr (persistent.orderFree _ _ _ _ listed listed'' run run'')
  · obtain ⟨other, fired'', listed'', run'', ends''⟩ :=
      exists_feasible contract rfl nodesIndexed indexed σ
    have same := persistent.orderFree _ _ _ _ listed listed'' run run''
    obtain ⟨feasible'', found'', sets''⟩ := ends''
    have applied'' : feasible''.appliedTransformations = (fired.map σ).toFinset := by
      rw [(Prod.mk.inj sets'').2, image_fired, image_fired]
      congr 1
      ext id
      rw [List.mem_toFinset, List.mem_toFinset, same]
    obtain ⟨last, fired''', listed''', run''', ends'''⟩ :=
      exists_verified rfl nodesIndexed indexed known fires.nodup found'' applied''
    exact (base'.same_iff ends''').mpr
      ((further.persistent persistent).orderFree _ _ _ _ listed' listed''' run' run''')

theorem persistent_of_namesIrrelevant (nodesIndexed : nodeIndex network = .ok nodes)
    (indexed : transformationIndex network = .ok transformations)
    (irrelevant : NamesIrrelevant contract network) :
    (feasibleSystem transformations nodes (initialStates contract nodes)).Persistent := by
  obtain ⟨order, fired, listed, run, base⟩ :=
    exists_feasible contract rfl nodesIndexed indexed (Equiv.refl _)
  rw [renamed_refl] at base
  refine (System.orderFree_iff Std.ExtTreeMap.nodup_keys (feasibleSystem_convex _)).mp ?_
  -- Every order is that of some names, and fires what the given names fire.
  have each : ∀ order' result, order'.Perm transformations.keys →
      (feasibleSystem transformations nodes (initialStates contract nodes)).run order' =
        some result → ∀ id, id ∈ fired ↔ id ∈ result := by
    intro order' result listed' run'
    obtain ⟨σ, taken⟩ := exists_renaming Std.ExtTreeMap.nodup_keys listed'
    obtain ⟨transformations', indexed', renamed⟩ := transformationIndex_renamed indexed
    obtain ⟨fired', run'', ends⟩ := feasibleClosure_renamed rfl nodesIndexed indexed' renamed
      ((renamed.keys_eq listed' taken).trans taken.symm) listed'
    cases Option.some.inj (run'.symm.trans run'')
    exact (base.same_iff ends).mp (irrelevant.feasible σ)
  intro order' order'' result result' listed' listed'' run' run'' id
  rw [← each order' result listed' run', each order'' result' listed'' run'']

/-- The closures do not depend on names exactly if none of the applied transformations blocks
another. -/
theorem names_irrelevant_iff (contract : Contract) (network : Document) :
    NamesIrrelevant contract network ↔ NeverBlocks contract network := by
  by_cases indices : ∃ nodes transformations, nodeIndex network = .ok nodes ∧
      transformationIndex network = .ok transformations
  · obtain ⟨nodes, transformations, nodesIndexed, indexed⟩ := indices
    constructor
    · intro irrelevant nodes' transformations' nodesIndexed' indexed'
      exact persistent_of_namesIrrelevant nodesIndexed' indexed' irrelevant
    · intro never
      exact namesIrrelevant_of_persistent nodesIndexed indexed
        (never nodes transformations nodesIndexed indexed)
  · push Not at indices
    exact ⟨fun _ nodes transformations found indexed =>
        absurd indexed (indices nodes transformations found),
      fun _ => namesIrrelevant_of_refused fun σ => feasibleClosure_refused indices⟩

theorem SameUpTo.available (same : SameUpTo σ first second) :
    second.toOption.map ClosureResult.availableStates =
      first.toOption.map ClosureResult.availableStates := by
  cases same with
  | results available _ => exact congrArg some available
  | refused => rfl

theorem neverBlocks_of_apart (apart : ∀ t ∈ network.transformations,
    ∀ u ∈ network.transformations, Disjoint (idSet t.inhibitors) (idSet u.producedOutputs)) :
    NeverBlocks contract network := by
  intro nodes transformations _ indexed fired t u _ _ _ enabled _ _ _ _
  obtain ⟨edge, found, unblocked⟩ := enabled_iff.mp enabled
  refine enabled_iff.mpr ⟨edge, found, ?_⟩
  rw [System.reached_concat]
  refine baseEdgeBlockers_union unblocked ?_
  change Disjoint _ ((transformations[u]?).elim ∅ fun edge => idSet edge.producedOutputs)
  cases other : transformations[u]? with
  | none => exact Finset.disjoint_empty_right _
  | some edge' =>
    exact apart edge ((mem_index indexed).mp found).1 edge' ((mem_index indexed).mp other).1

end names

namespace Sample

def node (id : Identifier) : Node :=
  { nodeId := id, type := "artifact", lifecycleStatus := .str "valid" }

def transformation (id product : Identifier) (inhibitors : List Json) : Edge :=
  { transformationId := id
    schemaValid := .bool true
    effectClass := .str "plan"
    hazardStatus := .str "true"
    lifecycleStatus := .str "valid"
    sourceVersionSupported := .bool true
    outputContractStatus := .bool true
    inhibitors := .array inhibitors
    requiredInputs := .array [.str "a"]
    producedOutputs := .array [.str product] }

def inhibited : Document :=
  { nodes := [node "a", node "b", node "c"]
    transformations := [transformation "t1" "b" [], transformation "t2" "c" [.str "b"]] }

def food : Contract := ⟨.array [.str "a"]⟩

end Sample

/-- What inhibits the second transformation is never put out. -/
example : NeverBlocks Sample.food { Sample.inhibited with
    transformations := [Sample.transformation "t1" "b" [],
      Sample.transformation "t2" "c" [.str "d"]] } :=
  neverBlocks_of_apart (by decide +kernel)

/-- Under exchanged names the inhibited transformation comes first and is applied. -/
theorem names_relevant : ¬ NamesIrrelevant Sample.food Sample.inhibited := by
  intro irrelevant
  have same := (irrelevant.feasible (Equiv.swap "t1" "t2")).available
  revert same
  decide +kernel

end Legacy
end CollectivePhaseControl
