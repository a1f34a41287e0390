import CollectivePhaseControl.FluxClasses
import CollectivePhaseControl.GenerativeSets
import CollectivePhaseControl.IndependentDomains
import CollectivePhaseControl.RemovedIdentifiers

/-! With enough operations and no deadline the exact analyses return. Each charges for a number
of steps that its input bounds, and nothing but a charge makes it raise. -/
namespace CollectivePhaseControl

theorem affordable_structuralClosure (initial : Finset Identifier) (network : Network)
    (allows : Identifier → Bool) : Affordable (structuralClosure initial network allows) :=
  affordable_closureOf _ initial

section enumerations
variable {network : Network} {initial : Finset Identifier} {targets : List Identifier}

theorem affordable_keepMinimal {test : List Identifier → Analysis Bool}
    (tests : ∀ c, Affordable (test c)) (minimal : List (List Identifier))
    (candidate : List Identifier) : Affordable (keepMinimal test minimal candidate) := by
  refine (affordable_spend 1).bind (yields_trivial _) fun _ _ => ?_
  split_ifs
  · exact affordable_pure _
  · exact (tests candidate).bind (yields_trivial _) fun _ _ => affordable_pure _

theorem affordable_enumeration {test : List Identifier → Analysis Bool}
    (tests : ∀ c, Affordable (test c)) (tried : List (List Identifier)) :
    Affordable (do
      let minimal ← tried.foldlM (keepMinimal test) []
      pure (⟨minimal, true⟩ : EnumerationResult)) :=
  (affordable_foldlM (fun minimal candidate _ => affordable_keepMinimal tests minimal candidate)
    []).bind (yields_trivial _) fun _ _ => affordable_pure _

theorem affordable_enumerateMinimalSiphons (network : Network) (coordinates : Finset Identifier) :
    Affordable (enumerateMinimalSiphons network coordinates) := by
  unfold enumerateMinimalSiphons
  dsimp only
  split_ifs
  · exact affordable_pure _
  · exact affordable_enumeration (fun _ => affordable_pure _) _

theorem affordable_enumerateMinimalCutSets :
    Affordable (enumerateMinimalCutSets initial targets network) := by
  unfold enumerateMinimalCutSets
  dsimp only
  split_ifs
  · exact affordable_pure _
  · refine (affordable_structuralClosure _ _ _).bind (yields_trivial _) fun _ _ => ?_
    split_ifs
    · exact affordable_enumeration (fun _ => (affordable_structuralClosure _ _ _).bind
        (yields_trivial _) fun _ _ => affordable_pure _) _
    · exact affordable_pure _

theorem affordable_enumerateMinimalEnablementSets :
    Affordable (enumerateMinimalEnablementSets initial targets network) := by
  unfold enumerateMinimalEnablementSets
  dsimp only
  split_ifs
  · exact affordable_pure _
  · exact affordable_enumeration (fun _ => (affordable_structuralClosure _ _ _).bind
      (yields_trivial _) fun _ _ => affordable_pure _) _

end enumerations

section rafs
variable {network : Network} {food evidence authority : Finset Identifier}

theorem affordable_generativeLayers (n : ℕ) : ∀ (available : Finset Identifier)
    (remaining : List (Identifier × TransformationAttestation)), remaining.length < n →
    Affordable (generativeLayers evidence authority n available remaining) := by
  induction n with
  | zero => exact fun _ _ few => absurd few (Nat.not_lt_zero _)
  | succ n ih =>
    intro available remaining few
    rw [generativeLayers]
    split_ifs
    · exact affordable_pure _
    · have paid : Affordable (generativeLayer evidence authority available remaining) :=
        affordable_foldlM (fun layer item _ => (affordable_spend 1).bind (yields_trivial _)
          fun _ _ => affordable_pure _) _
      refine paid.bind yields_generativeLayer fun layer supported => ?_
      split_ifs with empty
      · exact affordable_pure _
      · refine (ih _ _ ?_).bind (yields_trivial _) fun _ _ => affordable_pure _
        exact (remaining_lt empty fun item member => ((supported item).mp member).1).trans_le
          (Nat.le_of_lt_succ few)

theorem affordable_exactGeneralizedGenerativeRaf :
    Affordable (exactGeneralizedGenerativeRaf network food evidence authority) := by
  unfold exactGeneralizedGenerativeRaf
  dsimp only
  split_ifs
  · exact affordable_pure _
  · have valid : Affordable ((candidates network.keys (List.range' 1 network.keys.length)).foldlM
        (keepRaf network food evidence authority) []) :=
      affordable_foldlM (fun valid candidate _ => (affordable_spend 1).bind (yields_trivial _)
        fun _ _ => (affordable_closureOf _ _).bind (yields_trivial _) fun _ _ =>
          affordable_pure _) []
    refine valid.bind (yields_trivial _) fun _ _ => ?_
    refine (affordable_generativeLayers _ _ _ ?_).bind (yields_trivial _) fun _ _ =>
      affordable_pure _
    rw [Std.ExtTreeMap.length_toList, Std.ExtTreeMap.length_keys]
    exact Nat.lt_succ_self _

end rafs

section fluxes
open Flux
variable {K : Type} [Field K] [LinearOrder K] {m n : ℕ} {rows : Rows m n} {solver : Solver}

theorem affordable_checkFlux (correct : solver.Correct K) (blocked : List (Fin n))
    (index : Fin n) : Affordable (checkFlux solver rows blocked index) := by
  refine (affordable_spend 1).bind (yields_trivial _) fun _ _ => ?_
  cases found : solver.check rows index with
  | none => exact affordable_pure _
  | some v =>
    have returns : Affordable (recheck rows index v) := by
      rw [recheck_passes correct found]
      exact affordable_pure ()
    exact returns.bind (yields_trivial _) fun _ _ => affordable_pure _

theorem affordable_exactFluxCoupling (correct : solver.Correct K) (network : Network) :
    Affordable (exactFluxCoupling (some solver) network) := by
  rw [exactFluxCoupling]
  split_ifs
  · exact affordable_pure _
  · refine (affordable_foldlM (fun blocked index _ => affordable_checkFlux correct blocked index)
      []).bind (yields_trivial _) fun blocked _ => ?_
    dsimp only
    refine (affordable_foldlM (fun p pair _ => (affordable_spend 1).bind (yields_trivial _)
      fun _ _ => affordable_pure _) _).bind (yields_trivial _) fun _ _ => affordable_pure _

end fluxes

section domains
variable {state : UnionFind × Indexes} {union : UnionFind} {known : List Identifier}
  {links : List (Identifier × Identifier)}

theorem affordable_linkDomain (indexed : Indexed state links) (item : Document × IndependenceSpec) :
    Affordable (linkDomain state item) := by
  refine (affordable_spend 1).bind (yields_trivial _) fun _ _ => ?_
  have here : item.2.domainId ∈ UnionFind.add state.1 item.2.domainId :=
    UnionFind.mem_add.mpr (.inl rfl)
  obtain ⟨after, -, ran, -⟩ :=
    linkIdentities_ok item.2.identities (indexed.add item.2.domainId) here
  exact affordable_lift ran

theorem affordable_linkDomains (domains : List (Document × IndependenceSpec))
    (indexed : Indexed state links) : Affordable (domains.foldlM linkDomain state) := by
  induction domains generalizing state links with
  | nil => exact affordable_pure _
  | cons item domains ih =>
    rw [List.foldlM_cons]
    refine (affordable_linkDomain indexed item).bind
      (decides_iff.mp (decides_linkDomain indexed item)).1 fun middle said => ?_
    obtain ⟨links', linked, -⟩ := said
    exact ih linked

theorem affordable_linkExposure (holds : UnionFind.Holds union links)
    (same : ∀ x, x ∈ union ↔ x ∈ known) (texts : List String) (event : ExposureEvent) :
    Affordable (linkExposure known (union, texts) event) := by
  refine (affordable_spend 1).bind (yields_trivial _) fun _ _ => ?_
  by_cases unknown : event.fromDomain ∉ known ∨ event.toDomain ∉ known
  · rw [if_pos unknown]
    exact affordable_pure _
  · rw [if_neg unknown]
    rw [not_or, not_not, not_not] at unknown
    by_cases early : event.preCommit = true
    · rw [if_pos early]
      obtain ⟨after, ran, -⟩ := UnionFind.union_ok holds ((same _).mpr unknown.1)
        ((same _).mpr unknown.2)
      exact (affordable_lift ran).bind (yields_trivial _) fun _ _ => affordable_pure _
    · rw [if_neg early]
      exact affordable_pure _

theorem affordable_linkExposures (events : List ExposureEvent)
    (holds : UnionFind.Holds union links) (same : ∀ x, x ∈ union ↔ x ∈ known)
    (texts : List String) : Affordable (events.foldlM (linkExposure known) (union, texts)) := by
  induction events generalizing union links texts with
  | nil => exact affordable_pure _
  | cons event events ih =>
    rw [List.foldlM_cons]
    refine (affordable_linkExposure holds same texts event).bind
      (decides_iff.mp (decides_linkExposure holds same texts event)).1 fun middle said => ?_
    obtain ⟨links', linked, keys, -⟩ := said
    exact ih linked keys middle.2

theorem affordable_effectiveDomains (domains : List (Document × IndependenceSpec))
    (events : List ExposureEvent) : Affordable (effectiveDomains domains events) := by
  refine (affordable_linkDomains domains indexed_start).bind
    (decides_iff.mp (decides_linkDomains domains indexed_start)).1 fun linked said => ?_
  obtain ⟨links, indexed, keys, -⟩ := said
  have known : ∀ x, x ∈ linked.1 ↔ x ∈ (domains.map (·.2.domainId)).dedup := by
    intro x
    rw [keys, List.mem_dedup]
    exact or_iff_left (by simp)
  refine (affordable_linkExposures events indexed.holds known []).bind
    (decides_iff.mp (decides_linkExposures events indexed.holds known [])).1 fun exposed told => ?_
  obtain ⟨links', holds, known', -⟩ := told
  obtain ⟨roots, ran, -⟩ := collectRoots_ok (domains.map (·.2.domainId)).dedup holds
    (fun x member => (known' x).mpr member) List.nodup_nil
  exact (affordable_lift ran).bind (yields_trivial _) fun _ _ => affordable_pure _

end domains

end CollectivePhaseControl
