import CollectivePhaseControl.PlannerDominance

/-! What the planner takes for evidence. The audit reads the objects that a snapshot
references, and of these the ones whose lifecycle is current; the planner reads documents
again, without their lifecycles. Where all that is referenced is current, nothing else attests
an id of its own and no observation is removed, the two agree along every run. -/
namespace CollectivePhaseControl.Planning

theorem duplicateIdentities_nil {items : List Document} {seen : List (Identifier × Identifier)}
    (none : duplicateIdentities seen items = []) :
    (items.filterMap typedIdentity).Nodup ∧ ∀ id ∈ items.filterMap typedIdentity, id ∉ seen := by
  induction items generalizing seen with
  | nil => simp
  | cons item items ih =>
    unfold duplicateIdentities at none
    cases identity : typedIdentity item with
    | none =>
      rw [identity] at none
      rw [List.filterMap_cons_none identity]
      exact ih none
    | some id =>
      rw [identity] at none
      dsimp only at none
      split_ifs at none with repeated
      obtain ⟨distinct, fresh⟩ := ih none
      rw [List.filterMap_cons_some identity, List.nodup_cons]
      refine ⟨⟨fun member => ?_, distinct⟩, ?_⟩
      · exact fresh id member List.mem_cons_self
      · rw [List.forall_mem_cons]
        exact ⟨repeated, fun other member listed =>
          fresh other member (List.mem_cons_of_mem _ listed)⟩

section view
variable {h : AuditServices} {snapshot : AnalysisSnapshot} {objects : Objects}

theorem reference_of_provenance (satisfied : provenanceReasons h snapshot objects = [])
    {digest : Digest} (member : digest ∈ snapshotReferences snapshot.spec) :
    ∃ item, objects[digest]? = some item ∧ referenceReasons h snapshot digest item = [] := by
  simp only [provenanceReasons, List.append_eq_nil_iff, List.flatMap_eq_nil_iff] at satisfied
  have clean := satisfied.1.1.1.1 digest member
  unfold reference at clean
  cases held : objects[digest]? with
  | none =>
    rw [held] at clean
    cases clean
  | some item =>
    rw [held] at clean
    exact ⟨item, rfl, clean⟩

theorem getElem?_view (satisfied : provenanceReasons h snapshot objects = []) {digest : Digest}
    {item : Document} : (liveObjects h snapshot objects)[digest]? = some item ↔
      digest ∈ snapshotReferences snapshot.spec ∧ objects[digest]? = some item := by
  rw [getElem?_liveObjects]
  refine ⟨fun ⟨member, held, _⟩ => ⟨member, held⟩, fun ⟨member, held⟩ => ⟨member, held, ?_⟩⟩
  obtain ⟨item', held', clean⟩ := reference_of_provenance satisfied member
  obtain rfl := Option.some.inj (held.symm.trans held')
  exact clean

end view

theorem getElem?_successorView {h : Services} {snapshot : AnalysisSnapshot} {objects : Objects}
    (satisfied : provenanceReasons h.toAuditServices snapshot objects = []) {live : Finset Digest}
    {digest : Digest} {item : Document} :
    (liveObjects h.toAuditServices (snapshotForLiveState h snapshot live)
      (successorObjects snapshot objects live))[digest]? = some item ↔
      digest ∈ snapshotReferences snapshot.spec ∧ digest ∈ live ∧ objects[digest]? = some item := by
  have held : (successorObjects snapshot objects live)[digest]? = some item ↔
      objects[digest]? = some item ∧ ¬ (digest ∈ snapshotReferences snapshot.spec ∧
        digest ∉ live) := by
    rw [successorObjects, Std.ExtTreeMap.getElem?_filter', Option.filter_eq_some_iff,
      decide_eq_true_eq]
  have references : digest ∈ snapshotReferences (snapshotForLiveState h snapshot live).spec →
      digest ∈ snapshotReferences snapshot.spec := by
    simp only [snapshotReferences, snapshotForLiveState, List.mem_append, List.mem_filter]
    rintro ((⟨member, _⟩ | ⟨member, _⟩) | fixed)
    · exact .inl (.inl member)
    · exact .inl (.inr member)
    · exact .inr fixed
  have kept : digest ∈ snapshotReferences snapshot.spec → digest ∈ live →
      digest ∈ snapshotReferences (snapshotForLiveState h snapshot live).spec := by
    simp only [snapshotReferences, snapshotForLiveState, List.mem_append, List.mem_filter,
      decide_eq_true_eq]
    rintro ((member | member) | fixed) present
    · exact .inl (.inl ⟨member, present⟩)
    · exact .inl (.inr ⟨member, present⟩)
    · exact .inr fixed
  rw [getElem?_liveObjects, held]
  constructor
  · rintro ⟨member, ⟨found, left⟩, _⟩
    exact ⟨references member, not_not.mp fun gone => left ⟨references member, gone⟩, found⟩
  · rintro ⟨member, present, found⟩
    obtain ⟨item', found', clean⟩ := reference_of_provenance satisfied member
    obtain rfl := Option.some.inj (found.symm.trans found')
    exact ⟨kept member present, ⟨found, fun gone => gone.2 present⟩, clean⟩

section live
variable {σ : Type} {kind : DocumentSpec → Option σ} {lifecycle : σ → Lifecycle}
  {id : σ → Identifier} {time : DateTime} {objects : Objects}

theorem mem_typed {item : Document × σ} : item ∈ typed objects kind ↔
    (∃ digest : Digest, objects[digest]? = some item.1) ∧ kind item.1.spec = some item.2 := by
  simp only [typed, List.mem_filterMap, Dict.mem_values, Option.map_eq_some_iff]
  constructor
  · rintro ⟨document, held, spec, read, rfl⟩
    exact ⟨held, read⟩
  · rintro ⟨held, read⟩
    exact ⟨item.1, held, item.2, read, rfl⟩

theorem mem_attestedIds {x : Identifier} : x ∈ attestedIds objects.values kind id ↔
    ∃ (digest : Digest) (item : Document) (spec : σ), objects[digest]? = some item ∧
      kind item.spec = some spec ∧ id spec = x := by
  simp only [attestedIds, List.mem_toFinset, List.mem_filterMap, Dict.mem_values,
    Option.map_eq_some_iff]
  constructor
  · rintro ⟨item, ⟨digest, held⟩, spec, read, same⟩
    exact ⟨digest, item, spec, held, read, same⟩
  · rintro ⟨digest, item, spec, held, read, same⟩
    exact ⟨item, ⟨digest, held⟩, spec, read, same⟩

theorem liveTyped_of_current
    (current : ∀ item ∈ typed objects kind, (lifecycle item.2).live time = .ok true) :
    liveTyped objects kind lifecycle time = .ok (typed objects kind) := by
  have fold : ∀ (items kept : List (Document × σ)),
      (∀ item ∈ items, (lifecycle item.2).live time = .ok true) →
        items.foldlM (keepLive lifecycle time) kept = .ok (kept ++ items) := by
    intro items
    induction items with
    | nil =>
      intro kept _
      rw [List.foldlM_nil, List.append_nil]
      rfl
    | cons item items ih =>
      intro kept all
      obtain ⟨here, later⟩ := List.forall_mem_cons.mp all
      have step : keepLive lifecycle time kept item = .ok (kept ++ [item]) := by
        simp only [keepLive, here, ok_bind, if_true]
        rfl
      rw [List.foldlM_cons, step, ok_bind, ih _ later, List.append_assoc, List.singleton_append]
  exact (fold _ [] current).trans (by rw [List.nil_append])

variable (time kind lifecycle id)

/-- The ids of the documents of a kind that the audit finds live. -/
def FromLive (view : Objects) (ids : Finset Identifier) : Prop :=
  ∃ items, liveTyped view kind lifecycle time = .ok items ∧
    ids = (items.map fun item => id item.2).toFinset

variable {time kind lifecycle id}

theorem fromLive_of_current {view : Objects}
    (current : ∀ item ∈ typed view kind, (lifecycle item.2).live time = .ok true) :
    FromLive kind lifecycle id time view (attestedIds view.values kind id) := by
  refine ⟨_, liveTyped_of_current current, ?_⟩
  ext x
  rw [mem_attestedIds, List.mem_toFinset, List.mem_map]
  constructor
  · rintro ⟨digest, item, spec, held, read, rfl⟩
    exact ⟨(item, spec), mem_typed.mpr ⟨⟨digest, held⟩, read⟩, rfl⟩
  · rintro ⟨item, member, rfl⟩
    obtain ⟨⟨digest, held⟩, read⟩ := mem_typed.mp member
    exact ⟨digest, item.1, item.2, held, read, rfl⟩

end live

theorem yields_availableSets_authority {time : DateTime} {view : Objects}
    (current : ∀ item ∈ typed view authority?, (item.2.lifecycle).live time = .ok true) :
    Yields (availableSets view time) fun sets =>
      sets.authority = attestedIds view.values authority? (·.authorityId) := by
  have book (sets : AvailableSets) (item : Document)
      (live : ∀ spec, authority? item.spec = some spec → spec.lifecycle.live time = .ok true) :
      Yields (sets.book time item) fun after =>
        after.authority = sets.authority ∪ attestedIds [item] authority? (·.authorityId) := by
    unfold AvailableSets.book
    split
    · rename_i spec found
      refine yields_bind (yields_trivial _) fun begun _ => yields_pure ?_
      split <;> simp [attestedIds, authority?, found]
    · rename_i spec found
      refine yields_bind (yields_trivial _) fun begun _ => ?_
      split
      · refine yields_bind (yields_trivial _) fun quantity _ => yields_pure ?_
        split <;> simp [attestedIds, authority?, found]
      · exact yields_pure (by simp [attestedIds, authority?, found])
    · rename_i spec found
      refine yields_bind (yields_trivial _) fun begun _ => yields_pure ?_
      split <;> simp [attestedIds, authority?, found]
    · rename_i spec found
      refine yields_bind (yields_lift _) fun begun judged => yields_pure ?_
      rw [live spec (by rw [found]; rfl)] at judged
      obtain rfl := Except.ok.inj judged
      simp [attestedIds, authority?, found]
    · rename_i other
      refine yields_pure ?_
      have none : authority? item.spec = none := by
        unfold authority?
        split
        · rename_i spec found
          exact absurd found (other spec)
        · rfl
      simp [attestedIds, none]
  have fold : ∀ (items : List Document) (sets : AvailableSets),
      (∀ item ∈ items, ∀ spec, authority? item.spec = some spec →
        spec.lifecycle.live time = .ok true) →
      Yields (items.foldlM (AvailableSets.book time) sets) fun after =>
        after.authority = sets.authority ∪ attestedIds items authority? (·.authorityId) := by
    intro items
    induction items with
    | nil => exact fun sets _ => yields_pure (by simp [attestedIds])
    | cons item items ih =>
      intro sets live
      obtain ⟨here, later⟩ := List.forall_mem_cons.mp live
      rw [List.foldlM_cons]
      refine yields_bind (book sets item here) fun after booked => ?_
      refine (ih after later).mono fun final rest => ?_
      rw [rest, booked, Finset.union_assoc]
      congr 1
      ext x
      cases authority? item.spec <;> simp [attestedIds, *]
  refine (fold view.values ⟨∅, ∅, ∅, ∅⟩ ?_).mono fun sets booked => ?_
  · intro item member spec read
    obtain ⟨digest, held⟩ := Dict.mem_values.mp member
    exact current (item, spec) (mem_typed.mpr ⟨⟨digest, held⟩, read⟩)
  · simpa using booked

def drift (done : List BranchEffect) (coordinate : Identifier) : ℚ :=
  (done.map fun branch => balance branch.resourceDeltaLower coordinate).sum

/-- Resources that are some observed amounts, and what the branches add to these. -/
structure Amounts (observed : ResourceObservationSpec → Prop) (done : List BranchEffect)
    (resources : Dict ℚ) : Prop where
  amount : ∀ spec, observed spec →
    resources.getD spec.coordinate 0 = F spec.quantity + drift done spec.coordinate
  nothing : ∀ coordinate, (∀ spec, observed spec → spec.coordinate ≠ coordinate) →
    resources.getD coordinate 0 = drift done coordinate
  known : ∀ coordinate : Identifier, coordinate ∈ resources ↔
    (∃ spec, observed spec ∧ spec.coordinate = coordinate) ∨
      ∃ branch ∈ done, coordinate ∈ branch.resourceDeltaLower

theorem observe_fold {documents : List Document} {m : Dict ℚ} {observed : Observed}
    (distinct : ((documents.filterMap (·.spec.resource?)).map (·.coordinate)).Nodup)
    (fresh : ∀ spec ∈ documents.filterMap (·.spec.resource?), spec.coordinate ∉ m)
    (run : documents.foldlM observe (m, ∅) = .ok observed) :
    observed.2 = ∅ ∧
    (∀ spec ∈ documents.filterMap (·.spec.resource?),
      observed.1[spec.coordinate]? = some (F spec.quantity)) ∧
    ∀ coordinate : Identifier, (∀ spec ∈ documents.filterMap (·.spec.resource?),
      spec.coordinate ≠ coordinate) → observed.1[coordinate]? = m[coordinate]? := by
  induction documents generalizing m with
  | nil =>
    rw [List.foldlM_nil, pure_ok] at run
    simp [← run]
  | cons item items ih =>
    rw [List.foldlM_cons, bind_ok] at run
    obtain ⟨next, step, rest⟩ := run
    unfold observe at step
    split at step
    · rename_i spec found
      have read : item.spec.resource? = some spec := by rw [found]; rfl
      have front := List.filterMap_cons_some (f := fun d : Document => d.spec.resource?)
        (l := items) read
      rw [front] at distinct fresh ⊢
      rw [List.map_cons, List.nodup_cons] at distinct
      obtain ⟨new, later⟩ := List.forall_mem_cons.mp fresh
      simp only [bind_ok, pure_ok] at step
      obtain ⟨quantity, parsed, rfl⟩ := step
      rw [if_neg new] at rest
      have apart : ∀ other ∈ items.filterMap (·.spec.resource?),
          other.coordinate ≠ spec.coordinate := fun other member same =>
        distinct.1 (List.mem_map.mpr ⟨other, member, same⟩)
      obtain ⟨none, those, others⟩ := ih distinct.2 (fun other member => by
        rw [Std.ExtTreeMap.mem_insert, not_or]
        exact ⟨by simpa using (apart other member).symm, later other member⟩) rest
      refine ⟨none, ?_, ?_⟩
      · rw [List.forall_mem_cons]
        refine ⟨?_, those⟩
        rw [others _ apart, Std.ExtTreeMap.getElem?_insert_self, rational_ok parsed]
      · intro coordinate away
        obtain ⟨here, there⟩ := List.forall_mem_cons.mp away
        rw [others coordinate there, Std.ExtTreeMap.getElem?_insert, if_neg (by simpa using here)]
    · rename_i other
      have read : item.spec.resource? = none := by
        unfold DocumentSpec.resource?
        split
        · rename_i spec found
          exact absurd found (other spec)
        · rfl
      have front := List.filterMap_cons_none (f := fun d : Document => d.spec.resource?)
        (l := items) read
      rw [front] at distinct fresh ⊢
      obtain rfl := pure_ok.mp step
      exact ih distinct fresh rest

theorem mem_lowered {resources marking : Dict ℚ} {branch : BranchEffect}
    (done : lowered resources branch = .ok marking) (coordinate : Identifier) :
    coordinate ∈ marking ↔ coordinate ∈ resources ∨ coordinate ∈ branch.resourceDeltaLower := by
  have fold : ∀ (entries : List (Identifier × Rational)) (before : Dict ℚ),
      entries.foldlM (fun (resources : Dict ℚ) p => do
        let lower ← rational p.2
        pure (resources.insert p.1 (resources.getD p.1 0 + lower))) before = .ok marking →
      (coordinate ∈ marking ↔ coordinate ∈ before ∨ coordinate ∈ entries.map Prod.fst) := by
    intro entries
    induction entries with
    | nil =>
      intro before run
      rw [List.foldlM_nil, pure_ok] at run
      simp [run]
    | cons p entries ih =>
      intro before run
      simp only [List.foldlM_cons, bind_ok, pure_ok] at run
      obtain ⟨_, ⟨lower, _, rfl⟩, rest⟩ := run
      rw [ih _ rest, Std.ExtTreeMap.mem_insert, List.map_cons, List.mem_cons,
        Std.LawfulEqCmp.compare_eq_iff_eq]
      tauto
  rw [fold _ _ done, Std.ExtTreeMap.map_fst_toList_eq_keys, Std.ExtTreeMap.mem_keys]

theorem Amounts.step {observed : ResourceObservationSpec → Prop} {done : List BranchEffect}
    {resources marking : Dict ℚ} {branch : BranchEffect} (amounts : Amounts observed done resources)
    (books : lowered resources branch = .ok marking) :
    Amounts observed (done ++ [branch]) marking := by
  have drifts (coordinate : Identifier) : drift (done ++ [branch]) coordinate =
      drift done coordinate + balance branch.resourceDeltaLower coordinate := by
    simp [drift]
  refine ⟨fun spec holds => ?_, fun coordinate away => ?_, fun coordinate => ?_⟩
  · rw [lowered_ok books, amounts.amount spec holds, drifts, add_assoc]
  · rw [lowered_ok books, amounts.nothing coordinate away, drifts]
  · rw [mem_lowered books, amounts.known]
    simp only [List.mem_append, List.mem_singleton]
    constructor
    · rintro ((seen | ⟨earlier, member, touches⟩) | now)
      · exact .inl seen
      · exact .inr ⟨earlier, .inl member, touches⟩
      · exact .inr ⟨branch, .inr rfl, now⟩
    · rintro (seen | ⟨other, member | rfl, touches⟩)
      · exact .inl (.inl seen)
      · exact .inl (.inr ⟨other, member, touches⟩)
      · exact .inr touches

section runs
variable (h : Services) (snapshot : AnalysisSnapshot) (objects : Objects)

abbrev Taken := ControlState × BranchEffect

inductive Reached (profile : OperationalProfile) : List Taken → ControlState → Prop
  | start {state : ControlState} (initial : initialState h snapshot objects profile = .ok state) :
      Reached profile [] state
  | step {trace : List Taken} {state next : ControlState} {branch : BranchEffect}
      (before : Reached profile trace state)
      (moves : successor h state branch (some (snapshot, objects)) = .ok next) :
      Reached profile (trace ++ [(state, branch)]) next

/-- Every object that the snapshot references is live, if it has a lifecycle. -/
def Current (time : DateTime) : Prop :=
  ∀ digest ∈ snapshotReferences snapshot.spec, ∀ item, objects[digest]? = some item →
    ∀ lifecycle, item.spec.lifecycle = some lifecycle → lifecycle.live time = .ok true

instance decidableCurrent (time : DateTime) : Decidable (Current snapshot objects time) :=
  decidable_of_iff (∀ digest ∈ snapshotReferences snapshot.spec,
    (objects[digest]?.all fun item => item.spec.lifecycle.all fun lifecycle =>
      (lifecycle.live time).toOption == some true) = true) (by
    refine forall₂_congr fun digest _ => ?_
    cases objects[digest]? with
    | none => simp
    | some item =>
      cases found : item.spec.lifecycle with
      | none => simp [found]
      | some lifecycle => cases read : lifecycle.live time <;> simp [found, read, Except.toOption])

/-- A document of some kind that the snapshot does not reference repeats the id of a referenced
one that is left. -/
def Covered {σ : Type} (live : Finset Digest) (kind : DocumentSpec → Option σ)
    (id : σ → Identifier) : Prop :=
  ∀ digest ∉ snapshotReferences snapshot.spec, ∀ item spec, objects[digest]? = some item →
    kind item.spec = some spec → ∃ left ∈ snapshotReferences snapshot.spec, left ∈ live ∧
      ∃ item' spec', objects[left]? = some item' ∧ kind item'.spec = some spec' ∧
        id spec' = id spec

/-- A branch that removes no observation, and no document that one outside the snapshot
repeats. -/
structure Undisturbed (taken : Taken) : Prop where
  authorities : Covered snapshot objects (taken.1.liveObjects.filter (· ∉ taken.2.removals))
    authority? (·.authorityId)
  stages : Covered snapshot objects (taken.1.liveObjects.filter (· ∉ taken.2.removals))
    DocumentSpec.stage? (·.stageId)
  domains : Covered snapshot objects (taken.1.liveObjects.filter (· ∉ taken.2.removals))
    DocumentSpec.independence? (·.domainId)
  observations : ∀ digest ∈ taken.1.liveObjects, digest ∈ taken.2.removals → ∀ item,
    objects[digest]? = some item → item.spec.resource? = none

/-- The objects that the audit of a state reads: first of the snapshot, then of what is left
of it. -/
def auditView : List Taken → ControlState → Objects
  | [], _ => liveObjects h.toAuditServices snapshot objects
  | _ :: _, state => liveObjects h.toAuditServices
      (snapshotForLiveState h snapshot state.liveObjects)
      (successorObjects snapshot objects state.liveObjects)

/-- A state's evidence is that of the documents that the audit finds live. -/
structure Agrees (time : DateTime) (view : Objects) (done : List BranchEffect)
    (state : ControlState) : Prop where
  authorities : FromLive authority? AuthoritySpec.lifecycle (·.authorityId) time view
    state.authorityIds
  booked : Yields (availableSets view time) fun sets => sets.authority = state.authorityIds
  stages : FromLive DocumentSpec.stage? VerifierStageSpec.lifecycle (·.stageId) time view
    state.verifierStageIds
  domains : FromLive DocumentSpec.independence? IndependenceSpec.lifecycle (·.domainId) time view
    state.independenceDomains
  resources : ∃ items,
    liveTyped view DocumentSpec.resource? ResourceObservationSpec.lifecycle time = .ok items ∧
    Amounts (fun spec => ∃ item ∈ items, item.2 = spec) done state.resources ∧
    ∀ branch, resourceSafe state branch = .ok true → ∀ (coordinate : Identifier) floor,
      state.floors[coordinate]? = some floor →
        (∃ item ∈ items, item.2.coordinate = coordinate ∧
          floor ≤ F item.2.quantity + drift (done ++ [branch]) coordinate) ∨
        (∀ item ∈ items, item.2.coordinate ≠ coordinate) ∧
          floor ≤ drift (done ++ [branch]) coordinate

variable {h snapshot objects} {profile : OperationalProfile} {time : DateTime}

theorem reached_live {trace : List Taken} {state : ControlState}
    (reached : Reached h snapshot objects profile trace state) :
    ∀ digest ∈ state.liveObjects, digest ∈ snapshotReferences snapshot.spec := by
  induction reached with
  | start initial =>
    simp only [initialState, bind_ok, pure_ok] at initial
    obtain ⟨_, _, _, _, rfl⟩ := initial
    exact fun digest member => List.mem_toFinset.mp member
  | step _ moves ih =>
    rw [(succeeds_of_successor moves).live]
    exact fun digest member => ih digest (Finset.mem_filter.mp member).1

theorem getElem?_auditView (satisfied : provenanceReasons h.toAuditServices snapshot objects = [])
    {trace : List Taken} {state : ControlState}
    (reached : Reached h snapshot objects profile trace state) {digest : Digest}
    {item : Document} : (auditView h snapshot objects trace state)[digest]? = some item ↔
      digest ∈ snapshotReferences snapshot.spec ∧ digest ∈ state.liveObjects ∧
        objects[digest]? = some item := by
  cases reached with
  | start initial =>
    simp only [initialState, bind_ok, pure_ok] at initial
    obtain ⟨_, _, _, _, rfl⟩ := initial
    rw [auditView, getElem?_view satisfied]
    simp
  | @step trace =>
    cases trace <;> exact getElem?_successorView satisfied

theorem attestedIds_view {σ : Type} {kind : DocumentSpec → Option σ} {id : σ → Identifier}
    {view documents : Objects}
    (covers : ∀ (digest : Digest) (item : Document) spec, documents[digest]? = some item →
      kind item.spec = some spec → ∃ (left : Digest) (item' : Document) (spec' : σ),
        view[left]? = some item' ∧ kind item'.spec = some spec' ∧ id spec' = id spec)
    (contains : ∀ (digest : Digest) (item : Document), view[digest]? = some item →
      documents[digest]? = some item) :
    attestedIds documents.values kind id = attestedIds view.values kind id := by
  ext x
  rw [mem_attestedIds, mem_attestedIds]
  constructor
  · rintro ⟨digest, item, spec, held, read, rfl⟩
    exact covers digest item spec held read
  · rintro ⟨digest, item, spec, held, read, same⟩
    exact ⟨digest, item, spec, contains digest item held, read, same⟩

/-- The ids of the documents that are left are those in view, if what is outside the snapshot
repeats them. -/
theorem attestedIds_successor {σ : Type} {kind : DocumentSpec → Option σ} {id : σ → Identifier}
    {live : Finset Digest} {view : Objects}
    (seen : ∀ (digest : Digest) (item : Document), view[digest]? = some item ↔
      digest ∈ snapshotReferences snapshot.spec ∧ digest ∈ live ∧ objects[digest]? = some item)
    (covered : Covered snapshot objects live kind id) :
    attestedIds (successorObjects snapshot objects live).values kind id =
      attestedIds view.values kind id := by
  have held (digest : Digest) (item : Document) :
      (successorObjects snapshot objects live)[digest]? = some item ↔
        objects[digest]? = some item ∧ ¬ (digest ∈ snapshotReferences snapshot.spec ∧
          digest ∉ live) := by
    rw [successorObjects, Std.ExtTreeMap.getElem?_filter', Option.filter_eq_some_iff,
      decide_eq_true_eq]
  refine attestedIds_view (fun digest item spec found read => ?_) fun digest item found => ?_
  · obtain ⟨there, left⟩ := (held digest item).mp found
    by_cases referenced : digest ∈ snapshotReferences snapshot.spec
    · have present : digest ∈ live := not_not.mp fun gone => left ⟨referenced, gone⟩
      exact ⟨digest, item, spec, (seen digest item).mpr ⟨referenced, present, there⟩, read, rfl⟩
    · obtain ⟨other, inside, present, item', spec', there', read', same⟩ :=
        covered digest referenced item spec there read
      exact ⟨other, item', spec', (seen other item').mpr ⟨inside, present, there'⟩, read', same⟩
  · obtain ⟨_, present, there⟩ := (seen digest item).mp found
    exact (held digest item).mpr ⟨there, fun gone => gone.2 present⟩

/-- The ids that a state books are those attested in view. -/
structure Booked (view : Objects) (state : ControlState) : Prop where
  authorities : state.authorityIds = attestedIds view.values authority? (·.authorityId)
  stages : state.verifierStageIds = attestedIds view.values DocumentSpec.stage? (·.stageId)
  domains : state.independenceDomains =
    attestedIds view.values DocumentSpec.independence? (·.domainId)

theorem documentsIn_references
    (satisfied : provenanceReasons h.toAuditServices snapshot objects = []) :
    documentsIn objects (snapshotReferences snapshot.spec).toFinset =
      (liveObjects h.toAuditServices snapshot objects).values := by
  have same : (objects.filter fun digest _ =>
      decide (digest ∈ (snapshotReferences snapshot.spec).toFinset)) =
        liveObjects h.toAuditServices snapshot objects := by
    refine Std.ExtTreeMap.ext_getElem? fun {digest} => Option.ext fun item => ?_
    rw [Std.ExtTreeMap.getElem?_filter', Option.filter_eq_some_iff, decide_eq_true_eq,
      List.mem_toFinset, getElem?_view satisfied]
    exact and_comm
  rw [documentsIn, same]

theorem booked_of_reached
    (satisfied : provenanceReasons h.toAuditServices snapshot objects = []) {trace : List Taken}
    {state : ControlState} (reached : Reached h snapshot objects profile trace state)
    (undisturbed : ∀ taken ∈ trace, Undisturbed snapshot objects taken) :
    Booked (auditView h snapshot objects trace state) state := by
  have seen := @getElem?_auditView _ _ _ _ satisfied _ _ reached
  cases reached with
  | start initial =>
    simp only [initialState, bind_ok, pure_ok] at initial
    obtain ⟨_, _, _, _, rfl⟩ := initial
    rw [auditView, documentsIn_references satisfied]
    exact ⟨rfl, rfl, rfl⟩
  | @step trace before next branch earlier moves =>
    obtain ⟨_, settled⟩ := List.forall_mem_append.mp undisturbed
    have here := settled _ (List.mem_singleton_self _)
    have live := (succeeds_of_successor moves).live
    simp only [successor, bind_ok, recomputeScientificState, pure_ok] at moves
    obtain ⟨marking, _, read, _, audited, _, rfl⟩ := moves
    have seen' := fun digest item => @seen digest item
    exact ⟨attestedIds_successor seen' (live ▸ here.authorities),
      attestedIds_successor seen' (live ▸ here.stages),
      attestedIds_successor seen' (live ▸ here.domains)⟩

def Observable (view : Objects) (spec : ResourceObservationSpec) : Prop :=
  ∃ (digest : Digest) (item : Document), view[digest]? = some item ∧
    item.spec.resource? = some spec

theorem map_filterMap_sublist {α β γ : Type} {f : α → Option β} {g : α → Option γ} {k : γ → β}
    (factors : ∀ x y, g x = some y → f x = some (k y)) (xs : List α) :
    ((xs.filterMap g).map k).Sublist (xs.filterMap f) := by
  induction xs with
  | nil => exact .slnil
  | cons x xs ih =>
    cases read : g x with
    | none =>
      rw [List.filterMap_cons_none read]
      refine ih.trans ?_
      rw [List.filterMap_cons]
      split
      · exact .refl _
      · exact List.sublist_cons_self _ _
    | some y =>
      rw [List.filterMap_cons_some read, List.filterMap_cons_some (factors x y read)]
      exact ih.cons_cons _

theorem coordinates_nodup
    (satisfied : provenanceReasons h.toAuditServices snapshot objects = []) :
    (((liveObjects h.toAuditServices snapshot objects).values.filterMap
      (·.spec.resource?)).map (·.coordinate)).Nodup := by
  simp only [provenanceReasons, List.append_eq_nil_iff] at satisfied
  have distinct := (duplicateIdentities_nil satisfied.1.1.1.2).1
  have part := map_filterMap_sublist (f := typedIdentity)
    (g := fun item : Document => item.spec.resource?)
    (k := fun spec => ("resource-observation-attestation", spec.coordinate)) (fun item spec read => by
      unfold DocumentSpec.resource? at read
      split at read
      · rename_i spec' found
        cases read
        simp [typedIdentity, found, DocumentSpec.kind]
      · cases read)
    (liveObjects h.toAuditServices snapshot objects).values
  have pairs : ((((liveObjects h.toAuditServices snapshot objects).values.filterMap
      (·.spec.resource?)).map (·.coordinate)).map
        (Prod.mk "resource-observation-attestation")).Nodup := by
    rw [List.map_map]
    exact distinct.sublist part
  exact pairs.of_map

theorem amounts_of_initialState
    (satisfied : provenanceReasons h.toAuditServices snapshot objects = [])
    {state : ControlState} (initial : initialState h snapshot objects profile = .ok state) :
    Amounts (Observable (liveObjects h.toAuditServices snapshot objects)) [] state.resources := by
  simp only [initialState, bind_ok, pure_ok] at initial
  obtain ⟨resources, observed, _, _, rfl⟩ := initial
  rw [documentsIn_references satisfied] at observed
  simp only [observedResources, bind_ok, pure_ok] at observed
  obtain ⟨found, run, rfl⟩ := observed
  obtain ⟨none, those, others⟩ := observe_fold (coordinates_nodup satisfied) (by simp) run
  have listed (spec : ResourceObservationSpec) :
      Observable (liveObjects h.toAuditServices snapshot objects) spec ↔
      spec ∈ (liveObjects h.toAuditServices snapshot objects).values.filterMap
        (·.spec.resource?) := by
    simp only [Observable, List.mem_filterMap, Dict.mem_values]
    constructor
    · rintro ⟨digest, item, held, read⟩
      exact ⟨item, ⟨digest, held⟩, read⟩
    · rintro ⟨item, ⟨digest, held⟩, read⟩
      exact ⟨digest, item, held, read⟩
  have kept (coordinate : Identifier) :
      (found.1.filter fun coordinate _ => decide (coordinate ∉ found.2))[coordinate]? =
        found.1[coordinate]? := by
    rw [Std.ExtTreeMap.getElem?_filter', none]
    cases found.1[coordinate]? <;> rfl
  refine ⟨fun spec observable => ?_, fun coordinate away => ?_, fun coordinate => ?_⟩
  · rw [Std.ExtTreeMap.getD_eq_getD_getElem?, kept, those spec ((listed spec).mp observable)]
    simp [drift]
  · rw [Std.ExtTreeMap.getD_eq_getD_getElem?, kept,
      others coordinate fun spec member => away spec ((listed spec).mpr member)]
    simp [drift]
  · rw [Std.ExtTreeMap.mem_iff_isSome_getElem?, kept]
    constructor
    · intro present
      by_contra missing
      have away : ∀ spec, Observable (liveObjects h.toAuditServices snapshot objects) spec →
          spec.coordinate ≠ coordinate :=
        fun spec observable same => missing (.inl ⟨spec, observable, same⟩)
      rw [others coordinate fun spec member => away spec ((listed spec).mpr member)] at present
      simp at present
    · rintro (⟨spec, observable, rfl⟩ | ⟨_, member, _⟩)
      · rw [those spec ((listed spec).mp observable)]
        rfl
      · cases member

theorem amounts_of_reached
    (satisfied : provenanceReasons h.toAuditServices snapshot objects = []) {trace : List Taken}
    {state : ControlState} (reached : Reached h snapshot objects profile trace state)
    (undisturbed : ∀ taken ∈ trace, Undisturbed snapshot objects taken) :
    Amounts (Observable (auditView h snapshot objects trace state)) (trace.map Prod.snd)
      state.resources := by
  induction reached with
  | start initial => exact amounts_of_initialState satisfied initial
  | @step trace before next branch earlier moves ih =>
    obtain ⟨past, settled⟩ := List.forall_mem_append.mp undisturbed
    have here := (settled _ (List.mem_singleton_self _)).observations
    have moved := succeeds_of_successor moves
    have same : Observable (auditView h snapshot objects (trace ++ [(before, branch)]) next) =
        Observable (auditView h snapshot objects trace before) := by
      funext spec
      apply propext
      have later (digest : Digest) (item : Document) :
          (auditView h snapshot objects (trace ++ [(before, branch)]) next)[digest]? = some item ↔
            digest ∈ snapshotReferences snapshot.spec ∧ digest ∈ next.liveObjects ∧
              objects[digest]? = some item :=
        getElem?_auditView satisfied (.step earlier moves)
      constructor
      · rintro ⟨digest, item, held, read⟩
        obtain ⟨referenced, present, there⟩ := (later digest item).mp held
        rw [moved.live, Finset.mem_filter] at present
        exact ⟨digest, item,
          (getElem?_auditView satisfied earlier).mpr ⟨referenced, present.1, there⟩, read⟩
      · rintro ⟨digest, item, held, read⟩
        obtain ⟨referenced, present, there⟩ := (getElem?_auditView satisfied earlier).mp held
        have kept : digest ∉ branch.removals := fun gone => by
          have none := here digest present gone item there
          rw [read] at none
          cases none
        refine ⟨digest, item, (later digest item).mpr ⟨referenced, ?_, there⟩, read⟩
        rw [moved.live, Finset.mem_filter]
        exact ⟨present, kept⟩
    rw [same, List.map_append]
    exact (ih past).step moved.marking

theorem floors_of_amounts {state : ControlState} {observed : ResourceObservationSpec → Prop}
    {done : List BranchEffect} (amounts : Amounts observed done state.resources)
    {branch : BranchEffect} (safe : resourceSafe state branch = .ok true)
    {coordinate : Identifier} {floor : ℚ} (declared : state.floors[coordinate]? = some floor) :
    (∃ spec, observed spec ∧ spec.coordinate = coordinate ∧
      floor ≤ F spec.quantity + drift (done ++ [branch]) coordinate) ∨
    (∀ spec, observed spec → spec.coordinate ≠ coordinate) ∧
      floor ≤ drift (done ++ [branch]) coordinate := by
  simp only [resourceSafe, bind_ok, pure_ok, List.all_eq_true, decide_eq_true_eq] at safe
  obtain ⟨marking, books, all⟩ := safe
  have after := amounts.step books
  have kept := all (coordinate, floor)
    (Std.ExtTreeMap.mem_toList_iff_getElem?_eq_some.mpr declared)
  by_cases away : ∀ spec, observed spec → spec.coordinate ≠ coordinate
  · rw [after.nothing coordinate away] at kept
    exact .inr ⟨away, kept⟩
  · simp only [not_forall, not_not] at away
    obtain ⟨spec, holds, rfl⟩ := away
    rw [after.amount spec holds] at kept
    exact .inl ⟨spec, holds, rfl, kept⟩

theorem agrees_of_reached
    (satisfied : provenanceReasons h.toAuditServices snapshot objects = [])
    (current : Current snapshot objects time) {trace : List Taken} {state : ControlState}
    (reached : Reached h snapshot objects profile trace state)
    (undisturbed : ∀ taken ∈ trace, Undisturbed snapshot objects taken) :
    Agrees time (auditView h snapshot objects trace state) (trace.map Prod.snd) state := by
  have booked := booked_of_reached satisfied reached undisturbed
  have live {σ : Type} {kind : DocumentSpec → Option σ} {lifecycle : σ → Lifecycle}
      (declared : ∀ item spec, kind item = some spec → item.lifecycle = some (lifecycle spec)) :
      ∀ item ∈ typed (auditView h snapshot objects trace state) kind,
        (lifecycle item.2).live time = .ok true := by
    intro item member
    obtain ⟨⟨digest, held⟩, read⟩ := mem_typed.mp member
    obtain ⟨referenced, _, there⟩ := (getElem?_auditView satisfied reached).mp held
    exact current digest referenced item.1 there _ (declared _ _ read)
  have authority (item : DocumentSpec) (spec : AuthoritySpec)
      (read : authority? item = some spec) : item.lifecycle = some spec.lifecycle := by
    unfold authority? at read
    split at read <;> cases read
    rfl
  have stage (item : DocumentSpec) (spec : VerifierStageSpec)
      (read : item.stage? = some spec) : item.lifecycle = some spec.lifecycle := by
    unfold DocumentSpec.stage? at read
    split at read <;> cases read
    rfl
  have domain (item : DocumentSpec) (spec : IndependenceSpec)
      (read : item.independence? = some spec) : item.lifecycle = some spec.lifecycle := by
    unfold DocumentSpec.independence? at read
    split at read <;> cases read
    rfl
  have resource (item : DocumentSpec) (spec : ResourceObservationSpec)
      (read : item.resource? = some spec) : item.lifecycle = some spec.lifecycle := by
    unfold DocumentSpec.resource? at read
    split at read <;> cases read
    rfl
  have amounts := amounts_of_reached satisfied reached undisturbed
  have observed : Observable (auditView h snapshot objects trace state) = fun spec =>
      ∃ item ∈ typed (auditView h snapshot objects trace state) DocumentSpec.resource?,
        item.2 = spec := by
    funext spec
    apply propext
    constructor
    · rintro ⟨digest, item, held, read⟩
      exact ⟨(item, spec), mem_typed.mpr ⟨⟨digest, held⟩, read⟩, rfl⟩
    · rintro ⟨item, member, rfl⟩
      obtain ⟨⟨digest, held⟩, read⟩ := mem_typed.mp member
      exact ⟨digest, item.1, held, read⟩
  rw [observed] at amounts
  refine ⟨?_, ?_, ?_, ?_, _, liveTyped_of_current (live resource), amounts, ?_⟩
  · rw [booked.authorities]
    exact fromLive_of_current (live authority)
  · rw [booked.authorities]
    exact yields_availableSets_authority (live authority)
  · rw [booked.stages]
    exact fromLive_of_current (live stage)
  · rw [booked.domains]
    exact fromLive_of_current (live domain)
  · intro branch safe coordinate floor declares
    obtain ⟨spec, ⟨item, member, rfl⟩, same, kept⟩ | ⟨away, kept⟩ :=
      floors_of_amounts amounts safe declares
    · exact .inl ⟨item, member, same, kept⟩
    · exact .inr ⟨fun item member => away item.2 ⟨item, member, rfl⟩, kept⟩

theorem carried_live {baseline : Baseline} {candidates : List Candidate} {horizon : ℕ}
    {path : Path} {state : ControlState} {pair : Candidate} {node : PolicyNode}
    {outcomes : ℕ → OutcomeName} {steps : List Step}
    (carried : Carried h baseline candidates horizon path state pair node outcomes steps) :
    (∃ first rest, steps = first :: rest ∧ first.state = state ∧ first.pair = pair) ∧
      ∀ s ∈ steps, s.state.liveObjects ⊆ state.liveObjects := by
  induction carried with
  | ends => simp
  | goesOn _ _ moves _ _ _ ih =>
    refine ⟨⟨_, _, rfl, rfl, rfl⟩, ?_⟩
    rw [List.forall_mem_cons]
    refine ⟨subset_rfl, fun s member => (ih.2 s member).trans ?_⟩
    rw [(succeeds_of_successor moves).live]
    exact Finset.filter_subset _ _

theorem required_of_policy {actions : List ActionDocument}
    {capabilities : List CapabilityDocument} {horizon : ℤ} {result : PlanResult}
    {policy : PolicyNode}
    (plan : planActions h snapshot objects profile actions capabilities horizon = .ok result)
    (returned : result.policy = some policy) {state : ControlState} {candidates : List Candidate}
    {pair : Candidate} (of : Returned h snapshot objects profile actions capabilities horizon
      policy state candidates pair) {outcomes : ℕ → OutcomeName} {steps : List Step}
    (carried : Carried h (some (snapshot, objects)) candidates horizon.toNat [] state pair policy
      outcomes steps) :
    ∀ s ∈ steps, ∀ digest ∈ s.pair.1.spec.requiredObjectDigests,
      digest ∈ snapshotReferences snapshot.spec := by
  obtain ⟨positive, strong, _⟩ := policy_of_planActions plan returned
  obtain ⟨⟨screened, prepared⟩, member, made⟩ := of
  obtain ⟨⟨first, rest, rfl, start, chosen⟩, live⟩ := carried_live carried
  have run := strongRun_of_carried carried positive made strong
  have passes : ∀ s ∈ first :: rest, hardFilter h s.state s.pair.1 (some s.pair.2) = .ok [] := by
    rw [List.forall_mem_cons]
    refine ⟨?_, run.filtered⟩
    rw [start, chosen]
    exact mem_screenActions prepared.screens pair
      ((mem_nondominated prepared.undominated).mp member).1
  intro s listed digest required
  have present := (hardFilter_nil (passes s listed)).1 digest required
  exact reached_live (.start prepared.initial) digest (live s listed present)

variable (h snapshot objects time)

structure SeesLive : Prop where
  runs : ∀ profile trace state, Reached h snapshot objects profile trace state →
    (∀ taken ∈ trace, Undisturbed snapshot objects taken) →
      Agrees time (auditView h snapshot objects trace state) (trace.map Prod.snd) state
  policies : ∀ profile actions capabilities horizon result policy,
    planActions h snapshot objects profile actions capabilities horizon = .ok result →
    result.policy = some policy → ∀ state candidates pair,
    Returned h snapshot objects profile actions capabilities horizon policy state candidates
      pair → ∀ outcomes steps,
    Carried h (some (snapshot, objects)) candidates horizon.toNat [] state pair policy outcomes
      steps → ∀ s ∈ steps, ∀ digest ∈ s.pair.1.spec.requiredObjectDigests,
      digest ∈ snapshotReferences snapshot.spec ∧ ∃ item, objects[digest]? = some item ∧
        ∀ lifecycle, item.spec.lifecycle = some lifecycle → lifecycle.live time = .ok true

variable {h snapshot objects time}

/-- Where all referenced objects are live, undisturbed runs see what the audit sees. -/
theorem planner_seesLive {result : DimensionResult}
    (satisfied : provenanceReasons h.toAuditServices snapshot objects = [])
    (_timed : temporal h.toAuditServices snapshot
      (liveObjects h.toAuditServices snapshot objects) none = .ok (result, some time))
    (current : Current snapshot objects time) : SeesLive h snapshot objects time := by
  refine ⟨fun profile trace state reached undisturbed =>
    agrees_of_reached satisfied current reached undisturbed, ?_⟩
  intro profile actions capabilities horizon plan policy planned returned state candidates pair of
    outcomes steps carried s listed digest required
  have referenced := required_of_policy planned returned of carried s listed digest required
  obtain ⟨item, held, _⟩ := reference_of_provenance satisfied referenced
  exact ⟨referenced, item, held, current digest referenced item held⟩

end runs

theorem undisturbed_of_referenced (inside : ∀ digest ∈ objects,
    digest ∈ snapshotReferences snapshot.spec) {taken : Taken}
    (keeps : taken.2.removals = ∅) : Undisturbed snapshot objects taken := by
  have covered {σ : Type} (kind : DocumentSpec → Option σ) (id : σ → Identifier) :
      Covered snapshot objects (taken.1.liveObjects.filter (· ∉ taken.2.removals)) kind id :=
    fun digest outside item spec found _ => absurd
      (inside digest (Std.ExtTreeMap.mem_iff_isSome_getElem?.mpr (by rw [found]; rfl))) outside
  refine ⟨covered _ _, covered _ _, covered _ _, fun digest _ removed => ?_⟩
  rw [keeps] at removed
  exact absurd removed (Finset.notMem_empty _)

namespace PlannerSample
open IndecisiveSample (document digest)

def attestedSnapshot (attested : List (Char × DocumentSpec)) : AnalysisSnapshot :=
  ⟨⟨"tenant", "workspace", digest '0', .utc 0⟩, ∅,
    ⟨digest 'f', digest '0', digest 'a', digest 'b', digest 'c', digest 'd',
      (attested.map Prod.fst).map digest, [], ["target"], ∅, 1, mandatoryDimensions⟩⟩

def governing : List (Char × DocumentSpec) :=
  [('a', .phaseContract ⟨["target"], ∅, mandatoryDimensions, 1⟩),
    ('b', .trustPolicy ⟨0, none, "key", [], []⟩),
    ('c', .trustedTimeReceipt ⟨"author", .utc 10, .utc 20, "nonce"⟩),
    ('d', .unitRegistry ⟨.ofList [("unit", (⟨∅, AuditSample.one⟩ : UnitDefinition))],
      .ofList [("ore", "unit")], "unit", "unit"⟩)]

def attestedObjects (attested : List (Char × DocumentSpec)) : Objects :=
  .ofList ((governing ++ attested).map fun entry => (digest entry.1, document entry.1 entry.2))

def signer (lifecycle : Lifecycle) : Char × DocumentSpec := ('e', .authority ⟨"signer", lifecycle⟩)

def attested : List (Char × DocumentSpec) :=
  [signer AuditSample.lifecycle,
    ('1', .resourceObservation ⟨"ore", .ofNat 3, "unit", AuditSample.lifecycle⟩)]

theorem attested_accepted : (attestedSnapshot attested).spec.Accepted :=
  @IndecisiveSample.spec_accepted mandatoryDimensions ['e', '1'] 'a' 'b' 'c' 'd' (by decide)
    (List.cons_ne_nil _ _) (by decide) (by decide) (by decide)

def taking : BranchEffect :=
  { branch [] ["route"] 1 .success with
    resourceDeltaLower := .ofList [("ore", (⟨true, 1, none⟩ : Rational))]
    resourceDeltaUpper := .ofList [("ore", (⟨true, 1, none⟩ : Rational))] }

/-- The state of a profile, and the one after taking a unit of ore. -/
def moving : Checked (OperationalProfile × ControlState × ControlState) := do
  let profile ← audit services (attestedSnapshot attested) (attestedObjects attested)
  let state ← initialState services (attestedSnapshot attested) (attestedObjects attested) profile
  let next ← successor services state taking (some (attestedSnapshot attested,
    attestedObjects attested))
  pure (profile, state, next)

theorem attested_live :
    provenanceReasons services.toAuditServices (attestedSnapshot attested)
      (attestedObjects attested) = [] ∧
    (temporal services.toAuditServices (attestedSnapshot attested)
      (liveObjects services.toAuditServices (attestedSnapshot attested)
        (attestedObjects attested)) none).toOption.bind (·.2) = some (.utc 10) ∧
    Current (attestedSnapshot attested) (attestedObjects attested) (.utc 10) ∧
    (∀ digest ∈ (attestedObjects attested).keys,
      digest ∈ snapshotReferences (attestedSnapshot attested).spec) ∧
    moving.toOption.isSome = true := by decide +kernel

/-- After the unit is taken the planner still sees what the audit sees. -/
theorem planner_seesLive_sample : ∃ profile state next,
    (attestedSnapshot attested).spec.Accepted ∧
    Reached services (attestedSnapshot attested) (attestedObjects attested) profile
      [(state, taking)] next ∧
    Agrees (.utc 10) (auditView services (attestedSnapshot attested) (attestedObjects attested)
      [(state, taking)] next) [taking] next := by
  obtain ⟨satisfied, timed, current, keys, moves⟩ := attested_live
  have inside : ∀ digest ∈ attestedObjects attested,
      digest ∈ snapshotReferences (attestedSnapshot attested).spec :=
    fun digest member => keys digest (Std.ExtTreeMap.mem_keys.mpr member)
  cases run : temporal services.toAuditServices (attestedSnapshot attested)
      (liveObjects services.toAuditServices (attestedSnapshot attested)
        (attestedObjects attested)) none with
  | error fault =>
    rw [run] at timed
    cases timed
  | ok found =>
    obtain ⟨result, time⟩ := found
    rw [run] at timed
    obtain rfl : time = some (.utc 10) := timed
    cases made : moving with
    | error fault =>
      rw [made] at moves
      cases moves
    | ok found =>
      simp only [moving, bind_ok, pure_ok] at made
      obtain ⟨profile, -, state, initial, next, moved, -⟩ := made
      have reached : Reached services (attestedSnapshot attested) (attestedObjects attested)
          profile [(state, taking)] next := .step (.start initial) moved
      refine ⟨profile, state, next, attested_accepted, reached, ?_⟩
      refine (planner_seesLive satisfied run current).runs profile _ _ reached fun taken member => ?_
      rw [List.mem_singleton.mp member]
      exact undisturbed_of_referenced inside rfl

def expired : Lifecycle := ⟨.utc 0, .utc 5, none⟩

theorem expired_booked :
    provenanceReasons services.toAuditServices (attestedSnapshot [signer expired])
      (attestedObjects [signer expired]) = [] ∧
    (temporal services.toAuditServices (attestedSnapshot [signer expired])
      (liveObjects services.toAuditServices (attestedSnapshot [signer expired])
        (attestedObjects [signer expired])) none).toOption.bind (·.2) = some (.utc 10) ∧
    (liveTyped (liveObjects services.toAuditServices (attestedSnapshot [signer expired])
      (attestedObjects [signer expired])) authority? AuthoritySpec.lifecycle
        (.utc 10)).toOption = some [] ∧
    (observedResources (documentsIn (attestedObjects [signer expired])
      (snapshotReferences (attestedSnapshot [signer expired]).spec).toFinset)).toOption.isSome =
        true ∧
    (parseAmounts (attestedSnapshot [signer expired]).spec.protectedFloors).toOption.isSome =
      true ∧
    authorityIds (documentsIn (attestedObjects [signer expired])
      (snapshotReferences (attestedSnapshot [signer expired]).spec).toFinset) = {"signer"} := by
  decide +kernel

/-- The planner books an authority whose attestation has expired. -/
theorem planner_books_expired :
    (attestedSnapshot [signer expired]).spec.Accepted ∧
    provenanceReasons services.toAuditServices (attestedSnapshot [signer expired])
      (attestedObjects [signer expired]) = [] ∧
    (temporal services.toAuditServices (attestedSnapshot [signer expired])
      (liveObjects services.toAuditServices (attestedSnapshot [signer expired])
        (attestedObjects [signer expired])) none).toOption.bind (·.2) = some (.utc 10) ∧
    ∀ profile, ∃ state,
      initialState services (attestedSnapshot [signer expired])
        (attestedObjects [signer expired]) profile = .ok state ∧
      state.authorityIds = {"signer"} ∧
      (liveTyped (liveObjects services.toAuditServices (attestedSnapshot [signer expired])
        (attestedObjects [signer expired])) authority? AuthoritySpec.lifecycle
          (.utc 10)).toOption = some [] := by
  have accepted : (attestedSnapshot [signer expired]).spec.Accepted :=
    @IndecisiveSample.spec_accepted mandatoryDimensions ['e'] 'a' 'b' 'c' 'd' (by decide)
      (List.cons_ne_nil _ _) (by decide) (List.nodup_singleton _) (by decide)
  obtain ⟨satisfied, timed, empty, resources, floors, ids⟩ := expired_booked
  refine ⟨accepted, satisfied, timed, fun profile => ?_⟩
  cases observed : observedResources (documentsIn (attestedObjects [signer expired])
      (snapshotReferences (attestedSnapshot [signer expired]).spec).toFinset) with
  | error fault =>
    rw [observed] at resources
    cases resources
  | ok amounts =>
    cases parsed : parseAmounts (attestedSnapshot [signer expired]).spec.protectedFloors with
    | error fault =>
      rw [parsed] at floors
      cases floors
    | ok parsed' =>
      simp only [initialState, observed, parsed, ok_bind]
      exact ⟨_, rfl, ids, empty⟩

end PlannerSample

end CollectivePhaseControl.Planning
