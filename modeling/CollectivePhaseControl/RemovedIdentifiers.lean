import CollectivePhaseControl.FormationLayers

/-! What a reduced snapshot still reaches of the identifiers that its scenario removes. The
transformations that put one out are gone, and of the documents that attest one those of the
kinds that the selector looks at; the others are left, and are reached. -/
namespace CollectivePhaseControl

def DocumentSpec.attested? : DocumentSpec → Option Identifier
  | .state spec => some spec.stateId
  | .resourceObservation spec => some spec.coordinate
  | .evidence spec => some spec.evidenceId
  | .authority spec => some spec.authorityId
  | _ => none

/-- A document attests the identifier, or is a transformation that puts it out. -/
def Gives (item : Document) (x : Identifier) : Prop :=
  item.spec.attested? = some x ∨ ∃ spec, item.spec = .transformation spec ∧ x ∈ spec.outputs

section attests
variable (time : DateTime)

def Attests (item : Document) (x : Identifier) : Prop :=
  AttestsState time item x ∨ AttestsStock time item x ∨ AttestsEvidence time item x ∨
    AttestsAuthority time item x

variable {time}

theorem Attests.attested {item : Document} {x : Identifier} (attests : Attests time item x) :
    item.spec.attested? = some x := by
  obtain ⟨spec, found, -, -, same⟩ | ⟨spec, found, -, -, same⟩ | ⟨spec, found, -, same⟩ |
    ⟨spec, found, -, same⟩ := attests
  all_goals rw [found, ← same]; rfl

end attests

/-- The quantity has numerator and denominator within the bound of `rational`. -/
def WithinBits (quantity : ℚ) : Prop :=
  ¬ (maxRationalBits < quantity.num.natAbs.size ∨ maxRationalBits < quantity.den.size)

/-- Whether the document is current can be told, and its quantity if it is. -/
def Legible (time : DateTime) : DocumentSpec → Prop
  | .state spec => ∃ live, spec.lifecycle.live time = .ok live
  | .resourceObservation spec =>
    ∃ live, spec.lifecycle.live time = .ok live ∧ (live = true → WithinBits (F spec.quantity))
  | .evidence spec => ∃ live, spec.lifecycle.live time = .ok live
  | .authority spec => ∃ live, spec.lifecycle.live time = .ok live
  | .transformation spec => ∃ live, spec.lifecycle.live time = .ok live
  | _ => True

section computed
variable {objects : Objects} {time : DateTime}

theorem affordable_lift {α : Type} {x : Checked α} {a : α} (made : x = .ok a) :
    Affordable (lift x) := by
  rw [made]
  exact affordable_pure a

theorem Affordable.returns {α : Type} {m : Analysis α} (affordable : Affordable m) :
    ∃ a, Returns m a := by
  obtain ⟨a, cost, runs⟩ := affordable
  obtain ⟨after, run, -⟩ := runs (.ofOperations cost fun _ => false) (le_refl _) fun _ => rfl
  exact ⟨a, _, after, run⟩

theorem yields_rational_short (written : Rational) :
    Yields (rational written) fun _ => WithinBits (F written) := by
  unfold rational
  dsimp only
  split
  · exact yields_throw _
  · rename_i short
    exact yields_pure short

theorem yields_book_legible (sets : AvailableSets) (item : Document) :
    Yields (sets.book time item) fun _ => item.spec.attested? ≠ none →
      Legible time item.spec := by
  unfold AvailableSets.book
  split
  · rename_i spec found
    exact yields_bind (yields_lift _) fun live judged => yields_pure fun _ =>
      found ▸ ⟨live, judged⟩
  · rename_i spec found
    refine yields_bind (yields_lift _) fun live judged => ?_
    split
    · exact yields_bind (yields_rational_short _) fun quantity short => yields_pure fun _ =>
        found ▸ ⟨live, judged, fun _ => short⟩
    · rename_i stale
      exact yields_pure fun _ => found ▸ ⟨live, judged, fun current => absurd current stale⟩
  · rename_i spec found
    exact yields_bind (yields_lift _) fun live judged => yields_pure fun _ =>
      found ▸ ⟨live, judged⟩
  · rename_i spec found
    exact yields_bind (yields_lift _) fun live judged => yields_pure fun _ =>
      found ▸ ⟨live, judged⟩
  · rename_i state resource evidence authority
    refine yields_pure fun attested => absurd ?_ attested
    unfold DocumentSpec.attested?
    split
    · exact absurd ‹_› (state _)
    · exact absurd ‹_› (resource _)
    · exact absurd ‹_› (evidence _)
    · exact absurd ‹_› (authority _)
    · rfl

theorem affordable_book {item : Document} (legible : Legible time item.spec)
    (sets : AvailableSets) : Affordable (sets.book time item) := by
  unfold AvailableSets.book
  split
  · rename_i spec found
    rw [found] at legible
    obtain ⟨live, judged⟩ := legible
    exact (affordable_lift judged).bind (yields_trivial _) fun _ _ => affordable_pure _
  · rename_i spec found
    rw [found] at legible
    obtain ⟨live, judged, short⟩ := legible
    refine (affordable_lift judged).bind (yields_lift _) fun live' judged' => ?_
    cases judged.symm.trans judged'
    split
    · rename_i current
      exact (affordable_rational (short current)).bind (yields_trivial _) fun _ _ =>
        affordable_pure _
    · exact affordable_pure _
  · rename_i spec found
    rw [found] at legible
    obtain ⟨live, judged⟩ := legible
    exact (affordable_lift judged).bind (yields_trivial _) fun _ _ => affordable_pure _
  · rename_i spec found
    rw [found] at legible
    obtain ⟨live, judged⟩ := legible
    exact (affordable_lift judged).bind (yields_trivial _) fun _ _ => affordable_pure _
  · exact affordable_pure _

theorem exists_liveTyped {σ : Type} {kind : DocumentSpec → Option σ} {lifecycle : σ → Lifecycle} :
    (∃ items, liveTyped objects kind lifecycle time = .ok items) ↔
      ∀ item ∈ typed objects kind, ∃ live, (lifecycle item.2).live time = .ok live := by
  unfold liveTyped
  suffices fold : ∀ (listed kept : List (Document × σ)),
      (∃ items, listed.foldlM (keepLive lifecycle time) kept = .ok items) ↔
        ∀ item ∈ listed, ∃ live, (lifecycle item.2).live time = .ok live from fold _ _
  intro listed
  induction listed with
  | nil => exact fun kept => iff_of_true ⟨kept, rfl⟩ (by simp)
  | cons item listed ih =>
    intro kept
    simp only [List.foldlM_cons, List.forall_mem_cons, keepLive, bind_ok, pure_ok]
    constructor
    · rintro ⟨items, _, ⟨live, judged, rfl⟩, rest⟩
      exact ⟨⟨live, judged⟩, (ih _).mp ⟨items, rest⟩⟩
    · rintro ⟨⟨live, judged⟩, others⟩
      obtain ⟨items, rest⟩ := (ih (if live = true then kept ++ [item] else kept)).mpr others
      exact ⟨items, _, ⟨live, judged, rfl⟩, rest⟩

theorem affordable_closureLoop (rules : List (Horn.Rule Identifier)) (n : ℕ) :
    ∀ s : Finset Identifier, (∃ t, Horn.saturate rules n s = some t) →
      Affordable (closureLoop rules n s) := by
  induction n with
  | zero =>
    rintro s ⟨t, saturated⟩
    simp [Horn.saturate] at saturated
  | succ n ih =>
    rintro s ⟨t, saturated⟩
    have paid : Affordable (closurePass rules s) := affordable_foldlM (fun progress rule _ =>
      (affordable_spend 1).bind (yields_trivial _) fun _ _ => affordable_pure _) _
    refine paid.bind (yields_closurePass rules s) fun progress same => ?_
    rw [same]
    rw [Horn.saturate] at saturated
    split_ifs with changed
    · refine ih _ ⟨t, ?_⟩
      rw [if_neg (by simpa using Ne.symm (of_decide_eq_true changed))] at saturated
      exact saturated
    · exact affordable_pure _

theorem affordable_closureOf (rules : List (Horn.Rule Identifier)) (s : Finset Identifier) :
    Affordable (closureOf rules s) := by
  refine affordable_closureLoop rules _ s (Horn.saturate_total ?_)
  exact Nat.lt_succ_of_le (Finset.card_le_card Finset.sdiff_subset)

theorem yields_foldlM_forall {α β : Type} {f : β → α → Analysis β} {P : α → Prop} {xs : List α}
    (each : ∀ s, ∀ x ∈ xs, Yields (f s x) fun _ => P x) :
    ∀ s, Yields (xs.foldlM f s) fun _ => ∀ x ∈ xs, P x := by
  induction xs with
  | nil => exact fun s => yields_pure (by simp)
  | cons x xs ih =>
    intro s
    rw [List.foldlM_cons]
    refine yields_bind (each s x List.mem_cons_self) fun t first => ?_
    refine (ih (fun s y member => each s y (List.mem_cons_of_mem _ member)) t).mono fun _ rest => ?_
    exact List.forall_mem_cons.mpr ⟨first, rest⟩

theorem mem_typed_transformation {item : Document × TransformationSpec} :
    item ∈ typed objects DocumentSpec.transformation? ↔
      item.1 ∈ objects.values ∧ item.1.spec = .transformation item.2 := by
  rw [typed, List.mem_filterMap]
  constructor
  · rintro ⟨document, held, found⟩
    obtain ⟨spec, kind, rfl⟩ := Option.map_eq_some_iff.mp found
    refine ⟨held, ?_⟩
    unfold DocumentSpec.transformation? at kind
    split at kind
    · cases kind
      assumption
    · cases kind
  · rintro ⟨held, kind⟩
    exact ⟨item.1, held, by rw [kind]; rfl⟩

theorem closure_computed_iff : (∃ closure, Returns (auditClosure objects time) closure) ↔
    ∀ item ∈ objects.values, Legible time item.spec := by
  constructor
  · rintro ⟨closure, returned⟩
    obtain ⟨sets, read, rest⟩ := returned.of_bind
    obtain ⟨network, listed, -⟩ := rest.of_bind
    have attested := (yields_foldlM_forall (fun sets item _ => yields_book_legible sets item)
      _).returned read
    obtain ⟨items, selected, -⟩ := listed.of_bind
    have live := exists_liveTyped.mp ⟨items, (yields_lift _).returned selected⟩
    intro item member
    by_cases given : item.spec.attested? = none
    · cases kind : item.spec with
      | transformation spec =>
        exact live (item, spec) (mem_typed_transformation.mpr ⟨member, kind⟩)
      | state spec => rw [kind] at given; cases given
      | resourceObservation spec => rw [kind] at given; cases given
      | evidence spec => rw [kind] at given; cases given
      | authority spec => rw [kind] at given; cases given
      | _ => trivial
    · exact attested item member given
  · intro legible
    have read : Affordable (availableSets objects time) :=
      affordable_foldlM (fun sets item member => affordable_book (legible item member) sets) _
    have selected : ∃ items, liveTyped objects DocumentSpec.transformation?
        TransformationSpec.lifecycle time = .ok items := by
      refine exists_liveTyped.mpr fun item member => ?_
      obtain ⟨held, kind⟩ := mem_typed_transformation.mp member
      have clear := legible item.1 held
      rw [kind] at clear
      exact clear
    obtain ⟨items, selected⟩ := selected
    have listed : Affordable (transformations objects time) :=
      (affordable_lift selected).bind (yields_trivial _) fun _ _ => affordable_pure _
    have closure : Affordable (auditClosure objects time) :=
      read.bind (yields_trivial _) fun _ _ => listed.bind (yields_trivial _) fun _ _ =>
        affordable_closureOf _ _
    exact closure.returns

theorem gives_of_closure {closure : Finset Identifier}
    (returned : Returns (auditClosure objects time) closure) {x : Identifier}
    (member : x ∈ closure) : ∃ item ∈ objects.values,
      Attests time item x ∨ ∃ spec, item.spec = .transformation spec ∧ x ∈ spec.outputs := by
  obtain ⟨sets, network, read, listed, reached⟩ := yields_auditClosure.returned returned
  have booked := (yields_attested).returned read
  obtain base | ⟨rule, fired, -, conclusion⟩ := ((reached x).mp member).origin
  · obtain none' | ⟨item, held, attests⟩ := (booked.available x).mp base
    · simp at none'
    · exact ⟨item, held, .inl attests⟩
  · obtain ⟨t, present, rfl⟩ := List.mem_map.mp fired
    obtain ⟨id, found⟩ := Dict.mem_values.mp present
    obtain ⟨items, selected, _, _, made⟩ := listed.of_bind
    cases made
    obtain ⟨item, live, same⟩ := List.mem_map.mp (Dict.mem_of_ofList found)
    have typed := ((mem_liveTyped ((yields_lift _).returned selected)).mp live).1
    obtain ⟨held, kind⟩ := mem_typed_transformation.mp typed
    refine ⟨item.1, held, .inr ⟨item.2, kind, ?_⟩⟩
    have output := Std.ExtTreeMap.mem_keys.mp (List.mem_toFinset.mp conclusion)
    rw [← (Prod.mk.inj same).2] at output
    exact output

theorem mem_closure_of_attests {closure : Finset Identifier}
    (returned : Returns (auditClosure objects time) closure) {x : Identifier} {item : Document}
    (held : item ∈ objects.values) (attests : Attests time item x) : x ∈ closure := by
  obtain ⟨sets, network, read, -, reached⟩ := yields_auditClosure.returned returned
  have booked := (yields_attested).returned read
  exact (reached x).mpr (.base ((booked.available x).mpr (.inr ⟨item, held, attests⟩)))

end computed

namespace PerturbationScenario

def namedIds (scenario : PerturbationScenario) : List Identifier :=
  scenario.removeStateIds ++ scenario.removeResourceCoordinates ++ scenario.removeCatalystIds ++
    scenario.removeInhibitorIds

end PerturbationScenario

section removal
variable (h : AuditServices) (snapshot : AnalysisSnapshot) (allObjects : Objects)
  (scenario : PerturbationScenario)

/-- The raw artifacts of the baseline's envelopes whose source system is lost. -/
def lostArtifacts : List Digest :=
  (baselineObjects snapshot allObjects).values.filterMap fun item =>
    removedRawArtifact scenario item.spec

/-- No selector that names what the document attests looks at documents of its kind, and it is
no evidence from a source that is lost. -/
def Overlooked : DocumentSpec → Prop
  | .state spec => spec.stateId ∉ scenario.removeStateIds ∧
    spec.stateId ∉ scenario.removeCatalystIds ∧ spec.stateId ∉ scenario.removeInhibitorIds
  | .resourceObservation spec => spec.coordinate ∉ scenario.removeResourceCoordinates
  | .evidence spec => spec.rawArtifactDigest ∉ lostArtifacts snapshot allObjects scenario
  | .authority _ => True
  | _ => False

def replacements : List Digest :=
  scenario.replacementObjectDigests ++ scenario.replacementWitnessDigests

def Replaced (x : Identifier) : Prop :=
  ∃ digest ∈ replacements scenario, ∃ item, allObjects[digest]? = some item ∧ Gives item x

/-- The document is what the digest says, in the snapshot's tenant and workspace. -/
def Held (digest : Digest) (item : Document) : Prop :=
  allObjects[digest]? = some item ∧ referenceReasons h snapshot digest item = []

def Kept (digest : Digest) (item : Document) : Prop :=
  Held h snapshot allObjects digest item ∧ digest ∉ removedDigests snapshot allObjects scenario ∧
    (digest ∈ snapshotReferences snapshot.spec ∨ digest ∈ replacements scenario)

variable {h snapshot allObjects scenario}

theorem getElem?_baselineObjects {digest : Digest} {item : Document} :
    (baselineObjects snapshot allObjects)[digest]? = some item ↔
      allObjects[digest]? = some item ∧ digest ∈ snapshotReferences snapshot.spec := by
  rw [baselineObjects, Std.ExtTreeMap.getElem?_filter', Option.filter_eq_some_iff,
    decide_eq_true_eq]

theorem mem_removedDigests {digest : Digest} :
    digest ∈ removedDigests snapshot allObjects scenario ↔
      digest ∈ scenario.removeObjectDigests ∨ ∃ item, allObjects[digest]? = some item ∧
        digest ∈ snapshotReferences snapshot.spec ∧ (removes scenario item.spec = true ∨
          restsOn (lostArtifacts snapshot allObjects scenario) item.spec = true) := by
  unfold removedDigests semanticRemovalDigests
  simp only [List.mem_append, List.mem_map, List.mem_filter, Prod.exists, Bool.or_eq_true,
    Std.ExtTreeMap.mem_toList_iff_getElem?_eq_some, getElem?_baselineObjects]
  refine or_congr_right ⟨?_, ?_⟩
  · rintro ⟨digest', item, ⟨⟨held, referenced⟩, gone⟩, rfl⟩
    exact ⟨item, held, referenced, gone⟩
  · rintro ⟨item, held, referenced, gone⟩
    exact ⟨digest, item, ⟨⟨held, referenced⟩, gone⟩, rfl⟩

theorem pickAll_ne_nil {selector : Selector} {values : List Identifier} :
    pickAll scenario selector values ≠ [] ↔ ∃ x ∈ scenario.requested selector, x ∈ values := by
  unfold pickAll
  rw [ne_eq, List.map_eq_nil_iff, List.filter_eq_nil_iff]
  simp

theorem pick_eq_nil {selector : Selector} {value : Identifier} :
    pick scenario selector value = [] ↔ value ∉ scenario.requested selector := by
  unfold pick
  split <;> simp [*]

theorem removes_transformation {spec : TransformationSpec} {x : Identifier}
    (named : x ∈ scenario.namedIds) (output : x ∈ spec.outputs) :
    removes scenario (.transformation spec) = true := by
  have key : x ∈ spec.outputs.keys := Std.ExtTreeMap.mem_keys.mpr output
  have coordinate : x ∈ spec.coordinates :=
    List.mem_dedup.mpr (List.mem_append_right _ key)
  unfold removes removesTransformation
  simp only [PerturbationScenario.namedIds, List.mem_append] at named
  simp only [Bool.or_eq_true, bne_iff_ne, List.any_eq_true, decide_eq_true_eq]
  obtain ((state | resource) | catalyst) | inhibitor := named
  · refine .inl (.inl ?_)
    rw [transformationRemovals, ne_eq, List.append_eq_nil_iff, List.append_eq_nil_iff]
    refine fun none' => pickAll_ne_nil.mpr ⟨x, ?_, ?_⟩ none'.1.2
    · exact state
    · exact List.mem_append_left _ (List.mem_append_left _ coordinate)
  · refine .inl (.inl ?_)
    rw [transformationRemovals, ne_eq, List.append_eq_nil_iff]
    refine fun none' => pickAll_ne_nil.mpr ⟨x, ?_, ?_⟩ none'.2
    · exact resource
    · exact coordinate
  · refine .inr ?_
    unfold losesCatalysis
    simp only [Bool.and_eq_true, bne_iff_ne, Bool.or_eq_true, List.any_eq_true,
      decide_eq_true_eq]
    exact ⟨pickAll_ne_nil.mpr ⟨x, catalyst, List.mem_append_right _ key⟩,
      .inr ⟨x, key, catalyst⟩⟩
  · exact .inl (.inr ⟨x, key, inhibitor⟩)

theorem overlooked_iff {spec : DocumentSpec} (attested : spec.attested? ≠ none) :
    Overlooked snapshot allObjects scenario spec ↔ ¬ (removes scenario spec = true ∨
      restsOn (lostArtifacts snapshot allObjects scenario) spec = true) := by
  cases spec with
  | state spec =>
    simp only [Overlooked, removes, objectSelections, restsOn, bne_iff_ne, ne_eq,
      List.append_eq_nil_iff, pick_eq_nil, PerturbationScenario.requested]
    tauto
  | resourceObservation spec =>
    simp only [Overlooked, removes, objectSelections, restsOn, bne_iff_ne, ne_eq, pick_eq_nil,
      PerturbationScenario.requested]
    tauto
  | evidence spec => simp [Overlooked, removes, objectSelections, restsOn]
  | authority spec => simp [Overlooked, removes, objectSelections, restsOn]
  | _ => exact absurd rfl attested

theorem Gives.not_receipt {item : Document} {x : Identifier} (gives : Gives item x)
    {spec : TrustedTimeSpec} : item.spec ≠ .trustedTimeReceipt spec := by
  intro receipt
  obtain attested | ⟨_, other, -⟩ := gives
  · rw [receipt] at attested
    cases attested
  · rw [receipt] at other
    cases other

theorem advanceTrustedTime_ok {digest : Digest}
    (made : advanceTrustedTime h snapshot allObjects scenario = .ok (digest, [])) :
    digest = snapshot.spec.trustedTimeReceiptDigest ∨
      ∀ moved ∈ [digest, snapshot.spec.trustedTimeReceiptDigest], ∃ item spec,
        allObjects[moved]? = some item ∧ item.spec = .trustedTimeReceipt spec := by
  unfold advanceTrustedTime at made
  split at made
  · cases made
    exact .inl rfl
  · rename_i advanced chosen
    split at made
    · rename_i prior metadata extensions candidate found
      split_ifs at made with differs
      · cases made
      · split at made
        · rename_i metadata' extensions' earlier found'
          simp only [bind_ok] at made
          obtain ⟨stale, -, made⟩ := made
          split_ifs at made with late
          · cases made
          · rw [pure_ok, Prod.mk.injEq] at made
            rw [← made.1]
            refine .inr (List.forall_mem_cons.mpr ⟨⟨_, _, found, rfl⟩, ?_⟩)
            exact List.forall_mem_singleton.mpr ⟨_, _, found', rfl⟩
        · cases made
    · cases made

theorem reduceSnapshot_ok {reduced : AnalysisSnapshot} {objects : Objects}
    (reduction : reduceSnapshot h snapshot allObjects scenario = .ok ⟨some reduced, objects, []⟩) :
    ∃ digest, advanceTrustedTime h snapshot allObjects scenario = .ok (digest, []) ∧
      reduced = reducedSnapshot h snapshot allObjects scenario digest ∧
      objects = reducedObjects snapshot allObjects scenario := by
  unfold reduceSnapshot at reduction
  simp only [bind_ok] at reduction
  obtain ⟨advanced, made, reduction⟩ := reduction
  split_ifs at reduction with clean
  · cases reduction
  · simp only [bind_ok] at reduction
    obtain ⟨unbound, -, reduction⟩ := reduction
    split_ifs at reduction
    · cases reduction
    · cases reduction
      simp only [ne_eq, not_not, List.append_eq_nil_iff] at clean
      refine ⟨advanced.1, ?_, rfl, rfl⟩
      rw [made, ← clean.2]

/-- The documents that the reduced snapshot's audit reads are those that are kept, apart from
the receipts of the trusted time. -/
theorem mem_reduced {reduced : AnalysisSnapshot} {objects : Objects}
    (reduction : reduceSnapshot h snapshot allObjects scenario = .ok ⟨some reduced, objects, []⟩)
    {item : Document} (timeless : ∀ spec, item.spec ≠ .trustedTimeReceipt spec) :
    item ∈ (liveObjects h reduced objects).values ↔
      ∃ digest, Kept h snapshot allObjects scenario digest item := by
  obtain ⟨moved, advanced, rfl, rfl⟩ := reduceSnapshot_ok reduction
  have time := advanceTrustedTime_ok advanced
  have held {digest : Digest} : (reducedObjects snapshot allObjects scenario)[digest]? = some item ↔
      allObjects[digest]? = some item ∧ digest ∉ removedDigests snapshot allObjects scenario := by
    rw [reducedObjects, Std.ExtTreeMap.getElem?_filter', Option.filter_eq_some_iff,
      decide_eq_true_eq]
  have references {digest : Digest} : digest ∈ snapshotReferences
      (reducedSnapshot h snapshot allObjects scenario moved).spec ↔
      ((digest ∈ snapshot.spec.objectDigests ∨ digest ∈ snapshot.spec.witnessDigests) ∧
        digest ∉ removedDigests snapshot allObjects scenario) ∨ digest ∈ replacements scenario ∨
      digest = snapshot.spec.contractDigest ∨ digest = snapshot.spec.trustPolicyDigest ∨
      digest = moved ∨ digest = snapshot.spec.unitRegistryDigest := by
    simp only [snapshotReferences, reducedSnapshot, replacements, List.mem_append, List.mem_cons,
      List.mem_eraseDups, List.mem_filter, decide_eq_true_eq, List.not_mem_nil, or_false]
    tauto
  have baseline {digest : Digest} : digest ∈ snapshotReferences snapshot.spec ↔
      digest ∈ snapshot.spec.objectDigests ∨ digest ∈ snapshot.spec.witnessDigests ∨
      digest = snapshot.spec.contractDigest ∨ digest = snapshot.spec.trustPolicyDigest ∨
      digest = snapshot.spec.trustedTimeReceiptDigest ∨
      digest = snapshot.spec.unitRegistryDigest := by
    simp only [snapshotReferences, List.mem_append, List.mem_cons, List.not_mem_nil, or_false]
    tauto
  -- A trusted time that moves is a receipt before and after.
  have still {digest : Digest} (found : allObjects[digest]? = some item) :
      digest = moved ↔ digest = snapshot.spec.trustedTimeReceiptDigest := by
    cases time with
    | inl same => rw [same]
    | inr receipts =>
      refine iff_of_false (fun same => ?_) fun same => ?_
      all_goals
        obtain ⟨item', spec, found', receipt⟩ := receipts digest (by simp [same])
        cases found.symm.trans found'
        exact timeless spec receipt
  rw [Dict.mem_values]
  refine exists_congr fun digest => ?_
  rw [getElem?_liveObjects, held, references, Kept, Held, baseline]
  constructor
  · rintro ⟨referenced, ⟨found, kept⟩, clean⟩
    rw [still found] at referenced
    exact ⟨⟨found, clean⟩, kept, by tauto⟩
  · rintro ⟨⟨found, clean⟩, kept, referenced⟩
    rw [← still found] at referenced
    exact ⟨by tauto, ⟨found, kept⟩, clean⟩

theorem legible_reduced {reduced : AnalysisSnapshot} {objects : Objects} {time : DateTime}
    (reduction : reduceSnapshot h snapshot allObjects scenario = .ok ⟨some reduced, objects, []⟩) :
    (∀ item ∈ (liveObjects h reduced objects).values, Legible time item.spec) ↔
      ∀ digest item, Kept h snapshot allObjects scenario digest item → Legible time item.spec := by
  constructor
  · intro legible digest item kept
    by_cases timeless : ∀ spec, item.spec ≠ .trustedTimeReceipt spec
    · exact legible item ((mem_reduced reduction timeless).mpr ⟨digest, kept⟩)
    · push Not at timeless
      obtain ⟨spec, receipt⟩ := timeless
      rw [receipt]
      trivial
  · intro legible item member
    by_cases timeless : ∀ spec, item.spec ≠ .trustedTimeReceipt spec
    · obtain ⟨digest, kept⟩ := (mem_reduced reduction timeless).mp member
      exact legible digest item kept
    · push Not at timeless
      obtain ⟨spec, receipt⟩ := timeless
      rw [receipt]
      trivial

variable (h snapshot allObjects scenario) in
def Outlives (time : DateTime) (item : Document) (x : Identifier) : Prop :=
  Attests time item x ∧ Overlooked snapshot allObjects scenario item.spec ∧
    ∃ digest ∈ snapshotReferences snapshot.spec, digest ∉ scenario.removeObjectDigests ∧
      Held h snapshot allObjects digest item

theorem Outlives.kept {time : DateTime} {item : Document} {x : Identifier}
    (outlives : Outlives h snapshot allObjects scenario time item x) :
    ∃ digest, Kept h snapshot allObjects scenario digest item := by
  obtain ⟨attests, overlooked, digest, referenced, left, held⟩ := outlives
  have attested : item.spec.attested? ≠ none := by
    rw [attests.attested]
    exact Option.some_ne_none x
  refine ⟨digest, held, fun removed => ?_, .inl referenced⟩
  obtain listed | ⟨item', found, -, gone⟩ := mem_removedDigests.mp removed
  · exact left listed
  · cases held.1.symm.trans found
    exact (overlooked_iff attested).mp overlooked gone

/-- Reductions remove a lost identifier from all closures that can be computed exactly if no
baseline document attests it that the scenario overlooks, or a replacement gives it. -/
theorem removal_real_iff {reduced : AnalysisSnapshot} {objects : Objects}
    (reduction : reduceSnapshot h snapshot allObjects scenario = .ok ⟨some reduced, objects, []⟩) :
    (∀ (time : DateTime) (budget after : Budget) (closure : Finset Identifier),
      auditClosure (liveObjects h reduced objects) time budget = .ok closure after →
      ∀ x ∈ scenario.namedIds, x ∈ closure → Replaced allObjects scenario x) ↔
    ∀ time : DateTime,
      (∀ digest item, Kept h snapshot allObjects scenario digest item →
        Legible time item.spec) →
      ∀ x ∈ scenario.namedIds, ∀ item, Outlives h snapshot allObjects scenario time item x →
        Replaced allObjects scenario x := by
  constructor
  · intro real time legible x named item outlives
    obtain ⟨closure, budget, after, run⟩ :=
      closure_computed_iff.mpr ((legible_reduced reduction).mpr legible)
    refine real time budget after closure run x named ?_
    have gives : Gives item x := .inl outlives.1.attested
    exact mem_closure_of_attests ⟨budget, after, run⟩
      ((mem_reduced reduction fun _ => gives.not_receipt).mpr outlives.kept) outlives.1
  · intro outlived time budget after closure run x named member
    have legible := (legible_reduced reduction).mp
      (closure_computed_iff.mp ⟨closure, budget, after, run⟩)
    obtain ⟨item, held, given⟩ := gives_of_closure ⟨budget, after, run⟩ member
    have gives : Gives item x := given.imp Attests.attested id
    obtain ⟨digest, held, kept, referenced | replaced⟩ :=
      (mem_reduced reduction fun _ => gives.not_receipt).mp held
    · have stays : ¬ (removes scenario item.spec = true ∨
          restsOn (lostArtifacts snapshot allObjects scenario) item.spec = true) :=
        fun gone => kept (mem_removedDigests.mpr (.inr ⟨item, held.1, referenced, gone⟩))
      cases given with
      | inl attests =>
        have attested : item.spec.attested? ≠ none := by
          rw [attests.attested]
          exact Option.some_ne_none x
        refine outlived time legible x named item ⟨attests, (overlooked_iff attested).mpr stays,
          digest, referenced, fun listed => ?_, held⟩
        exact kept (mem_removedDigests.mpr (.inl listed))
      | inr output =>
        obtain ⟨spec, kind, output⟩ := output
        refine absurd (.inl ?_) stays
        rw [kind]
        exact removes_transformation named output
    · exact ⟨digest, replaced, item, held.1, gives⟩

end removal

namespace OverlookedSample
open AuditSample

def catalysed : Document := document "reaction" (.transformation ⟨"reaction",
  amounts [("base", one)], amounts [("target", one)], [["enzyme"]], [], false, [], [], lifecycle⟩)

def observed : Document :=
  document "stock" (.resourceObservation ⟨"enzyme", one, "unit", lifecycle⟩)

def attested : List Document := [catalysed, observed, state "base"]

def baseline : AnalysisSnapshot := snapshot ["target"] ∅ attested

def documents : Objects := objects (attested ++ framework ["target"] ∅ ["base", "target"])

def scenario : PerturbationScenario :=
  ⟨"loss", [], [], [], [], [], [], [], [], [], ["enzyme"], [], [], [], [], [], [], [], none⟩

def reaches (x : Identifier) : Bool :=
  match reduceSnapshot services baseline documents scenario with
  | .ok ⟨some reduced, objects, []⟩ =>
    match auditClosure (liveObjects services reduced objects) (.utc 10) unhurried with
    | .ok closure _ => x ∈ closure
    | .error _ _ => false
  | _ => false

theorem exists_of_reaches {x : Identifier} (reached : reaches x = true) :
    ∃ reduced objects closure after,
      reduceSnapshot services baseline documents scenario = .ok ⟨some reduced, objects, []⟩ ∧
      auditClosure (liveObjects services reduced objects) (.utc 10) unhurried =
        .ok closure after ∧ x ∈ closure := by
  unfold reaches at reached
  split at reached
  · rename_i reduced objects reduction
    split at reached
    · rename_i closure after run
      exact ⟨reduced, objects, closure, after, reduction, run, of_decide_eq_true reached⟩
    · cases reached
  · cases reached

theorem reaches_enzyme : reaches "enzyme" = true := by decide +kernel

end OverlookedSample

open AuditSample OverlookedSample in
/-- The observed amount of a lost catalyst is still available. -/
theorem removal_overlooked : ∃ reduced objects closure after,
    reduceSnapshot services baseline documents scenario = .ok ⟨some reduced, objects, []⟩ ∧
    auditClosure (liveObjects services reduced objects) (.utc 10) unhurried =
      .ok closure after ∧
    "enzyme" ∈ scenario.removeCatalystIds ∧ "enzyme" ∈ closure ∧
    ¬ Replaced documents scenario "enzyme" := by
  obtain ⟨reduced, objects, closure, after, reduction, run, member⟩ :=
    exists_of_reaches reaches_enzyme
  refine ⟨reduced, objects, closure, after, reduction, run, by decide, member, ?_⟩
  rintro ⟨digest, listed, -⟩
  cases listed

open AuditSample OverlookedSample in
theorem removal_real_iff_sample : ∃ reduced objects,
    reduceSnapshot services baseline documents scenario = .ok ⟨some reduced, objects, []⟩ ∧
    ((∀ (time : DateTime) (budget after : Budget) (closure : Finset Identifier),
      auditClosure (liveObjects services reduced objects) time budget = .ok closure after →
      ∀ x ∈ scenario.namedIds, x ∈ closure → Replaced documents scenario x) ↔
    ∀ time : DateTime,
      (∀ digest item, Kept services baseline documents scenario digest item →
        Legible time item.spec) →
      ∀ x ∈ scenario.namedIds, ∀ item,
        Outlives services baseline documents scenario time item x →
        Replaced documents scenario x) := by
  obtain ⟨reduced, objects, closure, after, reduction, -⟩ :=
    exists_of_reaches reaches_enzyme
  exact ⟨reduced, objects, reduction, removal_real_iff reduction⟩

end CollectivePhaseControl
