import CollectivePhaseControl.GrowthConservation

/-! Charge categories against spent. A step merges its charges into the buckets; the
prepaid start replaces one bucket as a whole. The first writer keeps every entry, the
second keeps the entries of the resources that the planning charge names. -/
namespace CollectivePhaseControl

variable {hash : Hashing}

def bucket (charges : Dict (Dict Rational)) (category : Identifier) : Identifier → ℚ :=
  balance (charges.getD category ∅)

theorem bucket_insert (charges : Dict (Dict Rational)) (category : Identifier)
    (amounts : Dict Rational) :
    bucket (charges.insert category amounts) =
      Function.update (bucket charges) category (balance amounts) := by
  funext c
  by_cases h : c = category
  · simp [bucket, h]
  · have other : compare category c ≠ .eq := by simpa using Ne.symm h
    simp [bucket, Std.ExtTreeMap.getD_insert, h, other]

theorem bucket_of_notMem {charges : Dict (Dict Rational)} {category : Identifier}
    (h : category ∉ charges) : bucket charges category = 0 := by
  rw [bucket, Std.ExtTreeMap.getD_eq_fallback h, balance_empty]

def internalCharges (charges : Dict (Dict Rational)) : Identifier → ℚ :=
  ∑ category ∈ charges.keys.toFinset.erase "external-planner", bucket charges category

theorem internalCharges_eq_sum {charges : Dict (Dict Rational)} {categories : Finset Identifier}
    (all : charges.keys.toFinset ⊆ categories) :
    internalCharges charges =
      ∑ category ∈ categories.erase "external-planner", bucket charges category := by
  apply Finset.sum_subset (Finset.erase_subset_erase _ all)
  intro category listed absent
  apply bucket_of_notMem
  intro member
  exact absent (Finset.mem_erase.mpr
    ⟨Finset.ne_of_mem_erase listed, Dict.mem_keys_toFinset.mpr member⟩)

theorem internalCharges_insert (charges : Dict (Dict Rational)) (category : Identifier)
    (amounts : Dict Rational) :
    internalCharges (charges.insert category amounts) = internalCharges charges +
      if category = "external-planner" then 0 else balance amounts - bucket charges category := by
  have after : (charges.insert category amounts).keys.toFinset ⊆
      insert category charges.keys.toFinset := by
    intro c member
    rw [Dict.mem_keys_toFinset, Std.ExtTreeMap.mem_insert] at member
    rw [Finset.mem_insert, Dict.mem_keys_toFinset]
    exact member.imp (fun same => (Std.LawfulEqCmp.eq_of_compare same).symm) id
  rw [internalCharges_eq_sum after, internalCharges_eq_sum (Finset.subset_insert category _),
    bucket_insert]
  split
  case isTrue external =>
    rw [add_zero]
    refine Finset.sum_congr rfl fun c listed => ?_
    rw [Function.update_of_ne (external ▸ Finset.ne_of_mem_erase listed)]
  case isFalse internal =>
    have listed : category ∈ (insert category charges.keys.toFinset).erase "external-planner" :=
      Finset.mem_erase.mpr ⟨internal, Finset.mem_insert_self _ _⟩
    rw [Finset.sum_update_of_mem listed, ← Finset.sum_sdiff (Finset.singleton_subset_iff.mpr listed),
      Finset.sum_singleton]
    abel

theorem chargeAmount_charges {category : Identifier} {b b' : ChargeBooks} {key : Identifier}
    {amount : Rational} (h : chargeAmount category b key amount = .ok b') :
    bucket b'.charges = bucket b.charges + Pi.single category (Pi.single key (F amount)) ∧
      (category ≠ "external-planner" →
        internalCharges b'.charges = internalCharges b.charges + Pi.single key (F amount)) := by
  rw [chargeAmount, bind_ok] at h
  obtain ⟨held, -, booked⟩ := h
  rw [pure_ok] at booked
  subst booked
  have posted : balance (post (b.charges.getD category ∅) key (F amount)) =
      bucket b.charges category + Pi.single key (F amount) := balance_post _ _ _
  constructor
  · rw [bucket_insert, posted]
    funext c
    by_cases same : c = category
    · simp [same]
    · simp [same]
  · intro internal
    rw [internalCharges_insert, if_neg internal, posted, add_sub_cancel_left]

/-- Buckets only grow, and spent grows by what the internal ones take. -/
structure BooksGrow (b b' : ChargeBooks) : Prop where
  entries : bucket b.charges ≤ bucket b'.charges
  spent : balance b'.spent - balance b.spent =
    internalCharges b'.charges - internalCharges b.charges

theorem BooksGrow.refl (b : ChargeBooks) : BooksGrow b b := ⟨le_rfl, by simp⟩

theorem BooksGrow.trans {a b c : ChargeBooks} (first : BooksGrow a b) (second : BooksGrow b c) :
    BooksGrow a c :=
  ⟨first.entries.trans second.entries, by linear_combination first.spent + second.spent⟩

theorem chargeAmount_grow {category : Identifier} (internal : category ≠ "external-planner")
    {b b' : ChargeBooks} {key : Identifier} {amount : Rational} (nonneg : 0 ≤ F amount)
    (h : chargeAmount category b key amount = .ok b') : BooksGrow b b' := by
  obtain ⟨entries, total⟩ := chargeAmount_charges h
  refine ⟨?_, ?_⟩
  · rw [entries]
    exact le_add_of_nonneg_right (Pi.single_nonneg.mpr (Pi.single_nonneg.mpr nonneg))
  · rw [total internal, (chargeAmount_ok h).2]
    abel

theorem chargeCategory_grow {category : Identifier} (internal : category ≠ "external-planner")
    {amounts : Dict Rational} (nonneg : ∀ v ∈ amounts.values, 0 ≤ F v) {b b' : ChargeBooks}
    (h : chargeCategory b category amounts = .ok b') : BooksGrow b b' := by
  rw [chargeCategory] at h
  have opened : BooksGrow b
      { b with charges := b.charges.insert category (b.charges.getD category ∅) } := by
    constructor
    · rw [bucket_insert]
      exact (Function.update_eq_self category (bucket b.charges)).ge
    · rw [internalCharges_insert, if_neg internal]
      simp [bucket]
  have each := foldlM_invariant
    (fun (done : List (Identifier × Rational)) x => (∀ p ∈ done, 0 ≤ F p.2) → BooksGrow b x)
    (fun done p x y before step nonneg => by
      rw [List.forall_mem_append, List.forall_mem_singleton] at nonneg
      exact (before nonneg.1).trans (chargeAmount_grow internal nonneg.2 step))
    (fun _ => opened) h
  exact each fun p member => nonneg p.2 (List.mem_map.mpr ⟨p, member, rfl⟩)

theorem bookCharges_grow {effect : GrowthSuccessor} (facts : EffectFacts effect)
    {b b' : ChargeBooks} (h : bookCharges effect b = .ok b') : BooksGrow b b' := by
  rw [bookCharges] at h
  have each := foldlM_invariant
    (fun (done : List (Identifier × Dict Rational)) x =>
      (∀ p ∈ done, p.1 ≠ "external-planner" ∧ ∀ v ∈ p.2.values, 0 ≤ F v) → BooksGrow b x)
    (fun done p x y before step sound => by
      rw [List.forall_mem_append, List.forall_mem_singleton] at sound
      exact (before sound.1).trans (chargeCategory_grow sound.2.1 sound.2.2 step))
    (fun _ => .refl b) h
  refine each fun p member => ⟨?_, facts.charges p.2 (List.mem_map.mpr ⟨p, member, rfl⟩)⟩
  -- The declared categories do not include the externally paid one.
  have declared : p.1 ∈ chargeCategories :=
    facts.categories (by
      rw [← Std.ExtTreeMap.map_fst_toList_eq_keys]
      exact List.mem_map.mpr ⟨p, member, rfl⟩)
  rintro same
  rw [same] at declared
  simp [chargeCategories] at declared

def GrowthState.books (s : GrowthState) : ChargeBooks := ⟨s.resources, s.spent, s.charges⟩

section runs
variable {contract : GrowthContract} {objects : Objects} {frontier : Frontier}
  {s t : GrowthState} {move : Move} {moves : List Move}

theorem Steps.booksGrow (facts : ContractFacts contract.spec objects)
    (step : Steps hash contract objects frontier s move t) : BooksGrow s.books t.books := by
  have effectFacts := step.effectFacts facts
  obtain ⟨action, cap, p, -, -, stepFacts, -, -, same⟩ := transition_ok step.2
  have books : t.books = p.books := same.field GrowthState.books fun _ => rfl
  rw [books]
  exact bookCharges_grow effectFacts stepFacts.books

theorem run_booksGrow (facts : ContractFacts contract.spec objects)
    (run : Runs.Run (Steps hash contract objects frontier) s moves t) :
    BooksGrow s.books t.books :=
  run.related (R := fun u v => BooksGrow u.books v.books) (fun _ => .refl _)
    (fun _ _ _ => .trans) fun _ _ _ step => step.booksGrow facts

end runs

theorem balance_planningBucket (prior charge : Dict Rational) (key : Identifier) :
    balance (planningBucket prior charge) key =
      if key ∈ charge then balance prior key + balance charge key else 0 := by
  split
  case isTrue named =>
    have found := Std.ExtTreeMap.getElem?_eq_some_getElem named
    have mapped : (planningBucket prior charge)[key]? =
        some (str (F (prior.getD key (.ofNat 0)) + F charge[key])) := by
      rw [planningBucket, Std.ExtTreeMap.getElem?_map, found]
      rfl
    rw [balance_of_mem mapped, F_str, balance_of_mem found]
    rfl
  case isFalse unnamed =>
    apply balance_of_notMem
    rwa [planningBucket, Std.ExtTreeMap.mem_map]

def Reconciled (c : GrowthContractSpec) (s : GrowthState) : Prop :=
  ∀ key ∈ c.resourceUnits, balance s.spent key = internalCharges s.charges key

instance (c : GrowthContractSpec) (s : GrowthState) : Decidable (Reconciled c s) :=
  decidable_of_iff (∀ key ∈ c.resourceUnits.keys, balance s.spent key = internalCharges s.charges key)
    (by simp [Reconciled])

/-- The reconciliation law over every run: the equation holds wherever a run leads, and
no entry of the declared charges or of any state on the way decreases. -/
def LedgerReconciles (hash : Hashing) (contract : GrowthContract) (objects : Objects)
    (frontier : Frontier) : Prop :=
  ∀ moves t, GrowthRun hash contract objects frontier moves t →
    Reconciled contract.spec t ∧
      bucket contract.spec.initialState.charges ≤ bucket t.charges ∧
      ∀ more u, Runs.Run (Steps hash contract objects frontier) t more u →
        bucket t.charges ≤ bucket u.charges

/-- What the bucket of the planning category holds for other resources than those of the
planning charge. -/
def unplanned (c : GrowthContractSpec) (key : Identifier) : ℚ :=
  if key ∈ c.planningCharge then 0
  else bucket c.initialState.charges (planningCategory c.planningBoundary) key

/-- Nothing of value is in the bucket for a resource that the planning charge leaves out. -/
def PlanningEntriesKept (c : GrowthContractSpec) : Prop :=
  (∀ key, unplanned c key ≤ 0) ∧
    (c.planningBoundary = .sharedBudget → ∀ key ∈ c.resourceUnits, unplanned c key = 0)

theorem bucket_prepaid (c : GrowthContractSpec) :
    bucket (prepaidCharges c) = bucket c.initialState.charges +
      Pi.single (planningCategory c.planningBoundary) (balance c.planningCharge - unplanned c) := by
  rw [prepaidCharges, bucket_insert]
  funext category key
  by_cases same : category = planningCategory c.planningBoundary
  · subst same
    rw [Function.update_self, balance_planningBucket, Pi.add_apply, Pi.single_eq_same, Pi.add_apply,
      Pi.sub_apply, unplanned]
    split
    case isTrue => rw [sub_zero]; rfl
    case isFalse unnamed => rw [balance_of_notMem unnamed]; ring
  · simp [same]

theorem internalCharges_prepaid (c : GrowthContractSpec) :
    internalCharges (prepaidCharges c) = internalCharges c.initialState.charges +
      (if c.planningBoundary = .sharedBudget then balance c.planningCharge - unplanned c else 0) := by
  have rewritten := congrFun (bucket_prepaid c) (planningCategory c.planningBoundary)
  rw [Pi.add_apply, Pi.single_eq_same] at rewritten
  rw [prepaidCharges, bucket_insert, Function.update_self] at rewritten
  rw [prepaidCharges, internalCharges_insert, rewritten]
  cases h : c.planningBoundary <;> simp [planningCategory]

theorem initialState_charges {contract : GrowthContract} {frontier : Frontier}
    {start : GrowthState} (h : initialState hash contract frontier = .ok start) :
    start.charges = prepaidCharges contract.spec := by
  obtain ⟨resources, spent, checkpoints, -, -, -, same⟩ := initialState_ok h
  exact same.field (·.charges) fun _ => rfl

section start
variable {contract : GrowthContract} {objects : Objects} {frontier : Frontier} {start : GrowthState}

theorem start_entries_iff (facts : ContractFacts contract.spec objects)
    (prepaidStart : initialState hash contract frontier = .ok start) :
    bucket contract.spec.initialState.charges ≤ bucket start.charges ↔
      ∀ key, unplanned contract.spec key ≤ 0 := by
  rw [initialState_charges prepaidStart, bucket_prepaid, le_add_iff_nonneg_right,
    Pi.single_nonneg, sub_nonneg, Pi.le_def]
  refine forall_congr' fun key => ?_
  by_cases named : key ∈ contract.spec.planningCharge
  · have paid := balance_nonneg facts.planningCharge key
    simp [unplanned, named, paid]
  · rw [balance_of_notMem named]

theorem start_reconciled_iff (declared : Reconciled contract.spec contract.spec.initialState)
    (prepaidStart : initialState hash contract frontier = .ok start) :
    Reconciled contract.spec start ↔ (contract.spec.planningBoundary = .sharedBudget →
      ∀ key ∈ contract.spec.resourceUnits, unplanned contract.spec key = 0) := by
  obtain ⟨-, paid, -⟩ := initialState_ledger prepaidStart
  rw [Reconciled, paid, initialState_charges prepaidStart, internalCharges_prepaid, planningSpend]
  by_cases shared : contract.spec.planningBoundary = .sharedBudget
  · simp only [shared, if_true, Pi.add_apply, Pi.sub_apply, forall_const]
    refine forall₂_congr fun key resource => ?_
    rw [declared key resource]
    constructor <;> intro h <;> linarith
  · simp only [shared, if_false, Pi.add_apply, Pi.zero_apply, add_zero, false_implies, iff_true]
    exact declared

end start

/-- A contract's runs keep the ledger reconciled exactly when its prepayment drops nothing
of value from the planning bucket. -/
theorem ledgerReconciles_iff {contract : GrowthContract} {objects : Objects} {frontier : Frontier}
    {start : GrowthState} (valid : validateContract hash contract objects = .ok ())
    (declared : Reconciled contract.spec contract.spec.initialState)
    (prepaidStart : initialState hash contract frontier = .ok start) :
    LedgerReconciles hash contract objects frontier ↔ PlanningEntriesKept contract.spec := by
  have facts := validateContract_ok hash valid
  rw [PlanningEntriesKept, ← start_entries_iff facts prepaidStart,
    ← start_reconciled_iff declared prepaidStart]
  constructor
  · intro law
    obtain ⟨reconciled, entries, -⟩ := law [] start ⟨start, prepaidStart, .nil start⟩
    exact ⟨entries, reconciled⟩
  · rintro ⟨entries, reconciled⟩ moves t ⟨start', again, steps⟩
    cases prepaidStart.symm.trans again
    have grown := run_booksGrow facts steps
    refine ⟨fun key resource => ?_, entries.trans grown.entries, fun more u next =>
      (run_booksGrow facts next).entries⟩
    have spent := congrFun grown.spent key
    have before := reconciled key resource
    simp only [GrowthState.books, Pi.sub_apply] at spent
    linarith

namespace Sample

def charged (spent : Dict Rational) (charges : Dict (Dict Rational)) : GrowthContract :=
  { contract with
    spec := { terms with initialState := { declared with spent := spent, charges := charges } } }

/-- A reassessed ledger whose earlier planning was paid in credits, and evidence in tokens. -/
def prepaid : GrowthContract :=
  charged (dict [("credits", whole 1), ("tokens", whole 1)])
    (dict [("evidence", dict [("tokens", whole 1)]), ("planner", dict [("credits", whole 1)])])

def prepaidStart : GrowthState := (initialState digests prepaid none).toOption.getD declared

theorem prepaid_reconciled : validateContract digests prepaid objects = .ok () ∧
    Reconciled prepaid.spec prepaid.spec.initialState ∧
    initialState digests prepaid none = .ok prepaidStart ∧
    prepaid.spec.initialState.charges.getD "planner" ∅ = prepaid.spec.planningCharge := by
  decide +kernel

theorem unplanned_prepaid (key : Identifier) : unplanned prepaid.spec key = 0 := by
  rw [unplanned]
  split
  case isTrue => rfl
  case isFalse unnamed =>
    change balance (prepaid.spec.initialState.charges.getD "planner" ∅) key = 0
    rw [prepaid_reconciled.2.2.2, balance_of_notMem unnamed]

end Sample

theorem ledgerReconciles_iff_sample :
    LedgerReconciles Sample.digests Sample.prepaid Sample.objects none := by
  obtain ⟨valid, declared, start, -⟩ := Sample.prepaid_reconciled
  exact (ledgerReconciles_iff valid declared start).mpr
    ⟨fun key => (Sample.unplanned_prepaid key).le, fun _ key _ => Sample.unplanned_prepaid key⟩

namespace Sample

def carried : GrowthContract :=
  charged (dict [("tokens", whole 1)]) (dict [("planner", dict [("tokens", whole 1)])])

def carriedStart : GrowthState := (initialState digests carried none).toOption.getD declared

theorem carried_unreconciled : validateContract digests carried objects = .ok () ∧
    Reconciled carried.spec carried.spec.initialState ∧
    initialState digests carried none = .ok carriedStart ∧
    ¬ Reconciled carried.spec carriedStart := by decide +kernel

end Sample

/-- The token entry is lost although every declared sum was right. -/
theorem ledgerReconciles_fails :
    validateContract Sample.digests Sample.carried Sample.objects = .ok () ∧
      Reconciled Sample.carried.spec Sample.carried.spec.initialState ∧
      ¬ LedgerReconciles Sample.digests Sample.carried Sample.objects none := by
  obtain ⟨valid, declared, start, broken⟩ := Sample.carried_unreconciled
  refine ⟨valid, declared, fun law => ?_⟩
  obtain ⟨reconciled, -, -⟩ := law [] _ ⟨_, start, .nil _⟩
  exact broken reconciled

end CollectivePhaseControl
