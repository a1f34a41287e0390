import CollectivePhaseControl.GrowthRuns

/-! Conservation over growth runs. A charge moves a quantity from resources to spent;
arrivals, added debt and completion are the only ways in which outstanding work
changes. Each law is proved for one posting, then for a step, then for a run. -/
namespace CollectivePhaseControl

variable {hash : Hashing}

theorem balance_withdraw {m : Dict Rational} {key : Identifier} {held : Rational}
    (h : m.item key = .ok held) (amount : ℚ) :
    balance (m.insert key (str (F held - amount))) = balance m - Pi.single key amount := by
  rw [Dict.item_ok] at h
  rw [balance_insert, F_str, ← balance_of_mem h]
  funext k
  by_cases same : k = key
  · simp [same]
  · simp [same]

def ChargeBooks.total (b : ChargeBooks) : Identifier → ℚ := balance b.resources + balance b.spent

theorem chargeAmount_ok {category : Identifier} {b b' : ChargeBooks} {key : Identifier}
    {amount : Rational} (h : chargeAmount category b key amount = .ok b') :
    b'.total = b.total ∧ balance b'.spent = balance b.spent + Pi.single key (F amount) := by
  rw [chargeAmount, bind_ok] at h
  obtain ⟨held, found, booked⟩ := h
  rw [pure_ok] at booked
  subst booked
  refine ⟨?_, balance_post _ _ _⟩
  simp only [ChargeBooks.total, balance_withdraw found, balance_post]
  abel

theorem chargeCategory_ok {category : Identifier} {amounts : Dict Rational} {b b' : ChargeBooks}
    (h : chargeCategory b category amounts = .ok b') :
    b'.total = b.total ∧ balance b'.spent = balance b.spent + balance amounts := by
  rw [chargeCategory] at h
  rw [← sum_single_toList amounts]
  refine foldlM_invariant
    (fun (done : List (Identifier × Rational)) (x : ChargeBooks) => x.total = b.total ∧
      balance x.spent = balance b.spent +
        (done.map fun p => (Pi.single p.1 (F p.2) : Identifier → ℚ)).sum)
    (fun done p x y before step => by
      obtain ⟨total, spent⟩ := chargeAmount_ok step
      refine ⟨total.trans before.1, ?_⟩
      rw [spent, before.2, List.map_append, List.sum_append, List.map_singleton,
        List.sum_singleton, add_assoc])
    ?_ h
  exact ⟨rfl, by simp⟩

theorem bookCharges_ok {effect : GrowthSuccessor} {b b' : ChargeBooks}
    (h : bookCharges effect b = .ok b') :
    b'.total = b.total ∧ balance b'.spent = balance b.spent + chargeTotals effect := by
  exact foldlM_invariant
    (fun (done : List (Identifier × Dict Rational)) (x : ChargeBooks) => x.total = b.total ∧
      balance x.spent = balance b.spent + (done.map fun p => balance p.2).sum)
    (fun done p x y before step => by
      obtain ⟨total, spent⟩ := chargeCategory_ok step
      refine ⟨total.trans before.1, ?_⟩
      rw [spent, before.2, List.map_append, List.sum_append, List.map_singleton,
        List.sum_singleton, add_assoc])
    ⟨rfl, by simp⟩ h

theorem backlog_eq_sum (works : List GrowthWork) :
    backlog works =
      (works.map fun w => (Pi.single w.stage (F w.remaining) : Identifier → ℚ)).sum := by
  funext stage
  induction works with
  | nil => rfl
  | cons w works ih =>
    rw [List.map_cons, List.sum_cons, Pi.add_apply, ← ih]
    by_cases h : w.stage = stage
    · simp [backlog, h]
    · simp [backlog, h, Ne.symm h]

/-- Completed amounts as a quantity of each stage, `done` by identifier. -/
def completedOn (done : Identifier → ℚ) (works : List GrowthWork) : Identifier → ℚ :=
  (works.map fun w => (Pi.single w.stage (done w.workId) : Identifier → ℚ)).sum

theorem completedOn_add (f g : Identifier → ℚ) (works : List GrowthWork) :
    completedOn (f + g) works = completedOn f works + completedOn g works := by
  simp only [completedOn, Pi.add_apply, Pi.single_add, List.sum_map_add]

theorem completedOn_append (f : Identifier → ℚ) (xs ys : List GrowthWork) :
    completedOn f (xs ++ ys) = completedOn f xs + completedOn f ys := by
  simp [completedOn]

theorem backlog_remaining {effect : GrowthSuccessor} {works : List GrowthWork}
    (covered : ∀ w ∈ works, balance effect.completedWork w.workId ≤ F w.remaining) :
    backlog (remaining effect works) + completedOn (balance effect.completedWork) works =
      backlog works := by
  simp only [backlog_eq_sum, completedOn]
  induction works with
  | nil => simp [remaining]
  | cons w works ih =>
    obtain ⟨head, tail⟩ := List.forall_mem_cons.mp covered
    have rest := ih tail
    by_cases left : balance effect.completedWork w.workId < F w.remaining
    · have kept : remaining effect (w :: works) =
          { w with remaining := str (F w.remaining - balance effect.completedWork w.workId) } ::
            remaining effect works := by simp [remaining, left]
      rw [kept, List.map_cons, List.sum_cons, List.map_cons, List.sum_cons, List.map_cons,
        List.sum_cons, ← rest, F_str, Pi.single_sub]
      abel
    · have dropped : remaining effect (w :: works) = remaining effect works := by
        simp [remaining, left]
      rw [dropped, List.map_cons, List.sum_cons, List.map_cons, List.sum_cons, ← rest,
        le_antisymm head (not_lt.mp left)]
      abel

theorem workOf_mem {works : List GrowthWork} {id : Identifier} {item : GrowthWork}
    (h : workOf works id = some item) : item ∈ works ∧ item.workId = id := by
  rw [workOf] at h
  exact ⟨List.mem_reverse.mp (List.mem_of_find?_eq_some h), by simpa using List.find?_some h⟩

theorem eq_of_workOf {works : List GrowthWork} (distinct : (GrowthState.workIds works).Nodup)
    {id : Identifier} {item w : GrowthWork} (h : workOf works id = some item) (member : w ∈ works)
    (same : w.workId = id) : w = item :=
  List.inj_on_of_nodup_map distinct member (workOf_mem h).1 (same.trans (workOf_mem h).2.symm)

theorem completedOn_single {works : List GrowthWork}
    (distinct : (GrowthState.workIds works).Nodup) {id : Identifier} {item : GrowthWork}
    (h : workOf works id = some item) (amount : ℚ) :
    completedOn (Pi.single id amount) works = Pi.single item.stage amount := by
  have others : ∀ w ≠ item, w ∈ works →
      (Pi.single w.stage ((Pi.single id amount : Identifier → ℚ) w.workId) : Identifier → ℚ) = 0 := by
    intro w other member
    have distinctId : w.workId ≠ id := fun same => other (eq_of_workOf distinct h member same)
    simp [distinctId]
  rw [completedOn, List.sum_map_eq_nsmul_single item _ others,
    List.count_eq_one_of_mem (List.Nodup.of_map _ distinct) (workOf_mem h).1, one_nsmul,
    (workOf_mem h).2, Pi.single_eq_same]

theorem completions_ok {works : List GrowthWork} (distinct : (GrowthState.workIds works).Nodup)
    {stop : ℚ} :
    ∀ {done : List (Identifier × Rational)} {used used' : Dict Rational},
      completions works stop done used = .ok used' →
        balance used' = balance used +
            completedOn (done.map fun p => (Pi.single p.1 (F p.2) : Identifier → ℚ)).sum works ∧
          ∀ p ∈ done, ∃ item, workOf works p.1 = some item ∧ 0 ≤ F p.2 ∧ F p.2 ≤ F item.remaining := by
  intro done
  induction done with
  | nil =>
    intro used used' h
    cases h
    simp [completedOn]
  | cons p done ih =>
    intro used used' h
    simp only [completions, bind_ok, demand_ok, require_ok] at h
    obtain ⟨item, found, -, within, -, -, rest⟩ := h
    obtain ⟨counted, each⟩ := ih rest
    refine ⟨?_, List.forall_mem_cons.mpr ⟨⟨item, found, within⟩, each⟩⟩
    rw [counted, balance_post, List.map_cons, List.sum_cons, completedOn_add,
      completedOn_single distinct found, add_assoc]

theorem bookService_ok {s : GrowthState} {effect : GrowthSuccessor} {used : Dict Rational} :
    ∀ {stages : List Identifier} {completed offered completed' offered' : Dict Rational},
      bookService s effect used stages (completed, offered) = .ok (completed', offered') →
        balance completed' = balance completed +
            (stages.map fun k => (Pi.single k (balance used k) : Identifier → ℚ)).sum ∧
          balance completed' - balance completed ≤ balance offered' - balance offered := by
  intro stages
  induction stages with
  | nil =>
    intro completed offered completed' offered' h
    cases h
    simp
  | cons k stages ih =>
    intro completed offered completed' offered' h
    simp only [bookService, bind_ok, require_ok] at h
    obtain ⟨capacity, -, -, ⟨within, -⟩, rest⟩ := h
    obtain ⟨booked, fewer⟩ := ih rest
    rw [balance_post, balance_post] at fewer
    refine ⟨?_, fun j => ?_⟩
    · rw [booked, balance_post, List.map_cons, List.sum_cons, add_assoc]
    · have rest := fewer j
      have single : (Pi.single k (balance used k) : Identifier → ℚ) j ≤
          (Pi.single k (balance effect.offeredService k) : Identifier → ℚ) j :=
        Pi.single_mono k within j
      simp only [Pi.add_apply, Pi.sub_apply] at rest ⊢
      linarith

theorem sum_single_keys {f : Identifier → ℚ} {keys : List Identifier} (distinct : keys.Nodup)
    (support : ∀ k, k ∉ keys → f k = 0) :
    (keys.map fun k => (Pi.single k (f k) : Identifier → ℚ)).sum = f := by
  funext k
  rw [Pi.list_sum_apply, List.map_map]
  by_cases member : k ∈ keys
  · rw [List.sum_map_eq_nsmul_single k _ fun j other _ => by simp [Ne.symm other],
      List.count_eq_one_of_mem distinct member]
    simp
  · rw [support k member]
    apply List.sum_eq_zero
    intro x found
    obtain ⟨j, listed, rfl⟩ := List.mem_map.mp found
    have other : k ≠ j := fun same => member (same ▸ listed)
    simp [other]

def outstanding (s : GrowthState) : Identifier → ℚ := backlog s.queue + backlog s.obligations

def inflow (move : Move) : Identifier → ℚ :=
  backlog move.effect.arrivals + backlog move.effect.debtAdded

theorem StepFacts.completed {c : GrowthContractSpec} {s : GrowthState} {recipe : GrowthAction}
    {effect : GrowthSuccessor} {p : StepParts} (facts : StepFacts c s recipe effect p) :
    balance p.completed = balance s.completed +
        completedOn (balance effect.completedWork) (stepWorks s effect) ∧
      balance p.completed - balance s.completed ≤ balance p.offered - balance s.offered := by
  obtain ⟨used, counted, booked⟩ := facts.service
  obtain ⟨total, -⟩ := completions_ok facts.distinct counted
  rw [balance_empty, zero_add, sum_single_toList] at total
  obtain ⟨sum, fewer⟩ := bookService_ok booked
  refine ⟨?_, fewer⟩
  rw [sum, ← total, sum_single_keys Std.ExtTreeMap.nodup_keys]
  -- A stage without a domain has no item on the table.
  intro k outside
  rw [total, completedOn, Pi.list_sum_apply, List.map_map]
  apply List.sum_eq_zero
  intro x found
  obtain ⟨w, member, rfl⟩ := List.mem_map.mp found
  have domain := (checkState_works facts.admitted w (by simpa [stepWorks] using member)).1
  have other : k ≠ w.stage := by
    rintro rfl
    exact outside (Std.ExtTreeMap.mem_keys.mpr domain)
  simp [other]

theorem StepFacts.covered {c : GrowthContractSpec} {s : GrowthState} {recipe : GrowthAction}
    {effect : GrowthSuccessor} {p : StepParts} (facts : StepFacts c s recipe effect p) :
    ∀ w ∈ stepWorks s effect, balance effect.completedWork w.workId ≤ F w.remaining := by
  obtain ⟨used, counted, -⟩ := facts.service
  obtain ⟨-, each⟩ := completions_ok facts.distinct counted
  intro w member
  by_cases listed : w.workId ∈ effect.completedWork
  · have found := Std.ExtTreeMap.getElem?_eq_some_getElem listed
    obtain ⟨item, itemOf, -, within⟩ :=
      each _ (Std.ExtTreeMap.mem_toList_iff_getElem?_eq_some.mpr found)
    have same := eq_of_workOf facts.distinct itemOf member rfl
    calc balance effect.completedWork w.workId = F effect.completedWork[w.workId] :=
          balance_of_mem found
      _ ≤ F item.remaining := within
      _ = F w.remaining := by rw [same]
  · rw [balance_of_notMem listed]
    exact (checkState_works facts.admitted w (by simpa [stepWorks] using member)).2

theorem StepFacts.outstanding {c : GrowthContractSpec} {s : GrowthState} {recipe : GrowthAction}
    {effect : GrowthSuccessor} {p : StepParts} (facts : StepFacts c s recipe effect p) :
    backlog p.queue + backlog p.obligations +
        completedOn (balance effect.completedWork) (stepWorks s effect) =
      outstanding s + inflow ⟨recipe, effect⟩ := by
  have covered := facts.covered
  rw [stepWorks, List.forall_mem_append] at covered
  have queue := backlog_remaining covered.1
  have obligations := backlog_remaining covered.2
  have split : ∀ xs ys, backlog (xs ++ ys) = backlog xs + backlog ys :=
    fun xs ys => funext (backlog_append xs ys)
  rw [split] at queue obligations
  rw [facts.queue, facts.obligations, stepWorks, completedOn_append, CollectivePhaseControl.outstanding,
    inflow]
  linear_combination queue + obligations

section steps
variable {contract : GrowthContract} {objects : Objects} {frontier : Frontier}
  {s t : GrowthState} {move : Move}

def ledgerTotal (s : GrowthState) : Identifier → ℚ := balance s.resources + balance s.spent

theorem Steps.total (step : Steps hash contract objects frontier s move t) :
    ledgerTotal t = ledgerTotal s := by
  obtain ⟨action, cap, p, -, -, facts, -, -, same⟩ := transition_ok step.2
  have resources : t.resources = p.books.resources := same.field (·.resources) fun _ => rfl
  have spent : t.spent = p.books.spent := same.field (·.spent) fun _ => rfl
  rw [ledgerTotal, resources, spent]
  exact (bookCharges_ok facts.books).1

theorem Steps.spent (step : Steps hash contract objects frontier s move t) :
    balance t.spent = balance s.spent + chargeTotals move.effect := by
  obtain ⟨action, cap, p, -, -, facts, -, -, same⟩ := transition_ok step.2
  have spent : t.spent = p.books.spent := same.field (·.spent) fun _ => rfl
  rw [spent]
  exact (bookCharges_ok facts.books).2

theorem chargeTotals_nonneg {effect : GrowthSuccessor} (facts : EffectFacts effect) :
    0 ≤ chargeTotals effect := by
  intro key
  rw [chargeTotals, Pi.list_sum_apply, List.map_map]
  apply List.sum_nonneg
  intro x found
  obtain ⟨p, member, rfl⟩ := List.mem_map.mp found
  exact balance_nonneg (facts.charges p.2 (List.mem_map.mpr ⟨p, member, rfl⟩)) key

theorem Steps.spent_le (contractFacts : ContractFacts contract.spec objects)
    (step : Steps hash contract objects frontier s move t) : balance s.spent ≤ balance t.spent := by
  rw [step.spent]
  exact le_add_of_nonneg_right (chargeTotals_nonneg (step.effectFacts contractFacts))

theorem Steps.work (step : Steps hash contract objects frontier s move t) :
    outstanding t + balance t.completed = outstanding s + balance s.completed + inflow move := by
  obtain ⟨action, cap, p, -, -, facts, -, -, same⟩ := transition_ok step.2
  have queue : t.queue = (stepLedger s action cap move.effect p).queue :=
    same.field (·.queue) fun _ => rfl
  have obligations : t.obligations = (stepLedger s action cap move.effect p).obligations :=
    same.field (·.obligations) fun _ => rfl
  have completed : t.completed = p.completed := same.field (·.completed) fun _ => rfl
  have left : outstanding t = backlog p.queue + backlog p.obligations := by
    funext stage
    rw [outstanding, queue, obligations, stepLedger, Pi.add_apply, backlog_canonical_queue,
      backlog_canonical_obligations]
    rfl
  rw [left, completed, facts.completed.1]
  linear_combination facts.outstanding

theorem Steps.service (step : Steps hash contract objects frontier s move t) :
    balance t.completed - balance s.completed ≤ balance t.offered - balance s.offered := by
  obtain ⟨action, cap, p, -, -, facts, -, -, same⟩ := transition_ok step.2
  have completed : t.completed = p.completed := same.field (·.completed) fun _ => rfl
  have offered : t.offered = p.offered := same.field (·.offered) fun _ => rfl
  rw [completed, offered]
  exact facts.completed.2

end steps

def planningSpend (c : GrowthContractSpec) : Identifier → ℚ :=
  if c.planningBoundary = .sharedBudget then balance c.planningCharge else 0

theorem prepay_ok :
    ∀ {charge : List (Identifier × Rational)} {resources spent resources' spent' : Dict Rational},
      prepay charge (resources, spent) = .ok (resources', spent') →
        balance resources' + balance spent' = balance resources + balance spent ∧
          balance spent' = balance spent +
            (charge.map fun p => (Pi.single p.1 (F p.2) : Identifier → ℚ)).sum := by
  intro charge
  induction charge with
  | nil =>
    intro resources spent resources' spent' h
    cases h
    simp
  | cons p charge ih =>
    intro resources spent resources' spent' h
    simp only [prepay, bind_ok] at h
    obtain ⟨held, found, rest⟩ := h
    obtain ⟨total, paid⟩ := ih rest
    constructor
    · rw [total, balance_withdraw found, balance_post]
      abel
    · rw [paid, balance_post, List.map_cons, List.sum_cons, add_assoc]

theorem prepaid_ok {c : GrowthContractSpec} {resources spent : Dict Rational}
    (h : prepaid c = .ok (resources, spent)) :
    balance resources + balance spent = ledgerTotal c.initialState ∧
      balance spent = balance c.initialState.spent + planningSpend c := by
  simp only [prepaid] at h
  split at h
  case isTrue shared =>
    obtain ⟨total, paid⟩ := prepay_ok h
    rw [sum_single_toList] at paid
    rw [planningSpend, if_pos shared]
    exact ⟨total, paid⟩
  case isFalse paid =>
    rw [pure_ok] at h
    cases h
    rw [planningSpend, if_neg paid, add_zero]
    exact ⟨rfl, rfl⟩

theorem initialState_ledger {contract : GrowthContract} {frontier : Frontier} {start : GrowthState}
    (h : initialState hash contract frontier = .ok start) :
    ledgerTotal start = ledgerTotal contract.spec.initialState ∧
      balance start.spent =
        balance contract.spec.initialState.spent + planningSpend contract.spec ∧
      outstanding start = outstanding contract.spec.initialState ∧
      start.completed = contract.spec.initialState.completed ∧
      start.offered = contract.spec.initialState.offered := by
  obtain ⟨resources, spent, checkpoints, paid, -, -, same⟩ := initialState_ok h
  obtain ⟨total, spend⟩ := prepaid_ok paid
  have resourcesEq : start.resources = resources := same.field (·.resources) fun _ => rfl
  have spentEq : start.spent = spent := same.field (·.spent) fun _ => rfl
  have work : outstanding start = outstanding contract.spec.initialState := by
    rw [same.field outstanding fun _ => rfl]
    funext stage
    rw [outstanding, Pi.add_apply, backlog_canonical_queue, backlog_canonical_obligations]
    rfl
  refine ⟨?_, ?_, work, same.field (·.completed) fun _ => rfl, same.field (·.offered) fun _ => rfl⟩
  · rw [ledgerTotal, resourcesEq, spentEq]
    exact total
  · rw [spentEq]
    exact spend

theorem run_spent_le {contract : GrowthContract} {objects : Objects} {frontier : Frontier}
    (facts : ContractFacts contract.spec objects) {s t : GrowthState} {moves : List Move}
    (run : Runs.Run (Steps hash contract objects frontier) s moves t) :
    balance s.spent ≤ balance t.spent :=
  run.monotone fun _ _ _ step => step.spent_le facts

theorem run_service {contract : GrowthContract} {objects : Objects} {frontier : Frontier}
    {s t : GrowthState} {moves : List Move}
    (run : Runs.Run (Steps hash contract objects frontier) s moves t) (key : Identifier) :
    balance t.completed key - balance s.completed key ≤
      balance t.offered key - balance s.offered key := by
  have spare := run.monotone (q := fun u => balance u.offered key - balance u.completed key)
    fun _ _ _ step => by
      have served := step.service key
      simp only [Pi.sub_apply] at served
      linarith
  linarith

theorem planningSpend_nonneg {c : GrowthContractSpec} {objects : Objects}
    (facts : ContractFacts c objects) :
    0 ≤ planningSpend c := by
  unfold planningSpend
  split
  · exact balance_nonneg facts.planningCharge
  · exact le_rfl

theorem sum_apply (moves : List Move) (f : Move → Identifier → ℚ) (key : Identifier) :
    (moves.map f).sum key = (moves.map fun m => f m key).sum := by
  rw [Pi.list_sum_apply, List.map_map]
  rfl

/-- Every run of a validated contract, and every continuation of it, keeps the books. -/
theorem growthRun_conserves {contract : GrowthContract} {objects : Objects} {frontier : Frontier}
    (valid : validateContract hash contract objects = .ok ()) {moves : List Move} {t : GrowthState}
    (run : GrowthRun hash contract objects frontier moves t) (key : Identifier) :
    let declared := contract.spec.initialState
    (balance t.resources key + balance t.spent key =
        balance declared.resources key + balance declared.spent key) ∧
      balance declared.spent key ≤ balance t.spent key ∧
      balance t.spent key = balance declared.spent key +
        (moves.map fun m => chargeTotals m.effect key).sum + planningSpend contract.spec key ∧
      outstanding t key + (balance t.completed key - balance declared.completed key) =
        outstanding declared key + (moves.map fun m => inflow m key).sum ∧
      balance t.completed key - balance declared.completed key ≤
        balance t.offered key - balance declared.offered key ∧
      ∀ more u, Runs.Run (Steps hash contract objects frontier) t more u →
        balance t.spent key ≤ balance u.spent key ∧
          balance u.completed key - balance t.completed key ≤
            balance u.offered key - balance t.offered key := by
  obtain ⟨start, prepaidStart, steps⟩ := run
  have facts := validateContract_ok hash valid
  obtain ⟨total, paid, work, completed, offered⟩ := initialState_ledger prepaidStart
  have kept : ledgerTotal t = ledgerTotal contract.spec.initialState :=
    (steps.conserved fun _ _ _ step => step.total).trans total
  have spent : balance t.spent =
      balance start.spent + (moves.map fun m => chargeTotals m.effect).sum :=
    steps.accumulates fun _ _ _ step => step.spent
  have works : outstanding t + balance t.completed =
      outstanding start + balance start.completed + (moves.map inflow).sum :=
    steps.accumulates (q := fun u => outstanding u + balance u.completed) fun _ _ _ step => step.work
  have service := run_service steps key
  rw [completed, offered] at service
  refine ⟨congrFun kept key, ?_, ?_, ?_, service, fun more u next =>
    ⟨run_spent_le facts next key, run_service next key⟩⟩
  · have start_le : balance contract.spec.initialState.spent ≤ balance start.spent := by
      rw [paid]
      exact le_add_of_nonneg_right (planningSpend_nonneg facts)
    exact (start_le.trans (run_spent_le facts steps)) key
  · have spentAt := congrFun (spent.trans (congrArg (· + _) paid)) key
    simp only [Pi.add_apply, sum_apply] at spentAt
    linarith
  · have worksAt := congrFun works key
    rw [work, completed] at worksAt
    simp only [Pi.add_apply, sum_apply] at worksAt
    linarith

namespace Sample

def start : GrowthState := (initialState digests contract none).toOption.getD declared

def after (s : GrowthState) (recipe : GrowthAction) : GrowthState :=
  match recipe.successors with
  | [] => s
  | effect :: _ => (transition digests contract s recipe effect objects none).toOption.getD s

def growth : Move := ⟨grow, effect .success "nominal" 1 (dict [("measured", whole 2)])⟩

theorem start_ok : initialState digests contract none = .ok start := by decide +kernel

theorem grown_ok :
    transition digests contract start growth.recipe growth.effect objects none =
      .ok (after start grow) := by decide +kernel

theorem grown : GrowthRun digests contract objects none [growth] (after start grow) :=
  ⟨start, start_ok, .cons ⟨by decide +kernel, grown_ok⟩ (.nil _)⟩

end Sample

theorem growthRun_conserves_sample :
    balance (Sample.after Sample.start Sample.grow).resources "credits" +
      balance (Sample.after Sample.start Sample.grow).spent "credits" = 8 :=
  (growthRun_conserves Sample.valid Sample.grown "credits").1.trans (by decide +kernel)

end CollectivePhaseControl
