import CollectivePhaseControl.ReachabilityAgreement

/-! What finite-horizon persistence says of a plan's trajectory. The marking after a prefix of
steps is what has been observed and what the steps add to it, in exact amounts; it is compared
with the declared floors, and with nothing where no floor is declared. -/
namespace CollectivePhaseControl

section changes
variable (basis : PlanBasis)

def actionChange (action : Identifier × Rational) : Identifier → ℚ :=
  match basis.network[action.1]? with
  | some item => fun coordinate =>
    F action.2 * (balance item.spec.outputs coordinate - balance item.spec.inputs coordinate)
  | none => 0

def creditChange (credit : Identifier × Rational) : Identifier → ℚ :=
  match basis.supplies[credit.1]? with
  | some supply => Pi.single supply.coordinate (F credit.2)
  | none => 0

def stepChange (step : PersistenceStep) : Identifier → ℚ :=
  (step.actionCounts.toList.map (actionChange basis)).sum +
    (step.supplyQuantities.toList.map (creditChange basis)).sum

def markingAfter (observations : Dict ℚ) (steps : List PersistenceStep)
    (coordinate : Identifier) : ℚ :=
  observations.getD coordinate 0 + (steps.map (stepChange basis)).sum coordinate

/-- An action of a transformation that there is, at a rate within its observed bounds. -/
structure SoundAction (action : Identifier × Rational) : Prop where
  known : action.1 ∈ basis.network
  sign : 0 ≤ F action.2
  rated : ∃ rate, basis.rates[action.1]? = some rate ∧ (0 < basis.duration →
    F rate.rateLower ≤ F action.2 / basis.duration ∧
    F action.2 / basis.duration ≤ F rate.rateUpper)

/-- A credit of a supply that there is, of no more than it can supply. -/
structure SoundCredit (credit : Identifier × Rational) : Prop where
  sign : 0 ≤ F credit.2
  within : ∃ supply, basis.supplies[credit.1]? = some supply ∧
    F credit.2 ≤ F supply.rateUpper * basis.duration

structure SoundStep (step : PersistenceStep) : Prop where
  actions : ∀ action ∈ step.actionCounts.toList, SoundAction basis action
  credits : ∀ credit ∈ step.supplyQuantities.toList, SoundCredit basis credit

variable {basis}

theorem getD_add (m : Dict ℚ) (key coordinate : Identifier) (amount : ℚ) :
    (m.add key amount).getD coordinate 0 =
      m.getD coordinate 0 + (Pi.single key amount : Identifier → ℚ) coordinate := by
  by_cases same : key = coordinate
  · simp [Dict.add, same]
  · simp [Dict.add, Std.ExtTreeMap.getD_insert, same]

theorem getD_addAll (marking delta : Dict ℚ) (coordinate : Identifier) :
    (addAll marking delta).getD coordinate 0 =
      marking.getD coordinate 0 + delta.getD coordinate 0 := by
  have fold : ∀ (entries : List (Identifier × ℚ)) (m : Dict ℚ),
      (entries.map Prod.fst).Nodup →
      (entries.foldl (fun marking p => marking.add p.1 p.2) m).getD coordinate 0 =
        m.getD coordinate 0 + (entries.lookup coordinate).getD 0 := by
    intro entries
    induction entries with
    | nil => simp
    | cons p entries ih =>
      intro m distinct
      rw [List.map_cons, List.nodup_cons] at distinct
      rw [List.foldl_cons, ih _ distinct.2, getD_add]
      by_cases same : p.1 = coordinate
      · have absent : entries.lookup coordinate = none := by
          rw [List.lookup_eq_none_iff]
          intro q member
          have other : q.1 ≠ coordinate := fun equal =>
            distinct.1 (List.mem_map.mpr ⟨q, member, equal.trans same.symm⟩)
          simpa using other.symm
        rw [absent, ← same, List.lookup_cons_self, Pi.single_eq_same]
        simp
      · rw [List.lookup_cons, beq_eq_false_iff_ne.mpr (Ne.symm same)]
        simp [Pi.single_eq_of_ne (Ne.symm same)]
  rw [addAll, fold _ _ (Dict.nodup_toList delta)]
  congr 1
  rw [Std.ExtTreeMap.getD_eq_getD_getElem?]
  congr 1
  cases held : delta[coordinate]? with
  | none =>
    rw [List.lookup_eq_none_iff]
    intro p member
    have found := Std.ExtTreeMap.mem_toList_iff_getElem?_eq_some.mp member
    have other : coordinate ≠ p.1 := fun equal => by
      rw [← equal, held] at found
      cases found
    simpa using other
  | some value =>
    exact lookup_of_mem (Dict.nodup_toList delta)
      (Std.ExtTreeMap.mem_toList_iff_getElem?_eq_some.mpr held)

theorem yields_bookFlows (sign count : ℚ) (m : Dict ℚ) (coefficients : Dict Rational) :
    Yields (bookFlows sign count m coefficients) fun after => ∀ coordinate,
      after.getD coordinate 0 =
        m.getD coordinate 0 + sign * count * balance coefficients coordinate := by
  have fold : ∀ (entries : List (Identifier × Rational)) (m : Dict ℚ),
      Yields (entries.foldlM (fun m flow => do
        let value ← rational flow.2
        pure (m.add flow.1 (sign * (value * count)))) m) fun after => ∀ coordinate,
          after.getD coordinate 0 = m.getD coordinate 0 + sign * count *
            (entries.map fun p => (Pi.single p.1 (F p.2) : Identifier → ℚ)).sum coordinate := by
    intro entries
    induction entries with
    | nil => exact fun m => yields_pure (by simp)
    | cons p entries ih =>
      intro m
      rw [List.foldlM_cons]
      have first : Yields (do
          let value ← rational p.2
          pure (m.add p.1 (sign * (value * count)))) (· = m.add p.1 (sign * (F p.2 * count))) := by
        refine yields_bind (yields_rational p.2) fun value parsed => yields_pure ?_
        rw [parsed]
      refine yields_bind first fun middle same => (ih middle).mono fun after rest coordinate => ?_
      rw [rest, same, getD_add, List.map_cons, List.sum_cons, Pi.add_apply]
      by_cases here : p.1 = coordinate
      · rw [← here, Pi.single_eq_same, Pi.single_eq_same]
        ring
      · rw [Pi.single_eq_of_ne (Ne.symm here), Pi.single_eq_of_ne (Ne.symm here)]
        ring
  refine (fold coefficients.toList m).mono fun after said coordinate => ?_
  rw [said, sum_single_toList]

theorem yields_known (b : Bool) : Yields (pure b : Analysis Bool) (· = b) := yields_pure rfl

theorem yields_rateBoundReasons (identifier : Identifier) (count : ℚ) :
    Yields (rateBoundReasons basis identifier count) fun reasons => reasons = [] →
      ∃ rate, basis.rates[identifier]? = some rate ∧ (0 < basis.duration →
        F rate.rateLower ≤ count / basis.duration ∧
        count / basis.duration ≤ F rate.rateUpper) := by
  unfold rateBoundReasons
  cases found : basis.rates[identifier]? with
  | none => exact yields_pure nofun
  | some rate =>
    dsimp only
    by_cases positive : 0 < basis.duration
    · rw [if_pos positive]
      refine yields_bind (yields_rational _) fun lower low => ?_
      split
      · refine yields_bind (yields_known true) fun outside same => yields_pure ?_
        intro none
        rw [reasonIf_eq_nil, same] at none
        exact absurd rfl none
      · rename_i above
        refine yields_bind (yields_rational _) fun upper high => ?_
        refine yields_bind (yields_known _) fun outside same => yields_pure ?_
        intro none
        rw [reasonIf_eq_nil, same, decide_eq_true_eq, not_lt, high] at none
        rw [low, not_lt] at above
        exact ⟨rate, rfl, fun _ => ⟨above, none⟩⟩
    · rw [if_neg positive]
      exact yields_pure fun _ => ⟨rate, rfl, fun lasting => absurd lasting positive⟩

theorem yields_bookAction (booked : Booking) (action : Identifier × Rational) :
    Yields (bookAction basis booked action) fun after => after.2 = [] → booked.2 = [] ∧
      SoundAction basis action ∧ ∀ coordinate, after.1.getD coordinate 0 =
        booked.1.getD coordinate 0 + actionChange basis action coordinate := by
  refine yields_bind (yields_spend 1) fun _ _ => ?_
  cases found : basis.network[action.1]? with
  | none =>
    refine yields_pure fun none => ?_
    cases (List.append_eq_nil_iff.mp none).2
  | some item =>
    refine yields_bind (yields_rational action.2) fun count parsed => ?_
    refine yields_bind (yields_rateBoundReasons action.1 count) fun rated bound => ?_
    refine yields_bind (yields_bookFlows _ _ _ _) fun consumed takes => ?_
    refine yields_bind (yields_bookFlows _ _ _ _) fun delta gives => yields_pure fun none => ?_
    simp only [List.append_eq_nil_iff, reasonIf_eq_nil, not_lt] at none
    obtain ⟨⟨clean, sign⟩, inside⟩ := none
    subst parsed
    refine ⟨clean, ⟨Std.ExtTreeMap.mem_iff_isSome_getElem?.mpr (by rw [found]; rfl), sign,
      bound inside⟩, fun coordinate => ?_⟩
    rw [gives, takes, actionChange, found]
    ring

theorem yields_bookSupply (booked : Booking) (credit : Identifier × Rational) :
    Yields (bookSupply basis booked credit) fun after => after.2 = [] → booked.2 = [] ∧
      SoundCredit basis credit ∧ ∀ coordinate, after.1.getD coordinate 0 =
        booked.1.getD coordinate 0 + creditChange basis credit coordinate := by
  refine yields_bind (yields_spend 1) fun _ _ => ?_
  cases found : basis.supplies[credit.1]? with
  | none =>
    refine yields_pure fun none => ?_
    cases (List.append_eq_nil_iff.mp none).2
  | some supply =>
    refine yields_bind (yields_rational credit.2) fun quantity parsed => ?_
    split
    · refine yields_bind (yields_known true) fun outside same => yields_pure ?_
      intro none
      rw [List.append_eq_nil_iff, reasonIf_eq_nil, same] at none
      exact absurd rfl none.2
    · rename_i sign
      refine yields_bind (yields_rational _) fun upper high => ?_
      refine yields_bind (yields_known _) fun outside same => yields_pure ?_
      intro none
      rw [List.append_eq_nil_iff, reasonIf_eq_nil, same, decide_eq_true_eq, not_lt, high] at none
      subst parsed
      refine ⟨none.1, ⟨not_lt.mp sign, supply, found, none.2⟩, fun coordinate => ?_⟩
      rw [getD_add, creditChange, found]

theorem yields_bookings {α : Type} {f : Booking → α → Analysis Booking} {Q : α → Prop}
    {change : α → Identifier → ℚ}
    (each : ∀ booked x, Yields (f booked x) fun after => after.2 = [] → booked.2 = [] ∧ Q x ∧
      ∀ coordinate, after.1.getD coordinate 0 =
        booked.1.getD coordinate 0 + change x coordinate) (xs : List α) (start : Booking) :
    Yields (xs.foldlM f start) fun after => after.2 = [] → start.2 = [] ∧ (∀ x ∈ xs, Q x) ∧
      ∀ coordinate, after.1.getD coordinate 0 =
        start.1.getD coordinate 0 + (xs.map change).sum coordinate := by
  induction xs generalizing start with
  | nil => exact yields_pure fun none => ⟨none, by simp, by simp⟩
  | cons x xs ih =>
    rw [List.foldlM_cons]
    refine yields_bind (each start x) fun middle head => (ih middle).mono fun after tail none => ?_
    obtain ⟨clean, rest, sums⟩ := tail none
    obtain ⟨empty, first, adds⟩ := head clean
    refine ⟨empty, List.forall_mem_cons.mpr ⟨first, rest⟩, fun coordinate => ?_⟩
    rw [sums, adds, List.map_cons, List.sum_cons, Pi.add_apply, add_assoc]

theorem yields_floorReasons (floors : Dict Rational) (index : ℕ) (marking : Dict ℚ) :
    Yields (floorReasons floors index marking) fun reasons => reasons = [] →
      ∀ (coordinate : Identifier) floor, floors[coordinate]? = some floor →
        F floor ≤ marking.getD coordinate 0 := by
  refine (yields_reasons (Q := fun p : Identifier × Rational => F p.2 ≤ marking.getD p.1 0)
    (fun reasons p _ => ?_) []).mono fun all said none coordinate floor declared =>
      (said none).2 (coordinate, floor)
        (Std.ExtTreeMap.mem_toList_iff_getElem?_eq_some.mpr declared)
  refine yields_bind (yields_rational p.2) fun floor parsed => yields_pure fun none => ?_
  rw [List.append_eq_nil_iff, reasonIf_eq_nil, not_lt, parsed] at none
  exact none

theorem yields_takeStep (floors : Dict Rational) (reached : Booking)
    (step : PersistenceStep × ℕ) :
    Yields (takeStep basis floors reached step) fun after => after.2 = [] → reached.2 = [] ∧
      SoundStep basis step.1 ∧
      (∀ coordinate, after.1.getD coordinate 0 =
        reached.1.getD coordinate 0 + stepChange basis step.1 coordinate) ∧
      ∀ (coordinate : Identifier) floor, floors[coordinate]? = some floor →
        F floor ≤ after.1.getD coordinate 0 := by
  refine yields_bind (yields_bookings yields_bookAction _ _) fun acted acts => ?_
  refine yields_bind (yields_bookings yields_bookSupply _ _) fun supplied credits => ?_
  refine yields_bind (yields_floorReasons _ _ _) fun below kept => yields_pure fun none => ?_
  obtain ⟨clean, above⟩ := List.append_eq_nil_iff.mp none
  obtain ⟨empty, sound, adds⟩ := credits clean
  obtain ⟨start, actions, sums⟩ := acts empty
  refine ⟨start, ⟨actions, sound⟩, fun coordinate => ?_, kept above⟩
  rw [getD_addAll, adds, sums, stepChange, Pi.add_apply]
  simp

theorem yields_takeSteps (floors : Dict Rational) (steps : List PersistenceStep) :
    ∀ (index : ℕ) (reached : Booking),
    Yields ((steps.zipIdx index).foldlM (takeStep basis floors) reached) fun after =>
      after.2 = [] → reached.2 = [] ∧ (∀ step ∈ steps, SoundStep basis step) ∧
      ∀ k, 0 < k → k ≤ steps.length → ∀ (coordinate : Identifier) floor,
        floors[coordinate]? = some floor →
          F floor ≤ markingAfter basis reached.1 (steps.take k) coordinate := by
  induction steps with
  | nil =>
    refine fun index reached => yields_pure fun none => ⟨none, by simp, ?_⟩
    intro k started inside
    rw [List.length_nil] at inside
    omega
  | cons step steps ih =>
    intro index reached
    rw [List.zipIdx_cons, List.foldlM_cons]
    refine yields_bind (yields_takeStep floors reached (step, index)) fun middle head => ?_
    refine (ih (index + 1) middle).mono fun after tail none => ?_
    obtain ⟨clean, rest, later⟩ := tail none
    obtain ⟨empty, first, adds, now⟩ := head clean
    refine ⟨empty, List.forall_mem_cons.mpr ⟨first, rest⟩, ?_⟩
    intro k started inside coordinate floor declared
    obtain ⟨k, rfl⟩ : ∃ m, k = m + 1 := ⟨k - 1, by omega⟩
    rw [markingAfter, List.take_succ_cons, List.map_cons, List.sum_cons, Pi.add_apply,
      ← add_assoc, ← adds]
    by_cases only : k = 0
    · simpa [only] using now coordinate floor declared
    · rw [List.length_cons] at inside
      exact later k (by omega) (by omega) coordinate floor declared

end changes

section read
variable (objects : Objects) (time : DateTime)

/-- A document of a kind says so, and its lifecycle is current. -/
def Attested {σ : Type} (kind : DocumentSpec → Option σ) (lifecycle : σ → Lifecycle) (spec : σ) :
    Prop :=
  ∃ document ∈ objects.values, kind document.spec = some spec ∧
    (lifecycle spec).live time = .ok true

abbrev Observed (spec : ResourceObservationSpec) : Prop :=
  Attested objects time DocumentSpec.resource? ResourceObservationSpec.lifecycle spec

abbrev Supplied (spec : SupplySpec) : Prop :=
  Attested objects time DocumentSpec.supply? SupplySpec.lifecycle spec

/-- The transformations, rates, supplies and amounts are the attested ones. -/
structure AttestedBasis (plan : PersistencePlanSpec) (basis : PlanBasis)
    (observations : Dict ℚ) : Prop where
  network : Returns (transformations objects time) basis.network
  rated : ∀ (id : Identifier) rate, basis.rates[id]? = some rate → rate.transformationId = id ∧
    Attested objects time DocumentSpec.rate? RateObservationSpec.lifecycle rate
  supplied : ∀ (id : Identifier) supply, basis.supplies[id]? = some supply →
    supply.supplyId = id ∧ Supplied objects time supply
  duration : basis.duration = F plan.durationPerStep
  amount : ∀ spec, Observed objects time spec →
    observations[spec.coordinate]? = some (F spec.quantity)
  nothing : ∀ coordinate : Identifier, (∀ spec, Observed objects time spec →
    spec.coordinate ≠ coordinate) → observations[coordinate]? = none

variable {objects time}

theorem mem_liveTyped {σ : Type} {kind : DocumentSpec → Option σ} {lifecycle : σ → Lifecycle}
    {items : List (Document × σ)} (read : liveTyped objects kind lifecycle time = .ok items)
    {item : Document × σ} : item ∈ items ↔
      item ∈ typed objects kind ∧ (lifecycle item.2).live time = .ok true := by
  have fold : ∀ (listed kept : List (Document × σ)),
      listed.foldlM (keepLive lifecycle time) kept = .ok items →
        (item ∈ items ↔ item ∈ kept ∨
          item ∈ listed ∧ (lifecycle item.2).live time = .ok true) := by
    intro listed
    induction listed with
    | nil =>
      intro kept run
      rw [List.foldlM_nil, pure_ok] at run
      simp [run]
    | cons first listed ih =>
      intro kept run
      rw [List.foldlM_cons, bind_ok] at run
      obtain ⟨next, step, rest⟩ := run
      rw [keepLive, bind_ok] at step
      obtain ⟨live, current, joined⟩ := step
      obtain rfl := pure_ok.mp joined
      rw [ih _ rest, List.mem_cons]
      cases live with
      | true =>
        rw [if_pos rfl, List.mem_append, List.mem_singleton, or_assoc]
        refine or_congr_right ⟨?_, ?_⟩
        · rintro (rfl | ⟨later, live⟩)
          · exact ⟨.inl rfl, current⟩
          · exact ⟨.inr later, live⟩
        · rintro ⟨rfl | later, live⟩
          · exact .inl rfl
          · exact .inr ⟨later, live⟩
      | false =>
        rw [if_neg Bool.false_ne_true]
        refine or_congr_right ⟨fun held => ⟨.inr held.1, held.2⟩, ?_⟩
        rintro ⟨rfl | later, live⟩
        · rw [current] at live
          cases live
        · exact ⟨later, live⟩
  rw [fold _ _ read]
  simp

theorem attested_iff {σ : Type} {kind : DocumentSpec → Option σ} {lifecycle : σ → Lifecycle}
    {items : List (Document × σ)} (read : liveTyped objects kind lifecycle time = .ok items)
    (spec : σ) : Attested objects time kind lifecycle spec ↔ ∃ item ∈ items, item.2 = spec := by
  constructor
  · rintro ⟨document, member, found, live⟩
    refine ⟨(document, spec), (mem_liveTyped read).mpr ⟨?_, live⟩, rfl⟩
    rw [typed, List.mem_filterMap]
    exact ⟨document, member, by rw [found]; rfl⟩
  · rintro ⟨item, member, rfl⟩
    obtain ⟨listed, live⟩ := (mem_liveTyped read).mp member
    rw [typed, List.mem_filterMap] at listed
    obtain ⟨document, held, found⟩ := listed
    obtain ⟨spec, kind, rfl⟩ := Option.map_eq_some_iff.mp found
    exact ⟨document, held, kind, live⟩

theorem repeated_eq_nil {identifiers : List Identifier} (none : repeated identifiers = []) :
    identifiers.Nodup := by
  rw [List.nodup_iff_count_le_one]
  intro x
  by_contra often
  have listed : x ∈ identifiers := List.count_pos_iff.mp (by omega)
  have member : x ∈ repeated identifiers := by
    rw [repeated, sortedSet, List.mem_insertionSort, List.mem_dedup, List.mem_filter]
    exact ⟨listed, by simpa using often⟩
  rw [none] at member
  cases member

theorem yields_observe (items : List (Document × ResourceObservationSpec))
    (distinct : (items.map (·.2.coordinate)).Nodup) (m : Dict ℚ) :
    Yields (items.foldlM observe m) fun after =>
      (∀ item ∈ items, after[item.2.coordinate]? = some (F item.2.quantity)) ∧
      ∀ coordinate : Identifier, (∀ item ∈ items, item.2.coordinate ≠ coordinate) →
        after[coordinate]? = m[coordinate]? := by
  induction items generalizing m with
  | nil => exact yields_pure ⟨by simp, fun _ _ => rfl⟩
  | cons item items ih =>
    rw [List.map_cons, List.nodup_cons] at distinct
    rw [List.foldlM_cons]
    have first : Yields (observe m item) (· = m.insert item.2.coordinate (F item.2.quantity)) := by
      refine yields_bind (yields_rational item.2.quantity) fun quantity parsed => yields_pure ?_
      rw [parsed]
    refine yields_bind first fun next same => (ih distinct.2 next).mono fun after said => ?_
    obtain ⟨those, others⟩ := said
    subst same
    refine ⟨List.forall_mem_cons.mpr ⟨?_, those⟩, fun coordinate away => ?_⟩
    · rw [others _ fun other member same =>
        distinct.1 (List.mem_map.mpr ⟨other, member, same⟩), Std.ExtTreeMap.getElem?_insert_self]
    · obtain ⟨here, there⟩ := List.forall_mem_cons.mp away
      rw [others coordinate there, Std.ExtTreeMap.getElem?_insert, if_neg (by simpa using here)]

theorem yields_suppliedCoordinates (supplies : List SupplySpec) :
    Yields (suppliedCoordinates supplies) fun supplied => ∀ x, x ∈ supplied ↔
      ∃ supply ∈ supplies, supply.coordinate = x ∧ 0 < F supply.rateLower := by
  have fold : ∀ (supplies : List SupplySpec) (held : Finset Identifier),
      Yields (supplies.foldlM (fun supplied supply => do
        let lower ← rational supply.rateLower
        pure (if 0 < lower then insert supply.coordinate supplied else supplied)) held)
        fun supplied => ∀ x, x ∈ supplied ↔ x ∈ held ∨
          ∃ supply ∈ supplies, supply.coordinate = x ∧ 0 < F supply.rateLower := by
    intro supplies
    induction supplies with
    | nil => exact fun held => yields_pure (by simp)
    | cons supply supplies ih =>
      intro held
      rw [List.foldlM_cons]
      have first : Yields (do
          let lower ← rational supply.rateLower
          pure (if 0 < lower then insert supply.coordinate held else held))
          (· = if 0 < F supply.rateLower then insert supply.coordinate held else held) := by
        refine yields_bind (yields_rational _) fun lower parsed => yields_pure ?_
        rw [parsed]
      refine yields_bind first fun next same => (ih next).mono fun supplied said x => ?_
      rw [said, same, List.exists_mem_cons_iff]
      split
      · rename_i positive
        simp only [Finset.mem_insert, positive, and_true]
        rw [or_comm (a := x = _), or_assoc, eq_comm]
      · rename_i dry
        simp only [dry, and_false, false_or]
  refine (fold supplies ∅).mono fun supplied said x => ?_
  rw [said]
  simp

theorem structuralMarking_pos {observations : Dict ℚ} {states : List (Document × StateSpec)}
    (read : liveTyped objects DocumentSpec.state? StateSpec.lifecycle time = .ok states)
    {x : Identifier} (positive : 0 < structuralMarking observations states x) :
    0 < observations.getD x 0 ∨ x ∉ observations ∧ ∃ spec,
      Attested objects time DocumentSpec.state? StateSpec.lifecycle spec ∧
        spec.available = true ∧ spec.stateId = x := by
  rw [structuralMarking, Std.ExtTreeMap.getD_eq_getD_getElem?] at positive
  rw [Std.ExtTreeMap.getD_eq_getD_getElem?]
  cases held : observations[x]? with
  | some amount =>
    rw [held] at positive
    exact .inl positive
  | none =>
    rw [held, Option.getD_none] at positive
    split at positive
    · rename_i listed
      rw [List.any_eq_true] at listed
      obtain ⟨item, member, said⟩ := listed
      rw [Bool.and_eq_true, beq_iff_eq] at said
      refine .inr ⟨?_, item.2, (attested_iff read _).mpr ⟨item, member, rfl⟩, said⟩
      rw [Std.ExtTreeMap.mem_iff_isSome_getElem?, held]
      exact Bool.false_ne_true
    · exact absurd positive (lt_irrefl 0)

end read

section verdict
variable (h : AuditServices) (snapshot : AnalysisSnapshot) (objects : Objects) (time : DateTime)

/-- Every siphon of the network holds an observed amount, an available state that is not
observed, or something that a live supply guarantees. -/
def FedNetwork (network : Network) (observations : Dict ℚ) : Prop :=
  ∀ s ⊆ networkCoordinates network, s.Nonempty → Horn.Siphon (flowRules network) s → ∃ x ∈ s,
    0 < observations.getD x 0 ∨
    (x ∉ observations ∧ ∃ spec,
      Attested objects time DocumentSpec.state? StateSpec.lifecycle spec ∧
        spec.available = true ∧ spec.stateId = x) ∨
    ∃ supply, Supplied objects time supply ∧ supply.coordinate = x ∧ 0 < F supply.rateLower

/-- A plan whose steps are sound and keep the floors, in a network that is fed. -/
structure Lasting (floors : Dict Rational) (plan : PersistencePlanSpec) (basis : PlanBasis)
    (observations : Dict ℚ) : Prop where
  attested : AttestedBasis objects time plan basis observations
  positive : 0 < basis.duration
  sound : ∀ step ∈ plan.steps, SoundStep basis step
  kept : ∀ k, 0 < k → k ≤ plan.steps.length → ∀ (coordinate : Identifier) floor,
    floors[coordinate]? = some floor →
      F floor ≤ markingAfter basis observations (plan.steps.take k) coordinate
  fed : FedNetwork objects time basis.network observations

variable {h snapshot objects time}

theorem yields_trajectory {document : Document} {plan : PersistencePlanSpec} {basis : PlanBasis}
    {observations : Dict ℚ} (attested : AttestedBasis objects time plan basis observations) :
    Yields (trajectory h snapshot objects time document plan basis observations) fun result =>
      result.status = .satisfied →
        Lasting objects time snapshot.spec.protectedFloors plan basis observations := by
  refine yields_bind (yields_takeSteps _ _ 0 _) fun reached taken => ?_
  refine yields_bind (yields_returns _) fun siphons searched => ?_
  by_cases exhaustive : siphons.exhaustive = false
  · rw [if_pos exhaustive]
    refine (yields_lift _).mono fun result made satisfied => ?_
    rw [(dimensionResult_ok made).1] at satisfied
    cases satisfied
  · rw [if_neg exhaustive]
    refine yields_bind (yields_lift _) fun states read => ?_
    refine yields_bind (yields_suppliedCoordinates _) fun supplied feeds => ?_
    refine yields_verdict.mono fun result status satisfied => ?_
    obtain ⟨clean, fed⟩ := List.append_eq_nil_iff.mp (status.mp satisfied)
    obtain ⟨lasting, sound, kept⟩ := taken clean
    rw [reasonIf_eq_nil, not_le] at lasting
    refine ⟨attested, lasting, sound, kept, fun s within nonempty siphon => ?_⟩
    have few : (networkCoordinates basis.network).card ≤ maximumCoordinates := by
      by_contra many
      have refused : Yields (enumerateMinimalSiphons basis.network
          (networkCoordinates basis.network)) (·.exhaustive = false) := by
        unfold enumerateMinimalSiphons
        dsimp only
        rw [if_pos (by rw [Finset.length_sort]; omega)]
        exact yields_pure rfl
      exact exhaustive (refused.returned searched)
    have found := (decides_iff.mp (decides_enumerateMinimalSiphons few)).1.returned searched
    obtain ⟨t, minimal, below⟩ := MinimalSets.exists_minimal
      (P := fun s => s.Nonempty ∧ Horn.Siphon (flowRules basis.network) s) within
      ⟨nonempty, siphon⟩
    have listed : ((networkCoordinates basis.network).sort (· ≤ ·)).filter (· ∈ t) ∈
        siphons.values := (found.values _).mpr ⟨t, by rwa [Finset.sort_toFinset], rfl⟩
    have subset := (MinimalSets.prop_of_minimals minimal).1
    -- the minimal siphon is not reported, so one of its coordinates is fed
    have unreported : ¬ ∀ x ∈ t, ¬ 0 < structuralMarking observations states x ∧ x ∉ supplied := by
      intro unfed
      rw [List.map_eq_nil_iff, unfedSiphons, ← List.length_eq_zero_iff, List.length_mergeSort,
        List.length_eq_zero_iff, List.filter_eq_nil_iff] at fed
      refine fed _ listed (List.all_eq_true.mpr fun x member => ?_)
      obtain ⟨empty, unsupplied⟩ := unfed x ((mem_sorted subset).mp member)
      simp [empty, unsupplied]
    push Not at unreported
    obtain ⟨x, member, source⟩ := unreported
    refine ⟨x, below member, ?_⟩
    by_cases marked : 0 < structuralMarking observations states x
    · exact (structuralMarking_pos read marked).imp_right .inl
    · obtain ⟨supply, credited, same, guaranteed⟩ := (feeds x).mp (source (not_lt.mp marked))
      obtain ⟨id, stored⟩ := Dict.mem_values.mp credited
      exact .inr (.inr ⟨supply, (attested.supplied id supply stored).2, same, guaranteed⟩)

theorem yields_persistence : Yields (persistence h snapshot objects time) fun result =>
    result.status = .satisfied → ∃ document plan basis observations,
      persistencePlans snapshot objects = [(document, plan)] ∧
      Lasting objects time snapshot.spec.protectedFloors plan basis observations := by
  unfold persistence
  split
  · rename_i document plan only
    refine yields_bind (yields_lift _) fun observed read => ?_
    refine yields_bind (yields_returns _) fun observations booked => ?_
    dsimp only
    split
    · exact yields_finding (by decide) _ _
    · rename_i unambiguous
      refine yields_bind (yields_returns _) fun network listed => ?_
      refine yields_bind (yields_lift _) fun rates rated => ?_
      split
      · exact yields_finding (by decide) _ _
      · refine yields_bind (yields_lift _) fun supplies supplied => ?_
        refine yields_bind (yields_rational _) fun duration parsed => ?_
        have distinct := repeated_eq_nil (not_not.mp unambiguous)
        obtain ⟨those, others⟩ := (yields_observe observed distinct ∅).returned booked
        refine (yields_trajectory ⟨listed, ?_, ?_, parsed, ?_, ?_⟩).mono
          fun result said satisfied => ⟨document, plan, _, _, only, said satisfied⟩
        · intro id rate held
          obtain ⟨item, member, same⟩ := List.mem_map.mp (Dict.mem_of_ofList held)
          obtain ⟨rfl, rfl⟩ := Prod.mk.inj same
          exact ⟨rfl, (attested_iff rated _).mpr ⟨item, member, rfl⟩⟩
        · intro id supply held
          obtain ⟨item, member, same⟩ := List.mem_map.mp (Dict.mem_of_ofList held)
          obtain ⟨rfl, rfl⟩ := Prod.mk.inj same
          exact ⟨rfl, (attested_iff supplied _).mpr ⟨item, member, rfl⟩⟩
        · intro spec seen
          obtain ⟨item, member, rfl⟩ := (attested_iff read spec).mp seen
          exact those item member
        · intro coordinate unseen
          rw [others coordinate fun item member =>
            unseen _ ((attested_iff read _).mpr ⟨item, member, rfl⟩)]
          exact Std.ExtTreeMap.getElem?_empty
  · exact yields_finding (by decide) _ _

/-- A plan that an audit finds persistent keeps every floor after every prefix of its steps,
on what is attested; of the coordinates that have no floor nothing is asked. -/
theorem persistence_lasting {allObjects : Objects} {includeRobustness : Bool}
    {evaluationAt : Option DateTime} {budget after : Budget} {profile : OperationalProfile}
    (run : auditSnapshot h snapshot allObjects includeRobustness evaluationAt budget =
      .ok profile after)
    (satisfied : (profile.dimensions["finite_horizon_resource_persistence"]?).map (·.status) =
      some .satisfied) :
    ∃ result time document plan basis observations,
      temporal h snapshot (liveObjects h snapshot allObjects) evaluationAt =
        .ok (result, some time) ∧
      persistencePlans snapshot (liveObjects h snapshot allObjects) = [(document, plan)] ∧
      Lasting (liveObjects h snapshot allObjects) time snapshot.spec.protectedFloors plan basis
        observations := by
  obtain ⟨result, found, status⟩ := Option.map_eq_some_iff.mp satisfied
  cases yields_auditSnapshot includeRobustness evaluationAt budget profile after run with
  | inl unfounded => exact absurd status (unfounded _ (by decide) result found)
  | inr founded =>
    obtain ⟨-, clock, time, told, kernel⟩ := founded
    obtain ⟨r, listed, returned⟩ := kernel.persistence
    rw [found] at listed
    cases listed
    obtain ⟨document, plan, basis, observations, only, lasting⟩ :=
      yields_persistence.returned returned status
    exact ⟨clock, time, document, plan, basis, observations, told, only, lasting⟩

end verdict

namespace PersistenceSample
open AuditSample

def supply : SupplySpec :=
  ⟨"s", "c", one, .ofNat 10, "unit", .utc 0, .utc 5, lifecycle⟩

def plan : PersistencePlanSpec :=
  ⟨"snapshot", one, [⟨amounts [("t", .ofNat 2)], amounts [("s", one)]⟩]⟩

/-- One of `a` is there, and the plan uses up two; the window of its supply is past. -/
def attested : List Document :=
  [document "amount" (.resourceObservation ⟨"a", one, "unit", lifecycle⟩),
    transformation "t" [("a", .ofNat 2)] [("a", one)],
    document "rate" (.rateObservation
      ⟨"t", .ofNat 0, .ofNat 10, "unit", .utc 0, .utc 50, "record", lifecycle⟩),
    document "record" (.evidence ⟨"record", "artifact", "", "record", lifecycle⟩),
    document "supply" (.supply supply),
    document "plan" (.persistencePlan plan)]

def floors : Dict Rational := amounts [("c", one)]

def overdrawn : AnalysisSnapshot := snapshot ["a"] floors attested

def documents : Objects := objects (attested ++ framework ["a"] floors ["a", "c"])

def live : Objects := liveObjects services overdrawn documents

end PersistenceSample

open AuditSample PersistenceSample in
theorem persistence_lasting_sample : ∃ result time document plan basis observations,
    temporal services overdrawn live none = .ok (result, some time) ∧
    persistencePlans overdrawn live = [(document, plan)] ∧
    Lasting live time floors plan basis observations := by
  have reported : status overdrawn documents "finite_horizon_resource_persistence" =
      some .satisfied := by decide +kernel
  obtain ⟨profile, after, run, satisfied⟩ := run_of_status reported
  exact persistence_lasting run satisfied

open AuditSample AgreementSample PersistenceSample in
/-- A plan may use up more than is there of what has no floor, and count on a supply whose
window has ended. -/
theorem persistence_overdrawn : status overdrawn documents "dimensional_consistency" =
      some .satisfied ∧
    status overdrawn documents "finite_horizon_resource_persistence" = some .satisfied ∧
    (∃ result, temporal services overdrawn live none = .ok (result, some (.utc 10))) ∧
    persistencePlans overdrawn live = [(document "plan" (.persistencePlan plan), plan)] ∧
    ∃ basis observations, AttestedBasis live (.utc 10) plan basis observations ∧
      markingAfter basis observations plan.steps "a" < 0 ∧
      ∃ step ∈ plan.steps, "s" ∈ step.supplyQuantities ∧
        ∃ credited, basis.supplies["s"]? = some credited ∧
          credited.windowEnd.lt (.utc 10) = .ok true := by
  have only : persistencePlans overdrawn live =
      [(document "plan" (.persistencePlan plan), plan)] := by decide +kernel
  refine ⟨by decide +kernel, by decide +kernel, ?_, only, ?_⟩
  · have told : (temporal services overdrawn live none).toOption.map Prod.snd =
        some (some (.utc 10)) := by decide +kernel
    cases clock : temporal services overdrawn live none with
    | error fault =>
      rw [clock] at told
      cases told
    | ok found =>
      rw [clock] at told
      obtain ⟨result, time⟩ := found
      obtain rfl : time = some (.utc 10) := Option.some.inj told
      exact ⟨result, rfl⟩
  · obtain ⟨result, returned, status⟩ := returns_of_found
      (m := persistence services overdrawn live (.utc 10)) (f := (·.status))
      (b := .satisfied) (by decide +kernel)
    obtain ⟨noted, bound, basis, observations, listed, lasting⟩ :=
      yields_persistence.returned returned status
    rw [only] at listed
    obtain ⟨rfl, rfl⟩ := Prod.mk.inj (List.singleton_inj.mp listed)
    have attested := lasting.attested
    have observed : observations["a"]? = some (F one) := by
      refine attested.amount ⟨"a", one, "unit", lifecycle⟩ ?_
      exact ⟨document "amount" (.resourceObservation ⟨"a", one, "unit", lifecycle⟩),
        by decide +kernel, rfl, by decide +kernel⟩
    have network : ∃ item, basis.network["t"]? = some item ∧
        balance item.spec.inputs "a" = 2 ∧ balance item.spec.outputs "a" = 1 := by
      obtain ⟨network, returned, said⟩ := returns_of_found (m := transformations live (.utc 10))
        (f := fun network => (network["t"]?).map fun item =>
          (balance item.spec.inputs "a", balance item.spec.outputs "a"))
        (b := some (2, 1)) (by decide +kernel)
      rw [steady_transformations _ _ attested.network returned]
      obtain ⟨item, found, amounts⟩ := Option.map_eq_some_iff.mp said
      obtain ⟨taken, given⟩ := Prod.mk.inj amounts
      exact ⟨item, found, taken, given⟩
    have supplies : ∀ credited, basis.supplies["s"]? = some credited → credited = supply := by
      intro credited found
      obtain ⟨-, read⟩ := attested.supplied "s" credited found
      have listed : (liveTyped live DocumentSpec.supply? SupplySpec.lifecycle (.utc 10)).toOption =
          some [(document "supply" (.supply supply), supply)] := by decide +kernel
      cases items : liveTyped live DocumentSpec.supply? SupplySpec.lifecycle (.utc 10) with
      | error fault =>
        rw [items] at listed
        cases listed
      | ok found =>
        rw [items] at listed
        obtain rfl := Option.some.inj listed
        obtain ⟨item, member, rfl⟩ := (attested_iff items _).mp read
        rw [List.mem_singleton.mp member]
    refine ⟨basis, observations, attested, ?_, _, List.mem_singleton_self _, by decide +kernel, ?_⟩
    · obtain ⟨item, found, taken, given⟩ := network
      have actions : (amounts [("t", .ofNat 2)]).toList = [("t", .ofNat 2)] := by decide +kernel
      have credits : (amounts [("s", one)]).toList = [("s", one)] := by decide +kernel
      have credited : creditChange basis ("s", one) "a" = 0 := by
        rw [creditChange]
        cases held : basis.supplies["s"]? with
        | none => rfl
        | some credited =>
          rw [supplies credited held]
          exact Pi.single_eq_of_ne (by decide) _
      have two : F (.ofNat 2) = 2 := by decide +kernel
      have unit : F one = 1 := by decide +kernel
      rw [markingAfter, Std.ExtTreeMap.getD_eq_getD_getElem?, observed, plan, List.map_singleton,
        List.sum_singleton, stepChange, Pi.add_apply, actions, credits, List.map_singleton,
        List.map_singleton, List.sum_singleton, List.sum_singleton, credited, actionChange, found]
      dsimp only
      rw [taken, given, two, unit, Option.getD_some]
      norm_num
    · obtain ⟨credited, found, -⟩ := ((lasting.sound _ (List.mem_singleton_self _)).credits
        ("s", one) (by decide +kernel)).within
      refine ⟨credited, found, ?_⟩
      rw [supplies credited found]
      decide +kernel

end CollectivePhaseControl
