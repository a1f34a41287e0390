import CollectivePhaseControl.GrowthPlay

/-! Growth runs in model time. Service is piecewise constant: a ledger is in force from its
own time until the next one's. Reservations are made when a step starts, and registered
window boundaries are marked when a step passes them. -/
namespace CollectivePhaseControl

variable {hash : Hashing}

theorem checkState_shared {c : GrowthContractSpec} {s : GrowthState} {u : Unit}
    (h : checkState c s = .ok u) {key : Identifier} {amount : Rational}
    (shared : c.sharedResources[key]? = some amount) :
    ∃ coefficients demand, c.jointCoefficients[key]? = some coefficients ∧
      jointDemand s coefficients = .ok demand ∧ demand + reserved s key ≤ F amount := by
  simp only [checkState, bind_ok, forM_ok] at h
  obtain ⟨-, -, -, -, -, -, -, -, -, -, -, -, -, -, -, -, -, -, -, -, -, -, -, -, -, joint, -⟩ := h
  have listed : (key, amount) ∈ c.sharedResources.toList :=
    Std.ExtTreeMap.mem_toList_iff_getElem?_eq_some.mpr shared
  have checked := joint (key, amount) listed
  simp only [checkShared, bind_ok, Dict.item_ok, require_ok] at checked
  obtain ⟨coefficients, found, demand, demanded, within⟩ := checked
  exact ⟨coefficients, demand, found, demanded, within⟩

theorem checkState_reservations {c : GrowthContractSpec} {s : GrowthState} {u : Unit}
    (h : checkState c s = .ok u) : ∀ r ∈ s.reservations, 0 ≤ F r.quantity := by
  simp only [checkState, bind_ok, forM_ok, require_ok] at h
  obtain ⟨-, -, -, -, -, -, -, -, -, -, -, -, -, -, -, -, -, -, -, -, -, -, -, domain, -⟩ := h
  exact fun r member => (domain r member).2

theorem checkState_checkpoints {c : GrowthContractSpec} {s : GrowthState} {u : Unit}
    (h : checkState c s = .ok u) : (∀ p ∈ s.checkpoints, F p.time ≤ F s.elapsed) ∧
      (s.checkpoints.map (F ·.time)).Nodup := by
  simp only [checkState, bind_ok, forM_ok, checkCheckpoint, require_ok] at h
  obtain ⟨-, -, -, -, -, -, -, -, -, -, -, -, -, -, -, -, -, -, -, -, -, -, -, -, -, -, -, each,
    distinct⟩ := h
  refine ⟨fun p member => ?_, distinct⟩
  obtain ⟨-, bounds, -⟩ := each p member
  exact bounds.2.2

def reservedAt (reservations : List GrowthReservation) (resource : Identifier) (t : ℚ) : ℚ :=
  ((reservations.filter fun r => r.resource = resource ∧ t < F r.upto).map (F ·.quantity)).sum

/-- The reservations that the moves of a run make, with the times at which they do. -/
def bookings (start : ℚ) : List Move → List (ℚ × GrowthReservation)
  | [] => []
  | move :: moves => move.effect.reservations.map (start, ·) ++
      bookings (start + F move.effect.duration) moves

/-- Quantity under the reservations that are active: made no later, outlasting the time. -/
def bookedAt (made : List (ℚ × GrowthReservation)) (resource : Identifier) (t : ℚ) : ℚ :=
  reservedAt ((made.filter (·.1 ≤ t)).map (·.2)) resource t

theorem reservedAt_append (xs ys : List GrowthReservation) (resource : Identifier) (t : ℚ) :
    reservedAt (xs ++ ys) resource t = reservedAt xs resource t + reservedAt ys resource t := by
  simp [reservedAt]

theorem reservedAt_perm {xs ys : List GrowthReservation} (perm : xs.Perm ys)
    (resource : Identifier) (t : ℚ) : reservedAt xs resource t = reservedAt ys resource t :=
  ((perm.filter _).map _).sum_eq

theorem reservedAt_filter (xs : List GrowthReservation) (resource : Identifier) {t t' : ℚ}
    (later : t ≤ t') : reservedAt (xs.filter (t < F ·.upto)) resource t' =
      reservedAt xs resource t' := by
  rw [reservedAt, reservedAt, List.filter_filter]
  congr 2
  refine List.filter_congr fun r _ => ?_
  have implied : t' < F r.upto → t < F r.upto := later.trans_lt
  grind

theorem reservedAt_le {xs : List GrowthReservation} (nonnegative : ∀ r ∈ xs, 0 ≤ F r.quantity)
    (resource : Identifier) {t t' : ℚ} (later : t ≤ t') :
    reservedAt xs resource t' ≤ reservedAt xs resource t := by
  induction xs with
  | nil => exact le_rfl
  | cons r xs ih =>
    obtain ⟨first, rest⟩ := List.forall_mem_cons.mp nonnegative
    have both := ih rest
    rw [← List.singleton_append, reservedAt_append, reservedAt_append]
    have alone : reservedAt [r] resource t' ≤ reservedAt [r] resource t := by
      have implied : t' < F r.upto → t < F r.upto := later.trans_lt
      by_cases active : r.resource = resource ∧ t' < F r.upto
      · simp [reservedAt, active, implied active.2]
      · have none' : reservedAt [r] resource t' = 0 := by
          rw [reservedAt, List.filter_cons_of_neg (by simpa using active)]
          rfl
        rw [none', reservedAt]
        refine List.sum_nonneg fun q member => ?_
        obtain ⟨r', kept, rfl⟩ := List.mem_map.mp member
        cases List.mem_singleton.mp (List.mem_of_mem_filter kept)
        exact first
    linarith

theorem bookedAt_append (made made' : List (ℚ × GrowthReservation)) (resource : Identifier) (t : ℚ) :
    bookedAt (made ++ made') resource t = bookedAt made resource t + bookedAt made' resource t := by
  rw [bookedAt, List.filter_append, List.map_append, reservedAt_append]
  rfl

theorem bookedAt_made {start t : ℚ} (started : start ≤ t) (reservations : List GrowthReservation)
    (resource : Identifier) :
    bookedAt (reservations.map (start, ·)) resource t = reservedAt reservations resource t := by
  simp [bookedAt, List.filter_map, Function.comp_def, started]

theorem bookedAt_later {made : List (ℚ × GrowthReservation)} {t : ℚ}
    (later : ∀ b ∈ made, t < b.1) (resource : Identifier) : bookedAt made resource t = 0 := by
  have nothing : made.filter (·.1 ≤ t) = [] :=
    List.filter_eq_nil_iff.mpr fun b member => by simpa using later b member
  rw [bookedAt, nothing]
  rfl

section run
variable {contract : GrowthContract} {objects : Objects} {frontier : Frontier}

theorem validateContract_declared {u : Unit}
    (h : validateContract hash contract objects = .ok u) :
    checkState contract.spec contract.spec.initialState = .ok () := by
  simp only [validateContract, bind_ok] at h
  obtain ⟨-, -, -, -, -, -, -, -, -, -, -, -, -, -, -, -, declared⟩ := h
  exact declared

theorem Steps.elapsed_eq {s u : GrowthState} {move : Move}
    (step : Steps hash contract objects frontier s move u) :
    F u.elapsed = F s.elapsed + F move.effect.duration := by
  obtain ⟨action, cap, p, -, -, facts, -, -, same⟩ := transition_ok step.2
  have elapsed : u.elapsed = str p.stop := same.field (·.elapsed) fun _ => rfl
  rw [elapsed, F_str, facts.stop]

theorem Steps.reservations {s u : GrowthState} {move : Move}
    (step : Steps hash contract objects frontier s move u) :
    u.reservations.Perm ((s.reservations.filter (F s.elapsed < F ·.upto) ++
      move.effect.reservations).filter (F u.elapsed < F ·.upto)) := by
  have elapsed := step.elapsed_eq
  obtain ⟨action, cap, p, -, -, facts, -, -, same⟩ := transition_ok step.2
  have sorted : u.reservations = (stepLedger s action cap move.effect p).reservations :=
    same.field (·.reservations) fun _ => rfl
  rw [sorted, elapsed, ← facts.stop, ← facts.reservations]
  exact List.perm_insertionSort _ _

theorem bookings_later (facts : ContractFacts contract.spec objects) {s e : GrowthState}
    {moves : List Move} (run : Runs.Run (Steps hash contract objects frontier) s moves e) :
    ∀ b ∈ bookings (F s.elapsed) moves, F s.elapsed ≤ b.1 := by
  induction run with
  | nil s => simp [bookings]
  | @cons s u e move moves step rest ih =>
    rw [bookings, List.forall_mem_append, ← step.elapsed_eq]
    refine ⟨fun b member => ?_, fun b member => (step.elapsed_lt facts).le.trans (ih b member)⟩
    obtain ⟨r, -, rfl⟩ := List.mem_map.mp member
    exact le_rfl

theorem Steps.transient_booked {s u : GrowthState} {move : Move}
    (step : Steps hash contract objects frontier s move u) {key : Identifier} {amount : Rational}
    (shared : contract.spec.sharedResources[key]? = some amount) {t : ℚ} (begun : F s.elapsed ≤ t) :
    ∃ coefficients demand, contract.spec.jointCoefficients[key]? = some coefficients ∧
      jointDemand s coefficients = .ok demand ∧
      demand + (reservedAt s.reservations key t + reservedAt move.effect.reservations key t) ≤
        F amount := by
  obtain ⟨action, cap, p, -, -, facts, -, -, -⟩ := transition_ok step.2
  obtain ⟨coefficients, demand, found, demanded, within⟩ := checkState_shared facts.transient shared
  refine ⟨coefficients, demand, found, demanded, le_trans ?_ within⟩
  have shrinks := reservedAt_le (checkState_reservations facts.transient) key begun
  rw [reservedAt_append, reservedAt_filter _ _ begun] at shrinks
  exact add_le_add_right shrinks demand

theorem holds_booked (facts : ContractFacts contract.spec objects) {key : Identifier}
    {amount : Rational} (shared : contract.spec.sharedResources[key]? = some amount)
    {s e v : GrowthState} {moves : List Move} {t : ℚ}
    (holds : Runs.Holds (Steps hash contract objects frontier) (F ·.elapsed) s moves e t v)
    (admitted : checkState contract.spec s = .ok ()) :
    ∃ coefficients demand, contract.spec.jointCoefficients[key]? = some coefficients ∧
      jointDemand v coefficients = .ok demand ∧
      demand + (reservedAt s.reservations key t + bookedAt (bookings (F s.elapsed) moves) key t) ≤
        F amount := by
  induction holds with
  | @last s t reached =>
    obtain ⟨coefficients, demand, found, demanded, within⟩ := checkState_shared admitted shared
    have shrinks := reservedAt_le (checkState_reservations admitted) key reached
    have nothing : bookedAt (bookings (F s.elapsed) []) key t = 0 :=
      bookedAt_later (by simp [bookings]) key
    refine ⟨coefficients, demand, found, demanded, le_trans ?_ within⟩
    rw [nothing, add_zero]
    exact add_le_add_right shrinks demand
  | @before s u e move moves t step rest begun early =>
    have later : bookedAt (bookings (F u.elapsed) moves) key t = 0 :=
      bookedAt_later (fun b member => early.trans_le (bookings_later facts rest b member)) key
    rw [bookings, bookedAt_append, bookedAt_made begun, ← step.elapsed_eq, later, add_zero]
    exact step.transient_booked shared begun
  | @after s u e v move moves t step reached rest ih =>
    obtain ⟨coefficients, demand, found, demanded, within⟩ := ih step.admitted.2.1
    have begun : F s.elapsed ≤ t := (step.elapsed_lt facts).le.trans reached
    refine ⟨coefficients, demand, found, demanded, ?_⟩
    rw [reservedAt_perm step.reservations, reservedAt_filter _ _ reached, reservedAt_append,
      reservedAt_filter _ _ begun, step.elapsed_eq] at within
    rw [bookings, bookedAt_append, bookedAt_made begun]
    linarith

/-- The ledger whose service is offered at a time of a run: the declared one while the
prepaid planning lasts, then the one in force along the run. -/
def InForce (hash : Hashing) (contract : GrowthContract) (objects : Objects) (frontier : Frontier)
    (moves : List Move) (s : GrowthState) (t : ℚ) (v : GrowthState) : Prop :=
  ∃ start, initialState hash contract frontier = .ok start ∧
    ((F contract.spec.initialState.elapsed ≤ t ∧ t < F start.elapsed ∧
        Runs.Run (Steps hash contract objects frontier) start moves s ∧
        v = contract.spec.initialState) ∨
      Runs.Holds (Steps hash contract objects frontier) (F ·.elapsed) start moves s t v)

/-- Every reservation of a run with the time it is made at. The declared ones are there
from the declared time on; the first move starts once planning is paid for. -/
def reservationsMade (c : GrowthContractSpec) (moves : List Move) : List (ℚ × GrowthReservation) :=
  c.initialState.reservations.map (F c.initialState.elapsed, ·) ++
    bookings (F c.initialState.elapsed + F c.planningDuration) moves

theorem initialState_elapsed {start : GrowthState}
    (h : initialState hash contract frontier = .ok start) :
    F start.elapsed = F contract.spec.initialState.elapsed + F contract.spec.planningDuration := by
  obtain ⟨resources, spent, checkpoints, -, -, -, same⟩ := initialState_ok h
  have elapsed : start.elapsed =
      str (F contract.spec.initialState.elapsed + F contract.spec.planningDuration) :=
    same.field (·.elapsed) fun _ => rfl
  rw [elapsed, F_str]

theorem initialState_reservations {start : GrowthState}
    (h : initialState hash contract frontier = .ok start) :
    start.reservations.Perm contract.spec.initialState.reservations := by
  obtain ⟨resources, spent, checkpoints, -, -, -, same⟩ := initialState_ok h
  have sorted : start.reservations =
      contract.spec.initialState.reservations.insertionSort reservationLE :=
    same.field (·.reservations) fun _ => rfl
  rw [sorted]
  exact List.perm_insertionSort _ _

theorem initialState_admitted {start : GrowthState}
    (h : initialState hash contract frontier = .ok start) :
    checkState contract.spec start = .ok () := by
  obtain ⟨resources, spent, checkpoints, -, -, checked, same⟩ := initialState_ok h
  rw [same.field (checkState contract.spec) fun _ => rfl]
  exact checked

theorem growthRun_offered {moves : List Move} {s : GrowthState}
    (run : GrowthRun hash contract objects frontier moves s) {t : ℚ}
    (began : F contract.spec.initialState.elapsed ≤ t) :
    ∃ v, InForce hash contract objects frontier moves s t v := by
  obtain ⟨start, prepaidStart, steps⟩ := run
  rcases lt_or_ge t (F start.elapsed) with planning | started
  · exact ⟨_, start, prepaidStart, .inl ⟨began, planning, steps, rfl⟩⟩
  · have running : ∃ v, Runs.Holds (Steps hash contract objects frontier) (F ·.elapsed) start moves s
        t v := Runs.holds_total steps started
    obtain ⟨v, holds⟩ := running
    exact ⟨v, start, prepaidStart, .inr holds⟩

/-- At every time of a run, the declared amount of a shared resource covers the demand of
the service in force together with every active reservation. -/
theorem growthRun_single_booked (valid : validateContract hash contract objects = .ok ())
    {moves : List Move} {s : GrowthState} (run : GrowthRun hash contract objects frontier moves s)
    {t : ℚ} (began : F contract.spec.initialState.elapsed ≤ t) :
    (∃ v, InForce hash contract objects frontier moves s t v) ∧
      ∀ v, InForce hash contract objects frontier moves s t v →
        ∀ (key : Identifier) (amount : Rational),
          contract.spec.sharedResources[key]? = some amount →
          ∃ coefficients demand, contract.spec.jointCoefficients[key]? = some coefficients ∧
            jointDemand v coefficients = .ok demand ∧
            demand + bookedAt (reservationsMade contract.spec moves) key t ≤ F amount := by
  have facts := validateContract_ok hash valid
  refine ⟨growthRun_offered run began, ?_⟩
  rintro v ⟨start, prepaidStart, offered⟩ key amount shared
  rw [reservationsMade, bookedAt_append, bookedAt_made began, ← initialState_elapsed prepaidStart]
  rcases offered with ⟨-, planning, steps, rfl⟩ | holds
  · have declared := validateContract_declared valid
    obtain ⟨coefficients, demand, found, demanded, within⟩ := checkState_shared declared shared
    have shrinks := reservedAt_le (checkState_reservations declared) key began
    have later : bookedAt (bookings (F start.elapsed) moves) key t = 0 :=
      bookedAt_later (fun b member => planning.trans_le (bookings_later facts steps b member)) key
    refine ⟨coefficients, demand, found, demanded, le_trans ?_ within⟩
    rw [later, add_zero]
    exact add_le_add_right shrinks demand
  · rw [← reservedAt_perm (initialState_reservations prepaidStart)]
    exact holds_booked facts shared holds (initialState_admitted prepaidStart)

namespace Sample

/-- A reservation of the shared resource that lasts beyond the first step. -/
def booking : GrowthReservation := ⟨"gpu", "task", whole 3, whole 2⟩

def booked : GrowthContract :=
  { Sample.contract with
    spec := { terms with initialState := { declared with reservations := [booking] } } }

def bookedStart : GrowthState := (initialState digests booked none).toOption.getD declared

def bookedGrown : GrowthState :=
  (transition digests booked bookedStart growth.recipe growth.effect Sample.objects none).toOption.getD
    bookedStart

theorem booked_steps : initialState digests booked none = .ok bookedStart ∧
    Steps digests booked Sample.objects none bookedStart growth bookedGrown :=
  ⟨by decide +kernel, by decide +kernel, by decide +kernel⟩

theorem booked_grows : GrowthRun digests booked Sample.objects none [growth] bookedGrown :=
  ⟨bookedStart, booked_steps.1, .cons booked_steps.2 (.nil _)⟩

theorem booked_inForce : InForce digests booked Sample.objects none [growth] bookedGrown (1 / 2)
    bookedStart :=
  ⟨bookedStart, booked_steps.1, .inr (.before booked_steps.2 (.nil _) (by decide +kernel)
    (by decide +kernel))⟩

end Sample

open Sample in
theorem growthRun_single_booked_sample :
    bookedAt (reservationsMade booked.spec [growth]) "gpu" (1 / 2) = 3 ∧
    ∃ coefficients demand, booked.spec.jointCoefficients["gpu"]? = some coefficients ∧
      jointDemand bookedStart coefficients = .ok demand ∧
      demand + bookedAt (reservationsMade booked.spec [growth]) "gpu" (1 / 2) ≤
        F (whole 100) :=
  ⟨by decide +kernel, (growthRun_single_booked (by decide +kernel) booked_grows
    (by decide +kernel)).2 _ booked_inForce "gpu" (whole 100) (by decide +kernel)⟩

theorem validateContract_windows {u : Unit} (h : validateContract hash contract objects = .ok u) :
    ∀ w ∈ contract.spec.windows, F w.start < F w.stop := by
  simp only [validateContract, bind_ok] at h
  obtain ⟨-, -, -, -, units, -, -, -, -, -, ⟨⟩, terms, -⟩ := h
  simp only [validateTerms, bind_ok, forM_ok, validateWindow, require_ok] at terms
  obtain ⟨-, -, -, -, -, -, -, -, -, -, -, -, -, windows, -⟩ := terms
  exact fun w member => (windows w member).1.2.1

theorem makeCheckpoint_ok {time : ℚ} {capacities : Dict GrowthInterval} {p : GrowthCheckpoint}
    (h : makeCheckpoint time capacities = .ok p) : F p.time = time ∧ p.capacities = capacities := by
  unfold makeCheckpoint at h
  split at h
  · cases h
    exact ⟨F_str time, rfl⟩
  · exact nomatch h

theorem boundaryCheckpoints_ok {before after : Dict GrowthInterval} {stop : ℚ} :
    ∀ {times : List ℚ} {marked : List GrowthCheckpoint},
      boundaryCheckpoints before after stop times = .ok marked →
        ∀ t ∈ times, ∃ p ∈ marked, F p.time = t ∧
          p.capacities = if t = stop then after else before := by
  intro times
  induction times with
  | nil => simp
  | cons t times ih =>
    intro marked h
    simp only [boundaryCheckpoints, bind_ok, pure_ok] at h
    obtain ⟨p, made, rest, others, rfl⟩ := h
    rw [List.forall_mem_cons]
    refine ⟨⟨p, List.mem_cons_self, makeCheckpoint_ok made⟩, fun t' member => ?_⟩
    obtain ⟨p', listed, marks⟩ := ih others t' member
    exact ⟨p', List.mem_cons_of_mem _ listed, marks⟩

theorem addCheckpoints_ok {capacities : Dict GrowthInterval} :
    ∀ {times : List ℚ} {old all : List GrowthCheckpoint},
      addCheckpoints capacities times old = .ok all →
        old ⊆ all ∧ ∀ t ∈ times, ∃ p ∈ all, F p.time = t ∧ (p ∈ old ∨ p.capacities = capacities) := by
  intro times
  induction times with
  | nil =>
    intro old all h
    cases h
    exact ⟨List.Subset.refl old, by simp⟩
  | cons t times ih =>
    intro old all h
    simp only [addCheckpoints] at h
    split at h
    case isTrue present =>
      obtain ⟨kept, marks⟩ := ih h
      obtain ⟨p, member, here⟩ := List.any_eq_true.mp present
      have first : ∃ p ∈ all, F p.time = t ∧ (p ∈ old ∨ p.capacities = capacities) :=
        ⟨p, kept member, of_decide_eq_true here, .inl member⟩
      exact ⟨kept, List.forall_mem_cons.mpr ⟨first, marks⟩⟩
    case isFalse =>
      simp only [bind_ok] at h
      obtain ⟨made, new, rest⟩ := h
      obtain ⟨time, caps⟩ := makeCheckpoint_ok new
      obtain ⟨kept, marks⟩ := ih rest
      have last : made ∈ all := kept (by simp)
      refine ⟨fun p member => kept (List.mem_append_left _ member), ?_⟩
      rw [List.forall_mem_cons]
      refine ⟨⟨made, last, time, .inr caps⟩, fun t' member => ?_⟩
      obtain ⟨p, listed, here, origin⟩ := marks t' member
      refine ⟨p, listed, here, ?_⟩
      rcases origin with inside | new'
      · rcases List.mem_append.mp inside with older | newest
        · exact .inl older
        · rw [List.mem_singleton.mp newest]
          exact .inr caps
      · exact .inr new'

theorem mem_sortedTimes {times : List ℚ} {t : ℚ} : t ∈ sortedTimes times ↔ t ∈ times := by
  rw [sortedTimes, List.mem_insertionSort, List.mem_dedup]

theorem initialState_checkpoints {start : GrowthState}
    (h : initialState hash contract frontier = .ok start) :
    ∃ checkpoints, addCheckpoints contract.spec.initialState.capacities
        (initialBoundaries contract.spec (F contract.spec.initialState.elapsed +
          F contract.spec.planningDuration)) contract.spec.initialState.checkpoints =
          .ok checkpoints ∧
      start.checkpoints.Perm checkpoints ∧
      start.capacities = contract.spec.initialState.capacities := by
  simp only [initialState, bind_ok, normalize_ok] at h
  obtain ⟨⟨resources, spent⟩, -, checkpoints, added, ledger, ⟨-, rfl⟩, -, -, facet⟩ := h
  refine ⟨checkpoints, added, ?_⟩
  cases frontier with
  | none =>
    rw [pure_ok] at facet
    subst facet
    exact ⟨List.perm_insertionSort _ _, rfl⟩
  | some f =>
    have same := seed_sameLedger facet
    rw [same.field (·.checkpoints) fun _ => rfl, same.field (·.capacities) fun _ => rfl]
    exact ⟨List.perm_insertionSort _ _, rfl⟩

theorem initialState_marks {start : GrowthState}
    (h : initialState hash contract frontier = .ok start) {b : ℚ}
    (boundary : b ∈ windowTimes contract.spec)
    (began : F contract.spec.initialState.elapsed ≤ b) (reached : b ≤ F start.elapsed) :
    ∃ p ∈ start.checkpoints, F p.time = b ∧
      (p ∈ contract.spec.initialState.checkpoints ∨
        p.capacities = contract.spec.initialState.capacities) := by
  obtain ⟨checkpoints, added, perm, -⟩ := initialState_checkpoints h
  have due : b ∈ initialBoundaries contract.spec
      (F contract.spec.initialState.elapsed + F contract.spec.planningDuration) := by
    rw [initialBoundaries, mem_sortedTimes, ← initialState_elapsed h]
    exact List.mem_cons_of_mem _ (List.mem_filter.mpr ⟨boundary, by simp [began, reached]⟩)
  obtain ⟨p, listed, here, origin⟩ := (addCheckpoints_ok added).2 b due
  exact ⟨p, perm.mem_iff.mpr listed, here, origin⟩

theorem Steps.checkpoints {s u : GrowthState} {move : Move}
    (step : Steps hash contract objects frontier s move u) :
    s.checkpoints ⊆ u.checkpoints ∧
      ∀ b ∈ windowTimes contract.spec, F s.elapsed < b → b ≤ F u.elapsed →
        ∃ p ∈ u.checkpoints, F p.time = b ∧
          p.capacities = if b = F u.elapsed then u.capacities else s.capacities := by
  have elapsed := step.elapsed_eq
  obtain ⟨action, cap, parts, -, -, facts, -, -, same⟩ := transition_ok step.2
  have sorted : u.checkpoints = (stepLedger s action cap move.effect parts).checkpoints :=
    same.field (·.checkpoints) fun _ => rfl
  have credited : u.capacities = parts.capacities := same.field (·.capacities) fun _ => rfl
  have perm : u.checkpoints.Perm (s.checkpoints ++ parts.checkpoints) := by
    rw [sorted]
    exact List.perm_insertionSort _ _
  refine ⟨fun p member => perm.mem_iff.mpr (List.mem_append_left _ member), ?_⟩
  intro b boundary begun reached
  rw [elapsed, ← facts.stop] at reached ⊢
  have due : b ∈ stepBoundaries contract.spec (F s.elapsed) parts.stop :=
    List.mem_filter.mpr ⟨mem_sortedTimes.mpr boundary, by simp [begun, reached]⟩
  obtain ⟨p, listed, here, caps⟩ := boundaryCheckpoints_ok facts.checkpoints b due
  refine ⟨p, perm.mem_iff.mpr (List.mem_append_right _ listed), here, ?_⟩
  rw [caps, credited]

theorem run_checkpoints {s e : GrowthState} {moves : List Move}
    (run : Runs.Run (Steps hash contract objects frontier) s moves e) :
    s.checkpoints ⊆ e.checkpoints :=
  run.related (R := fun s e => s.checkpoints ⊆ e.checkpoints) (fun _ => List.Subset.refl _)
    (fun _ _ _ => List.Subset.trans) fun _ _ _ step => step.checkpoints.1

theorem holds_marked (facts : ContractFacts contract.spec objects) {s e v : GrowthState}
    {moves : List Move} {b : ℚ} (boundary : b ∈ windowTimes contract.spec)
    (holds : Runs.Holds (Steps hash contract objects frontier) (F ·.elapsed) s moves e b v)
    (begun : F s.elapsed < b) (reached : b ≤ F e.elapsed) :
    ∃ p ∈ e.checkpoints, F p.time = b ∧ p.capacities = v.capacities := by
  induction holds with
  | last => exact absurd begun (not_lt.mpr reached)
  | @before s u e move moves b step rest _ early =>
    obtain ⟨p, listed, here, caps⟩ := step.checkpoints.2 b boundary begun early.le
    rw [if_neg early.ne] at caps
    exact ⟨p, run_checkpoints rest listed, here, caps⟩
  | @after s u e v move moves b step started rest ih =>
    rcases started.eq_or_lt with rfl | inside
    · obtain ⟨p, listed, here, caps⟩ := step.checkpoints.2 _ boundary begun le_rfl
      have unchanged := rest.here fun _ _ _ next => next.elapsed_lt facts
      rw [if_pos rfl, ← unchanged] at caps
      exact ⟨p, run_checkpoints rest.run listed, here, caps⟩
    · exact ih boundary inside reached

/-- A boundary that the declared state does not already record. -/
def Unrecorded (c : GrowthContractSpec) (b : ℚ) : Prop :=
  F c.initialState.elapsed < b ∨ b ∉ c.initialState.checkpoints.map (F ·.time)

theorem Unrecorded.fresh {c : GrowthContractSpec} {b : ℚ} (unrecorded : Unrecorded c b)
    (declared : checkState c c.initialState = .ok ()) {p : GrowthCheckpoint} (here : F p.time = b) :
    p ∉ c.initialState.checkpoints := by
  intro member
  have early := (checkState_checkpoints declared).1 p member
  rcases unrecorded with later | absent
  · rw [here] at early
    exact absurd later (not_lt.mpr early)
  · exact absent (List.mem_map.mpr ⟨p, member, here⟩)

theorem growthRun_marked (valid : validateContract hash contract objects = .ok ())
    {moves : List Move} {s : GrowthState} (run : GrowthRun hash contract objects frontier moves s)
    {b : ℚ} (boundary : b ∈ windowTimes contract.spec)
    (began : F contract.spec.initialState.elapsed ≤ b) (reached : b ≤ F s.elapsed) :
    ∃ p ∈ s.checkpoints, F p.time = b ∧ (Unrecorded contract.spec b →
      ∀ v, InForce hash contract objects frontier moves s b v →
        ∃ p' ∈ s.checkpoints, F p'.time = b ∧ p'.capacities = v.capacities) := by
  have facts := validateContract_ok hash valid
  obtain ⟨start, prepaidStart, steps⟩ := run
  rcases le_or_gt b (F start.elapsed) with planning | running
  · obtain ⟨p, listed, here, origin⟩ := initialState_marks prepaidStart boundary began planning
    have kept := run_checkpoints steps listed
    refine ⟨p, kept, here, fun unrecorded v offered => ⟨p, kept, here, ?_⟩⟩
    have caps := origin.resolve_left (unrecorded.fresh (validateContract_declared valid) here)
    obtain ⟨start', same, ⟨-, -, -, rfl⟩ | holds⟩ := offered
    · exact caps
    · cases prepaidStart.symm.trans same
      have forward : ∀ s m u, Steps hash contract objects frontier s m u → F s.elapsed < F u.elapsed :=
        fun _ _ _ step => step.elapsed_lt facts
      cases le_antisymm planning (holds.begun forward)
      obtain ⟨-, -, -, unchanged⟩ := initialState_checkpoints prepaidStart
      rw [holds.here forward, unchanged]
      exact caps
  · have offered : ∃ v, Runs.Holds (Steps hash contract objects frontier) (F ·.elapsed) start moves s
        b v := Runs.holds_total steps running.le
    obtain ⟨v, holds⟩ := offered
    obtain ⟨p, listed, here, -⟩ := holds_marked facts boundary holds running reached
    refine ⟨p, listed, here, fun _ v' offered => ?_⟩
    obtain ⟨start', same, ⟨-, early, -, -⟩ | holds'⟩ := offered
    · cases prepaidStart.symm.trans same
      exact absurd early running.not_gt
    · cases prepaidStart.symm.trans same
      exact holds_marked facts boundary holds' running reached

theorem filter_eq_singleton {α β : Type*} [DecidableEq β] {f : α → β} {xs : List α}
    (distinct : (xs.map f).Nodup) {p : α} (member : p ∈ xs) : xs.filter (f · = f p) = [p] := by
  apply List.perm_singleton.mp
  rw [List.perm_ext_iff_of_nodup (distinct.of_map.filter _) (List.nodup_singleton p)]
  intro q
  rw [List.mem_filter, List.mem_singleton, decide_eq_true_eq]
  constructor
  · rintro ⟨listed, same⟩
    exact List.inj_on_of_nodup_map distinct listed member same
  · rintro rfl
    exact ⟨member, rfl⟩

/-- Each coordinate's lower capacity is at least its factor times a former upper one. -/
def GrownFrom (s : GrowthState) (base : Dict GrowthInterval)
    (factors : List (Identifier × Rational)) : Prop :=
  ∀ x ∈ factors, ∃ capacity before, s.capacities[x.1]? = some capacity ∧
    base[x.1]? = some before ∧ F before.upper * F x.2 ≤ F capacity.lower

def windowFactors (w : GrowthWindow) : List (Identifier × Rational) :=
  [("task", w.taskFactor), ("research", w.researchFactor)]

theorem blockSupported_ok {s : GrowthState} {w : GrowthWindow} {p : GrowthCheckpoint}
    (only : s.checkpoints.filter (F ·.time = F w.start) = [p]) :
    blockSupported s w = .ok true ↔
      F s.elapsed = F w.stop ∧ GrownFrom s p.capacities (windowFactors w) := by
  have first : s.checkpoints.find? (F ·.time = F w.start) = some p := by
    rw [← List.head?_filter, only]
    rfl
  rw [blockSupported, first]
  simp only
  split
  case isTrue ended =>
    rw [grownBy_ok]
    exact ⟨fun grown => ⟨ended, grown⟩, And.right⟩
  case isFalse other => simp [other]

/-- Every registered boundary that a run has reached is marked exactly once, with the
service in force there; so a block is supported exactly when the run stands at its end and
the service there has grown by the registered factors since its start. -/
theorem growthRun_checkpoints (valid : validateContract hash contract objects = .ok ())
    {moves : List Move} {s : GrowthState} (run : GrowthRun hash contract objects frontier moves s) :
    (∀ b ∈ windowTimes contract.spec, F contract.spec.initialState.elapsed ≤ b →
      b ≤ F s.elapsed → ∃ p, s.checkpoints.filter (F ·.time = b) = [p] ∧
        (Unrecorded contract.spec b → (∃ v, InForce hash contract objects frontier moves s b v) ∧
          ∀ v, InForce hash contract objects frontier moves s b v →
            p.capacities = v.capacities)) ∧
      ∀ w ∈ contract.spec.windows, F contract.spec.initialState.elapsed ≤ F w.start →
        Unrecorded contract.spec (F w.start) →
          (blockSupported s w = .ok true ↔ F s.elapsed = F w.stop ∧
            ∃ v, InForce hash contract objects frontier moves s (F w.start) v ∧
              GrownFrom s v.capacities (windowFactors w)) := by
  have admitted := (Reachable.admitted ⟨moves, run⟩).2
  obtain ⟨bounded, distinct⟩ := checkState_checkpoints admitted
  have marked : ∀ b ∈ windowTimes contract.spec, F contract.spec.initialState.elapsed ≤ b →
      b ≤ F s.elapsed → ∃ p, s.checkpoints.filter (F ·.time = b) = [p] ∧
        (Unrecorded contract.spec b → (∃ v, InForce hash contract objects frontier moves s b v) ∧
          ∀ v, InForce hash contract objects frontier moves s b v →
            p.capacities = v.capacities) := by
    intro b boundary began reached
    obtain ⟨p, listed, here, service⟩ := growthRun_marked valid run boundary began reached
    refine ⟨p, here ▸ filter_eq_singleton distinct listed, fun unrecorded => ?_⟩
    refine ⟨(growthRun_offered run began), fun v offered => ?_⟩
    obtain ⟨p', listed', here', caps⟩ := service unrecorded v offered
    have same : p' = p := List.inj_on_of_nodup_map distinct listed' listed (here'.trans here.symm)
    exact same ▸ caps
  refine ⟨marked, fun w listed began unrecorded => ?_⟩
  rcases le_or_gt (F w.start) (F s.elapsed) with reached | ahead
  · have boundary : F w.start ∈ windowTimes contract.spec :=
      List.mem_flatMap.mpr ⟨w, listed, by simp⟩
    obtain ⟨p, only, service⟩ := marked _ boundary began reached
    obtain ⟨⟨v, offered⟩, same⟩ := service unrecorded
    rw [blockSupported_ok only]
    constructor
    · rintro ⟨ended, grown⟩
      exact ⟨ended, v, offered, same v offered ▸ grown⟩
    · rintro ⟨ended, v', offered', grown⟩
      exact ⟨ended, (same v' offered').symm ▸ grown⟩
  · -- A window that has not begun has no checkpoint and has not ended.
    have none' : s.checkpoints.find? (F ·.time = F w.start) = none := by
      rw [List.find?_eq_none]
      intro p member
      have early := (bounded p member).trans_lt ahead
      simpa using early.ne
    have open' : F s.elapsed ≠ F w.stop :=
      (ahead.trans (validateContract_windows valid w listed)).ne
    simp [blockSupported, none', open']

end run

theorem growthRun_checkpoints_sample :
    ∃ p, (Sample.after Sample.start Sample.grow).checkpoints.filter (F ·.time = 1) = [p] :=
  ((growthRun_checkpoints Sample.valid Sample.grown).1 1 (by decide +kernel) (by decide +kernel)
    (by decide +kernel)).imp fun _ marked => marked.1

end CollectivePhaseControl
