import CollectivePhaseControl.AnalysisBudget
import CollectivePhaseControl.Documents
import CollectivePhaseControl.Polyline

/-! Backlog and delay from an arrival and a service curve: the largest vertical and
horizontal deviation over finitely many candidate times. -/
namespace CollectivePhaseControl

open Polyline

/-- What `curve_integrity` and the field bounds say about the points. -/
def curveIntegrity (points : List (ℚ × ℚ)) : Prop :=
  (2 ≤ points.length ∧ points.length ≤ 4096) ∧ points.head? = some (0, 0) ∧
    points.IsChain (fun left right => left.1 < right.1) ∧ (∀ point ∈ points, 0 ≤ point.2) ∧
      points.IsChain fun left right => left.2 ≤ right.2

instance decidableCurveIntegrity (points : List (ℚ × ℚ)) : Decidable (curveIntegrity points) := by
  unfold curveIntegrity
  infer_instance

def ServiceCurveSpec.pairs (spec : ServiceCurveSpec) : List (ℚ × ℚ) :=
  spec.points.map fun point => (F point.offset, F point.cumulative)

structure ServiceCurve where
  points : List (ℚ × ℚ)
  integrity : curveIntegrity points

def ServiceCurveSpec.curve (spec : ServiceCurveSpec) (accepted : curveIntegrity spec.pairs) :
    ServiceCurve := ⟨spec.pairs, accepted⟩

structure CurveBounds where
  backlog : ℚ
  delay : Option ℚ
  exhaustive : Bool
deriving DecidableEq

/-- A curve has points: `points[0]` does not raise. -/
def interpolate (points : List (ℚ × ℚ)) (time : ℚ) : Option ℚ :=
  match points.head?, points.getLast? with
  | some first, some last =>
    if time < first.1 ∨ last.1 < time then none
    else
      match (segments points).find? fun s => decide (s.1.1 ≤ time ∧ time ≤ s.2.1) with
      | some (left, right) =>
        if time = left.1 ∨ right.1 = left.1 then some left.2
        else some (left.2 + (right.2 - left.2) * (time - left.1) / (right.1 - left.1))
      | none => some last.2
  | _, _ => none

/-- The loop body of `_inverse_crossing`; `none` goes on to the next segment. -/
def crossSegment (points : List (ℚ × ℚ)) (value notBefore : ℚ)
    (segment : (ℚ × ℚ) × (ℚ × ℚ)) : Option ℚ :=
  let left := segment.1
  let right := segment.2
  if right.1 < notBefore ∨ right.2 < value then none
  else
    let startT := max left.1 notBefore
    match interpolate points startT with
    | none => none
    | some startV =>
      if value ≤ startV then some startT
      else if right.2 = startV then none
      else some (startT + (value - startV) * (right.1 - startT) / (right.2 - startV))

def inverseCrossing (points : List (ℚ × ℚ)) (value notBefore : ℚ) : Option ℚ :=
  match points.getLast? with
  | none => none
  | some last =>
    if last.2 < value then none
    else (segments points).findSome? (crossSegment points value notBefore)

def commonHorizon (arrivalPoints servicePoints : List (ℚ × ℚ)) : Option ℚ :=
  match arrivalPoints.getLast?, servicePoints.getLast? with
  | some arrival, some service => some (min arrival.1 service.1)
  | _, _ => none

/-- `sorted(candidate_times)`. -/
def candidateTimes (arrivalPoints servicePoints : List (ℚ × ℚ)) : List ℚ :=
  match commonHorizon arrivalPoints servicePoints with
  | none => []
  | some horizon =>
    let breakpoints := ((arrivalPoints ++ servicePoints).map Prod.fst).filter
      fun time => decide (0 ≤ time ∧ time ≤ horizon)
    let crossings := servicePoints.filterMap fun point =>
      (inverseCrossing arrivalPoints point.2 0).filter fun crossing => decide (crossing ≤ horizon)
    (breakpoints ++ crossings).dedup.insertionSort (· ≤ ·)

/-- The running maxima of the loop over the candidate times. -/
structure Deviations where
  backlog : ℚ
  delay : ℚ
  exhaustive : Bool
deriving DecidableEq

def Deviations.measure (arrivalPoints servicePoints : List (ℚ × ℚ)) (found : Deviations)
    (time : ℚ) : Deviations :=
  match interpolate arrivalPoints time, interpolate servicePoints time with
  | some arrival, some service =>
    let found := { found with backlog := max found.backlog (arrival - service) }
    match inverseCrossing servicePoints arrival time with
    | none => { found with exhaustive := false }
    | some crossing => { found with delay := max found.delay (crossing - time) }
  | _, _ => { found with exhaustive := false }

def Deviations.bounds (found : Deviations) : CurveBounds :=
  ⟨max found.backlog 0, if found.exhaustive then some found.delay else none, found.exhaustive⟩

def deterministicCurveBounds (arrivalPoints servicePoints : List (ℚ × ℚ)) :
    Analysis CurveBounds := do
  let found ← (candidateTimes arrivalPoints servicePoints).foldlM (fun (found : Deviations) time => do
    spend 1
    pure (found.measure arrivalPoints servicePoints time)) ⟨0, 0, true⟩
  pure found.bounds

def deviations (arrivalPoints servicePoints : List (ℚ × ℚ)) : Deviations :=
  (candidateTimes arrivalPoints servicePoints).foldl
    (fun found time => found.measure arrivalPoints servicePoints time) ⟨0, 0, true⟩

theorem yields_deterministicCurveBounds (arrivalPoints servicePoints : List (ℚ × ℚ)) :
    Yields (deterministicCurveBounds arrivalPoints servicePoints)
      (· = (deviations arrivalPoints servicePoints).bounds) := by
  unfold deterministicCurveBounds
  refine yields_bind (yields_foldlM_spend 1 _ _) fun found same => ?_
  rw [same]
  exact yields_pure rfl

theorem deterministicCurveBounds_run (arrivalPoints servicePoints : List (ℚ × ℚ))
    {budget : Budget}
    (enough : (candidateTimes arrivalPoints servicePoints).length ≤ budget.remaining)
    (timely : ∀ n, budget.late n = false) : ∃ after,
    deterministicCurveBounds arrivalPoints servicePoints budget =
      .ok (deviations arrivalPoints servicePoints).bounds after := by
  have run := foldlM_spend_run (g := fun found time =>
    Deviations.measure arrivalPoints servicePoints found time) (s := ⟨0, 0, true⟩) enough timely
  exact ⟨_, bind_run run⟩

namespace ServiceCurve

theorem rising (c : ServiceCurve) : Rising c.points := by
  obtain ⟨-, -, offsets, -, levels⟩ := c.integrity
  have offsets := List.isChain_iff_pairwise.mp offsets
  have levels := List.isChain_iff_pairwise.mp levels
  exact offsets.and levels

theorem ne_nil (c : ServiceCurve) : c.points ≠ [] := by
  have several := c.integrity.1.1
  intro empty
  rw [empty] at several
  simp at several

theorem first_lt_last {points : List (ℚ × ℚ)} {first : ℚ × ℚ} (some' : points ≠ [])
    (rising : Rising points) (several : 2 ≤ points.length) (starts : points.head? = some first) :
    first.1 < (points.getLast some').1 := by
  cases points with
  | nil => exact absurd rfl some'
  | cons p rest =>
    rw [List.head?_cons, Option.some.injEq] at starts
    have more : rest ≠ [] := by
      rintro rfl
      simp at several
    rw [List.getLast_cons more, ← starts]
    exact ((List.pairwise_cons.mp rising).1 _ (List.getLast_mem more)).1

def curve (c : ServiceCurve) : Curve ℚ where
  points := c.points
  rising := c.rising
  first := (0, 0)
  last := c.points.getLast c.ne_nil
  starts := c.integrity.2.1
  ends := List.getLast?_eq_some_getLast c.ne_nil
  extended := first_lt_last c.ne_nil c.rising c.integrity.1.1 c.integrity.2.1

end ServiceCurve

def stage (arrival service : ServiceCurve) : Lag.Pair ℚ := ⟨arrival.curve, service.curve, rfl⟩

section pieces
variable {c : ServiceCurve} {time level : ℚ}

theorem interpolate_eq (inside : time ∈ c.curve.span) :
    interpolate c.points time = some (c.curve.value time) := by
  unfold interpolate
  rw [show c.points.head? = some c.curve.first from c.curve.starts,
    show c.points.getLast? = some c.curve.last from c.curve.ends]
  simp only [not_lt.mpr inside.1, not_lt.mpr inside.2, or_self, if_false]
  obtain ⟨l, r, member, after, before⟩ := Curve.covered inside
  cases found : (segments c.points).find? fun s => decide (s.1.1 ≤ time ∧ time ≤ s.2.1) with
  | none =>
    have := List.find?_eq_none.mp found _ member
    simp [after, before] at this
  | some segment =>
    obtain ⟨left, right⟩ := segment
    have listed : (left, right) ∈ c.curve.segments := List.mem_of_find?_eq_some found
    have holds := List.find?_some found
    simp only [decide_eq_true_eq] at holds
    have later := Curve.later listed
    simp only [later.ne', or_false]
    rw [Curve.value_line listed holds.1 holds.2]
    split
    · rename_i same
      rw [same, line_left]
    · rfl

theorem crossSegment_eq {segment : (ℚ × ℚ) × (ℚ × ℚ)} (listed : segment ∈ c.curve.segments) :
    (∀ found, crossSegment c.points level time segment = some found →
      IsLeast {u | max segment.1.1 time ≤ u ∧ u ≤ segment.2.1 ∧ level ≤ c.curve.value u} found) ∧
    (crossSegment c.points level time segment = none →
      ∀ u, max segment.1.1 time ≤ u → u ≤ segment.2.1 → c.curve.value u < level) := by
  obtain ⟨left, right⟩ := segment
  have later := Curve.later listed
  unfold crossSegment
  dsimp only
  by_cases skipped : right.1 < time ∨ right.2 < level
  · rw [if_pos skipped]
    refine ⟨fun found same => (by cases same), fun _ u from' until' => ?_⟩
    obtain past | low := skipped
    · exact absurd ((le_max_right _ _).trans (from'.trans until')) (not_le.mpr past)
    · have start := Curve.segment_span listed ((le_max_left _ _).trans from') until'
      have finish := Curve.segment_span listed later.le le_rfl
      exact (Curve.value_mono start finish until').trans_lt (by rwa [Curve.value_right listed])
  · rw [if_neg skipped]
    rw [not_or, not_lt, not_lt] at skipped
    have before : max left.1 time ≤ right.1 := max_le later.le skipped.1
    have start := Curve.segment_span listed (le_max_left _ _) before
    rw [interpolate_eq start]
    dsimp only
    by_cases reached : level ≤ c.curve.value (max left.1 time)
    · rw [if_pos reached]
      refine ⟨fun found same => ?_, fun same => (by cases same)⟩
      obtain rfl := Option.some.inj same
      exact ⟨⟨le_rfl, before, reached⟩, fun u holds => holds.1⟩
    · rw [if_neg reached]
      rw [not_le] at reached
      have short : c.curve.value (max left.1 time) < right.2 := reached.trans_le skipped.2
      rw [if_neg short.ne']
      refine ⟨fun found same => ?_, fun same => (by cases same)⟩
      have onLine := Curve.value_line listed (le_max_left left.1 time) before
      have rises : left.2 < right.2 := by
        refine lt_of_le_of_lt ?_ short
        rw [onLine, ← line_left (l := left) (r := right)]
        exact line_mono later (Curve.up listed) (le_max_left _ _)
      have early : max left.1 time < right.1 := by
        rw [← line_lt_iff later rises, line_right later, ← onLine]
        exact short
      have restart := time_restart (v := level) later rises early
      rw [← onLine] at restart
      have found_eq : Polyline.time left right level = found :=
        restart.symm.trans (Option.some.inj same)
      rw [← found_eq]
      have passed : max left.1 time ≤ Polyline.time left right level := by
        rw [le_time_iff later rises, ← onLine]
        exact reached.le
      have inside' : Polyline.time left right level ≤ right.1 := by
        rw [time_le_iff later rises, line_right later]
        exact skipped.2
      have same' := Curve.value_line listed ((le_max_left left.1 time).trans passed) inside'
      rw [line_time later rises] at same'
      refine ⟨⟨passed, inside', same'.ge⟩, ?_⟩
      rintro u ⟨from', until', reaches⟩
      rw [Curve.value_line listed ((le_max_left _ _).trans from') until'] at reaches
      exact (time_le_iff later rises).mpr reaches

theorem inverseCrossing_none (above : c.curve.last.2 < level) :
    inverseCrossing c.points level time = none := by
  unfold inverseCrossing
  rw [show c.points.getLast? = some c.curve.last from c.curve.ends]
  simp [above]

theorem inverseCrossing_eq (inside : time ∈ c.curve.span) (below : level ≤ c.curve.last.2) :
    ∃ u, inverseCrossing c.points level time = some u ∧ c.curve.Reached level time u := by
  unfold inverseCrossing
  rw [show c.points.getLast? = some c.curve.last from c.curve.ends]
  simp only [not_lt.mpr below, if_false]
  cases found : (segments c.points).findSome? (crossSegment c.points level time) with
  | none =>
    have every := List.findSome?_eq_none_iff.mp found
    obtain ⟨l, r, member, after, before⟩ :=
      c.curve.covered ⟨c.curve.extended.le, le_rfl⟩
    have := (crossSegment_eq member).2 (every _ member) c.curve.last.1
      (max_le after inside.2) before
    rw [Curve.value_point c.curve.last_mem] at this
    exact absurd below (not_le.mpr this)
  | some u =>
    refine ⟨u, rfl, ?_⟩
    obtain ⟨earlier, segment, rest, split, crossed, passed⟩ := List.findSome?_eq_some_iff.mp found
    have listed : segment ∈ c.curve.segments := by
      change segment ∈ segments c.points
      rw [split]
      simp
    obtain ⟨⟨from', until', reaches⟩, least⟩ := (crossSegment_eq listed).1 u crossed
    refine ⟨⟨(le_max_right _ _).trans from',
      until'.trans (Curve.le_last (mem_points listed).2).1, reaches⟩, ?_⟩
    rintro x ⟨after, before, reaches'⟩
    have span : x ∈ c.curve.span := ⟨inside.1.trans after, before⟩
    obtain ⟨l, r, member, after', before'⟩ := Curve.covered span
    have order := c.rising.segments
    rw [split, List.pairwise_append] at order
    have where' : (l, r) ∈ earlier ++ segment :: rest := split ▸ member
    obtain first | here | next := by simpa [List.mem_append, List.mem_cons] using where'
    · have := (crossSegment_eq member).2 (passed _ first) x (max_le after' after) before'
      exact absurd reaches' (not_le.mpr this)
    · exact least ⟨max_le (here ▸ after') after, here ▸ before', reaches'⟩
    · have := (List.pairwise_cons.mp order.2.1).1 _ next
      exact until'.trans (this.1.trans after')

theorem inverseCrossing_iff (inside : time ∈ c.curve.span) {u : ℚ} :
    inverseCrossing c.points level time = some u ↔ c.curve.Reached level time u := by
  obtain below | above := le_or_gt level c.curve.last.2
  · obtain ⟨u', found, reached⟩ := inverseCrossing_eq inside below
    rw [found, Option.some.injEq]
    refine ⟨fun same => same ▸ reached, fun reached' => reached.unique reached'⟩
  · rw [inverseCrossing_none above]
    refine ⟨fun none' => (by cases none'), fun reached => ?_⟩
    obtain ⟨⟨from', until', reaches⟩, -⟩ := reached
    have := Curve.value_mono (c := c.curve) ⟨inside.1.trans from', until'⟩
      ⟨c.curve.extended.le, le_rfl⟩ until'
    rw [Curve.value_point c.curve.last_mem] at this
    exact absurd (reaches.trans this) (not_le.mpr above)

end pieces

section stages
variable {arrival service : ServiceCurve} {time : ℚ}

theorem mem_candidateTimes : time ∈ candidateTimes arrival.points service.points ↔
    ((∃ point ∈ arrival.points ++ service.points, point.1 = time) ∧
      0 ≤ time ∧ time ≤ (stage arrival service).horizon) ∨
    ∃ point ∈ service.points, inverseCrossing arrival.points point.2 0 = some time ∧
      time ≤ (stage arrival service).horizon := by
  have horizon : commonHorizon arrival.points service.points =
      some (stage arrival service).horizon := by
    unfold commonHorizon
    rw [show arrival.points.getLast? = some arrival.curve.last from arrival.curve.ends,
      show service.points.getLast? = some service.curve.last from service.curve.ends]
    rfl
  unfold candidateTimes
  rw [horizon]
  simp only [List.mem_insertionSort, List.mem_dedup, List.mem_append, List.mem_filter,
    List.mem_map, List.mem_filterMap, Option.filter_eq_some_iff, decide_eq_true_eq]

theorem horizon_nonneg : 0 ≤ (stage arrival service).horizon :=
  le_min arrival.curve.extended.le service.curve.extended.le

theorem breakpoint_listed {point : ℚ × ℚ} (member : point ∈ arrival.points ++ service.points)
    (inTime : point.1 ≤ (stage arrival service).horizon) :
    point.1 ∈ candidateTimes arrival.points service.points := by
  refine mem_candidateTimes.mpr (.inl ⟨⟨point, member, rfl⟩, ?_, inTime⟩)
  obtain member | member := List.mem_append.mp member
  · exact (Curve.first_le (c := arrival.curve) member).1
  · exact (Curve.first_le (c := service.curve) member).1

theorem horizon_listed : (stage arrival service).horizon ∈
    candidateTimes arrival.points service.points := by
  obtain ⟨least, -⟩ | ⟨least, -⟩ := min_cases arrival.curve.last.1 service.curve.last.1
  · have same : (stage arrival service).horizon = arrival.curve.last.1 := least
    rw [same]
    exact breakpoint_listed (List.mem_append_left _ arrival.curve.last_mem) same.ge
  · have same : (stage arrival service).horizon = service.curve.last.1 := least
    rw [same]
    exact breakpoint_listed (List.mem_append_right _ service.curve.last_mem) same.ge

theorem crossing_listed {point : ℚ × ℚ} (member : point ∈ service.points)
    (reached : arrival.curve.Reached point.2 0 time)
    (inTime : time ≤ (stage arrival service).horizon) :
    time ∈ candidateTimes arrival.points service.points :=
  mem_candidateTimes.mpr (.inr ⟨point, member,
    (inverseCrossing_iff ⟨le_rfl, arrival.curve.extended.le⟩).mpr reached, inTime⟩)

theorem listed_window (member : time ∈ candidateTimes arrival.points service.points) :
    time ∈ (stage arrival service).window := by
  obtain ⟨-, after, before⟩ | ⟨point, -, found, before⟩ := mem_candidateTimes.mp member
  · exact ⟨after, before⟩
  · have reached := (inverseCrossing_iff ⟨le_rfl, arrival.curve.extended.le⟩).mp found
    exact ⟨reached.1.1, before⟩

/-- What the loop knows after the times of `done`. -/
structure Measured (p : Lag.Pair ℚ) (done : List ℚ) (found : Deviations) : Prop where
  served : found.exhaustive = true → ∀ x ∈ done, p.ahead.value x ≤ p.behind.last.2
  gap : ∀ x ∈ done, p.ahead.value x - p.behind.value x ≤ found.backlog
  gapAt : found.backlog = 0 ∨ ∃ x ∈ done, found.backlog = p.ahead.value x - p.behind.value x
  wait : ∀ x ∈ done, ∀ u, p.Wait x u → u ≤ found.delay
  waitAt : found.delay = 0 ∨ ∃ x ∈ done, p.Wait x found.delay

theorem Measured.step {done : List ℚ} {found : Deviations}
    (before : Measured (stage arrival service) done found)
    (inside : time ∈ (stage arrival service).window) :
    Measured (stage arrival service) (done ++ [time])
      (found.measure arrival.points service.points time) := by
  obtain ⟨served, gap, gapAt, wait, waitAt⟩ := before
  have inside' : time ∈ service.curve.span := Lag.window_behind inside
  unfold Deviations.measure
  rw [interpolate_eq (Lag.window_ahead inside : time ∈ arrival.curve.span),
    interpolate_eq inside']
  dsimp only
  set level := arrival.curve.value time with atTime
  have gaps : ∀ x ∈ done ++ [time], (stage arrival service).ahead.value x -
      (stage arrival service).behind.value x ≤
        max found.backlog (level - service.curve.value time) := by
    intro x member
    obtain member | same := List.mem_append.mp member
    · exact (gap x member).trans (le_max_left _ _)
    · rw [List.mem_singleton.mp same]
      exact le_max_right _ _
  have gapsAt : max found.backlog (level - service.curve.value time) = 0 ∨
      ∃ x ∈ done ++ [time], max found.backlog (level - service.curve.value time) =
        (stage arrival service).ahead.value x - (stage arrival service).behind.value x := by
    obtain ⟨same, -⟩ | ⟨same, -⟩ := max_cases found.backlog (level - service.curve.value time)
    · rw [same]
      exact gapAt.imp id fun ⟨x, member, here⟩ => ⟨x, List.mem_append_left _ member, here⟩
    · rw [same]
      exact .inr ⟨time, by simp, rfl⟩
  by_cases below : level ≤ service.curve.last.2
  · obtain ⟨u, crossed, reached⟩ := inverseCrossing_eq inside' below
    have next : (stage arrival service).Wait time (u - time) :=
      Lag.wait_iff.mpr (by rwa [add_sub_cancel])
    rw [crossed]
    refine ⟨fun all x member => ?_, gaps, gapsAt, fun x member w holds => ?_, ?_⟩
    · obtain member | same := List.mem_append.mp member
      · exact served all x member
      · rw [List.mem_singleton.mp same]
        exact below
    · obtain member | same := List.mem_append.mp member
      · exact (wait x member w holds).trans (le_max_left _ _)
      · rw [List.mem_singleton.mp same] at holds
        exact (holds.unique next).le.trans (le_max_right _ _)
    · obtain ⟨same, -⟩ | ⟨same, -⟩ := max_cases found.delay (u - time)
      · simp only [same]
        exact waitAt.imp id fun ⟨x, member, here⟩ => ⟨x, List.mem_append_left _ member, here⟩
      · simp only [same]
        exact .inr ⟨time, by simp, next⟩
  · rw [not_le] at below
    rw [inverseCrossing_none below]
    refine ⟨fun all => (by cases all), gaps, gapsAt, fun x member w holds => ?_, ?_⟩
    · obtain member | same := List.mem_append.mp member
      · exact wait x member w holds
      · rw [List.mem_singleton.mp same] at holds
        exact absurd (Lag.wait_level holds inside) (not_le.mpr below)
    · exact waitAt.imp id fun ⟨x, member, here⟩ => ⟨x, List.mem_append_left _ member, here⟩

theorem measured {times : List ℚ} (inside : ∀ x ∈ times, x ∈ (stage arrival service).window) :
    Measured (stage arrival service) times
      (times.foldl (fun found time => found.measure arrival.points service.points time)
        ⟨0, 0, true⟩) := by
  induction times using List.reverseRecOn with
  | nil => exact ⟨by simp, by simp, .inl rfl, by simp, .inl rfl⟩
  | append_singleton times x ih =>
    rw [List.foldl_append]
    exact (ih fun y member => inside y (by simp [member])).step (inside x (by simp))

end stages

/-- The bounds are the least upper bounds of what they bound, and every bit of work is
served. -/
structure CurveBounds.Exact (arrival service : ServiceCurve) (backlog delay : ℚ) : Prop where
  highest : IsLUB (stage arrival service).gaps backlog
  longest : IsLUB (stage arrival service).waits delay
  served : ∀ t ∈ (stage arrival service).window, ∃ u, (stage arrival service).Wait t u ∧ u ≤ delay

/-- The backlog is exact. The delay is exact unless the work that arrives just after a service
plateau's level has been passed waits longer than all other work. -/
theorem curveBounds_exact_iff (arrival service : ServiceCurve) (budget after : Budget)
    (backlog delay : ℚ)
    (found : deterministicCurveBounds arrival.points service.points budget =
      .ok ⟨backlog, some delay, true⟩ after) :
    CurveBounds.Exact arrival service backlog delay ↔
      ∀ t q, (stage arrival service).Leaves t q →
        ∃ u ∈ (stage arrival service).waits, q - t ≤ u := by
  set p := stage arrival service with both
  set times := candidateTimes arrival.points service.points with listed
  set final := deviations arrival.points service.points with loop
  have same := yields_deterministicCurveBounds _ _ _ _ _ found
  rw [← loop, Deviations.bounds, CurveBounds.mk.injEq] at same
  obtain ⟨backlogIs, delayIs, all⟩ := same
  rw [← all, if_pos rfl, Option.some.injEq] at delayIs
  have known : Measured p times final := measured fun x => listed_window
  obtain ⟨served, gap, gapAt, wait, waitAt⟩ := known
  have enough : p.ahead.value p.horizon ≤ p.behind.last.2 := served all.symm _ horizon_listed
  have finish : p.horizon ∈ p.window := ⟨horizon_nonneg, le_rfl⟩
  have start : (0 : ℚ) ∈ p.window := ⟨le_rfl, horizon_nonneg⟩
  have starts : p.ahead.value 0 = 0 ∧ p.behind.value 0 = 0 :=
    ⟨Curve.value_point p.ahead.first_mem, Curve.value_point p.behind.first_mem⟩
  have breakpoints : ∀ x ∈ p.ahead.points, x.1 ≤ p.horizon → x.1 ∈ times :=
    fun x member => breakpoint_listed (List.mem_append_left _ member)
  have breakpoints' : ∀ x ∈ p.behind.points, x.1 ≤ p.horizon → x.1 ∈ times :=
    fun x member => breakpoint_listed (List.mem_append_right _ member)
  have attained : delay ∈ p.waits := by
    rw [delayIs]
    obtain none' | ⟨x, member, waits⟩ := waitAt
    · rw [none']
      exact ⟨0, start, Lag.wait_zero start (starts.1.trans starts.2.symm).le⟩
    · exact ⟨x, listed_window member, waits⟩
  have exactGap : IsLUB p.gaps backlog := by
    rw [backlogIs]
    constructor
    · rintro b ⟨t, inside, rfl⟩
      exact (Lag.gap_le (fun x member _ => gap x member) breakpoints breakpoints' inside).trans
        (le_max_left _ _)
    · intro b upper
      have zero : 0 ≤ b := upper ⟨0, start, by rw [starts.1, starts.2, sub_zero]⟩
      refine max_le ?_ zero
      obtain none' | ⟨x, member, here⟩ := gapAt
      · rwa [none']
      · exact upper ⟨x, listed_window member, here⟩
  have exactDelay := Lag.isLUB_waits_iff (p := p) (List.finite_toSet times) enough
    (fun t member u waits => delayIs ▸ wait t member u waits) attained breakpoints horizon_listed
    fun x member t reached inTime => crossing_listed member reached inTime
  rw [← exactDelay]
  constructor
  · exact fun bounds => bounds.longest
  · refine fun least => ⟨exactGap, least, fun t inside => ?_⟩
    obtain ⟨u, waits⟩ := Lag.exists_wait enough inside
    exact ⟨u, waits, least.1 ⟨t, inside, waits⟩⟩

def steadyArrival : ServiceCurve := ⟨[(0, 0), (1, 2), (2, 4)], by decide +kernel⟩

def slowService : ServiceCurve := ⟨[(0, 0), (1, 1), (4, 4)], by decide +kernel⟩

def unhurried : Budget := .ofOperations maxOperations fun _ => false

theorem curveBounds_exact_sample : ∃ after,
    deterministicCurveBounds steadyArrival.points slowService.points unhurried =
      .ok ⟨2, some 2, true⟩ after ∧
    (CurveBounds.Exact steadyArrival slowService 2 2 ↔
      ∀ t q, (stage steadyArrival slowService).Leaves t q →
        ∃ u ∈ (stage steadyArrival slowService).waits, q - t ≤ u) := by
  obtain ⟨after, run⟩ := deterministicCurveBounds_run steadyArrival.points slowService.points
    (show _ ≤ unhurried.remaining by decide +kernel) fun _ => rfl
  rw [show (deviations steadyArrival.points slowService.points).bounds = ⟨2, some 2, true⟩ by
    decide +kernel] at run
  exact ⟨after, run, curveBounds_exact_iff steadyArrival slowService unhurried after 2 2 run⟩

def pausedService : ServiceCurve :=
  ⟨[(0, 0), (1, 1), (5, 1), (6, 10), (10, 10)], by decide +kernel⟩

def straightArrival : ServiceCurve := ⟨[(0, 0), (10, 10)], by decide +kernel⟩

/-- Service pauses at one unit of work from time 1 to time 5. What arrives at time 1 is served
at once, what arrives just after it waits for almost 4. -/
theorem curveBounds_short : ∃ after,
    deterministicCurveBounds straightArrival.points pausedService.points unhurried =
      .ok ⟨4, some (4 / 9), true⟩ after ∧
    ¬ CurveBounds.Exact straightArrival pausedService 4 (4 / 9) := by
  obtain ⟨after, run⟩ := deterministicCurveBounds_run straightArrival.points pausedService.points
    (show _ ≤ unhurried.remaining by decide +kernel) fun _ => rfl
  rw [show (deviations straightArrival.points pausedService.points).bounds =
    ⟨4, some (4 / 9), true⟩ by decide +kernel] at run
  refine ⟨after, run, fun bounds => ?_⟩
  have late : (11 / 10 : ℚ) ∈ (stage straightArrival pausedService).window := by
    constructor <;> decide +kernel
  obtain ⟨u, ⟨⟨nonneg, until', reaches⟩, -⟩, short⟩ := bounds.served _ late
  have paused : pausedService.curve.value (11 / 10 + u) ≤ pausedService.curve.value 5 := by
    refine Curve.value_mono ⟨?_, until'⟩ (by constructor <;> decide +kernel) (by linarith)
    change (0 : ℚ) ≤ _
    linarith
  have level : pausedService.curve.value 5 < straightArrival.curve.value (11 / 10) := by
    decide +kernel
  exact absurd reaches (not_le.mpr (paused.trans_lt level))

end CollectivePhaseControl
