import Mathlib

/-! Nondecreasing piecewise-linear curves, given by their breakpoints, and how far one lags
behind another. A curve takes every level between its ends, and a level for the first time
on a rising segment, where the time is again an affine function of the level. -/
namespace Polyline

abbrev Point (K : Type*) := K × K

def segments {K : Type*} (points : List (Point K)) : List (Point K × Point K) :=
  points.zip points.tail

section order
variable {K : Type*} [LinearOrder K]

/-- Times strictly increase, levels do not decrease. -/
def Rising (points : List (Point K)) : Prop :=
  points.Pairwise fun p q => p.1 < q.1 ∧ p.2 ≤ q.2

variable {points : List (Point K)} {l r : Point K} {t v : K}

omit [LinearOrder K] in
theorem segments_cons (p q : Point K) (rest : List (Point K)) :
    segments (p :: q :: rest) = (p, q) :: segments (q :: rest) := rfl

omit [LinearOrder K] in
theorem mem_points (member : (l, r) ∈ segments points) : l ∈ points ∧ r ∈ points :=
  ⟨(List.of_mem_zip member).1, List.mem_of_mem_tail (List.of_mem_zip member).2⟩

theorem Rising.first_le {p q : Point K} {rest : List (Point K)} (rising : Rising (p :: rest))
    (member : q ∈ p :: rest) : p.1 ≤ q.1 ∧ p.2 ≤ q.2 := by
  rw [List.mem_cons] at member
  obtain same | member := member
  · rw [same]
    exact ⟨le_rfl, le_rfl⟩
  · have after := (List.pairwise_cons.mp rising).1 q member
    exact ⟨after.1.le, after.2⟩

theorem Rising.segment (rising : Rising points) (member : (l, r) ∈ segments points) :
    l.1 < r.1 ∧ l.2 ≤ r.2 := by
  induction points with
  | nil => simp [segments] at member
  | cons p rest ih =>
    cases rest with
    | nil => simp [segments] at member
    | cons q rest =>
      obtain ⟨head, tail⟩ := List.pairwise_cons.mp rising
      rw [segments_cons, List.mem_cons] at member
      obtain same | member := member
      · cases same
        exact head _ List.mem_cons_self
      · exact ih tail member

theorem Rising.segments (rising : Rising points) :
    (segments points).Pairwise fun s s' => s.2.1 ≤ s'.1.1 ∧ s.2.2 ≤ s'.1.2 := by
  induction points with
  | nil => simp [Polyline.segments]
  | cons p rest ih =>
    cases rest with
    | nil => simp [Polyline.segments]
    | cons q rest =>
      obtain ⟨-, tail⟩ := List.pairwise_cons.mp rising
      rw [segments_cons, List.pairwise_cons]
      exact ⟨fun s member => Rising.first_le tail (mem_points member).1, ih tail⟩

omit [LinearOrder K] in
theorem exists_adjacent {p : Point K} (several : 2 ≤ points.length) (member : p ∈ points) :
    ∃ q, (p, q) ∈ segments points ∨ (q, p) ∈ segments points := by
  induction points with
  | nil => simp at member
  | cons p' rest ih =>
    cases rest with
    | nil => simp at several
    | cons q rest =>
      rw [segments_cons]
      obtain same | member := List.mem_cons.mp member
      · exact ⟨q, .inl (by simp [same])⟩
      · cases rest with
        | nil => exact ⟨p', .inr (by simp [List.mem_singleton.mp member])⟩
        | cons q' rest =>
          obtain ⟨q'', adjacent⟩ := ih (by simp) member
          exact ⟨q'', adjacent.imp (List.mem_cons_of_mem _) (List.mem_cons_of_mem _)⟩

theorem exists_segment {p last : Point K} {rest : List (Point K)}
    (ends : (p :: rest).getLast? = some last) (after : p.1 < t) (before : t ≤ last.1) :
    ∃ l r, (l, r) ∈ segments (p :: rest) ∧ l.1 < t ∧ t ≤ r.1 := by
  induction rest generalizing p with
  | nil =>
    have : p = last := by simpa using ends
    rw [this] at after
    exact absurd after (not_lt.mpr before)
  | cons q rest ih =>
    by_cases inside : t ≤ q.1
    · exact ⟨p, q, by simp [segments_cons], after, inside⟩
    · obtain ⟨l, r, member, later, earlier⟩ := ih (by simpa using ends) (not_le.mp inside)
      exact ⟨l, r, by simp [segments_cons, member], later, earlier⟩

theorem exists_rise {p last : Point K} {rest : List (Point K)}
    (ends : (p :: rest).getLast? = some last) (above : p.2 < v) (below : v ≤ last.2) :
    ∃ l r, (l, r) ∈ segments (p :: rest) ∧ l.2 < v ∧ v ≤ r.2 := by
  induction rest generalizing p with
  | nil =>
    have : p = last := by simpa using ends
    rw [this] at above
    exact absurd above (not_lt.mpr below)
  | cons q rest ih =>
    by_cases inside : v ≤ q.2
    · exact ⟨p, q, by simp [segments_cons], above, inside⟩
    · obtain ⟨l, r, member, higher, lower⟩ := ih (by simpa using ends) (not_le.mp inside)
      exact ⟨l, r, by simp [segments_cons, member], higher, lower⟩

end order

section lines
variable {K : Type*} [Field K]

def line (l r : Point K) (t : K) : K := l.2 + (r.2 - l.2) * (t - l.1) / (r.1 - l.1)

def time (l r : Point K) (v : K) : K := l.1 + (v - l.2) * (r.1 - l.1) / (r.2 - l.2)

variable {l r : Point K} {t u v : K}

@[simp] theorem line_left : line l r l.1 = l.2 := by simp [line]

variable [LinearOrder K] [IsStrictOrderedRing K]

omit [IsStrictOrderedRing K] in
theorem line_right (later : l.1 < r.1) : line l r r.1 = r.2 := by
  have : r.1 - l.1 ≠ 0 := sub_ne_zero.mpr later.ne'
  simp [line, this]

theorem line_mono (later : l.1 < r.1) (up : l.2 ≤ r.2) (le : t ≤ u) :
    line l r t ≤ line l r u := by
  have : 0 ≤ r.1 - l.1 := sub_nonneg.mpr later.le
  have : 0 ≤ r.2 - l.2 := sub_nonneg.mpr up
  unfold line
  gcongr

theorem line_strict (later : l.1 < r.1) (up : l.2 < r.2) (lt : t < u) :
    line l r t < line l r u := by
  have : 0 < r.1 - l.1 := sub_pos.mpr later
  have : 0 < r.2 - l.2 := sub_pos.mpr up
  unfold line
  gcongr

omit [IsStrictOrderedRing K] in
theorem line_time (later : l.1 < r.1) (up : l.2 < r.2) : line l r (time l r v) = v := by
  have : r.1 - l.1 ≠ 0 := sub_ne_zero.mpr later.ne'
  have : r.2 - l.2 ≠ 0 := sub_ne_zero.mpr up.ne'
  unfold line time
  field_simp
  ring

theorem line_lt_iff (later : l.1 < r.1) (up : l.2 < r.2) :
    line l r t < line l r u ↔ t < u :=
  (show StrictMono (line l r) from fun _ _ lt => line_strict later up lt).lt_iff_lt

theorem line_le_iff (later : l.1 < r.1) (up : l.2 < r.2) :
    line l r t ≤ line l r u ↔ t ≤ u :=
  (show StrictMono (line l r) from fun _ _ lt => line_strict later up lt).le_iff_le

theorem time_le_iff (later : l.1 < r.1) (up : l.2 < r.2) : time l r v ≤ t ↔ v ≤ line l r t := by
  rw [← line_le_iff later up, line_time later up]

theorem lt_time_iff (later : l.1 < r.1) (up : l.2 < r.2) : t < time l r v ↔ line l r t < v := by
  rw [← line_lt_iff later up, line_time later up]

theorem le_time_iff (later : l.1 < r.1) (up : l.2 < r.2) : t ≤ time l r v ↔ line l r t ≤ v := by
  rw [← line_le_iff later up, line_time later up]

omit [IsStrictOrderedRing K] in
theorem time_restart (later : l.1 < r.1) (up : l.2 < r.2) (before : t < r.1) :
    time (t, line l r t) r v = time l r v := by
  have : r.1 - l.1 ≠ 0 := sub_ne_zero.mpr later.ne'
  have : r.2 - l.2 ≠ 0 := sub_ne_zero.mpr up.ne'
  have : r.1 - t ≠ 0 := sub_ne_zero.mpr before.ne'
  have left : r.2 - line l r t = (r.2 - l.2) * (r.1 - t) / (r.1 - l.1) := by
    unfold line
    field_simp
    ring
  unfold time
  rw [left]
  unfold line
  field_simp
  ring

end lines

def value {K : Type*} [Field K] [LinearOrder K] : List (Point K) → K → K
  | [], _ => 0
  | [p], _ => p.2
  | p :: q :: rest, t => if t ≤ q.1 then line p q t else value (q :: rest) t

theorem Rising.value_line {K : Type*} [Field K] [LinearOrder K] {points : List (Point K)}
    {l r : Point K} {t : K} (rising : Rising points) (member : (l, r) ∈ Polyline.segments points)
    (after : l.1 ≤ t) (before : t ≤ r.1) : value points t = line l r t := by
  induction points with
  | nil => simp [Polyline.segments] at member
  | cons p rest ih =>
    cases rest with
    | nil => simp [Polyline.segments] at member
    | cons q rest =>
      obtain ⟨head, tail⟩ := List.pairwise_cons.mp rising
      rw [segments_cons, List.mem_cons] at member
      obtain same | member := member
      · cases same
        simp [value, before]
      · have next := ih tail member
        by_cases inside : t ≤ q.1
        · -- the time is where the two segments meet
          have met : l = q := by
            obtain same | member := List.mem_cons.mp (mem_points member).1
            · exact same
            · have := (List.pairwise_cons.mp tail).1 l member
              exact absurd (after.trans inside) (not_le.mpr this.1)
          have same : t = q.1 := le_antisymm inside (met ▸ after)
          rw [value, if_pos inside, same, line_right (head q List.mem_cons_self).1, ← met,
            line_left]
        · rw [value, if_neg inside]
          exact next

/-- A curve that is defined for some length of time. -/
structure Curve (K : Type*) [LinearOrder K] where
  points : List (Point K)
  rising : Rising points
  first : Point K
  last : Point K
  starts : points.head? = some first
  ends : points.getLast? = some last
  extended : first.1 < last.1

namespace Curve
variable {K : Type*} [Field K] [LinearOrder K] [IsStrictOrderedRing K] {c : Curve K}
  {l r : Point K} {t u v : K}

def segments (c : Curve K) : List (Point K × Point K) := Polyline.segments c.points

def value (c : Curve K) (t : K) : K := Polyline.value c.points t

def span (c : Curve K) : Set K := Set.Icc c.first.1 c.last.1

omit [Field K] [IsStrictOrderedRing K] in
theorem points_eq (c : Curve K) : ∃ rest, c.points = c.first :: rest := by
  have := c.starts
  cases listed : c.points with
  | nil => simp [listed] at this
  | cons p rest =>
    rw [listed, List.head?_cons] at this
    exact ⟨rest, by rw [Option.some.inj this]⟩

omit [Field K] [IsStrictOrderedRing K] in
theorem later (member : (l, r) ∈ c.segments) : l.1 < r.1 := (c.rising.segment member).1

omit [Field K] [IsStrictOrderedRing K] in
theorem up (member : (l, r) ∈ c.segments) : l.2 ≤ r.2 := (c.rising.segment member).2

omit [Field K] [IsStrictOrderedRing K] in
theorem first_le {p : Point K} (member : p ∈ c.points) :
    c.first.1 ≤ p.1 ∧ c.first.2 ≤ p.2 := by
  obtain ⟨rest, listed⟩ := c.points_eq
  have rising := c.rising
  rw [listed] at member rising
  exact rising.first_le member

omit [Field K] [IsStrictOrderedRing K] in
theorem le_last {p : Point K} (member : p ∈ c.points) : p.1 ≤ c.last.1 ∧ p.2 ≤ c.last.2 := by
  have ends := c.ends
  rw [List.getLast?_eq_some_iff] at ends
  obtain ⟨before, listed⟩ := ends
  have rising := c.rising
  rw [listed] at member rising
  obtain member | same := List.mem_append.mp member
  · have after := (List.pairwise_append.mp rising).2.2 p member c.last (by simp)
    exact ⟨after.1.le, after.2⟩
  · rw [List.mem_singleton.mp same]
    exact ⟨le_rfl, le_rfl⟩

omit [Field K] [IsStrictOrderedRing K] in
theorem ordered {l' r' : Point K} (member : (l, r) ∈ c.segments) (member' : (l', r') ∈ c.segments) :
    (l, r) = (l', r') ∨ (r.1 ≤ l'.1 ∧ r.2 ≤ l'.2) ∨ r'.1 ≤ l.1 ∧ r'.2 ≤ l.2 := by
  have sorted := c.rising.segments
  exact List.Pairwise.forall_of_forall_of_flip
    (R := fun s s' : Point K × Point K => s = s' ∨ (s.2.1 ≤ s'.1.1 ∧ s.2.2 ≤ s'.1.2) ∨
      s'.2.1 ≤ s.1.1 ∧ s'.2.2 ≤ s.1.2) (fun _ _ => .inl rfl)
    (sorted.imp fun earlier => .inr (.inl earlier))
    (sorted.imp fun earlier => .inr (.inr earlier)) member member'

omit [Field K] [IsStrictOrderedRing K] in
theorem exists_segment (after : c.first.1 < t) (before : t ≤ c.last.1) :
    ∃ l r, (l, r) ∈ c.segments ∧ l.1 < t ∧ t ≤ r.1 := by
  obtain ⟨rest, listed⟩ := c.points_eq
  have ends := c.ends
  unfold segments
  rw [listed] at ends ⊢
  exact Polyline.exists_segment ends after before

omit [Field K] [IsStrictOrderedRing K] in
theorem exists_rise (above : c.first.2 < v) (below : v ≤ c.last.2) :
    ∃ l r, (l, r) ∈ c.segments ∧ l.2 < v ∧ v ≤ r.2 := by
  obtain ⟨rest, listed⟩ := c.points_eq
  have ends := c.ends
  unfold segments
  rw [listed] at ends ⊢
  exact Polyline.exists_rise ends above below

omit [IsStrictOrderedRing K] in
theorem value_line (member : (l, r) ∈ c.segments) (after : l.1 ≤ t) (before : t ≤ r.1) :
    c.value t = line l r t := c.rising.value_line member after before

omit [IsStrictOrderedRing K] in
theorem value_left (member : (l, r) ∈ c.segments) : c.value l.1 = l.2 := by
  rw [value_line member le_rfl (later member).le, line_left]

omit [IsStrictOrderedRing K] in
theorem value_right (member : (l, r) ∈ c.segments) : c.value r.1 = r.2 := by
  rw [value_line member (later member).le le_rfl, line_right (later member)]

omit [Field K] [IsStrictOrderedRing K] in
theorem adjacent {p : Point K} (member : p ∈ c.points) :
    ∃ q, (p, q) ∈ c.segments ∨ (q, p) ∈ c.segments := by
  refine exists_adjacent ?_ member
  have ends := c.ends
  have extended := c.extended
  obtain ⟨rest, listed⟩ := c.points_eq
  rw [listed] at ends ⊢
  cases rest with
  | nil =>
    rw [List.getLast?_singleton, Option.some.injEq] at ends
    rw [ends] at extended
    exact absurd extended (lt_irrefl _)
  | cons q rest => simp

omit [IsStrictOrderedRing K] in
theorem value_point {p : Point K} (member : p ∈ c.points) : c.value p.1 = p.2 := by
  obtain ⟨q, left | right⟩ := adjacent member
  · exact value_left left
  · exact value_right right

omit [Field K] [IsStrictOrderedRing K] in
theorem first_mem : c.first ∈ c.points := List.mem_of_head? c.starts

omit [Field K] [IsStrictOrderedRing K] in
theorem last_mem : c.last ∈ c.points := List.mem_of_getLast? c.ends

omit [Field K] [IsStrictOrderedRing K] in
theorem covered (inside : t ∈ c.span) : ∃ l r, (l, r) ∈ c.segments ∧ l.1 ≤ t ∧ t ≤ r.1 := by
  obtain after | same := inside.1.lt_or_eq
  · obtain ⟨l, r, member, after, before⟩ := exists_segment after inside.2
    exact ⟨l, r, member, after.le, before⟩
  · obtain ⟨q, left | right⟩ := adjacent c.first_mem
    · exact ⟨c.first, q, left, same.le, same ▸ (later left).le⟩
    · exact absurd (later right) (not_lt.mpr (first_le (mem_points right).1).1)

theorem value_mono (start : t ∈ c.span) (finish : u ∈ c.span) (le : t ≤ u) :
    c.value t ≤ c.value u := by
  obtain ⟨l, r, member, after, before⟩ := covered start
  obtain ⟨l', r', member', after', before'⟩ := covered finish
  rw [value_line member after before, value_line member' after' before']
  obtain same | earlier | earlier := ordered member member'
  · cases same
    exact line_mono (later member) (up member) le
  · calc line l r t ≤ line l r r.1 := line_mono (later member) (up member) before
      _ = r.2 := line_right (later member)
      _ ≤ l'.2 := earlier.2
      _ = line l' r' l'.1 := line_left.symm
      _ ≤ line l' r' u := line_mono (later member') (up member') after'
  · -- both times are where the segments meet
    have same : t = u := le_antisymm le ((before'.trans earlier.1).trans after)
    rw [← value_line member after before, ← value_line member' after' before', same]

omit [Field K] [IsStrictOrderedRing K] in
theorem segment_span (member : (l, r) ∈ c.segments) (after : l.1 ≤ t) (before : t ≤ r.1) :
    t ∈ c.span :=
  ⟨(first_le (mem_points member).1).1.trans after, before.trans (le_last (mem_points member).2).1⟩

theorem value_lt (member : (l, r) ∈ c.segments) (rises : l.2 < r.2) (after : l.1 ≤ t)
    (before : t < r.1) (finish : u ∈ c.span) (lt : t < u) : c.value t < c.value u := by
  have inside : min u r.1 ∈ c.span :=
    segment_span member (after.trans (le_min lt.le before.le)) (min_le_right _ _)
  calc c.value t = line l r t := value_line member after before.le
    _ < line l r (min u r.1) := line_strict (later member) rises (lt_min lt before)
    _ = c.value (min u r.1) :=
      (value_line member (after.trans (le_min lt.le before.le)) (min_le_right _ _)).symm
    _ ≤ c.value u := value_mono inside finish (min_le_left _ _)

/-- From `t` on the level is reached first at `u`. -/
def Reached (c : Curve K) (v t u : K) : Prop :=
  IsLeast {u | t ≤ u ∧ u ≤ c.last.1 ∧ v ≤ c.value u} u

theorem value_time (member : (l, r) ∈ c.segments) (above : l.2 < v) (below : v ≤ r.2) :
    l.1 < time l r v ∧ time l r v ≤ r.1 ∧ c.value (time l r v) = v := by
  have rises := above.trans_le below
  have after : l.1 < time l r v := by
    rw [lt_time_iff (later member) rises, line_left]
    exact above
  have before : time l r v ≤ r.1 := by
    rw [time_le_iff (later member) rises, line_right (later member)]
    exact below
  exact ⟨after, before,
    (value_line member after.le before).trans (line_time (later member) rises)⟩

theorem reached_time (member : (l, r) ∈ c.segments) (above : l.2 < v) (below : v ≤ r.2)
    (start : t ∈ c.span) (before : t ≤ time l r v) : c.Reached v t (time l r v) := by
  have rises := above.trans_le below
  obtain ⟨after, inside, same⟩ := value_time member above below
  refine ⟨⟨before, inside.trans (le_last (mem_points member).2).1, same.ge⟩, ?_⟩
  rintro u ⟨from', until', reaches⟩
  rw [time_le_iff (later member) rises]
  have span : u ∈ c.span := ⟨start.1.trans from', until'⟩
  by_cases early : u ≤ l.1
  · have := value_mono span (segment_span member le_rfl (later member).le) early
    rw [value_left member] at this
    exact absurd (reaches.trans this) (not_le.mpr above)
  · by_cases late : u ≤ r.1
    · rwa [value_line member (not_le.mp early).le late] at reaches
    · have := line_mono (later member) (up member) (not_le.mp late).le
      rw [line_right (later member)] at this
      exact below.trans this

theorem exists_reached (start : t ∈ c.span) (short : c.value t < v) (below : v ≤ c.last.2) :
    ∃ l r, (l, r) ∈ c.segments ∧ l.2 < v ∧ v ≤ r.2 ∧ c.Reached v t (time l r v) := by
  have above : c.first.2 < v := by
    rw [← value_point c.first_mem]
    exact (value_mono ⟨le_rfl, c.extended.le⟩ start start.1).trans_lt short
  obtain ⟨l, r, member, higher, lower⟩ := exists_rise above below
  obtain ⟨after, before, same⟩ := value_time member higher lower
  have late : t ≤ time l r v := by
    by_contra early
    have := value_mono (segment_span member after.le before) start (not_le.mp early).le
    rw [same] at this
    exact absurd this (not_le.mpr short)
  exact ⟨l, r, member, higher, lower, reached_time member higher lower start late⟩

/-- On a rising segment the curve stays up to a level until the segment ends or the level is
reached. -/
theorem exists_later {h w : K} (member : (l, r) ∈ c.segments) (rises : l.2 < r.2) (after : l.1 < t)
    (before : t ≤ r.1) (until' : t ≤ h) (below : c.value t ≤ w) :
    ∃ u, t ≤ u ∧ u ≤ r.1 ∧ u ≤ h ∧ c.value u ≤ w ∧
      (u = min r.1 h ∨ c.Reached w c.first.1 u) := by
  have le : t ≤ min r.1 h := le_min before until'
  have level : c.value (min r.1 h) = line l r (min r.1 h) :=
    value_line member (after.le.trans le) (min_le_left _ _)
  obtain enough | passed := le_or_gt (c.value (min r.1 h)) w
  · exact ⟨_, le, min_le_left _ _, min_le_right _ _, enough, .inl rfl⟩
  · rw [value_line member after.le before] at below
    rw [level] at passed
    have above : l.2 < w := by
      refine lt_of_lt_of_le ?_ below
      rw [← line_left (l := l) (r := r)]
      exact line_strict (later member) rises after
    have under : w ≤ r.2 := by
      refine passed.le.trans ?_
      rw [← line_right (later member)]
      exact line_mono (later member) (up member) (min_le_left _ _)
    obtain ⟨after', before', same⟩ := value_time member above under
    have first : c.first.1 ≤ time l r w := (first_le (mem_points member).1).1.trans after'.le
    refine ⟨time l r w, (le_time_iff (later member) rises).mpr below, before', ?_, same.le,
      .inr (reached_time member above under ⟨le_rfl, c.extended.le⟩ first)⟩
    exact ((time_le_iff (later member) rises).mpr passed.le).trans (min_le_right _ _)

/-- Going back on a rising segment the curve stays down to a level until the segment begins or
the level is reached. -/
theorem exists_earlier {w : K} (member : (l, r) ∈ c.segments) (rises : l.2 < r.2)
    (after : l.1 < t) (before : t ≤ r.1) (above : w < c.value t) :
    ∃ u, l.1 ≤ u ∧ u < t ∧ w ≤ c.value u ∧ (u = l.1 ∨ c.Reached w c.first.1 u) := by
  obtain enough | passed := le_or_gt w l.2
  · exact ⟨l.1, le_rfl, after, by rwa [value_left member], .inl rfl⟩
  · rw [value_line member after.le before] at above
    have under : w ≤ r.2 := by
      refine above.le.trans ?_
      rw [← line_right (later member)]
      exact line_mono (later member) (up member) before
    obtain ⟨after', before', same⟩ := value_time member passed under
    have first : c.first.1 ≤ time l r w := (first_le (mem_points member).1).1.trans after'.le
    refine ⟨time l r w, after'.le, ?_, same.ge,
      .inr (reached_time member passed under ⟨le_rfl, c.extended.le⟩ first)⟩
    rw [← line_lt_iff (later member) rises, line_time (later member) rises]
    exact above

end Curve

namespace Lag
variable {K : Type*} [Field K] [LinearOrder K] [IsStrictOrderedRing K]

/-- Two curves that set out from one point, and the time for which both are defined. -/
structure Pair (K : Type*) [LinearOrder K] where
  ahead : Curve K
  behind : Curve K
  together : ahead.first = behind.first

variable (p : Pair K)

namespace Pair

def horizon : K := min p.ahead.last.1 p.behind.last.1

def window : Set K := Set.Icc p.ahead.first.1 p.horizon

def gaps : Set K := {b | ∃ t ∈ p.window, b = p.ahead.value t - p.behind.value t}

/-- The least time after which the curve behind is as high as the other is at `t`. -/
def Wait (t u : K) : Prop :=
  IsLeast {u | 0 ≤ u ∧ t + u ≤ p.behind.last.1 ∧ p.ahead.value t ≤ p.behind.value (t + u)} u

def waits : Set K := {u | ∃ t ∈ p.window, p.Wait t u}

/-- At `t` the curve ahead leaves a level for good, which the other one leaves for good at
`q`. -/
def Leaves (t q : K) : Prop :=
  t ∈ p.window ∧ t < p.horizon ∧ q ∈ p.behind.span ∧ p.ahead.value t = p.behind.value q ∧
    (∀ u ∈ p.window, t < u → p.ahead.value t < p.ahead.value u) ∧
      ∀ s ∈ p.behind.span, q < s → p.behind.value q < p.behind.value s

end Pair

variable {p} {t u v q : K}

omit [Field K] [IsStrictOrderedRing K] in
theorem window_ahead (inside : t ∈ p.window) : t ∈ p.ahead.span :=
  ⟨inside.1, inside.2.trans (min_le_left _ _)⟩

omit [Field K] [IsStrictOrderedRing K] in
theorem window_behind (inside : t ∈ p.window) : t ∈ p.behind.span :=
  ⟨p.together ▸ inside.1, inside.2.trans (min_le_right _ _)⟩

theorem wait_iff : p.Wait t u ↔ p.behind.Reached (p.ahead.value t) t (t + u) := by
  constructor
  · rintro ⟨⟨nonneg, until', reaches⟩, least⟩
    refine ⟨⟨le_add_of_nonneg_right nonneg, until', reaches⟩, ?_⟩
    rintro s ⟨from', until'', reaches'⟩
    have := least (a := s - t)
      ⟨sub_nonneg.mpr from', by rwa [add_sub_cancel], by rwa [add_sub_cancel]⟩
    linarith
  · rintro ⟨⟨from', until', reaches⟩, least⟩
    refine ⟨⟨le_add_iff_nonneg_right t |>.mp from', until', reaches⟩, ?_⟩
    rintro u' ⟨nonneg, until'', reaches'⟩
    have := least (a := t + u') ⟨le_add_of_nonneg_right nonneg, until'', reaches'⟩
    linarith

omit [IsStrictOrderedRing K] in
theorem wait_zero (inside : t ∈ p.window) (served : p.ahead.value t ≤ p.behind.value t) :
    p.Wait t 0 := by
  have span := window_behind inside
  refine ⟨⟨le_rfl, by simpa using span.2, by simpa using served⟩, ?_⟩
  rintro u ⟨nonneg, -⟩
  exact nonneg

theorem wait_level (wait : p.Wait t u) (inside : t ∈ p.window) :
    p.ahead.value t ≤ p.behind.last.2 := by
  obtain ⟨⟨nonneg, until', reaches⟩, -⟩ := wait
  have later : t + u ∈ p.behind.span :=
    ⟨(window_behind inside).1.trans (le_add_of_nonneg_right nonneg), until'⟩
  rw [← Curve.value_point p.behind.last_mem]
  exact reaches.trans (Curve.value_mono later ⟨p.behind.extended.le, le_rfl⟩ until')

theorem wait_rise (inside : t ∈ p.window) (wait : p.Wait t u) (waits : 0 < u) :
    ∃ l r, (l, r) ∈ p.behind.segments ∧ l.2 < p.ahead.value t ∧ p.ahead.value t ≤ r.2 ∧
      u = time l r (p.ahead.value t) - t := by
  have span := window_behind inside
  have below := wait_level wait inside
  have short : p.behind.value t < p.ahead.value t := by
    by_contra enough
    rw [not_lt] at enough
    exact absurd (wait.2 ⟨le_rfl, by simpa using span.2, by simpa using enough⟩)
      (not_le.mpr waits)
  obtain ⟨l, r, member, higher, lower, reached⟩ := Curve.exists_reached span short below
  have := reached.unique (wait_iff.mp wait)
  exact ⟨l, r, member, higher, lower, by rw [this]; ring⟩

/-- An affine function between two times is at most what it is at the later one, or below
what it is at the earlier one. -/
theorem affine_le {f : K → K} {m k α β : K} (affine : ∀ x, f x = m * x + k) (lt : α < t)
    (le : t ≤ β) : f t ≤ f β ∨ f t < f α := by
  simp only [affine]
  obtain up | down := le_or_gt 0 m
  · exact .inl (by gcongr)
  · exact .inr (by linarith [mul_lt_mul_of_neg_left lt down])

/-- Among times that include every breakpoint and every crossing of a breakpoint's level no
wait is longer than `d`. Then a longer wait is exceeded by what is left of a level from the
moment the curve ahead leaves it. -/
theorem wait_le {times : Set K} {d : K} (nonneg : 0 ≤ d)
    (longest : ∀ t ∈ times, ∀ u, p.Wait t u → u ≤ d)
    (breakpoints : ∀ x ∈ p.ahead.points, x.1 ≤ p.horizon → x.1 ∈ times)
    (finish : p.horizon ∈ times)
    (crossings : ∀ x ∈ p.behind.points, ∀ t, p.ahead.Reached x.2 p.ahead.first.1 t →
      t ≤ p.horizon → t ∈ times)
    (inside : t ∈ p.window) (wait : p.Wait t u) :
    u ≤ d ∨ ∃ α ∈ times, ∃ x ∈ p.behind.points, p.Leaves α x.1 ∧ u < x.1 - α := by
  obtain over' | waits := le_or_gt u 0
  · exact .inl (over'.trans nonneg)
  obtain ⟨s, s', rise, above, below, length⟩ := wait_rise inside wait waits
  have rises := above.trans_le below
  have later : p.ahead.first.1 < t := by
    refine inside.1.lt_of_ne fun same => ?_
    rw [← same, Curve.value_point p.ahead.first_mem, p.together] at above
    exact absurd (Curve.first_le (mem_points rise).1).2 (not_le.mpr above)
  obtain ⟨a, a', run, after, before⟩ := Curve.exists_segment later (window_ahead inside).2
  have level : ∀ x, a.1 ≤ x → x ≤ a'.1 → p.ahead.value x = line a a' x :=
    fun x => Curve.value_line run
  -- what a time of the list says about the rising segment it is served on
  have served : ∀ x ∈ times, x ∈ p.window → s.2 < p.ahead.value x → p.ahead.value x ≤ s'.2 →
      time s s' (p.ahead.value x) - x ≤ d := by
    intro x listed span higher lower
    obtain late | early := le_or_gt x (time s s' (p.ahead.value x))
    · have reached := Curve.reached_time rise higher lower (window_behind span) late
      exact longest x listed _ (wait_iff.mpr (by rwa [add_sub_cancel]))
    · exact (sub_neg.mpr early).le.trans nonneg
  have begins : a.1 ∈ times ∧ a.1 ∈ p.window :=
    ⟨breakpoints a (mem_points run).1 (after.le.trans inside.2),
      (Curve.first_le (mem_points run).1).1, after.le.trans inside.2⟩
  obtain flat | climbs := (Curve.up run).eq_or_lt
  · have same : p.ahead.value a.1 = p.ahead.value t := by
      rw [level a.1 le_rfl (Curve.later run).le, level t after.le before]
      simp [line, flat]
    have := served a.1 begins.1 begins.2 (by rwa [same]) (by rwa [same])
    rw [same] at this
    exact .inl (by linarith)
  -- the wait is affine where the curve ahead is on one segment and is served on another
  obtain ⟨β, le, until', inTime, under, listedβ⟩ :=
    Curve.exists_later run climbs after before inside.2 below
  obtain ⟨α, from', lt, over', listedα⟩ := Curve.exists_earlier run climbs after before above
  have listedβ : β ∈ times := by
    obtain same | reached := listedβ
    · obtain ⟨least, -⟩ | ⟨least, -⟩ := min_cases a'.1 p.horizon
      · rw [same, least]
        exact breakpoints a' (mem_points run).2 (by rw [← least]; exact min_le_right _ _)
      · rwa [same, least]
    · exact crossings s' (mem_points rise).2 β reached inTime
  have spanα : α ∈ p.window := ⟨begins.2.1.trans from', lt.le.trans inside.2⟩
  have spanβ : β ∈ p.window := ⟨inside.1.trans le, inTime⟩
  have listedα : α ∈ times := by
    obtain same | reached := listedα
    · rw [same]
      exact begins.1
    · exact crossings s (mem_points rise).1 α reached spanα.2
  have affine : ∀ x, time s s' (line a a' x) - x =
      ((a'.2 - a.2) / (a'.1 - a.1) * ((s'.1 - s.1) / (s'.2 - s.2)) - 1) * x +
        (s.1 + (a.2 - s.2) * (s'.1 - s.1) / (s'.2 - s.2) -
          (a'.2 - a.2) / (a'.1 - a.1) * ((s'.1 - s.1) / (s'.2 - s.2)) * a.1) := by
    intro x
    unfold time line
    ring
  rw [level t after.le before] at length
  obtain small | small := affine_le affine lt le
  · have := served β listedβ spanβ
      (above.trans_le (Curve.value_mono (window_ahead inside) (window_ahead spanβ) le)) under
    rw [level β (after.le.trans le) until'] at this
    exact .inl (by linarith)
  · obtain same | more := over'.eq_or_lt
    · refine .inr ⟨α, listedα, s, (mem_points rise).1, ?_, ?_⟩
      · refine ⟨spanα, lt.trans_le inside.2,
          Curve.segment_span rise le_rfl (Curve.later rise).le,
          by rw [← same, Curve.value_left rise], fun x span next => ?_, fun x span next => ?_⟩
        · exact Curve.value_lt run climbs from' (lt.trans_le before) (window_ahead span) next
        · exact Curve.value_lt rise rises le_rfl (Curve.later rise) span next
      · rw [← level α from' (lt.le.trans before), ← same] at small
        simp only [time, sub_self, zero_mul, zero_div, add_zero] at small
        rw [length]
        exact small
    · have := served α listedα spanα more
        ((Curve.value_mono (window_ahead spanα) (window_ahead inside) lt.le).trans below)
      rw [level α from' (lt.le.trans before)] at this
      exact .inl (by linarith)

theorem exists_wait (enough : p.ahead.value p.horizon ≤ p.behind.last.2) (inside : t ∈ p.window) :
    ∃ u, p.Wait t u := by
  have span := window_behind inside
  obtain served | short := le_or_gt (p.ahead.value t) (p.behind.value t)
  · exact ⟨0, wait_zero inside served⟩
  · have finish : p.horizon ∈ p.window := ⟨inside.1.trans inside.2, le_rfl⟩
    have below : p.ahead.value t ≤ p.behind.last.2 :=
      (Curve.value_mono (window_ahead inside) (window_ahead finish) inside.2).trans enough
    obtain ⟨l, r, -, -, -, reached⟩ := Curve.exists_reached span short below
    exact ⟨time l r (p.ahead.value t) - t, wait_iff.mpr (by rwa [add_sub_cancel])⟩

theorem leaves_le (enough : p.ahead.value p.horizon ≤ p.behind.last.2) (leaves : p.Leaves t q)
    {d : K} (upper : ∀ u ∈ p.waits, u ≤ d) : q - t ≤ d := by
  obtain ⟨inside, early, span, same, rises, -⟩ := leaves
  refine le_of_forall_pos_le_add fun ε positive => ?_
  obtain ⟨x, after, before⟩ := exists_between (lt_min early (lt_add_of_pos_right t positive))
  have next : x ∈ p.window := ⟨inside.1.trans after.le, (before.trans_le (min_le_left _ _)).le⟩
  obtain ⟨u, wait⟩ := exists_wait enough next
  have short := upper u ⟨x, next, wait⟩
  have late : q ≤ x + u := by
    by_contra soon
    obtain ⟨⟨nonneg, until', reaches⟩, -⟩ := wait
    have span' : x + u ∈ p.behind.span :=
      ⟨(window_behind next).1.trans (le_add_of_nonneg_right nonneg), until'⟩
    have := Curve.value_mono span' span (not_le.mp soon).le
    rw [← same] at this
    exact absurd (reaches.trans this) (not_le.mpr (rises x next after))
  have := before.trans_le (min_le_right _ _)
  linarith

/-- The longest wait among finitely many times is the bound on all waits exactly when for
each level that is left some wait is as long as what is left of the level. -/
theorem isLUB_waits_iff {times : Set K} (finite : times.Finite) {d : K}
    (enough : p.ahead.value p.horizon ≤ p.behind.last.2)
    (longest : ∀ t ∈ times, ∀ u, p.Wait t u → u ≤ d)
    (attained : d ∈ p.waits)
    (breakpoints : ∀ x ∈ p.ahead.points, x.1 ≤ p.horizon → x.1 ∈ times)
    (finish : p.horizon ∈ times)
    (crossings : ∀ x ∈ p.behind.points, ∀ t, p.ahead.Reached x.2 p.ahead.first.1 t →
      t ≤ p.horizon → t ∈ times) :
    IsLUB p.waits d ↔ ∀ t q, p.Leaves t q → ∃ u ∈ p.waits, q - t ≤ u := by
  constructor
  · rintro ⟨upper, -⟩ t q leaves
    exact ⟨d, attained, leaves_le enough leaves fun u member => upper member⟩
  · intro served
    refine ⟨?_, fun b upper => upper attained⟩
    have nonneg : 0 ≤ d := by
      obtain ⟨t, -, ⟨⟨nonneg, -⟩, -⟩⟩ := attained
      exact nonneg
    -- the levels that are left with most to go
    let left : Set (K × Point K) :=
      {y | y.1 ∈ times ∧ y.2 ∈ p.behind.points ∧ p.Leaves y.1 y.2.1}
    have bounded : left.Finite :=
      (finite.prod (List.finite_toSet p.behind.points)).subset fun y member =>
        ⟨member.1, member.2.1⟩
    rintro u ⟨t, inside, wait⟩
    by_contra longer
    rw [not_le] at longer
    obtain short | ⟨α, listed, x, point, leaves, less⟩ :=
      wait_le nonneg longest breakpoints finish crossings inside wait
    · exact absurd short (not_le.mpr longer)
    · obtain ⟨y, ⟨listed', point', leaves'⟩, most⟩ :=
        left.exists_max_image (fun y => y.2.1 - y.1) bounded ⟨(α, x), listed, point, leaves⟩
      obtain ⟨w, ⟨t', inside', wait'⟩, as_long⟩ := served _ _ leaves'
      have first := most (α, x) ⟨listed, point, leaves⟩
      obtain short | ⟨α', listed'', x', point'', leaves'', less'⟩ :=
        wait_le nonneg longest breakpoints finish crossings inside' wait'
      · simp only at first
        linarith
      · have second := most (α', x') ⟨listed'', point'', leaves''⟩
        simp only at first second
        linarith

theorem gap_le {times : Set K} {b : K}
    (highest : ∀ t ∈ times, t ∈ p.window → p.ahead.value t - p.behind.value t ≤ b)
    (breakpoints : ∀ x ∈ p.ahead.points, x.1 ≤ p.horizon → x.1 ∈ times)
    (breakpoints' : ∀ x ∈ p.behind.points, x.1 ≤ p.horizon → x.1 ∈ times)
    (inside : t ∈ p.window) : p.ahead.value t - p.behind.value t ≤ b := by
  obtain same | later := inside.1.eq_or_lt
  · exact highest t (same ▸ breakpoints _ p.ahead.first_mem (same ▸ inside.2)) inside
  obtain ⟨a, a', run, after, before⟩ := Curve.exists_segment later (window_ahead inside).2
  obtain ⟨s, s', run', after', before'⟩ :=
    Curve.exists_segment (p.together ▸ later) (window_behind inside).2
  have affine : ∀ x, line a a' x - line s s' x =
      ((a'.2 - a.2) / (a'.1 - a.1) - (s'.2 - s.2) / (s'.1 - s.1)) * x +
        (a.2 - (a'.2 - a.2) / (a'.1 - a.1) * a.1 -
          (s.2 - (s'.2 - s.2) / (s'.1 - s.1) * s.1)) := by
    intro x
    unfold line
    ring
  have at' : ∀ x ∈ times, x ∈ p.window → max a.1 s.1 ≤ x → x ≤ min a'.1 s'.1 →
      line a a' x - line s s' x ≤ b := by
    intro x listed span from' until'
    have := highest x listed span
    rwa [Curve.value_line run ((le_max_left _ _).trans from') (until'.trans (min_le_left _ _)),
      Curve.value_line run' ((le_max_right _ _).trans from') (until'.trans (min_le_right _ _))]
      at this
  have meets : max a.1 s.1 < min a'.1 s'.1 := by
    exact (max_lt after after').trans_le (le_min before before')
  have finish : min a'.1 s'.1 ≤ p.horizon :=
    min_le_min (Curve.le_last (mem_points run).2).1 (Curve.le_last (mem_points run').2).1
  have startTime : max a.1 s.1 ∈ times := by
    obtain ⟨is', -⟩ | ⟨is', -⟩ := max_cases a.1 s.1
    · rw [is'] at meets ⊢
      exact breakpoints a (mem_points run).1 (meets.le.trans finish)
    · rw [is'] at meets ⊢
      exact breakpoints' s (mem_points run').1 (meets.le.trans finish)
  have endTime : min a'.1 s'.1 ∈ times := by
    obtain ⟨is', -⟩ | ⟨is', -⟩ := min_cases a'.1 s'.1
    · rw [is'] at finish ⊢
      exact breakpoints a' (mem_points run).2 finish
    · rw [is'] at finish ⊢
      exact breakpoints' s' (mem_points run').2 finish
  have opens : p.ahead.first.1 ≤ max a.1 s.1 :=
    (Curve.first_le (mem_points run).1).1.trans (le_max_left _ _)
  rw [Curve.value_line run after.le before, Curve.value_line run' after'.le before']
  obtain small | small := affine_le affine (max_lt after after') (le_min before before')
  · exact small.trans (at' _ endTime ⟨opens.trans meets.le, finish⟩ meets.le le_rfl)
  · exact small.le.trans (at' _ startTime ⟨opens, meets.le.trans finish⟩ le_rfl meets.le)

end Lag

end Polyline
