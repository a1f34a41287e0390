import Mathlib

/-! Systems of labels that fire once each and add to a set. Firing may disable labels as well
as enable them. If no enabled label is ever disabled by another, every way to fire until
nothing is enabled fires the same labels. A worklist is one such way, for each order. -/
namespace Firing

structure System (τ σ : Type*) where
  labels : List τ
  enabled : τ → Finset σ → Bool
  outputs : τ → Finset σ
  base : Finset σ

namespace System
variable {τ σ : Type*} [DecidableEq σ] (m : System τ σ)

def reached (fired : List τ) : Finset σ := fired.foldl (fun s t => s ∪ m.outputs t) m.base

inductive Fires : List τ → Prop
  | start : Fires []
  | next {fired : List τ} {t : τ} : Fires fired → t ∈ m.labels → t ∉ fired →
      m.enabled t (m.reached fired) = true → Fires (fired ++ [t])

/-- No label that could fire is disabled by the firing of another. -/
def Persistent : Prop :=
  ∀ fired t u, m.Fires fired → t ∈ m.labels → t ∉ fired → m.enabled t (m.reached fired) = true →
    u ∈ m.labels → u ∉ fired → m.enabled u (m.reached fired) = true → t ≠ u →
    m.enabled t (m.reached (fired ++ [u])) = true

def Complete (fired : List τ) : Prop :=
  ∀ t ∈ m.labels, t ∉ fired → m.enabled t (m.reached fired) = false

variable {m} {fired ts us : List τ} {t u : τ} {x : σ}

@[simp] theorem reached_nil : m.reached [] = m.base := rfl

@[simp] theorem reached_concat : m.reached (fired ++ [t]) = m.reached fired ∪ m.outputs t := by
  rw [reached, List.foldl_concat]
  rfl

theorem mem_reached : x ∈ m.reached fired ↔ x ∈ m.base ∨ ∃ t ∈ fired, x ∈ m.outputs t := by
  induction fired using List.reverseRecOn with
  | nil => simp
  | append_singleton fired t ih =>
    rw [reached_concat, Finset.mem_union, ih, or_assoc]
    simp only [List.mem_append, List.mem_singleton, or_and_right, exists_or, exists_eq_left]

theorem reached_congr (same : ∀ t, t ∈ ts ↔ t ∈ us) : m.reached ts = m.reached us := by
  ext x
  simp only [mem_reached, same]

theorem reached_mono (more : ts ⊆ us) : m.reached ts ⊆ m.reached us := by
  intro x member
  rw [mem_reached] at member ⊢
  exact member.imp_right fun ⟨t, listed, output⟩ => ⟨t, more listed, output⟩

theorem Fires.nodup (fires : m.Fires fired) : fired.Nodup := by
  induction fires with
  | start => exact List.nodup_nil
  | next _ _ fresh _ ih =>
    rw [← List.concat_eq_append]
    exact ih.concat fresh

theorem Fires.subset (fires : m.Fires fired) : fired ⊆ m.labels := by
  induction fires with
  | start => exact List.nil_subset _
  | next _ listed _ _ ih =>
    exact List.append_subset.mpr ⟨ih, fun u member => by rwa [List.mem_singleton.mp member]⟩

theorem Fires.next_iff : m.Fires (fired ++ [t]) ↔
    m.Fires fired ∧ t ∈ m.labels ∧ t ∉ fired ∧ m.enabled t (m.reached fired) = true := by
  constructor
  · intro fires
    generalize equal : fired ++ [t] = whole at fires
    cases fires with
    | start => simp at equal
    | next fires listed fresh enabled =>
      obtain ⟨rfl, rfl⟩ := List.append_singleton_inj.mp equal
      exact ⟨fires, listed, fresh, enabled⟩
  · exact fun ⟨fires, listed, fresh, enabled⟩ => .next fires listed fresh enabled

theorem Fires.left (fires : m.Fires (ts ++ us)) : m.Fires ts := by
  induction us using List.reverseRecOn with
  | nil => simpa using fires
  | append_singleton us u ih =>
    rw [← List.append_assoc, next_iff] at fires
    exact ih fires.1

theorem Persistent.still (persistent : m.Persistent) (fires : m.Fires (ts ++ us))
    (listed : t ∈ m.labels) (fresh : t ∉ ts ++ us)
    (enabled : m.enabled t (m.reached ts) = true) :
    m.enabled t (m.reached (ts ++ us)) = true := by
  induction us using List.reverseRecOn with
  | nil => simpa using enabled
  | append_singleton us u ih =>
    rw [← List.append_assoc] at fires fresh ⊢
    obtain ⟨before, listed', fresh', enabled'⟩ := Fires.next_iff.mp fires
    have absent : t ∉ ts ++ us := fun member => fresh (List.mem_append_left _ member)
    refine persistent _ t u before listed absent (ih before absent) listed' fresh' enabled' ?_
    rintro rfl
    exact fresh (List.mem_append_right _ (List.mem_singleton_self _))

variable [DecidableEq τ]

theorem Persistent.merge (persistent : m.Persistent) : ∀ {us ts : List τ}, m.Fires us →
    m.Fires ts → m.Fires (us ++ ts.filter (· ∉ us)) := by
  -- By induction on the two lengths together, since either may have to go first.
  suffices both : ∀ n, ∀ us ts : List τ, us.length + ts.length = n → m.Fires us → m.Fires ts →
      m.Fires (us ++ ts.filter (· ∉ us)) from
    fun {us ts} first second => both _ us ts rfl first second
  intro n
  induction n using Nat.strong_induction_on with
  | h n ih =>
    intro us ts size first second
    rcases List.eq_nil_or_concat' ts with rfl | ⟨ts, t, rfl⟩
    · simpa using first
    · obtain ⟨earlier, listed, fresh, enabled⟩ := Fires.next_iff.mp second
      rw [List.length_append, List.length_singleton] at size
      have here := ih (us.length + ts.length) (by omega) us ts rfl first earlier
      rw [List.filter_append]
      by_cases known : t ∈ us
      · simpa [known] using here
      · have other := ih (ts.length + us.length) (by omega) ts us rfl earlier first
        have absent : t ∉ ts ++ us.filter (· ∉ ts) := by
          simp [fresh, known]
        have later := persistent.still other listed absent enabled
        have same : ∀ u, u ∈ ts ++ us.filter (· ∉ ts) ↔ u ∈ us ++ ts.filter (· ∉ us) := by
          intro u
          simp only [List.mem_append, List.mem_filter, decide_eq_true_eq]
          tauto
        rw [reached_congr same] at later
        have last : [t].filter (· ∉ us) = [t] := by simp [known]
        rw [last, ← List.append_assoc]
        refine .next here listed ?_ later
        rw [← same]
        exact absent

theorem Persistent.subset_complete (persistent : m.Persistent) (fires : m.Fires ts)
    (complete : m.Complete ts) (other : m.Fires us) : us ⊆ ts := by
  have merged := persistent.merge fires other
  have none : us.filter (· ∉ ts) = [] := by
    cases rest : us.filter (· ∉ ts) with
    | nil => rfl
    | cons u rest' =>
      rw [rest, List.append_cons] at merged
      obtain ⟨-, listed, fresh, enabled⟩ := Fires.next_iff.mp merged.left
      rw [complete u listed fresh] at enabled
      cases enabled
  intro u member
  by_contra absent
  exact List.filter_eq_nil_iff.mp none u member (by simpa using absent)

variable (m) in
/-- Take labels from a queue and fire those that can; what brings something new sends
all labels that have not fired to the queue again, in their order. -/
def work (order : List τ) : ℕ → List τ → List τ → Option (List τ)
  | 0, _, _ => none
  | _ + 1, [], fired => some fired
  | n + 1, t :: queue, fired =>
    if t ∈ fired ∨ m.enabled t (m.reached fired) = false then work order n queue fired
    else if m.outputs t ⊆ m.reached fired then work order n queue (fired ++ [t])
    else work order n (queue ++ order.filter (· ∉ fired ++ [t])) (fired ++ [t])

/-- What the worklist keeps: it fires labels of the system, and what is neither fired nor
queued is disabled. -/
structure Working (m : System τ σ) (queue fired : List τ) : Prop where
  fires : m.Fires fired
  queued : queue ⊆ m.labels
  dropped : ∀ t ∈ m.labels, t ∉ fired → t ∉ queue → m.enabled t (m.reached fired) = false

variable {order queue result : List τ} {n : ℕ}

omit [DecidableEq τ] in
theorem Working.next (working : Working m (t :: queue) fired) (fresh : t ∉ fired)
    (enabled : m.enabled t (m.reached fired) = true) : m.Fires (fired ++ [t]) :=
  .next working.fires (working.queued List.mem_cons_self) fresh enabled

omit [DecidableEq τ] in
theorem Working.rest (working : Working m (t :: queue) fired) : queue ⊆ m.labels :=
  List.Subset.trans (List.subset_cons_self _ _) working.queued

theorem Working.skip (working : Working m (t :: queue) fired)
    (skipped : t ∈ fired ∨ m.enabled t (m.reached fired) = false) : Working m queue fired := by
  refine ⟨working.fires, working.rest, fun u listed fresh absent => ?_⟩
  by_cases same : u = t
  · subst same
    exact skipped.resolve_left fresh
  · exact working.dropped u listed fresh (by simp [same, absent])

omit [DecidableEq τ] in
theorem Working.idle (working : Working m (t :: queue) fired) (fresh : t ∉ fired)
    (enabled : m.enabled t (m.reached fired) = true) (idle : m.outputs t ⊆ m.reached fired) :
    Working m queue (fired ++ [t]) := by
  have same : m.reached (fired ++ [t]) = m.reached fired := by
    rw [reached_concat, Finset.union_eq_left.mpr idle]
  refine ⟨working.next fresh enabled, working.rest, fun u listed fresh absent => ?_⟩
  rw [List.mem_append, List.mem_singleton, not_or] at fresh
  rw [same]
  exact working.dropped u listed fresh.1 (by simp [fresh.2, absent])

theorem Working.productive (working : Working m (t :: queue) fired)
    (all : ∀ t, t ∈ order ↔ t ∈ m.labels) (fresh : t ∉ fired)
    (enabled : m.enabled t (m.reached fired) = true) :
    Working m (queue ++ order.filter (· ∉ fired ++ [t])) (fired ++ [t]) := by
  refine ⟨working.next fresh enabled, ?_, fun u listed fresh absent => ?_⟩
  · refine List.append_subset.mpr ⟨working.rest, fun u member => ?_⟩
    exact (all u).mp (List.mem_filter.mp member).1
  · refine absurd (List.mem_append_right _ (List.mem_filter.mpr ⟨(all u).mpr listed, ?_⟩)) absent
    simpa using fresh

theorem unfired_lt (fresh : t ∉ fired) (listed : t ∈ order) :
    (order.filter (· ∉ fired ++ [t])).length < (order.filter (· ∉ fired)).length := by
  have split : order.filter (· ∉ fired ++ [t]) = (order.filter (· ∉ fired)).filter (· ≠ t) := by
    rw [List.filter_filter]
    refine List.filter_congr fun u _ => ?_
    simp [and_comm]
  rw [split]
  refine List.length_filter_lt_length_iff_exists.mpr ⟨t, ?_, by simp⟩
  simpa using ⟨listed, fresh⟩

theorem work_complete (all : ∀ t, t ∈ order ↔ t ∈ m.labels) :
    ∀ {n : ℕ} {queue fired : List τ}, Working m queue fired →
      m.work order n queue fired = some result → m.Fires result ∧ m.Complete result := by
  intro n
  induction n with
  | zero => intro queue fired _ run; cases run
  | succ n ih =>
    intro queue fired working run
    cases queue with
    | nil =>
      rw [work] at run
      cases run
      exact ⟨working.fires, fun t listed fresh => working.dropped t listed fresh List.not_mem_nil⟩
    | cons t queue =>
      rw [work] at run
      split_ifs at run with skipped idle
      · exact ih (working.skip skipped) run
      · rw [not_or, Bool.not_eq_false] at skipped
        exact ih (working.idle skipped.1 skipped.2 idle) run
      · rw [not_or, Bool.not_eq_false] at skipped
        exact ih (working.productive all skipped.1 skipped.2) run

theorem work_total (all : ∀ t, t ∈ order ↔ t ∈ m.labels) :
    ∀ {n : ℕ} {queue fired : List τ}, Working m queue fired →
      queue.length + (order.filter (· ∉ fired)).length * order.length < n →
      ∃ result, m.work order n queue fired = some result := by
  intro n
  induction n with
  | zero => intro queue fired _ few; omega
  | succ n ih =>
    intro queue fired working few
    cases queue with
    | nil => exact ⟨fired, rfl⟩
    | cons t queue =>
      rw [List.length_cons] at few
      rw [work]
      split_ifs with skipped idle
      · exact ih (working.skip skipped) (by omega)
      · rw [not_or, Bool.not_eq_false] at skipped
        refine ih (working.idle skipped.1 skipped.2 idle) ?_
        have fewer := unfired_lt skipped.1 ((all t).mpr (working.queued List.mem_cons_self))
        nlinarith
      · rw [not_or, Bool.not_eq_false] at skipped
        refine ih (working.productive all skipped.1 skipped.2) ?_
        have fewer := unfired_lt skipped.1 ((all t).mpr (working.queued List.mem_cons_self))
        have short := List.length_filter_le (· ∉ fired ++ [t]) order
        rw [List.length_append]
        nlinarith

theorem work_extends : ∀ {n : ℕ} {queue fired : List τ},
    m.work order n queue fired = some result → fired <+: result := by
  intro n
  induction n with
  | zero => intro queue fired run; cases run
  | succ n ih =>
    intro queue fired run
    cases queue with
    | nil => cases run; exact List.prefix_rfl
    | cons t queue =>
      rw [work] at run
      split_ifs at run with skipped idle
      · exact ih run
      · exact (List.prefix_append _ _).trans (ih run)
      · exact (List.prefix_append _ _).trans (ih run)

theorem work_prefix : ∀ {ts : List τ} {n : ℕ} {queue fired : List τ}, m.Fires (fired ++ ts) →
    m.work order n (ts ++ queue) fired = some result → fired ++ ts <+: result := by
  intro ts
  induction ts with
  | nil =>
    intro n queue fired _ run
    rw [List.append_nil]
    exact work_extends run
  | cons t ts ih =>
    intro n queue fired fires run
    rw [List.append_cons] at fires ⊢
    obtain ⟨-, -, fresh, enabled⟩ := Fires.next_iff.mp fires.left
    cases n with
    | zero => cases run
    | succ n =>
      rw [List.cons_append, work, if_neg (by simp [fresh, enabled])] at run
      split_ifs at run with idle
      · exact ih fires run
      · rw [List.append_assoc] at run
        exact ih fires run

theorem work_head (fires : m.Fires ts) (run : m.work order n (ts ++ queue) [] = some result) :
    ts <+: result := by
  rw [← List.nil_append ts] at fires
  exact work_prefix fires run

def turns (labels : ℕ) : ℕ := labels * labels + labels + 1

variable (m) in
def run (order : List τ) : Option (List τ) := m.work order (turns order.length) order []

variable (m) in
def OrderFree : Prop :=
  ∀ order order' result result' : List τ, order.Perm m.labels → order'.Perm m.labels →
    m.run order = some result → m.run order' = some result' → ∀ t, t ∈ result ↔ t ∈ result'

omit [DecidableEq τ] in
theorem working_start (listed : order.Perm m.labels) : Working m order [] :=
  ⟨.start, listed.subset, fun _ member _ absent => absurd (listed.mem_iff.mpr member) absent⟩

theorem run_total (listed : order.Perm m.labels) : ∃ result, m.run order = some result := by
  refine work_total (fun _ => listed.mem_iff) (working_start listed) ?_
  have short := List.length_filter_le (· ∉ ([] : List τ)) order
  rw [turns]
  nlinarith

theorem run_complete (listed : order.Perm m.labels) (run : m.run order = some result) :
    m.Fires result ∧ m.Complete result :=
  work_complete (fun _ => listed.mem_iff) (working_start listed) run

theorem Persistent.orderFree (persistent : m.Persistent) : m.OrderFree := by
  intro order order' result result' listed listed' run run'
  have first := run_complete listed run
  have second := run_complete listed' run'
  exact fun t => ⟨fun member => persistent.subset_complete second.1 second.2 first.1 member,
    fun member => persistent.subset_complete first.1 first.2 second.1 member⟩

theorem exists_order (distinct : m.labels.Nodup) (fires : m.Fires ts) :
    (ts ++ m.labels.filter (· ∉ ts)).Perm m.labels := by
  refine (List.perm_ext_iff_of_nodup ?_ distinct).mpr fun t => ?_
  · refine List.nodup_append.mpr ⟨fires.nodup, distinct.filter _, fun t member u other same => ?_⟩
    subst same
    simp [member] at other
  · simp only [List.mem_append, List.mem_filter, decide_eq_true_eq]
    by_cases member : t ∈ ts
    · simp [member, fires.subset member]
    · simp [member]

/-- If disabling is final, the worklist fires the same labels in every order exactly if no
label is disabled by another. -/
theorem orderFree_iff (distinct : m.labels.Nodup)
    (convex : ∀ t, Set.OrdConnected {s | m.enabled t s = true}) :
    m.OrderFree ↔ m.Persistent := by
  refine ⟨fun free => ?_, Persistent.orderFree⟩
  intro ts t u fires listed fresh enabled listed' fresh' enabled' different
  have first : m.Fires (ts ++ [t]) := .next fires listed fresh enabled
  have second : m.Fires (ts ++ [u]) := .next fires listed' fresh' enabled'
  obtain ⟨result, run⟩ := run_total (exists_order distinct first)
  obtain ⟨result', run'⟩ := run_total (exists_order distinct second)
  have same := free _ _ _ _ (exists_order distinct first) (exists_order distinct second)
    run run' t
  have fired : t ∈ result :=
    (work_head first run).subset (List.mem_append_right _ (List.mem_singleton_self t))
  have complete := run_complete (exists_order distinct second) run'
  -- The other run fires `t` too, but only after `u`, so it was enabled in between.
  obtain ⟨more, rfl⟩ := work_head second run'
  have later : t ∈ more := by
    have member := same.mp fired
    rw [List.mem_append, List.mem_append, List.mem_singleton, or_assoc] at member
    exact (member.resolve_left fresh).resolve_left different
  obtain ⟨before, after, rfl⟩ := List.append_of_mem later
  rw [← List.append_assoc, List.append_cons] at complete
  obtain ⟨-, -, -, still⟩ := Fires.next_iff.mp complete.1.left
  exact (convex t).out enabled still
    ⟨reached_mono (List.subset_append_left _ _), reached_mono (List.subset_append_left _ _)⟩

/-- A system of some of the labels, with further conditions that stay met as the set grows. -/
structure Restricts (r m : System τ σ) : Prop where
  labels : r.labels ⊆ m.labels
  base : r.base = m.base
  outputs : ∀ t, r.outputs t = m.outputs t
  enabled : ∀ t s, r.enabled t s = true → m.enabled t s = true
  further : ∀ t s s', s ⊆ s' → r.enabled t s = true → m.enabled t s' = true → r.enabled t s' = true

namespace Restricts
variable {r m : System τ σ} {fired : List τ}

omit [DecidableEq τ] in
theorem reached (restricts : Restricts r m) : r.reached fired = m.reached fired := by
  ext x
  simp only [mem_reached, restricts.base, restricts.outputs]

omit [DecidableEq τ] in
theorem fires (restricts : Restricts r m) (run : r.Fires fired) : m.Fires fired := by
  induction run with
  | start => exact .start
  | next _ listed fresh enabled ih =>
    rw [restricts.reached] at enabled
    exact .next ih (restricts.labels listed) fresh (restricts.enabled _ _ enabled)

omit [DecidableEq τ] in
theorem persistent (restricts : Restricts r m) (whole : m.Persistent) : r.Persistent := by
  intro fired t u fires listed fresh enabled listed' fresh' enabled' different
  rw [restricts.reached] at enabled enabled' ⊢
  refine restricts.further _ _ _ (reached_mono (List.subset_append_left _ _)) enabled ?_
  exact whole fired t u (restricts.fires fires) (restricts.labels listed) fresh
    (restricts.enabled _ _ enabled) (restricts.labels listed') fresh'
    (restricts.enabled _ _ enabled') different

end Restricts

end System
end Firing
