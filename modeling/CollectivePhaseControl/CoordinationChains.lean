import CollectivePhaseControl.CoordinationTraces
import CollectivePhaseControl.LinkedChains

/-! The loop that orders the events of a session keeps no record of where it has been. It ends
because digests that do not collide leave it nowhere to come back to. -/
namespace CollectivePhaseControl.Coordination
open LinkedChains

variable {w : CoordinationDigests}

def priorOf (event : CoordinationEvent) : Option Digest := event.spec.priorEventDigest

abbrev EventChain (w : CoordinationDigests) : List CoordinationEvent → Prop :=
  Chain priorOf (CoordinationEvent.digest w)

theorem children_eq (events : List CoordinationEvent) (prior : Option Digest) :
    children events prior = naming priorOf prior events := rfl

theorem mem_children {events : List CoordinationEvent} {prior : Option Digest}
    {event : CoordinationEvent} :
    event ∈ children events prior ↔ event ∈ events ∧ event.spec.priorEventDigest = prior :=
  mem_naming

theorem children_eq_singleton {events : List CoordinationEvent} {prior : Option Digest}
    {event : CoordinationEvent} (only : children events prior = [event]) :
    event ∈ events ∧ event.spec.priorEventDigest = prior :=
  mem_children.mp (by rw [only]; exact List.mem_singleton_self event)

theorem children_perm {events others : List CoordinationEvent} (perm : events.Perm others)
    (prior : Option Digest) : (children events prior).Perm (children others prior) :=
  perm.filter _

/-- The events visited so far are a chain inside the list, so the loop has at least as many
rounds left as there are events it has not visited. -/
theorem followChain_total {events visited : List CoordinationEvent} {fuel : ℕ}
    {current : CoordinationEvent} (free : CollisionFree (CoordinationEvent.digest w) events)
    (chain : EventChain w (visited ++ [current])) (inside : visited ++ [current] ⊆ events)
    (enough : events.length ≤ fuel + visited.length) :
    ∃ found, followChain w events fuel current = .ok found := by
  induction fuel generalizing visited current with
  | zero =>
    have short := chain.length_le free inside
    rw [List.length_append, List.length_singleton] at short
    omega
  | succ fuel ih =>
    rw [followChain]
    split
    · exact ⟨_, rfl⟩
    · rename_i child only
      obtain ⟨known, names⟩ := children_eq_singleton only
      have listed : visited ++ [current] ++ [child] ⊆ events :=
        List.append_subset.mpr ⟨inside, by simpa using known⟩
      obtain ⟨found, run⟩ := ih (chain.snoc names) listed (by simp; omega)
      exact ⟨_, by rw [run]; rfl⟩
    · exact ⟨_, rfl⟩

theorem followChain_mono {events : List CoordinationEvent} {fuel more : ℕ}
    {current : CoordinationEvent} {found : List CoordinationEvent × List String}
    (run : followChain w events fuel current = .ok found) (least : fuel ≤ more) :
    followChain w events more current = .ok found := by
  induction fuel generalizing more current found with
  | zero => cases run
  | succ fuel ih =>
    obtain ⟨more, rfl⟩ : ∃ k, more = k + 1 := ⟨more - 1, by omega⟩
    rw [followChain] at run ⊢
    split at run
    · exact run
    · rw [map_ok] at run ⊢
      obtain ⟨rest, run, same⟩ := run
      exact ⟨rest, ih run (by omega), same⟩
    · exact run

theorem duplicateEventIds_eq_nil {events : List CoordinationEvent} {seen : List Identifier} :
    duplicateEventIds events seen = [] ↔
      (events.map (·.spec.eventId)).Nodup ∧ ∀ event ∈ events, event.spec.eventId ∉ seen := by
  induction events generalizing seen with
  | nil => simp [duplicateEventIds]
  | cons event rest ih =>
    rw [duplicateEventIds, List.append_eq_nil_iff, reasonIf_eq_nil, ih, List.map_cons,
      List.nodup_cons]
    constructor
    · rintro ⟨fresh, once, apart⟩
      refine ⟨⟨fun again => ?_, once⟩, fun other member => ?_⟩
      · obtain ⟨other, member, same⟩ := List.mem_map.mp again
        exact apart other member (same ▸ List.mem_cons_self)
      · obtain rfl | member := List.mem_cons.mp member
        · exact fresh
        · exact fun known => apart other member (List.mem_cons_of_mem _ known)
    · rintro ⟨⟨fresh, once⟩, apart⟩
      refine ⟨apart event List.mem_cons_self, once, fun other member known => ?_⟩
      obtain same | known := List.mem_cons.mp known
      · exact fresh (List.mem_map.mpr ⟨other, member, same⟩)
      · exact apart other (List.mem_cons_of_mem _ member) known

theorem followChain_chain {events path : List CoordinationEvent} {fuel i : ℕ}
    (free : CollisionFree (CoordinationEvent.digest w) events) (chain : EventChain w path)
    (perm : path.Perm events) (inside : i < path.length) (enough : path.length ≤ fuel + i) :
    followChain w events fuel path[i] = .ok (path.drop i, []) := by
  have next := chain.naming_some (free.mono perm.subset) inside
  rw [← children_eq] at next
  have followed := children_perm perm.symm (some (path[i].digest w))
  rw [next] at followed
  induction fuel generalizing i with
  | zero => omega
  | succ fuel ih =>
    rw [followChain]
    by_cases more : i + 1 < path.length
    · rw [List.getElem?_eq_getElem more, Option.toList_some, List.perm_singleton] at followed
      rw [followed]
      dsimp only
      have next' := chain.naming_some (free.mono perm.subset) more
      rw [← children_eq] at next'
      have followed' := children_perm perm.symm (some (path[i + 1].digest w))
      rw [next'] at followed'
      rw [ih more (by omega) next' followed', List.drop_eq_getElem_cons inside]
      rfl
    · rw [List.getElem?_eq_none (by omega), Option.toList_none, List.perm_nil] at followed
      rw [followed, List.drop_eq_getElem_cons inside, List.drop_of_length_le (by omega)]

/-- The events, in some order, are one chain, and no two have the same identifier. -/
def OneChain (w : CoordinationDigests) (events : List CoordinationEvent) : Prop :=
  (events.map (·.spec.eventId)).Nodup ∧ ∃ path, path.Perm events ∧ path ≠ [] ∧ EventChain w path

theorem orderedEvents_chain {events path : List CoordinationEvent}
    (free : CollisionFree (CoordinationEvent.digest w) events) (chain : EventChain w path)
    (perm : path.Perm events) (some' : path ≠ [])
    (once : (events.map (·.spec.eventId)).Nodup) : orderedEvents w events = .ok (path, []) := by
  have inside := List.length_pos_iff.mpr some'
  have root : children events none = [path[0]] := by
    have found := children_perm perm.symm none
    rw [children_eq path, chain.naming_none, List.head?_eq_getElem?,
      List.getElem?_eq_getElem inside, Option.toList_some, List.perm_singleton] at found
    exact found
  have run := @followChain_chain w events path events.length 0 free chain perm inside
    (by rw [perm.length_eq]; omega)
  rw [List.drop_zero] at run
  have digests : (path.map (CoordinationEvent.digest w)).Nodup := by
    refine (chain.nodup (free.mono perm.subset)).map_on fun x hx y hy => ?_
    exact free x (perm.subset hx) y (perm.subset hy)
  have unique : duplicateEventIds events [] = [] :=
    duplicateEventIds_eq_nil.mpr ⟨once, by simp⟩
  unfold orderedEvents
  rw [root, unique]
  dsimp only
  rw [run, ok_bind]
  dsimp only
  rw [List.dedup_eq_self.mpr digests, List.length_map, perm.length_eq,
    reasonIf_eq_nil.mpr (not_not.mpr rfl)]
  rfl

theorem orderedEvents_total {events : List CoordinationEvent}
    (free : CollisionFree (CoordinationEvent.digest w) events) :
    ∃ ordered blockers, orderedEvents w events = .ok (ordered, blockers) ∧
      ((∃ root rest, children events none = [root] ∧ ordered = root :: rest) ∨
        (children events none).length ≠ 1 ∧ ordered = [] ∧
          "coordination_event_chain_root_not_unique" ∈ blockers) ∧
      EventChain w ordered ∧ ordered ⊆ events ∧
      (∀ root, children events none = [root] → ∀ rounds, events.length ≤ rounds →
        ∃ forks, followChain w events rounds root = .ok (ordered, forks)) ∧
      (blockers = [] → (events.map (·.spec.eventId)).Nodup) := by
  unfold orderedEvents
  dsimp only
  split
  · rename_i root only
    obtain ⟨known, first⟩ := children_eq_singleton only
    have start : EventChain w [root] := Chain.singleton first
    obtain ⟨⟨ordered, forks⟩, run⟩ := @followChain_total w events [] events.length root free start
      (by simpa using known) (Nat.le_refl _)
    obtain ⟨head, -, listed, linked⟩ := followChain_ok run
    rw [run, ok_bind]
    refine ⟨ordered, _, rfl, .inl ⟨root, ordered.tail, only, ?_⟩, ⟨fun x at' => ?_, linked⟩,
      fun event member => ?_, fun other found rounds least => ?_, fun clean => ?_⟩
    · exact List.eq_cons_of_mem_head? head
    · rw [head, Option.some_inj] at at'
      exact at' ▸ first
    · obtain rfl | member := listed event member
      · exact known
      · exact member
    · obtain rfl := List.singleton_inj.mp (only.symm.trans found)
      exact ⟨forks, followChain_mono run least⟩
    · rw [List.append_eq_nil_iff, List.append_eq_nil_iff] at clean
      exact (duplicateEventIds_eq_nil.mp clean.1.1).1
  · rename_i other
    refine ⟨[], _, rfl, .inr ⟨fun one => ?_, rfl, by simp⟩, ⟨by simp, List.isChain_nil⟩,
      List.nil_subset _, fun root only => absurd only (other root), by simp⟩
    obtain ⟨root, only⟩ := List.length_eq_one_iff.mp one
    exact other root only

/-- What the ordering of a session's events says about them. -/
structure Ordering (w : CoordinationDigests) (events ordered : List CoordinationEvent)
    (blockers : List String) : Prop where
  /-- The order starts at the one event without a prior event. Where there is no such event, or
  more than one, that is reported and nothing is ordered. -/
  starts : (∃ root rest, children events none = [root] ∧ ordered = root :: rest) ∨
    (children events none).length ≠ 1 ∧ ordered = [] ∧
      "coordination_event_chain_root_not_unique" ∈ blockers
  linked : ordered.IsChain fun event next =>
    next.spec.priorEventDigest = some (event.digest w)
  /-- The loop ends after as many rounds as there are events, and would not go on if it had more. -/
  ends : ∀ root, children events none = [root] → ∀ rounds, events.length ≤ rounds →
    ∃ forks, followChain w events rounds root = .ok (ordered, forks)
  once : ordered.Nodup
  listed : ordered ⊆ events
  complete : blockers = [] → ordered.Perm events
  detects : blockers = [] ↔ OneChain w events

/-- Where no two of the events share a digest, the loop ends. What it orders is a chain from
the one event without a prior event, and without blockers it is all the events, each once. -/
theorem orderedEvents_exact (w : CoordinationDigests) (events : List CoordinationEvent)
    (collisionFree : ∀ event ∈ events, ∀ other ∈ events,
      event.digest w = other.digest w → event = other) :
    ∃ ordered blockers, orderedEvents w events = .ok (ordered, blockers) ∧
      Ordering w events ordered blockers := by
  have free : CollisionFree (CoordinationEvent.digest w) events := collisionFree
  obtain ⟨ordered, blockers, run, starts, chain, listed, ends, unique⟩ := orderedEvents_total free
  have complete : blockers = [] → ordered.Perm events := by
    rintro rfl
    exact (orderedEvents_clean run).1
  refine ⟨ordered, blockers, run, starts, chain.linked, ends, chain.nodup (free.mono listed),
    listed, complete, fun clean => ?_, ?_⟩
  · refine ⟨unique clean, ordered, complete clean, ?_, chain⟩
    obtain ⟨root, rest, -, rfl⟩ | ⟨-, -, reported⟩ := starts
    · exact List.cons_ne_nil _ _
    · simp [clean] at reported
  · rintro ⟨once, path, perm, some', whole⟩
    rw [orderedEvents_chain free whole perm some' once] at run
    cases run
    rfl

theorem orderedEvents_exact_sample : ∃ ordered blockers,
    orderedEvents Sample.digests (sessionEvents Sample.objects "session") =
        .ok (ordered, blockers) ∧
      Ordering Sample.digests (sessionEvents Sample.objects "session") ordered blockers :=
  orderedEvents_exact Sample.digests (sessionEvents Sample.objects "session")
    (by decide +kernel)

end CollectivePhaseControl.Coordination
