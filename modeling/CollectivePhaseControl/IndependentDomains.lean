import CollectivePhaseControl.OrderedForests
import CollectivePhaseControl.AuditedDimensions

/-! Effective independence. Domains that share an identity, or of which one has seen the other
before its commitment, are linked by a union-find; the roots that remain are as many as the
components of the graph of these links. -/
namespace CollectivePhaseControl
open OrderedForests

namespace UnionFind
variable {union : UnionFind} {links : List (Identifier × Identifier)}
  {value left right : Identifier}

def parentOf (union : UnionFind) (value : Identifier) : Option Identifier := union[value]?

theorem parentOf_insert (union : UnionFind) (value parent : Identifier) :
    parentOf (union.insert value parent) =
      Function.update (parentOf union) value (some parent) := by
  funext x
  unfold parentOf
  by_cases same : x = value
  · rw [same, Std.ExtTreeMap.getElem?_insert_self, Function.update_self]
  · rw [Function.update_of_ne same, Std.ExtTreeMap.getElem?_insert,
      if_neg (by simpa using Ne.symm same)]

abbrev Linked (links : List (Identifier × Identifier)) : Identifier → Identifier → Prop :=
  Relation.EqvGen fun a b => (a, b) ∈ links

/-- The parents stand for the links made so far, between known values. -/
structure Holds (union : UnionFind) (links : List (Identifier × Identifier)) : Prop where
  forest : Represents union.parentOf (Linked links)
  ends : ∀ link ∈ links, link.1 ∈ union ∧ link.2 ∈ union

theorem holds_empty : Holds (∅ : Dict Identifier) [] where
  forest := by
    have unknown : ∀ x, parentOf (∅ : Dict Identifier) x = none := fun x =>
      Std.ExtTreeMap.getElem?_empty
    refine ⟨Relation.EqvGen.is_equivalence _, ?_, ?_, ?_, ?_⟩
    · intro x p found
      rw [unknown] at found
      cases found
    · intro x p found
      rw [unknown] at found
      cases found
    · intro x p found
      rw [unknown] at found
      cases found
    · intro r s found
      rw [unknown] at found
      cases found
  ends := by
    intro link member
    cases member

theorem linked_alone (apart : ∀ link ∈ links, link.1 ≠ value ∧ link.2 ≠ value) {x : Identifier}
    (linked : Linked links value x) : x = value := by
  have both : ∀ a b, Linked links a b → (a = value ↔ b = value) := by
    intro a b linked
    induction linked with
    | rel a b listed =>
      obtain ⟨left, right⟩ := apart (a, b) listed
      exact iff_of_false left right
    | refl a => exact Iff.rfl
    | symm a b _ ih => exact ih.symm
    | trans a b c _ _ first second => exact first.trans second
  exact (both value x linked).mp rfl

theorem mem_add {x : Identifier} : x ∈ union.add value ↔ x = value ∨ x ∈ union := by
  unfold add
  split
  · rename_i known
    exact ⟨.inr, fun either => either.elim (fun same => same ▸ known) id⟩
  · rw [Std.ExtTreeMap.mem_insert, Std.LawfulEqCmp.compare_eq_iff_eq, eq_comm]

theorem Holds.add (holds : Holds union links) (value : Identifier) :
    Holds (union.add value) links := by
  refine ⟨?_, fun link member => ?_⟩
  · unfold UnionFind.add
    split
    · exact holds.forest
    · rename_i fresh
      rw [parentOf_insert]
      refine holds.forest.plant fun y linked => linked_alone (fun link member => ?_) linked
      obtain ⟨first, second⟩ := holds.ends link member
      exact ⟨fun same => fresh (same ▸ first), fun same => fresh (same ▸ second)⟩
  · exact ⟨mem_add.mpr (.inr (holds.ends link member).1),
      mem_add.mpr (.inr (holds.ends link member).2)⟩

/-- A root has been found, and nothing has changed but the length of paths. -/
structure Found (union : UnionFind) (links : List (Identifier × Identifier)) (value : Identifier)
    (after : UnionFind) (root : Identifier) : Prop where
  holds : Holds after links
  keys : ∀ x, x ∈ after ↔ x ∈ union
  roots : ∀ r, after.parentOf r = some r ↔ union.parentOf r = some r
  rooted : union.parentOf root = some root
  linked : Linked links value root

def below (union : UnionFind) (value : Identifier) : Finset Identifier :=
  union.keys.toFinset.filter (· < value)

theorem mem_below {x : Identifier} : x ∈ union.below value ↔ x ∈ union ∧ x < value := by
  rw [below, Finset.mem_filter, Dict.mem_keys_toFinset]

theorem findFrom_ok {n : ℕ} (holds : Holds union links) (known : value ∈ union)
    (enough : (union.below value).card < n) :
    ∃ after root, findFrom n union value = .ok (after, root) ∧
      Found union links value after root := by
  induction n generalizing union value with
  | zero => omega
  | succ n ih =>
    have forest := holds.forest
    obtain ⟨p, up⟩ : ∃ p, union.parentOf value = some p :=
      ⟨_, Std.ExtTreeMap.getElem?_eq_some_getElem known⟩
    have first : union.item value = .ok p := Dict.item_ok.mpr up
    unfold findFrom
    rw [first, ok_bind]
    by_cases top : p = value
    · rw [if_pos top]
      exact ⟨union, value, rfl, holds, fun _ => Iff.rfl, fun _ => Iff.rfl, top ▸ up, .refl value⟩
    · rw [if_neg top]
      obtain ⟨g, higher⟩ := forest.known value p up
      have second : union.item p = .ok g := Dict.item_ok.mpr higher
      rw [second, ok_bind]
      have lower : p < value := lt_of_le_of_ne (forest.below value p up) top
      have shorter : g < value := (forest.below p g higher).trans_lt lower
      have keys : ∀ x, x ∈ union.insert value g ↔ x ∈ union := by
        intro x
        rw [Std.ExtTreeMap.mem_insert, Std.LawfulEqCmp.compare_eq_iff_eq]
        exact or_iff_right_of_imp fun same => same ▸ known
      have parents := parentOf_insert union value g
      have halved : Holds (union.insert value g) links := by
        refine ⟨parents ▸ forest.halve up top higher, fun link member => ?_⟩
        rw [keys, keys]
        exact holds.ends link member
      obtain ⟨above, last⟩ := forest.known p g higher
      have grandparent : g ∈ union := Std.ExtTreeMap.mem_iff_isSome_getElem?.mpr (by
        change (union.parentOf g).isSome = true
        rw [last]
        rfl)
      -- the grandparent itself is among the values below, but not below itself
      have fewer : (below (union.insert value g) g).card < (union.below value).card := by
        refine Finset.card_lt_card ⟨fun x member => ?_, fun all => ?_⟩
        · rw [mem_below, keys] at member
          exact mem_below.mpr ⟨member.1, member.2.trans shorter⟩
        · have inside := all (mem_below.mpr ⟨grandparent, shorter⟩)
          exact lt_irrefl g (mem_below.mp inside).2
      obtain ⟨after, root, ran, found⟩ := ih halved ((keys g).mpr grandparent) (by omega)
      have same : ∀ r, parentOf (union.insert value g) r = some r ↔ union.parentOf r = some r := by
        intro r
        rw [parents]
        exact halve_root up top shorter.ne
      refine ⟨after, root, ran, found.holds, fun x => (found.keys x).trans (keys x),
        fun r => (found.roots r).trans (same r), (same root).mp found.rooted, ?_⟩
      have step : Linked links value g :=
        (forest.within value p up).trans _ _ _ (forest.within p g higher)
      exact step.trans _ _ _ found.linked

theorem find_ok (holds : Holds union links) (known : value ∈ union) :
    ∃ after root, find union value = .ok (after, root) ∧ Found union links value after root := by
  have added : union.add value = union := if_pos known
  unfold find
  rw [added]
  refine findFrom_ok holds known ?_
  have all : (union.below value).card ≤ union.keys.toFinset.card := Finset.card_filter_le _ _
  have size := List.toFinset_card_le union.keys
  rw [Std.ExtTreeMap.length_keys] at size
  omega

theorem union_ok (holds : Holds union links) (first : left ∈ union) (second : right ∈ union) :
    ∃ after, UnionFind.union union left right = .ok after ∧
      Holds after ((left, right) :: links) ∧ ∀ x, x ∈ after ↔ x ∈ union := by
  obtain ⟨middle, r, ran, one⟩ := find_ok holds first
  obtain ⟨after, s, ran', two⟩ := find_ok one.holds ((one.keys right).mpr second)
  have keys : ∀ x, x ∈ after ↔ x ∈ union := fun x => (two.keys x).trans (one.keys x)
  have ends : ∀ link ∈ (left, right) :: links, link.1 ∈ union ∧ link.2 ∈ union := by
    intro link member
    obtain rfl | old := List.mem_cons.mp member
    · exact ⟨first, second⟩
    · exact holds.ends link old
  have rootR : after.parentOf r = some r := (two.roots r).mpr ((one.roots r).mpr one.rooted)
  have rootS : after.parentOf s = some s := (two.roots s).mpr two.rooted
  unfold UnionFind.union
  rw [ran, ok_bind]
  dsimp only
  rw [ran', ok_bind]
  dsimp only
  by_cases same : r = s
  · rw [if_pos same]
    subst same
    refine ⟨after, rfl, ⟨?_, fun link member => ?_⟩, keys⟩
    · have together : Linked links left right := one.linked.trans _ _ _ (two.linked.symm _ _)
      have unchanged := joined_of_related (Relation.EqvGen.is_equivalence _) together
      rw [Linked, eqvGen_cons, unchanged]
      exact two.holds.forest
    · rw [keys, keys]
      exact ends link member
  · rw [if_neg same]
    have moved : ∀ x, x ∈ after.insert (max r s) (min r s) ↔ x ∈ union := by
      intro x
      rw [Std.ExtTreeMap.mem_insert, Std.LawfulEqCmp.compare_eq_iff_eq, keys]
      refine or_iff_right_of_imp ?_
      rintro rfl
      rw [← keys]
      refine Std.ExtTreeMap.mem_iff_isSome_getElem?.mpr ?_
      change (after.parentOf (max r s)).isSome = true
      obtain high | high := max_choice r s
      · rw [high, rootR]
        rfl
      · rw [high, rootS]
        rfl
    refine ⟨_, rfl, ⟨?_, fun link member => ?_⟩, moved⟩
    · rw [parentOf_insert, Linked, eqvGen_cons]
      exact two.holds.forest.attach rootR rootS one.linked two.linked same
    · rw [moved, moved]
      exact ends link member

end UnionFind

def IndependenceSpec.identities (spec : IndependenceSpec) : List (String × Identifier) :=
  [("principal", spec.principalId), ("key", spec.keyId),
    ("infrastructure", spec.infrastructureDomain), ("lineage", spec.lineageDomain),
    ("correlation", spec.correlationDomain)]

section links
variable {domain : Identifier} {identity : String × Identifier} {state : UnionFind × Indexes}
  {links : List (Identifier × Identifier)}

/-- Of every identity the index knows the domain that showed it last, linked to all others. -/
structure Indexed (state : UnionFind × Indexes) (links : List (Identifier × Identifier)) :
    Prop where
  holds : UnionFind.Holds state.1 links
  known : ∀ entry ∈ state.2, entry.2 ∈ state.1
  shared : ∀ link ∈ links, ∃ identity, (identity, link.1) ∈ state.2 ∧ (identity, link.2) ∈ state.2
  latest : ∀ entry ∈ state.2, ∃ last, state.2.lookup entry.1 = some last ∧
    UnionFind.Linked links entry.2 last

theorem indexed_start : Indexed (∅, []) [] :=
  ⟨UnionFind.holds_empty, by simp, by simp, by simp⟩

theorem Indexed.add (indexed : Indexed state links) (domain : Identifier) :
    Indexed (UnionFind.add state.1 domain, state.2) links where
  holds := indexed.holds.add domain
  known := fun entry member => UnionFind.mem_add.mpr (.inr (indexed.known entry member))
  shared := indexed.shared
  latest := indexed.latest

variable (identity) in
theorem linkIdentity_ok (indexed : Indexed state links) (known : domain ∈ state.1) :
    ∃ after links', linkIdentity domain state identity = .ok after ∧ Indexed after links' ∧
      (∀ x, x ∈ after.1 ↔ x ∈ state.1) ∧ after.2 = (identity, domain) :: state.2 := by
  unfold linkIdentity
  cases found : state.2.lookup identity with
  | none =>
    refine ⟨(state.1, (identity, domain) :: state.2), links, rfl, ?_, fun _ => Iff.rfl, rfl⟩
    refine ⟨indexed.holds, ?_, fun link member => ?_, ?_⟩
    · exact List.forall_mem_cons.mpr ⟨known, indexed.known⟩
    · obtain ⟨shared, first, second⟩ := indexed.shared link member
      exact ⟨shared, List.mem_cons_of_mem _ first, List.mem_cons_of_mem _ second⟩
    · refine List.forall_mem_cons.mpr ⟨⟨domain, List.lookup_cons_self, .refl _⟩, ?_⟩
      intro entry member
      obtain ⟨last, same, linked⟩ := indexed.latest entry member
      have other : (entry.1 == identity) = false := by
        rw [beq_eq_false_iff_ne]
        rintro rfl
        rw [found] at same
        cases same
      exact ⟨last, by rw [List.lookup_cons, other]; exact same, linked⟩
  | some previous =>
    have earlier := mem_of_lookup found
    obtain ⟨after, ran, holds, keys⟩ :=
      UnionFind.union_ok indexed.holds known (indexed.known _ earlier)
    have more : ∀ {a b}, UnionFind.Linked links a b →
        UnionFind.Linked ((domain, previous) :: links) a b := by
      intro a b linked
      exact Relation.EqvGen.mono (fun _ _ => List.mem_cons_of_mem _) a b linked
    have link : UnionFind.Linked ((domain, previous) :: links) previous domain :=
      .symm _ _ (.rel _ _ List.mem_cons_self)
    refine ⟨(after, (identity, domain) :: state.2), (domain, previous) :: links, ?_, ?_, keys, rfl⟩
    · dsimp only
      rw [ran]
      rfl
    · refine ⟨holds, ?_, ?_, ?_⟩
      · refine List.forall_mem_cons.mpr ⟨(keys domain).mpr known, fun entry member => ?_⟩
        exact (keys _).mpr (indexed.known entry member)
      · refine List.forall_mem_cons.mpr ⟨⟨identity, List.mem_cons_self,
          List.mem_cons_of_mem _ earlier⟩, fun link member => ?_⟩
        obtain ⟨shared, first, second⟩ := indexed.shared link member
        exact ⟨shared, List.mem_cons_of_mem _ first, List.mem_cons_of_mem _ second⟩
      · refine List.forall_mem_cons.mpr ⟨⟨domain, List.lookup_cons_self, .refl _⟩, ?_⟩
        intro entry member
        obtain ⟨last, same, linked⟩ := indexed.latest entry member
        by_cases here : entry.1 = identity
        · rw [here, found] at same
          obtain rfl := Option.some.inj same
          exact ⟨domain, by rw [here, List.lookup_cons_self], (more linked).trans _ _ _ link⟩
        · refine ⟨last, ?_, more linked⟩
          rw [List.lookup_cons, beq_eq_false_iff_ne.mpr here]
          exact same

theorem linkIdentities_ok (identities : List (String × Identifier)) (indexed : Indexed state links)
    (known : domain ∈ state.1) :
    ∃ after links', identities.foldlM (linkIdentity domain) state = .ok after ∧
      Indexed after links' ∧ (∀ x, x ∈ after.1 ↔ x ∈ state.1) ∧
      ∀ entry, entry ∈ after.2 ↔ entry ∈ state.2 ∨ ∃ i ∈ identities, entry = (i, domain) := by
  induction identities generalizing state links with
  | nil => exact ⟨state, links, rfl, indexed, fun _ => Iff.rfl, by simp⟩
  | cons identity identities ih =>
    obtain ⟨middle, links', ran, linked, keys, entries⟩ :=
      linkIdentity_ok identity indexed known
    obtain ⟨after, links'', ran', linked', keys', entries'⟩ := ih linked ((keys domain).mpr known)
    refine ⟨after, links'', ?_, linked', fun x => (keys' x).trans (keys x), fun entry => ?_⟩
    · rw [List.foldlM_cons, ran, ok_bind, ran']
    · rw [entries', entries, List.mem_cons, List.exists_mem_cons_iff, or_assoc, or_left_comm]

def Shows (domains : List (Document × IndependenceSpec))
    (entry : (String × Identifier) × Identifier) :
    Prop :=
  ∃ item ∈ domains, entry.1 ∈ item.2.identities ∧ entry.2 = item.2.domainId

theorem decides_linkDomain (indexed : Indexed state links) (item : Document × IndependenceSpec) :
    Decides (linkDomain state item) fun after => ∃ links', Indexed after links' ∧
      (∀ x, x ∈ after.1 ↔ x = item.2.domainId ∨ x ∈ state.1) ∧
      ∀ entry, entry ∈ after.2 ↔ entry ∈ state.2 ∨ Shows [item] entry := by
  refine decides_bind (decides_spend 1) fun _ _ => ?_
  have known : item.2.domainId ∈ UnionFind.add state.1 item.2.domainId :=
    UnionFind.mem_add.mpr (.inl rfl)
  obtain ⟨after, links', ran, linked, keys, entries⟩ :=
    linkIdentities_ok item.2.identities (indexed.add item.2.domainId) known
  have same : lift (item.2.identities.foldlM (linkIdentity item.2.domainId)
      (UnionFind.add state.1 item.2.domainId, state.2)) = pure after := by rw [ran]; rfl
  dsimp only
  change Decides (lift (item.2.identities.foldlM (linkIdentity item.2.domainId)
    (UnionFind.add state.1 item.2.domainId, state.2))) _
  rw [same]
  refine decides_pure ⟨links', linked, fun x => (keys x).trans UnionFind.mem_add, fun entry => ?_⟩
  rw [entries]
  refine or_congr_right ?_
  simp only [Shows, List.mem_singleton, exists_eq_left]
  constructor
  · rintro ⟨i, member, rfl⟩
    exact ⟨member, rfl⟩
  · rintro ⟨member, same⟩
    exact ⟨entry.1, member, Prod.ext rfl same⟩

theorem decides_linkDomains (domains : List (Document × IndependenceSpec))
    (indexed : Indexed state links) :
    Decides (domains.foldlM linkDomain state) fun after => ∃ links', Indexed after links' ∧
      (∀ x, x ∈ after.1 ↔ x ∈ domains.map (·.2.domainId) ∨ x ∈ state.1) ∧
      ∀ entry, entry ∈ after.2 ↔ entry ∈ state.2 ∨ Shows domains entry := by
  induction domains generalizing state links with
  | nil => exact decides_pure ⟨links, indexed, by simp, by simp [Shows]⟩
  | cons item domains ih =>
    rw [List.foldlM_cons]
    refine decides_bind (decides_linkDomain indexed item) fun middle first => ?_
    obtain ⟨links', linked, keys, entries⟩ := first
    have rest := decides_iff.mp (ih linked)
    refine decides_iff.mpr ⟨rest.1.mono fun after said => ?_, rest.2⟩
    obtain ⟨links'', linked', keys', entries'⟩ := said
    refine ⟨links'', linked', fun x => ?_, fun entry => ?_⟩
    · rw [keys', keys, List.map_cons, List.mem_cons, or_assoc, or_left_comm]
    · rw [entries', entries, or_assoc]
      refine or_congr_right ?_
      simp only [Shows, List.mem_singleton, exists_eq_left, List.exists_mem_cons_iff]

end links

section counts
variable {union : UnionFind} {links : List (Identifier × Identifier)} {known : List Identifier}

def Exposes (known : List Identifier) (event : ExposureEvent) (link : Identifier × Identifier) :
    Prop :=
  (event.fromDomain ∈ known ∧ event.toDomain ∈ known) ∧ event.preCommit = true ∧
    link = (event.fromDomain, event.toDomain)

theorem decides_linkExposure (holds : UnionFind.Holds union links)
    (same : ∀ x, x ∈ union ↔ x ∈ known) (texts : List String) (event : ExposureEvent) :
    Decides (linkExposure known (union, texts) event) fun after => ∃ links',
      UnionFind.Holds after.1 links' ∧ (∀ x, x ∈ after.1 ↔ x ∈ known) ∧
      (∀ link, link ∈ links' ↔ link ∈ links ∨ Exposes known event link) ∧
      (after.2 = [] ↔ texts = [] ∧ event.fromDomain ∈ known ∧ event.toDomain ∈ known) := by
  refine decides_bind (decides_spend 1) fun _ _ => ?_
  by_cases unknown : event.fromDomain ∉ known ∨ event.toDomain ∉ known
  · rw [if_pos unknown]
    have neither : ¬ (event.fromDomain ∈ known ∧ event.toDomain ∈ known) := by tauto
    exact decides_pure ⟨links, holds, same, by simp [Exposes, neither], by simp [neither]⟩
  · rw [if_neg unknown]
    rw [not_or, not_not, not_not] at unknown
    by_cases early : event.preCommit = true
    · rw [if_pos early]
      obtain ⟨after, ran, linked, keys⟩ := UnionFind.union_ok holds
        ((same _).mpr unknown.1) ((same _).mpr unknown.2)
      rw [ran]
      refine decides_pure ⟨_, linked, fun x => (keys x).trans (same x), fun link => ?_, ?_⟩
      · rw [List.mem_cons, or_comm, Exposes, and_iff_right unknown, and_iff_right early]
      · simp [unknown]
    · rw [if_neg early]
      exact decides_pure ⟨links, holds, same, by simp [Exposes, early], by simp [unknown]⟩

theorem decides_linkExposures (events : List ExposureEvent) (holds : UnionFind.Holds union links)
    (same : ∀ x, x ∈ union ↔ x ∈ known) (texts : List String) :
    Decides (events.foldlM (linkExposure known) (union, texts)) fun after => ∃ links',
      UnionFind.Holds after.1 links' ∧ (∀ x, x ∈ after.1 ↔ x ∈ known) ∧
      (∀ link, link ∈ links' ↔ link ∈ links ∨ ∃ event ∈ events, Exposes known event link) ∧
      (after.2 = [] ↔ texts = [] ∧
        ∀ event ∈ events, event.fromDomain ∈ known ∧ event.toDomain ∈ known) := by
  induction events generalizing union links texts with
  | nil => exact decides_pure ⟨links, holds, same, by simp, by simp⟩
  | cons event events ih =>
    rw [List.foldlM_cons]
    refine decides_bind (decides_linkExposure holds same texts event) fun middle first => ?_
    obtain ⟨links', linked, keys, added, clean⟩ := first
    have rest := decides_iff.mp (ih linked keys middle.2)
    refine decides_iff.mpr ⟨rest.1.mono fun after said => ?_, rest.2⟩
    obtain ⟨links'', linked', keys', added', clean'⟩ := said
    refine ⟨links'', linked', keys', fun link => ?_, ?_⟩
    · rw [added', added, List.exists_mem_cons_iff, or_assoc]
    · rw [clean', clean, List.forall_mem_cons, and_assoc]

theorem collectRoots_ok (values : List Identifier) {roots : List Identifier}
    (holds : UnionFind.Holds union links) (known : ∀ x ∈ values, x ∈ union)
    (distinct : roots.Nodup) :
    ∃ after, values.foldlM collectRoot (union, roots) = .ok after ∧ after.2.Nodup ∧
      ∀ r, r ∈ after.2 ↔ r ∈ roots ∨
        ∃ x ∈ values, union.parentOf r = some r ∧ UnionFind.Linked links x r := by
  induction values generalizing union roots with
  | nil => exact ⟨(union, roots), rfl, distinct, by simp⟩
  | cons value values ih =>
    obtain ⟨here, later⟩ := List.forall_mem_cons.mp known
    obtain ⟨middle, root, ran, found⟩ := UnionFind.find_ok holds here
    have step : collectRoot (union, roots) value =
        .ok (middle, if root ∈ roots then roots else roots ++ [root]) := by
      unfold collectRoot
      rw [ran]
      rfl
    have distinct' : (if root ∈ roots then roots else roots ++ [root]).Nodup := by
      split
      · exact distinct
      · rename_i fresh
        exact distinct.append (List.nodup_singleton root) (List.disjoint_singleton.mpr fresh)
    have listed : ∀ r, r ∈ (if root ∈ roots then roots else roots ++ [root]) ↔
        r ∈ roots ∨ r = root := by
      intro r
      split
      · rename_i old
        exact (or_iff_left_of_imp fun same => same ▸ old).symm
      · rw [List.mem_append, List.mem_singleton]
    obtain ⟨after, ran', distinct'', listed'⟩ := ih found.holds
      (fun x member => (found.keys x).mpr (later x member)) distinct'
    refine ⟨after, ?_, distinct'', fun r => ?_⟩
    · rw [List.foldlM_cons, step, ok_bind, ran']
    · have own : r = root ↔ union.parentOf r = some r ∧ UnionFind.Linked links value r := by
        constructor
        · rintro rfl
          exact ⟨found.rooted, found.linked⟩
        · rintro ⟨top, linked⟩
          exact holds.forest.unique r root top found.rooted
            ((linked.symm _ _).trans _ _ _ found.linked)
      rw [listed', listed, List.exists_mem_cons_iff, or_assoc, own]
      simp only [found.roots]

end counts

def IndependenceSpec.Shares (a b : IndependenceSpec) : Prop :=
  ∃ identity ∈ a.identities, identity ∈ b.identities

section graph
variable (attestations : Set IndependenceSpec) (events : Set ExposureEvent)

def DomainOf (d : Identifier) : Prop := ∃ a ∈ attestations, a.domainId = d

/-- Attestations of the two domains share a value, or one has been exposed to the other before
its commitment. -/
def Adjacent (d e : Identifier) : Prop :=
  (∃ a ∈ attestations, ∃ b ∈ attestations, a.domainId = d ∧ b.domainId = e ∧ a.Shares b) ∨
    ∃ event ∈ events, event.preCommit = true ∧ event.fromDomain = d ∧ event.toDomain = e

def domainGraph : SimpleGraph {d // DomainOf attestations d} :=
  SimpleGraph.fromRel fun d e => Adjacent attestations events d e

noncomputable def effectiveDomainCount : ℕ :=
  Nat.card (domainGraph attestations events).ConnectedComponent

variable {attestations events}

theorem reachable_iff {links : List (Identifier × Identifier)}
    (sound : ∀ d e, (d, e) ∈ links → DomainOf attestations d ∧ DomainOf attestations e ∧
      Adjacent attestations events d e)
    (complete : ∀ d e, DomainOf attestations d → DomainOf attestations e →
      Adjacent attestations events d e → UnionFind.Linked links d e)
    (u v : {d // DomainOf attestations d}) :
    (domainGraph attestations events).Reachable u v ↔ UnionFind.Linked links u v := by
  constructor
  · intro reachable
    rw [SimpleGraph.reachable_iff_reflTransGen] at reachable
    induction reachable with
    | refl => exact .refl _
    | @tail middle last _ step ih =>
      refine ih.trans _ _ _ ?_
      obtain ⟨-, forth | back⟩ := (SimpleGraph.fromRel_adj _ _ _).mp step
      · exact complete _ _ middle.2 last.2 forth
      · exact (complete _ _ last.2 middle.2 back).symm _ _
  · have joined : ∀ d e, UnionFind.Linked links d e → d = e ∨
        ∃ (hd : DomainOf attestations d) (he : DomainOf attestations e),
          (domainGraph attestations events).Reachable ⟨d, hd⟩ ⟨e, he⟩ := by
      intro d e linked
      induction linked with
      | rel d e listed =>
        by_cases same : d = e
        · exact .inl same
        · obtain ⟨hd, he, adjacent⟩ := sound d e listed
          refine .inr ⟨hd, he, SimpleGraph.Adj.reachable ?_⟩
          exact (SimpleGraph.fromRel_adj _ _ _).mpr
            ⟨fun together => same (congrArg Subtype.val together), .inl adjacent⟩
      | refl d => exact .inl rfl
      | symm d e _ ih =>
        obtain same | ⟨hd, he, reachable⟩ := ih
        · exact .inl same.symm
        · exact .inr ⟨he, hd, reachable.symm⟩
      | trans d e f _ _ first second =>
        obtain rfl | ⟨hd, he, one⟩ := first
        · exact second
        · obtain rfl | ⟨_, hf, two⟩ := second
          · exact .inr ⟨hd, he, one⟩
          · exact .inr ⟨hd, hf, one.trans two⟩
    intro linked
    obtain same | ⟨_, _, reachable⟩ := joined u v linked
    · rw [Subtype.ext same]
    · exact reachable

theorem effectiveDomainCount_le {attestations' : Set IndependenceSpec}
    {events' : Set ExposureEvent} (finite : {d | DomainOf attestations d}.Finite)
    (same : ∀ d, DomainOf attestations d ↔ DomainOf attestations' d)
    (more : ∀ d e, Adjacent attestations events d e → Adjacent attestations' events' d e) :
    effectiveDomainCount attestations' events' ≤ effectiveDomainCount attestations events := by
  let move : domainGraph attestations events →g domainGraph attestations' events' := {
    toFun := fun u => ⟨u.1, (same u.1).mp u.2⟩
    map_rel' := by
      intro u v adjacent
      obtain ⟨apart, either⟩ := (SimpleGraph.fromRel_adj _ _ _).mp adjacent
      refine (SimpleGraph.fromRel_adj _ _ _).mpr ⟨fun together => apart ?_, ?_⟩
      · exact Subtype.ext (Subtype.mk.inj together)
      · exact either.imp (more _ _) (more _ _) }
  have surjective : Function.Surjective
      (SimpleGraph.ConnectedComponent.map move) := by
    intro c
    induction c using SimpleGraph.ConnectedComponent.ind with
    | h v => exact ⟨(domainGraph attestations events).connectedComponentMk
        ⟨v.1, (same v.1).mpr v.2⟩, rfl⟩
  have vertices : Finite {d // DomainOf attestations d} := finite
  exact Nat.card_le_card_of_surjective _ surjective

end graph

/-- The loop of `_independence`: what is wrong with the ledger, and the number of roots. -/
def effectiveDomains (domains : List (Document × IndependenceSpec)) (events : List ExposureEvent) :
    Analysis (List String × ℕ) := do
  let linked ← domains.foldlM linkDomain (∅, [])
  let known := (domains.map (·.2.domainId)).dedup
  let exposed ← events.foldlM (linkExposure known) (linked.1, [])
  let roots ← lift (known.foldlM collectRoot (exposed.1, []))
  pure (exposed.2, roots.2.length)

noncomputable def componentsOf (domains : List (Document × IndependenceSpec))
    (events : List ExposureEvent) : ℕ :=
  effectiveDomainCount {a | ∃ item ∈ domains, item.2 = a} {event | event ∈ events}

section counted
variable {domains : List (Document × IndependenceSpec)} {events : List ExposureEvent}

theorem domainOf_iff {d : Identifier} : DomainOf {a | ∃ item ∈ domains, item.2 = a} d ↔
    d ∈ (domains.map (·.2.domainId)).dedup := by
  rw [List.mem_dedup, List.mem_map]
  constructor
  · rintro ⟨_, ⟨item, member, rfl⟩, same⟩
    exact ⟨item, member, same⟩
  · rintro ⟨item, member, same⟩
    exact ⟨item.2, ⟨item, member, rfl⟩, same⟩

theorem decides_effectiveDomains (domains : List (Document × IndependenceSpec))
    (events : List ExposureEvent) :
    Decides (effectiveDomains domains events) fun found =>
      found.2 = componentsOf domains events ∧
      (found.1 = [] ↔ ∀ event ∈ events, event.fromDomain ∈ domains.map (·.2.domainId) ∧
        event.toDomain ∈ domains.map (·.2.domainId)) := by
  refine decides_bind (decides_linkDomains domains indexed_start) fun linked said => ?_
  obtain ⟨links, indexed, keys, entries⟩ := said
  have known : ∀ x, x ∈ linked.1 ↔ x ∈ (domains.map (·.2.domainId)).dedup := by
    intro x
    rw [keys, List.mem_dedup]
    exact or_iff_left (by simp)
  have shows : ∀ entry, entry ∈ linked.2 ↔ Shows domains entry := by
    intro entry
    rw [entries]
    exact or_iff_right (by simp)
  refine decides_bind (decides_linkExposures events indexed.holds known []) fun exposed told => ?_
  obtain ⟨links', holds, known', added, clean⟩ := told
  obtain ⟨roots, ran, distinct, listed⟩ := collectRoots_ok (domains.map (·.2.domainId)).dedup holds
    (fun x member => (known' x).mpr member) List.nodup_nil
  rw [ran]
  refine decides_pure ⟨?_, ?_⟩
  · have more : ∀ a b, UnionFind.Linked links a b → UnionFind.Linked links' a b :=
      Relation.EqvGen.mono fun a b member => (added (a, b)).mpr (.inl member)
    refine (holds.forest.card_components (reachable_iff ?_ ?_) distinct ?_ ?_).symm
    · intro d e link
      obtain old | ⟨event, member, inside, early, same⟩ := (added (d, e)).mp link
      · obtain ⟨identity, first, second⟩ := indexed.shared (d, e) old
        obtain ⟨item, here, shown, rfl⟩ := (shows _).mp first
        obtain ⟨item', here', shown', rfl⟩ := (shows _).mp second
        exact ⟨⟨item.2, ⟨item, here, rfl⟩, rfl⟩, ⟨item'.2, ⟨item', here', rfl⟩, rfl⟩,
          .inl ⟨item.2, ⟨item, here, rfl⟩, item'.2, ⟨item', here', rfl⟩, rfl, rfl, identity,
            shown, shown'⟩⟩
      · obtain ⟨rfl, rfl⟩ := Prod.mk.inj same
        exact ⟨domainOf_iff.mpr inside.1, domainOf_iff.mpr inside.2,
          .inr ⟨event, member, early, rfl, rfl⟩⟩
    · rintro d e hd he (⟨_, ⟨item, here, rfl⟩, _, ⟨item', here', rfl⟩, rfl, rfl, identity, shown,
        shown'⟩ | ⟨event, member, early, rfl, rfl⟩)
      · obtain ⟨last, latest, linked⟩ := indexed.latest (identity, item.2.domainId)
          ((shows _).mpr ⟨item, here, shown, rfl⟩)
        obtain ⟨last', latest', linked'⟩ := indexed.latest (identity, item'.2.domainId)
          ((shows _).mpr ⟨item', here', shown', rfl⟩)
        obtain rfl := Option.some.inj (latest.symm.trans latest')
        exact (more _ _ linked).trans _ _ _ ((more _ _ linked').symm _ _)
      · exact .rel _ _ ((added _).mpr (.inr ⟨event, member,
          ⟨domainOf_iff.mp hd, domainOf_iff.mp he⟩, early, rfl⟩))
    · intro r member
      obtain none | ⟨x, inside, top, linked⟩ := (listed r).mp member
      · cases none
      · refine ⟨domainOf_iff.mpr ((known' r).mp ?_), top⟩
        refine Std.ExtTreeMap.mem_iff_isSome_getElem?.mpr ?_
        change (UnionFind.parentOf exposed.1 r).isSome = true
        rw [top]
        rfl
    · intro x inside
      have here := domainOf_iff.mp inside
      obtain ⟨_, root, -, found⟩ := UnionFind.find_ok holds ((known' x).mpr here)
      exact ⟨root, (listed root).mpr (.inr ⟨x, here, found.rooted, found.linked⟩), found.linked⟩
  · rw [clean, and_iff_right rfl]
    simp only [List.mem_dedup]

theorem componentsOf_perm {domains' : List (Document × IndependenceSpec)}
    {events' : List ExposureEvent} (reordered : domains.Perm domains')
    (reordered' : events.Perm events') :
    componentsOf domains events = componentsOf domains' events' := by
  unfold componentsOf
  simp only [reordered.mem_iff, reordered'.mem_iff]

theorem yields_independence (h : AuditServices) (snapshot : AnalysisSnapshot) (objects : Objects)
    (time : DateTime) :
    Yields (independence h snapshot objects time) fun result => ∀ domains document ledger,
      liveTyped objects DocumentSpec.independence? IndependenceSpec.lifecycle time = .ok domains →
      typed objects DocumentSpec.exposures? = [(document, ledger)] →
      ledger.observationCompleteThrough.lt time = .ok false → domains ≠ [] →
      (result.status = .satisfied ↔
        (∀ event ∈ ledger.events, event.fromDomain ∈ domains.map (·.2.domainId) ∧
          event.toDomain ∈ domains.map (·.2.domainId)) ∧
        snapshot.spec.minimumIndependentDomains ≤ componentsOf domains ledger.events) := by
  unfold independence
  refine yields_bind (yields_lift _) fun domains read => ?_
  split
  · rename_i document ledger only
    refine yields_bind (yields_lift _) fun stale compared => ?_
    by_cases late : stale = true
    · rw [if_pos late]
      refine (yields_trivial _).mono fun result _ domains' document' ledger' _ only' fresh _ => ?_
      rw [only, List.singleton_inj, Prod.mk.injEq] at only'
      rw [← only'.2, compared, late] at fresh
      cases fresh
    · rw [if_neg late]
      by_cases empty : domains = []
      · rw [if_pos empty]
        refine (yields_trivial _).mono fun result _ domains' _ _ read' _ _ some' => ?_
        rw [read] at read'
        exact absurd (Except.ok.inj read' ▸ empty) some'
      · rw [if_neg empty]
        have whole : Yields (effectiveDomains domains ledger.events >>= fun found =>
            lift (verdict (found.1 ++
              reasonIf (found.2 < snapshot.spec.minimumIndependentDomains)
                "effective_independent_domain_threshold_not_met")
              ((domains.map Prod.fst ++ [document]).map h.document)
              ("effective_domains=" ++ toString found.2))) fun result =>
            result.status = .satisfied ↔
              (∀ event ∈ ledger.events, event.fromDomain ∈ domains.map (·.2.domainId) ∧
                event.toDomain ∈ domains.map (·.2.domainId)) ∧
              snapshot.spec.minimumIndependentDomains ≤ componentsOf domains ledger.events := by
          refine yields_bind (decides_iff.mp (decides_effectiveDomains domains ledger.events)).1
            fun found said => yields_verdict.mono fun result status => ?_
          rw [status, List.append_eq_nil_iff, said.2, reasonIf_eq_nil, not_lt, said.1]
        simp only [effectiveDomains, bind_assoc, pure_bind] at whole
        refine whole.mono fun result holds domains' document' ledger' read' only' _ _ => ?_
        rw [only, List.singleton_inj, Prod.mk.injEq] at only'
        rw [← only'.2, ← Except.ok.inj (read.symm.trans read')]
        exact holds
  · rename_i other
    exact (yields_trivial _).mono fun result _ _ document ledger _ only => absurd only (other _ _)

end counted

/-- The number that is compared with the required domains is that of the components of the graph
of shared values and exposures: it is found for all attestations and events, in any order, and
more matches or exposures among the same domains never increase it. -/
theorem independence_counts_components :
    (∀ domains events, Decides (effectiveDomains domains events) fun found =>
      found.2 = componentsOf domains events) ∧
    (∀ domains domains' events events', domains.Perm domains' → events.Perm events' →
      componentsOf domains events = componentsOf domains' events') ∧
    (∀ (domains domains' : List (Document × IndependenceSpec))
      (events events' : List ExposureEvent),
      (∀ d, d ∈ domains.map (·.2.domainId) ↔ d ∈ domains'.map (·.2.domainId)) →
      (∀ d e, Adjacent {a | ∃ item ∈ domains, item.2 = a} {event | event ∈ events} d e →
        Adjacent {a | ∃ item ∈ domains', item.2 = a} {event | event ∈ events'} d e) →
      componentsOf domains' events' ≤ componentsOf domains events) ∧
    ∀ (h : AuditServices) (snapshot : AnalysisSnapshot) (objects : Objects) (time : DateTime),
      Yields (independence h snapshot objects time) fun result => ∀ domains document ledger,
        liveTyped objects DocumentSpec.independence? IndependenceSpec.lifecycle time = .ok domains →
        typed objects DocumentSpec.exposures? = [(document, ledger)] →
        ledger.observationCompleteThrough.lt time = .ok false → domains ≠ [] →
        (result.status = .satisfied ↔
          (∀ event ∈ ledger.events, event.fromDomain ∈ domains.map (·.2.domainId) ∧
            event.toDomain ∈ domains.map (·.2.domainId)) ∧
          snapshot.spec.minimumIndependentDomains ≤ componentsOf domains ledger.events) := by
  refine ⟨fun domains events => ?_, fun _ _ _ _ => componentsOf_perm, ?_, yields_independence⟩
  · obtain ⟨yields, spends⟩ := decides_iff.mp (decides_effectiveDomains domains events)
    exact decides_iff.mpr ⟨yields.mono fun found said => said.1, spends⟩
  · intro domains domains' events events' same more
    refine effectiveDomainCount_le ?_ (fun d => ?_) more
    · refine (List.finite_toSet (domains.map (·.2.domainId)).dedup).subset fun d inside => ?_
      exact domainOf_iff.mp inside
    · rw [domainOf_iff, domainOf_iff, List.mem_dedup, List.mem_dedup]
      exact same d

end CollectivePhaseControl
