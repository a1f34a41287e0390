import Mathlib.Data.Set.Card
import Mathlib.Order.Basic

/-! Histories of a deterministic system, newest action first, and their breadth-first search.
Shorter histories are earlier; those of one length are ordered by their first difference. A search
that follows every new state once follows the earliest history of each, and records the actions
after these in order. -/
namespace Histories

variable {σ α : Type*} [LinearOrder α]

def after (step : σ → α → Option σ) (start : σ) : List α → Option σ
  | [] => some start
  | a :: before => (after step start before).bind (step · a)

def Earlier : List α → List α → Prop
  | _, [] => False
  | [], _ :: _ => True
  | a :: before, b :: before' => Earlier before before' ∨ before = before' ∧ a < b

section order
variable {x y z : List α} {a b : α}

@[simp] theorem not_earlier_nil : ¬Earlier x [] := by
  cases x <;> simp [Earlier]

@[simp] theorem nil_earlier_cons : Earlier [] (a :: x) := trivial

theorem cons_earlier_cons : Earlier (a :: x) (b :: y) ↔ Earlier x y ∨ x = y ∧ a < b := Iff.rfl

theorem earlier_irrefl : ∀ x : List α, ¬Earlier x x
  | [] => not_earlier_nil
  | a :: x => by
    rw [cons_earlier_cons, not_or]
    exact ⟨earlier_irrefl x, fun both => lt_irrefl a both.2⟩

theorem Earlier.trans : ∀ {x y z : List α}, Earlier x y → Earlier y z → Earlier x z
  | _, [], _, first, _ => absurd first not_earlier_nil
  | _, _ :: _, [], _, second => absurd second not_earlier_nil
  | [], _ :: _, _ :: _, _, _ => trivial
  | a :: x, b :: y, c :: z, first, second => by
    rw [cons_earlier_cons] at first second ⊢
    cases first with
    | inl less =>
      cases second with
      | inl less' => exact Or.inl (less.trans less')
      | inr same => exact Or.inl (same.1 ▸ less)
    | inr same =>
      cases second with
      | inl less' => exact Or.inl (same.1 ▸ less')
      | inr same' => exact Or.inr ⟨same.1.trans same'.1, same.2.trans same'.2⟩

theorem Earlier.asymm (first : Earlier x y) : ¬Earlier y x := fun second =>
  earlier_irrefl x (first.trans second)

theorem earlier_total : ∀ x y : List α, Earlier x y ∨ x = y ∨ Earlier y x
  | [], [] => Or.inr (Or.inl rfl)
  | [], _ :: _ => Or.inl trivial
  | _ :: _, [] => Or.inr (Or.inr trivial)
  | a :: x, b :: y => by
    simp only [cons_earlier_cons, List.cons.injEq]
    have tails := earlier_total x y
    have heads := lt_trichotomy a b
    grind

theorem earlier_cons : ∀ x : List α, ∀ a, Earlier x (a :: x)
  | [], _ => trivial
  | b :: x, _ => Or.inl (earlier_cons x b)

theorem Earlier.length_le : ∀ {x y : List α}, Earlier x y → x.length ≤ y.length
  | _, [], earlier => absurd earlier not_earlier_nil
  | [], _ :: _, _ => Nat.zero_le _
  | _ :: x, _ :: y, earlier => by
    rw [cons_earlier_cons] at earlier
    cases earlier with
    | inl less => exact Nat.succ_le_succ less.length_le
    | inr same => simp [same.1]

end order

section search
variable (step : σ → α → Option σ) (start : σ)

def Least (x : List α) : Prop :=
  (after step start x).isSome = true ∧
    ∀ y, Earlier y x → after step start y ≠ after step start x

/-- An action that can be taken after the earliest history of a state. -/
def Listed (x : List α) : Prop :=
  (after step start x).isSome = true ∧ ∃ a before, x = a :: before ∧ Least step start before

def extensions (letters : List α) (x : List α) : List (List α) :=
  (letters.filter fun a => (after step start (a :: x)).isSome).map (· :: x)

/-- What a search has recorded, and which of that it follows. -/
structure Search (nodes words : List (List α)) : Prop where
  least : ∀ x ∈ nodes, Least step start x
  ordered : nodes.Pairwise Earlier
  recorded : words.Pairwise Earlier
  possible : ∀ x ∈ words, (after step start x).isSome = true
  found : ∀ x ∈ nodes, x ∈ [] :: words
  followed : ∀ x ∈ [] :: words, ∃ y ∈ nodes, after step start y = after step start x ∧
    (y = x ∨ Earlier y x)

/-- The search is taking the actions after one history. -/
structure Within (letters : List α) (processed : List (List α)) (here : List α) (done : List α)
    (waiting words : List (List α)) : Prop where
  search : Search step start (processed ++ here :: waiting) words
  words_eq : words = processed.flatMap (extensions step start letters) ++
    extensions step start done here

variable {step start} {letters : List α} {processed waiting words : List (List α)}
  {here : List α} {done rest : List α} {a : α}

omit [LinearOrder α] in
theorem isSome_after_cons {x : List α} : (after step start (a :: x)).isSome = true ↔
    ∃ state, after step start x = some state ∧ (step state a).isSome = true := by
  rw [after]
  cases after step start x <;> simp

omit [LinearOrder α] in
theorem mem_extensions {x y : List α} : y ∈ extensions step start letters x ↔
    ∃ a ∈ letters, y = a :: x ∧ (after step start (a :: x)).isSome = true := by
  simp only [extensions, List.mem_map, List.mem_filter]
  grind

theorem search_start : Search step start [[]] [] := by
  refine ⟨?_, by simp, by simp, by simp, by simp, ?_⟩
  · simp [Least, after]
  · simp

theorem Within.enter (search : Search step start (processed ++ here :: waiting) words)
    (words_eq : words = processed.flatMap (extensions step start letters)) :
    Within step start letters processed here [] waiting words :=
  ⟨search, by simp [words_eq, extensions]⟩

theorem Within.leave (within : Within step start letters processed here letters waiting words) :
    Search step start ((processed ++ [here]) ++ waiting) words ∧
      words = (processed ++ [here]).flatMap (extensions step start letters) := by
  refine ⟨by simpa using within.search, ?_⟩
  rw [within.words_eq]
  simp

theorem Within.skip (within : Within step start letters processed here done waiting words)
    (stuck : (after step start (a :: here)).isSome = false) :
    Within step start letters processed here (done ++ [a]) waiting words := by
  refine ⟨within.search, ?_⟩
  rw [within.words_eq]
  simp [extensions, stuck]

theorem Within.earlier (within : Within step start letters processed here done waiting words)
    (sorted : (done ++ a :: rest).Pairwise (· < ·)) : ∀ x ∈ words, Earlier x (a :: here) := by
  intro x member
  rw [within.words_eq, List.mem_append, List.mem_flatMap] at member
  cases member with
  | inl before =>
    obtain ⟨p, listed, extended⟩ := before
    obtain ⟨b, -, rfl, -⟩ := mem_extensions.mp extended
    have ordered := (List.pairwise_append.mp within.search.ordered).2.2 p listed here (by simp)
    exact Or.inl ordered
  | inr current =>
    obtain ⟨b, listed, rfl, -⟩ := mem_extensions.mp current
    exact Or.inr ⟨rfl, (List.pairwise_append.mp sorted).2.2 b listed a (by simp)⟩

theorem Within.node_earlier (within : Within step start letters processed here done waiting words)
    (sorted : (done ++ a :: rest).Pairwise (· < ·)) :
    ∀ x ∈ processed ++ here :: waiting, Earlier x (a :: here) := by
  intro x member
  cases List.mem_cons.mp (within.search.found x member) with
  | inl empty => exact empty ▸ nil_earlier_cons
  | inr old => exact within.earlier sorted x old

theorem Within.recorded (within : Within step start letters processed here done waiting words)
    (split : letters = done ++ a :: rest) (sorted : letters.Pairwise (· < ·)) {b : α} {y : List α}
    (node : y ∈ processed ++ here :: waiting) (letter : b ∈ letters)
    (possible : (after step start (b :: y)).isSome = true)
    (before : Earlier (b :: y) (a :: here)) : b :: y ∈ words := by
  rw [within.words_eq, List.mem_append, List.mem_flatMap]
  cases cons_earlier_cons.mp before with
  | inl less =>
    refine Or.inl ⟨y, ?_, mem_extensions.mpr ⟨b, letter, rfl, possible⟩⟩
    -- a node that is earlier than the current one has been processed
    have later := (List.pairwise_append.mp within.search.ordered).2.1
    rw [List.mem_append, List.mem_cons] at node
    rcases node with done_ | same | behind
    · exact done_
    · exact absurd less (same ▸ earlier_irrefl here)
    · exact absurd less ((List.pairwise_cons.mp later).1 y behind).asymm
  | inr same =>
    obtain ⟨rfl, less⟩ := same
    refine Or.inr (mem_extensions.mpr ⟨b, ?_, rfl, possible⟩)
    rw [split, List.mem_append, List.mem_cons] at letter
    rw [split] at sorted
    have later := (List.pairwise_append.mp sorted).2.1
    rcases letter with earlier | same | behind
    · exact earlier
    · exact absurd less (same ▸ lt_irrefl a)
    · exact absurd less ((List.pairwise_cons.mp later).1 b behind).asymm

/-- A history that is earlier than the next action leads to a state that is followed, by the
same history or an earlier one. -/
theorem Within.node_of_earlier
    (within : Within step start letters processed here done waiting words)
    (split : letters = done ++ a :: rest) (sorted : letters.Pairwise (· < ·))
    (allowed : ∀ state b, (step state b).isSome = true → b ∈ letters) {x : List α}
    (before : Earlier x (a :: here)) (possible : (after step start x).isSome = true) :
    ∃ y ∈ processed ++ here :: waiting, after step start y = after step start x ∧
      (y = x ∨ Earlier y x) := by
  induction x with
  | nil => exact within.search.followed [] List.mem_cons_self
  | cons b x ih =>
    obtain ⟨reached, taken, onward⟩ := isSome_after_cons.mp possible
    obtain ⟨y, node, same, either⟩ := ih ((earlier_cons x b).trans before) (by simp [taken])
    have equal : after step start (b :: y) = after step start (b :: x) := by
      rw [after, after, same]
    have below : b :: y = b :: x ∨ Earlier (b :: y) (b :: x) := by
      cases either with
      | inl same => exact Or.inl (by rw [same])
      | inr less => exact Or.inr (Or.inl less)
    have next : Earlier (b :: y) (a :: here) := by
      cases below with
      | inl same => exact same ▸ before
      | inr less => exact less.trans before
    have listed := within.recorded split sorted node (allowed reached b onward)
      (by rw [equal, possible]) next
    obtain ⟨z, node', same', either'⟩ :=
      within.search.followed (b :: y) (List.mem_cons_of_mem _ listed)
    refine ⟨z, node', same'.trans equal, ?_⟩
    grind [Earlier.trans]

theorem Within.again (within : Within step start letters processed here done waiting words)
    (sorted : (done ++ a :: rest).Pairwise (· < ·))
    (possible : (after step start (a :: here)).isSome = true)
    (seen : ∃ y ∈ processed ++ here :: waiting, after step start y = after step start (a :: here)) :
    Within step start letters processed here (done ++ [a]) waiting (words ++ [a :: here]) := by
  obtain ⟨⟨least, ordered, recorded, open_, found, followed⟩, words_eq⟩ := id within
  refine ⟨⟨least, ordered, ?_, ?_, fun x node => ?_, fun x member => ?_⟩, ?_⟩
  · simpa [List.pairwise_append, recorded] using within.earlier sorted
  · simpa [or_imp, forall_and, possible] using open_
  · exact List.cons_subset_cons _ (List.subset_append_left _ _) (found x node)
  · rw [← List.cons_append, List.mem_append, List.mem_singleton] at member
    cases member with
    | inl old => exact followed x old
    | inr new =>
      obtain ⟨y, node, same⟩ := seen
      exact ⟨y, node, new ▸ same, Or.inr (new ▸ within.node_earlier sorted y node)⟩
  · rw [words_eq]
    simp [extensions, possible]

theorem Within.follow (within : Within step start letters processed here done waiting words)
    (split : letters = done ++ a :: rest) (sorted : letters.Pairwise (· < ·))
    (allowed : ∀ state b, (step state b).isSome = true → b ∈ letters)
    (possible : (after step start (a :: here)).isSome = true)
    (new : ∀ y ∈ processed ++ here :: waiting,
      after step start y ≠ after step start (a :: here)) :
    Within step start letters processed here (done ++ [a]) (waiting ++ [a :: here])
      (words ++ [a :: here]) := by
  obtain ⟨⟨least, ordered, recorded, open_, found, followed⟩, words_eq⟩ := id within
  have nodes : processed ++ here :: (waiting ++ [a :: here]) =
      (processed ++ here :: waiting) ++ [a :: here] := by simp
  have earlier := within.node_earlier (split ▸ sorted)
  have first : Least step start (a :: here) := by
    refine ⟨possible, fun y before same => ?_⟩
    obtain ⟨z, node, same', -⟩ :=
      within.node_of_earlier split sorted allowed before (by rw [same, possible])
    exact new z node (same'.trans same)
  refine ⟨?_, ?_⟩
  · rw [nodes]
    refine ⟨?_, ?_, ?_, ?_, fun x node => ?_, fun x member => ?_⟩
    · simpa [or_imp, forall_and, first] using least
    · rw [List.pairwise_append]
      exact ⟨ordered, List.pairwise_singleton _ _, by simpa using earlier⟩
    · rw [List.pairwise_append]
      exact ⟨recorded, List.pairwise_singleton _ _,
        by simpa using within.earlier (split ▸ sorted)⟩
    · simpa [or_imp, forall_and, possible] using open_
    · rw [← List.cons_append, List.mem_append]
      rw [List.mem_append] at node
      exact node.imp_left (found x)
    · rw [← List.cons_append, List.mem_append, List.mem_singleton] at member
      cases member with
      | inl old =>
        obtain ⟨y, node, same⟩ := followed x old
        exact ⟨y, List.mem_append_left _ node, same⟩
      | inr last => exact ⟨x, by simp [last], rfl, Or.inl rfl⟩
  · rw [words_eq]
    simp [extensions, possible]

/-- The first of the listed histories, as many as fit. -/
structure First (step : σ → α → Option σ) (start : σ) (limit : ℕ) (words : List (List α)) :
    Prop where
  listed : ∀ x ∈ words, Listed step start x
  sorted : words.Pairwise Earlier
  few : words.length ≤ limit
  complete : ∀ x, Listed step start x →
    x ∈ words ∨ words.length = limit ∧ ∀ y ∈ words, Earlier y x

theorem Search.listed {nodes : List (List α)} (search : Search step start nodes words)
    (extended : ∀ x ∈ words, ∃ y ∈ nodes, ∃ a, x = a :: y) : ∀ x ∈ words, Listed step start x := by
  intro x member
  obtain ⟨y, node, a, rfl⟩ := extended x member
  exact ⟨search.possible _ member, a, y, rfl, search.least y node⟩

theorem Search.node_of {nodes : List (List α)} (search : Search step start nodes words)
    (words_eq : words = nodes.flatMap (extensions step start letters))
    (allowed : ∀ state b, (step state b).isSome = true → b ∈ letters) {x : List α}
    (possible : (after step start x).isSome = true) :
    ∃ y ∈ nodes, after step start y = after step start x ∧ (y = x ∨ Earlier y x) := by
  induction x with
  | nil => exact search.followed [] List.mem_cons_self
  | cons b x ih =>
    obtain ⟨reached, taken, onward⟩ := isSome_after_cons.mp possible
    obtain ⟨y, node, same, either⟩ := ih (by simp [taken])
    have equal : after step start (b :: y) = after step start (b :: x) := by
      rw [after, after, same]
    have listed : b :: y ∈ words := by
      rw [words_eq, List.mem_flatMap]
      exact ⟨y, node, mem_extensions.mpr ⟨b, allowed reached b onward, rfl, by rw [equal, possible]⟩⟩
    obtain ⟨z, node', same', either'⟩ := search.followed (b :: y) (List.mem_cons_of_mem _ listed)
    refine ⟨z, node', same'.trans equal, ?_⟩
    grind [Earlier.trans, cons_earlier_cons]

theorem Search.first {nodes : List (List α)} {limit : ℕ} (search : Search step start nodes words)
    (words_eq : words = nodes.flatMap (extensions step start letters))
    (allowed : ∀ state b, (step state b).isSome = true → b ∈ letters)
    (few : words.length ≤ limit) : First step start limit words := by
  refine ⟨search.listed fun x member => ?_, search.recorded, few, fun x listed => Or.inl ?_⟩
  · rw [words_eq, List.mem_flatMap] at member
    obtain ⟨y, node, extended⟩ := member
    obtain ⟨a, -, same, -⟩ := mem_extensions.mp extended
    exact ⟨y, node, a, same⟩
  · obtain ⟨possible, a, before, rfl, least⟩ := listed
    obtain ⟨reached, taken, onward⟩ := isSome_after_cons.mp possible
    obtain ⟨y, node, same, either⟩ := search.node_of words_eq allowed
      (show (after step start before).isSome = true by simp [taken])
    have itself : y = before := either.resolve_right fun less => least.2 y less same
    rw [words_eq, List.mem_flatMap]
    exact ⟨before, itself ▸ node, mem_extensions.mpr ⟨a, allowed reached a onward, rfl, possible⟩⟩

theorem Within.listed (within : Within step start letters processed here done waiting words) :
    ∀ x ∈ words, Listed step start x := by
  refine within.search.listed fun x member => ?_
  rw [within.words_eq, List.mem_append, List.mem_flatMap] at member
  cases member with
  | inl before =>
    obtain ⟨y, node, extended⟩ := before
    obtain ⟨a, -, same, -⟩ := mem_extensions.mp extended
    exact ⟨y, List.mem_append_left _ node, a, same⟩
  | inr current =>
    obtain ⟨a, -, same, -⟩ := mem_extensions.mp current
    exact ⟨here, by simp, a, same⟩

theorem Within.first (within : Within step start letters processed here done waiting words)
    (split : letters = done ++ a :: rest) (sorted : letters.Pairwise (· < ·))
    (allowed : ∀ state b, (step state b).isSome = true → b ∈ letters) {limit : ℕ}
    (full : words.length = limit) : First step start limit words := by
  refine ⟨within.listed, within.search.recorded, full.le, fun x listed => ?_⟩
  obtain ⟨possible, b, before, rfl, least⟩ := listed
  obtain ⟨reached, taken, onward⟩ := isSome_after_cons.mp possible
  by_cases next : Earlier (b :: before) (a :: here)
  · obtain ⟨y, node, same, either⟩ := within.node_of_earlier split sorted allowed
      ((earlier_cons before b).trans next) (by simp [taken])
    have itself : y = before := either.resolve_right fun less => least.2 y less same
    exact Or.inl (within.recorded split sorted (itself ▸ node) (allowed reached b onward)
      possible next)
  · refine Or.inr ⟨full, fun y member => ?_⟩
    have passed := within.earlier (split ▸ sorted) y member
    have either := earlier_total (b :: before) (a :: here)
    grind [Earlier.trans]

theorem First.mem_iff {limit : ℕ} (first : First step start limit words) {x : List α} :
    x ∈ words ↔ Listed step start x ∧ {y | Listed step start y ∧ Earlier y x}.encard < limit := by
  constructor
  · intro member
    refine ⟨first.listed x member, ?_⟩
    have within :
        {y | Listed step start y ∧ Earlier y x} ⊆ (words.toFinset.erase x : Set (List α)) := by
      intro y both
      have other : y ≠ x := fun same => earlier_irrefl x (same ▸ both.2)
      have recorded := (first.complete y both.1).resolve_right fun late =>
        (late.2 x member).asymm both.2
      simp [other, recorded]
    refine lt_of_le_of_lt (Set.encard_le_encard within) ?_
    rw [Set.encard_coe_eq_coe_finsetCard]
    have less := Finset.card_erase_lt_of_mem (List.mem_toFinset.mpr member)
    exact_mod_cast lt_of_lt_of_le less ((List.toFinset_card_le words).trans first.few)
  · intro given
    obtain ⟨listed, less⟩ := given
    refine (first.complete x listed).resolve_right fun late => not_le.mpr less ?_
    have within : (words.toFinset : Set (List α)) ⊆ {y | Listed step start y ∧ Earlier y x} := by
      intro y member
      rw [Finset.mem_coe, List.mem_toFinset] at member
      exact ⟨first.listed y member, late.2 y member⟩
    have distinct : words.Nodup := first.sorted.imp fun {y z} less => by
      rintro rfl
      exact earlier_irrefl y less
    calc (limit : ℕ∞) = words.length := by rw [late.1]
      _ = (words.toFinset : Set (List α)).encard := by
        rw [Set.encard_coe_eq_coe_finsetCard, List.toFinset_card_of_nodup distinct]
      _ ≤ _ := Set.encard_le_encard within

end search

end Histories
