import CollectivePhaseControl.Rationals

/-! Dictionaries keyed by identifiers. Equality ignores insertion order, as it does
for the source's dictionaries and for the canonical bytes that digests are taken of.
A dictionary of rationals denotes a function of the key that is zero off its keys,
and a posting adds to it at one key. -/
namespace CollectivePhaseControl

abbrev Dict (α : Type) := Std.ExtTreeMap String α

namespace Dict
variable {α β : Type}

def item (m : Dict α) (key : Identifier) : Checked α := demand .keyError m[key]?

def values (m : Dict α) : List α := m.toList.map Prod.snd

/-- `{**base, **update}` and `dict.update`: later values win. -/
def update (base new : Dict α) : Dict α :=
  new.toList.foldl (fun m p => m.insert p.1 p.2) base

@[simp] theorem item_ok {m : Dict α} {key : Identifier} {value : α} :
    m.item key = .ok value ↔ m[key]? = some value := by
  simp [item]

theorem nodup_toList (m : Dict α) : (m.toList.map Prod.fst).Nodup := by
  rw [Std.ExtTreeMap.map_fst_toList_eq_keys]
  exact Std.ExtTreeMap.nodup_keys

theorem keys_sorted (m : Dict α) : m.keys.Pairwise (· < ·) :=
  Std.ExtTreeMap.ordered_keys.imp fun less => compare_lt_iff_lt.mp less

theorem mem_keys_toFinset {m : Dict α} {key : Identifier} : key ∈ m.keys.toFinset ↔ key ∈ m := by
  simp

theorem mem_of_getElem? {m : Dict α} {key : Identifier} {value : α}
    (found : m[key]? = some value) : key ∈ m :=
  Std.ExtTreeMap.mem_iff_isSome_getElem?.mpr (by rw [found]; rfl)

theorem mem_values {m : Dict α} {value : α} :
    value ∈ m.values ↔ ∃ key : Identifier, m[key]? = some value := by
  simp [values, Std.ExtTreeMap.mem_toList_iff_getElem?_eq_some]

theorem getElem?_ofList {entries : List (Identifier × α)} {key : Identifier} {value : α}
    (distinct : (entries.map Prod.fst).Nodup) (member : (key, value) ∈ entries) :
    (Std.ExtTreeMap.ofList entries : Dict α)[key]? = some value := by
  apply Std.ExtTreeMap.getElem?_ofList_of_mem (Std.ReflCmp.compare_self) _ member
  rw [List.Nodup, List.pairwise_map] at distinct
  exact distinct.imp fun other same => other (Std.LawfulEqCmp.eq_of_compare same)

private theorem mem_of_insertMany {key : Identifier} {value : α} : ∀ {entries : List (Identifier × α)}
    {m : Dict α}, (m.insertMany entries)[key]? = some value →
      m[key]? = some value ∨ (key, value) ∈ entries := by
  intro entries
  induction entries with
  | nil => exact fun found => .inl found
  | cons entry entries ih =>
    intro m found
    rw [Std.ExtTreeMap.insertMany_cons] at found
    cases ih found with
    | inr later => exact .inr (List.mem_cons_of_mem _ later)
    | inl earlier =>
      by_cases same : entry.1 = key
      · subst same
        rw [Std.ExtTreeMap.getElem?_insert_self] at earlier
        cases earlier
        exact .inr List.mem_cons_self
      · rw [Std.ExtTreeMap.getElem?_insert, if_neg (by simpa using same)] at earlier
        exact .inl earlier

theorem mem_of_ofList {entries : List (Identifier × α)} {key : Identifier} {value : α}
    (found : (Std.ExtTreeMap.ofList entries : Dict α)[key]? = some value) :
    (key, value) ∈ entries := by
  rw [Std.ExtTreeMap.ofList_eq_insertMany_empty] at found
  cases mem_of_insertMany found with
  | inl empty => simp at empty
  | inr member => exact member

theorem getElem?_ofList_iff {entries : List (Identifier × α)} {key : Identifier} {value : α}
    (agree : ∀ other, (key, other) ∈ entries → other = value) :
    (Std.ExtTreeMap.ofList entries : Dict α)[key]? = some value ↔ (key, value) ∈ entries := by
  refine ⟨mem_of_ofList, fun member => ?_⟩
  have present : key ∈ (Std.ExtTreeMap.ofList entries : Dict α) := by
    rw [Std.ExtTreeMap.mem_ofList]
    simpa using ⟨value, member⟩
  have found := Std.ExtTreeMap.getElem?_eq_some_getElem present
  rw [agree _ (mem_of_ofList found)] at found
  exact found

end Dict

theorem mem_of_lookup {α β : Type*} [BEq α] [LawfulBEq α] {entries : List (α × β)} {key : α}
    {value : β} (h : entries.lookup key = some value) : (key, value) ∈ entries := by
  obtain ⟨before, after, rfl, -⟩ := List.lookup_eq_some_iff.mp h
  simp

theorem lookup_of_mem {α β : Type*} [BEq α] [LawfulBEq α] {entries : List (α × β)} {key : α}
    {value : β} (distinct : (entries.map Prod.fst).Nodup) (member : (key, value) ∈ entries) :
    entries.lookup key = some value := by
  induction entries with
  | nil => simp at member
  | cons entry entries ih =>
    obtain ⟨fresh, rest⟩ := List.nodup_cons.mp distinct
    rcases List.mem_cons.mp member with rfl | tail
    · exact List.lookup_cons_self
    · have other : (key == entry.1) = false := by
        rw [beq_eq_false_iff_ne]
        rintro rfl
        exact fresh (List.mem_map.mpr ⟨_, tail, rfl⟩)
      rw [List.lookup_cons, other]
      exact ih rest tail

theorem filter_key {α β : Type*} [DecidableEq α] {entries : List (α × β)} {key : α} {value : β}
    (distinct : (entries.map Prod.fst).Nodup) (member : (key, value) ∈ entries) :
    entries.filter (·.1 = key) = [(key, value)] := by
  induction entries with
  | nil => simp at member
  | cons entry entries ih =>
    obtain ⟨fresh, rest⟩ := List.nodup_cons.mp distinct
    rcases List.mem_cons.mp member with rfl | tail
    · have nothing : entries.filter (·.1 = key) = [] := by
        refine List.filter_eq_nil_iff.mpr fun other listed => ?_
        simp only [decide_eq_true_eq]
        rintro rfl
        exact fresh (List.mem_map.mpr ⟨other, listed, rfl⟩)
      rw [List.filter_cons_of_pos (by simp), nothing]
    · have other : entry.1 ≠ key := by
        rintro rfl
        exact fresh (List.mem_map.mpr ⟨_, tail, rfl⟩)
      rw [List.filter_cons_of_neg (by simpa using other)]
      exact ih rest tail

theorem forall₂_lookup_zip {α β : Type*} [BEq α] [LawfulBEq α] {keys : List α} {values : List β}
    (distinct : keys.Nodup) (same : keys.length = values.length) :
    List.Forall₂ (fun key value => (keys.zip values).lookup key = some value) keys values := by
  induction keys generalizing values with
  | nil =>
    cases values with
    | nil => exact .nil
    | cons => simp at same
  | cons key keys ih =>
    cases values with
    | nil => simp at same
    | cons value values =>
      obtain ⟨fresh, rest⟩ := List.nodup_cons.mp distinct
      have tail := (List.forall₂_and_left _ _).mpr
        ⟨fun _ member => member, ih rest (by simpa using same)⟩
      refine .cons List.lookup_cons_self (tail.imp fun k v ⟨member, found⟩ => ?_)
      have other : (k == key) = false := by
        rw [beq_eq_false_iff_ne]
        rintro rfl
        exact fresh member
      rw [List.zip_cons_cons, List.lookup_cons, other]
      exact found

def balance (m : Dict Rational) (key : Identifier) : ℚ := F (m.getD key (.ofNat 0))

/-- `m[key] = str(F(m.get(key, "0")) + amount)`. -/
def post (m : Dict Rational) (key : Identifier) (amount : ℚ) : Dict Rational :=
  m.insert key (str (F (m.getD key (.ofNat 0)) + amount))

@[simp] theorem balance_empty : balance ∅ = 0 := by
  funext key
  simp [balance]

theorem balance_insert (m : Dict Rational) (key : Identifier) (value : Rational) :
    balance (m.insert key value) = Function.update (balance m) key (F value) := by
  funext k
  by_cases h : k = key
  · simp [balance, h]
  · have other : compare key k ≠ .eq := by simpa using Ne.symm h
    simp [balance, Std.ExtTreeMap.getD_insert, h, other]

@[simp] theorem balance_post (m : Dict Rational) (key : Identifier) (amount : ℚ) :
    balance (post m key amount) = balance m + Pi.single key amount := by
  rw [post, balance_insert]
  funext k
  by_cases h : k = key
  · simp [h, balance]
  · simp [h]

theorem balance_of_mem {m : Dict Rational} {key : Identifier} {value : Rational}
    (h : m[key]? = some value) : balance m key = F value := by
  simp [balance, Std.ExtTreeMap.getD_eq_getD_getElem?, h]

theorem balance_of_notMem {m : Dict Rational} {key : Identifier} (h : key ∉ m) :
    balance m key = 0 := by
  simp [balance, Std.ExtTreeMap.getD_eq_fallback h]

private theorem sum_single_of_notMem {xs : List (Identifier × Rational)} {key : Identifier}
    (absent : key ∉ xs.map Prod.fst) :
    (xs.map fun p => (Pi.single p.1 (F p.2) : Identifier → ℚ)).sum key = 0 := by
  induction xs with
  | nil => rfl
  | cons p xs ih =>
    rw [List.map_cons, List.mem_cons, not_or] at absent
    simp [ih absent.2, absent.1]

private theorem sum_single_of_mem {xs : List (Identifier × Rational)} {key : Identifier}
    {value : Rational} (distinct : (xs.map Prod.fst).Nodup) (member : (key, value) ∈ xs) :
    (xs.map fun p => (Pi.single p.1 (F p.2) : Identifier → ℚ)).sum key = F value := by
  induction xs with
  | nil => simp at member
  | cons p xs ih =>
    obtain ⟨fresh, rest⟩ := List.nodup_cons.mp distinct
    rw [List.map_cons, List.sum_cons, Pi.add_apply]
    rcases List.mem_cons.mp member with rfl | tail
    · simp [sum_single_of_notMem fresh]
    · have other : key ≠ p.1 := by
        rintro rfl
        exact fresh (List.mem_map.mpr ⟨_, tail, rfl⟩)
      simp [ih rest tail, other]

theorem sum_single_toList (m : Dict Rational) :
    (m.toList.map fun p => (Pi.single p.1 (F p.2) : Identifier → ℚ)).sum = balance m := by
  funext key
  by_cases h : key ∈ m
  · have found : m[key]? = some m[key] := Std.ExtTreeMap.getElem?_eq_some_getElem h
    rw [balance_of_mem found]
    exact sum_single_of_mem (Dict.nodup_toList m)
      (Std.ExtTreeMap.mem_toList_iff_getElem?_eq_some.mpr found)
  · rw [balance_of_notMem h]
    apply sum_single_of_notMem
    rw [Std.ExtTreeMap.map_fst_toList_eq_keys]
    simpa using h

end CollectivePhaseControl
