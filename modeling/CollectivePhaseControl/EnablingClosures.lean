import CollectivePhaseControl.LegacyNetworks
import CollectivePhaseControl.StagedFirings

/-! The enabling closure of the v0.5 format. Its layers count what a transformation gains in
catalysts only if it also yields a new state. -/
namespace CollectivePhaseControl
namespace Enabling

/-- `not value`. -/
def falsy : Json → Bool
  | .null => true
  | .bool value => !value
  | .int value => value == 0
  | .str value => value == ""
  | .array items => items.isEmpty
  | .object members => members.isEmpty

def clauseMet (catalysts : Finset Identifier) : Json → Bool
  | .array items => decide (idSet (.array items) ∩ catalysts ≠ ∅)
  | _ => false

def clausesMet (catalysts : Finset Identifier) : Json → Bool
  | .array (clause :: clauses) => (clause :: clauses).all (clauseMet catalysts)
  | _ => false

def enabled (edge : JsonObject) (available catalysts inhibitors : Finset Identifier) : Bool :=
  let clauses := edge.get "catalyst_clauses"
  decide (idSet (edge.get "inputs") ⊆ available) &&
  decide (idSet (edge.get "authority_refs") ⊆ available) &&
  decide (idSet (edge.get "evidence_refs") ⊆ available) &&
  decide (idSet (edge.get "inhibitors") ∩ inhibitors = ∅) &&
  if (edge.get "explicitly_uncatalyzed").isTrue then falsy clauses else clausesMet catalysts clauses

def outputs (edge : JsonObject) : Finset Identifier := idSet (edge.get "outputs")
def producedCatalysts (edge : JsonObject) : Finset Identifier := idSet (edge.get "produced_catalysts")

structure Scan where
  additions : Finset Identifier
  nextCatalysts : Finset Identifier
  used : Finset Identifier
  operations : ℕ

def scanLayer (inhibitors : Finset Identifier) (operationBudget : ℕ)
    (available catalysts : Finset Identifier) : List (Identifier × JsonObject) → Scan →
    Checked Scan
  | [], scan => .ok scan
  | (transformationId, edge) :: rest, scan =>
    if operationBudget < scan.operations + 1 then .error (.coded "unknown_due_to_budget")
    else scanLayer inhibitors operationBudget available catalysts rest
      (if enabled edge available catalysts inhibitors = true ∧ ¬ outputs edge ⊆ available then
        { additions := scan.additions ∪ outputs edge
          nextCatalysts := scan.nextCatalysts ∪ producedCatalysts edge
          used := insert transformationId scan.used
          operations := scan.operations + 1 }
      else { scan with operations := scan.operations + 1 })

structure Closure where
  available : Finset Identifier
  layers : Dict ℕ
  used : Finset Identifier
  operations : ℕ

/-- The loop; `layer` is the number of the last layer and `catalysts` what it had. -/
def closureLoop (transformations : LegacyNetwork) (inhibitors : Finset Identifier)
    (operationBudget : ℕ) : ℕ → ℕ → Finset Identifier → Closure → Checked Closure
  | 0, _, _, _ => .error (.crash .diverges)
  | n + 1, layer, catalysts, run => do
    let scan ← scanLayer inhibitors operationBudget run.available catalysts
      transformations.toList ⟨∅, ∅, run.used, run.operations⟩
    if scan.additions = ∅ then
      pure { run with used := scan.used, operations := scan.operations }
    else
      closureLoop transformations inhibitors operationBudget n (layer + 1)
        (catalysts ∪ scan.nextCatalysts)
        { available := run.available ∪ scan.additions
          layers := (inOrder scan.additions).foldl
            (fun layers item => layers.insertIfNew item (layer + 1)) run.layers
          used := scan.used
          operations := scan.operations }

/-- `_closure`; every layer with transformations takes an operation of the budget. -/
def closure (initial : Finset Identifier) (transformations : LegacyNetwork)
    (catalysts inhibitors : Finset Identifier) (operationBudget : ℕ) : Checked Closure :=
  closureLoop transformations inhibitors operationBudget (operationBudget + 1) 0 catalysts
    { available := initial
      layers := .ofList ((inOrder initial).map fun item => (item, 0))
      used := ∅
      operations := 0 }

section firings
variable {edge : JsonObject} {inhibitors available catalysts : Finset Identifier}
  {transformations : LegacyNetwork} {operationBudget : ℕ}

def Wants (edge : JsonObject) (catalyst : Identifier) : Prop :=
  ∃ clauses, edge.get "catalyst_clauses" = .array clauses ∧
    ∃ clause ∈ clauses, catalyst ∈ idSet clause

theorem clausesMet_mono {more : Finset Identifier}
    (above : ∀ catalyst ∈ catalysts, Wants edge catalyst → catalyst ∈ more)
    (met : clausesMet catalysts (edge.get "catalyst_clauses") = true) :
    clausesMet more (edge.get "catalyst_clauses") = true := by
  have one : ∀ clause : Json, (∀ catalyst ∈ idSet clause, catalyst ∈ catalysts → catalyst ∈ more) →
      clauseMet catalysts clause = true → clauseMet more clause = true := by
    intro clause above met
    cases clause with
    | array items =>
      simp only [clauseMet, decide_eq_true_eq, ne_eq, ← Finset.nonempty_iff_ne_empty] at met ⊢
      obtain ⟨catalyst, member⟩ := met
      obtain ⟨listed, there⟩ := Finset.mem_inter.mp member
      exact ⟨catalyst, Finset.mem_inter.mpr ⟨listed, above catalyst listed there⟩⟩
    | _ => cases met
  cases clauses : edge.get "catalyst_clauses" with
  | array items =>
    rw [clauses] at met
    cases items with
    | nil => cases met
    | cons clause rest =>
      rw [clausesMet, List.all_eq_true] at met ⊢
      refine fun clause listed => one clause (fun catalyst named there => ?_) (met clause listed)
      exact above catalyst there ⟨_, clauses, clause, listed, named⟩
  | _ => rw [clauses] at met; cases met

theorem enabled_mono {more moreCatalysts : Finset Identifier} (above : available ⊆ more)
    (above' : ∀ catalyst ∈ catalysts, Wants edge catalyst → catalyst ∈ moreCatalysts)
    (before : enabled edge available catalysts inhibitors = true) :
    enabled edge more moreCatalysts inhibitors = true := by
  simp only [enabled, Bool.and_eq_true, decide_eq_true_eq] at before ⊢
  obtain ⟨⟨⟨⟨inputs, authority⟩, evidence⟩, free⟩, clauses⟩ := before
  refine ⟨⟨⟨⟨inputs.trans above, authority.trans above⟩, evidence.trans above⟩, free⟩, ?_⟩
  split_ifs at clauses ⊢
  · exact clauses
  · exact clausesMet_mono above' clauses

/-- The transformations fire with all their outputs and all their produced catalysts. -/
def system (transformations : LegacyNetwork) (inhibitors : Finset Identifier) :
    Staged.System (Identifier × JsonObject) Identifier Identifier where
  labels := transformations.toList
  enabled entry stage := enabled entry.2 stage.1 stage.2 inhibitors
  gain entry := (outputs entry.2, producedCatalysts entry.2)
  monotone _ _ _ above := enabled_mono above.1 fun _ member _ => above.2 member

theorem productive_iff {entry : Identifier × JsonObject} :
    (system transformations inhibitors).productive (available, catalysts) entry = true ↔
      enabled entry.2 available catalysts inhibitors = true ∧ ¬ outputs entry.2 ⊆ available := by
  have unfolded : (system transformations inhibitors).productive (available, catalysts) entry =
      (enabled entry.2 available catalysts inhibitors && !decide (outputs entry.2 ⊆ available)) :=
    rfl
  rw [unfolded, Bool.and_eq_true, Bool.not_eq_true', decide_eq_false_iff_not]

theorem scanLayer_spec : ∀ {rest : List (Identifier × JsonObject)} {scan result : Scan},
    scanLayer inhibitors operationBudget available catalysts rest scan = .ok result →
    (available ∪ result.additions, catalysts ∪ result.nextCatalysts) =
      (rest.filter ((system transformations inhibitors).productive (available, catalysts))).foldl
        (fun stage entry => stage ⊔ (system transformations inhibitors).gain entry)
        (available ∪ scan.additions, catalysts ∪ scan.nextCatalysts) ∧
    (result.additions = ∅ ↔ scan.additions = ∅ ∧
      rest.filter ((system transformations inhibitors).productive (available, catalysts)) = []) ∧
    result.operations = scan.operations + rest.length := by
  intro rest
  induction rest with
  | nil =>
    intro scan result run
    cases run
    simp
  | cons entry rest ih =>
    intro scan result run
    obtain ⟨transformationId, edge⟩ := entry
    have gains : (system transformations inhibitors).productive (available, catalysts)
        (transformationId, edge) = true ↔ enabled edge available catalysts inhibitors = true ∧
          ¬ outputs edge ⊆ available := productive_iff
    rw [scanLayer] at run
    split_ifs at run with exhausted productive
    · obtain ⟨stage, none, operations⟩ := ih run
      have new : outputs edge ≠ ∅ := by
        intro empty
        exact productive.2 (empty ▸ Finset.empty_subset _)
      rw [List.filter_cons_of_pos (gains.mpr productive), List.foldl_cons, stage]
      refine ⟨?_, ?_, ?_⟩
      · rw [← Finset.union_assoc, ← Finset.union_assoc]
        rfl
      · rw [none, Finset.union_eq_empty]
        simp [new]
      · rw [operations, List.length_cons]
        dsimp only
        omega
    · obtain ⟨stage, none, operations⟩ := ih run
      rw [List.filter_cons_of_neg (mt gains.mp productive), stage]
      refine ⟨rfl, none, ?_⟩
      rw [operations, List.length_cons]
      dsimp only
      omega

theorem scan_spec {used : Finset Identifier} {operations : ℕ} {result : Scan}
    (run : scanLayer inhibitors operationBudget available catalysts transformations.toList
      ⟨∅, ∅, used, operations⟩ = .ok result) :
    (available ∪ result.additions, catalysts ∪ result.nextCatalysts) =
      (system transformations inhibitors).advance (available, catalysts) ∧
    (result.additions = ∅ ↔ (system transformations inhibitors).Settled (available, catalysts)) := by
  obtain ⟨stage, none, -⟩ :=
    @scanLayer_spec inhibitors available catalysts transformations _ _ _ _ run
  rw [Finset.union_empty, Finset.union_empty] at stage
  refine ⟨stage, ?_⟩
  rw [none, List.filter_eq_nil_iff]
  simp only [true_and]
  constructor
  · intro idle entry listed enabled
    by_contra new
    exact idle entry listed (productive_iff.mpr ⟨enabled, new⟩)
  · intro settled entry listed productive
    obtain ⟨enabled, new⟩ := productive_iff.mp productive
    exact new (settled entry listed enabled)

theorem closureLoop_spec : ∀ {n layer : ℕ} {catalysts : Finset Identifier} {run result : Closure},
    closureLoop transformations inhibitors operationBudget n layer catalysts run = .ok result →
    ∃ k final, (system transformations inhibitors).advance^[k] (run.available, catalysts) =
        (result.available, final) ∧
      (system transformations inhibitors).Settled (result.available, final) := by
  intro n
  induction n with
  | zero => intro layer catalysts run result ends; cases ends
  | succ n ih =>
    intro layer catalysts run result ends
    obtain ⟨scan, scanned, ends⟩ := bind_ok.mp ends
    obtain ⟨stage, none⟩ := scan_spec scanned
    split_ifs at ends with empty
    · cases ends
      exact ⟨0, catalysts, rfl, none.mp empty⟩
    · obtain ⟨k, final, layers, settled⟩ := ih ends
      refine ⟨k + 1, final, ?_, settled⟩
      rw [Function.iterate_succ_apply, ← stage]
      exact layers

theorem scanLayer_refused : ∀ {rest : List (Identifier × JsonObject)} {scan : Scan} {fault : Fault},
    scanLayer inhibitors operationBudget available catalysts rest scan = .error fault →
    fault = .coded "unknown_due_to_budget" := by
  intro rest
  induction rest with
  | nil => intro scan fault run; cases run
  | cons entry rest ih =>
    intro scan fault run
    rw [scanLayer] at run
    by_cases exhausted : operationBudget < scan.operations + 1
    · rw [if_pos exhausted] at run
      exact (Except.error.inj run).symm
    · rw [if_neg exhausted] at run
      exact ih run

theorem scanLayer_operations : ∀ {rest : List (Identifier × JsonObject)} {scan result : Scan},
    scanLayer inhibitors operationBudget available catalysts rest scan = .ok result → rest ≠ [] →
    scan.operations < result.operations ∧ result.operations ≤ operationBudget := by
  intro rest
  induction rest with
  | nil => intro scan result _ empty; exact absurd rfl empty
  | cons entry rest ih =>
    intro scan result run _
    rw [scanLayer] at run
    by_cases exhausted : operationBudget < scan.operations + 1
    · rw [if_pos exhausted] at run
      cases run
    · rw [if_neg exhausted] at run
      generalize next : (if enabled entry.2 available catalysts inhibitors = true ∧
        ¬ outputs entry.2 ⊆ available then _ else _ : Scan) = after at run
      have counted : after.operations = scan.operations + 1 := by
        rw [← next]
        split_ifs <;> rfl
      by_cases empty : rest = []
      · subst empty
        cases run
        omega
      · obtain ⟨more, within⟩ := ih run empty
        omega

theorem closureLoop_ends : ∀ {n layer : ℕ} {catalysts : Finset Identifier} {run : Closure},
    run.operations ≤ operationBudget → operationBudget < n + run.operations →
    closureLoop transformations inhibitors operationBudget n layer catalysts run ≠
      .error (.crash .diverges) := by
  intro n
  induction n with
  | zero => intro layer catalysts run within enough; omega
  | succ n ih =>
    intro layer catalysts run within enough ends
    rw [closureLoop] at ends
    cases scanned : scanLayer inhibitors operationBudget run.available catalysts
        transformations.toList ⟨∅, ∅, run.used, run.operations⟩ with
    | error fault =>
      rw [scanned, scanLayer_refused scanned] at ends
      cases ends
    | ok scan =>
      rw [scanned, ok_bind] at ends
      by_cases empty : scan.additions = ∅
      · rw [if_pos empty] at ends
        cases ends
      · rw [if_neg empty] at ends
        have listed : transformations.toList ≠ [] := by
          intro none
          rw [none] at scanned
          cases scanned
          exact empty rfl
        obtain ⟨more, within'⟩ := scanLayer_operations scanned listed
        dsimp only at more
        refine ih ?_ ?_ ends
        · exact within'
        · dsimp only
          omega

theorem closure_ends (initial catalysts : Finset Identifier) :
    closure initial transformations catalysts inhibitors operationBudget ≠
      .error (.crash .diverges) :=
  closureLoop_ends (Nat.zero_le _) (Nat.lt_succ_self _)

/-- What can be produced by firing enabled transformations one after the other. -/
def Producible (transformations : LegacyNetwork) (initial catalysts inhibitors : Finset Identifier)
    (x : Identifier) : Prop :=
  ∃ stage, (system transformations inhibitors).Reaches (initial, catalysts) stage ∧ x ∈ stage.1

def Wanted (transformations : LegacyNetwork) (catalyst : Identifier) : Prop :=
  ∃ entry ∈ transformations.toList, Wants entry.2 catalyst

theorem system_depends (transformations : LegacyNetwork) (inhibitors : Finset Identifier) :
    (system transformations inhibitors).Depends (Wanted transformations) :=
  fun entry listed _ _ states items => enabled_mono states fun catalyst there wants =>
    items catalyst there ⟨entry, listed, wants⟩

/-- In no layer does an enabled transformation that yields no new state produce a wanted
catalyst that no layer has. -/
def KeepsCatalysts (transformations : LegacyNetwork)
    (initial catalysts inhibitors : Finset Identifier) : Prop :=
  (system transformations inhibitors).Keeps (Wanted transformations) (initial, catalysts)

theorem keepsCatalysts_of_own {initial catalysts : Finset Identifier}
    (own : ∀ entry ∈ transformations.toList, ∀ catalyst ∈ producedCatalysts entry.2,
      Wanted transformations catalyst → catalyst ∉ catalysts →
      ∃ x ∈ outputs entry.2, x ∉ initial ∧
        ∀ other ∈ transformations.toList, x ∈ outputs other.2 → other = entry) :
    KeepsCatalysts transformations initial catalysts inhibitors :=
  Staged.System.keeps_of_own own

/-- The closure holds exactly what can be produced, where no layer loses a wanted catalyst. -/
theorem closure_producible {initial catalysts : Finset Identifier} {result : Closure}
    (run : closure initial transformations catalysts inhibitors operationBudget = .ok result)
    (keeps : KeepsCatalysts transformations initial catalysts inhibitors) (x : Identifier) :
    x ∈ result.available ↔ Producible transformations initial catalysts inhibitors x := by
  obtain ⟨k, final, layers, settled⟩ := closureLoop_spec run
  dsimp only at layers
  rw [← layers] at settled
  have exact' := keeps.exact (system_depends transformations inhibitors) settled x
  rw [layers] at exact'
  exact exact'

end firings

namespace Sample

/-- A transformation of the state s that produces the catalyst k and no other state. -/
def regenerating : JsonObject :=
  [("inputs", .array [.str "s"]), ("outputs", .array [.str "s"]),
   ("produced_catalysts", .array [.str "k"]), ("explicitly_uncatalyzed", .bool true)]

def catalyzed : JsonObject :=
  [("inputs", .array [.str "s"]), ("outputs", .array [.str "x"]),
   ("catalyst_clauses", .array [.array [.str "k"]])]

def transformations : LegacyNetwork := .ofList [("t1", regenerating), ("t2", catalyzed)]

def yielding : JsonObject :=
  [("inputs", .array [.str "s"]), ("outputs", .array [.str "y"]),
   ("produced_catalysts", .array [.str "k"]), ("explicitly_uncatalyzed", .bool true)]

/-- The catalyst is gained with a new state, whatever the first transformation loses. -/
def kept : LegacyNetwork :=
  .ofList [("t1", regenerating), ("t2", catalyzed), ("t3", yielding)]

theorem closes_of {transformations : LegacyNetwork} {available : Finset Identifier}
    (run : (closure {"s"} transformations ∅ ∅ 10).toOption.map Closure.available =
      some available) :
    ∃ result, closure {"s"} transformations ∅ ∅ 10 = .ok result ∧
      result.available = available := by
  cases closed : closure {"s"} transformations ∅ ∅ 10 with
  | error fault => rw [closed] at run; cases run
  | ok result =>
    rw [closed] at run
    exact ⟨result, rfl, Option.some.inj run⟩

theorem closes : ∃ result, closure {"s"} transformations ∅ ∅ 10 = .ok result ∧
    result.available = {"s"} :=
  closes_of (by decide +kernel)

theorem closes_kept : ∃ result, closure {"s"} kept ∅ ∅ 10 = .ok result ∧
    result.available = {"s", "y", "x"} :=
  closes_of (by decide +kernel)

theorem keepsCatalysts_kept : KeepsCatalysts kept {"s"} ∅ ∅ := by
  have layer : (system kept ∅).advance^[2] ({"s"}, ∅) = ({"s", "y", "x"}, {"k"}) := by
    decide +kernel
  have idle : ∀ entry ∈ (system kept ∅).labels,
      (system kept ∅).gain entry ≤ ({"s", "y", "x"}, {"k"}) := by decide +kernel
  refine Staged.System.keeps_of_settled (n := 2) ?_ ?_
  · rw [layer]
    exact fun entry listed _ => (idle entry listed).1
  · rw [layer]
    exact fun entry listed _ catalyst gained _ => (idle entry listed).2 gained

end Sample

theorem closure_producible_sample : ∃ result, closure {"s"} Sample.kept ∅ ∅ 10 = .ok result ∧
    result.available = {"s", "y", "x"} ∧
    ("x" ∈ result.available ↔ Producible Sample.kept {"s"} ∅ ∅ "x") := by
  obtain ⟨result, run, available⟩ := Sample.closes_kept
  exact ⟨result, run, available, closure_producible run Sample.keepsCatalysts_kept "x"⟩

/-- The catalyst is produced, but with no new state, and the closure misses what it enables. -/
theorem catalyst_lost : ∃ result, closure {"s"} Sample.transformations ∅ ∅ 10 = .ok result ∧
    "x" ∉ result.available ∧ Producible Sample.transformations {"s"} ∅ ∅ "x" := by
  obtain ⟨result, run, available⟩ := Sample.closes
  refine ⟨result, run, by rw [available]; decide, ?_⟩
  have listed : ∀ entry ∈ [("t1", Sample.regenerating), ("t2", Sample.catalyzed)],
      entry ∈ (system Sample.transformations ∅).labels := fun entry member =>
    Std.ExtTreeMap.mem_toList_iff_getElem?_eq_some.mpr (Dict.getElem?_ofList (by decide) member)
  have first := Staged.System.Reaches.fire .start (listed _ List.mem_cons_self)
    (show (system Sample.transformations ∅).enabled _ ({"s"}, ∅) = true by decide +kernel)
  have second := Staged.System.Reaches.fire first
    (listed _ (List.mem_cons_of_mem _ (List.mem_singleton_self _))) (by decide +kernel)
  exact ⟨_, second, by decide +kernel⟩

end Enabling
end CollectivePhaseControl
