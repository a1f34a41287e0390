import CollectivePhaseControl.GrowthSearch

/-! What a search computes while no limit stops it. A counter, a depth or a reported code
says nothing about the answer, and a refused counter leaves the search incomplete. -/
namespace CollectivePhaseControl

open BudgetedSearch

def excused {α : Type} (otherwise : α) (y : Checked α) : Checked α :=
  rescue y fun fault => match fault with
    | .coded _ => .ok otherwise
    | .crash exception => .error (.crash exception)

def gathered {α β : Type} (spec : α → Checked (List β)) (choices : List α) : Checked (List β) :=
  List.flatten <$> choices.mapM fun choice => excused [] (spec choice)

/-- Raises no error that a search would catch. -/
def Uncoded {α : Type} (y : Checked α) : Prop := ∀ code, y ≠ .error (.coded code)

section uncoded
variable {α β : Type}

theorem uncoded_ok (a : α) : Uncoded (.ok a : Checked α) := fun _ same => nomatch same

theorem uncoded_crash (exception : Crash) : Uncoded (.error (.crash exception) : Checked α) :=
  fun _ same => nomatch same

theorem uncoded_bind {y : Checked α} {f : α → Checked β} (head : Uncoded y)
    (tail : ∀ a, Uncoded (f a)) : Uncoded (y >>= f) := by
  intro code
  cases y with
  | ok a => exact tail a code
  | error fault => exact fun same => head code (by cases same; rfl)

theorem uncoded_map {y : Checked α} {f : α → β} (head : Uncoded y) : Uncoded (f <$> y) := by
  intro code
  cases y with
  | ok a => exact fun same => nomatch same
  | error fault => exact fun same => head code (by cases same; rfl)

theorem uncoded_demand {exception : Crash} {o : Option α} : Uncoded (demand exception o) := by
  cases o with
  | none => exact uncoded_crash exception
  | some a => exact uncoded_ok a

theorem uncoded_item {m : Dict α} {key : Identifier} : Uncoded (m.item key) := uncoded_demand

theorem uncoded_mapM {f : α → Checked β} (each : ∀ a, Uncoded (f a)) :
    ∀ xs : List α, Uncoded (xs.mapM f) := by
  intro xs
  induction xs with
  | nil => exact uncoded_ok []
  | cons a xs ih =>
    rw [List.mapM_cons]
    exact uncoded_bind (each a) fun b => uncoded_bind ih fun _ => uncoded_ok _

theorem uncoded_excused {otherwise : α} {y : Checked α} : Uncoded (excused otherwise y) := by
  cases y with
  | ok a => exact uncoded_ok a
  | error fault =>
    cases fault with
    | coded _ => exact uncoded_ok otherwise
    | crash exception => exact uncoded_crash exception

theorem uncoded_gathered {spec : α → Checked (List β)} {choices : List α} :
    Uncoded (gathered spec choices) :=
  uncoded_map (uncoded_mapM (fun _ => uncoded_excused) choices)

end uncoded

theorem uncoded_attainment {c : GrowthContractSpec} {s : GrowthState} {bound : Bound} :
    Uncoded (attainment c s bound) := by
  have coordinate : ∀ key, Uncoded (coordinateAttainment c s bound key) := by
    intro key
    refine uncoded_bind uncoded_item fun capacity => uncoded_bind uncoded_item fun domain => ?_
    split
    · exact uncoded_crash _
    · exact uncoded_ok _
  exact uncoded_bind (coordinate _) fun _ => uncoded_bind (coordinate _) fun _ => uncoded_ok _

theorem uncoded_stateDigest {hash : Hashing} {s : GrowthState} : Uncoded (stateDigest hash s) := by
  refine uncoded_bind ?_ fun _ => uncoded_ok _
  unfold normalize GrowthState.validate
  split
  · exact uncoded_ok _
  · exact uncoded_crash _

theorem uncoded_sortedRecipes {x : Search} : Uncoded x.sortedRecipes := by
  refine uncoded_bind (uncoded_mapM (fun _ => uncoded_bind ?_ fun _ => uncoded_ok _) _)
    fun _ => uncoded_ok _
  refine uncoded_bind uncoded_item fun document => ?_
  split
  · exact uncoded_ok _
  · exact uncoded_crash _

theorem excused_ok {α : Type} {otherwise : α} {y : Checked α} {a : α} :
    excused otherwise y = .ok a ↔ y = .ok a ∨ (∃ code, y = .error (.coded code)) ∧ otherwise = a := by
  cases y with
  | ok b => simp [excused, rescue]
  | error fault => cases fault <;> simp [excused, rescue]

/-- The ledgers that runs reach, and the checkpoints taken of them, are told apart by their
digests. -/
structure CollisionFree (hash : Hashing) (contract : GrowthContract) (objects : Objects)
    (frontier : Frontier) : Prop where
  state : ∀ s t, Reachable hash contract objects frontier s →
    Reachable hash contract objects frontier t → hash.state s = hash.state t → s = t
  checkpoint : ∀ s t, Reachable hash contract objects frontier s →
    Reachable hash contract objects frontier t →
    hash.checkpoint ⟨s.elapsed, s.capacities⟩ = hash.checkpoint ⟨t.elapsed, t.capacities⟩ →
    (⟨s.elapsed, s.capacities⟩ : GrowthCheckpoint) = ⟨t.elapsed, t.capacities⟩

def Complete (σ : SearchState) : Prop := σ.budget.complete = true

/-- An invariant that speaks about the memos only. -/
def Blind (I : SearchState → Prop) : Prop :=
  ∀ σ budget codes, I σ → I { σ with budget := budget, counterexamples := codes }

section computes
variable {I : SearchState → Prop} (blind : Blind I) {x : Search} {α β : Type}
include blind

theorem charges_take (counter : Counter) : Charges Complete I (x.take counter) := by
  constructor
  · intro σ
    unfold Search.take
    split
    · exact ⟨false, _, rfl⟩
    · exact ⟨true, _, rfl⟩
  · intro σ holds
    unfold Search.take
    split
    · exact ⟨blind σ _ σ.counterexamples holds, fun done => nomatch done⟩
    · refine ⟨blind σ _ σ.counterexamples holds, fun done => ?_⟩
      cases counter <;> exact done
  · intro σ τ refused done
    unfold Search.take at refused
    split at refused <;> cases refused
    cases done

theorem computes_exhausted {f : PUnit → SearchM α} {spec : Checked α}
    (rest : Keeps Complete I (f ⟨⟩)) : Computes Complete I (Search.exhaust >>= f) spec :=
  computes_exhaust (fun σ holds => ⟨blind σ _ σ.counterexamples holds, fun done => nomatch done⟩)
    (fun _ => ⟨_, rfl, fun done => nomatch done⟩) rest

theorem computes_blame (code : String) : Computes Complete I (Search.blame code) (.ok ⟨⟩) :=
  computes_modify (fun σ holds => blind σ σ.budget _ holds) fun _ done => done

theorem computes_reachDepth (depth : ℕ) : Computes Complete I (Search.reachDepth depth) (.ok ⟨⟩) :=
  computes_modify (fun σ holds => blind σ _ σ.counterexamples holds) fun _ done => done

theorem computes_reached {f : SearchM α} {depth : ℕ} {spec : Checked α}
    (rest : Computes Complete I f spec) :
    Computes Complete I (Search.reachDepth depth >>= fun _ => f) spec :=
  computes_bind (computes_reachDepth blind depth) fun _ => rest

theorem computes_blamed {f : SearchM α} {code : String} {spec : Checked α}
    (rest : Computes Complete I f spec) :
    Computes Complete I (Search.blame code >>= fun _ => f) spec :=
  computes_bind (computes_blame blind code) fun _ => rest

theorem computes_attempts {attempt : α → List β → SearchM (List β × Bool)}
    {spec : α → Checked (List β)}
    {choices : List α} (each : ∀ choice ∈ choices, ∀ options, Computes Complete I
      (attempt choice options) ((fun new => (options ++ new, true)) <$> spec choice)) :
    ∀ options, Computes Complete I (Search.attempts attempt choices options)
      ((fun new => (options ++ new, true)) <$> gathered spec choices) := by
  induction choices with
  | nil =>
    intro options
    have nothing : (fun new => (options ++ new, true)) <$> gathered spec [] =
        .ok (options, true) := by
      simp [gathered, pure, Except.pure, Functor.map, Except.map]
    rw [nothing]
    exact computes_pure _
  | cons choice rest ih =>
    intro options
    obtain ⟨first, others⟩ := List.forall_mem_cons.mp each
    let after : List β × Bool → Checked (List β × Bool) := fun p =>
      if p.2 = true then (fun new => (p.1 ++ new, true)) <$> gathered spec rest else .ok (p.1, false)
    have head : Computes Complete I
        (tryCatch (attempt choice options) (Search.blaming (options, true)))
        ((fun new => (options ++ new, true)) <$> excused [] (spec choice)) := by
      let recovered : Fault → Checked (List β × Bool) := fun fault => match fault with
        | .coded _ => .ok (options, true)
        | .crash exception => .error (.crash exception)
      have handled : ∀ fault, Computes Complete I
          (Search.blaming (options, true) fault) (recovered fault) := by
        intro fault
        cases fault with
        | coded code => exact computes_blamed blind (computes_pure _)
        | crash exception => exact computes_throw _
      have caught := computes_rescue (first options) handled
      cases answer : spec choice with
      | ok new =>
        rw [answer] at caught
        exact caught
      | error fault =>
        rw [answer] at caught
        cases fault with
        | coded code => simpa [excused, rescue] using caught
        | crash exception => exact caught
    have tail : ∀ p : List β × Bool, Computes Complete I
        (if p.2 = true then Search.attempts attempt rest p.1 else pure (p.1, false)) (after p) := by
      rintro ⟨options', going⟩
      cases going with
      | true => exact ih others options'
      | false => exact computes_pure _
    have both := computes_bind head tail
    have same : ((fun new => (options ++ new, true)) <$> excused [] (spec choice)) >>= after =
        (fun new => (options ++ new, true)) <$> gathered spec (choice :: rest) := by
      rw [gathered, List.mapM_cons]
      cases excused [] (spec choice) with
      | error fault => rfl
      | ok new =>
        change (fun other => (options ++ new ++ other, true)) <$> gathered spec rest = _
        rw [gathered]
        cases List.mapM (fun choice => excused [] (spec choice)) rest with
        | error fault => rfl
        | ok others => simp [Functor.map, Except.map, bind, Except.bind, pure, Except.pure]
    rw [same] at both
    exact both

end computes

end CollectivePhaseControl
