import CollectivePhaseControl.GrowthEnumeration

/-! Whatever a search lists, the independent walk accepts, with the terminals, the entries
and the node count that the search has recorded. This holds of every budget: a search that
is cut short lists fewer candidates, never other ones. -/
namespace CollectivePhaseControl

open BudgetedSearch

variable {hash : Hashing} {x : Search}

/-- A ledger that some run reaches, with a model left. -/
structure Live (hash : Hashing) (x : Search) (s : GrowthState) : Prop where
  reachable : Reachable hash x.contract x.objects x.frontier s
  models : s.modelIds ≠ []

theorem Live.step {s t : GrowthState} {move : Move} (live : Live hash x s)
    (step : Steps hash x.contract x.objects x.frontier s move t) : Live hash x t :=
  ⟨live.reachable.step step, step.admitted.2.2⟩

theorem Live.digested {s : GrowthState} (live : Live hash x s) :
    stateDigest hash s = .ok (hash.state s) := live.reachable.admitted.1.stateDigest

/-- The entry that is carried on, or one that is taken here. -/
def Selects (x : Search) (s : GrowthState) (entry selected : Option GrowthCheckpoint) : Prop :=
  selected = entry ∨ (entry = none ∧ entryAllowed x.contract.spec x.comparisons s = .ok true ∧
    selected = some ⟨s.elapsed, s.capacities⟩)

theorem selectable_selects {s : GrowthState} {entry selected : Option GrowthCheckpoint}
    {entries : List (Option GrowthCheckpoint)} (h : x.selectable s entry = .ok entries)
    (member : selected ∈ entries) : Selects x s entry selected := by
  unfold Search.selectable at h
  split at h
  case isFalse =>
    cases pure_ok.mp h
    exact .inl (List.mem_singleton.mp member)
  case isTrue free =>
    simp only [bind_ok] at h
    obtain ⟨allowed, gate, h⟩ := h
    cases allowed with
    | false =>
      cases pure_ok.mp h
      exact .inl (List.mem_singleton.mp member)
    | true =>
      cases pure_ok.mp h
      rcases List.mem_cons.mp member with same | member
      · exact .inl same
      · exact .inr ⟨free.1, gate, List.mem_singleton.mp member⟩

/-- The flag of a decision node, from the entries before and after it. -/
def enters (entry selected : Option GrowthCheckpoint) : Bool := entry.isNone && selected.isSome

theorem Selects.entered {s : GrowthState} {entry selected : Option GrowthCheckpoint}
    (selects : Selects x s entry selected) :
    (if enters entry selected = true then some ⟨s.elapsed, s.capacities⟩ else entry) = selected ∧
      (enters entry selected = true →
        entry = none ∧ entryAllowed x.contract.spec x.comparisons s = .ok true) := by
  rcases selects with rfl | ⟨rfl, gate, rfl⟩
  · have carried : enters selected selected = false := by cases selected <;> rfl
    rw [carried]
    exact ⟨if_neg Bool.false_ne_true, fun impossible => nomatch impossible⟩
  · exact ⟨rfl, fun _ => ⟨rfl, gate⟩⟩

theorem checkNode_of {node : GrowthPolicyNode} {s : GrowthState} {entry : Option GrowthCheckpoint}
    (live : Live hash x s) (digest : node.stateDigest = hash.state s)
    (own : node.entry = true →
      entry = none ∧ entryAllowed x.contract.spec x.comparisons s = .ok true) :
    checkNode hash x node s entry = .ok () := by
  simp only [checkNode, bind_ok, require_ok, exists_punit]
  refine ⟨live.reachable.admitted.2, live.models, hash.state s, live.digested, digest, ?_⟩
  split
  case isTrue enters =>
    obtain ⟨fresh, gate⟩ := own enters
    simp only [bind_ok, require_ok, exists_punit]
    exact ⟨fresh, true, gate, rfl⟩
  case isFalse => rfl

theorem namedRecipe_of (facts : ContractFacts x.contract.spec x.objects) {actionId : Identifier}
    {recipe : GrowthAction} (named : Named x actionId recipe) :
    namedRecipe x actionId = .ok recipe := by
  obtain ⟨ids, distinct, each⟩ := facts.named
  have total : ∀ r ∈ x.contract.spec.actionCatalogue, ∃ p : Identifier × GrowthAction, (do
      pure ((← actionDocument x.objects r.actionDigest).actionId, r)) = (.ok p : Checked _) := by
    intro r listed
    obtain ⟨id, -, action, document, rfl⟩ := forall₂_mem_left each r listed
    exact ⟨(action.actionId, r), by rw [document]; rfl⟩
  obtain ⟨catalogue, listed⟩ := mapM_total total
  have keys : catalogue.map Prod.fst = ids := by
    have same : List.Forall₂ (· = ·) (catalogue.map Prod.fst) ids := by
      rw [List.forall₂_map_left_iff]
      refine forall₂_compose ?_ (List.Forall₂.flip (mapM_ok.mp listed)) each
      rintro p r id built ⟨action, document, rfl⟩
      simp only [bind_ok, pure_ok] at built
      obtain ⟨action', document', rfl⟩ := built
      cases document.symm.trans document'
      rfl
    exact List.forall₂_eq_eq_eq ▸ same
  obtain ⟨inCatalogue, action, document, rfl⟩ := named
  obtain ⟨p, member, built⟩ := forall₂_mem_left (mapM_ok.mp listed) recipe inCatalogue
  simp only [bind_ok, pure_ok] at built
  obtain ⟨action', document', rfl⟩ := built
  cases document.symm.trans document'
  rw [namedRecipe, namedCatalogue, listed, ok_bind, filter_key (keys ▸ distinct) member]
  rfl

/-- The walk of a subtree with `n` decisions left collects what the candidate records. -/
def Walked (hash : Hashing) (x : Search) (n : ℕ) (s : GrowthState)
    (entry : Option GrowthCheckpoint) (c : Candidate) : Prop :=
  visit hash x (n + 1) c.node s entry = .ok ⟨c.terminals, c.entries, c.nodeCount⟩

theorem walked_leaf {n : ℕ} {s : GrowthState} {entry : Option GrowthCheckpoint}
    (live : Live hash x s) (ended : terminal x.contract.spec x.endpoint s entry = .ok true) :
    Walked hash x n s entry (leaf (hash.state s) s entry) := by
  refine visit_ok.mpr ⟨checkNode_of live rfl (fun impossible => nomatch impossible), .inl ?_⟩
  exact ⟨rfl, ⟨rfl, Std.ExtTreeMap.isEmpty_empty⟩, ended, rfl⟩

theorem mem_effectDigests {effects : List GrowthSuccessor} {id : Identifier} :
    id ∈ effectDigests hash effects ↔ id ∈ effects.map (·.successorId) := by
  rw [effectDigests, Std.ExtTreeMap.mem_ofList, List.contains_iff_mem, List.map_map]
  rfl

theorem effectDigests_of_mem {effects : List GrowthSuccessor} {effect : GrowthSuccessor}
    (distinct : (effects.map (·.successorId)).Nodup) (member : effect ∈ effects) :
    (effectDigests hash effects)[effect.successorId]? = some (hash.successor effect) := by
  refine Dict.getElem?_ofList ?_ (List.mem_map_of_mem member)
  rw [List.map_map]
  exact distinct

theorem checkBranches_decision {s : GrowthState} {recipe : GrowthAction} {actionId : Identifier}
    {entered : Bool} (some' : successors s recipe ≠ []) {children : List Candidate}
    (same : (successors s recipe).length = children.length) {digest : Digest} :
    checkBranches (decisionNode hash digest actionId entered (successors s recipe) children)
      (successors s recipe) = .ok () := by
  have keys : (((successors s recipe).map (·.successorId)).zip (children.map (·.node))).map Prod.fst =
      (successors s recipe).map (·.successorId) :=
    List.map_fst_zip (by simp [same])
  have answered : ∀ b ∈ ((successors s recipe).map (·.successorId)).zip (children.map (·.node)),
      b.1 ∈ (successors s recipe).map (·.successorId) := by
    intro b member
    rw [← keys]
    exact List.mem_map_of_mem member
  rw [checkBranches, require_ok]
  simp only [decisionNode, keys]
  refine ⟨answered, fun e listed => List.mem_map_of_mem listed, fun id member => ?_,
    fun b member => mem_effectDigests.mpr (answered b member), some'⟩
  exact mem_effectDigests.mp (Std.ExtTreeMap.mem_keys.mp member)

theorem walked_decision (facts : ContractFacts x.contract.spec x.objects) {n : ℕ} {s : GrowthState}
    {entry selected : Option GrowthCheckpoint} (live : Live hash x s)
    (selects : Selects x s entry selected) {actionId : Identifier} {recipe : GrowthAction}
    (named : Named x actionId recipe) (some' : successors s recipe ≠ []) {children : List Candidate}
    (each : List.Forall₂ (fun effect child => ∃ next,
      transition hash x.contract s recipe effect x.objects x.frontier = .ok next ∧
        Walked hash x n next selected child) (successors s recipe) children) :
    Walked hash x (n + 1) s entry (decision hash (hash.state s) actionId (enters entry selected)
      (successors s recipe) children) := by
  obtain ⟨entered, own⟩ := selects.entered
  have distinct := (facts.recipes recipe named.1).successors_nodup s
  have carried : entryAfter (decision hash (hash.state s) actionId (enters entry selected)
    (successors s recipe) children).node s entry = selected := entered
  refine visit_ok.mpr ⟨checkNode_of live rfl own, .inr ⟨actionId, recipe,
    children.map fun c => ⟨c.terminals, c.entries, c.nodeCount⟩, rfl, namedRecipe_of facts named,
    checkBranches_decision some' each.length_eq, ?_, ?_⟩⟩
  · have found := forall₂_lookup_zip distinct
      (show ((successors s recipe).map (·.successorId)).length = (children.map (·.node)).length by
        simpa using each.length_eq)
    rw [List.forall₂_map_left_iff, List.forall₂_map_right_iff] at found
    rw [List.forall₂_map_right_iff]
    have listed : List.Forall₂ (fun effect child => effect ∈ successors s recipe ∧ _) _ _ :=
      (List.forall₂_and_left _ _).mpr ⟨fun _ member => member, forall₂_and each found⟩
    refine listed.imp ?_
    rintro effect child ⟨member, ⟨next, moved, walked⟩, looked⟩
    refine ⟨child.node, next,
      followBranch_ok.mpr ⟨effectDigests_of_mem distinct member, moved, looked⟩, ?_⟩
    rw [carried]
    exact walked
  · simp [Walk.node, Walk.join, Walk.gather, decision, List.flatMap_map, Function.comp_def]

/-- The branches of every node are listed in key order, as the dictionary they stand for. -/
inductive InKeyOrder : GrowthPolicyNode → Prop
  | node {node : GrowthPolicyNode} (sorted : (node.branches.map Prod.fst).Pairwise (· < ·))
      (below : ∀ b ∈ node.branches, InKeyOrder b.2) : InKeyOrder node

theorem successors_sorted {c : GrowthContractSpec} {recipe : GrowthAction}
    (facts : RecipeFacts c recipe) (s : GrowthState) :
    ((successors s recipe).map (·.successorId)).Pairwise (· < ·) := by
  have ordered : ((successors s recipe).map (·.successorId)).Pairwise (· ≤ ·) := by
    rw [List.pairwise_map]
    exact List.pairwise_insertionSort _ _
  exact (ordered.and (facts.successors_nodup s)).imp fun both => lt_of_le_of_ne both.1 both.2

theorem inKeyOrder_leaf {digest : Digest} : InKeyOrder (leafNode digest) :=
  .node .nil fun _ impossible => nomatch impossible

theorem inKeyOrder_decision {c : GrowthContractSpec} {recipe : GrowthAction}
    (facts : RecipeFacts c recipe) {s : GrowthState} {digest : Digest} {actionId : Identifier}
    {entered : Bool} {children : List Candidate}
    (same : (successors s recipe).length = children.length)
    (below : ∀ child ∈ children, InKeyOrder child.node) :
    InKeyOrder (decision hash digest actionId entered (successors s recipe) children).node := by
  have keys : (((successors s recipe).map (·.successorId)).zip (children.map (·.node))).map Prod.fst =
      (successors s recipe).map (·.successorId) :=
    List.map_fst_zip (by simp [same])
  refine .node ?_ fun b member => ?_
  · exact keys ▸ successors_sorted facts s
  · obtain ⟨child, listed, same⟩ := List.mem_map.mp (List.of_mem_zip member).2
    exact same ▸ below child listed

/-- A candidate that the checker accepts here, within the witness limit. -/
structure Accepted (hash : Hashing) (x : Search) (n : ℕ) (s : GrowthState)
    (entry : Option GrowthCheckpoint) (c : Candidate) : Prop where
  walked : Walked hash x n s entry c
  ordered : InKeyOrder c.node
  bounded : c.nodeCount ≤ max 1 x.limits.maxWitnessNodes

section ensures
variable {I : SearchState → Prop} (blind : Blind I)
include blind

theorem ensures_take {α : Type} {P : α → Prop} {counter : Counter} {paid early : SearchM α}
    (head : Ensures I paid P) (refused : Ensures I early P) :
    Ensures I (x.take counter >>= fun b => if b = true then paid else early) P := by
  refine ensures_bind (charges_take blind counter).keeps.ensures fun b _ => ?_
  cases b with
  | true => exact head
  | false => exact refused

theorem ensures_blamed {α : Type} {P : α → Prop} {code : String} {f : SearchM α}
    (rest : Ensures I f P) : Ensures I (Search.blame code >>= fun _ => f) P :=
  ensures_bind (computes_blame blind code).keeps.ensures fun _ _ => rest

theorem ensures_exhausted {α : Type} {P : α → Prop} {f : SearchM α} (rest : Ensures I f P) :
    Ensures I (Search.exhaust >>= fun _ => f) P :=
  ensures_bind (ensures_modify fun σ holds => blind σ _ σ.counterexamples holds) fun _ _ => rest

theorem ensures_reached {α : Type} {P : α → Prop} {depth : ℕ} {f : SearchM α}
    (rest : Ensures I f P) : Ensures I (Search.reachDepth depth >>= fun _ => f) P :=
  ensures_bind (computes_reachDepth blind depth).keeps.ensures fun _ _ => rest

theorem ensures_attempts {α β : Type} {P : List β → Prop}
    {attempt : α → List β → SearchM (List β × Bool)} {choices : List α}
    (each : ∀ choice ∈ choices, ∀ options, P options →
      Ensures I (attempt choice options) fun found => P found.1) :
    ∀ options, P options → Ensures I (Search.attempts attempt choices options) fun found => P found.1 := by
  induction choices with
  | nil => exact fun options holds => ensures_pure holds
  | cons choice rest ih =>
    intro options holds
    obtain ⟨first, others⟩ := List.forall_mem_cons.mp each
    have handled : ∀ fault, Ensures I (Search.blaming (options, true) fault) fun found => P found.1 := by
      intro fault
      cases fault with
      | coded code => exact ensures_blamed blind (ensures_pure holds)
      | crash exception => exact ensures_throw _
    refine ensures_bind (ensures_rescue (first options holds) handled) ?_
    rintro ⟨options', going⟩ kept
    cases going with
    | true => exact ih others options' kept
    | false => exact ensures_pure kept

variable {n : ℕ} {recur : GrowthState → Option GrowthCheckpoint → SearchM (List Candidate)}

omit blind in
theorem ensures_answered {s next : GrowthState} {recipe : GrowthAction}
    {selected : Option GrowthCheckpoint} {stop : ℚ} {effect : GrowthSuccessor}
    {rest : List GrowthSuccessor}
    (moved : transition hash x.contract s recipe effect x.objects x.frontier = .ok next)
    (ih : Ensures I (Search.childOptions hash x recur s recipe selected stop rest)
      fun found => ∀ lists ∈ found, ∀ picks ∈ product lists, List.Forall₂ (fun effect child =>
        ∃ next, transition hash x.contract s recipe effect x.objects x.frontier = .ok next ∧
          Accepted hash x n next selected child) rest picks) :
    ∀ options, (∀ c ∈ options, Accepted hash x n next selected c) →
      Ensures I (if options.isEmpty = true then pure (some [options]) else do
        match ← Search.childOptions hash x recur s recipe selected stop rest with
        | none => pure none
        | some others => pure (some (options :: others)))
      fun found => ∀ lists ∈ found, ∀ picks ∈ product lists, List.Forall₂ (fun effect child =>
        ∃ next, transition hash x.contract s recipe effect x.objects x.frontier = .ok next ∧
          Accepted hash x n next selected child) (effect :: rest) picks := by
  intro options accepted
  split
  case isTrue none' =>
    refine ensures_pure ?_
    rintro lists ⟨⟩ picks member
    rw [List.isEmpty_iff.mp none'] at member
    exact absurd member List.not_mem_nil
  case isFalse =>
    refine ensures_bind ih fun found others => ?_
    cases found with
    | none => exact ensures_pure fun _ impossible => absurd impossible (Option.not_mem_none _)
    | some tails =>
      refine ensures_pure ?_
      rintro lists ⟨⟩ picks member
      simp only [product, List.mem_flatMap, List.mem_map] at member
      obtain ⟨child, inOptions, tail, inTails, rfl⟩ := member
      exact .cons ⟨next, moved, accepted child inOptions⟩ (others tails rfl tail inTails)

theorem ensures_childOptions {s : GrowthState} {recipe : GrowthAction}
    {selected : Option GrowthCheckpoint} (live : Live hash x s)
    (listed : recipe ∈ x.contract.spec.actionCatalogue)
    (each : ∀ next, Live hash x next →
      Ensures I (recur next selected) fun options => ∀ c ∈ options, Accepted hash x n next selected c)
    (stop : ℚ) : ∀ effects, Ensures I (Search.childOptions hash x recur s recipe selected stop effects)
      fun found => ∀ lists ∈ found, ∀ picks ∈ product lists, List.Forall₂ (fun effect child =>
        ∃ next, transition hash x.contract s recipe effect x.objects x.frontier = .ok next ∧
          Accepted hash x n next selected child) effects picks := by
  intro effects
  induction effects with
  | nil =>
    refine ensures_pure ?_
    rintro lists ⟨⟩ picks member
    cases List.mem_singleton.mp member
    exact .nil
  | cons effect rest ih =>
    refine ensures_take blind ?_ (ensures_pure fun _ impossible => absurd impossible
      (Option.not_mem_none _))
    refine ensures_bind_lift fun next moved => ?_
    have step : Steps hash x.contract x.objects x.frontier s ⟨recipe, effect⟩ next := ⟨listed, moved⟩
    have answered := ensures_answered moved ih
    by_cases late : x.entryStop selected stop < F next.elapsed
    · rw [if_pos late]
      exact answered [] (by simp)
    · rw [if_neg late]
      exact ensures_bind (each next (live.step step)) answered

theorem ensures_assemble (digest : Digest) (actionId : Identifier) (entered : Bool)
    (effects : List GrowthSuccessor) {P : Candidate → Prop} :
    ∀ (picks : List (List Candidate)) (options : List Candidate),
      (∀ children ∈ picks,
        (decision hash digest actionId entered effects children).nodeCount ≤
          x.limits.maxWitnessNodes → P (decision hash digest actionId entered effects children)) →
      (∀ c ∈ options, P c) →
      Ensures I (Search.assemble hash x digest actionId entered effects picks options)
        fun found => ∀ c ∈ found.1, P c := by
  intro picks
  induction picks with
  | nil => exact fun options _ holds => ensures_pure holds
  | cons children rest ih =>
    intro options each holds
    obtain ⟨first, others⟩ := List.forall_mem_cons.mp each
    refine ensures_take blind ?_ (ensures_pure holds)
    by_cases large : x.limits.maxWitnessNodes <
        (decision hash digest actionId entered effects children).nodeCount
    · simp only [if_pos large]
      exact ensures_exhausted blind (ensures_blamed blind (ih options others holds))
    · simp only [if_neg large]
      refine ih _ others fun c member => ?_
      rcases List.mem_append.mp member with earlier | added
      · exact holds c earlier
      · cases List.mem_singleton.mp added
        exact first (not_lt.mp large)

theorem ensures_tryRecipe (facts : ContractFacts x.contract.spec x.objects) {s : GrowthState}
    {entry selected : Option GrowthCheckpoint} (live : Live hash x s)
    (selects : Selects x s entry selected) {recipe : GrowthAction}
    (listed : recipe ∈ x.contract.spec.actionCatalogue)
    (each : ∀ next, Live hash x next →
      Ensures I (recur next selected) fun options => ∀ c ∈ options, Accepted hash x n next selected c)
    {options : List Candidate} (earlier : ∀ c ∈ options, Accepted hash x (n + 1) s entry c) :
    Ensures I (Search.tryRecipe hash x recur s (hash.state s) entry selected recipe options)
      fun found => ∀ c ∈ found.1, Accepted hash x (n + 1) s entry c := by
  refine ensures_bind_lift fun both allowed => ensures_bind_lift fun _ nonempty => ?_
  refine ensures_bind (ensures_childOptions blind live listed each _ _) fun found combined => ?_
  cases found with
  | none => exact ensures_pure earlier
  | some lists =>
    refine ensures_assemble blind _ _ _ _ (product lists) options ?_ earlier
    intro children member within
    have named : Named x both.1.actionId recipe := ⟨listed, both.1, applicable_action allowed, rfl⟩
    have answers := combined lists rfl children member
    refine ⟨walked_decision facts live selects named (require_ok.mp nonempty) (answers.imp ?_),
      inKeyOrder_decision (facts.recipes recipe listed) answers.length_eq fun child inChildren => ?_,
      le_max_of_le_right within⟩
    · rintro effect child ⟨next, moved, accepted⟩
      exact ⟨next, moved, accepted.walked⟩
    · obtain ⟨effect, -, next, -, accepted⟩ := forall₂_mem_right answers child inChildren
      exact accepted.ordered

end ensures

/-- Stored options are accepted at every reachable ledger and entry that have the key. -/
def OptionsAccepted (hash : Hashing) (x : Search) (σ : SearchState) : Prop :=
  ∀ key found, (key, found) ∈ σ.memo → ∀ remaining ≤ x.contract.spec.maxDecisions, ∀ s entry,
    Live hash x s → Entered hash x entry →
    key = (hash.state s, x.contract.spec.maxDecisions - remaining, entry.map hash.checkpoint) →
    ∀ c ∈ found, Accepted hash x remaining s entry c

theorem optionsAccepted_blind : Blind (OptionsAccepted hash x) := fun _ _ _ accepted => accepted

theorem ensures_enumerateStep (facts : ContractFacts x.contract.spec x.objects)
    (free : CollisionFree hash x.contract x.objects x.frontier)
    {recur : GrowthState → Option GrowthCheckpoint → SearchM (List Candidate)} {remaining : ℕ}
    (within : remaining ≤ x.contract.spec.maxDecisions) {s : GrowthState}
    {entry : Option GrowthCheckpoint} (live : Live hash x s) (taken : Entered hash x entry)
    (each : ∀ {n}, remaining = n + 1 → ∀ next selected, Live hash x next → Entered hash x selected →
      Ensures (OptionsAccepted hash x) (recur next selected)
        fun options => ∀ c ∈ options, Accepted hash x n next selected c) :
    Ensures (OptionsAccepted hash x)
      (Search.enumerateStep hash x recur (x.contract.spec.maxDecisions - remaining) remaining s entry)
      fun options => ∀ c ∈ options, Accepted hash x remaining s entry c := by
  have blind : Blind (OptionsAccepted hash x) := optionsAccepted_blind
  let key : MemoKey :=
    (hash.state s, x.contract.spec.maxDecisions - remaining, entry.map hash.checkpoint)
  rw [Search.enumerateStep, live.digested]
  refine ensures_bind_lift fun digest same => ?_
  cases same
  refine ensures_get fun σ accepted => ?_
  cases stored : σ.memo.lookup key with
  | some found =>
    exact ensures_pure (accepted key found (mem_of_lookup stored) remaining within s entry live taken
      rfl) σ accepted
  | none =>
    refine ensures_take blind ?_ (ensures_pure fun _ impossible => absurd impossible
      List.not_mem_nil) σ accepted
    refine ensures_reached blind (ensures_bind_lift fun ended isEnded => ?_)
    cases ended with
    | true =>
      refine ensures_pure fun c member => ?_
      cases List.mem_singleton.mp member
      exact ⟨walked_leaf live isEnded, inKeyOrder_leaf, le_max_left _ _⟩
    | false =>
      rw [if_neg Bool.false_ne_true]
      split
      · exact ensures_pure fun _ impossible => absurd impossible List.not_mem_nil
      case isFalse early =>
        split
        · exact ensures_exhausted blind (ensures_pure fun _ impossible => absurd impossible
            List.not_mem_nil)
        · obtain ⟨n, rfl⟩ := Nat.exists_eq_succ_of_ne_zero fun zero => early (.inr zero)
          have expanded : Ensures (OptionsAccepted hash x)
              (Search.expand hash x recur s (hash.state s) entry)
              fun found => ∀ c ∈ found.1, Accepted hash x (n + 1) s entry c := by
            refine ensures_bind_lift fun entries chosen => ensures_bind_lift fun recipes sorted => ?_
            refine ensures_attempts blind
              (P := fun options => ∀ c ∈ options, Accepted hash x (n + 1) s entry c) ?_ []
              (fun _ impossible => absurd impossible List.not_mem_nil)
            intro choice member options earlier
            obtain ⟨selected, inEntries, inRecipes⟩ := List.mem_flatMap.mp member
            obtain ⟨p, allowed, rfl⟩ := List.mem_map.mp inRecipes
            have inCatalogue := (sortedRecipes_ok sorted p).mp (List.mem_of_mem_filter allowed)
            exact ensures_tryRecipe blind facts live (selectable_selects chosen inEntries)
              inCatalogue.1 (fun next live' => each rfl next selected live'
                (selectable_entered live.reachable taken chosen inEntries)) earlier
          refine ensures_bind expanded fun found all => ?_
          refine ensures_bind (ensures_modify fun τ kept => ?_) fun _ _ => ensures_pure all
          split
          · intro key' found' member remaining' within' t entry' live' taken' same
            rcases List.mem_cons.mp member with head | tail
            · cases head
              obtain ⟨sameState, rest⟩ := Prod.mk.inj same
              obtain ⟨sameDepth, sameEntry⟩ := Prod.mk.inj rest
              have : remaining' = n + 1 := by omega
              rw [this, ← free.state s t live.reachable live'.reachable sameState,
                ← taken.eq_of_digest free taken' sameEntry]
              exact all
            · exact kept key' found' tail remaining' within' t entry' live' taken' same
          · exact kept

theorem ensures_enumerate (facts : ContractFacts x.contract.spec x.objects)
    (free : CollisionFree hash x.contract x.objects x.frontier) :
    ∀ {remaining : ℕ}, remaining ≤ x.contract.spec.maxDecisions →
      ∀ {s : GrowthState} {entry : Option GrowthCheckpoint}, Live hash x s → Entered hash x entry →
      Ensures (OptionsAccepted hash x) (Search.enumerate hash x remaining s entry)
        fun options => ∀ c ∈ options, Accepted hash x remaining s entry c := by
  intro remaining
  induction remaining with
  | zero =>
    intro within s entry live taken
    rw [Search.enumerate, ← Nat.sub_zero x.contract.spec.maxDecisions]
    exact ensures_enumerateStep facts free within live taken fun impossible =>
      absurd impossible (Nat.succ_ne_zero _).symm
  | succ remaining ih =>
    intro within s entry live taken
    refine ensures_enumerateStep facts free within live taken ?_
    rintro n ⟨⟩ next selected live' taken'
    exact ih (by omega) live' taken'

/-- A solution's own tree is accepted and takes no entry. -/
structure Solves (hash : Hashing) (x : Search) (n : ℕ) (s : GrowthState)
    (solution : ScalarSolution) : Prop where
  accepted : Accepted hash x n s none solution.candidate
  entries : solution.candidate.entries = []

theorem composed_candidate {digest : Digest} {actionId : Identifier}
    {effects : List GrowthSuccessor} {children : List ScalarSolution} {solution : ScalarSolution}
    (h : composed hash digest actionId effects children = .ok solution) :
    solution.candidate = { decision hash digest actionId false effects (children.map (·.candidate))
      with entries := [] } := by
  simp only [composed, bind_ok, pure_ok] at h
  obtain ⟨lower, -, upper, -, rfl⟩ := h
  rfl

section ensures
variable {I : SearchState → Prop} (blind : Blind I) {n : ℕ}
  {recur : GrowthState → SearchM (Option ScalarSolution)} {s : GrowthState} {recipe : GrowthAction}
  (live : Live hash x s) (listed : recipe ∈ x.contract.spec.actionCatalogue)
  (each : ∀ next, Live hash x next →
    Ensures I (recur next) fun result => ∀ solution ∈ result, Solves hash x n next solution)
include blind live listed each

theorem ensures_scalarChildren : ∀ effects,
    Ensures I (Search.scalarChildren hash x recur s recipe effects) fun children =>
      children.length = effects.length → List.Forall₂ (fun effect child => ∃ next,
        transition hash x.contract s recipe effect x.objects x.frontier = .ok next ∧
          Solves hash x n next child) effects children := by
  intro effects
  induction effects with
  | nil => exact ensures_pure fun _ => .nil
  | cons effect rest ih =>
    refine ensures_take blind ?_ (ensures_pure fun impossible => nomatch impossible)
    refine ensures_bind_lift fun next moved => ?_
    have step : Steps hash x.contract x.objects x.frontier s ⟨recipe, effect⟩ next := ⟨listed, moved⟩
    refine ensures_bind (each next (live.step step)) fun result solved => ?_
    cases result with
    | none => exact ensures_pure fun impossible => nomatch impossible
    | some child =>
      refine ensures_bind ih fun others all => ensures_pure fun same => ?_
      exact .cons ⟨next, moved, solved child rfl⟩ (all (Nat.succ.inj same))

theorem ensures_tryScalar (facts : ContractFacts x.contract.spec x.objects)
    {choices : List ScalarSolution} (earlier : ∀ c ∈ choices, Solves hash x (n + 1) s c) :
    Ensures I (Search.tryScalar hash x recur s (hash.state s) recipe choices)
      fun found => ∀ c ∈ found.1, Solves hash x (n + 1) s c := by
  refine ensures_bind_lift fun both allowed => ensures_bind_lift fun _ nonempty => ?_
  refine ensures_bind (ensures_scalarChildren blind live listed each _) fun children all => ?_
  split
  · exact ensures_pure earlier
  case isFalse full =>
    split
    · exact ensures_exhausted blind (ensures_blamed blind (ensures_pure earlier))
    case isFalse small =>
      refine ensures_take blind (ensures_bind_lift fun solution built => ?_) (ensures_pure earlier)
      refine ensures_pure fun c member => ?_
      rcases List.mem_append.mp member with before | added
      · exact earlier c before
      · cases List.mem_singleton.mp added
        have solved := all (not_not.mp full)
        have named : Named x both.1.actionId recipe := ⟨listed, both.1, applicable_action allowed, rfl⟩
        have carried : Selects x s none none := .inl rfl
        have subtrees : List.Forall₂ (fun effect child => ∃ next,
            transition hash x.contract s recipe effect x.objects x.frontier = .ok next ∧
              Walked hash x n next none child) (successors s recipe) (children.map (·.candidate)) := by
          rw [List.forall₂_map_right_iff]
          refine solved.imp ?_
          rintro effect child ⟨next, moved, solves⟩
          exact ⟨next, moved, solves.accepted.walked⟩
        have walked := walked_decision facts live carried named (require_ok.mp nonempty) subtrees
        have entries : (children.map (·.candidate)).flatMap (·.entries) = [] := by
          refine List.flatMap_eq_nil_iff.mpr fun candidate member => ?_
          obtain ⟨child, inChildren, rfl⟩ := List.mem_map.mp member
          obtain ⟨effect, -, next, -, solves⟩ := forall₂_mem_right solved child inChildren
          exact solves.entries
        have candidate : solution.candidate = decision hash (hash.state s) both.1.actionId
            (enters none none) (successors s recipe) (children.map (·.candidate)) := by
          rw [composed_candidate built, ← entries]
          rfl
        have ordered : ∀ c ∈ children.map (·.candidate), InKeyOrder c.node := by
          intro c member
          obtain ⟨child, inChildren, rfl⟩ := List.mem_map.mp member
          obtain ⟨effect, -, next, -, solves⟩ := forall₂_mem_right solved child inChildren
          exact solves.accepted.ordered
        refine ⟨⟨candidate ▸ walked, candidate ▸ inKeyOrder_decision (facts.recipes recipe listed)
          subtrees.length_eq ordered, le_max_of_le_right ?_⟩, candidate ▸ entries⟩
        rw [candidate]
        simpa [decision, Function.comp_def] using small

end ensures

/-- Stored solutions are accepted at every reachable ledger that has the key. -/
def SolutionsAccepted (hash : Hashing) (x : Search) (σ : SearchState) : Prop :=
  ∀ key found, (key, found) ∈ σ.scalarMemo → ∀ remaining ≤ x.contract.spec.maxDecisions, ∀ s,
    Live hash x s → key = (hash.state s, x.contract.spec.maxDecisions - remaining) →
    ∀ solution ∈ found, Solves hash x remaining s solution

theorem solutionsAccepted_blind : Blind (SolutionsAccepted hash x) := fun _ _ _ accepted => accepted

theorem ensures_scalarStep (facts : ContractFacts x.contract.spec x.objects)
    (free : CollisionFree hash x.contract x.objects x.frontier)
    {recur : GrowthState → SearchM (Option ScalarSolution)} {remaining : ℕ}
    (within : remaining ≤ x.contract.spec.maxDecisions) {s : GrowthState} (live : Live hash x s)
    (each : ∀ {n}, remaining = n + 1 → ∀ next, Live hash x next →
      Ensures (SolutionsAccepted hash x) (recur next)
        fun result => ∀ solution ∈ result, Solves hash x n next solution) :
    Ensures (SolutionsAccepted hash x)
      (Search.scalarStep hash x recur (x.contract.spec.maxDecisions - remaining) remaining s)
      fun result => ∀ solution ∈ result, Solves hash x remaining s solution := by
  have blind : Blind (SolutionsAccepted hash x) := solutionsAccepted_blind
  rw [Search.scalarStep, live.digested]
  refine ensures_bind_lift fun digest same => ?_
  cases same
  refine ensures_get fun σ accepted => ?_
  cases stored : σ.scalarMemo.lookup (hash.state s, x.contract.spec.maxDecisions - remaining) with
  | some found =>
    exact ensures_pure (accepted _ found (mem_of_lookup stored) remaining within s live rfl) σ accepted
  | none =>
    refine ensures_take blind ?_ (ensures_pure fun _ impossible => absurd impossible
      (Option.not_mem_none _)) σ accepted
    refine ensures_reached blind (ensures_bind_lift fun ended isEnded => ?_)
    cases ended with
    | true =>
      refine ensures_bind_lift fun lower _ => ensures_bind_lift fun upper _ => ensures_pure ?_
      rintro solution ⟨⟩
      exact ⟨⟨walked_leaf live isEnded, inKeyOrder_leaf, le_max_left _ _⟩, rfl⟩
    | false =>
      refine ensures_bind_lift fun _ fixed => ?_
      split
      · exact ensures_pure fun _ impossible => absurd impossible (Option.not_mem_none _)
      case isFalse early =>
        split
        · exact ensures_exhausted blind (ensures_pure fun _ impossible => absurd impossible
            (Option.not_mem_none _))
        · obtain ⟨n, rfl⟩ := Nat.exists_eq_succ_of_ne_zero fun zero => early (.inr zero)
          refine ensures_bind_lift fun recipes sorted => ?_
          have tried : ∀ p ∈ x.allowed recipes, ∀ choices,
              (∀ c ∈ choices, Solves hash x (n + 1) s c) → Ensures (SolutionsAccepted hash x)
                (Search.tryScalar hash x recur s (hash.state s) p.2 choices)
                fun found => ∀ c ∈ found.1, Solves hash x (n + 1) s c := by
            intro p member choices earlier
            have inCatalogue := (sortedRecipes_ok sorted p).mp (List.mem_of_mem_filter member)
            exact ensures_tryScalar blind live inCatalogue.1 (each rfl) facts earlier
          refine ensures_bind (ensures_attempts blind tried [] fun _ impossible => absurd impossible
            List.not_mem_nil) fun found all => ensures_bind_lift fun best selected => ?_
          have solves : ∀ solution ∈ best, Solves hash x (n + 1) s solution := by
            intro solution chosen
            obtain ⟨choice, member, candidate, -⟩ := (selectScalar_ok selected).2 solution chosen
            exact ⟨candidate ▸ (all choice member).accepted, candidate ▸ (all choice member).entries⟩
          refine ensures_bind (ensures_modify fun τ kept => ?_) fun _ _ => ensures_pure solves
          split
          · intro key found' member remaining' within' t live' same
            rcases List.mem_cons.mp member with head | tail
            · cases head
              obtain ⟨sameState, sameDepth⟩ := Prod.mk.inj same
              have : remaining' = n + 1 := by omega
              rw [this, ← free.state s t live.reachable live'.reachable sameState]
              exact solves
            · exact kept key found' tail remaining' within' t live' same
          · exact kept

theorem ensures_scalar (facts : ContractFacts x.contract.spec x.objects)
    (free : CollisionFree hash x.contract x.objects x.frontier) :
    ∀ {remaining : ℕ}, remaining ≤ x.contract.spec.maxDecisions → ∀ {s : GrowthState},
      Live hash x s → Ensures (SolutionsAccepted hash x) (Search.scalar hash x remaining s)
        fun result => ∀ solution ∈ result, Solves hash x remaining s solution := by
  intro remaining
  induction remaining with
  | zero =>
    intro within s live
    rw [Search.scalar, ← Nat.sub_zero x.contract.spec.maxDecisions]
    exact ensures_scalarStep facts free within live fun impossible =>
      absurd impossible (Nat.succ_ne_zero _).symm
  | succ remaining ih =>
    intro within s live
    refine ensures_scalarStep facts free within live ?_
    rintro n ⟨⟩ next live'
    exact ih (by omega) live'

end CollectivePhaseControl
