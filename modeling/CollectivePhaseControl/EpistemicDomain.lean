import CollectivePhaseControl.EpistemicModels

/-! The epistemic domain: a validated growth contract with an observation kernel, a channel
from raw symbols to the symbols that the controller sees, and a schedule of fees. A domain
cannot be built without passing its own validation. -/
namespace CollectivePhaseControl

variable (hash : EpistemicHashing)

structure DomainInputs where
  contract : GrowthContract
  objects : Objects
  epistemic : EpistemicContract
  frontier : Frontier
  observationMap : Dict Identifier
  excludedActions : List Identifier
  excludedInteractions : List Identifier

structure KernelKey where
  modelId : Identifier
  actionDigest : Digest
  successorId : Identifier
deriving DecidableEq

abbrev Kernel := List (KernelKey × List Identifier)

def EpistemicKernelRow.key (row : EpistemicKernelRow) : KernelKey :=
  ⟨row.modelId, row.actionDigest, row.successorId⟩

def addRow (alphabet : List Identifier) (kernel : Kernel) (row : EpistemicKernelRow) :
    Checked Kernel := do
  require (row.key ∉ kernel.map Prod.fst ∧ row.observations ⊆ alphabet ∧ row.observations.Nodup)
    "epistemic_kernel_invalid"
  pure (kernel ++ [(row.key, row.observations.insertionSort (· ≤ ·))])

def expectedKeys (recipes : Dict GrowthAction) : List KernelKey :=
  recipes.values.flatMap fun r => r.successors.flatMap fun effect =>
    effect.applicableModelIds.map fun theta => ⟨theta, r.actionDigest, effect.successorId⟩

def costCategories : List Identifier :=
  ["construction", "search", "checking", "transport", "maintenance", "application"]

def validateEvent (c : GrowthContractSpec) (event : EpistemicCostEvent) : Checked Unit :=
  require (0 ≤ F event.duration ∧ event.charges.keys ⊆ costCategories ∧
    ∀ amounts ∈ event.charges.values,
      (∀ key ∈ amounts.keys, key ∈ c.resourceUnits) ∧ ∀ v ∈ amounts.values, 0 ≤ F v)
    "epistemic_cost_event_invalid"

namespace DomainInputs
variable (d : DomainInputs)

def frontierDocumentDigest : Option Digest := d.frontier.map (frontierDigest hash.toHashing)

/-- `_validate`: the recipes by action name and the kernel by row. -/
def validate : Checked (Dict GrowthAction × Kernel) := do
  validateContract hash.toHashing d.contract d.objects
  checkFrontier hash.toHashing d.contract d.objects d.frontier
  let e := d.epistemic.spec
  require (e.growthContractDigest = contractDigest hash.toHashing d.contract ∧
    e.frontierDigest = d.frontierDocumentDigest hash) "epistemic_input_binding"
  let recipes : Dict GrowthAction := .ofList (← namedCatalogue d.contract.spec d.objects)
  let alphabet := e.observationAlphabet
  require alphabet.Nodup "epistemic_alphabet_invalid"
  let kernel ← e.kernel.foldlM (addRow alphabet) []
  require (kernel.map Prod.fst ⊆ expectedKeys recipes ∧ expectedKeys recipes ⊆ kernel.map Prod.fst)
    "epistemic_kernel_incomplete"
  require ((∀ symbol ∈ d.observationMap.keys, symbol ∈ alphabet) ∧
    (∀ symbol ∈ alphabet, symbol ∈ d.observationMap) ∧
    ∀ v ∈ d.observationMap.values, 0 < v.length ∧ v.length ≤ 128) "epistemic_channel_invalid"
  require (∀ action ∈ d.excludedActions, action ∈ recipes) "epistemic_action_unknown"
  require (e.costEvents.map (·.eventId)).Nodup "epistemic_cost_event_invalid"
  e.costEvents.forM (validateEvent d.contract.spec)
  pure (recipes, kernel)

/-- `{s: s for s in sorted(alphabet)}`, the channel when none is given. -/
def identityMap (alphabet : List Identifier) : Dict Identifier :=
  .ofList (alphabet.map fun symbol => (symbol, symbol))

end DomainInputs

/-- Inputs that passed validation, with what it derived from them. -/
structure Domain extends DomainInputs where
  recipes : Dict GrowthAction
  kernel : Kernel
  valid : toDomainInputs.validate hash = .ok (recipes, kernel)

namespace Domain
variable {hash} (d : Domain hash)

def build (hash : EpistemicHashing) (inputs : DomainInputs) : Checked (Domain hash) :=
  match derived : inputs.validate hash with
  | .ok (recipes, kernel) => .ok ⟨inputs, recipes, kernel, derived⟩
  | .error fault => .error fault

/-- More interactions excluded. Validation does not look at them. -/
def excluding (interactions : List Identifier) : Domain hash where
  toDomainInputs := { d.toDomainInputs with
    excludedInteractions := d.excludedInteractions ++ interactions }
  recipes := d.recipes
  kernel := d.kernel
  valid := d.valid

/-- `digest`: what plans and comparisons are bound to. -/
def digest : Digest :=
  hash.domain (inputDigest hash.toHashing d.contract d.objects d.frontier)
    (hash.epistemic d.epistemic) d.observationMap (sortedSet d.excludedActions)
    (sortedSet d.excludedInteractions)

end Domain

def normalizeHypothesis (h : EpistemicHypothesis) : Checked EpistemicHypothesis := do
  let state ← normalize h.state
  pure { h with state := state }

/-- `{content_digest(h): h for h in values}`: the last hypothesis of a digest wins. -/
def unique (values : List EpistemicHypothesis) : Dict EpistemicHypothesis :=
  values.foldl (fun m h => m.insert (hash.hypothesis h) h) ∅

def canonicalSupport (values : List EpistemicHypothesis) : Checked Support := do
  pure (unique hash (← values.mapM normalizeHypothesis)).values

/-- The length of `{"support":[...]}` in canonical bytes. -/
def supportBytes (support : Support) : ℕ :=
  14 + (support.map hash.size).sum + (support.length - 1)

namespace Domain
variable {hash} (d : Domain hash)

def bounded (values : List EpistemicHypothesis) : Checked Support := do
  let result ← canonicalSupport hash values
  require (result ≠ []) "epistemic_inconsistent_support"
  require (result.length ≤ d.epistemic.spec.maxSupport) "epistemic_support_budget"
  require (supportBytes hash result ≤ d.epistemic.spec.maxSupportBytes) "epistemic_support_budget"
  pure result

def eventTotals (event : EpistemicCostEvent) : Dict Rational :=
  d.contract.spec.resourceUnits.map fun key _ =>
    str (event.charges.values.map fun amounts => balance amounts key).sum

/-- The contract whose planning allowance, from the ledger at hand, is the event. -/
def chargedContract (h : EpistemicHypothesis) (event : EpistemicCostEvent) : GrowthContract :=
  { d.contract with spec := { d.contract.spec with
      initialState := h.state
      planningCharge := d.eventTotals event
      planningDuration := event.duration
      planningBoundary := .sharedBudget } }

def payEvent (h : EpistemicHypothesis) (event : EpistemicCostEvent) :
    Checked EpistemicHypothesis := do
  let state ← initialState hash.toHashing (d.chargedContract h event) none
  require (F state.elapsed ≤ F d.contract.spec.deadline) "epistemic_cost_deadline"
  pure { h with state := state }

/-- The events due after a number of primitive steps, in the order of their identifiers. -/
def dueEvents (steps : ℕ) : List EpistemicCostEvent :=
  (d.epistemic.spec.costEvents.insertionSort fun a b => a.eventId ≤ b.eventId).filter
    (·.afterPrimitiveSteps = steps)

def pay (h : EpistemicHypothesis) : Checked EpistemicHypothesis :=
  (d.dueEvents h.primitiveSteps).foldlM d.payEvent h

def opening (start : GrowthState) (theta : Identifier) : EpistemicHypothesis :=
  ⟨theta, { start with modelIds := [theta] }, none, 0⟩

def initial : Checked Support := do
  let start ← initialState hash.toHashing d.contract d.frontier
  let paid ← (start.modelIds.insertionSort (· ≤ ·)).mapM fun theta => d.pay (opening start theta)
  d.bounded paid

def chosenRecipe (support : Support) (actionId : Identifier) : Checked GrowthAction := do
  require (support ≠ []) "epistemic_inconsistent_support"
  match d.recipes[actionId]? with
  | none => .error (.coded "epistemic_action_unknown")
  | some recipe =>
    require (actionId ∉ d.excludedActions ∧
      ∀ interaction ∈ recipe.interactions, interaction ∉ d.excludedInteractions)
      "epistemic_action_excluded"
    pure recipe

def hiddenOptions (h : EpistemicHypothesis) (recipe : GrowthAction) :
    Checked (List GrowthSuccessor) := do
  require (h.state.modelIds = [h.modelId]) "epistemic_model_switch"
  let _ ← applicable hash.toHashing d.contract h.state recipe d.objects d.frontier
  let effects := successors h.state recipe
  require (effects ≠ []) "epistemic_kernel_incomplete"
  pure effects

/-- The hypothesis after one hidden effect, with the fees that fall due. -/
def moved (h : EpistemicHypothesis) (recipe : GrowthAction) (effect : GrowthSuccessor) :
    Checked EpistemicHypothesis := do
  let after ← transition hash.toHashing d.contract h.state recipe effect d.objects d.frontier
  require (h.primitiveSteps < d.contract.spec.maxDecisions) "epistemic_primitive_budget"
  d.pay ⟨h.modelId, after, h.entry, h.primitiveSteps + 1⟩

def kernelRow (theta : Identifier) (recipe : GrowthAction) (effect : GrowthSuccessor) :
    Checked (List Identifier) :=
  demand .keyError (d.kernel.lookup ⟨theta, recipe.actionDigest, effect.successorId⟩)

/-- The symbols that a hidden effect may show, each with the hypothesis after it. -/
def arrivals (h : EpistemicHypothesis) (recipe : GrowthAction) (effect : GrowthSuccessor) :
    Checked (List (Identifier × EpistemicHypothesis)) := do
  let next ← d.moved h recipe effect
  let row ← d.kernelRow h.modelId recipe effect
  row.mapM fun raw => do pure ((← d.observationMap.item raw), next)

/-- `groups.setdefault(symbol, []).append(next_h)`, in order. -/
def groups (arrived : List (Identifier × EpistemicHypothesis)) :
    Dict (List EpistemicHypothesis) :=
  arrived.foldl (fun m p => m.insert p.1 (m.getD p.1 [] ++ [p.2])) ∅

def branches (arrived : List (Identifier × EpistemicHypothesis)) :
    Checked (List (Identifier × Support)) :=
  (groups arrived).toList.mapM fun p => do pure (p.1, ← d.bounded p.2)

/-- `advance`, where every hidden effect is charged first. -/
def advanceCharging {m : Type → Type} [Monad m] [MonadLiftT Checked m] (charge : m PUnit)
    (support : Support) (actionId : Identifier) : m (List (Identifier × Support)) := do
  let recipe ← liftM (d.chosenRecipe support actionId)
  let arrived ← support.mapM fun h => do
    let effects ← liftM (d.hiddenOptions h recipe)
    effects.mapM fun effect => do
      charge
      liftM (d.arrivals h recipe effect)
  liftM (d.branches arrived.flatten.flatten)

/-- `advance` without a budget. -/
def advance (support : Support) (actionId : Identifier) : Checked (List (Identifier × Support)) :=
  d.advanceCharging (pure ⟨⟩) support actionId

def marked (h : EpistemicHypothesis) : EpistemicHypothesis :=
  { h with entry := some ⟨h.state.elapsed, h.state.capacities⟩ }

def markEntry (support : Support) (comparisons : List GrowthComparison) : Checked Support := do
  let open' ← support.allM fun h =>
    if h.entry = none then entryAllowed d.contract.spec comparisons h.state else pure false
  require (support ≠ [] ∧ open' = true) "epistemic_hidden_entry"
  d.bounded (support.map marked)

def terminal (support : Support) (endpoint : Option ℚ) : Checked Bool :=
  if support = [] then pure false
  else support.allM fun h => CollectivePhaseControl.terminal d.contract.spec endpoint h.state h.entry

end Domain

/-! The sample contract, with two models open at the start. Growing may show `high` under the
nominal model only, and `low` under any. -/
namespace Sample

def epistemicDigests : EpistemicHashing where
  toHashing := digests
  hypothesis h := String.intercalate "/" [h.modelId, digests.state h.state,
    (h.entry.map digests.checkpoint).getD "", toString h.primitiveSteps]
  size h := 100 + h.modelId.length
  support s := String.intercalate "|" (s.map fun h => String.intercalate "/" [h.modelId,
    digests.state h.state, (h.entry.map digests.checkpoint).getD "", toString h.primitiveSteps])
  policy n := n.supportDigest ++ n.actionId.getD ""
  epistemic e := e.metadata.objectId ++ toString e.spec.costEvents.length
  domain ledger epistemic _ _ _ := ledger ++ epistemic

def doubtful : GrowthContract :=
  ⟨metadata "contract", ∅,
    { terms with initialState := { declared with modelIds := ["nominal", "partial"] } }⟩

def kernelRow (name model : Identifier) : EpistemicKernelRow :=
  ⟨model, name, model, if name = "grow" ∧ model = "nominal" then ["high", "low"] else ["low"],
    by split <;> simp⟩

def epistemicTerms : EpistemicContractSpec where
  growthContractDigest := "contract"
  frontierDigest := none
  observationAlphabet := ["high", "low"]
  kernel := ["grow", "idle"].flatMap fun name => terms.modelCatalogue.map (kernelRow name)
  maxSupport := 16
  maxSupportBytes := 10000
  maxHistory := 4
  costEvents := [⟨"fee", "schedule", 1, dict [("checking", dict [("tokens", whole 1)])], whole 0, 0⟩]

def epistemic : EpistemicContract := ⟨metadata "epistemic", ∅, epistemicTerms⟩

def inputs (c : GrowthContract) : DomainInputs where
  contract := c
  objects := objects
  epistemic := epistemic
  frontier := none
  observationMap := DomainInputs.identityMap ["high", "low"]
  excludedActions := []
  excludedInteractions := []

def namedRecipes : Dict GrowthAction := dict [("grow", grow), ("idle", idle)]

def rows : Kernel := epistemicTerms.kernel.map fun row => (row.key, row.observations)

def doubtfulDomain : Domain epistemicDigests where
  toDomainInputs := inputs doubtful
  recipes := namedRecipes
  kernel := rows
  valid := by decide +kernel

/-- The domain in which only the nominal model is open. -/
def domain : Domain epistemicDigests where
  toDomainInputs := inputs contract
  recipes := namedRecipes
  kernel := rows
  valid := by decide +kernel

end Sample

end CollectivePhaseControl
