import CollectivePhaseControl.GrowthComparisons

/-! Epistemic contracts, hypotheses and histories, field by field. A hypothesis is a fixed
model with the whole ledger that goes with it; a support lists the hypotheses that the
observed symbols leave open. -/
namespace CollectivePhaseControl

structure EpistemicKernelRow where
  modelId : Identifier
  actionDigest : Digest
  successorId : Identifier
  observations : List Identifier
  shown : observations ≠ []
deriving DecidableEq

structure EpistemicCostEvent where
  eventId : Identifier
  sourceDigest : Digest
  afterPrimitiveSteps : ℕ
  charges : Dict (Dict Rational)
  duration : Rational
  reservedSynthesisExpansions : ℕ

structure EpistemicContractSpec where
  growthContractDigest : Digest
  frontierDigest : Option Digest
  observationAlphabet : List Identifier
  kernel : List EpistemicKernelRow
  maxSupport : ℕ
  maxSupportBytes : ℕ
  maxHistory : ℕ
  costEvents : List EpistemicCostEvent

abbrev EpistemicContract := Typed EpistemicContractSpec

structure EpistemicHypothesis where
  modelId : Identifier
  state : GrowthState
  entry : Option GrowthCheckpoint
  primitiveSteps : ℕ
deriving DecidableEq

structure EpistemicStep where
  actionId : Identifier
  observation : Identifier
  entry : Bool
  comparisonHistoryLength : ℕ
deriving DecidableEq

/-- An observation policy. `branches` is a dictionary listed in key order. -/
structure EpistemicPolicyNode where
  supportDigest : Digest
  actionId : Option Identifier
  entry : Bool
  branches : List (Identifier × EpistemicPolicyNode)

abbrev Support := List EpistemicHypothesis

/-- Digests of the epistemic layer. `size` is the length of a hypothesis in canonical bytes,
`domain` is taken of the ledger's inputs, the contract, the channel and the exclusions. -/
structure EpistemicHashing extends Hashing where
  hypothesis : EpistemicHypothesis → Digest
  size : EpistemicHypothesis → ℕ
  support : Support → Digest
  policy : EpistemicPolicyNode → Digest
  epistemic : EpistemicContract → Digest
  domain : Digest → Digest → Dict Identifier → List Identifier → List Identifier → Digest

end CollectivePhaseControl
