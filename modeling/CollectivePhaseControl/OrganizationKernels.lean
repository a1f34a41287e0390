import CollectivePhaseControl.EnablingClosures
import CollectivePhaseControl.GrowthLedger
import CollectivePhaseControl.RunnerReceipts
import CollectivePhaseControl.ScienceBalances

/-! The kernels of the v0.5 audit. Each reads the attestations of a workspace; the witness of
an organization and the typed flow profile also name the snapshot they were made for. -/
namespace CollectivePhaseControl
namespace Organization

inductive RecordType where
  | state | transformation | resourceObservation | boundarySupply | catalyst | inhibitor
  | verifier | authority | hazard | independence | infrastructure | lineage | exposure | evidence
deriving DecidableEq, Repr

/-- An accepted attestation, with its digest and what the kernels read of it. -/
structure Statement where
  digest : Digest
  keyId : Identifier
  principalId : Identifier
  attestationId : Identifier
  recordType : RecordType
  subjectId : Identifier
  subjectDigest : Digest
  sourceArtifactDigest : Digest
  lineageRefs : List Identifier := []
  correlationDomains : List Identifier := []
  attributes : JsonObject := []

structure LedgerObject where
  digest : Digest
  kind : String
  lifecycle : String
  authorityKeyId : Option Identifier
deriving DecidableEq

structure Manifest where
  contractDigest : Digest
  trustPolicyDigest : Digest
  trustedTimeReceiptDigest : Option Digest
  analysisEpoch : Option String
  objects : List LedgerObject
  quarantine : List Digest

structure Contract where
  unitRegistryRef : Digest
  targetStates : List Identifier
  maximumOperations : ℕ
  minimumEffectiveIndependence : ℕ := 2
  perturbationSuiteRefs : List Identifier

structure Principal where
  principalId : Identifier
  keyId : Identifier
  roles : List String
  infrastructureDomains : List Identifier
  revoked : Bool

inductive Status where
  | satisfied | violated | unknown
deriving DecidableEq, Repr

abbrev Finding := Status × List String

def finding (reasons : List String) : Finding :=
  (if reasons = [] then .satisfied else .violated, sortedSet reasons)

/-- `str(value)`, of a value that is no list and no object. -/
def text : Json → String
  | .str value => value
  | .bool true => "True"
  | .bool false => "False"
  | .int value => toString value
  | _ => "None"

def members? : Json → Option JsonObject
  | .object members => some members
  | _ => none

def items? : Json → Option (List Json)
  | .array items => some items
  | _ => none

/-- `Fraction(text)` for a quotient of decimal numbers. -/
def natural (digits : List Char) : Option ℕ :=
  if digits = [] then none
  else digits.foldlM (fun value c => (decimalDigit c).map (10 * value + ·)) 0

def quotient (digits : List Char) : Option ℚ :=
  match digits.splitOn '/' with
  | [numerator] => (natural numerator).map fun n => (n : ℚ)
  | [numerator, denominator] => do
    let n ← natural numerator
    let d ← natural denominator
    if d = 0 then none else some (mkRat n d)
  | _ => none

/-- `_fraction`; the exceptions it raises are handled alike. -/
def fraction (value : Json) : Option ℚ := do
  let result ← match (text value).toList with
    | '-' :: digits => (quotient digits).map (- ·)
    | digits => quotient digits
  if 2 ^ 4096 ≤ result.num.natAbs ∨ 2 ^ 4096 ≤ result.den then none else some result

def witnessTypes : List String :=
  ["formation_sequence_witness", "organization_witness", "rate_feasibility_witness",
   "siphon_coverage_witness", "typed_flow_profile"]

def excludedLedgerKinds : List String :=
  ["analysis-snapshot", "scientific-witness", "typed-flow-profile", "perturbation-result"]

def Statement.evidenceType (s : Statement) : Option String :=
  if s.recordType = .evidence then (s.attributes.get "evidence_type").string? else none

def Statement.isWitness (s : Statement) : Bool :=
  s.evidenceType.any fun type => witnessTypes.contains type

/-- The value that the snapshot's digest is taken of. -/
structure Snapshot where
  schemaVersion : String
  contractDigest : Digest
  trustPolicyDigest : Digest
  trustedTimeReceiptDigest : Option Digest
  analysisEpoch : Option String
  unitRegistryRef : Digest
  ledger : List (List String)
  attestations : List Digest
  quarantine : List Digest
deriving DecidableEq

def analysisStatementDigests (statements : List Statement) : List Digest :=
  (statements.filter Statement.isWitness).map Statement.digest

def analysisSourceDigests (statements : List Statement) : List Digest :=
  (statements.filter fun s => s.digest ∈ analysisStatementDigests statements).map
    Statement.sourceArtifactDigest

def analysisSnapshot (manifest : Manifest) (contract : Contract) (statements : List Statement) :
    Snapshot where
  schemaVersion := "0.5.0"
  contractDigest := manifest.contractDigest
  trustPolicyDigest := manifest.trustPolicyDigest
  trustedTimeReceiptDigest := manifest.trustedTimeReceiptDigest
  analysisEpoch := manifest.analysisEpoch
  unitRegistryRef := contract.unitRegistryRef
  ledger := ((manifest.objects.filter fun item => item.kind ∉ excludedLedgerKinds ∧
      item.digest ∉ analysisStatementDigests statements ∧
      item.digest ∉ analysisSourceDigests statements).map fun item =>
    [item.digest, item.kind, item.lifecycle]).insertionSort (· ≤ ·)
  attestations := ((statements.filter fun s =>
    s.digest ∉ analysisStatementDigests statements).map Statement.digest).insertionSort (· ≤ ·)
  quarantine := manifest.quarantine.insertionSort (· ≤ ·)

structure NetworkView where
  available : Finset Identifier
  transformations : LegacyNetwork
  catalysts : Finset Identifier
  inhibitors : Finset Identifier

/-- `_network`; a second transformation of one name raises. -/
def network : List Statement → NetworkView → Checked NetworkView
  | [], view => .ok view
  | s :: rest, view =>
    let there := (s.attributes.get "available").isTrue
    match s.recordType with
    | .state =>
      network rest (if there then { view with available := insert s.subjectId view.available }
        else view)
    | .transformation =>
      if s.subjectId ∈ view.transformations then .error (.crash .valueError)
      else network rest
        { view with transformations := view.transformations.insert s.subjectId s.attributes }
    | .catalyst =>
      network rest (if there then { view with catalysts := insert s.subjectId view.catalysts }
        else view)
    | .inhibitor =>
      network rest (if there then { view with inhibitors := insert s.subjectId view.inhibitors }
        else view)
    | .authority | .evidence =>
      network rest { view with available := insert s.subjectId view.available }
    | _ => network rest view

def emptyView : NetworkView := ⟨∅, ∅, ∅, ∅⟩

def Statement.isOrganizationWitness (s : Statement) : Bool :=
  s.evidenceType == some "organization_witness"

def addFlows (multiplier : ℚ) : JsonObject → Dict ℚ → Dict ℚ × Bool
  | [], balances => (balances, true)
  | (coordinate, amount) :: rest, balances =>
    match fraction amount with
    | some value => addFlows multiplier rest (balances.add coordinate (multiplier * value))
    | none => (balances, false)

def fluxBalances (transformations : LegacyNetwork) (flux : JsonObject) :
    List Identifier → Dict ℚ → List String → Dict ℚ × List String
  | [], balances, reasons => (balances, reasons)
  | id :: rest, balances, reasons =>
    match fraction (flux.get id) with
    | none => (balances, reasons ++ ["organization_exact_balance_invalid"])
    | some multiplier =>
      let reasons := reasons ++
        reasonIf (multiplier ≤ 0) ("organization_flux_not_strictly_positive:" ++ id)
      let flows := (transformations[id]?.map fun edge => edge.get "coordinate_flows").bind members?
      match addFlows multiplier (flows.getD []) balances with
      | (balances, true) => fluxBalances transformations flux rest balances reasons
      | (balances, false) => (balances, reasons ++ ["organization_exact_balance_invalid"])

def negativeBalances (balances : Dict ℚ) : List String :=
  (balances.toList.filter (·.2 < 0)).map fun item =>
    "organization_negative_maintenance_balance:" ++ item.1

def witnessReasons (witness : JsonObject) (refs produced targets : Finset Identifier)
    (transformations : LegacyNetwork) (snapshot : Digest) : List String :=
  reasonIf ((witness.get "analysis_snapshot_digest").string? ≠ some snapshot)
    "organization_snapshot_mismatch" ++
  reasonIf (refs = ∅ ∨ ¬ refs ⊆ transformations.keys.toFinset)
    "organization_transformation_set_invalid" ++
  reasonIf (¬ targets ⊆ produced) "organization_not_target_bound"

/-- The outputs of all transformations of a set; one that is absent raises. -/
def producedBy (transformations : LegacyNetwork) : List Identifier → Checked (Finset Identifier)
  | [] => .ok ∅
  | id :: rest => do
    let edge ← transformations.item id
    let more ← producedBy transformations rest
    pure (Enabling.outputs edge ∪ more)

def organizationOf (witness : JsonObject) (transformations : LegacyNetwork) (snapshot : Digest)
    (targets : Finset Identifier) : Checked Finding := do
  let refs := idSet (witness.get "transformation_refs")
  let produced ← producedBy transformations (inOrder refs)
  let reasons := witnessReasons witness refs produced targets transformations snapshot
  match members? (witness.get "feasible_flux") with
  | none => pure (.violated, sortedSet (reasons ++ ["organization_flux_domain_mismatch"]))
  | some flux =>
    if (flux.map Prod.fst).toFinset ≠ refs then
      pure (.violated, sortedSet (reasons ++ ["organization_flux_domain_mismatch"]))
    else
      let (balances, reasons) := fluxBalances transformations flux (inOrder refs) ∅ reasons
      pure (finding (reasons ++ negativeBalances balances))

/-- `_organization`. -/
def organization (statements : List Statement) (transformations : LegacyNetwork)
    (snapshot : Digest) (targets : Finset Identifier) : Checked Finding :=
  match statements.filter Statement.isOrganizationWitness with
  | [] => .ok (.unknown, ["one_organization_witness_required"])
  | [witness] => organizationOf witness.attributes transformations snapshot targets
  | _ => .ok (.violated, ["one_organization_witness_required"])

end Organization
end CollectivePhaseControl
