import CollectivePhaseControl.Documents

/-! The documents a runner gateway exchanges. A record's fields that are only compared
as part of the whole document are gathered in `rest`. Instants of the gateway's own
clock are whole microseconds in UTC; times read from a receipt may lack an offset. -/
namespace CollectivePhaseControl

abbrev Bytes := List UInt8

def DateTime.utc (instant : ℤ) : DateTime := ⟨instant, some 0⟩

inductive Json where
  | null
  | bool (value : Bool)
  | int (value : ℤ)
  | str (value : String)
  | array (items : List Json)
  | object (members : List (String × Json))

inductive Isolation where
  | runnerAttested | none
deriving DecidableEq, Repr

structure OutcomeSelector where
  jsonPointer : String
  values : Dict OutcomeName
deriving DecidableEq

structure RunnerCapabilitySpec where
  adapterPrincipalId : Identifier
  verifierPrincipalId : Identifier
  executionPolicyDigest : Digest
  imageDigest : Digest
  materialDigests : List Digest
  outputSchemaName : Identifier
  outputSchemaDigest : Digest
  returnCodeOutcomes : Dict OutcomeName
  outputSelector : Option OutcomeSelector
  rest : String
deriving DecidableEq

structure ExecutionPolicySpec where
  allowedImageDigests : List Digest
  timeoutSeconds : ℕ
  stdoutLimit : ℕ
  stderrLimit : ℕ
  maximumInputBytes : ℕ
  maximumOutputBytes : ℕ
  networkPolicy : Isolation
  filesystemPolicy : Isolation
  rest : String
deriving DecidableEq

structure RunnerJobSpec where
  jobId : Identifier
  actionDigest : Digest
  capabilityDigest : Digest
  capabilityStatementDigest : Digest
  executionPolicyDigest : Digest
  executionPolicyStatementDigest : Digest
  generationDigest : Digest
  attempt : ℕ
  leaseId : String
  leaseExpiresAt : ℤ
  inputDigests : List Digest
  imageDigest : Digest
  timeoutSeconds : ℕ
  stdoutLimit : ℕ
  stderrLimit : ℕ
  networkPolicy : Isolation
  filesystemPolicy : Isolation
deriving DecidableEq

structure RunnerReceiptSpec where
  jobDigest : Digest
  jobId : Identifier
  attempt : ℕ
  leaseId : Identifier
  runnerPrincipalId : Identifier
  imageDigest : Digest
  materialDigests : List Digest
  stdoutDigest : Digest
  stderrDigest : Digest
  stdoutCapturedBytes : ℕ
  stderrCapturedBytes : ℕ
  stdoutDiscardedBytes : ℕ
  stderrDiscardedBytes : ℕ
  returnCode : Option ℤ
  timeout : Bool
  claimedOutcome : OutcomeName
  cleanupComplete : Bool
  isolationProfileDigest : Option Digest
  outputDigests : List Digest
  startedAt : DateTime
  completedAt : DateTime
deriving DecidableEq

inductive RunnerDocumentSpec where
  | capability (spec : RunnerCapabilitySpec)
  | executionPolicy (spec : ExecutionPolicySpec)
  | job (spec : RunnerJobSpec)
  | receipt (spec : RunnerReceiptSpec)
  | pendingProjection (spec : PendingProjectionSpec)
  | other (kind : Identifier) (body : String)
deriving DecidableEq

abbrev RunnerDocument := Typed RunnerDocumentSpec
abbrev CapabilityDocument := Typed RunnerCapabilitySpec
abbrev ExecutionPolicy := Typed ExecutionPolicySpec
abbrev RunnerJob := Typed RunnerJobSpec
abbrev RunnerReceipt := Typed RunnerReceiptSpec
abbrev SignedStatement := Typed DsseEnvelope

def Typed.lift {σ : Type} (kind : σ → RunnerDocumentSpec) (d : Typed σ) : RunnerDocument :=
  ⟨d.metadata, d.extensions, kind d.spec⟩

structure VerifiedStatement where
  subject : RunnerDocument
  principalId : Identifier
  role : Identifier

/-- What the gateway is given from outside: hashing and canonical bytes, the parsers of
JSON and of documents, the signer of jobs and the verifier of statements at an instant. -/
structure Services where
  document : RunnerDocument → Digest
  schema : Identifier → Option Digest
  digestBytes : Bytes → Digest
  canonical : SignedStatement → Bytes
  loads : Bytes → Option (List (String × Json))
  parsedKind : List (String × Json) → Option Identifier
  subject : SignedStatement → Option RunnerDocument
  sign : RunnerJob → Checked SignedStatement
  verify : SignedStatement → ℤ → Checked VerifiedStatement

namespace Services

def statement (w : Services) (s : SignedStatement) : Digest := w.digestBytes (w.canonical s)

/-- `schema_digest`: an unknown kind raises. -/
def schemaDigest (w : Services) (name : Identifier) : Checked Digest :=
  demand .valueError (w.schema name)

/-- `_statement_subject`. -/
def statementSubject (w : Services) (s : SignedStatement) : Checked RunnerDocument :=
  match w.subject s with
  | some subject => .ok subject
  | none => .error (.coded "runner_signed_statement_invalid")

end Services

def charWithin (low high c : Char) : Bool := low ≤ c && c ≤ high

def letterOrDigit (c : Char) : Bool :=
  charWithin 'A' 'Z' c || charWithin 'a' 'z' c || charWithin '0' '9' c

def lowerHex (c : Char) : Bool := charWithin '0' '9' c || charWithin 'a' 'f' c

/-- `^[A-Za-z0-9][A-Za-z0-9._:-]{0,127}$` -/
def isIdentifier (s : String) : Bool :=
  match s.toList with
  | [] => false
  | head :: tail =>
    letterOrDigit head && tail.all (fun c => letterOrDigit c || "._:-".toList.contains c)
      && tail.length ≤ 127

/-- `^sha256:[0-9a-f]{64}$` -/
def isDigest (s : String) : Bool :=
  s.toList.take 7 == "sha256:".toList && (s.toList.drop 7).all lowerHex
    && s.toList.length == 71

/-- What `secrets.token_hex(16)` returns. -/
structure LeaseToken where
  value : String
  hex : value.toList.all lowerHex = true
  size : value.toList.length = 32

theorem letterOrDigit_of_lowerHex {c : Char} (h : lowerHex c = true) :
    letterOrDigit c = true := by
  simp only [lowerHex, letterOrDigit, charWithin, Bool.or_eq_true, Bool.and_eq_true,
    decide_eq_true_eq] at h ⊢
  rcases h with digit | ⟨low, high⟩
  · exact .inr digit
  · exact .inl (.inr ⟨low, high.trans (by decide)⟩)

theorem LeaseToken.isIdentifier (token : LeaseToken) : isIdentifier token.value = true := by
  have hex := token.hex
  have size := token.size
  unfold CollectivePhaseControl.isIdentifier
  cases h : token.value.toList with
  | nil => simp [h] at size
  | cons head tail =>
    rw [h] at hex size
    simp only [List.all_cons, Bool.and_eq_true, List.length_cons] at hex size
    have rest : tail.all (fun c => letterOrDigit c || "._:-".toList.contains c) = true := by
      rw [List.all_eq_true] at hex ⊢
      intro c member
      simp [letterOrDigit_of_lowerHex (hex.2 c member)]
    simp only [letterOrDigit_of_lowerHex hex.1, rest, Bool.and_self, Bool.true_and,
      decide_eq_true_eq]
    omega

/-- The zeros of the scripts whose decimal digits `int` reads. -/
def decimalZeros : List ℕ :=
  [0x30, 0x660, 0x6F0, 0x7C0, 0x966, 0x9E6, 0xA66, 0xAE6, 0xB66, 0xBE6, 0xC66, 0xCE6, 0xD66,
   0xDE6, 0xE50, 0xED0, 0xF20, 0x1040, 0x1090, 0x17E0, 0x1810, 0x1946, 0x19D0, 0x1A80, 0x1A90,
   0x1B50, 0x1BB0, 0x1C40, 0x1C50, 0xA620, 0xA8D0, 0xA900, 0xA9D0, 0xA9F0, 0xAA50, 0xABF0,
   0xFF10, 0x104A0, 0x10D30, 0x11066, 0x110F0, 0x11136, 0x111D0, 0x112F0, 0x11450, 0x114D0,
   0x11650, 0x116C0, 0x11730, 0x118E0, 0x11950, 0x11C50, 0x11D50, 0x11DA0, 0x11F50, 0x16A60,
   0x16AC0, 0x16B50, 0x1D7CE, 0x1D7D8, 0x1D7E2, 0x1D7EC, 0x1D7F6, 0x1E140, 0x1E2F0, 0x1E4F0,
   0x1E950, 0x1FBF0]

def decimalDigit (c : Char) : Option ℕ :=
  (decimalZeros.find? fun start => start ≤ c.toNat && c.toNat < start + 10).map (c.toNat - ·)

/-- The list position a segment names; a segment that is no run of digits names none. -/
def arrayIndex (segment : List Char) : Option ℕ :=
  if segment.isEmpty then none
  else segment.foldlM (fun value c => (decimalDigit c).map (10 * value + ·)) 0

/-- `segment.replace("~" + code, mark)`. -/
def unescapeTilde (code mark : Char) : List Char → List Char
  | '~' :: c :: rest =>
    if c = code then mark :: unescapeTilde code mark rest
    else '~' :: unescapeTilde code mark (c :: rest)
  | c :: rest => c :: unescapeTilde code mark rest
  | [] => []

def resolveSegments : Json → List (List Char) → Option Json
  | value, [] => some value
  | .object members, segment :: rest => do
    resolveSegments (← members.lookup (String.ofList segment)) rest
  | .array items, segment :: rest => do resolveSegments (← items[← arrayIndex segment]?) rest
  | _, _ :: _ => none

/-- `resolve_pointer`; every failure is a `ValueError`. -/
def resolvePointer (value : Json) (pointer : String) : Option Json :=
  match pointer.toList with
  | [] => some value
  | '/' :: path =>
    resolveSegments value
      ((path.splitOn '/').map fun segment => unescapeTilde '0' '~' (unescapeTilde '1' '/' segment))
  | _ => none

end CollectivePhaseControl
