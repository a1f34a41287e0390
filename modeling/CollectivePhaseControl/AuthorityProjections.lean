import CollectivePhaseControl.AuthorityTrust

/-! Reconstruction of a projected document from a runner's raw output, and the JSON
pointers it follows, here with the text of every failure. -/
namespace CollectivePhaseControl

/-- The characters `isdigit` accepts and `int` does not. -/
def otherDigits : List (ℕ × ℕ) :=
  [(0xB2, 0xB3), (0xB9, 0xB9), (0x1369, 0x1371), (0x19DA, 0x19DA), (0x2070, 0x2070),
   (0x2074, 0x2079), (0x2080, 0x2089), (0x2460, 0x2468), (0x2474, 0x247C), (0x2488, 0x2490),
   (0x24EA, 0x24EA), (0x24F5, 0x24FD), (0x24FF, 0x24FF), (0x2776, 0x277E), (0x2780, 0x2788),
   (0x278A, 0x2792), (0x10A40, 0x10A43), (0x10E60, 0x10E68), (0x11052, 0x1105A),
   (0x1F100, 0x1F10A)]

def isDigitChar (c : Char) : Bool :=
  (decimalDigit c).isSome || otherDigits.any fun range => range.1 ≤ c.toNat && c.toNat ≤ range.2

/-- The text of the failure to read a segment as a list position. -/
def indexFault (segment : List Char) : String :=
  if segment.isEmpty || !segment.all isDigitChar then "json_pointer_array_index_invalid"
  else "invalid literal for int() with base 10: '" ++ String.ofList segment ++ "'"

def followSegments : Json → List (List Char) → Except String Json
  | value, [] => .ok value
  | .object members, segment :: rest =>
    match members.lookup (String.ofList segment) with
    | some value => followSegments value rest
    | none => .error "json_pointer_member_missing"
  | .array items, segment :: rest =>
    match arrayIndex segment with
    | some index =>
      match items[index]? with
      | some value => followSegments value rest
      | none => .error "json_pointer_array_index_missing"
    | none => .error (indexFault segment)
  | _, _ :: _ => .error "json_pointer_traverses_scalar"

/-- `resolve_pointer` with the texts of its errors. -/
def followPointer (value : Json) (pointer : String) : Except String Json :=
  match pointer.toList with
  | [] => .ok value
  | '/' :: path =>
    followSegments value
      ((path.splitOn '/').map fun segment => unescapeTilde '0' '~' (unescapeTilde '1' '/' segment))
  | _ => .error "json_pointer_must_start_with_slash"

theorem followSegments_toOption (value : Json) (segments : List (List Char)) :
    (followSegments value segments).toOption = resolveSegments value segments := by
  fun_induction followSegments value segments with
  | case1 => rfl
  | case2 members segment rest value found ih => simp [resolveSegments, found, ih]
  | case3 members segment rest absent =>
    simp only [resolveSegments, Option.bind_eq_bind]
    rw [absent]
    rfl
  | case4 items segment rest index position value found ih =>
    simp [resolveSegments, position, found, ih]
  | case5 items segment rest index position absent =>
    simp [resolveSegments, position, absent, Except.toOption]
  | case6 items segment rest absent => simp [resolveSegments, absent, Except.toOption]
  | case7 value segment rest scalar list => simp_all [resolveSegments, Except.toOption]

theorem followPointer_toOption (value : Json) (pointer : String) :
    (followPointer value pointer).toOption = resolvePointer value pointer := by
  unfold followPointer
  split <;> rename_i shape
  · unfold resolvePointer
    rw [shape]
    rfl
  · unfold resolvePointer
    rw [shape]
    exact followSegments_toOption value _
  · unfold resolvePointer
    split <;> simp_all [Except.toOption]

structure ProjectionApprovalSpec where
  projectionDigest : Digest
  producerPrincipalId : Identifier
  verifierPrincipalId : Identifier
  approvedAt : DateTime
deriving DecidableEq

abbrev PendingProjection := Typed PendingProjectionSpec
abbrev ProjectionApproval := Typed ProjectionApprovalSpec
abbrev SourceArtifactEnvelope := Typed SourceArtifactSpec

def ProjectionApprovalSpec.build (spec : ProjectionApprovalSpec) :
    Checked ProjectionApprovalSpec :=
  if spec.producerPrincipalId = spec.verifierPrincipalId then .error (.crash .validationError)
  else .ok spec

structure ProjectionResult where
  promoted : Bool
  code : String
  reasons : List String
  projectedDocumentDigest : Option Digest
deriving DecidableEq

namespace Authority
variable (w : Authority)

def projectionBindings (pending : PendingProjection) (approval : ProjectionApproval)
    (runnerReceipt : Document) (source : SourceArtifactEnvelope) (rawOutput : Bytes)
    (schema : Digest) : List String :=
  let pendingDigest := w.document (pending.document .pendingProjection)
  let rawDigest := w.digestBytes rawOutput
  reasonIf (approval.spec.projectionDigest ≠ pendingDigest)
    "projection_approval_binding_mismatch" ++
  reasonIf (approval.spec.producerPrincipalId ≠ pending.spec.producerPrincipalId)
    "projection_producer_binding_mismatch" ++
  reasonIf (approval.spec.verifierPrincipalId = pending.spec.producerPrincipalId)
    "projection_independent_verifier_required" ++
  reasonIf (pending.spec.runnerReceiptDigest ≠ w.document runnerReceipt)
    "projection_runner_receipt_binding_mismatch" ++
  reasonIf (pending.spec.sourceArtifactEnvelopeDigest ≠
    w.document (source.document .sourceArtifactEnvelope))
    "projection_source_envelope_binding_mismatch" ++
  reasonIf (rawDigest ≠ pending.spec.rawOutputDigest) "projection_raw_output_digest_mismatch" ++
  reasonIf (rawDigest ≠ source.spec.rawDigest) "source_envelope_raw_digest_mismatch" ++
  reasonIf (rawOutput.length ≠ source.spec.byteLength) "source_envelope_byte_length_mismatch" ++
  reasonIf (pending.spec.expectedSchemaDigest ≠ schema)
    "projection_expected_schema_digest_mismatch" ++
  reasonIf (source.spec.expectedSchemaName ≠ pending.spec.expectedSchemaName)
    "projection_source_schema_name_mismatch" ++
  reasonIf (source.spec.expectedSchemaDigest ≠ pending.spec.expectedSchemaDigest)
    "projection_source_schema_digest_mismatch"

/-- The document a pointer selects in raw output. Only value errors are caught. -/
def projected (rawOutput : Bytes) (pointer : String) : Checked (Except String Document) :=
  match w.loads rawOutput with
  | .error text => pure (.error text)
  | .ok members =>
    match followPointer (.object members) pointer with
    | .error text => pure (.error text)
    | .ok (.object selected) =>
      match w.parse selected with
      | .ok document => pure (.ok document)
      | .error (.valueError text) => pure (.error text)
      | .error (.typeError _) => .error (.crash .typeError)
    | .ok _ => pure (.error "projected_value_must_be_object")

def projectionResult (reasons : List String) (document : Option Document) :
    ProjectionResult × Option Document :=
  let reasons := normalized reasons
  ({ promoted := reasons.isEmpty
     code := if reasons.isEmpty then "projection_promoted" else "projection_not_promoted"
     reasons := reasons
     projectedDocumentDigest := document.map w.document },
   if reasons.isEmpty then document else none)

def reconstructProjection (pending : PendingProjection) (approval : ProjectionApproval)
    (runnerReceipt : Document) (source : SourceArtifactEnvelope) (rawOutput : Bytes) :
    Checked (ProjectionResult × Option Document) := do
  let schema ← w.schemaDigest pending.spec.expectedSchemaName
  let reasons := w.projectionBindings pending approval runnerReceipt source rawOutput schema
  if reasons ≠ [] then pure (w.projectionResult reasons none)
  else
    match ← w.projected rawOutput pending.spec.jsonPointer with
    | .error text => pure (w.projectionResult [text] none)
    | .ok document =>
      pure (w.projectionResult
        (reasonIf (document.spec.kind ≠ pending.spec.expectedSchemaName)
          "projected_kind_mismatch" ++
          reasonIf (w.document document ≠ pending.spec.projectedDigest)
            "projected_digest_mismatch") (some document))

end Authority

end CollectivePhaseControl
