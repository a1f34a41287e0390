import CollectivePhaseControl.JsonReading
import CollectivePhaseControl.JsonOrders

/-! Reading of bounded JSON documents and the canonical bytes of what has been read. A scan over
the bytes bounds the nesting before the text is parsed, and what is parsed is bounded again. -/
namespace CollectivePhaseControl.Canonical
open CodePoints JsonText

/-- The `limit` of a document where none is given. -/
def maxJsonBytes : ℕ := 16 * 1024 * 1024

def maxDepth : ℕ := 64
def maxObjectMembers : ℕ := 10000
def maxArrayItems : ℕ := 100000

def maxInteger : ℕ := 9007199254740991

/-- `inputLimit`, `duplicateKey` and `unicodeEncode` are exceptions of their own. The others are
`ValueError`s: those of the module, and `malformed` for what `json.loads` raises itself. -/
inductive JsonError where
  | inputLimit (code : String)
  | duplicateKey (message : Text)
  | value (message : String)
  | malformed
  | unicodeEncode
  | diverges

structure Scan where
  depth : ℕ
  inString : Bool
  escaped : Bool

/-- One round of the loop of `_scan_nesting`. -/
def scanByte (maxDepth : ℕ) (scan : Scan) (byte : UInt8) : Except JsonError Scan :=
  if scan.inString = true then
    if scan.escaped = true then .ok { scan with escaped := false }
    else if byte = 0x5C then .ok { scan with escaped := true }
    else if byte = 0x22 then .ok { scan with inString := false }
    else .ok scan
  else if byte = 0x22 then .ok { scan with inString := true }
  else if byte = 0x5B ∨ byte = 0x7B then
    if maxDepth < scan.depth + 1 then .error (.inputLimit "json_nesting_too_deep")
    else .ok { scan with depth := scan.depth + 1 }
  else if byte = 0x5D ∨ byte = 0x7D then
    if scan.depth = 0 then .error (.value "malformed_json_structure")
    else .ok { scan with depth := scan.depth - 1 }
  else .ok scan

def scanNesting (data : ByteArray) (maxDepth : ℕ) : Except JsonError Unit := do
  let scan ← data.data.toList.foldlM (scanByte maxDepth) ⟨0, false, false⟩
  if scan.inString = true ∨ scan.depth ≠ 0 then .error (.value "malformed_json_structure")
  else pure ⟨⟩

/-- The loop of `_unique_object`, with the keys it has met. -/
def uniqueKeys : List (Text × Value) → List Text → Except JsonError Unit
  | [], _ => pure ⟨⟩
  | (key, _) :: rest, seen =>
    if key ∈ seen then
      .error (.duplicateKey (ofChars "duplicate JSON key: ".toList ++ key))
    else uniqueKeys rest (key :: seen)

/-- The object of the pairs is the pairs themselves, since no key is repeated. -/
def uniqueObject (pairs : List (Text × Value)) : Except JsonError Unit :=
  if maxObjectMembers < pairs.length then .error (.inputLimit "json_object_member_limit")
  else uniqueKeys pairs []

def depthCheck (depth : ℕ) : Except JsonError Unit :=
  if maxDepth < depth then .error (.inputLimit "json_nesting_too_deep") else pure ⟨⟩

mutual

def validateTree (depth : ℕ) : Value → Except JsonError Unit
  | .float _ => do
    depthCheck depth
    .error (.value "floating_point_values_are_forbidden")
  | .int z => do
    depthCheck depth
    if maxInteger < z.natAbs then .error (.inputLimit "json_integer_outside_i_json_range")
    else pure ⟨⟩
  | .array items => do
    depthCheck depth
    if maxArrayItems < items.length then .error (.inputLimit "json_array_item_limit")
    else validateItems (depth + 1) items
  | .object members => do
    depthCheck depth
    if maxObjectMembers < members.length then .error (.inputLimit "json_object_member_limit")
    else validateMembers (depth + 1) members
  | _ => depthCheck depth

def validateItems (depth : ℕ) : List Value → Except JsonError Unit
  | [] => pure ⟨⟩
  | v :: rest => do
    validateTree depth v
    validateItems depth rest

def validateMembers (depth : ℕ) : List (Text × Value) → Except JsonError Unit
  | [] => pure ⟨⟩
  | (_, v) :: rest => do
    validateTree depth v
    validateMembers depth rest

end

/-- The exception of a text that `json.loads` does not read. -/
def ofOutcome {α : Type} : Outcome JsonError α → Except JsonError α
  | .ok found => .ok found
  | .error (.refused error) => .error error
  | .error .malformed => .error .malformed
  | .error .diverges => .error .diverges

def decode (data : ByteArray) : Except JsonError (List Char) :=
  match data.utf8Decode? with
  | some text => .ok text.toList
  | none => .error (.value "json_not_utf8")

def topLevelObject (v : Value) : Except JsonError Value :=
  match v with
  | .object members => .ok (.object members)
  | _ => .error (.value "top_level_json_object_required")

def loadsBounded (limit : ℕ) (data : ByteArray) : Except JsonError Value := do
  if limit < data.size then .error (.inputLimit "json_document_too_large")
  else
    scanNesting data maxDepth
    let text ← decode data
    let v ← ofOutcome (document uniqueObject text)
    validateTree 0 v
    topLevelObject v

mutual

/-- `_v3_value`. -/
def v3Value : Value → Except JsonError Value
  | .float _ => .error (.value "v0.3 canonical JSON forbids floating-point values")
  | .int z =>
    if maxInteger < z.natAbs then
      .error (.value "v0.3 canonical JSON integer exceeds the I-JSON exact range")
    else .ok (.int z)
  | .array items => do
    let checked ← v3Items items
    pure (.array checked)
  | .object members => do
    let checked ← v3Members members
    pure (.object checked)
  | v => .ok v

def v3Items : List Value → Except JsonError (List Value)
  | [] => pure []
  | v :: rest => do
    let first ← v3Value v
    let others ← v3Items rest
    pure (first :: others)

def v3Members : List (Text × Value) → Except JsonError (List (Text × Value))
  | [] => pure []
  | (key, v) :: rest => do
    let first ← v3Value v
    let others ← v3Members rest
    pure ((key, first) :: others)

end

mutual

def encode : Value → Except JsonError Text
  | .null => .ok (ofChars ['n', 'u', 'l', 'l'])
  | .bool true => .ok (ofChars ['t', 'r', 'u', 'e'])
  | .bool false => .ok (ofChars ['f', 'a', 'l', 's', 'e'])
  | .int z => .ok (ofChars (decimal z))
  | .str text => .ok (quote text)
  | .array items => do
    let children ← encodeItems items
    pure ('['.toNat :: commas children ++ [']'.toNat])
  -- the keys are sorted as arrays of UTF-16 code units
  | .object members => do
    let children ← encodeMembers members
    let parts := (sortMembers children).map fun m => quote m.1 ++ ':'.toNat :: m.2
    pure ('{'.toNat :: commas parts ++ ['}'.toNat])
  | .float _ => .error (.value "unsupported v0.3 canonical JSON value")

def encodeItems : List Value → Except JsonError (List Text)
  | [] => pure []
  | v :: rest => do
    let first ← encode v
    let others ← encodeItems rest
    pure (first :: others)

def encodeMembers : List (Text × Value) → Except JsonError (List (Text × Text))
  | [] => pure []
  | (key, v) :: rest => do
    let first ← encode v
    let others ← encodeMembers rest
    pure ((key, first) :: others)

end

/-- `str.encode("utf-8")`. -/
def encodeUtf8 (text : Text) : Except JsonError ByteArray :=
  match utf8 text with
  | some bytes => .ok bytes
  | none => .error .unicodeEncode

def canonicalBytes (v : Value) : Except JsonError ByteArray := do
  let checked ← v3Value v
  let text ← encode checked
  encodeUtf8 text

end CollectivePhaseControl.Canonical
