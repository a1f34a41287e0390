import CollectivePhaseControl.AuthorityTrust

/-! Soundness of quorums. A quorum is compared with its rule as a set of roles and by its
length. With a role that is required twice beside another one this does not fix how often
each role has signed; otherwise the roles that have signed are the required ones. -/
namespace CollectivePhaseControl

section lists
variable {α : Type} [DecidableEq α] {required given : List α} {root : α}

theorem erase_eq_of_constant (same : given.toFinset = required.toFinset)
    (length : given.length = required.length) (once : given.count root ≤ 1)
    (constant : ∀ a ∈ required.erase root, ∀ b ∈ required.erase root, a = b) :
    given.erase root = required.erase root := by
  have alike : ∀ x, x ∈ given ↔ x ∈ required := by
    intro x
    rw [← List.mem_toFinset, same, List.mem_toFinset]
  have inside : ∀ x ∈ given.erase root, x ∈ required.erase root := by
    intro x member
    by_cases top : x = root
    · have rest := List.count_pos_iff.mpr (top ▸ member)
      rw [List.count_erase_self] at rest
      omega
    · exact (List.mem_erase_of_ne top).mpr ((alike x).mp (List.mem_of_mem_erase member))
  have short : (given.erase root).length = (required.erase root).length := by
    rw [List.length_erase, List.length_erase, length]
    simp only [alike]
  cases found : required.erase root with
  | nil =>
    rw [found] at short
    exact List.length_eq_zero_iff.mp short
  | cons a rest =>
    rw [found] at inside short constant
    have first : a :: rest = List.replicate (a :: rest).length a :=
      List.eq_replicate_iff.mpr ⟨rfl, fun b member => constant b member a List.mem_cons_self⟩
    rw [first, List.eq_replicate_iff]
    exact ⟨short, fun b member => constant b (inside b member) a List.mem_cons_self⟩

/-- A list agrees with required entries that are distinct, or are all alike but for a root that
is given once. -/
theorem perm_of_toFinset (same : given.toFinset = required.toFinset)
    (length : given.length = required.length) (once : given.count root ≤ 1)
    (rule : required.Nodup ∨ ∀ a ∈ required.erase root, ∀ b ∈ required.erase root, a = b) :
    given.Perm required := by
  cases rule with
  | inl distinct =>
    have card : given.toFinset.card = given.length := by
      rw [same, List.toFinset_card_of_nodup distinct, length]
    have distinct' : given.Nodup := Multiset.toFinset_card_eq_card_iff_nodup.mp card
    exact List.perm_of_nodup_nodup_toFinset_eq distinct' distinct same
  | inr constant =>
    have rest := erase_eq_of_constant same length once constant
    by_cases listed : root ∈ required
    · have given' : root ∈ given := by rwa [← List.mem_toFinset, same, List.mem_toFinset]
      have front := List.perm_cons_erase given'
      rw [rest] at front
      exact front.trans (List.perm_cons_erase listed).symm
    · have absent : root ∉ given := by rwa [← List.mem_toFinset, same, List.mem_toFinset]
      rw [List.erase_of_not_mem listed, List.erase_of_not_mem absent] at rest
      rw [rest]

theorem count_le_one {xs : List α} (apart : xs.Pairwise fun a b => ¬ (a = root ∧ b = root)) :
    xs.count root ≤ 1 := by
  induction xs with
  | nil => simp
  | cons x xs ih =>
    obtain ⟨first, rest⟩ := List.pairwise_cons.mp apart
    rw [List.count_cons]
    split_ifs with top
    · have none' : root ∉ xs := fun member => first root member ⟨by simpa using top, rfl⟩
      rw [List.count_eq_zero_of_not_mem none']
    · exact ih rest

/-- Entries that are neither distinct nor all alike have another list of their length with the
same entries. -/
theorem exists_shifted {xs : List α} (twice : ¬ xs.Nodup)
    (varied : ¬ ∀ a ∈ xs, ∀ b ∈ xs, a = b) :
    ∃ ys : List α, ys.toFinset = xs.toFinset ∧ ys.length = xs.length ∧ ¬ ys.Perm xs := by
  rw [List.nodup_iff_count_le_one] at twice
  push Not at twice varied
  obtain ⟨a, twice⟩ := twice
  obtain ⟨b, listed, other⟩ : ∃ b ∈ xs, b ≠ a := by
    obtain ⟨b, first, c, second, apart⟩ := varied
    by_cases same : b = a
    · exact ⟨c, second, fun both => apart (same.trans both.symm)⟩
    · exact ⟨b, first, same⟩
  have member : a ∈ xs := List.count_pos_iff.mp (by omega)
  have again : a ∈ xs.erase a := List.count_pos_iff.mp (by rw [List.count_erase_self]; omega)
  refine ⟨b :: xs.erase a, ?_, ?_, fun perm => ?_⟩
  · ext x
    rw [List.mem_toFinset, List.mem_toFinset, List.mem_cons]
    by_cases top : x = a
    · exact iff_of_true (.inr (top ▸ again)) (top ▸ member)
    · rw [List.mem_erase_of_ne top, or_iff_right_of_imp fun same => same ▸ listed]
  · rw [List.length_cons, List.length_erase_of_mem member]
    have positive := List.length_pos_of_mem member
    omega
  · have count := perm.count_eq b
    rw [List.count_cons_self, List.count_erase_of_ne other] at count
    omega

/-- Entries that are neither distinct nor, but for a root, all alike have another list of their
length with the same entries, in which the root comes once if at all, and first. -/
theorem exists_other (twice : ¬ required.Nodup)
    (varied : ¬ ∀ a ∈ required.erase root, ∀ b ∈ required.erase root, a = b) :
    ∃ rest : List α, root ∉ rest ∧ ∃ given, (given = rest ∨ given = root :: rest) ∧
      given.toFinset = required.toFinset ∧ given.length = required.length ∧
      ¬ given.Perm required := by
  by_cases listed : root ∈ required
  · have front := List.perm_cons_erase listed
    by_cases once : required.count root = 1
    · -- The root stays, and the others are shifted.
      have absent : root ∉ required.erase root := by
        rw [← List.count_eq_zero, List.count_erase_self, once]
      have twice' : ¬ (required.erase root).Nodup := fun distinct =>
        twice (front.nodup_iff.mpr (List.nodup_cons.mpr ⟨absent, distinct⟩))
      obtain ⟨ys, same, length, other⟩ := exists_shifted twice' varied
      refine ⟨ys, ?_, root :: ys, .inr rfl, ?_, ?_, fun perm => other (perm.trans front).cons_inv⟩
      · rwa [← List.mem_toFinset, same, List.mem_toFinset]
      · rw [List.toFinset_eq_of_perm _ _ front, List.toFinset_cons, List.toFinset_cons, same]
      · rw [front.length_eq, List.length_cons, List.length_cons, length]
    · -- The root stands once, and another entry fills its other places.
      have positive := List.count_pos_iff.mpr listed
      push Not at varied
      obtain ⟨b, member, other⟩ : ∃ b ∈ required, b ≠ root := by
        obtain ⟨b, first, c, second, apart⟩ := varied
        by_cases same : b = root
        · exact ⟨c, List.mem_of_mem_erase second, fun both => apart (same.trans both.symm)⟩
        · exact ⟨b, List.mem_of_mem_erase first, same⟩
      have kept : ∀ x, x ∈ required.filter (· ≠ root) ↔ x ∈ required ∧ x ≠ root := by simp
      have absent : root ∉ required.filter (· ≠ root) ++
          List.replicate (required.count root - 1) b := by
        rw [List.mem_append, kept, List.mem_replicate]
        rintro (⟨-, apart⟩ | ⟨-, same⟩)
        · exact apart rfl
        · exact other same.symm
      have sizes : (required.filter (· ≠ root)).length + required.count root =
          required.length := by
        rw [List.length_eq_countP_add_countP (· == root) (l := required), add_comm,
          ← List.count_eq_countP, ← List.countP_eq_length_filter]
        simp
      refine ⟨_, absent, _, .inr rfl, ?_, ?_, fun perm => ?_⟩
      · ext x
        rw [List.mem_toFinset, List.mem_toFinset, List.mem_cons, List.mem_append, kept,
          List.mem_replicate]
        by_cases top : x = root
        · exact iff_of_true (.inl top) (top ▸ listed)
        · refine ⟨?_, fun inside => .inr (.inl ⟨inside, top⟩)⟩
          rintro (same | ⟨inside, -⟩ | ⟨-, same⟩)
          · exact absurd same top
          · exact inside
          · exact same ▸ member
      · rw [List.length_cons, List.length_append, List.length_replicate]
        omega
      · have count := perm.count_eq root
        rw [List.count_cons_self, List.count_eq_zero_of_not_mem absent] at count
        exact once count.symm
  · rw [List.erase_of_not_mem listed] at varied
    obtain ⟨ys, same, length, other⟩ := exists_shifted twice varied
    refine ⟨ys, ?_, ys, .inl rfl, same, length, other⟩
    rwa [← List.mem_toFinset, same, List.mem_toFinset]

end lists

namespace Authority
variable (w : Authority)

def Verifies (policy : TrustPolicyDocument) (time : TrustedTimeReceipt) (envelope : DsseEnvelope)
    (header : ProtectedHeader) (signer : Principal) : Prop :=
  (∃ result document, w.verifyEnvelope envelope policy (some time) = .ok (result, document) ∧
    result.valid = true ∧ result.header = some header) ∧
  principal policy header.keyId header.principalId = some signer

/-- `result.valid`. -/
def verified (policy : TrustPolicyDocument) (time : TrustedTimeReceipt) (envelope : DsseEnvelope) :
    Bool :=
  match w.verifyEnvelope envelope policy (some time) with
  | .ok (result, _) => result.valid
  | .error _ => false

/-- The envelopes that verify are those of signers, one for each required role, that are as
distinct as the rule asks, all about the subject. -/
def Matched (policy : TrustPolicyDocument) (time : TrustedTimeReceipt) (rule : QuorumRule)
    (subject : Digest) (envelopes : List DsseEnvelope) : Prop :=
  ∃ signers : List (ProtectedHeader × Principal),
    List.Forall₂ (fun envelope signer => w.Verifies policy time envelope signer.1 signer.2)
      (envelopes.filter (w.verified policy time)) signers ∧
    (signers.map (·.1.role)).Perm rule.requiredRoles ∧
    (∀ signer ∈ signers, signer.1.payloadDigest = subject ∧ signer.1.role ∈ signer.2.roles) ∧
    (signers.map (·.2.principalId)).Nodup ∧ (signers.map (·.2.keyId)).Nodup ∧
    (rule.distinctInfrastructure = true → (signers.map (·.2.infrastructureDomain)).Nodup) ∧
    (rule.distinctCorrelation = true → (signers.map (·.2.correlationDomain)).Nodup)

section sound
variable {w} {policy : TrustPolicyDocument} {time : TrustedTimeReceipt} {subject : Digest}

theorem principalChecks_clean {envelope : DsseEnvelope} {bytes : Bytes} {header : ProtectedHeader}
    {document : Document} {moment : Option DateTime} {signer : Principal}
    (checked : w.principalChecks envelope bytes header document moment signer = .ok []) :
    header.role ∈ signer.roles := by
  cases moment <;>
  · simp only [principalChecks, bind_ok, pure_ok, List.append_eq_nil_iff, reasonIf_eq_nil,
      not_not] at checked
    obtain ⟨times, -, ⟨⟨⟨⟨role, -⟩, -⟩, -⟩, -⟩, -⟩ := checked
    exact role

theorem verifyEnvelope_valid {envelope : DsseEnvelope} {trustedTime : Option TrustedTimeReceipt}
    {result : VerificationResult} {document : Option Document}
    (ran : w.verifyEnvelope envelope policy trustedTime = .ok (result, document))
    (valid : result.valid = true) :
    ∃ header signer, result.header = some header ∧ result.role = some header.role ∧
      principal policy header.keyId header.principalId = some signer ∧
      header.role ∈ signer.roles := by
  simp only [verifyEnvelope, bind_ok] at ran
  obtain ⟨reasons, -, ran⟩ := ran
  cases decoded : w.decode envelope with
  | error fault =>
    rw [decoded, pure_ok, Prod.mk.injEq] at ran
    rw [← ran.1] at valid
    cases valid
  | ok found =>
    obtain ⟨bytes, payload, subject⟩ := found
    rw [decoded] at ran
    simp only [bind_ok, pure_ok, Prod.mk.injEq, verifyDecoded] at ran
    obtain ⟨_, ⟨schema, -, ⟨moment, timeReasons⟩, -, ran⟩, rfl, -⟩ := ran
    cases pinned : principal policy payload.header.keyId payload.header.principalId with
    | none =>
      rw [pinned] at ran
      simp only [bind_ok, pure_ok] at ran
      obtain ⟨_, rfl, rfl⟩ := ran
      rw [List.isEmpty_iff, normalized_eq_nil, List.append_eq_nil_iff] at valid
      cases valid.2
    | some signer =>
      rw [pinned] at ran
      simp only [bind_ok, pure_ok] at ran
      obtain ⟨reasons', checked, rfl⟩ := ran
      rw [List.isEmpty_iff, normalized_eq_nil, List.append_eq_nil_iff] at valid
      rw [valid.2] at checked
      exact ⟨payload.header, signer, rfl, rfl, pinned, principalChecks_clean checked⟩

theorem quorumMembers_ok {envelopes : List DsseEnvelope} :
    ∀ {members : List (VerificationResult × Principal)},
      w.quorumMembers subject policy time envelopes = .ok (.ok members) →
      ∃ signers : List (ProtectedHeader × Principal),
        List.Forall₂ (fun envelope signer => w.Verifies policy time envelope signer.1 signer.2)
          (envelopes.filter (w.verified policy time)) signers ∧
        (members.filterMap fun member => member.1.role) = signers.map (·.1.role) ∧
        members.map Prod.snd = signers.map Prod.snd ∧
        ∀ signer ∈ signers, signer.1.payloadDigest = subject ∧ signer.1.role ∈ signer.2.roles := by
  induction envelopes with
  | nil =>
    intro members ran
    simp only [quorumMembers, pure_ok, Except.ok.injEq] at ran
    subst ran
    exact ⟨[], .nil, rfl, rfl, by simp⟩
  | cons envelope envelopes ih =>
    intro members ran
    simp only [quorumMembers, bind_ok, Prod.exists] at ran
    obtain ⟨result, document, verified', ran⟩ := ran
    have same : w.verified policy time envelope = result.valid := by
      rw [verified, verified']
    cases valid : result.valid with
    | false =>
      rw [valid] at ran same
      rw [List.filter_cons, same, if_neg Bool.false_ne_true]
      exact ih ran
    | true =>
      obtain ⟨header, signer, headed, role, pinned, holds⟩ := verifyEnvelope_valid verified' valid
      rw [valid, headed] at ran
      dsimp only at ran
      split_ifs at ran with other
      · cases ran
      · rw [pinned] at ran
        simp only [bind_ok, pure_ok] at ran
        obtain ⟨rest, later, joined⟩ := ran
        cases rest with
        | error digest => cases joined
        | ok rest =>
          cases joined
          obtain ⟨signers, each, roles, principals, clean⟩ := ih later
          rw [List.filter_cons, same.trans valid, if_pos rfl]
          refine ⟨(header, signer) :: signers, .cons ⟨⟨result, document, verified', valid, headed⟩,
            pinned⟩ each, ?_, ?_, ?_⟩
          · simp only [List.filterMap_cons, role, roles, List.map_cons]
          · rw [List.map_cons, List.map_cons, principals]
          · exact List.forall_mem_cons.mpr ⟨⟨not_not.mp other, holds⟩, clean⟩

theorem mem_of_principal {keyId principalId : Identifier} {signer : Principal}
    (pinned : principal policy keyId principalId = some signer) :
    signer ∈ policy.spec.principals := by
  unfold principal at pinned
  split at pinned
  · rename_i found only
    cases pinned
    exact List.mem_of_mem_filter (only ▸ List.mem_singleton_self _)
  · cases pinned

theorem single_root (accepted : w.validatePolicy policy = .ok []) {a b : Principal}
    (first : a ∈ policy.spec.principals) (second : b ∈ policy.spec.principals)
    (top : "workspace_root" ∈ a.roles) (top' : "workspace_root" ∈ b.roles) : a = b := by
  simp only [validatePolicy, bind_ok, pure_ok, normalized_eq_nil,
    List.append_eq_nil_iff] at accepted
  obtain ⟨checked, -, ⟨⟨⟨-, root⟩, -⟩, -⟩, -⟩ := accepted
  unfold rootReasons at root
  split at root
  · rename_i found only
    have held : ∀ x ∈ policy.spec.principals, "workspace_root" ∈ x.roles → x = found := by
      intro x member holds
      have kept : x ∈ policy.spec.principals.filter fun p => p.roles.contains "workspace_root" :=
        List.mem_filter.mpr ⟨member, by simpa using holds⟩
      rw [only] at kept
      exact List.mem_singleton.mp kept
    exact (held a first top).trans (held b second top').symm
  · cases root

theorem matched_of_valid {decisionType : Identifier} {envelopes : List DsseEnvelope}
    {rule : QuorumRule} {result : VerificationResult}
    (accepted : w.validatePolicy policy = .ok [])
    (chosen : policy.spec.quorumRules.find? (fun rule => rule.decisionType == decisionType) =
      some rule)
    (required : rule.requiredRoles.Nodup ∨ ∀ a ∈ rule.requiredRoles.erase "workspace_root",
      ∀ b ∈ rule.requiredRoles.erase "workspace_root", a = b)
    (ran : w.evaluateQuorum decisionType subject envelopes policy time = .ok result)
    (valid : result.valid = true) : w.Matched policy time rule subject envelopes := by
  unfold evaluateQuorum at ran
  rw [chosen] at ran
  simp only [bind_ok] at ran
  obtain ⟨found, collected, ran⟩ := ran
  cases found with
  | error other =>
    rw [pure_ok] at ran
    rw [← ran] at valid
    cases valid
  | ok members =>
    rw [pure_ok] at ran
    rw [← ran, List.isEmpty_iff, normalized_eq_nil] at valid
    obtain ⟨signers, each, roles, principals, clean⟩ := quorumMembers_ok collected
    have through : ∀ f : Principal → Identifier,
        members.map (fun member => f member.2) = signers.map (fun signer => f signer.2) := by
      intro f
      have mapped := congrArg (List.map f) principals
      rwa [List.map_map, List.map_map] at mapped
    simp only [quorumReasons, roles, through, List.append_eq_nil_iff, reasonIf_eq_nil, not_or,
      not_not, not_and] at valid
    obtain ⟨⟨⟨⟨⟨same, length⟩, names⟩, keys⟩, infrastructure⟩, correlation⟩ := valid
    refine ⟨signers, each, perm_of_toFinset same length ?_ required, clean, names, keys,
      infrastructure, correlation⟩
    have pinned : ∀ signer ∈ signers, signer.2 ∈ policy.spec.principals := by
      intro signer member
      obtain ⟨envelope, -, verifies⟩ := forall₂_mem_right each signer member
      exact mem_of_principal verifies.2
    refine count_le_one ((List.pairwise_map.mpr ?_))
    refine (List.pairwise_map.mp names).imp_of_mem fun {a b} first second apart both => apart ?_
    have top := both.1 ▸ (clean a first).2
    have top' := both.2 ▸ (clean b second).2
    rw [single_root accepted (pinned a first) (pinned b second) top top']

end sound

namespace Roster

def numeral (n : ℕ) : String := String.ofList (List.replicate (n + 1) 'a')

theorem numeral_length (n : ℕ) : (numeral n).length = n + 1 := by
  simp [numeral]

theorem numeral_injective : Function.Injective numeral := by
  intro m n same
  have lengths := congrArg String.length same
  rw [numeral_length, numeral_length] at lengths
  exact Nat.succ_injective lengths

def metadata (objectId : Identifier) : Metadata := ⟨"tenant", "workspace", objectId, .utc 0⟩

def subject : Document := ⟨metadata "subject", ∅, .authority ⟨"authority", ⟨.utc 0, .utc 10, none⟩⟩⟩

def receipt : TrustedTimeReceipt := ⟨metadata "receipt", ∅, ⟨"clock", .utc 5, .utc 10, "nonce"⟩⟩

def envelope (i : ℕ) : DsseEnvelope := ⟨"statement", numeral i, [⟨"key", numeral 63⟩]⟩

def encoded : PublicKey → Bytes
  | .ed25519 bytes => bytes
  | .p256 point => point

section
variable (roles : List Identifier) (rule : QuorumRule)

def role (i : ℕ) : Identifier := roles.getD i ""

def signer (i : ℕ) : Principal where
  principalId := numeral i
  keyId := numeral i
  algorithm := .ecdsaP256Sha256
  publicKeyBase64 := numeral i
  roles := [role roles i]
  sourceSystems := ["source"]
  allowedKinds := ["authority-attestation"]
  scope := []
  infrastructureDomain := numeral i
  correlationDomain := numeral i
  validFrom := .utc 0
  validUntil := .utc 10
  revokedAt := none
  compromisedAt := none
  revocationMode := .prospective

def policy : TrustPolicyDocument := ⟨metadata "policy", ∅, {
  policySequence := 0
  priorPolicyDigest := none
  rootKeyId := numeral 0
  principals := (List.range roles.length).map (signer roles)
  quorumRules := [rule] }⟩

def header (i : ℕ) : ProtectedHeader where
  schemaName := "authority-attestation"
  schemaDigest := "schema"
  payloadDigest := "subject"
  keyId := numeral i
  principalId := numeral i
  role := role roles i
  sourceSystem := "source"
  scope := []
  tenantId := "tenant"
  workspaceId := "workspace"
  signingTime := .utc 5
  policySequence := 0
  trustedTimeReceiptDigest := some "receipt"

/-- A text has the bytes that its length says, and a payload is read from its length. -/
def authority : Authority where
  document d := d.metadata.objectId
  generation _ := "generation"
  envelope e := e.payload
  digestBytes bytes := numeral bytes.length
  canonical _ := none
  schema _ := some "schema"
  base64 text := .ok (List.replicate text.length 1)
  loads bytes := .ok (bytes.map fun _ => ("", .int 0))
  payload members := .ok ⟨header roles (members.length - 1), members⟩
  parse _ := .ok subject
  derKey bytes := .p256 bytes
  spki := encoded
  verifies _ _ _ := true
  registered _ := rfl

def statement (i : ℕ) : VerificationResult :=
  ⟨true, "verified", [], some "subject", some (numeral i), some (role roles i),
    some (header roles i)⟩

variable {roles rule} {i : ℕ}

theorem filter_range_map {α : Type} {f : ℕ → α} {p : α → Bool} {n k : ℕ} (inside : k < n)
    (only : ∀ i < n, p (f i) = true ↔ i = k) : ((List.range n).map f).filter p = [f k] := by
  have same : (List.range n).filter (p ∘ f) = (List.range n).filter (· == k) := by
    refine List.filter_congr fun i member => ?_
    rw [Bool.eq_iff_iff, beq_iff_eq]
    exact only i (List.mem_range.mp member)
  rw [List.filter_map, same, List.filter_beq,
    List.count_eq_one_of_mem List.nodup_range (List.mem_range.mpr inside)]
  rfl

theorem publicKey_signer :
    (authority roles).publicKey (signer roles i) = .ok (.p256 (List.replicate (i + 1) 1)) := by
  rw [← numeral_length i]
  rfl

theorem principalReasons_signer : (authority roles).principalReasons (signer roles i) =
    .ok (some (numeral (i + 1)), []) := by
  have found : (authority roles).publicKeyFingerprint (signer roles i) = .ok (numeral (i + 1)) := by
    rw [publicKeyFingerprint, publicKey_signer]
    exact congrArg (fun n => Except.ok (numeral n)) (List.length_replicate)
  unfold principalReasons
  rw [found]
  rfl

theorem nodup_numerals (n : ℕ) : ((List.range n).map numeral).Nodup :=
  List.nodup_range.map numeral_injective

variable {rest : List Identifier}

theorem rootReasons_policy (absent : "workspace_root" ∉ rest) :
    rootReasons (policy ("workspace_root" :: rest) rule) = [] := by
  have only : ((policy ("workspace_root" :: rest) rule).spec.principals.filter fun p =>
      p.roles.contains "workspace_root") = [signer ("workspace_root" :: rest) 0] := by
    refine filter_range_map (Nat.succ_pos _) fun i within => ?_
    rw [signer, List.contains_iff_mem, List.mem_singleton]
    cases i with
    | zero => exact iff_of_true rfl rfl
    | succ i =>
      refine iff_of_false (fun same => absent ?_) (Nat.succ_ne_zero i)
      have short : i < rest.length := Nat.lt_of_succ_lt_succ within
      rw [role, List.getD_cons_succ, List.getD_eq_getElem _ _ short] at same
      exact same ▸ List.getElem_mem short
  rw [rootReasons, only]
  exact reasonIf_eq_nil.mpr (not_not.mpr rfl)

theorem policy_accepted (top : rootReasons (policy roles rule) = []) :
    (authority roles).validatePolicy (policy roles rule) = .ok [] := by
  have checked : (policy roles rule).spec.principals.mapM (authority roles).principalReasons =
      .ok ((List.range roles.length).map fun i => (some (numeral (i + 1)), [])) := by
    rw [mapM_ok]
    refine List.forall₂_map_left_iff.mpr (List.forall₂_map_right_iff.mpr ?_)
    exact List.forall₂_same.mpr fun i _ => principalReasons_signer
  refine bind_ok.mpr ⟨_, checked, pure_ok.mpr ?_⟩
  rw [normalized_eq_nil]
  simp only [List.append_eq_nil_iff, reasonIf_eq_nil, not_not, top]
  refine ⟨⟨⟨⟨⟨⟨⟨?_, ?_⟩, ?_⟩, ?_⟩, trivial⟩, ?_⟩, ?_⟩, ?_⟩
  · rw [policy, List.map_map]
    exact nodup_numerals roles.length
  · rw [policy, List.map_map]
    exact nodup_numerals roles.length
  · simp
  · have prints : (((List.range roles.length).map fun i =>
        ((some (numeral (i + 1)), []) : Option Digest × List String)).filterMap Prod.fst) =
        (List.range roles.length).map fun i => numeral (i + 1) := by
      rw [List.filterMap_map]
      exact congrFun (@List.filterMap_eq_map ℕ Digest fun i => numeral (i + 1)) _
    rw [prints]
    exact List.nodup_range.map fun i j same => Nat.succ_injective (numeral_injective same)
  · exact List.nodup_singleton _
  · simp [policy]
  · simp [policy]

theorem principal_policy (within : i < roles.length) :
    principal (policy roles rule) (numeral i) (numeral i) = some (signer roles i) := by
  have only : ((policy roles rule).spec.principals.filter fun p =>
      p.keyId == numeral i && p.principalId == numeral i) = [signer roles i] := by
    refine filter_range_map within fun j _ => ?_
    rw [Bool.and_eq_true, beq_iff_eq, beq_iff_eq]
    exact ⟨fun both => numeral_injective both.1, fun same => same ▸ ⟨rfl, rfl⟩⟩
  rw [principal, only]

theorem signed_envelope {bytes : Bytes} :
    (authority roles).signed (envelope i) bytes (signer roles i) = true := by
  have signature : (authority roles).base64 (numeral 63) = .ok (List.replicate 64 1) := rfl
  have verifies : ∀ message, (authority roles).verifySignature (signer roles i) message
      (List.replicate 64 1) = true := by
    intro message
    rw [verifySignature, publicKey_signer]
    rfl
  simp only [signed, envelope, List.any_cons, signature, verifies, Bool.true_or]

theorem decode_envelope : (authority roles).decode (envelope i) = .ok (List.replicate (i + 1) 1,
    ⟨header roles i, List.replicate (i + 1) ("", .int 0)⟩, subject) := by
  have bytes : (authority roles).base64 (envelope i).payload = .ok (List.replicate (i + 1) 1) :=
    congrArg (fun n => Except.ok (List.replicate n 1)) (numeral_length i)
  have raw : (authority roles).loads (List.replicate (i + 1) 1) =
      .ok (List.replicate (i + 1) ("", .int 0)) := congrArg Except.ok List.map_replicate
  have payload : (authority roles).payload (List.replicate (i + 1) ("", .int 0)) =
      .ok ⟨header roles i, List.replicate (i + 1) ("", .int 0)⟩ := by
    change Except.ok (SignedPayload.mk (header roles (_ - 1)) _) = _
    rw [List.length_replicate, Nat.add_sub_cancel]
  unfold decode
  rw [bytes]
  simp only [Except.mapError, ok_bind, raw, payload]
  rfl

theorem principalChecks_envelope {bytes : Bytes} :
    (authority roles).principalChecks (envelope i) bytes (header roles i) subject
      (some (.utc 5)) (signer roles i) = .ok [] := by
  have times : timeStatus (signer roles i) (header roles i).signingTime (.utc 5) = .ok [] := rfl
  simp only [principalChecks, times, ok_bind, signed_envelope]
  rw [pure_ok]
  simp only [List.append_eq_nil_iff, reasonIf_eq_nil, not_not]
  refine ⟨⟨⟨⟨⟨?_, ?_⟩, ?_⟩, ?_⟩, trivial⟩, Bool.true_eq_false_eq_False⟩
  · exact List.mem_singleton_self _
  · exact List.mem_singleton_self _
  · exact List.mem_singleton_self _
  · exact List.nil_subset _

theorem verifyEnvelope_envelope (top : rootReasons (policy roles rule) = [])
    (within : i < roles.length) :
    (authority roles).verifyEnvelope (envelope i) (policy roles rule) (some receipt) =
      .ok (statement roles i, some subject) := by
  refine bind_ok.mpr ⟨_, policy_accepted top, ?_⟩
  rw [decode_envelope]
  refine bind_ok.mpr ⟨statement roles i, ?_, rfl⟩
  refine bind_ok.mpr ⟨"schema", rfl, bind_ok.mpr ⟨(some (.utc 5), []), rfl, ?_⟩⟩
  rw [show (header roles i).keyId = numeral i from rfl,
    show (header roles i).principalId = numeral i from rfl, principal_policy within]
  refine bind_ok.mpr ⟨[], principalChecks_envelope, pure_ok.mpr ?_⟩
  have bound : (authority roles).bindingReasons (policy roles rule) (header roles i) subject
      "schema" = [] := rfl
  have clean : normalized (([] : List String) ++ [] ++ [] ++ []) = [] := normalized_eq_nil.mpr rfl
  rw [bound, clean]
  rfl

theorem quorumMembers_envelopes (top : rootReasons (policy roles rule) = []) {signed : List ℕ} :
    (∀ i ∈ signed, i < roles.length) →
    (authority roles).quorumMembers "subject" (policy roles rule) receipt (signed.map envelope) =
      .ok (.ok (signed.map fun i => (statement roles i, signer roles i))) := by
  induction signed with
  | nil => exact fun _ => rfl
  | cons i signed ih =>
    intro within
    obtain ⟨first, others⟩ := List.forall_mem_cons.mp within
    rw [List.map_cons, quorumMembers, verifyEnvelope_envelope top first, ok_bind]
    dsimp only [statement]
    rw [if_neg (not_not.mpr (show (header roles i).payloadDigest = "subject" from rfl)),
      ih others, ok_bind,
      show (header roles i).keyId = numeral i from rfl,
      show (header roles i).principalId = numeral i from rfl, principal_policy first]
    rfl

/-- Envelopes whose roles agree with the rule as a set and in number are a valid quorum, and
are matched only if the roles agree. -/
theorem quorum_envelopes (top : rootReasons (policy roles rule) = []) {signed : List ℕ}
    (within : ∀ i ∈ signed, i < roles.length) (distinct : signed.Nodup)
    (same : (signed.map (role roles)).toFinset = rule.requiredRoles.toFinset)
    (length : (signed.map (role roles)).length = rule.requiredRoles.length) :
    (∃ result, (authority roles).evaluateQuorum rule.decisionType "subject" (signed.map envelope)
      (policy roles rule) receipt = .ok result ∧ result.valid = true) ∧
    ((authority roles).Matched (policy roles rule) receipt rule "subject" (signed.map envelope) →
      (signed.map (role roles)).Perm rule.requiredRoles) := by
  constructor
  · have chosen : (policy roles rule).spec.quorumRules.find?
        (fun other => other.decisionType == rule.decisionType) = some rule :=
      List.find?_cons_of_pos (beq_self_eq_true _)
    have clean : normalized (quorumReasons rule
        (signed.map fun i => (statement roles i, signer roles i))) = [] := by
      have names : (signed.map numeral).Nodup := distinct.map numeral_injective
      have roles' : ((signed.map fun i => (statement roles i, signer roles i)).filterMap
          fun member => member.1.role) = signed.map (role roles) := by
        rw [List.filterMap_map]
        exact congrFun (@List.filterMap_eq_map ℕ Identifier (role roles)) _
      rw [normalized_eq_nil]
      simp only [quorumReasons, roles', List.map_map, List.append_eq_nil_iff, reasonIf_eq_nil,
        not_or, not_not, not_and]
      exact ⟨⟨⟨⟨⟨same, length⟩, names⟩, names⟩, fun _ => names⟩, fun _ => names⟩
    unfold evaluateQuorum
    rw [chosen]
    refine ⟨_, bind_ok.mpr ⟨_, quorumMembers_envelopes top within, rfl⟩, ?_⟩
    exact List.isEmpty_iff.mpr clean
  · rintro ⟨signers, each, matched, -⟩
    have all : (signed.map envelope).filter ((authority roles).verified (policy roles rule)
        receipt) = signed.map envelope := by
      refine List.filter_eq_self.mpr fun e member => ?_
      obtain ⟨i, listed, rfl⟩ := List.mem_map.mp member
      rw [verified, verifyEnvelope_envelope top (within i listed)]
      rfl
    rw [all, List.forall₂_map_left_iff] at each
    have roles' : signers.map (·.1.role) = signed.map (role roles) := by
      clear matched all distinct same length
      induction each with
      | nil => rfl
      | cons head tail ih =>
        obtain ⟨first, others⟩ := List.forall_mem_cons.mp within
        obtain ⟨⟨result, document, ran, -, headed⟩, -⟩ := head
        rw [verifyEnvelope_envelope top first] at ran
        cases ran
        rw [List.map_cons, List.map_cons, ih others, ← Option.some.inj headed]
        rfl
    exact roles' ▸ matched

theorem exists_signers {root : Identifier} {given : List Identifier}
    (shape : given = rest ∨ given = root :: rest) :
    ∃ signed : List ℕ, (∀ i ∈ signed, i < (root :: rest).length) ∧ signed.Nodup ∧
      signed.map (role (root :: rest)) = given := by
  have whole : (List.range (root :: rest).length).map (role (root :: rest)) = root :: rest := by
    refine List.ext_getElem (by simp) fun n short _ => ?_
    rw [List.getElem_map, List.getElem_range, role, List.getD_eq_getElem]
  cases shape with
  | inr top =>
    refine ⟨List.range (root :: rest).length, fun i => List.mem_range.mp, List.nodup_range, ?_⟩
    rw [whole, top]
  | inl others =>
    refine ⟨(List.range rest.length).map (· + 1), ?_,
      List.nodup_range.map (add_left_injective 1), ?_⟩
    · simp
    · rw [List.length_cons, List.range_succ_eq_map, List.map_cons, List.cons.injEq] at whole
      rw [others]
      exact whole.2

end

end Roster

/-- Every valid quorum is matched exactly for required roles that are distinct or, apart from one
workspace root, all alike: an accepted policy has a single root, and it signs once. -/
theorem quorum_sound_iff (roles : List Identifier) :
    (∀ (w : Authority) (policy : TrustPolicyDocument) (time : TrustedTimeReceipt)
      (decisionType : Identifier) (subject : Digest) (envelopes : List DsseEnvelope)
      (rule : QuorumRule) (result : VerificationResult),
      w.validatePolicy policy = .ok [] →
      policy.spec.quorumRules.find? (fun rule => rule.decisionType == decisionType) = some rule →
      rule.requiredRoles = roles →
      w.evaluateQuorum decisionType subject envelopes policy time = .ok result →
      result.valid = true → w.Matched policy time rule subject envelopes) ↔
    roles.Nodup ∨ ∀ a ∈ roles.erase "workspace_root", ∀ b ∈ roles.erase "workspace_root",
      a = b := by
  constructor
  · intro sound
    by_contra neither
    obtain ⟨repeated, varied⟩ := not_or.mp neither
    let rule : QuorumRule := ⟨"decision", roles, true, true⟩
    obtain ⟨rest, absent, given, shape, same, length, other⟩ := exists_other repeated varied
    have top := @Roster.rootReasons_policy rule rest absent
    obtain ⟨signed, within, distinct, signs⟩ := Roster.exists_signers shape
    rw [← signs] at same length other
    obtain ⟨⟨result, ran, valid⟩, only⟩ :=
      Roster.quorum_envelopes top within distinct same length
    exact other (only (sound _ _ _ rule.decisionType _ _ rule result (Roster.policy_accepted top)
      (List.find?_cons_of_pos (beq_self_eq_true _)) rfl ran valid))
  · intro required w policy time decisionType subject envelopes rule result accepted chosen same
      ran valid
    exact matched_of_valid accepted chosen (same ▸ required) ran valid

namespace RosterSample

def rule : QuorumRule := ⟨"decision", ["author", "author", "auditor"], true, true⟩

def roles : List Identifier := ["workspace_root", "author", "auditor", "auditor"]

end RosterSample

open Roster RosterSample in
/-- Two auditors and one author are a valid quorum where the rule requires two authors. -/
theorem quorum_unmatched : ∃ result,
    (authority roles).validatePolicy (policy roles rule) = .ok [] ∧
    (authority roles).evaluateQuorum "decision" "subject" ([1, 2, 3].map Roster.envelope)
      (policy roles rule) receipt = .ok result ∧ result.valid = true ∧
    ¬ (authority roles).Matched (policy roles rule) receipt rule "subject"
      ([1, 2, 3].map Roster.envelope) := by
  have top : rootReasons (policy roles rule) = [] := rootReasons_policy (by decide)
  obtain ⟨⟨result, ran, valid⟩, only⟩ := @quorum_envelopes roles rule top [1, 2, 3]
    (by decide) (by decide) (by decide) rfl
  refine ⟨result, policy_accepted top, ran, valid, fun matched => ?_⟩
  exact absurd (only matched) (by decide)

end Authority
end CollectivePhaseControl
