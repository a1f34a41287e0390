import CollectivePhaseControl.AuthorityScopes

/-! The anchors of authority. The pins are compared with the envelopes of genesis policies;
a statement of a later policy is verified under the active policy, which may be that policy
itself. -/
namespace CollectivePhaseControl

def LoadArguments.pinned (a : LoadArguments) (root genesis : Digest) : LoadArguments :=
  { a with expectedRootSpkiFingerprint := root, expectedGenesisEnvelopeFingerprint := genesis }

namespace Authority
variable (w : Authority) (a : LoadArguments)

/-- A policy update under the policy before it. The digests of both are made of their
sequence numbers. -/
def verifyPolicyUpdate (priorPolicy candidatePolicy : TrustPolicyDocument)
    (statements : List DsseEnvelope) (trustedTime : TrustedTimeReceipt) :
    Checked VerificationResult := do
  let reasons ← w.validatePolicy candidatePolicy
  exactInteger priorPolicy.spec.policySequence
  exactInteger candidatePolicy.spec.policySequence
  let digest := w.document (candidatePolicy.document .trustPolicy)
  let quorum ← w.evaluateQuorum "trust_update" digest statements priorPolicy trustedTime
  let reasons := normalized (reasons ++
    reasonIf (candidatePolicy.spec.policySequence ≠ priorPolicy.spec.policySequence + 1)
      "trust_policy_sequence_not_monotonic" ++
    reasonIf (candidatePolicy.spec.priorPolicyDigest ≠
      some (w.document (priorPolicy.document .trustPolicy))) "trust_policy_predecessor_mismatch" ++
    if quorum.valid then [] else quorum.reasons)
  pure {
    valid := reasons.isEmpty
    code := if reasons.isEmpty then "trust_policy_update_verified"
      else "trust_policy_update_rejected"
    reasons := reasons
    documentDigest := some digest
    principalId := none
    role := none
    header := none }

/-- The ledger carries the genesis envelope of the policy, and it matches both pins. -/
def Pinned (p : TrustPolicyDocument) : Prop :=
  p.spec.policySequence = 0 ∧ ∃ envelope, w.Carries a envelope ∧
    (∃ bytes payload, w.decode envelope = .ok (bytes, payload, p.document .trustPolicy)) ∧
    ∃ v, w.inspectGenesis envelope a.expectedRootSpkiFingerprint
      a.expectedGenesisEnvelopeFingerprint = .ok v ∧ v.valid = true

def Updates (prior next : TrustPolicyDocument) : Prop :=
  ∃ statements trustedTime v, w.verifyPolicyUpdate prior next statements trustedTime = .ok v ∧
    v.valid = true

/-- The policies that updates link to a pinned genesis. -/
inductive Anchored : TrustPolicyDocument → Prop
  | genesis {p} : w.Pinned a p → Anchored p
  | update {p q} : Anchored p → w.Updates p q → Anchored q

variable {w a} {t : Trace}

theorem Anchored.pinned {p : TrustPolicyDocument} (anchored : w.Anchored a p) :
    ∃ g, w.Pinned a g := by
  induction anchored with
  | genesis pinned => exact ⟨_, pinned⟩
  | update _ _ ih => exact ih

theorem Loads.pinned (loads : w.Loads a t) (free : w.CollisionFree)
    (valid : (t.view w a).valid = true) {p : TrustPolicyDocument}
    (first : p.spec.policySequence = 0) (wrapped : w.Wrapped a (p.document .trustPolicy)) :
    w.Pinned a p := by
  obtain ⟨envelope, carries, bytes, payload, decoded⟩ := wrapped
  obtain ⟨v, verified, passes, -⟩ := loads.verified free valid carries decoded
  change (if p.spec.policySequence = 0 then _ else _) = _ at verified
  rw [if_pos first] at verified
  exact ⟨first, envelope, carries, ⟨bytes, payload, decoded⟩, v, verified, passes⟩

theorem Loads.active_wrapped (loads : w.Loads a t) (free : w.CollisionFree)
    (valid : (t.view w a).valid = true) (known : w.Parses (a.policy.document .trustPolicy)) :
    w.Wrapped a (a.policy.document .trustPolicy) := by
  have signs := loads.signs free
  have signed := (List.append_eq_nil_iff.mp (loads.no_reasons free valid).2).1
  rw [reasonIf_eq_nil, not_not] at signed
  obtain ⟨x, listed, same⟩ := List.mem_map.mp signed
  refine (loads.wrapped_iff free valid).mpr ⟨x, listed, ?_⟩
  refine free _ _ (signs.subject_parses listed) known ?_
  rw [← (signs.own x listed).1, same]

/-- The active policy of a valid view is anchored, and every pair of pins that matches no
genesis of the ledger makes the view invalid, exactly when the policy is a genesis policy or
an update of an anchored one. -/
theorem valid_anchored_iff {view : AuthoritativeView} (free : w.CollisionFree)
    (known : w.Parses (a.policy.document .trustPolicy))
    (run : w.loadAuthoritativeGeneration a = .ok view) (valid : view.valid = true) :
    (w.Anchored a a.policy ∧ ∀ root genesis other, (∀ p, ¬ w.Pinned (a.pinned root genesis) p) →
      w.loadAuthoritativeGeneration (a.pinned root genesis) = .ok other → other.valid = false) ↔
    a.policy.spec.policySequence = 0 ∨ ∃ prior, w.Anchored a prior ∧ w.Updates prior a.policy := by
  obtain ⟨t, loads, rfl⟩ := load_ok.mp run
  constructor
  · rintro ⟨anchored, -⟩
    cases anchored with
    | genesis pinned => exact .inl pinned.1
    | update prior updates => exact .inr ⟨_, prior, updates⟩
  · intro linked
    have anchored : w.Anchored a a.policy := by
      rcases linked with first | ⟨prior, anchored, updates⟩
      · exact .genesis (loads.pinned free valid first (loads.active_wrapped free valid known))
      · exact .update anchored updates
    refine ⟨anchored, fun root genesis other unmatched run' => ?_⟩
    -- the genesis stands in the ledger under any pins, and must match them
    obtain ⟨g, first, envelope, carries, decodes, -⟩ := anchored.pinned
    obtain ⟨t', loads', rfl⟩ := load_ok.mp run'
    rw [← Bool.not_eq_true]
    intro valid'
    exact unmatched g (loads'.pinned free valid' first ⟨envelope, carries, decodes⟩)

end Authority

open Authority WorkspaceSample in
theorem rootPolicy_unanchored : ¬ workspace.Anchored (loading "root" "genesis") rootPolicy := by
  intro anchored
  obtain ⟨g, first, envelope, -, ⟨bytes, payload, decoded⟩, -⟩ := anchored.pinned
  have listed := mem_workspaceDocuments (decode_parses decoded)
  have later : ∀ d ∈ workspaceDocuments, ∀ spec, d.spec = .trustPolicy spec →
      spec = rootPolicy.spec := by
    intro d member spec shape
    simp only [workspaceDocuments, List.mem_cons, List.not_mem_nil, or_false] at member
    rcases member with rfl | rfl | rfl | rfl | rfl | rfl | rfl | rfl | rfl <;> cases shape
    rfl
  rw [later _ listed g.spec rfl] at first
  cases first

open Authority WorkspaceSample in
theorem valid_anchored_iff_sample : ∃ view,
    workspace.loadAuthoritativeGeneration (loading "root" "genesis") = .ok view ∧
    ((workspace.Anchored (loading "root" "genesis") rootPolicy ∧ ∀ root genesis other,
      (∀ p, ¬ workspace.Pinned (loading root genesis) p) →
      workspace.loadAuthoritativeGeneration (loading root genesis) = .ok other →
        other.valid = false) ↔
      rootPolicy.spec.policySequence = 0 ∨ ∃ prior,
        workspace.Anchored (loading "root" "genesis") prior ∧
          workspace.Updates prior rootPolicy) := by
  obtain ⟨view, valid, -, run⟩ := loading_valid
  exact ⟨view, run, valid_anchored_iff (a := loading "root" "genesis") workspace_collisionFree
    ⟨[("n", .int 0)], rfl⟩ run valid⟩

open Authority WorkspaceSample in
/-- A ledger without any genesis policy is valid under any pins: its policy has sequence
one and vouches for itself. -/
theorem unanchored_valid : ¬ ∀ (w : Authority) (a : LoadArguments) (view : AuthoritativeView),
    w.CollisionFree → w.Parses (a.policy.document .trustPolicy) →
    w.loadAuthoritativeGeneration a = .ok view → view.valid = true → w.Anchored a a.policy := by
  intro claim
  obtain ⟨view, valid, -, run⟩ := loading_valid
  exact rootPolicy_unanchored (claim workspace (loading "root" "genesis") view
    workspace_collisionFree ⟨[("n", .int 0)], rfl⟩ run valid)

end CollectivePhaseControl
