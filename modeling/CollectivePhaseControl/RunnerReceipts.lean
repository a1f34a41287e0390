import CollectivePhaseControl.RunnerModels

/-! Conformance of a runner's receipt to the job it answers. Every check that fails adds
a reason; comparing a time without an offset, or naming an unknown schema, raises. -/
namespace CollectivePhaseControl

structure RunnerConformance where
  accepted : Bool
  code : String
  reasons : List String
deriving DecidableEq

def reasonIf (condition : Prop) [Decidable condition] (reason : String) : List String :=
  if condition then [reason] else []

theorem reasonIf_eq_nil {condition : Prop} [Decidable condition] {reason : String} :
    reasonIf condition reason = [] ↔ ¬ condition := by
  unfold reasonIf
  split <;> simp [*]

theorem mem_reasonIf {condition : Prop} [Decidable condition] {text reason : String} :
    reason ∈ reasonIf condition text ↔ condition ∧ reason = text := by
  unfold reasonIf
  split <;> simp [*]

theorem reasonIf_congr {p q : Prop} [Decidable p] [Decidable q] (same : p ↔ q)
    (reason : String) : reasonIf p reason = reasonIf q reason := by
  simp [reasonIf, same]

/-- `set(capability.material_digests) | set(job.input_digests) | {…}`. -/
def RunnerJob.materials (job : RunnerJob) (capability : CapabilityDocument) : Finset Digest :=
  capability.spec.materialDigests.toFinset ∪ job.spec.inputDigests.toFinset ∪
    {job.spec.capabilityStatementDigest, job.spec.executionPolicyStatementDigest}

def RunnerReceiptSpec.artifacts (receipt : RunnerReceiptSpec) : Finset Digest :=
  {receipt.stdoutDigest, receipt.stderrDigest} ∪ receipt.outputDigests.toFinset

/-- The outcome a return code stands for, if the output document is of the declared kind. -/
def classifyOutput (w : Services) (receipt : RunnerReceiptSpec) (capability : RunnerCapabilitySpec)
    (outputDocument : Option Json) (returnCode : ℤ) : OutcomeName × List String :=
  let outcome := capability.returnCodeOutcomes.getD (toString returnCode) .failure
  if outcome = .failure then (.failure, [])
  else
    match receipt.outputDigests, outputDocument with
    | [_], some (.object members) =>
      match w.parsedKind members with
      | none => (.failure, ["runner_output_schema_document_invalid"])
      | some kind =>
        if kind = capability.outputSchemaName then (outcome, [])
        else (.failure, ["runner_output_kind_mismatch"])
    | [_], some _ => (.failure, ["runner_output_schema_document_invalid"])
    | _, _ => (.failure, ["runner_output_schema_document_missing"])

/-- The selector may refine an outcome that is not a failure. -/
def selectOutcome (capability : RunnerCapabilitySpec) (outputDocument : Option Json)
    (outcome : OutcomeName) : OutcomeName × List String :=
  match capability.outputSelector with
  | none => (outcome, [])
  | some selector =>
    if outcome = .failure then (.failure, [])
    else
      match outputDocument with
      | none => (.failure, ["runner_output_selector_document_missing"])
      | some document =>
        match resolvePointer document selector.jsonPointer with
        | none => (.failure, ["runner_output_selector_invalid"])
        | some (.str selected) =>
          match selector.values[selected]? with
          | some value => (value, [])
          | none => (.failure, ["runner_output_selector_unrecognized"])
        | some _ => (.failure, ["runner_output_selector_unrecognized"])

def classifiedOutcome (w : Services) (receipt : RunnerReceiptSpec)
    (capability : RunnerCapabilitySpec) (outputDocument : Option Json) :
    OutcomeName × List String :=
  match receipt.timeout, receipt.returnCode with
  | true, _ => (.timeout, [])
  | false, none => (.failure, [])
  | false, some returnCode =>
    let parsed := classifyOutput w receipt capability outputDocument returnCode
    let selected := selectOutcome capability outputDocument parsed.1
    (selected.1, parsed.2 ++ selected.2)

/-- The checks that order times, in the source's order. -/
def receiptTimes (job : RunnerJob) (receipt : RunnerReceiptSpec) (receivedAt : ℤ) :
    Checked (List String) := do
  let future ← (DateTime.utc receivedAt).lt receipt.completedAt
  let early ← receipt.startedAt.lt job.metadata.createdAt
  let late ← (DateTime.utc job.spec.leaseExpiresAt).lt receipt.completedAt
  pure (reasonIf (job.spec.leaseExpiresAt < receivedAt) "runner_lease_expired" ++
    reasonIf (future = true) "runner_receipt_completed_in_future" ++
    reasonIf (early = true) "runner_start_before_job_creation" ++
    reasonIf (late = true) "runner_completion_after_lease_expiry")

/-- The checks that neither raise nor look at earlier attempts. -/
def receiptBindings (w : Services) (job : RunnerJob) (receipt : RunnerReceiptSpec)
    (capability : CapabilityDocument) (policy : ExecutionPolicy)
    (expectedRunnerPrincipalId : Identifier) (available : Finset Digest)
    (artifactLengths : Digest → Option ℕ) : List String :=
  let materials := RunnerJob.materials job capability
  let attested := job.spec.networkPolicy = .runnerAttested ∧ receipt.isolationProfileDigest = none
  let confined :=
    job.spec.filesystemPolicy = .runnerAttested ∧ receipt.isolationProfileDigest = none
  reasonIf (receipt.jobDigest ≠ w.document (job.lift .job)) "runner_job_digest_mismatch" ++
  reasonIf (job.spec.capabilityDigest ≠ w.document (capability.lift .capability))
    "runner_capability_digest_mismatch" ++
  reasonIf (job.spec.executionPolicyDigest ≠ w.document (policy.lift .executionPolicy))
    "runner_execution_policy_digest_mismatch" ++
  reasonIf (capability.spec.executionPolicyDigest ≠ w.document (policy.lift .executionPolicy))
    "capability_execution_policy_digest_mismatch" ++
  reasonIf (receipt.jobId ≠ job.spec.jobId) "runner_job_id_mismatch" ++
  reasonIf (receipt.attempt ≠ job.spec.attempt) "runner_attempt_mismatch" ++
  reasonIf (receipt.leaseId ≠ job.spec.leaseId) "runner_lease_id_mismatch" ++
  reasonIf (receipt.runnerPrincipalId ≠ expectedRunnerPrincipalId)
    "runner_principal_unrecognized" ++
  reasonIf (receipt.imageDigest ≠ job.spec.imageDigest) "runner_image_digest_mismatch" ++
  reasonIf (capability.spec.imageDigest ≠ job.spec.imageDigest)
    "runner_capability_image_mismatch" ++
  reasonIf (job.spec.imageDigest ∉ policy.spec.allowedImageDigests)
    "runner_image_not_allowed_by_execution_policy" ++
  reasonIf (receipt.materialDigests.toFinset ≠ materials) "runner_material_closure_mismatch" ++
  reasonIf (¬ materials ∪ receipt.artifacts ⊆ available) "runner_artifact_digest_missing" ++
  reasonIf (artifactLengths receipt.stdoutDigest ≠ some receipt.stdoutCapturedBytes)
    "runner_stdout_length_mismatch" ++
  reasonIf (artifactLengths receipt.stderrDigest ≠ some receipt.stderrCapturedBytes)
    "runner_stderr_length_mismatch" ++
  reasonIf (policy.spec.maximumOutputBytes <
    ∑ digest ∈ receipt.artifacts, (artifactLengths digest).getD 0)
    "runner_output_policy_exceeded" ++
  reasonIf (policy.spec.timeoutSeconds < job.spec.timeoutSeconds)
    "runner_timeout_policy_exceeded" ++
  reasonIf (policy.spec.stdoutLimit < job.spec.stdoutLimit) "runner_stdout_policy_exceeded" ++
  reasonIf (policy.spec.stderrLimit < job.spec.stderrLimit) "runner_stderr_policy_exceeded" ++
  reasonIf (job.spec.networkPolicy ≠ policy.spec.networkPolicy)
    "runner_network_policy_mismatch" ++
  reasonIf (job.spec.filesystemPolicy ≠ policy.spec.filesystemPolicy)
    "runner_filesystem_policy_mismatch" ++
  reasonIf (job.spec.stdoutLimit < receipt.stdoutCapturedBytes) "runner_stdout_limit_exceeded" ++
  reasonIf (job.spec.stderrLimit < receipt.stderrCapturedBytes) "runner_stderr_limit_exceeded" ++
  reasonIf (receipt.cleanupComplete = false) "runner_cleanup_incomplete" ++
  reasonIf attested "runner_network_isolation_attestation_missing" ++
  reasonIf confined "runner_filesystem_isolation_attestation_missing"

/-- The reasons are a set; its order is the sorted one. -/
def validateReceipt (w : Services) (job : RunnerJob) (receipt : RunnerReceiptSpec)
    (capability : CapabilityDocument) (policy : ExecutionPolicy) (receivedAt : ℤ)
    (expectedRunnerPrincipalId : Identifier) (priorAttempts : Finset (Identifier × ℕ))
    (available : Finset Digest) (artifactLengths : Digest → Option ℕ)
    (outputDocument : Option Json) : Checked RunnerConformance := do
  let schema ← w.schemaDigest capability.spec.outputSchemaName
  let times ← receiptTimes job receipt receivedAt
  let classified := classifiedOutcome w receipt capability.spec outputDocument
  let reasons :=
    receiptBindings w job receipt capability policy expectedRunnerPrincipalId available
      artifactLengths ++
    reasonIf (capability.spec.outputSchemaDigest ≠ schema)
      "runner_output_schema_digest_mismatch" ++
    times ++
    reasonIf ((job.spec.jobId, job.spec.attempt) ∈ priorAttempts) "runner_attempt_replay" ++
    classified.2 ++
    reasonIf (receipt.claimedOutcome ≠ classified.1) "runner_outcome_forged"
  pure {
    accepted := reasons.isEmpty
    code := if reasons.isEmpty then "runner_receipt_conformant" else "runner_receipt_rejected"
    reasons := reasons.dedup.mergeSort }

theorem validateReceipt_congr (w : Services) {job : RunnerJob} {receipt : RunnerReceiptSpec}
    {capability : CapabilityDocument} {policy : ExecutionPolicy} {receivedAt : ℤ}
    {expected : Identifier} {prior prior' : Finset (Identifier × ℕ)} {available : Finset Digest}
    {lengths : Digest → Option ℕ} {output : Option Json}
    (same : (job.spec.jobId, job.spec.attempt) ∈ prior ↔
      (job.spec.jobId, job.spec.attempt) ∈ prior') :
    validateReceipt w job receipt capability policy receivedAt expected prior available lengths
        output =
      validateReceipt w job receipt capability policy receivedAt expected prior' available lengths
        output := by
  simp only [validateReceipt, reasonIf_congr same]

end CollectivePhaseControl
