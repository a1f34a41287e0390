import CollectivePhaseControl.AuthorityClosure

/-! What a valid view says of the passes. A view is valid when no pass reports anything, so
every statement is admitted, every subject stands and every pending projection is promoted. -/
namespace CollectivePhaseControl

namespace Authority
variable {w : Authority} {a : LoadArguments} {t : Trace}

def Reasoned (v : VerificationResult) : Prop := v.valid = v.reasons.isEmpty

theorem reasoned_refused {code : String} {reasons : List String} (some' : reasons ≠ []) :
    Reasoned (refused code reasons) := by
  unfold Reasoned refused
  cases reasons with
  | nil => exact absurd rfl some'
  | cons reason reasons => rfl

theorem reasoned_verifyDecoded {envelope : DsseEnvelope} {policy : TrustPolicyDocument}
    {trustedTime : Option TrustedTimeReceipt} {policyReasons : List String} {bytes : Bytes}
    {header : ProtectedHeader} {document : Document} {v : VerificationResult}
    (run : w.verifyDecoded envelope policy trustedTime policyReasons bytes header document =
      .ok v) : Reasoned v := by
  unfold verifyDecoded at run
  obtain ⟨_, -, run⟩ := bind_ok.mp run
  obtain ⟨⟨time, timeReasons⟩, -, run⟩ := bind_ok.mp run
  dsimp only at run
  split at run
  all_goals
    obtain ⟨_, -, run⟩ := bind_ok.mp run
    rw [← Except.ok.inj run]
    rfl

theorem reasoned_verifyEnvelope {envelope : DsseEnvelope} {policy : TrustPolicyDocument}
    {trustedTime : Option TrustedTimeReceipt} {v : VerificationResult} {d : Option Document}
    (run : w.verifyEnvelope envelope policy trustedTime = .ok (v, d)) :
    Reasoned v := by
  unfold verifyEnvelope at run
  obtain ⟨_, -, run⟩ := bind_ok.mp run
  split at run
  · cases Except.ok.inj run
    exact reasoned_refused (List.cons_ne_nil _ _)
  · obtain ⟨v', verified, run⟩ := bind_ok.mp run
    cases Except.ok.inj run
    exact reasoned_verifyDecoded verified

theorem reasoned_inspectGenesis {envelope : DsseEnvelope} {root fingerprint : Digest}
    {v : VerificationResult} (run : w.inspectGenesis envelope root fingerprint = .ok v) :
    Reasoned v := by
  unfold inspectGenesis at run
  dsimp only at run
  split at run
  · cases Except.ok.inj run
    exact reasoned_refused (List.cons_ne_nil _ _)
  · split at run
    · obtain ⟨_, -, run⟩ := bind_ok.mp run
      obtain ⟨_, -, run⟩ := bind_ok.mp run
      rw [← Except.ok.inj run]
      rfl
    · cases Except.ok.inj run
      exact reasoned_refused (by simp)
  · cases Except.ok.inj run
    exact reasoned_refused (by simp)

theorem reasoned_verifyStatement {envelope : DsseEnvelope} {subject : Document}
    {v : VerificationResult} (run : w.verifyStatement a envelope subject = .ok v) :
    Reasoned v := by
  unfold verifyStatement at run
  dsimp only at run
  have ordinary : Prod.fst <$> w.verifyEnvelope envelope a.policy (some a.trustedTime) = .ok v →
      Reasoned v := by
    intro run
    obtain ⟨⟨v', d⟩, verified, rfl⟩ := map_ok.mp run
    exact reasoned_verifyEnvelope verified
  split at run
  · split at run
    · exact reasoned_inspectGenesis run
    · exact ordinary run
  · exact ordinary run

theorem codes_of_judged {envelope : DsseEnvelope} {j : Judgement} {codes : List String}
    (judged : w.Judged a envelope j) (found : j.codes = some codes) : codes ≠ [] := by
  unfold Judged judgeStatement at judged
  split at judged
  · cases Except.ok.inj judged
    cases found
    exact List.cons_ne_nil _ _
  · obtain ⟨v, verified, judged⟩ := bind_ok.mp judged
    split at judged
    · rename_i invalid
      cases Except.ok.inj judged
      cases found
      have reasoned := reasoned_verifyStatement verified
      rw [Reasoned, invalid] at reasoned
      intro empty
      rw [empty] at reasoned
      cases reasoned
    · obtain ⟨lapses, -, judged⟩ := bind_ok.mp judged
      split at judged
      · rename_i some'
        cases Except.ok.inj judged
        cases found
        exact some'
      · cases Except.ok.inj judged
        cases found

theorem parseEntry_codes {digest : Digest} {codes : List String}
    (bad : w.parseEntry a digest = .error codes) : codes ≠ [] := by
  unfold parseEntry at bad
  split at bad
  · dsimp only at bad
    split at bad
    · cases bad
    · rename_i some'
      cases bad
      exact some'
  · cases bad
    exact List.cons_ne_nil _ _

theorem Rejected.codes_ne_nil {d : Digest} {codes : List String}
    (rejected : w.Rejected a t d codes) : codes ≠ [] := by
  cases rejected with
  | entry _ bad => exact parseEntry_codes bad
  | statement outcome found =>
    obtain ⟨envelope, -, judged⟩ := outcome
    exact codes_of_judged judged found
  | subject _ _ some' _ => exact some'
  | «unsigned» _ _ => exact List.cons_ne_nil _ _
  | decision _ some' _ => exact some'
  | quorum _ _ some' => exact some'
  | projection _ _ some' _ => exact some'

theorem mem_quarantineReasons {q : Quarantine} {d : Digest} {code : String}
    (listed : code ∈ q.getD d ∅) : code ++ ":" ++ d ∈ quarantineReasons q := by
  have fold : ∀ (entries : List (Digest × Finset String)) (s : Finset String) (reason : String),
      reason ∈ entries.foldl (fun reasons entry =>
        reasons ∪ entry.2.image fun code => code ++ ":" ++ entry.1) s ↔
      reason ∈ s ∨ ∃ entry ∈ entries, ∃ code ∈ entry.2, code ++ ":" ++ entry.1 = reason := by
    intro entries
    induction entries with
    | nil => simp
    | cons entry entries ih =>
      intro s reason
      rw [List.foldl_cons, ih, Finset.mem_union, Finset.mem_image]
      simp only [List.mem_cons, exists_eq_or_imp]
      exact or_assoc
  cases found : q[d]? with
  | none =>
    rw [Std.ExtTreeMap.getD_eq_getD_getElem?, found] at listed
    exact absurd listed (Finset.notMem_empty _)
  | some codes =>
    rw [Std.ExtTreeMap.getD_eq_getD_getElem?, found] at listed
    refine (fold _ _ _).mpr (.inr ⟨(d, codes), ?_, code, listed, rfl⟩)
    exact Std.ExtTreeMap.mem_toList_iff_getElem?_eq_some.mpr found

/-- A view is valid when nothing is reported, nothing is wrong with the history and nothing is
quarantined. -/
theorem valid_iff : (t.view w a).valid = true ↔ t.promoted.1.2 = [] ∧
    w.validateHistory t.events a.generation.spec.historyHeadDigest = [] ∧
    quarantineReasons t.promoted.1.1 = ∅ := by
  change decide (_ = ∅) = true ↔ _
  rw [decide_eq_true_iff, Finset.union_eq_empty, List.toFinset_eq_empty_iff,
    List.append_eq_nil_iff, and_assoc]

theorem Loads.not_rejected (loads : w.Loads a t) (free : w.CollisionFree)
    (valid : (t.view w a).valid = true) (d : Digest) (codes : List String) :
    ¬ w.Rejected a t d codes := by
  intro rejected
  obtain ⟨code, rest, rfl⟩ := List.exists_cons_of_ne_nil rejected.codes_ne_nil
  obtain ⟨rejections, equal, members⟩ := loads.rejections free
  have listed : code ∈ t.promoted.1.1.getD d ∅ := by
    rw [equal, Quarantine.codes_rejects]
    exact .inr ⟨_, (members d _).mpr rejected, List.mem_cons_self⟩
  have reported := mem_quarantineReasons listed
  rw [(valid_iff.mp valid).2.2] at reported
  exact absurd reported (Finset.notMem_empty _)

theorem Loads.not_quarantined (loads : w.Loads a t) (free : w.CollisionFree)
    (valid : (t.view w a).valid = true) (d : Digest) : d ∉ t.promoted.1.1 := by
  rw [loads.mem_final free, not_exists]
  exact loads.not_rejected free valid d

theorem Loads.no_reasons (loads : w.Loads a t) (free : w.CollisionFree)
    (valid : (t.view w a).valid = true) :
    t.ledgerReasons = [] ∧ w.activeReasons a t.signing = [] := by
  rw [← List.append_eq_nil_iff, List.eq_nil_iff_forall_not_mem]
  intro reason listed
  have checked := (loads.checked_spec free).reasons reason
  have required := (loads.required_spec free).reasons reason
  have promoted := (loads.promoted_spec free).reasons reason
  have reported := promoted.mpr (.inl (required.mpr (.inl (checked.mpr (.inl listed)))))
  rw [(valid_iff.mp valid).1] at reported
  cases reported

theorem Loads.admitted (loads : w.Loads a t) (free : w.CollisionFree)
    (valid : (t.view w a).valid = true) {d : Digest} {envelope : DsseEnvelope}
    (listed : (d, envelope) ∈ statementsOf (w.parseEntries a).1) :
    ∃ v subject, w.Judged a envelope (.admitted v subject) := by
  obtain ⟨j, judged⟩ := (loads.signs free).judged _ listed
  have clean : ∀ codes, j.codes ≠ some codes := fun codes found =>
    loads.not_rejected free valid d codes (.statement ⟨envelope, listed, judged⟩ found)
  cases j with
  | unreadable => exact absurd rfl (clean _)
  | unverified v => exact absurd rfl (clean _)
  | lapsed v codes => exact absurd rfl (clean _)
  | admitted v subject => exact ⟨v, subject, judged⟩

theorem Loads.stands (loads : w.Loads a t) (free : w.CollisionFree)
    (valid : (t.view w a).valid = true) {x : SignedSubject} (listed : x ∈ t.signing.subjects) :
    w.Stands a t x := by
  obtain ⟨d, own⟩ := (loads.signs free).statement_exists listed
  exact (loads.stands_iff free listed own).mp (loads.not_quarantined free valid d)

theorem Loads.subject_of_admits (loads : w.Loads a t) (free : w.CollisionFree) {d : Digest}
    {subject : Document} (admits : w.Admits a (statementsOf (w.parseEntries a).1) d subject) :
    ∃ x ∈ t.signing.subjects, x.subject = subject := by
  have signs := loads.signs free
  obtain ⟨x, listed, own⟩ := signs.found d subject admits
  refine ⟨x, listed, free _ _ (signs.subject_parses listed) admits.parses ?_⟩
  rw [← (signs.own x listed).1, own]

end Authority

end CollectivePhaseControl
