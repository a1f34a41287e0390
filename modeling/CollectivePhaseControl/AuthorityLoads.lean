import CollectivePhaseControl.AuthorityStatements

/-! The later passes, and the load as a whole: a load is a sequence of results, each the
outcome of its pass on the ones before it. -/
namespace CollectivePhaseControl

namespace Authority
variable {w : Authority} {a : LoadArguments}

theorem rejectUnsigned_eq (parsed : List (Digest × Document)) (q : Quarantine) :
    rejectUnsigned parsed q = q.rejects ((parsed.filter fun p => unsigned p.2.spec).map
      fun p => (p.1, ["unsigned_authoritative_object"])) := by
  unfold rejectUnsigned
  induction parsed generalizing q with
  | nil => rfl
  | cons p parsed ih =>
    rw [List.foldl_cons, ih, List.filter_cons]
    by_cases plain : unsigned p.2.spec = true
    · simp [plain, Quarantine.rejects]
    · simp [plain]

/-- What the pass over a list of decisions leaves behind. -/
structure Settled (judge : QuorumDecisionDocument → Checked (List String))
    (done : List (Digest × QuorumDecisionDocument)) (q : Quarantine) (r : Decided) : Prop where
  judged : ∀ p ∈ done, ∃ codes, judge p.2 = .ok codes
  quarantine : ∃ rejections, r.1 = q.rejects rejections ∧ ∀ d codes, (d, codes) ∈ rejections ↔
    codes ≠ [] ∧ ∃ decision, (d, decision) ∈ done ∧ judge decision = .ok codes
  derived : ∀ d decision, (d, decision) ∈ r.2 ↔ (d, decision) ∈ done ∧ judge decision = .ok []
  distinct : (r.2.map Prod.fst).Nodup

section decisions
variable {judge : QuorumDecisionDocument → Checked (List String)}
  {done : List (Digest × QuorumDecisionDocument)} {q : Quarantine} {r : Decided}

theorem recordDecision_eq {digest : Digest} (fresh : digest ∉ r.1)
    (decision : QuorumDecisionDocument) (codes : List String) :
    recordDecision r digest decision codes =
      if codes = [] then (r.1, r.2 ++ [(digest, decision)]) else (r.1.reject digest codes, r.2) := by
  have empty : r.1.getD digest ∅ = ∅ := Std.ExtTreeMap.getD_eq_fallback fresh
  unfold recordDecision
  by_cases clean : codes = []
  · simp [clean, empty]
  · simp [clean, Quarantine.getD_reject, empty]

theorem Settled.snoc {digest : Digest} {decision : QuorumDecisionDocument} {codes : List String}
    (settled : Settled judge done q r) (new : digest ∉ done.map Prod.fst) (fresh : digest ∉ q)
    (verdict : judge decision = .ok codes) :
    Settled judge (done ++ [(digest, decision)]) q (recordDecision r digest decision codes) := by
  obtain ⟨rejections, equal, members⟩ := settled.quarantine
  have unseen : ∀ other, (digest, other) ∉ done := fun other listed =>
    new (List.mem_map.mpr ⟨_, listed, rfl⟩)
  have outside : digest ∉ r.1 := by
    rw [equal, Quarantine.mem_rejects, not_or]
    refine ⟨fresh, ?_⟩
    rintro ⟨codes, member⟩
    obtain ⟨-, other, listed, -⟩ := (members _ _).mp member
    exact unseen other listed
  have judged : ∀ p ∈ done ++ [(digest, decision)], ∃ codes, judge p.2 = .ok codes := by
    intro p listed
    rcases List.mem_append.mp listed with old | last
    · exact settled.judged p old
    · rw [List.mem_singleton.mp last]
      exact ⟨codes, verdict⟩
  rw [recordDecision_eq outside]
  split
  · rename_i clean
    subst clean
    refine ⟨judged, ⟨rejections, equal, fun d codes => ?_⟩, fun d other => ?_, ?_⟩
    · rw [members]
      grind
    · rw [List.mem_append, settled.derived]
      grind
    · rw [List.map_append, List.nodup_append]
      refine ⟨settled.distinct, List.nodup_singleton _, ?_⟩
      intro d member e last
      obtain ⟨p, listed, rfl⟩ := List.mem_map.mp member
      obtain rfl := List.mem_singleton.mp last
      rintro same
      exact unseen p.2 (same ▸ ((settled.derived p.1 p.2).mp listed).1)
  · rename_i some
    refine ⟨judged, ⟨rejections ++ [(digest, codes)], ?_, fun d codes => ?_⟩, fun d other => ?_,
      settled.distinct⟩
    · rw [Quarantine.rejects_append, equal]
      rfl
    · rw [List.mem_append, members]
      grind
    · rw [settled.derived]
      grind

end decisions

theorem heldEnvelopes_congr {s : Signing} {q r : Quarantine} (digests : List Digest)
    (same : ∀ d, s.statementEnvelopes[d]?.isSome → (d ∈ q ↔ d ∈ r)) :
    heldEnvelopes s q digests = heldEnvelopes s r digests := by
  unfold heldEnvelopes
  congr 1
  funext d
  cases recorded : s.statementEnvelopes[d]? with
  | none => simp
  | some envelope => simp [same d (by rw [recorded]; rfl)]

section load
variable {q : Quarantine} {s : Signing} {parsed : List (Digest × Document)}

theorem judgeDecision_congr {q r : Quarantine} (decision : QuorumDecisionDocument)
    (same : ∀ d, s.statementEnvelopes[d]?.isSome → (d ∈ q ↔ d ∈ r)) :
    w.judgeDecision a s q decision = w.judgeDecision a s r decision := by
  unfold judgeDecision
  rw [heldEnvelopes_congr _ same]

theorem nodup_decisionsOf (distinct : (parsed.map Prod.fst).Nodup) :
    ((decisionsOf parsed).map Prod.fst).Nodup := by
  apply distinct.sublist (sublist_keys _ parsed)
  rintro ⟨digest, document⟩ q found
  dsimp only at found
  split at found
  · cases found
    rfl
  · cases found

theorem decideQuorums_eq (distinct : (parsed.map Prod.fst).Nodup)
    (recorded : ∀ d, s.statementEnvelopes[d]?.isSome → d ∈ (statementsOf parsed).map Prod.fst)
    (q : Quarantine) :
    w.decideQuorums a s parsed q = (decisionsOf parsed).foldlM
      (fun r p => recordDecision r p.1 p.2 <$> w.judgeDecision a s q p.2) (q, []) := by
  -- Only decisions are rejected on the way, and none of them is a statement.
  refine foldlM_record_stable
    (fun rest r => rest ⊆ decisionsOf parsed ∧
      ∀ d, s.statementEnvelopes[d]?.isSome → (d ∈ r.1 ↔ d ∈ q)) ?_ ?_
    ⟨List.Subset.refl _, fun _ _ => Iff.rfl⟩
  · intro r p rest ⟨_, same⟩
    exact judgeDecision_congr p.2 same
  · intro r p rest codes ⟨inside, same⟩ _
    refine ⟨fun y tail => inside (List.mem_cons_of_mem _ tail), fun d held => ?_⟩
    have other : d ≠ p.1 := by
      rintro rfl
      obtain ⟨⟨d, envelope⟩, statement, equal⟩ := List.mem_map.mp (recorded _ held)
      obtain ⟨document, listed, shape⟩ := mem_statementsOf.mp statement
      have decision := mem_decisionsOf.mp (inside (List.mem_cons_self (a := p)))
      dsimp only at equal
      subst equal
      have found := lookup_of_mem distinct listed
      rw [lookup_of_mem distinct decision] at found
      cases Option.some.inj found
      cases shape
    rw [← same d held]
    unfold recordDecision
    split <;> simp [other]

theorem decideQuorums_ok (distinct : (parsed.map Prod.fst).Nodup)
    (recorded : ∀ d, s.statementEnvelopes[d]?.isSome → d ∈ (statementsOf parsed).map Prod.fst)
    (fresh : ∀ p ∈ decisionsOf parsed, p.1 ∉ q) {r : Decided}
    (run : w.decideQuorums a s parsed q = .ok r) :
    Settled (w.judgeDecision a s q) (decisionsOf parsed) q r := by
  rw [decideQuorums_eq distinct recorded] at run
  refine foldlM_invariant (fun done r => (done.map Prod.fst).Nodup → (∀ p ∈ done, p.1 ∉ q) →
    Settled (w.judgeDecision a s q) done q r) ?_ (fun _ _ => ?_) run
    (nodup_decisionsOf distinct) fresh
  · intro done p r t settled step distinct fresh
    obtain ⟨codes, verdict, rfl⟩ := map_ok.mp step
    rw [List.map_append, List.nodup_append] at distinct
    obtain ⟨prior, -, apart⟩ := distinct
    refine (settled prior fun p old => fresh p (List.mem_append_left _ old)).snoc (fun old => ?_)
      (fresh p (List.mem_append_right _ (List.mem_singleton_self p))) verdict
    exact apart _ old _ (List.mem_singleton_self _) rfl
  · exact ⟨by simp, ⟨[], rfl, by simp⟩, by simp, List.nodup_nil⟩

theorem decideQuorums_total (distinct : (parsed.map Prod.fst).Nodup)
    (recorded : ∀ d, s.statementEnvelopes[d]?.isSome → d ∈ (statementsOf parsed).map Prod.fst) :
    (∃ r, w.decideQuorums a s parsed q = .ok r) ↔
      ∀ p ∈ decisionsOf parsed, ∃ codes, w.judgeDecision a s q p.2 = .ok codes := by
  rw [decideQuorums_eq distinct recorded]
  simp only [foldlM_record_ok]
  constructor
  · rintro ⟨_, _, both, -⟩ p listed
    obtain ⟨codes, -, verdict⟩ := forall₂_mem_left both p listed
    exact ⟨codes, verdict⟩
  · intro each
    obtain ⟨all, both⟩ := exists_forall₂ each
    exact ⟨_, all, both, rfl⟩

theorem outcome_unique {done : List (Digest × DsseEnvelope)} (distinct : (done.map Prod.fst).Nodup)
    {d : Digest} {j k : Judgement} (first : w.Outcome a done d j) (second : w.Outcome a done d k) :
    j = k := by
  obtain ⟨envelope, listed, verdict⟩ := first
  obtain ⟨other, listed', verdict'⟩ := second
  have found := lookup_of_mem distinct listed
  rw [lookup_of_mem distinct listed'] at found
  cases Option.some.inj found
  exact verdict.unique verdict'

theorem admits_unique {done : List (Digest × DsseEnvelope)} (distinct : (done.map Prod.fst).Nodup)
    {d : Digest} {x y : Document} (first : w.Admits a done d x) (second : w.Admits a done d y) :
    x = y := by
  obtain ⟨j, outcome, shape⟩ := first
  obtain ⟨k, outcome', shape'⟩ := second
  rw [outcome_unique distinct outcome outcome', shape'] at shape
  exact (Option.some.inj shape).symm

theorem digest_injective {subjects : List SignedSubject}
    (distinct : (subjects.map (·.digest)).Nodup) {x y : SignedSubject} (first : x ∈ subjects)
    (second : y ∈ subjects) (same : x.digest = y.digest) : x = y :=
  List.inj_on_of_nodup_map distinct first second same

theorem Signs.separate {done : List (Digest × DsseEnvelope)} (signs : w.Signs a q done s)
    (distinct : (done.map Prod.fst).Nodup) {x y : SignedSubject} (first : x ∈ s.subjects)
    (second : y ∈ s.subjects) {d : Digest} (own : d ∈ x.statements) (shared : d ∈ y.statements) :
    x = y := by
  obtain ⟨sx, admits, same⟩ := (signs.statements x first d).mp own
  obtain ⟨sy, admits', same'⟩ := (signs.statements y second d).mp shared
  have equal := admits_unique distinct admits admits'
  exact digest_injective signs.distinct first second (by rw [← same, ← same', equal])

end load

structure Trace where
  ledgerReasons : List String
  signing : Signing
  checked : Inspection
  decided : Decided
  required : Inspection
  promoted : Inspection
  events : List AuditEvent

variable (w a) in
structure Loads (t : Trace) : Prop where
  ledger : w.validateLedger a = .ok t.ledgerReasons
  bounded : a.policy.spec.policySequence ≤ maximumInteger
  signing : w.signStatements a (w.parseEntries a).1 (w.parseEntries a).2 = .ok t.signing
  checked : inspectSubjects (w.checkSubject a t.signing) t.signing.subjects
    (t.signing.quarantine, t.ledgerReasons ++ w.activeReasons a t.signing) = .ok t.checked
  decided : w.decideQuorums a t.signing (w.parseEntries a).1
    (rejectUnsigned (w.parseEntries a).1 t.checked.1.1) = .ok t.decided
  required : inspectSubjects (requireQuorum t.decided.2) t.signing.subjects
    (t.decided.1, t.checked.1.2) = .ok t.required
  promoted : inspectSubjects (w.promoteProjection a t.signing t.decided.2) t.signing.subjects
    t.required.1 = .ok t.promoted
  events : sortEvents (w.auditEvents (w.parseEntries a).1 t.promoted.1.1) = .ok t.events

variable (w a) in
def Trace.view (t : Trace) : AuthoritativeView :=
  w.view a t.signing t.promoted.1.1 t.decided.2 t.promoted.2
    (t.promoted.1.2 ++ w.validateHistory t.events a.generation.spec.historyHeadDigest)

@[simp] theorem exactInteger_ok {n : ℕ} {u : Unit} :
    exactInteger n = .ok u ↔ n ≤ maximumInteger := by
  unfold exactInteger
  split <;> simp_all

theorem load_ok {view : AuthoritativeView} :
    w.loadAuthoritativeGeneration a = .ok view ↔ ∃ t, w.Loads a t ∧ view = t.view w a := by
  unfold loadAuthoritativeGeneration
  simp only [bind_ok, pure_ok, exactInteger_ok, exists_punit]
  constructor
  · rintro ⟨ledgerReasons, ledger, bounded, s, signing, checked, first, decided, second, required,
      third, promoted, fourth, events, fifth, rfl⟩
    exact ⟨⟨ledgerReasons, s, checked, decided, required, promoted, events⟩,
      ⟨ledger, bounded, signing, first, second, third, fourth, fifth⟩, rfl⟩
  · rintro ⟨t, loads, rfl⟩
    exact ⟨_, loads.ledger, loads.bounded, _, loads.signing, _, loads.checked, _, loads.decided, _,
      loads.required, _, loads.promoted, _, loads.events, rfl⟩

section independent
variable {q : Quarantine} {s : Signing} {done : List (Digest × DsseEnvelope)}

theorem signerReasons_congr {q r : Quarantine} {x : SignedSubject}
    (same : ∀ d ∈ x.statements, d ∈ q ↔ d ∈ r) : signerReasons s q x = signerReasons s r x := by
  unfold signerReasons
  split
  · rfl
  · apply reasonIf_congr
    apply not_congr
    constructor
    · rintro ⟨d, listed, free, rest⟩
      exact ⟨d, listed, fun member => free ((same d listed).mpr member), rest⟩
    · rintro ⟨d, listed, free, rest⟩
      exact ⟨d, listed, fun member => free ((same d listed).mp member), rest⟩

theorem checkSubject_independent (signs : w.Signs a q done s)
    (distinct : (done.map Prod.fst).Nodup) :
    Independent (w.checkSubject a s) (fun _ => True) s.subjects where
  stable q r x listed free := by
    have same : ∀ d ∈ x.statements, d ∈ q ↔ d ∈ r := fun d own =>
      free d fun y listed' _ shared => signs.separate distinct listed' listed shared own
    unfold checkSubject
    rw [signerReasons_congr same]
  only _ _ _ _ _ _ := trivial

theorem requireQuorum_independent (derived : List (Digest × QuorumDecisionDocument))
    (subjects : List SignedSubject) :
    Independent (requireQuorum derived) (fun _ => True) subjects where
  stable _ _ _ _ _ := rfl
  only _ _ _ _ _ _ := trivial

def IsPending (x : SignedSubject) : Prop :=
  ∃ p : PendingProjection, x.subject = p.document .pendingProjection

theorem signedSubject_eq_some {subjects : List SignedSubject}
    (distinct : (subjects.map (·.digest)).Nodup) {digest : Digest} {d : Document} :
    signedSubject subjects digest = some d ↔
      ∃ x ∈ subjects, x.digest = digest ∧ x.subject = d := by
  unfold signedSubject
  rw [Option.map_eq_some_iff]
  constructor
  · rintro ⟨x, found, rfl⟩
    exact ⟨x, List.mem_of_find?_eq_some found, by simpa using List.find?_some found, rfl⟩
  · rintro ⟨x, listed, rfl, rfl⟩
    cases found : subjects.find? fun s => s.digest == x.digest with
    | none => simpa using List.find?_eq_none.mp found x listed
    | some y =>
      have same : y.digest = x.digest := by simpa using List.find?_some found
      rw [digest_injective distinct (List.mem_of_find?_eq_some found) listed same]
      exact ⟨x, rfl, rfl⟩

theorem standing_eq {subjects : List SignedSubject} (distinct : (subjects.map (·.digest)).Nodup)
    {x : SignedSubject} (listed : x ∈ subjects) (q : Quarantine) :
    standing subjects q x.digest = x.statements.filter (· ∉ q) := by
  unfold standing
  cases found : subjects.find? fun s => s.digest == x.digest with
  | none => simpa using List.find?_eq_none.mp found x listed
  | some y =>
    have same : y.digest = x.digest := by simpa using List.find?_some found
    rw [digest_injective distinct (List.mem_of_find?_eq_some found) listed same]

theorem standing_congr {subjects : List SignedSubject} (distinct : (subjects.map (·.digest)).Nodup)
    {q r : Quarantine} {x : SignedSubject} (listed : x ∈ subjects)
    (same : ∀ d ∈ x.statements, d ∈ q ↔ d ∈ r) :
    standing subjects q x.digest = standing subjects r x.digest := by
  rw [standing_eq distinct listed, standing_eq distinct listed]
  apply List.filter_congr
  intro d own
  simp [same d own]

theorem promoteProjection_independent (signs : w.Signs a q done s)
    (distinct : (done.map Prod.fst).Nodup) (derived : List (Digest × QuorumDecisionDocument)) :
    Independent (w.promoteProjection a s derived) IsPending s.subjects where
  stable q r x listed free := by
    have own : ∀ d ∈ x.statements, d ∈ q ↔ d ∈ r := fun d own =>
      free d fun y listed' _ shared => signs.separate distinct listed' listed shared own
    -- Receipts and sources are no pending projections, so no statement of theirs changes.
    have other : ∀ y ∈ s.subjects, ¬ IsPending y → ∀ d ∈ y.statements, d ∈ q ↔ d ∈ r := by
      intro y listed' settled d member
      refine free d fun z listed'' pending shared => ?_
      rw [signs.separate distinct listed'' listed' shared member] at pending
      exact absurd pending settled
    have receipt : ∀ digest, receiptReasons s q digest = receiptReasons s r digest := by
      intro digest
      unfold receiptReasons
      split
      · rename_i runner found
        obtain ⟨y, listed', rfl, shape⟩ := (signedSubject_eq_some signs.distinct).mp found
        rw [standing_congr signs.distinct listed' (other y listed' ?_)]
        rintro ⟨p, pending⟩
        rw [shape] at pending
        cases congrArg Typed.spec pending
      · rfl
    have source : ∀ digest,
        projectionSourceReasons s q digest = projectionSourceReasons s r digest := by
      intro digest
      unfold projectionSourceReasons
      split
      · rename_i spec found
        obtain ⟨y, listed', rfl, shape⟩ := (signedSubject_eq_some signs.distinct).mp found
        rw [standing_congr signs.distinct listed' (other y listed' ?_)]
        rintro ⟨p, pending⟩
        rw [shape] at pending
        cases congrArg Typed.spec pending
      · rfl
    have pending : ∀ p, w.judgePending a s derived q x.digest p =
        w.judgePending a s derived r x.digest p := by
      intro p
      unfold judgePending pendingReasons promote
      rw [standing_congr signs.distinct listed own, receipt, source]
    unfold promoteProjection
    split
    · rw [pending]
    · rfl
  only q x _ v verdict some := by
    unfold promoteProjection at verdict
    split at verdict
    · rename_i metadata extensions spec shape
      exact ⟨⟨metadata, extensions, spec⟩, shape⟩
    · cases Except.ok.inj verdict
      exact absurd rfl some

end independent

/-- The digests that the passes reject, with the codes of each rejection. -/
inductive Rejected (w : Authority) (a : LoadArguments) (t : Trace) : Digest → List String → Prop
  | entry {d codes} : d ∈ liveDigests a → w.parseEntry a d = .error codes → Rejected w a t d codes
  | statement {d codes j} : w.Outcome a (statementsOf (w.parseEntries a).1) d j →
      j.codes = some codes → Rejected w a t d codes
  | subject {d codes x document} : x ∈ t.signing.subjects → d ∈ x.statements → codes ≠ [] →
      w.checkSubject a t.signing t.signing.quarantine x = .ok (codes, document) →
      Rejected w a t d codes
  | unsigned {d document} : (d, document) ∈ (w.parseEntries a).1 → unsigned document.spec = true →
      Rejected w a t d ["unsigned_authoritative_object"]
  | decision {d codes decision} : (d, decision) ∈ decisionsOf (w.parseEntries a).1 → codes ≠ [] →
      w.judgeDecision a t.signing (rejectUnsigned (w.parseEntries a).1 t.checked.1.1) decision =
        .ok codes → Rejected w a t d codes
  | quorum {d x} : x ∈ t.signing.subjects → d ∈ x.statements →
      quorumFault t.decided.2 x ≠ [] → Rejected w a t d (quorumFault t.decided.2 x)
  | projection {d codes x document} : x ∈ t.signing.subjects → d ∈ x.statements → codes ≠ [] →
      w.promoteProjection a t.signing t.decided.2 t.required.1.1 x = .ok (codes, document) →
      Rejected w a t d codes

section loads
variable {t : Trace}

theorem parsed_unique {d : Digest} {x y : Document} (first : (d, x) ∈ (w.parseEntries a).1)
    (second : (d, y) ∈ (w.parseEntries a).1) : x = y := by
  have found := lookup_of_mem (w.nodup_parsed a) first
  rw [lookup_of_mem (w.nodup_parsed a) second] at found
  exact (Option.some.inj found).symm

theorem Loads.signs (loads : w.Loads a t) (free : w.CollisionFree) :
    w.Signs a (w.parseEntries a).2 (statementsOf (w.parseEntries a).1) t.signing :=
  signStatements_ok free (w.nodup_parsed a) loads.signing

theorem nodup_statements : ((statementsOf (w.parseEntries a).1).map Prod.fst).Nodup :=
  nodup_statementsOf (w.nodup_parsed a)

theorem Signs.nodup {q : Quarantine} {done : List (Digest × DsseEnvelope)} {s : Signing}
    (signs : w.Signs a q done s) : s.subjects.Nodup := .of_map _ signs.distinct

theorem Loads.checked_spec (loads : w.Loads a t) (free : w.CollisionFree) :
    Inspected (w.checkSubject a t.signing) t.signing.subjects
      (t.signing.quarantine, t.ledgerReasons ++ w.activeReasons a t.signing) t.checked :=
  inspectSubjects_ok (checkSubject_independent (loads.signs free) nodup_statements)
    (loads.signs free).nodup loads.checked

theorem Loads.required_spec (loads : w.Loads a t) (free : w.CollisionFree) :
    Inspected (requireQuorum t.decided.2) t.signing.subjects (t.decided.1, t.checked.1.2)
      t.required :=
  inspectSubjects_ok (requireQuorum_independent _ _) (loads.signs free).nodup loads.required

theorem Loads.promoted_spec (loads : w.Loads a t) (free : w.CollisionFree) :
    Inspected (w.promoteProjection a t.signing t.decided.2) t.signing.subjects t.required.1
      t.promoted :=
  inspectSubjects_ok (promoteProjection_independent (loads.signs free) nodup_statements _)
    (loads.signs free).nodup loads.promoted

theorem statement_of_mem (signs : w.Signs a (w.parseEntries a).2
    (statementsOf (w.parseEntries a).1) t.signing) {x : SignedSubject} {d : Digest}
    (listed : x ∈ t.signing.subjects) (own : d ∈ x.statements) :
    d ∈ (statementsOf (w.parseEntries a).1).map Prod.fst := by
  obtain ⟨_, ⟨_, outcome, -⟩, -⟩ := (signs.statements x listed d).mp own
  exact outcome.mem_keys

theorem not_statement {d : Digest} {document : Document}
    (listed : (d, document) ∈ (w.parseEntries a).1) (other : ∀ e, document.spec ≠ .signedStatement e) :
    d ∉ (statementsOf (w.parseEntries a).1).map Prod.fst := by
  intro member
  obtain ⟨⟨d, envelope⟩, statement, rfl⟩ := List.mem_map.mp member
  obtain ⟨found, listed', shape⟩ := mem_statementsOf.mp statement
  rw [parsed_unique listed' listed] at shape
  exact other envelope shape

theorem parsed_not_rejected {d : Digest} {document : Document}
    (listed : (d, document) ∈ (w.parseEntries a).1) : d ∉ (w.parseEntries a).2 := by
  rw [parseEntries_eq, Quarantine.mem_rejects, not_or]
  refine ⟨Std.ExtTreeMap.not_mem_empty, ?_⟩
  rintro ⟨codes, member⟩
  obtain ⟨e, -, found⟩ := List.mem_filterMap.mp member
  have parsed := ((w.mem_parsed a).mp listed).2
  unfold rejectedEntry at found
  split at found
  · cases found
  · rename_i bad
    cases found
    rw [parsed] at bad
    cases bad

theorem mem_parse_rejections {d : Digest} {codes : List String} :
    (d, codes) ∈ (liveDigests a).filterMap (w.rejectedEntry a) ↔
      d ∈ liveDigests a ∧ w.parseEntry a d = .error codes := by
  simp only [List.mem_filterMap, rejectedEntry]
  constructor
  · rintro ⟨e, live, found⟩
    split at found
    · cases found
    · rename_i bad
      cases found
      exact ⟨live, bad⟩
  · rintro ⟨live, bad⟩
    exact ⟨d, live, by simp [bad]⟩

theorem Loads.decisions_fresh (loads : w.Loads a t) (free : w.CollisionFree) :
    ∀ p ∈ decisionsOf (w.parseEntries a).1,
      p.1 ∉ rejectUnsigned (w.parseEntries a).1 t.checked.1.1 := by
  rintro ⟨d, decision⟩ listed
  have signs := loads.signs free
  have parsed := mem_decisionsOf.mp listed
  have other : d ∉ (statementsOf (w.parseEntries a).1).map Prod.fst :=
    not_statement parsed fun e shape => by cases shape
  obtain ⟨first, equal, members⟩ := signs.quarantine
  obtain ⟨second, equal', members'⟩ := (loads.checked_spec free).quarantine
  rw [rejectUnsigned_eq, equal', equal]
  intro member
  simp only [Quarantine.mem_rejects, members, members', List.mem_map, List.mem_filter] at member
  rcases member with ((old | ⟨_, _, outcome, -⟩) | ⟨_, -, x, listed', own, -⟩) |
    ⟨_, ⟨e, document⟩, ⟨listed', plain⟩, equal⟩
  · exact parsed_not_rejected parsed old
  · exact other outcome.mem_keys
  · exact other (statement_of_mem signs listed' own)
  · cases equal
    rw [parsed_unique listed' parsed] at plain
    cases plain

theorem Signs.recorded {q : Quarantine} {done : List (Digest × DsseEnvelope)} {s : Signing}
    (signs : w.Signs a q done s) {d : Digest} (held : s.statementEnvelopes[d]?.isSome) :
    d ∈ done.map Prod.fst := by
  obtain ⟨envelope, found⟩ := Option.isSome_iff_exists.mp held
  obtain ⟨_, listed, -⟩ := (signs.envelopes d envelope).mp found
  exact List.mem_map.mpr ⟨_, listed, rfl⟩

theorem Loads.decided_spec (loads : w.Loads a t) (free : w.CollisionFree) :
    Settled (w.judgeDecision a t.signing (rejectUnsigned (w.parseEntries a).1 t.checked.1.1))
      (decisionsOf (w.parseEntries a).1) (rejectUnsigned (w.parseEntries a).1 t.checked.1.1)
      t.decided :=
  decideQuorums_ok (w.nodup_parsed a) (fun _ => (loads.signs free).recorded)
    (loads.decisions_fresh free) loads.decided

theorem parseEntries_quarantine : (w.parseEntries a).2 =
    Quarantine.rejects ∅ ((liveDigests a).filterMap (w.rejectedEntry a)) := by
  rw [parseEntries_eq]

theorem Loads.rejections (loads : w.Loads a t) (free : w.CollisionFree) :
    ∃ rejections, t.promoted.1.1 = Quarantine.rejects ∅ rejections ∧
      ∀ d codes, (d, codes) ∈ rejections ↔ w.Rejected a t d codes := by
  obtain ⟨first, equal₁, members₁⟩ := (loads.signs free).quarantine
  obtain ⟨second, equal₂, members₂⟩ := (loads.checked_spec free).quarantine
  obtain ⟨third, equal₃, members₃⟩ := (loads.decided_spec free).quarantine
  obtain ⟨fourth, equal₄, members₄⟩ := (loads.required_spec free).quarantine
  obtain ⟨fifth, equal₅, members₅⟩ := (loads.promoted_spec free).quarantine
  rw [equal₅, equal₄, equal₃, rejectUnsigned_eq, equal₂, equal₁, parseEntries_quarantine]
  simp only [← Quarantine.rejects_append]
  refine ⟨_, rfl, fun d codes => ?_⟩
  simp only [List.mem_append, mem_parse_rejections, members₁, members₂, members₃, members₄,
    members₅, List.mem_map, List.mem_filter]
  constructor
  · rintro ((((((⟨live, bad⟩ | ⟨j, outcome, codes⟩) | ⟨some, x, listed, own, document, verdict⟩) |
      ⟨⟨e, document⟩, ⟨listed, plain⟩, equal⟩) | ⟨some, decision, listed, verdict⟩) |
      ⟨some, x, listed, own, document, verdict⟩) | ⟨some, x, listed, own, document, verdict⟩)
    · exact .entry live bad
    · exact .statement outcome codes
    · exact .subject listed own some verdict
    · cases equal
      exact .unsigned listed plain
    · exact .decision listed some verdict
    · cases Except.ok.inj verdict
      exact .quorum listed own some
    · exact .projection listed own some verdict
  · intro rejected
    cases rejected with
    | entry live bad => simp [live, bad]
    | statement outcome codes => grind
    | subject listed own some verdict => grind
    | «unsigned» listed plain => grind
    | decision listed some verdict => grind
    | quorum listed own some =>
      exact .inl (.inr ⟨some, _, listed, own, none, rfl⟩)
    | projection listed own some verdict => grind

end loads

end Authority

end CollectivePhaseControl
