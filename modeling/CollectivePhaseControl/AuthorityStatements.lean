import CollectivePhaseControl.AuthorityPasses

/-! The pass over signed statements. What each statement comes to does not depend on the
others, and the pass leaves behind exactly what the statements come to. -/
namespace CollectivePhaseControl

namespace Authority.Judgement

def codes : Judgement → Option (List String)
  | unreadable => some ["signed_statement_payload_invalid"]
  | unverified verification => some verification.reasons
  | lapsed _ codes => some codes
  | admitted .. => none

def signer : Judgement → Option VerificationResult
  | lapsed verification _ => some verification
  | admitted verification _ => some verification
  | _ => none

def subject : Judgement → Option Document
  | admitted _ subject => some subject
  | _ => none

/-- An envelope whose payload was read is recorded, whatever follows. -/
def kept (envelope : DsseEnvelope) : Judgement → Option DsseEnvelope
  | unreadable => none
  | _ => some envelope

end Authority.Judgement

namespace Authority
variable (w : Authority) (a : LoadArguments)

def Parses (d : Document) : Prop := ∃ members, w.parse members = .ok d

def CollisionFree : Prop :=
  ∀ d e, w.Parses d → w.Parses e → w.document d = w.document e → d = e

/-- What the statement in an envelope comes to, if judging it does not raise. -/
def Judged (envelope : DsseEnvelope) (j : Judgement) : Prop := w.judgeStatement a envelope = .ok j

variable {w a}

theorem Judged.unique {envelope : DsseEnvelope} {j k : Judgement} (first : w.Judged a envelope j)
    (second : w.Judged a envelope k) : j = k := by
  unfold Judged at first second
  rw [first] at second
  exact Except.ok.inj second

variable (w a)

def Outcome (done : List (Digest × DsseEnvelope)) (statement : Digest) (j : Judgement) : Prop :=
  ∃ envelope, (statement, envelope) ∈ done ∧ w.Judged a envelope j

def Admits (done : List (Digest × DsseEnvelope)) (statement : Digest) (subject : Document) : Prop :=
  ∃ j, w.Outcome a done statement j ∧ j.subject = some subject

variable {w a} in
theorem Outcome.mem_keys {done : List (Digest × DsseEnvelope)} {d : Digest} {j : Judgement}
    (outcome : w.Outcome a done d j) : d ∈ done.map Prod.fst := by
  obtain ⟨envelope, listed, -⟩ := outcome
  exact List.mem_map.mpr ⟨_, listed, rfl⟩

variable {w a} in
theorem outcome_snoc {done : List (Digest × DsseEnvelope)} {d digest : Digest}
    {envelope : DsseEnvelope} {j k : Judgement} (judged : w.Judged a envelope k) :
    w.Outcome a (done ++ [(digest, envelope)]) d j ↔
      w.Outcome a done d j ∨ d = digest ∧ j = k := by
  unfold Outcome
  constructor
  · rintro ⟨e, listed, verdict⟩
    rcases List.mem_append.mp listed with old | new
    · exact .inl ⟨e, old, verdict⟩
    · cases List.mem_singleton.mp new
      exact .inr ⟨rfl, verdict.unique judged⟩
  · rintro (⟨e, old, verdict⟩ | ⟨rfl, rfl⟩)
    · exact ⟨e, List.mem_append_left _ old, verdict⟩
    · exact ⟨envelope, List.mem_append_right _ (List.mem_singleton_self _), judged⟩

variable {w a} in
theorem admits_snoc {done : List (Digest × DsseEnvelope)} {d digest : Digest}
    {envelope : DsseEnvelope} {k : Judgement} {subject : Document}
    (judged : w.Judged a envelope k) :
    w.Admits a (done ++ [(digest, envelope)]) d subject ↔
      w.Admits a done d subject ∨ d = digest ∧ k.subject = some subject := by
  unfold Admits
  simp only [outcome_snoc judged]
  grind

theorem mem_statementsOf {parsed : List (Digest × Document)} {digest : Digest}
    {envelope : DsseEnvelope} : (digest, envelope) ∈ statementsOf parsed ↔
      ∃ document, (digest, document) ∈ parsed ∧ document.spec = .signedStatement envelope := by
  simp only [statementsOf, List.mem_filterMap]
  constructor
  · rintro ⟨⟨d, document⟩, listed, found⟩
    dsimp only at found
    split at found
    · rename_i shape
      cases found
      exact ⟨document, listed, shape⟩
    · cases found
  · rintro ⟨document, listed, shape⟩
    exact ⟨(digest, document), listed, by simp [shape]⟩

theorem mem_decisionsOf {parsed : List (Digest × Document)} {digest : Digest}
    {decision : QuorumDecisionDocument} : (digest, decision) ∈ decisionsOf parsed ↔
      (digest, decision.document .quorumDecision) ∈ parsed := by
  simp only [decisionsOf, List.mem_filterMap]
  constructor
  · rintro ⟨⟨d, document⟩, listed, found⟩
    dsimp only at found
    split at found
    · cases found
      exact listed
    · cases found
  · intro listed
    exact ⟨_, listed, rfl⟩

section subjects
variable {digest statement : Digest} {subject : Document} {subjects : List SignedSubject}

theorem digests_addSubject : (addSubject digest subject statement subjects).map (·.digest) =
    if digest ∈ subjects.map (·.digest) then subjects.map (·.digest)
    else subjects.map (·.digest) ++ [digest] := by
  fun_induction addSubject digest subject statement subjects with
  | case1 => simp
  | case2 s rest same => simp [same]
  | case3 s rest other ih =>
    rw [List.map_cons, List.map_cons, ih]
    by_cases member : digest ∈ rest.map (·.digest)
    · rw [if_pos member, if_pos (List.mem_cons_of_mem _ member)]
    · rw [if_neg member, if_neg (List.not_mem_cons_of_ne_of_not_mem (Ne.symm other) member)]
      rfl

theorem filterMap_addSubject {β : Type} (f : Document → Option β) :
    (addSubject digest subject statement subjects).filterMap (fun x => f x.subject) =
      if digest ∈ subjects.map (·.digest) then subjects.filterMap (fun x => f x.subject)
      else subjects.filterMap (fun x => f x.subject) ++ (f subject).toList := by
  fun_induction addSubject digest subject statement subjects with
  | case1 => cases found : f subject <;> simp [found]
  | case2 s rest same => simp [same, List.filterMap_cons]
  | case3 s rest other ih =>
    rw [List.filterMap_cons, List.filterMap_cons, List.map_cons, ih]
    by_cases member : digest ∈ rest.map (·.digest)
    · rw [if_pos member, if_pos (List.mem_cons_of_mem _ member)]
    · rw [if_neg member, if_neg (List.not_mem_cons_of_ne_of_not_mem (Ne.symm other) member)]
      cases f s.subject <;> rfl

theorem mem_addSubject (distinct : (subjects.map (·.digest)).Nodup) {x : SignedSubject} :
    x ∈ addSubject digest subject statement subjects ↔
      (x ∈ subjects ∧ x.digest ≠ digest) ∨
      (∃ y ∈ subjects, y.digest = digest ∧ x = { y with statements := y.statements ++ [statement] }) ∨
      (digest ∉ subjects.map (·.digest) ∧ x = ⟨digest, subject, [statement]⟩) := by
  fun_induction addSubject digest subject statement subjects with
  | case1 => simp
  | case2 s rest same =>
    have fresh := (List.nodup_cons.mp distinct).1
    have others : ∀ y ∈ rest, y.digest ≠ digest := by
      rintro y listed rfl
      exact fresh (List.mem_map.mpr ⟨y, listed, same.symm⟩)
    grind
  | case3 s rest other ih =>
    rw [List.mem_cons, ih (List.nodup_cons.mp distinct).2]
    grind

end subjects

/-- The source envelope that a subject is. -/
def sourceEnvelope (subject : Document) : Option SourceArtifactEnvelope :=
  match subject with
  | ⟨metadata, extensions, .sourceArtifactEnvelope spec⟩ => some ⟨metadata, extensions, spec⟩
  | _ => none

section record
variable {w : Authority} {s : Signing} {digest : Digest} {envelope : DsseEnvelope} {j : Judgement}

theorem recordStatement_quarantine : (w.recordStatement s digest envelope j).quarantine =
    s.quarantine.rejects (j.codes.map (digest, ·)).toList := by
  cases j <;> rfl

theorem recordStatement_envelopes : (w.recordStatement s digest envelope j).statementEnvelopes =
    assignSome s.statementEnvelopes digest (j.kept envelope) := by
  cases j <;> rfl

theorem recordStatement_principals : (w.recordStatement s digest envelope j).principals =
    assignSome s.principals digest (j.signer.bind (·.principalId)) := by
  cases j <;> rfl

theorem recordStatement_roles : (w.recordStatement s digest envelope j).roles =
    assignSome s.roles digest (j.signer.bind (·.role)) := by
  cases j <;> rfl

theorem recordStatement_subjects : (w.recordStatement s digest envelope j).subjects =
    match j.subject with
    | some subject => addSubject (w.document subject) subject digest s.subjects
    | none => s.subjects := by
  cases j <;> rfl

theorem recordStatement_sources : (w.recordStatement s digest envelope j).sourceEnvelopes =
    match j.subject with
    | some subject => w.addSource (w.document subject) subject s.sourceEnvelopes
    | none => s.sourceEnvelopes := by
  cases j <;> rfl

theorem getElem?_assignSome {α : Type} {m : Dict α} {key d : Digest} {value : Option α} {v : α}
    (fresh : m[key]? = none) :
    (assignSome m key value)[d]? = some v ↔ m[d]? = some v ∨ d = key ∧ value = some v := by
  cases value with
  | none => simp [assignSome]
  | some value =>
    by_cases same : d = key
    · simp [assignSome, same, fresh]
    · have other : compare key d ≠ .eq := by simpa using Ne.symm same
      simp [assignSome, Std.ExtTreeMap.getElem?_insert, same, other]

end record

/-- What the pass over a list of statements leaves behind. -/
structure Signs (q : Quarantine) (done : List (Digest × DsseEnvelope)) (s : Signing) : Prop where
  judged : ∀ p ∈ done, ∃ j, w.Judged a p.2 j
  quarantine : ∃ rejections, s.quarantine = q.rejects rejections ∧ ∀ d codes,
    (d, codes) ∈ rejections ↔ ∃ j, w.Outcome a done d j ∧ j.codes = some codes
  envelopes : ∀ d envelope, s.statementEnvelopes[d]? = some envelope ↔
    ∃ j, (d, envelope) ∈ done ∧ w.Judged a envelope j ∧ j.kept envelope = some envelope
  principals : ∀ d p, s.principals[d]? = some p ↔
    ∃ j, w.Outcome a done d j ∧ j.signer.bind (·.principalId) = some p
  roles : ∀ d r, s.roles[d]? = some r ↔
    ∃ j, w.Outcome a done d j ∧ j.signer.bind (·.role) = some r
  distinct : (s.subjects.map (·.digest)).Nodup
  own : ∀ x ∈ s.subjects, x.digest = w.document x.subject ∧ ∃ d, w.Admits a done d x.subject
  statements : ∀ x ∈ s.subjects, ∀ d, d ∈ x.statements ↔
    ∃ subject, w.Admits a done d subject ∧ w.document subject = x.digest
  once : ∀ x ∈ s.subjects, x.statements.Nodup
  found : ∀ d subject, w.Admits a done d subject →
    ∃ x ∈ s.subjects, x.digest = w.document subject
  sources : s.sourceEnvelopes = s.subjects.filterMap fun x => sourceEnvelope x.subject

variable {w a}

theorem sourceEnvelope_eq_some {subject : Document} {source : SourceArtifactEnvelope} :
    sourceEnvelope subject = some source ↔ subject = source.document .sourceArtifactEnvelope := by
  unfold sourceEnvelope
  constructor
  · intro found
    split at found
    · cases found
      rfl
    · cases found
  · rintro rfl
    rfl

theorem decode_parses {envelope : DsseEnvelope} {bytes : Bytes} {payload : SignedPayload}
    {subject : Document} (decoded : w.decode envelope = .ok (bytes, payload, subject)) :
    w.Parses subject := by
  simp only [decode, bind_ok, pure_ok] at decoded
  obtain ⟨_, -, _, -, payload, -, document, parsed, equal⟩ := decoded
  cases equal
  exact ⟨_, parsed⟩

theorem judged_admitted {envelope : DsseEnvelope} {v : VerificationResult} {subject : Document} :
    w.Judged a envelope (.admitted v subject) ↔ ∃ bytes payload,
      w.decode envelope = .ok (bytes, payload, subject) ∧
      w.verifyStatement a envelope subject = .ok v ∧ v.valid = true ∧
      lifecycleReasons subject a.evaluationTime = .ok [] := by
  unfold Judged judgeStatement
  cases decoded : w.decode envelope with
  | error e => simp [pure_ok]
  | ok found =>
    obtain ⟨bytes, payload, d⟩ := found
    simp only [bind_ok]
    constructor
    · rintro ⟨v', verified, rest⟩
      split at rest
      · cases Except.ok.inj rest
      · rename_i valid
        obtain ⟨codes, clean, rest⟩ := bind_ok.mp rest
        split at rest
        · cases Except.ok.inj rest
        · rename_i none
          cases Except.ok.inj rest
          rw [not_not.mp none] at clean
          exact ⟨bytes, payload, rfl, verified, by simpa using valid, clean⟩
    · rintro ⟨_, _, equal, verified, valid, clean⟩
      cases Except.ok.inj equal
      exact ⟨v, verified, by simp [valid, clean, ok_bind, pure, Except.pure]⟩

theorem subject_eq_some {j : Judgement} {subject : Document} :
    j.subject = some subject ↔ ∃ v, j = .admitted v subject := by
  cases j <;> simp [Judgement.subject]

theorem parses_of_judged {envelope : DsseEnvelope} {j : Judgement} {subject : Document}
    (judged : w.Judged a envelope j) (shape : j.subject = some subject) : w.Parses subject := by
  obtain ⟨v, rfl⟩ := subject_eq_some.mp shape
  obtain ⟨bytes, payload, decoded, -⟩ := judged_admitted.mp judged
  exact decode_parses decoded

theorem Admits.parses {done : List (Digest × DsseEnvelope)} {d : Digest} {subject : Document}
    (admits : w.Admits a done d subject) : w.Parses subject := by
  obtain ⟨j, ⟨envelope, -, judged⟩, shape⟩ := admits
  exact parses_of_judged judged shape

theorem addSource_eq {digest : Digest} {subject : Document}
    {sources : List SourceArtifactEnvelope} :
    w.addSource digest subject sources =
      if ∃ item ∈ sources, w.document (item.document .sourceArtifactEnvelope) = digest
      then sources else sources ++ (sourceEnvelope subject).toList := by
  cases found : sourceEnvelope subject with
  | some source =>
    cases sourceEnvelope_eq_some.mp found
    simp [addSource, Typed.document]
    rfl
  | none =>
    have other : ∀ spec, subject.spec ≠ .sourceArtifactEnvelope spec := by
      intro spec shape
      have equal : sourceEnvelope subject = some ⟨subject.metadata, subject.extensions, spec⟩ := by
        rw [sourceEnvelope_eq_some, Typed.document, ← shape]
      rw [found] at equal
      cases equal
    unfold addSource
    split
    · exact absurd ‹_› (other _)
    · simp

section snoc
variable {q : Quarantine} {done : List (Digest × DsseEnvelope)} {s : Signing} {digest : Digest}
  {envelope : DsseEnvelope} {j : Judgement}

theorem Signs.subject_parses (signs : w.Signs a q done s) {x : SignedSubject}
    (listed : x ∈ s.subjects) : w.Parses x.subject := by
  obtain ⟨-, d, admits⟩ := signs.own x listed
  exact admits.parses

theorem Signs.mem_subjects (signs : w.Signs a q done s) {x : SignedSubject} :
    x ∈ (w.recordStatement s digest envelope j).subjects ↔
      (x ∈ s.subjects ∧ ∀ subject, j.subject = some subject → x.digest ≠ w.document subject) ∨
      ∃ subject, j.subject = some subject ∧
        ((∃ y ∈ s.subjects, y.digest = w.document subject ∧
          x = { y with statements := y.statements ++ [digest] }) ∨
        w.document subject ∉ s.subjects.map (·.digest) ∧
          x = ⟨w.document subject, subject, [digest]⟩) := by
  rw [recordStatement_subjects]
  cases shape : j.subject with
  | none => simp
  | some subject => simp [mem_addSubject signs.distinct]

theorem Signs.snoc (free : w.CollisionFree) (signs : w.Signs a q done s)
    (fresh : digest ∉ done.map Prod.fst) (judged : w.Judged a envelope j) :
    w.Signs a q (done ++ [(digest, envelope)]) (w.recordStatement s digest envelope j) where
  judged p listed := by
    rcases List.mem_append.mp listed with old | new
    · exact signs.judged p old
    · rw [List.mem_singleton.mp new]
      exact ⟨j, judged⟩
  quarantine := by
    obtain ⟨rejections, equal, members⟩ := signs.quarantine
    refine ⟨rejections ++ (j.codes.map (digest, ·)).toList, ?_, fun d codes => ?_⟩
    · rw [recordStatement_quarantine, equal, Quarantine.rejects_append]
    · simp only [List.mem_append, members, outcome_snoc judged, Option.mem_toList,
        Option.map_eq_some_iff, Prod.mk.injEq]
      grind
  envelopes d e := by
    have absent : s.statementEnvelopes[digest]? = none := by
      rw [Option.eq_none_iff_forall_ne_some]
      intro e found
      obtain ⟨_, listed, -⟩ := (signs.envelopes _ _).mp found
      exact fresh (List.mem_map.mpr ⟨_, listed, rfl⟩)
    rw [recordStatement_envelopes, getElem?_assignSome absent, signs.envelopes]
    simp only [List.mem_append, List.mem_singleton, Prod.mk.injEq]
    constructor
    · rintro (⟨k, listed, verdict, kept⟩ | ⟨rfl, kept⟩)
      · exact ⟨k, .inl listed, verdict, kept⟩
      · have same : envelope = e := by
          cases j <;> simp_all [Judgement.kept]
        subst same
        exact ⟨j, .inr ⟨rfl, rfl⟩, judged, kept⟩
    · rintro ⟨k, listed | ⟨rfl, rfl⟩, verdict, kept⟩
      · exact .inl ⟨k, listed, verdict, kept⟩
      · rw [verdict.unique judged] at kept
        exact .inr ⟨rfl, kept⟩
  principals d p := by
    have absent : s.principals[digest]? = none := by
      rw [Option.eq_none_iff_forall_ne_some]
      intro p found
      obtain ⟨_, outcome, -⟩ := (signs.principals _ _).mp found
      exact fresh outcome.mem_keys
    rw [recordStatement_principals, getElem?_assignSome absent, signs.principals]
    simp only [outcome_snoc judged]
    grind
  roles d r := by
    have absent : s.roles[digest]? = none := by
      rw [Option.eq_none_iff_forall_ne_some]
      intro p found
      obtain ⟨_, outcome, -⟩ := (signs.roles _ _).mp found
      exact fresh outcome.mem_keys
    rw [recordStatement_roles, getElem?_assignSome absent, signs.roles]
    simp only [outcome_snoc judged]
    grind
  distinct := by
    rw [recordStatement_subjects]
    cases j.subject with
    | none => exact signs.distinct
    | some subject =>
      rw [digests_addSubject]
      split
      · exact signs.distinct
      · rename_i new
        exact signs.distinct.append (List.nodup_singleton _) (by simpa using new)
  own x listed := by
    simp only [admits_snoc judged]
    rcases signs.mem_subjects.mp listed with ⟨old, -⟩ | ⟨subject, shape, ⟨y, old, -, rfl⟩ | ⟨-, rfl⟩⟩
    · obtain ⟨own, d, admits⟩ := signs.own x old
      exact ⟨own, d, .inl admits⟩
    · obtain ⟨own, d, admits⟩ := signs.own y old
      exact ⟨own, d, .inl admits⟩
    · exact ⟨rfl, digest, .inr ⟨rfl, shape⟩⟩
  statements x listed d := by
    simp only [admits_snoc judged]
    rcases signs.mem_subjects.mp listed with
      ⟨old, other⟩ | ⟨subject, shape, ⟨y, old, same, rfl⟩ | ⟨new, rfl⟩⟩
    · rw [signs.statements x old]
      grind
    · rw [List.mem_append, signs.statements y old, List.mem_singleton]
      grind
    · have unknown : ∀ d subject', w.Admits a done d subject' →
          w.document subject' ≠ w.document subject := by
        intro d subject' admits equal
        obtain ⟨x, listed, own⟩ := signs.found d subject' admits
        exact new (List.mem_map.mpr ⟨x, listed, own.trans equal⟩)
      rw [List.mem_singleton]
      grind
  once x listed := by
    rcases signs.mem_subjects.mp listed with ⟨old, -⟩ | ⟨subject, -, ⟨y, old, -, rfl⟩ | ⟨-, rfl⟩⟩
    · exact signs.once x old
    · refine (signs.once y old).append (List.nodup_singleton _) ?_
      rw [List.disjoint_singleton]
      intro member
      obtain ⟨_, ⟨_, outcome, -⟩, -⟩ := (signs.statements y old digest).mp member
      exact fresh outcome.mem_keys
    · exact List.nodup_singleton _
  found d subject admits := by
    have digests : ∀ e ∈ s.subjects.map (·.digest),
        e ∈ (w.recordStatement s digest envelope j).subjects.map (·.digest) := by
      intro e member
      rw [recordStatement_subjects]
      cases j.subject with
      | none => exact member
      | some subject =>
        rw [digests_addSubject]
        split
        · exact member
        · exact List.mem_append_left _ member
    rcases (admits_snoc judged).mp admits with old | ⟨rfl, shape⟩
    · obtain ⟨x, listed, own⟩ := signs.found d subject old
      have member := digests x.digest (List.mem_map.mpr ⟨x, listed, rfl⟩)
      obtain ⟨y, listed', same⟩ := List.mem_map.mp member
      exact ⟨y, listed', same.trans own⟩
    · by_cases member : w.document subject ∈ s.subjects.map (·.digest)
      · obtain ⟨y, listed', same⟩ := List.mem_map.mp (digests _ member)
        exact ⟨y, listed', same⟩
      · exact ⟨_, signs.mem_subjects.mpr (.inr ⟨subject, shape, .inr ⟨member, rfl⟩⟩), rfl⟩
  sources := by
    rw [recordStatement_subjects, recordStatement_sources]
    cases shape : j.subject with
    | none => exact signs.sources
    | some subject =>
      dsimp only
      rw [filterMap_addSubject, addSource_eq, signs.sources]
      cases found : sourceEnvelope subject with
      | none => simp
      | some source =>
        -- Without collisions a subject known by this digest is this very source envelope.
        have known : (∃ item ∈ s.subjects.filterMap fun x => sourceEnvelope x.subject,
            w.document (item.document .sourceArtifactEnvelope) = w.document subject) ↔
            w.document subject ∈ s.subjects.map (·.digest) := by
          simp only [List.mem_filterMap, List.mem_map]
          constructor
          · rintro ⟨item, ⟨x, listed, shaped⟩, same⟩
            rw [← sourceEnvelope_eq_some.mp shaped, ← (signs.own x listed).1] at same
            exact ⟨x, listed, same⟩
          · rintro ⟨x, listed, same⟩
            have equal : x.subject = subject :=
              free _ _ (signs.subject_parses listed) (parses_of_judged judged shape)
                ((signs.own x listed).1.symm.trans same)
            refine ⟨source, ⟨x, listed, by rw [equal, found]⟩, ?_⟩
            rw [← sourceEnvelope_eq_some.mp found]
        simp only [known]

end snoc

theorem Signs.start (q : Quarantine) : w.Signs a q [] ⟨q, ∅, [], ∅, ∅, []⟩ where
  judged := by simp
  quarantine := ⟨[], rfl, by simp [Outcome]⟩
  envelopes := by simp
  principals := by simp [Outcome]
  roles := by simp [Outcome]
  distinct := List.nodup_nil
  own := by simp
  statements := by simp
  once := by simp
  found := by simp [Admits, Outcome]
  sources := rfl

theorem sublist_keys {α β : Type} {f : Digest × α → Option (Digest × β)}
    (same : ∀ p q, f p = some q → q.1 = p.1) (xs : List (Digest × α)) :
    ((xs.filterMap f).map Prod.fst).Sublist (xs.map Prod.fst) := by
  induction xs with
  | nil => exact .slnil
  | cons p xs ih =>
    rw [List.filterMap_cons]
    cases found : f p with
    | none => exact ih.cons _
    | some q =>
      rw [List.map_cons, List.map_cons, same p q found]
      exact ih.cons_cons _

theorem nodup_statementsOf {parsed : List (Digest × Document)}
    (distinct : (parsed.map Prod.fst).Nodup) : ((statementsOf parsed).map Prod.fst).Nodup := by
  apply distinct.sublist (sublist_keys _ parsed)
  rintro ⟨digest, document⟩ q found
  dsimp only at found
  split at found
  · cases found
    rfl
  · cases found

theorem signStatements_ok (free : w.CollisionFree) {parsed : List (Digest × Document)}
    {q : Quarantine} {s : Signing} (distinct : (parsed.map Prod.fst).Nodup)
    (run : w.signStatements a parsed q = .ok s) : w.Signs a q (statementsOf parsed) s := by
  refine foldlM_invariant (fun done s => (done.map Prod.fst).Nodup → w.Signs a q done s)
    ?_ (fun _ => Signs.start q) run (nodup_statementsOf distinct)
  intro done x s t signs step distinct
  obtain ⟨j, judged, rfl⟩ := map_ok.mp step
  rw [List.map_append, List.nodup_append] at distinct
  obtain ⟨prior, -, apart⟩ := distinct
  refine (signs prior).snoc free (fun old => ?_) judged
  exact apart _ old _ (List.mem_singleton_self _) rfl

theorem signStatements_total {parsed : List (Digest × Document)} {q : Quarantine} :
    (∃ s, w.signStatements a parsed q = .ok s) ↔
      ∀ p ∈ statementsOf parsed, ∃ j, w.Judged a p.2 j := by
  unfold signStatements
  simp only [foldlM_record_ok]
  constructor
  · rintro ⟨_, _, both, -⟩ p listed
    obtain ⟨j, -, judged⟩ := forall₂_mem_left both p listed
    exact ⟨j, judged⟩
  · intro each
    obtain ⟨js, both⟩ := exists_forall₂ each
    exact ⟨_, js, both, rfl⟩

end Authority

end CollectivePhaseControl
