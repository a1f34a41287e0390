import CollectivePhaseControl.AuthorityScopes
import CollectivePhaseControl.LinkedChains

/-! One ledger in two orders. The dictionaries of the loader keep the order of the ledger, but
every pass asks them for members and numbers only; the order is seen where an object is listed
twice and where audit events of one instant are sorted. -/
namespace CollectivePhaseControl

def LoadArguments.reordered (a : LoadArguments) (ledger : List LedgerEntry) (digest : Digest) :
    LoadArguments :=
  { a with generation := { a.generation with spec := { a.generation.spec with
      ledger := ledger
      generationDigest := digest } } }

/-- No object is listed both as one to parse and as one to leave alone. -/
def LoadArguments.Unambiguous (a : LoadArguments) : Prop :=
  ∀ e ∈ a.generation.spec.ledger, ∀ f ∈ a.generation.spec.ledger,
    e.objectDigest = f.objectDigest → (e.Live ↔ f.Live)

section entries
variable {α : Type} {entries : List (Digest × α)} {key : Digest} {value : α}

theorem mem_assign {p : Digest × α} (member : p ∈ assign entries key value) :
    p = (key, value) ∨ p ∈ entries := by
  fun_induction assign entries key value with
  | case1 => simpa using member
  | case2 =>
    rcases List.mem_cons.mp member with here | rest
    · exact .inl (by simpa using here)
    · exact .inr (List.mem_cons_of_mem _ rest)
  | case3 k old rest key value other ih =>
    rcases List.mem_cons.mp member with rfl | later
    · exact .inr List.mem_cons_self
    · exact (ih later).imp_right (List.mem_cons_of_mem _)

end entries

namespace LoadArguments
variable {a : LoadArguments}

theorem mem_entries {p : Digest × LedgerEntry} (member : p ∈ a.entries) :
    p.2 ∈ a.generation.spec.ledger ∧ p.1 = p.2.objectDigest := by
  have fold : ∀ (items : List LedgerEntry) (entries : List (Digest × LedgerEntry)),
      p ∈ items.foldl (fun entries item => assign entries item.objectDigest item) entries →
      p ∈ entries ∨ p.2 ∈ items ∧ p.1 = p.2.objectDigest := by
    intro items
    induction items with
    | nil => exact fun _ member => .inl member
    | cons item items ih =>
      intro entries member
      rcases ih _ member with before | ⟨later, own⟩
      · rcases mem_assign before with rfl | old
        · exact .inr ⟨List.mem_cons_self, rfl⟩
        · exact .inl old
      · exact .inr ⟨List.mem_cons_of_mem _ later, own⟩
  rcases fold _ _ member with none | both
  · cases none
  · exact both

theorem keys_entries {d : Digest} : d ∈ a.entries.map Prod.fst ↔
    d ∈ a.generation.spec.ledger.map (·.objectDigest) := by
  have fold : ∀ (items : List LedgerEntry) (entries : List (Digest × LedgerEntry)),
      d ∈ (items.foldl (fun entries item => assign entries item.objectDigest item) entries).map
        Prod.fst ↔ d ∈ entries.map Prod.fst ∨ d ∈ items.map (·.objectDigest) := by
    intro items
    induction items with
    | nil => simp
    | cons item items ih =>
      intro entries
      rw [List.foldl_cons, ih, keys_assign, List.map_cons, List.mem_cons]
      split
      · grind
      · rw [List.mem_append, List.mem_singleton, or_assoc]
  rw [entries, fold]
  simp

theorem Unambiguous.mem_live (clear : a.Unambiguous) {d : Digest} :
    d ∈ Authority.liveDigests a ↔
      ∃ e ∈ a.generation.spec.ledger, e.objectDigest = d ∧ e.Live := by
  simp only [Authority.liveDigests, List.mem_map, List.mem_filter, decide_eq_true_eq]
  constructor
  · rintro ⟨p, ⟨member, live⟩, rfl⟩
    obtain ⟨listed, own⟩ := mem_entries member
    exact ⟨p.2, listed, own.symm, live⟩
  · rintro ⟨e, listed, rfl, live⟩
    obtain ⟨p, member, same⟩ := List.mem_map.mp
      (keys_entries.mpr (List.mem_map.mpr ⟨e, listed, rfl⟩))
    obtain ⟨listed', own⟩ := mem_entries member
    exact ⟨p, ⟨member, (clear _ listed' _ listed (own.symm.trans same)).mpr live⟩, same⟩

theorem nodup_live (a : LoadArguments) : (Authority.liveDigests a).Nodup :=
  a.nodup_entries.sublist (List.filter_sublist.map _)

variable {ledger : List LedgerEntry} {digest : Digest}

theorem Unambiguous.reordered (clear : a.Unambiguous)
    (same : ledger.Perm a.generation.spec.ledger) : (a.reordered ledger digest).Unambiguous :=
  fun e first f second => clear e (same.subset first) f (same.subset second)

theorem Unambiguous.live_perm (clear : a.Unambiguous)
    (same : ledger.Perm a.generation.spec.ledger) :
    (Authority.liveDigests (a.reordered ledger digest)).Perm (Authority.liveDigests a) := by
  refine (List.perm_ext_iff_of_nodup (nodup_live _) (nodup_live _)).mpr fun d => ?_
  rw [(clear.reordered same).mem_live, clear.mem_live]
  exact exists_congr fun e => and_congr_left' same.mem_iff

end LoadArguments

namespace Authority
variable {w : Authority} {a : LoadArguments} {ledger : List LedgerEntry} {digest : Digest}

theorem entryReasons_reordered (same : ledger.Perm a.generation.spec.ledger)
    (entry : LedgerEntry) :
    w.entryReasons (a.reordered ledger digest) entry = w.entryReasons a entry := by
  have known : entry.sourceDigests.filter (· ∉ ledger.map (·.objectDigest)) =
      entry.sourceDigests.filter (· ∉ a.generation.spec.ledger.map (·.objectDigest)) := by
    refine List.filter_congr fun d _ => ?_
    simp only [(same.map (·.objectDigest)).mem_iff]
  unfold entryReasons
  dsimp only [LoadArguments.reordered, LoadArguments.tenantId] at known ⊢
  rw [known]

theorem validateLedger_ok {reasons : List String} : w.validateLedger a = .ok reasons ↔
    exactInteger a.generation.spec.sequence = .ok () ∧ ∃ checked,
      List.Forall₂ (fun entry codes => w.entryReasons a entry = .ok codes)
        a.generation.spec.ledger checked ∧
      reasons =
        reasonIf (¬ (a.generation.spec.ledger.map (·.objectDigest)).Nodup)
          "ledger_object_digest_duplicate" ++
        reasonIf (a.generation.spec.generationDigest ≠ w.generation a.generation)
          "generation_digest_mismatch" ++ checked.flatten ++
        reasonIf (a.generation.spec.historyHeadDigest ∉
          a.generation.spec.ledger.map (·.objectDigest)) "history_head_missing_from_ledger" := by
  simp only [validateLedger, generationDigest, bind_ok, pure_ok, mapM_ok]
  constructor
  · rintro ⟨_, ⟨_, bounded, rfl⟩, checked, each, rfl⟩
    exact ⟨bounded, checked, each, rfl⟩
  · rintro ⟨bounded, checked, each, rfl⟩
    exact ⟨_, ⟨_, bounded, rfl⟩, checked, each, rfl⟩

theorem validateLedger_reordered (same : ledger.Perm a.generation.spec.ledger)
    (own : w.generation a.generation = a.generation.spec.generationDigest)
    (own' : w.generation (a.reordered ledger digest).generation = digest) {reasons : List String}
    (run : w.validateLedger a = .ok reasons) :
    ∃ reasons', w.validateLedger (a.reordered ledger digest) = .ok reasons' ∧
      ∀ reason, reason ∈ reasons' ↔ reason ∈ reasons := by
  obtain ⟨bounded, checked, each, rfl⟩ := validateLedger_ok.mp run
  obtain ⟨checked', each', perm⟩ := List.perm_comp_forall₂ same each
  have again : List.Forall₂ (fun entry codes =>
      w.entryReasons (a.reordered ledger digest) entry = .ok codes) ledger checked' := by
    simpa only [entryReasons_reordered same] using each'
  refine ⟨_, validateLedger_ok.mpr ⟨bounded, checked', again, rfl⟩, fun reason => ?_⟩
  have known : (ledger.map (·.objectDigest)).Perm
      (a.generation.spec.ledger.map (·.objectDigest)) := same.map _
  have listed : (a.reordered ledger digest).generation.spec.ledger = ledger := rfl
  have head : (a.reordered ledger digest).generation.spec.historyHeadDigest =
      a.generation.spec.historyHeadDigest := rfl
  have consistent : (a.reordered ledger digest).generation.spec.generationDigest =
      w.generation (a.reordered ledger digest).generation := own'.symm
  simp only [List.mem_append, mem_reasonIf, own, consistent, listed, head, known.nodup_iff,
    known.mem_iff, perm.flatten.mem_iff, ne_eq, not_true_eq_false, false_and, or_false]

theorem parsed_perm (w : Authority) (digest : Digest) (clear : a.Unambiguous)
    (same : ledger.Perm a.generation.spec.ledger) :
    (w.parseEntries (a.reordered ledger digest)).1.Perm (w.parseEntries a).1 := by
  rw [parseEntries_eq, parseEntries_eq]
  exact (clear.live_perm same).filterMap _

theorem parsed_quarantine (w : Authority) (digest : Digest) (clear : a.Unambiguous)
    (same : ledger.Perm a.generation.spec.ledger) :
    (w.parseEntries (a.reordered ledger digest)).2 = (w.parseEntries a).2 := by
  rw [parseEntries_eq, parseEntries_eq]
  exact Quarantine.rejects_congr _ fun r => ((clear.live_perm same).filterMap _).mem_iff

/-- A subject with the same statements in another order. -/
structure SameSubject (x y : SignedSubject) : Prop where
  digest : y.digest = x.digest
  subject : y.subject = x.subject
  statements : y.statements.Perm x.statements

theorem SameSubject.symm {x y : SignedSubject} (same : SameSubject x y) : SameSubject y x :=
  ⟨same.digest.symm, same.subject.symm, same.statements.symm⟩

structure SameSigning (s r : Signing) : Prop where
  quarantine : r.quarantine = s.quarantine
  statementEnvelopes : r.statementEnvelopes = s.statementEnvelopes
  principals : r.principals = s.principals
  roles : r.roles = s.roles
  forth : ∀ x ∈ s.subjects, ∃ y ∈ r.subjects, SameSubject x y
  back : ∀ y ∈ r.subjects, ∃ x ∈ s.subjects, SameSubject x y
  sourceEnvelopes : r.sourceEnvelopes.Perm s.sourceEnvelopes

section signing
variable {q : Quarantine} {done done' : List (Digest × DsseEnvelope)} {s r : Signing}

theorem outcome_perm (perm : done'.Perm done) {d : Digest} {j : Judgement} :
    w.Outcome a done' d j ↔ w.Outcome a done d j :=
  exists_congr fun _ => and_congr_left' perm.mem_iff

theorem admits_perm (perm : done'.Perm done) {d : Digest} {subject : Document} :
    w.Admits a done' d subject ↔ w.Admits a done d subject :=
  exists_congr fun _ => and_congr_left' (outcome_perm perm)

theorem Signs.forth (free : w.CollisionFree) (signs : w.Signs a q done s)
    (signs' : w.Signs a q done' r) (perm : done'.Perm done) :
    ∀ x ∈ s.subjects, ∃ y ∈ r.subjects, SameSubject x y := by
  intro x listed
  obtain ⟨own, d, admits⟩ := signs.own x listed
  obtain ⟨y, listed', named⟩ := signs'.found d x.subject ((admits_perm perm).mpr admits)
  have digests : y.digest = x.digest := named.trans own.symm
  refine ⟨y, listed', digests, ?_, ?_⟩
  · refine free _ _ (signs'.subject_parses listed') (signs.subject_parses listed) ?_
    rw [← (signs'.own y listed').1, ← own, digests]
  · refine (List.perm_ext_iff_of_nodup (signs'.once y listed') (signs.once x listed)).mpr ?_
    intro d
    rw [signs'.statements y listed', signs.statements x listed, digests]
    exact exists_congr fun _ => and_congr_left' (admits_perm perm)

theorem Signs.nodup_sources (signs : w.Signs a q done s) : s.sourceEnvelopes.Nodup := by
  have subjects : (s.subjects.map (·.subject)).Nodup := by
    refine .of_map w.document ?_
    have digests : (s.subjects.map (·.subject)).map w.document = s.subjects.map (·.digest) := by
      rw [List.map_map]
      exact List.map_congr_left fun x listed => ((signs.own x listed).1).symm
    rw [digests]
    exact signs.distinct
  rw [signs.sources, show (fun x : SignedSubject => sourceEnvelope x.subject) =
    sourceEnvelope ∘ (·.subject) from rfl, ← List.filterMap_map]
  refine subjects.filterMap fun x y source first second => ?_
  rw [Option.mem_def, sourceEnvelope_eq_some] at first second
  rw [first, second]

theorem Signs.same (free : w.CollisionFree) (signs : w.Signs a q done s)
    (signs' : w.Signs a q done' r) (perm : done'.Perm done) : SameSigning s r where
  quarantine := by
    obtain ⟨first, equal, members⟩ := signs.quarantine
    obtain ⟨second, equal', members'⟩ := signs'.quarantine
    rw [equal, equal']
    refine Quarantine.rejects_congr q fun ⟨d, codes⟩ => ?_
    rw [members', members]
    exact exists_congr fun _ => and_congr_left' (outcome_perm perm)
  statementEnvelopes := by
    refine Std.ExtTreeMap.ext_getElem? fun d => Option.ext fun envelope => ?_
    rw [signs'.envelopes, signs.envelopes]
    exact exists_congr fun _ => and_congr_left' perm.mem_iff
  principals := by
    refine Std.ExtTreeMap.ext_getElem? fun d => Option.ext fun principal => ?_
    rw [signs'.principals, signs.principals]
    exact exists_congr fun _ => and_congr_left' (outcome_perm perm)
  roles := by
    refine Std.ExtTreeMap.ext_getElem? fun d => Option.ext fun role => ?_
    rw [signs'.roles, signs.roles]
    exact exists_congr fun _ => and_congr_left' (outcome_perm perm)
  forth := signs.forth free signs' perm
  back y listed := by
    obtain ⟨x, listed', same⟩ := signs'.forth free signs perm.symm y listed
    exact ⟨x, listed', same.symm⟩
  sourceEnvelopes := by
    refine (List.perm_ext_iff_of_nodup signs'.nodup_sources signs.nodup_sources).mpr fun e => ?_
    rw [signs'.mem_sources, signs.mem_sources]
    constructor
    · rintro ⟨y, listed, shape⟩
      obtain ⟨x, listed', same⟩ := signs'.forth free signs perm.symm y listed
      exact ⟨x, listed', same.subject.trans shape⟩
    · rintro ⟨x, listed, shape⟩
      obtain ⟨y, listed', same⟩ := signs.forth free signs' perm x listed
      exact ⟨y, listed', same.subject.trans shape⟩

end signing

structure SameInspection (r r' : Inspection) : Prop where
  quarantine : r'.1.1 = r.1.1
  reasons : ∀ reason, reason ∈ r'.1.2 ↔ reason ∈ r.1.2
  documents : ∀ d, d ∈ r'.2 ↔ d ∈ r.2

section inspect
variable {judge judge' : Quarantine → SignedSubject → Checked Verdict}
  {condemnable condemnable' : SignedSubject → Prop} {findings findings' : Findings}
  {s r : Signing} {result result' : Inspection}

theorem Inspected.same (same : SameSigning s r)
    (verdicts : ∀ x ∈ s.subjects, ∀ y ∈ r.subjects, SameSubject x y →
      judge' findings'.1 y = judge findings.1 x)
    (quarantine : findings'.1 = findings.1)
    (reasons : ∀ reason, reason ∈ findings'.2 ↔ reason ∈ findings.2)
    (first : Inspected judge s.subjects findings result)
    (second : Inspected judge' r.subjects findings' result') : SameInspection result result' where
  quarantine := by
    obtain ⟨rejections, equal, members⟩ := first.quarantine
    obtain ⟨rejections', equal', members'⟩ := second.quarantine
    rw [equal, equal', quarantine]
    refine Quarantine.rejects_congr _ fun ⟨d, codes⟩ => ?_
    rw [members', members]
    refine and_congr_right fun _ => ⟨?_, ?_⟩
    · rintro ⟨y, listed, own, document, verdict⟩
      obtain ⟨x, listed', alike⟩ := same.back y listed
      rw [verdicts x listed' y listed alike] at verdict
      exact ⟨x, listed', alike.statements.subset own, document, verdict⟩
    · rintro ⟨x, listed, own, document, verdict⟩
      obtain ⟨y, listed', alike⟩ := same.forth x listed
      rw [← verdicts x listed y listed' alike] at verdict
      exact ⟨y, listed', alike.statements.symm.subset own, document, verdict⟩
  reasons reason := by
    rw [second.reasons, first.reasons, reasons]
    refine or_congr_right ⟨?_, ?_⟩
    · rintro ⟨y, listed, codes, document, verdict, code, member, rfl⟩
      obtain ⟨x, listed', alike⟩ := same.back y listed
      rw [verdicts x listed' y listed alike] at verdict
      exact ⟨x, listed', codes, document, verdict, code, member, by rw [alike.digest]⟩
    · rintro ⟨x, listed, codes, document, verdict, code, member, rfl⟩
      obtain ⟨y, listed', alike⟩ := same.forth x listed
      rw [← verdicts x listed y listed' alike] at verdict
      exact ⟨y, listed', codes, document, verdict, code, member, by rw [alike.digest]⟩
  documents d := by
    rw [second.documents, first.documents]
    constructor
    · rintro ⟨y, listed, codes, verdict⟩
      obtain ⟨x, listed', alike⟩ := same.back y listed
      rw [verdicts x listed' y listed alike] at verdict
      exact ⟨x, listed', codes, verdict⟩
    · rintro ⟨x, listed, codes, verdict⟩
      obtain ⟨y, listed', alike⟩ := same.forth x listed
      rw [← verdicts x listed y listed' alike] at verdict
      exact ⟨y, listed', codes, verdict⟩

theorem inspectSubjects_same (same : SameSigning s r) (findings findings' : Findings)
    (independent : Independent judge condemnable s.subjects)
    (independent' : Independent judge' condemnable' r.subjects) (distinct : s.subjects.Nodup)
    (distinct' : r.subjects.Nodup)
    (verdicts : ∀ x ∈ s.subjects, ∀ y ∈ r.subjects, SameSubject x y →
      judge' findings'.1 y = judge findings.1 x)
    (quarantine : findings'.1 = findings.1)
    (reasons : ∀ reason, reason ∈ findings'.2 ↔ reason ∈ findings.2)
    (run : inspectSubjects judge s.subjects findings = .ok result) :
    ∃ result', inspectSubjects judge' r.subjects findings' = .ok result' ∧
      SameInspection result result' := by
  have first := inspectSubjects_ok independent distinct run
  obtain ⟨result', run'⟩ := (inspectSubjects_total independent' distinct').mpr fun y listed => by
    obtain ⟨x, listed', alike⟩ := same.back y listed
    obtain ⟨v, verdict⟩ := first.judged x listed'
    exact ⟨v, (verdicts x listed' y listed alike).trans verdict⟩
  exact ⟨result', run', first.same same verdicts quarantine reasons
    (inspectSubjects_ok independent' distinct' run')⟩

end inspect

section verdicts
variable {q : Quarantine} {s r : Signing} {x y : SignedSubject}

theorem SameSigning.checkSubject (same : SameSigning s r) (alike : SameSubject x y) :
    w.checkSubject a r q y = w.checkSubject a s q x := by
  have signer : signerReasons r q y = signerReasons s q x := by
    unfold signerReasons
    rw [alike.subject, same.principals, same.roles]
    split
    · rfl
    · refine reasonIf_congr (not_congr (exists_congr fun d => and_congr_left' ?_)) _
      exact alike.statements.mem_iff
  have artifact : w.artifactReasons a r y.subject = w.artifactReasons a s x.subject := by
    rw [alike.subject]
    unfold artifactReasons
    split
    · rfl
    · unfold validateEvidencePointer
      rw [(same.sourceEnvelopes.filter _).length_eq]
    · rfl
  unfold Authority.checkSubject
  rw [signer, artifact]

theorem SameSigning.judgeDecision (same : SameSigning s r) :
    w.judgeDecision a r q = w.judgeDecision a s q := by
  funext decision
  unfold Authority.judgeDecision heldEnvelopes
  rw [same.statementEnvelopes]

end verdicts

section decisions
variable {judge : QuorumDecisionDocument → Checked (List String)}
  {done done' : List (Digest × QuorumDecisionDocument)} {q : Quarantine} {r r' : Decided}

theorem Settled.same (perm : done'.Perm done) (settled : Settled judge done q r)
    (settled' : Settled judge done' q r') : r'.1 = r.1 ∧ r'.2.Perm r.2 := by
  constructor
  · obtain ⟨rejections, equal, members⟩ := settled.quarantine
    obtain ⟨rejections', equal', members'⟩ := settled'.quarantine
    rw [equal, equal']
    refine Quarantine.rejects_congr q fun ⟨d, codes⟩ => ?_
    rw [members', members]
    exact and_congr_right fun _ => exists_congr fun _ => and_congr_left' perm.mem_iff
  · refine (List.perm_ext_iff_of_nodup (.of_map _ settled'.distinct)
      (.of_map _ settled.distinct)).mpr fun ⟨d, decision⟩ => ?_
    rw [settled'.derived, settled.derived, perm.mem_iff]

end decisions

theorem decisionsOn_perm {derived derived' : List (Digest × QuorumDecisionDocument)}
    (perm : derived'.Perm derived) (decisionType : Identifier) (subject : Digest) :
    (decisionsOn derived' decisionType subject).Perm (decisionsOn derived decisionType subject) :=
  (perm.map _).filter _

theorem requireQuorum_same {derived derived' : List (Digest × QuorumDecisionDocument)}
    (perm : derived'.Perm derived) {q : Quarantine} {x y : SignedSubject}
    (alike : SameSubject x y) : requireQuorum derived' q y = requireQuorum derived q x := by
  unfold requireQuorum quorumFault
  rw [alike.subject, alike.digest]
  split
  · rfl
  · rw [(decisionsOn_perm perm _ _).length_eq]

section projections
variable {q : Quarantine} {s r : Signing}

theorem SameSigning.signedSubject (same : SameSigning s r)
    (distinct : (s.subjects.map (·.digest)).Nodup) (distinct' : (r.subjects.map (·.digest)).Nodup)
    (d : Digest) : signedSubject r.subjects d = signedSubject s.subjects d := by
  refine Option.ext fun document => ?_
  rw [signedSubject_eq_some distinct', signedSubject_eq_some distinct]
  constructor
  · rintro ⟨y, listed, named, shape⟩
    obtain ⟨x, listed', alike⟩ := same.back y listed
    exact ⟨x, listed', alike.digest.symm.trans named, alike.subject.symm.trans shape⟩
  · rintro ⟨x, listed, named, shape⟩
    obtain ⟨y, listed', alike⟩ := same.forth x listed
    exact ⟨y, listed', alike.digest.trans named, alike.subject.trans shape⟩

theorem standing_none {subjects : List SignedSubject} {d : Digest}
    (none' : ∀ x ∈ subjects, x.digest ≠ d) : standing subjects q d = [] := by
  have absent : (subjects.find? fun x => x.digest == d) = none := by
    simpa [List.find?_eq_none] using none'
  rw [standing, absent]

theorem SameSigning.standing (same : SameSigning s r)
    (distinct : (s.subjects.map (·.digest)).Nodup) (distinct' : (r.subjects.map (·.digest)).Nodup)
    (d : Digest) : (standing r.subjects q d).Perm (standing s.subjects q d) := by
  by_cases known : ∃ x ∈ s.subjects, x.digest = d
  · obtain ⟨x, listed, rfl⟩ := known
    obtain ⟨y, listed', alike⟩ := same.forth x listed
    rw [standing_eq distinct listed, ← alike.digest, standing_eq distinct' listed']
    exact alike.statements.filter _
  · push Not at known
    have known' : ∀ y ∈ r.subjects, y.digest ≠ d := by
      intro y listed named
      obtain ⟨x, listed', alike⟩ := same.back y listed
      exact known x listed' (alike.digest.symm.trans named)
    rw [standing_none known, standing_none known']

variable {derived derived' : List (Digest × QuorumDecisionDocument)}

theorem SameSigning.verifierStatements (same : SameSigning s r) {xs ys : List Digest}
    (perm : ys.Perm xs) (producer : Identifier) :
    (verifierStatements r ys producer).Perm (verifierStatements s xs producer) := by
  unfold Authority.verifierStatements
  rw [same.roles, same.principals]
  exact perm.filter _

theorem SameSigning.producerStatements (same : SameSigning s r) {xs ys : List Digest}
    (perm : ys.Perm xs) (producer : Identifier) :
    (producerStatements r ys producer).Perm (producerStatements s xs producer) := by
  unfold Authority.producerStatements
  rw [same.roles, same.principals]
  exact perm.filter _

theorem SameSigning.pendingReasons (same : SameSigning s r)
    (distinct : (s.subjects.map (·.digest)).Nodup) (distinct' : (r.subjects.map (·.digest)).Nodup)
    (perm : derived'.Perm derived) (d : Digest) (p : PendingProjectionSpec) :
    pendingReasons a r q derived' d p = pendingReasons a s q derived d p := by
  have standing := fun d => same.standing (q := q) distinct distinct' d
  have receipt : ∀ d, receiptReasons r q d = receiptReasons s q d := by
    intro d
    unfold receiptReasons
    rw [same.signedSubject distinct distinct', same.principals]
    split
    · exact reasonIf_congr (not_congr (exists_congr fun _ =>
        and_congr_left' (standing d).mem_iff)) _
    · rfl
  have source : ∀ d, projectionSourceReasons r q d = projectionSourceReasons s q d := by
    intro d
    unfold projectionSourceReasons
    rw [same.signedSubject distinct distinct']
    split
    · refine reasonIf_congr ?_ _
      rw [← List.length_eq_zero_iff, (standing d).length_eq, List.length_eq_zero_iff]
    · rfl
  unfold Authority.pendingReasons
  dsimp only
  rw [receipt, source, (decisionsOn_perm perm _ _).length_eq,
    (same.producerStatements (standing d) _).length_eq,
    (same.verifierStatements (standing d) _).length_eq]

theorem eq_of_perm_one {α : Type} {xs ys : List α} (perm : ys.Perm xs) (one : xs.length = 1) :
    ys = xs := by
  obtain ⟨x, rfl⟩ := List.length_eq_one_iff.mp one
  exact List.perm_singleton.mp perm

theorem SameSigning.promote (same : SameSigning s r)
    (distinct : (s.subjects.map (·.digest)).Nodup) (distinct' : (r.subjects.map (·.digest)).Nodup)
    (perm : derived'.Perm derived) {d : Digest} {p : PendingProjection}
    (clean : Authority.pendingReasons a s q derived d p.spec = []) :
    w.promote a r q derived' d p = w.promote a s q derived d p := by
  simp only [Authority.pendingReasons, List.append_eq_nil_iff, reasonIf_eq_nil, not_not] at clean
  obtain ⟨⟨⟨⟨⟨one, -⟩, verifier⟩, -⟩, -⟩, -⟩ := clean
  have decisions := eq_of_perm_one (decisionsOn_perm perm "projection_promotion" d) one
  have verifiers := eq_of_perm_one (same.verifierStatements (same.standing (q := q) distinct
    distinct' d) p.spec.producerPrincipalId) verifier
  unfold Authority.promote
  dsimp only
  rw [decisions, verifiers, same.principals, same.signedSubject distinct distinct',
    same.signedSubject distinct distinct']

theorem SameSigning.promoteProjection (same : SameSigning s r)
    (distinct : (s.subjects.map (·.digest)).Nodup) (distinct' : (r.subjects.map (·.digest)).Nodup)
    (perm : derived'.Perm derived) {x y : SignedSubject} (alike : SameSubject x y) :
    w.promoteProjection a r derived' q y = w.promoteProjection a s derived q x := by
  have judged : ∀ p, w.judgePending a r derived' q x.digest p =
      w.judgePending a s derived q x.digest p := by
    intro p
    unfold judgePending
    rw [same.pendingReasons distinct distinct' perm]
    dsimp only
    split
    · rfl
    · rename_i clean
      rw [same.promote distinct distinct' perm (not_not.mp clean)]
  unfold Authority.promoteProjection
  rw [alike.subject, alike.digest]
  split
  · rw [judged]
  · rfl

end projections

theorem activeReasons_same {s r : Signing} (same : SameSigning s r) {reason : String} :
    reason ∈ w.activeReasons a r ↔ reason ∈ w.activeReasons a s := by
  have signed : ∀ d, d ∈ r.subjects.map (·.digest) ↔ d ∈ s.subjects.map (·.digest) := by
    intro d
    simp only [List.mem_map]
    constructor
    · rintro ⟨y, listed, rfl⟩
      obtain ⟨x, listed', alike⟩ := same.back y listed
      exact ⟨x, listed', alike.digest.symm⟩
    · rintro ⟨x, listed, rfl⟩
      obtain ⟨y, listed', alike⟩ := same.forth x listed
      exact ⟨y, listed', alike.digest⟩
  simp only [activeReasons, List.mem_append, mem_reasonIf, signed]

structure SameTrace (t t' : Trace) : Prop where
  signing : SameSigning t.signing t'.signing
  quarantine : t'.decided.1 = t.decided.1
  decided : t'.decided.2.Perm t.decided.2
  promoted : SameInspection t.promoted t'.promoted
  events : t'.events.Perm t.events

theorem sortEvents_ok {events sorted : List AuditEvent} : sortEvents events = .ok sorted ↔
    (∀ e ∈ events, ∀ f ∈ events, e.spec.occurredAt.Comparable f.spec.occurredAt) ∧
      sorted = events.mergeSort fun e f => instant e.spec.occurredAt ≤ instant f.spec.occurredAt := by
  unfold sortEvents
  split <;> simp_all [eq_comm]

theorem statementsOf_perm {xs ys : List (Digest × Document)} (perm : ys.Perm xs) :
    (statementsOf ys).Perm (statementsOf xs) := perm.filterMap _

theorem decisionsOf_perm {xs ys : List (Digest × Document)} (perm : ys.Perm xs) :
    (decisionsOf ys).Perm (decisionsOf xs) := perm.filterMap _

theorem rejectUnsigned_perm {xs ys : List (Digest × Document)} (perm : ys.Perm xs)
    (q : Quarantine) : rejectUnsigned ys q = rejectUnsigned xs q := by
  rw [rejectUnsigned_eq, rejectUnsigned_eq]
  exact Quarantine.rejects_congr q fun r => ((perm.filter _).map _).mem_iff

theorem auditEvents_perm {xs ys : List (Digest × Document)} (perm : ys.Perm xs)
    (q : Quarantine) : (w.auditEvents ys q).Perm (w.auditEvents xs q) := perm.filterMap _

theorem Loads.reordered {t : Trace} (loads : w.Loads a t) (free : w.CollisionFree)
    (clear : a.Unambiguous) (same : ledger.Perm a.generation.spec.ledger)
    (own : w.generation a.generation = a.generation.spec.generationDigest)
    (own' : w.generation (a.reordered ledger digest).generation = digest) :
    ∃ t', w.Loads (a.reordered ledger digest) t' ∧ SameTrace t t' := by
  have perm := parsed_perm w digest clear same
  have quarantine := parsed_quarantine w digest clear same
  have statements := statementsOf_perm perm
  have signs := loads.signs free
  obtain ⟨reasons, ledger', reasonsSame⟩ := validateLedger_reordered same own own' loads.ledger
  obtain ⟨r, signing⟩ := (signStatements_total (w := w) (a := a)
    (q := (w.parseEntries (a.reordered ledger digest)).2)).mpr
    fun p listed => signs.judged p (statements.mem_iff.mp listed)
  have signs' : w.Signs a (w.parseEntries a).2
      (statementsOf (w.parseEntries (a.reordered ledger digest)).1) r := by
    rw [← quarantine]
    exact signStatements_ok free (w.nodup_parsed _) signing
  have distinct' : ((statementsOf (w.parseEntries (a.reordered ledger digest)).1).map
    Prod.fst).Nodup := nodup_statementsOf (w.nodup_parsed _)
  have alike := signs.same free signs' statements
  obtain ⟨checked, checkedRun, checkedSame⟩ := inspectSubjects_same alike
    (t.signing.quarantine, t.ledgerReasons ++ w.activeReasons a t.signing)
    (r.quarantine, reasons ++ w.activeReasons a r)
    (checkSubject_independent signs nodup_statements)
    (checkSubject_independent signs' distinct') signs.nodup signs'.nodup
    (fun x _ y _ both => by rw [alike.quarantine, alike.checkSubject both])
    alike.quarantine
    (fun reason => by simp only [List.mem_append, reasonsSame, activeReasons_same alike])
    loads.checked
  have unsignedSame : rejectUnsigned (w.parseEntries (a.reordered ledger digest)).1 checked.1.1 =
      rejectUnsigned (w.parseEntries a).1 t.checked.1.1 := by
    rw [checkedSame.quarantine, rejectUnsigned_perm perm]
  have settled := loads.decided_spec free
  obtain ⟨decided, decidedRun⟩ := (decideQuorums_total (w := w) (a := a) (s := r)
    (q := rejectUnsigned (w.parseEntries (a.reordered ledger digest)).1 checked.1.1)
    (w.nodup_parsed _) fun _ => signs'.recorded).mpr fun p listed => by
      rw [unsignedSame, alike.judgeDecision]
      exact settled.judged p ((decisionsOf_perm perm).mem_iff.mp listed)
  have settled' : Settled
      (w.judgeDecision a t.signing (rejectUnsigned (w.parseEntries a).1 t.checked.1.1))
      (decisionsOf (w.parseEntries (a.reordered ledger digest)).1)
      (rejectUnsigned (w.parseEntries a).1 t.checked.1.1) decided := by
    rw [← alike.judgeDecision, ← unsignedSame]
    refine decideQuorums_ok (w.nodup_parsed _) (fun _ => signs'.recorded) ?_ decidedRun
    intro p listed
    rw [unsignedSame]
    exact loads.decisions_fresh free p ((decisionsOf_perm perm).mem_iff.mp listed)
  obtain ⟨decidedQuarantine, derived⟩ := settled.same (decisionsOf_perm perm) settled'
  obtain ⟨required, requiredRun, requiredSame⟩ := inspectSubjects_same alike
    (t.decided.1, t.checked.1.2) (decided.1, checked.1.2) (requireQuorum_independent _ _)
    (requireQuorum_independent decided.2 _) signs.nodup signs'.nodup
    (fun x _ y _ both => by rw [decidedQuarantine, requireQuorum_same derived both])
    decidedQuarantine checkedSame.reasons loads.required
  obtain ⟨promoted, promotedRun, promotedSame⟩ := inspectSubjects_same alike
    t.required.1 required.1 (promoteProjection_independent signs nodup_statements _)
    (promoteProjection_independent signs' distinct' decided.2) signs.nodup signs'.nodup
    (fun x _ y _ both => by
      rw [requiredSame.quarantine, alike.promoteProjection signs.distinct signs'.distinct
        derived both])
    requiredSame.quarantine requiredSame.reasons loads.promoted
  obtain ⟨comparable, sorted⟩ := sortEvents_ok.mp loads.events
  have events : (w.auditEvents (w.parseEntries (a.reordered ledger digest)).1
      promoted.1.1).Perm (w.auditEvents (w.parseEntries a).1 t.promoted.1.1) := by
    rw [promotedSame.quarantine]
    exact auditEvents_perm perm _
  have eventsRun := sortEvents_ok.mpr ⟨fun e first f second =>
    comparable e (events.subset first) f (events.subset second), rfl⟩
  refine ⟨⟨reasons, r, checked, decided, required, promoted, _⟩, ⟨ledger', loads.bounded, signing,
    checkedRun, decidedRun, requiredRun, promotedRun, eventsRun⟩,
    ⟨alike, decidedQuarantine, derived, promotedSame, ?_⟩⟩
  rw [sorted]
  exact (List.mergeSort_perm _ _).trans (events.trans (List.mergeSort_perm _ _).symm)

end Authority

end CollectivePhaseControl
