import CollectivePhaseControl.AuthorityLoads

/-! Closure of the authoritative view under dependency. Evidence depends on its source
envelope and a decision on its statements, but the passes collect both before the passes
that can still quarantine what they depend on. -/
namespace CollectivePhaseControl

namespace Authority
variable {w : Authority} {a : LoadArguments} {t : Trace}

def InView (view : AuthoritativeView) (d : Document) : Prop :=
  ∃ digest : Digest, view.objects[digest]? = some d

theorem getElem?_insertAll {α : Type} {entries : List (Digest × α)} {m : Dict α} {d : Digest}
    {v : α} (agree : ∀ x y, (d, x) ∈ entries → (d, y) ∈ entries → x = y) :
    (entries.foldl (fun m entry => m.insert entry.1 entry.2) m)[d]? = some v ↔
      (d, v) ∈ entries ∨ (∀ x, (d, x) ∉ entries) ∧ m[d]? = some v := by
  induction entries generalizing m with
  | nil => simp
  | cons entry entries ih =>
    obtain ⟨key, value⟩ := entry
    rw [List.foldl_cons, ih fun x y first second =>
      agree x y (List.mem_cons_of_mem _ first) (List.mem_cons_of_mem _ second)]
    by_cases same : d = key
    · subst same
      simp only [Std.ExtTreeMap.getElem?_insert_self, Option.some.injEq, List.mem_cons,
        Prod.mk.injEq, true_and]
      grind
    · have other : compare key d ≠ .eq := by simpa using Ne.symm same
      simp only [Std.ExtTreeMap.getElem?_insert, if_neg other]
      grind

theorem Settled.listed {judge : QuorumDecisionDocument → Checked (List String)}
    {done : List (Digest × QuorumDecisionDocument)} {q : Quarantine} {r : Decided}
    (settled : Settled judge done q r) {d : Digest} {decision : QuorumDecisionDocument}
    (kept : (d, decision) ∈ r.2) : (d, decision) ∈ done := ((settled.derived d decision).mp kept).1

theorem parseEntry_parses {digest : Digest} {document : Document}
    (parsed : w.parseEntry a digest = .ok document) : w.Parses document := by
  unfold parseEntry at parsed
  split at parsed
  · rename_i found raw
    dsimp only at parsed
    split at parsed
    · rw [← Except.ok.inj parsed]
      obtain ⟨data, -, raw⟩ := Option.map_eq_some_iff.mp raw
      obtain ⟨members, -, read⟩ := bind_ok.mp raw
      exact ⟨members, read⟩
    · cases parsed
  · cases parsed

theorem Loads.decision_parses (loads : w.Loads a t) (free : w.CollisionFree) {d : Digest}
    {decision : QuorumDecisionDocument} (kept : (d, decision) ∈ t.decided.2) :
    w.Parses (decision.document .quorumDecision) ∧
      w.document (decision.document .quorumDecision) = d := by
  have listed := mem_decisionsOf.mp ((loads.decided_spec free).listed kept)
  have parsed := ((w.mem_parsed a).mp listed).2
  exact ⟨parseEntry_parses parsed, w.document_of_parseEntry a parsed⟩

theorem projectionResult_some {reasons : List String} {document : Option Document} {d : Document}
    (kept : (w.projectionResult reasons document).2 = some d) :
    reasons = [] ∧ document = some d := by
  unfold projectionResult at kept
  dsimp only at kept
  split at kept
  · rename_i clean
    rw [List.isEmpty_iff, normalized_eq_nil] at clean
    exact ⟨clean, kept⟩
  · cases kept

theorem projected_parses {raw : Bytes} {pointer : String} {d : Document}
    (read : w.projected raw pointer = .ok (.ok d)) : w.Parses d := by
  unfold projected at read
  split at read
  · cases Except.ok.inj read
  · split at read
    · cases Except.ok.inj read
    · split at read
      · rename_i parsed
        cases Except.ok.inj read
        exact ⟨_, parsed⟩
      · cases Except.ok.inj read
      · cases read
    · cases Except.ok.inj read

theorem reconstructProjection_some {pending : PendingProjection} {approval : ProjectionApproval}
    {receipt : Document} {source : SourceArtifactEnvelope} {raw : Bytes} {d : Document}
    {result : ProjectionResult}
    (run : w.reconstructProjection pending approval receipt source raw = .ok (result, some d)) :
    w.Parses d ∧ w.document d = pending.spec.projectedDigest := by
  unfold reconstructProjection at run
  obtain ⟨schema, -, run⟩ := bind_ok.mp run
  dsimp only at run
  split at run
  · have kept := congrArg Prod.snd (Except.ok.inj run)
    cases (projectionResult_some kept).2
  · obtain ⟨read, found, run⟩ := bind_ok.mp run
    split at run
    · have kept := congrArg Prod.snd (Except.ok.inj run)
      cases (projectionResult_some kept).2
    · rename_i document
      have kept := congrArg Prod.snd (Except.ok.inj run)
      obtain ⟨clean, equal⟩ := projectionResult_some kept
      cases equal
      refine ⟨projected_parses found, ?_⟩
      by_contra other
      simp [reasonIf, other] at clean

/-- A promoted document and the pending projection it comes from. -/
structure Promotes (t : Trace) (x : SignedSubject) (d : Document) (p : PendingProjection) :
    Prop where
  subject : x.subject = p.document .pendingProjection
  clean : pendingReasons a t.signing t.required.1.1 t.decided.2 x.digest p.spec = []
  parses : w.Parses d
  digest : w.document d = p.spec.projectedDigest

theorem promote_some {s : Signing} {q : Quarantine} {digest : Digest}
    {derived : List (Digest × QuorumDecisionDocument)} {p : PendingProjection} {d : Document}
    {result : ProjectionResult} (run : w.promote a s q derived digest p = .ok (result, some d)) :
    w.Parses d ∧ w.document d = p.spec.projectedDigest := by
  unfold promote at run
  simp only [bind_ok] at run
  obtain ⟨_, -, _, -, _, -, approval, -, receipt, -, source, -, raw, -, run⟩ := run
  split at run
  · exact reconstructProjection_some run
  · cases run

theorem promoteProjection_some {x : SignedSubject} {codes : List String} {d : Document}
    (verdict : w.promoteProjection a t.signing t.decided.2 t.required.1.1 x =
      .ok (codes, some d)) :
    codes = [] ∧ ∃ p, Promotes (w := w) (a := a) t x d p := by
  unfold promoteProjection at verdict
  split at verdict
  · rename_i metadata extensions spec shape
    split at verdict
    · unfold judgePending at verdict
      dsimp only at verdict
      split at verdict
      · cases Except.ok.inj verdict
      · rename_i clean
        obtain ⟨⟨result, document⟩, run, verdict⟩ := bind_ok.mp verdict
        dsimp only at verdict
        split at verdict
        · cases Except.ok.inj verdict
          obtain ⟨parses, digest⟩ := promote_some run
          exact ⟨rfl, ⟨metadata, extensions, spec⟩, shape, not_not.mp clean, parses, digest⟩
        · cases Except.ok.inj verdict
    · cases Except.ok.inj verdict
  · cases Except.ok.inj verdict

theorem Loads.mem_promoted (loads : w.Loads a t) (free : w.CollisionFree) {d : Document} :
    d ∈ t.promoted.2 ↔ ∃ x ∈ t.signing.subjects,
      w.promoteProjection a t.signing t.decided.2 t.required.1.1 x = .ok ([], some d) := by
  rw [(loads.promoted_spec free).documents]
  constructor
  · rintro ⟨x, listed, codes, verdict⟩
    obtain ⟨rfl, -⟩ := promoteProjection_some verdict
    exact ⟨x, listed, verdict⟩
  · rintro ⟨x, listed, verdict⟩
    exact ⟨x, listed, [], verdict⟩

inductive Held (t : Trace) : Document → Prop
  | signed {x statement} : x ∈ t.signing.subjects → statement ∈ x.statements →
      statement ∉ t.promoted.1.1 → Held t x.subject
  | decision {p} : p ∈ t.decided.2 → Held t (p.2.document .quorumDecision)
  | promoted {d} : d ∈ t.promoted.2 → Held t d

theorem Loads.held_parses (loads : w.Loads a t) (free : w.CollisionFree) {d : Document}
    (held : Held t d) : w.Parses d := by
  cases held with
  | signed listed _ _ => exact (loads.signs free).subject_parses listed
  | decision kept => exact (loads.decision_parses free kept).1
  | promoted listed =>
    obtain ⟨x, -, verdict⟩ := (loads.mem_promoted free).mp listed
    obtain ⟨-, p, promotes⟩ := promoteProjection_some verdict
    exact promotes.parses

theorem Loads.mem_objects (loads : w.Loads a t) (free : w.CollisionFree) {digest : Digest}
    {d : Document} : (t.view w a).objects[digest]? = some d ↔ digest = w.document d ∧ Held t d := by
  have entries : ∀ digest e, (digest, e) ∈
      ((t.signing.subjects.filter fun s => s.statements.any (· ∉ t.promoted.1.1)).map
        (fun s => (s.digest, s.subject)) ++
      t.decided.2.map (fun d => (d.1, d.2.document .quorumDecision)) ++
      t.promoted.2.map fun d => (w.document d, d)) ↔ digest = w.document e ∧ Held t e := by
    intro digest e
    simp only [List.mem_append, List.mem_map, List.mem_filter, List.any_eq_true, Prod.mk.injEq,
      decide_eq_true_eq]
    constructor
    · rintro ((⟨x, ⟨listed, st, own, stands⟩, rfl, rfl⟩ | ⟨p, kept, rfl, rfl⟩) | ⟨d, listed, rfl, rfl⟩)
      · exact ⟨((loads.signs free).own x listed).1, .signed listed own stands⟩
      · exact ⟨(loads.decision_parses free kept).2.symm, .decision kept⟩
      · exact ⟨rfl, .promoted listed⟩
    · rintro ⟨rfl, held⟩
      cases held with
      | @signed x st listed own stands =>
        exact .inl (.inl ⟨x, ⟨listed, st, own, stands⟩, ((loads.signs free).own x listed).1, rfl⟩)
      | @decision p kept =>
        exact .inl (.inr ⟨p, kept, (loads.decision_parses free kept).2.symm, rfl⟩)
      | promoted listed => exact .inr ⟨e, listed, rfl, rfl⟩
  change (w.authoritativeObjects t.signing.subjects t.promoted.1.1 t.decided.2
    t.promoted.2)[digest]? = some d ↔ _
  rw [authoritativeObjects, getElem?_insertAll]
  · rw [entries]
    simp
  · intro x y first second
    obtain ⟨same, heldX⟩ := (entries _ _).mp first
    obtain ⟨same', heldY⟩ := (entries _ _).mp second
    exact free x y (loads.held_parses free heldX) (loads.held_parses free heldY)
      (same.symm.trans same')

theorem Loads.inView_iff (loads : w.Loads a t) (free : w.CollisionFree) {d : Document} :
    InView (t.view w a) d ↔ Held t d := by
  unfold InView
  simp only [loads.mem_objects free]
  simp

structure Stands (w : Authority) (a : LoadArguments) (t : Trace) (x : SignedSubject) : Prop where
  listed : x ∈ t.signing.subjects
  checked : ∀ codes document,
    w.checkSubject a t.signing t.signing.quarantine x = .ok (codes, document) → codes = []
  quorum : quorumFault t.decided.2 x = []
  promotion : ∀ codes document,
    w.promoteProjection a t.signing t.decided.2 t.required.1.1 x = .ok (codes, document) →
      codes = []

theorem Loads.mem_final (loads : w.Loads a t) (free : w.CollisionFree) {d : Digest} :
    d ∈ t.promoted.1.1 ↔ ∃ codes, w.Rejected a t d codes := by
  obtain ⟨rejections, equal, members⟩ := loads.rejections free
  rw [equal, Quarantine.mem_rejects]
  simp [members]

theorem Loads.rejected_statement (loads : w.Loads a t) (free : w.CollisionFree)
    {x : SignedSubject} {d : Digest} {codes : List String} (listed : x ∈ t.signing.subjects)
    (own : d ∈ x.statements) : w.Rejected a t d codes ↔ codes ≠ [] ∧
      ((∃ document, w.checkSubject a t.signing t.signing.quarantine x = .ok (codes, document)) ∨
        quorumFault t.decided.2 x = codes ∨
        ∃ document, w.promoteProjection a t.signing t.decided.2 t.required.1.1 x =
          .ok (codes, document)) := by
  have signs := loads.signs free
  obtain ⟨subject, ⟨j, outcome, shape⟩, -⟩ := (signs.statements x listed d).mp own
  obtain ⟨⟨d', envelope⟩, statement, equal⟩ := List.mem_map.mp outcome.mem_keys
  obtain ⟨document, parsed, signed⟩ := mem_statementsOf.mp statement
  dsimp only at equal
  subst equal
  constructor
  · intro rejected
    cases rejected with
    | entry live bad =>
      rw [((w.mem_parsed a).mp parsed).2] at bad
      cases bad
    | statement outcome' found =>
      obtain ⟨v, rfl⟩ := subject_eq_some.mp shape
      rw [outcome_unique nodup_statements outcome' outcome] at found
      cases found
    | subject listed' own' some verdict =>
      rw [signs.separate nodup_statements listed' listed own' own] at verdict
      exact ⟨some, .inl ⟨_, verdict⟩⟩
    | «unsigned» listed' plain =>
      rw [parsed_unique listed' parsed] at plain
      simp [CollectivePhaseControl.Authority.unsigned, signed] at plain
    | decision listed' some verdict =>
      have other := parsed_unique (mem_decisionsOf.mp listed') parsed
      rw [← other] at signed
      cases signed
    | quorum listed' own' some =>
      rw [signs.separate nodup_statements listed' listed own' own] at some ⊢
      exact ⟨some, .inr (.inl rfl)⟩
    | projection listed' own' some verdict =>
      rw [signs.separate nodup_statements listed' listed own' own] at verdict
      exact ⟨some, .inr (.inr ⟨_, verdict⟩)⟩
  · rintro ⟨some, ⟨document, verdict⟩ | rfl | ⟨document, verdict⟩⟩
    · exact .subject listed own some verdict
    · exact .quorum listed own some
    · exact .projection listed own some verdict

theorem Loads.stands_iff (loads : w.Loads a t) (free : w.CollisionFree) {x : SignedSubject}
    {d : Digest} (listed : x ∈ t.signing.subjects) (own : d ∈ x.statements) :
    d ∉ t.promoted.1.1 ↔ w.Stands a t x := by
  rw [loads.mem_final free, not_exists]
  simp only [loads.rejected_statement free listed own]
  constructor
  · intro clean
    refine ⟨listed, fun codes document verdict => ?_, ?_, fun codes document verdict => ?_⟩
    · by_contra some
      exact clean codes ⟨some, .inl ⟨document, verdict⟩⟩
    · by_contra some
      exact clean _ ⟨some, .inr (.inl rfl)⟩
    · by_contra some
      exact clean codes ⟨some, .inr (.inr ⟨document, verdict⟩)⟩
  · rintro stands codes ⟨some, ⟨document, verdict⟩ | rfl | ⟨document, verdict⟩⟩
    · exact some (stands.checked codes document verdict)
    · exact some stands.quorum
    · exact some (stands.promotion codes document verdict)

theorem Signs.statement_exists {q : Quarantine} {done : List (Digest × DsseEnvelope)} {s : Signing}
    (signs : w.Signs a q done s) {x : SignedSubject} (listed : x ∈ s.subjects) :
    ∃ d, d ∈ x.statements := by
  obtain ⟨own, d, admits⟩ := signs.own x listed
  exact ⟨d, (signs.statements x listed d).mpr ⟨_, admits, own.symm⟩⟩

theorem Loads.held_iff (loads : w.Loads a t) (free : w.CollisionFree) {d : Document} :
    Held t d ↔ (∃ x, w.Stands a t x ∧ x.subject = d) ∨
      (∃ p ∈ t.decided.2, d = p.2.document .quorumDecision) ∨ d ∈ t.promoted.2 := by
  constructor
  · intro held
    cases held with
    | signed listed own free' =>
      exact .inl ⟨_, (loads.stands_iff free listed own).mp free', rfl⟩
    | decision kept => exact .inr (.inl ⟨_, kept, rfl⟩)
    | promoted listed => exact .inr (.inr listed)
  · rintro (⟨x, stands, rfl⟩ | ⟨p, kept, rfl⟩ | listed)
    · obtain ⟨d, own⟩ := (loads.signs free).statement_exists stands.listed
      exact .signed stands.listed own ((loads.stands_iff free stands.listed own).mpr stands)
    · exact .decision kept
    · exact .promoted listed

variable (w a) in
/-- Exactly one envelope of the evidence is in the view, and its raw bytes pass. -/
def Backed (view : AuthoritativeView) (e : EvidenceAttestation) : Prop :=
  ∃ s : SourceArtifactEnvelope, InView view (s.document .sourceArtifactEnvelope) ∧
    sourceOf e s = true ∧ w.validateSourceEnvelope a s = [] ∧
    ∀ s', InView view (s'.document .sourceArtifactEnvelope) → sourceOf e s' = true → s' = s

def StatementsStand (view : AuthoritativeView) (decision : QuorumDecisionDocument) : Prop :=
  ∀ statement ∈ decision.spec.statementDigests, statement ∉ view.quarantined

variable (w) in
/-- What an object of the view rests on still stands. -/
inductive Supported (view : AuthoritativeView) : Document → Prop
  | signed {d : Document} {statements : List Digest} {statement : Digest} :
      view.subjectStatements[w.document d]? = some statements → statement ∈ statements →
      statement ∉ view.quarantined → Supported view d
  | decision {decision : QuorumDecisionDocument} :
      StatementsStand view decision → Supported view (decision.document .quorumDecision)
  | projection {d : Document} {p : PendingProjection} {decision : QuorumDecisionDocument} :
      InView view (p.document .pendingProjection) → p.spec.projectedDigest = w.document d →
      InView view (decision.document .quorumDecision) →
      decision.spec.subjectDigest = w.document (p.document .pendingProjection) →
      StatementsStand view decision →
      view.objects[p.spec.runnerReceiptDigest]?.isSome →
      view.objects[p.spec.sourceArtifactEnvelopeDigest]?.isSome → Supported view d

variable (w a) in
structure Closed (view : AuthoritativeView) : Prop where
  evidence : ∀ e : EvidenceAttestation, InView view (e.document .evidence) → w.Backed a view e
  decisions : ∀ decision : QuorumDecisionDocument,
    InView view (decision.document .quorumDecision) → StatementsStand view decision
  retracted : ∀ d, InView view d → w.Supported view d

theorem Signs.mem_sources {q : Quarantine} {done : List (Digest × DsseEnvelope)} {s : Signing}
    (signs : w.Signs a q done s) {e : SourceArtifactEnvelope} :
    e ∈ s.sourceEnvelopes ↔ ∃ x ∈ s.subjects, x.subject = e.document .sourceArtifactEnvelope := by
  rw [signs.sources]
  simp only [List.mem_filterMap, sourceEnvelope_eq_some]

theorem document_injective {σ : Type} {kind : σ → DocumentSpec}
    (injective : ∀ {x y}, kind x = kind y → x = y) {d e : Typed σ}
    (same : d.document kind = e.document kind) : d = e := by
  obtain ⟨metadata, extensions, spec⟩ := d
  obtain ⟨metadata', extensions', spec'⟩ := e
  obtain ⟨rfl, rfl, shape⟩ := Typed.mk.inj same
  cases injective shape
  rfl

end Authority

namespace AuthoritySample
open Authority

def metadata (id : Identifier) : Metadata := ⟨"tenant", "workspace", id, .utc 0⟩

def principal : Principal :=
  { principalId := "author", keyId := "key", algorithm := .ed25519, publicKeyBase64 := "key"
    roles := ["workspace_root", "author"], sourceSystems := ["system"]
    allowedKinds := ["source-artifact-envelope", "evidence-attestation"], scope := ["scope"]
    infrastructureDomain := "infrastructure", correlationDomain := "correlation"
    validFrom := .utc 0, validUntil := .utc 20, revokedAt := none, compromisedAt := none
    revocationMode := .prospective }

def policy : TrustPolicyDocument :=
  ⟨metadata "policy", ∅, ⟨1, some "genesis", "key", [principal], []⟩⟩

def trustedTime : TrustedTimeReceipt :=
  ⟨metadata "time", ∅, ⟨"author", .utc 10, .utc 20, "nonce"⟩⟩

def source (byteLength : ℕ) : SourceArtifactEnvelope :=
  ⟨metadata "source", ∅, ⟨"raw", byteLength, "system", "schema", "schema"⟩⟩

def evidence : EvidenceAttestation :=
  ⟨metadata "evidence", ∅,
    ⟨"evidence", "raw", "", "raw", ⟨.utc 0, .utc 20, none⟩⟩⟩

def envelope (payload : String) : DsseEnvelope := ⟨"statement", payload, [⟨"", "signature"⟩]⟩

def header (kind : Identifier) (digest : Digest) : ProtectedHeader :=
  ⟨kind, "schema", digest, "key", "author", "author", "system", ["scope"], "tenant", "workspace",
    .utc 5, 1, some "time"⟩

def documents (byteLength : ℕ) : List Document :=
  [(source byteLength).document .sourceArtifactEnvelope, evidence.document .evidence,
    ⟨metadata "statement-1", ∅, .signedStatement (envelope "payload-1")⟩,
    ⟨metadata "statement-2", ∅, .signedStatement (envelope "payload-2")⟩]

def loads : Bytes → Except String Members
  | [n] => .ok [("n", .int n.toNat)]
  | _ => .error "top_level_json_object_required"

def payload : Members → Except String SignedPayload
  | [(_, .int 4)] => .ok ⟨header "source-artifact-envelope" "source", [("n", .int 0)]⟩
  | [(_, .int 5)] => .ok ⟨header "evidence-attestation" "evidence", [("n", .int 1)]⟩
  | _ => .error "payload"

def parse (byteLength : ℕ) : Members → Except ParseError Document
  | [(_, .int n)] =>
    match (documents byteLength)[n.toNat]? with
    | some document => .ok document
    | none => .error (.valueError "document")
  | _ => .error (.valueError "document")

def digestBytes : Bytes → Digest
  | [2] => "statement-1"
  | [3] => "statement-2"
  | [6] => "raw"
  | _ => "key"

def authority (byteLength : ℕ) : Authority where
  document d := d.metadata.objectId
  generation _ := "generation"
  envelope _ := "envelope"
  digestBytes := digestBytes
  canonical _ := some [6]
  schema _ := some "schema"
  base64 text := .ok (if text = "key" then List.replicate 32 0
    else if text = "payload-1" then [4] else [5])
  loads := loads
  payload := payload
  parse := parse byteLength
  derKey _ := .malformed
  spki _ := []
  verifies _ _ _ := true
  registered _ := rfl

def entry (digest : Digest) : LedgerEntry := ⟨digest, "signed-statement", .active, []⟩

def generation : WorkspaceGeneration :=
  ⟨metadata "generation", ∅,
    ⟨"generation", none, 0, none, [entry "statement-1", entry "statement-2"], "statement-1"⟩⟩

def store (_ : Identifier) (digest : Digest) : Option Bytes :=
  if digest = "statement-1" then some [2] else if digest = "statement-2" then some [3]
  else if digest = "raw" then some [6] else none

theorem collisionFree (byteLength : ℕ) : (authority byteLength).CollisionFree := by
  have listed : ∀ d, (authority byteLength).Parses d → d ∈ documents byteLength := by
    rintro d ⟨members, parsed⟩
    change parse byteLength members = .ok d at parsed
    unfold parse at parsed
    split at parsed
    · split at parsed
      · rename_i found
        rw [← Except.ok.inj parsed]
        exact List.mem_of_getElem? found
      · cases parsed
    · cases parsed
  have distinct : ((documents byteLength).map (·.metadata.objectId)).Nodup :=
    show ["source", "evidence", "statement-1", "statement-2"].Nodup from by decide
  intro d e first second same
  exact List.inj_on_of_nodup_map distinct (listed d first) (listed e second) same

end AuthoritySample

end CollectivePhaseControl
