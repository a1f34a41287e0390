import CollectivePhaseControl.AuthorityLoader

/-! What each pass of the loader does, free of the order of the ledger: which documents
are parsed, what every statement comes to, and which digests a pass rejects. -/
namespace CollectivePhaseControl

namespace Quarantine

def rejects (q : Quarantine) (rejections : List (Digest × List String)) : Quarantine :=
  rejections.foldl (fun q r => q.reject r.1 r.2) q

@[simp] theorem mem_reject {q : Quarantine} {digest d : Digest} {codes : List String} :
    d ∈ q.reject digest codes ↔ d = digest ∨ d ∈ q := by
  simp [reject, Std.ExtTreeMap.mem_insert, eq_comm (a := d)]

theorem getD_reject (q : Quarantine) (digest d : Digest) (codes : List String) :
    (q.reject digest codes).getD d ∅ =
      q.getD d ∅ ∪ if d = digest then codes.toFinset else ∅ := by
  unfold reject
  by_cases same : d = digest
  · simp [same]
  · have other : compare digest d ≠ .eq := by simpa using Ne.symm same
    simp [Std.ExtTreeMap.getD_insert, same, other]

theorem mem_rejects {rejections : List (Digest × List String)} {q : Quarantine} {d : Digest} :
    d ∈ q.rejects rejections ↔ d ∈ q ∨ ∃ codes, (d, codes) ∈ rejections := by
  induction rejections generalizing q with
  | nil => simp [rejects]
  | cons r rest ih =>
    change d ∈ (q.reject r.1 r.2).rejects rest ↔ _
    rw [ih, mem_reject]
    grind

theorem codes_rejects {rejections : List (Digest × List String)} {q : Quarantine} {d : Digest}
    {code : String} :
    code ∈ (q.rejects rejections).getD d ∅ ↔
      code ∈ q.getD d ∅ ∨ ∃ codes, (d, codes) ∈ rejections ∧ code ∈ codes := by
  induction rejections generalizing q with
  | nil => simp [rejects]
  | cons r rest ih =>
    change code ∈ ((q.reject r.1 r.2).rejects rest).getD d ∅ ↔ _
    obtain ⟨digest, listed⟩ := r
    rw [ih, getD_reject, Finset.mem_union]
    by_cases own : d = digest
    · simp [own, or_assoc]
    · simp [own]

theorem ext_codes {q r : Quarantine} (keys : ∀ d, d ∈ q ↔ d ∈ r)
    (codes : ∀ d, q.getD d ∅ = r.getD d ∅) : q = r := by
  apply Std.ExtTreeMap.ext_getElem?
  intro d
  by_cases member : d ∈ q
  · have other := (keys d).mp member
    have same := codes d
    rw [Std.ExtTreeMap.getD_eq_getD_getElem?, Std.ExtTreeMap.getD_eq_getD_getElem?,
      Std.ExtTreeMap.getElem?_eq_some_getElem member,
      Std.ExtTreeMap.getElem?_eq_some_getElem other] at same
    rw [Std.ExtTreeMap.getElem?_eq_some_getElem member,
      Std.ExtTreeMap.getElem?_eq_some_getElem other]
    exact congrArg some same
  · rw [Std.ExtTreeMap.getElem?_eq_none member,
      Std.ExtTreeMap.getElem?_eq_none fun other => member ((keys d).mpr other)]

theorem rejects_congr {first second : List (Digest × List String)} (q : Quarantine)
    (same : ∀ r, r ∈ first ↔ r ∈ second) : q.rejects first = q.rejects second := by
  apply ext_codes
  · intro d
    simp only [mem_rejects, same]
  · intro d
    ext code
    simp only [codes_rejects, same]

theorem rejects_append (q : Quarantine) (first second : List (Digest × List String)) :
    q.rejects (first ++ second) = (q.rejects first).rejects second :=
  List.foldl_append

theorem rejectAll_eq (q : Quarantine) (digests : List Digest) (codes : List String) :
    q.rejectAll digests codes = q.rejects (digests.map (·, codes)) := by
  rw [rejectAll, rejects, List.foldl_map]

end Quarantine

section entries
variable {α : Type} {entries : List (Digest × α)} {key : Digest} {value : α}

theorem keys_assign : (assign entries key value).map Prod.fst =
    if key ∈ entries.map Prod.fst then entries.map Prod.fst
    else entries.map Prod.fst ++ [key] := by
  fun_induction assign entries key value with
  | case1 => simp
  | case2 => simp
  | case3 k old rest key value other ih =>
    rw [List.map_cons, ih]
    by_cases member : key ∈ rest.map Prod.fst
    · simp_all
    · simp_all [Ne.symm other]

theorem nodup_assign (distinct : (entries.map Prod.fst).Nodup) :
    ((assign entries key value).map Prod.fst).Nodup := by
  rw [keys_assign]
  split
  · exact distinct
  · rename_i fresh
    exact distinct.append (List.nodup_singleton key) (by simpa using fresh)

end entries

theorem LoadArguments.nodup_entries (a : LoadArguments) : (a.entries.map Prod.fst).Nodup := by
  unfold LoadArguments.entries
  suffices keep : ∀ (items : List LedgerEntry) (entries : List (Digest × LedgerEntry)),
      (entries.map Prod.fst).Nodup →
      ((items.foldl (fun entries item => assign entries item.objectDigest item) entries).map
        Prod.fst).Nodup from keep _ [] List.nodup_nil
  intro items
  induction items with
  | nil => exact fun _ distinct => distinct
  | cons item items ih => exact fun _ distinct => ih _ (nodup_assign distinct)

def LedgerEntry.Live (entry : LedgerEntry) : Prop :=
  entry.authorityStatus = .active ∧ entry.objectKind ≠ "raw-artifact"

instance (entry : LedgerEntry) : Decidable entry.Live := by
  unfold LedgerEntry.Live
  infer_instance

namespace Authority
variable (w : Authority) (a : LoadArguments)

def liveDigests : List Digest := (a.entries.filter fun p => p.2.Live).map Prod.fst

def parsedEntry (digest : Digest) : Option (Digest × Document) :=
  (w.parseEntry a digest).toOption.map (digest, ·)

def rejectedEntry (digest : Digest) : Option (Digest × List String) :=
  match w.parseEntry a digest with
  | .ok _ => none
  | .error codes => some (digest, codes)

theorem recordEntries_eq (items : List (Digest × LedgerEntry)) (progress : Parsed) :
    items.foldl (w.recordEntry a) progress =
      (progress.1 ++ ((items.filter fun p => p.2.Live).map Prod.fst).filterMap (w.parsedEntry a),
        progress.2.rejects
          (((items.filter fun p => p.2.Live).map Prod.fst).filterMap (w.rejectedEntry a))) := by
  induction items generalizing progress with
  | nil => simp [Quarantine.rejects]
  | cons p items ih =>
    rw [List.foldl_cons, ih, List.filter_cons]
    by_cases live : p.2.Live
    · have keep : ¬ (p.2.authorityStatus ≠ .active ∨ p.2.objectKind = "raw-artifact") := by
        simpa [LedgerEntry.Live, not_or] using live
      cases outcome : w.parseEntry a p.1 with
      | ok document =>
        simp [recordEntry, keep, live, outcome, parsedEntry, rejectedEntry, Except.toOption]
      | error codes =>
        simp [recordEntry, keep, live, outcome, parsedEntry, rejectedEntry, Except.toOption,
          Quarantine.rejects]
    · have skip : p.2.authorityStatus ≠ .active ∨ p.2.objectKind = "raw-artifact" := by
        simpa [LedgerEntry.Live, imp_iff_not_or] using live
      simp [recordEntry, skip, live]

theorem parseEntries_eq : w.parseEntries a =
    ((liveDigests a).filterMap (w.parsedEntry a),
      Quarantine.rejects ∅ ((liveDigests a).filterMap (w.rejectedEntry a))) :=
  w.recordEntries_eq a a.entries ([], ∅)

theorem mem_parsed {digest : Digest} {document : Document} :
    (digest, document) ∈ (w.parseEntries a).1 ↔
      digest ∈ liveDigests a ∧ w.parseEntry a digest = .ok document := by
  simp only [parseEntries_eq, List.mem_filterMap, parsedEntry, Option.map_eq_some_iff,
    Prod.mk.injEq]
  constructor
  · rintro ⟨d, live, found, outcome, rfl, rfl⟩
    cases parsed : w.parseEntry a d with
    | ok document => simp_all [Except.toOption]
    | error codes => simp_all [Except.toOption]
  · rintro ⟨live, outcome⟩
    exact ⟨digest, live, document, by rw [outcome]; rfl, rfl, rfl⟩

theorem nodup_parsed : ((w.parseEntries a).1.map Prod.fst).Nodup := by
  rw [parseEntries_eq, List.map_filterMap]
  have distinct : (liveDigests a).Nodup :=
    (a.nodup_entries).sublist (List.filter_sublist.map _)
  apply distinct.filterMap
  intro d e k left right
  simp only [parsedEntry, Option.map_map, Option.mem_def, Option.map_eq_some_iff,
    Function.comp_apply] at left right
  obtain ⟨_, _, rfl⟩ := left
  obtain ⟨_, _, rfl⟩ := right
  rfl

theorem document_of_parseEntry {digest : Digest} {document : Document}
    (parsed : w.parseEntry a digest = .ok document) : w.document document = digest := by
  unfold parseEntry at parsed
  split at parsed
  · rename_i found raw
    dsimp only at parsed
    split at parsed
    · rename_i clean
      rw [Except.ok.inj parsed] at clean
      by_contra other
      simp [reasonIf, other] at clean
    · cases parsed
  · cases parsed

end Authority

namespace Authority

/-- The verdict on a subject does not depend on the quarantine of statements about other
subjects that the pass may condemn. -/
structure Independent (judge : Quarantine → SignedSubject → Checked Verdict)
    (condemnable : SignedSubject → Prop) (subjects : List SignedSubject) : Prop where
  stable : ∀ q r, ∀ x ∈ subjects,
    (∀ d, (∀ y ∈ subjects, condemnable y → d ∈ y.statements → y = x) → (d ∈ q ↔ d ∈ r)) →
    judge q x = judge r x
  only : ∀ q, ∀ x ∈ subjects, ∀ v, judge q x = .ok v → v.1 ≠ [] → condemnable x

/-- What a pass comes to, in terms of the quarantine it starts from. -/
structure Inspected (judge : Quarantine → SignedSubject → Checked Verdict)
    (subjects : List SignedSubject) (findings : Findings) (result : Inspection) : Prop where
  judged : ∀ x ∈ subjects, ∃ v, judge findings.1 x = .ok v
  quarantine : ∃ rejections, result.1.1 = findings.1.rejects rejections ∧
    ∀ d codes, (d, codes) ∈ rejections ↔ codes ≠ [] ∧ ∃ x ∈ subjects, d ∈ x.statements ∧
      ∃ document, judge findings.1 x = .ok (codes, document)
  reasons : ∀ reason, reason ∈ result.1.2 ↔ reason ∈ findings.2 ∨
    ∃ x ∈ subjects, ∃ codes document, judge findings.1 x = .ok (codes, document) ∧
      ∃ code ∈ codes, reason = code ++ ":" ++ x.digest
  documents : ∀ d, d ∈ result.2 ↔
    ∃ x ∈ subjects, ∃ codes, judge findings.1 x = .ok (codes, some d)

/-- Before `rest` is judged, only statements of condemned subjects ahead of it are added. -/
def Reached (condemnable : SignedSubject → Prop) (subjects : List SignedSubject)
    (start : Quarantine) (rest : List SignedSubject) (progress : Inspection) : Prop :=
  rest.Nodup ∧ rest ⊆ subjects ∧ ∀ d, (d ∈ progress.1.1 ↔ d ∈ start) ∨
    ∃ y ∈ subjects, y ∉ rest ∧ condemnable y ∧ d ∈ y.statements

theorem condemn_quarantine (findings : Findings) (x : SignedSubject) (codes : List String) :
    (condemn findings x codes).1 =
      findings.1.rejects (if codes = [] then [] else x.statements.map (·, codes)) := by
  unfold condemn
  split
  · rfl
  · exact Quarantine.rejectAll_eq _ _ _

theorem condemn_reasons (findings : Findings) (x : SignedSubject) (codes : List String) :
    (condemn findings x codes).2 = findings.2 ++ codes.map (· ++ ":" ++ x.digest) := by
  unfold condemn
  split
  · simp_all
  · rfl

theorem mem_condemn {findings : Findings} {x : SignedSubject} {codes : List String} {d : Digest} :
    d ∈ (condemn findings x codes).1 ↔ d ∈ findings.1 ∨ codes ≠ [] ∧ d ∈ x.statements := by
  rw [condemn_quarantine, Quarantine.mem_rejects]
  split <;> simp_all

section inspect
variable {judge : Quarantine → SignedSubject → Checked Verdict}
  {condemnable : SignedSubject → Prop} {subjects : List SignedSubject} {findings : Findings}
  {result : Inspection}

theorem inspectSubjects_eq (independent : Independent judge condemnable subjects)
    (distinct : subjects.Nodup) :
    inspectSubjects judge subjects findings =
      subjects.foldlM (fun progress x => recordVerdict progress x <$> judge findings.1 x)
        (findings, []) := by
  refine foldlM_record_stable (Reached condemnable subjects findings.1) ?_ ?_
    ⟨distinct, List.Subset.refl _, fun d => .inl Iff.rfl⟩
  · intro progress x rest ⟨_, inside, changed⟩
    apply independent.stable _ _ x (inside List.mem_cons_self)
    intro d free
    rcases changed d with same | ⟨y, listed, absent, may, member⟩
    · exact same
    · rw [free y listed may member] at absent
      exact absurd List.mem_cons_self absent
  · intro progress x rest v ⟨distinct, inside, changed⟩ verdict
    have fresh := (List.nodup_cons.mp distinct).1
    refine ⟨(List.nodup_cons.mp distinct).2, fun y tail => inside (List.mem_cons_of_mem _ tail), ?_⟩
    intro d
    by_cases own : v.1 ≠ [] ∧ d ∈ x.statements
    · have listed := inside List.mem_cons_self
      exact .inr ⟨x, listed, fresh, independent.only _ x listed v verdict own.1, own.2⟩
    · rcases changed d with same | ⟨y, listed, absent, may, member⟩
      · exact .inl (by rw [recordVerdict, mem_condemn, same]; simp [own])
      · exact .inr ⟨y, listed, fun tail => absent (List.mem_cons_of_mem _ tail), may, member⟩

theorem recorded_eq (xs : List SignedSubject) (vs : List Verdict) (progress : Inspection) :
    (xs.zip vs).foldl (fun progress p => recordVerdict progress p.1 p.2) progress =
      ((progress.1.1.rejects ((xs.zip vs).flatMap fun p =>
          if p.2.1 = [] then [] else p.1.statements.map (·, p.2.1)),
        progress.1.2 ++ (xs.zip vs).flatMap fun p => p.2.1.map (· ++ ":" ++ p.1.digest)),
        progress.2 ++ (xs.zip vs).flatMap fun p => p.2.2.toList) := by
  generalize xs.zip vs = pairs
  induction pairs generalizing progress with
  | nil => simp [Quarantine.rejects]
  | cons p pairs ih =>
    rw [List.foldl_cons, ih]
    simp [recordVerdict, condemn_quarantine, condemn_reasons, Quarantine.rejects_append]

theorem inspectSubjects_total (independent : Independent judge condemnable subjects)
    (distinct : subjects.Nodup) :
    (∃ r, inspectSubjects judge subjects findings = .ok r) ↔
      ∀ x ∈ subjects, ∃ v, judge findings.1 x = .ok v := by
  rw [inspectSubjects_eq independent distinct]
  simp only [foldlM_record_ok]
  constructor
  · rintro ⟨_, _, both, -⟩ x listed
    obtain ⟨v, -, verdict⟩ := forall₂_mem_left both x listed
    exact ⟨v, verdict⟩
  · intro each
    obtain ⟨vs, both⟩ := exists_forall₂ each
    exact ⟨_, vs, both, rfl⟩

theorem inspectSubjects_ok (independent : Independent judge condemnable subjects)
    (distinct : subjects.Nodup) (run : inspectSubjects judge subjects findings = .ok result) :
    Inspected judge subjects findings result := by
  rw [inspectSubjects_eq independent distinct] at run
  obtain ⟨vs, both, rfl⟩ := foldlM_record_ok.mp run
  have pairs : ∀ x v, (x, v) ∈ subjects.zip vs ↔ x ∈ subjects ∧ judge findings.1 x = .ok v := by
    intro x v
    constructor
    · intro member
      exact ⟨(List.of_mem_zip member).1, (List.forall₂_iff_zip.mp both).2 member⟩
    · rintro ⟨listed, verdict⟩
      obtain ⟨index, bound, rfl⟩ := List.mem_iff_getElem.mp listed
      have same := both.length_eq
      have here := List.forall₂_iff_get.mp both |>.2 index bound (same ▸ bound)
      simp only [List.get_eq_getElem] at here
      rw [here] at verdict
      rw [← Except.ok.inj verdict, List.mem_iff_getElem]
      exact ⟨index, by simpa [same] using same ▸ bound, by simp⟩
  simp only [recorded_eq]
  refine ⟨fun x listed => ?_, ⟨_, rfl, fun d codes => ?_⟩, fun reason => ?_, fun d => ?_⟩
  · obtain ⟨v, -, verdict⟩ := forall₂_mem_left both x listed
    exact ⟨v, verdict⟩
  · simp only [List.mem_flatMap]
    constructor
    · rintro ⟨⟨x, codes', document⟩, member, rejected⟩
      dsimp only at rejected
      split at rejected
      · cases rejected
      · rename_i some
        obtain ⟨d', owned, equal⟩ := List.mem_map.mp rejected
        cases equal
        exact ⟨some, x, ((pairs _ _).mp member).1, owned, document, ((pairs _ _).mp member).2⟩
    · rintro ⟨some, x, listed, owned, document, verdict⟩
      refine ⟨(x, codes, document), (pairs _ _).mpr ⟨listed, verdict⟩, ?_⟩
      rw [if_neg some]
      exact List.mem_map.mpr ⟨d, owned, rfl⟩
  · simp only [List.mem_append, List.mem_flatMap, List.mem_map]
    apply or_congr Iff.rfl
    constructor
    · rintro ⟨⟨x, codes, document⟩, member, code, listed, rfl⟩
      obtain ⟨inside, verdict⟩ := (pairs _ _).mp member
      exact ⟨x, inside, codes, document, verdict, code, listed, rfl⟩
    · rintro ⟨x, inside, codes, document, verdict, code, listed, rfl⟩
      exact ⟨(x, codes, document), (pairs _ _).mpr ⟨inside, verdict⟩, code, listed, rfl⟩
  · simp only [List.nil_append, List.mem_flatMap, Option.mem_toList]
    constructor
    · rintro ⟨⟨x, codes, document⟩, member, yields⟩
      obtain ⟨inside, verdict⟩ := (pairs _ _).mp member
      have found : document = some d := yields
      exact ⟨x, inside, codes, by rw [verdict, found]⟩
    · rintro ⟨x, inside, codes, verdict⟩
      exact ⟨(x, codes, some d), (pairs _ _).mpr ⟨inside, verdict⟩, rfl⟩

end inspect
end Authority

end CollectivePhaseControl
