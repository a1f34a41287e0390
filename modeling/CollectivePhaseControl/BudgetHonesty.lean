import CollectivePhaseControl.CompatibleProfiles
import CollectivePhaseControl.KernelBudgets

/-! What an audit reports on two budgets. An audit that runs out reports every dimension as
unknown, with one exception: where the budget runs out inside the reduced audit of the suite's
last scenario, nothing is paid for any more, and that scenario counts as collapsed. -/
namespace CollectivePhaseControl

/-- The last scenario, and the reduced snapshot that is left to audit for it. -/
structure LastScenario where
  suite : PerturbationSuiteSpec
  scenario : PerturbationScenario
  blockers : List String
  reduced : AnalysisSnapshot
  objects : Objects

/-- The verdict on the suite once the last reduced audit has returned. -/
def LastScenario.judge (last : LastScenario) (profile : OperationalProfile) :
    Checked DimensionResult :=
  verdict (last.blockers ++ reasonIf (failedDimensions last.suite profile ≠ [])
    ("scenario_collapse:" ++ last.scenario.scenarioId)) [] ""

section stages
variable (h : AuditServices) (snapshot : AnalysisSnapshot) (allObjects : Objects)

/-- A replay up to the reduced audit of its last scenario, or its blockers where the suite or
its last reduction leaves nothing to audit. -/
def replayToLast (suite : PerturbationSuiteSpec) : Analysis (LastScenario ⊕ List String) :=
  match suite.scenarios.getLast? with
  | none => pure (.inr [])
  | some scenario => do
    let replayed ← suite.scenarios.dropLast.foldlM (replayScenario h snapshot allObjects suite)
      ([], [])
    spend 1
    let reduction ← lift (reduceSnapshot h snapshot allObjects scenario)
    match reduction.snapshot with
    | none => pure (.inr (replayed.1 ++ ["scenario_invalid:" ++ scenario.scenarioId]))
    | some reduced => pure (.inl ⟨suite, scenario, replayed.1, reduced, reduction.objects⟩)

def robustnessToLast (objects : Objects) : Analysis (LastScenario ⊕ DimensionResult) := do
  let suites := (typed objects DocumentSpec.suite?).filter fun item =>
    item.2.baselineSnapshotDigest == snapshot.spec.analysisBasisDigest
  match suites with
  | [(_, suite)] =>
    if suite.baselineSnapshotDigest ≠ snapshot.spec.analysisBasisDigest then
      let result ← lift (finding .violated ["perturbation_suite_baseline_snapshot_mismatch"])
      pure (.inr result)
    else if ¬ ∀ name ∈ snapshot.spec.requiredDimensions, name = "perturbation_robustness" ∨
        name ∈ suite.requiredDimensions then
      let result ← lift (finding .violated ["perturbation_acceptance_omits_required_dimension"])
      pure (.inr result)
    else
      let replayed ← replayToLast h snapshot allObjects suite
      match replayed with
      | .inl last => pure (.inl last)
      | .inr blockers => do
        let result ← lift (verdict blockers [] "")
        pure (.inr result)
  | _ => do
    let result ← lift (finding .unknown ["exactly_one_complete_perturbation_suite_required"])
    pure (.inr result)

abbrev Results := List (Identifier × DimensionResult)

def robustProfile (results : Results) (robust : DimensionResult) : Checked OperationalProfile :=
  profileOf h snapshot (results ++ [("perturbation_robustness", robust)])

def auditToLast (evaluationAt : Option DateTime) :
    Analysis ((Results × LastScenario) ⊕ OperationalProfile) := do
  let (provenance, objects) ← lift (provenance h snapshot allObjects)
  let (temporal, time) ← lift (temporal h snapshot objects evaluationAt)
  let trust ← lift (trust h snapshot objects)
  let first := [("provenance_integrity", provenance), ("trust_quorum", trust),
    ("temporal_integrity", temporal)]
  match time, provenance.status with
  | some time, .satisfied =>
    let kernel ← kernelDimensions h snapshot objects time
    let robust ← robustnessToLast h snapshot allObjects objects
    match robust with
    | .inl last => pure (.inl (first ++ kernel, last))
    | .inr robust => do
      let profile ← lift (robustProfile h snapshot (first ++ kernel) robust)
      pure (.inr profile)
  | _, _ =>
    let rest ← lift (uniform .unknown ["typed_live_snapshot_unavailable"]
      (mandatoryDimensions.drop 3))
    let profile ← lift (profileOf h snapshot (first ++ rest))
    pure (.inr profile)

def resume : (Results × LastScenario) ⊕ OperationalProfile → Analysis OperationalProfile
  | .inl (results, last) => do
    let profile ← auditReduced h last.reduced last.objects
    let robust ← lift (last.judge profile)
    lift (robustProfile h snapshot results robust)
  | .inr profile => pure profile

theorem replayPerturbations_toLast (suite : PerturbationSuiteSpec) :
    (do let replayed ← suite.scenarios.foldlM (replayScenario h snapshot allObjects suite) ([], [])
        lift (verdict replayed.1 [] "")) =
      replayToLast h snapshot allObjects suite >>= fun stage =>
        match stage with
        | .inl last => do
          let profile ← auditReduced h last.reduced last.objects
          lift (last.judge profile)
        | .inr blockers => lift (verdict blockers [] "") := by
  unfold replayToLast
  cases scenarios : suite.scenarios using List.reverseRecOn with
  | nil => simp
  | append_singleton earlier scenario _ =>
    simp only [List.getLast?_append, List.getLast?_singleton, Option.some_or, List.dropLast_concat,
      List.foldlM_append, List.foldlM_cons, List.foldlM_nil, bind_assoc, bind_pure]
    refine bind_congr fun replayed => ?_
    rw [replayScenario]
    simp only [bind_assoc]
    refine bind_congr fun _ => bind_congr fun reduction => ?_
    cases reduction.snapshot with
    | none => simp
    | some reduced => simp [LastScenario.judge]

theorem robustness_toLast (objects : Objects) :
    robustness h snapshot allObjects objects =
      robustnessToLast h snapshot allObjects objects >>= fun stage =>
        match stage with
        | .inl last => do
          let profile ← auditReduced h last.reduced last.objects
          lift (last.judge profile)
        | .inr robust => pure robust := by
  unfold robustness robustnessToLast
  dsimp only
  generalize (typed objects DocumentSpec.suite?).filter (fun item =>
    item.2.baselineSnapshotDigest == snapshot.spec.analysisBasisDigest) = suites
  match suites with
  | [] => simp
  | _ :: _ :: _ => simp
  | [(document, suite)] =>
    dsimp only
    rw [map_eq_pure_bind, replayPerturbations]
    by_cases bound : suite.baselineSnapshotDigest ≠ snapshot.spec.analysisBasisDigest
    · rw [if_pos bound, if_pos bound]
      simp
    · rw [if_neg bound, if_neg bound]
      by_cases omits : ¬ ∀ name ∈ snapshot.spec.requiredDimensions,
          name = "perturbation_robustness" ∨ name ∈ suite.requiredDimensions
      · rw [if_pos omits, if_pos omits]
        simp
      · rw [if_neg omits, if_neg omits]
        have staged := replayPerturbations_toLast h snapshot allObjects suite
        simp only [bind_assoc, pure_bind, bind_pure, staged]
        refine bind_congr fun stage => ?_
        cases stage <;> simp

theorem auditSnapshot_toLast (evaluationAt : Option DateTime) :
    auditSnapshot h snapshot allObjects true evaluationAt =
      exceptBudget (auditToLast h snapshot allObjects evaluationAt >>= resume h snapshot)
        (lift (budgetUnknown (h.document (snapshot.document .analysisSnapshot)))) := by
  rw [auditSnapshot, if_pos rfl, auditWith]
  dsimp only
  congr 1
  rw [auditToLast]
  simp only [bind_assoc]
  refine bind_congr fun checked => ?_
  obtain ⟨provenance, objects⟩ := checked
  refine bind_congr fun timed => ?_
  obtain ⟨temporal, time⟩ := timed
  refine bind_congr fun trust => ?_
  generalize provenance.status = status
  have withheld : (do
      let rest ← lift (uniform .unknown ["typed_live_snapshot_unavailable"]
        (mandatoryDimensions.drop 3))
      lift (profileOf h snapshot ([("provenance_integrity", provenance), ("trust_quorum", trust),
        ("temporal_integrity", temporal)] ++ rest))) = (do
      let rest ← lift (uniform .unknown ["typed_live_snapshot_unavailable"]
        (mandatoryDimensions.drop 3))
      let profile ← lift (profileOf h snapshot ([("provenance_integrity", provenance),
        ("trust_quorum", trust), ("temporal_integrity", temporal)] ++ rest))
      pure (Sum.inr profile)) >>= resume h snapshot := by
    simp [resume]
  cases time with
  | none => exact withheld
  | some time =>
    cases status with
    | satisfied =>
      simp only [bind_assoc, robustness_toLast]
      refine bind_congr fun kernel => ?_
      refine bind_congr fun stage => ?_
      cases stage <;> simp [resume, robustProfile]
    | _ => exact withheld

theorem solvent_replayToLast (suite : PerturbationSuiteSpec) :
    Solvent (replayToLast h snapshot allObjects suite) := by
  unfold replayToLast
  split
  · exact solvent_pure _
  · refine Durable.bind_spend ?_ fun replayed => (solvent_lift _).bind fun reduction => ?_
    · exact durable_foldlM (durable_replayScenario h snapshot allObjects suite) _ _
    · split
      · exact solvent_pure _
      · exact solvent_pure _

theorem solvent_robustnessToLast (objects : Objects) :
    Solvent (robustnessToLast h snapshot allObjects objects) := by
  unfold robustnessToLast
  dsimp only
  split
  · split
    · exact (solvent_lift _).bind fun _ => solvent_pure _
    · split
      · exact (solvent_lift _).bind fun _ => solvent_pure _
      · refine (solvent_replayToLast h snapshot allObjects _).bind fun replayed => ?_
        cases replayed with
        | inl last => exact solvent_pure _
        | inr blockers => exact (solvent_lift _).bind fun _ => solvent_pure _
  · exact (solvent_lift _).bind fun _ => solvent_pure _

theorem solvent_auditToLast (evaluationAt : Option DateTime) :
    Solvent (auditToLast h snapshot allObjects evaluationAt) := by
  refine (solvent_lift _).bind fun checked => ?_
  refine (solvent_lift _).bind fun timed => (solvent_lift _).bind fun _ => ?_
  dsimp only
  split
  · refine (solvent_kernelDimensions h snapshot _ _).bind fun _ => ?_
    refine (solvent_robustnessToLast h snapshot allObjects _).bind fun robust => ?_
    cases robust with
    | inl last => exact solvent_pure _
    | inr robust => exact (solvent_lift _).bind fun _ => solvent_pure _
  · exact (solvent_lift _).bind fun _ => (solvent_lift _).bind fun _ => solvent_pure _

/-- What the audit has found when it comes to its last reduced audit: the results of the other
dimensions, and a suite that asks for one of them at least. -/
def Comes (stage : (Results × LastScenario) ⊕ OperationalProfile) : Prop :=
  match stage with
  | .inl (results, last) => results.map Prod.fst = mandatoryDimensions.take 12 ∧
      "structural_reachability" ∈ last.suite.requiredDimensions
  | .inr _ => True

theorem yields_replayToLast (suite : PerturbationSuiteSpec) :
    Yields (replayToLast h snapshot allObjects suite) fun stage =>
      ∀ last, stage = .inl last → last.suite = suite := by
  unfold replayToLast
  split
  · exact yields_pure fun _ other => by cases other
  · refine yields_bind (yields_trivial _) fun _ _ => yields_bind (yields_trivial _) fun _ _ => ?_
    refine yields_bind (yields_trivial _) fun reduction _ => ?_
    split
    · exact yields_pure fun _ other => by cases other
    · refine yields_pure fun last same => ?_
      cases same
      rfl

theorem yields_robustnessToLast
    (covered : ∀ name ∈ mandatoryDimensions, name ∈ snapshot.spec.requiredDimensions)
    (objects : Objects) : Yields (robustnessToLast h snapshot allObjects objects) fun stage =>
      ∀ last, stage = .inl last → "structural_reachability" ∈ last.suite.requiredDimensions := by
  have none (x : Checked DimensionResult) : Yields (do
      let result ← lift x
      pure (Sum.inr result)) fun stage : LastScenario ⊕ DimensionResult =>
        ∀ last, stage = .inl last → "structural_reachability" ∈ last.suite.requiredDimensions :=
    yields_bind (yields_trivial _) fun _ _ => yields_pure fun _ other => by cases other
  unfold robustnessToLast
  dsimp only
  split
  · split
    · exact none _
    · split
      · exact none _
      · rename_i asks
        rw [not_not] at asks
        refine yields_bind (yields_replayToLast h snapshot allObjects _) fun stage same => ?_
        cases stage with
        | inl last =>
          refine yields_pure fun last' eq => ?_
          cases eq
          rw [same last rfl]
          have required := covered "structural_reachability" (by decide)
          exact (asks _ required).resolve_left (by decide)
        | inr blockers => exact none _
  · exact none _

theorem yields_kernelNames (objects : Objects) (time : DateTime) :
    Yields (kernelDimensions h snapshot objects time) fun kernel =>
      kernel.map Prod.fst = (mandatoryDimensions.take 12).drop 3 := by
  iterate 9 refine yields_bind (yields_trivial _) fun _ _ => ?_
  exact yields_pure rfl

theorem yields_auditToLast (evaluationAt : Option DateTime) :
    Yields (auditToLast h snapshot allObjects evaluationAt) Comes := by
  refine yields_bind (yields_lift _) fun checked made => ?_
  obtain ⟨provenance, objects⟩ := checked
  refine yields_bind (yields_trivial _) fun timed _ => ?_
  obtain ⟨temporal, time⟩ := timed
  refine yields_bind (yields_trivial _) fun trust _ => ?_
  dsimp only
  split
  · rename_i time satisfied
    have covered : ∀ name ∈ mandatoryDimensions, name ∈ snapshot.spec.requiredDimensions := by
      by_contra uncovered
      exact provenanceReasons_uncovered uncovered ((provenance_ok made).2.mp satisfied)
    refine yields_bind (yields_kernelNames h snapshot objects time) fun kernel named => ?_
    refine yields_bind (yields_robustnessToLast h snapshot allObjects covered objects)
      fun stage asks => ?_
    cases stage with
    | inl last =>
      refine yields_pure ⟨?_, asks last rfl⟩
      rw [List.map_append, named]
      rfl
    | inr robust => exact yields_bind (yields_trivial _) fun _ _ => yields_pure trivial
  · exact yields_bind (yields_trivial _) fun _ _ =>
      yields_bind (yields_trivial _) fun _ _ => yields_pure trivial

end stages

def OperationalProfile.reported (profile : OperationalProfile) (name : Identifier) :
    Option ProfileStatus := (profile.dimensions[name]?).map (·.status)

theorem reported_budgetUnknown {digest : Digest} {profile : OperationalProfile}
    (made : budgetUnknown digest = .ok profile) {name : Identifier} {status : ProfileStatus}
    (found : profile.reported name = some status) : status = .unknownDueToBudget := by
  simp only [budgetUnknown, bind_ok, validated_ok] at made
  obtain ⟨results, listed, -, rfl⟩ := made
  obtain ⟨r, held, rfl⟩ := Option.map_eq_some_iff.mp found
  exact (uniform_ok listed).2 _ (Dict.mem_of_ofList held)

section reports
variable {h : AuditServices} {snapshot : AnalysisSnapshot} {results : Results}
  {profile : OperationalProfile} {name : Identifier} {status : ProfileStatus}

theorem reported_robustProfile (named : results.map Prod.fst = mandatoryDimensions.take 12)
    {robust : DimensionResult} (made : robustProfile h snapshot results robust = .ok profile) :
    profile.reported name = some status ↔ (∃ r, (name, r) ∈ results ∧ r.status = status) ∨
      name = "perturbation_robustness" ∧ robust.status = status := by
  have names : (results ++ [("perturbation_robustness", robust)]).map Prod.fst =
      mandatoryDimensions := by
    rw [List.map_append, named]
    rfl
  have distinct : ((results ++ [("perturbation_robustness", robust)]).map Prod.fst).Nodup := by
    rw [names]
    decide
  rw [OperationalProfile.reported, (profileOf_ok made).1, Option.map_eq_some_iff]
  constructor
  · rintro ⟨r, held, same⟩
    have member := Dict.mem_of_ofList held
    simp only [List.mem_append, List.mem_singleton, Prod.mk.injEq] at member
    obtain listed | ⟨rfl, rfl⟩ := member
    · exact .inl ⟨r, listed, same⟩
    · exact .inr ⟨rfl, same⟩
  · rintro (⟨r, listed, same⟩ | ⟨rfl, same⟩)
    · exact ⟨r, Dict.getElem?_ofList distinct (List.mem_append_left _ listed), same⟩
    · exact ⟨robust, Dict.getElem?_ofList distinct (by simp), same⟩

theorem exists_robustProfile (named : results.map Prod.fst = mandatoryDimensions.take 12)
    (robust : DimensionResult) : ∃ profile, robustProfile h snapshot results robust = .ok profile :=
  exists_profileOf (by rw [List.map_append, named]; rfl)

theorem reported_same (named : results.map Prod.fst = mandatoryDimensions.take 12)
    {robust robust' : DimensionResult} {profile' : OperationalProfile}
    (made : robustProfile h snapshot results robust = .ok profile)
    (made' : robustProfile h snapshot results robust' = .ok profile')
    (same : robust.status = robust'.status) (found : profile.reported name = some status) :
    profile'.reported name = some status := by
  rw [reported_robustProfile named made] at found
  rw [reported_robustProfile named made', ← same]
  exact found

theorem judge_status {last : LastScenario} {robust : DimensionResult}
    (judged : last.judge profile = .ok robust) : robust.status =
      if last.blockers = [] ∧ failedDimensions last.suite profile = [] then .satisfied
      else .violated := by
  have made := (dimensionResult_ok judged).1
  by_cases failed : failedDimensions last.suite profile = []
  · simp [failed, reasonIf] at made
    simpa [failed] using made
  · simp [failed, reasonIf] at made
    simpa [failed] using made

theorem judge_total {last : LastScenario} {profile' : OperationalProfile} {robust : DimensionResult}
    (failed : failedDimensions last.suite profile ≠ [])
    (judged : last.judge profile = .ok robust) : ∃ robust', last.judge profile' = .ok robust' := by
  unfold LastScenario.judge at judged ⊢
  rw [verdict, dimensionResult, validated_ok] at judged
  obtain ⟨⟨named, few, -, -⟩, -⟩ := judged
  refine exists_verdict (fun blocker member => mem_sortedSet.mpr ?_) named few (Nat.zero_le _)
  rw [List.mem_append] at member ⊢
  refine member.imp_right fun collapse => mem_reasonIf.mpr ⟨failed, (mem_reasonIf.mp collapse).2⟩

end reports

def timely (operations : ℤ) : Budget := .ofOperations operations fun _ => false

theorem richer_timely (operations operations' : ℤ) :
    Richer (operations' - operations) (timely operations) (timely operations') :=
  ⟨by simp only [timely, Budget.ofOperations]; omega, fun _ => rfl, fun _ => rfl⟩

section budgets
variable (h : AuditServices) (snapshot : AnalysisSnapshot) (allObjects : Objects)
  (evaluationAt : Option DateTime) (operations operations' : ℤ)

/-- What the audit reports as satisfied or violated, it reports on the other budget, too. -/
def Honest : Prop := ∀ profile after,
  auditSnapshot h snapshot allObjects true evaluationAt (timely operations) = .ok profile after →
  ∀ name ∈ mandatoryDimensions, ∀ status, status = .satisfied ∨ status = .violated →
    profile.reported name = some status → ∃ profile' after',
      auditSnapshot h snapshot allObjects true evaluationAt (timely operations') =
        .ok profile' after' ∧ profile'.reported name = some status

/-- The operations run out inside the reduced audit of the last scenario, and a result can say
that the scenario has collapsed. -/
def CutOff (last : LastScenario) : Prop := ∃ results middle profile after robust,
  auditToLast h snapshot allObjects evaluationAt (timely operations) =
    .ok (.inl (results, last)) middle ∧
  auditReduced h last.reduced last.objects middle = .ok profile after ∧ Overdrawn middle after ∧
  last.judge profile = .ok robust

/-- An earlier scenario has collapsed or is invalid, or the last one collapses, the reduced
audit of which returns. -/
def Collapses (last : LastScenario) : Prop := ∃ results middle profile after,
  auditToLast h snapshot allObjects evaluationAt (timely operations) =
    .ok (.inl (results, last)) middle ∧
  auditReduced h last.reduced last.objects middle = .ok profile after ∧
  (last.blockers ≠ [] ∨ failedDimensions last.suite profile ≠ [])

end budgets

section honest
variable {h : AuditServices} {snapshot : AnalysisSnapshot} {allObjects : Objects}
  {evaluationAt : Option DateTime} {budget middle after : Budget}

theorem auditSnapshot_last {results : Results} {last : LastScenario}
    (reached : auditToLast h snapshot allObjects evaluationAt budget =
      .ok (.inl (results, last)) middle) :
    auditSnapshot h snapshot allObjects true evaluationAt budget =
      exceptBudget (resume h snapshot (.inl (results, last)))
        (lift (budgetUnknown (h.document (snapshot.document .analysisSnapshot)))) middle := by
  rw [auditSnapshot_toLast]
  unfold exceptBudget
  rw [bind_run reached]

theorem reported_raised {x : Analysis OperationalProfile} {digest : Digest} {fault : Fault}
    {profile : OperationalProfile} {caught : Budget} (raised : x budget = .error fault after)
    (run : exceptBudget x (lift (budgetUnknown digest)) budget = .ok profile caught)
    {name : Identifier} {status : ProfileStatus} (found : profile.reported name = some status) :
    status = .unknownDueToBudget := by
  by_cases exceeded : fault = analysisBudgetExceeded
  · rw [exceptBudget_exceeded (exceeded ▸ raised)] at run
    exact reported_budgetUnknown (lift_run.mp run).1 found
  · rw [exceptBudget_error raised exceeded] at run
    cases run

theorem auditReduced_overdrawn {profile : OperationalProfile}
    (run : auditReduced h snapshot allObjects budget = .ok profile after)
    (overdrawn : Overdrawn budget after) {name : Identifier} {status : ProfileStatus}
    (found : profile.reported name = some status) : status = .unknownDueToBudget := by
  rw [auditReduced, auditWith_body] at run
  have solvent := solvent_auditBody h snapshot allObjects none fun _ => solvent_lift
    (finding .unknown ["robustness_not_requested_for_reduced_snapshot"])
  cases body : auditBody h snapshot allObjects (fun _ =>
      lift (finding .unknown ["robustness_not_requested_for_reduced_snapshot"])) none budget with
  | ok profile' after' =>
    rw [exceptBudget_ok body] at run
    cases run
    exact absurd overdrawn (solvent.solvent _ _ _ body)
  | error fault after' => exact reported_raised body run found

theorem failedDimensions_overdrawn {suite : PerturbationSuiteSpec} {profile : OperationalProfile}
    (asked : "structural_reachability" ∈ suite.requiredDimensions)
    (run : auditReduced h snapshot allObjects budget = .ok profile after)
    (overdrawn : Overdrawn budget after) : failedDimensions suite profile ≠ [] := by
  refine List.ne_nil_of_mem (a := "structural_reachability") (List.mem_filter.mpr ⟨asked, ?_⟩)
  rw [Bool.and_eq_true, bne_iff_ne, bne_iff_ne]
  refine ⟨by decide, fun satisfied => ?_⟩
  have unknown := auditReduced_overdrawn run overdrawn satisfied
  cases unknown

theorem auditSnapshot_judged {results : Results} {last : LastScenario}
    {profile : OperationalProfile} {robust : DimensionResult}
    (reached : auditToLast h snapshot allObjects evaluationAt budget =
      .ok (.inl (results, last)) middle)
    (audited : auditReduced h last.reduced last.objects middle = .ok profile after)
    (judged : last.judge profile = .ok robust) :
    ∃ found, robustProfile h snapshot results robust = .ok found ∧
      auditSnapshot h snapshot allObjects true evaluationAt budget = .ok found after := by
  have comes := yields_auditToLast h snapshot allObjects evaluationAt _ _ _ reached
  obtain ⟨found, made⟩ := @exists_robustProfile h snapshot results comes.1 robust
  refine ⟨found, made, ?_⟩
  rw [auditSnapshot_last reached]
  refine exceptBudget_ok ?_
  rw [resume, bind_run audited, bind_run (lift_run.mpr ⟨judged, rfl⟩)]
  exact lift_run.mpr ⟨made, rfl⟩

theorem exists_judged {results : Results} {last : LastScenario} {found : OperationalProfile}
    (reached : auditToLast h snapshot allObjects evaluationAt budget =
      .ok (.inl (results, last)) middle)
    (run : auditSnapshot h snapshot allObjects true evaluationAt budget = .ok found after)
    {name : Identifier} {status : ProfileStatus} (known : status ≠ .unknownDueToBudget)
    (reports : found.reported name = some status) : ∃ profile robust,
      auditReduced h last.reduced last.objects middle = .ok profile after ∧
      last.judge profile = .ok robust ∧ robustProfile h snapshot results robust = .ok found := by
  rw [auditSnapshot_last reached] at run
  cases staged : resume h snapshot (.inl (results, last)) middle with
  | error fault after' => exact absurd (reported_raised staged run reports) known
  | ok found' after' =>
    rw [exceptBudget_ok staged] at run
    cases run
    obtain ⟨profile, left', audited, rest⟩ := exists_of_bind staged
    obtain ⟨robust, left'', ruled, finished⟩ := exists_of_bind rest
    obtain ⟨judged, rfl⟩ := lift_run.mp ruled
    obtain ⟨made, rfl⟩ := lift_run.mp finished
    exact ⟨profile, robust, audited, judged, made⟩

/-- What an audit decides on one budget, it decides in the same way on a larger one, unless the
operations run out inside the reduced audit of the last scenario and this or an earlier one
does not collapse on the larger budget. -/
theorem honest_iff {operations operations' : ℤ} (more : operations ≤ operations') :
    Honest h snapshot allObjects evaluationAt operations operations' ↔
      ∀ last, CutOff h snapshot allObjects evaluationAt operations last →
        Collapses h snapshot allObjects evaluationAt operations' last := by
  have rich := richer_timely operations operations'
  have extra : 0 ≤ operations' - operations := by omega
  have solvent := solvent_auditToLast h snapshot allObjects evaluationAt
  have mandatory : "perturbation_robustness" ∈ mandatoryDimensions := by decide
  constructor
  · rintro honest last ⟨results, middle, profile, after, robust, reached, audited, overdrawn, judged⟩
    have comes := yields_auditToLast h snapshot allObjects evaluationAt _ _ _ reached
    have failed := failedDimensions_overdrawn comes.2 audited overdrawn
    obtain ⟨found, made, run⟩ := auditSnapshot_judged reached audited judged
    have violated : robust.status = .violated := by
      rw [judge_status judged, if_neg fun clean => failed clean.2]
    have reports : found.reported "perturbation_robustness" = some .violated :=
      (reported_robustProfile comes.1 made).mpr (.inr ⟨rfl, violated⟩)
    obtain ⟨found', after', run', reports'⟩ :=
      honest found after run _ mandatory .violated (.inr rfl) reports
    obtain ⟨middle', reached', -⟩ :=
      solvent.toDurable.ok extra rich reached (solvent.solvent _ _ _ reached)
    obtain ⟨profile', robust', audited', judged', made'⟩ :=
      exists_judged reached' run' (by decide) reports'
    refine ⟨results, middle', profile', after', reached', audited', ?_⟩
    have others : ∀ r, ("perturbation_robustness", r) ∉ results := by
      intro r member
      have named := List.mem_map_of_mem (f := Prod.fst) member
      rw [comes.1] at named
      have absent : "perturbation_robustness" ∉ mandatoryDimensions.take 12 := by decide
      exact absent named
    have violated' : robust'.status = .violated := by
      cases (reported_robustProfile comes.1 made').mp reports' with
      | inl other =>
        obtain ⟨r, member, -⟩ := other
        exact absurd member (others r)
      | inr own => exact own.2
    rw [judge_status judged'] at violated'
    by_contra clean
    rw [not_or, not_not, not_not] at clean
    rw [if_pos clean] at violated'
    cases violated'
  · intro collapses found after run name _ status decided reports
    have known : status ≠ .unknownDueToBudget := by
      rintro rfl
      cases decided with
      | inl other => cases other
      | inr other => cases other
    cases reached : auditToLast h snapshot allObjects evaluationAt (timely operations) with
    | error fault middle =>
      rw [auditSnapshot_toLast] at run
      exact absurd (reported_raised (bind_raised reached) run reports) known
    | ok stage middle =>
      obtain ⟨middle', reached', rich'⟩ :=
        solvent.toDurable.ok extra rich reached (solvent.solvent _ _ _ reached)
      cases stage with
      | inr profile =>
        have same (budget left' : Budget) (here : auditToLast h snapshot allObjects evaluationAt
            budget = .ok (.inr profile) left') : auditSnapshot h snapshot allObjects true
            evaluationAt budget = .ok profile left' := by
          rw [auditSnapshot_toLast]
          exact exceptBudget_ok (bind_run here)
        rw [same _ _ reached] at run
        cases run
        exact ⟨_, middle', same _ _ reached', reports⟩
      | inl stage =>
        obtain ⟨results, last⟩ := stage
        have comes := yields_auditToLast h snapshot allObjects evaluationAt _ _ _ reached
        obtain ⟨profile, robust, audited, judged, made⟩ := exists_judged reached run known reports
        by_cases overdrawn : Overdrawn middle after
        · obtain ⟨results', left', profile', after', again, audited', fails⟩ :=
            collapses last ⟨results, middle, profile, after, robust, reached, audited, overdrawn,
              judged⟩
          cases reached'.symm.trans again
          have failed := failedDimensions_overdrawn comes.2 audited overdrawn
          obtain ⟨robust', judged'⟩ : ∃ robust', last.judge profile' = .ok robust' :=
            judge_total failed judged
          obtain ⟨found', made', run'⟩ := auditSnapshot_judged reached' audited' judged'
          have alike : robust.status = robust'.status := by
            rw [judge_status judged, judge_status judged', if_neg fun clean => failed clean.2,
              if_neg fun clean => fails.elim (· clean.1) (· clean.2)]
          exact ⟨found', after', run', reported_same comes.1 made made' alike reports⟩
        · obtain ⟨after', audited', -⟩ :=
            (durable_auditReduced h last.reduced last.objects).ok extra rich' audited overdrawn
          obtain ⟨found', made', run'⟩ := auditSnapshot_judged reached' audited' judged
          cases made.symm.trans made'
          exact ⟨found, after', run', reports⟩

end honest

namespace CutOffSample
open AuditSample

def scenario : PerturbationScenario :=
  ⟨"loss", [], [], [], [], [], [], [], [], [], [], [], [], [], [], [], [], [], none⟩

def attested : List Document :=
  [transformation "reaction" [("base", one)] [("target", one)], state "base",
    document "suite" (.perturbationSuite ⟨"snapshot", [scenario], mandatoryDimensions⟩)]

def baseline : AnalysisSnapshot := snapshot ["target"] ∅ attested

def documents : Objects := objects (attested ++ framework ["target"] ∅ ["base", "target"])

def cuts (operations : ℤ) : Bool :=
  match auditToLast services baseline documents none (timely operations) with
  | .ok (.inl (_, last)) middle =>
    match auditReduced services last.reduced last.objects middle with
    | .ok profile after =>
      decide (after.remaining < 0) && decide (after.remaining < middle.remaining) &&
        (last.judge profile).isOk
    | .error _ _ => false
  | _ => false

theorem exists_cutOff {operations : ℤ} (cut : cuts operations = true) :
    ∃ last, CutOff services baseline documents none operations last := by
  unfold cuts at cut
  split at cut
  · rename_i results last middle reached
    split at cut
    · rename_i profile after audited
      rw [Bool.and_eq_true, Bool.and_eq_true, decide_eq_true_eq, decide_eq_true_eq] at cut
      obtain ⟨overdrawn, judged⟩ := cut
      cases ruled : last.judge profile with
      | error fault =>
        rw [ruled] at judged
        cases judged
      | ok robust =>
        exact ⟨last, results, middle, profile, after, robust, reached, audited, overdrawn, ruled⟩
    · cases cut
  · cases cut

theorem cuts_eighteen : cuts 18 = true := by decide +kernel

end CutOffSample

open AuditSample CutOffSample in
theorem honest_iff_sample : (18 : ℤ) ≤ 100 ∧
    (∃ last, CutOff services baseline documents none 18 last) ∧
    (Honest services baseline documents none 18 100 ↔
      ∀ last, CutOff services baseline documents none 18 last →
        Collapses services baseline documents none 100 last) :=
  ⟨by decide, exists_cutOff cuts_eighteen, honest_iff (by decide)⟩

end CollectivePhaseControl
