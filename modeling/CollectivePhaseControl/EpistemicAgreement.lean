import CollectivePhaseControl.EpistemicComparisons

/-! The search and the reference tell the same bounds. Both start from the same support, a
complete search enumerates every feasible policy, and the best worst case of those is what
the reference folds over the branches. -/
namespace CollectivePhaseControl

open BudgetedSearch

variable {hash : EpistemicHashing}

namespace Domain
variable {d : Domain hash} {roots : Support → Prop}

theorem excluding_advance {interactions : List Identifier} {support : Support}
    {actionId : Identifier} {found : List (Identifier × Support)}
    (h : (d.excluding interactions).advance support actionId = .ok found) :
    d.advance support actionId = .ok found := by
  obtain ⟨recipe, lists, chosen, each, grouped⟩ := advance_ok.mp h
  obtain ⟨some', named, allowed, free⟩ := chosenRecipe_ok.mp chosen
  refine advance_ok.mpr ⟨recipe, lists, chosenRecipe_ok.mpr ⟨some', named, allowed, ?_⟩, each,
    grouped⟩
  exact fun interaction member excluded => free interaction member (List.mem_append_left _ excluded)

theorem SupportsApart.excluding (apart : d.SupportsApart roots) (interactions : List Identifier) :
    (d.excluding interactions).SupportsApart (d.ReachedSupport roots) := by
  have within : ∀ s, (d.excluding interactions).ReachedSupport (d.ReachedSupport roots) s →
      d.ReachedSupport roots s := by
    intro s reached
    induction reached with
    | root start => exact start
    | entered _ marking ih => exact .entered ih marking
    | branch _ advanced listed ih => exact .branch ih (excluding_advance advanced) listed
  exact fun s t reached reached' => apart s t (within s reached) (within t reached')

section replay
variable {basisAt basisAt' : ℕ → Checked (List GrowthComparison)}
  {comparisons comparisons' : List GrowthComparison}

theorem replayStep_reached {index : ℕ} {support next : Support} {step : EpistemicStep}
    (reached : d.ReachedSupport roots support)
    (h : d.replayStep basisAt comparisons index support step = .ok next) :
    d.ReachedSupport roots next := by
  simp only [replayStep, bind_ok, require_ok, exists_punit] at h
  obtain ⟨-, entered, entry, found, advanced, shown⟩ := h
  have marked : d.ReachedSupport roots entered := by
    rcases entryStep_ok entry with ⟨-, rfl⟩ | ⟨-, basis, -, marking⟩
    · exact reached
    · exact .entered reached marking
  unfold observed at shown
  split at shown
  case h_1 same =>
    rw [← pure_ok.mp shown]
    exact .branch marked advanced (mem_of_lookup same)
  case h_2 => cases shown

theorem replayFrom_reached : ∀ {history : List EpistemicStep} {index : ℕ} {support final : Support},
    d.ReachedSupport roots support →
    d.replayFrom basisAt comparisons index history support = .ok final →
    d.ReachedSupport roots final := by
  intro history
  induction history with
  | nil =>
    intro index support final reached h
    cases h
    exact reached
  | cons step history ih =>
    intro index support final reached h
    obtain ⟨next, head, rest⟩ := bind_ok.mp h
    exact ih (replayStep_reached reached head) rest

theorem replayWith_reached {history : List EpistemicStep} {final : Support}
    (h : d.replayWith basisAt comparisons history = .ok final) :
    d.ReachedSupport (fun s => d.initial = .ok s) final := by
  simp only [replayWith, bind_ok, require_ok, exists_punit] at h
  obtain ⟨-, first, opened, rest⟩ := h
  exact replayFrom_reached (.root opened) rest

theorem replayStep_unique {index : ℕ} {support next next' : Support} {step : EpistemicStep}
    (h : d.replayStep basisAt comparisons index support step = .ok next)
    (h' : d.replayStep basisAt' comparisons' index support step = .ok next') : next = next' := by
  simp only [replayStep, bind_ok, require_ok, exists_punit] at h h'
  obtain ⟨-, entered, entry, found, advanced, shown⟩ := h
  obtain ⟨-, entered', entry', found', advanced', shown'⟩ := h'
  have same : entered = entered' := by
    rcases entryStep_ok entry with ⟨carries, rfl⟩ | ⟨marks, basis, -, marking⟩
    · rcases entryStep_ok entry' with ⟨-, rfl⟩ | ⟨marks, -⟩
      · rfl
      · exact absurd (carries.symm.trans marks) Bool.false_ne_true
    · rcases entryStep_ok entry' with ⟨carries, -⟩ | ⟨-, basis', -, marking'⟩
      · exact absurd (carries.symm.trans marks) Bool.false_ne_true
      · obtain ⟨-, -, fits⟩ := markEntry_ok.mp marking
        obtain ⟨-, -, fits'⟩ := markEntry_ok.mp marking'
        exact Except.ok.inj (fits.symm.trans fits')
  subst same
  cases advanced.symm.trans advanced'
  exact Except.ok.inj (shown.symm.trans shown')

theorem replayFrom_unique : ∀ {history : List EpistemicStep} {index : ℕ}
    {support final final' : Support},
    d.replayFrom basisAt comparisons index history support = .ok final →
    d.replayFrom basisAt' comparisons' index history support = .ok final' → final = final' := by
  intro history
  induction history with
  | nil => exact fun h h' => Except.ok.inj (h.symm.trans h')
  | cons step history ih =>
    intro index support final final' h h'
    obtain ⟨next, head, rest⟩ := bind_ok.mp h
    obtain ⟨next', head', rest'⟩ := bind_ok.mp h'
    cases replayStep_unique head head'
    exact ih rest rest'

theorem replayWith_unique {history : List EpistemicStep} {final final' : Support}
    (h : d.replayWith basisAt comparisons history = .ok final)
    (h' : d.replayWith basisAt' comparisons' history = .ok final') : final = final' := by
  simp only [replayWith, bind_ok, require_ok, exists_punit] at h h'
  obtain ⟨-, first, opened, rest⟩ := h
  obtain ⟨-, first', opened', rest'⟩ := h'
  cases opened.symm.trans opened'
  exact replayFrom_unique rest rest'

end replay

end Domain

namespace PolicySearch
variable {x : PolicySearch hash} {roots : Support → Prop}

theorem fresh_sound : x.MemoSound roots .fresh := fun _ _ _ _ listed => nomatch listed

theorem enumerate_delivers (apart : x.domain.SupportsApart roots) (depth : ℕ) {support : Support}
    (reached : x.domain.ReachedSupport roots support) :
    Delivers Intact (x.MemoSound roots) (x.enumerate support depth)
      (fun ps => ∀ p ∈ ps,
        x.Feasible (x.domain.contract.spec.maxDecisions - depth) depth support p)
      fun ps => ∀ p,
        x.Feasible (x.domain.contract.spec.maxDecisions - depth) depth support p → p ∈ ps :=
  delivers_enumerate apart _ depth support rfl reached

theorem enumerate_ok (apart : x.domain.SupportsApart roots) {depth : ℕ} {support : Support}
    (reached : x.domain.ReachedSupport roots support) {policies : List Policy} {σ : PolicyState}
    (run : runFrom (x.enumerate support depth) .fresh = .ok (policies, σ)) :
    (∀ p ∈ policies, x.Feasible (x.domain.contract.spec.maxDecisions - depth) depth support p) ∧
      (σ.budget.complete = true → ∀ p,
        x.Feasible (x.domain.contract.spec.maxDecisions - depth) depth support p →
        p ∈ policies) := by
  obtain ⟨-, sound, full⟩ := enumerate_delivers apart depth reached .fresh _ _ fresh_sound
    (runFrom_ok.mp run)
  exact ⟨sound, fun done => (full done).2⟩

/-- What a search returns is feasible from its start, and it is everything feasible unless a
limit was met. -/
theorem searchFrom_ok (apart : x.domain.SupportsApart roots) {start : Checked Support} {depth : ℕ}
    (reached : ∀ support, start = .ok support → x.domain.ReachedSupport roots support)
    {policies : List Policy} {inconsistent : Bool} {σ : PolicyState}
    (run : runFrom (x.searchFrom start depth) .fresh = .ok ((policies, inconsistent), σ)) :
    (∀ p ∈ policies, ∃ support, start = .ok support ∧
      x.Feasible (x.domain.contract.spec.maxDecisions - depth) depth support p) ∧
    (σ.budget.complete = true → ∃ support, start = .ok support ∧ ∀ p, p ∈ policies ↔
      x.Feasible (x.domain.contract.spec.maxDecisions - depth) depth support p) := by
  rw [runFrom_ok] at run
  change EStateM.tryCatch _ _ _ = _ at run
  unfold EStateM.tryCatch at run
  split at run
  case h_1 fault τ failed =>
    cases fault with
    | crash exception => cases run
    | coded code =>
      dsimp only at run
      split at run
      case isTrue =>
        cases run
        exact ⟨fun p member => absurd member List.not_mem_nil, fun done =>
          absurd done Bool.false_ne_true⟩
      case isFalse => cases run
  case h_2 done =>
    cases start with
    | error fault => cases run
    | ok support =>
      have enumerated := enumerate_delivers apart depth (reached support rfl)
      have body : Delivers Intact (x.MemoSound roots)
          (x.enumerate support depth >>= fun ps => pure (ps, false))
          (fun r => ∀ p ∈ r.1,
            x.Feasible (x.domain.contract.spec.maxDecisions - depth) depth support p)
          fun r => ∀ p,
            x.Feasible (x.domain.contract.spec.maxDecisions - depth) depth support p → p ∈ r.1 :=
        delivers_bind enumerated fun ps sound => delivers_pure sound id
      obtain ⟨-, sound, full⟩ := body .fresh _ _ fresh_sound run
      exact ⟨fun p member => ⟨support, rfl, sound p member⟩, fun done =>
        ⟨support, rfl, fun p => ⟨sound p, (full done).2 p⟩⟩⟩

end PolicySearch

namespace Domain
variable {d : Domain hash} {roots : Support → Prop}

theorem bestOf_best {x : PolicySearch hash} {bound : Bound} {left depth : ℕ} {support : Support}
    {policies : List Policy} (all : ∀ p, p ∈ policies ↔ x.Feasible left depth support p)
    {best : Option ℚ} (h : x.domain.bestOf bound policies = .ok best) :
    MaxMin.Best (x.guaranteed bound left depth support) best := by
  simp only [bestOf, bind_ok, mapM_ok, pure_ok] at h
  obtain ⟨values, each, rfl⟩ := h
  refine MaxMin.best_list fun v => ⟨fun listed => ?_, ?_⟩
  · obtain ⟨p, member, worst⟩ := forall₂_mem_right each v listed
    exact ⟨p, (all p).mp member, worst⟩
  · rintro ⟨p, feasible, worst⟩
    obtain ⟨w, listed, worst'⟩ := forall₂_mem_left each p ((all p).mpr feasible)
    cases worst.symm.trans worst'
    exact listed

/-- A row tells the best worst cases of its class from what a history resumes to. -/
def Tells (d : Domain hash) (resumed : Option Support) (depth : ℕ)
    (restriction : GrowthComparator × ℚ) (row : GrowthComparison) : Prop :=
  let x := d.restrictedSearch restriction.1 restriction.2
  row.comparatorId = restriction.1.comparatorId ∧ row.endpoint = str restriction.2 ∧
    ∃ start lower upper, d.startOf resumed = .ok start ∧
      MaxMin.Best (x.guaranteed .lower (d.contract.spec.maxDecisions - depth) depth start) lower ∧
      MaxMin.Best (x.guaranteed .upper (d.contract.spec.maxDecisions - depth) depth start) upper ∧
      row.lowerBound = lower.map str ∧ row.upperBound = upper.map str

def said (row : GrowthComparison) : Identifier × Rational × Option Rational × Option Rational :=
  (row.comparatorId, row.endpoint, row.lowerBound, row.upperBound)

theorem Tells.unique {resumed : Option Support} {depth : ℕ} {restriction : GrowthComparator × ℚ}
    {row row' : GrowthComparison} (first : d.Tells resumed depth restriction row)
    (second : d.Tells resumed depth restriction row') : said row = said row' := by
  obtain ⟨named, ended, start, lower, upper, starts, least, most, below, above⟩ := first
  obtain ⟨named', ended', start', lower', upper', starts', least', most', below', above'⟩ := second
  cases starts.symm.trans starts'
  rw [said, said, named, ended, below, above, named', ended', below', above', least.unique least',
    most.unique most']

theorem compareAt_tells (apart : d.SupportsApart roots) {resume : Checked (Option Support)}
    {depth : ℕ} (reached : ∀ resumed start, resume = .ok resumed → d.startOf resumed = .ok start →
      d.ReachedSupport roots start) {restriction : GrowthComparator × ℚ} {row : GrowthComparison}
    (h : d.compareAt resume depth restriction.1 restriction.2 = .ok row)
    (complete : row.search.complete = true) :
    ∃ resumed, resume = .ok resumed ∧ d.Tells resumed depth restriction row := by
  simp only [compareAt, bind_ok] at h
  obtain ⟨⟨⟨policies, inconsistent⟩, σ⟩, run, lower, least, rest⟩ := h
  have finished : σ.budget.complete = true := by
    split at rest <;>
    · obtain ⟨upper, -, valid⟩ := bind_ok.mp rest
      cases GrowthComparison.validate_ok valid
      exact complete
  simp only [finished, if_true, bind_ok] at rest
  obtain ⟨upper, most, valid⟩ := rest
  cases GrowthComparison.validate_ok valid
  have starting : ∀ support, (resume >>= d.startOf) = .ok support →
      (d.excluding restriction.1.excludedInteractions).ReachedSupport (d.ReachedSupport roots)
        support := by
    intro support starts
    obtain ⟨resumed, known, starts⟩ := bind_ok.mp starts
    exact .root (reached resumed support known starts)
  obtain ⟨-, exactly⟩ := PolicySearch.searchFrom_ok (apart.excluding _) starting run
  obtain ⟨start, starts, all⟩ := exactly finished
  obtain ⟨resumed, known, starts⟩ := bind_ok.mp starts
  exact ⟨resumed, known, rfl, rfl, start, lower, upper, starts, bestOf_best all least,
    bestOf_best all most, rfl, rfl⟩

theorem referenceAt_tells {resumed : Option Support} {depth : ℕ}
    {restriction : GrowthComparator × ℚ} {row : GrowthComparison}
    (h : d.referenceAt resumed depth restriction.1 restriction.2 = .ok row) :
    d.Tells resumed depth restriction row := by
  simp only [referenceAt, bind_ok] at h
  obtain ⟨start, starts, ⟨bounds, b⟩, run, valid⟩ := h
  cases GrowthComparison.validate_ok valid
  have solved : (d.restrictedSearch restriction.1 restriction.2).Solves
      (d.contract.spec.maxDecisions - depth) depth start bounds :=
    (PolicySearch.returns_value rfl _ depth start rfl _ _ _ trivial (runFrom_ok.mp run)).2.1
  exact ⟨rfl, rfl, start, _, _, starts, solved.1, solved.2, by rw [Option.map_map]; rfl,
    by rw [Option.map_map]; rfl⟩

theorem referenceFrom_tells {resumed : Option Support} {depth : ℕ} {rows : List GrowthComparison}
    (h : d.referenceFrom resumed depth = .ok rows) :
    List.Forall₂ (d.Tells resumed depth) d.comparisonClasses rows :=
  (mapM_ok.mp h).imp fun _ _ referred => referenceAt_tells referred

theorem resume_ok {history : List EpistemicStep} (some' : history ≠ []) {resumed : Option Support} :
    d.resume history = .ok resumed ↔ ∃ first final, d.compareWith (pure none) 0 = .ok first ∧
      d.replay history first = .ok final ∧ resumed = some final := by
  rw [resume, if_neg some']
  simp only [bind_ok, pure_ok]
  constructor
  · rintro ⟨first, compared, final, replayed, rfl⟩
    exact ⟨first, final, compared, replayed, rfl⟩
  · rintro ⟨first, final, compared, replayed, rfl⟩
    exact ⟨first, compared, final, replayed, rfl⟩

theorem resume_reached {history : List EpistemicStep} {resumed : Option Support} {start : Support}
    (h : d.resume history = .ok resumed) (starts : d.startOf resumed = .ok start) :
    d.ReachedSupport (fun s => d.initial = .ok s) start := by
  by_cases none' : history = []
  · rw [resume, if_pos none', pure_ok] at h
    subst h
    exact .root starts
  · obtain ⟨first, final, -, replayed, rfl⟩ := (resume_ok none').mp h
    rw [← pure_ok.mp starts]
    exact replayWith_reached replayed

theorem compareEpistemic_tells (apart : d.SupportsApart fun s => d.initial = .ok s)
    {history : List EpistemicStep} {rows : List GrowthComparison}
    (h : d.compareEpistemic history = .ok rows) (complete : ∀ row ∈ rows, row.search.complete = true) :
    List.Forall₂ (fun restriction row => ∃ resumed, d.resume history = .ok resumed ∧
      d.Tells resumed history.length restriction row) d.comparisonClasses rows := by
  have each := mapM_ok.mp h
  rw [List.forall₂_iff_zip] at each ⊢
  refine ⟨each.1, fun member => ?_⟩
  exact compareAt_tells apart (fun _ _ known starts => resume_reached known starts) (each.2 member)
    (complete _ (List.of_mem_zip member).2)

end Domain

/-- A complete search and the reference say the same of every class, at every point of every
history: of each comparator and endpoint the same bounds, or that there is no policy. -/
theorem comparisons_agree (d : Domain hash) (apart : d.SupportsApart fun s => d.initial = .ok s)
    (history : List EpistemicStep) (searched reference : List GrowthComparison)
    (compared : d.compareEpistemic history = .ok searched)
    (complete : ∀ row ∈ searched, row.search.complete = true)
    (referred : d.referenceComparisons history = .ok reference) :
    searched.map Domain.said = reference.map Domain.said := by
  have each := Domain.compareEpistemic_tells apart compared complete
  have tells : ∃ resumed, List.Forall₂ (d.Tells resumed history.length) d.comparisonClasses searched ∧
      List.Forall₂ (d.Tells resumed history.length) d.comparisonClasses reference := by
    by_cases none' : history = []
    · subst none'
      refine ⟨none, each.imp ?_, Domain.referenceFrom_tells referred⟩
      rintro restriction row ⟨resumed, known, tells⟩
      cases known
      exact tells
    · rw [d.referenceComparisons_eq none'] at referred
      obtain ⟨first, -, rest⟩ := bind_ok.mp referred
      obtain ⟨resumed, replayed, referred⟩ := bind_ok.mp rest
      refine ⟨some resumed, each.imp ?_, Domain.referenceFrom_tells referred⟩
      rintro restriction row ⟨resumed', known, tells⟩
      obtain ⟨first', final, -, replayed', rfl⟩ := (Domain.resume_ok none').mp known
      cases Domain.replayWith_unique replayed replayed'
      exact tells
  obtain ⟨resumed, first, second⟩ := tells
  have same : List.Forall₂ (fun row row' => Domain.said row = Domain.said row') searched
      reference := by
    refine forall₂_compose ?_ first.flip second
    exact fun row restriction row' tells tells' => Domain.Tells.unique tells tells'
  rwa [← List.forall₂_map_right_iff, ← List.forall₂_map_left_iff, List.forall₂_eq_eq_eq] at same

namespace Sample

/-- The supports that an entry decision or an action makes of one. -/
def nextSupports (d : Domain epistemicDigests) (support : Support) : List Support :=
  (d.recipes.keys.flatMap fun actionId =>
    ((d.advance support actionId).toOption.getD []).map Prod.snd) ++
  (d.bounded (support.map Domain.marked)).toOption.toList

def supportsWithin (d : Domain epistemicDigests) : ℕ → List Support → List Support
  | 0, supports => supports
  | n + 1, supports => supports ++ supportsWithin d n
      ((supports.flatMap (nextSupports d)).dedup.filter fun s => s ∉ supports)

def supports (d : Domain epistemicDigests) : List Support :=
  supportsWithin d 3 d.initial.toOption.toList

/-- What the evaluation of a sample domain has to show for its support digests. -/
def SupportsClosed (d : Domain epistemicDigests) : Prop :=
  (∀ s ∈ supports d, ∀ t ∈ supports d,
    epistemicDigests.support s = epistemicDigests.support t → s = t) ∧
  ∀ s ∈ supports d, ∀ next ∈ nextSupports d s, next ∈ supports d

instance decidableSupportsClosed (d : Domain epistemicDigests) : Decidable (SupportsClosed d) := by
  unfold SupportsClosed
  infer_instance

theorem SupportsClosed.apart {d : Domain epistemicDigests} (closed : SupportsClosed d) :
    d.SupportsApart fun s => d.initial = .ok s := by
  have within : ∀ s, d.ReachedSupport (fun s => d.initial = .ok s) s → s ∈ supports d := by
    intro s reached
    induction reached with
    | root start =>
      rw [supports, start]
      exact List.mem_append_left _ (List.mem_singleton_self _)
    | entered _ marking ih =>
      obtain ⟨-, -, fits⟩ := Domain.markEntry_ok.mp marking
      refine closed.2 _ ih _ (List.mem_append_right _ ?_)
      rw [fits]
      exact List.mem_singleton_self _
    | @branch support next actionId symbol found _ advanced listed ih =>
      refine closed.2 _ ih _ (List.mem_append_left _ (List.mem_flatMap.mpr ⟨actionId, ?_, ?_⟩))
      · obtain ⟨recipe, -, chosen, -⟩ := Domain.advance_ok.mp advanced
        obtain ⟨-, named, -⟩ := Domain.chosenRecipe_ok.mp chosen
        rw [Std.ExtTreeMap.mem_keys, Std.ExtTreeMap.mem_iff_isSome_getElem?, named]
        rfl
      · rw [advanced]
        exact List.mem_map_of_mem listed
  exact fun s t reached reached' => closed.1 s (within s reached) t (within t reached')

theorem supportsClosed : SupportsClosed domain := by decide +kernel

theorem compared : ((fun rows => rows.map (·.search.complete)) <$> domain.compareEpistemic []) =
    .ok [true] := by decide +kernel

theorem referred : (domain.referenceComparisons []).toBool = true := by decide +kernel

end Sample

theorem comparisons_agree_sample : ∃ searched reference,
    Sample.domain.compareEpistemic [] = .ok searched ∧
    Sample.domain.referenceComparisons [] = .ok reference ∧
    searched.map Domain.said = reference.map Domain.said := by
  obtain ⟨searched, compared, complete⟩ := map_ok.mp Sample.compared
  obtain ⟨reference, referred⟩ := exists_ok Sample.referred
  have all : ∀ row ∈ searched, row.search.complete = true := by
    intro row listed
    have answer := List.mem_map_of_mem (f := (·.search.complete)) listed
    rw [complete] at answer
    exact List.mem_singleton.mp answer
  exact ⟨searched, reference, compared, referred, comparisons_agree Sample.domain
    Sample.supportsClosed.apart [] searched reference compared all referred⟩

end CollectivePhaseControl
