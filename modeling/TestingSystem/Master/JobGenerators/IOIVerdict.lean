import TestingSystem.Master.JobGenerators.GeneratorRuns

/-!
# The verdict of an IOI submission

The last loop of `setFinalScoreAndVerdict` assigns `CF` or `PT` for every result that is neither `OK` nor
`SK`, so the last such result decides (`finalVerdict_eq`). A failed check is therefore reported only if no
ordinary failure comes after it (`verdict_iff`).
-/

set_option autoImplicit false

namespace TestingSystem

namespace IOIGenerator

variable {F : Type}

/-! ## The verdict of a list of results -/

/-- The verdict of a submission that does not depend on the order of its results. -/
def orderlessVerdict (results : List (TestResult F)) : Verdict :=
  if ∃ result ∈ results, result.verdict = .CF then .CF
  else if ∀ result ∈ results, result.verdict = .OK then .OK
  else .PT

/-- No failure hides a failed check: if a result is `CF`, then the last one that is neither `OK` nor `SK`
is. -/
def ChecksDecide (results : List (TestResult F)) : Prop :=
  (∃ result ∈ results, result.verdict = .CF) →
    ∀ last, decidingResult results = some last → last.verdict = .CF

/-- The fold is the verdict without order exactly if no failure hides a failed check. -/
theorem finalVerdict_iff {results : List (TestResult F)}
    (hskipped : (∃ result ∈ results, result.verdict = .SK) →
      ∃ result ∈ results, result.verdict ≠ .OK ∧ result.verdict ≠ .SK) :
    finalVerdict results = orderlessVerdict results ↔ ChecksDecide results := by
  rw [finalVerdict_eq]
  cases hlast : decidingResult results with
  | none =>
    have hok : ∀ result ∈ results, result.verdict = .OK := by
      intro result hmem
      refine (of_decidingResult_none hlast hmem).resolve_right fun hsk => ?_
      obtain ⟨other, hother, hne, hne'⟩ := hskipped ⟨result, hmem, hsk⟩
      rcases of_decidingResult_none hlast hother with heq | heq
      · exact hne heq
      · exact hne' heq
    have hcf : ¬ ∃ result ∈ results, result.verdict = .CF := by
      rintro ⟨result, hmem, hv⟩
      rw [hok result hmem] at hv
      cases hv
    rw [orderlessVerdict, if_neg hcf, if_pos hok]
    exact iff_of_true rfl fun h => absurd h hcf
  | some last =>
    obtain ⟨hmem, hne, -⟩ := of_decidingResult hlast
    have hdecides : ChecksDecide results ↔
        ((∃ result ∈ results, result.verdict = .CF) → last.verdict = .CF) := by
      simp only [ChecksDecide, hlast, Option.some.injEq, forall_eq']
    rw [hdecides]
    dsimp only
    by_cases hcf : ∃ result ∈ results, result.verdict = .CF
    · rw [orderlessVerdict, if_pos hcf]
      by_cases hv : last.verdict = .CF
      · exact iff_of_true (if_pos hv) fun _ => hv
      · rw [if_neg hv]
        exact iff_of_false (fun heq => nomatch heq) fun h => hv (h hcf)
    · have hv : last.verdict ≠ .CF := fun hv => hcf ⟨last, hmem, hv⟩
      rw [orderlessVerdict, if_neg hcf, if_neg hv, if_neg fun hall => hne (hall last hmem)]
      exact iff_of_true rfl fun h => absurd h hcf

/-! ## The submission that testing ends with -/

section Final

variable [Add F] [Min F] [Zero F] {outs : Outcomes F} {sub : Submission F} {i j : IOIGenerator F}

omit [Min F] [Zero F] in
/-- `setFinalScoreAndVerdict` has compared the number of results with that of the tests. -/
theorem setFinalScoreAndVerdict_ok (h : i.setFinalScoreAndVerdict = .ok j) :
    j.submission.testResults = i.submission.testResults ∧
      j.submission.testResults.length = j.problem.testsNumber := by
  unfold setFinalScoreAndVerdict at h
  split at h
  · cases h
  split at h
  · cases h
  split at h
  · cases h
  split at h
  · cases h
  next hlength =>
  dsimp only at h
  split at h
  · cases h
    exact ⟨rfl, not_not.1 hlength⟩
  split at h
  · cases h
    exact ⟨rfl, not_not.1 hlength⟩
  split at h
  · cases h
  · cases h
    exact ⟨rfl, not_not.1 hlength⟩

theorem updateSubmissionResult_returned {c : Completed (IOIGenerator F) F}
    (h : i.updateSubmissionResult = .ok c) {s : Submission F} (hs : c.submission = .ok (some s)) :
    s.testResults.length = c.generator.problem.testsNumber := by
  unfold updateSubmissionResult at h
  obtain ⟨⟨i', updated⟩, -, h⟩ := bind_eq_ok.1 h
  dsimp only at h
  split at h
  · obtain ⟨j, hfinal, h⟩ := bind_eq_ok.1 h
    split at h
    · cases h
    · cases h
      cases hs
      exact (setFinalScoreAndVerdict_ok hfinal).2
  · cases h
    cases hs

/-- A returned submission has a result for each test. -/
theorem jobCompleted_returned {result : InvokerJobResult F} {c : Completed (IOIGenerator F) F}
    (h : i.jobCompleted result = .ok c) {s : Submission F} (hs : c.submission = .ok (some s)) :
    s.testResults.length = c.generator.problem.testsNumber := by
  unfold jobCompleted at h
  split at h
  · cases h
    cases hs
  dsimp only at h
  split at h
  · obtain ⟨i', -, h⟩ := bind_eq_ok.1 h
    exact updateSubmissionResult_returned h hs
  · obtain ⟨i', -, h⟩ := bind_eq_ok.1 h
    exact updateSubmissionResult_returned h hs
  · cases h
    cases hs

/-- The verdict of the final submission is that of the loop, and skipped tests come with a failed one. -/
theorem finalSubmission_verdict {problem : Problem F} (ha : Accepted problem)
    (hold : sub.testResults = []) (hcd : outs.compile.verdict = .CD) :
    (finalSubmission problem outs sub).verdict =
        finalVerdict (finalSubmission problem outs sub).testResults ∧
      ((∃ r ∈ (finalSubmission problem outs sub).testResults, r.verdict = .SK) →
        ∃ r ∈ (finalSubmission problem outs sub).testResults, r.verdict ≠ .OK ∧ r.verdict ≠ .SK) := by
  have hverdict : (gradedSubmission problem outs sub (problem.testsNumber + 1)).verdict = .RU := by
    change compileVerdict outs.compile.verdict = .RU
    rw [hcd]
    rfl
  have hresults : (finalSubmission problem outs sub).testResults =
      shownTests problem outs problem.testsNumber := by
    change sub.testResults ++ shownTests problem outs (problem.testsNumber + 1 - 1) = _
    rw [hold, List.nil_append, Nat.add_sub_cancel]
  refine ⟨?_, ?_⟩
  · rw [finalSubmission, hverdict, if_neg (not_not.2 rfl)]
  · rw [hresults]
    intro hsk
    have hflag := hasVerdict_of_hasSkipped ha hcd .RU ((finalVerdict_flags _ _).1.2 (.inr hsk))
    exact ((finalVerdict_flags _ _).2.1 hflag).resolve_left Bool.false_ne_true

theorem finalSubmission_compiled {problem : Problem F} {compiled : TestResult F}
    (h : (finalSubmission problem outs sub).compilationResult = some compiled)
    (hcd : compiled.verdict = .CD) : outs.compile.verdict = .CD := by
  change some ((storedCompileOutcome outs.compile).testResult 0) = some compiled at h
  rw [← Option.some.inj h, Outcome.testResult_verdict] at hcd
  unfold storedCompileOutcome at hcd
  split at hcd
  · assumption
  · assumption
  · next hv => rw [hv] at hcd; cases hcd
  · cases hcd

end Final

end IOIGenerator

/-! ## Runs -/

namespace GeneratorRun

open IOIGenerator

section Runs

variable {F : Type} [Add F] [Min F] [Zero F] [One F] {problem : Problem F} {sub : Submission F}
  {r : GeneratorRun F}

theorem returned_length (hioi : problem.problemType = .ioi)
    (hr : (machine problem sub).Reachable Machine.always r) :
    ∀ s ∈ r.returned, s.testResults.length = problem.testsNumber := by
  refine hr.invariant_of_reachable
    (P := fun r => ∀ s ∈ r.returned, s.testResults.length = problem.testsNumber) ?_ ?_
  · rintro r ⟨id, g, -, rfl⟩ s hs
    cases hs
  · rintro r call r' hr ih hok hen he s hs
    obtain ⟨outs, -, hex⟩ := explained_always (hr.snoc call hok hen he)
    cases call with
    | nextJob id =>
      obtain ⟨⟨job, g⟩, -, he⟩ := bind_eq_ok.1 he
      cases he
      exact ih s hs
    | jobCompleted result =>
      obtain ⟨c, hc, he⟩ := bind_eq_ok.1 he
      cases he
      have hnew : ∀ s, c.submission = .ok (some s) → s.testResults.length = problem.testsNumber := by
        intro s hs
        have htype := hex.type
        have hproblem := hex.problem_eq
        cases hg : r.generator with
        | icpc i =>
          rw [hg] at hc
          obtain ⟨c', -, hc⟩ := bind_eq_ok.1 hc
          cases hc
          rw [hioi] at htype
          cases htype
        | ioi i =>
          rw [hg] at hc
          obtain ⟨c', hc', hc⟩ := bind_eq_ok.1 hc
          cases hc
          rw [← hproblem]
          exact jobCompleted_returned hc' hs
      cases hsub : c.submission with
      | error err => exact ih s (by simpa only [record, hsub] using hs)
      | ok returned =>
        cases returned with
        | none => exact ih s (by simpa only [record, hsub] using hs)
        | some s' =>
          simp only [record, hsub, List.mem_append, List.mem_singleton] at hs
          rcases hs with hs | rfl
          · exact ih s hs
          · exact hnew s hsub

/-- In every run, the verdict of a returned submission that was compiled is independent of the order of
its results exactly if no failure hides a failed check. -/
theorem verdict_iff (hioi : problem.problemType = .ioi)
    (hr : (machine problem sub).Reachable Machine.always r) {s : Submission F} (hs : s ∈ r.returned)
    {compiled : TestResult F} (hcompiled : s.compilationResult = some compiled)
    (hcd : compiled.verdict = .CD) :
    s.verdict = orderlessVerdict s.testResults ↔ ChecksDecide s.testResults := by
  have hlength := returned_length hioi hr s hs
  obtain ⟨outs, -, hex⟩ := explained_always hr
  have hfinal := hex.eq_final hs
  have htype := hex.type
  have hproblem := hex.problem_eq
  have hgood := hex.good
  cases hg : r.generator with
  | icpc i =>
    rw [hg, hioi] at htype
    cases htype
  | ioi i =>
    rw [hg] at hfinal hproblem hgood
    have ha := IOIGenerator.Good.accepted hgood
    rw [show i.problem = problem from hproblem] at ha
    have hfinal : s = finalSubmission problem outs sub := by
      rw [hfinal, Generator.finalSubmission, show i.problem = problem from hproblem]
    rw [hfinal] at hlength hcompiled ⊢
    have hold : sub.testResults = [] := by
      change (sub.testResults ++ shownTests problem outs (problem.testsNumber + 1 - 1)).length = _
        at hlength
      rw [List.length_append, length_shownTests, Nat.add_sub_cancel] at hlength
      exact List.length_eq_zero_iff.1 (by omega)
    obtain ⟨hverdict, hskipped⟩ :=
      finalSubmission_verdict ha hold (finalSubmission_compiled hcompiled hcd)
    rw [hverdict]
    exact finalVerdict_iff hskipped

end Runs

/-- An IOI problem whose only group is an `EachTest` group of two tests. -/
def twoEachTests : Problem Int :=
  { id := 1
    problemType := .ioi
    testsNumber := 2
    testGroups :=
      [{ name := "a", firstTest := 1, lastTest := 2, testScore := some 50, groupScore := none,
         scoringType := .eachTest, requiredGroupNames := [] }] }

/-- The calls of a run that completes both tests, with their verdicts. -/
def twoVerdicts (first second : Verdict) : List (Call Int) :=
  [.nextJob 1, answer 1 .CD none, .nextJob 2, .nextJob 3, answer 2 first none, answer 3 second none]

theorem verdict_iff_check_failed_last :
    ∃ r s, (machine twoEachTests newSubmission).Reachable Machine.always r ∧ r.returned = [s] ∧
      s.verdict = .CF ∧ ChecksDecide s.testResults := by
  have hr := Machine.Reachable.of_runs (machine twoEachTests newSubmission) Machine.always
    (twoVerdicts .WA .CF) (.of_init ⟨0, _, rfl, rfl⟩)
    ⟨trivial, rfl, _, rfl, trivial, trivial, _, rfl, trivial, rfl, _, rfl, trivial, rfl, _, rfl,
      trivial, trivial, _, rfl, trivial, trivial, _, rfl, rfl⟩
  exact ⟨_, _, hr, rfl, rfl, (verdict_iff rfl hr List.mem_cons_self rfl rfl).1 (by decide)⟩

/-- A wrong answer after a failed check hides it. -/
theorem check_failure_hidden :
    ¬ ∀ (problem : Problem Int) (sub : Submission Int), problem.problemType = .ioi →
      ∀ r, (machine problem sub).Reachable Machine.always r → ∀ s ∈ r.returned, ∀ compiled,
        s.compilationResult = some compiled → compiled.verdict = .CD →
          s.verdict = orderlessVerdict s.testResults := by
  intro h
  have hr := Machine.Reachable.of_runs (machine twoEachTests newSubmission) Machine.always
    (twoVerdicts .CF .WA) (.of_init ⟨0, _, rfl, rfl⟩)
    ⟨trivial, rfl, _, rfl, trivial, trivial, _, rfl, trivial, rfl, _, rfl, trivial, rfl, _, rfl,
      trivial, trivial, _, rfl, trivial, trivial, _, rfl, rfl⟩
  have hverdict := h twoEachTests newSubmission rfl _ hr _ List.mem_cons_self _ rfl rfl
  exact absurd hverdict (by decide)

end GeneratorRun

end TestingSystem
