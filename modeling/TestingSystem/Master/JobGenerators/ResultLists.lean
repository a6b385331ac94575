import TestingSystem.Master.JobGenerators.GeneratorRuns
import TestingSystem.Master.JobGenerators.IOIReference

/-!
# The lists of results

Between two calls `TestResults` has the results of the tests in order, and in IOI `GroupResults` has those of
the groups whose tests are all there, in the order of the problem. A placeholder of the IOI generator has
the verdict `RU`, and no placeholder is ever in `TestResults`: only an invoker that reports `RU` can bring one
there (`wellFormed_of_reachable`).
-/

set_option autoImplicit false

namespace TestingSystem

variable {F : Type}

/-- Every test of the group is among the results. -/
def TestGroup.Tested (group : TestGroup F) (results : List (TestResult F)) : Prop :=
  ∀ test ∈ IOIGenerator.testNumbers group, test ∈ results.map fun result => result.testNumber

instance (group : TestGroup F) (results : List (TestResult F)) : Decidable (group.Tested results) :=
  inferInstanceAs (Decidable (∀ test ∈ _, _))

/-- The lists of a submission that is being tested. -/
structure WellFormed (problem : Problem F) (sub : Submission F) : Prop where
  numbers : ∀ k result, sub.testResults[k]? = some result → result.testNumber = k + 1
  verdicts : ∀ result ∈ sub.testResults, result.verdict ≠ .RU
  groups : problem.problemType = .ioi →
    sub.groupResults.map (fun result => result.groupName) =
      (problem.testGroups.filter fun group => decide (group.Tested sub.testResults)).map
        fun group => group.name

/-- The results of the first `n` tests, none of them `RU`. -/
structure ResultsTo (n : Nat) (results : List (TestResult F)) : Prop where
  numbers : (results.map fun result => result.testNumber) = List.range' 1 n
  verdicts : ∀ result ∈ results, result.verdict ≠ .RU

namespace ResultsTo

variable {n : Nat} {results : List (TestResult F)}

theorem nil : ResultsTo 0 ([] : List (TestResult F)) := ⟨rfl, fun _ hmem => nomatch hmem⟩

theorem concat (h : ResultsTo n results) {result : TestResult F} (hnumber : result.testNumber = n + 1)
    (hverdict : result.verdict ≠ .RU) : ResultsTo (n + 1) (results ++ [result]) := by
  refine ⟨?_, fun r hmem => ?_⟩
  · rw [List.map_append, h.numbers, List.range'_1_concat, Nat.add_comm 1 n, ← hnumber]
    rfl
  · rcases List.mem_append.1 hmem with hmem | hmem
    · exact h.verdicts r hmem
    · rw [List.mem_singleton.1 hmem]
      exact hverdict

theorem number_eq (h : ResultsTo n results) {k : Nat} {result : TestResult F}
    (hresult : results[k]? = some result) : result.testNumber = k + 1 := by
  have hnumber : (List.range' 1 n)[k]? = some result.testNumber := by
    rw [← h.numbers, List.getElem?_map, hresult]
    rfl
  obtain ⟨hlt, heq⟩ := List.getElem?_eq_some_iff.1 hnumber
  rw [← heq, List.getElem_range', Nat.one_mul, Nat.add_comm]

/-- A group is tested if its last test is. -/
theorem tested_iff (h : ResultsTo n results) {group : TestGroup F} (hpos : 1 ≤ group.firstTest)
    (hle : group.firstTest ≤ group.lastTest) : group.Tested results ↔ group.lastTest ≤ n := by
  unfold TestGroup.Tested IOIGenerator.testNumbers
  rw [h.numbers]
  simp only [List.mem_range'_1]
  constructor
  · intro hall
    have := hall group.lastTest (by omega)
    omega
  · intro hlast test htest
    omega

end ResultsTo

namespace ICPCGenerator

/-- No verdict of the grade is `RU`, whatever the invokers report. -/
theorem gradeTests_resultsTo (v : Verdict) (test : Nat → Outcome F) (k : Nat) :
    ResultsTo k (gradeTests v test k).2 := by
  induction k with
  | zero => exact .nil
  | succ k ih =>
    by_cases hru : (gradeTests v test k).1 = .RU
    · rw [gradeTests_succ_of_eq hru]
      refine ih.concat (shownResult_testNumber _ _) ?_
      rw [shownResult_verdict]
      exact shownVerdict_ne_ru _
    · rw [gradeTests_succ_of_ne hru]
      exact ih.concat rfl (by simp [skippedResult])

variable [One F] {outs : Outcomes F} {sub : Submission F} {i : ICPCGenerator F}

theorem Good.resultsTo (h : Good outs sub i) (htests : sub.testResults = []) :
    ∃ n, ResultsTo n i.submission.testResults := by
  have hgraded : ∀ v test k, ResultsTo k
      (gradedSubmission v test (compiledSubmission outs.compile sub) k).testResults := by
    intro v test k
    change ResultsTo k (sub.testResults ++ _)
    rw [htests]
    exact gradeTests_resultsTo v test k
  cases h with
  | notStarted _ untested =>
    rw [untested.submission]
    exact ⟨0, by rw [htests]; exact .nil⟩
  | compiling _ untested =>
    rw [untested.submission]
    exact ⟨0, by rw [htests]; exact .nil⟩
  | testing _ _ testing =>
    rw [testing.graded.submission]
    exact ⟨_, hgraded _ _ _⟩
  | done _ done =>
    rw [done.submission, finalSubmission, ICPCGenerator.finished]
    split
    · exact ⟨_, hgraded _ _ _⟩
    · exact ⟨_, hgraded _ _ _⟩

end ICPCGenerator

namespace IOIGenerator

variable [Add F] [Min F] [Zero F] {problem : Problem F} {outs : Outcomes F} {sub : Submission F}
  {i : IOIGenerator F}

omit [Add F] [Min F] in
/-- A shown result is that of its test, and `RU` only if the outcome is. -/
theorem shown_facts (hverdicts : ∀ t, (outs.test t).verdict ≠ .RU) (t : Nat) :
    (shown problem outs t).testNumber = t ∧ (shown problem outs t).verdict ≠ .RU := by
  unfold shown
  split
  · exact ⟨rfl, by simp [skippedResult]⟩
  · next group _ =>
    split
    · exact ⟨rfl, by simp [skippedResult]⟩
    · refine ⟨shownResult_testNumber _ _, ?_⟩
      have hstored := storedOutcome_ne group (v := .RU) (by simp) (hverdicts t)
      unfold shownResult
      dsimp only
      split
      · simp
      · exact hstored

omit [Add F] [Min F] in
theorem shownTests_resultsTo (hverdicts : ∀ t, (outs.test t).verdict ≠ .RU) (k : Nat) :
    ResultsTo k (shownTests problem outs k) := by
  induction k with
  | zero => exact .nil
  | succ k ih =>
    rw [shownTests_succ]
    exact ih.concat (shown_facts hverdicts _).1 (shown_facts hverdicts _).2

omit [Add F] [Min F] [Zero F] in
theorem wellFormed_of_resultsTo (ha : Accepted problem) {s : Submission F} {n : Nat}
    (hto : ResultsTo n s.testResults)
    (hgroups : s.groupResults.map (fun result => result.groupName) =
      (problem.testGroups.filter fun group => decide (group.lastTest ≤ n)).map fun group =>
        group.name) : WellFormed problem s := by
  refine ⟨fun _ _ => hto.number_eq, hto.verdicts, fun _ => hgroups.trans ?_⟩
  refine congrArg _ (List.filter_congr fun group hg => decide_eq_decide.2 ?_)
  obtain ⟨hpos, hle, -⟩ := ha.tiled.bounds hg
  exact (hto.tested_iff hpos hle).symm

theorem gradedSubmission_wellFormed (ha : Accepted problem)
    (hverdicts : ∀ t, (outs.test t).verdict ≠ .RU) (htests : sub.testResults = [])
    (hgroups : sub.groupResults = []) (k : Nat) :
    WellFormed problem (gradedSubmission problem outs sub k) := by
  refine wellFormed_of_resultsTo ha (n := k - 1) ?_ ?_
  · change ResultsTo (k - 1) (sub.testResults ++ _)
    rw [htests]
    exact shownTests_resultsTo hverdicts (k - 1)
  · change (sub.groupResults ++ (groupsBefore problem k).map (groupResult problem outs sub)).map _ = _
    rw [hgroups, List.nil_append, List.map_map, groupsBefore]
    refine congrArg _ (List.filter_congr fun group hg => decide_eq_decide.2 ?_)
    have := ha.tiled.bounds hg
    omega

theorem Good.wellFormed (h : Good outs sub i) (hverdicts : ∀ t, (outs.test t).verdict ≠ .RU)
    (htests : sub.testResults = []) (hgroups : sub.groupResults = []) :
    WellFormed i.problem i.submission := by
  have hgraded := gradedSubmission_wellFormed h.accepted hverdicts htests hgroups
  have hfinal : WellFormed i.problem (finalSubmission i.problem outs sub) :=
    ⟨(hgraded _).numbers, (hgraded _).verdicts, (hgraded _).groups⟩
  have hnew : WellFormed i.problem { sub with verdict := .RU } := by
    refine wellFormed_of_resultsTo h.accepted (n := 0) ?_ ?_
    · change ResultsTo 0 sub.testResults
      rw [htests]
      exact .nil
    · change sub.groupResults.map _ = _
      rw [hgroups, List.filter_eq_nil_iff.2 fun group hg => ?_]
      · rfl
      · have := h.accepted.tiled.bounds hg
        rw [decide_eq_true_eq]
        omega
  cases h with
  | notStarted _ untested =>
    rw [untested.submission]
    exact hnew
  | compiling _ untested =>
    rw [untested.submission]
    exact hnew
  | testing _ _ _ _ graded =>
    rw [graded.submission]
    exact hgraded _
  | done _ _ _ _ _ _ _ _ submission =>
    rw [submission]
    exact hfinal
  | failed _ _ _ _ _ submission =>
    rw [submission]
    exact hfinal

end IOIGenerator

namespace GeneratorRun

/-- No invoker reports the verdict `RU`. -/
def NeverRunning (_ : GeneratorRun F) : Call F → Prop
  | .nextJob _ => True
  | .jobCompleted result => result.verdict ≠ .RU

variable [Add F] [Min F] [Zero F] [One F] {problem : Problem F} {sub : Submission F}
  {r : GeneratorRun F}

theorem wellFormed_of_reachable (htests : sub.testResults = []) (hgroups : sub.groupResults = [])
    (hr : (machine problem sub).Reachable NeverRunning r) :
    WellFormed problem r.generator.submission := by
  obtain ⟨outs, hverdicts, -, h⟩ := explained_fresh
    (P := fun outs => ∀ t, (outs.test t).verdict ≠ .RU) hr
    ⟨{ verdict := .CD }, fun _ => { verdict := .OK }⟩ (fun _ => by simp) (fun _ => rfl)
    (by
      intro r outs result job hverdicts hok _ t
      unfold Generator.settle
      split
      · exact hverdicts t
      · by_cases ht : t = job.test
        · rw [ht, Outcomes.setTest_self]
          exact hok
        · rw [Outcomes.setTest_ne _ _ ht]
          exact hverdicts t)
  have hproblem := h.problem_eq
  have htype := h.type
  have hgood := h.good
  cases hg : r.generator with
  | icpc i =>
    rw [hg] at htype hgood
    obtain ⟨n, hto⟩ := ICPCGenerator.Good.resultsTo hgood htests
    refine ⟨fun _ _ => hto.number_eq, hto.verdicts, fun hioi => ?_⟩
    cases htype.trans hioi
  | ioi i =>
    rw [hg] at hproblem hgood
    rw [← hproblem]
    exact IOIGenerator.Good.wellFormed hgood hverdicts htests hgroups

end GeneratorRun

end TestingSystem
