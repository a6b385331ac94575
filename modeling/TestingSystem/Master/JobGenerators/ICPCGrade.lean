import TestingSystem.Master.JobGenerators.GeneratorRuns

/-!
# The grade of an ICPC submission

The grade depends on the verdicts alone: the compile verdict and the first test that is not `OK`.
Every run whose results have given verdicts returns this grade at most once, whatever the order is in
which jobs are taken and completed.
-/

set_option autoImplicit false

namespace TestingSystem.ICPCGenerator

/-! ## The expected grade -/

/-- The smallest test up to `n` that is not `OK`. -/
def firstFailed (test : Nat → Verdict) (n : Nat) : Option Nat :=
  (List.range' 1 n).find? fun t => decide (test t ≠ .OK)

/-- The verdict of a submission with `n` tests. -/
def expectedVerdict (compile : Verdict) (test : Nat → Verdict) (n : Nat) : Verdict :=
  match compile with
  | .CD =>
    match firstFailed test n with
    | none => .OK
    | some p => shownVerdict (test p)
  | .CE => .CE
  | _ => .CF

/-- The score is 1 if every test is `OK`. -/
def expectedScore {F : Type} [Zero F] [One F] (compile : Verdict) (test : Nat → Verdict) (n : Nat) :
    F :=
  if compile = .CD ∧ firstFailed test n = none then 1 else 0

/-- The verdict with which test `t` is shown. -/
def expectedTest (compile : Verdict) (test : Nat → Verdict) (n t : Nat) : Verdict :=
  if compile ≠ .CD then .SK
  else
    match firstFailed test n with
    | none => .OK
    | some p => if t < p then .OK else if t = p then shownVerdict (test p) else .SK

/-- Number and verdict of the shown tests. -/
def expectedTests (compile : Verdict) (test : Nat → Verdict) (n : Nat) : List (Nat × Verdict) :=
  (List.range' 1 n).map fun t => (t, expectedTest compile test n t)

theorem firstFailed_succ (test : Nat → Verdict) (n : Nat) :
    firstFailed test (n + 1) =
      (firstFailed test n).or (if test (n + 1) ≠ .OK then some (n + 1) else none) := by
  rw [firstFailed, List.range'_1_concat, List.find?_append, Nat.add_comm 1 n]
  by_cases h : test (n + 1) = .OK <;> simp [firstFailed, h]

theorem firstFailed_le {test : Nat → Verdict} {n p : Nat} (h : firstFailed test n = some p) :
    p ≤ n := by
  have := List.mem_of_find?_eq_some h
  rw [List.mem_range'_1] at this
  omega

theorem expectedTests_succ (test : Nat → Verdict) (n : Nat) :
    expectedTests .CD test (n + 1) = expectedTests .CD test n ++
      [(n + 1, if firstFailed test n = none then
        (if test (n + 1) = .OK then .OK else shownVerdict (test (n + 1))) else .SK)] := by
  rw [expectedTests, List.range'_1_concat, List.map_append, List.map_singleton, Nat.add_comm 1 n]
  have hlast : expectedTest .CD test (n + 1) (n + 1) =
      if firstFailed test n = none then
        (if test (n + 1) = .OK then .OK else shownVerdict (test (n + 1))) else .SK := by
    rw [expectedTest, firstFailed_succ]
    cases hf : firstFailed test n with
    | none => by_cases hok : test (n + 1) = .OK <;> simp [hok]
    | some p =>
      have hle := firstFailed_le hf
      have h1 : ¬ n + 1 < p := by omega
      have h2 : ¬ n + 1 = p := by omega
      simp [h1, h2]
  have hrest : ∀ t ∈ List.range' 1 n, expectedTest .CD test (n + 1) t = expectedTest .CD test n t := by
    intro t ht
    have hle := (List.mem_range'_1.1 ht).2
    rw [expectedTest, expectedTest, firstFailed_succ]
    cases hf : firstFailed test n with
    | none =>
      have hlt : t < n + 1 := by omega
      by_cases hok : test (n + 1) = .OK <;> simp [hok, hlt]
    | some p => simp
  rw [hlast, expectedTests]
  congr 1
  exact List.map_congr_left fun t ht => by rw [hrest t ht]

variable {F : Type}

/-- The part of the shown results that depends on the verdicts alone. -/
def shownVerdicts (results : List (TestResult F)) : List (Nat × Verdict) :=
  results.map fun r => (r.testNumber, r.verdict)

/-- After a failed compilation every test is skipped. -/
theorem gradeTests_of_ne {v : Verdict} (h : v ≠ .RU) (outcomes : Nat → Outcome F) (n : Nat) :
    (gradeTests v outcomes n).1 = v ∧
      shownVerdicts (gradeTests v outcomes n).2 = (List.range' 1 n).map fun t => (t, .SK) := by
  induction n with
  | zero => exact ⟨rfl, rfl⟩
  | succ n ih =>
    obtain ⟨hv, hr⟩ := ih
    rw [gradeTests_succ_of_ne (by rw [hv]; exact h)]
    refine ⟨hv, ?_⟩
    rw [shownVerdicts, List.map_append, List.range'_1_concat, List.map_append, Nat.add_comm 1 n]
    congr 1

/-- The grade of a prefix, from the verdicts. -/
theorem gradeTests_of_ru {outcomes : Nat → Outcome F} {test : Nat → Verdict}
    (h : ∀ t, (outcomes t).verdict = test t) (n : Nat) :
    (gradeTests .RU outcomes n).1 =
        (match firstFailed test n with
        | none => .RU
        | some p => shownVerdict (test p)) ∧
      shownVerdicts (gradeTests .RU outcomes n).2 = expectedTests .CD test n := by
  induction n with
  | zero => exact ⟨rfl, rfl⟩
  | succ n ih =>
    obtain ⟨hv, hr⟩ := ih
    rw [firstFailed_succ, expectedTests_succ]
    cases hf : firstFailed test n with
    | none =>
      simp only [hf] at hv
      rw [gradeTests_succ_of_eq hv, h]
      refine ⟨by by_cases hok : test (n + 1) = .OK <;> simp [hok], ?_⟩
      rw [shownVerdicts, List.map_append, ← shownVerdicts, hr]
      congr 1
      simp only [List.map_singleton, shownResult_testNumber, shownResult_verdict, h, if_true]
      by_cases hok : test (n + 1) = .OK
      · simp [hok, shownVerdict]
      · simp [hok]
    | some p =>
      simp only [hf] at hv
      rw [gradeTests_succ_of_ne (by rw [hv]; exact shownVerdict_ne_ru _)]
      refine ⟨by simpa using hv, ?_⟩
      rw [shownVerdicts, List.map_append, ← shownVerdicts, hr]
      rfl

variable [Zero F] [One F]

/-- The final submission, from the verdicts. -/
theorem finalSubmission_expected {outs : Outcomes F} {compile : Verdict} {test : Nat → Verdict}
    (hc : outs.compile.verdict = compile) (ht : ∀ t, (outs.test t).verdict = test t)
    {sub : Submission F} (hresults : sub.testResults = []) (hscore : sub.score = 0) (n : Nat) :
    (finalSubmission outs n sub).verdict = expectedVerdict compile test n ∧
      (finalSubmission outs n sub).score = expectedScore compile test n ∧
      shownVerdicts (finalSubmission outs n sub).testResults = expectedTests compile test n := by
  have hsplit : (finalSubmission outs n sub).verdict =
        (if (gradeTests (compileVerdict compile) outs.test n).1 = .RU then .OK
          else (gradeTests (compileVerdict compile) outs.test n).1) ∧
      (finalSubmission outs n sub).score =
        (if (gradeTests (compileVerdict compile) outs.test n).1 = .RU then 1 else 0) ∧
      shownVerdicts (finalSubmission outs n sub).testResults =
        shownVerdicts (gradeTests (compileVerdict compile) outs.test n).2 := by
    rw [finalSubmission, ICPCGenerator.finished, gradedSubmission, hc]
    simp only [compiledSubmission, hresults, List.nil_append]
    by_cases hru : (gradeTests (compileVerdict compile) outs.test n).1 = .RU <;>
      simp [hru, hscore]
  obtain ⟨h1, h2, h3⟩ := hsplit
  rw [h1, h2, h3]
  by_cases hcd : compile = .CD
  · subst hcd
    obtain ⟨hv, hr⟩ := gradeTests_of_ru ht n
    rw [compileVerdict, hv, hr]
    refine ⟨?_, ?_, rfl⟩
    · rw [expectedVerdict]
      cases firstFailed test n <;> simp [shownVerdict_ne_ru]
    · rw [expectedScore]
      cases firstFailed test n <;> simp [shownVerdict_ne_ru]
  · have hne : compileVerdict compile ≠ .RU := by
      revert hcd
      cases compile <;> simp [compileVerdict]
    obtain ⟨hv, hr⟩ := gradeTests_of_ne hne outs.test n
    rw [hv, hr, if_neg hne, if_neg hne]
    refine ⟨?_, ?_, ?_⟩
    · revert hcd
      cases compile <;> simp [compileVerdict, expectedVerdict]
    · simp [expectedScore, hcd]
    · simp [expectedTests, expectedTest, hcd]

end TestingSystem.ICPCGenerator

namespace TestingSystem.GeneratorRun

variable {F : Type} [Add F] [Min F] [Zero F] [One F]

/-- Every result of a given job has the verdict that is assigned to the job. -/
def AnswersVerdicts (compile : Verdict) (test : Nat → Verdict) (r : GeneratorRun F) :
    Call F → Prop
  | .nextJob _ => True
  | .jobCompleted result =>
    ∀ job, r.generator.givenJobs.get? result.job.id = some job →
      result.verdict = if job.type = .compileJob then compile else test job.test

/-- Every run of an ICPC generator returns the expected grade, at most once, and then no job is
given. -/
theorem icpc_returns_expected (problem : Problem F) (hicpc : problem.problemType = .icpc)
    (sub : Submission F) (hresults : sub.testResults = []) (hscore : sub.score = 0)
    (compile : Verdict) (test : Nat → Verdict) (r : GeneratorRun F)
    (hr : (machine problem sub).Reachable (AnswersVerdicts compile test) r) :
    r.returned.length ≤ 1 ∧
      (r.returned ≠ [] → ∀ id, r.generator.givenJobs.get? id = none) ∧
      ∀ s ∈ r.returned,
        s.verdict = ICPCGenerator.expectedVerdict compile test problem.testsNumber ∧
        s.score = ICPCGenerator.expectedScore compile test problem.testsNumber ∧
        ICPCGenerator.shownVerdicts s.testResults =
          ICPCGenerator.expectedTests compile test problem.testsNumber := by
  obtain ⟨outs, ⟨hc, ht⟩, h⟩ := explained hr
    (P := fun outs => outs.compile.verdict = compile ∧ ∀ t, (outs.test t).verdict = test t)
    ⟨{ verdict := compile }, fun t => { verdict := test t }⟩ ⟨rfl, fun _ => rfl⟩
    (by
      rintro r outs result job ⟨hc, ht⟩ hex hok hget
      have hv := hok job hget
      rcases hex.good.type_of_given hget with htype | htype
      · rw [if_pos htype] at hv
        refine ⟨?_, fun h => ?_⟩
        · simp only [Generator.settle, htype]
          exact ⟨hv, ht⟩
        · rw [htype] at h
          cases h
      · rw [if_neg (by simp [htype])] at hv
        refine ⟨?_, fun _ => ?_⟩
        · simp only [Generator.settle, htype]
          refine ⟨hc, fun t => ?_⟩
          by_cases heq : t = job.test
          · rw [heq, Outcomes.setTest_self]
            exact hv
          · rw [Outcomes.setTest_ne _ _ heq]
            exact ht t
        · have hkind := hex.type.trans hicpc
          cases hg : r.generator with
          | icpc i =>
            intro hne
            rw [ht] at hne
            rw [InvokerJobResult.outcome_verdict, hv]
            exact hne
          | ioi i =>
            rw [hg] at hkind
            cases hkind)
  have hkind := h.type.trans hicpc
  rcases h.returned with ⟨hret, hfin⟩ | ⟨hret, hfin⟩
  · simp [hret]
  · refine ⟨by simp [hret], fun _ => h.good.given_none hfin, fun s hs => ?_⟩
    rw [hret, List.mem_singleton] at hs
    have hproblem := h.problem_eq
    cases hg : r.generator with
    | icpc i =>
      rw [hg] at hs hproblem
      subst hs
      rw [← hproblem]
      exact ICPCGenerator.finalSubmission_expected hc ht hresults hscore _
    | ioi i =>
      rw [hg] at hkind
      cases hkind

theorem icpc_returns_expected_two_tests :
    ∃ r, (machine twoTests newSubmission).Reachable
        (AnswersVerdicts .CD fun t => if t = 2 then .WA else .OK) r ∧
      r.returned.length = 1 ∧
      ∀ s ∈ r.returned, s.verdict = .WA ∧ s.score = 0 ∧
        ICPCGenerator.shownVerdicts s.testResults = [(1, .OK), (2, .WA)] := by
  have hr := Machine.Reachable.of_runs (machine twoTests newSubmission)
    (AnswersVerdicts .CD fun t => if t = 2 then .WA else .OK)
    [.nextJob 1, answer 1 .CD none, .nextJob 2, .nextJob 3, answer 3 .WA none,
      answer 2 .OK none]
    (.of_init ⟨0, _, rfl, rfl⟩)
    ⟨trivial, rfl, _, rfl, fun job h => Option.some.inj h ▸ rfl, trivial, _, rfl,
      trivial, rfl, _, rfl, trivial, rfl, _, rfl,
      fun job h => Option.some.inj h ▸ rfl, trivial, _, rfl,
      fun job h => Option.some.inj h ▸ rfl, trivial, _, rfl, rfl⟩
  exact ⟨_, hr, rfl, (icpc_returns_expected twoTests rfl newSubmission rfl rfl _ _ _ hr).2.2⟩

end TestingSystem.GeneratorRun
