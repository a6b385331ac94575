import TestingSystem.Master.JobGenerators.ICPCGenerator

/-!
# Invariant of the ICPC generator

`gradeTests` grades the tests of a submission one after another from an assignment of outcomes; it
knows nothing of jobs, schedules or stored results. The generator computes the same function in any
order of completions: between two calls it is in one of four phases (`Good`), and while tests run
its submission is the grade of the tested prefix (`Testing.graded`).

A stored result is either the outcome of its test or a skipped result of a test that the grade skips
anyway. This is what both `setFail` and a stopped job may leave behind.
-/

set_option autoImplicit false

namespace TestingSystem.ICPCGenerator

variable {F : Type}

/-! ## The grade -/

/-- The outcome that `testJobCompleted` stores: a verdict that it does not know becomes `CF`. -/
def storedOutcome (outcome : Outcome F) : Outcome F :=
  match outcome.verdict with
  | .OK | .PT | .WA | .RT | .ML | .TL | .WL | .SE | .CF | .SK => outcome
  | _ => { outcome with verdict := .CF, error := "unknown verdict for test job: CF" }

/-- The verdict with which a test is shown when no earlier test failed. -/
def shownVerdict (verdict : Verdict) : Verdict :=
  match verdict with
  | .OK | .PT | .WA | .RT | .ML | .TL | .WL | .SE | .CF => verdict
  | _ => .CF

/-- The result with which a test is shown when no earlier test failed. -/
def shownResult (test : Nat) (outcome : Outcome F) : TestResult F :=
  let result := (storedOutcome outcome).testResult test
  if result.verdict = .SK then
    { result with
      verdict := .CF
      error := "Invoker returned verdict SK, but no previous tests failed" }
  else result

/-- Verdict and shown results after the first `k` tests, when the verdict before them is `v`. -/
def gradeTests (v : Verdict) (test : Nat → Outcome F) : Nat → Verdict × List (TestResult F)
  | 0 => (v, [])
  | k + 1 =>
    let (verdict, results) := gradeTests v test k
    if verdict ≠ .RU then (verdict, results ++ [skippedResult (k + 1)])
    else
      let result := shownResult (k + 1) (test (k + 1))
      (if result.verdict = .OK then .RU else result.verdict, results ++ [result])

/-- The grade shows test `t` as skipped. -/
def Skips (v : Verdict) (test : Nat → Outcome F) (t : Nat) : Prop :=
  (gradeTests v test (t - 1)).1 ≠ .RU

theorem storedOutcome_verdict_eq_ok (outcome : Outcome F) :
    (storedOutcome outcome).verdict = .OK ↔ outcome.verdict = .OK := by
  unfold storedOutcome
  split <;> simp_all

theorem shownResult_verdict (test : Nat) (outcome : Outcome F) :
    (shownResult test outcome).verdict = shownVerdict outcome.verdict := by
  unfold shownResult storedOutcome shownVerdict
  cases h : outcome.verdict <;> simp [h]

theorem shownVerdict_eq_ok (verdict : Verdict) : shownVerdict verdict = .OK ↔ verdict = .OK := by
  unfold shownVerdict
  cases verdict <;> simp

theorem shownVerdict_ne_ru (verdict : Verdict) : shownVerdict verdict ≠ .RU := by
  unfold shownVerdict
  cases verdict <;> simp

@[simp] theorem shownResult_testNumber (test : Nat) (outcome : Outcome F) :
    (shownResult test outcome).testNumber = test := by
  simp only [shownResult]
  split <;> rfl

theorem gradeTests_succ_of_ne {v : Verdict} {test : Nat → Outcome F} {k : Nat}
    (h : (gradeTests v test k).1 ≠ .RU) :
    gradeTests v test (k + 1) =
      ((gradeTests v test k).1, (gradeTests v test k).2 ++ [skippedResult (k + 1)]) := by
  simp [gradeTests, h]

theorem gradeTests_succ_of_eq {v : Verdict} {test : Nat → Outcome F} {k : Nat}
    (h : (gradeTests v test k).1 = .RU) :
    gradeTests v test (k + 1) =
      (if (test (k + 1)).verdict = .OK then .RU else shownVerdict (test (k + 1)).verdict,
        (gradeTests v test k).2 ++ [shownResult (k + 1) (test (k + 1))]) := by
  have hv := shownVerdict_eq_ok (test (k + 1)).verdict
  simp only [gradeTests, h, ne_eq, not_true_eq_false, if_false, shownResult_verdict]
  by_cases hok : (test (k + 1)).verdict = .OK
  · rw [if_pos (hv.2 hok), if_pos hok]
  · rw [if_neg (mt hv.1 hok), if_neg hok]

/-- The verdict stays `RU` exactly as long as every test is `OK`. -/
theorem gradeTests_verdict_eq_ru {test : Nat → Outcome F} (k : Nat) :
    (gradeTests .RU test k).1 = .RU ↔ ∀ p, 1 ≤ p → p ≤ k → (test p).verdict = .OK := by
  induction k with
  | zero =>
    simp only [gradeTests, true_iff]
    intro p h1 h0
    omega
  | succ k ih =>
    by_cases h : (gradeTests .RU test k).1 = .RU
    · rw [gradeTests_succ_of_eq h]
      constructor
      · intro hv p h1 hp
        by_cases hpk : p = k + 1
        · subst hpk
          by_contra hok
          simp only [hok, if_false] at hv
          exact shownVerdict_ne_ru _ hv
        · exact ih.1 h p h1 (by omega)
      · intro hall
        simp [hall (k + 1) (by omega) (Nat.le_refl _)]
    · rw [gradeTests_succ_of_ne h]
      refine iff_of_false h fun hall => h (ih.2 fun p h1 hp => hall p h1 (by omega))

/-- A test is skipped exactly when an earlier one failed. -/
theorem skips_iff {test : Nat → Outcome F} (t : Nat) :
    Skips .RU test t ↔ ∃ p, 1 ≤ p ∧ p < t ∧ (test p).verdict ≠ .OK := by
  unfold Skips
  rw [ne_eq, gradeTests_verdict_eq_ru]
  push Not
  constructor
  · rintro ⟨p, h1, hp, hv⟩
    exact ⟨p, h1, by omega, hv⟩
  · rintro ⟨p, h1, hp, hv⟩
    exact ⟨p, h1, by omega, hv⟩

theorem skips_of_ne {v : Verdict} (h : v ≠ .RU) (test : Nat → Outcome F) (t : Nat) :
    Skips v test t := by
  unfold Skips
  induction t - 1 with
  | zero => exact h
  | succ k ih => rw [gradeTests_succ_of_ne ih]; exact ih

theorem skips_mono {test : Nat → Outcome F} {s t : Nat} (h : Skips .RU test s) (hst : s ≤ t) :
    Skips .RU test t := by
  rw [skips_iff] at h ⊢
  obtain ⟨p, h1, hp, hv⟩ := h
  exact ⟨p, h1, by omega, hv⟩

/-- The grade of a prefix only depends on the outcomes in it. -/
theorem gradeTests_congr {v : Verdict} {test test' : Nat → Outcome F} (k : Nat)
    (h : ∀ t, 1 ≤ t → t ≤ k → test t = test' t) : gradeTests v test k = gradeTests v test' k := by
  induction k with
  | zero => rfl
  | succ k ih =>
    simp only [gradeTests, ih fun t h1 hk => h t h1 (by omega), h (k + 1) (by omega) (Nat.le_refl _)]

/-- The submission after the first `k` tests. -/
def gradedSubmission (v : Verdict) (test : Nat → Outcome F) (sub : Submission F) (k : Nat) :
    Submission F :=
  { sub with
    verdict := (gradeTests v test k).1
    testResults := sub.testResults ++ (gradeTests v test k).2 }

/-- The last two assignments of `updateSubmissionResult`. -/
def finished [One F] (sub : Submission F) : Submission F :=
  if sub.verdict = .RU then { sub with verdict := .OK, score := 1 } else sub

/-! ## The update loop -/

/-- The jobs and the stored results agree with the assignment. Nothing here mentions the tested
part of the tests or the submission. -/
structure Jobs (v : Verdict) (test : Nat → Outcome F) (i : ICPCGenerator F) : Prop where
  first_pos : 1 ≤ i.firstTestToGive
  first_le : i.firstTestToGive ≤ i.problem.testsNumber + 1
  given : ∀ id job, i.givenJobs.get? id = some job →
    job.type = .testJob ∧ 1 ≤ job.test ∧ job.test < i.firstTestToGive ∧
      i.internalTestResults.get? job.test = none
  given_inj : ∀ id id' job job', i.givenJobs.get? id = some job →
    i.givenJobs.get? id' = some job' → job.test = job'.test → id = id'
  covered : ∀ t, 1 ≤ t → t < i.firstTestToGive →
    (∃ id job, i.givenJobs.get? id = some job ∧ job.test = t) ∨
      ∃ r, i.internalTestResults.get? t = some r
  stored : ∀ t r, i.internalTestResults.get? t = some r →
    (1 ≤ t ∧ t < i.firstTestToGive) ∧
      (r = (storedOutcome (test t)).testResult t ∨ r.verdict = .SK ∧ Skips v test t)
  failed : ∀ t r, i.internalTestResults.get? t = some r → r.verdict ≠ .OK →
    i.firstTestToGive = i.problem.testsNumber + 1

/-- The submission is the grade of the tested part, of which every result is stored. -/
structure Graded (v : Verdict) (test : Nat → Outcome F) (sub : Submission F)
    (i : ICPCGenerator F) : Prop where
  tested_le : i.testedPrefixLength ≤ i.problem.testsNumber
  tested : ∀ t, 1 ≤ t → t ≤ i.testedPrefixLength → ∃ r, i.internalTestResults.get? t = some r
  submission : i.submission = gradedSubmission v test sub i.testedPrefixLength

/-- The state after `k` tests were graded. -/
def withGrade (v : Verdict) (test : Nat → Outcome F) (sub : Submission F) (k : Nat)
    (i : ICPCGenerator F) : ICPCGenerator F :=
  { i with testedPrefixLength := k, submission := gradedSubmission v test sub k }

variable {v : Verdict} {test : Nat → Outcome F} {sub : Submission F} {i : ICPCGenerator F}

theorem Jobs.withGrade (h : Jobs v test i) (k : Nat) : Jobs v test (i.withGrade v test sub k) :=
  ⟨h.first_pos, h.first_le, h.given, h.given_inj, h.covered, h.stored, h.failed⟩

theorem Graded.eq_withGrade (h : Graded v test sub i) :
    i = i.withGrade v test sub i.testedPrefixLength := by
  unfold withGrade
  rw [← h.submission]

/-- One turn of the loop appends the grade of the next test. -/
theorem addTestResult_eq (hj : Jobs v test i) (hg : Graded v test sub i) {r : TestResult F}
    (hr : i.internalTestResults.get? (i.testedPrefixLength + 1) = some r) :
    i.addTestResult r = .ok (i.withGrade v test sub (i.testedPrefixLength + 1)) := by
  have hverdict : i.submission.verdict = (gradeTests v test i.testedPrefixLength).1 := by
    rw [hg.submission]; rfl
  have hresults : i.submission.testResults =
      sub.testResults ++ (gradeTests v test i.testedPrefixLength).2 := by
    rw [hg.submission]; rfl
  have hrest : ∀ verdict results,
      { i.submission with verdict := verdict, testResults := results } =
        { sub with verdict := verdict, testResults := results } := by
    intro verdict results
    rw [hg.submission]; rfl
  by_cases hru : (gradeTests v test i.testedPrefixLength).1 = .RU
  · -- No earlier test failed, so the stored result is the test's own.
    have hown : r = (storedOutcome (test (i.testedPrefixLength + 1))).testResult
        (i.testedPrefixLength + 1) := by
      rcases (hj.stored _ r hr).2 with h | ⟨-, hskip⟩
      · exact h
      · exact absurd hru hskip
    simp only [addTestResult, hverdict, hresults, hrest, hru, ne_eq, not_true_eq_false, if_false,
      if_true, withGrade, gradedSubmission, gradeTests_succ_of_eq hru, List.append_assoc]
    subst hown
    obtain ⟨verdict, points, error, statistics⟩ := test (i.testedPrefixLength + 1)
    cases verdict <;> rfl
  · simp only [addTestResult, hverdict, hresults, hrest, hru, ne_eq, not_false_eq_true, if_true,
      if_false, withGrade, gradedSubmission, gradeTests_succ_of_ne hru, List.append_assoc,
      skippedResult]

theorem Graded.next (hj : Jobs v test i) (hg : Graded v test sub i) {r : TestResult F}
    (hr : i.internalTestResults.get? (i.testedPrefixLength + 1) = some r) :
    Graded v test sub (i.withGrade v test sub (i.testedPrefixLength + 1)) := by
  have hlt := (hj.stored _ r hr).1.2
  have hle := hj.first_le
  refine ⟨?_, ?_, rfl⟩
  · show i.testedPrefixLength + 1 ≤ i.problem.testsNumber
    omega
  · intro t h1 ht
    change t ≤ i.testedPrefixLength + 1 at ht
    by_cases h : t = i.testedPrefixLength + 1
    · subst h
      exact ⟨r, hr⟩
    · exact hg.tested t h1 (by omega)

/-- The loop grades tests until all are graded or the next one has no stored result. -/
theorem updateLoop_eq (turns : Nat) (updated : Bool) (hj : Jobs v test i)
    (hg : Graded v test sub i) (hturns : turns = i.problem.testsNumber - i.testedPrefixLength) :
    ∃ k updated', updateLoop turns i updated =
        .ok (i.withGrade v test sub k, updated', decide (k = i.problem.testsNumber)) ∧
      Graded v test sub (i.withGrade v test sub k) ∧
      (k < i.problem.testsNumber → i.internalTestResults.get? (k + 1) = none) := by
  induction turns generalizing i updated with
  | zero =>
    have hk : i.testedPrefixLength = i.problem.testsNumber := by
      have := hg.tested_le
      omega
    refine ⟨i.testedPrefixLength, updated, ?_, ?_, ?_⟩
    · simp only [updateLoop, hk, decide_true]
      rw [← hk, ← hg.eq_withGrade]
    · rw [← hg.eq_withGrade]
      exact hg
    · omega
  | succ turns ih =>
    cases hr : i.internalTestResults.get? (i.testedPrefixLength + 1) with
    | none =>
      refine ⟨i.testedPrefixLength, updated, ?_, ?_, fun _ => hr⟩
      · have hne : ¬ i.testedPrefixLength = i.problem.testsNumber := by omega
        simp only [updateLoop, hr, hne, decide_false]
        rw [← hg.eq_withGrade]
      · rw [← hg.eq_withGrade]
        exact hg
    | some r =>
      obtain ⟨k, updated', hloop, hk⟩ :=
        ih (i := i.withGrade v test sub (i.testedPrefixLength + 1)) true (hj.withGrade _)
          (hg.next hj hr) (by simp only [withGrade]; omega)
      refine ⟨k, updated', ?_, hk⟩
      simp only [updateLoop, hr, addTestResult_eq hj hg hr]
      exact hloop

/-! ## Storing results -/

theorem setFailLoop_eq (turns : Nat) (i : ICPCGenerator F) :
    ∃ m, setFailLoop turns i =
        { i with internalTestResults := m, firstTestToGive := i.firstTestToGive + turns } ∧
      ∀ t, m.get? t =
        if i.firstTestToGive ≤ t ∧ t < i.firstTestToGive + turns then some (skippedResult t)
        else i.internalTestResults.get? t := by
  induction turns generalizing i with
  | zero => exact ⟨i.internalTestResults, rfl, fun t => (if_neg (by omega)).symm⟩
  | succ turns ih =>
    obtain ⟨m, hm, hget⟩ := ih
      { i with
        internalTestResults :=
          i.internalTestResults.set i.firstTestToGive (skippedResult i.firstTestToGive)
        firstTestToGive := i.firstTestToGive + 1 }
    refine ⟨m, ?_, fun t => ?_⟩
    · rw [setFailLoop, hm]
      simp only [Nat.add_assoc, Nat.add_comm 1 turns]
    · rw [hget]
      simp only [GoMap.get?_set]
      by_cases ht : t = i.firstTestToGive
      · subst ht
        simp
      · have hiff : i.firstTestToGive + 1 ≤ t ∧ t < i.firstTestToGive + 1 + turns ↔
            i.firstTestToGive ≤ t ∧ t < i.firstTestToGive + (turns + 1) := by omega
        simp only [hiff, ht, if_false]

theorem setFail_eq {i : ICPCGenerator F} (h : i.firstTestToGive ≤ i.problem.testsNumber + 1) :
    ∃ m, setFail i =
        { i with internalTestResults := m, firstTestToGive := i.problem.testsNumber + 1 } ∧
      ∀ t, m.get? t =
        if i.firstTestToGive ≤ t ∧ t < i.problem.testsNumber + 1 then some (skippedResult t)
        else i.internalTestResults.get? t := by
  obtain ⟨m, hm, hget⟩ := setFailLoop_eq (i.problem.testsNumber + 1 - i.firstTestToGive) i
  have hadd : i.firstTestToGive + (i.problem.testsNumber + 1 - i.firstTestToGive) =
      i.problem.testsNumber + 1 := by omega
  rw [hadd] at hm hget
  exact ⟨m, hm, hget⟩

/-- What `testJobCompleted` does: it stores the outcome and, unless the test is `OK`, fills the
tests that were not given. -/
theorem testJobCompleted_eq {i : ICPCGenerator F}
    (h : i.firstTestToGive ≤ i.problem.testsNumber + 1) {job : Job} (htype : job.type = .testJob)
    (result : InvokerJobResult F) :
    ∃ m first, i.testJobCompleted job result =
        .ok { i with internalTestResults := m, firstTestToGive := first } ∧
      first = (if result.verdict = .OK then i.firstTestToGive else i.problem.testsNumber + 1) ∧
      ∀ t, m.get? t =
        if t = job.test then some ((storedOutcome result.outcome).testResult job.test)
        else if i.firstTestToGive ≤ t ∧ t < first then some (skippedResult t)
        else i.internalTestResults.get? t := by
  by_cases hok : result.verdict = .OK
  · refine ⟨i.internalTestResults.set job.test (buildTestResult job result), i.firstTestToGive, ?_,
      (if_pos hok).symm, fun t => ?_⟩
    · simp only [testJobCompleted, htype, ne_eq, not_true_eq_false, if_false, hok]
    · rw [GoMap.get?_set]
      by_cases ht : t = job.test
      · rw [if_pos ht, if_pos ht, buildTestResult_eq]
        simp [storedOutcome, hok]
      · rw [if_neg ht, if_neg ht, if_neg (by omega)]
  · obtain ⟨m, hm, hget⟩ := setFail_eq h
    refine ⟨m.set job.test ((storedOutcome result.outcome).testResult job.test),
      i.problem.testsNumber + 1, ?_, (if_neg hok).symm, fun t => ?_⟩
    · obtain ⟨rjob, verdict, points, error, statistics, status⟩ := result
      simp only [testJobCompleted, htype, ne_eq, not_true_eq_false, if_false]
      cases verdict <;> first | exact absurd rfl hok | (simp only [hm]; rfl)
    · rw [GoMap.get?_set, hget]

/-- A result found after `testJobCompleted` is the stored one, a filled one or an old one. -/
theorem of_completed {m old : GoMap Nat (TestResult F)} {stored start first t : Nat}
    {r r' : TestResult F}
    (hm : ∀ t, m.get? t =
      if t = stored then some r
      else if start ≤ t ∧ t < first then some (skippedResult t)
      else old.get? t) (h : m.get? t = some r') :
    (t = stored ∧ r' = r) ∨ ((start ≤ t ∧ t < first) ∧ r' = skippedResult t) ∨
      old.get? t = some r' := by
  rw [hm] at h
  split at h
  · next ht => exact .inl ⟨ht, (Option.some.inj h).symm⟩
  · split at h
    · next hfill => exact .inr (.inl ⟨hfill, (Option.some.inj h).symm⟩)
    · exact .inr (.inr h)

/-- A test filled by `setFail` is after the test that failed, or is skipped itself. -/
theorem skips_filled {job : Nat} {r : TestResult F}
    (hr : r = (storedOutcome (test job)).testResult job ∨ r.verdict = .SK ∧ Skips .RU test job)
    (hpos : 1 ≤ job) (hbad : r.verdict ≠ .OK) {t : Nat} (ht : job < t) : Skips .RU test t := by
  rcases hr with rfl | ⟨-, hs⟩
  · rw [skips_iff]
    refine ⟨job, hpos, ht, fun hv => hbad ?_⟩
    rw [Outcome.testResult_verdict]
    exact (storedOutcome_verdict_eq_ok _).2 hv
  · exact skips_mono hs (Nat.le_of_lt ht)

/-- Storing the result of a given job keeps the agreement. -/
theorem Jobs.complete (h : Jobs .RU test i) {id : JobID} {job : Job}
    (hget : i.givenJobs.get? id = some job) {r : TestResult F}
    (hr : r = (storedOutcome (test job.test)).testResult job.test ∨
      r.verdict = .SK ∧ Skips .RU test job.test)
    {first : Nat}
    (hfirst : first = if r.verdict = .OK then i.firstTestToGive else i.problem.testsNumber + 1)
    {m : GoMap Nat (TestResult F)}
    (hm : ∀ t, m.get? t =
      if t = job.test then some r
      else if i.firstTestToGive ≤ t ∧ t < first then some (skippedResult t)
      else i.internalTestResults.get? t) :
    Jobs .RU test
      { i with
        givenJobs := i.givenJobs.delete id
        internalTestResults := m
        firstTestToGive := first } := by
  obtain ⟨htype, hpos, hlt, hnone⟩ := h.given id job hget
  have hle := h.first_le
  have hbounds : i.firstTestToGive ≤ first ∧ first ≤ i.problem.testsNumber + 1 := by
    rw [hfirst]
    split <;> omega
  obtain ⟨hge, hub⟩ := hbounds
  have hbad : ∀ t, i.firstTestToGive ≤ t → t < first → r.verdict ≠ .OK := by
    intro t ht hlt' hok
    rw [hfirst, if_pos hok] at hlt'
    omega
  refine ⟨?_, ?_, ?_, ?_, ?_, ?_, ?_⟩
  · exact le_trans h.first_pos hge
  · exact hub
  · intro id' job' hget'
    obtain ⟨hne, hold⟩ := GoMap.of_get?_delete hget'
    obtain ⟨htype', hpos', hlt', hnone'⟩ := h.given id' job' hold
    have htest : job'.test ≠ job.test := fun he => hne (h.given_inj _ _ _ _ hold hget he)
    refine ⟨htype', hpos', lt_of_lt_of_le hlt' hge, ?_⟩
    show m.get? job'.test = none
    rw [hm, if_neg htest, if_neg (by omega), hnone']
  · intro id₁ id₂ job₁ job₂ h₁ h₂ he
    exact h.given_inj _ _ _ _ (GoMap.of_get?_delete h₁).2 (GoMap.of_get?_delete h₂).2 he
  · intro t h1 ht
    change (∃ id' job', (i.givenJobs.delete id).get? id' = some job' ∧ job'.test = t) ∨
      ∃ r', m.get? t = some r'
    rw [hm]
    by_cases htest : t = job.test
    · exact .inr ⟨r, if_pos htest⟩
    · rw [if_neg htest]
      by_cases hfill : i.firstTestToGive ≤ t ∧ t < first
      · exact .inr ⟨_, if_pos hfill⟩
      · rw [if_neg hfill]
        rcases h.covered t h1 (by change t < first at ht; omega) with ⟨id', job', hg, he⟩ | hs
        · refine .inl ⟨id', job', ?_, he⟩
          rw [GoMap.get?_delete_ne _ fun heq => htest ?_, hg]
          subst heq
          rw [hget] at hg
          cases hg
          exact he.symm
        · exact .inr hs
  · intro t r' hr'
    change (1 ≤ t ∧ t < first) ∧ _
    rcases of_completed hm hr' with ⟨rfl, rfl⟩ | ⟨hfill, rfl⟩ | hold
    · exact ⟨⟨hpos, by omega⟩, hr⟩
    · have hskip := skips_filled hr hpos (hbad t hfill.1 hfill.2) (lt_of_lt_of_le hlt hfill.1)
      exact ⟨⟨le_trans h.first_pos hfill.1, hfill.2⟩, .inr ⟨rfl, hskip⟩⟩
    · obtain ⟨hb, hs⟩ := h.stored t r' hold
      exact ⟨⟨hb.1, by omega⟩, hs⟩
  · intro t r' hr' hbad'
    change first = i.problem.testsNumber + 1
    rcases of_completed hm hr' with ⟨-, rfl⟩ | ⟨hfill, -⟩ | hold
    · rw [hfirst, if_neg hbad']
    · rw [hfirst, if_neg (hbad t hfill.1 hfill.2)]
    · have := h.failed t r' hold hbad'
      omega

/-- Giving the next test keeps the agreement. -/
theorem Jobs.give (h : Jobs v test i) (job : Job) (hid : i.givenJobs.get? job.id = none)
    (htype : job.type = .testJob) (htest : job.test = i.firstTestToGive)
    (hle : i.firstTestToGive ≤ i.problem.testsNumber) :
    Jobs v test
      { i with
        firstTestToGive := i.firstTestToGive + 1
        givenJobs := i.givenJobs.set job.id job } := by
  have hnone : ∀ t, i.firstTestToGive ≤ t → i.internalTestResults.get? t = none := by
    intro t ht
    cases hr : i.internalTestResults.get? t with
    | none => rfl
    | some r =>
      have := (h.stored t r hr).1.2
      omega
  refine ⟨?_, ?_, ?_, ?_, ?_, ?_, ?_⟩
  · exact Nat.le_add_left 1 _
  · exact Nat.succ_le_succ hle
  · intro id' job' hget
    rcases GoMap.of_get?_set hget with ⟨-, rfl⟩ | ⟨-, hold⟩
    · refine ⟨htype, htest ▸ h.first_pos, ?_, hnone _ (Nat.le_of_eq htest.symm)⟩
      exact htest ▸ Nat.lt_succ_self _
    · obtain ⟨ht, h1, hlt, hn⟩ := h.given id' job' hold
      exact ⟨ht, h1, Nat.lt_succ_of_lt hlt, hn⟩
  · intro id₁ id₂ job₁ job₂ h₁ h₂ he
    -- The new job is for the first test that is not given, the others are for earlier tests.
    rcases GoMap.of_get?_set h₁ with ⟨heq₁, rfl⟩ | ⟨-, hold₁⟩ <;>
      rcases GoMap.of_get?_set h₂ with ⟨heq₂, rfl⟩ | ⟨-, hold₂⟩
    · exact heq₁.trans heq₂.symm
    · have := (h.given id₂ job₂ hold₂).2.2.1
      omega
    · have := (h.given id₁ job₁ hold₁).2.2.1
      omega
    · exact h.given_inj _ _ _ _ hold₁ hold₂ he
  · intro t h1 ht
    change (∃ id' job', (i.givenJobs.set job.id job).get? id' = some job' ∧ job'.test = t) ∨ _
    by_cases hlast : t = i.firstTestToGive
    · exact .inl ⟨job.id, job, GoMap.get?_set_self _ _ _, htest.trans hlast.symm⟩
    · change t < i.firstTestToGive + 1 at ht
      rcases h.covered t h1 (by omega) with ⟨id', job', hg, he⟩ | hs
      · refine .inl ⟨id', job', ?_, he⟩
        rw [GoMap.get?_set_ne _ _ fun heq => ?_, hg]
        rw [heq, hid] at hg
        cases hg
      · exact .inr hs
  · intro t r hr
    obtain ⟨⟨h1, hlt⟩, hs⟩ := h.stored t r hr
    exact ⟨⟨h1, Nat.lt_succ_of_lt hlt⟩, hs⟩
  · intro t r hr hbad
    have := h.failed t r hr hbad
    omega

end TestingSystem.ICPCGenerator
