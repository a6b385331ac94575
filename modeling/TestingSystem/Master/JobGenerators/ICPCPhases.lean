import TestingSystem.Master.JobGenerators.ICPCInvariant

/-!
# Phases of the ICPC generator

Between two calls a generator that started from `sub` and receives the outcomes `outs` is in one of
four phases. `nextJob_some`, `nextJob_none` and `jobCompleted_good` say what one call does in any of
them; the queue and the grading results use these and never unfold the generator.
-/

set_option autoImplicit false

namespace TestingSystem.ICPCGenerator

variable {F : Type}

/-- The submission that testing ends with. -/
def finalSubmission [One F] (outs : Outcomes F) (testsNumber : Nat) (sub : Submission F) :
    Submission F :=
  finished
    (gradedSubmission (compileVerdict outs.compile.verdict) outs.test
      (compiledSubmission outs.compile sub) testsNumber)

/-- All tests are tested. -/
def Finished (i : ICPCGenerator F) : Prop :=
  i.state = .compilationFinished ∧ i.problem.testsNumber ≤ i.testedPrefixLength

/-! ## Phases -/

/-- No test was given and none is stored. -/
structure Untested (sub : Submission F) (i : ICPCGenerator F) : Prop where
  first : i.firstTestToGive = 1
  tested : i.testedPrefixLength = 0
  submission : i.submission = { sub with verdict := .RU }
  stored : ∀ t, i.internalTestResults.get? t = none

/-- The compile job `id` is given and nothing else is. -/
structure Compiling (i : ICPCGenerator F) (id : JobID) (job : Job) : Prop where
  given : i.givenJobs.get? id = some job
  only : ∀ id' job', i.givenJobs.get? id' = some job' → id' = id
  type : job.type = .compileJob
  test : job.test = 0

/-- The compilation succeeded and some test is not tested: its result is not stored. -/
structure Testing (outs : Outcomes F) (sub : Submission F) (i : ICPCGenerator F) : Prop where
  jobs : Jobs .RU outs.test i
  graded : Graded .RU outs.test (compiledSubmission outs.compile sub) i
  left : i.testedPrefixLength < i.problem.testsNumber
  next : i.internalTestResults.get? (i.testedPrefixLength + 1) = none

/-- All tests are tested, none is running and none is left to give. -/
structure Done [One F] (outs : Outcomes F) (sub : Submission F) (i : ICPCGenerator F) : Prop where
  first : i.firstTestToGive = i.problem.testsNumber + 1
  tested : i.testedPrefixLength = i.problem.testsNumber
  given : ∀ id, i.givenJobs.get? id = none
  submission : i.submission = finalSubmission outs i.problem.testsNumber sub

/-- The states between two calls. -/
inductive Good [One F] (outs : Outcomes F) (sub : Submission F) (i : ICPCGenerator F) : Prop where
  | notStarted (state : i.state = .compilationNotStarted) (untested : Untested sub i)
      (given : ∀ id, i.givenJobs.get? id = none)
  | compiling (state : i.state = .compilationStarted) (untested : Untested sub i)
      (id : JobID) (job : Job) (compiling : Compiling i id job)
  | testing (state : i.state = .compilationFinished) (verdict : outs.compile.verdict = .CD)
      (testing : Testing outs sub i)
  | done (state : i.state = .compilationFinished) (done : Done outs sub i)

/-- A result that may come back for a given job: the outcome of the job or, for a test that the
grade skips anyway, any result with verdict `SK`. -/
def Admissible (outs : Outcomes F) (job : Job) (result : InvokerJobResult F) : Prop :=
  match job.type with
  | .compileJob => result.outcome = outs.compile
  | _ => result.outcome = outs.test job.test ∨
      result.verdict = .SK ∧ Skips .RU outs.test job.test

variable [One F] {outs : Outcomes F} {sub : Submission F} {i : ICPCGenerator F}

theorem new_good {id : GeneratorID} {problem : Problem F} (h : new id problem sub = .ok i) :
    i.id = id ∧ i.problem = problem ∧ ¬ Finished i ∧ ∀ outs, Good outs sub i := by
  unfold new at h
  split at h
  · cases h
  · cases h
    exact ⟨rfl, rfl, fun hf => GeneratorState.noConfusion hf.1,
      fun _ => .notStarted rfl ⟨rfl, rfl, rfl, fun _ => rfl⟩ fun _ => rfl⟩

omit [One F] in
theorem Testing.not_finished (h : Testing outs sub i) : ¬ Finished i :=
  fun hf => absurd h.left (Nat.not_lt.2 hf.2)

theorem Done.finished (state : i.state = .compilationFinished) (h : Done outs sub i) :
    Finished i :=
  ⟨state, Nat.le_of_eq h.tested.symm⟩

theorem Good.submission_id (h : Good outs sub i) : i.submission.id = sub.id := by
  cases h with
  | notStarted _ untested => rw [untested.submission]
  | compiling _ untested => rw [untested.submission]
  | testing _ _ testing =>
    rw [testing.graded.submission]
    rfl
  | done _ done =>
    rw [done.submission, finalSubmission, ICPCGenerator.finished]
    split <;> rfl

omit [One F] in
/-- A state with no stored result meets the invariant of the jobs, whatever the outcomes are. -/
theorem Untested.jobs (h : Untested sub i) {v : Verdict} {test : Nat → Outcome F}
    (hgiven : ∀ id, i.givenJobs.get? id = none) : Jobs v test i := by
  refine ⟨?_, ?_, ?_, ?_, ?_, ?_, ?_⟩
  · exact Nat.le_of_eq h.first.symm
  · rw [h.first]
    omega
  · intro id job hget
    rw [hgiven] at hget
    cases hget
  · intro id id' job job' hget
    rw [hgiven] at hget
    cases hget
  · intro t h1 ht
    rw [h.first] at ht
    omega
  · intro t r hr
    rw [h.stored] at hr
    cases hr
  · intro t r hr
    rw [h.stored] at hr
    cases hr

omit [One F] in
theorem Untested.withGiven (h : Untested sub i) (state : GeneratorState)
    (given : GoMap JobID Job) : Untested sub { i with state := state, givenJobs := given } :=
  ⟨h.first, h.tested, h.submission, h.stored⟩

/-! ## NextJob -/

/-- What a call that gives a job does. -/
structure Given (outs : Outcomes F) (sub : Submission F) (i : ICPCGenerator F) (id : JobID)
    (job : Job) (i' : ICPCGenerator F) : Prop where
  job_id : job.id = id
  submitID : job.submitID = sub.id
  id_eq : i'.id = i.id
  problem : i'.problem = i.problem
  given : i'.givenJobs = i.givenJobs.set id job
  good : Good outs sub i'
  not_finished : ¬ Finished i ∧ ¬ Finished i'
  first_le : i.firstTestToGive ≤ i'.firstTestToGive
  kind : job.type = .compileJob ∧ job.requiredJobIDs = [] ∨
    job.type = .testJob ∧ job.test = i.firstTestToGive ∧ job.requiredJobIDs = i.givenJobs.keys
  earlier : job.type = .testJob → ∀ id' job', i.givenJobs.get? id' = some job' →
    job'.type = .testJob ∧ 1 ≤ job'.test ∧ job'.test < job.test

/-- A call that gives a job adds exactly that job. -/
theorem nextJob_some (h : Good outs sub i) {id : JobID} (hid : i.givenJobs.get? id = none)
    {job : Job} {i' : ICPCGenerator F} (he : i.nextJob id = (some job, i')) :
    Given outs sub i id job i' := by
  have hsub := h.submission_id
  cases h with
  | notStarted state untested given =>
    simp only [nextJob, state, reduceCtorEq, if_false, if_true, Prod.mk.injEq,
      Option.some.injEq] at he
    obtain ⟨rfl, rfl⟩ := he
    refine ⟨rfl, hsub, rfl, rfl, rfl, ?_, ⟨?_, ?_⟩, Nat.le_refl _, .inl ⟨rfl, rfl⟩,
      fun htype => nomatch htype⟩
    · refine .compiling rfl (untested.withGiven _ _)
        id _ ⟨GoMap.get?_set_self _ _ _, ?_, rfl, rfl⟩
      intro id' job' hget
      by_contra hne
      rw [GoMap.get?_set_ne _ _ hne, given] at hget
      cases hget
    · intro hf
      exact GeneratorState.noConfusion (state.symm.trans hf.1)
    · intro hf
      exact GeneratorState.noConfusion hf.1
  | compiling state =>
    simp [nextJob, state] at he
  | testing state verdict testing =>
    by_cases hlast : i.firstTestToGive > i.problem.testsNumber
    · simp [nextJob, state, hlast] at he
    · simp only [nextJob, state, reduceCtorEq, if_false, hlast, Prod.mk.injEq,
        Option.some.injEq] at he
      obtain ⟨rfl, rfl⟩ := he
      have hgive := testing.jobs.give
        { id := id, submitID := i.submission.id, type := .testJob
          test := i.firstTestToGive, requiredJobIDs := i.givenJobs.keys }
        hid rfl rfl (Nat.not_lt.1 hlast)
      refine ⟨rfl, hsub, rfl, rfl, rfl, ?_, ⟨testing.not_finished, ?_⟩, Nat.le_succ _,
        .inr ⟨rfl, rfl, rfl⟩, fun _ id' job' hget => ?_⟩
      · exact .testing rfl verdict
          ⟨⟨hgive.first_pos, hgive.first_le, hgive.given, hgive.given_inj, hgive.covered,
              hgive.stored, hgive.failed⟩,
            ⟨testing.graded.tested_le, testing.graded.tested, testing.graded.submission⟩,
            testing.left, testing.next⟩
      · exact fun hf => absurd testing.left (Nat.not_lt.2 hf.2)
      · obtain ⟨htype, hpos, hlt, -⟩ := testing.jobs.given _ _ hget
        exact ⟨htype, hpos, hlt⟩
  | done state done =>
    have hlast : i.firstTestToGive > i.problem.testsNumber := by
      rw [done.first]
      omega
    simp [nextJob, state, hlast] at he

/-- A call that gives no job changes nothing, and then a job is running or all tests are tested. -/
theorem nextJob_none (h : Good outs sub i) {id : JobID} {i' : ICPCGenerator F}
    (he : i.nextJob id = (none, i')) :
    i' = i ∧ ((∃ id job, i.givenJobs.get? id = some job) ∨ Finished i) := by
  cases h with
  | notStarted state =>
    simp [nextJob, state] at he
  | compiling state untested id' job compiling =>
    simp only [nextJob, state, if_true, Prod.mk.injEq, true_and] at he
    exact ⟨he.symm, .inl ⟨id', job, compiling.given⟩⟩
  | testing state verdict testing =>
    by_cases hlast : i.firstTestToGive > i.problem.testsNumber
    · simp only [nextJob, state, reduceCtorEq, if_false, hlast, if_true, Prod.mk.injEq,
        true_and] at he
      refine ⟨he.symm, .inl ?_⟩
      -- The next test of the prefix was given and has no result, so its job is running.
      have hlt := testing.left
      rcases testing.jobs.covered (i.testedPrefixLength + 1) (by omega) (by omega) with
        ⟨id', job, hget, -⟩ | ⟨r, hr⟩
      · exact ⟨id', job, hget⟩
      · rw [testing.next] at hr
        cases hr
    · simp [nextJob, state, hlast] at he
  | done state done =>
    have hlast : i.firstTestToGive > i.problem.testsNumber := by
      rw [done.first]
      omega
    simp only [nextJob, state, reduceCtorEq, if_false, hlast, if_true, Prod.mk.injEq,
      true_and] at he
    exact ⟨he.symm, .inr (done.finished state)⟩

/-! ## JobCompleted -/

/-- The result of a call that completed a given job. -/
structure CompletedGood (outs : Outcomes F) (sub : Submission F) (i : ICPCGenerator F) (id : JobID)
    (c : Completed (ICPCGenerator F) F) : Prop where
  id_eq : c.generator.id = i.id
  problem : c.generator.problem = i.problem
  given : c.generator.givenJobs = i.givenJobs.delete id
  first_le : i.firstTestToGive ≤ c.generator.firstTestToGive
  good : Good outs sub c.generator
  published : ∀ s, c.published = some s → s.id = sub.id
  submission : c.submission = .ok none ∧ ¬ Finished c.generator ∨
    c.submission = .ok (some (finalSubmission outs i.problem.testsNumber sub)) ∧
      Finished c.generator ∧ ∀ id, c.generator.givenJobs.get? id = none

/-- What `updateSubmissionResult` returns when jobs and stored results agree with the outcomes. -/
theorem updateSubmissionResult_eq {v : Verdict} {test : Nat → Outcome F} (hj : Jobs v test i)
    (hg : Graded v test sub i) :
    ∃ (k : Nat) (updated : Bool), Graded v test sub (i.withGrade v test sub k) ∧
      ((k < i.problem.testsNumber ∧ i.internalTestResults.get? (k + 1) = none ∧
        i.updateSubmissionResult = .ok
          ⟨i.withGrade v test sub k,
            if updated then some (gradedSubmission v test sub k) else none, .ok none⟩) ∨
      (k = i.problem.testsNumber ∧
        i.updateSubmissionResult = .ok
          ⟨{ i.withGrade v test sub k with
              submission := ICPCGenerator.finished (gradedSubmission v test sub k) },
            if updated then some (ICPCGenerator.finished (gradedSubmission v test sub k)) else none,
            .ok (some (ICPCGenerator.finished (gradedSubmission v test sub k)))⟩)) := by
  obtain ⟨k, updated, hloop, hgk, hnext⟩ := updateLoop_eq _ false hj hg rfl
  refine ⟨k, updated, hgk, ?_⟩
  by_cases hk : k = i.problem.testsNumber
  · refine .inr ⟨hk, ?_⟩
    simp only [updateSubmissionResult, hloop, bind, Except.bind, hk, decide_true, Bool.not_true,
      pure, Except.pure, ICPCGenerator.finished]
    by_cases hv : (gradedSubmission v test sub i.problem.testsNumber).verdict = .RU
    · simp [withGrade, hv]
    · simp [withGrade, hv]
  · have hlt : k < i.problem.testsNumber := lt_of_le_of_ne hgk.tested_le hk
    refine .inl ⟨hlt, hnext hlt, ?_⟩
    simp only [updateSubmissionResult, hloop, bind, Except.bind, hk, decide_false, Bool.not_false,
      if_true, pure, Except.pure]
    rfl

/-- The phase after an update. -/
theorem good_of_update {j : ICPCGenerator F} {id : JobID} (hid : j.id = i.id)
    (hproblem : j.problem = i.problem) (hgiven : j.givenJobs = i.givenJobs.delete id)
    (hstate : j.state = .compilationFinished) (hfirst : i.firstTestToGive ≤ j.firstTestToGive)
    (hj : Jobs (compileVerdict outs.compile.verdict) outs.test j)
    (hg : Graded (compileVerdict outs.compile.verdict) outs.test
      (compiledSubmission outs.compile sub) j)
    (hcd : outs.compile.verdict = .CD ∨
      ∀ t, 1 ≤ t → t ≤ j.problem.testsNumber → ∃ r, j.internalTestResults.get? t = some r) :
    ∃ c, j.updateSubmissionResult = .ok c ∧ CompletedGood outs sub i id c := by
  obtain ⟨k, updated, hgk, ⟨hlt, hnext, he⟩ | ⟨hk, he⟩⟩ := updateSubmissionResult_eq hj hg
  · refine ⟨_, he, hid, hproblem, hgiven, hfirst, ?_, ?_, .inl ⟨rfl, ?_⟩⟩
    · -- A test without a result is left, so the compilation succeeded.
      have hcd' : outs.compile.verdict = .CD := by
        rcases hcd with h | h
        · exact h
        · obtain ⟨r, hr⟩ := h (k + 1) (by omega) hlt
          rw [hnext] at hr
          cases hr
      have hru : compileVerdict outs.compile.verdict = .RU := by rw [hcd']; rfl
      rw [hru] at hj hgk ⊢
      exact .testing hstate hcd' ⟨hj.withGrade k, hgk, hlt, hnext⟩
    · intro s hs
      cases updated <;> cases hs
      rfl
    · exact fun hf => absurd hlt (Nat.not_lt.2 hf.2)
  · subst hk
    have hlast : j.firstTestToGive = j.problem.testsNumber + 1 := by
      have hle := hj.first_le
      have hpos := hj.first_pos
      by_cases hzero : j.problem.testsNumber = 0
      · omega
      · obtain ⟨r, hr⟩ := hgk.tested j.problem.testsNumber (by omega) (Nat.le_refl _)
        have := (hj.stored _ r hr).1.2
        omega
    -- A running test would be one of the tested ones, which all have a result.
    have hnone : ∀ id, j.givenJobs.get? id = none := by
      intro id'
      cases hget : j.givenJobs.get? id' with
      | none => rfl
      | some job =>
        obtain ⟨-, hpos, hlt, hno⟩ := hj.given id' job hget
        obtain ⟨r, hr⟩ := hgk.tested job.test hpos (show job.test ≤ j.problem.testsNumber by omega)
        have hr' : j.internalTestResults.get? job.test = some r := hr
        rw [hno] at hr'
        cases hr'
    refine ⟨_, he, hid, hproblem, hgiven, hfirst, ?_, ?_,
      .inr ⟨?_, ⟨hstate, Nat.le_refl _⟩, hnone⟩⟩
    · exact .done hstate ⟨hlast, rfl, hnone, rfl⟩
    · intro s hs
      have hs' : s = ICPCGenerator.finished (gradedSubmission
          (compileVerdict outs.compile.verdict) outs.test (compiledSubmission outs.compile sub)
          j.problem.testsNumber) := by
        cases updated
        · cases hs
        · exact (Option.some.inj hs).symm
      rw [hs', ICPCGenerator.finished]
      split <;> rfl
    · rw [← hproblem]
      rfl

omit [One F] in
/-- What `compileJobCompleted` does: it stores the outcome and, unless it is `CD`, fills all
tests. -/
theorem compileJobCompleted_eq {i : ICPCGenerator F} (hu : Untested sub i) {job : Job}
    (htype : job.type = .compileJob) (htest : job.test = 0) (result : InvokerJobResult F) :
    ∃ m first, i.compileJobCompleted job result =
        .ok
          { i with
            state := .compilationFinished
            internalTestResults := m
            firstTestToGive := first
            submission := compiledSubmission result.outcome sub } ∧
      first = (if result.verdict = .CD then 1 else i.problem.testsNumber + 1) ∧
      ∀ t, m.get? t = if 1 ≤ t ∧ t < first then some (skippedResult t) else none := by
  have hsub := hu.submission
  by_cases hcd : result.verdict = .CD
  · refine ⟨i.internalTestResults, i.firstTestToGive, ?_, ?_, fun t => ?_⟩
    · simp only [compileJobCompleted, htype, ne_eq, not_true_eq_false, if_false, hcd, hsub,
        buildTestResult_eq, htest, compiledSubmission, compileVerdict, storedCompileOutcome,
        InvokerJobResult.outcome_verdict]
    · rw [if_pos hcd, hu.first]
    · rw [hu.first, hu.stored, if_neg (by omega)]
  · have hfail : ∀ verdict, ∃ m,
        setFail { i with
            state := .compilationFinished
            submission := { i.submission with verdict := verdict } } =
          { i with
            state := .compilationFinished
            submission := { i.submission with verdict := verdict }
            internalTestResults := m
            firstTestToGive := i.problem.testsNumber + 1 } ∧
        ∀ t, m.get? t =
          if 1 ≤ t ∧ t < i.problem.testsNumber + 1 then some (skippedResult t) else none := by
      intro verdict
      obtain ⟨m, hm, hget⟩ := setFail_eq
        (i := { i with
            state := .compilationFinished
            submission := { i.submission with verdict := verdict } })
        (show i.firstTestToGive ≤ i.problem.testsNumber + 1 by rw [hu.first]; omega)
      refine ⟨m, hm, fun t => ?_⟩
      rw [hget t]
      simp only [hu.first, hu.stored]
    obtain ⟨m, hm, hget⟩ := hfail (compileVerdict result.verdict)
    refine ⟨m, i.problem.testsNumber + 1, ?_, (if_neg hcd).symm, hget⟩
    obtain ⟨rjob, verdict, points, error, statistics, status⟩ := result
    have hv : compileVerdict verdict = .CE ∧ verdict = .CE ∨ compileVerdict verdict = .CF := by
      cases verdict <;> simp_all [compileVerdict]
    simp only [compileJobCompleted, htype, ne_eq, not_true_eq_false, if_false]
    cases verdict <;>
      first
      | exact absurd rfl hcd
      | (simp only [compileVerdict] at hm
         rw [hm]
         simp only [hsub, buildTestResult_eq, htest, compiledSubmission, compileVerdict,
           storedCompileOutcome, InvokerJobResult.outcome])

omit [One F] in
/-- After the compilation only skipped results are stored, and only if it failed. -/
theorem compiled_jobs {given : GoMap JobID Job} {m : GoMap Nat (TestResult F)} {first : Nat}
    (outs : Outcomes F) (submission : Submission F) (i : ICPCGenerator F)
    (hgiven : ∀ id, given.get? id = none)
    (hfirst : first = if outs.compile.verdict = .CD then 1 else i.problem.testsNumber + 1)
    (hm : ∀ t, m.get? t = if 1 ≤ t ∧ t < first then some (skippedResult t) else none) :
    Jobs (compileVerdict outs.compile.verdict) outs.test
      { i with
        state := .compilationFinished
        givenJobs := given
        internalTestResults := m
        firstTestToGive := first
        submission := submission } := by
  have hge : 1 ≤ first ∧ first ≤ i.problem.testsNumber + 1 := by
    rw [hfirst]
    split <;> omega
  -- Something was filled only if the compilation failed.
  have hfilled : ∀ t, 1 ≤ t → t < first → outs.compile.verdict ≠ .CD := by
    intro t h1 ht hcd
    rw [hfirst, if_pos hcd] at ht
    omega
  have hstored : ∀ t r, m.get? t = some r → (1 ≤ t ∧ t < first) ∧ r = skippedResult t := by
    intro t r hr
    rw [hm] at hr
    split at hr
    · next hb => exact ⟨hb, (Option.some.inj hr).symm⟩
    · cases hr
  refine ⟨hge.1, hge.2, ?_, ?_, ?_, ?_, ?_⟩
  · intro id job hg
    exact absurd (hg.symm.trans (hgiven id)) (by simp)
  · intro id id' job job' hg
    exact absurd (hg.symm.trans (hgiven id)) (by simp)
  · intro t h1 ht
    exact .inr ⟨_, (hm t).trans (if_pos ⟨h1, ht⟩)⟩
  · intro t r hr
    obtain ⟨hb, rfl⟩ := hstored t r hr
    refine ⟨hb, .inr ⟨rfl, skips_of_ne ?_ _ _⟩⟩
    intro hru
    refine hfilled t hb.1 hb.2 ?_
    revert hru
    cases outs.compile.verdict <;> simp [compileVerdict]
  · intro t r hr hbad
    obtain ⟨hb, -⟩ := hstored t r hr
    exact hfirst.trans (if_neg (hfilled t hb.1 hb.2))

/-- Completing the compile job never panics and keeps the invariant. -/
theorem Compiling.completed_good (untested : Untested sub i) {result : InvokerJobResult F} {job : Job}
    (compiling : Compiling i result.job.id job) (hout : result.outcome = outs.compile) :
    ∃ c, i.jobCompleted result = .ok c ∧ CompletedGood outs sub i result.job.id c := by
  obtain ⟨m, first, he, hfirst, hm⟩ := compileJobCompleted_eq
    (untested.withGiven i.state (i.givenJobs.delete result.job.id)) compiling.type compiling.test result
  simp only [jobCompleted, compiling.given, compiling.type, he]
  rw [hout] at he ⊢
  have hverdict : result.verdict = outs.compile.verdict := by rw [← hout]; rfl
  rw [hverdict] at hfirst
  have hjobs := compiled_jobs outs (compiledSubmission outs.compile sub) i
    (GoMap.get?_delete_only compiling.only) hfirst hm
  refine good_of_update rfl rfl rfl rfl (untested.first ▸ hjobs.first_pos) hjobs ?_ ?_
  · -- No test is tested yet.
    refine ⟨untested.tested ▸ Nat.zero_le _, ?_, ?_⟩
    · intro t h1 ht
      change t ≤ i.testedPrefixLength at ht
      rw [untested.tested] at ht
      omega
    · show compiledSubmission outs.compile sub = _
      simp only [untested.tested, gradedSubmission, gradeTests, List.append_nil]
      rfl
  · by_cases hcd : outs.compile.verdict = .CD
    · exact .inl hcd
    · have hlast : first = i.problem.testsNumber + 1 := hfirst.trans (if_neg hcd)
      refine .inr fun t h1 ht => ⟨_, (hm t).trans (if_pos ⟨h1, ?_⟩)⟩
      rw [hlast]
      exact Nat.lt_succ_of_le ht

/-- Completing a given test never panics and keeps the invariant. -/
theorem Testing.completed_good (state : i.state = .compilationFinished)
    (verdict : outs.compile.verdict = .CD) (testing : Testing outs sub i)
    {result : InvokerJobResult F} {job : Job} (hget : i.givenJobs.get? result.job.id = some job)
    (hadm : Admissible outs job result) :
    ∃ c, i.jobCompleted result = .ok c ∧ CompletedGood outs sub i result.job.id c := by
  obtain ⟨htype, -, -, -⟩ := testing.jobs.given _ _ hget
  have hout : result.outcome = outs.test job.test ∨
      result.verdict = .SK ∧ Skips .RU outs.test job.test := by
    simpa [Admissible, htype] using hadm
  obtain ⟨m, first, he, hfirst, hm⟩ := testJobCompleted_eq
    (i := { i with givenJobs := i.givenJobs.delete result.job.id }) testing.jobs.first_le htype
    result
  have hru : compileVerdict outs.compile.verdict = .RU := by rw [verdict]; rfl
  simp only [jobCompleted, hget, htype, he]
  have hge : i.firstTestToGive ≤ first := by
    have hle := testing.jobs.first_le
    rw [hfirst]
    split
    · exact le_rfl
    · exact hle
  refine good_of_update rfl rfl rfl state hge ?_ ?_ (.inl verdict)
  · rw [hru]
    refine testing.jobs.complete hget (r := (storedOutcome result.outcome).testResult job.test)
      ?_ ?_ hm
    · rcases hout with hown | ⟨hsk, hskip⟩
      · rw [hown]
        exact .inl rfl
      · refine .inr ⟨?_, hskip⟩
        simp [storedOutcome, hsk]
    · rw [hfirst]
      simp only [Outcome.testResult_verdict, storedOutcome_verdict_eq_ok,
        InvokerJobResult.outcome_verdict]
  · rw [hru]
    refine ⟨testing.graded.tested_le, ?_, testing.graded.submission⟩
    intro t h1 ht
    obtain ⟨r, hr⟩ := testing.graded.tested t h1 ht
    show ∃ r, m.get? t = some r
    rw [hm]
    split
    · exact ⟨_, rfl⟩
    · split
      · exact ⟨_, rfl⟩
      · exact ⟨r, hr⟩

/-- Completing a given job with an admissible result never panics and keeps the invariant. -/
theorem jobCompleted_good (h : Good outs sub i) {result : InvokerJobResult F} {job : Job}
    (hget : i.givenJobs.get? result.job.id = some job) (hadm : Admissible outs job result) :
    ∃ c, i.jobCompleted result = .ok c ∧ CompletedGood outs sub i result.job.id c := by
  cases h with
  | notStarted state untested given =>
    rw [given] at hget
    cases hget
  | compiling state untested id cjob compiling =>
    obtain rfl := compiling.only _ _ hget
    obtain rfl : cjob = job := Option.some.inj (compiling.given.symm.trans hget)
    have hout : result.outcome = outs.compile := by simpa [Admissible, compiling.type] using hadm
    exact compiling.completed_good untested hout
  | testing state verdict testing => exact testing.completed_good state verdict hget hadm
  | done state done =>
    rw [done.given] at hget
    cases hget

/-! ## Changing the outcomes

Results that arrive settle outcomes one by one. As long as the result of a test is out, its outcome
may be replaced by one that fails whenever the old one did. -/

omit [One F] in
theorem skips_setTest {test : Nat} {outcome : Outcome F}
    (hmono : (outs.test test).verdict ≠ .OK → outcome.verdict ≠ .OK) {t : Nat}
    (h : Skips .RU outs.test t) : Skips .RU (outs.setTest test outcome).test t := by
  rw [skips_iff] at h ⊢
  obtain ⟨p, h1, hp, hv⟩ := h
  refine ⟨p, h1, hp, ?_⟩
  by_cases heq : p = test
  · subst heq
    rw [Outcomes.setTest_self]
    exact hmono hv
  · rwa [Outcomes.setTest_ne _ _ heq]

theorem Good.setTest (h : Good outs sub i) {id : JobID} {job : Job}
    (hget : i.givenJobs.get? id = some job) {outcome : Outcome F}
    (hmono : (outs.test job.test).verdict ≠ .OK → outcome.verdict ≠ .OK) :
    Good (outs.setTest job.test outcome) sub i := by
  cases h with
  | notStarted state untested given =>
    rw [given] at hget
    cases hget
  | compiling state untested id' cjob compiling =>
    exact .compiling state untested id' cjob compiling
  | done state done =>
    rw [done.given] at hget
    cases hget
  | testing state verdict testing =>
    obtain ⟨-, hpos, -, hnone⟩ := testing.jobs.given _ _ hget
    -- The test has no result, so it is not among the tested ones.
    have hlt : i.testedPrefixLength < job.test := by
      by_contra hle
      obtain ⟨r, hr⟩ := testing.graded.tested _ hpos (Nat.not_lt.1 hle)
      rw [hnone] at hr
      cases hr
    refine .testing state verdict ⟨⟨testing.jobs.first_pos, testing.jobs.first_le,
      testing.jobs.given, testing.jobs.given_inj, testing.jobs.covered, ?_, testing.jobs.failed⟩,
      ⟨testing.graded.tested_le, testing.graded.tested, ?_⟩, testing.left, testing.next⟩
    · intro t r hr
      obtain ⟨hb, hs⟩ := testing.jobs.stored t r hr
      refine ⟨hb, hs.imp ?_ fun hskip => ⟨hskip.1, skips_setTest hmono hskip.2⟩⟩
      intro hown
      rw [Outcomes.setTest_ne _ _ fun heq => ?_, hown]
      rw [heq, hnone] at hr
      cases hr
    · rw [testing.graded.submission, gradedSubmission, gradedSubmission]
      have hcongr : gradeTests .RU outs.test i.testedPrefixLength =
          gradeTests .RU (outs.setTest job.test outcome).test i.testedPrefixLength :=
        gradeTests_congr _ fun t _ ht => (Outcomes.setTest_ne _ _ (by omega)).symm
      rw [hcongr]
      rfl

/-- While the compile job is out, nothing depends on the outcomes. -/
theorem Good.setCompile (h : Good outs sub i) {id : JobID} {job : Job}
    (hget : i.givenJobs.get? id = some job) (htype : job.type = .compileJob)
    (outs' : Outcomes F) : Good outs' sub i := by
  cases h with
  | notStarted state untested given => exact .notStarted state untested given
  | compiling state untested id' cjob compiling =>
    exact .compiling state untested id' cjob compiling
  | testing state verdict testing =>
    rw [(testing.jobs.given _ _ hget).1] at htype
    cases htype
  | done state done =>
    rw [done.given] at hget
    cases hget

end TestingSystem.ICPCGenerator
