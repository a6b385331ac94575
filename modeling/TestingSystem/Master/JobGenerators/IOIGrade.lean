import TestingSystem.Master.JobGenerators.GeneratorRuns
import TestingSystem.Master.JobGenerators.IOIReference

/-!
# The grade of an IOI submission

Every run of the generator of an IOI problem that returns a submission returns the grade of the
sequential reference, in whatever order the jobs are taken and completed.
-/

set_option autoImplicit false

namespace TestingSystem

namespace IOIGenerator

variable {F : Type} [Add F] [Min F] [Zero F] {outs : Outcomes F} {sub : Submission F}
  {i : IOIGenerator F}

/-- At the end of testing every group has a score. -/
theorem Good.scored (h : Good outs sub i) (hfin : Finished i) :
    Accepted i.problem ∧ Scored i.problem outs sub := by
  cases h with
  | notStarted state => exact absurd state hfin.1
  | compiling _ _ id job compiling =>
    have hgiven := compiling.given
    have := hfin.2.2 id
    simp_all
  | testing _ _ _ _ _ waiting => exact absurd hfin waiting.not_finished
  | done _ _ prepared _ _ _ _ scored => exact ⟨prepared.accepted, scored⟩
  | failed _ accepted _ _ scored => exact ⟨accepted, scored⟩

omit [Add F] [Min F] in
/-- An outcome with the assigned verdict and points prevents a group if the test does. -/
theorem Agrees.covers {test : Nat → Verdict × Option F} (h : Agrees outs test) {outcome : Outcome F}
    {t : Nat} (hv : outcome.verdict = (test t).1) (hp : outcome.points = (test t).2)
    {group : TestGroup F} (hprev : PreventedBy outs group t) :
    prevents group (storedOutcome group outcome).verdict = true := by
  rw [(storedOutcome_congr group (hv.trans (h t).1.symm) (hp.trans (h t).2.symm)).1]
  exact hprev.2

end IOIGenerator

namespace GeneratorRun

open IOIGenerator

variable {F : Type} [Add F] [Min F] [Zero F] [One F]

/-- Every result of a given job has the verdict that is assigned to the job and, for a test, the
points. -/
def Answers (compile : Verdict) (test : Nat → Verdict × Option F) (r : GeneratorRun F) :
    Call F → Prop
  | .nextJob _ => True
  | .jobCompleted result =>
    ∀ job, r.generator.givenJobs.get? result.job.id = some job →
      if job.type = .compileJob then result.verdict = compile
      else result.verdict = (test job.test).1 ∧ result.points = (test job.test).2

variable {problem : Problem F} {sub : Submission F} {compile : Verdict}
  {test : Nat → Verdict × Option F}

/-- Outcomes with the assigned verdicts and points explain every run. -/
theorem explained_answers {r : GeneratorRun F}
    (hr : (machine problem sub).Reachable (Answers compile test) r) :
    ∃ outs, (outs.compile.verdict = compile ∧ Agrees outs test) ∧
      ExplainedBy problem sub outs r := by
  refine explained hr
    ⟨{ verdict := compile }, fun t => { verdict := (test t).1, points := (test t).2 }⟩
    ⟨rfl, fun _ => ⟨rfl, rfl⟩⟩ ?_
  rintro r outs result job ⟨hc, ht⟩ hex hok hget
  have hanswer := hok job hget
  rcases hex.good.type_of_given hget with htype | htype
  · rw [if_pos htype] at hanswer
    refine ⟨?_, fun h => ?_⟩
    · simp only [Generator.settle, htype]
      exact ⟨hanswer, ht⟩
    · rw [htype] at h
      cases h
  · rw [if_neg (by simp [htype])] at hanswer
    refine ⟨?_, fun _ => ?_⟩
    · simp only [Generator.settle, htype]
      refine ⟨hc, fun t => ?_⟩
      by_cases heq : t = job.test
      · rw [heq, Outcomes.setTest_self]
        exact hanswer
      · rw [Outcomes.setTest_ne _ _ heq]
        exact ht t
    · cases hg : r.generator with
      | icpc i =>
        intro hne
        rw [(ht job.test).1] at hne
        rw [InvokerJobResult.outcome_verdict, hanswer.1]
        exact hne
      | ioi i => exact fun group _ hprev => ht.covers hanswer.1 hanswer.2 hprev

/-- Every submission that is returned has the grade of the reference. -/
theorem grade_eq_reference (hioi : problem.problemType = .ioi) (hresults : sub.testResults = [])
    (hgroups : sub.groupResults = []) (hscore : sub.score = 0) (hsk : NotSkipped problem test)
    {r : GeneratorRun F} (hr : (machine problem sub).Reachable (Answers compile test) r)
    {s : Submission F} (hs : s ∈ r.returned) : gradeOf s = reference problem compile test := by
  obtain ⟨outs, ⟨hc, ht⟩, h⟩ := explained_answers hr
  have hkind := h.type.trans hioi
  have hproblem := h.problem_eq
  have hgood := h.good
  rcases h.returned with ⟨hret, -⟩ | ⟨hret, hfin⟩
  · rw [hret] at hs
    cases hs
  · rw [hret, List.mem_singleton] at hs
    cases hg : r.generator with
    | icpc i =>
      rw [hg] at hkind
      cases hkind
    | ioi i =>
      rw [hg] at hs hproblem hgood hfin
      have hproblem : i.problem = problem := hproblem
      obtain ⟨ha, hscored⟩ := IOIGenerator.Good.scored hgood hfin
      rw [hproblem] at ha hscored
      rw [hs, Generator.finalSubmission, hproblem, ← hc]
      exact finalSubmission_reference ha ht hsk hscored hresults hgroups hscore

/-- Any two runs of an IOI generator return the same grade, that of the sequential reference. -/
theorem ioi_returns_reference (problem : Problem F) (hioi : problem.problemType = .ioi)
    (sub : Submission F) (hresults : sub.testResults = []) (hgroups : sub.groupResults = [])
    (hscore : sub.score = 0) (compile : Verdict) (test : Nat → Verdict × Option F)
    (hsk : NotSkipped problem test) (r r' : GeneratorRun F)
    (hr : (machine problem sub).Reachable (Answers compile test) r)
    (hr' : (machine problem sub).Reachable (Answers compile test) r') :
    ∀ s ∈ r.returned, gradeOf s = reference problem compile test ∧
      ∀ s' ∈ r'.returned, gradeOf s' = gradeOf s := by
  intro s hs
  have h := grade_eq_reference hioi hresults hgroups hscore hsk hr hs
  refine ⟨h, fun s' hs' => ?_⟩
  exact (grade_eq_reference hioi hresults hgroups hscore hsk hr' hs').trans h.symm

/-- An IOI problem with a `Complete` group of two tests and an `EachTest` group of one. -/
def twoGroups : Problem Int :=
  { id := 1
    problemType := .ioi
    testsNumber := 3
    testGroups :=
      [{ name := "a", firstTest := 1, lastTest := 2, testScore := none, groupScore := some 30,
         scoringType := .complete, requiredGroupNames := [] },
       { name := "b", firstTest := 3, lastTest := 3, testScore := some 70, groupScore := none,
         scoringType := .eachTest, requiredGroupNames := [] }] }

/-- Test 2 fails and test 3 has its points from the problem. -/
def oneFailure (t : Nat) : Verdict × Option Int := (if t = 2 then .WA else .OK, none)

theorem ioi_returns_reference_two_orders :
    ∃ r r', (machine twoGroups newSubmission).Reachable (Answers .CD oneFailure) r ∧
      (machine twoGroups newSubmission).Reachable (Answers .CD oneFailure) r' ∧
      r.returned.length = 1 ∧ r'.returned.length = 1 ∧
      (∀ s ∈ r.returned, gradeOf s = reference twoGroups .CD oneFailure ∧
        ∀ s' ∈ r'.returned, gradeOf s' = gradeOf s) ∧
      (reference twoGroups .CD oneFailure).score = 70 := by
  have hr := Machine.Reachable.of_runs (machine twoGroups newSubmission)
    (Answers .CD oneFailure)
    [.nextJob 1, answer 1 .CD none, .nextJob 2, .nextJob 3, .nextJob 4,
      answer 4 .OK none, answer 3 .WA none, answer 2 .OK none]
    (.of_init ⟨0, _, rfl, rfl⟩)
    ⟨trivial, rfl, _, rfl, fun job h => Option.some.inj h ▸ rfl, trivial, _, rfl,
      trivial, rfl, _, rfl, trivial, rfl, _, rfl, trivial, rfl, _, rfl,
      fun job h => Option.some.inj h ▸ ⟨rfl, rfl⟩, trivial, _, rfl,
      fun job h => Option.some.inj h ▸ ⟨rfl, rfl⟩, trivial, _, rfl,
      fun job h => Option.some.inj h ▸ ⟨rfl, rfl⟩, trivial, _, rfl, rfl⟩
  have hr' := Machine.Reachable.of_runs (machine twoGroups newSubmission)
    (Answers .CD oneFailure)
    [.nextJob 1, answer 1 .CD none, .nextJob 2, answer 2 .OK none, .nextJob 3,
      answer 3 .WA none, .nextJob 4, answer 4 .OK none]
    (.of_init ⟨0, _, rfl, rfl⟩)
    ⟨trivial, rfl, _, rfl, fun job h => Option.some.inj h ▸ rfl, trivial, _, rfl,
      trivial, rfl, _, rfl, fun job h => Option.some.inj h ▸ ⟨rfl, rfl⟩, trivial, _, rfl,
      trivial, rfl, _, rfl, fun job h => Option.some.inj h ▸ ⟨rfl, rfl⟩, trivial, _, rfl,
      trivial, rfl, _, rfl, fun job h => Option.some.inj h ▸ ⟨rfl, rfl⟩, trivial, _, rfl, rfl⟩
  have hsk : NotSkipped twoGroups oneFailure := by
    intro t _ _
    unfold oneFailure
    split <;> simp
  exact ⟨_, _, hr, hr', rfl, rfl,
    ioi_returns_reference twoGroups rfl newSubmission rfl rfl rfl _ _ hsk _ _ hr hr', by decide⟩

end GeneratorRun

end TestingSystem
