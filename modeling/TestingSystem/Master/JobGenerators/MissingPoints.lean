import TestingSystem.Master.JobGenerators.IOISafety

/-!
# Results without points

`testJobCompleted` completes the points of a result for the groups that add them up (`EachTest`) or take
their minimum (`Min`). A `PT` without points becomes a `CF`; the check that should set its points to 0 asks
for points that are there, so the result is stored without points and the scoring of the group panics. Every
other result is stored with points (`stores_points_iff`).
-/

set_option autoImplicit false

namespace TestingSystem

namespace IOIGenerator

variable {F : Type} [Zero F]

/-! ## What is stored -/

/-- A `PT` without points. -/
def Malformed (outcome : Outcome F) : Prop := outcome.verdict = .PT ∧ outcome.points = none

instance (outcome : Outcome F) : Decidable (Malformed outcome) :=
  inferInstanceAs (Decidable (_ ∧ outcome.points = none))

/-- A malformed result is stored as `CF`, and its points are still missing. -/
theorem storedOutcome_malformed {group : TestGroup F}
    (hscoring : group.scoringType = .eachTest ∨ group.scoringType = .min) {outcome : Outcome F}
    (h : Malformed outcome) :
    (storedOutcome group outcome).verdict = .CF ∧ (storedOutcome group outcome).points = none := by
  obtain ⟨hv, hp⟩ := h
  have hpopulated : populateTestJobResult group outcome.verdict outcome.points =
      .ok (.error "checker returned nil points, but verdict=PT") := by
    rw [hv, hp]
    rcases hscoring with hs | hs
    · simp only [populateTestJobResult, hs, missingPoints]
    · simp only [populateTestJobResult, hs, missingPoints]
  rw [storedOutcome, hpopulated]
  refine ⟨rfl, ?_⟩
  change outcome.points.map _ = none
  rw [hp, Option.map_none]

theorem storedOutcome_points_iff {group : TestGroup F} (h : group.Scored)
    (hscoring : group.scoringType = .eachTest ∨ group.scoringType = .min) (outcome : Outcome F) :
    (storedOutcome group outcome).points.isSome ↔ ¬ Malformed outcome := by
  constructor
  · intro hsome hmalformed
    rw [(storedOutcome_malformed hscoring hmalformed).2] at hsome
    cases hsome
  · intro hnot
    have hcomplete : group.scoringType ≠ .complete := by
      rcases hscoring with hs | hs <;> simp [hs]
    refine storedOutcome_points h hcomplete fun hpt => ?_
    rw [Option.isSome_iff_ne_none]
    exact fun hnone => hnot ⟨hpt, hnone⟩

variable [Add F] [Min F]

/-- The loops of `completeGroupTesting` count the result with these points and go on. -/
structure CountedWith (result : TestResult F) (points : F) : Prop where
  sum : ∀ results score,
    sumPoints (result :: results) score = sumPoints results (score + points)
  min : ∀ results score,
    minPoints (result :: results) score = minPoints results (min score points)

theorem countedWith {result : TestResult F} {points : F} (h : result.points = some points) :
    CountedWith result points := by
  constructor
  · intro results score
    rw [sumPoints, h]
  · intro results score
    rw [minPoints, h]

/-- What is stored for a result has points that the scoring counts, and for a malformed result it is a
`CF` with 0 points. -/
structure Contained (outcome : Outcome F) (stored : TestResult F) : Prop where
  counted : ∃ points, stored.points = some points ∧ CountedWith stored points
  malformed : Malformed outcome → stored.verdict = .CF ∧ stored.points = some 0

theorem contained_iff {group : TestGroup F} (h : group.Scored)
    (hscoring : group.scoringType = .eachTest ∨ group.scoringType = .min) (outcome : Outcome F)
    (test : Nat) :
    Contained outcome ((storedOutcome group outcome).testResult test) ↔ ¬ Malformed outcome := by
  constructor
  · rintro ⟨⟨points, hp, -⟩, -⟩
    rw [← storedOutcome_points_iff h hscoring outcome]
    exact Option.isSome_iff_exists.2 ⟨points, hp⟩
  · intro hnot
    obtain ⟨points, hp⟩ :=
      Option.isSome_iff_exists.1 ((storedOutcome_points_iff h hscoring outcome).2 hnot)
    exact ⟨⟨points, hp, countedWith hp⟩, fun hmalformed => absurd hmalformed hnot⟩

variable {outs : Outcomes F} {sub : Submission F} {i : IOIGenerator F}

/-- What `testJobCompleted` stores for the result of a given test job. -/
theorem Good.testJobCompleted_entry (h : Good outs sub i) {result : InvokerJobResult F} {job : Job}
    (hget : i.givenJobs.get? result.job.id = some job) (htype : job.type = .testJob)
    {group : TestGroup F} (hg : group ∈ i.problem.testGroups) (hhas : group.Has job.test) :
    ∃ i' entry,
      ({ i with givenJobs := i.givenJobs.delete result.job.id } : IOIGenerator F).testJobCompleted job
        result = .ok i' ∧
      i'.getEntry job.test = some entry ∧
      entry.result = (storedOutcome group result.outcome).testResult job.test := by
  cases h with
  | notStarted _ _ given => exact absurd ((given _).symm.trans hget) (by simp)
  | compiling _ _ id cjob compiling =>
    obtain rfl := compiling.only _ _ hget
    obtain rfl : cjob = job := Option.some.inj (compiling.given.symm.trans hget)
    rw [compiling.type] at htype
    cases htype
  | done _ _ _ _ _ _ given => exact absurd ((given _).symm.trans hget) (by simp)
  | failed _ _ _ given => exact absurd ((given _).symm.trans hget) (by simp)
  | testing _ _ prepared jobs =>
    obtain ⟨-, hpos, -, old, hold, -⟩ := jobs.given _ _ hget
    obtain ⟨infos, he, -⟩ := testJobCompleted_eq prepared jobs hget hg hhas result
    refine ⟨_, ⟨(storedOutcome group result.outcome).testResult job.test, .testFinished⟩, he, ?_, rfl⟩
    exact (getEntry_withEntry hold hpos hpos).trans (if_pos rfl)

end IOIGenerator

/-! ## Runs -/

namespace GeneratorRun

open IOIGenerator

section Runs

variable {F : Type} [Add F] [Min F] [Zero F] [One F] {problem : Problem F} {sub : Submission F}
  {r : GeneratorRun F}

/-- In every reachable state, the result of an outstanding test of an `EachTest` or `Min` group is stored
with points, and taken as such by the scoring, exactly if it is not malformed. -/
theorem stores_points_iff (hr : (machine problem sub).Reachable Machine.always r)
    {i : IOIGenerator F} (hi : r.generator = .ioi i) (result : InvokerJobResult F) {job : Job}
    (hget : i.givenJobs.get? result.job.id = some job) (htype : job.type = .testJob)
    {group : TestGroup F} (hg : group ∈ problem.testGroups) (hhas : group.Has job.test)
    (hscoring : group.scoringType = .eachTest ∨ group.scoringType = .min) :
    ∃ i' entry,
      ({ i with givenJobs := i.givenJobs.delete result.job.id } : IOIGenerator F).testJobCompleted job
        result = .ok i' ∧
      i'.getEntry job.test = some entry ∧
      (Contained result.outcome entry.result ↔ ¬ Malformed result.outcome) := by
  obtain ⟨outs, -, hex⟩ := explained_always hr
  have hgood := hex.good
  have hproblem := hex.problem_eq
  rw [hi] at hgood hproblem
  have hproblem : i.problem = problem := hproblem
  rw [← hproblem] at hg
  obtain ⟨i', entry, he, hentry, hresult⟩ :=
    IOIGenerator.Good.testJobCompleted_entry hgood hget htype hg hhas
  refine ⟨i', entry, he, hentry, ?_⟩
  rw [hresult]
  exact contained_iff ((IOIGenerator.Good.accepted hgood).scored group hg) hscoring _ _

end Runs

/-- The generator of `oneEachTest` whose only test is running. -/
def runningOneEachTest : IOIGenerator Int where
  id := 0
  submission := { newSubmission with compilationResult := some { testNumber := 0, verdict := .CD } }
  problem := oneEachTest
  state := .compilationFinished
  givenJobs := (GoMap.empty.set 1 { id := 1, submitID := 1, type := .compileJob }).delete 1 |>.set 2
    { id := 2, submitID := 1, type := .testJob, test := 1 }
  groupNameToGroupInfo := GoMap.empty.set "a"
    { name := "a", firstTest := 1, lastTest := 1, testScore := some 100, groupScore := none,
      scoringType := .eachTest, requiredGroupNames := [] }
  groupNameToInternalInfo := GoMap.empty.set "a"
    { shouldGiveNewJobs := true, shouldMarkFinalTestsSkipped := false }
  testNumberToGroupName := GoMap.empty.set 0 "a"
  internalTestResults :=
    [{ result := { testNumber := 1, verdict := .RU }, state := .testRunning }]
  firstNotCompletedTest := 1
  firstNotCompletedGroup := 1
  firstNotGivenTest := 2

theorem runningOneEachTest_reachable :
    (machine oneEachTest newSubmission).Reachable Machine.always ⟨.ioi runningOneEachTest, []⟩ :=
  Machine.Reachable.of_runs (machine oneEachTest newSubmission) Machine.always
    [.nextJob 1, answer 1 .CD none, .nextJob 2] (.of_init ⟨0, _, rfl, rfl⟩)
    ⟨trivial, rfl, _, rfl, trivial, trivial, _, rfl, trivial, rfl, _, rfl, rfl⟩

theorem stores_points_iff_wrong_answer :
    ∃ i' entry,
      ({ runningOneEachTest with
        givenJobs := runningOneEachTest.givenJobs.delete 2 } : IOIGenerator Int).testJobCompleted
          { id := 2, submitID := 1, type := .testJob, test := 1 } (resultOf 2 .WA none) = .ok i' ∧
      i'.getEntry 1 = some entry ∧ Contained (resultOf 2 .WA (none : Option Int)).outcome entry.result := by
  obtain ⟨i', entry, he, hentry, hiff⟩ := stores_points_iff runningOneEachTest_reachable rfl
    (resultOf 2 .WA none) rfl rfl List.mem_cons_self ⟨Nat.le_refl 1, Nat.le_refl 1⟩ (.inl rfl)
  exact ⟨i', entry, he, hentry, hiff.2 (by decide)⟩

/-- A malformed result is stored without points, and the call panics when it scores the group. -/
theorem malformed_not_contained :
    (¬ ∀ (problem : Problem Int) (sub : Submission Int) r,
      (machine problem sub).Reachable Machine.always r → ∀ i, r.generator = .ioi i →
      ∀ (result : InvokerJobResult Int) job, i.givenJobs.get? result.job.id = some job →
        job.type = .testJob → ∀ group ∈ problem.testGroups, group.Has job.test →
        group.scoringType = .eachTest ∨ group.scoringType = .min →
        ∃ i' entry,
          ({ i with givenJobs := i.givenJobs.delete result.job.id } : IOIGenerator Int).testJobCompleted
            job result = .ok i' ∧
          i'.getEntry job.test = some entry ∧ Contained result.outcome entry.result) ∧
      runningOneEachTest.jobCompleted (resultOf 2 .PT none) = .error .nilPoints := by
  refine ⟨fun h => ?_, rfl⟩
  obtain ⟨i', entry, he, hentry, hcontained⟩ := h oneEachTest newSubmission _
    runningOneEachTest_reachable _ rfl (resultOf 2 .PT none) _ rfl rfl _ List.mem_cons_self
    ⟨Nat.le_refl 1, Nat.le_refl 1⟩ (.inl rfl)
  cases he
  cases hentry
  exact nomatch (hcontained.malformed ⟨rfl, rfl⟩).2

end GeneratorRun

end TestingSystem
