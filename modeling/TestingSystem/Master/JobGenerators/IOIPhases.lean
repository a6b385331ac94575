import TestingSystem.Master.JobGenerators.IOIFinal
import TestingSystem.Master.JobGenerators.IOINextJob

/-!
# Phases of the IOI generator

Between two calls a generator that started from `sub` and receives the outcomes `outs` is in one of
five phases. As for the ICPC generator, `nextJob_ok` and `jobCompleted_good` say what one call does
in any of them.
-/

set_option autoImplicit false

namespace TestingSystem.IOIGenerator

variable {F : Type}

/-- All tests are completed and no job is given. -/
def Finished (i : IOIGenerator F) : Prop :=
  i.state ≠ .compilationNotStarted ∧ i.problem.testsNumber < i.firstNotCompletedTest ∧
    ∀ id, i.givenJobs.get? id = none

/-- The generator is as `NewIOIGenerator` made it, apart from the compile job. -/
structure Untested (sub : Submission F) (i : IOIGenerator F) : Prop where
  accepted : Accepted i.problem
  tables : Tables i.problem.testGroups i.problem.testsNumber i
  submission : i.submission = { sub with verdict := .RU }
  completedTest : i.firstNotCompletedTest = 1
  completedGroup : i.firstNotCompletedGroup = 1
  first : i.firstNotGivenTest = 1

/-- The compile job `id` is given and nothing else is. -/
structure Compiling (i : IOIGenerator F) (id : JobID) (job : Job) : Prop where
  given : i.givenJobs.get? id = some job
  only : ∀ id' job', i.givenJobs.get? id' = some job' → id' = id
  type : job.type = .compileJob
  test : job.test = 0

theorem Untested.withGiven {sub : Submission F} {i : IOIGenerator F} (h : Untested sub i)
    (state : GeneratorState) (given : GoMap JobID Job) :
    Untested sub { i with state := state, givenJobs := given } :=
  ⟨h.accepted, ⟨h.tables.info, h.tables.internal, h.tables.names, h.tables.results⟩, h.submission,
    h.completedTest, h.completedGroup, h.first⟩

variable [Add F] [Min F] [Zero F]

/-- The states between two calls. -/
inductive Good (outs : Outcomes F) (sub : Submission F) (i : IOIGenerator F) : Prop where
  | notStarted (state : i.state = .compilationNotStarted) (untested : Untested sub i)
      (given : ∀ id, i.givenJobs.get? id = none)
  | compiling (state : i.state = .compilationStarted) (untested : Untested sub i)
      (id : JobID) (job : Job) (compiling : Compiling i id job)
  | testing (state : i.state = .compilationFinished) (verdict : outs.compile.verdict = .CD)
      (prepared : Prepared i) (jobs : Jobs outs i) (graded : Graded outs sub i)
      (waiting : Waiting outs i)
  | done (state : i.state = .compilationFinished) (verdict : outs.compile.verdict = .CD)
      (prepared : Prepared i) (jobs : Jobs outs i) (processed : Processed outs i)
      (completed : i.firstNotCompletedTest = i.problem.testsNumber + 1)
      (given : ∀ id, i.givenJobs.get? id = none) (scored : Scored i.problem outs sub)
      (submission : i.submission = finalSubmission i.problem outs sub)
  | failed (state : i.state = .compilationStarted) (accepted : Accepted i.problem)
      (completed : i.firstNotCompletedTest = i.problem.testsNumber + 1)
      (given : ∀ id, i.givenJobs.get? id = none) (scored : Scored i.problem outs sub)
      (submission : i.submission = finalSubmission i.problem outs sub)

/-- A result that may come back for a given job: the outcome of the job or, for a test of a group
that is marked before it, any result. -/
def Admissible (problem : Problem F) (outs : Outcomes F) (job : Job)
    (result : InvokerJobResult F) : Prop :=
  match job.type with
  | .compileJob => result.outcome = outs.compile
  | _ => result.outcome = outs.test job.test ∨
      ∃ group ∈ problem.testGroups, group.Has job.test ∧
        marks problem outs job.test group.name = true

variable {outs : Outcomes F} {sub : Submission F} {i : IOIGenerator F}

theorem new_good {id : GeneratorID} {problem : Problem F} (h : new id problem sub = .ok i) :
    i.id = id ∧ i.problem = problem ∧ ¬ Finished i ∧ ∀ outs, Good outs sub i := by
  obtain ⟨ha, ht, hid, rfl, hsub, hstate, hgiven, hct, hcg, hg⟩ := new_ok h
  refine ⟨hid, rfl, fun hf => hf.1 hstate, fun _ => ?_⟩
  refine .notStarted hstate ⟨ha, ht, hsub, hct, hcg, hg⟩ fun id' => ?_
  rw [hgiven]
  rfl

theorem Good.accepted (h : Good outs sub i) : Accepted i.problem := by
  cases h with
  | notStarted _ untested => exact untested.accepted
  | compiling _ untested => exact untested.accepted
  | testing _ _ prepared => exact prepared.accepted
  | done _ _ prepared => exact prepared.accepted
  | failed _ accepted => exact accepted

theorem Good.submission_id (h : Good outs sub i) : i.submission.id = sub.id := by
  cases h with
  | notStarted _ untested => rw [untested.submission]
  | compiling _ untested => rw [untested.submission]
  | testing _ _ _ _ graded => rw [graded.submission]; rfl
  | done _ _ _ _ _ _ _ _ submission => rw [submission]; rfl
  | failed _ _ _ _ _ submission => rw [submission]; rfl

omit [Add F] [Min F] in
theorem Waiting.not_finished (h : Waiting outs i) : ¬ Finished i :=
  fun hf => absurd hf.2.1 (Nat.not_lt.2 h.1)

/-! ## NextJob -/

/-- What a call that gives a job does. -/
structure Given (outs : Outcomes F) (sub : Submission F) (i : IOIGenerator F) (id : JobID)
    (job : Job) (i' : IOIGenerator F) : Prop where
  job_id : job.id = id
  submitID : job.submitID = sub.id
  id_eq : i'.id = i.id
  problem : i'.problem = i.problem
  given : i'.givenJobs = i.givenJobs.set id job
  good : Good outs sub i'
  not_finished : ¬ Finished i ∧ ¬ Finished i'
  first_le : i.firstNotGivenTest ≤ i'.firstNotGivenTest
  fresh : job.type = .testJob → i.firstNotGivenTest ≤ job.test
  required : job.type = .testJob → ∃ group ∈ i.problem.testGroups, group.Has job.test ∧
    ∀ id' ∈ job.requiredJobIDs,
      ∃ job', i.givenJobs.get? id' = some job' ∧ job'.type = .testJob ∧
        job'.test < job.test ∧ Depends i.problem group job'.test
  kind : job.type = .compileJob ∧ job.requiredJobIDs = [] ∨ job.type = .testJob

/-- What a call that gives no job does: then a job is running or testing is finished. -/
structure NotGiven (outs : Outcomes F) (sub : Submission F) (i i' : IOIGenerator F) : Prop where
  id_eq : i'.id = i.id
  problem : i'.problem = i.problem
  given : i'.givenJobs = i.givenJobs
  first_le : i.firstNotGivenTest ≤ i'.firstNotGivenTest
  good : Good outs sub i'
  finished : Finished i' ↔ Finished i
  running : (∃ id job, i.givenJobs.get? id = some job) ∨ Finished i

omit [Add F] [Min F] [Zero F] in
theorem Passed.fields {i i' : IOIGenerator F} (h : Passed i i') :
    i'.id = i.id ∧ i'.problem = i.problem ∧ i'.state = i.state ∧ i'.submission = i.submission ∧
      i'.firstNotCompletedTest = i.firstNotCompletedTest ∧
      i'.firstNotCompletedGroup = i.firstNotCompletedGroup := by
  rw [h]
  exact ⟨rfl, rfl, rfl, rfl, rfl, rfl⟩

/-- The first job is the compile job. -/
theorem Untested.nextJob_ok (state : i.state = .compilationNotStarted) (untested : Untested sub i)
    (given : ∀ id, i.givenJobs.get? id = none) (id : JobID) :
    ∃ job i', i.nextJob id = .ok (some job, i') ∧ Given outs sub i id job i' := by
  have hsub : i.submission.id = sub.id := by rw [untested.submission]
  let job : Job := { id := id, submitID := i.submission.id, type := .compileJob }
  refine ⟨job, { i with
      state := .compilationStarted
      givenJobs := i.givenJobs.set id job }, ?_, ?_⟩
  · simp only [nextJob, state, reduceCtorEq, false_and, if_false, if_true]
    rfl
  refine ⟨rfl, hsub, rfl, rfl, rfl, ?_, ⟨fun hf => hf.1 state, fun hf => ?_⟩, Nat.le_refl _,
    fun hj => (nomatch hj), fun hj => (nomatch hj), .inl ⟨rfl, rfl⟩⟩
  · refine .compiling rfl (untested.withGiven _ _) id _ ⟨GoMap.get?_set_self _ _ _, ?_, rfl, rfl⟩
    intro id' job' hget
    by_contra hne
    rw [GoMap.get?_set_ne _ _ hne, given] at hget
    cases hget
  · have hnone := hf.2.2 id
    rw [GoMap.get?_set_self] at hnone
    cases hnone

/-- While tests are left, a call passes the stopped ones and gives the next one, if there is one. -/
theorem Graded.nextJob_ok (state : i.state = .compilationFinished)
    (verdict : outs.compile.verdict = .CD) (prepared : Prepared i) (jobs : Jobs outs i)
    (graded : Graded outs sub i) (waiting : Waiting outs i) {id : JobID}
    (hid : i.givenJobs.get? id = none) :
    ∃ r i', i.nextJob id = .ok (r, i') ∧
      (r = none → NotGiven outs sub i i') ∧ ∀ job, r = some job → Given outs sub i id job i' := by
  have hsub : i.submission.id = sub.id := by
    rw [graded.submission]
    rfl
  by_cases hlast : i.firstNotGivenTest > i.problem.testsNumber
  · refine ⟨none, i, by simp [nextJob, state, hlast], fun _ => ?_, fun _ hr => (nomatch hr)⟩
    refine ⟨rfl, rfl, rfl, Nat.le_refl _,
      .testing state verdict prepared jobs graded waiting, Iff.rfl, .inl ?_⟩
    obtain ⟨hle, ⟨id', job, hget, -⟩ | ⟨hfirst, -⟩⟩ := waiting
    · exact ⟨id', job, hget⟩
    · omega
  · obtain ⟨r, i', hloop, hgood, hnone, hsome⟩ := nextTestLoop_eq _ prepared jobs
      graded.toProcessed verdict hid rfl
    obtain ⟨hid', hproblem, hstate, hsubm, hct, hcg⟩ := hgood.passed.fields
    have hi' : Good outs sub i' := by
      refine .testing (hstate.trans state) verdict hgood.prepared hgood.jobs
        ⟨hgood.processed, ?_, ?_, ?_⟩ (hgood.waiting waiting)
      · rw [hsubm, hproblem, hct, graded.submission]
      · rw [hcg, hproblem, hct, graded.groups]
      · rw [hproblem, hct]
        exact graded.scored
    have hrun := waiting.not_finished
    have hrun' := (hgood.waiting waiting).not_finished
    refine ⟨r, i', ?_, fun hr => ?_, fun job hr => ?_⟩
    · simp only [nextJob, state, hlast, and_false, if_false, reduceCtorEq]
      exact hloop
    · obtain ⟨hfirst, hgiven⟩ := hnone hr
      refine ⟨hid', hproblem, hgiven, hgood.first_le, hi', iff_of_false hrun' hrun, .inl ?_⟩
      obtain ⟨hle, ⟨id', job, hget, -⟩ | ⟨hle', -⟩⟩ := hgood.waiting waiting
      · exact ⟨id', job, hgiven ▸ hget⟩
      · rw [hproblem] at hle
        omega
    · obtain ⟨hjid, hjsub, htype, hle, hgiven, hfresh, group, hg, hhas, hreq⟩ := hsome job hr
      refine ⟨hjid, hjsub.trans hsub, hid', hproblem, hgiven, hi', ⟨hrun, hrun'⟩,
        hgood.first_le, fun _ => hfresh, fun _ => ⟨group, hg, hhas, fun id' hmem => ?_⟩,
        .inr htype⟩
      obtain ⟨job', hget, hdep⟩ := (hreq id').1 hmem
      obtain ⟨htype', -, hlt, -⟩ := jobs.given _ _ hget
      exact ⟨job', hget, htype', Nat.lt_of_lt_of_le hlt hfresh, hdep⟩

/-- `NextJob` never panics. -/
theorem nextJob_ok (h : Good outs sub i) {id : JobID} (hid : i.givenJobs.get? id = none) :
    ∃ r i', i.nextJob id = .ok (r, i') ∧
      (r = none → NotGiven outs sub i i') ∧ ∀ job, r = some job → Given outs sub i id job i' := by
  cases h with
  | notStarted state untested given =>
    obtain ⟨job, i', hnext, hgiven⟩ := untested.nextJob_ok state given id
    refine ⟨some job, i', hnext, fun hr => (nomatch hr), fun job' hr => ?_⟩
    cases hr
    exact hgiven
  | compiling state untested id' job compiling =>
    refine ⟨none, i, by simp [nextJob, state], fun _ => ?_, fun _ hr => (nomatch hr)⟩
    exact ⟨rfl, rfl, rfl, Nat.le_refl _, .compiling state untested id' job compiling, Iff.rfl,
      .inl ⟨id', job, compiling.given⟩⟩
  | failed state accepted completed given scored submission =>
    refine ⟨none, i, by simp [nextJob, state], fun _ => ?_, fun _ hr => (nomatch hr)⟩
    exact ⟨rfl, rfl, rfl, Nat.le_refl _, .failed state accepted completed given scored submission,
      Iff.rfl, .inr ⟨by simp [state], by omega, given⟩⟩
  | testing state verdict prepared jobs graded waiting =>
    exact graded.nextJob_ok state verdict prepared jobs waiting hid
  | done state verdict prepared jobs processed completed given scored submission =>
    by_cases hlast : i.firstNotGivenTest > i.problem.testsNumber
    · refine ⟨none, i, by simp [nextJob, state, hlast], fun _ => ?_, fun _ hr => (nomatch hr)⟩
      exact ⟨rfl, rfl, rfl, Nat.le_refl _,
        .done state verdict prepared jobs processed completed given scored submission, Iff.rfl,
        .inr ⟨by simp [state], by omega, given⟩⟩
    · obtain ⟨r, i', hloop, hgood, hnone, hsome⟩ := nextTestLoop_eq _ prepared jobs processed
        verdict hid rfl
      obtain ⟨hid', hproblem, hstate, hsubm, hct, hcg⟩ := hgood.passed.fields
      refine ⟨r, i', ?_, fun hr => ?_, fun job hr => ?_⟩
      · simp only [nextJob, state, hlast, and_false, if_false, reduceCtorEq]
        exact hloop
      · obtain ⟨hfirst, hgiven⟩ := hnone hr
        have hgiven' : ∀ id', i'.givenJobs.get? id' = none := fun id' => by rw [hgiven, given]
        refine ⟨hid', hproblem, hgiven, hgood.first_le, ?_, iff_of_true ?_ ?_, .inr ?_⟩
        · exact .done (hstate.trans state) verdict hgood.prepared hgood.jobs hgood.processed
            (by rw [hct, hproblem, completed]) hgiven' (hproblem ▸ scored)
            (by rw [hsubm, hproblem, submission])
        · exact ⟨by simp [hstate, state], by rw [hproblem, hct]; omega, hgiven'⟩
        · exact ⟨by simp [state], by omega, given⟩
        · exact ⟨by simp [state], by omega, given⟩
      · -- All tests are completed, so none is left to give.
        obtain ⟨-, -, -, hle, -, -, group, hg, hhas, -⟩ := hsome job hr
        have := (prepared.accepted.has_bounds hg hhas).2
        omega

end TestingSystem.IOIGenerator
