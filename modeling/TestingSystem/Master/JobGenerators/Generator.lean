import TestingSystem.Master.JobGenerators.ICPCPhases
import TestingSystem.Master.JobGenerators.IOIJobCompleted

/-!
# The generators behind one interface

`master/queue/jobgenerators/generator.go`. The interface `Generator` has two implementations, so a
value of it is one of the two. The queue only uses the interface, and its proofs only use the three
specifications here: `new_good`, `nextJob_ok` and `jobCompleted_settle`.
-/

set_option autoImplicit false

namespace TestingSystem

/-- A value of the interface `Generator`. -/
inductive Generator (F : Type) where
  | icpc (i : ICPCGenerator F)
  | ioi (i : IOIGenerator F)

namespace Generator

variable {F : Type}

/-- `ID`. -/
def id : Generator F → GeneratorID
  | .icpc i => i.id
  | .ioi i => i.id

def submission : Generator F → Submission F
  | .icpc i => i.submission
  | .ioi i => i.submission

def problem : Generator F → Problem F
  | .icpc i => i.problem
  | .ioi i => i.problem

def givenJobs : Generator F → GoMap JobID Job
  | .icpc i => i.givenJobs
  | .ioi i => i.givenJobs

def state : Generator F → GeneratorState
  | .icpc i => i.state
  | .ioi i => i.state

/-- `NextJob`; `id` is the new UUID. -/
def nextJob (id : JobID) : Generator F → Except Panic (Option Job × Generator F)
  | .icpc i => .ok ((i.nextJob id).1, .icpc (i.nextJob id).2)
  | .ioi i => do
    let (job, i) ← i.nextJob id
    return (job, .ioi i)

/-- `NewGenerator`; `id` is the new UUID. -/
def new (id : GeneratorID) (problem : Problem F) (submission : Submission F) :
    Except String (Generator F) :=
  match problem.problemType with
  | .icpc => do
    let i ← ICPCGenerator.new id problem submission
    return .icpc i
  | .ioi => do
    let i ← IOIGenerator.new id problem submission
    return .ioi i
  | .other value => .error s!"unknown problem type {value}"

/-- The type of the problems that the implementation tests. -/
def problemType : Generator F → ProblemType
  | .icpc _ => .icpc
  | .ioi _ => .ioi

/-- The first test that was not given or passed over. -/
def firstTest : Generator F → Nat
  | .icpc i => i.firstTestToGive
  | .ioi i => i.firstNotGivenTest

/-- Testing is finished. -/
def Finished : Generator F → Prop
  | .icpc i => i.Finished
  | .ioi i => i.Finished

variable [Add F] [Min F] [Zero F]

/-- The panics that the completion of a given job can end in: none for ICPC. -/
def ScorePanic (outs : Outcomes F) (sub : Submission F) (p : Panic) : Generator F → Prop
  | .icpc _ => False
  | .ioi i => IOIGenerator.ScorePanic i.problem outs sub p

variable [One F]

/-- `JobCompleted`. -/
def jobCompleted (result : InvokerJobResult F) :
    Generator F → Except Panic (Completed (Generator F) F)
  | .icpc i => do
    let c ← i.jobCompleted result
    return ⟨.icpc c.generator, c.published, c.submission⟩
  | .ioi i => do
    let c ← i.jobCompleted result
    return ⟨.ioi c.generator, c.published, c.submission⟩

/-- The states between two calls. -/
def Good (outs : Outcomes F) (sub : Submission F) : Generator F → Prop
  | .icpc i => i.Good outs sub
  | .ioi i => i.Good outs sub

/-- The submission that testing ends with. -/
def finalSubmission (outs : Outcomes F) (sub : Submission F) : Generator F → Submission F
  | .icpc i => ICPCGenerator.finalSubmission outs i.problem.testsNumber sub
  | .ioi i => IOIGenerator.finalSubmission i.problem outs sub

/-- A result that may come back for a given job. -/
def Admissible (outs : Outcomes F) (job : Job) (result : InvokerJobResult F) :
    Generator F → Prop
  | .icpc _ => ICPCGenerator.Admissible outs job result
  | .ioi i => IOIGenerator.Admissible i.problem outs job result

/-- The same generator at a later time. -/
structure Later (g g' : Generator F) : Prop where
  id_eq : g'.id = g.id
  problem : g'.problem = g.problem
  type : g'.problemType = g.problemType
  final : ∀ outs sub, g'.finalSubmission outs sub = g.finalSubmission outs sub
  first_le : g.firstTest ≤ g'.firstTest

/-- What a call of `NextJob` that gives a job does. -/
structure Given (outs : Outcomes F) (sub : Submission F) (g : Generator F) (id : JobID) (job : Job)
    (g' : Generator F) : Prop extends Later g g' where
  job_id : job.id = id
  submitID : job.submitID = sub.id
  kind : job.type = .compileJob ∨ job.type = .testJob ∧ g.firstTest ≤ job.test
  given : g'.givenJobs = g.givenJobs.set id job
  good : g'.Good outs sub
  not_finished : ¬ g.Finished ∧ ¬ g'.Finished

/-- What a call of `NextJob` that gives no job does: then a job is running or testing is
finished. -/
structure NotGiven (outs : Outcomes F) (sub : Submission F) (g g' : Generator F) : Prop extends
    Later g g' where
  given : g'.givenJobs = g.givenJobs
  good : g'.Good outs sub
  finished : g'.Finished ↔ g.Finished
  running : (∃ id job, g.givenJobs.get? id = some job) ∨ g.Finished

/-- What a call of `JobCompleted` for the given job `id` does. -/
structure CompletedGood (outs : Outcomes F) (sub : Submission F) (g : Generator F) (id : JobID)
    (c : Completed (Generator F) F) : Prop extends Later g c.generator where
  given : c.generator.givenJobs = g.givenJobs.delete id
  good : c.generator.Good outs sub
  published : ∀ s, c.published = some s → s.id = sub.id
  submission : c.submission = .ok none ∧ ¬ c.generator.Finished ∨
    c.submission = .ok (some (g.finalSubmission outs sub)) ∧ c.generator.Finished

variable {outs : Outcomes F} {sub : Submission F} {g : Generator F}

theorem new_good {id : GeneratorID} {problem : Problem F} (h : new id problem sub = .ok g) :
    g.id = id ∧ g.problem = problem ∧ g.problemType = problem.problemType ∧ ¬ g.Finished ∧
      ∀ outs, g.Good outs sub := by
  unfold new at h
  split at h
  · next htype =>
    obtain ⟨i, hi, h⟩ := bind_eq_ok.1 h
    cases h
    obtain ⟨hid, hproblem, hfin, hgood⟩ := ICPCGenerator.new_good hi
    exact ⟨hid, hproblem, htype.symm, hfin, hgood⟩
  · next htype =>
    obtain ⟨i, hi, h⟩ := bind_eq_ok.1 h
    cases h
    obtain ⟨hid, hproblem, hfin, hgood⟩ := IOIGenerator.new_good hi
    exact ⟨hid, hproblem, htype.symm, hfin, hgood⟩
  · cases h

omit [Add F] [Min F] [Zero F] [One F] in
/-- A new generator gave no job. -/
theorem new_given {id : GeneratorID} {problem : Problem F} (h : new id problem sub = .ok g)
    (id' : JobID) : g.givenJobs.get? id' = none := by
  unfold new at h
  split at h
  · obtain ⟨i, hi, h⟩ := bind_eq_ok.1 h
    cases h
    unfold ICPCGenerator.new at hi
    split at hi
    · cases hi
    · cases hi
      rfl
  · obtain ⟨i, hi, h⟩ := bind_eq_ok.1 h
    cases h
    obtain ⟨-, -, -, -, -, -, hgiven, -⟩ := IOIGenerator.new_ok hi
    change i.givenJobs.get? id' = none
    rw [hgiven]
    rfl
  · cases h

/-- `NextJob` never panics. -/
theorem nextJob_ok (h : g.Good outs sub) {id : JobID} (hid : g.givenJobs.get? id = none) :
    ∃ r g', g.nextJob id = .ok (r, g') ∧ (r = none → NotGiven outs sub g g') ∧
      ∀ job, r = some job → Given outs sub g id job g' := by
  cases g with
  | icpc i =>
    refine ⟨_, _, rfl, fun hr => ?_, fun job hr => ?_⟩
    · obtain ⟨he, hrun⟩ := ICPCGenerator.nextJob_none h
        (show i.nextJob id = (none, (i.nextJob id).2) by rw [← hr])
      rw [he]
      exact ⟨⟨rfl, rfl, rfl, fun _ _ => rfl, Nat.le_refl _⟩, rfl, h, Iff.rfl, hrun⟩
    · have hg := ICPCGenerator.nextJob_some h hid
        (show i.nextJob id = (some job, (i.nextJob id).2) by rw [← hr])
      refine ⟨⟨hg.id_eq, hg.problem, rfl, fun outs sub => ?_, hg.first_le⟩, hg.job_id, hg.submitID, ?_,
        hg.given, hg.good, hg.not_finished⟩
      · change ICPCGenerator.finalSubmission outs (i.nextJob id).2.problem.testsNumber sub = _
        rw [hg.problem]
        rfl
      · rcases hg.kind with ⟨hk, -⟩ | ⟨hk, ht, -⟩
        · exact .inl hk
        · exact .inr ⟨hk, Nat.le_of_eq ht.symm⟩
  | ioi i =>
    obtain ⟨r, i', he, hnone, hsome⟩ := IOIGenerator.nextJob_ok h hid
    refine ⟨r, .ioi i', by simp [nextJob, he, pure, Except.pure], fun hr => ?_, fun job hr => ?_⟩
    · have hn := hnone hr
      refine ⟨⟨hn.id_eq, hn.problem, rfl, fun outs sub => ?_, hn.first_le⟩, hn.given, hn.good,
        hn.finished, hn.running⟩
      rw [finalSubmission, finalSubmission, hn.problem]
    · have hg := hsome job hr
      refine ⟨⟨hg.id_eq, hg.problem, rfl, fun outs sub => ?_, hg.first_le⟩, hg.job_id, hg.submitID, ?_,
        hg.given, hg.good, hg.not_finished⟩
      · rw [finalSubmission, finalSubmission, hg.problem]
      · rcases hg.kind with ⟨hk, -⟩ | hk
        · exact .inl hk
        · exact .inr ⟨hk, hg.fresh hk⟩

/-- Completing a given job with an admissible result keeps the invariant, or panics because of the
scores. -/
theorem jobCompleted_good (h : g.Good outs sub) {result : InvokerJobResult F} {job : Job}
    (hget : g.givenJobs.get? result.job.id = some job) (hadm : g.Admissible outs job result) :
    (∃ c, g.jobCompleted result = .ok c ∧ CompletedGood outs sub g result.job.id c) ∨
      ∃ p, g.jobCompleted result = .error p ∧ g.ScorePanic outs sub p := by
  cases g with
  | icpc i =>
    obtain ⟨c, he, hc⟩ := ICPCGenerator.jobCompleted_good h hget hadm
    refine .inl ⟨⟨.icpc c.generator, c.published, c.submission⟩,
      by simp [jobCompleted, he, pure, Except.pure],
      ⟨hc.id_eq, hc.problem, rfl, fun outs sub => ?_, hc.first_le⟩, hc.given, hc.good, hc.published, ?_⟩
    · rw [finalSubmission, finalSubmission, hc.problem]
    · exact hc.submission.imp_right fun hs => ⟨hs.1, hs.2.1⟩
  | ioi i =>
    rcases IOIGenerator.jobCompleted_good h hget hadm with ⟨c, he, hc⟩ | ⟨p, he, hp⟩
    · refine .inl ⟨⟨.ioi c.generator, c.published, c.submission⟩,
        by simp [jobCompleted, he, pure, Except.pure],
        ⟨hc.id_eq, hc.problem, rfl, fun outs sub => ?_, Nat.le_of_eq hc.first_eq.symm⟩, hc.given,
        hc.good, hc.published, hc.submission⟩
      rw [finalSubmission, finalSubmission, hc.problem]
    · exact .inr ⟨p, by simp [jobCompleted, he], hp⟩

/-- No job is given when testing is finished. -/
theorem Good.given_none (h : g.Good outs sub) (hf : g.Finished) (id : JobID) :
    g.givenJobs.get? id = none := by
  cases g with
  | icpc i =>
    cases h with
    | notStarted _ _ given => exact given id
    | compiling state => exact GeneratorState.noConfusion (state.symm.trans hf.1)
    | testing _ _ testing => exact absurd hf testing.not_finished
    | done _ done => exact done.given id
  | ioi i => exact hf.2.2 id

/-! ## Outcomes that settle

A run delivers the outcomes one by one, in any order. An invariant of a run therefore speaks of some
outcomes that agree with the results so far, and the result of a job settles its outcome. -/

/-- The outcomes with that of a job. -/
def settle (outs : Outcomes F) (job : Job) (outcome : Outcome F) : Outcomes F :=
  match job.type with
  | .compileJob => { outs with compile := outcome }
  | _ => outs.setTest job.test outcome

/-- The outcome may replace that of test `test` while its result is out. -/
def Covers (outs : Outcomes F) (test : Nat) (outcome : Outcome F) : Generator F → Prop
  | .icpc _ => (outs.test test).verdict ≠ .OK → outcome.verdict ≠ .OK
  | .ioi i => ∀ group ∈ i.problem.testGroups, IOIGenerator.PreventedBy outs group test →
      IOIGenerator.prevents group (IOIGenerator.storedOutcome group outcome).verdict = true

/-- A given job is a compile job or a test job. -/
theorem Good.type_of_given (h : g.Good outs sub) {id : JobID} {job : Job}
    (hget : g.givenJobs.get? id = some job) : job.type = .compileJob ∨ job.type = .testJob := by
  cases g with
  | icpc i =>
    cases h with
    | notStarted _ _ given => exact absurd ((given id).symm.trans hget) (by simp)
    | compiling _ _ id' job' compiling =>
      obtain rfl := compiling.only _ _ hget
      cases compiling.given.symm.trans hget
      exact .inl compiling.type
    | testing _ _ testing => exact .inr (testing.jobs.given _ _ hget).1
    | done _ done => exact absurd ((done.given id).symm.trans hget) (by simp)
  | ioi i =>
    cases h with
    | notStarted _ _ given => exact absurd ((given id).symm.trans hget) (by simp)
    | compiling _ _ id' job' compiling =>
      obtain rfl := compiling.only _ _ hget
      cases compiling.given.symm.trans hget
      exact .inl compiling.type
    | testing _ _ _ jobs => exact .inr (jobs.given _ _ hget).1
    | done _ _ _ _ _ _ given => exact absurd ((given id).symm.trans hget) (by simp)
    | failed _ _ _ given => exact absurd ((given id).symm.trans hget) (by simp)

/-- A test is given once, and before the next test to give. -/
theorem Good.given_test (h : g.Good outs sub) {id : JobID} {job : Job}
    (hget : g.givenJobs.get? id = some job) (htype : job.type = .testJob) :
    job.test < g.firstTest ∧ ∀ id' job', g.givenJobs.get? id' = some job' →
      job'.test = job.test → id' = id := by
  cases g with
  | icpc i =>
    cases h with
    | notStarted _ _ given => exact absurd ((given id).symm.trans hget) (by simp)
    | compiling _ _ id' job' compiling =>
      obtain rfl := compiling.only _ _ hget
      cases compiling.given.symm.trans hget
      rw [compiling.type] at htype
      cases htype
    | testing _ _ testing =>
      exact ⟨(testing.jobs.given _ _ hget).2.2.1,
        fun id' job' hget' he => testing.jobs.given_inj _ _ _ _ hget' hget he⟩
    | done _ done => exact absurd ((done.given id).symm.trans hget) (by simp)
  | ioi i =>
    cases h with
    | notStarted _ _ given => exact absurd ((given id).symm.trans hget) (by simp)
    | compiling _ _ id' job' compiling =>
      obtain rfl := compiling.only _ _ hget
      cases compiling.given.symm.trans hget
      rw [compiling.type] at htype
      cases htype
    | testing _ _ _ jobs =>
      exact ⟨(jobs.given _ _ hget).2.2.1,
        fun id' job' hget' he => jobs.given_inj _ _ _ _ hget' hget he⟩
    | done _ _ _ _ _ _ given => exact absurd ((given id).symm.trans hget) (by simp)
    | failed _ _ _ given => exact absurd ((given id).symm.trans hget) (by simp)

/-- Completing a given job settles its outcome. -/
theorem jobCompleted_settle (h : g.Good outs sub) {result : InvokerJobResult F} {job : Job}
    (hget : g.givenJobs.get? result.job.id = some job)
    (hcovers : job.type = .testJob → g.Covers outs job.test result.outcome) :
    (∃ c, g.jobCompleted result = .ok c ∧
        CompletedGood (settle outs job result.outcome) sub g result.job.id c) ∨
      ∃ p, g.jobCompleted result = .error p ∧
        g.ScorePanic (settle outs job result.outcome) sub p := by
  refine jobCompleted_good ?_ hget ?_
  · rcases h.type_of_given hget with htype | htype
    · rw [settle, htype]
      cases g with
      | icpc i => exact ICPCGenerator.Good.setCompile h hget htype _
      | ioi i => exact IOIGenerator.Good.setCompile h hget htype _
    · rw [settle, htype]
      cases g with
      | icpc i => exact ICPCGenerator.Good.setTest h hget (hcovers htype)
      | ioi i => exact IOIGenerator.Good.setTest h hget (hcovers htype)
  · rcases h.type_of_given hget with htype | htype
    · cases g <;> simp [Admissible, ICPCGenerator.Admissible, IOIGenerator.Admissible, settle, htype]
    · cases g <;> simp [Admissible, ICPCGenerator.Admissible, IOIGenerator.Admissible, settle, htype]

/-- A result for a job that is not given: ICPC panics, IOI returns an error. -/
theorem jobCompleted_unknown {result : InvokerJobResult F}
    (hget : g.givenJobs.get? result.job.id = none) :
    g.jobCompleted result = .error .nilDereference ∨
      ∃ err, g.jobCompleted result = .ok ⟨g, none, .error err⟩ := by
  cases g with
  | icpc i =>
    have hget' : i.givenJobs.get? result.job.id = none := hget
    exact .inl (by simp [jobCompleted, ICPCGenerator.jobCompleted, hget'])
  | ioi i =>
    refine .inr ⟨s!"job {result.job.id} does not exist", ?_⟩
    simp only [jobCompleted, IOIGenerator.jobCompleted_unknown hget, ok_bind]
    rfl

omit [Add F] [Min F] [One F] in
/-- An outcome `OK` prevents nothing, so any other may take its place. -/
theorem covers_of_ok {test : Nat} (h : (outs.test test).verdict = .OK) (outcome : Outcome F) :
    g.Covers outs test outcome := by
  cases g with
  | icpc i => exact fun hne => absurd h hne
  | ioi i =>
    intro group _ hprev
    exact absurd (IOIGenerator.storedOutcome_ok h) (IOIGenerator.ne_ok_of_prevents hprev.2)

/-- Tests whose result is out have the outcome `OK`. -/
def Fresh (outs : Outcomes F) (g : Generator F) : Prop :=
  ∀ t, (outs.test t).verdict ≠ .OK → t < g.firstTest ∧
    ∀ id job, g.givenJobs.get? id = some job → job.type = .testJob → job.test ≠ t

namespace Fresh

omit [Add F] [Min F] [Zero F] [One F] in
/-- The result of a given test job is still out. -/
theorem ok_of_given (h : Fresh outs g) {id : JobID} {job : Job}
    (hget : g.givenJobs.get? id = some job) (htype : job.type = .testJob) :
    (outs.test job.test).verdict = .OK := by
  by_contra hne
  exact (h _ hne).2 id job hget htype rfl

theorem notGiven {g' : Generator F} (h : Fresh outs g) (hn : NotGiven outs sub g g') :
    Fresh outs g' := by
  intro t ht
  rw [hn.given]
  exact ⟨Nat.lt_of_lt_of_le (h t ht).1 hn.first_le, (h t ht).2⟩

theorem given {g' : Generator F} {id : JobID} {job : Job} (h : Fresh outs g)
    (hg : Given outs sub g id job g') : Fresh outs g' := by
  intro t ht
  obtain ⟨hlt, hold⟩ := h t ht
  refine ⟨Nat.lt_of_lt_of_le hlt hg.first_le, fun id' job' hget htype => ?_⟩
  rw [hg.given] at hget
  rcases GoMap.of_get?_set hget with ⟨-, rfl⟩ | ⟨-, hget⟩
  · rcases hg.kind with hk | ⟨-, hle⟩
    · rw [hk] at htype
      cases htype
    · omega
  · exact hold id' job' hget htype

/-- The outcome that a completed job settles is no longer fresh, and no other one changes. -/
theorem completed {id : JobID} {job : Job} {outcome : Outcome F} {c : Completed (Generator F) F}
    (h : Fresh outs g) (hgood : g.Good outs sub) (hget : g.givenJobs.get? id = some job)
    (hc : CompletedGood (settle outs job outcome) sub g id c) :
    Fresh (settle outs job outcome) c.generator := by
  intro t ht
  rw [hc.given]
  by_cases hthis : job.type = .testJob ∧ t = job.test
  · obtain ⟨htype, rfl⟩ := hthis
    obtain ⟨hlt, honce⟩ := hgood.given_test hget htype
    refine ⟨Nat.lt_of_lt_of_le hlt hc.first_le, fun id' job' hget' _ heq => ?_⟩
    obtain ⟨hne, hold⟩ := GoMap.of_get?_delete hget'
    exact hne (honce id' job' hold heq)
  · have hsame : (settle outs job outcome).test t = outs.test t := by
      unfold settle
      split
      · rfl
      · rename_i hnot
        have htype := (hgood.type_of_given hget).resolve_left hnot
        exact Outcomes.setTest_ne _ _ fun heq => hthis ⟨htype, heq⟩
    rw [hsame] at ht
    obtain ⟨hlt, hold⟩ := h t ht
    exact ⟨Nat.lt_of_lt_of_le hlt hc.first_le,
      fun id' job' hget' => hold id' job' (GoMap.of_get?_delete hget').2⟩

end Fresh

/-- A given job, whose result is still out, may be completed with any result. -/
theorem jobCompleted_fresh (hgood : g.Good outs sub) (hfresh : Fresh outs g)
    {result : InvokerJobResult F} {job : Job}
    (hget : g.givenJobs.get? result.job.id = some job) :
    (∃ c, g.jobCompleted result = .ok c ∧
        CompletedGood (settle outs job result.outcome) sub g result.job.id c) ∨
      ∃ p, g.jobCompleted result = .error p ∧
        g.ScorePanic (settle outs job result.outcome) sub p :=
  jobCompleted_settle hgood hget fun htype =>
    covers_of_ok (hfresh.ok_of_given hget htype) result.outcome

/-- The results so far agree with some outcomes that meet `P`. -/
def Sound (P : Outcomes F → Prop) (sub : Submission F) (g : Generator F) : Prop :=
  ∃ outs, P outs ∧ g.Good outs sub ∧ Fresh outs g

/-- What a call of `NextJob` does, whatever results arrived before. -/
structure GivenSound (P : Outcomes F → Prop) (sub : Submission F) (g : Generator F) (id : JobID)
    (job : Job) (g' : Generator F) : Prop extends Later g g' where
  job_id : job.id = id
  submitID : job.submitID = sub.id
  given : g'.givenJobs = g.givenJobs.set id job
  sound : Sound P sub g'
  not_finished : ¬ g.Finished ∧ ¬ g'.Finished

/-- What a call of `NextJob` does, whatever results arrived before. -/
structure NotGivenSound (P : Outcomes F → Prop) (sub : Submission F) (g g' : Generator F) :
    Prop extends Later g g' where
  given : g'.givenJobs = g.givenJobs
  sound : Sound P sub g'
  finished : g'.Finished ↔ g.Finished
  running : (∃ id job, g.givenJobs.get? id = some job) ∨ g.Finished

/-- What a call of `JobCompleted` for the given job `id` does, whatever the result is. -/
structure CompletedSound (P : Outcomes F → Prop) (sub : Submission F) (g : Generator F) (id : JobID)
    (c : Completed (Generator F) F) : Prop extends Later g c.generator where
  given : c.generator.givenJobs = g.givenJobs.delete id
  sound : Sound P sub c.generator
  published : ∀ s, c.published = some s → s.id = sub.id
  submission : c.submission = .ok none ∧ ¬ c.generator.Finished ∨
    ∃ s, c.submission = .ok (some s) ∧ s.id = sub.id ∧ c.generator.Finished

variable {P : Outcomes F → Prop}

theorem finalSubmission_id (outs : Outcomes F) (sub : Submission F) (g : Generator F) :
    (g.finalSubmission outs sub).id = sub.id := by
  cases g with
  | icpc i =>
    simp only [finalSubmission, ICPCGenerator.finalSubmission, ICPCGenerator.finished]
    split <;> rfl
  | ioi i => rfl

theorem Sound.of_new {id : GeneratorID} {problem : Problem F} (h : new id problem sub = .ok g)
    (outs : Outcomes F) (hP : P outs) (hok : ∀ t, (outs.test t).verdict = .OK) : Sound P sub g :=
  ⟨outs, hP, (new_good h).2.2.2.2 outs, fun t ht => absurd (hok t) ht⟩

theorem Sound.nextJob (h : Sound P sub g) {id : JobID} (hid : g.givenJobs.get? id = none) :
    ∃ r g', g.nextJob id = .ok (r, g') ∧ (r = none → NotGivenSound P sub g g') ∧
      ∀ job, r = some job → GivenSound P sub g id job g' := by
  obtain ⟨outs, hP, hgood, hfresh⟩ := h
  obtain ⟨r, g', he, hnone, hsome⟩ := nextJob_ok hgood hid
  refine ⟨r, g', he, fun hr => ?_, fun job hr => ?_⟩
  · have hn := hnone hr
    exact ⟨hn.toLater, hn.given, ⟨outs, hP, hn.good, hfresh.notGiven hn⟩, hn.finished, hn.running⟩
  · have hg := hsome job hr
    exact ⟨hg.toLater, hg.job_id, hg.submitID, hg.given, ⟨outs, hP, hg.good, hfresh.given hg⟩,
      hg.not_finished⟩

theorem Sound.jobCompleted (h : Sound P sub g) {result : InvokerJobResult F} {job : Job}
    (hget : g.givenJobs.get? result.job.id = some job)
    (hP : ∀ outs, P outs → P (settle outs job result.outcome)) :
    (∃ c, g.jobCompleted result = .ok c ∧ CompletedSound P sub g result.job.id c) ∨
      ∃ p outs, g.jobCompleted result = .error p ∧ P outs ∧ g.ScorePanic outs sub p := by
  obtain ⟨outs, hPouts, hgood, hfresh⟩ := h
  rcases jobCompleted_fresh hgood hfresh hget with ⟨c, he, hc⟩ | ⟨p, he, hp⟩
  · have hsound : Sound P sub c.generator :=
      ⟨_, hP outs hPouts, hc.good, hfresh.completed hgood hget hc⟩
    refine .inl ⟨c, he, hc.toLater, hc.given, hsound, hc.published, ?_⟩
    exact hc.submission.imp_right fun hs => ⟨_, hs.1, finalSubmission_id _ _ _, hs.2⟩
  · exact .inr ⟨p, _, he, hP outs hPouts, hp⟩

end Generator

end TestingSystem
