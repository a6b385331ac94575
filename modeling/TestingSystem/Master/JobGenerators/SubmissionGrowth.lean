import TestingSystem.Master.JobGenerators.SubmissionSnapshots
import TestingSystem.Master.Queue.QueueInvariant

/-!
# A submission only grows

What a call of a generator may change in its submission: results are appended, the compilation result is
set once, and a verdict other than `RU` is the last one. `Submission.Grows` is this order on the states of
a submission; `Generator.jobCompleted_grows` shows that `JobCompleted` goes up in it, and `NextJob` leaves
the submission alone.
-/

set_option autoImplicit false

namespace TestingSystem

variable {F : Type}

/-- `t` shows all results that `s` shows. -/
structure Submission.Extends (s t : Submission F) : Prop where
  id : t.id = s.id
  tests : s.testResults <+: t.testResults
  groups : s.groupResults <+: t.groupResults
  compilation : ∀ result, s.compilationResult = some result → t.compilationResult = some result

/-- `t` is `s` or a later state of it. -/
structure Submission.Grows (s t : Submission F) : Prop extends s.Extends t where
  verdict : s.verdict ≠ .RU → t.verdict = s.verdict ∧ t.score = s.score

namespace Submission

variable {s t u : Submission F}

theorem Extends.refl (s : Submission F) : s.Extends s :=
  ⟨rfl, List.prefix_refl _, List.prefix_refl _, fun _ h => h⟩

theorem Extends.trans (h : s.Extends t) (h' : t.Extends u) : s.Extends u where
  id := h'.id.trans h.id
  tests := h.tests.trans h'.tests
  groups := h.groups.trans h'.groups
  compilation result hresult := h'.compilation result (h.compilation result hresult)

/-- Before the verdict nothing is said about it. -/
theorem Extends.grows (h : s.Extends t) (hrunning : s.verdict = .RU) : s.Grows t :=
  ⟨h, fun hne => absurd hrunning hne⟩

theorem Grows.refl (s : Submission F) : s.Grows s := ⟨.refl s, fun _ => ⟨rfl, rfl⟩⟩

theorem Grows.trans (h : s.Grows t) (h' : t.Grows u) : s.Grows u := by
  refine ⟨h.toExtends.trans h'.toExtends, ?_⟩
  intro hne
  obtain ⟨hverdict, hscore⟩ := h.verdict hne
  have hne' : t.verdict ≠ .RU := by
    rw [hverdict]
    exact hne
  obtain ⟨hverdict', hscore'⟩ := h'.verdict hne'
  exact ⟨hverdict'.trans hverdict, hscore'.trans hscore⟩

end Submission

/-! ## ICPC -/

namespace ICPCGenerator

variable {i j : ICPCGenerator F}

theorem setFailLoop_submission (turns : Nat) (i : ICPCGenerator F) :
    (setFailLoop turns i).submission = i.submission := by
  induction turns generalizing i with
  | zero => rfl
  | succ turns ih =>
    unfold setFailLoop
    rw [ih]

theorem addTestResult_grows {result : TestResult F} (h : i.addTestResult result = .ok j) :
    i.submission.Grows j.submission := by
  by_cases hrunning : i.submission.verdict = .RU
  · obtain ⟨verdict, rfl⟩ := addTestResult_appends h
    apply Submission.Extends.grows _ hrunning
    exact ⟨rfl, List.prefix_append _ _, List.prefix_refl _, fun _ h => h⟩
  · -- the test counts as skipped, and a verdict stays
    unfold addTestResult at h
    simp only [hrunning, ne_eq, not_false_eq_true, if_true, skippedResult, if_false] at h
    cases h
    exact ⟨⟨rfl, List.prefix_append _ _, List.prefix_refl _, fun _ h => h⟩, fun _ => ⟨rfl, rfl⟩⟩

theorem updateLoop_grows {turns : Nat} {updated updated' tested : Bool}
    (h : updateLoop turns i updated = .ok (j, updated', tested)) : i.submission.Grows j.submission := by
  induction turns generalizing i updated with
  | zero =>
    cases h
    exact .refl _
  | succ turns ih =>
    unfold updateLoop at h
    split at h
    · cases h
      exact .refl _
    · obtain ⟨i', hadd, h⟩ := bind_eq_ok.1 h
      exact (addTestResult_grows hadd).trans (ih h)

theorem compileJobCompleted_extends {job : Job} {result : InvokerJobResult F}
    (h : i.compileJobCompleted job result = .ok j) (hnone : i.submission.compilationResult = none) :
    i.submission.Extends j.submission := by
  have hset : ∀ {s : Submission F} (result : TestResult F), s.id = i.submission.id →
      s.testResults = i.submission.testResults → s.groupResults = i.submission.groupResults →
      i.submission.Extends { s with compilationResult := some result } := by
    intro s result hid htests hgroups
    refine ⟨hid, ?_, ?_, ?_⟩
    · exact htests ▸ List.prefix_refl s.testResults
    · exact hgroups ▸ List.prefix_refl s.groupResults
    · intro other hother
      rw [hnone] at hother
      cases hother
  unfold compileJobCompleted at h
  split at h
  · cases h
  · cases h
    split
    · exact hset _ rfl rfl rfl
    all_goals
      apply hset
      all_goals
        unfold setFail
        rw [setFailLoop_submission]

theorem testJobCompleted_submission {job : Job} {result : InvokerJobResult F}
    (h : i.testJobCompleted job result = .ok j) : j.submission = i.submission := by
  unfold testJobCompleted at h
  split at h
  · cases h
  · cases h
    split
    · rfl
    all_goals exact setFailLoop_submission _ i

section Completion

variable [One F] {c : Completed (ICPCGenerator F) F}

theorem updateSubmissionResult_grows (h : i.updateSubmissionResult = .ok c) :
    i.submission.Grows c.generator.submission ∧
      ∀ s, c.submission = .ok (some s) → s = c.generator.submission := by
  obtain ⟨⟨j, updated, tested⟩, hloop, h⟩ := bind_eq_ok.1 h
  have hgrows := updateLoop_grows hloop
  dsimp only at h
  split at h
  · cases h
    refine ⟨hgrows, ?_⟩
    intro s hs
    cases hs
  · cases h
    constructor
    · split
      · next hrunning =>
        refine hgrows.trans (Submission.Extends.grows ?_ hrunning)
        exact ⟨rfl, List.prefix_refl _, List.prefix_refl _, fun _ h => h⟩
      · exact hgrows
    · intro s hs
      cases hs
      rfl

theorem jobCompleted_grows {outs : Outcomes F} {sub : Submission F} {result : InvokerJobResult F}
    {job : Job} (hgood : i.Good outs sub) (hsub : sub.compilationResult = none)
    (hget : i.givenJobs.get? result.job.id = some job) (hc : i.jobCompleted result = .ok c) :
    i.submission.Grows c.generator.submission ∧
      ∀ s, c.submission = .ok (some s) → s = c.generator.submission := by
  have hout : ¬ ∀ id, i.givenJobs.get? id = none := by
    intro hall
    rw [hall] at hget
    cases hget
  unfold jobCompleted at hc
  rw [hget] at hc
  dsimp only at hc
  split at hc
  · next htype =>
    obtain ⟨i', hjob, hc⟩ := bind_eq_ok.1 hc
    obtain ⟨hgrows, hreturned⟩ := updateSubmissionResult_grows hc
    refine ⟨Submission.Grows.trans ?_ hgrows, hreturned⟩
    -- a given compile job is the first one, so nothing is shown yet
    cases hgood with
    | notStarted _ _ given => exact absurd given hout
    | compiling _ untested =>
      have hnone : i.submission.compilationResult = none := by
        rw [untested.submission]
        exact hsub
      have hrunning : i.submission.verdict = .RU := by rw [untested.submission]
      have hextends := compileJobCompleted_extends hjob (by exact hnone)
      exact Submission.Extends.grows hextends hrunning
    | testing _ _ testing =>
      have htest := (testing.jobs.given _ _ hget).1
      rw [htype] at htest
      cases htest
    | done _ done => exact absurd done.given hout
  · obtain ⟨i', hjob, hc⟩ := bind_eq_ok.1 hc
    obtain ⟨hgrows, hreturned⟩ := updateSubmissionResult_grows hc
    rw [testJobCompleted_submission hjob] at hgrows
    exact ⟨hgrows, hreturned⟩
  · cases hc

end Completion

end ICPCGenerator

/-! ## IOI -/

namespace IOIGenerator

variable {i j : IOIGenerator F}

theorem raiseFlag_submission {flag : GroupFlag} {name : String} (h : i.raiseFlag flag name = .ok j) :
    j.submission = i.submission := by
  obtain ⟨infos, -, h⟩ := bind_eq_ok.1 h
  obtain ⟨infos', -, h⟩ := bind_eq_ok.1 h
  cases h
  rfl

theorem addTestResult_extends {name : String} {group : TestGroup F} {marked : Bool}
    {result : TestResult F} (h : i.addTestResult name group marked result = .ok j) :
    i.submission.Extends j.submission := by
  have happend : ∀ result, i.submission.Extends (i.appendTestResult result).submission :=
    fun result => ⟨rfl, List.prefix_append _ _, List.prefix_refl _, fun _ h => h⟩
  unfold addTestResult at h
  split at h
  · cases h
    exact happend _
  · obtain ⟨prevents, -, h⟩ := bind_eq_ok.1 h
    split at h
    · rw [raiseFlag_submission h]
      exact happend _
    · cases h
      exact happend _

theorem stopGivingNewTestsIfNeeded_submission {name : String} {group : TestGroup F} {verdict : Verdict}
    (h : i.stopGivingNewTestsIfNeeded name group verdict = .ok j) : j.submission = i.submission := by
  obtain ⟨prevents, -, h⟩ := bind_eq_ok.1 h
  split at h
  · exact raiseFlag_submission h
  · cases h
    rfl

theorem compileJobCompleted_extends {job : Job} {result : InvokerJobResult F}
    (h : i.compileJobCompleted job result = .ok j) (hnone : i.submission.compilationResult = none) :
    i.submission.Extends j.submission := by
  have hset : ∀ (verdict : Verdict) (result : TestResult F), i.submission.Extends
      { i.submission with verdict := verdict, compilationResult := some result } := by
    intro verdict result
    refine ⟨rfl, List.prefix_refl _, List.prefix_refl _, ?_⟩
    intro other hother
    rw [hnone] at hother
    cases hother
  unfold compileJobCompleted at h
  dsimp only at h
  split at h
  · cases h
    exact hset _ _
  all_goals
    obtain ⟨infos, -, h⟩ := bind_eq_ok.1 h
    cases h
    exact hset _ _

section Scores

variable [Zero F]

theorem testJobCompleted_submission {job : Job} {result : InvokerJobResult F}
    (h : i.testJobCompleted job result = .ok j) : j.submission = i.submission := by
  obtain ⟨group, -, h⟩ := bind_eq_ok.1 h
  obtain ⟨populated, -, h⟩ := bind_eq_ok.1 h
  obtain ⟨entry, -, h⟩ := bind_eq_ok.1 h
  dsimp only at h
  have hsame := stopGivingNewTestsIfNeeded_submission h
  exact hsame

variable [Add F] [Min F]

theorem completeGroupIfLast_extends {group : TestGroup F} (h : i.completeGroupIfLast group = .ok j) :
    i.submission.Extends j.submission := by
  unfold completeGroupIfLast at h
  split at h
  · unfold completeGroupTesting at h
    split at h
    · cases h
    · obtain ⟨results, -, h⟩ := bind_eq_ok.1 h
      obtain ⟨score, -, h⟩ := bind_eq_ok.1 h
      cases h
      exact ⟨rfl, List.prefix_refl _, List.prefix_append _ _, fun _ h => h⟩
  · cases h
    exact .refl _

theorem updateLoop_extends {turns : Nat} {updated updated' : Bool}
    (h : updateLoop turns i updated = .ok (j, updated')) : i.submission.Extends j.submission := by
  induction turns generalizing i updated with
  | zero =>
    cases h
    exact .refl _
  | succ turns ih =>
    obtain ⟨entry, -, h⟩ := bind_eq_ok.1 h
    split at h
    · cases h
      exact .refl _
    obtain ⟨info, -, h⟩ := bind_eq_ok.1 h
    split at h
    · cases h
      exact .refl _
    obtain ⟨group, -, h⟩ := bind_eq_ok.1 h
    obtain ⟨i₁, hadd, h⟩ := bind_eq_ok.1 h
    obtain ⟨i₂, hcomplete, h⟩ := bind_eq_ok.1 h
    have hturn := (addTestResult_extends hadd).trans (completeGroupIfLast_extends hcomplete)
    have hrest := ih h
    exact hturn.trans hrest

omit [Min F] [Zero F] in
/-- The last step writes the score and the verdict. -/
theorem setFinalScoreAndVerdict_extends (h : i.setFinalScoreAndVerdict = .ok j) :
    i.submission.Extends j.submission := by
  have hset : ∀ (score : F) (verdict : Verdict), i.submission.Extends
      { i.submission with score := score, verdict := verdict } :=
    fun score verdict => ⟨rfl, List.prefix_refl _, List.prefix_refl _, fun _ h => h⟩
  unfold setFinalScoreAndVerdict at h
  iterate 4
    split at h
    · cases h
  dsimp only at h
  split at h
  · cases h
    exact hset _ _
  split at h
  · cases h
    exact hset _ _
  split at h
  · cases h
  · cases h
    exact hset _ _

variable {c : Completed (IOIGenerator F) F}

theorem updateSubmissionResult_extends (h : i.updateSubmissionResult = .ok c) :
    i.submission.Extends c.generator.submission ∧
      ∀ s, c.submission = .ok (some s) → s = c.generator.submission := by
  obtain ⟨⟨j, updated⟩, hloop, h⟩ := bind_eq_ok.1 h
  have hextends := updateLoop_extends hloop
  dsimp only at h
  split at h
  · obtain ⟨k, hfinal, h⟩ := bind_eq_ok.1 h
    split at h
    · cases h
    · cases h
      refine ⟨hextends.trans (setFinalScoreAndVerdict_extends hfinal), ?_⟩
      intro s hs
      cases hs
      rfl
  · cases h
    refine ⟨hextends, ?_⟩
    intro s hs
    cases hs

theorem jobCompleted_grows {outs : Outcomes F} {sub : Submission F} {result : InvokerJobResult F}
    {job : Job} (hgood : i.Good outs sub) (hsub : sub.compilationResult = none)
    (hget : i.givenJobs.get? result.job.id = some job) (hc : i.jobCompleted result = .ok c) :
    i.submission.Grows c.generator.submission ∧
      ∀ s, c.submission = .ok (some s) → s = c.generator.submission := by
  have hout : ¬ ∀ id, i.givenJobs.get? id = none := by
    intro hall
    rw [hall] at hget
    cases hget
  -- while a job is out there is no verdict
  have hrunning : i.submission.verdict = .RU := by
    cases hgood with
    | notStarted _ untested => rw [untested.submission]
    | compiling _ untested => rw [untested.submission]
    | testing _ verdict _ _ graded =>
      rw [graded.submission]
      show compileVerdict outs.compile.verdict = .RU
      rw [verdict]
      rfl
    | done _ _ _ _ _ _ given => exact absurd given hout
    | failed _ _ _ given => exact absurd given hout
  unfold jobCompleted at hc
  rw [hget] at hc
  dsimp only at hc
  split at hc
  · next htype =>
    obtain ⟨i', hjob, hc⟩ := bind_eq_ok.1 hc
    obtain ⟨hextends, hreturned⟩ := updateSubmissionResult_extends hc
    refine ⟨Submission.Extends.grows ?_ hrunning, hreturned⟩
    cases hgood with
    | notStarted _ _ given => exact absurd given hout
    | compiling _ untested =>
      have hnone : i.submission.compilationResult = none := by
        rw [untested.submission]
        exact hsub
      exact (compileJobCompleted_extends hjob hnone).trans hextends
    | testing _ _ _ jobs =>
      have htest := (jobs.given _ _ hget).1
      rw [htype] at htest
      cases htest
    | done _ _ _ _ _ _ given => exact absurd given hout
    | failed _ _ _ given => exact absurd given hout
  · obtain ⟨i', hjob, hc⟩ := bind_eq_ok.1 hc
    obtain ⟨hextends, hreturned⟩ := updateSubmissionResult_extends hc
    rw [testJobCompleted_submission hjob] at hextends
    exact ⟨Submission.Extends.grows hextends hrunning, hreturned⟩
  · cases hc
    refine ⟨.refl _, ?_⟩
    intro s hs
    cases hs

end Scores

theorem nextTestLoop_submission {id : JobID} {turns : Nat} {job : Option Job}
    (h : nextTestLoop id turns i = .ok (job, j)) : j.submission = i.submission := by
  induction turns generalizing i with
  | zero =>
    cases h
    rfl
  | succ turns ih =>
    obtain ⟨info, -, h⟩ := bind_eq_ok.1 h
    split at h
    · obtain ⟨i', hstate, h⟩ := bind_eq_ok.1 h
      obtain ⟨entry, -, hstate⟩ := bind_eq_ok.1 hstate
      cases hstate
      have hrest := ih h
      exact hrest
    · obtain ⟨i', hstate, h⟩ := bind_eq_ok.1 h
      obtain ⟨entry, -, hstate⟩ := bind_eq_ok.1 hstate
      obtain ⟨ids, -, h⟩ := bind_eq_ok.1 h
      cases hstate
      cases h
      rfl

theorem nextJob_submission {id : JobID} {job : Option Job} (h : i.nextJob id = .ok (job, j)) :
    j.submission = i.submission := by
  unfold nextJob at h
  split at h
  · cases h
    rfl
  split at h
  · cases h
    rfl
  split at h
  · cases h
    rfl
  · exact nextTestLoop_submission h

end IOIGenerator

/-! ## Both generators -/

namespace Generator

variable {g g' : Generator F}

theorem new_submission {id : GeneratorID} {problem : Problem F} {sub : Submission F}
    (h : new id problem sub = .ok g) : g.submission = { sub with verdict := .RU } := by
  unfold new at h
  split at h
  · obtain ⟨i, hi, h⟩ := bind_eq_ok.1 h
    cases h
    unfold ICPCGenerator.new at hi
    split at hi
    · cases hi
    · cases hi
      rfl
  · obtain ⟨i, hi, h⟩ := bind_eq_ok.1 h
    cases h
    obtain ⟨-, -, -, -, hsub, -⟩ := IOIGenerator.new_ok hi
    exact hsub
  · cases h

theorem nextJob_submission {id : JobID} {job : Option Job} (h : g.nextJob id = .ok (job, g')) :
    g'.submission = g.submission := by
  cases g with
  | icpc i =>
    cases h
    show (i.nextJob id).2.submission = i.submission
    unfold ICPCGenerator.nextJob
    split
    · rfl
    split
    · rfl
    split
    · rfl
    · rfl
  | ioi i =>
    obtain ⟨⟨job', i'⟩, hi, h⟩ := bind_eq_ok.1 h
    cases h
    exact IOIGenerator.nextJob_submission hi

variable [Add F] [Min F] [Zero F] [One F]

/-- A completed call leaves a later state of the submission, and what it returns is this state. -/
structure Advances (g : Generator F) (c : Completed (Generator F) F) : Prop where
  grows : g.submission.Grows c.generator.submission
  published : ∀ s, c.published = some s → s = c.generator.submission
  returned : ∀ s, c.submission = .ok (some s) → s = c.generator.submission

variable {sub : Submission F} {result : InvokerJobResult F} {job : Job}

/-- The generator started with a submission that was not compiled. -/
def StartedEmpty (g : Generator F) : Prop :=
  ∃ sub, sub.compilationResult = none ∧ Sound (fun _ => True) sub g

theorem startedEmpty_new {id : GeneratorID} {problem : Problem F} (h : new id problem sub = .ok g)
    (hsub : sub.compilationResult = none) : g.StartedEmpty :=
  ⟨sub, hsub, .of_new h ⟨{ verdict := .CD }, fun _ => { verdict := .OK }⟩ trivial fun _ => rfl⟩

theorem StartedEmpty.nextJob (h : g.StartedEmpty) {id : JobID} (hid : g.givenJobs.get? id = none)
    {r : Option Job} (he : g.nextJob id = .ok (r, g')) :
    g'.StartedEmpty ∧ (r = none → g'.givenJobs = g.givenJobs) := by
  obtain ⟨sub, hsub, hsound⟩ := h
  obtain ⟨r', g'', he', hnone, hsome⟩ := hsound.nextJob hid
  obtain ⟨rfl, rfl⟩ := Prod.mk.inj (Except.ok.inj (he'.symm.trans he))
  cases r' with
  | none => exact ⟨⟨sub, hsub, (hnone rfl).sound⟩, fun _ => (hnone rfl).given⟩
  | some job =>
    refine ⟨⟨sub, hsub, (hsome job rfl).sound⟩, ?_⟩
    intro hfalse
    cases hfalse

theorem StartedEmpty.jobCompleted (h : g.StartedEmpty) {c : Completed (Generator F) F}
    (hget : g.givenJobs.get? result.job.id = some job) (hc : g.jobCompleted result = .ok c) :
    c.generator.StartedEmpty ∧ g.Advances c := by
  obtain ⟨sub, hsub, hsound⟩ := h
  refine ⟨?_, ?_⟩
  · rcases hsound.jobCompleted hget fun _ _ => trivial with ⟨c', hc', hcompleted⟩ | ⟨p, _, hp, -⟩
    · obtain rfl := Except.ok.inj (hc'.symm.trans hc)
      exact ⟨sub, hsub, hcompleted.sound⟩
    · rw [hc] at hp
      cases hp
  · obtain ⟨-, hpublished⟩ := Generator.jobCompleted_held hc
    obtain ⟨outs, -, hgood, -⟩ := hsound
    cases g with
    | icpc i =>
      obtain ⟨c', hc', hc⟩ := bind_eq_ok.1 hc
      cases hc
      obtain ⟨hgrows, hreturned⟩ := ICPCGenerator.jobCompleted_grows hgood hsub hget hc'
      exact ⟨hgrows, hpublished, hreturned⟩
    | ioi i =>
      obtain ⟨c', hc', hc⟩ := bind_eq_ok.1 hc
      cases hc
      obtain ⟨hgrows, hreturned⟩ := IOIGenerator.jobCompleted_grows hgood hsub hget hc'
      exact ⟨hgrows, hpublished, hreturned⟩

end Generator

end TestingSystem
