import TestingSystem.Master.JobGenerators.GeneratorRuns

/-!
# What a completed job publishes

`updateSubmissionResult` calls `UpdateSubmission` if its loop appended a test result, and in the IOI
generator also when testing ends. A call for a test job changes the submission in no other way, but a
call for the compile job stores the compilation result first: it is published only if the loop appends
something or the IOI generator ends (`changes_published_iff`).
-/

set_option autoImplicit false

namespace TestingSystem

/-! ## ICPC -/

namespace ICPCGenerator

variable {F : Type} {i j : ICPCGenerator F}

/-- The loop of `updateSubmissionResult` has nothing to append. -/
def Quiet (i : ICPCGenerator F) : Prop :=
  i.problem.testsNumber ≤ i.testedPrefixLength ∨
    i.internalTestResults.get? (i.testedPrefixLength + 1) = none

theorem updateLoop_none (h : i.internalTestResults.get? (i.testedPrefixLength + 1) = none)
    (turns : Nat) (updated : Bool) :
    updateLoop turns i updated = .ok (i, updated, decide (turns = 0)) := by
  cases turns with
  | zero => rfl
  | succ turns => simp [updateLoop, h]

/-- The flag stays set. -/
theorem updateLoop_updated {turns : Nat} {updated tested : Bool}
    (h : updateLoop turns i true = .ok (j, updated, tested)) : updated = true := by
  induction turns generalizing i with
  | zero =>
    cases h
    rfl
  | succ turns ih =>
    unfold updateLoop at h
    split at h
    · cases h
      rfl
    · obtain ⟨i', -, h⟩ := bind_eq_ok.1 h
      exact ih h

variable [One F]

theorem updateSubmissionResult_quiet (hq : i.Quiet) {c : Completed (ICPCGenerator F) F}
    (h : i.updateSubmissionResult = .ok c) :
    c.published = none ∧
      c.generator.submission.compilationResult = i.submission.compilationResult ∧
      (i.testedPrefixLength < i.problem.testsNumber → c.generator = i) := by
  have hloop : updateLoop (i.problem.testsNumber - i.testedPrefixLength) i false =
      .ok (i, false, decide (i.problem.testsNumber - i.testedPrefixLength = 0)) := by
    rcases hq with hle | hnone
    · rw [Nat.sub_eq_zero_of_le hle]
      rfl
    · exact updateLoop_none hnone _ _
  unfold updateSubmissionResult at h
  rw [hloop, ok_bind] at h
  by_cases hlt : i.testedPrefixLength < i.problem.testsNumber
  · have hne : i.problem.testsNumber - i.testedPrefixLength ≠ 0 := by omega
    simp only [hne, decide_false, Bool.not_false, if_true, Bool.false_eq_true, if_false] at h
    cases h
    exact ⟨rfl, rfl, fun _ => rfl⟩
  · have heq : i.problem.testsNumber - i.testedPrefixLength = 0 := by omega
    simp only [heq, decide_true, Bool.not_true, Bool.false_eq_true, if_false] at h
    cases h
    refine ⟨rfl, ?_, fun hc => absurd hc hlt⟩
    dsimp only
    split <;> rfl

theorem updateSubmissionResult_loud (hq : ¬ i.Quiet) {c : Completed (ICPCGenerator F) F}
    (h : i.updateSubmissionResult = .ok c) : c.published = some c.generator.submission := by
  obtain ⟨hlt, hsome⟩ := not_or.1 hq
  obtain ⟨result, hresult⟩ := Option.ne_none_iff_exists'.1 hsome
  obtain ⟨turns, hturns⟩ : ∃ turns, i.problem.testsNumber - i.testedPrefixLength = turns + 1 :=
    ⟨i.problem.testsNumber - i.testedPrefixLength - 1, by omega⟩
  unfold updateSubmissionResult at h
  obtain ⟨⟨i', updated, tested⟩, hloop, h⟩ := bind_eq_ok.1 h
  have hupdated : updated = true := by
    rw [hturns, updateLoop, hresult] at hloop
    obtain ⟨i₁, -, hloop⟩ := bind_eq_ok.1 hloop
    exact updateLoop_updated hloop
  subst hupdated
  cases tested with
  | false =>
    cases h
    rfl
  | true =>
    cases h
    rfl

/-- A change of the submission is published unless the compile job leaves nothing to append. -/
theorem published_iff {outs : Outcomes F} {sub : Submission F} (h : Good outs sub i)
    (hsub : sub.compilationResult = none) {result : InvokerJobResult F} {job : Job}
    (hget : i.givenJobs.get? result.job.id = some job) {c : Completed (ICPCGenerator F) F}
    (hc : i.jobCompleted result = .ok c) :
    (c.generator.submission ≠ i.submission → c.published = some c.generator.submission) ↔
      (job.type = .compileJob → result.verdict ≠ .CD ∧ 0 < i.problem.testsNumber) := by
  cases h with
  | notStarted _ _ given => exact absurd ((given _).symm.trans hget) (by simp)
  | done _ done => exact absurd ((done.given _).symm.trans hget) (by simp)
  | compiling _ untested id cjob compiling =>
    obtain rfl := compiling.only _ _ hget
    obtain rfl : cjob = job := Option.some.inj (compiling.given.symm.trans hget)
    obtain ⟨m, first, he, hfirst, hm⟩ := compileJobCompleted_eq
      (untested.withGiven i.state (i.givenJobs.delete result.job.id)) compiling.type compiling.test result
    simp only [jobCompleted, hget, compiling.type, he, ok_bind] at hc
    by_cases hquiet : result.verdict = .CD ∨ i.problem.testsNumber = 0
    · -- Nothing is appended, and the stored compilation result is new.
      have hq : Quiet { i with
          state := .compilationFinished
          firstTestToGive := first
          givenJobs := i.givenJobs.delete result.job.id
          internalTestResults := m
          submission := compiledSubmission result.outcome sub } := by
        rcases hquiet with hcd | hzero
        · right
          change m.get? (i.testedPrefixLength + 1) = none
          rw [hm, hfirst, if_pos hcd, if_neg (by omega)]
        · left
          change i.problem.testsNumber ≤ i.testedPrefixLength
          omega
      obtain ⟨hpub, hcomp, -⟩ := updateSubmissionResult_quiet hq hc
      have hne : c.generator.submission ≠ i.submission := by
        intro heq
        rw [heq, untested.submission] at hcomp
        rw [hsub] at hcomp
        cases hcomp
      rw [hpub]
      refine iff_of_false (fun himp => by cases himp hne) fun himp => ?_
      obtain ⟨hcd, hpos⟩ := himp compiling.type
      rcases hquiet with hcd' | hzero
      · exact hcd hcd'
      · omega
    · obtain ⟨hcd, hpos⟩ := not_or.1 hquiet
      refine iff_of_true (fun _ => updateSubmissionResult_loud ?_ hc) fun _ => ⟨hcd, by omega⟩
      rintro (hle | hnone)
      · change i.problem.testsNumber ≤ i.testedPrefixLength at hle
        rw [untested.tested] at hle
        omega
      · change m.get? (i.testedPrefixLength + 1) = none at hnone
        change first = if _ then 1 else i.problem.testsNumber + 1 at hfirst
        rw [hm, untested.tested, hfirst, if_neg hcd, if_pos (by omega)] at hnone
        cases hnone
  | testing _ _ testing =>
    obtain ⟨htype, -⟩ := testing.jobs.given _ _ hget
    obtain ⟨m, first, he, -⟩ := testJobCompleted_eq
      (i := { i with givenJobs := i.givenJobs.delete result.job.id }) testing.jobs.first_le htype
      result
    simp only [jobCompleted, hget, htype, he, ok_bind] at hc
    refine iff_of_true (fun hne => ?_) fun hcompile => ?_
    · by_cases hq : Quiet { i with
          givenJobs := i.givenJobs.delete result.job.id
          internalTestResults := m
          firstTestToGive := first }
      · have hsame := (updateSubmissionResult_quiet hq hc).2.2 testing.left
        exact absurd (by rw [hsame]) hne
      · exact updateSubmissionResult_loud hq hc
    · rw [htype] at hcompile
      cases hcompile

end ICPCGenerator

/-! ## IOI -/

namespace IOIGenerator

variable {F : Type} [Add F] [Min F] [Zero F] {i j : IOIGenerator F}

/-- A loop that does not set the flag changes nothing. -/
theorem updateLoop_updated {turns : Nat} {updated updated' : Bool}
    (h : updateLoop turns i updated = .ok (j, updated')) :
    updated' = true ∨ j = i ∧ updated' = updated := by
  induction turns generalizing i updated with
  | zero =>
    cases h
    exact .inr ⟨rfl, rfl⟩
  | succ turns ih =>
    unfold updateLoop at h
    obtain ⟨entry, -, h⟩ := bind_eq_ok.1 h
    split at h
    · cases h
      exact .inr ⟨rfl, rfl⟩
    obtain ⟨info, -, h⟩ := bind_eq_ok.1 h
    split at h
    · cases h
      exact .inr ⟨rfl, rfl⟩
    obtain ⟨group, -, h⟩ := bind_eq_ok.1 h
    obtain ⟨i₁, -, h⟩ := bind_eq_ok.1 h
    obtain ⟨i₂, -, h⟩ := bind_eq_ok.1 h
    rcases ih h with hset | ⟨-, hset⟩
    · exact .inl hset
    · exact .inl hset

/-- A change that `updateSubmissionResult` makes is published. -/
theorem updateSubmissionResult_published {c : Completed (IOIGenerator F) F}
    (h : i.updateSubmissionResult = .ok c) :
    c.published = some c.generator.submission ∨ c.published = none ∧ c.generator = i := by
  unfold updateSubmissionResult at h
  obtain ⟨⟨i', updated⟩, hloop, h⟩ := bind_eq_ok.1 h
  dsimp only at h
  split at h
  · obtain ⟨i₁, -, h⟩ := bind_eq_ok.1 h
    split at h
    · cases h
    · cases h
      exact .inl rfl
  · cases h
    rcases updateLoop_updated hloop with rfl | ⟨rfl, rfl⟩
    · exact .inl rfl
    · exact .inr ⟨rfl, rfl⟩

/-- The end of testing is published. -/
theorem updateSubmissionResult_end (hend : i.problem.testsNumber < i.firstNotCompletedTest)
    (hlen : i.givenJobs.len = 0) {c : Completed (IOIGenerator F) F}
    (h : i.updateSubmissionResult = .ok c) : c.published = some c.generator.submission := by
  unfold updateSubmissionResult at h
  rw [Nat.sub_eq_zero_of_le hend, updateLoop, ok_bind] at h
  dsimp only at h
  rw [if_pos ⟨hend, hlen⟩] at h
  obtain ⟨i₁, -, h⟩ := bind_eq_ok.1 h
  split at h
  · cases h
  · cases h
    rfl

/-- While a test is left, a call publishes exactly if the loop sets the flag. -/
theorem updateSubmissionResult_loop (hleft : i.firstNotCompletedTest ≤ i.problem.testsNumber)
    (hloop : updateLoop (i.problem.testsNumber + 1 - i.firstNotCompletedTest) i false =
      .ok (i, false)) {c : Completed (IOIGenerator F) F} (h : i.updateSubmissionResult = .ok c) :
    c.published = none ∧ c.generator = i := by
  unfold updateSubmissionResult at h
  rw [hloop, ok_bind] at h
  dsimp only at h
  rw [if_neg fun hend => absurd hend.1 (Nat.not_lt.2 hleft)] at h
  cases h
  exact ⟨rfl, rfl⟩

theorem updateSubmissionResult_loud
    (hloop : ∀ j updated, updateLoop (i.problem.testsNumber + 1 - i.firstNotCompletedTest) i false =
      .ok (j, updated) → updated = true) {c : Completed (IOIGenerator F) F}
    (h : i.updateSubmissionResult = .ok c) : c.published = some c.generator.submission := by
  unfold updateSubmissionResult at h
  obtain ⟨⟨j, updated⟩, hj, h⟩ := bind_eq_ok.1 h
  obtain rfl := hloop j updated hj
  dsimp only at h
  split at h
  · obtain ⟨j₁, -, h⟩ := bind_eq_ok.1 h
    split at h
    · cases h
    · cases h
      rfl
  · cases h
    rfl

/-- The first turn of the loop after the compile job: it appends the skipped test 1 if the groups are
marked, and ends the loop otherwise. -/
theorem updateLoop_compiled {sub : Submission F} (hu : Untested sub i) {infos} {verdict : Verdict}
    (hj : j.problem = i.problem ∧ j.internalTestResults = i.internalTestResults ∧
      j.firstNotCompletedTest = i.firstNotCompletedTest ∧
      j.testNumberToGroupName = i.testNumberToGroupName ∧ j.groupNameToInternalInfo = infos)
    (htotal : Total i.problem.testGroups infos)
    (hflags : ∀ group ∈ i.problem.testGroups,
      markFlag.of infos group.name = decide (verdict ≠ .CD))
    (hpos : 0 < i.problem.testsNumber) :
    (verdict = .CD → updateLoop (j.problem.testsNumber + 1 - j.firstNotCompletedTest) j false =
        .ok (j, false)) ∧
      (verdict ≠ .CD → ∀ j' updated,
        updateLoop (j.problem.testsNumber + 1 - j.firstNotCompletedTest) j false =
          .ok (j', updated) → updated = true) := by
  obtain ⟨hproblem, hresults, hfirst, hnames, hinfos⟩ := hj
  obtain ⟨turns, hturns⟩ : ∃ turns,
      j.problem.testsNumber + 1 - j.firstNotCompletedTest = turns + 1 :=
    ⟨i.problem.testsNumber - 1, by rw [hproblem, hfirst, hu.completedTest]; omega⟩
  rw [hturns]
  obtain ⟨group, hg, hhas⟩ := hu.accepted.exists_group (Nat.le_refl 1) hpos
  obtain ⟨info, hinfo⟩ := htotal group hg
  have hname : j.groupNameOfTest j.firstNotCompletedTest = group.name := by
    rw [hfirst, hu.completedTest, ← hu.prepared.names group hg 1 hhas, groupNameOfTest,
      groupNameOfTest, hnames]
  have hentry : index j.internalTestResults (j.firstNotCompletedTest - 1) = .ok (newEntry 1) := by
    refine index_eq_ok ?_
    rw [hresults, hfirst, hu.completedTest, hu.tables.results, List.getElem?_map,
      List.getElem?_range' (by omega)]
    rfl
  have hmark : info.shouldMarkFinalTestsSkipped = decide (verdict ≠ .CD) := by
    rw [← hflags group hg, GroupFlag.of_eq hinfo]
    rfl
  rw [← hinfos] at hinfo
  constructor
  · rintro rfl
    simp [updateLoop, hname, hentry, hinfo, hmark, newEntry]
    rfl
  · intro hcd j' updated hloop
    simp only [updateLoop, hname, hentry, ok_bind, hinfo, deref_some, hmark, newEntry, hcd, ne_eq,
      not_false_eq_true, decide_true, Bool.not_true, Bool.false_eq_true, and_false, if_false,
      reduceCtorEq] at hloop
    obtain ⟨info', -, hloop⟩ := bind_eq_ok.1 hloop
    obtain ⟨i₁, -, hloop⟩ := bind_eq_ok.1 hloop
    obtain ⟨i₂, -, hloop⟩ := bind_eq_ok.1 hloop
    rcases updateLoop_updated hloop with hset | ⟨-, hset⟩
    · exact hset
    · exact hset

/-- A change of the submission is published unless the compilation succeeds and a test is left. -/
theorem published_iff {outs : Outcomes F} {sub : Submission F} (h : Good outs sub i)
    (hsub : sub.compilationResult = none) {result : InvokerJobResult F} {job : Job}
    (hget : i.givenJobs.get? result.job.id = some job) {c : Completed (IOIGenerator F) F}
    (hc : i.jobCompleted result = .ok c) :
    (c.generator.submission ≠ i.submission → c.published = some c.generator.submission) ↔
      (job.type = .compileJob → result.verdict ≠ .CD ∨ i.problem.testsNumber = 0) := by
  cases h with
  | notStarted _ _ given => exact absurd ((given _).symm.trans hget) (by simp)
  | done _ _ _ _ _ _ given => exact absurd ((given _).symm.trans hget) (by simp)
  | failed _ _ _ given => exact absurd ((given _).symm.trans hget) (by simp)
  | testing _ _ prepared jobs graded waiting =>
    obtain ⟨htype, hpos, hlt, -⟩ := jobs.given _ _ hget
    have hle := jobs.first_le
    obtain ⟨group, hg, hhas⟩ := prepared.accepted.exists_group hpos (by omega)
    obtain ⟨infos, he, -⟩ := testJobCompleted_eq prepared jobs hget hg hhas result
    simp only [jobCompleted, hget, htype, he, ok_bind] at hc
    refine iff_of_true (fun hne => ?_) fun hcompile => ?_
    · rcases updateSubmissionResult_published hc with hpub | ⟨-, hsame⟩
      · exact hpub
      · exact absurd (by rw [hsame]; rfl) hne
    · rw [htype] at hcompile
      cases hcompile
  | compiling _ untested id cjob compiling =>
    obtain rfl := compiling.only _ _ hget
    obtain rfl : cjob = job := Option.some.inj (compiling.given.symm.trans hget)
    have hunt := untested.withGiven i.state (i.givenJobs.delete result.job.id)
    obtain ⟨infos, state, he, -, htotal, -, hflags⟩ :=
      compileJobCompleted_eq hunt compiling.test result
    simp only [jobCompleted, hget, compiling.type, he, ok_bind] at hc
    obtain ⟨j, hj⟩ : ∃ j : IOIGenerator F, j = { i with
        state := state
        groupNameToInternalInfo := infos
        givenJobs := i.givenJobs.delete result.job.id
        submission := compiledSubmission result.outcome sub } := ⟨_, rfl⟩
    rw [← hj] at hc
    have hproblem : j.problem = i.problem := by rw [hj]
    have hfirst : j.firstNotCompletedTest = 1 := by rw [hj]; exact untested.completedTest
    by_cases hzero : i.problem.testsNumber = 0
    · refine iff_of_true (fun _ => ?_) fun _ => .inr hzero
      refine updateSubmissionResult_end (by rw [hproblem, hfirst]; omega) ?_ hc
      rw [hj]
      exact (GoMap.len_eq_zero_iff _).2 (GoMap.get?_delete_only compiling.only)
    · obtain ⟨hquiet, hloud⟩ := updateLoop_compiled (j := j) hunt (by rw [hj]; exact ⟨rfl, rfl, rfl, rfl, rfl⟩)
        htotal hflags (Nat.pos_of_ne_zero hzero)
      by_cases hcd : result.verdict = .CD
      · -- Nothing is appended, and the stored compilation result is new.
        obtain ⟨hpub, hsame⟩ :=
          updateSubmissionResult_loop (by rw [hproblem, hfirst]; omega) (hquiet hcd) hc
        have hne : c.generator.submission ≠ i.submission := by
          rw [hsame, hj, untested.submission]
          intro heq
          have hcomp := congrArg Submission.compilationResult heq
          rw [show _ = sub.compilationResult from rfl, hsub] at hcomp
          cases hcomp
        rw [hpub]
        refine iff_of_false (fun himp => by cases himp hne) fun himp => ?_
        rcases himp compiling.type with hne' | hzero'
        · exact hne' hcd
        · exact hzero hzero'
      · exact iff_of_true (fun _ => updateSubmissionResult_loud (hloud hcd) hc) fun _ => .inl hcd

end IOIGenerator

/-! ## Runs -/

namespace Generator

variable {F : Type}

/-- The result is not that of the compile job, or its call publishes the submission: in ICPC after a
failed compilation if there is a test, in IOI after a failed compilation or if there is no test. -/
def Announced (result : InvokerJobResult F) (g : Generator F) : Prop :=
  ∀ job, g.givenJobs.get? result.job.id = some job → job.type = .compileJob →
    match g with
    | .icpc i => result.verdict ≠ .CD ∧ 0 < i.problem.testsNumber
    | .ioi i => result.verdict ≠ .CD ∨ i.problem.testsNumber = 0

variable [Add F] [Min F] [Zero F] [One F]

theorem published_iff {outs : Outcomes F} {sub : Submission F} {g : Generator F}
    (h : g.Good outs sub) (hsub : sub.compilationResult = none) {result : InvokerJobResult F}
    {c : Completed (Generator F) F} (hc : g.jobCompleted result = .ok c) :
    (c.generator.submission ≠ g.submission → c.published = some c.generator.submission) ↔
      Announced result g := by
  cases hget : g.givenJobs.get? result.job.id with
  | none =>
    refine iff_of_true (fun hne => ?_) fun job hjob => ?_
    · rcases jobCompleted_unknown hget with hp | ⟨err, he⟩
      · rw [hp] at hc
        cases hc
      · obtain rfl := Except.ok.inj (he.symm.trans hc)
        exact absurd rfl hne
    · rw [hget] at hjob
      cases hjob
  | some job =>
    have hone : ∀ P : Prop, (∀ job', g.givenJobs.get? result.job.id = some job' →
        job'.type = .compileJob → P) ↔ (job.type = .compileJob → P) := by
      refine fun P => ⟨fun hall => hall job hget, fun himp job' hjob' => ?_⟩
      obtain rfl := Option.some.inj (hget.symm.trans hjob')
      exact himp
    cases g with
    | icpc i =>
      obtain ⟨c', hc', hc⟩ := bind_eq_ok.1 hc
      cases hc
      exact (ICPCGenerator.published_iff h hsub hget hc').trans (hone _).symm
    | ioi i =>
      obtain ⟨c', hc', hc⟩ := bind_eq_ok.1 hc
      cases hc
      exact (IOIGenerator.published_iff h hsub hget hc').trans (hone _).symm

end Generator

namespace GeneratorRun

section Runs

variable {F : Type} [Add F] [Min F] [Zero F] [One F] {problem : Problem F} {sub : Submission F}
  {r : GeneratorRun F}

/-- In every reachable state, a call that returns publishes the changed submission exactly if its
result is announced. -/
theorem changes_published_iff (hsub : sub.compilationResult = none)
    (hr : (machine problem sub).Reachable Machine.always r) {result : InvokerJobResult F}
    {c : Completed (Generator F) F} (hc : r.generator.jobCompleted result = .ok c) :
    (c.generator.submission ≠ r.generator.submission →
        c.published = some c.generator.submission) ↔
      Generator.Announced result r.generator := by
  obtain ⟨outs, -, hex⟩ := explained_always hr
  exact Generator.published_iff hex.good hsub hc

end Runs

/-- The run in which an ICPC generator has given its compile job. -/
def compilingTwoTests : GeneratorRun Int where
  generator := .icpc
    { id := 0, submission := newSubmission, problem := twoTests, state := .compilationStarted
      firstTestToGive := 1, testedPrefixLength := 0
      givenJobs := GoMap.empty.set 1 { id := 1, submitID := 1, type := .compileJob }
      internalTestResults := .empty }
  returned := []

theorem compilingTwoTests_reachable :
    (machine twoTests newSubmission).Reachable Machine.always compilingTwoTests :=
  Machine.Reachable.of_runs (machine twoTests newSubmission) Machine.always [.nextJob 1]
    (.of_init ⟨0, _, rfl, rfl⟩) ⟨trivial, rfl, _, rfl, rfl⟩

theorem changes_published_iff_failed_compilation :
    ∃ c, compilingTwoTests.generator.jobCompleted (resultOf 1 .CE none) = .ok c ∧
      c.published = some c.generator.submission := by
  obtain ⟨c, hc⟩ : ∃ c, compilingTwoTests.generator.jobCompleted (resultOf 1 .CE none) = .ok c :=
    ⟨_, rfl⟩
  have hiff := changes_published_iff rfl compilingTwoTests_reachable hc
  refine ⟨c, hc, hiff.2 (fun _ _ _ => ⟨by decide, by decide⟩) ?_⟩
  cases hc
  exact fun heq => nomatch congrArg (fun s => s.compilationResult.isSome) heq

/-- The result of a successful compilation changes the submission and is not published. -/
theorem compilation_not_published :
    (machine twoTests newSubmission).Reachable Machine.always compilingTwoTests ∧
      ∃ c, compilingTwoTests.generator.jobCompleted (resultOf 1 .CD none) = .ok c ∧
        c.generator.submission ≠ compilingTwoTests.generator.submission ∧ c.published = none := by
  refine ⟨compilingTwoTests_reachable, _, rfl, fun heq => ?_, rfl⟩
  cases congrArg (fun s => s.compilationResult.isSome) heq

end GeneratorRun

end TestingSystem
