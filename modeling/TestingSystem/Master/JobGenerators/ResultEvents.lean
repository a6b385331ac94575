import TestingSystem.Master.JobGenerators.Generator
import TestingSystem.Master.JobGenerators.ResultMemory

/-!
# The statements on results

The statements of `icpc_generator.go` and `ioi_generator.go` that make, change or append a result, in the
order in which a call executes them. The definitions follow the control flow of the calls; a memory that
holds the results of a generator before a call holds them after it (`Held`), so the lists of the generator
are what the pointers show. These facts need no invariant of the generators.
-/

set_option autoImplicit false

namespace TestingSystem

open ResultMemory

/-! ## ICPC -/

namespace ICPCGenerator

variable {F : Type} {i j : ICPCGenerator F} {growth : Growth} {m : ResultMemory F}

/-- `setFail` makes a skipped result for each test that is left. -/
def setFailEvents (i : ICPCGenerator F) : List (ResultEvent F) :=
  (List.range' i.firstTestToGive (i.problem.testsNumber + 1 - i.firstTestToGive)).map fun test =>
    .store test (skippedResult test)

/-- A turn of the loop of `updateSubmissionResult`. -/
def turnEvent (i : ICPCGenerator F) : ResultEvent F :=
  let test := i.testedPrefixLength + 1
  if i.submission.verdict ≠ .RU then .appendNew (skippedResult test)
  else .appendStored test "Invoker returned verdict SK, but no previous tests failed"

/-- The loop of `updateSubmissionResult`, with the number of turns left. -/
def loopEvents : Nat → ICPCGenerator F → Except Panic (List (ResultEvent F))
  | 0, _ => .ok []
  | turns + 1, i =>
    match i.internalTestResults.get? (i.testedPrefixLength + 1) with
    | none => .ok []
    | some result => do
      let j ← i.addTestResult result
      let events ← loopEvents turns j
      return i.turnEvent :: events

/-- `updateSubmissionResult`, without the call of `UpdateSubmission`. -/
def updateEvents (i : ICPCGenerator F) : Except Panic (List (ResultEvent F)) :=
  loopEvents (i.problem.testsNumber - i.testedPrefixLength) i

/-- `compileJobCompleted`. -/
def compileEvents (i : ICPCGenerator F) (result : InvokerJobResult F) : List (ResultEvent F) :=
  match result.verdict with
  | .CD => []
  | _ => i.setFailEvents

/-- `testJobCompleted`, of which the state afterwards is `j`: `setFail`, then the result of the test. -/
def testEvents (i j : ICPCGenerator F) (job : Job) (result : InvokerJobResult F) :
    List (ResultEvent F) :=
  (match result.verdict with
    | .OK => []
    | _ => i.setFailEvents) ++
    (j.internalTestResults.get? job.test).toList.map (.store job.test)

/-- `JobCompleted`. -/
def resultEvents (i : ICPCGenerator F) (result : InvokerJobResult F) :
    Except Panic (List (ResultEvent F)) :=
  match i.givenJobs.get? result.job.id with
  | none => .error .nilDereference
  | some job =>
    let i : ICPCGenerator F := { i with givenJobs := i.givenJobs.delete result.job.id }
    match job.type with
    | .compileJob => do
      let j ← i.compileJobCompleted job result
      let events ← j.updateEvents
      return i.compileEvents result ++ events
    | .testJob => do
      let j ← i.testJobCompleted job result
      let events ← j.updateEvents
      return i.testEvents j job result ++ events
    | .other _ => .error .unknownJobType

/-- The memory holds the results of the generator: the submitted ones and the internal ones that are left
to submit. -/
def Held (i : ICPCGenerator F) (m : ResultMemory F) : Prop :=
  m.Holds i.submission.testResults i.submission.groupResults i.internalTestResults.get?
    (i.testedPrefixLength + 1)

theorem setFailLoop_held (turns : Nat) (h : i.Held m) :
    (setFailLoop turns i).Held (m.applyAll growth
      ((List.range' i.firstTestToGive turns).map fun test => .store test (skippedResult test))) := by
  induction turns generalizing i m with
  | zero => exact h
  | succ turns ih =>
    rw [List.range'_succ]
    refine ih (i := { i with
      internalTestResults :=
        i.internalTestResults.set i.firstTestToGive (skippedResult i.firstTestToGive)
      firstTestToGive := i.firstTestToGive + 1 }) ?_
    refine (h.store growth i.firstTestToGive (skippedResult i.firstTestToGive)).congr (Nat.le_refl _)
      fun key _ => ?_
    rw [GoMap.get?_set, Function.update_apply]

theorem setFail_held (h : i.Held m) : i.setFail.Held (m.applyAll growth i.setFailEvents) :=
  setFailLoop_held _ h

/-- Apart from the verdict, a turn appends the result of the next test and counts it. -/
theorem addTestResult_appends {result : TestResult F} (h : i.addTestResult result = .ok j) :
    ∃ verdict, j = { i with
      testedPrefixLength := i.testedPrefixLength + 1
      submission :=
        { i.submission with
          verdict := verdict
          testResults := i.submission.testResults ++
            [if i.submission.verdict ≠ .RU then skippedResult (i.testedPrefixLength + 1)
              else repairSkipped "Invoker returned verdict SK, but no previous tests failed" result] } } := by
  unfold addTestResult at h
  by_cases hru : i.submission.verdict = .RU
  · simp only [hru, ne_eq, not_true_eq_false, if_false, if_true] at h ⊢
    split at h
    · next hok =>
      cases h
      exact ⟨.RU, by rw [repairSkipped, if_neg (by simp [hok])]⟩
    · next hsk =>
      cases h
      exact ⟨.CF, by rw [repairSkipped, if_pos hsk]⟩
    · next hsk =>
      cases h
      exact ⟨result.verdict, by rw [repairSkipped, if_neg hsk]⟩
  · simp only [hru, ne_eq, not_false_eq_true, if_true, skippedResult, if_false] at h ⊢
    cases h
    exact ⟨_, rfl⟩

theorem addTestResult_held {result : TestResult F}
    (hresult : i.internalTestResults.get? (i.testedPrefixLength + 1) = some result)
    (hadd : i.addTestResult result = .ok j) (h : i.Held m) : j.Held (m.apply growth i.turnEvent) := by
  obtain ⟨verdict, rfl⟩ := addTestResult_appends hadd
  unfold turnEvent Held
  by_cases hru : i.submission.verdict = .RU
  · simp only [hru, ne_eq, not_true_eq_false, if_false]
    exact h.appendStored hresult growth _
  · simp only [hru, ne_eq, not_false_eq_true, if_true]
    exact (h.appendNew growth _).congr (Nat.le_succ _) fun _ _ => rfl

theorem updateLoop_held {turns : Nat} {updated updated' tested : Bool}
    (hloop : updateLoop turns i updated = .ok (j, updated', tested)) :
    ∃ events, loopEvents turns i = .ok events ∧
      ∀ growth m, i.Held m → j.Held (m.applyAll growth events) := by
  induction turns generalizing i updated with
  | zero =>
    cases hloop
    exact ⟨[], rfl, fun _ _ h => h⟩
  | succ turns ih =>
    cases hresult : i.internalTestResults.get? (i.testedPrefixLength + 1) with
    | none =>
      simp only [updateLoop, hresult] at hloop
      cases hloop
      exact ⟨[], by simp only [loopEvents, hresult], fun _ _ h => h⟩
    | some result =>
      simp only [updateLoop, hresult] at hloop
      obtain ⟨i', hadd, hloop⟩ := bind_eq_ok.1 hloop
      obtain ⟨events, hevents, hheld⟩ := ih hloop
      refine ⟨i.turnEvent :: events, ?_,
        fun growth m h => hheld growth _ (addTestResult_held hresult hadd h)⟩
      simp only [loopEvents, hresult, hadd, ok_bind, hevents]
      rfl

/-- Only the verdict and the score of the submission may differ at the end. -/
theorem updateSubmissionResult_held [One F] {c : Completed (ICPCGenerator F) F}
    (hc : i.updateSubmissionResult = .ok c) :
    (∃ events, i.updateEvents = .ok events ∧
      ∀ growth m, i.Held m → c.generator.Held (m.applyAll growth events)) ∧
      ∀ s, c.published = some s → s = c.generator.submission := by
  unfold updateSubmissionResult at hc
  obtain ⟨⟨i', updated, tested⟩, hloop, hc⟩ := bind_eq_ok.1 hc
  have hheld := updateLoop_held hloop
  have hpublished : ∀ {k : ICPCGenerator F} {s : Submission F},
      (if updated then some k.submission else none) = some s → s = k.submission := by
    intro k s hs
    cases updated with
    | false => cases hs
    | true => exact (Option.some.inj hs).symm
  cases tested with
  | false =>
    cases hc
    exact ⟨hheld, fun s hs => hpublished hs⟩
  | true =>
    cases hc
    refine ⟨?_, fun s hs => hpublished hs⟩
    obtain ⟨events, hevents, hheld⟩ := hheld
    refine ⟨events, hevents, fun growth m h => ?_⟩
    have := hheld growth m h
    dsimp only
    split
    · exact this
    · exact this

theorem compileJobCompleted_held {job : Job} {result : InvokerJobResult F}
    (hj : i.compileJobCompleted job result = .ok j) (h : i.Held m) :
    j.Held (m.applyAll growth (i.compileEvents result)) := by
  have hfail : ∀ verdict,
      (setFail { i with
        state := .compilationFinished
        submission := { i.submission with verdict := verdict } }).Held
        (m.applyAll growth i.setFailEvents) :=
    fun verdict => setFail_held (i := { i with
      state := .compilationFinished
      submission := { i.submission with verdict := verdict } }) h
  unfold compileJobCompleted at hj
  unfold compileEvents
  split at hj
  · cases hj
  · cases hv : result.verdict with
    | CD =>
      simp only [hv] at hj ⊢
      cases hj
      exact h
    | _ =>
      simp only [hv] at hj ⊢
      cases hj
      exact hfail _

theorem testJobCompleted_held {job : Job} {result : InvokerJobResult F}
    (hj : i.testJobCompleted job result = .ok j) (h : i.Held m) :
    j.Held (m.applyAll growth (i.testEvents j job result)) := by
  have hset : ∀ {k : ICPCGenerator F} {m : ResultMemory F} (stored : TestResult F), k.Held m →
      Held { k with internalTestResults := k.internalTestResults.set job.test stored }
        (m.applyAll growth
          (((k.internalTestResults.set job.test stored).get? job.test).toList.map
            (.store job.test))) := by
    intro k m stored hk
    rw [GoMap.get?_set_self]
    refine (hk.store growth job.test stored).congr (Nat.le_refl _) fun key _ => ?_
    rw [GoMap.get?_set, Function.update_apply]
  unfold testJobCompleted at hj
  unfold testEvents
  split at hj
  · cases hj
  · cases hv : result.verdict with
    | OK =>
      simp only [hv] at hj ⊢
      cases hj
      exact hset _ h
    | _ =>
      simp only [hv] at hj ⊢
      cases hj
      rw [applyAll_append]
      exact hset _ (setFail_held h)

theorem jobCompleted_held [One F] {result : InvokerJobResult F} {c : Completed (ICPCGenerator F) F}
    (hc : i.jobCompleted result = .ok c) :
    (∃ events, i.resultEvents result = .ok events ∧
      ∀ growth m, i.Held m → c.generator.Held (m.applyAll growth events)) ∧
      ∀ s, c.published = some s → s = c.generator.submission := by
  cases hget : i.givenJobs.get? result.job.id with
  | none =>
    simp only [jobCompleted, hget] at hc
    cases hc
  | some job =>
    cases htype : job.type with
    | compileJob =>
      simp only [jobCompleted, hget, htype] at hc
      obtain ⟨j, hj, hc⟩ := bind_eq_ok.1 hc
      obtain ⟨⟨events, hevents, hheld⟩, hpublished⟩ := updateSubmissionResult_held hc
      simp only [resultEvents, hget, htype, hj, ok_bind, hevents]
      refine ⟨⟨_, rfl, fun growth m h => ?_⟩, hpublished⟩
      rw [applyAll_append]
      exact hheld growth _ (compileJobCompleted_held hj h)
    | testJob =>
      simp only [jobCompleted, hget, htype] at hc
      obtain ⟨j, hj, hc⟩ := bind_eq_ok.1 hc
      obtain ⟨⟨events, hevents, hheld⟩, hpublished⟩ := updateSubmissionResult_held hc
      simp only [resultEvents, hget, htype, hj, ok_bind, hevents]
      refine ⟨⟨_, rfl, fun growth m h => ?_⟩, hpublished⟩
      rw [applyAll_append]
      exact hheld growth _ (testJobCompleted_held hj h)
    | other type =>
      simp only [jobCompleted, hget, htype] at hc
      cases hc

theorem nextJob_held (h : i.Held m) (id : JobID) : (i.nextJob id).2.Held m := by
  unfold nextJob
  split
  · exact h
  split
  · exact h
  split
  · exact h
  · exact h

end ICPCGenerator

/-! ## IOI -/

namespace IOIGenerator

variable {F : Type} {i j : IOIGenerator F} {m : ResultMemory F}

/-- The loop of `prepareGenerator` makes a result for each test, from the key `key` on. -/
def placeholderEvents : Nat → List (InternalTestResult F) → List (ResultEvent F)
  | _, [] => []
  | key, entry :: entries => .store key entry.result :: placeholderEvents (key + 1) entries

/-- The append of a test result in a turn of the loop of `updateSubmissionResult`. -/
def turnEvent (i : IOIGenerator F) (marked : Bool) (result : TestResult F) : ResultEvent F :=
  if marked then .appendNew (skippedResult result.testNumber)
  else
    .appendStored (i.firstNotCompletedTest - 1)
      "invoker returned verdict SK, but no required test failed"

/-- The append of `completeGroupTesting`, of which the state afterwards is `j`. -/
def groupEvents (i j : IOIGenerator F) : List (ResultEvent F) :=
  (j.submission.groupResults.drop i.submission.groupResults.length).map .appendGroup

/-- `testJobCompleted`, of which the state afterwards is `j`. -/
def testEvents (j : IOIGenerator F) (job : Job) : List (ResultEvent F) :=
  (j.internalTestResults[testIndex job.test]?).toList.map fun entry =>
    .store (testIndex job.test) entry.result

section Events

variable [Add F] [Min F] [Zero F]

/-- The loop of `updateSubmissionResult`, with the number of turns left. -/
def loopEvents : Nat → IOIGenerator F → Except Panic (List (ResultEvent F))
  | 0, _ => .ok []
  | turns + 1, i => do
    let testGroupName := i.groupNameOfTest i.firstNotCompletedTest
    let entry ← index i.internalTestResults (i.firstNotCompletedTest - 1)
    if entry.state = .testRunning then return []
    let info ← deref (i.groupNameToInternalInfo.get? testGroupName)
    if entry.state = .testNotGiven ∧ !info.shouldMarkFinalTestsSkipped then return []
    let testGroupInfo ← deref (i.groupNameToGroupInfo.get? testGroupName)
    let j ← i.addTestResult testGroupName testGroupInfo info.shouldMarkFinalTestsSkipped entry.result
    let k ← j.completeGroupIfLast testGroupInfo
    let events ← loopEvents turns { k with firstNotCompletedTest := k.firstNotCompletedTest + 1 }
    return i.turnEvent info.shouldMarkFinalTestsSkipped entry.result :: (groupEvents j k ++ events)

/-- `updateSubmissionResult`, without the call of `UpdateSubmission`. -/
def updateEvents (i : IOIGenerator F) : Except Panic (List (ResultEvent F)) :=
  loopEvents (i.problem.testsNumber + 1 - i.firstNotCompletedTest) i

/-- `JobCompleted`. The result of the compile job is stored apart from the results of the tests. -/
def resultEvents (i : IOIGenerator F) (result : InvokerJobResult F) :
    Except Panic (List (ResultEvent F)) :=
  match i.givenJobs.get? result.job.id with
  | none => .ok []
  | some job =>
    let i : IOIGenerator F := { i with givenJobs := i.givenJobs.delete result.job.id }
    match job.type with
    | .compileJob => do
      let j ← i.compileJobCompleted job result
      j.updateEvents
    | .testJob => do
      let j ← i.testJobCompleted job result
      let events ← j.updateEvents
      return j.testEvents job ++ events
    | .other _ => .ok []

end Events

/-- The internal result at an index. -/
def storedResult (i : IOIGenerator F) (key : Nat) : Option (TestResult F) :=
  (i.internalTestResults[key]?).map fun entry => entry.result

/-- The memory holds the results of the generator: the submitted ones and the internal ones that are left
to submit. -/
structure Held (i : IOIGenerator F) (m : ResultMemory F) : Prop where
  pos : 1 ≤ i.firstNotCompletedTest
  holds : m.Holds i.submission.testResults i.submission.groupResults i.storedResult
    (i.firstNotCompletedTest - 1)

/-- What a call leaves alone that changes no result. -/
structure SameResults (i j : IOIGenerator F) : Prop where
  tests : j.submission.testResults = i.submission.testResults
  groups : j.submission.groupResults = i.submission.groupResults
  first : j.firstNotCompletedTest = i.firstNotCompletedTest
  stored : j.storedResult = i.storedResult

theorem SameResults.refl (i : IOIGenerator F) : SameResults i i := ⟨rfl, rfl, rfl, rfl⟩

theorem SameResults.trans {k : IOIGenerator F} (h : SameResults i j) (h' : SameResults j k) :
    SameResults i k :=
  ⟨h'.tests.trans h.tests, h'.groups.trans h.groups, h'.first.trans h.first,
    h'.stored.trans h.stored⟩

theorem Held.same (h : i.Held m) (hsame : SameResults i j) : j.Held m := by
  refine ⟨hsame.first ▸ h.pos, ?_⟩
  rw [hsame.tests, hsame.groups, hsame.stored, hsame.first]
  exact h.holds

theorem raiseFlag_sameResults {flag : GroupFlag} {name : String}
    (h : i.raiseFlag flag name = .ok j) : SameResults i j := by
  obtain ⟨infos, -, h⟩ := bind_eq_ok.1 h
  obtain ⟨infos', -, h⟩ := bind_eq_ok.1 h
  cases h
  exact ⟨rfl, rfl, rfl, rfl⟩

/-! ### A turn of the loop -/

/-- Apart from the marks of the groups, the first part of a turn appends the result of the test. -/
theorem addTestResult_sameResults {name : String} {group : TestGroup F} {marked : Bool}
    {result : TestResult F} (h : i.addTestResult name group marked result = .ok j) :
    SameResults
      (i.appendTestResult
        (if marked then skippedResult result.testNumber
          else repairSkipped "invoker returned verdict SK, but no required test failed" result)) j := by
  unfold addTestResult at h
  cases marked with
  | true =>
    cases h
    exact ⟨rfl, rfl, rfl, rfl⟩
  | false =>
    obtain ⟨prevents, -, h⟩ := bind_eq_ok.1 h
    split at h
    · exact raiseFlag_sameResults h
    · cases h
      exact ⟨rfl, rfl, rfl, rfl⟩

/-- The test counts as completed when the turn ends, so its key is passed. -/
theorem addTestResult_held {name : String} {group : TestGroup F} {marked : Bool}
    {entry : InternalTestResult F}
    (hentry : index i.internalTestResults (i.firstNotCompletedTest - 1) = .ok entry)
    (hadd : i.addTestResult name group marked entry.result = .ok j) (h : i.Held m)
    (growth : Growth) :
    (m.apply growth (i.turnEvent marked entry.result)).Holds j.submission.testResults
      j.submission.groupResults j.storedResult j.firstNotCompletedTest := by
  have hsame := addTestResult_sameResults hadd
  have hnext : i.firstNotCompletedTest - 1 + 1 = i.firstNotCompletedTest := Nat.sub_add_cancel h.pos
  rw [hsame.tests, hsame.groups, hsame.stored, hsame.first]
  unfold turnEvent
  cases marked with
  | true => exact (h.holds.appendNew growth _).congr (Nat.sub_le _ _) fun _ _ => rfl
  | false =>
    have hstored : i.storedResult (i.firstNotCompletedTest - 1) = some entry.result := by
      rw [storedResult, index_ok hentry]
      rfl
    exact (h.holds.appendStored hstored growth _).congr (Nat.le_of_eq hnext) fun _ _ => rfl

section Scores

variable [Add F] [Min F] [Zero F]

theorem completeGroupIfLast_appends {group : TestGroup F} (h : i.completeGroupIfLast group = .ok j) :
    ∃ added, SameResults
      { i with
        submission := { i.submission with groupResults := i.submission.groupResults ++ added } } j := by
  unfold completeGroupIfLast at h
  split at h
  · unfold completeGroupTesting at h
    split at h
    · cases h
    · obtain ⟨results, -, h⟩ := bind_eq_ok.1 h
      obtain ⟨score, -, h⟩ := bind_eq_ok.1 h
      cases h
      exact ⟨_, rfl, rfl, rfl, rfl⟩
  · cases h
    exact ⟨[], rfl, (List.append_nil _).symm, rfl, rfl⟩

theorem completeGroupIfLast_held {group : TestGroup F} (hj : i.completeGroupIfLast group = .ok j)
    {next : Nat} (h : m.Holds i.submission.testResults i.submission.groupResults i.storedResult next)
    (growth : Growth) :
    (m.applyAll growth (groupEvents i j)).Holds j.submission.testResults j.submission.groupResults
      j.storedResult next := by
  obtain ⟨added, hsame⟩ := completeGroupIfLast_appends hj
  have hevents : groupEvents i j = added.map .appendGroup := by
    rw [groupEvents, hsame.groups, List.drop_left]
  rw [hevents, hsame.tests, hsame.groups, hsame.stored]
  exact h.appendGroups growth added

theorem updateLoop_held {turns : Nat} {updated updated' : Bool}
    (hloop : updateLoop turns i updated = .ok (j, updated')) :
    ∃ events, loopEvents turns i = .ok events ∧
      ∀ growth m, i.Held m → j.Held (m.applyAll growth events) := by
  induction turns generalizing i updated with
  | zero =>
    cases hloop
    exact ⟨[], rfl, fun _ _ h => h⟩
  | succ turns ih =>
    unfold updateLoop at hloop
    unfold loopEvents
    obtain ⟨entry, hentry, hloop⟩ := bind_eq_ok.1 hloop
    simp only [hentry, ok_bind]
    split at hloop
    · next hrunning =>
      cases hloop
      exact ⟨[], if_pos hrunning, fun _ _ h => h⟩
    next hrunning =>
    obtain ⟨info, hinfo, hloop⟩ := bind_eq_ok.1 hloop
    simp only [if_neg hrunning, hinfo, ok_bind]
    split at hloop
    · next hwaiting =>
      cases hloop
      exact ⟨[], if_pos hwaiting, fun _ _ h => h⟩
    next hwaiting =>
    obtain ⟨group, hgroup, hloop⟩ := bind_eq_ok.1 hloop
    obtain ⟨i₁, hadd, hloop⟩ := bind_eq_ok.1 hloop
    obtain ⟨i₂, hcomplete, hloop⟩ := bind_eq_ok.1 hloop
    obtain ⟨events, hevents, hheld⟩ := ih hloop
    simp only [if_neg hwaiting, hgroup, hadd, hcomplete, hevents, ok_bind]
    refine ⟨_, rfl, fun growth m h => ?_⟩
    have hadded := addTestResult_held hentry hadd h growth
    have hcompleted := completeGroupIfLast_held hcomplete hadded growth
    obtain ⟨added, hsame⟩ := completeGroupIfLast_appends hcomplete
    rw [show i₁.firstNotCompletedTest = i₂.firstNotCompletedTest from hsame.first.symm] at hcompleted
    have hturn := hheld growth _ ⟨Nat.le_add_left _ _, hcompleted⟩
    rwa [← applyAll_append] at hturn

omit [Min F] [Zero F] in
theorem setFinalScoreAndVerdict_sameResults (h : i.setFinalScoreAndVerdict = .ok j) :
    SameResults i j := by
  unfold setFinalScoreAndVerdict at h
  split at h
  · cases h
  split at h
  · cases h
  split at h
  · cases h
  split at h
  · cases h
  dsimp only at h
  split at h
  · cases h
    exact ⟨rfl, rfl, rfl, rfl⟩
  split at h
  · cases h
    exact ⟨rfl, rfl, rfl, rfl⟩
  split at h
  · cases h
  · cases h
    exact ⟨rfl, rfl, rfl, rfl⟩

theorem updateSubmissionResult_held {c : Completed (IOIGenerator F) F}
    (hc : i.updateSubmissionResult = .ok c) :
    (∃ events, i.updateEvents = .ok events ∧
      ∀ growth m, i.Held m → c.generator.Held (m.applyAll growth events)) ∧
      ∀ s, c.published = some s → s = c.generator.submission := by
  unfold updateSubmissionResult at hc
  obtain ⟨⟨i', updated⟩, hloop, hc⟩ := bind_eq_ok.1 hc
  obtain ⟨events, hevents, hheld⟩ := updateLoop_held hloop
  dsimp only at hc
  split at hc
  · obtain ⟨j, hfinal, hc⟩ := bind_eq_ok.1 hc
    split at hc
    · cases hc
    · cases hc
      have hsame := setFinalScoreAndVerdict_sameResults hfinal
      exact ⟨⟨events, hevents, fun growth m h => (hheld growth m h).same hsame⟩,
        fun s hs => (Option.some.inj hs).symm⟩
  · cases hc
    refine ⟨⟨events, hevents, hheld⟩, fun s hs => ?_⟩
    cases updated with
    | false => cases hs
    | true => exact (Option.some.inj hs).symm

end Scores

/-! ### Completed jobs -/

theorem compileJobCompleted_sameResults {job : Job} {result : InvokerJobResult F}
    (h : i.compileJobCompleted job result = .ok j) : SameResults i j := by
  unfold compileJobCompleted at h
  cases hv : result.verdict with
  | CD =>
    simp only [hv] at h
    cases h
    exact ⟨rfl, rfl, rfl, rfl⟩
  | _ =>
    simp only [hv] at h
    obtain ⟨infos, -, h⟩ := bind_eq_ok.1 h
    cases h
    exact ⟨rfl, rfl, rfl, rfl⟩

/-- `testJobCompleted` stores a result and may stop groups. -/
theorem testJobCompleted_sameResults [Zero F] {job : Job} {result : InvokerJobResult F}
    (h : i.testJobCompleted job result = .ok j) :
    ∃ entry, testIndex job.test < i.internalTestResults.length ∧
      SameResults
        { i with internalTestResults := i.internalTestResults.set (testIndex job.test) entry } j := by
  unfold testJobCompleted at h
  obtain ⟨group, -, h⟩ := bind_eq_ok.1 h
  obtain ⟨populated, -, h⟩ := bind_eq_ok.1 h
  obtain ⟨old, hold, h⟩ := bind_eq_ok.1 h
  refine ⟨⟨(populatedOutcome result.outcome populated).testResult job.test, .testFinished⟩,
    (List.getElem?_eq_some_iff.1 (index_ok hold)).1, ?_⟩
  obtain ⟨prevents, -, h⟩ := bind_eq_ok.1 h
  split at h
  · exact raiseFlag_sameResults h
  · cases h
    exact .refl _

theorem testJobCompleted_held [Zero F] {job : Job} {result : InvokerJobResult F}
    (hj : i.testJobCompleted job result = .ok j) (h : i.Held m) (growth : Growth) :
    j.Held (m.applyAll growth (j.testEvents job)) := by
  obtain ⟨entry, hlt, hsame⟩ := testJobCompleted_sameResults hj
  have hget : j.storedResult (testIndex job.test) = some entry.result := by
    rw [hsame.stored, storedResult, List.getElem?_set_self hlt]
    rfl
  have hevents : j.testEvents job = [.store (testIndex job.test) entry.result] := by
    obtain ⟨stored, hstored, heq⟩ := Option.map_eq_some_iff.1 hget
    rw [testEvents, hstored, ← heq]
    rfl
  rw [hevents]
  refine Held.same (i := { i with
    internalTestResults := i.internalTestResults.set (testIndex job.test) entry }) ⟨h.pos, ?_⟩ hsame
  refine (h.holds.store growth (testIndex job.test) entry.result).congr (Nat.le_refl _) fun key _ => ?_
  rw [Function.update_apply, storedResult, List.getElem?_set]
  by_cases hkey : testIndex job.test = key
  · rw [if_pos hkey, if_pos hkey.symm, if_pos hlt]
    rfl
  · rw [if_neg hkey, if_neg (Ne.symm hkey)]
    rfl

theorem jobCompleted_held [Add F] [Min F] [Zero F] {result : InvokerJobResult F}
    {c : Completed (IOIGenerator F) F} (hc : i.jobCompleted result = .ok c) :
    (∃ events, i.resultEvents result = .ok events ∧
      ∀ growth m, i.Held m → c.generator.Held (m.applyAll growth events)) ∧
      ∀ s, c.published = some s → s = c.generator.submission := by
  cases hget : i.givenJobs.get? result.job.id with
  | none =>
    simp only [jobCompleted, hget] at hc
    cases hc
    refine ⟨⟨[], by simp only [resultEvents, hget], fun _ _ h => h⟩, ?_⟩
    intro s hs
    cases hs
  | some job =>
    have hdelete : SameResults i { i with givenJobs := i.givenJobs.delete result.job.id } :=
      ⟨rfl, rfl, rfl, rfl⟩
    cases htype : job.type with
    | compileJob =>
      simp only [jobCompleted, hget, htype] at hc
      obtain ⟨j, hj, hc⟩ := bind_eq_ok.1 hc
      obtain ⟨⟨events, hevents, hheld⟩, hpublished⟩ := updateSubmissionResult_held hc
      simp only [resultEvents, hget, htype, hj, ok_bind, hevents]
      refine ⟨⟨_, rfl, fun growth m h => hheld growth m ?_⟩, hpublished⟩
      exact h.same (hdelete.trans (compileJobCompleted_sameResults hj))
    | testJob =>
      simp only [jobCompleted, hget, htype] at hc
      obtain ⟨j, hj, hc⟩ := bind_eq_ok.1 hc
      obtain ⟨⟨events, hevents, hheld⟩, hpublished⟩ := updateSubmissionResult_held hc
      simp only [resultEvents, hget, htype, hj, ok_bind, hevents]
      refine ⟨⟨_, rfl, fun growth m h => ?_⟩, hpublished⟩
      rw [applyAll_append]
      exact hheld growth _ (testJobCompleted_held hj (h.same hdelete) growth)
    | other type =>
      simp only [jobCompleted, hget, htype] at hc
      cases hc
      simp only [resultEvents, hget, htype]
      refine ⟨⟨[], rfl, fun _ _ h => h.same hdelete⟩, ?_⟩
      intro s hs
      cases hs

/-! ### Given jobs -/

theorem setTestState_sameResults {test : Nat} {state : InternalTestState}
    (h : i.setTestState test state = .ok j) : SameResults i j := by
  obtain ⟨entry, hentry, h⟩ := bind_eq_ok.1 h
  cases h
  refine ⟨rfl, rfl, rfl, funext fun key => ?_⟩
  rw [storedResult, storedResult, List.getElem?_set]
  by_cases hkey : test - 1 = key
  · subst hkey
    rw [if_pos rfl, if_pos (List.getElem?_eq_some_iff.1 (index_ok hentry)).1, index_ok hentry]
    rfl
  · rw [if_neg hkey]

theorem nextTestLoop_sameResults {id : JobID} {turns : Nat} {job : Option Job}
    (h : nextTestLoop id turns i = .ok (job, j)) : SameResults i j := by
  induction turns generalizing i with
  | zero =>
    cases h
    exact .refl _
  | succ turns ih =>
    obtain ⟨info, -, h⟩ := bind_eq_ok.1 h
    split at h
    · obtain ⟨i', hstate, h⟩ := bind_eq_ok.1 h
      have hnext : SameResults i' { i' with firstNotGivenTest := i.firstNotGivenTest + 1 } :=
        ⟨rfl, rfl, rfl, rfl⟩
      exact (setTestState_sameResults hstate).trans (hnext.trans (ih h))
    · obtain ⟨i', hstate, h⟩ := bind_eq_ok.1 h
      obtain ⟨ids, -, h⟩ := bind_eq_ok.1 h
      cases h
      exact (setTestState_sameResults hstate).trans ⟨rfl, rfl, rfl, rfl⟩

theorem nextJob_sameResults {id : JobID} {job : Option Job} (h : i.nextJob id = .ok (job, j)) :
    SameResults i j := by
  unfold nextJob at h
  split at h
  · cases h
    exact .refl i
  split at h
  · cases h
    exact .refl i
  split at h
  · cases h
    exact ⟨rfl, rfl, rfl, rfl⟩
  · exact nextTestLoop_sameResults h

/-! ### The start -/

/-- The objects that are made after those of `before`. -/
theorem placeholderEvents_held (before : List (InternalTestResult F))
    {entries : List (InternalTestResult F)} {results : List (TestResult F)}
    {groups : List (GroupResult F)} (growth : Growth)
    (h : m.Holds results groups (fun key => (before[key]?).map fun entry => entry.result) 0) :
    (m.applyAll growth (placeholderEvents before.length entries)).Holds results groups
      (fun key => ((before ++ entries)[key]?).map fun entry => entry.result) 0 := by
  induction entries generalizing before m with
  | nil => rwa [List.append_nil]
  | cons entry entries ih =>
    have hstored := h.store growth before.length entry.result
    have hbefore : (m.apply growth (.store before.length entry.result)).Holds results groups
        (fun key => ((before ++ [entry])[key]?).map fun entry => entry.result) 0 := by
      refine hstored.congr (Nat.le_refl 0) fun key _ => ?_
      rw [Function.update_apply]
      by_cases hkey : key = before.length
      · rw [if_pos hkey, hkey, List.getElem?_concat_length]
        rfl
      · rw [if_neg hkey]
        rcases Nat.lt_or_gt_of_ne hkey with hlt | hgt
        · rw [List.getElem?_append_left hlt]
        · rw [List.getElem?_eq_none (by rw [List.length_append]; exact hgt),
            List.getElem?_eq_none (Nat.le_of_lt hgt)]
    have hrest := ih (before ++ [entry]) hbefore
    rw [List.length_append] at hrest
    rw [List.append_cons]
    exact hrest

end IOIGenerator

end TestingSystem
