import TestingSystem.Lib.GoMap
import TestingSystem.Master.JobGenerators.Common

/-!
# The IOI generator

`master/queue/jobgenerators/ioi_generator.go`. As for the ICPC generator, every method holds the
mutex from its first to its last statement, and the counters are natural numbers: each of them
only passes tests that have an entry in `internalTestResults`.

The maps from names to pointers are maps to values. A read through a missing pointer and an index
outside a slice are panics of the runtime (`deref`, `index`).
-/

set_option autoImplicit false

namespace TestingSystem

/-- `internalGroupInfo`. -/
structure InternalGroupInfo where
  shouldGiveNewJobs : Bool
  shouldMarkFinalTestsSkipped : Bool
  deriving DecidableEq, Repr

/-- `internalTestState`. -/
inductive InternalTestState where
  | testNotGiven
  | testRunning
  | testFinished
  deriving DecidableEq, Repr

/-- `internalTestResult`. -/
structure InternalTestResult (F : Type) where
  result : TestResult F
  state : InternalTestState
  deriving DecidableEq, Repr

structure IOIGenerator (F : Type) where
  id : GeneratorID
  submission : Submission F
  problem : Problem F
  state : GeneratorState
  givenJobs : GoMap JobID Job
  groupNameToGroupInfo : GoMap String (TestGroup F)
  groupNameToInternalInfo : GoMap String InternalGroupInfo
  testNumberToGroupName : GoMap Nat String
  internalTestResults : List (InternalTestResult F)
  firstNotCompletedTest : Nat
  firstNotCompletedGroup : Nat
  firstNotGivenTest : Nat

namespace IOIGenerator

variable {F : Type}

/-- `test - 1` in `uint64`, the index of a test. -/
def testIndex (test : Nat) : Nat := if test = 0 then 2 ^ 64 - 1 else test - 1

theorem testIndex_of_pos {test : Nat} (h : 1 ≤ test) : testIndex test = test - 1 :=
  if_neg (Nat.ne_of_gt h)

/-- `testNumberToGroupName[test-1]`; a missing entry reads as the empty string. -/
def groupNameOfTest (i : IOIGenerator F) (test : Nat) : String :=
  (i.testNumberToGroupName.get? (testIndex test)).getD ""

/-! ## Acceptance of the problem -/

/-- The comparison that `checkIfGroupsDependenciesOK` sorts by, a difference of `int`s. -/
def compareFirstTest (a b : TestGroup F) : Int :=
  (BitVec.ofNat 64 a.firstTest - BitVec.ofNat 64 b.firstTest).toInt

/-- `slices.IsSortedFunc` with this comparison. -/
def isSortedByFirstTest : List (TestGroup F) → Bool
  | a :: b :: groups => decide (0 ≤ compareFirstTest b a) && isSortedByFirstTest (b :: groups)
  | _ => true

/-- The loop over the required groups. Every group of the problem has its info by now, so the
pointer is not nil. -/
def checkRequiredGroups (i : IOIGenerator F) (encounteredGroups : List String)
    (group : TestGroup F) : List String → Except String Unit
  | [] => .ok ()
  | requiredGroupName :: names =>
    if requiredGroupName ∉ encounteredGroups then
      .error s!"missing required group (maybe it is later) {requiredGroupName} for group {group.name}"
    else
      match i.groupNameToGroupInfo.get? requiredGroupName with
      | none => checkRequiredGroups i encounteredGroups group names
      | some requiredGroupInfo =>
        if requiredGroupInfo.scoringType ≠ .complete then
          .error s!"group {group.name} depends on group {requiredGroupInfo.name} with scoringType={requiredGroupInfo.scoringType.value}"
        else checkRequiredGroups i encounteredGroups group names

/-- The loop over the groups; it ends with `lastTest`. -/
def checkGroups (i : IOIGenerator F) :
    List (TestGroup F) → Nat → List String → Except String Nat
  | [], lastTest, _ => .ok lastTest
  | group :: groups, lastTest, encounteredGroups =>
    if group.firstTest ≠ lastTest + 1 then
      .error "at least one test is not in exactly one group"
    else if group.firstTest > group.lastTest then
      .error "group first test is greater than the last one"
    else if group.name ∈ encounteredGroups then
      .error s!"duplicate test group: {group.name}"
    else do
      checkRequiredGroups i encounteredGroups group group.requiredGroupNames
      checkGroups i groups group.lastTest (group.name :: encounteredGroups)

/-- `checkIfGroupsDependenciesOK`. -/
def checkIfGroupsDependenciesOK (i : IOIGenerator F) (problem : Problem F) :
    Except String Unit :=
  if !isSortedByFirstTest problem.testGroups then
    .error "groups are not sorted by tests"
  else do
    let lastTest ← i.checkGroups problem.testGroups 0 []
    if lastTest ≠ problem.testsNumber then .error "at least one test is not in exactly one group"
    else .ok ()

/-- The loop over the tests of a group in `prepareGenerator`, with the number of turns left, as long as
`LastTest` is not the largest `uint64`; the loop up to that one does not end. -/
def prepareTests (group : TestGroup F) : Nat → Nat → IOIGenerator F → IOIGenerator F
  | 0, _, i => i
  | turns + 1, testNumber, i =>
    prepareTests group turns (testNumber + 1)
      { i with
        testNumberToGroupName := i.testNumberToGroupName.set (testIndex testNumber) group.name
        internalTestResults := i.internalTestResults ++
          [{ result := { testNumber := testNumber, verdict := .RU }, state := .testNotGiven }] }

/-- The check of the scores of a group in `prepareGenerator`. -/
def checkScores (problem : Problem F) (group : TestGroup F) : Except String Unit :=
  match group.scoringType with
  | .complete | .min =>
    if group.groupScore.isNone then
      .error s!"group {group.name} in problem {problem.id} doesn't have GroupScore"
    else .ok ()
  | .eachTest =>
    if group.testScore.isNone then
      .error s!"group {group.name} in problem {problem.id} doesn't have TestScore"
    else .ok ()
  | .other value => .error s!"unknown TestGroupScoringType {value}"

/-- One turn of the loop over the groups in `prepareGenerator`. -/
def prepareGroup (i : IOIGenerator F) (group : TestGroup F) : Except String (IOIGenerator F) := do
  checkScores i.problem group
  if group.firstTest > group.lastTest then .error s!"group {group.name} has FirstTest > LastTest"
  else
    let i := prepareTests group (group.lastTest + 1 - group.firstTest) group.firstTest i
    .ok
      { i with
        groupNameToGroupInfo := i.groupNameToGroupInfo.set group.name group
        groupNameToInternalInfo := i.groupNameToInternalInfo.set group.name
          { shouldGiveNewJobs := true, shouldMarkFinalTestsSkipped := false } }

/-- The loop over the groups in `prepareGenerator`. -/
def prepareGroups : List (TestGroup F) → IOIGenerator F → Except String (IOIGenerator F)
  | [], i => .ok i
  | group :: groups, i => do
    let i ← i.prepareGroup group
    prepareGroups groups i

/-- `prepareGenerator`. -/
def prepareGenerator (i : IOIGenerator F) : Except String (IOIGenerator F) :=
  let problem := i.problem
  if problem.problemType ≠ .ioi then .error s!"problem {problem.id} is not an IOI problem"
  else do
    let i ← prepareGroups problem.testGroups i
    i.checkIfGroupsDependenciesOK problem
    return i

/-- `NewIOIGenerator`; `id` is the new UUID. This is the value that it returns when it returns: for a group
that ends at test `2^64 - 1` the loop of `prepareGenerator` never ends (`Returns`). -/
def new (id : GeneratorID) (problem : Problem F) (submission : Submission F) :
    Except String (IOIGenerator F) :=
  prepareGenerator
    { id := id
      submission := { submission with verdict := .RU }
      problem := problem
      state := .compilationNotStarted
      givenJobs := .empty
      groupNameToGroupInfo := .empty
      groupNameToInternalInfo := .empty
      testNumberToGroupName := .empty
      internalTestResults := []
      firstNotCompletedTest := 1
      firstNotCompletedGroup := 1
      firstNotGivenTest := 1 }

/-! ## Giving jobs -/

/-- `doesGroupDependOnJob`. -/
def doesGroupDependOnJob (i : IOIGenerator F) (groupName : String) (job : Job) :
    Except Panic Bool := do
  let groupInfo ← deref (i.groupNameToGroupInfo.get? groupName)
  let jobGroupName := i.groupNameOfTest job.test
  if jobGroupName = groupName ∧ groupInfo.scoringType ≠ .eachTest then return true
  return decide (jobGroupName ∈ groupInfo.requiredGroupNames)

/-- The loop over `givenJobs` that collects `RequiredJobIDs`. -/
def requiredJobIDs (i : IOIGenerator F) (groupName : String) :
    List (JobID × Job) → Except Panic (List JobID)
  | [] => .ok []
  | (givenJobID, testingJob) :: jobs => do
    let depends ← i.doesGroupDependOnJob groupName testingJob
    let ids ← requiredJobIDs i groupName jobs
    return if depends then givenJobID :: ids else ids

/-- `internalTestResults[test-1].state = state`. -/
def setTestState (i : IOIGenerator F) (test : Nat) (state : InternalTestState) :
    Except Panic (IOIGenerator F) := do
  let entry ← index i.internalTestResults (test - 1)
  return { i with
    internalTestResults := i.internalTestResults.set (test - 1) { entry with state := state } }

/-- The loop of `NextJob`, with the number of turns left. -/
def nextTestLoop (id : JobID) :
    Nat → IOIGenerator F → Except Panic (Option Job × IOIGenerator F)
  | 0, i => .ok (none, i)
  | turns + 1, i => do
    let test := i.firstNotGivenTest
    let groupName := i.groupNameOfTest test
    let groupInfo ← deref (i.groupNameToInternalInfo.get? groupName)
    if !groupInfo.shouldGiveNewJobs then
      let i ← i.setTestState test .testFinished
      nextTestLoop id turns { i with firstNotGivenTest := test + 1 }
    else
      let i ← i.setTestState test .testRunning
      let ids ← i.requiredJobIDs groupName i.givenJobs.entries
      let job : Job :=
        { id := id, submitID := i.submission.id, type := .testJob, test := test,
          requiredJobIDs := ids }
      return (some job,
        { i with givenJobs := i.givenJobs.set job.id job, firstNotGivenTest := test + 1 })

/-- `NextJob`; `id` is the new UUID. -/
def nextJob (i : IOIGenerator F) (id : JobID) : Except Panic (Option Job × IOIGenerator F) :=
  if i.state = .compilationFinished ∧ i.firstNotGivenTest > i.problem.testsNumber then
    .ok (none, i)
  else if i.state = .compilationStarted then .ok (none, i)
  else if i.state = .compilationNotStarted then
    let job : Job := { id := id, submitID := i.submission.id, type := .compileJob }
    .ok (some job, { i with state := .compilationStarted, givenJobs := i.givenJobs.set job.id job })
  else nextTestLoop id (i.problem.testsNumber + 1 - i.firstNotGivenTest) i

/-! ## The flags of the groups -/

/-- `doesTestPreventTestingGroup`. -/
def doesTestPreventTestingGroup (testGroupInfo : TestGroup F) (testVerdict : Verdict) :
    Except Panic Bool :=
  match testGroupInfo.scoringType with
  | .complete => .ok (decide (testVerdict ≠ .OK))
  | .eachTest => .ok false
  | .min => .ok (decide (testVerdict ≠ .OK ∧ testVerdict ≠ .PT))
  | .other _ => .error .unknownScoringType

/-- A flag of `internalGroupInfo` that a group takes over from the groups it requires. -/
structure GroupFlag where
  isSet : InternalGroupInfo → Bool
  raise : InternalGroupInfo → InternalGroupInfo
  /-- The loop over the required groups ends at the first one that has the flag. -/
  stopsAtFirst : Bool
  isSet_raise : ∀ info, isSet (raise info) = true
  raise_of_isSet : ∀ info, isSet info = true → raise info = info

/-- `shouldMarkFinalTestsSkipped`. -/
def markFlag : GroupFlag where
  isSet info := info.shouldMarkFinalTestsSkipped
  raise info := { info with shouldMarkFinalTestsSkipped := true }
  stopsAtFirst := false
  isSet_raise _ := rfl
  raise_of_isSet := by
    rintro ⟨give, mark⟩ h
    cases h
    rfl

/-- The negation of `shouldGiveNewJobs`. -/
def stopFlag : GroupFlag where
  isSet info := !info.shouldGiveNewJobs
  raise info := { info with shouldGiveNewJobs := false }
  stopsAtFirst := true
  isSet_raise _ := rfl
  raise_of_isSet := by
    rintro ⟨give, mark⟩ h
    obtain rfl : give = false := by simpa using h
    rfl

/-- The assignment that raises the flag of a group. -/
def GroupFlag.raiseGroup (flag : GroupFlag) (infos : GoMap String InternalGroupInfo)
    (groupName : String) : Except Panic (GoMap String InternalGroupInfo) := do
  let info ← deref (infos.get? groupName)
  return infos.set groupName (flag.raise info)

/-- The inner loop, over the required groups of one group. -/
def GroupFlag.raiseIfRequired (flag : GroupFlag) (groupName : String) :
    List String → GoMap String InternalGroupInfo → Except Panic (GoMap String InternalGroupInfo)
  | [], infos => .ok infos
  | requiredGroupName :: names, infos => do
    let info ← deref (infos.get? requiredGroupName)
    if flag.isSet info then
      let infos ← flag.raiseGroup infos groupName
      if flag.stopsAtFirst then return infos
      raiseIfRequired flag groupName names infos
    else raiseIfRequired flag groupName names infos

/-- The outer loop, over the groups of the problem. -/
def GroupFlag.spread (flag : GroupFlag) :
    List (TestGroup F) → GoMap String InternalGroupInfo →
      Except Panic (GoMap String InternalGroupInfo)
  | [], infos => .ok infos
  | group :: groups, infos => do
    let infos ← flag.raiseIfRequired group.name group.requiredGroupNames infos
    spread flag groups infos

/-- Raises the flag of a group, then spreads it over the groups of the problem. -/
def raiseFlag (i : IOIGenerator F) (flag : GroupFlag) (groupName : String) :
    Except Panic (IOIGenerator F) := do
  let infos ← flag.raiseGroup i.groupNameToInternalInfo groupName
  let infos ← flag.spread i.problem.testGroups infos
  return { i with groupNameToInternalInfo := infos }

/-- `stopGivingNewTestsIfNeeded`. -/
def stopGivingNewTestsIfNeeded (i : IOIGenerator F) (testGroupName : String)
    (testGroupInfo : TestGroup F) (testVerdict : Verdict) : Except Panic (IOIGenerator F) := do
  if ← doesTestPreventTestingGroup testGroupInfo testVerdict then
    i.raiseFlag stopFlag testGroupName
  else return i

/-! ## Completed tests and groups -/

section Scores

variable [Add F] [Min F] [Zero F]

/-- The results of the tests of a group, `TestResults[firstTest-1:lastTest]`. -/
def groupTestResults (results : List (TestResult F)) (groupInfo : TestGroup F) :
    Except Panic (List (TestResult F)) :=
  if groupInfo.lastTest ≤ results.length then
    .ok ((results.take groupInfo.lastTest).drop (groupInfo.firstTest - 1))
  else .error .indexOutOfRange

/-- `calcGroupVerdict` on the results of the tests of the group. -/
def calcGroupVerdict (results : List (TestResult F)) : Verdict :=
  if results.any fun result => decide (result.verdict ≠ .OK) then .PT else .OK

/-- The loop of `completeGroupTesting` for `EachTest`. -/
def sumPoints : List (TestResult F) → F → Except Panic F
  | [], score => .ok score
  | result :: results, score =>
    match result.points with
    | none => .error .nilPoints
    | some testScore => sumPoints results (score + testScore)

/-- The loop of `completeGroupTesting` for `Min`. -/
def minPoints : List (TestResult F) → F → Except Panic F
  | [], score => .ok score
  | result :: results, score =>
    match result.points with
    | none =>
      if result.verdict ≠ .SK then .error .nilPoints
      else minPoints results 0
    | some testScore => minPoints results (min score testScore)

/-- The score of a group in `completeGroupTesting`. -/
def groupScore (groupInfo : TestGroup F) (results : List (TestResult F)) : Except Panic F :=
  match groupInfo.scoringType with
  | .complete => if calcGroupVerdict results = .OK then deref groupInfo.groupScore else .ok 0
  | .eachTest => sumPoints results 0
  | .min => do
    let score ← deref groupInfo.groupScore
    minPoints results score
  | .other _ => .ok 0

/-- `completeGroupTesting`. -/
def completeGroupTesting (i : IOIGenerator F) (groupInfo : TestGroup F) :
    Except Panic (IOIGenerator F) :=
  if i.firstNotCompletedTest ≠ groupInfo.lastTest then .error .groupNotFinished
  else do
    let results ← groupTestResults i.submission.testResults groupInfo
    let score ← groupScore groupInfo results
    return { i with
      submission :=
        { i.submission with
          groupResults := i.submission.groupResults ++
            [{ groupName := groupInfo.name, points := score,
               passed := decide (calcGroupVerdict results = .OK) }] }
      firstNotCompletedGroup := i.firstNotCompletedGroup + 1 }

/-- The result that stands for a test that was not run. -/
def skippedResult (test : Nat) : TestResult F := { testNumber := test, verdict := .SK }

def appendTestResult (i : IOIGenerator F) (result : TestResult F) : IOIGenerator F :=
  { i with
    submission := { i.submission with testResults := i.submission.testResults ++ [result] } }

/-- The part of a turn of `updateSubmissionResult` that appends the result of the next test. The
changed verdict is written to the shared result object in the source; that object is the one
appended to `TestResults`, and no later turn reads it. -/
def addTestResult (i : IOIGenerator F) (testGroupName : String) (testGroupInfo : TestGroup F)
    (marked : Bool) (result : TestResult F) : Except Panic (IOIGenerator F) :=
  if marked then .ok (i.appendTestResult (skippedResult result.testNumber))
  else do
    let result :=
      if result.verdict = .SK then
        { result with
          verdict := .CF
          error := "invoker returned verdict SK, but no required test failed" }
      else result
    let i := i.appendTestResult result
    if ← doesTestPreventTestingGroup testGroupInfo result.verdict then
      i.raiseFlag markFlag testGroupName
    else return i

/-- The part of a turn that completes the group of the test, if this is its last test. -/
def completeGroupIfLast (i : IOIGenerator F) (testGroupInfo : TestGroup F) :
    Except Panic (IOIGenerator F) :=
  if i.firstNotCompletedTest = testGroupInfo.lastTest then i.completeGroupTesting testGroupInfo
  else .ok i

/-- The loop of `updateSubmissionResult`, with the number of turns left; the flag is `updated`. -/
def updateLoop : Nat → IOIGenerator F → Bool → Except Panic (IOIGenerator F × Bool)
  | 0, i, updated => .ok (i, updated)
  | turns + 1, i, updated => do
    let testGroupName := i.groupNameOfTest i.firstNotCompletedTest
    let entry ← index i.internalTestResults (i.firstNotCompletedTest - 1)
    if entry.state = .testRunning then return (i, updated)
    let info ← deref (i.groupNameToInternalInfo.get? testGroupName)
    if entry.state = .testNotGiven ∧ !info.shouldMarkFinalTestsSkipped then return (i, updated)
    let testGroupInfo ← deref (i.groupNameToGroupInfo.get? testGroupName)
    let i ← i.addTestResult testGroupName testGroupInfo info.shouldMarkFinalTestsSkipped entry.result
    let i ← i.completeGroupIfLast testGroupInfo
    updateLoop turns { i with firstNotCompletedTest := i.firstNotCompletedTest + 1 } true

/-- One turn of the last loop of `setFinalScoreAndVerdict`: the verdict of the submission,
`hasSkipped` and `hasVerdict`. -/
def finalVerdictStep (state : Verdict × Bool × Bool) (result : TestResult F) :
    Verdict × Bool × Bool :=
  match state, result.verdict with
  | (_, hasSkipped, _), .CF => (.CF, hasSkipped, true)
  | (verdict, _, hasVerdict), .SK => (verdict, true, hasVerdict)
  | state, .OK => state
  | (_, hasSkipped, _), _ => (.PT, hasSkipped, true)

/-- `setFinalScoreAndVerdict`. -/
def setFinalScoreAndVerdict (i : IOIGenerator F) : Except Panic (IOIGenerator F) :=
  if i.givenJobs.len ≠ 0 then .error .jobsLeft
  else if i.firstNotCompletedTest ≠ i.problem.testsNumber + 1 then .error .testsNotCompleted
  else if i.submission.groupResults.length ≠ i.problem.testGroups.length then
    .error .groupResultsLength
  else if i.submission.testResults.length ≠ i.problem.testsNumber then .error .testResultsLength
  else
    let score := i.submission.groupResults.foldl (fun score group => score + group.points)
      i.submission.score
    let i : IOIGenerator F := { i with submission := { i.submission with score := score } }
    if i.submission.verdict ≠ .RU then .ok i
    else
      let (verdict, hasSkipped, hasVerdict) :=
        i.submission.testResults.foldl finalVerdictStep (i.submission.verdict, false, false)
      if hasVerdict then .ok { i with submission := { i.submission with verdict := verdict } }
      else if hasSkipped then .error .skippedWithoutVerdict
      else .ok { i with submission := { i.submission with verdict := .OK } }

/-- `updateSubmissionResult`. The deferred call publishes the submission as it is at the end. -/
def updateSubmissionResult (i : IOIGenerator F) : Except Panic (Completed (IOIGenerator F) F) := do
  let (i, updated) ←
    updateLoop (i.problem.testsNumber + 1 - i.firstNotCompletedTest) i false
  if i.firstNotCompletedTest > i.problem.testsNumber ∧ i.givenJobs.len = 0 then
    let i ← i.setFinalScoreAndVerdict
    if i.firstNotCompletedGroup ≤ i.problem.testGroups.length then throw .groupsNotFilled
    return ⟨i, some i.submission, .ok (some i.submission)⟩
  return ⟨i, if updated then some i.submission else none, .ok none⟩

end Scores

/-! ## Completed jobs -/

/-- The loop of `compileJobCompleted` after a failure. -/
def markAllGroups : List (TestGroup F) → GoMap String InternalGroupInfo →
    Except Panic (GoMap String InternalGroupInfo)
  | [], infos => .ok infos
  | group :: groups, infos => do
    let infos ← markFlag.raiseGroup infos group.name
    markAllGroups groups infos

/-- `compileJobCompleted`. The message is built after the verdict was overwritten. -/
def compileJobCompleted (i : IOIGenerator F) (job : Job) (result : InvokerJobResult F) :
    Except Panic (IOIGenerator F) := do
  let fail (result : InvokerJobResult F) : Except Panic (IOIGenerator F) := do
    let infos ← markAllGroups i.problem.testGroups i.groupNameToInternalInfo
    return { i with
      groupNameToInternalInfo := infos
      submission :=
        { i.submission with
          verdict := result.verdict
          compilationResult := some (buildTestResult job result) } }
  match result.verdict with
  | .CD =>
    return { i with
      state := .compilationFinished
      submission := { i.submission with compilationResult := some (buildTestResult job result) } }
  | .CE | .CF => fail result
  | _ => fail { result with verdict := .CF, error := "unknown verdict for compile job: CF" }

section Points

variable [Zero F]

/-- The points that `populateTestJobResult` puts in place of nil, or its error. -/
def missingPoints (score : Option F) (verdict : Verdict) : Except String (Option F) :=
  match verdict with
  | .OK => .ok score
  | .PT => .error "checker returned nil points, but verdict=PT"
  | _ => .ok (some 0)

/-- `populateTestJobResult`: the points afterwards, or the error. -/
def populateTestJobResult (groupInfo : TestGroup F) (verdict : Verdict) (points : Option F) :
    Except Panic (Except String (Option F)) :=
  match groupInfo.scoringType, points with
  | .complete, points => .ok (.ok points)
  | .eachTest, some points => .ok (.ok (some points))
  | .eachTest, none => .ok (missingPoints groupInfo.testScore verdict)
  | .min, some points => .ok (.ok (some points))
  | .min, none => .ok (missingPoints groupInfo.groupScore verdict)
  | .other _, _ => .error .unknownScoringType

/-- The outcome as `testJobCompleted` stores it, for what `populateTestJobResult` returned. -/
def populatedOutcome (outcome : Outcome F) : Except String (Option F) → Outcome F
  | .ok points => { outcome with points := points }
  | .error err =>
    { outcome with
      verdict := .CF
      points := outcome.points.map fun _ => 0
      error := (if outcome.error ≠ "" then outcome.error ++ "; " else outcome.error) ++ err }

/-- `testJobCompleted`. -/
def testJobCompleted (i : IOIGenerator F) (job : Job) (result : InvokerJobResult F) :
    Except Panic (IOIGenerator F) := do
  let testGroupName := i.groupNameOfTest job.test
  let testGroupInfo ← deref (i.groupNameToGroupInfo.get? testGroupName)
  let populated ← populateTestJobResult testGroupInfo result.verdict result.points
  let outcome := populatedOutcome result.outcome populated
  let _ ← index i.internalTestResults (testIndex job.test)
  let i : IOIGenerator F :=
    { i with
      internalTestResults := i.internalTestResults.set (testIndex job.test)
        { result := outcome.testResult job.test, state := .testFinished } }
  i.stopGivingNewTestsIfNeeded testGroupName testGroupInfo outcome.verdict

variable [Add F] [Min F]

/-- `JobCompleted`. -/
def jobCompleted (i : IOIGenerator F) (result : InvokerJobResult F) :
    Except Panic (Completed (IOIGenerator F) F) :=
  match i.givenJobs.get? result.job.id with
  | none => .ok ⟨i, none, .error s!"job {result.job.id} does not exist"⟩
  | some job =>
    let i : IOIGenerator F := { i with givenJobs := i.givenJobs.delete result.job.id }
    match job.type with
    | .compileJob => do
      let i ← i.compileJobCompleted job result
      i.updateSubmissionResult
    | .testJob => do
      let i ← i.testJobCompleted job result
      i.updateSubmissionResult
    | .other type => .ok ⟨i, none, .error s!"unknown job type for IOI problem: {type}"⟩

end Points

end IOIGenerator

end TestingSystem
