import TestingSystem.Lib.GoMap
import TestingSystem.Master.JobGenerators.Common

/-!
# The ICPC generator

`master/queue/jobgenerators/icpc_generator.go`. Every method holds the mutex of the generator from
its first to its last statement, so a call is one function from state to state.

The counters `firstTestToGive` and `testedPrefixLength` are `uint64` in the source and natural
numbers here. Each step of `firstTestToGive` adds an entry to `givenJobs` or to
`internalTestResults`, so memory ends before the counter could wrap.

`givenJobs` stores each job as it was when it was given. The queue renames the shared object later,
but the generator only reads the type and the test of a stored job, and identifies jobs by the key.
-/

set_option autoImplicit false

namespace TestingSystem

structure ICPCGenerator (F : Type) where
  id : GeneratorID
  submission : Submission F
  problem : Problem F
  state : GeneratorState
  firstTestToGive : Nat
  testedPrefixLength : Nat
  givenJobs : GoMap JobID Job
  internalTestResults : GoMap Nat (TestResult F)

namespace ICPCGenerator

variable {F : Type}

/-- `NextJob`; `id` is the new UUID. -/
def nextJob (i : ICPCGenerator F) (id : JobID) : Option Job × ICPCGenerator F :=
  if i.state = .compilationStarted then (none, i)
  else if i.state = .compilationNotStarted then
    let job : Job := { id := id, submitID := i.submission.id, type := .compileJob }
    (some job, { i with state := .compilationStarted, givenJobs := i.givenJobs.set job.id job })
  else if i.firstTestToGive > i.problem.testsNumber then (none, i)
  else
    let job : Job :=
      { id := id, submitID := i.submission.id, type := .testJob, test := i.firstTestToGive,
        requiredJobIDs := i.givenJobs.keys }
    (some job,
      { i with
        firstTestToGive := i.firstTestToGive + 1
        givenJobs := i.givenJobs.set job.id job })

/-- The result that stands for a test that was not run. -/
def skippedResult (test : Nat) : TestResult F := { testNumber := test, verdict := .SK }

/-- The loop of `setFail`, with the number of turns left. -/
def setFailLoop : Nat → ICPCGenerator F → ICPCGenerator F
  | 0, i => i
  | turns + 1, i =>
    setFailLoop turns
      { i with
        internalTestResults :=
          i.internalTestResults.set i.firstTestToGive (skippedResult i.firstTestToGive)
        firstTestToGive := i.firstTestToGive + 1 }

/-- `setFail`: the loop runs while `firstTestToGive <= TestsNumber`. -/
def setFail (i : ICPCGenerator F) : ICPCGenerator F :=
  setFailLoop (i.problem.testsNumber + 1 - i.firstTestToGive) i

/-- One turn of the loop of `updateSubmissionResult`, for the internal result `result` of the next
test of the prefix. The changed verdict is written to the shared result object in the source; that
object is the one appended to `TestResults`, and no later turn reads it. -/
def addTestResult (i : ICPCGenerator F) (result : TestResult F) :
    Except Panic (ICPCGenerator F) :=
  let test := i.testedPrefixLength + 1
  let result := if i.submission.verdict ≠ .RU then skippedResult test else result
  let append (verdict : Verdict) (result : TestResult F) : ICPCGenerator F :=
    { i with
      testedPrefixLength := test
      submission :=
        { i.submission with
          verdict := verdict
          testResults := i.submission.testResults ++ [result] } }
  match result.verdict with
  | .OK => .ok (append i.submission.verdict result)
  | .SK =>
    if i.submission.verdict = .RU then
      .ok (append .CF
        { result with
          verdict := .CF
          error := "Invoker returned verdict SK, but no previous tests failed" })
    else .ok (append i.submission.verdict result)
  | verdict =>
    if i.submission.verdict ≠ .RU then .error .badVerdictChanged
    else .ok (append verdict result)

/-- The loop of `updateSubmissionResult`, with the number of turns left. The first flag is
`updated`, the second tells that the loop ended by its condition and not by `return nil, nil`. -/
def updateLoop : Nat → ICPCGenerator F → Bool → Except Panic (ICPCGenerator F × Bool × Bool)
  | 0, i, updated => .ok (i, updated, true)
  | turns + 1, i, updated =>
    match i.internalTestResults.get? (i.testedPrefixLength + 1) with
    | none => .ok (i, updated, false)
    | some result => do
      let i ← i.addTestResult result
      updateLoop turns i true

variable [One F]

/-- `updateSubmissionResult`. The deferred call publishes the submission as it is at the end. -/
def updateSubmissionResult (i : ICPCGenerator F) :
    Except Panic (Completed (ICPCGenerator F) F) := do
  let (i, updated, tested) ←
    updateLoop (i.problem.testsNumber - i.testedPrefixLength) i false
  if !tested then
    return ⟨i, if updated then some i.submission else none, .ok none⟩
  let i : ICPCGenerator F :=
    if i.submission.verdict = .RU then
      { i with submission := { i.submission with verdict := .OK, score := 1 } }
    else i
  return ⟨i, if updated then some i.submission else none, .ok (some i.submission)⟩

/-- `compileJobCompleted`. The message is built after the verdict was overwritten. -/
def compileJobCompleted (i : ICPCGenerator F) (job : Job) (result : InvokerJobResult F) :
    Except Panic (ICPCGenerator F) :=
  if job.type ≠ .compileJob then .error .notACompileJob
  else
    let i : ICPCGenerator F := { i with state := .compilationFinished }
    let fail (result : InvokerJobResult F) : ICPCGenerator F :=
      setFail { i with submission := { i.submission with verdict := result.verdict } }
    let (i, result) :=
      match result.verdict with
      | .CD => (i, result)
      | .CE | .CF => (fail result, result)
      | _ =>
        let result : InvokerJobResult F :=
          { result with verdict := .CF, error := "unknown verdict for compile job: CF" }
        (fail result, result)
    .ok
      { i with
        submission :=
          { i.submission with compilationResult := some (buildTestResult job result) } }

/-- `testJobCompleted`. -/
def testJobCompleted (i : ICPCGenerator F) (job : Job) (result : InvokerJobResult F) :
    Except Panic (ICPCGenerator F) :=
  if job.type ≠ .testJob then .error .notATestJob
  else
    let (i, result) :=
      match result.verdict with
      | .OK => (i, result)
      | .PT | .WA | .RT | .ML | .TL | .WL | .SE | .CF | .SK => (setFail i, result)
      | _ =>
        (setFail i,
          { result with verdict := .CF, error := "unknown verdict for test job: CF" })
    .ok
      { i with
        internalTestResults := i.internalTestResults.set job.test (buildTestResult job result) }

/-- `JobCompleted`. -/
def jobCompleted (i : ICPCGenerator F) (result : InvokerJobResult F) :
    Except Panic (Completed (ICPCGenerator F) F) :=
  match i.givenJobs.get? result.job.id with
  -- `logger.Panic` is not reached: its arguments read the ID of the job that is not there
  | none => .error .nilDereference
  | some job => do
    let i : ICPCGenerator F := { i with givenJobs := i.givenJobs.delete result.job.id }
    let i ← match job.type with
      | .compileJob => i.compileJobCompleted job result
      | .testJob => i.testJobCompleted job result
      | .other _ => .error .unknownJobType
    i.updateSubmissionResult

omit [One F] in
/-- `newICPCGenerator`; `id` is the new UUID. -/
def new (id : GeneratorID) (problem : Problem F) (submission : Submission F) :
    Except String (ICPCGenerator F) :=
  if problem.problemType ≠ .icpc then .error s!"problem {problem.id} is not ICPC"
  else
    .ok
      { id := id
        submission := { submission with verdict := .RU }
        problem := problem
        state := .compilationNotStarted
        firstTestToGive := 1
        testedPrefixLength := 0
        givenJobs := .empty
        internalTestResults := .empty }

end ICPCGenerator

end TestingSystem
