import TestingSystem.Common.Connectors
import TestingSystem.Lib.Outcome
import Mathlib.Logic.Function.Basic

/-!
# Definitions shared by the generators

`master/queue/jobgenerators/common.go`, and the type of the panics of the master. A function that
can panic returns `Except Panic`; a panic stops the testing system (`recoverRequest` and
`runProcess` call `stopFunc`), so it ends a run and leaves no state behind. Reading the random
source for a new UUID is taken never to fail.
-/

set_option autoImplicit false

namespace TestingSystem

/-- The panics of the master: two of the Go runtime, then one constructor for each call of
`logger.Panic`. -/
inductive Panic where
  | nilDereference
  | indexOutOfRange
  -- `icpc_generator.go`
  | badVerdictChanged
  | notACompileJob
  | notATestJob
  | unknownJobType
  -- `ioi_generator.go`
  | unknownScoringType
  | groupNotFinished
  | nilPoints
  | groupsNotFilled
  | jobsLeft
  | testsNotCompleted
  | groupResultsLength
  | testResultsLength
  | skippedWithoutVerdict
  -- `status.go`
  | submissionAddedTwice
  | finishAbsentSubmission
  | updateAbsentSubmission
  -- `queue.go`
  | completedUnknownJob
  | rescheduledUnknownJob
  -- `registry/invoker.go` and `registry/registry.go`
  | typeOfUnsentJob
  | removedUnsentJob
  | sendingJobChanged
  | unknownJobHeld
  | noInvokerForTestingJob
  deriving DecidableEq, Repr

/-! ## Failures of the Go runtime -/

/-- A read through a pointer. -/
def deref {α : Type} : Option α → Except Panic α
  | none => .error .nilDereference
  | some a => .ok a

@[simp] theorem deref_some {α : Type} (a : α) : deref (some a) = .ok a := rfl

theorem deref_ok {α : Type} {a : α} : {o : Option α} → deref o = .ok a → o = some a
  | some _, h => congrArg some (Except.ok.inj h)

/-- `xs[n]`. -/
def index {α : Type} (xs : List α) (n : Nat) : Except Panic α :=
  match xs[n]? with
  | none => .error .indexOutOfRange
  | some a => .ok a

theorem index_eq_ok {α : Type} {xs : List α} {n : Nat} {a : α} (h : xs[n]? = some a) :
    index xs n = .ok a := by
  simp [index, h]

theorem index_ok {α : Type} {xs : List α} {n : Nat} {a : α} (h : index xs n = .ok a) :
    xs[n]? = some a := by
  unfold index at h
  split at h
  · cases h
  · next hget => exact hget.trans (congrArg some (Except.ok.inj h))

/-- A generator ID, the text of a UUID. -/
abbrev GeneratorID := Nat

/-- The value that a `uint64` holds after an operation with the exact result `n`. -/
def u64 (n : Nat) : Nat := n % 2 ^ 64

/-- `generatorState`. -/
inductive GeneratorState where
  | compilationNotStarted
  | compilationStarted
  | compilationFinished
  deriving DecidableEq, Repr

/-- The loop of `roundValue`, with the number of turns left. -/
def roundLoop : Nat → Nat → Nat → Nat
  | 0, value, _ => value
  | turns + 1, value, roundFactor =>
    if value < roundFactor then value
    else
      roundLoop turns
        (u64 (u64 (value + roundFactor + (2 ^ 64 - 1)) / roundFactor * roundFactor))
        (u64 (roundFactor * roundFactor))

/-- `roundValue`. -/
def roundValue (value roundFactor : Nat) : Nat := roundLoop 2 value roundFactor

def timeRoundFactor : Nat := 1000

def memoryRoundFactor : Nat := 1024

def roundTime (time : Nat) : Nat := roundValue time timeRoundFactor

def roundMemory (memory : Nat) : Nat := roundValue memory memoryRoundFactor

/-- `buildTestResult`. -/
def buildTestResult {F : Type} (job : Job) (result : InvokerJobResult F) : TestResult F where
  testNumber := job.test
  verdict := result.verdict
  points := result.points
  error := result.error
  time := result.statistics.map fun s => roundTime s.time
  memory := result.statistics.map fun s => roundMemory s.memory
  wallTime := result.statistics.map fun s => roundTime s.wallTime
  exitCode := result.statistics.map fun s => s.exitCode

/-- What a generator returns from `JobCompleted`: its state afterwards, the submission given to
`statusUpdater.UpdateSubmission` if that was called, and the pair of submission and error. -/
structure Completed (G F : Type) where
  generator : G
  published : Option (Submission F)
  submission : Except String (Option (Submission F))

/-! ## Outcomes

What a grade may depend on: the part of a result that `buildTestResult` reads. -/

/-- The content of an `InvokerJobResult`, without the job and the status of the invoker. -/
structure Outcome (F : Type) where
  verdict : Verdict
  points : Option F := none
  error : String := ""
  statistics : Option JobResultStatistics := none
  deriving DecidableEq, Repr

/-- One outcome for the compile job and one for each test. -/
structure Outcomes (F : Type) where
  compile : Outcome F
  test : Nat → Outcome F

section Outcomes

variable {F : Type}

def InvokerJobResult.outcome (result : InvokerJobResult F) : Outcome F where
  verdict := result.verdict
  points := result.points
  error := result.error
  statistics := result.statistics

@[simp] theorem InvokerJobResult.outcome_verdict (result : InvokerJobResult F) :
    result.outcome.verdict = result.verdict := rfl

/-- The test result that an outcome of test `test` is stored as. -/
def Outcome.testResult (test : Nat) (outcome : Outcome F) : TestResult F where
  testNumber := test
  verdict := outcome.verdict
  points := outcome.points
  error := outcome.error
  time := outcome.statistics.map fun s => roundTime s.time
  memory := outcome.statistics.map fun s => roundMemory s.memory
  wallTime := outcome.statistics.map fun s => roundTime s.wallTime
  exitCode := outcome.statistics.map fun s => s.exitCode

theorem buildTestResult_eq (job : Job) (result : InvokerJobResult F) :
    buildTestResult job result = result.outcome.testResult job.test := rfl

@[simp] theorem Outcome.testResult_testNumber (test : Nat) (outcome : Outcome F) :
    (outcome.testResult test).testNumber = test := rfl

@[simp] theorem Outcome.testResult_verdict (test : Nat) (outcome : Outcome F) :
    (outcome.testResult test).verdict = outcome.verdict := rfl

@[simp] theorem Outcome.testResult_points (test : Nat) (outcome : Outcome F) :
    (outcome.testResult test).points = outcome.points := rfl

/-- The assignment with another outcome for one test. -/
def Outcomes.setTest (outs : Outcomes F) (test : Nat) (outcome : Outcome F) : Outcomes F :=
  { outs with test := Function.update outs.test test outcome }

@[simp] theorem Outcomes.setTest_self (outs : Outcomes F) (test : Nat) (outcome : Outcome F) :
    (outs.setTest test outcome).test test = outcome := by
  simp [setTest]

theorem Outcomes.setTest_ne (outs : Outcomes F) {test other : Nat} (outcome : Outcome F)
    (h : other ≠ test) : (outs.setTest test outcome).test other = outs.test other := by
  simp [setTest, h]

/-! ### The compile job

Both generators treat the outcome of the compile job alike. -/

/-- The verdict of a submission after the compile job: `RU` while it can still change. -/
def compileVerdict (verdict : Verdict) : Verdict :=
  match verdict with
  | .CD => .RU
  | .CE => .CE
  | _ => .CF

/-- The outcome that `compileJobCompleted` stores. -/
def storedCompileOutcome (outcome : Outcome F) : Outcome F :=
  match outcome.verdict with
  | .CD | .CE | .CF => outcome
  | _ => { outcome with verdict := .CF, error := "unknown verdict for compile job: CF" }

/-- The submission with the result of the compile job. -/
def compiledSubmission (outcome : Outcome F) (sub : Submission F) : Submission F :=
  { sub with
    verdict := compileVerdict outcome.verdict
    compilationResult := some ((storedCompileOutcome outcome).testResult 0) }

end Outcomes

end TestingSystem
