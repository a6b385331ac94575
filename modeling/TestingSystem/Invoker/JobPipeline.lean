import TestingSystem.Invoker.Isolate
import TestingSystem.Invoker.Storage
import TestingSystem.Lib.Fallible

/-!
# A job of the invoker

`invoker/job.go`, `invoker/handler.go` and the pipelines: `handleNewJob` locks the resources of a job
and gives it to the sandbox threads, where `fullCompilationPipeline` or `fullTestingPipeline` processes
it. What the rest of the system answers is a `JobEnv`. The log of a job has the locks, the deferred
functions and the calls of `finish` in their order.

What is uploaded, the limits of the runs and the metrics are left out, and so is what other jobs do.
-/

set_option autoImplicit false

namespace TestingSystem

/-- A function that a pipeline defers. -/
inductive Deferred where
  | metrics
  /-- `job.deferFunc`. -/
  | jobDefers
  | cleanup
  | closeFile (name : String)
  deriving DecidableEq, Repr

/-- What happens in the life of a job. -/
inductive InvokerJobEvent where
  | lock (getter : CacheGetter) (key : CacheKey)
  | unlock (getter : CacheGetter) (key : CacheKey)
  /-- The function is appended to the `defers` of the pipeline. -/
  | deferred (action : Deferred)
  /-- `finish` calls the function. -/
  | ran (action : Deferred)
  | finish
  | respErr (code : Nat) (text : String)
  | respOK
  deriving DecidableEq, Repr

/-- The panics in the life of a job. -/
inductive JobPanic where
  | storage (panic : StoragePanic)
  | unknownJobType (value : Int)
  | finishedTwice
  | notFinished
  deriving DecidableEq, Repr

/-- `models.Submission` as the invoker reads it. -/
structure SubmissionRow where
  id : Nat := 0
  problemID : Nat := 0
  language : String := ""
  deriving DecidableEq, Repr

/-- `models.Problem` as the invoker reads it. -/
structure ProblemRow where
  id : Nat := 0
  testsNumber : Nat := 0
  deriving DecidableEq, Repr

/-- An error of the database. -/
inductive DBError where
  | recordNotFound
  | other (text : String)
  deriving DecidableEq, Repr

/-- What `os.Stat` returns. -/
inductive StatAnswer where
  | exists
  | notExist
  | other
  deriving DecidableEq, Repr

/-- `CheckerResultXML`. -/
structure CheckerResultXML (F : Type) where
  outcome : String
  points : Option F
  deriving DecidableEq, Repr

/-- What the rest of the system answers to a job. An answer of type `Option String` is an error. A
job asks for each file, each run and each upload once. -/
structure JobEnv (F : Type) where
  bindJSON : Except String Job
  getEpoch : Nat
  findSubmission : Nat → Option DBError × SubmissionRow
  findProblem : Nat → Option DBError × ProblemRow
  /-- The sandbox threads are closed when the handler calls `add`. -/
  sandboxThreadsClosed : Bool
  /-- The runner threads are closed when the command is added. -/
  runnerThreadsClosed : String → Bool
  getStatus : Status
  initSandbox : Option String
  /-- `CacheGetter.Get` with the key of the call. -/
  get : CacheGetter → CacheKey → Except String (List String)
  openFile : List String → Option String
  createSandboxFile : String → Option String
  openSandboxFile : String → Option String
  hasLanguage : String → Bool
  generateScript : String → String → String → Option String
  writeScript : Option String
  /-- `Run` of the sandbox with this command. -/
  run : String → RunResult
  /-- The limit of the checker that a verdict is about, as a text. -/
  checkerLimit : Verdict → String
  statSandboxFile : String → StatAnswer
  decodeCheckerResult : Except String (CheckerResultXML F)
  upload : ResourceType → Option String

/-- `Job` of the package `invoker`. -/
structure PipelineJob where
  request : Job
  submission : SubmissionRow := {}
  problem : ProblemRow := {}
  storageEpoch : Nat := 0
  /-- The arguments of the deferred calls of `Unlock`. -/
  defers : List Resource := []
  log : List InvokerJobEvent := []
  deriving DecidableEq, Repr

/-! ## `invoker/job.go` -/

namespace PipelineJob

def record (job : PipelineJob) (event : InvokerJobEvent) : PipelineJob :=
  { job with log := job.log ++ [event] }

def key (job : PipelineJob) (resource : Resource) : Except JobPanic CacheKey :=
  (resource.1.keyGen job.storageEpoch resource.2).mapError .storage

/-- `CacheGetter.Lock`, and the deferred `Unlock`. -/
def lock (job : PipelineJob) (resource : Resource) : Except JobPanic PipelineJob := do
  let key ← job.key resource
  return { job.record (.lock resource.1 key) with defers := job.defers ++ [resource] }

/-- `CacheGetter.Unlock`. -/
def unlock (job : PipelineJob) (resource : Resource) : Except JobPanic PipelineJob := do
  let key ← job.key resource
  return job.record (.unlock resource.1 key)

/-- `deferFunc`. -/
def deferFunc (job : PipelineJob) : Except JobPanic PipelineJob := do
  let job ← job.defers.reverse.foldlM unlock job
  return { job with defers := [] }

/-- The answer to `DB.Find`; the handler goes on with the row if no record is found. -/
def found {Row : Type} (job : PipelineJob) (name : String) (id : Nat) :
    Option DBError × Row → Option Row × PipelineJob
  | (none, row) => (some row, job)
  | (some .recordNotFound, row) =>
    (some row, job.record (.respErr 400 (name ++ " " ++ id.repr ++ " not found")))
  | (some (.other _), _) => (none, job.record (.respErr 500 "DB Error"))

variable {F : Type}

/-- `initJob`. -/
def initJob (env : JobEnv F) (job : PipelineJob) : Bool × PipelineJob :=
  let job := { job with storageEpoch := env.getEpoch }
  let submitID := job.request.submitID
  match job.found "Submission" submitID (env.findSubmission submitID) with
  | (none, job) => (false, job)
  | (some submission, job) =>
    let job := { job with submission := submission }
    match job.found "Problem" submission.problemID (env.findProblem submission.problemID) with
    | (none, job) => (false, job)
    | (some problem, job) => (true, { job with problem := problem })

/-- `SandboxThreads.add`, with the answer to an error. -/
def add (env : JobEnv F) (job : PipelineJob) : Bool × PipelineJob :=
  if env.sandboxThreadsClosed then (false, job.record (.respErr 500 "server error")) else (true, job)

/-- `newCompileJob`. -/
def newCompileJob (env : JobEnv F) (job : PipelineJob) : Except JobPanic (Bool × PipelineJob) := do
  let job ← job.lock (.source, [job.submission.id])
  return job.add env

/-- The answer to a test number out of range. -/
def testOutOfRange (job : PipelineJob) : String :=
  job.request.test.repr ++ " test required, tests in problem " ++ job.problem.id.repr ++
    " are numbered from 1 to " ++ job.problem.testsNumber.repr

/-- `newTestJob`. -/
def newTestJob (env : JobEnv F) (job : PipelineJob) : Except JobPanic (Bool × PipelineJob) :=
  if job.request.test ≤ 0 ∨ job.request.test > job.problem.testsNumber then
    return (false, job.record (.respErr 400 job.testOutOfRange))
  else do
    let job ← job.lock (.binary, [job.submission.id])
    let job ← job.lock (.testInput, [job.problem.id, job.request.test])
    let job ← job.lock (.testAnswer, [job.problem.id, job.request.test])
    let job ← job.lock (.checker, [job.problem.id])
    return job.add env

/-- The cases of `handleNewJob`. -/
def newJob (env : JobEnv F) (job : PipelineJob) : Except JobPanic (Bool × PipelineJob) :=
  match job.request.type with
  | .compileJob => job.newCompileJob env
  | .testJob => job.newTestJob env
  | .other value =>
    return (false, job.record (.respErr 400 ("Can not parse job type " ++ (JobType.other value).string)))

end PipelineJob

/-- How `handleNewJob` ends: the job that the sandbox threads have accepted, if any, and the log. -/
structure Handled where
  accepted : Option PipelineJob
  log : List InvokerJobEvent
  deriving DecidableEq, Repr

variable {F : Type}

/-- `handleNewJob`. -/
def handleNewJob (env : JobEnv F) : Except JobPanic Handled :=
  match env.bindJSON with
  | .error e => return ⟨none, [.respErr 400 ("Can not parse invoker job, error: " ++ e)]⟩
  | .ok request =>
    match PipelineJob.initJob env { request := request } with
    | (false, job) => return ⟨none, job.log⟩
    | (true, job) => do
      match ← job.newJob env with
      | (false, job) => return ⟨none, job.log⟩
      | (true, job) =>
        let job := job.record .respOK
        return ⟨some job, job.log⟩

/-! ## `invoker/pipeline.go` -/

/-- `JobPipelineState`, with the data of both pipelines. `points` are those of `test.runResult`, `sent`
the results for the master. -/
structure JobPipelineState (F : Type) where
  job : PipelineJob
  sourceName : String := ""
  compileResult : RunResult := {}
  runResult : RunResult := {}
  points : Option F := none
  checkResult : RunResult := {}
  hasResources : Bool := false
  defers : List Deferred := []
  finished : Bool := false
  sent : List (InvokerJobResult F) := []
  deriving DecidableEq, Repr

/-- The steps of a pipeline; they return errors as texts. -/
abbrev PipelineM (F : Type) := Fallible String (JobPipelineState F) JobPanic

namespace JobPipelineState

/-- `s.defers = append(s.defers, action)`. -/
def defer (s : JobPipelineState F) (action : Deferred) : JobPipelineState F :=
  { s with job := s.job.record (.deferred action), defers := s.defers ++ [action] }

/-- `newPipelineState`. -/
def new (job : PipelineJob) : JobPipelineState F :=
  ({ job := job : JobPipelineState F }.defer .metrics).defer .jobDefers

/-- The call of a deferred function. -/
def runDeferred (s : JobPipelineState F) (action : Deferred) :
    Except JobPanic (JobPipelineState F) := do
  let s := { s with job := s.job.record (.ran action) }
  match action with
  | .jobDefers =>
    let job ← s.job.deferFunc
    return { s with job := job }
  | .metrics | .cleanup | .closeFile _ => return s

/-- `finish`. -/
def finish (s : JobPipelineState F) : Except JobPanic (JobPipelineState F) :=
  if s.finished then .error .finishedTwice
  else do
    let s := { s with job := s.job.record .finish, defers := s.defers.reverse }
    let s ← s.defers.foldlM runDeferred s
    return { s with finished := true }

/-- `checkFinish`. -/
def checkFinish (s : JobPipelineState F) : Except JobPanic (JobPipelineState F) :=
  if s.finished then .ok s else .error .notFinished

/-- `uploadJobResult`. -/
def uploadJobResult (s : JobPipelineState F) (result : InvokerJobResult F) : JobPipelineState F :=
  { s with sent := s.sent ++ [result] }

/-- `failJob` with the error of a step. -/
def failJob (env : JobEnv F) (err : String) (s : JobPipelineState F) :
    Except JobPanic (JobPipelineState F) := do
  let s ← s.finish
  return s.uploadJobResult
    { job := s.job.request
      verdict := .CF
      error := "job " ++ s.job.request.id.repr ++ " error: " ++ err
      invokerStatus := env.getStatus }

/-- `successJob`. -/
def successJob (env : JobEnv F) (runResult : RunResult) (points : Option F)
    (s : JobPipelineState F) : Except JobPanic (JobPipelineState F) := do
  let s ← s.finish
  return s.uploadJobResult
    { job := s.job.request
      verdict := runResult.verdict
      points := points
      statistics := some runResult.statistics
      invokerStatus := env.getStatus }

/-- `steps`, then `failJob` if they return an error and `next` otherwise. -/
def orFail (env : JobEnv F) (steps : PipelineM F Unit)
    (next : JobPipelineState F → Except JobPanic (JobPipelineState F)) (s : JobPipelineState F) :
    Except JobPanic (JobPipelineState F) := do
  match ← steps.exec s with
  | (.error err, s) => s.failJob env err
  | (.ok _, s) => next s

end JobPipelineState

namespace PipelineM

variable (env : JobEnv F)

/-- `fmt.Errorf(text + "%v", err)`. -/
def errorf {α : Type} (text : String) (m : PipelineM F α) : PipelineM F α := m.wrapping (text ++ ·)

/-- `initSandbox`. -/
def initSandbox : PipelineM F Unit := do
  errorf "can not initialize sandbox, error: " (.check env.initSandbox)
  modify (·.defer .cleanup)

/-- `runProcess` with a function that runs the command. -/
def runProcess (command : String) : PipelineM F RunResult :=
  if env.runnerThreadsClosed command then throw "process execution threads are stopped"
  else return env.run command

/-! ## `invoker/pipeline_files.go` -/

def solutionBinaryFile : String := "solution"
def compileScriptFile : String := "compile.sh"
def compilationMessageFile : String := "compile_message.txt"
def testInputFile : String := "input.txt"
def testOutputFile : String := "output.txt"
def testErrorFile : String := "stderr.txt"
def testAnswerFile : String := "answer.txt"
def checkerBinaryFile : String := "check"
def checkResultFile : String := "check_result.xml"

/-- `loadResource`. -/
def loadResource (resource : Resource) : PipelineM F (List String) := do
  let s ← get
  match s.job.key resource with
  | .error p => .panic p
  | .ok key =>
    match env.get resource.1 key with
    | .error err => throw err
    | .ok path => return path

/-- `copyFileToSandbox`; an error of the copying itself is dropped. -/
def copyFileToSandbox (src : List String) (dst : String) : PipelineM F Unit := do
  .check (env.openFile src)
  .check (env.createSandboxFile dst)

/-- What `loadSolutionBinary` and its siblings have in common. -/
def loadFile (name : String) (resource : Resource) (dst : String) : PipelineM F Unit := do
  let path ← errorf ("can not get " ++ name ++ ", error: ") (loadResource env resource)
  errorf ("can not copy " ++ name ++ " to sandbox, error: ") (copyFileToSandbox env path dst)

/-- `loadSolutionBinary`. -/
def loadSolutionBinary : PipelineM F Unit := do
  let s ← get
  loadFile env "solution binary" (.binary, [s.job.submission.id]) solutionBinaryFile

/-- `loadTestInput`. -/
def loadTestInput : PipelineM F Unit := do
  let s ← get
  loadFile env "test input" (.testInput, [s.job.problem.id, s.job.request.test]) testInputFile

/-- `loadCheckerBinaryFile`. -/
def loadCheckerBinaryFile : PipelineM F Unit := do
  let s ← get
  loadFile env "checker binary" (.checker, [s.job.problem.id]) checkerBinaryFile

/-- `loadTestAnswerFile`. -/
def loadTestAnswerFile : PipelineM F Unit := do
  let s ← get
  loadFile env "test answer" (.testAnswer, [s.job.problem.id, s.job.request.test]) testAnswerFile

/-- `loadSolutionSourceFile`. -/
def loadSolutionSourceFile : PipelineM F Unit := do
  let s ← get
  let source ← errorf "can not get submission source, error: "
    (loadResource env (.source, [s.job.submission.id]))
  let sourceName := "source_" ++ source.getLastD "."
  modify fun s => { s with sourceName := sourceName }
  errorf "can not copy submission source to sandbox, error: "
    (copyFileToSandbox env source sourceName)

/-- `openSandboxFile`. -/
def openSandboxFile (fileName : String) : PipelineM F Unit := do
  .check (env.openSandboxFile fileName)
  modify (·.defer (.closeFile fileName))

/-- `uploadBinary`. -/
def uploadBinary : PipelineM F Unit := do
  errorf "can not open solution binary file, error: " (openSandboxFile env solutionBinaryFile)
  errorf "can not send solution binary file to storage, error: "
    (.check (env.upload .compiledBinary))

/-- `uploadOutput`. -/
def uploadOutput (fileName : String) (resourceType : ResourceType) : PipelineM F Unit := do
  errorf ("can not open " ++ resourceType.toString ++ " file, error: ") (openSandboxFile env fileName)
  errorf ("can not upload " ++ resourceType.toString ++ " file to storage, error: ")
    (.check (env.upload resourceType))

/-! ## `invoker/compile_pipeline.go` -/

/-- `setupCompileScript`. -/
def setupCompileScript : PipelineM F Unit := do
  let s ← get
  let language := s.job.submission.language
  if !env.hasLanguage language then
    throw ("submission language " ++ language ++ " does not exist")
  else do
    errorf "can not generate compile script, error: "
      (.check (env.generateScript language s.sourceName solutionBinaryFile))
    errorf "can not write compile script to sandbox, error: " (.check env.writeScript)

/-- `executeCompilationCommand`. -/
def executeCompilationCommand : PipelineM F Unit := do
  let result ← errorf "can not execute compile command, error: " (runProcess env compileScriptFile)
  modify fun s => { s with compileResult := result }
  errorf "error while running compilation in sandbox, error: " (.check result.err)

/-- `openCompilationMessage`. -/
def openCompilationMessage : PipelineM F Unit :=
  errorf "can not open compilation message file, error: " (openSandboxFile env compilationMessageFile)

def setCompileVerdict (verdict : Verdict) : PipelineM F Unit :=
  modify fun s => { s with compileResult := { s.compileResult with verdict := verdict } }

/-- The text of a verdict. -/
def verdictText : Verdict → String
  | .OK => "OK" | .PT => "PT" | .WA => "WA" | .WR => "WR" | .RT => "RT" | .ML => "ML" | .TL => "TL"
  | .WL => "WL" | .SE => "SE" | .CE => "CE" | .CD => "CD" | .CF => "CF" | .SK => "SK" | .RU => "RU"
  | .other text => text

/-- `processCompilationResult`. -/
def processCompilationResult : PipelineM F Unit := do
  let s ← get
  match s.compileResult.verdict with
  | .OK => do
    setCompileVerdict .CD
    openCompilationMessage env
  | .RT => do
    setCompileVerdict .CE
    openCompilationMessage env
  | .TL | .ML | .WL | .SE => setCompileVerdict .CE
  | verdict => throw ("unknown sandbox verdict: " ++ verdictText verdict)

/-- `compilationProcessPipeline`. -/
def compilationProcessPipeline : PipelineM F Unit := do
  initSandbox env
  loadSolutionSourceFile env
  setupCompileScript env
  executeCompilationCommand env
  processCompilationResult env

/-- `uploadCompileResult`. -/
def uploadCompileResult : PipelineM F Unit :=
  errorf "can not upload compile output to storage, error: " (.check (env.upload .compileOutput))

/-- `uploadCompilationResources`. -/
def uploadCompilationResources : PipelineM F Unit := do
  uploadCompileResult env
  let s ← get
  if s.compileResult.verdict ≠ .CD then return () else uploadBinary env

/-! ## `invoker/check_pipeline.go` -/

/-- `executeCheckerRunCommand`. -/
def executeCheckerRunCommand : PipelineM F Unit := do
  let result ← errorf "can not execute checker command, error: " (runProcess env checkerBinaryFile)
  modify fun s => { s with checkResult := result }
  errorf "error while running checker in sandbox, error: " (.check result.err)
  match result.verdict with
  | .OK | .RT | .SK => return ()
  | .TL => throw ("checker running took more than " ++ env.checkerLimit .TL ++ " time")
  | .ML => throw ("checker running took more than " ++ env.checkerLimit .ML ++ " memory")
  | .WL => throw ("checker running took more than " ++ env.checkerLimit .WL ++ " wall time")
  | .SE => throw "checker security violation"
  | verdict => throw ("unknown checker sandbox run verdict: " ++ verdictText verdict)

def setRunVerdict (verdict : Verdict) : PipelineM F Unit :=
  modify fun s => { s with runResult := { s.runResult with verdict := verdict } }

/-- `parseTestlibCheckerResult`. The reader is closed at its end and not deferred. -/
def parseTestlibCheckerResult : PipelineM F Unit := do
  let s ← get
  let exited := "checker exited with exit code " ++ toString s.checkResult.statistics.exitCode
  if (env.openSandboxFile checkResultFile).isSome then
    throw (exited ++ ", can not parse checker result xml file in appes mode")
  else
    match env.decodeCheckerResult with
    | .error err => throw ("can not parse checker result xml file in appes mode: " ++ err)
    | .ok result =>
      match result.outcome with
      | "accepted" => setRunVerdict .OK
      | "wrong-answer" | "presentation-error" | "unexpected-eof" => setRunVerdict .WA
      | "fail" => setRunVerdict .CF
      | "points" | "relative-scoring" =>
        match result.points with
        | none => throw (exited ++ " and verdict " ++ result.outcome ++ ", but no points specified")
        | some points => do
          setRunVerdict .PT
          modify fun s => { s with points := some points }
      | outcome => throw ("unknown checker verdict " ++ outcome ++ ", " ++ exited)

/-- `parseCheckerResult`. -/
def parseCheckerResult : PipelineM F Unit := do
  let s ← get
  if s.checkResult.verdict = .SK then setRunVerdict .SK
  else
    match env.statSandboxFile checkResultFile with
    | .exists => parseTestlibCheckerResult env
    | .notExist => throw "no checker result file found, non testlib checkers are not supported"
    | .other => throw "can not stat checker result file"

/-- `fullCheckPipeline`. -/
def fullCheckPipeline : PipelineM F Unit := do
  loadCheckerBinaryFile env
  loadTestAnswerFile env
  executeCheckerRunCommand env
  parseCheckerResult env

/-- `uploadCheckerOutput`. -/
def uploadCheckerOutput : PipelineM F Unit :=
  errorf "can not upload checker output to storage, error: " (.check (env.upload .checkerOutput))

/-- `uploadTestRunResources`. -/
def uploadTestRunResources : PipelineM F Unit := do
  uploadOutput env testOutputFile .testOutput
  uploadOutput env testErrorFile .testStderr
  uploadCheckerOutput env

/-! ## `invoker/test_run_pipeline.go` -/

/-- `executeTestRunCommand`. -/
def executeTestRunCommand : PipelineM F Unit := do
  let result ← errorf "can not execute sulution command, error: " (runProcess env solutionBinaryFile)
  modify fun s => { s with runResult := result }
  errorf "error while running solution in sandbox, error: " (.check result.err)

/-- `testingProcessPipeline`. -/
def testingProcessPipeline : PipelineM F Unit := do
  initSandbox env
  loadSolutionBinary env
  loadTestInput env
  executeTestRunCommand env
  let s ← get
  if s.runResult.verdict ≠ .OK then modify fun s => { s with hasResources := false }
  else do
    modify fun s => { s with hasResources := true }
    fullCheckPipeline env

end PipelineM

/-! ## Whole jobs -/

open JobPipelineState PipelineM in
/-- `fullCompilationPipeline`. -/
def fullCompilationPipeline (env : JobEnv F) (job : PipelineJob) :
    Except JobPanic (JobPipelineState F) := do
  let s ← orFail env (compilationProcessPipeline env)
    (orFail env (uploadCompilationResources env) fun s => s.successJob env s.compileResult none)
    (new job)
  s.checkFinish

open JobPipelineState PipelineM in
/-- `fullTestingPipeline`. -/
def fullTestingPipeline (env : JobEnv F) (job : PipelineJob) :
    Except JobPanic (JobPipelineState F) := do
  let success (s : JobPipelineState F) := s.successJob env s.runResult s.points
  let s ← orFail env (testingProcessPipeline env)
    (fun s =>
      if s.hasResources ∧ s.runResult.verdict ≠ .SK then
        orFail env (uploadTestRunResources env) success s
      else success s)
    (new job)
  s.checkFinish

/-- What a sandbox thread does with a job. -/
def processJob (env : JobEnv F) (job : PipelineJob) : Except JobPanic (JobPipelineState F) :=
  match job.request.type with
  | .compileJob => fullCompilationPipeline env job
  | .testJob => fullTestingPipeline env job
  | .other value => .error (.unknownJobType value)

/-- The life of a job: the log, and whether the sandbox threads have processed it. -/
structure JobLife where
  ran : Bool
  log : List InvokerJobEvent
  deriving DecidableEq, Repr

/-- A request from `handleNewJob` to the end of the job. -/
def jobLife (env : JobEnv F) : Except JobPanic JobLife := do
  let handled ← handleNewJob env
  match handled.accepted with
  | none => return ⟨false, handled.log⟩
  | some job =>
    let s ← processJob env job
    return ⟨true, s.job.log⟩

end TestingSystem
