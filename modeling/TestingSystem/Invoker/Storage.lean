import TestingSystem.Cache.CacheRuns
import TestingSystem.Common.Connectors
import TestingSystem.Common.Resource

/-!
# The storage of an invoker and the jobs that read it

`invoker/storage`, with the calls that `invoker/job.go` and the pipelines make. All jobs share one
`LRUSizeCache`; the epoch of the storage is part of its keys. A path is the list of its elements below
`CachePath`, and what the storage component answers to a download is an argument.
-/

set_option autoImplicit false

namespace TestingSystem

/-- `cacheKey`. -/
structure CacheKey where
  epoch : Nat
  resource : ResourceType
  problemID : Nat := 0
  submitID : Nat := 0
  testID : Nat := 0
  deriving DecidableEq, Repr

/-- The panics of the storage and of the cache below it. -/
inductive StoragePanic where
  | wrongUsage (resource : ResourceType) (vals : List Nat)
  | noBaseFolder (resource : ResourceType)
  | cache (panic : CachePanic)
  deriving DecidableEq, Repr

/-! ## Keys -/

/-- `problemIDKeyGen`. -/
def problemIDKeyGen (epoch : Nat) (resource : ResourceType) :
    List Nat → Except StoragePanic CacheKey
  | [problemID] => .ok { epoch := epoch, resource := resource, problemID := problemID }
  | vals => .error (.wrongUsage resource vals)

/-- `submitKeyGen`. -/
def submitKeyGen (epoch : Nat) (resource : ResourceType) : List Nat → Except StoragePanic CacheKey
  | [submitID] => .ok { epoch := epoch, resource := resource, submitID := submitID }
  | vals => .error (.wrongUsage resource vals)

/-- `testKeyGen`. -/
def testKeyGen (epoch : Nat) (resource : ResourceType) : List Nat → Except StoragePanic CacheKey
  | [problemID, testID] =>
    .ok { epoch := epoch, resource := resource, problemID := problemID, testID := testID }
  | vals => .error (.wrongUsage resource vals)

/-- The `CacheGetter`s of `InvokerStorage`. -/
inductive CacheGetter where
  | source
  | binary
  | checker
  | interactor
  | testInput
  | testAnswer
  deriving DecidableEq, Repr

/-- `keyGen`, as `newSourceCache` and its siblings set it. -/
def CacheGetter.keyGen : CacheGetter → Nat → List Nat → Except StoragePanic CacheKey
  | .source, epoch, vals => submitKeyGen epoch .sourceCode vals
  | .binary, epoch, vals => submitKeyGen epoch .compiledBinary vals
  | .checker, epoch, vals => problemIDKeyGen epoch .checker vals
  -- the interactor of a problem, with the key of a submission
  | .interactor, epoch, vals => submitKeyGen epoch .interactor vals
  | .testInput, epoch, vals => testKeyGen epoch .testInput vals
  | .testAnswer, epoch, vals => testKeyGen epoch .testAnswer vals

/-! ## Downloads -/

/-- An error of a download. -/
inductive StorageError where
  | storageFileNotFound
  | other (text : String)
  deriving DecidableEq, Repr

/-- `storageconn.FileResponse`. -/
structure FileResponse where
  error : Option StorageError
  filename : String
  size : UInt64
  deriving DecidableEq

/-- `setRequestBaseFolder`, below the folder of the epoch. -/
def requestBaseFolder (key : CacheKey) : Except StoragePanic (List String) :=
  let folder id := [key.epoch.repr, key.resource.toString, id]
  match key.resource with
  | .sourceCode | .compiledBinary | .compileOutput => .ok (folder key.submitID.repr)
  | .checker | .interactor => .ok (folder key.problemID.repr)
  | .testInput | .testAnswer => .ok (folder (key.problemID.repr ++ "-" ++ key.testID.repr))
  | .testOutput | .testStderr | .checkerOutput => .error (.noBaseFolder key.resource)

/-- `getFiles`, with the response to its request. -/
def getFiles (key : CacheKey) (response : FileResponse) :
    Except StoragePanic (Option (List String) × Option String × UInt64) := do
  let downloadFolder ← requestBaseFolder key
  match response.error with
  | some .storageFileNotFound => return (none, some "file not exists", 0)
  | some (.other text) => return (none, some text, 0)
  | none => return (some (downloadFolder ++ [response.filename]), none, response.size)

/-! ## Jobs -/

/-- A resource that a job asks for: the getter and its values. -/
abbrev Resource := CacheGetter × List Nat

/-- Where a job is: it takes its locks, its pipeline loads resources or waits in a `Get`, or it runs the
functions that it deferred. -/
inductive JobStage where
  | rejected
  | locking (rest : List Resource)
  | running (rest : List Resource)
  | loading (resource : Resource) (rest : List Resource) (group : WaitGroup)
  | finishing
  deriving DecidableEq, Repr

/-- `Job` of the invoker: what its use of the storage depends on. The last of `defers` comes first. -/
structure InvokerJob where
  type : JobType
  test : Nat
  submissionID : Nat
  problemID : Nat
  testsNumber : Nat
  storageEpoch : Nat
  defers : List Resource
  stage : JobStage
  deriving DecidableEq, Repr

namespace InvokerJob

/-- What `newCompileJob` and `newTestJob` lock, if they accept the job. -/
def newJob (job : InvokerJob) : Option (List Resource) :=
  match job.type with
  | .compileJob => some [(.source, [job.submissionID])]
  | .testJob =>
    if job.test ≤ 0 ∨ job.test > job.testsNumber then none
    else some
      [(.binary, [job.submissionID]), (.testInput, [job.problemID, job.test]),
        (.testAnswer, [job.problemID, job.test]), (.checker, [job.problemID])]
  | .other _ => none

/-- What `compilationProcessPipeline` and `testingProcessPipeline` load; an error or a verdict may end
a pipeline before. -/
def pipeline (job : InvokerJob) : List Resource :=
  match job.type with
  | .compileJob => [(.source, [job.submissionID])]
  | .testJob =>
    [(.binary, [job.submissionID]), (.testInput, [job.problemID, job.test]),
      (.checker, [job.problemID]), (.testAnswer, [job.problemID, job.test])]
  | .other _ => []

/-- The key of a resource; all calls of a job pass its `storageEpoch`. -/
def key (job : InvokerJob) (resource : Resource) : Except StoragePanic CacheKey :=
  resource.1.keyGen job.storageEpoch resource.2

end InvokerJob

/-! ## Runs -/

/-- A call that a job makes on the cache. -/
inductive UseKind where
  | lock
  | get
  | received (got : LRUSizeCache.Got (List String) String)
  | unlock
  deriving DecidableEq

/-- A use of the cache: the key of the call, and the getter call that the item was made for. -/
structure StorageUse where
  job : Nat
  kind : UseKind
  resource : Resource
  key : CacheKey
  call : Option Nat
  deriving DecidableEq

/-- `InvokerStorage`, its cache with the jobs as clients, and the jobs. `started` are the getter calls
whose download has started; `uses` is a history, latest first. -/
structure StorageRun where
  epoch : Nat
  run : CacheRun Nat CacheKey (List String) String
  jobs : GoMap Nat InvokerJob
  nextJob : Nat
  started : List Nat
  uses : List StorageUse

inductive StorageStep where
  | reset
  | initJob (type : JobType) (test submissionID problemID testsNumber : Nat)
  | lock (j : Nat)
  | start (j : Nat)
  | get (j : Nat)
  | wake (j : Nat)
  | finish (j : Nat)
  | unlock (j : Nat)
  | startDownload (call : Nat)
  | download (call : Nat) (response : FileResponse)

namespace StorageRun

/-- A section of the cache. -/
def cacheStep (s : StorageRun) (a : CacheStep Nat CacheKey (List String) String) :
    Except StoragePanic (CacheRun Nat CacheKey (List String) String) :=
  (s.run.exec a).mapError .cache

/-- `Reset`. -/
def reset (s : StorageRun) : StorageRun := { s with epoch := s.epoch + 1 }

/-- `initJob` reads the epoch with `GetEpoch`; the job gets what the database answers. -/
def initJob (s : StorageRun) (type : JobType) (test submissionID problemID testsNumber : Nat) :
    StorageRun :=
  let job : InvokerJob :=
    { type := type, test := test, submissionID := submissionID, problemID := problemID
      testsNumber := testsNumber, storageEpoch := s.epoch, defers := [], stage := .rejected }
  let stage := match job.newJob with
    | none => .rejected
    | some resources => .locking resources
  { s with jobs := s.jobs.set s.nextJob { job with stage := stage }, nextJob := s.nextJob + 1 }

/-- `CacheGetter.Lock` in `newCompileJob` or `newTestJob`, with the unlock that is deferred. -/
def lock (s : StorageRun) (j : Nat) (job : InvokerJob) (resource : Resource)
    (rest : List Resource) : Except StoragePanic StorageRun := do
  let key ← job.key resource
  let run ← s.cacheStep (.lock j key)
  return { s with
    run := run
    jobs := s.jobs.set j { job with defers := resource :: job.defers, stage := .locking rest }
    uses := ⟨j, .lock, resource, key, run.calls.latest.get? key⟩ :: s.uses }

/-- `CacheGetter.Get` in `loadResource`. It returns at once if the file is there. -/
def get (s : StorageRun) (j : Nat) (job : InvokerJob) (resource : Resource)
    (rest : List Resource) : Except StoragePanic StorageRun := do
  let key ← job.key resource
  let run ← s.cacheStep (.get key)
  let call := run.calls.latest.get? key
  match (s.run.cache.get key s.run.calls.next).2 with
  | .inl got =>
    return { s with
      run := run
      jobs := s.jobs.set j { job with stage := .running rest }
      uses := ⟨j, .received got, resource, key, call⟩ :: ⟨j, .get, resource, key, call⟩ :: s.uses }
  | .inr group =>
    return { s with
      run := run
      jobs := s.jobs.set j { job with stage := .loading resource rest group }
      uses := ⟨j, .get, resource, key, call⟩ :: s.uses }

/-- `CacheGetter.Get` after its wait. -/
def wake (s : StorageRun) (j : Nat) (job : InvokerJob) (resource : Resource)
    (rest : List Resource) (group : WaitGroup) : Except StoragePanic StorageRun := do
  let key ← job.key resource
  let (_, got) ← (s.run.cache.wake key).mapError StoragePanic.cache
  let run ← s.cacheStep (.wake key group)
  return { s with
    run := run
    jobs := s.jobs.set j { job with stage := .running rest }
    uses := ⟨j, .received got, resource, key, run.calls.latest.get? key⟩ :: s.uses }

/-- `CacheGetter.Unlock` in `deferFunc`. -/
def unlock (s : StorageRun) (j : Nat) (job : InvokerJob) (resource : Resource)
    (defers : List Resource) : Except StoragePanic StorageRun := do
  let key ← job.key resource
  let run ← s.cacheStep (.unlock j key)
  return { s with
    run := run
    jobs := s.jobs.set j { job with defers := defers }
    uses := ⟨j, .unlock, resource, key, s.run.calls.latest.get? key⟩ :: s.uses }

/-- `getFiles` returns, and `loadAbsentValue` stores the file. -/
def download (s : StorageRun) (call : Nat) (key : CacheKey) (response : FileResponse) :
    Except StoragePanic StorageRun := do
  let (value, err, size) ← getFiles key response
  let run ← s.cacheStep (.load call value err size)
  return { s with run := run }

/-- The stage of a job. -/
def stageOf (s : StorageRun) (j : Nat) : Option JobStage := (s.jobs.get? j).map InvokerJob.stage

/-- The program of the jobs and of the getter calls. -/
def enabled (s : StorageRun) : StorageStep → Prop
  | .reset | .initJob .. => True
  | .lock j => ∃ resource rest, s.stageOf j = some (.locking (resource :: rest))
  | .start j => s.stageOf j = some (.locking [])
  | .get j => ∃ resource rest, s.stageOf j = some (.running (resource :: rest))
  | .wake j => ∃ resource rest group,
      s.stageOf j = some (.loading resource rest group) ∧ group ∈ s.run.done
  | .finish j => ∃ rest, s.stageOf j = some (.running rest)
  | .unlock j => ∃ job resource defers,
      s.jobs.get? j = some job ∧ job.stage = .finishing ∧ job.defers = resource :: defers
  | .startDownload call =>
      (∃ key, s.run.calls.running.get? call = some key) ∧ call ∉ s.started
  | .download call _ =>
      (∃ key, s.run.calls.running.get? call = some key) ∧ call ∈ s.started

/-- A step of a job at its stage. -/
def execJob (s : StorageRun) (j : Nat) (job : InvokerJob) : StorageStep →
    Except StoragePanic StorageRun
  | .lock _ =>
    match job.stage with
    | .locking (resource :: rest) => s.lock j job resource rest
    | _ => .ok s
  -- `SandboxThreads.add`, and a thread takes the job
  | .start _ => .ok { s with jobs := s.jobs.set j { job with stage := .running job.pipeline } }
  | .get _ =>
    match job.stage with
    | .running (resource :: rest) => s.get j job resource rest
    | _ => .ok s
  | .wake _ =>
    match job.stage with
    | .loading resource rest group => s.wake j job resource rest group
    | _ => .ok s
  | .finish _ => .ok { s with jobs := s.jobs.set j { job with stage := .finishing } }
  | .unlock _ =>
    match job.defers with
    | resource :: defers => s.unlock j job resource defers
    | [] => .ok s
  | _ => .ok s

def exec (s : StorageRun) (a : StorageStep) : Except StoragePanic StorageRun :=
  match a with
  | .reset => .ok s.reset
  | .initJob type test submissionID problemID testsNumber =>
    .ok (s.initJob type test submissionID problemID testsNumber)
  | .startDownload call => .ok { s with started := call :: s.started }
  | .download call response =>
    match s.run.calls.running.get? call with
    | none => .ok s
    | some key => s.download call key response
  | .lock j | .start j | .get j | .wake j | .finish j | .unlock j =>
    match s.jobs.get? j with
    | none => .ok s
    | some job => s.execJob j job a

/-- `NewInvokerStorage`. -/
def new (sizeBound : UInt64) : StorageRun :=
  { epoch := 0
    run := ⟨.new sizeBound true, .new, [], [], [], []⟩
    jobs := .empty
    nextJob := 0
    started := []
    uses := [] }

/-- The runs of a new storage. -/
def machine : Machine StorageRun StorageStep StoragePanic where
  init s := ∃ sizeBound, s = new sizeBound
  enabled := enabled
  exec := exec

end StorageRun

end TestingSystem
