import TestingSystem.Lib.GoMap
import TestingSystem.Master.JobGenerators.StoppedJobs
import TestingSystem.Master.Queue.Queue

/-!
# The master's view of an invoker

`master/registry/invoker.go`: the `Invoker` object with the goroutines that hold it. Every
definition is one section under the mutex of the object; what the network answered is an argument,
as is the order in which Go visits the keys of a map. Metrics, the connection and the time of the
registration are left out.
-/

set_option autoImplicit false

namespace TestingSystem

/-- `registry.JobType`. -/
inductive HolderType where
  | sendingJob
  | testingJob
  | noReplyJob
  | unknownJob
  deriving DecidableEq, Repr

/-- `jobHolder`. -/
structure JobHolder where
  job : JobRef
  jobType : HolderType
  deriving DecidableEq, Repr

/-- The goroutine that runs `OnInvokerFailure`; `markFailed` starts it once. -/
inductive FailureStage where
  | notStarted
  | started
  | extracted (jobs : List JobID)
  | finished
  deriving DecidableEq, Repr

/-- The order of a range over a map. -/
abbrev RangeOrder := List JobID → List JobID

/-- `Invoker`, with its goroutines: the running `completeSendJob`, the timers of
`ensureJobIsNotLost`, the running `StopJob` requests and `OnInvokerFailure`. -/
structure Invoker where
  jobHolderByID : GoMap JobID JobHolder
  jobTypesCount : GoMap HolderType Int
  status : Status
  failed : Bool
  sends : List JobRef := []
  timers : List JobID := []
  stops : List JobID := []
  failure : FailureStage := .notStarted

namespace Invoker

/-- `newInvoker`. -/
def new (status : Status) : Invoker :=
  { jobHolderByID := .empty, jobTypesCount := .empty, status := status, failed := false }

/-- `address`. -/
def address (i : Invoker) : String := i.status.address

/-- `getJobType`. -/
def getJobType (i : Invoker) (jobID : JobID) : HolderType :=
  match i.jobHolderByID.get? jobID with
  | none => .unknownJob
  | some holder => holder.jobType

def countUp (i : Invoker) (jobType : HolderType) : Invoker :=
  { i with
    jobTypesCount := i.jobTypesCount.set jobType (i.jobTypesCount.read jobType + 1) }

def countDown (i : Invoker) (jobType : HolderType) : Invoker :=
  { i with
    jobTypesCount := i.jobTypesCount.set jobType (i.jobTypesCount.read jobType - 1) }

/-- `addJob`; `jobID` is the ID of the object now. -/
def addJob (i : Invoker) (job : JobRef) (jobID : JobID) (jobType : HolderType) : Invoker :=
  { i with jobHolderByID := i.jobHolderByID.set jobID { job := job, jobType := jobType } }.countUp
    jobType

/-- `setJobType`. -/
def setJobType (i : Invoker) (jobID : JobID) (jobType : HolderType) : Except Panic Invoker :=
  match i.jobHolderByID.get? jobID with
  | none => .error .typeOfUnsentJob
  | some holder =>
    let i := i.countDown holder.jobType
    .ok ({ i with
      jobHolderByID := i.jobHolderByID.set jobID { holder with jobType := jobType } }.countUp jobType)

/-- `removeJob`. -/
def removeJob (i : Invoker) (jobID : JobID) : Except Panic Invoker :=
  match i.jobHolderByID.get? jobID with
  | none => .error .removedUnsentJob
  | some holder =>
    let i := i.countDown holder.jobType
    .ok { i with jobHolderByID := i.jobHolderByID.delete jobID }

/-- `markFailed`. -/
def markFailed (i : Invoker) : Invoker :=
  if i.failed then i else { i with failed := true, failure := .started }

/-- `isJobTesting`. -/
def isJobTesting (jobID : JobID) (status : Status) : Bool := decide (jobID ∈ status.activeJobIDs)

/-- The loop of `updateStatus`. -/
def updateJobs (status : Status) : List JobID → Invoker → Except Panic Invoker
  | [], i => .ok i
  | jobID :: rest, i =>
    match i.getJobType jobID with
    | .sendingJob => updateJobs status rest i
    | .testingJob =>
      if isJobTesting jobID status then updateJobs status rest i
      else do
        let i ← i.setJobType jobID .noReplyJob
        updateJobs status rest { i with timers := i.timers ++ [jobID] }
    | .noReplyJob =>
      if isJobTesting jobID status then .ok i.markFailed else updateJobs status rest i
    | .unknownJob => .error .unknownJobHeld

/-- `updateStatus`. -/
def updateStatus (i : Invoker) (status : Status) (order : RangeOrder) : Except Panic Invoker :=
  if i.failed = true ∨ i.status.epoch ≥ status.epoch then .ok i
  else updateJobs status (order i.jobHolderByID.keys) { i with status := status }

/-- The section of `ping`; an error of the request is `none`. -/
def ping (i : Invoker) (response : Option Status) (order : RangeOrder) : Except Panic Invoker :=
  match response with
  | none => .ok i.markFailed
  | some status => i.updateStatus status order

/-- The section of `completeSendJob`; `jobID` is the ID of the object now. -/
def completeSendJob (i : Invoker) (jobID : JobID) (response : Option Status) (order : RangeOrder) :
    Except Panic Invoker :=
  match response with
  | none => .ok i.markFailed
  | some status =>
    match i.getJobType jobID with
    | .sendingJob => do
      let i ← i.setJobType jobID .testingJob
      i.updateStatus status order
    | .testingJob | .noReplyJob => .error .sendingJobChanged
    | .unknownJob => i.updateStatus status order

/-- `TrySendJob`; `jobID` is the ID of the object now. -/
def trySendJob (i : Invoker) (job : JobRef) (jobID : JobID) : Bool × Invoker :=
  if i.failed = true ∨ i.jobTypesCount.read .sendingJob + 1 > i.status.maxNewJobs then (false, i)
  else
    let i := i.addJob job jobID .sendingJob
    (true, { i with sends := i.sends ++ [job] })

/-- `ensureJobIsNotLost`. -/
def ensureJobIsNotLost (i : Invoker) (jobID : JobID) : Invoker :=
  if i.getJobType jobID = .noReplyJob then i.markFailed else i

/-- `ExtractJobs`. -/
def extractJobs (i : Invoker) (order : RangeOrder) : List JobID × Invoker :=
  (order i.jobHolderByID.keys,
    { i with jobHolderByID := .empty, jobTypesCount := .empty })

/-- `JobTested`. -/
def jobTested (i : Invoker) (jobID : JobID) : Except Panic (Bool × Invoker) :=
  if i.getJobType jobID = .unknownJob then .ok (false, i)
  else do
    let i ← i.removeJob jobID
    return (true, i)

/-- `VerifyAndUpdateStatus`. -/
def verifyAndUpdateStatus (i : Invoker) (status : Status) (order : RangeOrder) :
    Except Panic (Bool × Invoker) :=
  if i.address ≠ status.address then .ok (false, i)
  else do
    let i ← i.updateStatus status order
    return (!i.failed, i)

/-- `StopJob` starts the request. -/
def stopJob (i : Invoker) (jobID : JobID) : Invoker := { i with stops := i.stops ++ [jobID] }

end Invoker

end TestingSystem
