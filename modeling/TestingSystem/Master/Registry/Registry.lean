import TestingSystem.Master.Registry.Invoker

/-!
# The registry of the invokers

`master/registry/registry.go`. The registry points to the queue and to the `Invoker` objects, which
are in the heap `objects`. Every definition is one section under the mutex of the registry;
`OnInvokerFailure` has a section of the invoker before its own. `fresh` is the next unused token: UUIDs
and pointers are only compared, so new ones are drawn from a counter. Fields of the registry that
only serve requests of clients are left out.
-/

set_option autoImplicit false

namespace TestingSystem

/-- A pointer to an `Invoker`. -/
abbrev InvokerRef := Nat

/-- `InvokerRegistry`, with the objects that it points to. -/
structure InvokerRegistry (F : Type) where
  queue : Queue F
  invokers : List InvokerRef
  invokerByJobID : GoMap JobID InvokerRef
  testingJobs : GoMap JobID JobRef
  nextJob : Option JobRef
  objects : GoMap InvokerRef Invoker
  fresh : Nat

namespace InvokerRegistry

variable {F : Type}

/-- `NewInvokerRegistry`, with a new queue. -/
def new : InvokerRegistry F :=
  { queue := .new
    invokers := []
    invokerByJobID := .empty
    testingJobs := .empty
    nextJob := none
    objects := .empty
    fresh := 0 }

/-- A section of an invoker. -/
def setInvoker (r : InvokerRegistry F) (ref : InvokerRef) (invoker : Invoker) : InvokerRegistry F :=
  { r with objects := r.objects.set ref invoker }

/-- The loop of the section of `OnInvokerFailure`. -/
def rescheduleJobs : List JobID → InvokerRegistry F → Except Panic (InvokerRegistry F)
  | [], r => .ok r
  | jobID :: jobs, r =>
    match r.invokerByJobID.get? jobID with
    | none => rescheduleJobs jobs r
    | some _ => do
      let (queue, _) ← r.queue.rescheduleJob jobID r.fresh
      rescheduleJobs jobs { r with
        queue := queue
        fresh := r.fresh + 1
        invokerByJobID := r.invokerByJobID.delete jobID
        testingJobs := r.testingJobs.delete jobID }

/-- The section of `OnInvokerFailure` under the mutex of the registry. -/
def onInvokerFailure (r : InvokerRegistry F) (ref : InvokerRef) (jobsToReschedule : List JobID) :
    Except Panic (InvokerRegistry F) := do
  let r ← rescheduleJobs jobsToReschedule r
  return { r with invokers := r.invokers.filter fun i => i ≠ ref }

/-- The loop of `UpsertInvoker`: whether some invoker took the status. -/
def updateInvokers (status : Status) (order : RangeOrder) :
    List InvokerRef → InvokerRegistry F → Except Panic (Bool × InvokerRegistry F)
  | [], r => .ok (false, r)
  | ref :: refs, r => do
    let invoker ← deref (r.objects.get? ref)
    let (updated, invoker) ← invoker.verifyAndUpdateStatus status order
    let r := r.setInvoker ref invoker
    if updated then return (true, r) else updateInvokers status order refs r

/-- `UpsertInvoker`. -/
def upsertInvoker (r : InvokerRegistry F) (status : Status) (order : RangeOrder) :
    Except Panic (InvokerRegistry F) := do
  let (updated, r) ← updateInvokers status order r.invokers r
  if updated then return r
  else
    return { r.setInvoker r.fresh (.new status) with
      invokers := r.invokers ++ [r.fresh]
      fresh := r.fresh + 1 }

/-- The loop of `HandleInvokerJobResult` that stops the jobs that require `jobID`. -/
def stopJobs (jobID : JobID) : List (JobID × JobRef) → InvokerRegistry F →
    Except Panic (InvokerRegistry F)
  | [], r => .ok r
  | (runningJobID, runningJob) :: jobs, r => do
    let job ← deref (r.queue.jobs.get? runningJob)
    if jobID ∈ job.requiredJobIDs then
      match r.invokerByJobID.get? runningJobID with
      | none => .error .noInvokerForTestingJob
      | some ref => do
        let invoker ← deref (r.objects.get? ref)
        stopJobs jobID jobs (r.setInvoker ref (invoker.stopJob runningJobID))
    else stopJobs jobID jobs r

/-- The section of `HandleInvokerJobResult`; the deferred `UpsertInvoker` is a later one. -/
def handleInvokerJobResult (r : InvokerRegistry F) (result : InvokerJobResult F) :
    Except Panic (Bool × InvokerRegistry F) :=
  let jobID := result.job.id
  match r.invokerByJobID.get? jobID with
  | none => .ok (false, r)
  | some ref => do
    let r ← if stops result.verdict then stopJobs jobID r.testingJobs.entries r else .ok r
    let r := { r with
      invokerByJobID := r.invokerByJobID.delete jobID
      testingJobs := r.testingJobs.delete jobID }
    let invoker ← deref (r.objects.get? ref)
    let (tested, invoker) ← invoker.jobTested jobID
    return (tested, r.setInvoker ref invoker)

section Sending

variable [Zero F]

/-- `SendJobs` takes a job from the queue, if it has none. -/
def takeNextJob (r : InvokerRegistry F) : Except Panic (InvokerRegistry F) :=
  match r.nextJob with
  | some _ => .ok r
  | none => do
    let (job, queue) ← r.queue.nextJob r.fresh
    return { r with nextJob := job, queue := queue, fresh := r.fresh + 1 }

/-- `TrySendJob` for `nextJob`, with what `SendJobs` records when it succeeds. -/
def sendNextJob (r : InvokerRegistry F) (ref : InvokerRef) (job : JobRef) :
    Except Panic (Bool × InvokerRegistry F) := do
  let object ← deref (r.queue.jobs.get? job)
  let invoker ← deref (r.objects.get? ref)
  let (sent, invoker) := invoker.trySendJob job object.id
  let r := r.setInvoker ref invoker
  if sent then
    return (true, { r with
      invokerByJobID := r.invokerByJobID.set object.id ref
      testingJobs := r.testingJobs.set object.id job
      nextJob := none })
  else return (false, r)

/-- The inner loop of `SendJobs`: whether the next invoker is tried. Every turn but the last raises
the number of jobs in sending, so `sendTurns` is enough. -/
def sendToInvoker (ref : InvokerRef) : Nat → InvokerRegistry F →
    Except Panic (Bool × InvokerRegistry F)
  | 0, r => .ok (true, r)
  | turns + 1, r => do
    let r ← r.takeNextJob
    match r.nextJob with
    | none => return (false, r)
    | some job => do
      let (sent, r) ← r.sendNextJob ref job
      if sent then sendToInvoker ref turns r else return (true, r)

/-- A bound on the turns of the inner loop for an invoker. -/
def sendTurns (r : InvokerRegistry F) (ref : InvokerRef) : Nat :=
  match r.objects.get? ref with
  | none => 1
  | some invoker => (invoker.status.maxNewJobs - invoker.jobTypesCount.read .sendingJob).toNat + 1

/-- The outer loop of `SendJobs`. -/
def sendToInvokers : List InvokerRef → InvokerRegistry F → Except Panic (InvokerRegistry F)
  | [], r => .ok r
  | ref :: refs, r => do
    let (next, r) ← sendToInvoker ref (r.sendTurns ref) r
    if next then sendToInvokers refs r else return r

/-- `SendJobs`. -/
def sendJobs (r : InvokerRegistry F) : Except Panic (InvokerRegistry F) :=
  sendToInvokers r.invokers r

end Sending

end InvokerRegistry

end TestingSystem
