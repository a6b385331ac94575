import TestingSystem.Lib.Machine
import TestingSystem.Master.Registry.Custody

/-!
# The master

The queue, the registry and its `Invoker` objects, with all goroutines and handlers of the master that
use them. Invokers are the environment: any status and any result may arrive at any time and any number
of times, and any request may fail.

A step is a section under a mutex. `SendJobs` and the section of `OnInvokerFailure` are loops under the
mutex of the registry; here every turn of such a loop is a step of its own, so the machine has the runs
of the source and those in which other sections come between two turns (`sendJobs_turns`,
`onInvokerFailure_turns`).
-/

set_option autoImplicit false

namespace TestingSystem

/-- A running `completeSendJob`, with the ID under which `TrySendJob` recorded the job and the ID in the
`NewJob` request, once the request is built. -/
structure PendingSend where
  invoker : InvokerRef
  job : JobRef
  recorded : JobID
  request : Option JobID
  deriving DecidableEq, Repr

/-- `Master`: the registry with the queue, and the goroutines and handlers: `sends`; results after the
section of `HandleInvokerJobResult` and before its deferred `UpsertInvoker`, with what it returns
(`handled`); accepted results before `Queue.JobCompleted`; and the running `finishSubmissionTesting`.

The other fields are a history: the submissions of `Submit`; for a job that `NextJob` created, the
queue before and after the call; the invoker that `TrySendJob` gave an ID to; the `NewJob` requests; the
IDs that `RescheduleJob` was called for; the jobs that `JobCompleted` was called for; and the
submissions that it returned. -/
structure MasterRun (F : Type) where
  registry : InvokerRegistry F
  sends : List PendingSend
  handled : List (InvokerJobResult F × Bool)
  accepted : List (InvokerJobResult F)
  finishing : List SubmissionID
  submitted : List SubmissionID
  created : GoMap JobRef (Queue F × Queue F)
  sent : GoMap JobID InvokerRef
  requests : List PendingSend
  rescheduled : List JobID
  completed : List JobRef
  returned : List SubmissionID

inductive MasterStep (F : Type) where
  | submit (problem : Problem F) (submission : Submission F) (epoch : Epoch)
  -- turns of `SendJobs`
  | takeNextJob
  | trySendJob (ref : InvokerRef)
  -- the two parts of `completeSendJob`
  | buildRequest (send : PendingSend)
  | completeSendJob (send : PendingSend) (response : Option Status) (order : RangeOrder)
  -- sections of an invoker
  | ping (ref : InvokerRef) (response : Option Status) (order : RangeOrder)
  | ensureJobIsNotLost (ref : InvokerRef) (id : JobID)
  | markFailed (ref : InvokerRef)
  | upsertInvoker (status : Status) (order : RangeOrder)
  -- `OnInvokerFailure`: `ExtractJobs`, the turns of its loop and its end
  | extractJobs (ref : InvokerRef) (order : RangeOrder)
  | rescheduleJob (ref : InvokerRef)
  | removeInvoker (ref : InvokerRef)
  -- the handler of a result
  | handleInvokerJobResult (result : InvokerJobResult F)
  | upsertAfterResult (k : Nat) (order : RangeOrder)
  | jobCompleted (k : Nat) (epoch : Epoch)
  | finishSubmissionTesting (id : SubmissionID)

namespace MasterRun

variable {F : Type}

/-- `SetupMaster`. -/
def new : MasterRun F :=
  { registry := .new, sends := [], handled := [], accepted := [], finishing := [], submitted := []
    created := .empty, sent := .empty, requests := [], rescheduled := [], completed := []
    returned := [] }

/-- The queue. -/
abbrev queue (s : MasterRun F) : Queue F := s.registry.queue

/-- The jobs whose results were accepted and are not completed yet. -/
def pending (s : MasterRun F) : List JobID :=
  (s.handled.filter Prod.snd).map (fun e => e.1.job.id) ++ s.accepted.map fun result => result.job.id

/-- A section of an invoker. -/
def onInvoker (s : MasterRun F) (ref : InvokerRef) (update : Invoker → Except Panic Invoker) :
    Except Panic (MasterRun F) :=
  match s.registry.objects.get? ref with
  | none => .ok s
  | some invoker => do
    let invoker ← update invoker
    return { s with registry := s.registry.setInvoker ref invoker }

/-- `Queue.Submit`. A submission that is refused leaves the queue as it is. -/
def submit (s : MasterRun F) (problem : Problem F) (submission : Submission F) (epoch : Epoch) :
    Except Panic (MasterRun F) := do
  let result ← s.queue.submit s.registry.fresh problem submission epoch
  let registry := { s.registry with fresh := s.registry.fresh + 1 }
  match result with
  | .error _ => return { s with registry := registry }
  | .ok queue =>
    return { s with
      registry := { registry with queue := queue }
      submitted := submission.id :: s.submitted }

/-- The history of the jobs that `NextJob` created. -/
def createdAfter (s : MasterRun F) (r : InvokerRegistry F) :
    GoMap JobRef (Queue F × Queue F) :=
  match s.registry.nextJob, s.queue.newFailedJobs, r.nextJob with
  | none, [], some job => s.created.set job (s.queue, r.queue)
  | _, _, _ => s.created

/-- A turn of the loop of `OnInvokerFailure`. -/
def rescheduleJob (s : MasterRun F) (ref : InvokerRef) : Except Panic (MasterRun F) :=
  match s.registry.objects.get? ref with
  | none => .ok s
  | some invoker =>
    match invoker.failure with
    | .extracted (id :: jobs) => do
      let registry ← InvokerRegistry.rescheduleJobs [id] s.registry
      return { s with
        registry := registry.setInvoker ref { invoker with failure := .extracted jobs }
        rescheduled :=
          match s.registry.invokerByJobID.get? id with
          | none => s.rescheduled
          | some _ => id :: s.rescheduled }
    | _ => .ok s

/-- The end of `OnInvokerFailure`. -/
def removeInvoker (s : MasterRun F) (ref : InvokerRef) : Except Panic (MasterRun F) := do
  let registry ← s.registry.onInvokerFailure ref []
  onInvoker { s with registry := registry } ref fun invoker =>
    .ok { invoker with failure := .finished }

/-- The deferred `UpsertInvoker` of `HandleInvokerJobResult`. -/
def upsertAfterResult (s : MasterRun F) (k : Nat) (order : RangeOrder) :
    Except Panic (MasterRun F) :=
  match s.handled[k]? with
  | none => .ok s
  | some (result, tested) => do
    let registry ← s.registry.upsertInvoker result.invokerStatus order
    return { s with
      registry := registry
      handled := s.handled.eraseIdx k
      accepted := if tested then result :: s.accepted else s.accepted }

/-- The job that an ID stands for. -/
def jobOf (s : MasterRun F) (id : JobID) : JobRef := (s.queue.jobIDToOriginalJobID.get? id).getD id

/-- An order visits each key once, a section of `OnInvokerFailure` follows `ExtractJobs`, and the
database gives a submission a new ID. -/
def enabled (s : MasterRun F) : MasterStep F → Prop
  | .submit _ submission _ => submission.id ∉ s.submitted
  | .takeNextJob | .markFailed _ | .handleInvokerJobResult _ => True
  | .trySendJob ref => ref ∈ s.registry.invokers
  | .buildRequest send => send ∈ s.sends ∧ send.request = none
  | .completeSendJob send _ order =>
      send ∈ s.sends ∧ send.request ≠ none ∧ ∀ ids, (order ids).Perm ids
  | .ping _ _ order | .upsertInvoker _ order => ∀ ids, (order ids).Perm ids
  | .ensureJobIsNotLost ref id => ∃ i, s.registry.objects.get? ref = some i ∧ id ∈ i.timers
  | .extractJobs ref order =>
      (∃ i, s.registry.objects.get? ref = some i ∧ i.failure = .started) ∧
        ∀ ids, (order ids).Perm ids
  | .rescheduleJob ref => ∃ i id jobs, s.registry.objects.get? ref = some i ∧
      i.failure = .extracted (id :: jobs)
  | .removeInvoker ref => ∃ i, s.registry.objects.get? ref = some i ∧ i.failure = .extracted []
  | .upsertAfterResult k order =>
      (∃ entry, s.handled[k]? = some entry) ∧ ∀ ids, (order ids).Perm ids
  | .jobCompleted k _ => ∃ result, s.accepted[k]? = some result
  | .finishSubmissionTesting id => id ∈ s.finishing

variable [Add F] [Min F] [Zero F] [One F]

omit [Add F] [Min F] [One F] in
/-- A turn of the inner loop of `SendJobs` for the job that it has. -/
def trySendJob (s : MasterRun F) (ref : InvokerRef) : Except Panic (MasterRun F) :=
  match s.registry.nextJob with
  | none => .ok s
  | some job => do
    let object ← deref (s.queue.jobs.get? job)
    let (sent, registry) ← s.registry.sendNextJob ref job
    if sent then
      return { s with
        registry := registry
        sends := ⟨ref, job, object.id, none⟩ :: s.sends
        sent := s.sent.set object.id ref }
    else return { s with registry := registry }

/-- `Queue.JobCompleted`, and the start of `finishSubmissionTesting` for a submission that it
returns. -/
def jobCompleted (s : MasterRun F) (k : Nat) (epoch : Epoch) : Except Panic (MasterRun F) :=
  match s.accepted[k]? with
  | none => .ok s
  | some result => do
    let (queue, submission) ← s.queue.jobCompleted result epoch
    let s := { s with
      registry := { s.registry with queue := queue }
      accepted := s.accepted.eraseIdx k
      completed := s.jobOf result.job.id :: s.completed }
    match submission with
    | .ok (some submission) =>
      return { s with
        finishing := submission.id :: s.finishing
        returned := submission.id :: s.returned }
    | .ok none | .error _ => return s

def exec (s : MasterRun F) : MasterStep F → Except Panic (MasterRun F)
  | .submit problem submission epoch => s.submit problem submission epoch
  | .takeNextJob => do
    let registry ← s.registry.takeNextJob
    return { s with registry := registry, created := s.createdAfter registry }
  | .trySendJob ref => s.trySendJob ref
  | .buildRequest send => do
    let object ← deref (s.queue.jobs.get? send.job)
    let built := { send with request := some object.id }
    return { s with sends := built :: s.sends.erase send, requests := built :: s.requests }
  | .completeSendJob send response order => do
    let object ← deref (s.queue.jobs.get? send.job)
    onInvoker { s with sends := s.sends.erase send } send.invoker fun invoker => do
      let invoker ← invoker.completeSendJob object.id response order
      return { invoker with sends := invoker.sends.erase send.job }
  | .ping ref response order => s.onInvoker ref fun invoker => invoker.ping response order
  | .ensureJobIsNotLost ref id => s.onInvoker ref fun invoker =>
    .ok { invoker.ensureJobIsNotLost id with timers := invoker.timers.erase id }
  -- the error of a `ResetCache` or `StopJob` request
  | .markFailed ref => s.onInvoker ref fun invoker => .ok invoker.markFailed
  | .upsertInvoker status order => do
    let registry ← s.registry.upsertInvoker status order
    return { s with registry := registry }
  | .extractJobs ref order => s.onInvoker ref fun invoker =>
    let (jobs, invoker) := invoker.extractJobs order
    .ok { invoker with failure := .extracted jobs }
  | .rescheduleJob ref => s.rescheduleJob ref
  | .removeInvoker ref => s.removeInvoker ref
  | .handleInvokerJobResult result => do
    let (tested, registry) ← s.registry.handleInvokerJobResult result
    return { s with registry := registry, handled := (result, tested) :: s.handled }
  | .upsertAfterResult k order => s.upsertAfterResult k order
  | .jobCompleted k epoch => s.jobCompleted k epoch
  | .finishSubmissionTesting id => do
    let status ← s.queue.status.finishSubmissionTesting id
    return { s with
      registry := { s.registry with queue := { s.queue with status := status } }
      finishing := s.finishing.erase id }

/-- The runs of a new master. -/
def machine : Machine (MasterRun F) (MasterStep F) Panic where
  init s := s = new
  enabled := enabled
  exec := exec

end MasterRun

end TestingSystem
