import TestingSystem.Master.Master

/-!
# The mutex of the registry

`InvokerRegistry` calls the queue and the invokers while it holds its own mutex. Each of these calls
locks another mutex, so sections of the queue and of the invokers come between any two of them. A
`RegistrySection` says where the holder of the mutex is; a step of the holder is one such call, or the
writes to the fields of the registry that follow it. The steps of a section, one after the other, are
the section as a whole (`takeNextJob_calls`, `trySendJob_calls`, `rescheduleJob_calls`,
`upsertInvoker_calls`, `handleInvokerJobResult_calls`). `Status` and `invokersAction` only read.
-/

set_option autoImplicit false

namespace TestingSystem

/-- Where the holder of the mutex is: before the call for the first of `refs`, or after a call, with
what it returned. `handler` is the entry of the handler whose deferred `UpsertInvoker` runs. -/
inductive RegistrySection (F : Type) where
  | free
  | sendJobs (refs : List InvokerRef)
  | nextJob (job : Option JobRef) (refs : List InvokerRef)
  | recordJob (ref : InvokerRef) (refs : List InvokerRef)
  | onInvokerFailure (ref : InvokerRef)
  | rescheduled (ref : InvokerRef) (jobID : JobID)
  | upsertInvoker (status : Status) (handler : Option (InvokerJobResult F × Bool))
      (refs : List InvokerRef)
  | jobTested (result : InvokerJobResult F) (ref : InvokerRef)

/-- The master, with the holder of the mutex of the registry. -/
structure RegistryRun (F : Type) where
  run : MasterRun F
  mutex : RegistrySection F

/-- The calls that lock the mutex of the registry and write. -/
inductive RegistryCall (F : Type) where
  | sendJobs
  | onInvokerFailure (ref : InvokerRef)
  | upsertInvoker (status : Status)
  | upsertAfterResult (k : Nat)
  | handleInvokerJobResult (result : InvokerJobResult F)

/-- A section of the queue or of an invoker without the mutex of the registry, the start of a section
of the registry, or the next step of its holder. -/
inductive RegistryStep (F : Type) where
  | elsewhere (a : MasterStep F)
  | lock (call : RegistryCall F)
  | advance (order : RangeOrder)

/-- The steps of the master that do not lock the mutex of the registry. -/
def MasterStep.Elsewhere {F : Type} : MasterStep F → Prop
  | .submit _ _ _ | .buildRequest _ | .completeSendJob _ _ _ | .ping _ _ _ | .ensureJobIsNotLost _ _
  | .markFailed _ | .extractJobs _ _ | .jobCompleted _ _ | .finishSubmissionTesting _ => True
  | .takeNextJob | .trySendJob _ | .upsertInvoker _ _ | .rescheduleJob _ | .removeInvoker _
  | .handleInvokerJobResult _ | .upsertAfterResult _ _ => False

namespace InvokerRegistry

variable {F : Type}

/-- The end of `UpsertInvoker`, when no invoker took the status. -/
def addInvoker (r : InvokerRegistry F) (status : Status) : InvokerRegistry F :=
  { r.setInvoker r.fresh (.new status) with
    invokers := r.invokers ++ [r.fresh]
    fresh := r.fresh + 1 }

/-- A turn of the loop is the call for one invoker. -/
theorem updateInvokers_cons (status : Status) (order : RangeOrder) (ref : InvokerRef)
    (refs : List InvokerRef) (r : InvokerRegistry F) :
    updateInvokers status order (ref :: refs) r = (do
      let (updated, r) ← updateInvokers status order [ref] r
      if updated then return (true, r) else updateInvokers status order refs r) := by
  simp only [updateInvokers, bind_assoc]
  refine congrArg _ (funext fun invoker => congrArg _ (funext fun result => ?_))
  cases result.1 <;> rfl

theorem upsertInvoker_calls (r : InvokerRegistry F) (status : Status) (order : RangeOrder) :
    r.upsertInvoker status order = (do
      let (updated, r) ← updateInvokers status order r.invokers r
      if updated then return r else return r.addInvoker status) := rfl

/-- The deletions of `HandleInvokerJobResult` and `OnInvokerFailure`. -/
def deleteJob (r : InvokerRegistry F) (jobID : JobID) : InvokerRegistry F :=
  { r with
    invokerByJobID := r.invokerByJobID.delete jobID
    testingJobs := r.testingJobs.delete jobID }

end InvokerRegistry

namespace MasterRun

variable {F : Type}

/-- `SendJobs` calls `NextJob`. -/
def callNextJob (s : MasterRun F) : Except Panic (Option JobRef × MasterRun F) := do
  let (job, queue) ← s.queue.nextJob s.registry.fresh
  let registry := { s.registry with queue := queue, fresh := s.registry.fresh + 1 }
  return (job, { s with
    registry := registry
    created := s.createdAfter { registry with nextJob := job } })

/-- `SendJobs` keeps what `NextJob` returned. -/
def setNextJob (s : MasterRun F) (job : Option JobRef) : MasterRun F :=
  { s with registry := { s.registry with nextJob := job } }

/-- `SendJobs` calls `TrySendJob`, which starts `completeSendJob` when it succeeds. -/
def callTrySendJob (s : MasterRun F) (ref : InvokerRef) (job : JobRef) :
    Except Panic (Bool × MasterRun F) := do
  let object ← deref (s.queue.jobs.get? job)
  let invoker ← deref (s.registry.objects.get? ref)
  let (sent, invoker) := invoker.trySendJob job object.id
  let registry := s.registry.setInvoker ref invoker
  if sent then
    return (true, { s with
      registry := registry
      sends := ⟨ref, job, object.id, none⟩ :: s.sends
      sent := s.sent.set object.id ref })
  else return (false, { s with registry := registry })

/-- `SendJobs` records the job that was sent; its ID is read again. -/
def recordJob (s : MasterRun F) (ref : InvokerRef) : Except Panic (MasterRun F) := do
  let job ← deref s.registry.nextJob
  let object ← deref (s.queue.jobs.get? job)
  return { s with
    registry := { s.registry with
      invokerByJobID := s.registry.invokerByJobID.set object.id ref
      testingJobs := s.registry.testingJobs.set object.id job
      nextJob := none } }

/-- `OnInvokerFailure` takes the next job and calls `RescheduleJob` if it is recorded; the ID is
returned then. -/
def callRescheduleJob (s : MasterRun F) (ref : InvokerRef) (invoker : Invoker) (jobID : JobID)
    (jobs : List JobID) : Except Panic (Option JobID × MasterRun F) :=
  let registry := s.registry.setInvoker ref { invoker with failure := .extracted jobs }
  match s.registry.invokerByJobID.get? jobID with
  | none => .ok (none, { s with registry := registry })
  | some _ => do
    let (queue, _) ← s.queue.rescheduleJob jobID s.registry.fresh
    return (some jobID, { s with
      registry := { registry with queue := queue, fresh := s.registry.fresh + 1 }
      rescheduled := jobID :: s.rescheduled })

/-- `HandleInvokerJobResult` up to the call of `JobTested` on the invoker that it returns. -/
def takeResult (s : MasterRun F) (result : InvokerJobResult F) :
    Except Panic (Option InvokerRef × MasterRun F) :=
  let jobID := result.job.id
  match s.registry.invokerByJobID.get? jobID with
  | none => .ok (none, { s with handled := (result, false) :: s.handled })
  | some ref => do
    let r ← if stops result.verdict then
        InvokerRegistry.stopJobs jobID s.registry.testingJobs.entries s.registry
      else .ok s.registry
    return (some ref, { s with registry := r.deleteJob jobID })

/-- `HandleInvokerJobResult` calls `JobTested` and returns. -/
def callJobTested (s : MasterRun F) (result : InvokerJobResult F) (ref : InvokerRef) :
    Except Panic (MasterRun F) := do
  let invoker ← deref (s.registry.objects.get? ref)
  let (tested, invoker) ← invoker.jobTested result.job.id
  return { s with
    registry := s.registry.setInvoker ref invoker
    handled := (result, tested) :: s.handled }

/-- The handler goes on after its `UpsertInvoker`. -/
def afterUpsert (s : MasterRun F) : Option (InvokerJobResult F × Bool) → MasterRun F
  | none => s
  | some (result, tested) =>
    { s with accepted := if tested then result :: s.accepted else s.accepted }

/-! ## Whole sections -/

section Calls

variable [Add F] [Min F] [Zero F] [One F] {s : MasterRun F}

theorem takeNextJob_calls (hnext : s.registry.nextJob = none) :
    s.exec .takeNextJob = (do
      let (job, t) ← s.callNextJob
      return t.setNextJob job) := by
  unfold exec callNextJob InvokerRegistry.takeNextJob
  simp only [hnext]
  cases s.queue.nextJob s.registry.fresh <;> rfl

theorem trySendJob_calls {ref : InvokerRef} {job : JobRef} (hnext : s.registry.nextJob = some job) :
    s.exec (.trySendJob ref) = (do
      let (sent, t) ← s.callTrySendJob ref job
      if sent then t.recordJob ref else return t) := by
  unfold exec MasterRun.trySendJob callTrySendJob InvokerRegistry.sendNextJob recordJob
  simp only [hnext, queue]
  cases hobject : s.registry.queue.jobs.get? job with
  | none => rfl
  | some object =>
    cases s.registry.objects.get? ref with
    | none => rfl
    | some invoker =>
      simp only [deref_some, ok_bind]
      cases (invoker.trySendJob job object.id).1
      · rfl
      · simp only [if_true, pure_bind, InvokerRegistry.setInvoker, hnext, hobject, deref_some, ok_bind]

theorem rescheduleJob_calls {ref : InvokerRef} {invoker : Invoker} {jobID : JobID}
    {jobs : List JobID} (hi : s.registry.objects.get? ref = some invoker)
    (hf : invoker.failure = .extracted (jobID :: jobs)) :
    s.exec (.rescheduleJob ref) = (do
      let (called, t) ← s.callRescheduleJob ref invoker jobID jobs
      match called with
      | none => return t
      | some jobID => return { t with registry := t.registry.deleteJob jobID }) := by
  unfold exec MasterRun.rescheduleJob callRescheduleJob
  simp only [hi, hf, InvokerRegistry.rescheduleJobs]
  cases s.registry.invokerByJobID.get? jobID with
  | none => rfl
  | some recorded => cases s.queue.rescheduleJob jobID s.registry.fresh <;> rfl

theorem handleInvokerJobResult_calls (result : InvokerJobResult F) :
    s.exec (.handleInvokerJobResult result) = (do
      let (ref, t) ← s.takeResult result
      match ref with
      | none => return t
      | some ref => t.callJobTested result ref) := by
  unfold takeResult
  simp only [exec, InvokerRegistry.handleInvokerJobResult]
  cases s.registry.invokerByJobID.get? result.job.id with
  | none => rfl
  | some ref =>
    -- what follows the loop is the same, whether it runs or not
    have hrest : ∀ r : InvokerRegistry F,
        (do
          let invoker ← deref ((r.deleteJob result.job.id).objects.get? ref)
          let (tested, invoker) ← invoker.jobTested result.job.id
          return { s with
            registry := (r.deleteJob result.job.id).setInvoker ref invoker
            handled := (result, tested) :: s.handled }) =
        callJobTested { s with registry := r.deleteJob result.job.id } result ref := fun _ => rfl
    cases stops result.verdict with
    | false =>
      simp only [Bool.false_eq_true, if_false, ok_bind, pure_bind, bind_assoc]
      exact hrest s.registry
    | true =>
      simp only [if_true, bind_assoc, pure_bind]
      exact congrArg _ (funext hrest)

end Calls

end MasterRun

namespace RegistryRun

variable {F : Type}

/-- The mutex of the registry has one holder, and `elsewhere` needs none of it. -/
def enabled (s : RegistryRun F) : RegistryStep F → Prop
  | .elsewhere a => a.Elsewhere ∧ s.run.enabled a
  | .lock call => s.mutex = .free ∧ match call with
    | .onInvokerFailure ref => ∃ i jobs, s.run.registry.objects.get? ref = some i ∧
        i.failure = .extracted jobs
    | .upsertAfterResult k => ∃ entry, s.run.handled[k]? = some entry
    | .sendJobs | .upsertInvoker _ | .handleInvokerJobResult _ => True
  | .advance order => s.mutex ≠ .free ∧ ∀ ids, (order ids).Perm ids

/-- The start of a section. -/
def lock (s : RegistryRun F) : RegistryCall F → Except Panic (RegistryRun F)
  | .sendJobs => .ok { s with mutex := .sendJobs s.run.registry.invokers }
  | .onInvokerFailure ref => .ok { s with mutex := .onInvokerFailure ref }
  | .upsertInvoker status =>
    .ok { s with mutex := .upsertInvoker status none s.run.registry.invokers }
  | .upsertAfterResult k =>
    match s.run.handled[k]? with
    | none => .ok s
    | some entry =>
      .ok {
        run := { s.run with handled := s.run.handled.eraseIdx k }
        mutex := .upsertInvoker entry.1.invokerStatus (some entry) s.run.registry.invokers }
  | .handleInvokerJobResult result => do
    let (ref, run) ← s.run.takeResult result
    match ref with
    | none => return { run := run, mutex := .free }
    | some ref => return { run := run, mutex := .jobTested result ref }

/-- The next step of the section. -/
def advance (s : RegistryRun F) (order : RangeOrder) : Except Panic (RegistryRun F) :=
  match s.mutex with
  | .free => .ok s
  | .sendJobs [] => .ok { s with mutex := .free }
  | .sendJobs (ref :: refs) =>
    match s.run.registry.nextJob with
    | none => do
      let (job, run) ← s.run.callNextJob
      return { run := run, mutex := .nextJob job (ref :: refs) }
    | some job => do
      let (sent, run) ← s.run.callTrySendJob ref job
      if sent then return { run := run, mutex := .recordJob ref refs }
      else return { run := run, mutex := .sendJobs refs }
  | .nextJob none _ => .ok { run := s.run.setNextJob none, mutex := .free }
  | .nextJob (some job) refs =>
    .ok { run := s.run.setNextJob (some job), mutex := .sendJobs refs }
  | .recordJob ref refs => do
    let run ← s.run.recordJob ref
    return { run := run, mutex := .sendJobs (ref :: refs) }
  | .onInvokerFailure ref => do
    let invoker ← deref (s.run.registry.objects.get? ref)
    match invoker.failure with
    | .extracted (jobID :: jobs) => do
      let (called, run) ← s.run.callRescheduleJob ref invoker jobID jobs
      match called with
      | none => return { run := run, mutex := .onInvokerFailure ref }
      | some jobID => return { run := run, mutex := .rescheduled ref jobID }
    | .extracted [] => do
      let run ← s.run.removeInvoker ref
      return { run := run, mutex := .free }
    | .notStarted | .started | .finished => .ok s
  | .rescheduled ref jobID =>
    .ok {
      run := { s.run with registry := s.run.registry.deleteJob jobID }
      mutex := .onInvokerFailure ref }
  | .upsertInvoker status handler [] =>
    .ok {
      run := { s.run with registry := s.run.registry.addInvoker status }.afterUpsert handler
      mutex := .free }
  | .upsertInvoker status handler (ref :: refs) => do
    let (updated, registry) ←
      InvokerRegistry.updateInvokers status order [ref] s.run.registry
    if updated then
      return { run := { s.run with registry := registry }.afterUpsert handler, mutex := .free }
    else
      return {
        run := { s.run with registry := registry }
        mutex := .upsertInvoker status handler refs }
  | .jobTested result ref => do
    let run ← s.run.callJobTested result ref
    return { run := run, mutex := .free }

variable [Add F] [Min F] [Zero F] [One F]

def exec (s : RegistryRun F) : RegistryStep F → Except Panic (RegistryRun F)
  | .elsewhere a => do
    let run ← s.run.exec a
    return { s with run := run }
  | .lock call => s.lock call
  | .advance order => s.advance order

/-- The runs of a new master. -/
def machine : Machine (RegistryRun F) (RegistryStep F) Panic where
  init s := s = { run := .new, mutex := .free }
  enabled := enabled
  exec := exec

end RegistryRun

end TestingSystem
