import TestingSystem.Master.JobGenerators.Generator
import TestingSystem.Master.Queue.QueueStatus

/-!
# The queue of the master

`master/queue/queue.go`. Generators and jobs are objects behind pointers, and `RescheduleJob` changes
the ID of a job object that others hold: `generators` and `jobs` are the two heaps. A generator is
referred to by its ID, which never changes, and a job by the ID that it was created with, its original
one. The maps of the generators keep the jobs under their original IDs and never read the ID of an
object again. Metrics are left out.
-/

set_option autoImplicit false

namespace TestingSystem

/-- A pointer to a job object: the ID that the object was created with. -/
abbrev JobRef := JobID

/-- `Queue`, with the objects that it points to. -/
structure Queue (F : Type) where
  activeGenerators : List GeneratorID
  jobIDToOriginalJobID : GoMap JobID JobID
  newFailedJobs : List JobRef
  originalJobIDToJob : GoMap JobID JobRef
  originalJobIDToGenerator : GoMap JobID GeneratorID
  activeGeneratorIDs : GoMap GeneratorID Unit
  status : QueueStatus F
  generators : GoMap GeneratorID (Generator F)
  jobs : GoMap JobRef Job

namespace Queue

variable {F : Type}

/-- `NewQueue`. -/
def new : Queue F :=
  { activeGenerators := []
    jobIDToOriginalJobID := .empty
    newFailedJobs := []
    originalJobIDToJob := .empty
    originalJobIDToGenerator := .empty
    activeGeneratorIDs := .empty
    status := .new false
    generators := .empty
    jobs := .empty }

/-- `Submit`; `id` is the UUID of the new generator. -/
def submit (q : Queue F) (id : GeneratorID) (problem : Problem F) (submission : Submission F)
    (epoch : Epoch) : Except Panic (Except String (Queue F)) :=
  match Generator.new id problem submission with
  | .error err => .ok (.error err)
  | .ok generator => do
    let status ← q.status.addSubmission submission epoch
    return .ok { q with
      status := status
      activeGenerators := q.activeGenerators ++ [generator.id]
      activeGeneratorIDs := q.activeGeneratorIDs.set generator.id ()
      generators := q.generators.set generator.id generator }

/-- The generator is put back at the end of the active ones, unless it is there. -/
def activate (q : Queue F) (generator : GeneratorID) : Queue F :=
  match q.activeGeneratorIDs.get? generator with
  | some _ => q
  | none =>
    { q with
      activeGenerators := q.activeGenerators ++ [generator]
      activeGeneratorIDs := q.activeGeneratorIDs.set generator () }

section Completion

variable [Add F] [Min F] [Zero F] [One F]

/-- The call of the generator in `JobCompleted`, with the update of the status that it makes. -/
def completeJob (q : Queue F) (generator : GeneratorID) (jobResult : InvokerJobResult F)
    (epoch : Epoch) : Except Panic (Queue F × Except String (Option (Submission F))) := do
  let g ← deref (q.generators.get? generator)
  let c ← g.jobCompleted jobResult
  let status ← q.status.publish c.published epoch
  return ({ q with generators := q.generators.set generator c.generator, status := status },
    c.submission)

/-- `JobCompleted`. -/
def jobCompleted (q : Queue F) (jobResult : InvokerJobResult F) (epoch : Epoch) :
    Except Panic (Queue F × Except String (Option (Submission F))) :=
  let wasID := jobResult.job.id
  let (q, id) := match q.jobIDToOriginalJobID.get? wasID with
    | some origID => ({ q with jobIDToOriginalJobID := q.jobIDToOriginalJobID.delete wasID }, origID)
    | none => (q, wasID)
  match q.originalJobIDToGenerator.get? id with
  | none =>
    if wasID ≠ id then .error .completedUnknownJob
    else .ok (q, .error s!"no job with id={id} (origID={wasID})")
  | some generator =>
    let q := { q with
      originalJobIDToJob := q.originalJobIDToJob.delete id
      originalJobIDToGenerator := q.originalJobIDToGenerator.delete id }
    (q.activate generator).completeJob generator
      { jobResult with job := { jobResult.job with id := id } } epoch

end Completion

/-- The end of `RescheduleJob`: the object gets the new ID. -/
def requeue (q : Queue F) (origID : JobID) (origJob : JobRef) (newID : JobID) :
    Except Panic (Queue F × Except String Unit) := do
  let job ← deref (q.jobs.get? origJob)
  return ({ q with
    jobs := q.jobs.set origJob { job with id := newID }
    jobIDToOriginalJobID := q.jobIDToOriginalJobID.set newID origID
    newFailedJobs := q.newFailedJobs ++ [origJob] }, .ok ())

/-- `RescheduleJob`; `newID` is the new UUID. -/
def rescheduleJob (q : Queue F) (jobID newID : JobID) :
    Except Panic (Queue F × Except String Unit) :=
  match q.jobIDToOriginalJobID.get? jobID with
  | some origID =>
    let q := { q with jobIDToOriginalJobID := q.jobIDToOriginalJobID.delete jobID }
    match q.originalJobIDToJob.get? origID with
    | none => .error .rescheduledUnknownJob
    | some origJob => q.requeue origID origJob newID
  | none =>
    match q.originalJobIDToJob.get? jobID with
    | none => .ok (q, .error s!"no job with id={jobID} (origID={jobID})")
    | some origJob => q.requeue jobID origJob newID

section Selection

variable [Zero F]

/-- The loop of `NextJob`, with the number of attempts left. `id` is the UUID that a generator draws;
one that gives no job drops it. -/
def nextJobLoop (id : JobID) : Nat → Queue F → Except Panic (Option JobRef × Queue F)
  | 0, q => .ok (none, q)
  | attempts + 1, q =>
    match q.activeGenerators with
    | [] => .error .nilDereference
    | generator :: rest => do
      let g ← deref (q.generators.get? generator)
      let (job, g) ← g.nextJob id
      let q := { q with generators := q.generators.set generator g }
      match job with
      | none =>
        nextJobLoop id attempts { q with
          activeGenerators := rest
          activeGeneratorIDs := q.activeGeneratorIDs.delete generator }
      | some job =>
        return (some job.id, { q with
          activeGenerators := rest ++ [generator]
          originalJobIDToGenerator := q.originalJobIDToGenerator.set job.id generator
          originalJobIDToJob := q.originalJobIDToJob.set job.id job.id
          jobs := q.jobs.set job.id job })

/-- `NextJob`. -/
def nextJob (q : Queue F) (id : JobID) : Except Panic (Option JobRef × Queue F) :=
  match q.newFailedJobs with
  | job :: rest => .ok (some job, { q with newFailedJobs := rest })
  | [] => nextJobLoop id q.activeGenerators.length q

end Selection

end Queue

end TestingSystem
