import TestingSystem.Master.JobGenerators.GeneratorRuns
import TestingSystem.Master.MasterInvariant

/-!
# Late and repeated results

Any result may arrive at any time and any number of times. `HandleInvokerJobResult` accepts one only
under an ID that is recorded for an invoker, so `Queue.JobCompleted` is called once for each job, with
the ID that the job has at that time, and no call meets an unknown job or an absent submission.
-/

set_option autoImplicit false

namespace TestingSystem.MasterRun

variable {F : Type} [Add F] [Min F] [Zero F] [One F] {s : MasterRun F}

/-- The panics for unknown jobs and absent submissions; a nil dereference is that of the ICPC generator
for a job that it has not given. -/
def unknownPanics : List Panic :=
  [.completedUnknownJob, .rescheduledUnknownJob, .nilDereference, .updateAbsentSubmission,
    .finishAbsentSubmission]

theorem Panics.known {p : Panic} (h : Panics p) : p ∉ unknownPanics := by
  rcases h with rfl | rfl | rfl | rfl <;> decide

/-- The job of an accepted result was given by a generator that still waits for it, and it was not
completed before. -/
theorem Inv.awaited (h : s.Inv) {k : Nat} {result : InvokerJobResult F}
    (hresult : s.accepted[k]? = some result) :
    ∃ orig, s.queue.HasID orig result.job.id ∧ s.jobOf result.job.id = orig ∧
      orig ∉ s.completed ∧ ∃ gid g job, s.queue.generators.get? gid = some g ∧
        g.givenJobs.get? orig = some job := by
  obtain ⟨orig, -, hid⟩ := (h.accepted hresult).1
  obtain ⟨gid, hgid⟩ := hid.1
  obtain ⟨g, hg, job, hjob⟩ := (h.custody.accounted.given orig gid).1 hgid
  refine ⟨orig, hid, h.jobOf hid, fun hmem => ?_, gid, g, job, hg, hjob⟩
  exact (h.submissions.completed.2 orig hmem).1 hid.1

/-- `JobCompleted` is called at most once for a job, under the ID that the job has then; no submission is
returned twice, and no step panics because of an unknown job or an absent submission. -/
theorem completes_each_job_once (hr : machine.Reachable Machine.always s) :
    (s.completed.Nodup ∧ s.returned.Nodup) ∧
      (∀ (k : Nat) (result : InvokerJobResult F), s.accepted[k]? = some result →
        ∃ orig, s.queue.HasID orig result.job.id ∧ s.jobOf result.job.id = orig ∧
          orig ∉ s.completed ∧ ∃ gid g job, s.queue.generators.get? gid = some g ∧
            g.givenJobs.get? orig = some job) ∧
      ∀ a p, s.enabled a → s.exec a = .error p → p ∉ unknownPanics := by
  have h := inv hr
  have hs := h.submissions
  refine ⟨⟨hs.completed.1, hs.returned.1⟩, fun k result hresult => h.awaited hresult, ?_⟩
  intro a p hen hex
  have hp : Panics p := (h.step hen).failure hex
  exact hp.known

/-- A status of an invoker that takes one job. -/
def oneJob : Status := { maxNewJobs := 1, activeJobIDs := [], epoch := 1, address := "" }

/-- The result of the compilation arrives three times and is taken once. -/
theorem completes_each_job_once_repeated :
    ∃ s : MasterRun Int, machine.Reachable Machine.always s ∧ s.completed = [2] ∧ s.returned = [1] ∧
      s.handled.length = 2 ∧ s.completed.Nodup ∧ s.returned.Nodup := by
  have hr := Machine.Reachable.of_runs (machine (F := Int)) Machine.always
    [.submit GeneratorRun.twoTests GeneratorRun.newSubmission 0, .upsertInvoker oneJob id,
      .takeNextJob, .trySendJob 1,
      .handleInvokerJobResult (GeneratorRun.resultOf 2 .CE none),
      .handleInvokerJobResult (GeneratorRun.resultOf 2 .CE none),
      .upsertAfterResult 1 id, .jobCompleted 0 1,
      .handleInvokerJobResult (GeneratorRun.resultOf 2 .CE none)]
    (.of_init rfl)
    ⟨trivial, List.not_mem_nil, _, rfl, trivial, fun ids => .refl ids, _, rfl, trivial, trivial, _, rfl,
      trivial, List.mem_cons_self, _, rfl, trivial, trivial, _, rfl, trivial, trivial, _, rfl,
      trivial, ⟨⟨_, rfl⟩, fun ids => .refl ids⟩, _, rfl, trivial, ⟨_, rfl⟩, _, rfl,
      trivial, trivial, _, rfl, rfl⟩
  obtain ⟨⟨hcompleted, hreturned⟩, -⟩ := completes_each_job_once hr
  exact ⟨_, hr, rfl, rfl, rfl, hcompleted, hreturned⟩

end TestingSystem.MasterRun
