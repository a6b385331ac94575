import TestingSystem.Lib.Machine
import TestingSystem.Master.JobGenerators.GeneratorRuns
import TestingSystem.Master.Queue.HandedOut

/-!
# Runs of the queue

`Submit`, `NextJob`, `JobCompleted` and `RescheduleJob` in any order, with any problems, submissions
and results. A run remembers the UUIDs that were drawn, the jobs that are out, and what the calls
returned. If only jobs that are out are completed and rescheduled, testing never stalls, and the
queue is empty in the end.
-/

set_option autoImplicit false

namespace TestingSystem

/-- A call of the queue, with the UUIDs that it draws. -/
inductive QueueCall (F : Type) where
  | submit (id : GeneratorID) (problem : Problem F) (submission : Submission F) (epoch : Epoch)
  | nextJob (id : JobID)
  | jobCompleted (result : InvokerJobResult F) (epoch : Epoch)
  | rescheduleJob (jobID newID : JobID)

/-- The queue and the history of its calls: the UUIDs drawn for jobs, the IDs of the jobs that
`NextJob` returned and that were neither completed nor rescheduled since, the IDs that `JobCompleted`
accepted, the IDs that `RescheduleJob` accepted with the new ones, and the submissions that were
accepted and returned. -/
structure QueueRun (F : Type) where
  queue : Queue F
  issued : List JobID
  out : List JobID
  completed : List JobID
  rescheduled : List (JobID × JobID)
  submitted : List SubmissionID
  returned : List SubmissionID

namespace QueueRun

variable {F : Type}

/-- The IDs that are out after `NextJob` returned a job. -/
def take (q : Queue F) (out : List JobID) : Option JobRef → List JobID
  | none => out
  | some ref =>
    match q.jobs.get? ref with
    | none => out
    | some job => job.id :: out

/-- Every UUID is new. -/
def enabled (r : QueueRun F) : QueueCall F → Prop
  | .submit id _ _ _ => r.queue.generators.get? id = none
  | .nextJob id => id ∉ r.issued
  | .jobCompleted _ _ => True
  | .rescheduleJob _ newID => newID ∉ r.issued

variable [Add F] [Min F] [Zero F] [One F]

def exec (r : QueueRun F) : QueueCall F → Except Panic (QueueRun F)
  | .submit id problem submission epoch => do
    let result ← r.queue.submit id problem submission epoch
    match result with
    | .error _ => return r
    | .ok q => return { r with queue := q, submitted := submission.id :: r.submitted }
  | .nextJob id => do
    let (ref, q) ← r.queue.nextJob id
    return { r with queue := q, issued := id :: r.issued, out := take q r.out ref }
  | .jobCompleted result epoch => do
    let (q, submission) ← r.queue.jobCompleted result epoch
    match submission with
    | .error _ => return { r with queue := q }
    | .ok submission =>
      return { r with
        queue := q
        out := r.out.filter fun id => id ≠ result.job.id
        completed := result.job.id :: r.completed
        returned := match submission with
          | none => r.returned
          | some submission => submission.id :: r.returned }
  | .rescheduleJob jobID newID => do
    let (q, result) ← r.queue.rescheduleJob jobID newID
    match result with
    | .error _ => return { r with queue := q }
    | .ok () =>
      return { r with
        queue := q
        issued := newID :: r.issued
        out := r.out.filter fun id => id ≠ jobID
        rescheduled := (jobID, newID) :: r.rescheduled }

def machine : Machine (QueueRun F) (QueueCall F) Panic where
  init r := r = ⟨.new, [], [], [], [], [], []⟩
  enabled := enabled
  exec := exec

omit [Add F] [Min F] [Zero F] [One F] in
/-- Only jobs that are out are completed and rescheduled. -/
def Disciplined (r : QueueRun F) : QueueCall F → Prop
  | .jobCompleted result _ => result.job.id ∈ r.out
  | .rescheduleJob jobID _ => jobID ∈ r.out
  | _ => True

/-! ## The invariant -/

/-- The invariant of the disciplined runs. -/
structure Tracked (r : QueueRun F) : Prop where
  accounted : r.queue.Accounted
  fresh : ∀ id, id ∉ r.issued → r.queue.Fresh id
  out : ∀ id, id ∈ r.out ↔ r.queue.HandedOut id
  tested : ∀ s ∈ r.submitted, ∃ g finished, r.queue.progress g = some (s, finished)
  progress : ∀ g s finished, r.queue.progress g = some (s, finished) →
    s ∈ r.submitted ∧ (finished ↔ s ∈ r.returned)
  active : ∀ s, s ∈ r.submitted ∨ s ∈ r.returned → r.queue.status.Active s

variable {r r' : QueueRun F}

theorem Tracked.init : Tracked (⟨.new, [], [], [], [], [], []⟩ : QueueRun F) where
  accounted := Queue.accounted_new
  fresh _ _ := ⟨fun ⟨_, h⟩ => (nomatch h), rfl⟩
  out _ := ⟨fun h => (nomatch h), fun ⟨_, _, ⟨_, h⟩, _⟩ => (nomatch h)⟩
  tested _ h := nomatch h
  progress _ _ _ h := nomatch h
  active _ h := h.elim (fun h => (nomatch h)) fun h => (nomatch h)

theorem Tracked.submit (h : Tracked r) {id : GeneratorID} {problem : Problem F}
    {sub : Submission F} {epoch : Epoch} (hen : r.enabled (.submit id problem sub epoch))
    (he : r.exec (.submit id problem sub epoch) = .ok r') : Tracked r' := by
  obtain ⟨result, hcall, he⟩ := bind_eq_ok.1 he
  cases result with
  | error err =>
    cases he
    exact h
  | ok q =>
    cases he
    -- A submission in testing cannot be added again, so the ID is new.
    have hnew : ∀ id' g, r.queue.generators.get? id' = some g → g.submissionID ≠ sub.id := by
      rintro id' g hg heq
      have hs := (h.progress id' _ _ (Queue.progress_eq_some.2 ⟨g, hg, rfl, rfl⟩)).1
      exact (Queue.submit_new hcall) (heq ▸ h.active _ (.inl hs))
    have hs := h.accounted.toInvariant.submit hen hnew hcall
    obtain ⟨hacc, hout⟩ := h.accounted.submit hs
    obtain ⟨g, hgen, hsub, hfin⟩ := hs.generators
    have hprogress : ∀ a, q.progress a =
        if a = id then some (sub.id, g.Finished) else r.queue.progress a := by
      intro a
      rw [Queue.progress_set hgen, hsub]
    refine ⟨hacc, fun x hx => ?_, fun x => (h.out x).trans (hout x).symm, fun s hmem => ?_,
      fun a s fin hp => ?_, fun s hmem => ?_⟩
    · have hx := h.fresh x hx
      exact ⟨fun hl => hx.1 ((hs.live x).1 hl), hs.renamed ▸ hx.2⟩
    · rcases List.mem_cons.1 hmem with rfl | hold
      · exact ⟨id, _, (hprogress id).trans (if_pos rfl)⟩
      · obtain ⟨a, fin, hp⟩ := h.tested s hold
        refine ⟨a, fin, (hprogress a).trans ((if_neg ?_).trans hp)⟩
        rintro rfl
        rw [Queue.progress, hen] at hp
        cases hp
    · rw [hprogress] at hp
      split at hp
      · obtain ⟨rfl, rfl⟩ := Prod.mk.inj (Option.some.inj hp)
        refine ⟨List.mem_cons_self, iff_of_false hfin fun hret => ?_⟩
        exact hs.status.1 (h.active _ (.inr hret))
      · obtain ⟨h1, h2⟩ := h.progress a s fin hp
        exact ⟨List.mem_cons_of_mem _ h1, h2⟩
    · rw [hs.status.2]
      rcases hmem with hmem | hret
      · exact (List.mem_cons.1 hmem).imp_right fun hold => h.active s (.inl hold)
      · exact .inr (h.active s (.inr hret))

theorem Tracked.nextJob (h : Tracked r) {id : JobID} (hen : r.enabled (.nextJob id))
    (he : r.exec (.nextJob id) = .ok r') : Tracked r' := by
  obtain ⟨ref, q, hcall, ht⟩ := h.accounted.nextJob (h.fresh id hen)
  simp only [exec, hcall, ok_bind] at he
  cases he
  refine ⟨ht.accounted, fun x hx => ?_, fun x => ?_, fun s hs => ?_, fun g s fin hp => ?_,
    ht.status ▸ h.active⟩
  · rw [List.mem_cons, not_or] at hx
    exact ht.fresh x (h.fresh x hx.2) hx.1
  · cases ref with
    | none => exact (h.out x).trans ((ht.none rfl).2.2 x).symm
    | some ref =>
      obtain ⟨y, ⟨-, job, hjob, rfl⟩, -, hout⟩ := ht.some ref rfl
      simp only [take, hjob, List.mem_cons, hout, h.out, or_comm]
  · obtain ⟨g, fin, hp⟩ := h.tested s hs
    exact ⟨g, fin, (ht.progress g).trans hp⟩
  · rw [ht.progress] at hp
    exact h.progress g s fin hp

theorem Tracked.jobCompleted (h : Tracked r) {result : InvokerJobResult F} {epoch : Epoch}
    (hok : result.job.id ∈ r.out) (he : r.exec (.jobCompleted result epoch) = .ok r') :
    Tracked r' := by
  have hout := (h.out _).1 hok
  obtain ⟨orig, -, hid⟩ := id hout
  rcases h.accounted.toInvariant.jobCompleted hid epoch with
    ⟨gid, g, c, q, hcall, hs⟩ | ⟨p, hp, -⟩
  · obtain ⟨hacc, hhanded⟩ := h.accounted.settled hid hout hs
    obtain ⟨hgid, hg⟩ := hs.generator
    have hnot := (h.accounted.not_finished hgid hg).2
    have hold := h.progress gid _ _ (Queue.progress_eq_some.2 ⟨g, hg, rfl, rfl⟩)
    have hprogress : ∀ a, q.progress a =
        if a = gid then some (g.submissionID, c.generator.Finished) else r.queue.progress a := by
      intro a
      rw [Queue.progress_set hs.generators, hs.settled.submissionID_eq]
    have hother : ∀ a s fin, a ≠ gid → r.queue.progress a = some (s, fin) → s ≠ g.submissionID :=
      fun _ _ _ ha hp => h.accounted.toInvariant.other_submission hg ha hp
    have hreturned : ∃ submission, c.submission = .ok submission ∧
        ∀ s, s ∈ (match submission with
            | none => r.returned
            | some submission => submission.id :: r.returned) ↔
          s ∈ r.returned ∨ s = g.submissionID ∧ c.generator.Finished := by
      rcases hs.settled.submission with ⟨hsub, hfin⟩ | ⟨s, hsub, hsid, hfin⟩
      · exact ⟨none, hsub, fun s => by simp [hfin]⟩
      · exact ⟨some s, hsub, fun s' => by simp [hfin, hsid, or_comm]⟩
    obtain ⟨submission, hsub, hreturned⟩ := hreturned
    simp only [exec, hcall, ok_bind, hsub] at he
    cases he
    refine ⟨hacc, fun x hx => ?_, fun x => ?_, fun s hmem => ?_, fun a s fin hp => ?_,
      fun s hmem => ?_⟩
    · exact hs.fresh (h.fresh x hx)
    · rw [List.mem_filter, decide_eq_true_eq, h.out, hhanded]
    · obtain ⟨a, fin, hp⟩ := h.tested s hmem
      by_cases ha : a = gid
      · obtain ⟨g', hg', rfl, -⟩ := Queue.progress_eq_some.1 hp
        rw [ha, hg] at hg'
        obtain rfl := Option.some.inj hg'
        exact ⟨gid, c.generator.Finished, (hprogress gid).trans (if_pos rfl)⟩
      · exact ⟨a, fin, (hprogress a).trans ((if_neg ha).trans hp)⟩
    · rw [hprogress] at hp
      simp only [hreturned]
      split at hp
      · obtain ⟨rfl, rfl⟩ := Prod.mk.inj (Option.some.inj hp)
        refine ⟨hold.1, ?_⟩
        rw [or_iff_right (mt hold.2.2 hnot), and_iff_right rfl]
      · next ha =>
        have hne := hother a s fin ha hp
        obtain ⟨h1, h2⟩ := h.progress a s fin hp
        exact ⟨h1, h2.trans (by simp [hne])⟩
    · rw [hs.status]
      rcases hmem with hmem | hret
      · exact h.active s (.inl hmem)
      · rcases (hreturned s).1 hret with hret | ⟨rfl, -⟩
        · exact h.active s (.inr hret)
        · exact h.active _ (.inl hold.1)
  · simp only [exec, hp, error_bind] at he
    cases he

theorem Tracked.rescheduleJob (h : Tracked r) {jobID newID : JobID} (hok : jobID ∈ r.out)
    (hen : r.enabled (.rescheduleJob jobID newID))
    (he : r.exec (.rescheduleJob jobID newID) = .ok r') : Tracked r' := by
  have hout := (h.out _).1 hok
  obtain ⟨orig, -, hid⟩ := id hout
  have hf := h.fresh newID hen
  obtain ⟨q, hcall, hr⟩ := h.accounted.toInvariant.rescheduleJob hid hf
  obtain ⟨hacc, hhanded, -⟩ := h.accounted.rescheduled hid hout hf hr
  simp only [exec, hcall, ok_bind] at he
  cases he
  have hprogress : ∀ a, q.progress a = r.queue.progress a := by
    intro a
    rw [Queue.progress, hr.generators, Queue.progress]
  refine ⟨hacc, fun x hx => ?_, fun x => ?_, fun s hmem => ?_, fun a s fin hp => ?_,
    hr.status ▸ h.active⟩
  · rw [List.mem_cons, not_or] at hx
    exact hr.fresh (h.fresh x hx.2) hx.1
  · rw [List.mem_filter, decide_eq_true_eq, h.out, hhanded]
  · obtain ⟨a, fin, hp⟩ := h.tested s hmem
    exact ⟨a, fin, (hprogress a).trans hp⟩
  · rw [hprogress] at hp
    exact h.progress a s fin hp

theorem tracked (hr : machine.Reachable Disciplined r) : Tracked r := by
  refine hr.invariant ?_ ?_
  · rintro r rfl
    exact Tracked.init
  · rintro r call r' h hok hen he
    cases call with
    | submit id problem sub epoch => exact h.submit hen he
    | nextJob id => exact h.nextJob hen he
    | jobCompleted result epoch => exact h.jobCompleted hok he
    | rescheduleJob jobID newID => exact h.rescheduleJob hok hen he

/-! ## Testing never stalls -/

/-- All maps and lists of the queue are empty. -/
structure IsEmpty (q : Queue F) : Prop where
  activeGenerators : q.activeGenerators = []
  activeGeneratorIDs : q.activeGeneratorIDs.len = 0
  newFailedJobs : q.newFailedJobs = []
  jobIDToOriginalJobID : q.jobIDToOriginalJobID.len = 0
  originalJobIDToJob : q.originalJobIDToJob.len = 0
  originalJobIDToGenerator : q.originalJobIDToGenerator.len = 0

/-- When `NextJob` returns nil, every submission that was not returned has a job out; if all were
returned, the queue is empty. -/
theorem testing_never_stalls (r : QueueRun F) (hr : machine.Reachable Disciplined r) (id : JobID)
    (hid : id ∉ r.issued) (q : Queue F) (he : r.queue.nextJob id = .ok (none, q)) :
    (∀ s ∈ r.submitted, s ∉ r.returned →
      ∃ ref job, q.jobs.get? ref = some job ∧ job.id ∈ r.out ∧ job.submitID = s) ∧
    ((∀ s ∈ r.submitted, s ∈ r.returned) → IsEmpty q) := by
  have h := tracked hr
  obtain ⟨ref, q', he', ht⟩ := h.accounted.nextJob (h.fresh id hid)
  obtain ⟨rfl, rfl⟩ := Prod.mk.inj (Except.ok.inj (he'.symm.trans he))
  obtain ⟨hfailed, hactive, hout⟩ := ht.none rfl
  have hidle : ∀ a g, q'.generators.get? a = some g →
      (∃ orig job, g.givenJobs.get? orig = some job) ∨ g.Finished := fun a g hg =>
    ht.accounted.idle a g hg (by simp [hactive])
  refine ⟨fun s hs hnot => ?_, fun hall => ?_⟩
  · obtain ⟨a, fin, hp⟩ := h.tested s hs
    have hfin := (h.progress a s fin hp).2
    rw [← ht.progress] at hp
    obtain ⟨g, hg, rfl, rfl⟩ := Queue.progress_eq_some.1 hp
    obtain ⟨orig, given, hgiven⟩ := (hidle a g hg).resolve_right fun hf => hnot (hfin.1 hf)
    have hgid := (ht.accounted.given orig a).2 ⟨g, hg, given, hgiven⟩
    obtain ⟨job, hjob, hsubmit, -⟩ := ht.accounted.object orig a g hgid hg
    refine ⟨orig, job, hjob, ?_, hsubmit⟩
    rw [h.out, ← hout]
    exact ⟨orig, by simp [hfailed], ⟨a, hgid⟩, job, hjob, rfl⟩
  · -- Every generator is finished, so none has a job given and no job is live.
    have hdead : ∀ orig, ¬ q'.Live orig := by
      rintro orig ⟨a, ha⟩
      obtain ⟨g, hg, -⟩ := (ht.accounted.given orig a).1 ha
      have hnot := (ht.accounted.not_finished ha hg).2
      have hp := Queue.progress_eq_some.2 ⟨g, hg, rfl, rfl⟩
      rw [ht.progress] at hp
      obtain ⟨hmem, hfin⟩ := h.progress a _ _ hp
      exact hnot (hfin.2 (hall _ hmem))
    refine ⟨hactive, ?_, hfailed, ?_, ?_, ?_⟩ <;> rw [GoMap.len_eq_zero_iff] <;> intro x
    · cases hget : q'.activeGeneratorIDs.get? x with
      | none => rfl
      | some u => exact absurd ((ht.accounted.active x).2 ⟨u, hget⟩) (by simp [hactive])
    · cases hget : q'.jobIDToOriginalJobID.get? x with
      | none => rfl
      | some orig => exact absurd (ht.accounted.renamed x orig hget).1.1 (hdead orig)
    · cases hget : q'.originalJobIDToJob.get? x with
      | none => rfl
      | some ref => exact absurd (ht.accounted.live x ref hget) (hdead x)
    · cases hget : q'.originalJobIDToGenerator.get? x with
      | none => rfl
      | some a => exact absurd ⟨a, hget⟩ (hdead x)

/-- The compilation fails, so the submission is returned and the queue is empty. -/
theorem testing_never_stalls_failed_compilation :
    ∃ (r : QueueRun Int) (q : Queue Int), machine.Reachable Disciplined r ∧ r.returned = [1] ∧
      r.queue.nextJob 2 = .ok (none, q) ∧ IsEmpty q := by
  have hr := Machine.Reachable.of_runs (machine (F := Int)) Disciplined
    [.submit 0 GeneratorRun.twoTests GeneratorRun.newSubmission 0, .nextJob 1,
      .jobCompleted (GeneratorRun.resultOf 1 .CE none) 1]
    (.of_init rfl)
    ⟨trivial, rfl, _, rfl, trivial, List.not_mem_nil, _, rfl, List.mem_cons_self, trivial, _, rfl,
      rfl⟩
  exact ⟨_, _, hr, rfl, rfl,
    (testing_never_stalls _ hr 2 (by decide) _ rfl).2 fun s hs => hs⟩

end QueueRun

end TestingSystem
