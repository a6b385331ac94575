import TestingSystem.Master.Master

/-!
# The steps of the master

`MasterRun.Inv` ties the registry, the queue and the list of submissions together; it holds in every
reachable state. Every step has one of the effects of `Effect` (`Inv.step`), and the results about runs
use only these. The only panics are those of a score and of a request that is answered after its job
was sent again.
-/

set_option autoImplicit false

namespace TestingSystem

namespace Invoker

/-- After `ExtractJobs` the object holds no job. -/
def Drained (i : Invoker) : Prop :=
  (∀ id, ¬ i.Holds id) ∨ i.failure = .notStarted ∨ i.failure = .started

variable {i i' : Invoker}

theorem drained_new (status : Status) : (new status).Drained :=
  .inr (.inl rfl)

theorem Drained.kept (h : i.Drained) (hk : Kept i i') : i'.Drained := by
  cases hf : i.failed with
  | true =>
    refine h.imp (fun hnone id hid => hnone id ((hk.holds id).1 hid)) ?_
    rw [(hk.failed hf).2]
    exact fun h => h
  | false =>
    cases hf' : i'.failed with
    | true => exact .inr (.inr (hk.fails hf hf'))
    | false => exact .inr (.inl (hk.coherent.healthy hf'))

end Invoker

namespace MasterRun

variable {F : Type} [Add F] [Min F] [Zero F] [One F]

/-- The submissions and the jobs of the generators: each submission is in testing until it is returned,
and in the list of the status until the end of `finishSubmissionTesting`. -/
structure Submissions (s : MasterRun F) : Prop where
  progress : ∀ g x finished, s.queue.progress g = some (x, finished) →
    x ∈ s.submitted ∧ (finished ↔ x ∈ s.returned)
  active : ∀ x, s.queue.status.Active x ↔ x ∈ s.submitted ∧ (x ∈ s.returned → x ∈ s.finishing)
  returned : s.returned.Nodup ∧ ∀ x ∈ s.returned, x ∈ s.submitted
  finishing : s.finishing.Nodup ∧ ∀ x ∈ s.finishing, x ∈ s.returned
  completed : s.completed.Nodup ∧ ∀ o ∈ s.completed, ¬ s.queue.Live o ∧ o < s.registry.fresh

/-- The invariant of the master. -/
structure Inv (s : MasterRun F) : Prop where
  custody : s.registry.Custody
  exact : (s.registry.ledger s.pending).Exact
  drained : ∀ ref i, s.registry.objects.get? ref = some i → i.Drained
  sends : ∀ send ∈ s.sends, send.job < s.registry.fresh ∧
    ∃ job, s.queue.jobs.get? send.job = some job
  submissions : s.Submissions

/-- A step that changes `Invoker` objects and goroutines only. -/
structure Quiet (s t : MasterRun F) : Prop where
  queue : t.queue = s.queue
  nextJob : t.registry.nextJob = s.registry.nextJob
  invokerByJobID : t.registry.invokerByJobID = s.registry.invokerByJobID
  testingJobs : t.registry.testingJobs = s.registry.testingJobs
  fresh : s.registry.fresh ≤ t.registry.fresh
  sends : ∀ send ∈ t.sends, send ∈ s.sends
  pending : t.pending.Perm s.pending
  finishing : t.finishing = s.finishing
  submitted : t.submitted = s.submitted
  created : t.created = s.created
  sent : t.sent = s.sent
  requests : t.requests = s.requests
  rescheduled : t.rescheduled = s.rescheduled
  completed : t.completed = s.completed
  returned : t.returned = s.returned

/-- The result is that of a job whose invoker does not hold it any more. -/
def Drops (s : MasterRun F) (a : MasterStep F) : Prop :=
  ∃ result ref i, a = .handleInvokerJobResult result ∧
    s.registry.invokerByJobID.get? result.job.id = some ref ∧
    s.registry.objects.get? ref = some i ∧ ¬ i.Holds result.job.id

variable {s t : MasterRun F}

theorem inv_new : Inv (new : MasterRun F) where
  custody := InvokerRegistry.custody_new
  exact := ⟨.nil, fun _ h => (nomatch h)⟩
  drained _ _ h := nomatch h
  sends _ h := nomatch h
  submissions :=
    { progress := fun _ _ _ h => (nomatch h)
      active := fun _ => ⟨fun ⟨_, h⟩ => (nomatch h), fun ⟨h, _⟩ => (nomatch h)⟩
      returned := ⟨.nil, fun _ h => (nomatch h)⟩
      finishing := ⟨.nil, fun _ h => (nomatch h)⟩
      completed := ⟨.nil, fun _ h => (nomatch h)⟩ }

/-- A section of the registry keeps the submissions. -/
theorem Submissions.moved (h : s.Submissions) {loses : Prop} {pending pending' : List JobID}
    (hm : InvokerRegistry.Moved loses s.registry pending t.registry pending')
    (hsubmitted : t.submitted = s.submitted) (hreturned : t.returned = s.returned)
    (hfinishing : t.finishing = s.finishing) (hcompleted : t.completed = s.completed) :
    t.Submissions := by
  refine ⟨fun g x finished hp => ?_, fun x => ?_, ?_, ?_, ?_⟩
  · rw [hsubmitted, hreturned]
    exact h.progress g x finished ((hm.progress g).symm.trans hp)
  · rw [hsubmitted, hreturned, hfinishing, queue, hm.status]
    exact h.active x
  · rw [hreturned, hsubmitted]
    exact h.returned
  · rw [hfinishing, hreturned]
    exact h.finishing
  · rw [hcompleted]
    refine ⟨h.completed.1, fun o ho => ?_⟩
    obtain ⟨hdead, hlt⟩ := h.completed.2 o ho
    refine ⟨fun hl => ?_, Nat.lt_of_lt_of_le hlt hm.fresh_le⟩
    rcases hm.live o hl with hold | hle
    · exact hdead hold
    · exact absurd hlt (Nat.not_lt.2 hle)

/-- A section of the registry keeps the invariant. -/
theorem Inv.moved (h : s.Inv) {loses : Prop}
    (hm : InvokerRegistry.Moved loses s.registry s.pending t.registry t.pending)
    (hdrained : ∀ ref i, t.registry.objects.get? ref = some i → i.Drained)
    (hsends : ∀ send ∈ t.sends, send.job < t.registry.fresh ∧
      ∃ job, t.queue.jobs.get? send.job = some job)
    (hsubmitted : t.submitted = s.submitted) (hreturned : t.returned = s.returned)
    (hfinishing : t.finishing = s.finishing) (hcompleted : t.completed = s.completed) : t.Inv :=
  ⟨hm.custody, hm.exact h.exact, hdrained, hsends,
    h.submissions.moved hm hsubmitted hreturned hfinishing hcompleted⟩

/-! ## Sections of the invokers -/

omit [Add F] [Min F] [Zero F] [One F] in
theorem Quiet.refl (s : MasterRun F) : s.Quiet s :=
  ⟨rfl, rfl, rfl, rfl, Nat.le_refl _, fun _ hs => hs, .refl _, rfl, rfl, rfl, rfl, rfl, rfl, rfl, rfl⟩

omit [Add F] [Min F] [Zero F] [One F] in
theorem Quiet.trans {u : MasterRun F} (h : s.Quiet t) (h' : t.Quiet u) : s.Quiet u where
  queue := h'.queue.trans h.queue
  nextJob := h'.nextJob.trans h.nextJob
  invokerByJobID := h'.invokerByJobID.trans h.invokerByJobID
  testingJobs := h'.testingJobs.trans h.testingJobs
  fresh := Nat.le_trans h.fresh h'.fresh
  sends send hsend := h.sends send (h'.sends send hsend)
  pending := h'.pending.trans h.pending
  finishing := h'.finishing.trans h.finishing
  submitted := h'.submitted.trans h.submitted
  created := h'.created.trans h.created
  sent := h'.sent.trans h.sent
  requests := h'.requests.trans h.requests
  rescheduled := h'.rescheduled.trans h.rescheduled
  completed := h'.completed.trans h.completed
  returned := h'.returned.trans h.returned

omit [Add F] [Min F] [Zero F] [One F] in
theorem Quiet.ledger (h : s.Quiet t) (loses : Prop) :
    (s.registry.ledger s.pending).Step loses (t.registry.ledger t.pending) := by
  have hqueue : t.registry.queue = s.registry.queue := h.queue
  have hnext : t.registry.nextIDs = s.registry.nextIDs :=
    InvokerRegistry.nextIDs_eq h.nextJob (congrArg Queue.jobs hqueue)
  refine .move (fun x => ?_) ?_
  · show t.registry.queue.HandedOut x ↔ s.registry.queue.HandedOut x
    rw [hqueue]
  · show (t.registry.nextIDs ++ t.registry.invokerByJobID.keys ++ t.pending).Perm
      (s.registry.nextIDs ++ s.registry.invokerByJobID.keys ++ s.pending)
    rw [hnext, h.invokerByJobID]
    exact h.pending.append_left _

theorem Inv.quiet (h : s.Inv) (hq : s.Quiet t) (hc : t.registry.Custody)
    (hd : ∀ ref i, t.registry.objects.get? ref = some i → i.Drained) : t.Inv := by
  refine ⟨hc, (hq.ledger False).exact h.exact, hd, fun send hsend => ?_, ?_⟩
  · obtain ⟨hlt, hjob⟩ := h.sends send (hq.sends send hsend)
    rw [hq.queue]
    exact ⟨Nat.lt_of_lt_of_le hlt hq.fresh, hjob⟩
  · have hs := h.submissions
    refine ⟨?_, ?_, ?_, ?_, ?_⟩
    · rw [hq.queue, hq.submitted, hq.returned]
      exact hs.progress
    · rw [hq.queue, hq.submitted, hq.returned, hq.finishing]
      exact hs.active
    · rw [hq.returned, hq.submitted]
      exact hs.returned
    · rw [hq.finishing, hq.returned]
      exact hs.finishing
    · rw [hq.completed, hq.queue]
      exact ⟨hs.completed.1, fun o ho =>
        ⟨(hs.completed.2 o ho).1, Nat.lt_of_lt_of_le (hs.completed.2 o ho).2 hq.fresh⟩⟩

theorem Inv.drained_set (h : s.Inv) {ref : InvokerRef} {i : Invoker} (hd : i.Drained)
    (a : InvokerRef) (b : Invoker) (hb : (s.registry.objects.set ref i).get? a = some b) :
    b.Drained := by
  rcases GoMap.of_get?_set hb with ⟨-, rfl⟩ | ⟨-, hold⟩
  · exact hd
  · exact h.drained a b hold

/-- A section of an invoker that gives no job away. -/
theorem Inv.onInvoker (h : s.Inv) (ref : InvokerRef) {update : Invoker → Except Panic Invoker}
    {P : Panic → Prop}
    (hupdate : ∀ i, s.registry.objects.get? ref = some i → Yields P (fun i' => i'.Coherent ∧
      i'.Drained ∧ ∀ id, s.registry.invokerByJobID.get? id = some ref → i.Answers id → i'.Answers id)
      (update i)) :
    Yields P (fun t => t.Inv ∧ s.Quiet t) (s.onInvoker ref update) := by
  unfold MasterRun.onInvoker
  cases hi : s.registry.objects.get? ref with
  | none =>
    exact ⟨h, rfl, rfl, rfl, rfl, Nat.le_refl _, fun _ hs => hs, .refl _, rfl, rfl, rfl, rfl, rfl, rfl,
      rfl, rfl⟩
  | some i =>
    refine (hupdate i hi).bind fun i' hi' => ?_
    obtain ⟨hc, hd, hkept⟩ := hi'
    have hmoved : InvokerRegistry.Moved False s.registry s.pending
      (s.registry.setInvoker ref i') s.pending := h.custody.setInvoker _ _ hi hc hkept
    have hq : s.Quiet { s with registry := s.registry.setInvoker ref i' } :=
      ⟨rfl, rfl, rfl, rfl, Nat.le_refl _, fun _ hs => hs, .refl _, rfl, rfl, rfl, rfl, rfl, rfl,
        rfl, rfl⟩
    exact ⟨h.quiet hq hmoved.custody (h.drained_set hd), hq⟩

/-- A section of an invoker that keeps its jobs. -/
theorem Inv.keep (h : s.Inv) (ref : InvokerRef) {update : Invoker → Except Panic Invoker}
    {P : Panic → Prop}
    (hupdate : ∀ i, s.registry.objects.get? ref = some i → Yields P i.Kept (update i)) :
    Yields P (fun t => t.Inv ∧ s.Quiet t) (s.onInvoker ref update) := by
  refine h.onInvoker ref fun i hi => (hupdate i hi).weaken fun i' hk => ?_
  exact ⟨hk.coherent, (h.drained ref i hi).kept hk, fun id _ hans =>
    hk.answers (h.custody.objects ref i hi).2 hans⟩

/-! ## Effects -/

/-- What a step does. -/
inductive Effect (s : MasterRun F) : MasterStep F → MasterRun F → Prop
  | quiet {a : MasterStep F} {t : MasterRun F} (hq : s.Quiet t) : Effect s a t
  | submitted {problem : Problem F} {submission : Submission F} {epoch : Epoch} {q : Queue F}
      (hs : s.queue.Submitted s.registry.fresh submission.id q) :
      Effect s (.submit problem submission epoch) { s with
        registry := { s.registry with queue := q, fresh := s.registry.fresh + 1 }
        submitted := submission.id :: s.submitted }
  | taken {next : Option JobRef} {q : Queue F} (hnone : s.registry.nextJob = none)
      (hcall : s.queue.nextJob s.registry.fresh = .ok (next, q))
      (ht : s.queue.Taken s.registry.fresh next q) {created : GoMap JobRef (Queue F × Queue F)}
      (hcreated : created = match s.queue.newFailedJobs, next with
        | [], some job => s.created.set job (s.queue, q)
        | _, _ => s.created) :
      Effect s .takeNextJob { s with
        registry := { s.registry with nextJob := next, queue := q, fresh := s.registry.fresh + 1 }
        created := created }
  | sent {ref : InvokerRef} {job : JobRef} {id : JobID} {i : Invoker}
      (hnext : s.registry.nextJob = some job) (hid : s.queue.HasID job id)
      (hnew : s.registry.invokerByJobID.get? id = none) :
      Effect s (.trySendJob ref) { s with
        registry := { s.registry.setInvoker ref i with
          invokerByJobID := s.registry.invokerByJobID.set id ref
          testingJobs := s.registry.testingJobs.set id job
          nextJob := none }
        sends := ⟨ref, job, id, none⟩ :: s.sends
        sent := s.sent.set id ref }
  | built {send : PendingSend} {object : Job} (hmem : send ∈ s.sends)
      (hobject : s.queue.jobs.get? send.job = some object) :
      Effect s (.buildRequest send) { s with
        sends := { send with request := some object.id } :: s.sends.erase send
        requests := { send with request := some object.id } :: s.requests }
  | rescheduled {ref : InvokerRef} {i : Invoker} {id : JobID} {orig : JobRef} {q : Queue F}
      (hrec : ∃ ref', s.registry.invokerByJobID.get? id = some ref') (hid : s.queue.HasID orig id)
      (hr : s.queue.Rescheduled orig id s.registry.fresh q) :
      Effect s (.rescheduleJob ref) { s with
        registry := { s.registry with
          queue := q
          fresh := s.registry.fresh + 1
          invokerByJobID := s.registry.invokerByJobID.delete id
          testingJobs := s.registry.testingJobs.delete id
          objects := s.registry.objects.set ref i }
        rescheduled := id :: s.rescheduled }
  | handled {result : InvokerJobResult F} {ref : InvokerRef} {tested : Bool}
      {r : InvokerRegistry F} (hh : s.registry.Handled result ref tested r) :
      Effect s (.handleInvokerJobResult result) { s with
        registry := r
        handled := (result, tested) :: s.handled }
  | completed {k : Nat} {epoch : Epoch} {t : MasterRun F} {result : InvokerJobResult F}
      {orig : JobRef} {gid : GeneratorID} {g : Generator F} {c : Completed (Generator F) F}
      (hresult : s.accepted[k]? = some result) (hid : s.queue.HasID orig result.job.id)
      (hs : s.queue.JobSettled orig gid g c t.queue)
      (hregistry : t.registry = { s.registry with queue := t.queue }) (hsends : t.sends = s.sends)
      (hcreated : t.created = s.created) (hsent : t.sent = s.sent)
      (hrequests : t.requests = s.requests) (hrescheduled : t.rescheduled = s.rescheduled)
      (hcompleted : t.completed = orig :: s.completed) : Effect s (.jobCompleted k epoch) t
  | finished {id : SubmissionID} {status : QueueStatus F} :
      Effect s (.finishSubmissionTesting id) { s with
        registry := { s.registry with queue := { s.queue with status := status } }
        finishing := s.finishing.erase id }

/-- What a step that succeeds does to the invariant and to the places of the jobs. -/
structure Advances (s : MasterRun F) (a : MasterStep F) (t : MasterRun F) : Prop where
  inv : t.Inv
  effect : s.Effect a t
  ledger : (s.registry.ledger s.pending).Steps (s.Drops a) (t.registry.ledger t.pending)

theorem Quiet.advances {a : MasterStep F} (hq : s.Quiet t) (ht : t.Inv) : s.Advances a t :=
  ⟨ht, .quiet hq, .single (hq.ledger _)⟩

/-! ## Submit -/

/-- The queue has accepted a new submission. -/
theorem Inv.submitted (h : s.Inv) {problem : Problem F} {submission : Submission F} {epoch : Epoch}
    {q : Queue F} (hsub : s.queue.Submitted s.registry.fresh submission.id q)
    (hnew : submission.id ∉ s.submitted) :
    s.Advances (.submit problem submission epoch) { s with
      registry := { s.registry with queue := q, fresh := s.registry.fresh + 1 }
      submitted := submission.id :: s.submitted } := by
  have hc := h.custody
  have hs := h.submissions
  obtain ⟨hacc, hout⟩ := hc.accounted.submit hsub
  obtain ⟨g, hgenerators, hgsub, hgfin⟩ := hsub.generators
  have hid : ∀ o x, q.HasID o x ↔ s.queue.HasID o x := fun o x => by
    rw [Queue.HasID, Queue.HasID, hsub.live, hsub.jobs]
  let t : MasterRun F := { s with
    registry := { s.registry with queue := q, fresh := s.registry.fresh + 1 }
    submitted := submission.id :: s.submitted }
  have hcustody : t.registry.Custody := by
    refine ⟨hacc, fun x hle => ?_, fun x hle => ?_, fun ref hr => (hsub.live ref).2 (hc.next ref hr),
      fun ref i hi => ⟨Nat.lt_succ_of_lt (hc.objects ref i hi).1, (hc.objects ref i hi).2⟩,
      hc.registered, hc.answered, fun x ref hget => ?_⟩
    · have hx := hc.fresh x (Nat.le_of_succ_le hle)
      exact ⟨fun hl => hx.1 ((hsub.live x).1 hl), hsub.renamed ▸ hx.2⟩
    · show q.generators.get? x = none
      rw [hgenerators, GoMap.get?_set_ne _ _ (Nat.ne_of_gt hle)]
      exact hc.unused x (Nat.le_of_succ_le hle)
    · exact ⟨(hc.testing x ref hget).1, (hid ref x).2 (hc.testing x ref hget).2⟩
  have hledger : (s.registry.ledger s.pending).Step (s.Drops (.submit problem submission epoch))
      (t.registry.ledger t.pending) := by
    refine .move hout ?_
    have hnext : t.registry.nextIDs = s.registry.nextIDs := InvokerRegistry.nextIDs_eq rfl hsub.jobs
    show (t.registry.nextIDs ++ s.registry.invokerByJobID.keys ++ s.pending).Perm _
    rw [hnext]
    exact .refl _
  have hprogress : ∀ a, q.progress a =
      if a = s.registry.fresh then some (submission.id, g.Finished) else s.queue.progress a := by
    intro a
    rw [Queue.progress_set hgenerators, hgsub]
  have hunreturned : submission.id ∉ s.returned := fun hr => hnew (hs.returned.2 _ hr)
  have hsubmissions : t.Submissions := by
    refine ⟨fun a x finished hp => ?_, fun x => ?_, ⟨hs.returned.1, fun x hx => ?_⟩, hs.finishing,
      hs.completed.1, fun o ho => ?_⟩
    · -- the new generator is not finished, and its submission was not returned
      have hp : q.progress a = some (x, finished) := hp
      rw [hprogress] at hp
      split at hp
      · obtain ⟨rfl, rfl⟩ := Prod.mk.inj (Option.some.inj hp)
        exact ⟨List.mem_cons_self, iff_of_false hgfin hunreturned⟩
      · obtain ⟨hx, hfin⟩ := hs.progress a x finished hp
        exact ⟨List.mem_cons_of_mem _ hx, hfin⟩
    · show q.status.Active x ↔ x ∈ submission.id :: s.submitted ∧ (x ∈ s.returned → x ∈ s.finishing)
      rw [hsub.status.2, hs.active, List.mem_cons]
      constructor
      · rintro (rfl | ⟨hx, hfin⟩)
        · exact ⟨.inl rfl, fun hr => absurd hr hunreturned⟩
        · exact ⟨.inr hx, hfin⟩
      · rintro ⟨heq | hx, hfin⟩
        · exact .inl heq
        · exact .inr ⟨hx, hfin⟩
    · exact List.mem_cons_of_mem _ (hs.returned.2 x hx)
    · obtain ⟨hdead, hlt⟩ := hs.completed.2 o ho
      exact ⟨fun hl => hdead ((hsub.live o).1 hl), Nat.lt_succ_of_lt hlt⟩
  refine ⟨⟨hcustody, hledger.exact h.exact, h.drained, fun send hsend => ?_, hsubmissions⟩,
    .submitted hsub, .single hledger⟩
  obtain ⟨hlt, job, hjob⟩ := h.sends send hsend
  exact ⟨Nat.lt_succ_of_lt hlt, job, (congrArg (GoMap.get? · send.job) hsub.jobs).trans hjob⟩

theorem Inv.submit (h : s.Inv) {problem : Problem F} {submission : Submission F} {epoch : Epoch}
    (hen : submission.id ∉ s.submitted) :
    ∃ t, s.submit problem submission epoch = .ok t ∧
      s.Advances (.submit problem submission epoch) t := by
  have hc := h.custody
  have hs := h.submissions
  have hgid := hc.unused s.registry.fresh (Nat.le_refl _)
  have hnew : ∀ id g, s.queue.generators.get? id = some g → g.submissionID ≠ submission.id := by
    rintro id g hg heq
    exact hen (heq ▸ (hs.progress id _ _ (Queue.progress_eq_some.2 ⟨g, hg, rfl, rfl⟩)).1)
  have hinactive : ¬ s.queue.status.Active submission.id := fun hact => hen ((hs.active _).1 hact).1
  unfold MasterRun.submit
  cases hgen : Generator.new s.registry.fresh problem submission with
  | error err =>
    have hcall : s.queue.submit s.registry.fresh problem submission epoch = .ok (.error err) := by
      simp only [Queue.submit, hgen]
    refine ⟨_, by simp only [hcall, ok_bind]; rfl, ?_⟩
    have hq : s.Quiet { s with registry := { s.registry with fresh := s.registry.fresh + 1 } } :=
      ⟨rfl, rfl, rfl, rfl, Nat.le_succ _, fun _ hs => hs, .refl _, rfl, rfl, rfl, rfl, rfl, rfl,
        rfl, rfl⟩
    exact hq.advances (h.quiet hq ⟨hc.accounted, fun id hle => hc.fresh id (Nat.le_of_succ_le hle),
      fun id hle => hc.unused id (Nat.le_of_succ_le hle), hc.next,
      fun ref i hi => ⟨Nat.lt_succ_of_lt (hc.objects ref i hi).1, (hc.objects ref i hi).2⟩,
      hc.registered, hc.answered, hc.testing⟩ h.drained)
  | ok generator =>
    obtain ⟨status, hstatus⟩ : ∃ status, s.queue.status.addSubmission submission epoch = .ok status :=
      QueueStatus.addSubmission_new hinactive
    obtain ⟨q, hcall⟩ : ∃ q, s.queue.submit s.registry.fresh problem submission epoch =
        .ok (.ok q) := by
      simp only [Queue.submit, hgen, hstatus, ok_bind]
      exact ⟨_, rfl⟩
    have hsub := hc.accounted.toInvariant.submit hgid hnew hcall
    exact ⟨_, by simp only [hcall, ok_bind]; rfl, h.submitted hsub hen⟩

/-! ## SendJobs -/

theorem Inv.takeNextJob (h : s.Inv) :
    ∃ t, s.exec .takeNextJob = .ok t ∧ s.Advances .takeNextJob t := by
  obtain ⟨r, he, hm, ⟨job, hnext, rfl⟩ | ⟨hnext, next, q, ht, hcall, rfl⟩⟩ :=
    h.custody.takeNextJob (s.Drops .takeNextJob) s.pending
  · have hcreated : s.createdAfter s.registry = s.created := by
      rw [createdAfter, hnext]
    refine ⟨s, ?_, (Quiet.refl s).advances h⟩
    simp only [exec, he, ok_bind, hcreated]
    rfl
  · let r : InvokerRegistry F :=
      { s.registry with nextJob := next, queue := q, fresh := s.registry.fresh + 1 }
    let t : MasterRun F := { s with registry := r, created := s.createdAfter r }
    have hinv : t.Inv := by
      refine h.moved hm h.drained (fun send hsend => ?_) rfl rfl rfl rfl
      obtain ⟨hlt, job, hjob⟩ := h.sends send hsend
      exact ⟨Nat.lt_succ_of_lt hlt, job, (ht.jobs _ (Nat.ne_of_lt hlt)).trans hjob⟩
    refine ⟨t, by simp only [exec, he, ok_bind]; rfl, hinv, .taken hnext hcall ht ?_, hm.steps⟩
    rw [createdAfter, hnext]
    cases s.queue.newFailedJobs <;> cases next <;> rfl

theorem Inv.trySendJob (h : s.Inv) {ref : InvokerRef} (hen : ref ∈ s.registry.invokers) :
    ∃ t, s.exec (.trySendJob ref) = .ok t ∧ s.Advances (.trySendJob ref) t := by
  obtain ⟨i, hi⟩ := h.custody.registered ref hen
  cases hnext : s.registry.nextJob with
  | none => exact ⟨s, by simp only [exec, MasterRun.trySendJob, hnext], (Quiet.refl s).advances h⟩
  | some job =>
    obtain ⟨id, hid, hsend⟩ := h.custody.sendNextJob (s.Drops (.trySendJob ref)) h.exact hi hnext
    obtain ⟨object, hobject, rfl⟩ := hid.2
    simp only [exec, MasterRun.trySendJob, hnext, queue, hobject, deref_some, ok_bind]
    rcases hsend with hcall | ⟨i', hsent, hnew, hcall, hm⟩
    · have hq : s.Quiet { s with registry := s.registry.setInvoker ref i } :=
        ⟨rfl, rfl, rfl, rfl, Nat.le_refl _, fun _ hs => hs, .refl _, rfl, rfl, rfl, rfl, rfl, rfl,
          rfl, rfl⟩
      have hm := h.custody.setInvoker False s.pending hi
        (h.custody.objects ref i hi).2 fun _ _ hans => hans
      exact ⟨_, by simp only [hcall, ok_bind]; rfl,
        hq.advances (h.quiet hq hm.custody (h.drained_set (h.drained ref i hi)))⟩
    · let t : MasterRun F := { s with
        registry := { s.registry.setInvoker ref i' with
          invokerByJobID := s.registry.invokerByJobID.set object.id ref
          testingJobs := s.registry.testingJobs.set object.id job
          nextJob := none }
        sends := ⟨ref, job, object.id, none⟩ :: s.sends
        sent := s.sent.set object.id ref }
      have hdrained : i'.Drained := by
        right
        left
        exact hsent.failure.trans ((h.custody.objects ref i hi).2.healthy hsent.room.1)
      have hlt : job < s.registry.fresh := by
        by_contra hle
        exact (h.custody.fresh job (Nat.not_lt.1 hle)).1 hid.1
      refine ⟨t, by simp only [hcall, ok_bind]; rfl, h.moved hm (h.drained_set hdrained)
        (fun send hsend => ?_) rfl rfl rfl rfl, .sent hnext hid hnew, hm.steps⟩
      rcases List.mem_cons.1 hsend with rfl | hold
      · exact ⟨hlt, object, hobject⟩
      · exact h.sends send hold

/-! ## completeSendJob -/

theorem Inv.buildRequest (h : s.Inv) {send : PendingSend} (hen : send ∈ s.sends) :
    ∃ t, s.exec (.buildRequest send) = .ok t ∧ s.Advances (.buildRequest send) t := by
  obtain ⟨hlt, object, hobject⟩ := h.sends send hen
  have hobject' : s.registry.queue.jobs.get? send.job = some object := hobject
  let t : MasterRun F := { s with
    sends := { send with request := some object.id } :: s.sends.erase send
    requests := { send with request := some object.id } :: s.requests }
  have hmoved : InvokerRegistry.Moved False s.registry s.pending t.registry t.pending :=
    .refl h.custody
  refine ⟨t, by simp only [exec, queue, hobject', deref_some, ok_bind]; rfl,
    h.moved hmoved h.drained (fun built hbuilt => ?_) rfl rfl rfl rfl, .built hen hobject, .refl⟩
  rcases List.mem_cons.1 hbuilt with rfl | hold
  · exact ⟨hlt, object, hobject⟩
  · exact h.sends built (List.mem_of_mem_erase hold)

/-- The answer to a request; a job that was sent again meanwhile has changed its type. -/
theorem Inv.completeSendJob (h : s.Inv) {send : PendingSend} (hen : send ∈ s.sends)
    (response : Option Status) {order : RangeOrder} (ho : ∀ ids, (order ids).Perm ids) :
    Yields (fun p => p = .sendingJobChanged) (s.Advances (.completeSendJob send response order))
      (s.exec (.completeSendJob send response order)) := by
  obtain ⟨-, object, hobject⟩ := h.sends send hen
  have hobject' : s.registry.queue.jobs.get? send.job = some object := hobject
  let t : MasterRun F := { s with sends := s.sends.erase send }
  have hq : s.Quiet t := ⟨rfl, rfl, rfl, rfl, Nat.le_refl _, fun _ => List.mem_of_mem_erase,
    .refl _, rfl, rfl, rfl, rfl, rfl, rfl, rfl, rfl⟩
  have ht : t.Inv := h.quiet hq h.custody h.drained
  simp only [exec, queue, hobject', deref_some, ok_bind]
  refine (ht.onInvoker send.invoker fun i hi => ?_).weaken fun u hu => (hq.trans hu.2).advances hu.1
  have hc := (h.custody.objects send.invoker i hi).2
  refine ((hc.completeSendJob ho object.id response).mono (fun p hp => hp.1) fun i' hk => hk).bind
    fun i' hk => ?_
  have hkept := hk.1
  have hdrained := (h.drained send.invoker i hi).kept hkept
  exact ⟨⟨hkept.coherent.known, hkept.coherent.healthy⟩, hdrained, fun id _ hans =>
    hkept.answers hc hans⟩

/-! ## Statuses and failures -/

theorem Inv.ping (h : s.Inv) (ref : InvokerRef) (response : Option Status) {order : RangeOrder}
    (ho : ∀ ids, (order ids).Perm ids) :
    Yields (fun _ => False) (s.Advances (.ping ref response order))
      (s.exec (.ping ref response order)) := by
  refine (h.keep ref fun i hi => ?_).weaken fun t ht => ht.2.advances ht.1
  obtain ⟨i', he, hobs, -⟩ := (h.custody.objects ref i hi).2.ping ho response
  rw [he]
  exact hobs.toKept

theorem Inv.ensureJobIsNotLost (h : s.Inv) (ref : InvokerRef) (id : JobID) :
    Yields (fun _ => False) (s.Advances (.ensureJobIsNotLost ref id))
      (s.exec (.ensureJobIsNotLost ref id)) := by
  refine (h.keep ref fun i hi => ?_).weaken fun t ht => ht.2.advances ht.1
  have hk := ((h.custody.objects ref i hi).2.ensureJobIsNotLost id).1.toKept
  exact ⟨⟨hk.coherent.known, hk.coherent.healthy⟩, hk.counted, hk.holds, hk.sends, hk.failed, hk.fails⟩

theorem Inv.markFailed (h : s.Inv) (ref : InvokerRef) :
    Yields (fun _ => False) (s.Advances (.markFailed ref)) (s.exec (.markFailed ref)) := by
  refine (h.keep ref fun i hi => ?_).weaken fun t ht => ht.2.advances ht.1
  exact (h.custody.objects ref i hi).2.markFailed.1.toKept

/-- The registry looked at a status. -/
theorem Inv.watched (h : s.Inv) (hw : InvokerRegistry.Watched s.registry t.registry)
    (hc : t.registry.Custody) (hsends : t.sends = s.sends) (hpending : t.pending.Perm s.pending)
    (hfinishing : t.finishing = s.finishing) (hsubmitted : t.submitted = s.submitted)
    (hcreated : t.created = s.created) (hsent : t.sent = s.sent)
    (hrequests : t.requests = s.requests) (hrescheduled : t.rescheduled = s.rescheduled)
    (hcompleted : t.completed = s.completed) (hreturned : t.returned = s.returned) :
    t.Inv ∧ s.Quiet t := by
  have hq : s.Quiet t := ⟨hw.queue, hw.nextJob, hw.invokerByJobID, hw.testingJobs, hw.fresh,
    fun send hsend => hsends ▸ hsend, hpending, hfinishing, hsubmitted, hcreated, hsent, hrequests,
    hrescheduled, hcompleted, hreturned⟩
  exact ⟨h.quiet hq hc (hw.objects Invoker.Drained (fun _ _ hk hd => hd.kept hk) Invoker.drained_new
    h.drained), hq⟩

theorem Inv.upsertInvoker (h : s.Inv) (status : Status) {order : RangeOrder}
    (ho : ∀ ids, (order ids).Perm ids) :
    ∃ t, s.exec (.upsertInvoker status order) = .ok t ∧
      s.Advances (.upsertInvoker status order) t := by
  obtain ⟨r, he, hm, hw⟩ :=
    h.custody.upsertInvoker ho False s.pending status
  obtain ⟨hinv, hq⟩ := h.watched (t := { s with registry := r }) hw hm.custody rfl (.refl _) rfl rfl
    rfl rfl rfl rfl rfl rfl
  exact ⟨_, by simp only [exec, he, ok_bind]; rfl, hq.advances hinv⟩

omit [Add F] [Min F] [Zero F] [One F] in
/-- An entry of `handled` may come first. -/
theorem pending_eraseIdx {k : Nat} {entry : InvokerJobResult F × Bool}
    (hen : s.handled[k]? = some entry) :
    (pending { s with handled := entry :: s.handled.eraseIdx k }).Perm s.pending := by
  obtain ⟨hlt, hget⟩ := List.getElem?_eq_some_iff.1 hen
  have hperm : (entry :: s.handled.eraseIdx k).Perm s.handled :=
    hget ▸ List.getElem_cons_eraseIdx_perm hlt
  exact ((hperm.filter Prod.snd).map fun e => e.1.job.id).append_right _

omit [Add F] [Min F] [Zero F] [One F] in
/-- An accepted result that the handler goes on with stays pending. -/
theorem pending_accepted (s : MasterRun F) (result : InvokerJobResult F) (tested : Bool) :
    (pending { s with accepted := if tested then result :: s.accepted else s.accepted }).Perm
      (pending { s with handled := (result, tested) :: s.handled }) := by
  cases tested with
  | true => exact List.perm_middle
  | false => exact .refl _

theorem Inv.upsertAfterResult (h : s.Inv) {k : Nat} {entry : InvokerJobResult F × Bool}
    (hen : s.handled[k]? = some entry) {order : RangeOrder} (ho : ∀ ids, (order ids).Perm ids) :
    ∃ t, s.exec (.upsertAfterResult k order) = .ok t ∧
      s.Advances (.upsertAfterResult k order) t := by
  obtain ⟨result, tested⟩ := entry
  obtain ⟨r, he, hm, hw⟩ :=
    h.custody.upsertInvoker ho False s.pending result.invokerStatus
  let t : MasterRun F := { s with
    registry := r
    handled := s.handled.eraseIdx k
    accepted := if tested then result :: s.accepted else s.accepted }
  have hpending : t.pending.Perm s.pending :=
    (pending_accepted { s with handled := s.handled.eraseIdx k } result tested).trans
      (pending_eraseIdx hen)
  obtain ⟨hinv, hq⟩ := h.watched (t := t) hw hm.custody rfl hpending rfl rfl rfl rfl rfl rfl rfl rfl
  exact ⟨t, by simp only [exec, MasterRun.upsertAfterResult, hen, he, ok_bind]; rfl,
    hq.advances hinv⟩

/-! ## OnInvokerFailure -/

theorem Inv.extractJobs (h : s.Inv) {ref : InvokerRef} {i : Invoker}
    (hi : s.registry.objects.get? ref = some i) (hstarted : i.failure = .started)
    {order : RangeOrder} (ho : ∀ ids, (order ids).Perm ids) :
    Yields (fun _ => False) (s.Advances (.extractJobs ref order))
      (s.exec (.extractJobs ref order)) := by
  refine (h.onInvoker ref fun i' hi' => ?_).weaken fun t ht => ht.2.advances ht.1
  obtain rfl := Option.some.inj (hi'.symm.trans hi)
  have hfailed : i'.failed ≠ false := by
    simp [(h.custody.objects ref i' hi').2.failed (by simp [hstarted])]
  refine ⟨⟨fun _ _ hget => (nomatch hget), fun hf => absurd hf hfailed⟩,
    .inl fun id ⟨_, hget⟩ => (nomatch hget), fun id _ hans => .inr ⟨_, rfl, (ho _).mem_iff.2 ?_⟩⟩
  rcases hans with ⟨holder, hget⟩ | ⟨jobs, hf, -⟩
  · exact (GoMap.mem_keys_iff _ _).2 ⟨holder, hget⟩
  · rw [hstarted] at hf
    cases hf

/-- An invoker whose jobs were extracted holds none. -/
theorem Inv.extracted (h : s.Inv) {ref : InvokerRef} {i : Invoker} {jobs : List JobID}
    (hi : s.registry.objects.get? ref = some i) (hf : i.failure = .extracted jobs) (id : JobID) :
    ¬ i.Holds id := by
  rcases h.drained ref i hi with hnone | hnot | hstarted
  · exact hnone id
  · rw [hf] at hnot
    cases hnot
  · rw [hf] at hstarted
    cases hstarted

theorem Inv.rescheduleJob (h : s.Inv) {ref : InvokerRef} {i : Invoker} {id : JobID}
    {jobs : List JobID} (hi : s.registry.objects.get? ref = some i)
    (hf : i.failure = .extracted (id :: jobs)) :
    ∃ t, s.exec (.rescheduleJob ref) = .ok t ∧ s.Advances (.rescheduleJob ref) t := by
  let i' : Invoker := { i with failure := .extracted jobs }
  have hcoherent := (h.custody.objects ref i hi).2
  have hfailed : i.failed = true := hcoherent.failed (by simp [hf])
  have hc : i'.Coherent := ⟨hcoherent.known, fun hno => absurd (hfailed.symm.trans hno) (by simp)⟩
  have hnone := h.extracted hi hf
  have hd : i'.Drained := .inl hnone
  have hkept : ∀ x, x ≠ id → i.Answers x → i'.Answers x := by
    rintro x hne (hheld | ⟨jobs', hf', hmem⟩)
    · exact .inl hheld
    · obtain rfl := FailureStage.extracted.inj (hf.symm.trans hf')
      exact .inr ⟨jobs, rfl, (List.mem_cons.1 hmem).resolve_left hne⟩
  cases hrec : s.registry.invokerByJobID.get? id with
  | none =>
    let t : MasterRun F := { s with registry := s.registry.setInvoker ref i' }
    have hq : s.Quiet t := ⟨rfl, rfl, rfl, rfl, Nat.le_refl _, fun _ hs => hs, .refl _, rfl, rfl, rfl,
      rfl, rfl, rfl, rfl, rfl⟩
    have hm := h.custody.setInvoker False s.pending hi hc fun x hx hans => by
      refine hkept x ?_ hans
      rintro rfl
      rw [hrec] at hx
      cases hx
    refine ⟨t, ?_, hq.advances (h.quiet hq hm.custody (h.drained_set hd))⟩
    simp only [exec, MasterRun.rescheduleJob, hi, hf, InvokerRegistry.rescheduleJobs, hrec, ok_bind]
    rfl
  | some recorded =>
    obtain ⟨orig, q, hid, hr, he, hm⟩ :=
      h.custody.rescheduleJob (s.Drops (.rescheduleJob ref)) h.exact hrec
    have hm' := hm.trans <| hm.custody.setInvoker _ s.pending hi hc fun x hx hans =>
      hkept x (GoMap.of_get?_delete hx).1 hans
    let t : MasterRun F := { s with
      registry := { s.registry with
        queue := q
        fresh := s.registry.fresh + 1
        invokerByJobID := s.registry.invokerByJobID.delete id
        testingJobs := s.registry.testingJobs.delete id
        objects := s.registry.objects.set ref i' }
      rescheduled := id :: s.rescheduled }
    refine ⟨t, ?_, h.moved (t := t) hm' (h.drained_set hd) (fun send hsend => ?_) rfl rfl rfl rfl,
      .rescheduled ⟨recorded, hrec⟩ hid hr, hm'.steps⟩
    · simp only [exec, MasterRun.rescheduleJob, hi, hf, he, hrec, ok_bind]
      rfl
    · obtain ⟨hlt, job, hjob⟩ := h.sends send hsend
      refine ⟨Nat.lt_succ_of_lt hlt, ?_⟩
      by_cases horig : send.job = orig
      · obtain ⟨-, job', hjob', -⟩ := hr.hasID
        exact ⟨job', horig ▸ hjob'⟩
      · exact ⟨job, (hr.jobs _ horig).trans hjob⟩

theorem Inv.removeInvoker (h : s.Inv) {ref : InvokerRef} {i : Invoker}
    (hi : s.registry.objects.get? ref = some i) (hf : i.failure = .extracted []) :
    Yields (fun _ => False) (s.Advances (.removeInvoker ref)) (s.exec (.removeInvoker ref)) := by
  let t : MasterRun F := { s with
    registry := { s.registry with invokers := s.registry.invokers.filter fun a => a ≠ ref } }
  have hc := h.custody
  have hq : s.Quiet t := ⟨rfl, rfl, rfl, rfl, Nat.le_refl _, fun _ hs => hs, .refl _, rfl, rfl, rfl,
    rfl, rfl, rfl, rfl, rfl⟩
  have ht : t.Inv := h.quiet hq ⟨hc.accounted, hc.fresh, hc.unused, hc.next, hc.objects,
    fun a ha => hc.registered a (List.mem_of_mem_filter ha), hc.answered, hc.testing⟩ h.drained
  refine (ht.onInvoker ref fun i' hi' => ?_).weaken fun u hu => (hq.trans hu.2).advances hu.1
  obtain rfl := Option.some.inj (hi'.symm.trans hi)
  have hcoherent := (hc.objects ref i' hi').2
  have hnone := h.extracted hi hf
  refine ⟨⟨hcoherent.known, fun hno => ?_⟩, .inl hnone, fun id _ hans => ?_⟩
  · have hfailed : i'.failed = true := hcoherent.failed (by simp [hf])
    exact absurd (hfailed.symm.trans hno) (by simp)
  · rcases hans with hheld | ⟨jobs, hjobs, hmem⟩
    · exact absurd hheld (hnone id)
    · obtain rfl := FailureStage.extracted.inj (hf.symm.trans hjobs)
      cases hmem

/-! ## Results -/

theorem Inv.handleInvokerJobResult (h : s.Inv) (result : InvokerJobResult F) :
    ∃ t, s.exec (.handleInvokerJobResult result) = .ok t ∧
      s.Advances (.handleInvokerJobResult result) t := by
  rcases h.custody.handleInvokerJobResult s.pending result with
    ⟨hrec, he⟩ | ⟨ref, tested, r, he, hh, hm⟩
  · let t : MasterRun F := { s with handled := (result, false) :: s.handled }
    have hq : s.Quiet t := ⟨rfl, rfl, rfl, rfl, Nat.le_refl _, fun _ hs => hs, .refl _, rfl, rfl, rfl,
      rfl, rfl, rfl, rfl, rfl⟩
    exact ⟨t, by simp only [exec, he, ok_bind]; rfl,
      hq.advances (h.quiet hq h.custody h.drained)⟩
  · let t : MasterRun F := { s with
      registry := r
      handled := (result, tested) :: s.handled }
    have hpending : t.pending = if tested then result.job.id :: s.pending else s.pending := by
      cases tested <;> rfl
    rw [← hpending] at hm
    have hqueue : r.queue = s.registry.queue := by rw [hh.same]
    have hfresh : r.fresh = s.registry.fresh := by rw [hh.same]
    have hdrained : ∀ a b, r.objects.get? a = some b → b.Drained := by
      intro a b' hb'
      cases hb : s.registry.objects.get? a with
      | none =>
        rw [hh.none a hb] at hb'
        cases hb'
      | some b =>
        obtain ⟨b₀, hb₀, -, -, -, hfailure, hholds⟩ := hh.objects a b hb
        obtain rfl := Option.some.inj (hb'.symm.trans hb₀)
        refine (h.drained a b hb).imp (fun hnone x hx => hnone x ((hholds x).1 hx).1) ?_
        rw [hfailure]
        exact fun hstage => hstage
    refine ⟨t, by simp only [exec, he, ok_bind]; rfl, h.moved hm hdrained (fun send hsend => ?_) rfl
      rfl rfl rfl, .handled hh, hm.steps.mono fun htested => ?_⟩
    · show send.job < r.fresh ∧ ∃ job, r.queue.jobs.get? send.job = some job
      rw [hfresh, hqueue]
      exact h.sends send hsend
    · obtain ⟨i, hi, hheld⟩ := hh.invoker
      refine ⟨result, ref, i, rfl, hh.recorded, hi, fun hid => ?_⟩
      rw [hheld.2 hid] at htested
      cases htested

/-- An ID stands for the job that has it. -/
theorem Inv.jobOf (h : s.Inv) {orig : JobRef} {id : JobID} (hid : s.queue.HasID orig id) :
    s.jobOf id = orig := by
  rcases h.custody.accounted.resolve hid with hget | ⟨rfl, hget⟩
  · rw [MasterRun.jobOf, hget, Option.getD_some]
  · rw [MasterRun.jobOf, hget, Option.getD_none]

/-- A pending job is out and at no other place. -/
theorem Inv.of_pending (h : s.Inv) {id : JobID} (hpending : id ∈ s.pending) :
    s.queue.HandedOut id ∧ id ∉ s.registry.nextIDs ∧ s.registry.invokerByJobID.get? id = none := by
  have hnodup := h.exact.nodup
  rw [InvokerRegistry.ledger, List.nodup_append] at hnodup
  obtain ⟨-, -, hdisjoint⟩ := hnodup
  have hout := h.exact.out _ (List.mem_append_right _ hpending)
  refine ⟨hout, fun hnext => ?_, ?_⟩
  · exact hdisjoint _ (List.mem_append_left _ hnext) _ hpending rfl
  · rw [← GoMap.not_mem_keys_iff]
    exact fun hkey => hdisjoint _ (List.mem_append_right _ hkey) _ hpending rfl

theorem Inv.accepted (h : s.Inv) {k : Nat} {result : InvokerJobResult F}
    (hresult : s.accepted[k]? = some result) :
    s.queue.HandedOut result.job.id ∧ result.job.id ∉ s.registry.nextIDs ∧
      s.registry.invokerByJobID.get? result.job.id = none :=
  h.of_pending (List.mem_append_right _ (List.mem_map_of_mem (List.mem_of_getElem? hresult)))

/-- A generator took the result of a job. -/
theorem Inv.settled (h : s.Inv) {k : Nat} {result : InvokerJobResult F}
    (hresult : s.accepted[k]? = some result) {orig : JobRef}
    (hid : s.queue.HasID orig result.job.id) {gid : GeneratorID} {g : Generator F}
    {c : Completed (Generator F) F} {q : Queue F} (hs : s.queue.JobSettled orig gid g c q) :
    InvokerRegistry.Custody { s.registry with queue := q } := by
  have hc := h.custody
  obtain ⟨hout, hnotnext, hunrecorded⟩ := h.accepted hresult
  obtain ⟨hacc, -⟩ := hc.accounted.settled hid hout hs
  obtain ⟨-, hg⟩ := hs.generator
  refine ⟨hacc, fun x hle => hs.fresh (hc.fresh x hle), fun x hle => ?_, fun ref hr => ?_, hc.objects,
    hc.registered, hc.answered, fun x ref hx => ?_⟩
  · show q.generators.get? x = none
    rw [hs.generators, GoMap.get?_set_ne, hc.unused x hle]
    rintro rfl
    rw [queue, hc.unused x hle] at hg
    cases hg
  · obtain ⟨x, hx, hids⟩ := hc.nextID hr
    refine (hs.live ref).2 ⟨hc.next ref hr, ?_⟩
    rintro rfl
    rw [hids, List.mem_singleton] at hnotnext
    exact hnotnext (hid.eq hx)
  · obtain ⟨⟨a, ha⟩, hx⟩ := hc.testing x ref hx
    refine ⟨⟨a, ha⟩, (hs.hasID_iff ref x).2 ⟨hx, ?_⟩⟩
    rintro rfl
    have hsame : x = result.job.id := hx.eq hid
    rw [hsame, hunrecorded] at ha
    cases ha

/-- The submissions after a generator took the result of a job; it returns its submission when testing
is finished. -/
theorem Inv.submissions_settled (h : s.Inv) {orig : JobRef} {gid : GeneratorID} {g : Generator F}
    {c : Completed (Generator F) F} {q : Queue F} (hs : s.queue.JobSettled orig gid g c q)
    {t : MasterRun F} (hqueue : t.queue = q) (hsubmitted : t.submitted = s.submitted)
    (hcompleted : t.completed = orig :: s.completed) (hfresh : t.registry.fresh = s.registry.fresh)
    (hreturned : ¬ c.generator.Finished ∧ t.returned = s.returned ∧ t.finishing = s.finishing ∨
      c.generator.Finished ∧ t.returned = g.submissionID :: s.returned ∧
        t.finishing = g.submissionID :: s.finishing) : t.Submissions := by
  have hsub := h.submissions
  obtain ⟨hgid, hg⟩ := hs.generator
  have hinv := h.custody.accounted.toInvariant
  have hold := hsub.progress gid _ _ (Queue.progress_eq_some.2 ⟨g, hg, rfl, rfl⟩)
  have hnot : g.submissionID ∉ s.returned := fun hr => (hinv.not_finished hgid hg).2 (hold.2.2 hr)
  have hlive : s.queue.Live orig := ⟨gid, hgid⟩
  have hprogress : ∀ a, q.progress a =
      if a = gid then some (g.submissionID, c.generator.Finished) else s.queue.progress a := by
    intro a
    rw [Queue.progress_set hs.generators, hs.settled.submissionID_eq]
  have hother : ∀ a x finished, a ≠ gid → s.queue.progress a = some (x, finished) →
      x ≠ g.submissionID := fun _ _ _ ha hp => hinv.other_submission hg ha hp
  have hret : ∀ x, x ∈ t.returned ↔ x ∈ s.returned ∨ x = g.submissionID ∧ c.generator.Finished := by
    intro x
    rcases hreturned with ⟨hfin, hr, -⟩ | ⟨hfin, hr, -⟩
    · simp [hr, hfin]
    · simp [hr, hfin, or_comm]
  have hfin : ∀ x, x ∈ t.finishing ↔
      x ∈ s.finishing ∨ x = g.submissionID ∧ c.generator.Finished := by
    intro x
    rcases hreturned with ⟨hfin, -, hf⟩ | ⟨hfin, -, hf⟩
    · simp [hf, hfin]
    · simp [hf, hfin, or_comm]
  refine ⟨fun a x finished hp => ?_, fun x => ?_, ⟨?_, fun x hx => ?_⟩, ⟨?_, fun x hx => ?_⟩, ?_⟩
  · -- the generator that was called is finished if and only if it returned its submission
    rw [hqueue, hprogress] at hp
    rw [hsubmitted, hret]
    split at hp
    · obtain ⟨rfl, rfl⟩ := Prod.mk.inj (Option.some.inj hp)
      refine ⟨hold.1, ?_⟩
      rw [or_iff_right hnot, and_iff_right rfl]
    · next ha =>
      obtain ⟨hx, hfinished⟩ := hsub.progress a x finished hp
      refine ⟨hx, hfinished.trans ?_⟩
      rw [or_iff_left fun hsame => hother a x finished ha hp hsame.1]
  · -- a submission that is returned now stays active until its testing is finished
    rw [hqueue, hs.status, hsub.active, hsubmitted, hret, hfin]
    refine and_congr_right fun _ => ⟨fun hx => Or.imp_left hx, fun hx hr => ?_⟩
    refine (hx (.inl hr)).resolve_right fun hsame => ?_
    exact hnot (hsame.1 ▸ hr)
  · rcases hreturned with ⟨-, hr, -⟩ | ⟨-, hr, -⟩
    · exact hr ▸ hsub.returned.1
    · exact hr ▸ List.nodup_cons.2 ⟨hnot, hsub.returned.1⟩
  · rw [hsubmitted]
    rcases (hret x).1 hx with hr | ⟨rfl, -⟩
    · exact hsub.returned.2 x hr
    · exact hold.1
  · rcases hreturned with ⟨-, -, hf⟩ | ⟨-, -, hf⟩
    · exact hf ▸ hsub.finishing.1
    · exact hf ▸ List.nodup_cons.2 ⟨fun hx => hnot (hsub.finishing.2 _ hx), hsub.finishing.1⟩
  · rw [hret]
    exact ((hfin x).1 hx).imp_left (hsub.finishing.2 x)
  · -- the completed job was live before, so it is completed for the first time
    rw [hcompleted, hqueue, hfresh]
    refine ⟨List.nodup_cons.2 ⟨fun ho => (hsub.completed.2 orig ho).1 hlive, hsub.completed.1⟩,
      fun o ho => ?_⟩
    rcases List.mem_cons.1 ho with rfl | ho
    · refine ⟨fun hl => ((hs.live o).1 hl).2 rfl, ?_⟩
      by_contra hle
      exact (h.custody.fresh o (Nat.not_lt.1 hle)).1 hlive
    · obtain ⟨hdead, hlt⟩ := hsub.completed.2 o ho
      exact ⟨fun hl => hdead ((hs.live o).1 hl).1, hlt⟩

theorem Inv.jobCompleted (h : s.Inv) {k : Nat} {result : InvokerJobResult F}
    (hresult : s.accepted[k]? = some result) (epoch : Epoch) :
    Yields Generator.scorePanics (s.Advances (.jobCompleted k epoch))
      (s.exec (.jobCompleted k epoch)) := by
  obtain ⟨hout, -⟩ := h.accepted hresult
  obtain ⟨orig, -, hid⟩ := id hout
  have hjob := h.jobOf hid
  rcases h.custody.accounted.toInvariant.jobCompleted hid epoch with
    ⟨gid, g, c, q, he, hs⟩ | ⟨p, he, hp⟩
  · let completed (returned finishing : List SubmissionID) : MasterRun F := { s with
      registry := { s.registry with queue := q }
      accepted := s.accepted.eraseIdx k
      finishing := finishing
      completed := orig :: s.completed
      returned := returned }
    have hadvances : ∀ returned finishing,
        ¬ c.generator.Finished ∧ returned = s.returned ∧ finishing = s.finishing ∨
          c.generator.Finished ∧ returned = g.submissionID :: s.returned ∧
            finishing = g.submissionID :: s.finishing →
        s.Advances (.jobCompleted k epoch) (completed returned finishing) := by
      intro returned finishing hreturned
      let t := completed returned finishing
      have hcustody : t.registry.Custody := h.settled hresult hid hs
      have hpending : s.pending.Perm (result.job.id :: t.pending) := by
        obtain ⟨hlt, hget⟩ := List.getElem?_eq_some_iff.1 hresult
        have hperm : s.accepted.Perm (result :: s.accepted.eraseIdx k) :=
          hget ▸ (List.getElem_cons_eraseIdx_perm hlt).symm
        exact ((hperm.map fun result => result.job.id).append_left _).trans List.perm_middle
      have hledger : (s.registry.ledger s.pending).Step (s.Drops (.jobCompleted k epoch))
          (t.registry.ledger t.pending) := by
        refine .settle _ (h.custody.accounted.settled hid hout hs).2 ?_
        have hnext : t.registry.nextIDs = s.registry.nextIDs :=
          InvokerRegistry.nextIDs_eq rfl hs.jobs
        show (s.registry.nextIDs ++ s.registry.invokerByJobID.keys ++ s.pending).Perm
          (result.job.id :: (t.registry.nextIDs ++ s.registry.invokerByJobID.keys ++ t.pending))
        rw [hnext]
        exact (hpending.append_left _).trans List.perm_middle
      refine ⟨⟨hcustody, hledger.exact h.exact, h.drained, fun send hsend => ?_,
        h.submissions_settled hs rfl rfl rfl rfl hreturned⟩,
        .completed hresult hid hs rfl rfl rfl rfl rfl rfl rfl, .single hledger⟩
      obtain ⟨hlt, job, hjob⟩ := h.sends send hsend
      exact ⟨hlt, job, (congrArg (GoMap.get? · send.job) hs.jobs).trans hjob⟩
    simp only [exec, MasterRun.jobCompleted, hresult, he, hjob, ok_bind]
    rcases hs.settled.submission with ⟨hsub, hfin⟩ | ⟨submission, hsub, hsame, hfin⟩
    · rw [hsub]
      exact hadvances _ _ (.inl ⟨hfin, rfl, rfl⟩)
    · rw [hsub]
      exact hadvances _ _ (.inr ⟨hfin, congrArg (· :: s.returned) hsame,
        congrArg (· :: s.finishing) hsame⟩)
  · simp only [exec, MasterRun.jobCompleted, hresult, he, error_bind]
    exact hp

theorem Inv.finishSubmissionTesting (h : s.Inv) {id : SubmissionID} (hen : id ∈ s.finishing) :
    ∃ t, s.exec (.finishSubmissionTesting id) = .ok t ∧
      s.Advances (.finishSubmissionTesting id) t := by
  have hc := h.custody
  have hs := h.submissions
  have hreturned := hs.finishing.2 id hen
  obtain ⟨status, he, hactive⟩ := QueueStatus.finishSubmissionTesting_active
    ((hs.active id).2 ⟨hs.returned.2 id hreturned, fun _ => hen⟩)
  let t : MasterRun F := { s with
    registry := { s.registry with queue := { s.queue with status := status } }
    finishing := s.finishing.erase id }
  have hi := hc.accounted.toInvariant
  have hinv : t.queue.Invariant := by
    refine ⟨hi.healthy, hi.distinct, hi.given, hi.job, hi.live, hi.object, hi.renamed, hi.nodup,
      hi.active, hi.exists_generator, hi.idle, fun gid g hg hfin => ?_⟩
    refine (hactive _).2 ⟨?_, hi.tested gid g hg hfin⟩
    rintro rfl
    exact hfin ((hs.progress gid _ _ (Queue.progress_eq_some.2 ⟨g, hg, rfl, rfl⟩)).2.2 hreturned)
  have hcustody : t.registry.Custody := ⟨⟨hinv, hc.accounted.failed_nodup, hc.accounted.failed_live⟩,
    hc.fresh, hc.unused, hc.next, hc.objects, hc.registered, hc.answered, hc.testing⟩
  refine ⟨t, by simp only [exec, he, ok_bind]; rfl, ⟨hcustody, h.exact, h.drained, h.sends,
    hs.progress, fun x => ?_, hs.returned, ⟨hs.finishing.1.erase id, fun x hx => ?_⟩, hs.completed⟩,
    .finished, .single (.move (fun _ => Iff.rfl) (.refl _))⟩
  · show status.Active x ↔ x ∈ s.submitted ∧ (x ∈ s.returned → x ∈ s.finishing.erase id)
    rw [hactive, hs.active, hs.finishing.1.mem_erase_iff]
    constructor
    · rintro ⟨hne, hx, hfin⟩
      exact ⟨hx, fun hr => ⟨hne, hfin hr⟩⟩
    · rintro ⟨hx, hfin⟩
      refine ⟨?_, hx, fun hr => (hfin hr).2⟩
      rintro rfl
      exact (hfin hreturned).1 rfl
  · exact hs.finishing.2 x (List.mem_of_mem_erase hx)

/-! ## All steps -/

omit [Add F] [Min F] [Zero F] [One F] in
theorem yields_of_ok {P : Panic → Prop} {Q : MasterRun F → Prop} {x : Except Panic (MasterRun F)}
    (h : ∃ t, x = .ok t ∧ Q t) : Yields P Q x := by
  obtain ⟨t, rfl, ht⟩ := h
  exact ht

/-- The panics of the master. -/
def Panics (p : Panic) : Prop := p = .sendingJobChanged ∨ Generator.scorePanics p

theorem Inv.step (h : s.Inv) {a : MasterStep F} (hen : s.enabled a) :
    Yields Panics (s.Advances a) (s.exec a) := by
  have hnever : ∀ {x : Except Panic (MasterRun F)} {Q : MasterRun F → Prop},
      Yields (fun _ => False) Q x → Yields Panics Q x := fun hx =>
    hx.mono (fun _ hp => hp.elim) fun _ hq => hq
  cases a with
  | submit => exact yields_of_ok (h.submit hen)
  | takeNextJob => exact yields_of_ok h.takeNextJob
  | trySendJob => exact yields_of_ok (h.trySendJob hen)
  | buildRequest => exact yields_of_ok (h.buildRequest hen.1)
  | completeSendJob send response =>
    exact (h.completeSendJob hen.1 response hen.2.2).mono (fun _ => .inl) fun _ ht => ht
  | ping ref response => exact hnever (h.ping ref response hen)
  | ensureJobIsNotLost ref id => exact hnever (h.ensureJobIsNotLost ref id)
  | markFailed ref => exact hnever (h.markFailed ref)
  | upsertInvoker status => exact yields_of_ok (h.upsertInvoker status hen)
  | extractJobs ref order =>
    obtain ⟨⟨i, hi, hstarted⟩, ho⟩ := hen
    exact hnever (h.extractJobs hi hstarted ho)
  | rescheduleJob =>
    obtain ⟨i, id, jobs, hi, hf⟩ := hen
    exact yields_of_ok (h.rescheduleJob hi hf)
  | removeInvoker =>
    obtain ⟨i, hi, hf⟩ := hen
    exact hnever (h.removeInvoker hi hf)
  | handleInvokerJobResult result => exact yields_of_ok (h.handleInvokerJobResult result)
  | upsertAfterResult =>
    obtain ⟨⟨entry, hentry⟩, ho⟩ := hen
    exact yields_of_ok (h.upsertAfterResult hentry ho)
  | jobCompleted k epoch =>
    obtain ⟨result, hresult⟩ := hen
    exact (h.jobCompleted hresult epoch).mono (fun _ => .inr) fun _ ht => ht
  | finishSubmissionTesting => exact yields_of_ok (h.finishSubmissionTesting hen)

/-- The invariant holds in every reachable state. -/
theorem inv {ok : MasterRun F → MasterStep F → Prop} (h : machine.Reachable ok s) : s.Inv := by
  refine h.invariant (P := Inv) ?_ ?_
  · rintro s rfl
    exact inv_new
  · intro s a t hs _ hen hex
    exact ((hs.step hen).value hex).inv

end MasterRun

end TestingSystem
