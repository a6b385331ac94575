import TestingSystem.Master.StaleResults

/-!
# Job objects that are shared

`RescheduleJob` changes the ID of an object that a running `completeSendJob` still holds. The request is
built with the ID that the object has then, so it carries the ID under which `TrySendJob` recorded the
job exactly if the job was not rescheduled in between.
-/

set_option autoImplicit false

namespace TestingSystem.MasterRun

variable {F : Type}

/-- Every request carries the ID that was recorded for its invoker, and no ID is sent to two invokers. -/
def OwnIDs (s : MasterRun F) : Prop :=
  (∀ req ∈ s.requests, req.request = some req.recorded) ∧
    ∀ req ∈ s.requests, ∀ req' ∈ s.requests, req.request = req'.request → req.invoker = req'.invoker

/-- No request is built for a job that was rescheduled since it was recorded. -/
def RequestsInTime (s : MasterRun F) : MasterStep F → Prop
  | .buildRequest send => send.recorded ∉ s.rescheduled
  | _ => True

/-- The IDs of the job objects: all are different, none was given up by `RescheduleJob`, and a job that
waits to be sent has one that was never sent. -/
structure Shared (s : MasterRun F) : Prop where
  lt : ∀ o job, s.queue.jobs.get? o = some job → job.id < s.registry.fresh
  distinct : ∀ o o' job job', s.queue.jobs.get? o = some job → s.queue.jobs.get? o' = some job' →
    job.id = job'.id → o = o'
  kept : ∀ o job, s.queue.jobs.get? o = some job → job.id ∉ s.rescheduled
  rescheduled_lt : ∀ id ∈ s.rescheduled, id < s.registry.fresh
  sent_lt : ∀ id ref, s.sent.get? id = some ref → id < s.registry.fresh
  unsent : ∀ o job, s.registry.nextJob = some o ∨ o ∈ s.queue.newFailedJobs →
    s.queue.jobs.get? o = some job → s.sent.get? job.id = none
  sends : ∀ send ∈ s.sends, s.sent.get? send.recorded = some send.invoker ∧
    (send.recorded ∉ s.rescheduled →
      ∃ job, s.queue.jobs.get? send.job = some job ∧ job.id = send.recorded)
  requests : ∀ req ∈ s.requests, s.sent.get? req.recorded = some req.invoker

variable [Add F] [Min F] [Zero F] [One F] {s t : MasterRun F}

omit [Add F] [Min F] [Zero F] [One F] in
theorem shared_new : Shared (new : MasterRun F) where
  lt _ _ h := nomatch h
  distinct _ _ _ _ h := nomatch h
  kept _ _ h := nomatch h
  rescheduled_lt _ h := nomatch h
  sent_lt _ _ h := nomatch h
  unsent _ _ _ h := nomatch h
  sends _ h := nomatch h
  requests _ h := nomatch h

omit [Add F] [Min F] [Zero F] [One F] in
/-- A step that changes no job object, sends none and reschedules none. -/
theorem Shared.of_jobs (h : s.Shared) (hjobs : t.queue.jobs = s.queue.jobs)
    (hfresh : s.registry.fresh ≤ t.registry.fresh) (hrescheduled : t.rescheduled = s.rescheduled)
    (hsent : t.sent = s.sent) (hrequests : t.requests = s.requests)
    (hsends : ∀ send ∈ t.sends, send ∈ s.sends)
    (hwaiting : ∀ o, t.registry.nextJob = some o ∨ o ∈ t.queue.newFailedJobs →
      s.registry.nextJob = some o ∨ o ∈ s.queue.newFailedJobs) : t.Shared := by
  refine ⟨fun o job ho => ?_, ?_, ?_, fun id hid => ?_, fun id ref hid => ?_, fun o job ho hjob => ?_,
    fun send hsend => ?_, ?_⟩
  · rw [hjobs] at ho
    exact Nat.lt_of_lt_of_le (h.lt o job ho) hfresh
  · rw [hjobs]
    exact h.distinct
  · rw [hjobs, hrescheduled]
    exact h.kept
  · rw [hrescheduled] at hid
    exact Nat.lt_of_lt_of_le (h.rescheduled_lt id hid) hfresh
  · rw [hsent] at hid
    exact Nat.lt_of_lt_of_le (h.sent_lt id ref hid) hfresh
  · rw [hjobs] at hjob
    rw [hsent]
    exact h.unsent o job (hwaiting o ho) hjob
  · rw [hsent, hrescheduled, hjobs]
    exact h.sends send (hsends send hsend)
  · rw [hrequests, hsent]
    exact h.requests

omit [Add F] [Min F] [Zero F] [One F] in
/-- An object gets a new ID; the IDs of `gone` are given up. -/
theorem Shared.renew (h : s.Shared) {o : JobRef} (gone : List JobID)
    (hother : ∀ a, a ≠ o → t.queue.jobs.get? a = s.queue.jobs.get? a)
    (hnew : ∀ job, t.queue.jobs.get? o = some job → job.id = s.registry.fresh)
    (hfresh : t.registry.fresh = s.registry.fresh + 1)
    (hrescheduled : t.rescheduled = gone ++ s.rescheduled)
    (hgone : ∀ id ∈ gone, id < s.registry.fresh ∧
      ∀ a job, a ≠ o → s.queue.jobs.get? a = some job → job.id ≠ id)
    (hsent : t.sent = s.sent) (hrequests : t.requests = s.requests) (hsends : t.sends = s.sends)
    (hheld : ∀ send ∈ s.sends, send.job = o → send.recorded ∈ gone ++ s.rescheduled)
    (hwaiting : ∀ a, t.registry.nextJob = some a ∨ a ∈ t.queue.newFailedJobs →
      a = o ∨ s.registry.nextJob = some a ∨ a ∈ s.queue.newFailedJobs) : t.Shared := by
  have hobject : ∀ a job, t.queue.jobs.get? a = some job →
      a = o ∧ job.id = s.registry.fresh ∨ a ≠ o ∧ s.queue.jobs.get? a = some job := by
    intro a job hjob
    by_cases ha : a = o
    · subst ha
      exact .inl ⟨rfl, hnew job hjob⟩
    · exact .inr ⟨ha, (hother a ha).symm.trans hjob⟩
  have hlost : ∀ id ∈ gone ++ s.rescheduled, id < s.registry.fresh := by
    intro id hid
    rcases List.mem_append.1 hid with hid | hid
    · exact (hgone id hid).1
    · exact h.rescheduled_lt id hid
  refine ⟨fun a job hjob => ?_, fun a b job job' hjob hjob' heq => ?_, fun a job hjob => ?_,
    fun id hid => ?_, fun id ref hid => ?_, fun a job ha hjob => ?_, fun send hsend => ?_, ?_⟩
  · rw [hfresh]
    rcases hobject a job hjob with ⟨-, hid⟩ | ⟨-, hold⟩
    · exact hid ▸ Nat.lt_succ_self _
    · exact Nat.lt_succ_of_lt (h.lt a job hold)
  · rcases hobject a job hjob with ⟨rfl, hid⟩ | ⟨-, hold⟩ <;>
      rcases hobject b job' hjob' with ⟨rfl, hid'⟩ | ⟨-, hold'⟩
    · rfl
    · exact absurd (h.lt b job' hold') (by rw [← heq, hid]; exact Nat.lt_irrefl _)
    · exact absurd (h.lt a job hold) (by rw [heq, hid']; exact Nat.lt_irrefl _)
    · exact h.distinct a b job job' hold hold' heq
  · rw [hrescheduled]
    intro hmem
    rcases hobject a job hjob with ⟨-, hid⟩ | ⟨ha, hold⟩
    · exact absurd (hlost _ hmem) (by rw [hid]; exact Nat.lt_irrefl _)
    · rcases List.mem_append.1 hmem with hmem | hmem
      · exact (hgone _ hmem).2 a job ha hold rfl
      · exact h.kept a job hold hmem
  · rw [hfresh]
    exact Nat.lt_succ_of_lt (hlost id (hrescheduled ▸ hid))
  · rw [hfresh]
    exact Nat.lt_succ_of_lt (h.sent_lt id ref (hsent ▸ hid))
  · rw [hsent]
    rcases hobject a job hjob with ⟨-, hid⟩ | ⟨ha', hold⟩
    · cases hget : s.sent.get? job.id with
      | none => rfl
      | some ref => exact absurd (h.sent_lt _ ref hget) (by rw [hid]; exact Nat.lt_irrefl _)
    · exact h.unsent a job ((hwaiting a ha).resolve_left ha') hold
  · rw [hsends] at hsend
    obtain ⟨hrecorded, hjob⟩ := h.sends send hsend
    rw [hsent, hrescheduled]
    refine ⟨hrecorded, fun hnot => ?_⟩
    have ho : send.job ≠ o := fun heq => hnot (hheld send hsend heq)
    rw [hother _ ho]
    exact hjob fun hmem => hnot (List.mem_append_right _ hmem)
  · rw [hrequests, hsent]
    exact h.requests

/-- The next job, with the ID that it has. -/
theorem Inv.next_not_failed (h : s.Inv) {job : JobRef} (hnext : s.registry.nextJob = some job) :
    job ∉ s.queue.newFailedJobs := by
  obtain ⟨id, hid, hids⟩ := h.custody.nextID hnext
  have hout : s.queue.HandedOut id := by
    refine h.exact.out id ?_
    rw [InvokerRegistry.ledger, hids]
    exact List.mem_cons_self
  exact (h.custody.accounted.handedOut_iff hid).1 hout

/-- The next job is sent. -/
theorem Shared.sendNext (h : s.Shared) (hinv : s.Inv) {ref : InvokerRef} {job : JobRef} {id : JobID}
    (hnext : s.registry.nextJob = some job) (hid : s.queue.HasID job id) (hqueue : t.queue = s.queue)
    (hfresh : t.registry.fresh = s.registry.fresh) (hnone : t.registry.nextJob = none)
    (hrescheduled : t.rescheduled = s.rescheduled) (hrequests : t.requests = s.requests)
    (hsends : t.sends = ⟨ref, job, id, none⟩ :: s.sends) (hsent : t.sent = s.sent.set id ref) :
    t.Shared := by
  obtain ⟨-, object, hobject, rfl⟩ := hid
  have hunsent := h.unsent job object (.inl hnext) hobject
  have hset : ∀ x a, s.sent.get? x = some a → t.sent.get? x = some a := by
    intro x a hx
    rw [hsent, GoMap.get?_set_ne _ _ fun heq => ?_, hx]
    rw [heq, hunsent] at hx
    cases hx
  refine ⟨?_, ?_, ?_, ?_, fun x a hx => ?_, fun o b ho hb => ?_, fun send hsend => ?_,
    fun req hreq => ?_⟩
  · rw [hqueue, hfresh]
    exact h.lt
  · rw [hqueue]
    exact h.distinct
  · rw [hqueue, hrescheduled]
    exact h.kept
  · rw [hrescheduled, hfresh]
    exact h.rescheduled_lt
  · rw [hfresh]
    rw [hsent] at hx
    rcases GoMap.of_get?_set hx with ⟨heq, -⟩ | ⟨-, hx⟩
    · exact heq ▸ h.lt job object hobject
    · exact h.sent_lt x a hx
  · rw [hqueue] at ho hb
    rw [hnone] at ho
    have ho := ho.resolve_left fun hr => (nomatch hr)
    rw [hsent, GoMap.get?_set_ne _ _ fun heq => ?_]
    · exact h.unsent o b (.inr ho) hb
    · have heq := h.distinct o job b object hb hobject heq
      exact hinv.next_not_failed hnext (heq ▸ ho)
  · rw [hsends] at hsend
    rw [hqueue, hrescheduled]
    rcases List.mem_cons.1 hsend with rfl | hold
    · refine ⟨?_, fun _ => ⟨object, hobject, rfl⟩⟩
      rw [hsent]
      exact GoMap.get?_set_self _ _ _
    · obtain ⟨hrecorded, hjob⟩ := h.sends send hold
      exact ⟨hset _ _ hrecorded, hjob⟩
  · exact hset _ _ (h.requests req (hrequests ▸ hreq))

/-- `NextJob` asked the generators. -/
theorem Shared.created (h : s.Shared) (hinv : s.Inv) {next : Option JobRef} {q : Queue F}
    {created : GoMap JobRef (Queue F × Queue F)} (hc : s.queue.Chosen s.registry.fresh next q) :
    Shared { s with
      registry := { s.registry with nextJob := next, queue := q, fresh := s.registry.fresh + 1 }
      created := created } := by
  cases next with
  | none =>
    refine h.of_jobs (hc.none rfl).2.2 (Nat.le_succ _) rfl rfl rfl (fun _ hsend => hsend) fun o ho => ?_
    exact .inr (hc.failed ▸ ho.resolve_left fun hr => (nomatch hr))
  | some ref =>
    obtain ⟨rfl, -, job, hjobs, hjid⟩ := hc.some ref rfl
    have hnew : ∀ a b, q.jobs.get? a = some b → a = s.registry.fresh → b = job := by
      rintro a b hb rfl
      rw [hjobs, GoMap.get?_set_self] at hb
      exact (Option.some.inj hb).symm
    refine h.renew (o := s.registry.fresh) [] (fun a ha => ?_) (fun b hb => ?_) rfl (List.nil_append _).symm
      (fun id hid => (nomatch hid)) rfl rfl rfl (fun send hsend heq => ?_) fun a ha => ?_
    · show q.jobs.get? a = s.queue.jobs.get? a
      rw [hjobs, GoMap.get?_set_ne _ _ ha]
    · exact hnew _ b hb rfl ▸ hjid
    · exact absurd (hinv.sends send hsend).1 (by rw [heq]; exact Nat.lt_irrefl _)
    · rcases ha with hr | hfailed
      · exact .inl (Option.some.inj hr).symm
      · exact .inr (.inr (hc.failed ▸ hfailed))

/-- A job was rescheduled: its old ID is given up. -/
theorem Shared.rescheduled (h : s.Shared) {orig : JobRef} {id : JobID} (hid : s.queue.HasID orig id)
    {q : Queue F} (hr : s.queue.Rescheduled orig id s.registry.fresh q) {ref : InvokerRef}
    {i : Invoker} :
    Shared { s with
      registry := { s.registry with
        queue := q
        fresh := s.registry.fresh + 1
        invokerByJobID := s.registry.invokerByJobID.delete id
        testingJobs := s.registry.testingJobs.delete id
        objects := s.registry.objects.set ref i }
      rescheduled := id :: s.rescheduled } := by
  obtain ⟨-, object, hobject, rfl⟩ := hid
  obtain ⟨-, renamed, hrenamed, hnew⟩ := hr.hasID
  refine h.renew [object.id] hr.jobs (fun job hjob => ?_) rfl rfl (fun id hid => ?_) rfl rfl rfl
    (fun send hsend heq => ?_) fun a ha => ?_
  · obtain rfl := Option.some.inj (hrenamed.symm.trans hjob)
    exact hnew
  · obtain rfl := List.mem_singleton.1 hid
    exact ⟨h.lt orig object hobject, fun a job ha hjob hsame =>
      ha (h.distinct a orig job object hjob hobject hsame)⟩
  · by_contra hnot
    rw [List.mem_append, not_or, List.mem_singleton] at hnot
    obtain ⟨job, hjob, hsame⟩ := (h.sends send hsend).2 hnot.2
    obtain rfl := Option.some.inj ((heq ▸ hjob).symm.trans hobject)
    exact hnot.1 hsame.symm
  · rcases ha with hnext | hfailed
    · exact .inr (.inl hnext)
    · have hfailed : a ∈ q.newFailedJobs := hfailed
      rw [hr.failed, List.mem_append, List.mem_singleton] at hfailed
      exact hfailed.elim (fun hold => .inr (.inr hold)) .inl

/-- Every step keeps the facts about the IDs. -/
theorem Shared.step (h : s.Shared) (hinv : s.Inv) {a : MasterStep F} (he : s.Effect a t) :
    t.Shared := by
  cases he with
  | quiet hq =>
    refine h.of_jobs (by rw [hq.queue]) hq.fresh hq.rescheduled hq.sent hq.requests hq.sends ?_
    rw [hq.nextJob, hq.queue]
    exact fun _ ho => ho
  | submitted hs =>
    refine h.of_jobs hs.jobs (Nat.le_succ _) rfl rfl rfl (fun _ hsend => hsend) fun o ho => ?_
    exact ho.imp_right fun ho => hs.failed ▸ ho
  | taken hnone hcall ht =>
    have hfresh := hinv.custody.fresh s.registry.fresh (Nat.le_refl _)
    rcases hinv.custody.accounted.toInvariant.nextJob_cases hfresh hcall with
      ⟨ref, rest, hfailed, rfl, rfl⟩ | ⟨hfailed, hc⟩
    · refine h.of_jobs rfl (Nat.le_succ _) rfl rfl rfl (fun _ hsend => hsend) fun o ho => .inr ?_
      rw [hfailed]
      exact ho.elim (fun hr => Option.some.inj hr ▸ List.mem_cons_self) (List.mem_cons_of_mem _)
    · exact h.created hinv hc
  | sent hnext hid hnew =>
    exact h.sendNext hinv hnext hid rfl rfl rfl rfl rfl rfl rfl
  | built hmem hobject =>
    have hheld := h.sends _ hmem
    refine ⟨h.lt, h.distinct, h.kept, h.rescheduled_lt, h.sent_lt, h.unsent, fun send hsend => ?_,
      fun req hreq => ?_⟩
    · rcases List.mem_cons.1 hsend with rfl | hold
      · exact hheld
      · exact h.sends send (List.mem_of_mem_erase hold)
    · rcases List.mem_cons.1 hreq with rfl | hold
      · exact hheld.1
      · exact h.requests req hold
  | rescheduled hrec hid hr => exact h.rescheduled hid hr
  | handled hh =>
    have hsame := hh.same
    refine h.of_jobs ?_ ?_ rfl rfl rfl (fun _ hsend => hsend) ?_
    · rw [queue, hsame]
    · rw [hsame]
    · rw [queue, hsame]
      exact fun _ ho => ho
  | completed _ _ hs hregistry hsends _ hsent hrequests hrescheduled =>
    refine h.of_jobs hs.jobs ?_ hrescheduled hsent hrequests (fun send hsend => hsends ▸ hsend) ?_
    · rw [hregistry]
    · rw [hregistry, queue, hs.failed]
      exact fun _ ho => ho
  | finished => exact h.of_jobs rfl (Nat.le_refl _) rfl rfl rfl (fun _ hsend => hsend) fun _ ho => ho

/-! ## The requests -/

omit [Add F] [Min F] [Zero F] [One F] in
/-- No ID is sent to two invokers if every request carries the ID that was recorded. -/
theorem Shared.ownIDs_iff (h : s.Shared) :
    s.OwnIDs ↔ ∀ req ∈ s.requests, req.request = some req.recorded := by
  refine ⟨And.left, fun hown => ⟨hown, fun req hreq req' hreq' heq => ?_⟩⟩
  have hrecorded : req.recorded = req'.recorded := by
    rw [hown req hreq, hown req' hreq'] at heq
    exact Option.some.inj heq
  have hsent := h.requests req hreq
  rw [hrecorded, h.requests req' hreq'] at hsent
  exact (Option.some.inj hsent).symm

omit [Add F] [Min F] [Zero F] [One F] in
/-- A request carries the recorded ID exactly if the job was not rescheduled. -/
theorem Shared.request_iff (h : s.Shared) {send : PendingSend} (hmem : send ∈ s.sends) {job : Job}
    (hjob : s.queue.jobs.get? send.job = some job) :
    job.id = send.recorded ↔ send.recorded ∉ s.rescheduled := by
  constructor
  · intro hsame
    exact hsame ▸ h.kept _ job hjob
  · intro hnot
    obtain ⟨job', hjob', hsame⟩ := (h.sends send hmem).2 hnot
    rw [Option.some.inj (hjob.symm.trans hjob')]
    exact hsame

/-- Only `buildRequest` makes a request. -/
theorem Effect.requests {a : MasterStep F} (he : s.Effect a t) :
    t.requests = s.requests ∨ ∃ send, a = .buildRequest send := by
  cases he with
  | quiet hq => exact .inl hq.requests
  | built => exact .inr ⟨_, rfl⟩
  | completed _ _ _ _ _ _ _ hrequests => exact .inl hrequests
  | _ => exact .inl rfl

/-- A step keeps the requests right exactly if it builds none for a rescheduled job. -/
theorem Shared.ownIDs_step (h : s.Shared) (hinv : s.Inv) (hown : s.OwnIDs) {a : MasterStep F}
    (hen : s.enabled a) (he : s.exec a = .ok t) : t.OwnIDs ↔ s.RequestsInTime a := by
  have hstep := (hinv.step hen).value he
  rw [(h.step hinv hstep.effect).ownIDs_iff]
  cases a with
  | buildRequest send =>
    obtain ⟨hmem, -⟩ := hen
    obtain ⟨-, job, hjob⟩ := hinv.sends send hmem
    have hjob' : s.registry.queue.jobs.get? send.job = some job := hjob
    simp only [exec, queue, hjob', deref_some, ok_bind] at he
    cases he
    show (∀ req ∈ { send with request := some job.id } :: s.requests,
      req.request = some req.recorded) ↔ send.recorded ∉ s.rescheduled
    rw [List.forall_mem_cons, and_iff_left (h.ownIDs_iff.1 hown), ← h.request_iff hmem hjob,
      Option.some_inj]
  | _ =>
    refine iff_of_true ?_ trivial
    rcases hstep.effect.requests with hsame | ⟨send, heq⟩
    · exact hsame ▸ h.ownIDs_iff.1 hown
    · cases heq

/-- In the runs in which no request is built for a job that was rescheduled since it was recorded, every
request carries the recorded ID and no ID is sent to two invokers; a step from one of their states
breaks that exactly if it builds such a request. -/
theorem ownIDs_of_requestsInTime (hr : machine.Reachable RequestsInTime s) :
    s.OwnIDs ∧ ∀ a t, s.enabled a → s.exec a = .ok t → (t.OwnIDs ↔ s.RequestsInTime a) := by
  have hs : s.Inv ∧ s.Shared ∧ s.OwnIDs := by
    refine hr.invariant (P := fun s => s.Inv ∧ s.Shared ∧ s.OwnIDs) ?_ ?_
    · rintro s rfl
      exact ⟨inv_new, shared_new, fun _ h => (nomatch h), fun _ h => (nomatch h)⟩
    · rintro s a t ⟨hinv, hshared, hown⟩ hok hen he
      have hstep := (hinv.step hen).value he
      exact ⟨hstep.inv, hshared.step hinv hstep.effect,
        (hshared.ownIDs_step hinv hown hen he).2 hok⟩
  obtain ⟨hinv, hshared, hown⟩ := hs
  exact ⟨hown, fun a t hen he => hshared.ownIDs_step hinv hown hen he⟩

theorem ownIDs_of_requestsInTime_sent :
    ∃ s : MasterRun Int, machine.Reachable RequestsInTime s ∧ s.requests = [⟨1, 2, 2, some 2⟩] ∧
      s.OwnIDs := by
  have hr := Machine.Reachable.of_runs (machine (F := Int)) RequestsInTime
    [.submit GeneratorRun.twoTests GeneratorRun.newSubmission 0, .upsertInvoker oneJob id,
      .takeNextJob, .trySendJob 1, .buildRequest ⟨1, 2, 2, none⟩]
    (.of_init rfl)
    ⟨trivial, List.not_mem_nil, _, rfl, trivial, fun ids => .refl ids, _, rfl, trivial, trivial, _, rfl,
      trivial, List.mem_cons_self, _, rfl, List.not_mem_nil, ⟨List.mem_cons_self, rfl⟩, _, rfl, rfl⟩
  exact ⟨_, hr, rfl, (ownIDs_of_requestsInTime hr).1⟩

/-- The first invoker fails before its request is built, and the job is rescheduled and sent to a second
one: both requests carry the new ID. -/
theorem renamed_job_sent_twice :
    ¬ ∀ s : MasterRun Int, machine.Reachable Machine.always s → s.OwnIDs := by
  intro hall
  have hr := Machine.Reachable.of_runs (machine (F := Int)) Machine.always
    [.submit GeneratorRun.twoTests GeneratorRun.newSubmission 0, .upsertInvoker oneJob id,
      .takeNextJob, .trySendJob 1, .ping 1 none id, .extractJobs 1 id, .rescheduleJob 1,
      .removeInvoker 1, .upsertInvoker oneJob id, .takeNextJob, .trySendJob 4,
      .buildRequest ⟨1, 2, 2, none⟩, .buildRequest ⟨4, 2, 3, none⟩]
    (.of_init rfl)
    ⟨trivial, List.not_mem_nil, _, rfl, trivial, fun ids => .refl ids, _, rfl, trivial, trivial, _, rfl,
      trivial, List.mem_cons_self, _, rfl, trivial, fun ids => .refl ids, _, rfl,
      trivial, ⟨⟨_, rfl, rfl⟩, fun ids => .refl ids⟩, _, rfl, trivial, ⟨_, _, _, rfl, rfl⟩, _, rfl,
      trivial, ⟨_, rfl, rfl⟩, _, rfl, trivial, fun ids => .refl ids, _, rfl, trivial, trivial, _, rfl,
      trivial, List.mem_cons_self, _, rfl,
      trivial, ⟨List.mem_cons_of_mem _ List.mem_cons_self, rfl⟩, _, rfl,
      trivial, ⟨List.mem_cons_of_mem _ List.mem_cons_self, rfl⟩, _, rfl, rfl⟩
  have hown := (hall _ hr).2 ⟨4, 2, 3, some 3⟩ List.mem_cons_self ⟨1, 2, 2, some 3⟩
    (List.mem_cons_of_mem _ List.mem_cons_self) rfl
  cases hown

end TestingSystem.MasterRun
