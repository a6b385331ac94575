import TestingSystem.Master.Master

/-!
# Whole sections of the registry

A call of `SendJobs` and the section of `OnInvokerFailure` under the mutex of the registry are runs of
the master: their turns, one after the other, with no other step in between. The bound on the turns of
the inner loop of `SendJobs` is never reached.
-/

set_option autoImplicit false

namespace TestingSystem

namespace InvokerRegistry

variable {F : Type} {r r' : InvokerRegistry F} {ref : InvokerRef}

theorem rescheduleJobs_setInvoker {jobs : List JobID} (i : Invoker)
    (he : rescheduleJobs jobs r = .ok r') :
    rescheduleJobs jobs (r.setInvoker ref i) = .ok (r'.setInvoker ref i) := by
  induction jobs generalizing r with
  | nil =>
    cases he
    rfl
  | cons id jobs ih =>
    have hsame : (r.setInvoker ref i).invokerByJobID.get? id = r.invokerByJobID.get? id := rfl
    unfold rescheduleJobs at he ⊢
    rw [hsame]
    cases hrec : r.invokerByJobID.get? id with
    | none =>
      simp only [hrec] at he
      exact ih he
    | some recorded =>
      simp only [hrec] at he
      obtain ⟨⟨queue, result⟩, hcall, he⟩ := bind_eq_ok.1 he
      exact bind_eq_ok.2 ⟨(queue, result), hcall, ih he⟩

theorem rescheduleJobs_cons (id : JobID) (jobs : List JobID) (r : InvokerRegistry F) :
    rescheduleJobs (id :: jobs) r = (rescheduleJobs [id] r >>= rescheduleJobs jobs) := by
  cases hrec : r.invokerByJobID.get? id with
  | none => simp only [rescheduleJobs, hrec, ok_bind]
  | some recorded =>
    cases hcall : r.queue.rescheduleJob id r.fresh with
    | error p => simp only [rescheduleJobs, hrec, hcall, error_bind]
    | ok result => simp only [rescheduleJobs, hrec, hcall, ok_bind]

theorem setInvoker_setInvoker (r : InvokerRegistry F) (ref : InvokerRef) (i i' : Invoker) :
    (r.setInvoker ref i).setInvoker ref i' = r.setInvoker ref i' := by
  rw [setInvoker, setInvoker, setInvoker, GoMap.set_set]

theorem takeNextJob_same (he : r.takeNextJob = .ok r') :
    r'.invokers = r.invokers ∧ r'.objects = r.objects := by
  unfold takeNextJob at he
  split at he
  · cases he
    exact ⟨rfl, rfl⟩
  · obtain ⟨⟨job, queue⟩, -, he⟩ := bind_eq_ok.1 he
    cases he
    exact ⟨rfl, rfl⟩

/-- What `TrySendJob` does to the room for jobs in sending. -/
theorem trySendJob_room (i : Invoker) (job : JobRef) (id : JobID) :
    i.trySendJob job id = (false, i) ∨ ∃ i', i.trySendJob job id = (true, i') ∧
      i'.status = i.status ∧
      i'.jobTypesCount.read .sendingJob = i.jobTypesCount.read .sendingJob + 1 ∧
      i.jobTypesCount.read .sendingJob + 1 ≤ i.status.maxNewJobs := by
  unfold Invoker.trySendJob
  split
  · exact .inl rfl
  · next hroom =>
    rw [not_or, gt_iff_lt, not_lt] at hroom
    refine .inr ⟨_, rfl, rfl, ?_, hroom.2⟩
    simp only [Invoker.addJob, Invoker.countUp, GoMap.read_set, if_true]

theorem sendNextJob_room {job : JobRef} {sent : Bool} (he : r.sendNextJob ref job = .ok (sent, r')) :
    r'.invokers = r.invokers ∧ ∃ i i', r.objects.get? ref = some i ∧
      r'.objects.get? ref = some i' ∧ (sent = true → i'.status = i.status ∧
        i'.jobTypesCount.read .sendingJob = i.jobTypesCount.read .sendingJob + 1 ∧
        i.jobTypesCount.read .sendingJob + 1 ≤ i.status.maxNewJobs) := by
  obtain ⟨object, -, he⟩ := bind_eq_ok.1 he
  obtain ⟨i, hi, he⟩ := bind_eq_ok.1 he
  rcases trySendJob_room i job object.id with hcall | ⟨i', hcall, hroom⟩
  · simp only [hcall] at he
    cases he
    exact ⟨rfl, i, i, deref_ok hi, GoMap.get?_set_self _ _ _, fun hsent => (nomatch hsent)⟩
  · simp only [hcall] at he
    cases he
    exact ⟨rfl, i, i', deref_ok hi, GoMap.get?_set_self _ _ _, fun _ => hroom⟩

/-- More turns than `sendTurns` make no difference. -/
theorem sendToInvoker_enough {i : Invoker} (hi : r.objects.get? ref = some i) {turns : Nat}
    (hturns : (i.status.maxNewJobs - i.jobTypesCount.read .sendingJob).toNat < turns) :
    sendToInvoker ref (turns + 1) r = sendToInvoker ref turns r := by
  induction turns generalizing r i with
  | zero => exact absurd hturns (Nat.not_lt_zero _)
  | succ turns ih =>
    rw [sendToInvoker, sendToInvoker]
    cases htake : r.takeNextJob with
    | error p => rfl
    | ok r₁ =>
      obtain ⟨-, hobjects⟩ := takeNextJob_same htake
      cases hnext : r₁.nextJob with
      | none => simp only [hnext, ok_bind]
      | some job =>
        cases hsend : r₁.sendNextJob ref job with
        | error p => simp only [hnext, ok_bind, hsend, error_bind]
        | ok result =>
          obtain ⟨sent, r₂⟩ := result
          simp only [hnext, ok_bind, hsend]
          cases sent with
          | false => rfl
          | true =>
            obtain ⟨-, i₁, i₂, hi₁, hi₂, hroom⟩ := sendNextJob_room hsend
            rw [hobjects, hi] at hi₁
            obtain rfl := Option.some.inj hi₁
            obtain ⟨hstatus, hcount, hle⟩ := hroom rfl
            exact ih hi₂ (by rw [hstatus, hcount]; omega)

/-- The inner loop of `SendJobs` ends before the bound. -/
theorem sendTurns_enough {i : Invoker} (hi : r.objects.get? ref = some i) {turns : Nat}
    (hle : r.sendTurns ref ≤ turns) :
    sendToInvoker ref turns r = sendToInvoker ref (r.sendTurns ref) r := by
  induction turns, hle using Nat.le_induction with
  | base => rfl
  | succ turns hle ih =>
    rw [sendTurns, hi] at hle
    exact (sendToInvoker_enough hi hle).trans ih

end InvokerRegistry

namespace MasterRun

variable {F : Type} [Add F] [Min F] [Zero F] [One F]

/-- A run without steps of the handlers of results. -/
structure Turns (s t : MasterRun F) : Prop where
  run : machine.Reaches Machine.always s t
  handled : t.handled = s.handled
  accepted : t.accepted = s.accepted
  finishing : t.finishing = s.finishing

variable {s t u : MasterRun F} {r : InvokerRegistry F} {ref : InvokerRef}

theorem Turns.refl (s : MasterRun F) : s.Turns s := ⟨.refl, rfl, rfl, rfl⟩

theorem Turns.trans (h : s.Turns t) (h' : t.Turns u) : s.Turns u :=
  ⟨h.run.trans h'.run, h'.handled.trans h.handled, h'.accepted.trans h.accepted,
    h'.finishing.trans h.finishing⟩

theorem Turns.single {a : MasterStep F} (hen : s.enabled a) (he : s.exec a = .ok t)
    (hhandled : t.handled = s.handled) (haccepted : t.accepted = s.accepted)
    (hfinishing : t.finishing = s.finishing) : s.Turns t :=
  ⟨.single ⟨a, trivial, hen, he⟩, hhandled, haccepted, hfinishing⟩

/-! ## SendJobs -/

theorem takeNextJob_turns (he : s.registry.takeNextJob = .ok r) :
    ∃ t, s.Turns t ∧ t.registry = r :=
  ⟨_, .single (a := .takeNextJob) trivial (bind_eq_ok.2 ⟨r, he, rfl⟩) rfl rfl rfl, rfl⟩

theorem trySendJob_turns {job : JobRef} {sent : Bool} (hmem : ref ∈ s.registry.invokers)
    (hnext : s.registry.nextJob = some job) (he : s.registry.sendNextJob ref job = .ok (sent, r)) :
    ∃ t, s.Turns t ∧ t.registry = r := by
  obtain ⟨object, hobject, -⟩ := bind_eq_ok.1 he
  have hexec : s.exec (.trySendJob ref) = .ok (if sent then
      { s with
        registry := r
        sends := ⟨ref, job, object.id, none⟩ :: s.sends
        sent := s.sent.set object.id ref }
      else { s with registry := r }) := by
    simp only [exec, trySendJob, hnext, queue, hobject, ok_bind, he]
    cases sent <;> rfl
  refine ⟨_, .single (a := .trySendJob ref) hmem hexec ?_ ?_ ?_, ?_⟩ <;> cases sent <;> rfl

theorem sendToInvoker_turns {turns : Nat} {next : Bool} (hmem : ref ∈ s.registry.invokers)
    (he : InvokerRegistry.sendToInvoker ref turns s.registry = .ok (next, r)) :
    ∃ t, s.Turns t ∧ t.registry = r ∧ r.invokers = s.registry.invokers := by
  induction turns generalizing s with
  | zero =>
    cases he
    exact ⟨s, .refl s, rfl, rfl⟩
  | succ turns ih =>
    obtain ⟨r₁, htake, he⟩ := bind_eq_ok.1 he
    obtain ⟨t, hst, rfl⟩ := takeNextJob_turns htake
    obtain ⟨hinvokers, -⟩ := InvokerRegistry.takeNextJob_same htake
    cases hnext : t.registry.nextJob with
    | none =>
      simp only [hnext] at he
      cases he
      exact ⟨t, hst, rfl, hinvokers⟩
    | some job =>
      simp only [hnext] at he
      obtain ⟨⟨sent, r₂⟩, hsend, he⟩ := bind_eq_ok.1 he
      obtain ⟨u, htu, rfl⟩ := trySendJob_turns (hinvokers ▸ hmem) hnext hsend
      obtain ⟨hinvokers', -⟩ := InvokerRegistry.sendNextJob_room hsend
      have hsame : u.registry.invokers = s.registry.invokers := hinvokers'.trans hinvokers
      cases sent with
      | false =>
        cases he
        exact ⟨u, hst.trans htu, rfl, hsame⟩
      | true =>
        obtain ⟨v, huv, hv, hrest⟩ := ih (hsame ▸ hmem) he
        exact ⟨v, (hst.trans htu).trans huv, hv, hrest.trans hsame⟩

theorem sendToInvokers_turns {refs : List InvokerRef}
    (hmem : ∀ ref ∈ refs, ref ∈ s.registry.invokers)
    (he : InvokerRegistry.sendToInvokers refs s.registry = .ok r) : ∃ t, s.Turns t ∧ t.registry = r := by
  induction refs generalizing s with
  | nil =>
    cases he
    exact ⟨s, .refl s, rfl⟩
  | cons ref refs ih =>
    obtain ⟨⟨next, r₁⟩, hsend, he⟩ := bind_eq_ok.1 he
    obtain ⟨t, hst, rfl, hinvokers⟩ := sendToInvoker_turns (hmem ref List.mem_cons_self) hsend
    cases next with
    | false =>
      cases he
      exact ⟨t, hst, rfl⟩
    | true =>
      obtain ⟨u, htu, hu⟩ := ih (fun a ha => hinvokers ▸ hmem a (List.mem_cons_of_mem _ ha)) he
      exact ⟨u, hst.trans htu, hu⟩

/-- A call of `SendJobs` is a run of its turns. -/
theorem sendJobs_turns (he : s.registry.sendJobs = .ok r) : ∃ t, s.Turns t ∧ t.registry = r :=
  sendToInvokers_turns (fun _ hmem => hmem) he

/-! ## OnInvokerFailure -/

theorem rescheduleJob_turns {i : Invoker} {id : JobID} {jobs : List JobID}
    (hi : s.registry.objects.get? ref = some i) (hf : i.failure = .extracted (id :: jobs))
    (he : InvokerRegistry.rescheduleJobs [id] s.registry = .ok r) :
    ∃ t, s.Turns t ∧ t.registry = r.setInvoker ref { i with failure := .extracted jobs } := by
  obtain ⟨t, hexec, hregistry, hhandled, haccepted, hfinishing⟩ :
      ∃ t, s.exec (.rescheduleJob ref) = .ok t ∧
        t.registry = r.setInvoker ref { i with failure := .extracted jobs } ∧
        t.handled = s.handled ∧ t.accepted = s.accepted ∧ t.finishing = s.finishing := by
    simp only [exec, rescheduleJob, hi, hf, he, ok_bind]
    exact ⟨_, rfl, rfl, rfl, rfl, rfl⟩
  exact ⟨t, .single (a := .rescheduleJob ref) ⟨i, id, jobs, hi, hf⟩ hexec hhandled haccepted
    hfinishing, hregistry⟩

/-- The section of `OnInvokerFailure` for the extracted jobs is a run of its turns. -/
theorem onInvokerFailure_turns {i : Invoker} {jobs : List JobID}
    (hi : s.registry.objects.get? ref = some i) (hf : i.failure = .extracted jobs)
    (he : s.registry.onInvokerFailure ref jobs = .ok r) :
    ∃ t, s.Turns t ∧ t.registry = r.setInvoker ref { i with failure := .finished } := by
  induction jobs generalizing s i r with
  | nil =>
    have hexec : s.exec (.removeInvoker ref) = .ok { s with
        registry := r.setInvoker ref { i with failure := .finished } } := by
      cases he
      refine bind_eq_ok.2 ⟨_, rfl, ?_⟩
      simp only [onInvoker, hi, ok_bind]
      rfl
    exact ⟨_, .single (a := .removeInvoker ref) ⟨i, hi, hf⟩ hexec rfl rfl rfl, rfl⟩
  | cons id jobs ih =>
    let i₁ : Invoker := { i with failure := .extracted jobs }
    obtain ⟨r₁, hjobs, he⟩ := bind_eq_ok.1 he
    cases he
    rw [InvokerRegistry.rescheduleJobs_cons] at hjobs
    obtain ⟨r₂, hfirst, hrest⟩ := bind_eq_ok.1 hjobs
    obtain ⟨t, hst, ht⟩ := rescheduleJob_turns hi hf hfirst
    have hget : t.registry.objects.get? ref = some i₁ := by
      rw [ht]
      exact GoMap.get?_set_self _ _ _
    have hcall : t.registry.onInvokerFailure ref jobs = .ok (InvokerRegistry.setInvoker
        { r₁ with invokers := r₁.invokers.filter fun a => a ≠ ref } ref i₁) := by
      rw [ht]
      exact bind_eq_ok.2 ⟨_, InvokerRegistry.rescheduleJobs_setInvoker i₁ hrest, rfl⟩
    obtain ⟨u, htu, hu⟩ := ih hget rfl hcall
    refine ⟨u, hst.trans htu, hu.trans ?_⟩
    exact InvokerRegistry.setInvoker_setInvoker _ ref i₁ _

end MasterRun

end TestingSystem
