import TestingSystem.Master.MasterInvariant
import TestingSystem.Master.RegistrySections

/-!
# The books of the registry

Only the holder of the mutex uses the `Books` of the registry, so the sections of the queue and of the
invokers commute with every write to them (`exec_withBooks`). The calls of the holder leave them as they
are too. No section changes the address of an invoker (`Ages`), as long as every status comes from the
address that it reports.
-/

set_option autoImplicit false

namespace TestingSystem

/-- The fields of the registry that only the holder of its mutex uses, and the results on their way to
the deferred `UpsertInvoker`. -/
structure Books (F : Type) where
  invokers : List InvokerRef
  invokerByJobID : GoMap JobID InvokerRef
  testingJobs : GoMap JobID JobRef
  nextJob : Option JobRef
  handled : List (InvokerJobResult F × Bool)

namespace MasterRun

variable {F : Type}

def books (s : MasterRun F) : Books F where
  invokers := s.registry.invokers
  invokerByJobID := s.registry.invokerByJobID
  testingJobs := s.registry.testingJobs
  nextJob := s.registry.nextJob
  handled := s.handled

def withBooks (s : MasterRun F) (b : Books F) : MasterRun F :=
  { s with
    registry := { s.registry with
      invokers := b.invokers
      invokerByJobID := b.invokerByJobID
      testingJobs := b.testingJobs
      nextJob := b.nextJob }
    handled := b.handled }

@[simp] theorem withBooks_books (s : MasterRun F) : s.withBooks s.books = s := rfl

variable {s t : MasterRun F} {a : MasterStep F}

theorem enabled_withBooks (ha : a.Elsewhere) (b : Books F) :
    (s.withBooks b).enabled a ↔ s.enabled a := by
  cases a <;> first | exact Iff.rfl | exact ha.elim

theorem onInvoker_withBooks (s : MasterRun F) (b : Books F) (ref : InvokerRef)
    (update : Invoker → Except Panic Invoker) :
    (s.withBooks b).onInvoker ref update = (s.onInvoker ref update).map (·.withBooks b) := by
  unfold onInvoker
  have hobjects : (s.withBooks b).registry.objects = s.registry.objects := rfl
  rw [hobjects]
  cases s.registry.objects.get? ref with
  | none => rfl
  | some invoker => cases hi : update invoker <;> simp only [hi] <;> rfl

variable [Add F] [Min F] [Zero F] [One F]

/-- A step elsewhere neither reads nor writes the books. -/
theorem exec_withBooks (ha : a.Elsewhere) (s : MasterRun F) (b : Books F) :
    (s.withBooks b).exec a = (s.exec a).map (·.withBooks b) := by
  cases a with
  | submit problem submission epoch =>
    simp only [exec, submit]
    have hqueue : (s.withBooks b).queue = s.queue := rfl
    have hfresh : (s.withBooks b).registry.fresh = s.registry.fresh := rfl
    rw [hqueue, hfresh]
    cases s.queue.submit s.registry.fresh problem submission epoch with
    | error p => rfl
    | ok result => cases result <;> rfl
  | buildRequest send =>
    simp only [exec]
    have hjobs : (s.withBooks b).queue.jobs = s.queue.jobs := rfl
    rw [hjobs]
    cases deref (s.queue.jobs.get? send.job) <;> rfl
  | completeSendJob send response order =>
    simp only [exec]
    have hjobs : (s.withBooks b).queue.jobs = s.queue.jobs := rfl
    rw [hjobs]
    cases deref (s.queue.jobs.get? send.job) with
    | error p => rfl
    | ok object => exact onInvoker_withBooks { s with sends := s.sends.erase send } b _ _
  | ping ref response order => exact onInvoker_withBooks s b _ _
  | ensureJobIsNotLost ref id => exact onInvoker_withBooks s b _ _
  | markFailed ref => exact onInvoker_withBooks s b _ _
  | extractJobs ref order => exact onInvoker_withBooks s b _ _
  | jobCompleted k epoch =>
    simp only [exec, jobCompleted]
    have haccepted : (s.withBooks b).accepted = s.accepted := rfl
    have hqueue : (s.withBooks b).queue = s.queue := rfl
    rw [haccepted, hqueue]
    cases s.accepted[k]? with
    | none => rfl
    | some result =>
      cases hcall : s.queue.jobCompleted result epoch with
      | error p => simp only [hcall]; rfl
      | ok done =>
        obtain ⟨queue, submission⟩ := done
        simp only [hcall, ok_bind]
        rcases submission with _ | _ | _ <;> rfl
  | finishSubmissionTesting id =>
    simp only [exec]
    have hqueue : (s.withBooks b).queue = s.queue := rfl
    rw [hqueue]
    cases s.queue.status.finishSubmissionTesting id <;> rfl
  | takeNextJob | trySendJob _ | upsertInvoker _ _ | rescheduleJob _ | removeInvoker _
  | handleInvokerJobResult _ | upsertAfterResult _ _ => exact ha.elim

/-- A step elsewhere leaves the books as they are. -/
theorem books_elsewhere (ha : a.Elsewhere) (hex : s.exec a = .ok t) : t.books = s.books := by
  have hsame := exec_withBooks ha s s.books
  rw [withBooks_books, hex] at hsame
  have hsame : t = t.withBooks s.books := Except.ok.inj hsame
  have hbooks := congrArg books hsame
  exact hbooks

end MasterRun

/-! ## Addresses -/

namespace Invoker

/-- The address stays, and a failed invoker stays failed. -/
def Aged (i i' : Invoker) : Prop :=
  i'.address = i.address ∧ (i.failed = true → i'.failed = true)

variable {i i' : Invoker}

theorem Aged.refl (i : Invoker) : i.Aged i := ⟨rfl, fun hf => hf⟩

theorem Aged.healthy (h : i.Aged i') (hf : i'.failed = false) : i.failed = false := by
  rw [← Bool.not_eq_true]
  intro ht
  rw [h.2 ht] at hf
  cases hf

/-- A status that reports the address of the invoker. -/
def Reports (i : Invoker) (response : Option Status) : Prop :=
  ∀ status, response = some status → status.address = i.address

theorem address_statusAfter {response : Option Status} (h : i.Reports response) :
    (i.statusAfter response).address = i.address := by
  cases response with
  | none => rfl
  | some status =>
    rw [statusAfter]
    split
    · rfl
    · exact h status rfl

theorem Kept.aged (h : i.Kept i') {response : Option Status} (hr : i.Reports response)
    (hs : i'.status = i.statusAfter response) : i.Aged i' :=
  ⟨(congrArg Status.address hs).trans (address_statusAfter hr), fun hf => (h.failed hf).1⟩

theorem Kept.aged_of_status (h : i.Kept i') (hs : i'.status = i.status) : i.Aged i' :=
  ⟨congrArg Status.address hs, fun hf => (h.failed hf).1⟩

/-- An invoker that does not take a status is failed or has another address. -/
theorem Coherent.verify_aged (h : i.Coherent) {status : Status} {order : RangeOrder}
    (ho : ∀ ids, (order ids).Perm ids) {updated : Bool}
    (he : i.verifyAndUpdateStatus status order = .ok (updated, i')) :
    i.Aged i' ∧ (updated = false → i'.failed = false → i'.address ≠ status.address) := by
  by_cases haddress : i.address = status.address
  · obtain ⟨updated', i'', he', hobs, hsame⟩ := h.verifyAndUpdateStatus ho status
    obtain ⟨rfl, rfl⟩ := Prod.mk.inj (Except.ok.inj (he.symm.trans he'))
    obtain ⟨hs, hupdated⟩ := hsame haddress
    refine ⟨hobs.toKept.aged ?_ hs, fun hno hf => ?_⟩
    · intro reported hreported
      exact Option.some.inj hreported ▸ haddress.symm
    · rw [hupdated, hf] at hno
      cases hno
  · rw [Invoker.verifyAndUpdateStatus, if_pos haddress] at he
    cases he
    exact ⟨.refl _, fun _ _ => haddress⟩

end Invoker

namespace MasterRun

variable {F : Type} {s t : MasterRun F} {a : MasterStep F}

/-- Every `Invoker` object ages. -/
def Ages (s t : MasterRun F) : Prop :=
  ∀ ref i, s.registry.objects.get? ref = some i →
    ∃ i', t.registry.objects.get? ref = some i' ∧ i.Aged i'

theorem ages_of_eq (h : t.registry.objects = s.registry.objects) : Ages s t := fun _ i hi =>
  ⟨i, h ▸ hi, .refl i⟩

theorem ages_set {ref : InvokerRef} {i i' : Invoker} (hi : s.registry.objects.get? ref = some i)
    (h : i.Aged i') (ht : t.registry.objects = s.registry.objects.set ref i') : Ages s t := by
  intro x j hj
  rw [ht]
  by_cases hx : x = ref
  · subst hx
    obtain rfl := Option.some.inj (hj.symm.trans hi)
    exact ⟨i', GoMap.get?_set_self _ _ _, h⟩
  · exact ⟨j, (GoMap.get?_set_ne _ _ hx).trans hj, .refl j⟩

theorem ages_onInvoker {ref : InvokerRef} {update : Invoker → Except Panic Invoker}
    (h : ∀ i i', s.registry.objects.get? ref = some i → update i = .ok i' → i.Aged i')
    (he : s.onInvoker ref update = .ok t) : Ages s t := by
  unfold onInvoker at he
  cases hi : s.registry.objects.get? ref with
  | none =>
    simp only [hi] at he
    cases he
    exact ages_of_eq rfl
  | some i =>
    simp only [hi] at he
    obtain ⟨i', hi', he⟩ := bind_eq_ok.1 he
    cases he
    exact ages_set hi (h i i' hi hi') rfl

/-- Every answer to `ping` and `completeSendJob` reports the address of the invoker that it comes
from. -/
def OwnAddress (s : MasterRun F) : MasterStep F → Prop
  | .ping ref response _ => ∀ i, s.registry.objects.get? ref = some i → i.Reports response
  | .completeSendJob send response _ =>
    ∀ i, s.registry.objects.get? send.invoker = some i → i.Reports response
  | _ => True

variable [Add F] [Min F] [Zero F] [One F]

theorem ages_elsewhere (hc : ∀ ref i, s.registry.objects.get? ref = some i → i.Coherent)
    (ha : a.Elsewhere) (hen : s.enabled a) (hok : s.OwnAddress a) (hex : s.exec a = .ok t) :
    Ages s t := by
  cases a with
  | submit problem submission epoch =>
    obtain ⟨result, -, hex⟩ := bind_eq_ok.1 hex
    cases result <;> cases hex <;> exact ages_of_eq rfl
  | buildRequest send =>
    obtain ⟨object, -, hex⟩ := bind_eq_ok.1 hex
    cases hex
    exact ages_of_eq rfl
  | completeSendJob send response order =>
    obtain ⟨object, -, hex⟩ := bind_eq_ok.1 hex
    refine ages_onInvoker (s := { s with sends := s.sends.erase send }) (fun i i' hi hu => ?_) hex
    obtain ⟨i₁, hcall, hu⟩ := bind_eq_ok.1 hu
    cases hu
    obtain ⟨hk, hs, -⟩ :=
      ((hc send.invoker i hi).completeSendJob hen.2.2 object.id response).value hcall
    exact hk.aged (hok i hi) hs
  | ping ref response order =>
    refine ages_onInvoker (fun i i' hi hu => ?_) hex
    obtain ⟨i₁, hcall, hobs, hs⟩ := (hc ref i hi).ping hen response
    obtain rfl := Except.ok.inj (hu.symm.trans hcall)
    exact hobs.toKept.aged (hok i hi) hs
  | ensureJobIsNotLost ref id =>
    refine ages_onInvoker (fun i i' hi hu => ?_) hex
    cases hu
    obtain ⟨hobs, hs⟩ := (hc ref i hi).ensureJobIsNotLost id
    exact hobs.toKept.aged_of_status hs
  | markFailed ref =>
    refine ages_onInvoker (fun i i' hi hu => ?_) hex
    cases hu
    obtain ⟨hobs, hs, -⟩ := (hc ref i hi).markFailed
    exact hobs.toKept.aged_of_status hs
  | extractJobs ref order =>
    refine ages_onInvoker (fun i i' hi hu => ?_) hex
    cases hu
    exact ⟨rfl, fun hf => hf⟩
  | jobCompleted k epoch =>
    simp only [exec, jobCompleted] at hex
    split at hex
    · cases hex
      exact ages_of_eq rfl
    · obtain ⟨⟨queue, submission⟩, -, hex⟩ := bind_eq_ok.1 hex
      rcases submission with _ | _ | _ <;> cases hex <;> exact ages_of_eq rfl
  | finishSubmissionTesting id =>
    obtain ⟨status, -, hex⟩ := bind_eq_ok.1 hex
    cases hex
    exact ages_of_eq rfl
  | takeNextJob | trySendJob _ | upsertInvoker _ _ | rescheduleJob _ | removeInvoker _
  | handleInvokerJobResult _ | upsertAfterResult _ _ => exact ha.elim

/-! ## Calls of the holder -/

omit [Add F] [Min F] [Zero F] [One F] in
theorem callNextJob_same {job : Option JobRef} (he : s.callNextJob = .ok (job, t)) :
    t.books = s.books ∧ t.registry.objects = s.registry.objects := by
  obtain ⟨⟨next, queue⟩, -, he⟩ := bind_eq_ok.1 he
  cases he
  exact ⟨rfl, rfl⟩

omit [Add F] [Min F] [Zero F] [One F] in
theorem callTrySendJob_same {ref : InvokerRef} {job : JobRef} {sent : Bool}
    (hc : ∀ ref i, s.registry.objects.get? ref = some i → i.Coherent)
    (he : s.callTrySendJob ref job = .ok (sent, t)) : t.books = s.books ∧ Ages s t := by
  obtain ⟨object, -, he⟩ := bind_eq_ok.1 he
  obtain ⟨i, hi, he⟩ := bind_eq_ok.1 he
  have hi := deref_ok hi
  rcases (hc ref i hi).trySendJob job object.id with hcall | ⟨i', hcall, hsent⟩
  · simp only [hcall] at he
    cases he
    exact ⟨rfl, ages_set hi (.refl i) rfl⟩
  · simp only [hcall] at he
    cases he
    exact ⟨rfl, ages_set hi ⟨congrArg Status.address hsent.status, fun hf => hsent.failed.trans hf⟩ rfl⟩

omit [Add F] [Min F] [Zero F] [One F] in
theorem recordJob_eq {ref : InvokerRef} {job : JobRef} {object : Job}
    (hnext : s.registry.nextJob = some job) (hobject : s.queue.jobs.get? job = some object) :
    s.recordJob ref = .ok (s.withBooks { s.books with
      invokerByJobID := s.registry.invokerByJobID.set object.id ref
      testingJobs := s.registry.testingJobs.set object.id job
      nextJob := none }) := by
  unfold recordJob
  rw [hnext, deref_some, ok_bind, hobject, deref_some, ok_bind]
  rfl

omit [Add F] [Min F] [Zero F] [One F] in
theorem callRescheduleJob_same {ref : InvokerRef} {i : Invoker} {jobID : JobID} {jobs : List JobID}
    {called : Option JobID} (hi : s.registry.objects.get? ref = some i)
    (he : s.callRescheduleJob ref i jobID jobs = .ok (called, t)) :
    t.books = s.books ∧ Ages s t := by
  have haged : i.Aged { i with failure := .extracted jobs } := ⟨rfl, fun hf => hf⟩
  unfold callRescheduleJob at he
  split at he
  · cases he
    exact ⟨rfl, ages_set hi haged rfl⟩
  · obtain ⟨⟨queue, result⟩, -, he⟩ := bind_eq_ok.1 he
    cases he
    exact ⟨rfl, ages_set hi haged rfl⟩

omit [Add F] [Min F] [Zero F] [One F] in
theorem removeInvoker_eq {ref : InvokerRef} {i : Invoker}
    (hi : s.registry.objects.get? ref = some i) :
    ∃ t, s.removeInvoker ref = .ok t ∧ Ages s t ∧
      t.books = { s.books with invokers := s.registry.invokers.filter fun a => a ≠ ref } := by
  have haged : i.Aged { i with failure := .finished } := ⟨rfl, fun hf => hf⟩
  let removed : InvokerRegistry F :=
    { s.registry with invokers := s.registry.invokers.filter fun a => a ≠ ref }
  let t : MasterRun F :=
    { s with registry := removed.setInvoker ref { i with failure := .finished } }
  have he : s.removeInvoker ref = .ok t := by
    simp only [MasterRun.removeInvoker, InvokerRegistry.onInvokerFailure,
      InvokerRegistry.rescheduleJobs, ok_bind, pure_bind, onInvoker, hi]
    rfl
  exact ⟨t, he, ages_set hi haged rfl, rfl⟩

omit [Add F] [Min F] [Zero F] [One F] in
/-- Only `accepted` changes when a handler goes on. -/
theorem afterUpsert_same (s : MasterRun F) (handler : Option (InvokerJobResult F × Bool)) :
    (s.afterUpsert handler).registry = s.registry ∧ (s.afterUpsert handler).books = s.books := by
  cases handler <;> exact ⟨rfl, rfl⟩

/-- `VerifyAndUpdateStatus` of one invoker. -/
theorem Inv.verify (h : s.Inv) {ref : InvokerRef} {i : Invoker}
    (hi : s.registry.objects.get? ref = some i) (status : Status) {order : RangeOrder}
    (ho : ∀ ids, (order ids).Perm ids) :
    ∃ updated i', InvokerRegistry.updateInvokers status order [ref] s.registry =
        .ok (updated, s.registry.setInvoker ref i') ∧
      Inv { s with registry := s.registry.setInvoker ref i' } ∧ i.Aged i' ∧
      (updated = false → i'.failed = false → i'.address ≠ status.address) := by
  have hc := (h.custody.objects ref i hi).2
  obtain ⟨updated, i', he, hobs, -⟩ := hc.verifyAndUpdateStatus ho status
  obtain ⟨haged, hrefused⟩ := hc.verify_aged ho he
  refine ⟨updated, i', ?_, ?_, haged, hrefused⟩
  · unfold InvokerRegistry.updateInvokers
    simp only [hi, deref_some, ok_bind, he]
    cases updated <;> rfl
  · have hwatched := InvokerRegistry.watched_setInvoker hi hobs.toKept
    have hmoved : InvokerRegistry.Moved False s.registry s.pending
      (s.registry.setInvoker ref i') s.pending := h.custody.keep hi hobs.toKept
    exact (h.watched (t := { s with registry := s.registry.setInvoker ref i' }) hwatched
      hmoved.custody rfl (.refl _) rfl rfl rfl rfl rfl rfl rfl rfl).1

/-- `UpsertInvoker` adds an invoker. -/
theorem Inv.addInvoker (h : s.Inv) (status : Status) :
    Inv { s with registry := s.registry.addInvoker status } := by
  obtain ⟨hmoved, hwatched⟩ := h.custody.addInvoker False s.pending status
  exact (h.watched (t := { s with registry := s.registry.addInvoker status }) hwatched
    hmoved.custody rfl (.refl _) rfl rfl rfl rfl rfl rfl rfl rfl).1

/-- The handler whose entry is first in `handled` goes on. -/
theorem Inv.afterUpsert {handler : Option (InvokerJobResult F × Bool)}
    (h : Inv { s with handled := handler.toList ++ s.handled }) : (s.afterUpsert handler).Inv := by
  cases handler with
  | none => exact h
  | some entry =>
    obtain ⟨result, tested⟩ := entry
    have hq : Quiet { s with handled := (result, tested) :: s.handled }
        (s.afterUpsert (some (result, tested))) :=
      ⟨rfl, rfl, rfl, rfl, Nat.le_refl _, fun _ hs => hs, pending_accepted s result tested, rfl, rfl,
        rfl, rfl, rfl, rfl, rfl, rfl⟩
    exact h.quiet hq h.custody h.drained

/-- A result that waits for `JobTested` is not accepted. -/
theorem Inv.refused {result : InvokerJobResult F}
    (h : Inv { s with handled := (result, true) :: s.handled }) :
    Inv { s with handled := (result, false) :: s.handled } := by
  have hmoved : InvokerRegistry.Moved True s.registry
      (pending { s with handled := (result, true) :: s.handled }) s.registry
      (pending { s with handled := (result, false) :: s.handled }) :=
    ⟨h.custody, .single (.drop result.job.id trivial (fun _ => Iff.rfl) List.perm_middle),
      fun _ => rfl, rfl, le_rfl, fun _ ho => .inl ho, fun _ i hi => ⟨i, hi⟩⟩
  exact h.moved (t := { s with handled := (result, false) :: s.handled }) hmoved h.drained h.sends
    rfl rfl rfl rfl

/-- `JobTested` of the invoker that the job was recorded for. -/
theorem Inv.callJobTested {result : InvokerJobResult F}
    (h : Inv { s with handled := (result, true) :: s.handled }) {ref : InvokerRef} {i : Invoker}
    (hi : s.registry.objects.get? ref = some i) :
    ∃ t, s.callJobTested result ref = .ok t ∧ t.Inv ∧ Ages s t ∧
      ∃ tested, t.books = { s.books with handled := (result, tested) :: s.handled } := by
  have hc := (h.custody.objects ref i hi).2
  obtain ⟨tested, i', he, -, ht⟩ := hc.jobTested result.job.id
  let v : MasterRun F := { s with
    registry := s.registry.setInvoker ref i'
    handled := (result, true) :: s.handled }
  -- the job is pending, so no other result can be about it
  have hpending : result.job.id ∈ v.pending := List.mem_append_left _ List.mem_cons_self
  obtain ⟨-, -, hunrecorded⟩ := h.of_pending hpending
  have hmoved : InvokerRegistry.Moved False s.registry v.pending v.registry v.pending := by
    refine h.custody.setInvoker _ _ hi ht.coherent fun x hx hans => ?_
    refine hans.imp (fun hheld => (ht.holds x).2 ⟨hheld, ?_⟩) fun ⟨jobs, hf, hmem⟩ =>
      ⟨jobs, ht.failure.trans hf, hmem⟩
    rintro rfl
    exact absurd (hunrecorded.symm.trans hx) (by simp)
  have hdrained : i'.Drained := by
    refine (h.drained ref i hi).imp (fun hnone x hx => hnone x ((ht.holds x).1 hx).1) ?_
    rw [ht.failure]
    exact fun hstage => hstage
  have hv : v.Inv := h.moved hmoved (h.drained_set hdrained) h.sends rfl rfl rfl rfl
  refine ⟨{ v with handled := (result, tested) :: s.handled }, ?_, ?_,
    ages_set hi ⟨congrArg Status.address ht.status, fun hf => ht.failed.trans hf⟩ rfl, tested, rfl⟩
  · simp only [MasterRun.callJobTested, hi, deref_some, ok_bind, he]
    rfl
  · cases tested with
    | true => exact hv
    | false => exact Inv.refused (s := { v with handled := s.handled }) hv

/-- The part of `HandleInvokerJobResult` before `JobTested`. -/
theorem Inv.takeResult (h : s.Inv) (result : InvokerJobResult F) :
    (∃ t, s.takeResult result = .ok (none, t) ∧ t.Inv ∧ Ages s t ∧
      t.books = { s.books with handled := (result, false) :: s.handled }) ∨
    ∃ ref t, s.takeResult result = .ok (some ref, t) ∧
      Inv { t with handled := (result, true) :: t.handled } ∧ Ages s t ∧
      (∃ i, t.registry.objects.get? ref = some i) ∧
      t.books = { s.books with
        invokerByJobID := s.registry.invokerByJobID.delete result.job.id
        testingJobs := s.registry.testingJobs.delete result.job.id } := by
  cases hrec : s.registry.invokerByJobID.get? result.job.id with
  | none =>
    have hq : s.Quiet { s with handled := (result, false) :: s.handled } :=
      ⟨rfl, rfl, rfl, rfl, Nat.le_refl _, fun _ hs => hs, .refl _, rfl, rfl, rfl, rfl, rfl, rfl,
        rfl, rfl⟩
    exact .inl ⟨_, by simp only [MasterRun.takeResult, hrec], h.quiet hq h.custody h.drained,
      ages_of_eq rfl, rfl⟩
  | some ref =>
    right
    obtain ⟨objects, hstop, hskip, hnone, hstops⟩ := h.custody.stopJobs result
    let r : InvokerRegistry F := { s.registry with objects := objects }
    let t : MasterRun F := { s with registry := r.deleteJob result.job.id }
    let v : MasterRun F := { t with handled := (result, true) :: t.handled }
    have hstopped : InvokerRegistry.Moved False s.registry s.pending r s.pending := by
      refine h.custody.setObjects (fun a i hi => ?_) hnone
      have hc := (h.custody.objects a i hi).2
      exact ⟨_, hstops a i hi, ⟨hc.known, hc.healthy⟩, fun _ _ hans => hans⟩
    have hmoved : InvokerRegistry.Moved False s.registry s.pending v.registry v.pending :=
      hstopped.trans (hstopped.custody.deleteJob False s.pending hrec)
    have hdrained : ∀ a i, v.registry.objects.get? a = some i → i.Drained := by
      intro a i' hi'
      cases hi : s.registry.objects.get? a with
      | none => exact absurd ((hnone a hi).symm.trans hi') (by simp)
      | some i =>
        obtain rfl := Option.some.inj ((hstops a i hi).symm.trans hi')
        exact h.drained a i hi
    refine ⟨ref, t, ?_, h.moved hmoved hdrained h.sends rfl rfl rfl rfl, fun a i hi => ?_, ?_, rfl⟩
    · unfold MasterRun.takeResult
      simp only [hrec]
      cases hv : stops result.verdict with
      | true =>
        simp only [if_true, hstop hv, ok_bind]
        rfl
      | false =>
        obtain rfl := hskip hv
        rfl
    · exact ⟨_, hstops a i hi, rfl, fun hf => hf⟩
    · obtain ⟨i, hi, -⟩ := h.custody.answered _ ref hrec
      exact ⟨_, hstops ref i hi⟩

end MasterRun

end TestingSystem
