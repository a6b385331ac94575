import TestingSystem.Lib.Ledger
import TestingSystem.Master.Queue.HandedOut
import TestingSystem.Master.Registry.InvokerInvariant
import TestingSystem.Master.Registry.Registry

/-!
# Where the jobs are

The jobs that are out of the queue form a ledger. Their places are `nextJob`, `invokerByJobID` and
the results that were accepted and that the queue has not seen yet (`pending`). Every section of the
registry is a run of the ledger (`Moved`); the only one that may drop a job is the one that handles a
result.
-/

set_option autoImplicit false

namespace TestingSystem.InvokerRegistry

variable {F : Type}

/-- The ID of `nextJob`, if there is one. -/
def nextIDs (r : InvokerRegistry F) : List JobID :=
  match r.nextJob with
  | none => []
  | some ref => ((r.queue.jobs.get? ref).map Job.id).toList

/-- The jobs that are out and the places where they are. -/
def ledger (r : InvokerRegistry F) (pending : List JobID) : Ledger JobID where
  out := r.queue.HandedOut
  places := r.nextIDs ++ r.invokerByJobID.keys ++ pending

theorem nextIDs_eq {r r' : InvokerRegistry F} (hnext : r'.nextJob = r.nextJob)
    (hjobs : r'.queue.jobs = r.queue.jobs) : r'.nextIDs = r.nextIDs := by
  rw [nextIDs, nextIDs, hnext, hjobs]

theorem nextIDs_none {r : InvokerRegistry F} (h : r.nextJob = none) : r.nextIDs = [] := by
  rw [nextIDs, h]

theorem nextIDs_some {r : InvokerRegistry F} {ref : JobRef} {id : JobID}
    (h : r.nextJob = some ref) (hid : r.queue.HasID ref id) : r.nextIDs = [id] := by
  obtain ⟨-, job, hjob, rfl⟩ := hid
  rw [nextIDs, h]
  simp only [hjob, Option.map_some, Option.toList_some]

variable [Add F] [Min F] [Zero F] [One F]

/-- The invariant of the registry and of what it points to. -/
structure Custody (r : InvokerRegistry F) : Prop where
  accounted : r.queue.Accounted
  fresh : ∀ id, r.fresh ≤ id → r.queue.Fresh id
  unused : ∀ id, r.fresh ≤ id → r.queue.generators.get? id = none
  next : ∀ ref, r.nextJob = some ref → r.queue.Live ref
  objects : ∀ ref invoker, r.objects.get? ref = some invoker → ref < r.fresh ∧ invoker.Coherent
  registered : ∀ ref ∈ r.invokers, ∃ invoker, r.objects.get? ref = some invoker
  answered : ∀ id ref, r.invokerByJobID.get? id = some ref →
    ∃ invoker, r.objects.get? ref = some invoker ∧ invoker.Answers id
  testing : ∀ id ref, r.testingJobs.get? id = some ref →
    (∃ invoker, r.invokerByJobID.get? id = some invoker) ∧ r.queue.HasID ref id

/-- What a section of the registry does; `loses` says whether it may drop a job. -/
structure Moved (loses : Prop) (r : InvokerRegistry F) (pending : List JobID)
    (r' : InvokerRegistry F) (pending' : List JobID) : Prop where
  custody : r'.Custody
  steps : (r.ledger pending).Steps loses (r'.ledger pending')
  progress : ∀ g, r'.queue.progress g = r.queue.progress g
  status : r'.queue.status = r.queue.status
  fresh_le : r.fresh ≤ r'.fresh
  live : ∀ o, r'.queue.Live o → r.queue.Live o ∨ r.fresh ≤ o
  objects : ∀ ref invoker, r.objects.get? ref = some invoker →
    ∃ invoker, r'.objects.get? ref = some invoker

variable {r r' r'' : InvokerRegistry F} {pending pending' pending'' : List JobID} {loses : Prop}

theorem custody_new : Custody (new : InvokerRegistry F) where
  accounted := Queue.accounted_new
  fresh _ _ := ⟨fun ⟨_, h⟩ => (nomatch h), rfl⟩
  unused _ _ := rfl
  next _ h := nomatch h
  objects _ _ h := nomatch h
  registered _ h := nomatch h
  answered _ _ h := nomatch h
  testing _ _ h := nomatch h

theorem Moved.refl (h : r.Custody) : Moved loses r pending r pending :=
  ⟨h, .refl, fun _ => rfl, rfl, le_rfl, fun _ ho => .inl ho, fun _ invoker hi => ⟨invoker, hi⟩⟩

theorem Moved.trans (h : Moved loses r pending r' pending')
    (h' : Moved loses r' pending' r'' pending'') : Moved loses r pending r'' pending'' where
  custody := h'.custody
  steps := h.steps.trans h'.steps
  progress g := (h'.progress g).trans (h.progress g)
  status := h'.status.trans h.status
  fresh_le := h.fresh_le.trans h'.fresh_le
  live o ho := by
    rcases h'.live o ho with hl | hle
    · exact h.live o hl
    · exact .inr (h.fresh_le.trans hle)
  objects ref invoker hi := by
    obtain ⟨invoker', hi'⟩ := h.objects ref invoker hi
    exact h'.objects ref invoker' hi'

theorem Moved.exact (h : Moved loses r pending r' pending') (he : (r.ledger pending).Exact) :
    (r'.ledger pending').Exact := h.steps.exact he

/-- The ID of `nextJob`. -/
theorem Custody.nextID (h : r.Custody) {ref : JobRef} (hnext : r.nextJob = some ref) :
    ∃ id, r.queue.HasID ref id ∧ r.nextIDs = [id] := by
  have hl := h.next ref hnext
  obtain ⟨job, hjob, -⟩ := h.accounted.exists_object hl
  have hid : r.queue.HasID ref job.id := ⟨hl, job, hjob, rfl⟩
  exact ⟨job.id, hid, nextIDs_some hnext hid⟩

/-! ## Sections of an invoker -/

omit [Add F] [Min F] [Zero F] [One F] in
@[simp] theorem setInvoker_objects (r : InvokerRegistry F) (ref : InvokerRef) (i : Invoker) :
    (r.setInvoker ref i).objects = r.objects.set ref i := rfl

/-- The objects are replaced by ones that answer for the same jobs. -/
theorem Custody.setObjects (h : r.Custody) {objects : GoMap InvokerRef Invoker}
    (hold : ∀ a i, r.objects.get? a = some i → ∃ i', objects.get? a = some i' ∧ i'.Coherent ∧
      ∀ id, r.invokerByJobID.get? id = some a → i.Answers id → i'.Answers id)
    (hnone : ∀ a, r.objects.get? a = none → objects.get? a = none) :
    Moved loses r pending { r with objects := objects } pending := by
  refine ⟨⟨h.accounted, h.fresh, h.unused, h.next, fun a i' hi' => ?_, fun a ha => ?_,
    fun id a ha => ?_, h.testing⟩, .refl, fun _ => rfl, rfl, le_rfl, fun _ ho => .inl ho,
    fun a i hi => ?_⟩
  · have hi' : objects.get? a = some i' := hi'
    cases hi : r.objects.get? a with
    | none =>
      rw [hnone a hi] at hi'
      cases hi'
    | some i =>
      obtain ⟨i₀, hi₀, hc, -⟩ := hold a i hi
      obtain rfl := Option.some.inj (hi'.symm.trans hi₀)
      exact ⟨(h.objects a i hi).1, hc⟩
  · obtain ⟨i, hi⟩ := h.registered a ha
    obtain ⟨i', hi', -⟩ := hold a i hi
    exact ⟨i', hi'⟩
  · obtain ⟨i, hi, hans⟩ := h.answered id a ha
    obtain ⟨i', hi', -, hkept⟩ := hold a i hi
    exact ⟨i', hi', hkept id ha hans⟩
  · obtain ⟨i', hi', -⟩ := hold a i hi
    exact ⟨i', hi'⟩

/-- An invoker is replaced by one that answers for the same jobs. -/
theorem Custody.setInvoker (h : r.Custody) (loses : Prop) (pending : List JobID) {ref : InvokerRef}
    {i i' : Invoker} (hi : r.objects.get? ref = some i) (hc : i'.Coherent)
    (hkept : ∀ id, r.invokerByJobID.get? id = some ref → i.Answers id → i'.Answers id) :
    Moved loses r pending (r.setInvoker ref i') pending := by
  refine h.setObjects (fun a b hb => ?_) fun a ha => ?_
  · by_cases heq : a = ref
    · subst heq
      obtain rfl := Option.some.inj (hb.symm.trans hi)
      exact ⟨i', GoMap.get?_set_self _ _ _, hc, hkept⟩
    · exact ⟨b, (GoMap.get?_set_ne _ _ heq).trans hb, (h.objects a b hb).2, fun _ _ hans => hans⟩
  · have hne : a ≠ ref := by
      rintro rfl
      rw [hi] at ha
      cases ha
    exact (GoMap.get?_set_ne _ _ hne).trans ha

theorem Custody.keep (h : r.Custody) {ref : InvokerRef} {i i' : Invoker}
    (hi : r.objects.get? ref = some i) (hk : i.Kept i') :
    Moved loses r pending (r.setInvoker ref i') pending :=
  h.setInvoker _ _ hi hk.coherent fun _ _ hans => hk.answers (h.objects ref i hi).2 hans

/-! ## UpsertInvoker -/

/-- What `UpsertInvoker` does to everything but `invokers`. -/
structure Watched (r r' : InvokerRegistry F) : Prop where
  queue : r'.queue = r.queue
  nextJob : r'.nextJob = r.nextJob
  invokerByJobID : r'.invokerByJobID = r.invokerByJobID
  testingJobs : r'.testingJobs = r.testingJobs
  fresh : r.fresh ≤ r'.fresh
  objects : ∀ P : Invoker → Prop, (∀ i i', i.Kept i' → P i → P i') → (∀ status, P (.new status)) →
    (∀ a i, r.objects.get? a = some i → P i) → ∀ a i, r'.objects.get? a = some i → P i

omit [Add F] [Min F] [Zero F] [One F] in
theorem Watched.refl (r : InvokerRegistry F) : Watched r r :=
  ⟨rfl, rfl, rfl, rfl, Nat.le_refl _, fun _ _ _ hP => hP⟩

omit [Add F] [Min F] [Zero F] [One F] in
theorem Watched.trans (h : Watched r r') (h' : Watched r' r'') : Watched r r'' :=
  ⟨h'.queue.trans h.queue, h'.nextJob.trans h.nextJob, h'.invokerByJobID.trans h.invokerByJobID,
    h'.testingJobs.trans h.testingJobs, Nat.le_trans h.fresh h'.fresh,
    fun P hkept hnew hP => h'.objects P hkept hnew (h.objects P hkept hnew hP)⟩

omit [Add F] [Min F] [Zero F] [One F] in
theorem watched_setInvoker {ref : InvokerRef} {i i' : Invoker} (hi : r.objects.get? ref = some i)
    (hk : i.Kept i') : Watched r (r.setInvoker ref i') := by
  refine ⟨rfl, rfl, rfl, rfl, Nat.le_refl _, fun P hkept _ hP a b hb => ?_⟩
  rw [setInvoker_objects] at hb
  rcases GoMap.of_get?_set hb with ⟨-, rfl⟩ | ⟨-, hb⟩
  · exact hkept i b hk (hP ref i hi)
  · exact hP a b hb

/-- A new invoker is added to the registry. -/
theorem Custody.addInvoker (h : r.Custody) (loses : Prop) (pending : List JobID)
    (status : Status) :
    Moved loses r pending { r.setInvoker r.fresh (.new status) with
      invokers := r.invokers ++ [r.fresh]
      fresh := r.fresh + 1 } pending ∧
    Watched r { r.setInvoker r.fresh (.new status) with
      invokers := r.invokers ++ [r.fresh]
      fresh := r.fresh + 1 } := by
  have hne : ∀ ref invoker, r.objects.get? ref = some invoker → ref ≠ r.fresh :=
    fun ref invoker hi => (h.objects ref invoker hi).1.ne
  have hkeep : ∀ ref invoker, r.objects.get? ref = some invoker →
      (r.objects.set r.fresh (.new status)).get? ref = some invoker := fun ref invoker hi =>
    (GoMap.get?_set_ne _ _ (hne ref invoker hi)).trans hi
  refine ⟨⟨⟨h.accounted, fun id hle => h.fresh id (Nat.le_of_succ_le hle),
    fun id hle => h.unused id (Nat.le_of_succ_le hle), h.next, fun ref i hi => ?_,
    fun ref hmem => ?_, fun id ref hget => ?_, h.testing⟩, .refl, fun _ => rfl, rfl,
    Nat.le_succ _, fun _ ho => .inl ho, fun ref i hi => ⟨i, hkeep ref i hi⟩⟩,
    rfl, rfl, rfl, rfl, Nat.le_succ _, fun P _ hnew hP a i hi => ?_⟩
  · simp only [setInvoker_objects] at hi
    rcases GoMap.of_get?_set hi with ⟨heq, rfl⟩ | ⟨-, hi⟩
    · exact ⟨heq ▸ Nat.lt_succ_self _, Invoker.coherent_new status⟩
    · exact ⟨Nat.lt_succ_of_lt (h.objects ref i hi).1, (h.objects ref i hi).2⟩
  · rcases List.mem_append.1 hmem with hold | hlast
    · obtain ⟨i, hi⟩ := h.registered ref hold
      exact ⟨i, hkeep ref i hi⟩
    · rw [List.mem_singleton.1 hlast]
      exact ⟨_, GoMap.get?_set_self _ _ _⟩
  · obtain ⟨i, hi, hans⟩ := h.answered id ref hget
    exact ⟨i, hkeep ref i hi, hans⟩
  · simp only [setInvoker_objects] at hi
    rcases GoMap.of_get?_set hi with ⟨-, rfl⟩ | ⟨-, hi⟩
    · exact hnew status
    · exact hP a i hi

section Status

variable {order : RangeOrder} (ho : ∀ ids, (order ids).Perm ids)
include ho

theorem Custody.updateInvokers (h : r.Custody) (status : Status) {refs : List InvokerRef}
    (hrefs : ∀ ref ∈ refs, ∃ i, r.objects.get? ref = some i) :
    ∃ updated r', updateInvokers status order refs r = .ok (updated, r') ∧
      Moved loses r pending r' pending ∧ Watched r r' ∧ r'.invokers = r.invokers := by
  induction refs generalizing r with
  | nil => exact ⟨false, r, rfl, .refl h, .refl r, rfl⟩
  | cons ref rest ih =>
    obtain ⟨i, hi⟩ := hrefs ref List.mem_cons_self
    obtain ⟨updated, i', he, hobs, -⟩ :=
      (h.objects ref i hi).2.verifyAndUpdateStatus ho status
    have hmoved : Moved loses r pending (r.setInvoker ref i') pending := h.keep hi hobs.toKept
    have hwatched := watched_setInvoker hi hobs.toKept
    unfold InvokerRegistry.updateInvokers
    simp only [hi, deref_some, ok_bind, he]
    cases updated with
    | true => exact ⟨true, _, rfl, hmoved, hwatched, rfl⟩
    | false =>
      obtain ⟨updated, r', he', hr', hw', hinv⟩ := ih hmoved.custody fun a ha => by
        obtain ⟨b, hb⟩ := hrefs a (List.mem_cons_of_mem _ ha)
        exact hmoved.objects a b hb
      exact ⟨updated, r', he', hmoved.trans hr', hwatched.trans hw', hinv⟩

theorem Custody.upsertInvoker (h : r.Custody) (loses : Prop) (pending : List JobID)
    (status : Status) :
    ∃ r', r.upsertInvoker status order = .ok r' ∧ Moved loses r pending r' pending ∧
      Watched r r' := by
  obtain ⟨updated, r₁, he, (hmoved : Moved loses r pending r₁ pending), hwatched, -⟩ :=
    h.updateInvokers ho status h.registered
  unfold InvokerRegistry.upsertInvoker
  simp only [he, ok_bind]
  cases updated with
  | true => exact ⟨r₁, rfl, hmoved, hwatched⟩
  | false =>
    obtain ⟨hadded, hwatched'⟩ := hmoved.custody.addInvoker loses pending status
    exact ⟨_, rfl, hmoved.trans hadded, hwatched.trans hwatched'⟩

end Status

/-! ## SendJobs -/

omit [Add F] [Min F] [Zero F] [One F] in
theorem places_none (pending : List JobID) (hnext : r.nextJob = none) :
    (r.ledger pending).places = r.invokerByJobID.keys ++ pending := by
  rw [ledger, nextIDs_none hnext, List.nil_append]

/-- What `SendJobs` does to have a next job. -/
theorem Custody.takeNextJob (h : r.Custody) (loses : Prop) (pending : List JobID) :
    ∃ r', r.takeNextJob = .ok r' ∧ Moved loses r pending r' pending ∧
      ((∃ ref, r.nextJob = some ref ∧ r' = r) ∨
        r.nextJob = none ∧ ∃ next q, Queue.Taken r.queue r.fresh next q ∧
          r.queue.nextJob r.fresh = .ok (next, q) ∧
          r' = { r with nextJob := next, queue := q, fresh := r.fresh + 1 }) := by
  unfold InvokerRegistry.takeNextJob
  cases hnext : r.nextJob with
  | some ref => exact ⟨r, rfl, .refl h, .inl ⟨ref, rfl, rfl⟩⟩
  | none =>
    obtain ⟨next, q, he, ht⟩ := h.accounted.nextJob (h.fresh r.fresh (Nat.le_refl _))
    have hlive : ∀ o, r.queue.Live o → q.Live o := by
      intro o ho
      obtain ⟨job, hjob, -⟩ := h.accounted.exists_object ho
      exact (ht.hasID o job.id ⟨ho, job, hjob, rfl⟩).1
    refine ⟨_, by simp only [he, ok_bind]; rfl, ?_, .inr ⟨rfl, next, q, ht, he, rfl⟩⟩
    refine ⟨⟨ht.accounted, fun id hle => ?_, fun id hle => ?_, fun ref hr => ?_, fun ref i hi => ?_,
      h.registered, h.answered, fun id ref hget => ?_⟩, ?_, ht.progress, ht.status, Nat.le_succ _,
      fun o ho => ?_, fun ref i hi => ⟨i, hi⟩⟩
    · exact ht.fresh id (h.fresh id (Nat.le_of_succ_le hle)) (Nat.ne_of_gt hle)
    · have hold := Queue.progress_eq_none.2 (h.unused id (Nat.le_of_succ_le hle))
      exact Queue.progress_eq_none.1 ((ht.progress id).trans hold)
    · obtain ⟨id, hid, -⟩ := ht.some ref hr
      exact hid.1
    · exact ⟨Nat.lt_succ_of_lt (h.objects ref i hi).1, (h.objects ref i hi).2⟩
    · obtain ⟨hinv, hid⟩ := h.testing id ref hget
      exact ⟨hinv, ht.hasID ref id hid⟩
    · refine .single ?_
      have hplaces := places_none pending hnext
      cases next with
      | none =>
        refine .move (ht.none rfl).2.2 ?_
        rw [hplaces, places_none _ rfl]
      | some ref =>
        obtain ⟨id, hid, hnew, hout⟩ := ht.some ref rfl
        refine .issue id hnew hout ?_
        rw [hplaces, ledger, nextIDs_some rfl hid]
        exact .refl _
    · rcases ht.live o ho with hold | rfl
      · exact .inl hold
      · exact .inr (Nat.le_refl _)

/-- What a turn of the inner loop of `SendJobs` does with the next job. -/
theorem Custody.sendNextJob (h : r.Custody) (loses : Prop) (hexact : (r.ledger pending).Exact)
    {ref : InvokerRef} {i : Invoker} (hi : r.objects.get? ref = some i) {job : JobRef}
    (hnext : r.nextJob = some job) :
    ∃ id, r.queue.HasID job id ∧ (r.sendNextJob ref job = .ok (false, r.setInvoker ref i) ∨
      ∃ i', i.Sent job id i' ∧ r.invokerByJobID.get? id = none ∧
        r.sendNextJob ref job = .ok (true, { r.setInvoker ref i' with
          invokerByJobID := r.invokerByJobID.set id ref
          testingJobs := r.testingJobs.set id job
          nextJob := none }) ∧
        Moved loses r pending { r.setInvoker ref i' with
          invokerByJobID := r.invokerByJobID.set id ref
          testingJobs := r.testingJobs.set id job
          nextJob := none } pending) := by
  obtain ⟨id, hid, hids⟩ := h.nextID hnext
  obtain ⟨object, hobject, rfl⟩ := hid.2
  refine ⟨object.id, hid, ?_⟩
  unfold InvokerRegistry.sendNextJob
  simp only [hobject, hi, deref_some, ok_bind]
  rcases (h.objects ref i hi).2.trySendJob job object.id with hsend | ⟨i', hsend, hsent⟩
  · left
    simp only [hsend]
    rfl
  · right
    simp only [hsend]
    have hplaces : (r.ledger pending).places =
        object.id :: (r.invokerByJobID.keys ++ pending) := by
      rw [ledger, hids]
      rfl
    have hnew : r.invokerByJobID.get? object.id = none := by
      have hnodup := hexact.nodup
      rw [hplaces, List.nodup_cons, List.mem_append, not_or] at hnodup
      exact (GoMap.not_mem_keys_iff _ _).1 hnodup.1.1
    have hextracted : ∀ x, (∃ jobs, i.failure = .extracted jobs ∧ x ∈ jobs) →
        ∃ jobs, i'.failure = .extracted jobs ∧ x ∈ jobs := by
      rintro x ⟨jobs, hfailure, hmem⟩
      exact ⟨jobs, hsent.failure.trans hfailure, hmem⟩
    have hkept := h.setInvoker loses pending hi hsent.coherent fun x _ hx =>
      hx.imp (fun hheld => (hsent.holds x).2 (.inr hheld)) (hextracted x)
    have hc := hkept.custody
    refine ⟨i', hsent, hnew, rfl, ⟨⟨hc.accounted, hc.fresh, hc.unused, fun _ hr => (by cases hr),
      hc.objects, hc.registered, fun x a hx => ?_, fun x a hx => ?_⟩, .single (.move (fun _ => Iff.rfl) ?_),
      fun _ => rfl, rfl, Nat.le_refl _, fun _ ho => .inl ho, hkept.objects⟩⟩
    · have hx : (r.invokerByJobID.set object.id ref).get? x = some a := hx
      rcases GoMap.of_get?_set hx with ⟨heq, rfl⟩ | ⟨-, hx⟩
      · exact ⟨i', GoMap.get?_set_self _ _ _, .inl ((hsent.holds x).2 (.inl heq))⟩
      · exact hc.answered x a hx
    · have hx : (r.testingJobs.set object.id job).get? x = some a := hx
      show (∃ invoker, (r.invokerByJobID.set object.id ref).get? x = some invoker) ∧ _
      rcases GoMap.of_get?_set hx with ⟨rfl, rfl⟩ | ⟨hne, hx⟩
      · exact ⟨⟨ref, GoMap.get?_set_self _ _ _⟩, hid⟩
      · rw [GoMap.get?_set_ne _ _ hne]
        exact h.testing x a hx
    · rw [hplaces, ledger, nextIDs_none rfl]
      show (r.invokerByJobID.set object.id ref).keys ++ pending |>.Perm _
      rw [GoMap.keys_set_of_none hnew]
      exact .refl _

/-! ## OnInvokerFailure -/

omit [Add F] [Min F] [Zero F] [One F] in
/-- A job that is recorded for an invoker is out. -/
theorem handedOut_of_recorded (hexact : (r.ledger pending).Exact) {id : JobID} {ref : InvokerRef}
    (hrec : r.invokerByJobID.get? id = some ref) : r.queue.HandedOut id := by
  refine hexact.out id ?_
  have hkey : id ∈ r.invokerByJobID.keys := (GoMap.mem_keys_iff _ _).2 ⟨ref, hrec⟩
  exact List.mem_append_left _ (List.mem_append_right _ hkey)

omit [Add F] [Min F] [Zero F] [One F] in
/-- The places without a job that is recorded for an invoker. -/
theorem places_delete (pending : List JobID) {id : JobID} {ref : InvokerRef}
    (hrec : r.invokerByJobID.get? id = some ref) :
    (r.nextIDs ++ r.invokerByJobID.keys ++ pending).Perm
      (id :: (r.nextIDs ++ (r.invokerByJobID.delete id).keys ++ pending)) := by
  have hkeys := GoMap.keys_delete_perm hrec
  have hmiddle : (r.nextIDs ++ r.invokerByJobID.keys).Perm
      (id :: (r.nextIDs ++ (r.invokerByJobID.delete id).keys)) :=
    (hkeys.append_left _).trans List.perm_middle
  exact hmiddle.append_right _

/-- A turn of the loop of `OnInvokerFailure` for a job that is recorded. -/
theorem Custody.rescheduleJob (h : r.Custody) (loses : Prop) (hexact : (r.ledger pending).Exact)
    {id : JobID} {ref : InvokerRef} (hrec : r.invokerByJobID.get? id = some ref) :
    ∃ orig q, r.queue.HasID orig id ∧ r.queue.Rescheduled orig id r.fresh q ∧
      rescheduleJobs [id] r = .ok { r with
        queue := q
        fresh := r.fresh + 1
        invokerByJobID := r.invokerByJobID.delete id
        testingJobs := r.testingJobs.delete id } ∧
      Moved loses r pending { r with
        queue := q
        fresh := r.fresh + 1
        invokerByJobID := r.invokerByJobID.delete id
        testingJobs := r.testingJobs.delete id } pending := by
  have hout := handedOut_of_recorded hexact hrec
  obtain ⟨orig, hnot, hid⟩ := handedOut_of_recorded hexact hrec
  have hfresh := h.fresh r.fresh (Nat.le_refl _)
  obtain ⟨q, he, hr⟩ := h.accounted.toInvariant.rescheduleJob hid hfresh
  obtain ⟨hacc, hhanded, -⟩ := h.accounted.rescheduled hid hout hfresh hr
  have hgenerators : ∀ g, q.progress g = r.queue.progress g := by
    intro g
    rw [Queue.progress, Queue.progress, hr.generators]
  -- the ID of `nextJob` stays, since its job is another one
  have hother : ∀ o x, x ≠ id → r.queue.HasID o x → q.HasID o x := by
    intro o x hne hx
    refine (hr.hasID_iff o x).2 (.inr ⟨?_, hx⟩)
    rintro rfl
    exact hne (hx.eq hid)
  have hnext : nextIDs { r with
      queue := q
      fresh := r.fresh + 1
      invokerByJobID := r.invokerByJobID.delete id
      testingJobs := r.testingJobs.delete id } = r.nextIDs := by
    cases hn : r.nextJob with
    | none => exact (nextIDs_none rfl).trans (nextIDs_none hn).symm
    | some job =>
      obtain ⟨x, hx, hids⟩ := h.nextID hn
      have hne : x ≠ id := by
        rintro rfl
        have hnodup := (places_delete pending hrec).nodup_iff.1 hexact.nodup
        rw [hids, List.nodup_cons] at hnodup
        exact hnodup.1 List.mem_cons_self
      exact (nextIDs_some rfl (hother job x hne hx)).trans hids.symm
  refine ⟨orig, q, hid, hr, ?_, ⟨hacc, fun x hle => ?_, fun x hle => ?_, fun o ho => ?_,
    fun a i hi => ?_, h.registered, fun x a hx => ?_, fun x a hx => ?_⟩, .single ?_, hgenerators,
    hr.status, Nat.le_succ _, fun o ho => .inl ((hr.live o).1 ho), fun a i hi => ⟨i, hi⟩⟩
  · simp only [rescheduleJobs, hrec, he, ok_bind]
  · exact hr.fresh (h.fresh x (Nat.le_of_succ_le hle)) (Nat.ne_of_gt hle)
  · rw [hr.generators]
    exact h.unused x (Nat.le_of_succ_le hle)
  · exact (hr.live o).2 (h.next o ho)
  · exact ⟨Nat.lt_succ_of_lt (h.objects a i hi).1, (h.objects a i hi).2⟩
  · exact h.answered x a (GoMap.of_get?_delete hx).2
  · obtain ⟨hne, hx⟩ := GoMap.of_get?_delete hx
    obtain ⟨⟨i, hi⟩, hid'⟩ := h.testing x a hx
    exact ⟨⟨i, (GoMap.get?_delete_ne _ hne).trans hi⟩, hother a x hne hid'⟩
  · refine .settle id hhanded ?_
    rw [ledger, ledger, hnext]
    exact places_delete pending hrec

/-! ## HandleInvokerJobResult -/

/-- A job that is recorded for an invoker goes to `pending`. -/
theorem Custody.deleteJob (h : r.Custody) (loses : Prop) (pending : List JobID) {id : JobID}
    {ref : InvokerRef} (hrec : r.invokerByJobID.get? id = some ref) :
    Moved loses r pending { r with
      invokerByJobID := r.invokerByJobID.delete id
      testingJobs := r.testingJobs.delete id } (id :: pending) := by
  refine ⟨⟨h.accounted, h.fresh, h.unused, h.next, h.objects, h.registered, fun x a hx => ?_,
    fun x a hx => ?_⟩, .single (.move (fun _ => Iff.rfl) ?_), fun _ => rfl, rfl, le_rfl,
    fun _ ho => .inl ho, fun _ i hi => ⟨i, hi⟩⟩
  · exact h.answered x a (GoMap.of_get?_delete hx).2
  · obtain ⟨hne, hx⟩ := GoMap.of_get?_delete hx
    obtain ⟨⟨i, hi⟩, hid⟩ := h.testing x a hx
    exact ⟨⟨i, (GoMap.get?_delete_ne _ hne).trans hi⟩, hid⟩
  · exact List.perm_middle.trans (places_delete pending hrec).symm

/-- The object `job` requires the job `jobID`. -/
def requires (r : InvokerRegistry F) (jobID : JobID) (job : JobRef) : Bool :=
  match r.queue.jobs.get? job with
  | none => false
  | some job => decide (jobID ∈ job.requiredJobIDs)

/-- The calls of `StopJob` on the object `ref` in the loop of `HandleInvokerJobResult`. -/
def stopCalls (r : InvokerRegistry F) (jobID : JobID) (ref : InvokerRef)
    (jobs : List (JobID × JobRef)) : List JobID :=
  (jobs.filter fun entry =>
    decide (r.invokerByJobID.get? entry.1 = some ref) && r.requires jobID entry.2).map Prod.fst

omit [Add F] [Min F] [Zero F] [One F] in
/-- What the loop of `HandleInvokerJobResult` does. -/
theorem stopJobs_eq (jobID : JobID) {jobs : List (JobID × JobRef)}
    (hobject : ∀ e ∈ jobs, ∃ job, r.queue.jobs.get? e.2 = some job)
    (hinvoker : ∀ e ∈ jobs, ∃ ref, r.invokerByJobID.get? e.1 = some ref)
    (hrecorded : ∀ id ref, r.invokerByJobID.get? id = some ref → ∃ i, r.objects.get? ref = some i) :
    ∃ objects, stopJobs jobID jobs r = .ok { r with objects := objects } ∧
      (∀ ref, r.objects.get? ref = none → objects.get? ref = none) ∧
      ∀ ref i, r.objects.get? ref = some i →
        objects.get? ref = some { i with stops := i.stops ++ r.stopCalls jobID ref jobs } := by
  induction jobs generalizing r with
  | nil =>
    refine ⟨r.objects, rfl, fun _ hnone => hnone, fun ref i hi => ?_⟩
    rw [stopCalls, List.filter_nil, List.map_nil, List.append_nil]
    exact hi
  | cons entry jobs ih =>
    obtain ⟨runningJobID, runningJob⟩ := entry
    obtain ⟨job, hjob⟩ := hobject _ List.mem_cons_self
    obtain ⟨ref, href⟩ := hinvoker _ List.mem_cons_self
    have hjobs : ∀ e ∈ jobs, ∃ job, r.queue.jobs.get? e.2 = some job := fun e he =>
      hobject e (List.mem_cons_of_mem _ he)
    have hrefs : ∀ e ∈ jobs, ∃ ref, r.invokerByJobID.get? e.1 = some ref := fun e he =>
      hinvoker e (List.mem_cons_of_mem _ he)
    have hrequires : r.requires jobID runningJob = decide (jobID ∈ job.requiredJobIDs) := by
      rw [requires, hjob]
    unfold stopJobs
    simp only [hjob, deref_some, ok_bind]
    by_cases hmem : jobID ∈ job.requiredJobIDs
    · obtain ⟨i, hi⟩ := hrecorded runningJobID ref href
      have hset : ∀ a b, r.objects.get? a = some b →
          ∃ b', (r.setInvoker ref (i.stopJob runningJobID)).objects.get? a = some b' := by
        intro a b hb
        rw [setInvoker_objects, GoMap.get?_set]
        split
        · exact ⟨_, rfl⟩
        · exact ⟨b, hb⟩
      obtain ⟨objects, he, hnone, hstops⟩ := ih (r := r.setInvoker ref (i.stopJob runningJobID)) hjobs hrefs
        fun id a ha => by
          obtain ⟨b, hb⟩ := hrecorded id a ha
          exact hset a b hb
      refine ⟨objects, by simp only [hmem, if_true, href, hi, deref_some, ok_bind, he]; rfl,
        fun a ha => hnone a ((GoMap.get?_set_ne _ _ ?_).trans ha), fun a b hb => ?_⟩
      · rintro rfl
        rw [hi] at ha
        cases ha
      have hcalls : (r.setInvoker ref (i.stopJob runningJobID)).stopCalls jobID a jobs =
          r.stopCalls jobID a jobs := rfl
      by_cases ha : a = ref
      · subst ha
        obtain rfl := Option.some.inj (hb.symm.trans hi)
        rw [hstops a (b.stopJob runningJobID) (GoMap.get?_set_self _ _ _), hcalls]
        simp [stopCalls, href, hrequires, hmem, Invoker.stopJob]
      · rw [hstops a b ((GoMap.get?_set_ne _ _ ha).trans hb), hcalls]
        have hne : ¬ ref = a := fun heq => ha heq.symm
        simp [stopCalls, href, hne]
    · obtain ⟨objects, he, hnone, hstops⟩ := ih hjobs hrefs hrecorded
      refine ⟨objects, by simp only [hmem, if_false, he], hnone, fun a b hb => ?_⟩
      rw [hstops a b hb]
      simp [stopCalls, hrequires, hmem]

/-- The calls of `StopJob` on the object `ref` in `HandleInvokerJobResult`. -/
def stopCallsFor (r : InvokerRegistry F) (result : InvokerJobResult F) (ref : InvokerRef) :
    List JobID :=
  if stops result.verdict then r.stopCalls result.job.id ref r.testingJobs.entries else []

/-- What `HandleInvokerJobResult` does with the result of a job that is recorded for `ref`. -/
structure Handled (r : InvokerRegistry F) (result : InvokerJobResult F) (ref : InvokerRef)
    (tested : Bool) (r' : InvokerRegistry F) : Prop where
  recorded : r.invokerByJobID.get? result.job.id = some ref
  invoker : ∃ i, r.objects.get? ref = some i ∧ (tested = true ↔ i.Holds result.job.id)
  same : r' = { r with
    invokerByJobID := r.invokerByJobID.delete result.job.id
    testingJobs := r.testingJobs.delete result.job.id
    objects := r'.objects }
  none : ∀ a, r.objects.get? a = none → r'.objects.get? a = none
  objects : ∀ a i, r.objects.get? a = some i → ∃ i', r'.objects.get? a = some i' ∧ i'.Coherent ∧
    i'.stops = i.stops ++ r.stopCallsFor result a ∧ i'.failed = i.failed ∧ i'.failure = i.failure ∧
    ∀ x, i'.Holds x ↔ i.Holds x ∧ (a = ref → x ≠ result.job.id)

/-- The job of a result goes to `pending`, or it is dropped. -/
theorem Custody.handled (h : r.Custody) {result : InvokerJobResult F} {ref : InvokerRef}
    {tested : Bool} (hh : Handled r result ref tested r') :
    Moved (tested = false) r pending r' (if tested then result.job.id :: pending else pending) := by
  have hsame := hh.same
  have hdelete := places_delete pending hh.recorded
  have hplaces : ∀ ids, (r'.ledger ids).places =
      r.nextIDs ++ (r.invokerByJobID.delete result.job.id).keys ++ ids := by
    intro ids
    rw [hsame]
    rfl
  have hqueue : r'.queue = r.queue := by rw [hsame]
  have hinvokers : r'.invokers = r.invokers := by rw [hsame]
  have hnext : r'.nextJob = r.nextJob := by rw [hsame]
  have hfresh : r'.fresh = r.fresh := by rw [hsame]
  have hbyJob : r'.invokerByJobID = r.invokerByJobID.delete result.job.id := by rw [hsame]
  have hjobs : r'.testingJobs = r.testingJobs.delete result.job.id := by rw [hsame]
  refine ⟨⟨hqueue ▸ h.accounted, ?_, ?_, ?_, fun a b' hb' => ?_, fun a ha => ?_, fun x a hx => ?_,
    fun x a hx => ?_⟩, .single ?_, fun g => by rw [hqueue], by rw [hqueue], Nat.le_of_eq hfresh.symm,
    fun o ho => .inl (hqueue ▸ ho), fun a b hb => ?_⟩
  · rw [hfresh, hqueue]
    exact h.fresh
  · rw [hfresh, hqueue]
    exact h.unused
  · rw [hnext, hqueue]
    exact h.next
  · cases hb : r.objects.get? a with
    | none =>
      rw [hh.none a hb] at hb'
      cases hb'
    | some b =>
      obtain ⟨b₀, hb₀, hc, -⟩ := hh.objects a b hb
      obtain rfl := Option.some.inj (hb'.symm.trans hb₀)
      exact ⟨hfresh ▸ (h.objects a b hb).1, hc⟩
  · obtain ⟨b, hb⟩ := h.registered a (hinvokers ▸ ha)
    obtain ⟨b', hb', -⟩ := hh.objects a b hb
    exact ⟨b', hb'⟩
  · rw [hbyJob] at hx
    obtain ⟨hne, hx⟩ := GoMap.of_get?_delete hx
    obtain ⟨b, hb, hans⟩ := h.answered x a hx
    obtain ⟨b', hb', -, -, -, hfailure, hholds⟩ := hh.objects a b hb
    refine ⟨b', hb', hans.imp (fun hheld => (hholds x).2 ⟨hheld, fun _ => hne⟩) ?_⟩
    rintro ⟨jobs, hf, hmem⟩
    exact ⟨jobs, hfailure.trans hf, hmem⟩
  · rw [hjobs] at hx
    obtain ⟨hne, hx⟩ := GoMap.of_get?_delete hx
    obtain ⟨⟨b, hb⟩, hid⟩ := h.testing x a hx
    rw [hbyJob, hqueue]
    exact ⟨⟨b, (GoMap.get?_delete_ne _ hne).trans hb⟩, hid⟩
  · have hout : ∀ x, r'.queue.HandedOut x ↔ r.queue.HandedOut x := fun x => by rw [hqueue]
    cases tested with
    | true =>
      refine .move hout ?_
      rw [hplaces]
      exact List.perm_middle.trans hdelete.symm
    | false =>
      refine .drop result.job.id rfl hout ?_
      rw [hplaces]
      exact hdelete
  · obtain ⟨b', hb', -⟩ := hh.objects a b hb
    exact ⟨b', hb'⟩

/-- The loop of `HandleInvokerJobResult`, if it runs. -/
theorem Custody.stopJobs (h : r.Custody) (result : InvokerJobResult F) :
    ∃ objects, (stops result.verdict = true →
        stopJobs result.job.id r.testingJobs.entries r = .ok { r with objects := objects }) ∧
      (stops result.verdict = false → objects = r.objects) ∧
      (∀ ref, r.objects.get? ref = none → objects.get? ref = none) ∧
      ∀ ref i, r.objects.get? ref = some i →
        objects.get? ref = some { i with stops := i.stops ++ r.stopCallsFor result ref } := by
  cases hv : stops result.verdict with
  | true =>
    have htesting : ∀ e ∈ r.testingJobs.entries, r.testingJobs.get? e.1 = some e.2 := fun e he =>
      (GoMap.mem_entries_iff _ _ _).1 he
    obtain ⟨objects, he, hnone, hstops⟩ := stopJobs_eq (r := r) result.job.id
      (fun e he => by
        obtain ⟨-, -, job, hjob, -⟩ := h.testing e.1 e.2 (htesting e he)
        exact ⟨job, hjob⟩)
      (fun e he => (h.testing e.1 e.2 (htesting e he)).1)
      (fun id ref href => by
        obtain ⟨i, hi, -⟩ := h.answered id ref href
        exact ⟨i, hi⟩)
    refine ⟨objects, fun _ => he, fun hf => (nomatch hf), hnone, fun ref i hi => ?_⟩
    rw [stopCallsFor, hv]
    exact hstops ref i hi
  | false =>
    refine ⟨r.objects, fun hf => (nomatch hf), fun _ => rfl, fun _ hnone => hnone, fun ref i hi => ?_⟩
    rw [stopCallsFor, hv, hi]
    simp

omit [Add F] [Min F] [Zero F] [One F] in
theorem jobTested_stops {i i' : Invoker} {id : JobID} {tested : Bool}
    (he : i.jobTested id = .ok (tested, i')) : i'.stops = i.stops := by
  unfold Invoker.jobTested at he
  split at he
  · cases he
    rfl
  · obtain ⟨i₁, hremove, he⟩ := bind_eq_ok.1 he
    cases he
    unfold Invoker.removeJob at hremove
    split at hremove
    · cases hremove
    · cases hremove
      rfl

/-- What `HandleInvokerJobResult` does; the job is dropped if its invoker does not hold it. -/
theorem Custody.handleInvokerJobResult (h : r.Custody) (pending : List JobID)
    (result : InvokerJobResult F) :
    r.invokerByJobID.get? result.job.id = none ∧ r.handleInvokerJobResult result = .ok (false, r) ∨
      ∃ ref tested r', r.handleInvokerJobResult result = .ok (tested, r') ∧
        Handled r result ref tested r' ∧ Moved (tested = false) r pending r'
          (if tested then result.job.id :: pending else pending) := by
  cases hrec : r.invokerByJobID.get? result.job.id with
  | none => exact .inl ⟨rfl, by simp only [InvokerRegistry.handleInvokerJobResult, hrec]⟩
  | some ref =>
    right
    obtain ⟨i, hi, hans⟩ := h.answered _ ref hrec
    obtain ⟨objects, hstop, hskip, hnone, hstops⟩ := h.stopJobs result
    have hcoherent := (h.objects ref i hi).2
    have hi' := hstops ref i hi
    obtain ⟨tested, i', he, htested, ht⟩ := Invoker.Coherent.jobTested
      (i := { i with stops := i.stops ++ r.stopCallsFor result ref })
      ⟨hcoherent.known, hcoherent.healthy⟩ result.job.id
    let r' : InvokerRegistry F := { r with
      invokerByJobID := r.invokerByJobID.delete result.job.id
      testingJobs := r.testingJobs.delete result.job.id
      objects := objects.set ref i' }
    have hexec : r.handleInvokerJobResult result = .ok (tested, r') := by
      unfold InvokerRegistry.handleInvokerJobResult
      simp only [hrec]
      cases hv : stops result.verdict with
      | true =>
        simp only [if_true, hstop hv, ok_bind, hi', deref_some, he]
        rfl
      | false =>
        obtain rfl := hskip hv
        simp only [Bool.false_eq_true, if_false, hi', ok_bind, deref_some, he]
        rfl
    have hhandled : Handled r result ref tested r' := by
      refine ⟨hrec, ⟨i, hi, htested⟩, rfl, fun a ha => ?_, fun a b hb => ?_⟩
      · have hne : a ≠ ref := by
          rintro rfl
          rw [hi] at ha
          cases ha
        exact (GoMap.get?_set_ne _ _ hne).trans (hnone a ha)
      · by_cases heq : a = ref
        · subst heq
          obtain rfl := Option.some.inj (hb.symm.trans hi)
          refine ⟨i', GoMap.get?_set_self _ _ _, ht.coherent, jobTested_stops he, ht.failed, ht.failure,
            fun x => (ht.holds x).trans (and_congr_right fun _ => ?_)⟩
          exact ⟨fun hx _ => hx, fun hx => hx rfl⟩
        · have hc := (h.objects a b hb).2
          refine ⟨_, (GoMap.get?_set_ne _ _ heq).trans (hstops a b hb), ⟨hc.known, hc.healthy⟩, rfl,
            rfl, rfl, fun x => ⟨fun hx => ⟨hx, fun hax => absurd hax heq⟩, And.left⟩⟩
    exact ⟨ref, tested, r', hexec, hhandled, h.handled hhandled⟩

end TestingSystem.InvokerRegistry
