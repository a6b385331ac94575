import Mathlib.Tactic.Ring
import TestingSystem.Lib.Outcome
import TestingSystem.Master.Registry.Invoker

/-!
# The sections of an invoker

`Invoker.Coherent` is the invariant of an `Invoker` object: no job that it holds has the type
`UnknownJob`, it counts its jobs of every type, and `OnInvokerFailure` has started only if it is marked
failed. Every section has one lemma that says what it does. A section that only reads a status
(`Observed`) keeps the jobs and those in sending.
-/

set_option autoImplicit false

namespace TestingSystem

/-- The jobs that are held with a type. -/
def heldAs (m : GoMap JobID JobHolder) (t : HolderType) : List JobID :=
  m.keys.filter fun id => (m.get? id).map JobHolder.jobType = some t

/-- The jobs in sending. -/
def sendingIDs (m : GoMap JobID JobHolder) : List JobID := heldAs m .sendingJob

section HeldAs

variable {m : GoMap JobID JobHolder} {k id : JobID} {holder : JobHolder} {t : HolderType}

theorem mem_heldAs : id ∈ heldAs m t ↔ (m.get? id).map JobHolder.jobType = some t := by
  rw [heldAs, List.mem_filter, decide_eq_true_eq, GoMap.mem_keys_iff, and_iff_right_iff_imp]
  intro h
  obtain ⟨holder, hget, -⟩ := Option.map_eq_some_iff.1 h
  exact ⟨holder, hget⟩

theorem mem_sendingIDs :
    id ∈ sendingIDs m ↔ (m.get? id).map JobHolder.jobType = some .sendingJob :=
  mem_heldAs

theorem nodup_heldAs (m : GoMap JobID JobHolder) (t : HolderType) : (heldAs m t).Nodup :=
  m.nodup_keys.filter _

/-- The number of jobs of a type in a map and in the map without one job. -/
theorem length_heldAs {m' : GoMap JobID JobHolder} (h : m.get? k = some holder)
    (hm : ∀ x, m'.get? x = if x = k then none else m.get? x) (t : HolderType) :
    (heldAs m t).length = (heldAs m' t).length + if holder.jobType = t then 1 else 0 := by
  have hk : k ∉ heldAs m' t := by simp [mem_heldAs, hm]
  have hperm : (heldAs m t).Perm
      (if holder.jobType = t then k :: heldAs m' t else heldAs m' t) := by
    rw [List.perm_ext_iff_of_nodup (nodup_heldAs m t)]
    · intro x
      by_cases hx : x = k
      · subst hx
        split <;> simp [mem_heldAs, *]
      · split <;> simp [mem_heldAs, hm, hx]
    · split
      · exact List.nodup_cons.2 ⟨hk, nodup_heldAs _ _⟩
      · exact nodup_heldAs _ _
  rw [hperm.length_eq]
  split <;> simp

theorem length_heldAs_delete (h : m.get? k = some holder) (t : HolderType) :
    (heldAs m t).length =
      (heldAs (m.delete k) t).length + if holder.jobType = t then 1 else 0 :=
  length_heldAs h (m.get?_delete k) t

theorem length_heldAs_set (m : GoMap JobID JobHolder) (k : JobID) (holder : JobHolder)
    (t : HolderType) :
    (heldAs (m.set k holder) t).length =
      (heldAs (m.delete k) t).length + if holder.jobType = t then 1 else 0 := by
  refine length_heldAs (m.get?_set_self k holder) (fun x => ?_) t
  rw [GoMap.get?_delete, GoMap.get?_set]
  split <;> rfl

/-- Deleting a job that is not held changes no number. -/
theorem length_heldAs_delete_of_none (h : m.get? k = none) (t : HolderType) :
    (heldAs (m.delete k) t).length = (heldAs m t).length := by
  have hperm : (heldAs (m.delete k) t).Perm (heldAs m t) := by
    rw [List.perm_ext_iff_of_nodup (nodup_heldAs _ _) (nodup_heldAs _ _)]
    intro x
    rw [mem_heldAs, mem_heldAs, GoMap.get?_delete]
    by_cases hx : x = k <;> simp [hx, h]
  exact hperm.length_eq

end HeldAs

namespace Invoker

/-- The invoker was given the job and neither its result nor the failure took it away. -/
def Holds (i : Invoker) (id : JobID) : Prop := ∃ holder, i.jobHolderByID.get? id = some holder

/-- The invoker holds the job, or `OnInvokerFailure` has extracted it. -/
def Answers (i : Invoker) (id : JobID) : Prop :=
  i.Holds id ∨ ∃ jobs, i.failure = .extracted jobs ∧ id ∈ jobs

/-- The invariant of the object. -/
structure Coherent (i : Invoker) : Prop where
  known : ∀ id holder, i.jobHolderByID.get? id = some holder → holder.jobType ≠ .unknownJob
  healthy : i.failed = false → i.failure = .notStarted

/-- `OnInvokerFailure` works on failed invokers only. -/
theorem Coherent.failed {i : Invoker} (h : i.Coherent) (hne : i.failure ≠ .notStarted) :
    i.failed = true := by
  by_contra hf
  exact hne (h.healthy (Bool.not_eq_true _ ▸ hf))

/-- The jobs of every type are counted right. -/
def Counted (i : Invoker) : Prop :=
  ∀ t, i.jobTypesCount.read t = (heldAs i.jobHolderByID t).length

/-- What a section does that takes no job and gives none away. -/
structure Kept (i i' : Invoker) : Prop where
  coherent : i'.Coherent
  counted : i.Counted → i'.Counted
  holds : ∀ id, i'.Holds id ↔ i.Holds id
  sends : i'.sends = i.sends
  failed : i.failed = true → i'.failed = true ∧ i'.failure = i.failure
  fails : i.failed = false → i'.failed = true → i'.failure = .started

/-- What a section that only reads a status does to the jobs. -/
structure Observed (i i' : Invoker) : Prop extends Kept i i' where
  sending : ∀ id, id ∈ sendingIDs i'.jobHolderByID ↔ id ∈ sendingIDs i.jobHolderByID

variable {i i' i'' : Invoker} {id : JobID} {holder : JobHolder}

theorem Kept.refl (h : i.Coherent) : Kept i i :=
  ⟨h, fun hc => hc, fun _ => Iff.rfl, rfl, fun hf => ⟨hf, rfl⟩, fun hf ht => by simp [hf] at ht⟩

theorem Kept.trans (h : Kept i i') (h' : Kept i' i'') : Kept i i'' where
  coherent := h'.coherent
  counted hc := h'.counted (h.counted hc)
  holds id := (h'.holds id).trans (h.holds id)
  sends := h'.sends.trans h.sends
  failed hf := ⟨(h'.failed (h.failed hf).1).1, (h'.failed (h.failed hf).1).2.trans (h.failed hf).2⟩
  fails hf ht := by
    cases hf' : i'.failed with
    | false => exact h'.fails hf' ht
    | true => exact (h'.failed hf').2.trans (h.fails hf hf')

theorem Observed.refl (h : i.Coherent) : Observed i i := ⟨.refl h, fun _ => Iff.rfl⟩

theorem Observed.trans (h : Observed i i') (h' : Observed i' i'') : Observed i i'' :=
  ⟨h.toKept.trans h'.toKept, fun id => (h'.sending id).trans (h.sending id)⟩

/-- A job that was extracted stays extracted. -/
theorem Kept.answers (h : Kept i i') (hi : i.Coherent) (hid : i.Answers id) : i'.Answers id := by
  rcases hid with hid | ⟨jobs, hfailure, hmem⟩
  · exact .inl ((h.holds id).2 hid)
  · have hf : i.failed = true := by
      by_contra hf
      simp [hi.healthy (Bool.not_eq_true _ ▸ hf)] at hfailure
    exact .inr ⟨jobs, (h.failed hf).2.trans hfailure, hmem⟩

/-- A job that is not held has no type. -/
theorem getJobType_of_not_holds (h : ¬ i.Holds id) : i.getJobType id = .unknownJob := by
  cases hget : i.jobHolderByID.get? id with
  | none => simp [getJobType, hget]
  | some holder => exact absurd ⟨holder, hget⟩ h

theorem Coherent.getJobType_eq_unknown (h : i.Coherent) :
    i.getJobType id = .unknownJob ↔ ¬ i.Holds id := by
  refine ⟨?_, getJobType_of_not_holds⟩
  rintro ht ⟨holder, hget⟩
  simp only [getJobType, hget] at ht
  exact h.known id holder hget ht

theorem getJobType_eq_sending : i.getJobType id = .sendingJob ↔ id ∈ sendingIDs i.jobHolderByID := by
  rw [mem_sendingIDs, getJobType]
  cases i.jobHolderByID.get? id <;> simp

theorem coherent_new (status : Status) : (new status).Coherent :=
  ⟨fun _ _ h => (nomatch h), fun _ => rfl⟩

theorem counted_new (status : Status) : (new status).Counted := fun _ => rfl

/-- What a section that gives a held job another type does. -/
structure Retyped (i : Invoker) (id : JobID) (t : HolderType) (i' : Invoker) : Prop
    extends Kept i i' where
  sending : ∀ x, x ∈ sendingIDs i'.jobHolderByID ↔
    if x = id then t = .sendingJob else x ∈ sendingIDs i.jobHolderByID
  status : i'.status = i.status
  same : i'.failed = i.failed

theorem Coherent.setJobType (h : i.Coherent) (hid : i.Holds id) {t : HolderType}
    (ht : t ≠ .unknownJob) : ∃ i', i.setJobType id t = .ok i' ∧ Retyped i id t i' := by
  obtain ⟨holder, hget⟩ := hid
  let i' : Invoker := { i.countDown holder.jobType with
    jobHolderByID := i.jobHolderByID.set id { holder with jobType := t } }.countUp t
  have hset : i'.jobHolderByID = i.jobHolderByID.set id { holder with jobType := t } := rfl
  have hcount := length_heldAs_set i.jobHolderByID id { holder with jobType := t }
  have hold := length_heldAs_delete hget
  refine ⟨i', by rw [Invoker.setJobType, hget]; rfl, ⟨⟨fun x holder' hx => ?_, h.healthy⟩, fun hc => ?_,
    fun x => ?_, rfl, fun hf => ⟨hf, rfl⟩, fun hf ht => ?_⟩, fun x => ?_, rfl, rfl⟩
  · rw [hset] at hx
    rcases GoMap.of_get?_set hx with ⟨-, rfl⟩ | ⟨-, hx⟩
    · exact ht
    · exact h.known x holder' hx
  · intro u
    have htypes : i'.jobTypesCount.read u = i.jobTypesCount.read u
        - (if holder.jobType = u then 1 else 0) + if t = u then 1 else 0 := by
      simp only [i', countUp, countDown, GoMap.read_set, eq_comm]
      split <;> split <;> simp_all
    rw [htypes, hc, hset, hcount, hold]
    push_cast
    ring
  · simp only [Holds, hset, GoMap.get?_set]
    by_cases hx : x = id <;> simp [hx, hget]
  · have ht : i.failed = true := ht
    simp [hf] at ht
  · rw [mem_sendingIDs, mem_sendingIDs, hset, GoMap.get?_set]
    by_cases hx : x = id <;> simp [hx]

theorem Retyped.observed {t : HolderType} (h : Retyped i id t i')
    (hid : id ∉ sendingIDs i.jobHolderByID) (ht : t ≠ .sendingJob) : Observed i i' := by
  refine ⟨h.toKept, fun x => ?_⟩
  rw [h.sending]
  by_cases hx : x = id <;> simp [hx, hid, ht]

theorem Coherent.markFailed (h : i.Coherent) :
    Observed i i.markFailed ∧ i.markFailed.status = i.status ∧ i.markFailed.failed = true := by
  unfold Invoker.markFailed
  split
  · next hf => exact ⟨.refl h, rfl, hf⟩
  · next hf =>
    exact ⟨⟨⟨⟨h.known, fun hf' => by simp at hf'⟩, fun hc => hc, fun _ => Iff.rfl, rfl,
      fun ht => absurd ht hf, fun _ _ => rfl⟩, fun _ => Iff.rfl⟩, rfl, rfl⟩

/-- The loop of `updateStatus`, over jobs that are held. -/
theorem Coherent.updateJobs (h : i.Coherent) (status : Status) {ids : List JobID}
    (hids : ∀ id ∈ ids, i.Holds id) :
    ∃ i', updateJobs status ids i = .ok i' ∧ Observed i i' ∧ i'.status = i.status := by
  induction ids generalizing i with
  | nil => exact ⟨i, rfl, .refl h, rfl⟩
  | cons id rest ih =>
    obtain ⟨holder, hget⟩ := hids id List.mem_cons_self
    have hrest : ∀ i', Observed i i' → ∀ x ∈ rest, i'.Holds x := fun i' hi x hx =>
      (hi.holds x).2 (hids x (List.mem_cons_of_mem _ hx))
    have htype : i.getJobType id = holder.jobType := by simp [getJobType, hget]
    unfold Invoker.updateJobs
    rw [htype]
    cases hj : holder.jobType with
    | sendingJob => exact ih h (hrest i (.refl h))
    | testingJob =>
      by_cases hactive : isJobTesting id status = true
      · simpa only [hactive, if_true] using ih h (hrest i (.refl h))
      · obtain ⟨i₁, he, hr⟩ := h.setJobType ⟨holder, hget⟩ (t := .noReplyJob) (by simp)
        have hi₁ := hr.observed (by simp [mem_sendingIDs, hget, hj]) (by simp)
        have hi₂ : Observed i { i₁ with timers := i₁.timers ++ [id] } :=
          ⟨⟨⟨hi₁.coherent.known, hi₁.coherent.healthy⟩, hi₁.counted, hi₁.holds, hi₁.sends, hi₁.failed,
            hi₁.fails⟩, hi₁.sending⟩
        obtain ⟨i', he', hi', hs⟩ := ih hi₂.coherent (hrest _ hi₂)
        exact ⟨i', by simp only [hactive, Bool.false_eq_true, if_false, he, ok_bind, he'],
          hi₂.trans hi', hs.trans hr.status⟩
    | noReplyJob =>
      by_cases hactive : isJobTesting id status = true
      · exact ⟨_, by simp only [hactive, if_true], h.markFailed.1, h.markFailed.2.1⟩
      · simpa only [hactive, if_false, Bool.false_eq_true] using ih h (hrest i (.refl h))
    | unknownJob => exact absurd hj (h.known id holder hget)

/-- The status after a response was read. -/
def statusAfter (i : Invoker) : Option Status → Status
  | none => i.status
  | some status => if i.failed = true ∨ i.status.epoch ≥ status.epoch then i.status else status

section Sections

variable {order : RangeOrder} (ho : ∀ ids, (order ids).Perm ids)
include ho

theorem Coherent.updateStatus (h : i.Coherent) (status : Status) :
    ∃ i', i.updateStatus status order = .ok i' ∧ Observed i i' ∧
      i'.status = i.statusAfter (some status) := by
  unfold Invoker.updateStatus
  rw [statusAfter]
  split
  · exact ⟨i, rfl, .refl h, rfl⟩
  · have hi : Coherent { i with status := status } := ⟨h.known, h.healthy⟩
    have hids : ∀ id ∈ order i.jobHolderByID.keys, i.Holds id := fun id hid =>
      (GoMap.mem_keys_iff _ id).1 ((ho _).mem_iff.1 hid)
    obtain ⟨i', he, hi', hs⟩ := hi.updateJobs status hids
    exact ⟨i', he, ⟨⟨hi'.coherent, hi'.counted, hi'.holds, hi'.sends, hi'.failed, hi'.fails⟩,
      hi'.sending⟩, hs⟩

theorem Coherent.ping (h : i.Coherent) (response : Option Status) :
    ∃ i', i.ping response order = .ok i' ∧ Observed i i' ∧
      i'.status = i.statusAfter response := by
  cases response with
  | none => exact ⟨_, rfl, h.markFailed.1, h.markFailed.2.1⟩
  | some status => exact h.updateStatus ho status

theorem Coherent.verifyAndUpdateStatus (h : i.Coherent) (status : Status) :
    ∃ updated i', i.verifyAndUpdateStatus status order = .ok (updated, i') ∧ Observed i i' ∧
      (i.address = status.address → i'.status = i.statusAfter (some status) ∧
        updated = !i'.failed) := by
  unfold Invoker.verifyAndUpdateStatus
  split
  · next hne => exact ⟨_, _, rfl, .refl h, fun heq => absurd heq hne⟩
  · obtain ⟨i', he, hi', hs⟩ := h.updateStatus ho status
    exact ⟨_, i', by simp only [he, ok_bind]; rfl, hi', fun _ => ⟨hs, rfl⟩⟩

/-- `completeSendJob` takes the job out of those in sending, unless the request failed. -/
theorem Coherent.completeSendJob (h : i.Coherent) (id : JobID) (response : Option Status) :
    Yields (fun p => p = .sendingJobChanged ∧ i.Holds id ∧ id ∉ sendingIDs i.jobHolderByID)
      (fun i' => Kept i i' ∧ i'.status = i.statusAfter response ∧
        ∀ x, x ∈ sendingIDs i'.jobHolderByID ↔
          x ∈ sendingIDs i.jobHolderByID ∧ (response = none ∨ x ≠ id))
      (i.completeSendJob id response order) := by
  cases response with
  | none =>
    obtain ⟨hi, hs, -⟩ := h.markFailed
    exact ⟨hi.toKept, hs, fun x => by simp [hi.sending]⟩
  | some status =>
    have hheld : i.getJobType id ≠ .unknownJob → i.Holds id := fun hne =>
      not_not.1 fun hnot => hne (getJobType_of_not_holds hnot)
    have hsending : id ∈ sendingIDs i.jobHolderByID ↔ i.getJobType id = .sendingJob :=
      getJobType_eq_sending.symm
    unfold Invoker.completeSendJob
    cases hj : i.getJobType id with
    | sendingJob =>
      obtain ⟨i₁, he, hr⟩ := h.setJobType (hheld (by simp [hj])) (t := .testingJob) (by simp)
      obtain ⟨i', he', hi', hs⟩ := hr.coherent.updateStatus ho status
      simp only [he, ok_bind, he', Yields.ok_iff]
      refine ⟨hr.toKept.trans hi'.toKept, ?_, fun x => ?_⟩
      · rw [hs, statusAfter, statusAfter, hr.status, hr.same]
      · rw [hi'.sending, hr.sending]
        by_cases hx : x = id <;> simp [hx]
    | testingJob => exact ⟨rfl, hheld (by simp [hj]), by simp [hsending, hj]⟩
    | noReplyJob => exact ⟨rfl, hheld (by simp [hj]), by simp [hsending, hj]⟩
    | unknownJob =>
      obtain ⟨i', he, hi', hs⟩ := h.updateStatus ho status
      simp only [he, Yields.ok_iff]
      refine ⟨hi'.toKept, hs, fun x => ?_⟩
      rw [hi'.sending, iff_self_and]
      refine fun hx => .inr ?_
      rintro rfl
      simp [hsending, hj] at hx

omit ho

/-- What `TrySendJob` does when it sends the job. -/
structure Sent (i : Invoker) (job : JobRef) (id : JobID) (i' : Invoker) : Prop where
  coherent : i'.Coherent
  counted : i.Counted → ¬ i.Holds id → i'.Counted
  room : i.failed = false ∧ i.jobTypesCount.read .sendingJob + 1 ≤ i.status.maxNewJobs
  holds : ∀ x, i'.Holds x ↔ x = id ∨ i.Holds x
  sending : ∀ x, x ∈ sendingIDs i'.jobHolderByID ↔ x = id ∨ x ∈ sendingIDs i.jobHolderByID
  sends : i'.sends = i.sends ++ [job]
  status : i'.status = i.status
  failed : i'.failed = i.failed
  failure : i'.failure = i.failure

theorem Coherent.trySendJob (h : i.Coherent) (job : JobRef) (id : JobID) :
    i.trySendJob job id = (false, i) ∨
      ∃ i', i.trySendJob job id = (true, i') ∧ Sent i job id i' := by
  unfold Invoker.trySendJob
  split
  · exact .inl rfl
  · next hroom =>
    rw [not_or, Bool.not_eq_true, gt_iff_lt, not_lt] at hroom
    have hcount := length_heldAs_set i.jobHolderByID id ⟨job, .sendingJob⟩
    refine .inr ⟨_, rfl, ⟨fun x holder hx => ?_, h.healthy⟩, fun hc hid => ?_, hroom, fun x => ?_,
      fun x => ?_, rfl, rfl, rfl, rfl⟩
    · simp only [addJob, countUp] at hx
      rcases GoMap.of_get?_set hx with ⟨-, rfl⟩ | ⟨-, hx⟩
      · simp
      · exact h.known x holder hx
    · have hnone : i.jobHolderByID.get? id = none := by
        rw [Option.eq_none_iff_forall_ne_some]
        exact fun holder hget => hid ⟨holder, hget⟩
      intro u
      simp only [addJob, countUp, GoMap.read_set, hcount, length_heldAs_delete_of_none hnone, hc _]
      by_cases hu : u = .sendingJob
      · simp [hu]
      · simp [hu, Ne.symm hu]
    · simp only [Holds, addJob, countUp, GoMap.get?_set]
      by_cases hx : x = id <;> simp [hx]
    · simp only [mem_sendingIDs, addJob, countUp, GoMap.get?_set]
      by_cases hx : x = id <;> simp [hx]

/-- What `JobTested` does. -/
structure Tested (i : Invoker) (id : JobID) (i' : Invoker) : Prop where
  coherent : i'.Coherent
  counted : i.Counted → i'.Counted
  holds : ∀ x, i'.Holds x ↔ i.Holds x ∧ x ≠ id
  sending : ∀ x, x ∈ sendingIDs i'.jobHolderByID ↔ x ∈ sendingIDs i.jobHolderByID ∧ x ≠ id
  sends : i'.sends = i.sends
  status : i'.status = i.status
  failed : i'.failed = i.failed
  failure : i'.failure = i.failure

theorem Coherent.jobTested (h : i.Coherent) (id : JobID) :
    ∃ tested i', i.jobTested id = .ok (tested, i') ∧ (tested = true ↔ i.Holds id) ∧
      Tested i id i' := by
  have hnot : i.getJobType id = .unknownJob ↔ ¬ i.Holds id := h.getJobType_eq_unknown
  unfold Invoker.jobTested
  split
  · next hj =>
    have hid := hnot.1 hj
    have hne : ∀ x, i.Holds x → x ≠ id := fun x hx heq => hid (heq ▸ hx)
    refine ⟨false, i, rfl, by simpa using hid, h, fun hc => hc, fun x => ?_, fun x => ?_, rfl, rfl, rfl,
      rfl⟩
    · exact ⟨fun hx => ⟨hx, hne x hx⟩, And.left⟩
    · refine ⟨fun hx => ⟨hx, hne x ?_⟩, And.left⟩
      rw [mem_sendingIDs] at hx
      obtain ⟨holder, hget, -⟩ := Option.map_eq_some_iff.1 hx
      exact ⟨holder, hget⟩
  · next hj =>
    have hid : i.Holds id := not_not.1 fun hn => hj (hnot.2 hn)
    obtain ⟨holder, hget⟩ := hid
    have hcount := length_heldAs_delete hget
    let i' : Invoker := { i.countDown holder.jobType with
      jobHolderByID := i.jobHolderByID.delete id }
    have hdelete : i'.jobHolderByID = i.jobHolderByID.delete id := rfl
    refine ⟨true, i', by simp only [removeJob, hget, ok_bind]; rfl, by simpa using ⟨holder, hget⟩,
      ⟨fun x holder' hx => ?_, h.healthy⟩, fun hc => ?_, fun x => ?_, fun x => ?_, rfl, rfl, rfl,
      rfl⟩
    · rw [hdelete] at hx
      exact h.known x holder' (GoMap.of_get?_delete hx).2
    · intro u
      have htypes : i'.jobTypesCount.read u =
          i.jobTypesCount.read u - if holder.jobType = u then 1 else 0 := by
        simp only [i', countDown, GoMap.read_set, eq_comm]
        split <;> simp_all
      rw [htypes, hc, hdelete, hcount]
      push_cast
      ring
    · simp only [Holds, hdelete, GoMap.get?_delete]
      by_cases hx : x = id <;> simp [hx]
    · simp only [mem_sendingIDs, hdelete, GoMap.get?_delete]
      by_cases hx : x = id <;> simp [hx]

end Sections

theorem Coherent.ensureJobIsNotLost (h : i.Coherent) (id : JobID) :
    Observed i (i.ensureJobIsNotLost id) ∧ (i.ensureJobIsNotLost id).status = i.status := by
  unfold Invoker.ensureJobIsNotLost
  split
  · exact ⟨h.markFailed.1, h.markFailed.2.1⟩
  · exact ⟨.refl h, rfl⟩

end Invoker

end TestingSystem
