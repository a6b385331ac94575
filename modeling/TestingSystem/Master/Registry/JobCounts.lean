import TestingSystem.Lib.Machine
import TestingSystem.Master.Registry.InvokerInvariant

/-!
# The counters of an invoker

The sections of one `Invoker` in any order: every answer of the network, any status, and a late
`completeSendJob` or timer at any time, also after the maps were replaced. `Exact` holds in every
state reached, so `jobTypesCount` is the number of holders of every type (`jobTypesCount_exact`).
-/

set_option autoImplicit false

namespace TestingSystem

/-- An `Invoker`, with the IDs of the jobs that it sent. -/
structure InvokerRun where
  invoker : Invoker
  sent : List JobID

/-- A section of the invoker. `updateStatus` is a part of `ping`, `completeSendJob` and
`VerifyAndUpdateStatus`; `markFailed` alone is the section of `ResetCache` and `StopJob` after an
error of the request. -/
inductive InvokerCall where
  | trySendJob (job : JobRef) (jobID : JobID)
  | completeSendJob (jobID : JobID) (response : Option Status) (order : RangeOrder)
  | ping (response : Option Status) (order : RangeOrder)
  | verifyAndUpdateStatus (status : Status) (order : RangeOrder)
  | ensureJobIsNotLost (jobID : JobID)
  | jobTested (jobID : JobID)
  | extractJobs (order : RangeOrder)
  | markFailed

namespace InvokerRun

/-- No ID is sent twice. -/
def enabled (s : InvokerRun) : InvokerCall → Prop
  | .trySendJob _ jobID => jobID ∉ s.sent
  | .completeSendJob _ _ order | .ping _ order | .verifyAndUpdateStatus _ order
  | .extractJobs order => ∀ ids, (order ids).Perm ids
  | .ensureJobIsNotLost _ | .jobTested _ | .markFailed => True

def exec (s : InvokerRun) : InvokerCall → Except Panic InvokerRun
  | .trySendJob job jobID =>
    match s.invoker.trySendJob job jobID with
    | (false, i) => .ok { s with invoker := i }
    | (true, i) => .ok { invoker := i, sent := jobID :: s.sent }
  | .completeSendJob jobID response order => do
    let i ← s.invoker.completeSendJob jobID response order
    return { s with invoker := i }
  | .ping response order => do
    let i ← s.invoker.ping response order
    return { s with invoker := i }
  | .verifyAndUpdateStatus status order => do
    let (_, i) ← s.invoker.verifyAndUpdateStatus status order
    return { s with invoker := i }
  | .ensureJobIsNotLost jobID => .ok { s with invoker := s.invoker.ensureJobIsNotLost jobID }
  | .jobTested jobID => do
    let (_, i) ← s.invoker.jobTested jobID
    return { s with invoker := i }
  | .extractJobs order => .ok { s with invoker := (s.invoker.extractJobs order).2 }
  | .markFailed => .ok { s with invoker := s.invoker.markFailed }

def machine : Machine InvokerRun InvokerCall Panic where
  init s := ∃ status, s = { invoker := .new status, sent := [] }
  enabled := enabled
  exec := exec

/-- The counters are right, and every job that is held was sent. -/
structure Exact (s : InvokerRun) : Prop where
  coherent : s.invoker.Coherent
  counted : s.invoker.Counted
  sent : ∀ id, s.invoker.Holds id → id ∈ s.sent

/-- A failed invoker stays failed and gets no job. -/
def Closed (i i' : Invoker) : Prop :=
  i.failed = true → i'.failed = true ∧ ∀ id, i'.Holds id → i.Holds id

/-- What a step keeps. -/
structure Keeps (s t : InvokerRun) : Prop where
  exact : t.Exact
  closed : Closed s.invoker t.invoker

variable {s t : InvokerRun} {a : InvokerCall}

theorem exact_of_init (h : machine.init s) : s.Exact := by
  obtain ⟨status, rfl⟩ := h
  exact ⟨Invoker.coherent_new status, Invoker.counted_new status, fun _ ⟨_, hid⟩ => (nomatch hid)⟩

theorem Exact.kept (h : s.Exact) {i : Invoker} (hi : Invoker.Kept s.invoker i) :
    Keeps s { s with invoker := i } where
  exact := ⟨hi.coherent, hi.counted h.counted, fun id hid => h.sent id ((hi.holds id).1 hid)⟩
  closed hf := ⟨(hi.failed hf).1, fun id hid => (hi.holds id).1 hid⟩

theorem Exact.sending (h : s.Exact) {job : JobRef} {jobID : JobID} (hnew : jobID ∉ s.sent)
    {i : Invoker} (hi : s.invoker.Sent job jobID i) :
    Keeps s { invoker := i, sent := jobID :: s.sent } where
  exact := by
    refine ⟨hi.coherent, hi.counted h.counted fun hid => hnew (h.sent jobID hid), fun id hid => ?_⟩
    rcases (hi.holds id).1 hid with rfl | hid
    · exact List.mem_cons_self
    · exact List.mem_cons_of_mem _ (h.sent id hid)
  closed hf := absurd hf (by simp [hi.room.1])

theorem Exact.tested (h : s.Exact) {jobID : JobID} {i : Invoker} (hi : s.invoker.Tested jobID i) :
    Keeps s { s with invoker := i } where
  exact :=
    ⟨hi.coherent, hi.counted h.counted, fun id hid => h.sent id ((hi.holds id).1 hid).1⟩
  closed hf := ⟨hi.failed.trans hf, fun id hid => ((hi.holds id).1 hid).1⟩

theorem Exact.extracted (h : s.Exact) (order : RangeOrder) :
    Keeps s { s with invoker := (s.invoker.extractJobs order).2 } where
  exact :=
    ⟨⟨fun _ _ hget => (nomatch hget), h.coherent.healthy⟩, fun _ => rfl,
      fun _ ⟨_, hid⟩ => (nomatch hid)⟩
  closed hf := ⟨hf, fun _ ⟨_, hid⟩ => (nomatch hid)⟩

/-- The step lemma. The only panic is the one of `completeSendJob` for a job that is not in
sending. -/
theorem Exact.exec (h : s.Exact) (hen : s.enabled a) :
    Yields (· = .sendingJobChanged) (Keeps s) (s.exec a) := by
  cases a with
  | trySendJob job jobID =>
    rcases h.coherent.trySendJob job jobID with hcall | ⟨i, hcall, hi⟩
    · simp only [InvokerRun.exec, hcall, Yields.ok_iff]
      exact h.kept (.refl h.coherent)
    · simp only [InvokerRun.exec, hcall, Yields.ok_iff]
      exact h.sending hen hi
  | completeSendJob jobID response order =>
    have hcall := h.coherent.completeSendJob hen jobID response
    exact (hcall.mono (fun p hp => hp.1) fun _ hi => hi).bind fun i hi => h.kept hi.1
  | ping response order =>
    obtain ⟨i, he, hi, -⟩ := h.coherent.ping hen response
    rw [InvokerRun.exec, he, ok_bind]
    exact h.kept hi.toKept
  | verifyAndUpdateStatus status order =>
    obtain ⟨updated, i, he, hi, -⟩ := h.coherent.verifyAndUpdateStatus hen status
    rw [InvokerRun.exec, he, ok_bind]
    exact h.kept hi.toKept
  | ensureJobIsNotLost jobID => exact h.kept (h.coherent.ensureJobIsNotLost jobID).1.toKept
  | jobTested jobID =>
    obtain ⟨tested, i, he, -, hi⟩ := h.coherent.jobTested jobID
    rw [InvokerRun.exec, he, ok_bind]
    exact h.tested hi
  | extractJobs order => exact h.extracted order
  | markFailed => exact h.kept h.coherent.markFailed.1.toKept

theorem exact_of_reachable (hs : machine.Reachable Machine.always s) : s.Exact :=
  hs.invariant (fun _ h => exact_of_init h) fun _ _ _ h _ hen hex =>
    ((h.exec hen).value hex).exact

/-- The run lemma of `Closed`. -/
theorem closed_of_reaches (hs : s.Exact) (hr : machine.Reaches Machine.always s t) :
    Closed s.invoker t.invoker := by
  refine (hr.keeps (P := fun u => u.Exact ∧ Closed s.invoker u.invoker)
    ⟨hs, fun hf => ⟨hf, fun _ hid => hid⟩⟩ ?_).2
  rintro u a v ⟨hu, hclosed⟩ - hen hex
  obtain ⟨hv, hstep⟩ := (hu.exec hen).value hex
  refine ⟨hv, fun hf => ?_⟩
  obtain ⟨hfu, hsub⟩ := hclosed hf
  exact ⟨(hstep hfu).1, fun id hid => hsub id ((hstep hfu).2 id hid)⟩

/-- A failed invoker whose jobs were extracted. -/
structure Drained (i : Invoker) : Prop where
  failed : i.failed = true
  holders : i.jobHolderByID = .empty
  counts : i.jobTypesCount = .empty

theorem Drained.getJobType {i : Invoker} (h : Drained i) (id : JobID) :
    i.getJobType id = .unknownJob := by
  simp [Invoker.getJobType, h.holders]

theorem Drained.updateStatus {i : Invoker} (h : Drained i) (status : Status) (order : RangeOrder) :
    i.updateStatus status order = .ok i := by
  simp [Invoker.updateStatus, h.failed]

/-- No section changes a drained invoker. -/
theorem Drained.exec (h : Drained s.invoker) (hex : s.exec a = .ok t) : t.invoker = s.invoker := by
  have hmark : s.invoker.markFailed = s.invoker := by simp [Invoker.markFailed, h.failed]
  cases a with
  | trySendJob job jobID =>
    have hcall : s.invoker.trySendJob job jobID = (false, s.invoker) := by
      simp [Invoker.trySendJob, h.failed]
    simp only [InvokerRun.exec, hcall] at hex
    cases hex
    rfl
  | completeSendJob jobID response order =>
    have hcall : s.invoker.completeSendJob jobID response order = .ok s.invoker := by
      cases response with
      | none => rw [Invoker.completeSendJob, hmark]
      | some status => simp only [Invoker.completeSendJob, h.getJobType, h.updateStatus]
    simp only [InvokerRun.exec, hcall, ok_bind] at hex
    cases hex
    rfl
  | ping response order =>
    have hcall : s.invoker.ping response order = .ok s.invoker := by
      cases response with
      | none => rw [Invoker.ping, hmark]
      | some status => exact h.updateStatus status order
    simp only [InvokerRun.exec, hcall, ok_bind] at hex
    cases hex
    rfl
  | verifyAndUpdateStatus status order =>
    obtain ⟨⟨updated, i⟩, hcall, he⟩ := bind_eq_ok.1 hex
    cases he
    unfold Invoker.verifyAndUpdateStatus at hcall
    split at hcall
    · cases hcall
      rfl
    · rw [h.updateStatus, ok_bind] at hcall
      cases hcall
      rfl
  | ensureJobIsNotLost jobID =>
    cases hex
    simp [Invoker.ensureJobIsNotLost, h.getJobType]
  | jobTested jobID =>
    simp only [InvokerRun.exec, Invoker.jobTested, h.getJobType, if_true, ok_bind] at hex
    cases hex
    rfl
  | extractJobs order =>
    cases hex
    show { s.invoker with jobHolderByID := .empty, jobTypesCount := .empty } = s.invoker
    rw [← h.holders, ← h.counts]
  | markFailed =>
    cases hex
    exact hmark

/-- The run lemma of `Drained`. -/
theorem Drained.reaches (h : Drained s.invoker) (hr : machine.Reaches Machine.always s t) :
    t.invoker = s.invoker :=
  hr.keeps (P := fun u => u.invoker = s.invoker) rfl fun _ _ _ hu _ _ hex =>
    (Drained.exec (hu ▸ h) hex).trans hu

/-- In every run `jobTypesCount` is exact for every type and never negative, and no holder has the
type `UnknownJob`. A failed invoker stays failed and gets no job any more, and after `ExtractJobs`
both its maps stay empty. Of the panics only the one of `completeSendJob` can be reached. -/
theorem jobTypesCount_exact (hs : machine.Reachable Machine.always s) :
    (∀ t, s.invoker.jobTypesCount.read t = (heldAs s.invoker.jobHolderByID t).length ∧
      0 ≤ s.invoker.jobTypesCount.read t) ∧
    (∀ id holder, s.invoker.jobHolderByID.get? id = some holder → holder.jobType ≠ .unknownJob) ∧
    (s.invoker.failed = true → ∀ t, machine.Reaches Machine.always s t →
      t.invoker.failed = true ∧ ∀ id, t.invoker.Holds id → s.invoker.Holds id) ∧
    (s.invoker.failed = true → ∀ order t u, s.exec (.extractJobs order) = .ok t →
      machine.Reaches Machine.always t u →
        u.invoker.jobHolderByID = .empty ∧ u.invoker.jobTypesCount = .empty) ∧
    ∀ a p, s.enabled a → s.exec a = .error p →
      p ≠ .typeOfUnsentJob ∧ p ≠ .removedUnsentJob ∧ p ≠ .unknownJobHeld := by
  have hexact := exact_of_reachable hs
  refine ⟨fun t => ?_, hexact.coherent.known, fun hf t hr => closed_of_reaches hexact hr hf,
    fun hf order t u hex hr => ?_, fun a p hen hex => ?_⟩
  · have hcount := hexact.counted t
    exact ⟨hcount, hcount ▸ Int.natCast_nonneg _⟩
  · cases hex
    have hdrained : Drained (s.invoker.extractJobs order).2 := ⟨hf, rfl, rfl⟩
    rw [Drained.reaches hdrained hr]
    exact ⟨rfl, rfl⟩
  · obtain rfl := (hexact.exec hen).failure hex
    simp

/-- A job is sent and accepted, then a ping fails and the jobs are extracted. -/
theorem jobTypesCount_exact_failed :
    ∃ s t : InvokerRun, s.invoker.jobTypesCount.read .testingJob = 1 ∧ s.invoker.failed = true ∧
      s.exec (.extractJobs id) = .ok t ∧
        ∀ u, machine.Reaches Machine.always t u → u.invoker.jobTypesCount = .empty := by
  have hperm : ∀ ids : List JobID, (id ids).Perm ids := fun _ => .refl _
  have hreach := Machine.Reachable.of_runs machine Machine.always
    [.trySendJob 3 7, .completeSendJob 7 (some ⟨0, [7], 2, "host"⟩) id, .ping none id]
    (.of_init ⟨⟨1, [], 1, "host"⟩, rfl⟩)
    ⟨trivial, List.not_mem_nil, _, rfl, trivial, hperm, _, rfl, trivial, hperm, _, rfl, rfl⟩
  exact ⟨_, _, rfl, rfl, rfl, fun u hr =>
    ((jobTypesCount_exact hreach).2.2.2.1 rfl id _ u rfl hr).2⟩

end InvokerRun

end TestingSystem
