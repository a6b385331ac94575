import TestingSystem.Lib.Machine
import TestingSystem.Lib.Snapshots
import TestingSystem.Master.Registry.InvokerInvariant

/-!
# An invoker process and the master's object for it

The `Invoker` object of the master with the process it stands for. The process is `ActiveJobs` of
`invoker/invoker.go`: a job is inserted by `handleNewJob` and deleted by `finish`, each at most once,
and `getStatus` takes a snapshot with a new epoch. Every status that was taken may reach the master at
any time later and any number of times, as the answer to a ping or to a `NewJob` request, pushed, or
with a result.
-/

set_option autoImplicit false

namespace TestingSystem

/-! ## The process -/

/-- `Invoker` of the invoker: `ActiveJobs`, `MaxJobs` and the epoch of the last status, with a history
of the jobs and of the statuses. -/
structure InvokerProcess where
  address : String
  maxJobs : Nat
  activeJobs : List JobID
  epoch : Epoch
  timeline : Timeline JobID Epoch
  statuses : List Status

namespace InvokerProcess

/-- `SetupInvoker`. -/
def new (address : String) (maxJobs : Nat) : InvokerProcess :=
  { address := address, maxJobs := maxJobs, activeJobs := [], epoch := 0
    timeline := { entered := fun _ => none, left := fun _ => none }, statuses := [] }

/-- `MaxNewJobs` of a status with `n` active jobs. -/
def maxNewJobs (p : InvokerProcess) (n : Nat) : Int := if n > p.maxJobs then 0 else p.maxJobs - n

/-- The status that `getStatus` returns. -/
def status (p : InvokerProcess) (epoch : Epoch) (order : RangeOrder) : Status :=
  let activeJobIDs := order p.activeJobs
  { address := p.address, epoch := epoch, activeJobIDs := activeJobIDs
    maxNewJobs := p.maxNewJobs activeJobIDs.length }

/-- `getStatus`, with a new UUID. -/
def getStatus (p : InvokerProcess) (epoch : Epoch) (order : RangeOrder) : InvokerProcess :=
  { p with epoch := epoch, statuses := p.status epoch order :: p.statuses }

/-- The insertion in `handleNewJob`. -/
def insert (p : InvokerProcess) (id : JobID) : InvokerProcess :=
  { p with activeJobs := id :: p.activeJobs, timeline := p.timeline.enter id p.epoch }

/-- The deletion in `finish`. -/
def delete (p : InvokerProcess) (id : JobID) : InvokerProcess :=
  { p with activeJobs := p.activeJobs.erase id, timeline := p.timeline.leave id p.epoch }

/-- What a status tells about the history. -/
structure Took (p : InvokerProcess) (status : Status) : Prop where
  epoch_le : status.epoch ≤ p.epoch
  shows : p.timeline.Shows status.epoch status.activeJobIDs
  nodup : status.activeJobIDs.Nodup
  maxNewJobs : status.maxNewJobs = p.maxNewJobs status.activeJobIDs.length

/-- The history explains the jobs and the statuses. -/
structure WellFormed (p : InvokerProcess) : Prop where
  nodup : p.activeJobs.Nodup
  active : ∀ id, id ∈ p.activeJobs ↔
    (∃ e, p.timeline.entered id = some e) ∧ p.timeline.left id = none
  entered_le : ∀ id e, p.timeline.entered id = some e → e ≤ p.epoch
  left_le : ∀ id e, p.timeline.left id = some e → e ≤ p.epoch
  entered_of_left : ∀ id e, p.timeline.left id = some e → ∃ e', p.timeline.entered id = some e'
  took : ∀ status ∈ p.statuses, p.Took status

variable {p : InvokerProcess}

theorem WellFormed.new (address : String) (maxJobs : Nat) :
    (new address maxJobs).WellFormed where
  nodup := List.nodup_nil
  active id := by simp [InvokerProcess.new]
  entered_le _ _ h := nomatch h
  left_le _ _ h := nomatch h
  entered_of_left _ _ h := nomatch h
  took _ h := nomatch h

theorem WellFormed.insert (h : p.WellFormed) {id : JobID} (hnew : p.timeline.entered id = none) :
    (p.insert id).WellFormed := by
  have hleft : p.timeline.left id = none := by
    cases hl : p.timeline.left id with
    | none => rfl
    | some e =>
      obtain ⟨e', he'⟩ := h.entered_of_left id e hl
      rw [hnew] at he'
      cases he'
  have hentered : ∀ x, (p.insert id).timeline.entered x =
      if x = id then some p.epoch else p.timeline.entered x := fun x =>
    Function.update_apply _ _ _ _
  refine ⟨List.nodup_cons.2 ⟨fun hmem => ?_, h.nodup⟩, fun x => ?_, fun x e hx => ?_, h.left_le,
    fun x e hx => ?_, fun status hmem => ?_⟩
  · obtain ⟨e, he⟩ := ((h.active id).1 hmem).1
    rw [hnew] at he
    cases he
  · show x ∈ id :: p.activeJobs ↔ (∃ e, _ = some e) ∧ p.timeline.left x = none
    rw [List.mem_cons, hentered, h.active]
    by_cases hx : x = id
    · simp [hx, hleft]
    · simp [hx]
  · rw [hentered] at hx
    split at hx
    · exact Nat.le_of_eq (Option.some.inj hx).symm
    · exact h.entered_le x e hx
  · obtain ⟨e', he'⟩ := h.entered_of_left x e hx
    rw [hentered]
    split
    · exact ⟨_, rfl⟩
    · exact ⟨e', he'⟩
  · have ht := h.took status hmem
    exact ⟨ht.epoch_le, ht.shows.enter hnew ht.epoch_le, ht.nodup, ht.maxNewJobs⟩

theorem WellFormed.delete (h : p.WellFormed) {id : JobID} (hactive : id ∈ p.activeJobs) :
    (p.delete id).WellFormed := by
  obtain ⟨hentered, hpresent⟩ := (h.active id).1 hactive
  have hleft : ∀ x, (p.delete id).timeline.left x =
      if x = id then some p.epoch else p.timeline.left x := fun x => Function.update_apply _ _ _ _
  refine ⟨h.nodup.erase id, fun x => ?_, h.entered_le, fun x e hx => ?_, fun x e hx => ?_,
    fun status hmem => ?_⟩
  · show x ∈ p.activeJobs.erase id ↔ (∃ e, p.timeline.entered x = some e) ∧ _ = none
    rw [h.nodup.mem_erase_iff, hleft, h.active]
    by_cases hx : x = id
    · simp [hx]
    · simp [hx]
  · rw [hleft] at hx
    split at hx
    · exact Nat.le_of_eq (Option.some.inj hx).symm
    · exact h.left_le x e hx
  · rw [hleft] at hx
    split at hx
    · next heq => exact heq ▸ hentered
    · exact h.entered_of_left x e hx
  · have ht := h.took status hmem
    exact ⟨ht.epoch_le, ht.shows.leave hpresent ht.epoch_le, ht.nodup, ht.maxNewJobs⟩

/-- A status that is taken now shows the active jobs. -/
theorem WellFormed.getStatus (h : p.WellFormed) {epoch : Epoch} (hnew : p.epoch < epoch)
    {order : RangeOrder} (ho : ∀ ids, (order ids).Perm ids) : (p.getStatus epoch order).WellFormed := by
  refine ⟨h.nodup, h.active, fun x e hx => (h.entered_le x e hx).trans hnew.le,
    fun x e hx => (h.left_le x e hx).trans hnew.le, h.entered_of_left, fun status hmem => ?_⟩
  rcases List.mem_cons.1 hmem with rfl | hmem
  · refine ⟨le_rfl, fun x => ?_, (ho _).nodup_iff.2 h.nodup, rfl⟩
    show x ∈ order p.activeJobs ↔ _
    rw [(ho _).mem_iff, h.active]
    refine and_congr ⟨?_, ?_⟩ ⟨?_, ?_⟩
    · rintro ⟨e, he⟩
      exact ⟨e, he, (h.entered_le x e he).trans_lt hnew⟩
    · rintro ⟨e, he, -⟩
      exact ⟨e, he⟩
    · rintro hnone ⟨e, he, -⟩
      exact absurd (hnone.symm.trans he) (by simp)
    · intro hnot
      cases hl : p.timeline.left x with
      | none => rfl
      | some e => exact absurd ⟨e, hl, (h.left_le x e hl).trans_lt hnew⟩ hnot
  · have ht := h.took status hmem
    exact ⟨ht.epoch_le.trans hnew.le, ht.shows, ht.nodup, ht.maxNewJobs⟩

end InvokerProcess

/-! ## The link -/

/-- The object and the process. `requests` are the `NewJob` requests that the process has not handled,
`pending` the running `completeSendJob` with the ID of the job when it was sent, and `sent` all IDs
given to `TrySendJob` that it sent. -/
structure Link where
  invoker : Invoker
  process : InvokerProcess
  requests : List JobID
  pending : List (JobRef × JobID)
  sent : List JobID

inductive LinkStep where
  -- the process
  | insert (id : JobID)
  | refuse (id : JobID)
  | delete (id : JobID)
  | getStatus (epoch : Epoch) (order : RangeOrder)
  -- the master
  | trySendJob (job : JobRef) (id : JobID)
  | completeSendJob (job : JobRef) (id current : JobID) (response : Option Status)
      (order : RangeOrder)
  | ping (response : Option Status) (order : RangeOrder)
  | verifyAndUpdateStatus (status : Status) (order : RangeOrder)
  | jobTested (id : JobID)
  | ensureJobIsNotLost (id : JobID)
  | markFailed
  | extractJobs (order : RangeOrder)
  | rescheduled

namespace Link

/-- `ExtractJobs` has run; the jobs of the object may have new IDs since then. -/
def Extracted (i : Invoker) : Prop := (∃ jobs, i.failure = .extracted jobs) ∨ i.failure = .finished

/-- A status arrives only after it was taken, the answer to a `NewJob` request was taken after the job
was inserted, and IDs of jobs are fresh. -/
def enabled (s : Link) : LinkStep → Prop
  | .insert id => s.process.timeline.entered id = none
  | .refuse id => id ∈ s.requests
  | .delete id => id ∈ s.process.activeJobs
  | .getStatus epoch order => s.process.epoch < epoch ∧ ∀ ids, (order ids).Perm ids
  | .trySendJob _ id => id ∉ s.sent
  | .completeSendJob job id current response order =>
      (job, id) ∈ s.pending ∧ (∀ ids, (order ids).Perm ids) ∧
        (∀ status, response = some status → status ∈ s.process.statuses) ∧
        (¬ Extracted s.invoker → current = id ∧ ∀ status, response = some status →
          s.process.timeline.EnteredBefore id status.epoch)
  | .ping response order =>
      (∀ ids, (order ids).Perm ids) ∧ ∀ status, response = some status → status ∈ s.process.statuses
  | .verifyAndUpdateStatus status order =>
      (∀ ids, (order ids).Perm ids) ∧ status ∈ s.process.statuses
  | .jobTested _ | .markFailed => True
  | .ensureJobIsNotLost id => id ∈ s.invoker.timers
  | .extractJobs order => (∀ ids, (order ids).Perm ids) ∧ s.invoker.failure = .started
  | .rescheduled => ∃ jobs, s.invoker.failure = .extracted jobs

def exec (s : Link) : LinkStep → Except Panic Link
  | .insert id =>
    .ok { s with process := s.process.insert id, requests := s.requests.erase id }
  | .refuse id => .ok { s with requests := s.requests.erase id }
  | .delete id => .ok { s with process := s.process.delete id }
  | .getStatus epoch order => .ok { s with process := s.process.getStatus epoch order }
  | .trySendJob job id =>
    match s.invoker.trySendJob job id with
    | (false, i) => .ok { s with invoker := i }
    | (true, i) =>
      .ok { s with
        invoker := i
        requests := id :: s.requests
        pending := (job, id) :: s.pending
        sent := id :: s.sent }
  | .completeSendJob job id current response order => do
    let i ← s.invoker.completeSendJob current response order
    return { s with
      invoker := { i with sends := i.sends.erase job }
      pending := s.pending.erase (job, id) }
  | .ping response order => do
    let i ← s.invoker.ping response order
    return { s with invoker := i }
  | .verifyAndUpdateStatus status order => do
    let (_, i) ← s.invoker.verifyAndUpdateStatus status order
    return { s with invoker := i }
  | .jobTested id => do
    let (_, i) ← s.invoker.jobTested id
    return { s with invoker := i }
  | .ensureJobIsNotLost id =>
    .ok { s with
      invoker := { s.invoker.ensureJobIsNotLost id with timers := s.invoker.timers.erase id } }
  -- the error of a `ResetCache` or `StopJob` request
  | .markFailed => .ok { s with invoker := s.invoker.markFailed }
  | .extractJobs order =>
    let (jobs, i) := s.invoker.extractJobs order
    .ok { s with invoker := { i with failure := .extracted jobs } }
  | .rescheduled => .ok { s with invoker := { s.invoker with failure := .finished } }

/-- A process with any past registers with one of its statuses. -/
def machine : Machine Link LinkStep Panic where
  init s := s.process.WellFormed ∧ ∃ status ∈ s.process.statuses,
    s = { invoker := .new status, process := s.process, requests := [], pending := [], sent := [] }
  enabled := enabled
  exec := exec

end Link

end TestingSystem
