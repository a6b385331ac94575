import Mathlib.Algebra.Order.Monoid.Unbundled.WithTop
import TestingSystem.Lib.Machine
import TestingSystem.Master.JobGenerators.GeneratorRuns
import TestingSystem.Master.Queue.GetStatus

/-!
# Clients that poll the status of the master

`clients/tsapi/masterstatus/master_status.go`. A client merges the submissions of every response into
its map and asks with the epoch of its previous response. In a run of the status and its clients, each
client is a reader of the store of the status.
-/

set_option autoImplicit false

namespace TestingSystem

/-- `MasterStatus`, without what concerns time. -/
structure MasterStatus (F : Type) where
  submissions : GoMap SubmissionID (Submission F)
  status : Option (MasterStatusResponse F)

namespace MasterStatus

variable {F : Type}

/-- `NewMasterStatus`. -/
def new : MasterStatus F := { submissions := .empty, status := none }

/-- The epoch that `updateStatus` passes; the empty string is `none`. -/
def prevEpoch (s : MasterStatus F) : Option Epoch := s.status.map MasterStatusResponse.epoch

/-- The loop of `updateStatus`. -/
def merge : List (Submission F) → GoMap SubmissionID (Submission F) →
    GoMap SubmissionID (Submission F)
  | [], submissions => submissions
  | submission :: rest, submissions => merge rest (submissions.set submission.id submission)

/-- The end of `updateStatus`; an error of the request is `none`. -/
def updateStatus (s : MasterStatus F) (response : Option (MasterStatusResponse F)) :
    MasterStatus F :=
  match response with
  | none => s
  | some status =>
    { submissions := merge status.updatedSubmissions s.submissions
      status := some { status with updatedSubmissions := [] } }

theorem merge_of_mem {updated : List (Submission F)}
    (hnodup : (updated.map Submission.id).Nodup) (m : GoMap SubmissionID (Submission F))
    {submission : Submission F} (hmem : submission ∈ updated) :
    (merge updated m).get? submission.id = some submission := by
  have hother : ∀ (updated : List (Submission F)) (m : GoMap SubmissionID (Submission F)) id,
      id ∉ updated.map Submission.id → (merge updated m).get? id = m.get? id := by
    intro updated
    induction updated with
    | nil => exact fun _ _ _ => rfl
    | cons head rest ih =>
      intro m id hid
      rw [List.map_cons, List.mem_cons, not_or] at hid
      rw [merge, ih _ id hid.2, GoMap.get?_set_ne _ _ hid.1]
  induction updated generalizing m with
  | nil => cases hmem
  | cons head rest ih =>
    rw [List.map_cons, List.nodup_cons] at hnodup
    rcases List.mem_cons.1 hmem with rfl | hmem
    · rw [merge, hother rest _ _ hnodup.1, GoMap.get?_set_self]
    · exact ih hnodup.2 _ hmem

theorem merge_of_not_mem {updated : List (Submission F)} {m : GoMap SubmissionID (Submission F)}
    {id : SubmissionID} (hid : id ∉ updated.map Submission.id) :
    (merge updated m).get? id = m.get? id := by
  induction updated generalizing m with
  | nil => rfl
  | cons head rest ih =>
    rw [List.map_cons, List.mem_cons, not_or] at hid
    rw [merge, ih hid.2, GoMap.get?_set_ne _ _ hid.1]

/-- The client as a reader of the submissions in testing. -/
def reader (s : MasterStatus F) : Reader SubmissionID (Submission F) Epoch where
  copies := s.submissions.get?
  since := match s.prevEpoch with
    | none => ⊥
    | some epoch => (epoch : WithBot Epoch)

theorem since_le_iff (s : MasterStatus F) (holder : SubmissionHolder F) :
    s.reader.since ≤ holder.lastUpdatedEpoch ↔ holder.isOlder s.prevEpoch = false := by
  unfold reader SubmissionHolder.isOlder
  cases s.prevEpoch with
  | none => simp
  | some epoch =>
    rw [decide_eq_false_iff_not, Nat.not_lt]
    exact WithBot.coe_le_coe

/-- The client polls. -/
theorem polled {q : QueueStatus F} (h : q.Ordered) (s : MasterStatus F) {epoch : Epoch}
    {response : MasterStatusResponse F} (he : q.getStatus s.prevEpoch epoch = .ok response) :
    s.reader.Polled q.store (s.updateStatus (some response)).reader ∧
      (s.updateStatus (some response)).reader.since = epoch := by
  obtain ⟨response', he', hepoch, hnodup, hmem⟩ := h.getStatus s.prevEpoch epoch
  obtain rfl := Except.ok.inj (he'.symm.trans he)
  refine ⟨⟨fun id v e hget hle => ?_, fun id v e hget hnle => merge_of_not_mem fun hid => ?_⟩, ?_⟩
  · have hget := QueueStatus.store_eq_some.1 hget
    have hid := h.keyed id _ hget
    have hup : v ∈ response'.updatedSubmissions :=
      (hmem v).2 ⟨_, hid.symm ▸ hget, rfl, (since_le_iff s _).1 hle⟩
    exact hid ▸ merge_of_mem hnodup s.submissions hup
  · obtain ⟨submission, hup, rfl⟩ := List.mem_map.1 hid
    obtain ⟨holder, hget', -, hold⟩ := (hmem submission).1 hup
    have hget := QueueStatus.store_eq_some.1 hget
    obtain rfl := Option.some.inj (hget'.symm.trans hget)
    exact hnle ((since_le_iff s _).2 hold)
  · rw [← hepoch]
    rfl

end MasterStatus

/-- A call of the status, or a poll of a client whose response may be lost. -/
inductive PollingStep (F : Type) where
  | addSubmission (submission : Submission F) (epoch : Epoch)
  | updateSubmission (submission : Submission F) (epoch : Epoch)
  | finishSubmissionTesting (id : SubmissionID)
  | poll (client : Nat) (epoch : Epoch) (lost : Bool)

/-- The status and its clients, the last epoch that was drawn, and for every submission the value of
the latest `AddSubmission` or `UpdateSubmission`. -/
structure PollingRun (F : Type) where
  status : QueueStatus F
  clients : Nat → MasterStatus F
  epoch : Epoch
  latest : GoMap SubmissionID (Submission F)

namespace PollingRun

variable {F : Type}

/-- Epochs never go back; two of them may be equal. -/
def enabled (r : PollingRun F) : PollingStep F → Prop
  | .addSubmission _ epoch | .updateSubmission _ epoch | .poll _ epoch _ => r.epoch ≤ epoch
  | .finishSubmissionTesting _ => True

def exec (r : PollingRun F) : PollingStep F → Except Panic (PollingRun F)
  | .addSubmission submission epoch => do
    let status ← r.status.addSubmission submission epoch
    return { r with
      status := status, epoch := epoch, latest := r.latest.set submission.id submission }
  | .updateSubmission submission epoch => do
    let status ← r.status.updateSubmission submission epoch
    return { r with
      status := status, epoch := epoch, latest := r.latest.set submission.id submission }
  | .finishSubmissionTesting id => do
    let status ← r.status.finishSubmissionTesting id
    return { r with status := status }
  | .poll client epoch lost => do
    let response ← r.status.getStatus (r.clients client).prevEpoch epoch
    let answer := if lost then none else some response
    return { r with
      epoch := epoch
      clients := Function.update r.clients client ((r.clients client).updateStatus answer) }

/-- The status of a queue that is not under test, and clients that have not polled yet. -/
def machine : Machine (PollingRun F) (PollingStep F) Panic where
  init r := ∃ epoch, r = ⟨.new false, fun _ => .new, epoch, .empty⟩
  enabled := enabled
  exec := exec

/-- The invariant of the runs. -/
structure InSync (r : PollingRun F) : Prop where
  ordered : r.status.Ordered
  production : r.status.isTesting = false
  bounded : ∀ id holder, r.status.activeSubmissions.get? id = some holder →
    holder.lastUpdatedEpoch ≤ r.epoch
  latest : ∀ id holder, r.status.activeSubmissions.get? id = some holder →
    r.latest.get? id = some holder.submission
  polled : ∀ client, (r.clients client).reader.since ≤ r.epoch
  synced : ∀ client, (r.clients client).reader.Synced r.status.store

variable {r r' : PollingRun F}

theorem InSync.init (epoch : Epoch) :
    InSync (⟨.new false, fun _ => .new, epoch, .empty⟩ : PollingRun F) where
  ordered := QueueStatus.ordered_new false
  production := rfl
  bounded _ _ h := nomatch h
  latest _ _ h := nomatch h
  polled _ := bot_le
  synced _ _ _ _ h := nomatch h

/-- A submission gets a new value with a new epoch. -/
theorem InSync.write (h : r.InSync) {status : QueueStatus F} {submission : Submission F}
    {epoch : Epoch} (hle : r.epoch ≤ epoch)
    (hs : status.Ordered ∧ status.activeSubmissions = r.status.activeSubmissions.set submission.id
      { submission := submission, lastUpdatedEpoch := epoch })
    (ht : status.isTesting = r.status.isTesting) :
    InSync { r with
      status := status, epoch := epoch, latest := r.latest.set submission.id submission } := by
  have hget : ∀ id holder, status.activeSubmissions.get? id = some holder →
      id = submission.id ∧ holder = { submission := submission, lastUpdatedEpoch := epoch } ∨
        id ≠ submission.id ∧ r.status.activeSubmissions.get? id = some holder := by
    intro id holder hget
    rw [hs.2] at hget
    exact GoMap.of_get?_set hget
  refine ⟨hs.1, ht.trans h.production, fun id holder hh => ?_, fun id holder hh => ?_,
    fun client => (h.polled client).trans (WithBot.coe_le_coe.2 hle), fun client => ?_⟩
  · rcases hget id holder hh with ⟨-, rfl⟩ | ⟨-, hold⟩
    · exact le_rfl
    · exact (h.bounded id holder hold).trans hle
  · rcases hget id holder hh with ⟨rfl, rfl⟩ | ⟨hne, hold⟩
    · exact GoMap.get?_set_self _ _ _
    · exact (GoMap.get?_set_ne _ _ hne).trans (h.latest id holder hold)
  · refine (h.synced client).of_written fun id v e hv => ?_
    rcases hget id _ (QueueStatus.store_eq_some.1 hv) with ⟨-, heq⟩ | ⟨-, hold⟩
    · obtain ⟨-, rfl⟩ := SubmissionHolder.mk.inj heq
      exact .inr ((h.polled client).trans (WithBot.coe_le_coe.2 hle))
    · exact .inl (QueueStatus.store_eq_some.2 hold)

theorem InSync.finish (h : r.InSync) {id : SubmissionID} {status : QueueStatus F}
    (he : r.status.finishSubmissionTesting id = .ok status) : InSync { r with status := status } := by
  obtain ⟨hordered, hdelete⟩ := h.ordered.finishSubmissionTesting he
  have hget : ∀ a holder, status.activeSubmissions.get? a = some holder →
      r.status.activeSubmissions.get? a = some holder := by
    intro a holder ha
    rw [hdelete] at ha
    exact (GoMap.of_get?_delete ha).2
  refine ⟨hordered, (QueueStatus.isTesting_finishSubmissionTesting he).trans h.production,
    fun a holder ha => h.bounded a holder (hget a holder ha),
    fun a holder ha => h.latest a holder (hget a holder ha), h.polled, fun client => ?_⟩
  refine (h.synced client).of_written fun a v e hv => .inl ?_
  exact QueueStatus.store_eq_some.2 (hget a _ (QueueStatus.store_eq_some.1 hv))

theorem InSync.poll (h : r.InSync) {client : Nat} {epoch : Epoch} {lost : Bool}
    (hle : r.epoch ≤ epoch) (he : r.exec (.poll client epoch lost) = .ok r') : InSync r' := by
  obtain ⟨response, hcall, he⟩ := bind_eq_ok.1 he
  obtain ⟨hpolled, hsince⟩ := MasterStatus.polled h.ordered (r.clients client) hcall
  cases he
  have hle' : (r.epoch : WithBot Epoch) ≤ epoch := WithBot.coe_le_coe.2 hle
  -- Only the client that polled changes, and only if the response arrived.
  have hclient : ∀ c, Function.update r.clients client ((r.clients client).updateStatus
        (if lost then none else some response)) c = r.clients c ∨
      c = client ∧ Function.update r.clients client ((r.clients client).updateStatus
        (if lost then none else some response)) c =
          (r.clients client).updateStatus (some response) := by
    intro c
    by_cases hc : c = client
    · subst hc
      cases lost with
      | true => exact .inl (Function.update_self _ _ _)
      | false => exact .inr ⟨rfl, Function.update_self _ _ _⟩
    · exact .inl (Function.update_of_ne hc _ _)
  refine ⟨h.ordered, h.production, fun a holder ha => (h.bounded a holder ha).trans hle, h.latest,
    fun c => ?_, fun c => ?_⟩
  · rcases hclient c with heq | ⟨-, heq⟩ <;> simp only [heq]
    · exact (h.polled c).trans hle'
    · exact hsince.le
  · rcases hclient c with heq | ⟨-, heq⟩ <;> simp only [heq]
    · exact h.synced c
    · exact hpolled.synced (h.synced client)

theorem inSync (hr : machine.Reachable Machine.always r) : InSync r := by
  refine hr.invariant ?_ ?_
  · rintro r ⟨epoch, rfl⟩
    exact InSync.init epoch
  · rintro r step r' h - hen he
    have hbounded : ∀ epoch, r.epoch ≤ epoch → ∀ id holder,
        r.status.activeSubmissions.get? id = some holder → holder.lastUpdatedEpoch ≤ epoch :=
      fun epoch hle id holder hget => (h.bounded id holder hget).trans hle
    cases step with
    | addSubmission submission epoch =>
      obtain ⟨status, hcall, he⟩ := bind_eq_ok.1 he
      cases he
      exact h.write hen (h.ordered.addSubmission (hbounded epoch hen) hcall)
        (QueueStatus.isTesting_addSubmission hcall)
    | updateSubmission submission epoch =>
      obtain ⟨status, hcall, he⟩ := bind_eq_ok.1 he
      cases he
      exact h.write hen (h.ordered.updateSubmission h.production (hbounded epoch hen) hcall)
        (QueueStatus.isTesting_updateSubmission hcall)
    | finishSubmissionTesting id =>
      obtain ⟨status, hcall, he⟩ := bind_eq_ok.1 he
      cases he
      exact h.finish hcall
    | poll client epoch lost => exact h.poll hen he

/-- In every state the list is in order, `GetStatus` returns exactly the submissions in testing that
were not updated before the epoch, and a client that polls holds the latest value of every submission
in testing. -/
theorem polling_loses_nothing (r : PollingRun F) (hr : machine.Reachable Machine.always r) :
    r.status.Ordered ∧
    (∀ prevEpoch epoch, ∃ response, r.status.getStatus prevEpoch epoch = .ok response ∧
      (response.updatedSubmissions.map Submission.id).Nodup ∧
      ∀ submission, submission ∈ response.updatedSubmissions ↔
        ∃ holder, r.status.activeSubmissions.get? submission.id = some holder ∧
          holder.submission = submission ∧ ∀ e ∈ prevEpoch, e ≤ holder.lastUpdatedEpoch) ∧
    ∀ client epoch r', r.epoch ≤ epoch → r.exec (.poll client epoch false) = .ok r' →
      ∀ id, r'.status.Active id → ∃ submission, r'.latest.get? id = some submission ∧
        (r'.clients client).submissions.get? id = some submission := by
  have h := inSync hr
  refine ⟨h.ordered, fun prevEpoch epoch => ?_, fun client epoch r' hle he id hid => ?_⟩
  · obtain ⟨response, he, -, hnodup, hmem⟩ := h.ordered.getStatus prevEpoch epoch
    refine ⟨response, he, hnodup, fun submission => (hmem submission).trans ?_⟩
    unfold SubmissionHolder.isOlder
    cases prevEpoch <;> simp
  · obtain ⟨response, hcall, he⟩ := bind_eq_ok.1 he
    cases he
    obtain ⟨holder, hget⟩ := hid
    have hpolled := (MasterStatus.polled h.ordered (r.clients client) hcall).1
    refine ⟨holder.submission, h.latest id holder hget, ?_⟩
    simp only [Function.update_self, Bool.false_eq_true, if_false]
    exact hpolled.current (h.synced client) (QueueStatus.store_eq_some.2 hget)

/-- A submission is added and updated between two polls of one client. -/
theorem polling_loses_nothing_two_polls :
    ∃ r r' : PollingRun Int, machine.Reachable Machine.always r ∧
      r.exec (.poll 0 4 false) = .ok r' ∧ ∃ submission,
        r'.latest.get? 1 = some submission ∧
          (r'.clients 0).submissions.get? 1 = some submission := by
  have hr := Machine.Reachable.of_runs (machine (F := Int)) Machine.always
    [.addSubmission GeneratorRun.newSubmission 1, .poll 0 2 false,
      .updateSubmission { GeneratorRun.newSubmission with verdict := .OK } 2]
    (.of_init ⟨0, rfl⟩)
    ⟨trivial, (by decide : (0 : Epoch) ≤ 1), _, rfl, trivial, (by decide : (1 : Epoch) ≤ 2), _, rfl,
      trivial, (by decide : (2 : Epoch) ≤ 2), _, rfl, rfl⟩
  have hpoll := (polling_loses_nothing _ hr).2.2 0 4 _ (by decide) rfl 1 ⟨_, rfl⟩
  exact ⟨_, _, hr, rfl, hpoll⟩

end PollingRun

end TestingSystem
