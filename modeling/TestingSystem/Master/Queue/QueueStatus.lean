import TestingSystem.Lib.GoMap
import TestingSystem.Master.JobGenerators.Common

/-!
# The status of the queue

`master/queue/queuestatus/status.go`: the submissions in testing with their last published state,
ordered by the time of their last update. A list element is the ID of its submission. An epoch that
`newEpoch` draws is an argument.
-/

set_option autoImplicit false

namespace TestingSystem

/-- `submissionHolder`, apart from its place in the list. -/
structure SubmissionHolder (F : Type) where
  submission : Submission F
  lastUpdatedEpoch : Epoch

/-- `QueueStatus`. -/
structure QueueStatus (F : Type) where
  activeSubmissions : GoMap SubmissionID (SubmissionHolder F)
  submissionsOrderedByUpdate : List SubmissionID
  isTesting : Bool

namespace QueueStatus

variable {F : Type}

/-- `NewQueueStatus`. -/
def new (isTesting : Bool) : QueueStatus F :=
  { activeSubmissions := .empty, submissionsOrderedByUpdate := [], isTesting := isTesting }

/-- `AddSubmission`. -/
def addSubmission (s : QueueStatus F) (submission : Submission F) (epoch : Epoch) :
    Except Panic (QueueStatus F) :=
  match s.activeSubmissions.get? submission.id with
  | some _ => .error .submissionAddedTwice
  | none =>
    .ok { s with
      activeSubmissions := s.activeSubmissions.set submission.id
        { submission := submission, lastUpdatedEpoch := epoch }
      submissionsOrderedByUpdate := submission.id :: s.submissionsOrderedByUpdate }

/-- `FinishSubmissionTesting`. -/
def finishSubmissionTesting (s : QueueStatus F) (id : SubmissionID) :
    Except Panic (QueueStatus F) :=
  match s.activeSubmissions.get? id with
  | none => .error .finishAbsentSubmission
  | some _ =>
    .ok { s with
      activeSubmissions := s.activeSubmissions.delete id
      submissionsOrderedByUpdate := s.submissionsOrderedByUpdate.erase id }

/-- `UpdateSubmission`. -/
def updateSubmission (s : QueueStatus F) (submission : Submission F) (epoch : Epoch) :
    Except Panic (QueueStatus F) :=
  if s.isTesting then .ok s
  else
    match s.activeSubmissions.get? submission.id with
    | none => .error .updateAbsentSubmission
    | some _ =>
      .ok { s with
        activeSubmissions := s.activeSubmissions.set submission.id
          { submission := submission, lastUpdatedEpoch := epoch }
        submissionsOrderedByUpdate :=
          submission.id :: s.submissionsOrderedByUpdate.erase submission.id }

/-- The update that a call of a generator makes, if it publishes its submission. -/
def publish (s : QueueStatus F) (submission : Option (Submission F)) (epoch : Epoch) :
    Except Panic (QueueStatus F) :=
  match submission with
  | none => .ok s
  | some submission => s.updateSubmission submission epoch

/-- The submission is in testing. -/
def Active (s : QueueStatus F) (id : SubmissionID) : Prop :=
  ∃ holder, s.activeSubmissions.get? id = some holder

variable {s s' : QueueStatus F} {submission : Submission F} {epoch : Epoch} {id : SubmissionID}

theorem not_active_iff : ¬ s.Active id ↔ s.activeSubmissions.get? id = none := by
  rw [Active, Option.eq_none_iff_forall_ne_some]
  simp only [not_exists, ne_eq]

theorem active_set {holder : SubmissionHolder F} {order : List SubmissionID} {a : SubmissionID} :
    Active { s with activeSubmissions := s.activeSubmissions.set id holder
                    submissionsOrderedByUpdate := order } a ↔ a = id ∨ s.Active a := by
  simp only [Active, GoMap.get?_set]
  by_cases h : a = id <;> simp [h]

/-- Adding a submission succeeds exactly if it is not in testing. -/
theorem addSubmission_ok (h : s.addSubmission submission epoch = .ok s') :
    ¬ s.Active submission.id ∧ ∀ a, s'.Active a ↔ a = submission.id ∨ s.Active a := by
  unfold addSubmission at h
  cases hget : s.activeSubmissions.get? submission.id with
  | some holder => simp [hget] at h
  | none =>
    simp only [hget] at h
    cases h
    exact ⟨not_active_iff.2 hget, fun a => active_set⟩

theorem addSubmission_new (h : ¬ s.Active submission.id) :
    ∃ s', s.addSubmission submission epoch = .ok s' := by
  rw [not_active_iff] at h
  exact ⟨_, by rw [addSubmission, h]⟩

/-- Finishing a submission in testing removes it. -/
theorem finishSubmissionTesting_active (h : s.Active id) :
    ∃ s', s.finishSubmissionTesting id = .ok s' ∧ ∀ a, s'.Active a ↔ a ≠ id ∧ s.Active a := by
  obtain ⟨holder, hget⟩ := h
  refine ⟨_, by rw [finishSubmissionTesting, hget], fun a => ?_⟩
  simp only [Active, GoMap.get?_delete]
  by_cases h : a = id <;> simp [h]

/-- Updating a submission in testing keeps the submissions in testing. -/
theorem updateSubmission_active (h : s.Active submission.id) :
    ∃ s', s.updateSubmission submission epoch = .ok s' ∧ ∀ a, s'.Active a ↔ s.Active a := by
  unfold updateSubmission
  by_cases ht : s.isTesting = true
  · exact ⟨s, by rw [if_pos ht], fun a => Iff.rfl⟩
  · obtain ⟨holder, hget⟩ := id h
    refine ⟨_, by rw [if_neg ht, hget], fun a => active_set.trans ?_⟩
    constructor
    · rintro (rfl | ha)
      · exact h
      · exact ha
    · exact .inr

theorem publish_active (epoch : Epoch) {published : Option (Submission F)}
    (h : ∀ submission, published = some submission → s.Active submission.id) :
    ∃ s', s.publish published epoch = .ok s' ∧ ∀ a, s'.Active a ↔ s.Active a := by
  cases published with
  | none => exact ⟨s, rfl, fun _ => Iff.rfl⟩
  | some submission => exact updateSubmission_active (h submission rfl)

end QueueStatus

end TestingSystem
