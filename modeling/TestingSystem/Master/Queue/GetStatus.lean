import TestingSystem.Lib.Feed
import TestingSystem.Master.Queue.QueueStatus

/-!
# Incremental reads of the status

`GetStatus` walks over the list from the front and stops at the first submission that was updated
before the given epoch. `QueueStatus.Ordered` is the invariant that makes this complete: the list has
each submission in testing once, and the epochs of the last updates go down along it.
-/

set_option autoImplicit false

namespace TestingSystem

/-- `lastUpdatedEpoch < prevEpoch`; the empty string is `none`. -/
def SubmissionHolder.isOlder {F : Type} (holder : SubmissionHolder F) (prevEpoch : Option Epoch) :
    Bool :=
  match prevEpoch with
  | none => false
  | some epoch => decide (holder.lastUpdatedEpoch < epoch)

namespace QueueStatus

variable {F : Type}

/-- The loop of `GetStatus`. -/
def updatedSince (s : QueueStatus F) (prevEpoch : Option Epoch) :
    List SubmissionID → Except Panic (List (Submission F))
  | [] => .ok []
  | id :: ids => do
    let holder ← deref (s.activeSubmissions.get? id)
    if holder.isOlder prevEpoch then return []
    else
      let submissions ← updatedSince s prevEpoch ids
      return holder.submission :: submissions

/-- `GetStatus`; `epoch` is the new epoch. -/
def getStatus (s : QueueStatus F) (prevEpoch : Option Epoch) (epoch : Epoch) :
    Except Panic (MasterStatusResponse F) := do
  let updatedSubmissions ← s.updatedSince prevEpoch s.submissionsOrderedByUpdate
  return {
    epoch := epoch
    testingSubmissions := s.activeSubmissions.keys
    updatedSubmissions := updatedSubmissions }

/-- The submissions in testing with the epochs of their last updates. -/
def store (s : QueueStatus F) : VersionedStore SubmissionID (Submission F) Epoch := fun id =>
  (s.activeSubmissions.get? id).map fun holder => (holder.submission, holder.lastUpdatedEpoch)

/-- The list has each submission in testing once, the last updated first. -/
structure Ordered (s : QueueStatus F) : Prop where
  nodup : s.submissionsOrderedByUpdate.Nodup
  listed : ∀ id, id ∈ s.submissionsOrderedByUpdate ↔ s.Active id
  sorted : s.submissionsOrderedByUpdate.Pairwise fun a b => ∀ x y,
    s.activeSubmissions.get? a = some x → s.activeSubmissions.get? b = some y →
      y.lastUpdatedEpoch ≤ x.lastUpdatedEpoch
  keyed : ∀ id holder, s.activeSubmissions.get? id = some holder → holder.submission.id = id

variable {s s' : QueueStatus F}

theorem store_eq_some {id : SubmissionID} {submission : Submission F} {epoch : Epoch} :
    s.store id = some (submission, epoch) ↔
      s.activeSubmissions.get? id = some { submission := submission, lastUpdatedEpoch := epoch } := by
  rw [store, Option.map_eq_some_iff]
  constructor
  · rintro ⟨⟨sub, e⟩, hget, heq⟩
    obtain ⟨rfl, rfl⟩ := Prod.mk.inj heq
    exact hget
  · exact fun hget => ⟨_, hget, rfl⟩

theorem ordered_new (isTesting : Bool) : Ordered (new isTesting : QueueStatus F) where
  nodup := .nil
  listed _ := ⟨fun h => (nomatch h), fun ⟨_, h⟩ => (nomatch h)⟩
  sorted := .nil
  keyed _ _ h := nomatch h

/-- A submission is put in front with an epoch that no other one exceeds. -/
theorem Ordered.push (h : s.Ordered) (submission : Submission F) {epoch : Epoch}
    (hle : ∀ id holder, s.activeSubmissions.get? id = some holder → holder.lastUpdatedEpoch ≤ epoch) :
    Ordered { s with
      activeSubmissions := s.activeSubmissions.set submission.id
        { submission := submission, lastUpdatedEpoch := epoch }
      submissionsOrderedByUpdate :=
        submission.id :: s.submissionsOrderedByUpdate.erase submission.id } := by
  have hnot : submission.id ∉ s.submissionsOrderedByUpdate.erase submission.id :=
    h.nodup.not_mem_erase
  refine ⟨List.nodup_cons.2 ⟨hnot, h.nodup.erase _⟩, fun id => ?_, ?_, fun id holder hget => ?_⟩
  · rw [active_set, List.mem_cons, h.nodup.mem_erase_iff, h.listed]
    by_cases hid : id = submission.id <;> simp [hid]
  · refine List.pairwise_cons.2 ⟨fun b hb x y hx hy => ?_, ?_⟩
    · have hne : b ≠ submission.id := fun heq => hnot (heq ▸ hb)
      rw [GoMap.get?_set_self] at hx
      rw [GoMap.get?_set_ne _ _ hne] at hy
      rw [← Option.some.inj hx]
      exact hle b y hy
    · have hsorted := h.sorted.sublist (List.erase_sublist (a := submission.id))
      refine hsorted.imp_of_mem fun {a b} ha hb hab x y hx hy => ?_
      have hane : a ≠ submission.id := fun heq => hnot (heq ▸ ha)
      have hbne : b ≠ submission.id := fun heq => hnot (heq ▸ hb)
      rw [GoMap.get?_set_ne _ _ hane] at hx
      rw [GoMap.get?_set_ne _ _ hbne] at hy
      exact hab x y hx hy
  · rcases GoMap.of_get?_set hget with ⟨hid, rfl⟩ | ⟨-, hget⟩
    · exact hid.symm
    · exact h.keyed id holder hget

theorem Ordered.addSubmission (h : s.Ordered) {submission : Submission F} {epoch : Epoch}
    (hle : ∀ id holder, s.activeSubmissions.get? id = some holder → holder.lastUpdatedEpoch ≤ epoch)
    (he : s.addSubmission submission epoch = .ok s') :
    s'.Ordered ∧ s'.activeSubmissions = s.activeSubmissions.set submission.id
      { submission := submission, lastUpdatedEpoch := epoch } := by
  have hnot : submission.id ∉ s.submissionsOrderedByUpdate := fun hmem =>
    (addSubmission_ok he).1 ((h.listed _).1 hmem)
  have hpush := h.push submission hle
  rw [List.erase_of_not_mem hnot] at hpush
  unfold QueueStatus.addSubmission at he
  split at he
  · cases he
  · cases he
    exact ⟨hpush, rfl⟩

theorem Ordered.updateSubmission (h : s.Ordered) (ht : s.isTesting = false)
    {submission : Submission F} {epoch : Epoch}
    (hle : ∀ id holder, s.activeSubmissions.get? id = some holder → holder.lastUpdatedEpoch ≤ epoch)
    (he : s.updateSubmission submission epoch = .ok s') :
    s'.Ordered ∧ s'.activeSubmissions = s.activeSubmissions.set submission.id
      { submission := submission, lastUpdatedEpoch := epoch } := by
  have hpush := h.push submission hle
  unfold QueueStatus.updateSubmission at he
  rw [if_neg (by simp [ht])] at he
  split at he
  · cases he
  · cases he
    exact ⟨hpush, rfl⟩

theorem Ordered.finishSubmissionTesting (h : s.Ordered) {id : SubmissionID}
    (he : s.finishSubmissionTesting id = .ok s') :
    s'.Ordered ∧ s'.activeSubmissions = s.activeSubmissions.delete id := by
  unfold QueueStatus.finishSubmissionTesting at he
  split at he
  · cases he
  · cases he
    refine ⟨⟨h.nodup.erase _, fun a => ?_, ?_, fun a holder hget => ?_⟩, rfl⟩
    · rw [h.nodup.mem_erase_iff, h.listed, Active, Active, GoMap.get?_delete]
      by_cases ha : a = id <;> simp [ha]
    · refine (h.sorted.sublist List.erase_sublist).imp fun hab x y hx hy => ?_
      exact hab x y (GoMap.of_get?_delete hx).2 (GoMap.of_get?_delete hy).2
    · exact h.keyed a holder (GoMap.of_get?_delete hget).2

theorem activeSubmissions_addSubmission {submission : Submission F} {epoch : Epoch}
    (he : s.addSubmission submission epoch = .ok s') :
    s'.activeSubmissions = s.activeSubmissions.set submission.id
      { submission := submission, lastUpdatedEpoch := epoch } := by
  unfold QueueStatus.addSubmission at he
  split at he
  · cases he
  · cases he
    rfl

theorem activeSubmissions_finishSubmissionTesting {id : SubmissionID}
    (he : s.finishSubmissionTesting id = .ok s') :
    s'.activeSubmissions = s.activeSubmissions.delete id := by
  unfold QueueStatus.finishSubmissionTesting at he
  split at he
  · cases he
  · cases he
    rfl

/-- Updating changes nothing but the holder and the list. -/
theorem isTesting_addSubmission {submission : Submission F} {epoch : Epoch}
    (he : s.addSubmission submission epoch = .ok s') : s'.isTesting = s.isTesting := by
  unfold QueueStatus.addSubmission at he
  split at he
  · cases he
  · cases he
    rfl

theorem isTesting_updateSubmission {submission : Submission F} {epoch : Epoch}
    (he : s.updateSubmission submission epoch = .ok s') : s'.isTesting = s.isTesting := by
  unfold QueueStatus.updateSubmission at he
  split at he
  · cases he
    rfl
  · split at he
    · cases he
    · cases he
      rfl

theorem isTesting_finishSubmissionTesting {id : SubmissionID}
    (he : s.finishSubmissionTesting id = .ok s') : s'.isTesting = s.isTesting := by
  unfold QueueStatus.finishSubmissionTesting at he
  split at he
  · cases he
  · cases he
    rfl

/-! ## GetStatus -/

/-- The submission was not updated before the epoch. -/
def isRecent (s : QueueStatus F) (prevEpoch : Option Epoch) (id : SubmissionID) : Bool :=
  match s.activeSubmissions.get? id with
  | none => false
  | some holder => !holder.isOlder prevEpoch

theorem updatedSince_eq (prevEpoch : Option Epoch) {ids : List SubmissionID}
    (hids : ∀ id ∈ ids, s.Active id) :
    s.updatedSince prevEpoch ids = .ok ((ids.takeWhile (s.isRecent prevEpoch)).filterMap fun id =>
      (s.activeSubmissions.get? id).map SubmissionHolder.submission) := by
  induction ids with
  | nil => rfl
  | cons id ids ih =>
    rw [List.forall_mem_cons] at hids
    obtain ⟨⟨holder, hget⟩, hrest⟩ := hids
    have hrecent : s.isRecent prevEpoch id = !holder.isOlder prevEpoch := by
      rw [isRecent, hget]
    rw [updatedSince, hget, deref_some, ok_bind]
    cases hold : holder.isOlder prevEpoch with
    | true =>
      rw [List.takeWhile_cons_of_neg (by simp [hrecent, hold])]
      rfl
    | false =>
      rw [List.takeWhile_cons_of_pos (by simp [hrecent, hold]), ih hrest]
      simp only [Bool.false_eq_true, if_false, ok_bind, List.filterMap_cons, hget, Option.map_some]
      rfl

/-- What `GetStatus` returns: the submissions in testing that were not updated before the epoch, each
once. -/
theorem Ordered.getStatus (h : s.Ordered) (prevEpoch : Option Epoch) (epoch : Epoch) :
    ∃ response, s.getStatus prevEpoch epoch = .ok response ∧ response.epoch = epoch ∧
      (response.updatedSubmissions.map Submission.id).Nodup ∧
      ∀ submission, submission ∈ response.updatedSubmissions ↔
        ∃ holder, s.activeSubmissions.get? submission.id = some holder ∧
          holder.submission = submission ∧ holder.isOlder prevEpoch = false := by
  have hactive : ∀ id ∈ s.submissionsOrderedByUpdate, s.Active id := fun id hmem =>
    (h.listed id).1 hmem
  -- Behind an old submission there are only older ones.
  have hpairwise : s.submissionsOrderedByUpdate.Pairwise fun a b =>
      s.isRecent prevEpoch b = true → s.isRecent prevEpoch a = true := by
    refine h.sorted.imp_of_mem fun {a b} ha hb hab => ?_
    obtain ⟨x, hx⟩ := hactive a ha
    obtain ⟨y, hy⟩ := hactive b hb
    have hle := hab x y hx hy
    simp only [isRecent, hx, hy, SubmissionHolder.isOlder]
    cases prevEpoch with
    | none => simp
    | some e =>
      simp only [Bool.not_eq_true', decide_eq_false_iff_not, not_lt]
      exact fun hy => hy.trans hle
  let found := s.submissionsOrderedByUpdate.filter (s.isRecent prevEpoch)
  let updated := found.filterMap fun id =>
    (s.activeSubmissions.get? id).map SubmissionHolder.submission
  have hupdated : s.updatedSince prevEpoch s.submissionsOrderedByUpdate = .ok updated := by
    rw [updatedSince_eq prevEpoch hactive, takeWhile_eq_filter hpairwise]
  have hmap : updated.map Submission.id = found := by
    have hfound : ∀ id ∈ found, s.Active id := fun id hmem => hactive id (List.mem_filter.1 hmem).1
    simp only [updated]
    clear_value found
    clear hupdated updated
    induction found with
    | nil => rfl
    | cons id ids ih =>
      rw [List.forall_mem_cons] at hfound
      obtain ⟨⟨holder, hget⟩, hrest⟩ := hfound
      rw [List.filterMap_cons, hget, Option.map_some, List.map_cons, ih hrest,
        h.keyed id holder hget]
  refine ⟨_, by rw [QueueStatus.getStatus, hupdated]; rfl, rfl, ?_, fun submission => ?_⟩
  · change (updated.map Submission.id).Nodup
    rw [hmap]
    exact h.nodup.filter _
  · change submission ∈ updated ↔ _
    simp only [updated, found, List.mem_filterMap, List.mem_filter, Option.map_eq_some_iff]
    constructor
    · rintro ⟨id, ⟨-, hrecent⟩, holder, hget, rfl⟩
      simp only [isRecent, hget, Bool.not_eq_true'] at hrecent
      exact ⟨holder, by rw [h.keyed id holder hget, hget], rfl, hrecent⟩
    · rintro ⟨holder, hget, rfl, hold⟩
      refine ⟨holder.submission.id, ⟨(h.listed _).2 ⟨holder, hget⟩, ?_⟩, holder, hget, rfl⟩
      simp [isRecent, hget, hold]

end QueueStatus

end TestingSystem
