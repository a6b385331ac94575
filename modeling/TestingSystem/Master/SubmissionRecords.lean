import TestingSystem.Master.Actions
import TestingSystem.Master.Queue.TestedVerdict
import TestingSystem.Master.StaleResults

/-!
# Submissions are not lost

`Stage` is where a submission is that the queue has accepted: in testing, on its way to the database, or
in the database with its result. `accepted_kept` reads off what a client relies on: whatever fails, the
source code of an accepted submission stays in the storage and its row in the table, and it leaves the
status only when the row holds the result of testing.
-/

set_option autoImplicit false

namespace TestingSystem

/-! ## The lists of submissions of the master -/

namespace MasterRun

variable {F : Type} [Add F] [Min F] [Zero F] [One F] {s t : MasterRun F}

/-- The same submissions, in testing and returned. -/
structure SameSubmissions (s t : MasterRun F) : Prop where
  submitted : t.submitted = s.submitted
  returned : t.returned = s.returned
  finishing : t.finishing = s.finishing

/-- Only `Submit`, `JobCompleted` and `FinishSubmissionTesting` move a submission. -/
theorem Effect.sameSubmissions {a : MasterStep F} (h : s.Effect a t) (ha : a.isOther = true) :
    s.SameSubmissions t := by
  cases h with
  | quiet hq => exact ⟨hq.submitted, hq.returned, hq.finishing⟩
  | submitted hs => cases ha
  | taken hnone hcall ht hcreated => exact ⟨rfl, rfl, rfl⟩
  | sent hnext hid hnew => exact ⟨rfl, rfl, rfl⟩
  | built hmem hobject => exact ⟨rfl, rfl, rfl⟩
  | rescheduled hrec hid hr => exact ⟨rfl, rfl, rfl⟩
  | handled hh => exact ⟨rfl, rfl, rfl⟩
  | completed => cases ha
  | finished => cases ha

omit [Add F] [Min F] [Zero F] [One F] in
theorem submit_refused {problem : Problem F} {submission : Submission F} {epoch : Epoch} {err : String}
    (hq : s.queue.submit s.registry.fresh problem submission epoch = .ok (.error err))
    (h : s.submit problem submission epoch = .ok t) : s.SameSubmissions t := by
  unfold submit at h
  rw [hq, ok_bind] at h
  cases h
  exact ⟨rfl, rfl, rfl⟩

omit [Add F] [Min F] [Zero F] [One F] in
theorem submit_accepted {problem : Problem F} {submission : Submission F} {epoch : Epoch}
    {q : Queue F} (hq : s.queue.submit s.registry.fresh problem submission epoch = .ok (.ok q))
    (h : s.submit problem submission epoch = .ok t) :
    t.submitted = submission.id :: s.submitted ∧ t.returned = s.returned ∧
      t.finishing = s.finishing := by
  unfold submit at h
  rw [hq, ok_bind] at h
  cases h
  exact ⟨rfl, rfl, rfl⟩

/-- The submission that `JobCompleted` returns, if any. -/
theorem jobCompleted_submissions {k : Nat} {epoch : Epoch} {result : InvokerJobResult F}
    {q : Queue F} {submission : Except String (Option (Submission F))}
    (hresult : s.accepted[k]? = some result)
    (hq : s.queue.jobCompleted result epoch = .ok (q, submission))
    (h : s.jobCompleted k epoch = .ok t) :
    (∃ returned, submission = .ok (some returned) ∧ t.submitted = s.submitted ∧
      t.returned = returned.id :: s.returned ∧ t.finishing = returned.id :: s.finishing) ∨
    (∀ returned, submission ≠ .ok (some returned)) ∧ s.SameSubmissions t := by
  unfold jobCompleted at h
  rw [hresult] at h
  dsimp only at h
  rw [hq, ok_bind] at h
  dsimp only at h
  split at h
  · next returned =>
    cases h
    exact .inl ⟨returned, rfl, rfl, rfl, rfl⟩
  · cases h
    refine .inr ⟨?_, rfl, rfl, rfl⟩
    intro returned hsome
    cases hsome
  · cases h
    refine .inr ⟨?_, rfl, rfl, rfl⟩
    intro returned hsome
    cases hsome

theorem jobCompleted_queue {k : Nat} {epoch : Epoch} {result : InvokerJobResult F} {q : Queue F}
    {submission : Except String (Option (Submission F))} (hresult : s.accepted[k]? = some result)
    (hq : s.queue.jobCompleted result epoch = .ok (q, submission))
    (h : s.jobCompleted k epoch = .ok t) : t.queue = q := by
  unfold jobCompleted at h
  rw [hresult] at h
  dsimp only at h
  rw [hq, ok_bind] at h
  dsimp only at h
  split at h
  all_goals
    cases h
    rfl

theorem finishSubmissionTesting_submissions {id : SubmissionID}
    (h : s.exec (.finishSubmissionTesting id) = .ok t) :
    t.submitted = s.submitted ∧ t.returned = s.returned ∧ t.finishing = s.finishing.erase id := by
  obtain ⟨status, -, h⟩ := bind_eq_ok.1 h
  cases h
  exact ⟨rfl, rfl, rfl⟩

end MasterRun

/-! ## Where an accepted submission is -/

namespace MasterService

variable {F : Type}

/-- Where a submission is that the queue has accepted. -/
inductive Stage (s : MasterService F) (id : SubmissionID) : Prop
  | testing (row : Submission F) (hrow : s.database.find id = some row) (hverdict : row.verdict = .RU)
      (hreturned : id ∉ s.run.returned)
  | finishing (row submission : Submission F) (saved : Bool)
      (hrow : s.database.find id = some row) (hverdict : row.verdict = .RU ∨ row = submission)
      (hsaved : saved = true → row = submission)
      (hentry : s.finishing.get? id = some (submission, saved))
      (hresult : s.results.get? id = some submission) (hreturned : id ∈ s.run.returned)
      (hfinishing : id ∈ s.run.finishing)
  | tested (submission : Submission F) (hrow : s.database.find id = some submission)
      (hresult : s.results.get? id = some submission) (hreturned : id ∈ s.run.returned)
      (hfinishing : id ∉ s.run.finishing)

/-- What holds while `handleNewSubmission` runs. -/
structure Handled (s : MasterService F) (id : SubmissionID) (handler : NewSubmission F) : Prop where
  id_eq : handler.submission.id = id
  verdict : handler.submission.verdict = .RU
  unanswered : s.answered.get? id = none
  used : id ≤ s.lastID
  row : s.database.find id = some handler.submission
  upload : s.uploads.get? id = some handler.file
  source : handler.stored = true → s.storage.get? id = some handler.file

/-- What holds of a submission between two steps. -/
structure Recorded (s : MasterService F) (id : SubmissionID) : Prop where
  handled : ∀ handler, s.handlers.get? id = some handler → s.Handled id handler
  accepted : s.answered.get? id = some .accepted ↔ id ∈ s.run.submitted
  stage : id ∈ s.run.submitted → s.Stage id
  source : id ∈ s.run.submitted →
    ∃ file, s.uploads.get? id = some file ∧ s.storage.get? id = some file
  finishing : ∀ entry, s.finishing.get? id = some entry → id ∈ s.run.finishing
  results : ∀ submission, s.results.get? id = some submission → submission.verdict ≠ .RU
  removingFromDB : id ∈ s.removingFromDB → s.answered.get? id = some .serverError
  removingFromStorage : id ∈ s.removingFromStorage → s.answered.get? id = some .serverError
  used : ∀ reply, s.answered.get? id = some reply → id ≤ s.lastID

/-- Nothing about the submission differs. -/
structure Same (s t : MasterService F) (id : SubmissionID) : Prop where
  database : t.database.find id = s.database.find id
  storage : t.storage.get? id = s.storage.get? id
  handlers : t.handlers.get? id = s.handlers.get? id
  finishing : t.finishing.get? id = s.finishing.get? id
  uploads : t.uploads.get? id = s.uploads.get? id
  answered : t.answered.get? id = s.answered.get? id
  results : t.results.get? id = s.results.get? id
  removingFromDB : id ∈ t.removingFromDB ↔ id ∈ s.removingFromDB
  removingFromStorage : id ∈ t.removingFromStorage ↔ id ∈ s.removingFromStorage
  lastID : s.lastID ≤ t.lastID
  submitted : id ∈ t.run.submitted ↔ id ∈ s.run.submitted
  returned : id ∈ t.run.returned ↔ id ∈ s.run.returned
  runFinishing : id ∈ t.run.finishing ↔ id ∈ s.run.finishing

variable {s t : MasterService F} {id : SubmissionID}

theorem Same.stage (h : s.Same t id) (hstage : s.Stage id) : t.Stage id := by
  cases hstage with
  | testing row hrow hverdict hreturned =>
    exact .testing row (h.database.trans hrow) hverdict (mt h.returned.1 hreturned)
  | finishing row submission saved hrow hverdict hsaved hentry hresult hreturned hfinishing =>
    exact .finishing row submission saved (h.database.trans hrow) hverdict hsaved
      (h.finishing.trans hentry) (h.results.trans hresult) (h.returned.2 hreturned)
      (h.runFinishing.2 hfinishing)
  | tested submission hrow hresult hreturned hfinishing =>
    exact .tested submission (h.database.trans hrow) (h.results.trans hresult)
      (h.returned.2 hreturned) (mt h.runFinishing.1 hfinishing)

/-- A step keeps what it does not touch. -/
theorem Same.recorded (h : s.Same t id) (hs : s.Recorded id) : t.Recorded id where
  handled handler hget := by
    have hold := hs.handled handler (h.handlers.symm.trans hget)
    refine ⟨hold.id_eq, hold.verdict, h.answered.trans hold.unanswered,
      hold.used.trans h.lastID, h.database.trans hold.row, h.uploads.trans hold.upload, ?_⟩
    intro hstored
    exact h.storage.trans (hold.source hstored)
  accepted := by
    rw [h.answered, h.submitted]
    exact hs.accepted
  stage hsub := h.stage (hs.stage (h.submitted.1 hsub))
  source hsub := by
    rw [h.uploads, h.storage]
    exact hs.source (h.submitted.1 hsub)
  finishing entry hget := h.runFinishing.2 (hs.finishing entry (h.finishing.symm.trans hget))
  results submission hget := hs.results submission (h.results.symm.trans hget)
  removingFromDB hmem := h.answered.trans (hs.removingFromDB (h.removingFromDB.1 hmem))
  removingFromStorage hmem :=
    h.answered.trans (hs.removingFromStorage (h.removingFromStorage.1 hmem))
  used reply hget := (hs.used reply (h.answered.symm.trans hget)).trans h.lastID

/-! ## Steps -/

section Calls

variable {V : Type} {m : GoMap SubmissionID V} {table : SubmissionTable F} {k a : SubmissionID}
  {v : V} {row : Submission F} {done : Bool}

theorem find_ite_save_ne (h : a ≠ k) :
    (if done then table.save k row else table).find a = table.find a := by
  cases done with
  | true => exact SubmissionTable.find_save_ne table row h
  | false => rfl

theorem find_ite_delete_ne (h : a ≠ k) :
    (if done then table.delete k else table).find a = table.find a := by
  cases done with
  | true => exact SubmissionTable.find_delete_ne table h
  | false => rfl

theorem get?_ite_set_ne (h : a ≠ k) : (if done then m.set k v else m).get? a = m.get? a := by
  cases done with
  | true => exact GoMap.get?_set_ne m v h
  | false => rfl

theorem get?_ite_delete_ne (h : a ≠ k) : (if done then m.delete k else m).get? a = m.get? a := by
  cases done with
  | true => exact GoMap.get?_delete_ne m h
  | false => rfl

theorem mem_ite_erase_ne {ids : List SubmissionID} (h : a ≠ k) :
    a ∈ (if done then ids.erase k else ids) ↔ a ∈ ids := by
  cases done with
  | true => exact List.mem_erase_of_ne h
  | false => exact Iff.rfl

end Calls

/-! What a step leaves alone -/

section Others

variable {x n : SubmissionID} {call : CallEnd}

theorem same_saveSubmissionInDB [Zero F] {problem : Problem F} {file : SourceCode}
    (hx : x ≠ s.lastID + 1) : s.Same (s.saveSubmissionInDB problem file call) x :=
  ⟨find_ite_save_ne hx, rfl, get?_ite_set_ne hx, rfl, GoMap.get?_set_ne _ _ hx, rfl, rfl,
    Iff.rfl, Iff.rfl, Nat.le_succ _, Iff.rfl, Iff.rfl, Iff.rfl⟩

theorem same_saveSubmissionInStorage {handler : NewSubmission F}
    (hhandler : s.handlers.get? n = some handler) (hx : x ≠ n) :
    s.Same (s.saveSubmissionInStorage n call) x := by
  unfold saveSubmissionInStorage
  rw [hhandler]
  dsimp only
  split
  · exact ⟨rfl, get?_ite_set_ne hx, GoMap.get?_set_ne _ _ hx, rfl, rfl, rfl, rfl, Iff.rfl, Iff.rfl,
      Nat.le_refl _, Iff.rfl, Iff.rfl, Iff.rfl⟩
  · exact ⟨rfl, get?_ite_set_ne hx, GoMap.get?_delete_ne _ hx, rfl, rfl, GoMap.get?_set_ne _ _ hx,
      rfl, by simp [refuse, hx], Iff.rfl, Nat.le_refl _, Iff.rfl, Iff.rfl, Iff.rfl⟩

theorem same_removeSubmissionFromDB (hx : x ≠ n) : s.Same (s.removeSubmissionFromDB n call) x :=
  ⟨find_ite_delete_ne hx, rfl, rfl, rfl, rfl, rfl, rfl, mem_ite_erase_ne hx, Iff.rfl,
    Nat.le_refl _, Iff.rfl, Iff.rfl, Iff.rfl⟩

theorem same_removeSubmissionFromStorage (hx : x ≠ n) :
    s.Same (s.removeSubmissionFromStorage n call) x :=
  ⟨rfl, get?_ite_delete_ne hx, rfl, rfl, rfl, rfl, rfl, Iff.rfl, mem_ite_erase_ne hx,
    Nat.le_refl _, Iff.rfl, Iff.rfl, Iff.rfl⟩

theorem same_saveResult {entry : Submission F × Bool} (hget : s.finishing.get? n = some entry)
    (hx : x ≠ n) : s.Same (s.saveResult n call) x := by
  unfold saveResult
  rw [hget]
  exact ⟨find_ite_save_ne hx, rfl, rfl, GoMap.get?_set_ne _ _ hx, rfl, rfl, rfl, Iff.rfl, Iff.rfl,
    Nat.le_refl _, Iff.rfl, Iff.rfl, Iff.rfl⟩

end Others

/-- The invariant of the service. -/
structure Inv [Add F] [Min F] [Zero F] [One F] (s : MasterService F) : Prop where
  run : s.run.Inv
  recorded : ∀ id, s.Recorded id

variable [Add F] [Min F] [Zero F] [One F]

theorem Inv.unknown (h : s.Inv) {n : SubmissionID} (hn : s.lastID < n) :
    s.answered.get? n = none ∧ s.handlers.get? n = none ∧ n ∉ s.run.submitted ∧
      s.finishing.get? n = none := by
  have hr := h.recorded n
  have hanswered : s.answered.get? n = none := by
    cases hget : s.answered.get? n with
    | none => rfl
    | some reply => exact absurd (hr.used reply hget) (Nat.not_le.2 hn)
  have hsubmitted : n ∉ s.run.submitted := by
    intro hmem
    have haccepted := hr.accepted.2 hmem
    rw [hanswered] at haccepted
    cases haccepted
  refine ⟨hanswered, ?_, hsubmitted, ?_⟩
  · cases hget : s.handlers.get? n with
    | none => rfl
    | some handler => exact absurd (hr.handled handler hget).used (Nat.not_le.2 hn)
  · cases hget : s.finishing.get? n with
    | none => rfl
    | some entry =>
      have hsubs := h.run.submissions
      have hmem := hsubs.finishing.2 n (hr.finishing entry hget)
      exact absurd (hsubs.returned.2 n hmem) hsubmitted

theorem Inv.saveSubmissionInDB (h : s.Inv) (problem : Problem F) (file : SourceCode)
    (call : CallEnd) : (s.saveSubmissionInDB problem file call).Inv := by
  refine ⟨h.run, ?_⟩
  intro id
  by_cases hid : id = s.lastID + 1
  · subst hid
    obtain ⟨hanswered, hhandler, hsubmitted, hfinishing⟩ := h.unknown (Nat.lt_succ_self s.lastID)
    have hr := h.recorded (s.lastID + 1)
    refine ⟨?_, hr.accepted, fun hmem => absurd hmem hsubmitted, fun hmem => absurd hmem hsubmitted,
      hr.finishing, hr.results, hr.removingFromDB, hr.removingFromStorage, ?_⟩
    · intro handler hget
      unfold MasterService.saveSubmissionInDB at hget ⊢
      dsimp only at hget ⊢
      cases hok : call.ok with
      | false =>
        rw [hok, if_neg Bool.false_ne_true, hhandler] at hget
        cases hget
      | true =>
        rw [hok, if_pos rfl, GoMap.get?_set_self] at hget
        cases hget
        refine ⟨rfl, rfl, hanswered, Nat.le_refl _, ?_, GoMap.get?_set_self _ _ _, ?_⟩
        · rw [if_pos (call.honest hok)]
          exact SubmissionTable.find_save_self _ _ _
        · intro hstored
          cases hstored
    · intro reply hget
      exact (hr.used reply hget).trans (Nat.le_succ _)
  · exact (same_saveSubmissionInDB hid).recorded (h.recorded id)

omit [Add F] [Min F] [Zero F] [One F] in
/-- A submission of a running handler is not in the queue, and no result of it is there. -/
theorem Recorded.waiting (hr : s.Recorded id) {handler : NewSubmission F}
    (hget : s.handlers.get? id = some handler) :
    s.answered.get? id = none ∧ id ∉ s.run.submitted := by
  have hanswered := (hr.handled handler hget).unanswered
  refine ⟨hanswered, ?_⟩
  intro hmem
  have haccepted := hr.accepted.2 hmem
  rw [hanswered] at haccepted
  cases haccepted

omit [Add F] [Min F] [Zero F] [One F] in
/-- A refused submission is not in the queue. -/
theorem Recorded.refused (hr : s.Recorded id) (hget : s.answered.get? id = some .serverError) :
    s.handlers.get? id = none ∧ id ∉ s.run.submitted := by
  refine ⟨?_, ?_⟩
  · cases hhandler : s.handlers.get? id with
    | none => rfl
    | some handler =>
      have hanswered := (hr.handled handler hhandler).unanswered
      rw [hget] at hanswered
      cases hanswered
  · intro hmem
    have haccepted := hr.accepted.2 hmem
    rw [hget] at haccepted
    cases haccepted

theorem Inv.saveSubmissionInStorage (h : s.Inv) {id : SubmissionID} {handler : NewSubmission F}
    (hhandler : s.handlers.get? id = some handler) (call : CallEnd) :
    (s.saveSubmissionInStorage id call).Inv := by
  have hothers : ∀ x ≠ id, (s.saveSubmissionInStorage id call).Recorded x :=
    fun x hx => (same_saveSubmissionInStorage hhandler hx).recorded (h.recorded x)
  unfold MasterService.saveSubmissionInStorage at hothers ⊢
  rw [hhandler] at hothers ⊢
  dsimp only at hothers ⊢
  obtain ⟨hanswered, hsubmitted⟩ := (h.recorded id).waiting hhandler
  have hr := h.recorded id
  have hold := hr.handled handler hhandler
  split at hothers
  · next hok =>
    rw [if_pos hok]
    refine ⟨h.run, ?_⟩
    intro x
    by_cases hx : x = id
    · subst hx
      refine ⟨?_, hr.accepted, fun hmem => absurd hmem hsubmitted,
        fun hmem => absurd hmem hsubmitted, hr.finishing, hr.results, hr.removingFromDB,
        hr.removingFromStorage, hr.used⟩
      intro handler' hget
      rw [GoMap.get?_set_self] at hget
      cases hget
      refine ⟨hold.id_eq, hold.verdict, hanswered, hold.used, hold.row, hold.upload, ?_⟩
      intro _
      rw [call.honest hok]
      exact GoMap.get?_set_self _ _ _
    · exact hothers x hx
  · next hfailed =>
    rw [if_neg hfailed]
    refine ⟨h.run, ?_⟩
    intro x
    by_cases hx : x = id
    · subst hx
      refine ⟨?_, ?_, fun hmem => absurd hmem hsubmitted, fun hmem => absurd hmem hsubmitted,
        hr.finishing, hr.results, fun _ => GoMap.get?_set_self _ _ _,
        fun _ => GoMap.get?_set_self _ _ _, fun _ _ => hold.used⟩
      · intro handler' hget
        unfold refuse at hget
        rw [GoMap.get?_delete_self] at hget
        cases hget
      · refine iff_of_false ?_ hsubmitted
        intro haccepted
        unfold refuse at haccepted
        rw [GoMap.get?_set_self] at haccepted
        cases haccepted
    · exact hothers x hx

/-- The queue refuses the submission. -/
theorem Inv.submit_refused (h : s.Inv) {id : SubmissionID} {handler : NewSubmission F}
    (hhandler : s.handlers.get? id = some handler) {run : MasterRun F} (hrun : run.Inv)
    (hsame : s.run.SameSubmissions run) :
    Inv { refuse { s with run := run } id with removingFromStorage := id :: s.removingFromStorage } := by
  have hr := h.recorded id
  obtain ⟨-, hsubmitted⟩ := hr.waiting hhandler
  have hsubmitted' : id ∉ run.submitted := by
    rw [hsame.submitted]
    exact hsubmitted
  refine ⟨hrun, ?_⟩
  intro x
  by_cases hx : x = id
  · subst hx
    refine ⟨?_, ?_, fun hmem => absurd hmem hsubmitted', fun hmem => absurd hmem hsubmitted', ?_,
      hr.results, fun _ => GoMap.get?_set_self _ _ _, fun _ => GoMap.get?_set_self _ _ _,
      fun _ _ => (hr.handled handler hhandler).used⟩
    · intro handler' hget
      unfold refuse at hget
      rw [GoMap.get?_delete_self] at hget
      cases hget
    · refine iff_of_false ?_ hsubmitted'
      intro haccepted
      unfold refuse at haccepted
      rw [GoMap.get?_set_self] at haccepted
      cases haccepted
    · intro entry hget
      show x ∈ run.finishing
      rw [hsame.finishing]
      exact hr.finishing entry hget
  · refine Same.recorded (s := s) ?_ (h.recorded x)
    refine ⟨rfl, rfl, GoMap.get?_delete_ne _ hx, rfl, rfl, GoMap.get?_set_ne _ _ hx, rfl,
      by simp [refuse, hx], by simp [hx], Nat.le_refl _, ?_, ?_, ?_⟩
    · show x ∈ run.submitted ↔ x ∈ s.run.submitted
      rw [hsame.submitted]
    · show x ∈ run.returned ↔ x ∈ s.run.returned
      rw [hsame.returned]
    · show x ∈ run.finishing ↔ x ∈ s.run.finishing
      rw [hsame.finishing]

/-- The queue accepts the submission. -/
theorem Inv.submit_accepted (h : s.Inv) {id : SubmissionID} {handler : NewSubmission F}
    (hhandler : s.handlers.get? id = some handler) (hstored : handler.stored = true)
    {run : MasterRun F} (hrun : run.Inv) (hsubmitted' : run.submitted = id :: s.run.submitted)
    (hreturned : run.returned = s.run.returned) (hfinishing : run.finishing = s.run.finishing) :
    Inv { s with
      run := run, handlers := s.handlers.delete id, answered := s.answered.set id .accepted } := by
  have hr := h.recorded id
  have hold := hr.handled handler hhandler
  obtain ⟨hanswered, hsubmitted⟩ := hr.waiting hhandler
  refine ⟨hrun, ?_⟩
  intro x
  by_cases hx : x = id
  · subst hx
    have hmem : x ∈ run.submitted := by
      rw [hsubmitted']
      exact List.mem_cons_self
    have hnot : x ∉ run.returned := by
      rw [hreturned]
      intro hmem
      exact hsubmitted (h.run.submissions.returned.2 x hmem)
    refine ⟨?_, iff_of_true (GoMap.get?_set_self _ _ _) hmem,
      fun _ => .testing handler.submission hold.row hold.verdict hnot,
      fun _ => ⟨handler.file, hold.upload, hold.source hstored⟩, ?_, hr.results, ?_, ?_,
      fun _ _ => hold.used⟩
    · intro handler' hget
      rw [GoMap.get?_delete_self] at hget
      cases hget
    · intro entry hget
      rw [hfinishing]
      exact hr.finishing entry hget
    · intro hremoving
      have hrefused := hr.removingFromDB hremoving
      rw [hanswered] at hrefused
      cases hrefused
    · intro hremoving
      have hrefused := hr.removingFromStorage hremoving
      rw [hanswered] at hrefused
      cases hrefused
  · refine Same.recorded (s := s) ?_ (h.recorded x)
    refine ⟨rfl, rfl, GoMap.get?_delete_ne _ hx, rfl, rfl, GoMap.get?_set_ne _ _ hx, rfl, Iff.rfl,
      Iff.rfl, Nat.le_refl _, ?_, ?_, ?_⟩
    · rw [hsubmitted', List.mem_cons]
      exact or_iff_right hx
    · rw [hreturned]
    · rw [hfinishing]

theorem Inv.submit (h : s.Inv) {id : SubmissionID} {handler : NewSubmission F}
    (hhandler : s.handlers.get? id = some handler) (hstored : handler.stored = true) {epoch : Epoch}
    (hex : s.submit id epoch = .ok t) : t.Inv := by
  unfold MasterService.submit at hex
  rw [hhandler] at hex
  obtain ⟨submitted, hq, hex⟩ := bind_eq_ok.1 hex
  obtain ⟨run, hrun, hex⟩ := bind_eq_ok.1 hex
  have hid := ((h.recorded id).handled handler hhandler).id_eq
  have hnew : handler.submission.id ∉ s.run.submitted := by
    rw [hid]
    exact ((h.recorded id).waiting hhandler).2
  have hrunInv : run.Inv := ((h.run.step (a := .submit _ _ epoch) hnew).value hrun).inv
  cases submitted with
  | error err =>
    cases hex
    exact h.submit_refused hhandler hrunInv (MasterRun.submit_refused hq hrun)
  | ok q =>
    cases hex
    obtain ⟨hsubmitted, hreturned, hfinishing⟩ := MasterRun.submit_accepted hq hrun
    rw [hid] at hsubmitted
    exact h.submit_accepted hhandler hstored hrunInv hsubmitted hreturned hfinishing

theorem Inv.removeSubmissionFromDB (h : s.Inv) {id : SubmissionID} (hmem : id ∈ s.removingFromDB)
    (call : CallEnd) : (s.removeSubmissionFromDB id call).Inv := by
  refine ⟨h.run, ?_⟩
  intro x
  by_cases hx : x = id
  · subst hx
    have hr := h.recorded x
    have hrefused := hr.removingFromDB hmem
    obtain ⟨hhandler, hsubmitted⟩ := hr.refused hrefused
    refine ⟨?_, hr.accepted, fun hmem => absurd hmem hsubmitted, fun hmem => absurd hmem hsubmitted,
      hr.finishing, hr.results, fun _ => hrefused, hr.removingFromStorage, hr.used⟩
    intro handler hget
    have hnone : (s.removeSubmissionFromDB x call).handlers.get? x = none := hhandler
    rw [hnone] at hget
    cases hget
  · exact (same_removeSubmissionFromDB hx).recorded (h.recorded x)

theorem Inv.removeSubmissionFromStorage (h : s.Inv) {id : SubmissionID}
    (hmem : id ∈ s.removingFromStorage) (call : CallEnd) :
    (s.removeSubmissionFromStorage id call).Inv := by
  refine ⟨h.run, ?_⟩
  intro x
  by_cases hx : x = id
  · subst hx
    have hr := h.recorded x
    have hrefused := hr.removingFromStorage hmem
    obtain ⟨hhandler, hsubmitted⟩ := hr.refused hrefused
    refine ⟨?_, hr.accepted, fun hmem => absurd hmem hsubmitted, fun hmem => absurd hmem hsubmitted,
      hr.finishing, hr.results, hr.removingFromDB, fun _ => hrefused, hr.used⟩
    intro handler hget
    have hnone : (s.removeSubmissionFromStorage x call).handlers.get? x = none := hhandler
    rw [hnone] at hget
    cases hget
  · exact (same_removeSubmissionFromStorage hx).recorded (h.recorded x)

/-- A submission that waits for its row has the stage `finishing`. -/
theorem Inv.finishing_entry (h : s.Inv) {id : SubmissionID} {submission : Submission F} {saved : Bool}
    (hget : s.finishing.get? id = some (submission, saved)) :
    id ∈ s.run.submitted ∧ id ∈ s.run.returned ∧ id ∈ s.run.finishing ∧
      s.results.get? id = some submission ∧ ∃ row, s.database.find id = some row ∧
        (row.verdict = .RU ∨ row = submission) ∧ (saved = true → row = submission) := by
  have hsubs := h.run.submissions
  have hfinishing := (h.recorded id).finishing _ hget
  have hreturned := hsubs.finishing.2 id hfinishing
  have hsubmitted := hsubs.returned.2 id hreturned
  refine ⟨hsubmitted, hreturned, hfinishing, ?_⟩
  cases (h.recorded id).stage hsubmitted with
  | testing row hrow hverdict hnot => exact absurd hreturned hnot
  | finishing row submission' saved' hrow hverdict hsaved hentry hresult _ _ =>
    rw [hget] at hentry
    cases hentry
    exact ⟨hresult, row, hrow, hverdict, hsaved⟩
  | tested submission hrow hresult _ hnot => exact absurd hfinishing hnot

theorem Inv.saveResult (h : s.Inv) {id : SubmissionID} {submission : Submission F}
    (hget : s.finishing.get? id = some (submission, false)) (call : CallEnd) :
    (s.saveResult id call).Inv := by
  obtain ⟨hsubmitted, hreturned, hfinishing, hresult, row, hrow, hverdict, -⟩ :=
    h.finishing_entry hget
  have hr := h.recorded id
  have hothers : ∀ x ≠ id, (s.saveResult id call).Recorded x :=
    fun x hx => (same_saveResult hget hx).recorded (h.recorded x)
  unfold MasterService.saveResult at hothers ⊢
  rw [hget] at hothers ⊢
  refine ⟨h.run, ?_⟩
  intro x
  by_cases hx : x = id
  · subst hx
    refine ⟨?_, hr.accepted, ?_, hr.source, fun _ _ => hfinishing, hr.results, hr.removingFromDB,
      hr.removingFromStorage, hr.used⟩
    · intro handler hhandler
      exact absurd hsubmitted (hr.waiting hhandler).2
    · intro _
      have hentry := GoMap.get?_set_self s.finishing x (submission, false || call.ok)
      cases hwritten : call.written with
      | true =>
        exact .finishing submission submission _ (SubmissionTable.find_save_self _ _ _) (.inr rfl)
          (fun _ => rfl) hentry hresult hreturned hfinishing
      | false =>
        refine .finishing row submission _ hrow hverdict ?_ hentry hresult hreturned hfinishing
        intro hok
        rw [Bool.false_or] at hok
        rw [call.honest hok] at hwritten
        cases hwritten
  · exact hothers x hx

theorem Inv.finishSubmissionTesting (h : s.Inv) {id : SubmissionID} {submission : Submission F}
    (hget : s.finishing.get? id = some (submission, true))
    (hex : s.finishSubmissionTesting id = .ok t) : t.Inv := by
  obtain ⟨hsubmitted, hreturned, hfinishing, hresult, row, hrow, -, hsaved⟩ :=
    h.finishing_entry hget
  have hr := h.recorded id
  obtain ⟨run, hrun, hex⟩ := bind_eq_ok.1 hex
  cases hex
  obtain ⟨hsubmitted', hreturned', hfinishing'⟩ :=
    MasterRun.finishSubmissionTesting_submissions hrun
  have hnodup := h.run.submissions.finishing.1
  refine ⟨((h.run.step (a := .finishSubmissionTesting id) hfinishing).value hrun).inv, ?_⟩
  intro x
  by_cases hx : x = id
  · subst hx
    refine ⟨?_, ?_, ?_, ?_, ?_, hr.results, hr.removingFromDB, hr.removingFromStorage, hr.used⟩
    · intro handler hhandler
      exact absurd hsubmitted (hr.waiting hhandler).2
    · rw [hsubmitted']
      exact hr.accepted
    · intro _
      refine .tested submission ?_ hresult ?_ ?_
      · rw [← hsaved rfl]
        exact hrow
      · rw [hreturned']
        exact hreturned
      · rw [hfinishing']
        exact hnodup.not_mem_erase
    · rw [hsubmitted']
      exact hr.source
    · intro entry hentry
      rw [GoMap.get?_delete_self] at hentry
      cases hentry
  · refine Same.recorded (s := s) ?_ (h.recorded x)
    refine ⟨rfl, rfl, rfl, GoMap.get?_delete_ne _ hx, rfl, rfl, rfl, Iff.rfl, Iff.rfl,
      Nat.le_refl _, ?_, ?_, ?_⟩
    · rw [hsubmitted']
    · rw [hreturned']
    · rw [hfinishing']
      exact List.mem_erase_of_ne hx

/-- A step of the run that moves no submission. -/
theorem Inv.sameSubmissions (h : s.Inv) {run : MasterRun F} (hrun : run.Inv)
    (hsame : s.run.SameSubmissions run) : Inv { s with run := run } := by
  refine ⟨hrun, ?_⟩
  intro x
  refine Same.recorded (s := s) ?_ (h.recorded x)
  refine ⟨rfl, rfl, rfl, rfl, rfl, rfl, rfl, Iff.rfl, Iff.rfl, Nat.le_refl _, ?_, ?_, ?_⟩
  · rw [hsame.submitted]
  · rw [hsame.returned]
  · rw [hsame.finishing]

theorem Inv.jobCompleted (h : s.Inv) {k : Nat} {result : InvokerJobResult F}
    (hresult : s.run.accepted[k]? = some result) {epoch : Epoch}
    (hex : s.jobCompleted k epoch = .ok t) : t.Inv := by
  unfold MasterService.jobCompleted at hex
  rw [hresult] at hex
  obtain ⟨⟨q, submission⟩, hq, hex⟩ := bind_eq_ok.1 hex
  obtain ⟨run, hrun, hex⟩ := bind_eq_ok.1 hex
  have hrunInv : run.Inv :=
    ((h.run.step (a := .jobCompleted k epoch) ⟨result, hresult⟩).value hrun).inv
  rcases MasterRun.jobCompleted_submissions hresult hq hrun with
    ⟨returned, rfl, hsubmitted', hreturned', hfinishing'⟩ | ⟨hnone, hsame⟩
  · cases hex
    -- The submission was in testing: no submission is returned twice.
    have hsubs := hrunInv.submissions
    have hmem : returned.id ∈ s.run.submitted := by
      rw [← hsubmitted']
      apply hsubs.returned.2
      rw [hreturned']
      exact List.mem_cons_self
    have hnot : returned.id ∉ s.run.returned := by
      have hnodup := hsubs.returned.1
      rw [hreturned', List.nodup_cons] at hnodup
      exact hnodup.1
    refine ⟨hrunInv, ?_⟩
    intro x
    by_cases hx : x = returned.id
    · subst hx
      have hr := h.recorded returned.id
      refine ⟨?_, ?_, ?_, fun _ => hr.source hmem, ?_, ?_, hr.removingFromDB, hr.removingFromStorage,
        hr.used⟩
      · intro handler hhandler
        exact absurd hmem (hr.waiting hhandler).2
      · rw [hsubmitted']
        exact hr.accepted
      · intro _
        cases hr.stage hmem with
        | testing row hrow hverdict _ =>
          refine .finishing row returned false hrow (.inl hverdict) Bool.noConfusion
            (GoMap.get?_set_self _ _ _) (GoMap.get?_set_self _ _ _) ?_ ?_
          · rw [hreturned']
            exact List.mem_cons_self
          · rw [hfinishing']
            exact List.mem_cons_self
        | finishing row submission saved _ _ _ _ _ hreturned _ => exact absurd hreturned hnot
        | tested submission _ _ hreturned _ => exact absurd hreturned hnot
      · intro entry _
        rw [hfinishing']
        exact List.mem_cons_self
      · intro submission hget
        rw [GoMap.get?_set_self] at hget
        cases hget
        exact Queue.jobCompleted_ne_running hq
    · refine Same.recorded (s := s) ?_ (h.recorded x)
      refine ⟨rfl, rfl, rfl, GoMap.get?_set_ne _ _ hx, rfl, rfl, GoMap.get?_set_ne _ _ hx, Iff.rfl,
        Iff.rfl, Nat.le_refl _, ?_, ?_, ?_⟩
      · rw [hsubmitted']
      · rw [hreturned', List.mem_cons]
        exact or_iff_right hx
      · rw [hfinishing', List.mem_cons]
        exact or_iff_right hx
  · have hmoved := h.sameSubmissions hrunInv hsame
    split at hex
    · exact absurd rfl (hnone _)
    · cases hex
      exact hmoved
    · cases hex
      exact hmoved

theorem Inv.other (h : s.Inv) {step : MasterStep F} (hother : step.isOther = true)
    (hen : s.run.enabled step) (hex : s.exec (.other step) = .ok t) : t.Inv := by
  obtain ⟨run, hrun, hex⟩ := bind_eq_ok.1 hex
  cases hex
  have hadvances := (h.run.step hen).value hrun
  exact h.sameSubmissions hadvances.inv (hadvances.effect.sameSubmissions hother)

theorem Inv.step (h : s.Inv) {a : MasterServiceStep F} (hen : s.enabled a)
    (hex : s.exec a = .ok t) : t.Inv := by
  cases a with
  | saveSubmissionInDB problem file call =>
    cases hex
    exact h.saveSubmissionInDB problem file call
  | saveSubmissionInStorage id call =>
    obtain ⟨handler, hhandler, -⟩ := hen
    cases hex
    exact h.saveSubmissionInStorage hhandler call
  | submit id epoch =>
    obtain ⟨handler, hhandler, hstored⟩ := hen
    exact h.submit hhandler hstored hex
  | removeSubmissionFromDB id call =>
    cases hex
    exact h.removeSubmissionFromDB hen call
  | removeSubmissionFromStorage id call =>
    cases hex
    exact h.removeSubmissionFromStorage hen call
  | saveResult id call =>
    obtain ⟨submission, hget⟩ := hen
    cases hex
    exact h.saveResult hget call
  | finishSubmissionTesting id =>
    obtain ⟨submission, hget⟩ := hen
    exact h.finishSubmissionTesting hget hex
  | jobCompleted k epoch =>
    obtain ⟨result, hresult⟩ := hen
    exact h.jobCompleted hresult hex
  | other step => exact h.other hen.1 hen.2 hex

theorem inv_new : Inv (new : MasterService F) where
  run := MasterRun.inv_new
  recorded id := by
    have hnot : id ∉ (new : MasterService F).run.submitted := List.not_mem_nil
    refine ⟨?_, iff_of_false ?_ hnot, fun hmem => absurd hmem hnot, fun hmem => absurd hmem hnot,
      ?_, ?_, fun hmem => absurd hmem List.not_mem_nil, fun hmem => absurd hmem List.not_mem_nil, ?_⟩
    · intro handler hget
      cases hget
    · intro hget
      cases hget
    · intro entry hget
      cases hget
    · intro submission hget
      cases hget
    · intro reply hget
      cases hget

theorem inv {ok : MasterService F → MasterServiceStep F → Prop} (h : machine.Reachable ok s) :
    s.Inv := by
  refine h.invariant ?_ ?_
  · rintro s rfl
    exact inv_new
  · intro s a t hs _ hen hex
    exact hs.step hen hex

/-! ## Accepted submissions -/

/-- Whatever calls fail: the source of an accepted submission is in the storage, its row is in the
table, and the status lists it until the row is the result of testing. A row without a verdict is one
of a submission in the status. -/
theorem accepted_kept (h : machine.Reachable Machine.always s) (id : SubmissionID)
    (haccepted : s.answered.get? id = some .accepted) :
    (∃ file, s.uploads.get? id = some file ∧ s.storage.get? id = some file) ∧
      ∃ row, s.database.find id = some row ∧
        (row.verdict = .RU ∨ s.results.get? id = some row) ∧
        (¬ s.run.queue.status.Active id → s.results.get? id = some row ∧ row.verdict ≠ .RU) := by
  have hi := inv h
  have hr := hi.recorded id
  have hsubmitted := hr.accepted.1 haccepted
  have hactive := hi.run.submissions.active id
  refine ⟨hr.source hsubmitted, ?_⟩
  cases hr.stage hsubmitted with
  | testing row hrow hverdict hreturned =>
    refine ⟨row, hrow, .inl hverdict, ?_⟩
    intro hnot
    exact absurd (hactive.2 ⟨hsubmitted, fun hmem => absurd hmem hreturned⟩) hnot
  | finishing row submission saved hrow hverdict _ _ hresult _ hfinishing =>
    refine ⟨row, hrow, ?_, ?_⟩
    · apply hverdict.imp_right
      rintro rfl
      exact hresult
    · intro hnot
      exact absurd (hactive.2 ⟨hsubmitted, fun _ => hfinishing⟩) hnot
  | tested submission hrow hresult _ _ =>
    exact ⟨submission, hrow, .inr hresult, fun _ => ⟨hresult, hr.results submission hresult⟩⟩

/-- A submission is compiled with an error. The first attempt to save the result is reported as failed,
although the row was written. -/
theorem accepted_kept_second_attempt : ∃ s : MasterService Int,
    s.answered.get? 1 = some .accepted ∧ ¬ s.run.queue.status.Active 1 ∧
      ∃ row, s.database.find 1 = some row ∧ s.results.get? 1 = some row ∧ row.verdict = .CE := by
  have hr := Machine.Reachable.of_runs (machine (F := Int)) Machine.always
    [.saveSubmissionInDB GeneratorRun.twoTests [] ⟨true, true, id⟩,
      .saveSubmissionInStorage 1 ⟨true, true, id⟩, .submit 1 0,
      .other (.upsertInvoker MasterRun.oneJob id), .other .takeNextJob, .other (.trySendJob 1),
      .other (.handleInvokerJobResult (GeneratorRun.resultOf 2 .CE none)),
      .other (.upsertAfterResult 0 id), .jobCompleted 0 1,
      .saveResult 1 ⟨true, false, Bool.noConfusion⟩, .saveResult 1 ⟨true, true, id⟩,
      .finishSubmissionTesting 1]
    (.of_init rfl)
    ⟨trivial, trivial, _, rfl, trivial, ⟨_, rfl, rfl⟩, _, rfl, trivial, ⟨_, rfl, rfl⟩, _, rfl,
      trivial, ⟨rfl, fun ids => .refl ids⟩, _, rfl, trivial, ⟨rfl, trivial⟩, _, rfl,
      trivial, ⟨rfl, List.mem_cons_self⟩, _, rfl, trivial, ⟨rfl, trivial⟩, _, rfl,
      trivial, ⟨rfl, ⟨_, rfl⟩, fun ids => .refl ids⟩, _, rfl, trivial, ⟨_, rfl⟩, _, rfl,
      trivial, ⟨_, rfl⟩, _, rfl, trivial, ⟨_, rfl⟩, _, rfl, trivial, ⟨_, rfl⟩, _, rfl, rfl⟩
  obtain ⟨-, row, hrow, -, hdone⟩ := accepted_kept hr 1 rfl
  refine ⟨_, rfl, ?_, row, hrow, ?_, ?_⟩
  · rintro ⟨holder, hholder⟩
    cases hholder
  · apply (hdone _).1
    rintro ⟨holder, hholder⟩
    cases hholder
  · obtain rfl := Option.some.inj hrow
    rfl

end MasterService

end TestingSystem
