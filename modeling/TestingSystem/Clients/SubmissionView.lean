import TestingSystem.Clients.SubmissionReads

/-!
# What the API shows of a submission only grows

The master is an `Owner` of the submissions and the API server a `Viewer`. `Sources` is what holds of the
master: the generators, the status and the table agree on each submission. Each step of the master keeps it
and is one that an owner may take (`Sources.Moves`), so a reply of `GetSubmission` never goes back behind an
earlier one (`replies_grow`).
-/

set_option autoImplicit false

namespace TestingSystem

variable {F : Type}

/-! ## Rows -/

/-- The submission as `saveSubmissionInDB` makes it, up to its score. -/
structure Submission.Blank (s : Submission F) : Prop where
  verdict : s.verdict = .RU
  tests : s.testResults = []
  groups : s.groupResults = []
  compilation : s.compilationResult = none

theorem Submission.Blank.grows {s t : Submission F} (h : s.Blank) (hid : s.id = t.id) : s.Grows t := by
  apply Submission.Extends.grows _ h.verdict
  refine ⟨hid.symm, ?_, ?_, ?_⟩
  · rw [h.tests]
    exact List.nil_prefix
  · rw [h.groups]
    exact List.nil_prefix
  · intro result hresult
    rw [h.compilation] at hresult
    cases hresult

theorem Submission.Grows.blank {s t : Submission F} (h : s.Grows t) (ht : t.Blank) : s.Blank := by
  refine ⟨?_, ?_, ?_, ?_⟩
  · by_contra hne
    obtain ⟨hsame, -⟩ := h.verdict hne
    exact hne (hsame.symm.trans ht.verdict)
  · have htests := h.tests
    rw [ht.tests] at htests
    exact List.prefix_nil.1 htests
  · have hgroups := h.groups
    rw [ht.groups] at hgroups
    exact List.prefix_nil.1 hgroups
  · cases hresult : s.compilationResult with
    | none => rfl
    | some result =>
      have hkept := h.compilation result hresult
      rw [ht.compilation] at hkept
      cases hkept

namespace ApiService

/-- The order of the states of a submission. -/
local instance growth : Preorder (Submission F) where
  le := Submission.Grows
  le_refl := Submission.Grows.refl
  le_trans _ _ _ h h' := h.trans h'

/-- How `GetSubmission` shows a row. -/
def scheme : RowScheme SubmissionID (Submission F) where
  key s := s.id
  pending s := decide (s.verdict = .RU)
  reset s := { s with testResults := [] }
  blank := Submission.Blank
  key_eq h := h.id.symm
  blank_le h hid := h.grows hid
  blank_of_le h hblank := h.blank hblank
  pending_of_blank h := decide_eq_true h.verdict
  reset_blank h := ⟨⟨h.verdict, rfl, h.groups, h.compilation⟩, rfl⟩

theorem getSubmission_eq (client : MasterStatus F) (row : Submission F) :
    client.getSubmission row = scheme.view client.submissions.get? row := by
  unfold MasterStatus.getSubmission RowScheme.view scheme
  by_cases hverdict : row.verdict = .RU
  · rw [if_pos hverdict, if_pos (decide_eq_true hverdict)]
    cases client.submissions.get? row.id with
    | none => rfl
    | some submission => rfl
  · rw [if_neg hverdict, if_neg]
    rw [decide_eq_true_iff]
    exact hverdict

/-- What the API server can see of the master. -/
def owner (s : MasterService F) (copied : List SubmissionID) : Owner SubmissionID (Submission F) where
  live := s.run.queue.findSubmission
  served id := (s.run.queue.status.activeSubmissions.get? id).map fun holder =>
    shown s.run.queue copied holder.submission
  rows := s.database.find
  used id := id ≤ s.lastID

def viewer (a : ApiService F) : Viewer SubmissionID (Submission F) where
  cache := a.client.submissions.get?
  carried := (a.response.map MasterStatusResponse.updatedSubmissions).getD []
  readings := a.reads
  replies := a.replies

variable [Add F] [Min F] [Zero F] [One F]

/-- What holds of the master. -/
structure Sources (s : MasterService F) (copied : List SubmissionID) : Prop where
  service : s.Inv
  started : s.run.queue.StartedEmpty
  production : s.run.queue.status.isTesting = false
  handlers : ∀ id handler, s.handlers.get? id = some handler → handler.submission.Blank
  holders : ∀ id holder, s.run.queue.status.activeSubmissions.get? id = some holder →
    holder.submission.id = id ∧ ∃ live, s.run.queue.findSubmission id = some live ∧
      (id ∈ copied → holder.submission.Grows live)
  rows : ∀ id row, s.database.find id = some row →
    row.id = id ∧ id ≤ s.lastID ∧ (row.Blank ∨ s.results.get? id = some row)
  results : ∀ id result, s.results.get? id = some result →
    id ∈ s.run.returned ∧ s.run.queue.findSubmission id = some result

/-- A step of the master keeps this, and is one of an owner. -/
structure Sources.Moves (s : MasterService F) (copied : List SubmissionID) (t : MasterService F)
    (copied' : List SubmissionID) : Prop where
  sources : Sources t copied'
  advances : (owner s copied).Advances scheme (owner t copied')

/-- The rows that a step changes are blank ones of new submissions, or get the result. -/
def KeepsRows (s t : MasterService F) : Prop :=
  ∀ id row, t.database.find id = some row → s.database.find id = some row ∨
    row.id = id ∧ id ≤ t.lastID ∧ (s.lastID < id ∧ row.Blank ∨ s.results.get? id = some row)

namespace Sources

variable {s t : MasterService F} {copied copied' : List SubmissionID}

theorem queue (h : Sources s copied) : s.run.queue.Invariant := h.service.run.custody.accounted.toInvariant

/-- What a response shows of a submission in testing. -/
theorem shown_grows (h : Sources s copied) {id : SubmissionID} {holder : SubmissionHolder F}
    (hget : s.run.queue.status.activeSubmissions.get? id = some holder) :
    ∃ live, s.run.queue.findSubmission id = some live ∧
      (shown s.run.queue copied holder.submission).Grows live := by
  obtain ⟨rfl, live, hlive, hcopied⟩ := h.holders id holder hget
  refine ⟨live, hlive, ?_⟩
  unfold shown
  by_cases hmem : holder.submission.id ∈ copied
  · rw [if_pos hmem]
    exact hcopied hmem
  · rw [if_neg hmem, hlive]
    exact .refl live

theorem sound (h : Sources s copied) : (owner s copied).Sound scheme where
  live id v hget := by
    obtain ⟨-, -, -, -, hid⟩ := h.queue.findSubmission_iff.1 hget
    exact hid
  served id v hget := by
    obtain ⟨holder, hholder, rfl⟩ := Option.map_eq_some_iff.1 hget
    exact h.shown_grows hholder
  rows id row hget := by
    obtain ⟨hid, hused, hcases⟩ := h.rows id row hget
    refine ⟨hid, hused, hcases.imp_right ?_⟩
    intro hresult
    have hverdict := (h.service.recorded id).results row hresult
    exact ⟨decide_eq_false hverdict, (h.results id row hresult).2⟩

/-- A generator has no submission that was not submitted. -/
theorem findSubmission_unsubmitted (h : Sources s copied) {id : SubmissionID}
    (hnew : id ∉ s.run.submitted) : s.run.queue.findSubmission id = none := by
  cases hget : s.run.queue.findSubmission id with
  | none => rfl
  | some live =>
    obtain ⟨gid, g, hg, rfl, hid⟩ := h.queue.findSubmission_iff.1 hget
    obtain ⟨hmem, -⟩ := h.service.run.submissions.progress gid _ _
      (Queue.progress_eq_some.2 ⟨g, hg, rfl, rfl⟩)
    unfold Generator.submissionID at hmem
    rw [hid] at hmem
    exact absurd hmem hnew

/-- A generator that runs has a submission without a result. -/
theorem results_running (h : Sources s copied) {gid : GeneratorID} {g : Generator F}
    (hg : s.run.queue.generators.get? gid = some g) (hrunning : ¬ g.Finished)
    {result : Submission F} : s.results.get? g.submission.id ≠ some result := by
  intro hresult
  obtain ⟨-, hfinished⟩ := h.service.run.submissions.progress gid _ _
    (Queue.progress_eq_some.2 ⟨g, hg, rfl, rfl⟩)
  exact hrunning (hfinished.2 (h.results _ result hresult).1)

/-! ## Steps that change no submission -/

/-- The generators have the same submissions as before, and the status has no others. -/
theorem same (h : Sources s copied) (ht : t.Inv) (hstarted : t.run.queue.StartedEmpty)
    (hobjects : s.run.queue.SameObjects t.run.queue)
    (hproduction : t.run.queue.status.isTesting = false)
    (hholders : ∀ id holder, t.run.queue.status.activeSubmissions.get? id = some holder →
      s.run.queue.status.activeSubmissions.get? id = some holder)
    (hreturned : t.run.returned = s.run.returned) (hresults : t.results = s.results)
    (hhandlers : ∀ id handler, t.handlers.get? id = some handler → handler.submission.Blank)
    (hlast : s.lastID ≤ t.lastID) (hrows : KeepsRows s t) : Moves s copied t copied := by
  have hfind := h.queue.findSubmission_same ht.run.custody.accounted.toInvariant hobjects
  refine ⟨⟨ht, hstarted, hproduction, hhandlers, ?_, ?_, ?_⟩, ?_⟩
  · intro id holder hget
    rw [hfind]
    exact h.holders id holder (hholders id holder hget)
  · intro id row hget
    rw [hresults]
    rcases hrows id row hget with hold | ⟨hid, hused, hnew⟩
    · obtain ⟨hid, hused, hcases⟩ := h.rows id row hold
      exact ⟨hid, hused.trans hlast, hcases⟩
    · exact ⟨hid, hused, hnew.imp_left And.right⟩
  · intro id result hget
    rw [hresults] at hget
    rw [hreturned, hfind]
    exact h.results id result hget
  · refine ⟨fun id hused => hused.trans hlast, ?_, ?_, ?_, ?_⟩
    · intro id v hget
      exact ⟨v, (hfind id).trans hget, le_refl v⟩
    · intro id w hnone hget
      have hold := (hfind id).symm.trans hget
      cases hnone.symm.trans hold
    · intro id _ w _ hget
      refine ⟨w, ?_, le_refl w⟩
      obtain ⟨holder, hholder, rfl⟩ := Option.map_eq_some_iff.1 hget
      apply Option.map_eq_some_iff.2
      refine ⟨holder, hholders id holder hholder, ?_⟩
      unfold shown
      rw [hfind]
    · intro id row hused hget hpending
      rcases hrows id row hget with hold | ⟨-, -, ⟨hnew, -⟩ | hresult⟩
      · exact hold
      · exact absurd hused (Nat.not_le.2 hnew)
      · exact absurd (of_decide_eq_true hpending) ((h.service.recorded id).results row hresult)

/-- Only the handlers, the table and the storage differ. -/
theorem sameRun (h : Sources s copied) (ht : t.Inv) (hrun : t.run.queue = s.run.queue)
    (hreturned : t.run.returned = s.run.returned) (hresults : t.results = s.results)
    (hhandlers : ∀ id handler, t.handlers.get? id = some handler → handler.submission.Blank)
    (hlast : s.lastID ≤ t.lastID) (hrows : KeepsRows s t) : Moves s copied t copied := by
  refine h.same ht ?_ (.of_eq ?_) ?_ ?_ hreturned hresults hhandlers hlast hrows
  · rw [hrun]
    exact h.started
  · rw [hrun]
  · rw [hrun]
    exact h.production
  · rw [hrun]
    exact fun _ _ hget => hget

theorem saveSubmissionInDB (h : Sources s copied) {problem : Problem F} {file : SourceCode}
    {call : CallEnd} (ht : (s.saveSubmissionInDB problem file call).Inv) :
    Moves s copied (s.saveSubmissionInDB problem file call) copied := by
  refine h.sameRun ht rfl rfl rfl ?_ (Nat.le_succ _) ?_
  · intro id handler hget
    unfold MasterService.saveSubmissionInDB at hget
    dsimp only at hget
    split at hget
    · rcases GoMap.of_get?_set hget with ⟨-, rfl⟩ | ⟨-, hold⟩
      · exact ⟨rfl, rfl, rfl, rfl⟩
      · exact h.handlers id handler hold
    · exact h.handlers id handler hget
  · intro id row hget
    unfold MasterService.saveSubmissionInDB at hget
    dsimp only at hget
    split at hget
    · rcases SubmissionTable.of_find_save hget with ⟨rfl, rfl⟩ | ⟨-, hold⟩
      · exact .inr ⟨rfl, Nat.le_refl _, .inl ⟨Nat.lt_succ_self _, rfl, rfl, rfl, rfl⟩⟩
      · exact .inl hold
    · exact .inl hget

theorem saveSubmissionInStorage (h : Sources s copied) {id : SubmissionID} {call : CallEnd}
    (ht : (s.saveSubmissionInStorage id call).Inv) :
    Moves s copied (s.saveSubmissionInStorage id call) copied := by
  unfold MasterService.saveSubmissionInStorage at ht ⊢
  split at ht
  · exact h.sameRun ht rfl rfl rfl h.handlers (Nat.le_refl _) fun _ _ hget => .inl hget
  · next handler hhandler =>
    dsimp only at ht
    split at ht
    · next hok =>
      dsimp only
      rw [if_pos hok]
      refine h.sameRun ht rfl rfl rfl ?_ (Nat.le_refl _) fun _ _ hget => .inl hget
      intro a handler' hget
      rcases GoMap.of_get?_set hget with ⟨-, rfl⟩ | ⟨-, hold⟩
      · exact h.handlers id handler hhandler
      · exact h.handlers a handler' hold
    · next hok =>
      dsimp only
      rw [if_neg hok]
      refine h.sameRun ht rfl rfl rfl ?_ (Nat.le_refl _) fun _ _ hget => .inl hget
      intro a handler' hget
      exact h.handlers a handler' (GoMap.of_get?_delete hget).2

theorem removeSubmissionFromDB (h : Sources s copied) {id : SubmissionID} {call : CallEnd}
    (ht : (s.removeSubmissionFromDB id call).Inv) :
    Moves s copied (s.removeSubmissionFromDB id call) copied := by
  refine h.sameRun ht rfl rfl rfl h.handlers (Nat.le_refl _) ?_
  intro a row hget
  unfold MasterService.removeSubmissionFromDB at hget
  dsimp only at hget
  split at hget
  · exact .inl (SubmissionTable.of_find_delete hget).2
  · exact .inl hget

theorem removeSubmissionFromStorage (h : Sources s copied) {id : SubmissionID} {call : CallEnd}
    (ht : (s.removeSubmissionFromStorage id call).Inv) :
    Moves s copied (s.removeSubmissionFromStorage id call) copied :=
  h.sameRun ht rfl rfl rfl h.handlers (Nat.le_refl _) fun _ _ hget => .inl hget

/-- The row becomes the result of testing. -/
theorem saveResult (h : Sources s copied) {id : SubmissionID} {submission : Submission F}
    (hget : s.finishing.get? id = some (submission, false)) {call : CallEnd}
    (ht : (s.saveResult id call).Inv) : Moves s copied (s.saveResult id call) copied := by
  obtain ⟨-, -, -, hresult, row, hrow, -⟩ := h.service.finishing_entry hget
  obtain ⟨-, hused, -⟩ := h.rows id row hrow
  obtain ⟨-, -, -, -, hid⟩ := h.queue.findSubmission_iff.1 (h.results id submission hresult).2
  unfold MasterService.saveResult at ht ⊢
  rw [hget] at ht ⊢
  refine h.sameRun ht rfl rfl rfl h.handlers (Nat.le_refl _) ?_
  intro a new hnew
  dsimp only at hnew
  split at hnew
  · rcases SubmissionTable.of_find_save hnew with ⟨rfl, rfl⟩ | ⟨-, hold⟩
    · exact .inr ⟨hid, hused, .inr hresult⟩
    · exact .inl hold
  · exact .inl hnew

/-- A step of the queue and the registry that moves no submission. -/
theorem other (h : Sources s copied) {step : MasterStep F} (hother : step.isOther = true)
    (hen : s.run.enabled step) (hex : s.exec (.other step) = .ok t) (ht : t.Inv) :
    Moves s copied t copied := by
  obtain ⟨run, hrun, hex⟩ := bind_eq_ok.1 hex
  cases hex
  have heffect := ((h.service.run.step hen).value hrun).effect
  have hreturned := (heffect.sameSubmissions hother).returned
  have hrows : KeepsRows s { s with run := run } := fun _ _ hget => .inl hget
  have hqueue : run.queue = s.run.queue → Moves s copied { s with run := run } copied := fun hrun =>
    h.sameRun ht hrun hreturned rfl h.handlers (Nat.le_refl _) hrows
  cases heffect with
  | quiet hq => exact hqueue hq.queue
  | submitted hs => cases hother
  | @taken next q hnone hcall htaken created hcreated =>
    obtain ⟨hstarted, hobjects⟩ :=
      h.queue.nextJob_objects (h.service.run.custody.fresh _ (Nat.le_refl _)) h.started hcall
    refine h.same ht hstarted hobjects ?_ ?_ hreturned rfl h.handlers (Nat.le_refl _) hrows
    · show q.status.isTesting = false
      rw [htaken.status]
      exact h.production
    · intro a holder hget
      have hold : q.status.activeSubmissions.get? a = some holder := hget
      rw [htaken.status] at hold
      exact hold
  | sent hnext hid hnew => exact hqueue rfl
  | built hmem hobject => exact hqueue rfl
  | @rescheduled ref i id orig q hrec hid hr =>
    refine h.same ht ?_ (.of_eq hr.generators) ?_ ?_ hreturned rfl h.handlers (Nat.le_refl _) hrows
    · intro a g hget
      have hold : s.run.queue.generators.get? a = some g := hr.generators ▸ hget
      exact h.started a g hold
    · show q.status.isTesting = false
      rw [hr.status]
      exact h.production
    · intro a holder hget
      have hold : q.status.activeSubmissions.get? a = some holder := hget
      rw [hr.status] at hold
      exact hold
  | handled hh =>
    apply hqueue
    show InvokerRegistry.queue _ = s.run.queue
    rw [hh.same]
  | completed => cases hother
  | finished => cases hother

theorem finishSubmissionTesting (h : Sources s copied) {id : SubmissionID}
    (hex : s.finishSubmissionTesting id = .ok t) (ht : t.Inv) : Moves s copied t copied := by
  obtain ⟨run, hrun, hex⟩ := bind_eq_ok.1 hex
  cases hex
  obtain ⟨status, hstatus, hrun⟩ := bind_eq_ok.1 hrun
  cases hrun
  refine h.same ht h.started (.of_eq rfl) ?_ ?_ rfl rfl h.handlers (Nat.le_refl _)
    fun _ _ hget => .inl hget
  · exact (QueueStatus.isTesting_finishSubmissionTesting hstatus).trans h.production
  · intro a holder hget
    have hget : status.activeSubmissions.get? a = some holder := hget
    rw [QueueStatus.activeSubmissions_finishSubmissionTesting hstatus] at hget
    exact (GoMap.of_get?_delete hget).2

/-! ## Submit and JobCompleted -/

/-- One submission becomes `new`. -/
structure Changes (s t : MasterService F) (new : Submission F) : Prop where
  find : ∀ id, t.run.queue.findSubmission id =
    if id = new.id then some new else s.run.queue.findSubmission id
  grows : ∀ live, s.run.queue.findSubmission new.id = some live → live.Grows new

section Changes

variable {new : Submission F}

omit [Add F] [Min F] [Zero F] [One F] in
theorem Changes.live (hc : Changes s t new) {id : SubmissionID} {live : Submission F}
    (hget : s.run.queue.findSubmission id = some live) :
    ∃ live', t.run.queue.findSubmission id = some live' ∧ live.Grows live' := by
  rw [hc.find]
  split
  · next hid =>
    subst hid
    exact ⟨new, rfl, hc.grows live hget⟩
  · exact ⟨live, hget, .refl live⟩

omit [Add F] [Min F] [Zero F] [One F] in
/-- A holder that stays: a copy is the same, and an object grows. -/
theorem Changes.shown_kept (hc : Changes s t new) {submission live : Submission F}
    (hget : s.run.queue.findSubmission submission.id = some live)
    (hcopied : submission.id ∈ copied' ↔ submission.id ∈ copied) :
    (shown s.run.queue copied submission).Grows (shown t.run.queue copied' submission) := by
  obtain ⟨live', hlive', hle⟩ := hc.live hget
  unfold shown
  by_cases hmem : submission.id ∈ copied
  · rw [if_pos hmem, if_pos (hcopied.2 hmem)]
    exact .refl submission
  · rw [if_neg hmem, if_neg (mt hcopied.1 hmem), hget, hlive']
    exact hle

omit [Add F] [Min F] [Zero F] [One F] in
theorem Changes.shown_new (hc : Changes s t new) : shown t.run.queue copied' new = new := by
  unfold shown
  split
  · rfl
  · rw [hc.find, if_pos rfl]
    rfl

/-- The status may get the submission as it is now. -/
theorem changed (h : Sources s copied) (ht : t.Inv) (hstarted : t.run.queue.StartedEmpty)
    (hproduction : t.run.queue.status.isTesting = false)
    (hhandlers : ∀ id handler, t.handlers.get? id = some handler → handler.submission.Blank)
    (hdatabase : t.database = s.database) (hlast : t.lastID = s.lastID) (hc : Changes s t new)
    (hborn : s.run.queue.findSubmission new.id = none → new.Blank)
    (hholders : ∀ id holder, t.run.queue.status.activeSubmissions.get? id = some holder →
      holder.submission.id = id ∧ (s.run.queue.status.activeSubmissions.get? id = some holder ∧
          (id ∈ copied' ↔ id ∈ copied) ∨
        holder.submission = new ∧ ∀ live, s.run.queue.findSubmission id = some live →
          s.run.queue.status.Active id))
    (hkept : ∀ id result, s.results.get? id = some result → t.results.get? id = some result)
    (hresults : ∀ id result, t.results.get? id = some result → id ∈ t.run.returned ∧
      t.run.queue.findSubmission id = some result) : Moves s copied t copied' := by
  refine ⟨⟨ht, hstarted, hproduction, hhandlers, ?_, ?_, hresults⟩, ?_⟩
  · intro id holder hget
    obtain ⟨hid, ⟨hold, hcopied⟩ | ⟨rfl, -⟩⟩ := hholders id holder hget
    · obtain ⟨-, live₀, hlive₀, hbehind⟩ := h.holders id holder hold
      obtain ⟨live, hlive, hle⟩ := hc.live hlive₀
      exact ⟨hid, live, hlive, fun hmem => (hbehind (hcopied.1 hmem)).trans hle⟩
    · refine ⟨hid, holder.submission, ?_, fun _ => .refl holder.submission⟩
      rw [hc.find, if_pos hid.symm]
  · intro id row hget
    rw [hdatabase] at hget
    rw [hlast]
    obtain ⟨hid, hused, hcases⟩ := h.rows id row hget
    exact ⟨hid, hused, hcases.imp_right (hkept id row)⟩
  · refine ⟨fun id hused => hused.trans_eq hlast.symm, fun id live => hc.live, ?_, ?_, ?_⟩
    · intro id w hnone hget
      have hget : t.run.queue.findSubmission id = some w := hget
      rw [hc.find] at hget
      split at hget
      · next hid =>
        cases hget
        exact hborn (hid ▸ hnone)
      · cases hnone.symm.trans hget
    · intro id live w hlive hget
      obtain ⟨holder, hholder, rfl⟩ := Option.map_eq_some_iff.1 hget
      obtain ⟨rfl, ⟨hold, hcopied⟩ | ⟨rfl, hactive⟩⟩ := hholders id holder hholder
      · exact ⟨_, Option.map_eq_some_iff.2 ⟨holder, hold, rfl⟩, hc.shown_kept hlive hcopied⟩
      · obtain ⟨old, hold⟩ := hactive live hlive
        obtain ⟨live₀, hlive₀, hle₀⟩ := h.shown_grows hold
        refine ⟨_, Option.map_eq_some_iff.2 ⟨old, hold, rfl⟩, ?_⟩
        show (shown s.run.queue copied old.submission).Grows
          (shown t.run.queue copied' holder.submission)
        rw [hc.shown_new]
        exact hle₀.trans (hc.grows live₀ hlive₀)
    · intro id row _ hget _
      have hget : t.database.find id = some row := hget
      rw [hdatabase] at hget
      exact hget

end Changes

theorem submit (h : Sources s copied) {id : SubmissionID} {handler : NewSubmission F}
    (hhandler : s.handlers.get? id = some handler) {epoch : Epoch} (hex : s.submit id epoch = .ok t)
    (ht : t.Inv) : Moves s copied t copied := by
  have hblank := h.handlers id handler hhandler
  have hold := (h.service.recorded id).handled handler hhandler
  obtain ⟨-, hsubmitted⟩ := (h.service.recorded id).waiting hhandler
  have hhandlers : ∀ a handler, (s.handlers.delete id).get? a = some handler →
      handler.submission.Blank := fun a handler hget => h.handlers a handler (GoMap.of_get?_delete hget).2
  unfold MasterService.submit at hex
  rw [hhandler] at hex
  obtain ⟨submitted, hq, hex⟩ := bind_eq_ok.1 hex
  obtain ⟨run, hrun, hex⟩ := bind_eq_ok.1 hex
  unfold MasterRun.submit at hrun
  rw [hq, ok_bind] at hrun
  cases submitted with
  | error err =>
    cases hrun
    cases hex
    exact h.sameRun ht rfl rfl rfl hhandlers (Nat.le_refl _) fun _ _ hget => .inl hget
  | ok q =>
    cases hrun
    cases hex
    have hunused := h.service.run.custody.unused _ (Nat.le_refl _)
    obtain ⟨hstarted, ⟨gid, g, hgid, hset, hobject⟩, hstatus⟩ :=
      h.started.submit hunused hblank.compilation hblank.verdict hq
    have hinvariant : q.Invariant := ht.run.custody.accounted.toInvariant
    have hid : g.submission.id = id := by
      rw [hobject]
      exact hold.id_eq
    have hfind : ∀ a, q.findSubmission a =
        if a = g.submission.id then some g.submission else s.run.queue.findSubmission a := by
      apply h.queue.findSubmission_set hinvariant hset
      intro g' hget
      rw [hgid] at hget
      cases hget
    have hnone : s.run.queue.findSubmission id = none := h.findSubmission_unsubmitted hsubmitted
    rw [← hobject] at hblank
    refine h.changed ht hstarted ?_ hhandlers rfl rfl ⟨hfind, ?_⟩ (fun _ => hblank) ?_
      (fun _ _ hget => hget) ?_
    · exact (QueueStatus.isTesting_addSubmission hstatus).trans h.production
    · intro live hget
      rw [hid, hnone] at hget
      cases hget
    · intro a holder hget
      have hget : q.status.activeSubmissions.get? a = some holder := hget
      rw [QueueStatus.activeSubmissions_addSubmission hstatus] at hget
      rcases GoMap.of_get?_set hget with ⟨rfl, rfl⟩ | ⟨-, hold⟩
      · refine ⟨rfl, .inr ⟨hobject.symm, ?_⟩⟩
        intro live hlive
        rw [← hobject, hid, hnone] at hlive
        cases hlive
      · exact ⟨(h.holders a holder hold).1, .inl ⟨hold, Iff.rfl⟩⟩
    · intro a result hget
      obtain ⟨hmem, hlive⟩ := h.results a result hget
      refine ⟨hmem, ?_⟩
      rw [hfind, if_neg]
      · exact hlive
      · rintro rfl
        rw [hid, hnone] at hlive
        cases hlive

/-- A result copies the submission that its generator publishes. -/
theorem mem_copiedAfter {k : Nat} {result : InvokerJobResult F}
    (hresult : s.run.accepted[k]? = some result) (epoch : Epoch) (id : SubmissionID) :
    id ∈ copiedAfter s copied (.jobCompleted k epoch) ↔
      (∃ published, s.run.queue.publishedBy result = some published ∧ id = published.id) ∨
        id ∈ copied := by
  have hbind : s.run.accepted[k]?.bind s.run.queue.publishedBy = s.run.queue.publishedBy result := by
    rw [hresult, Option.bind_some]
  unfold copiedAfter
  simp only [hbind]
  cases s.run.queue.publishedBy result with
  | none => simp
  | some published => simp

/-- A result changes the submission of its job, and the results may get that submission. -/
theorem completed (h : Sources s copied) {k : Nat} {result : InvokerJobResult F}
    (hresult : s.run.accepted[k]? = some result) {epoch : Epoch} (ht : t.Inv)
    {returned : Except String (Option (Submission F))}
    (hgrown : s.run.queue.Grown result epoch t.run.queue returned)
    {gid : GeneratorID} {g : Generator F} {c : Completed (Generator F) F}
    (hg : s.run.queue.generators.get? gid = some g) (hrunning : ¬ g.Finished) (hadvances : g.Advances c)
    (hset : t.run.queue.generators = s.run.queue.generators.set gid c.generator)
    (hpublished : s.run.queue.publishedBy result = c.published) (hhandlers : t.handlers = s.handlers)
    (hdatabase : t.database = s.database) (hlast : t.lastID = s.lastID)
    (hkept : ∀ id r, s.results.get? id = some r → t.results.get? id = some r)
    (hresults : ∀ id r, t.results.get? id = some r → id ∈ t.run.returned ∧
      (s.results.get? id = some r ∨ id = c.generator.submission.id ∧ r = c.generator.submission)) :
    Moves s copied t (copiedAfter s copied (.jobCompleted k epoch)) := by
  have hsame := hadvances.grows.id
  have hlive : s.run.queue.findSubmission c.generator.submission.id = some g.submission :=
    h.queue.findSubmission_iff.2 ⟨gid, g, hg, rfl, hsame.symm⟩
  have hfind : ∀ id, t.run.queue.findSubmission id =
      if id = c.generator.submission.id then some c.generator.submission
      else s.run.queue.findSubmission id := by
    apply h.queue.findSubmission_set ht.run.custody.accounted.toInvariant hset
    intro g' hg'
    obtain rfl := Option.some.inj (hg'.symm.trans hg)
    exact hsame.symm
  have hcopied : ∀ id, id ∈ copiedAfter s copied (.jobCompleted k epoch) ↔ _ :=
    mem_copiedAfter hresult epoch
  obtain ⟨hproduction, hholders⟩ := Queue.publish_holders h.production hgrown.status
  rw [hpublished] at hcopied hholders
  refine h.changed ht hgrown.started hproduction ?_ hdatabase hlast ⟨hfind, ?_⟩ ?_ ?_ hkept ?_
  · rw [hhandlers]
    exact h.handlers
  · intro live hget
    obtain rfl := Option.some.inj (hget.symm.trans hlive)
    exact hadvances.grows
  · intro hnone
    cases hlive.symm.trans hnone
  · intro id holder hget
    rcases hholders id holder hget with ⟨hold, hother⟩ | ⟨hnew, rfl, hactive⟩
    · refine ⟨(h.holders id holder hold).1, .inl ⟨hold, (hcopied id).trans (or_iff_right ?_)⟩⟩
      rintro ⟨published, hpub, hid⟩
      exact hother published hpub hid
    · exact ⟨rfl, .inr ⟨hadvances.published _ hnew, fun _ _ => hactive⟩⟩
  · intro id r hget
    obtain ⟨hmem, hcases⟩ := hresults id r hget
    refine ⟨hmem, ?_⟩
    rw [hfind]
    rcases hcases with hold | ⟨hid, rfl⟩
    · rw [if_neg]
      · exact (h.results id r hold).2
      · rintro rfl
        rw [hsame] at hold
        exact h.results_running hg hrunning hold
    · rw [if_pos hid]

theorem jobCompleted (h : Sources s copied) {k : Nat} {result : InvokerJobResult F}
    (hresult : s.run.accepted[k]? = some result) {epoch : Epoch} (hex : s.jobCompleted k epoch = .ok t)
    (ht : t.Inv) : Moves s copied t (copiedAfter s copied (.jobCompleted k epoch)) := by
  obtain ⟨⟨orig, -, hid⟩, -⟩ := h.service.run.accepted hresult
  unfold MasterService.jobCompleted at hex
  rw [hresult] at hex
  obtain ⟨⟨q, submission⟩, hq, hcall⟩ := bind_eq_ok.1 hex
  obtain ⟨run, hrun, hsaved⟩ := bind_eq_ok.1 hcall
  have hgrown := h.queue.jobCompleted_grown h.started hid hq
  have hlists := MasterRun.jobCompleted_submissions hresult hq hrun
  obtain rfl : run.queue = q := MasterRun.jobCompleted_queue hresult hq hrun
  obtain ⟨gid, g, c, hg, hrunning, hadvances, hset, hpublished, rfl⟩ := hgrown.object
  rcases hlists with ⟨returned, hreturned, -, hreturned', -⟩ | ⟨hnone, hlists⟩
  · rw [hreturned] at hsaved
    cases hsaved
    obtain rfl : returned = c.generator.submission := hadvances.returned returned hreturned
    refine h.completed hresult ht hgrown hg hrunning hadvances hset hpublished rfl rfl rfl ?_ ?_
    · intro id r hget
      have hne : id ≠ c.generator.submission.id := by
        rintro rfl
        rw [hadvances.grows.id] at hget
        exact h.results_running hg hrunning hget
      rw [GoMap.get?_set_ne _ _ hne]
      exact hget
    · intro id r hget
      rw [hreturned', List.mem_cons]
      rcases GoMap.of_get?_set hget with ⟨hid, hr⟩ | ⟨-, hold⟩
      · exact ⟨.inl hid, .inr ⟨hid, hr⟩⟩
      · exact ⟨.inr (h.results id r hold).1, .inl hold⟩
  · have hsame : t = { s with run := run } := by
      split at hsaved
      · next returned heq => exact absurd heq (hnone returned)
      · cases hsaved
        rfl
      · cases hsaved
        rfl
    subst hsame
    refine h.completed hresult ht hgrown hg hrunning hadvances hset hpublished rfl rfl rfl
      (fun _ _ hget => hget) ?_
    intro id r hget
    rw [hlists.returned]
    exact ⟨(h.results id r hget).1, .inl hget⟩

theorem step (h : Sources s copied) {a : MasterServiceStep F} (hen : s.enabled a)
    (hex : s.exec a = .ok t) : Moves s copied t (copiedAfter s copied a) := by
  have ht : t.Inv := h.service.step hen hex
  cases a with
  | saveSubmissionInDB problem file call =>
    cases hex
    exact h.saveSubmissionInDB ht
  | saveSubmissionInStorage id call =>
    cases hex
    exact h.saveSubmissionInStorage ht
  | submit id epoch =>
    obtain ⟨handler, hhandler, -⟩ := hen
    exact h.submit hhandler hex ht
  | removeSubmissionFromDB id call =>
    cases hex
    exact h.removeSubmissionFromDB ht
  | removeSubmissionFromStorage id call =>
    cases hex
    exact h.removeSubmissionFromStorage ht
  | saveResult id call =>
    obtain ⟨submission, hget⟩ := hen
    cases hex
    exact h.saveResult hget ht
  | finishSubmissionTesting id => exact h.finishSubmissionTesting hex ht
  | jobCompleted k epoch =>
    obtain ⟨result, hresult⟩ := hen
    exact h.jobCompleted hresult hex ht
  | other step => exact h.other hen.1 hen.2 hex ht

theorem of_new : Sources (.new : MasterService F) [] where
  service := MasterService.inv_new
  started gid g hget := by cases hget
  production := rfl
  handlers id handler hget := by cases hget
  holders id holder hget := by cases hget
  rows id row hget := by cases hget
  results id result hget := by cases hget

end Sources

/-! ## Runs -/

/-- The invariant of the API server. -/
structure Inv (a : ApiService F) : Prop where
  sources : Sources a.service a.copied
  viewer : a.viewer.Inv scheme (owner a.service a.copied)

variable {a b : ApiService F}

omit [Add F] [Min F] [Zero F] [One F] in
theorem mem_updatedSince {q : QueueStatus F} {prevEpoch : Option Epoch} {ids : List SubmissionID}
    {submissions : List (Submission F)} (he : q.updatedSince prevEpoch ids = .ok submissions) :
    ∀ s ∈ submissions, ∃ id holder, q.activeSubmissions.get? id = some holder ∧
      holder.submission = s := by
  induction ids generalizing submissions with
  | nil =>
    cases he
    intro s hmem
    cases hmem
  | cons id ids ih =>
    obtain ⟨holder, hholder, he⟩ := bind_eq_ok.1 he
    split at he
    · cases he
      intro s hmem
      cases hmem
    · obtain ⟨rest, hrest, he⟩ := bind_eq_ok.1 he
      cases he
      intro s hmem
      rcases List.mem_cons.1 hmem with rfl | hmem
      · exact ⟨id, holder, deref_ok hholder, rfl⟩
      · exact ih hrest s hmem

theorem Inv.getStatus (h : a.Inv) {epoch : Epoch} (hex : a.exec (.getStatus epoch) = .ok b) : b.Inv := by
  obtain ⟨response, hcall, hex⟩ := bind_eq_ok.1 hex
  cases hex
  obtain ⟨updated, hupdated, hcall⟩ := bind_eq_ok.1 hcall
  cases hcall
  refine ⟨h.sources, h.viewer.poll h.sources.sound ?_⟩
  intro e hmem
  obtain ⟨submission, hsubmission, rfl⟩ := List.mem_map.1 hmem
  obtain ⟨id, holder, hholder, rfl⟩ := mem_updatedSince hupdated submission hsubmission
  obtain ⟨live, hlive, hle⟩ := h.sources.shown_grows hholder
  have hid : (shown a.queue a.copied holder.submission).id = id := by
    rw [← hle.id]
    exact h.sources.sound.live id live hlive
  show Option.map _ (a.queue.status.activeSubmissions.get? (shown a.queue a.copied _).id) = _
  rw [hid, hholder]
  rfl

omit [Add F] [Min F] [Zero F] [One F] in
theorem merge_cases (updated : List (Submission F)) (m : GoMap SubmissionID (Submission F))
    (id : SubmissionID) : (MasterStatus.merge updated m).get? id = m.get? id ∨
      ∃ e ∈ updated, e.id = id ∧ (MasterStatus.merge updated m).get? id = some e := by
  induction updated generalizing m with
  | nil => exact .inl rfl
  | cons head rest ih =>
    unfold MasterStatus.merge
    rcases ih (m.set head.id head) with hold | ⟨e, hmem, hid, hget⟩
    · by_cases hid : id = head.id
      · subst hid
        rw [GoMap.get?_set_self] at hold
        exact .inr ⟨head, List.mem_cons_self, rfl, hold⟩
      · rw [GoMap.get?_set_ne _ _ hid] at hold
        exact .inl hold
    · exact .inr ⟨e, List.mem_cons_of_mem _ hmem, hid, hget⟩

theorem Inv.updateStatus (h : a.Inv) (lost : Bool) {response : MasterStatusResponse F}
    (hresponse : a.response = some response) (hex : a.exec (.updateStatus lost) = .ok b) : b.Inv := by
  cases hex
  refine ⟨h.sources, h.viewer.deliver h.sources.sound ?_⟩
  intro id
  cases lost with
  | true => exact .inl rfl
  | false =>
    unfold ApiService.viewer MasterStatus.updateStatus
    rw [hresponse]
    exact merge_cases response.updatedSubmissions a.client.submissions id

theorem Inv.step (h : a.Inv) {step : ApiStep F} (hen : a.enabled step) (hex : a.exec step = .ok b) :
    b.Inv := by
  cases step with
  | service step =>
    obtain ⟨service, hservice, hex⟩ := bind_eq_ok.1 hex
    cases hex
    have hmoves := h.sources.step hen hservice
    exact ⟨hmoves.sources, h.viewer.advances hmoves.advances hmoves.sources.sound⟩
  | getStatus epoch => exact h.getStatus hex
  | updateStatus lost =>
    obtain ⟨response, hresponse⟩ := hen
    exact h.updateStatus lost hresponse hex
  | findRow id =>
    obtain ⟨row, hrow⟩ := hen
    unfold exec at hex
    dsimp only at hex
    rw [hrow] at hex
    cases hex
    exact ⟨h.sources, h.viewer.read h.sources.sound hrow⟩
  | getSubmission k =>
    obtain ⟨reading, hreading⟩ := hen
    unfold exec at hex
    dsimp only at hex
    rw [hreading] at hex
    dsimp only at hex
    rw [getSubmission_eq] at hex
    cases hex
    refine ⟨h.sources, h.viewer.reply h.sources.sound (List.mem_of_getElem? hreading) ?_⟩
    exact fun _ hmem => List.mem_of_mem_eraseIdx hmem

theorem inv_new : Inv (new : ApiService F) := ⟨.of_new, Viewer.inv_new⟩

theorem inv {ok : ApiService F → ApiStep F → Prop} (h : machine.Reachable ok a) : a.Inv := by
  refine h.invariant ?_ ?_
  · rintro a rfl
    exact inv_new
  · intro a step b ha _ hen hex
    exact ha.step hen hex

/-- What a running `GetSubmission` will reply is no earlier state of the submission than any reply that
was given before it read its row, and the result of testing is no earlier state than any reply. -/
theorem replies_grow (h : machine.Reachable Machine.always a) :
    (∀ reading ∈ a.reads, ∀ reply ∈ reading.earlier, reply.id = reading.row.id →
      reply.Grows (a.client.getSubmission reading.row)) ∧
    ∀ reply ∈ a.replies, ∀ result, a.service.results.get? reply.id = some result →
      reply.Grows result := by
  have hi := inv h
  constructor
  · intro reading hmem reply hreply hid
    rw [getSubmission_eq]
    exact (hi.viewer.readings reading hmem).2 reply hreply hid
  · intro reply hmem result hget
    exact (hi.viewer.replies reply hmem).live result (hi.sources.results reply.id result hget).2

/-- A submission is compiled, and the status still has its first pointer. The first reply shows the
compilation, and a second call has read the row. -/
theorem replies_grow_after_compilation : ∃ (a : ApiService Int) (reply row : Submission Int),
    ⟨row, [reply]⟩ ∈ a.reads ∧ reply.compilationResult.isSome = true ∧ row.compilationResult = none ∧
      reply.Grows (a.client.getSubmission row) := by
  have hr := Machine.Reachable.of_runs (machine (F := Int)) Machine.always
    [.service (.saveSubmissionInDB GeneratorRun.twoTests [] ⟨true, true, id⟩),
      .service (.saveSubmissionInStorage 1 ⟨true, true, id⟩), .service (.submit 1 0),
      .service (.other (.upsertInvoker MasterRun.oneJob id)), .service (.other .takeNextJob),
      .service (.other (.trySendJob 1)),
      .service (.other (.handleInvokerJobResult (GeneratorRun.resultOf 2 .CD none))),
      .service (.other (.upsertAfterResult 0 id)), .service (.jobCompleted 0 1), .getStatus 2,
      .updateStatus false, .findRow 1, .getSubmission 0, .findRow 1]
    (.of_init rfl)
    ⟨trivial, trivial, _, rfl, trivial, ⟨_, rfl, rfl⟩, _, rfl, trivial, ⟨_, rfl, rfl⟩, _, rfl,
      trivial, ⟨rfl, fun ids => .refl ids⟩, _, rfl, trivial, ⟨rfl, trivial⟩, _, rfl,
      trivial, ⟨rfl, List.mem_cons_self⟩, _, rfl, trivial, ⟨rfl, trivial⟩, _, rfl,
      trivial, ⟨rfl, ⟨_, rfl⟩, fun ids => .refl ids⟩, _, rfl, trivial, ⟨_, rfl⟩, _, rfl,
      trivial, rfl, _, rfl, trivial, ⟨_, rfl⟩, _, rfl, trivial, ⟨_, rfl⟩, _, rfl,
      trivial, ⟨_, rfl⟩, _, rfl, trivial, ⟨_, rfl⟩, _, rfl, rfl⟩
  have hgrows := (replies_grow hr).1 _ List.mem_cons_self _ List.mem_cons_self rfl
  exact ⟨_, _, _, List.mem_cons_self, rfl, rfl, hgrows⟩

end ApiService

end TestingSystem
