import TestingSystem.Master.Registry.Link

/-!
# No false failures

Whatever the order of the messages is, the type of a job follows its life in the process: a `TestingJob`
was inserted before the status that the master has, a `NoReplyJob` was also deleted before it (`Seen`).
So no newer status has a `NoReplyJob` again, and a `completeSendJob` finds its job in sending or not at
all (`messages_never_fail`).
-/

set_option autoImplicit false

namespace TestingSystem

/-- The types of the jobs agree with what had happened when the status `e` was taken. -/
def Invoker.Seen (i : Invoker) (t : Timeline JobID Epoch) (e : Epoch) : Prop :=
  ∀ id holder, i.jobHolderByID.get? id = some holder →
    (holder.jobType = .testingJob → t.EnteredBefore id e) ∧
      (holder.jobType = .noReplyJob → t.LeftBefore id e)

namespace Invoker

variable {i i' : Invoker} {t : Timeline JobID Epoch} {e e' : Epoch} {id : JobID} {status : Status}

theorem Seen.mono (h : i.Seen t e) (hle : e ≤ e') : i.Seen t e' := fun id holder hget =>
  ⟨fun ht => ((h id holder hget).1 ht).mono hle, fun ht => ((h id holder hget).2 ht).mono hle⟩

theorem setJobType_eq {jobType : HolderType} (h : i.setJobType id jobType = .ok i') :
    ∃ holder, i.jobHolderByID.get? id = some holder ∧
      i'.jobHolderByID = i.jobHolderByID.set id { holder with jobType := jobType } ∧
      i'.failed = i.failed ∧ i'.status = i.status := by
  unfold setJobType at h
  cases hget : i.jobHolderByID.get? id with
  | none =>
    rw [hget] at h
    cases h
  | some holder =>
    rw [hget] at h
    obtain rfl := Except.ok.inj h
    exact ⟨holder, rfl, rfl, rfl, rfl⟩

/-- A job gets a type that agrees with its life. -/
theorem Seen.setJobType (h : i.Seen t e) {jobType : HolderType}
    (he : i.setJobType id jobType = .ok i') (ht : jobType = .testingJob → t.EnteredBefore id e)
    (hn : jobType = .noReplyJob → t.LeftBefore id e) : i'.Seen t e := by
  obtain ⟨holder, hget, hset, -⟩ := setJobType_eq he
  intro x other hx
  rw [hset] at hx
  rcases GoMap.of_get?_set hx with ⟨heq, rfl⟩ | ⟨-, hx⟩
  · subst heq
    exact ⟨ht, hn⟩
  · exact h x other hx

/-- The loop of `updateStatus` marks nothing failed. -/
theorem Seen.updateJobs (h : i.Seen t status.epoch) (hst : t.Shows status.epoch status.activeJobIDs)
    {ids : List JobID} (he : updateJobs status ids i = .ok i') :
    i'.Seen t status.epoch ∧ i'.failed = i.failed := by
  induction ids generalizing i with
  | nil =>
    obtain rfl := Except.ok.inj he
    exact ⟨h, rfl⟩
  | cons id rest ih =>
    have htype : ∀ {jobType : HolderType}, i.getJobType id = jobType → jobType ≠ .unknownJob →
        ∃ holder, i.jobHolderByID.get? id = some holder ∧ holder.jobType = jobType := by
      intro jobType hj hne
      cases hget : i.jobHolderByID.get? id with
      | none =>
        simp only [getJobType, hget] at hj
        exact absurd hj.symm hne
      | some holder =>
        simp only [getJobType, hget] at hj
        exact ⟨holder, rfl, hj⟩
    unfold Invoker.updateJobs at he
    cases hj : i.getJobType id with
    | sendingJob =>
      simp only [hj] at he
      exact ih h he
    | testingJob =>
      simp only [hj] at he
      obtain ⟨holder, hget, hholder⟩ := htype hj (by simp)
      split at he
      · exact ih h he
      · next hmissing =>
        have hmem : id ∉ status.activeJobIDs := by simpa [isJobTesting] using hmissing
        have hleft := hst.left_of_missing ((h id holder hget).1 hholder) hmem
        cases hset : i.setJobType id .noReplyJob with
        | error p =>
          rw [hset] at he
          cases he
        | ok i₁ =>
          rw [hset, ok_bind] at he
          have hseen : i₁.Seen t status.epoch :=
            h.setJobType hset (fun heq => by cases heq) fun _ => hleft
          obtain ⟨hseen', hfailed⟩ := ih (i := { i₁ with timers := i₁.timers ++ [id] }) hseen he
          obtain ⟨-, -, -, hsame, -⟩ := setJobType_eq hset
          exact ⟨hseen', hfailed.trans hsame⟩
    | noReplyJob =>
      simp only [hj] at he
      obtain ⟨holder, hget, hholder⟩ := htype hj (by simp)
      -- the job had left, so a status that is not older does not show it
      have hmem := hst.missing_of_left ((h id holder hget).2 hholder) le_rfl
      rw [if_neg (by simpa [isJobTesting] using hmem)] at he
      exact ih h he
    | unknownJob =>
      simp only [hj] at he
      cases he

/-- `updateStatus` marks no invoker failed that agrees with the later one of its status and the new
one. -/
theorem Seen.updateStatus
    (hold : i.failed = false → status.epoch ≤ i.status.epoch → i.Seen t i.status.epoch)
    (hnew : i.failed = false → i.status.epoch < status.epoch → i.Seen t status.epoch)
    (hst : t.Shows status.epoch status.activeJobIDs) {order : RangeOrder}
    (he : i.updateStatus status order = .ok i') :
    i'.failed = i.failed ∧ (i'.failed = false → i'.Seen t (i.statusAfter (some status)).epoch) := by
  unfold Invoker.updateStatus at he
  rw [statusAfter]
  split at he
  · next hstale =>
    obtain rfl := Except.ok.inj he
    rw [if_pos hstale]
    exact ⟨rfl, fun hf => hold hf (hstale.resolve_left (by simp [hf]))⟩
  · next hfresh =>
    rw [if_neg hfresh]
    rw [not_or, Bool.not_eq_true, ge_iff_le, not_le] at hfresh
    have hseen : Seen { i with status := status } t status.epoch := hnew hfresh.1 hfresh.2
    obtain ⟨hseen', hfailed⟩ := hseen.updateJobs hst he
    exact ⟨hfailed, fun _ => hseen'⟩

/-- So does `completeSendJob`: the job had entered when the answer was taken, be that before or after
the status that the master has. -/
theorem Seen.completeSendJob (h : i.failed = false → i.Seen t i.status.epoch)
    (hst : t.Shows status.epoch status.activeJobIDs)
    (hentered : i.failed = false → t.EnteredBefore id status.epoch) {order : RangeOrder}
    (he : i.completeSendJob id (some status) order = .ok i') :
    i'.failed = i.failed ∧ (i'.failed = false → i'.Seen t (i.statusAfter (some status)).epoch) := by
  unfold Invoker.completeSendJob at he
  cases hj : i.getJobType id with
  | sendingJob =>
    simp only [hj] at he
    cases hset : i.setJobType id .testingJob with
    | error p =>
      rw [hset] at he
      cases he
    | ok i₁ =>
      rw [hset, ok_bind] at he
      obtain ⟨-, -, -, hfailed, hstatus⟩ := setJobType_eq hset
      have hafter : i₁.statusAfter (some status) = i.statusAfter (some status) := by
        simp only [statusAfter, hfailed, hstatus]
      have hretyped : ∀ e, i.failed = false → i.status.epoch ≤ e → status.epoch ≤ e →
          i₁.Seen t e := fun e hf hle hle' =>
        ((h hf).mono hle).setJobType hset (fun _ => (hentered hf).mono hle') fun heq => by cases heq
      rw [← hafter, ← hfailed]
      refine Seen.updateStatus (fun hf hle => ?_) (fun hf hlt => ?_) hst he
      · rw [hstatus] at hle ⊢
        exact hretyped _ (hfailed ▸ hf) le_rfl hle
      · rw [hstatus] at hlt
        exact hretyped _ (hfailed ▸ hf) hlt.le le_rfl
  | testingJob =>
    simp only [hj] at he
    cases he
  | noReplyJob =>
    simp only [hj] at he
    cases he
  | unknownJob =>
    simp only [hj] at he
    exact Seen.updateStatus (fun hf _ => h hf) (fun hf hlt => (h hf).mono hlt.le) hst he

theorem trySendJob_eq {job : JobRef} (h : i.trySendJob job id = (true, i')) :
    i'.jobHolderByID = i.jobHolderByID.set id { job := job, jobType := .sendingJob } := by
  unfold trySendJob at h
  split at h
  · cases h
  · obtain ⟨-, rfl⟩ := Prod.mk.inj h
    rfl

theorem jobTested_eq {tested : Bool} (h : i.jobTested id = .ok (tested, i')) :
    ∀ x holder, i'.jobHolderByID.get? x = some holder → i.jobHolderByID.get? x = some holder := by
  unfold jobTested at h
  split at h
  · obtain ⟨-, rfl⟩ := Prod.mk.inj (Except.ok.inj h)
    exact fun _ _ hx => hx
  · cases hget : i.jobHolderByID.get? id with
    | none =>
      simp only [removeJob, hget, error_bind] at h
      cases h
    | some holder =>
      simp only [removeJob, hget, ok_bind] at h
      obtain ⟨-, rfl⟩ := Prod.mk.inj (Except.ok.inj h)
      exact fun _ _ hx => (GoMap.of_get?_delete hx).2

theorem Seen.timeline {t' : Timeline JobID Epoch} (h : i.Seen t e)
    (hentered : ∀ id, t.EnteredBefore id e → t'.EnteredBefore id e)
    (hleft : ∀ id, t.LeftBefore id e → t'.LeftBefore id e) : i.Seen t' e := fun id holder hget =>
  ⟨fun ht => hentered id ((h id holder hget).1 ht), fun ht => hleft id ((h id holder hget).2 ht)⟩

theorem statusAfter_mem {statuses : List Status} (h : i.status ∈ statuses)
    {response : Option Status} (hr : ∀ status, response = some status → status ∈ statuses) :
    i.statusAfter response ∈ statuses := by
  cases response with
  | none => exact h
  | some status =>
    simp only [statusAfter]
    split
    · exact h
    · exact hr status rfl

end Invoker

/-! ## Runs -/

/-- The status that a step brings to the master. -/
def LinkStep.delivers : LinkStep → Option Status
  | .completeSendJob _ _ _ response _ | .ping response _ => response
  | .verifyAndUpdateStatus status _ => some status
  | _ => none

namespace Link

variable {s s' : Link}

structure Inv (s : Link) : Prop where
  process : s.process.WellFormed
  coherent : s.invoker.Coherent
  status : s.invoker.status ∈ s.process.statuses
  held : ∀ id, s.invoker.Holds id → id ∈ s.sent
  pending : ∀ job id, (job, id) ∈ s.pending →
    id ∈ s.sent ∧ (s.invoker.Holds id → id ∈ sendingIDs s.invoker.jobHolderByID)
  once : (s.pending.map Prod.snd).Nodup
  extracted : Extracted s.invoker → ∀ id, ¬ s.invoker.Holds id
  seen : s.invoker.failed = false →
    s.invoker.Seen s.process.timeline s.invoker.status.epoch

theorem Inv.init (h : machine.init s) : s.Inv := by
  obtain ⟨hp, status, hmem, heq⟩ := h
  rw [heq]
  refine ⟨hp, Invoker.coherent_new status, hmem, fun id ⟨_, hget⟩ => (nomatch hget),
    fun job id hmem => (nomatch hmem), List.nodup_nil, fun hex => ?_,
    fun _ _ _ hget => (nomatch hget)⟩
  rcases hex with ⟨jobs, hj⟩ | hf
  · cases hj
  · cases hf

theorem Inv.not_extracted (h : s.Inv) (hf : s.invoker.failed = false) : ¬ Extracted s.invoker := by
  have hnot := h.coherent.healthy hf
  rintro (⟨jobs, hj⟩ | hfin)
  · exact absurd (hnot.symm.trans hj) (by simp)
  · exact absurd (hnot.symm.trans hfin) (by simp)

/-- The process goes on; what had happened before the last status stays as it was. -/
theorem Inv.setProcess (h : s.Inv) {p : InvokerProcess} (hp : p.WellFormed)
    (hstatuses : ∀ status ∈ s.process.statuses, status ∈ p.statuses)
    (hentered : ∀ id e, s.process.timeline.EnteredBefore id e → p.timeline.EnteredBefore id e)
    (hleft : ∀ id e, s.process.timeline.LeftBefore id e → p.timeline.LeftBefore id e)
    (requests : List JobID) : Inv { s with process := p, requests := requests } :=
  ⟨hp, h.coherent, hstatuses _ h.status, h.held, h.pending, h.once, h.extracted, fun hf =>
    (h.seen hf).timeline (fun id => hentered id _) fun id => hleft id _⟩

theorem Inv.insert (h : s.Inv) {id : JobID} (hnew : s.process.timeline.entered id = none) :
    Inv { s with process := s.process.insert id, requests := s.requests.erase id } :=
  h.setProcess (h.process.insert hnew) (fun _ hmem => hmem)
    (fun _ _ he => (Timeline.enteredBefore_enter hnew).2 (.inl he)) (fun _ _ hl => hl) _

theorem Inv.delete (h : s.Inv) {id : JobID} (hactive : id ∈ s.process.activeJobs) :
    Inv { s with process := s.process.delete id } :=
  h.setProcess (h.process.delete hactive) (fun _ hmem => hmem) (fun _ _ he => he)
    (fun _ _ hl => (Timeline.leftBefore_leave ((h.process.active id).1 hactive).2).2 (.inl hl))
    s.requests

theorem Inv.getStatus (h : s.Inv) {epoch : Epoch} (hnew : s.process.epoch < epoch)
    {order : RangeOrder} (ho : ∀ ids, (order ids).Perm ids) :
    Inv { s with process := s.process.getStatus epoch order } :=
  h.setProcess (h.process.getStatus hnew ho) (fun _ hmem => List.mem_cons_of_mem _ hmem)
    (fun _ _ he => he) (fun _ _ hl => hl) s.requests

/-- A section that takes no job; some `completeSendJob` may end with it. -/
theorem Inv.receive (h : s.Inv) {i : Invoker} (hk : s.invoker.Kept i)
    (hstatus : i.status ∈ s.process.statuses) {pending : List (JobRef × JobID)}
    (hsub : pending.Sublist s.pending)
    (hsending : ∀ job id, (job, id) ∈ pending → id ∈ sendingIDs s.invoker.jobHolderByID →
      id ∈ sendingIDs i.jobHolderByID)
    (hseen : i.failed = false → i.Seen s.process.timeline i.status.epoch) (sends : List JobRef)
    (timers : List JobID) :
    Inv { s with invoker := { i with sends := sends, timers := timers }, pending := pending } := by
  refine ⟨h.process, ⟨hk.coherent.known, hk.coherent.healthy⟩, hstatus,
    fun id hid => h.held id ((hk.holds id).1 hid), fun job id hmem => ?_,
    (hsub.map Prod.snd).nodup h.once, fun hex id hid => ?_, hseen⟩
  · obtain ⟨hsent, hheld⟩ := h.pending job id (hsub.subset hmem)
    exact ⟨hsent, fun hid => hsending job id hmem (hheld ((hk.holds id).1 hid))⟩
  · have hfailed : s.invoker.failed = true := by
      by_contra hf
      rw [Bool.not_eq_true] at hf
      have hfailure : i.failure = .notStarted ∨ i.failure = .started := by
        cases hf' : i.failed with
        | false => exact .inl (hk.coherent.healthy hf')
        | true => exact .inr (hk.fails hf hf')
      rcases hex with ⟨jobs, hj⟩ | hfin
      · rcases hfailure with hn | hn <;> exact absurd (hn.symm.trans hj) (by simp)
      · rcases hfailure with hn | hn <;> exact absurd (hn.symm.trans hfin) (by simp)
    have hsame : i.failure = s.invoker.failure := (hk.failed hfailed).2
    refine h.extracted ?_ id ((hk.holds id).1 hid)
    unfold Extracted at hex ⊢
    rwa [← hsame]

/-- A section that only reads a status or marks the invoker failed. -/
theorem Inv.observe (h : s.Inv) {i : Invoker} (ho : s.invoker.Observed i)
    (hstatus : i.status ∈ s.process.statuses)
    (hseen : i.failed = false → i.Seen s.process.timeline i.status.epoch) :
    Inv { s with invoker := i } :=
  h.receive ho.toKept hstatus (List.Sublist.refl _) (fun _ id _ hid => (ho.sending id).2 hid) hseen
    i.sends i.timers

theorem Inv.markFailed (h : s.Inv) : Inv { s with invoker := s.invoker.markFailed } := by
  obtain ⟨ho, hs, hf⟩ := h.coherent.markFailed
  exact h.observe ho (hs ▸ h.status) fun hf' => absurd (hf.symm.trans hf') (by simp)

/-- A status that was taken arrives. -/
theorem Inv.updateStatus (h : s.Inv) {status : Status} (hmem : status ∈ s.process.statuses)
    {order : RangeOrder} (ho : ∀ ids, (order ids).Perm ids) :
    ∃ i, s.invoker.updateStatus status order = .ok i ∧ Inv { s with invoker := i } ∧
      i.failed = s.invoker.failed := by
  obtain ⟨i, he, hobs, hs⟩ := h.coherent.updateStatus ho status
  obtain ⟨hfailed, hseen⟩ := Invoker.Seen.updateStatus (fun hf _ => h.seen hf)
    (fun hf hlt => (h.seen hf).mono hlt.le) (h.process.took status hmem).shows he
  rw [← hs] at hseen
  refine ⟨i, he, h.observe hobs ?_ hseen, hfailed⟩
  rw [hs]
  exact Invoker.statusAfter_mem h.status fun st heq => Option.some.inj heq ▸ hmem

/-- The answer to a `NewJob` request arrives. -/
theorem Inv.completeSendJob (h : s.Inv) {job : JobRef} {id current : JobID}
    {response : Option Status} {order : RangeOrder}
    (hen : s.enabled (.completeSendJob job id current response order)) :
    ∃ s', s.exec (.completeSendJob job id current response order) = .ok s' ∧ s'.Inv ∧
      (response.isSome → s'.invoker.failed = s.invoker.failed) := by
  obtain ⟨hmem, ho, hstatuses, hlive⟩ := hen
  obtain ⟨-, hheld⟩ := h.pending job id hmem
  have hspec := h.coherent.completeSendJob ho current response
  have hnodup := h.once
  have hother : ∀ job' id', (job', id') ∈ s.pending.erase (job, id) → id' ≠ id := by
    intro job' id' hmem' heq
    have hperm := (List.perm_cons_erase hmem).map Prod.snd
    rw [hperm.nodup_iff, List.map_cons, List.nodup_cons] at hnodup
    have hin : id' ∈ (s.pending.erase (job, id)).map Prod.snd :=
      List.mem_map_of_mem (f := Prod.snd) hmem'
    rw [heq] at hin
    exact hnodup.1 hin
  cases he : s.invoker.completeSendJob current response order with
  | error p =>
    obtain ⟨-, hcurrent, hnot⟩ := hspec.failure he
    obtain ⟨rfl, -⟩ := hlive fun hex => h.extracted hex current hcurrent
    exact absurd (hheld hcurrent) hnot
  | ok i =>
    obtain ⟨hk, hs, hsending⟩ := hspec.value he
    have hkeep : ∀ job' id', (job', id') ∈ s.pending.erase (job, id) →
        id' ∈ sendingIDs s.invoker.jobHolderByID → id' ∈ sendingIDs i.jobHolderByID := by
      intro job' id' hmem' hid'
      refine (hsending id').2 ⟨hid', .inr ?_⟩
      rintro rfl
      have hholds : s.invoker.Holds id' := by
        obtain ⟨holder, hget, -⟩ := Option.map_eq_some_iff.1 (mem_sendingIDs.1 hid')
        exact ⟨holder, hget⟩
      have hnot : ¬ Extracted s.invoker := fun hex => h.extracted hex id' hholds
      exact hother job' id' hmem' (hlive hnot).1
    have hseen : (i.failed = false → i.Seen s.process.timeline i.status.epoch) ∧
        (response.isSome → i.failed = s.invoker.failed) := by
      cases response with
      | none =>
        obtain rfl := Except.ok.inj he
        have hf := h.coherent.markFailed.2.2
        exact ⟨fun hf' => absurd (hf.symm.trans hf') (by simp), fun hsome => nomatch hsome⟩
      | some status =>
        have hentered : s.invoker.failed = false →
            s.process.timeline.EnteredBefore current status.epoch := by
          intro hf
          obtain ⟨heq, hafter⟩ := hlive (h.not_extracted hf)
          exact heq ▸ hafter status rfl
        obtain ⟨hfailed, hseen⟩ := Invoker.Seen.completeSendJob h.seen
          (h.process.took status (hstatuses status rfl)).shows hentered he
        exact ⟨hs ▸ hseen, fun _ => hfailed⟩
    refine ⟨_, by simp only [exec, he, ok_bind]; rfl, h.receive hk ?_ List.erase_sublist hkeep
      hseen.1 (i.sends.erase job) i.timers, hseen.2⟩
    rw [hs]
    exact Invoker.statusAfter_mem h.status hstatuses

theorem Inv.trySendJob (h : s.Inv) (job : JobRef) {id : JobID} (hnew : id ∉ s.sent) :
    ∃ s', s.exec (.trySendJob job id) = .ok s' ∧ s'.Inv := by
  rcases h.coherent.trySendJob job id with he | ⟨i, he, hsent⟩
  · exact ⟨s, by simp only [exec, he], h⟩
  have hexec : s.exec (.trySendJob job id) = .ok { s with
      invoker := i
      requests := id :: s.requests
      pending := (job, id) :: s.pending
      sent := id :: s.sent } := by simp only [exec, he]
  have hholders := Invoker.trySendJob_eq he
  refine ⟨_, hexec, h.process, hsent.coherent, ?_, fun x hx => ?_, fun job' x hmem => ?_, ?_,
    fun hex => ?_, fun hf x holder hx => ?_⟩
  · exact hsent.status ▸ h.status
  · rcases (hsent.holds x).1 hx with rfl | hx
    · exact List.mem_cons_self
    · exact List.mem_cons_of_mem _ (h.held x hx)
  · rcases List.mem_cons.1 hmem with heq | hmem
    · obtain ⟨rfl, rfl⟩ := Prod.mk.inj heq
      exact ⟨List.mem_cons_self, fun _ => (hsent.sending x).2 (.inl rfl)⟩
    · obtain ⟨hx, hheld⟩ := h.pending job' x hmem
      refine ⟨List.mem_cons_of_mem _ hx, fun hid => (hsent.sending x).2 ?_⟩
      exact ((hsent.holds x).1 hid).imp_right hheld
  · refine List.nodup_cons.2 ⟨fun hmem => ?_, h.once⟩
    obtain ⟨⟨job', x⟩, hmem', heq⟩ := List.mem_map.1 hmem
    obtain rfl : x = id := heq
    exact hnew (h.pending job' x hmem').1
  · refine absurd ?_ (h.not_extracted hsent.room.1)
    unfold Extracted at hex ⊢
    rwa [hsent.failure] at hex
  · dsimp only at hx ⊢
    rw [hholders] at hx
    rcases GoMap.of_get?_set hx with ⟨-, rfl⟩ | ⟨-, hx⟩
    · exact ⟨fun ht => (nomatch ht), fun ht => (nomatch ht)⟩
    · rw [hsent.status]
      exact h.seen hsent.room.1 x holder hx

theorem Inv.jobTested (h : s.Inv) (id : JobID) :
    ∃ s', s.exec (.jobTested id) = .ok s' ∧ s'.Inv := by
  obtain ⟨tested, i, he, -, ht⟩ := h.coherent.jobTested id
  refine ⟨{ s with invoker := i }, by simp only [exec, he, ok_bind]; rfl, h.process, ht.coherent,
    ht.status ▸ h.status, fun x hx => h.held x ((ht.holds x).1 hx).1, fun job x hmem => ?_, h.once,
    fun hex x hx => ?_, fun hf x holder hx => ?_⟩
  · obtain ⟨hx, hheld⟩ := h.pending job x hmem
    refine ⟨hx, fun hid => (ht.sending x).2 ?_⟩
    obtain ⟨hid, hne⟩ := (ht.holds x).1 hid
    exact ⟨hheld hid, hne⟩
  · refine h.extracted ?_ x ((ht.holds x).1 hx).1
    unfold Extracted at hex ⊢
    rwa [ht.failure] at hex
  · dsimp only at hf hx ⊢
    rw [ht.status]
    exact h.seen (ht.failed ▸ hf) x holder (Invoker.jobTested_eq he x holder hx)

theorem Inv.extractJobs (h : s.Inv) (order : RangeOrder)
    (hstarted : s.invoker.failure = .started) :
    ∃ s', s.exec (.extractJobs order) = .ok s' ∧ s'.Inv := by
  have hfailed : s.invoker.failed = true := h.coherent.failed (by simp [hstarted])
  refine ⟨_, rfl, h.process, ⟨fun _ _ hget => (nomatch hget), fun hf => ?_⟩, h.status,
    fun _ ⟨_, hget⟩ => (nomatch hget), fun job id hmem => ?_, h.once,
    fun _ _ ⟨_, hget⟩ => (nomatch hget), fun _ _ _ hget => (nomatch hget)⟩
  · exact absurd (hfailed.symm.trans hf) (by simp)
  · exact ⟨(h.pending job id hmem).1, fun ⟨_, hget⟩ => (nomatch hget)⟩

theorem Inv.rescheduled (h : s.Inv) (hex : ∃ jobs, s.invoker.failure = .extracted jobs) :
    Inv { s with invoker := { s.invoker with failure := .finished } } := by
  have hfailed : s.invoker.failed = true := by
    by_contra hf
    exact h.not_extracted (Bool.not_eq_true _ ▸ hf) (.inl hex)
  refine ⟨h.process, ⟨h.coherent.known, fun hf => ?_⟩, h.status, h.held, h.pending, h.once,
    fun _ => h.extracted (.inl hex), h.seen⟩
  exact absurd (hfailed.symm.trans hf) (by simp)

/-- Every step succeeds, and no status that arrives marks the invoker failed. -/
theorem Inv.step (h : s.Inv) (a : LinkStep) (hen : s.enabled a) :
    ∃ s', s.exec a = .ok s' ∧ s'.Inv ∧
      (a.delivers.isSome → s'.invoker.failed = s.invoker.failed) := by
  cases a with
  | insert id => exact ⟨_, rfl, h.insert hen, fun hsome => nomatch hsome⟩
  | refuse id =>
    exact ⟨_, rfl, ⟨h.process, h.coherent, h.status, h.held, h.pending, h.once, h.extracted, h.seen⟩,
      fun hsome => nomatch hsome⟩
  | delete id => exact ⟨_, rfl, h.delete hen, fun hsome => nomatch hsome⟩
  | getStatus epoch order =>
    exact ⟨_, rfl, h.getStatus hen.1 hen.2, fun hsome => nomatch hsome⟩
  | trySendJob job id =>
    obtain ⟨s', he, hinv⟩ := h.trySendJob job hen
    exact ⟨s', he, hinv, fun hsome => nomatch hsome⟩
  | completeSendJob job id current response order => exact h.completeSendJob hen
  | ping response order =>
    obtain ⟨ho, hmem⟩ := hen
    cases response with
    | none => exact ⟨_, rfl, h.markFailed, fun hsome => nomatch hsome⟩
    | some status =>
      obtain ⟨i, he, hinv, hf⟩ := h.updateStatus (hmem status rfl) ho
      exact ⟨_, by simp only [exec, Invoker.ping, he, ok_bind]; rfl, hinv, fun _ => hf⟩
  | verifyAndUpdateStatus status order =>
    obtain ⟨ho, hmem⟩ := hen
    by_cases haddress : s.invoker.address = status.address
    · obtain ⟨i, he, hinv, hf⟩ := h.updateStatus hmem ho
      refine ⟨_, ?_, hinv, fun _ => hf⟩
      simp only [exec, Invoker.verifyAndUpdateStatus, haddress, ne_eq, not_true_eq_false, if_false,
        he, ok_bind]
      rfl
    · refine ⟨s, ?_, h, fun _ => rfl⟩
      simp only [exec, Invoker.verifyAndUpdateStatus, haddress, ne_eq, not_false_eq_true, if_true,
        ok_bind]
      rfl
  | jobTested id =>
    obtain ⟨s', he, hinv⟩ := h.jobTested id
    exact ⟨s', he, hinv, fun hsome => nomatch hsome⟩
  | ensureJobIsNotLost id =>
    obtain ⟨ho, hs⟩ := h.coherent.ensureJobIsNotLost id
    refine ⟨_, rfl, h.receive ho.toKept (hs ▸ h.status) (List.Sublist.refl _)
      (fun _ x _ hx => (ho.sending x).2 hx) ?_ _ _, fun hsome => nomatch hsome⟩
    intro hf
    unfold Invoker.ensureJobIsNotLost at hf ⊢
    split at hf
    · next hlost =>
      have hmarked := h.coherent.markFailed.2.2
      exact absurd (hmarked.symm.trans hf) (by simp)
    · next hnot =>
      rw [if_neg hnot]
      exact h.seen hf
  | markFailed => exact ⟨_, rfl, h.markFailed, fun hsome => nomatch hsome⟩
  | extractJobs order =>
    obtain ⟨s', he, hinv⟩ := h.extractJobs order hen.2
    exact ⟨s', he, hinv, fun hsome => nomatch hsome⟩
  | rescheduled => exact ⟨_, rfl, h.rescheduled hen, fun hsome => nomatch hsome⟩

theorem Inv.of_reachable {ok : Link → LinkStep → Prop} (h : machine.Reachable ok s) : s.Inv := by
  refine h.invariant (fun _ hinit => .init hinit) fun _ a _ hs _ hen hex => ?_
  obtain ⟨t, ht, hinv, -⟩ := hs.step a hen
  obtain rfl := Except.ok.inj (ht.symm.trans hex)
  exact hinv

/-- In every reachable state every step succeeds, `completeSendJob` included, and a step that brings a
status leaves the invoker failed or not as it was: the branch of `updateStatus` that marks it failed is
not taken. -/
theorem messages_never_fail (h : machine.Reachable Machine.always s) {a : LinkStep}
    (hen : s.enabled a) :
    ∃ s', s.exec a = .ok s' ∧
      ∀ status, a.delivers = some status → s'.invoker.failed = s.invoker.failed := by
  obtain ⟨s', he, -, hf⟩ := (Inv.of_reachable h).step a hen
  exact ⟨s', he, fun status hs => hf (by simp [hs])⟩

/-- The answer to a request comes after a newer ping, and later once more, when the job is a
`NoReplyJob`. -/
theorem messages_never_fail_late_answer :
    ∃ s : Link, s.invoker.getJobType 10 = .noReplyJob ∧ s.invoker.failed = false ∧
      ∃ s', s.exec (.verifyAndUpdateStatus ⟨1, [10], 2, "host"⟩ id) = .ok s' ∧
        s'.invoker.failed = false := by
  let answer : Status := ⟨1, [10], 2, "host"⟩
  let registered : InvokerProcess := (InvokerProcess.new "host" 2).getStatus 1 id
  have hperm : ∀ ids : List JobID, (id ids).Perm ids := fun _ => .refl _
  have hwf : registered.WellFormed :=
    (InvokerProcess.WellFormed.new "host" 2).getStatus (Nat.zero_lt_one) hperm
  have hinit : machine.init ⟨.new ⟨2, [], 1, "host"⟩, registered, [], [], []⟩ :=
    ⟨hwf, _, List.mem_cons_self, rfl⟩
  have hreach := Machine.Reachable.of_runs machine Machine.always
    [.trySendJob 0 10, .insert 10, .getStatus 2 id, .delete 10, .getStatus 3 id,
      .ping (some ⟨2, [], 3, "host"⟩) id, .completeSendJob 0 10 10 (some answer) id,
      .getStatus 4 id, .ping (some ⟨2, [], 4, "host"⟩) id]
    (.of_init hinit)
    ⟨trivial, by simp [machine, enabled], _, rfl, trivial, rfl, _, rfl,
      trivial, ⟨by decide, hperm⟩, _, rfl, trivial, List.mem_cons_self, _, rfl,
      trivial, ⟨by decide, hperm⟩, _, rfl,
      trivial, ⟨hperm, fun _ h => Option.some.inj h ▸ List.mem_cons_self⟩, _, rfl,
      trivial, ⟨List.mem_cons_self, hperm,
        fun _ h => Option.some.inj h ▸ List.mem_cons_of_mem _ List.mem_cons_self,
        fun _ => ⟨rfl, fun _ h => Option.some.inj h ▸ ⟨1, rfl, by decide⟩⟩⟩, _, rfl,
      trivial, ⟨by decide, hperm⟩, _, rfl,
      trivial, ⟨hperm, fun _ h => Option.some.inj h ▸ List.mem_cons_self⟩, _, rfl, rfl⟩
  obtain ⟨s', he, hf⟩ := messages_never_fail hreach (a := .verifyAndUpdateStatus answer id)
    ⟨hperm, List.mem_cons_of_mem _ (List.mem_cons_of_mem _ List.mem_cons_self)⟩
  exact ⟨_, rfl, rfl, s', he, hf answer rfl⟩

end Link

end TestingSystem
