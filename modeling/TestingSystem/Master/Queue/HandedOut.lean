import TestingSystem.Master.Queue.QueueOperations

/-!
# The jobs that are out

A live job either waits among the failed jobs or is out, under the ID that its object has now. As
long as only IDs of jobs that are out are completed and rescheduled, every operation changes the IDs
that are out by one (`Accounted`).
-/

set_option autoImplicit false

namespace TestingSystem.Queue

variable {F : Type}

/-- A live job that does not wait to be given again has this ID. -/
def HandedOut (q : Queue F) (id : JobID) : Prop :=
  ∃ orig, orig ∉ q.newFailedJobs ∧ q.HasID orig id

variable [Add F] [Min F] [Zero F] [One F]

/-- The invariant of the queue when only jobs that are out are completed and rescheduled. -/
structure Accounted (q : Queue F) : Prop extends Invariant q where
  failed_nodup : q.newFailedJobs.Nodup
  failed_live : ∀ ref ∈ q.newFailedJobs, q.Live ref

variable {q q' : Queue F}

theorem accounted_new : Accounted (new : Queue F) :=
  ⟨invariant_new, .nil, fun _ h => nomatch h⟩

theorem Accounted.handedOut_iff (h : Accounted q) {orig id : JobID} (hid : q.HasID orig id) :
    q.HandedOut id ↔ orig ∉ q.newFailedJobs := by
  constructor
  · rintro ⟨orig', hnot, hid'⟩
    exact h.hasID_unique hid hid' ▸ hnot
  · exact fun hnot => ⟨orig, hnot, hid⟩

omit [Add F] [Min F] [Zero F] [One F] in
/-- The job of an ID that is out is live. -/
theorem HandedOut.of_eq (hlive : ∀ o, q'.Live o ↔ q.Live o) (hjobs : q'.jobs = q.jobs)
    (hfailed : q'.newFailedJobs = q.newFailedJobs) (id : JobID) :
    q'.HandedOut id ↔ q.HandedOut id := by
  simp only [HandedOut, HasID, hlive, hjobs, hfailed]

theorem Accounted.submit (h : Accounted q) {id : GeneratorID} {s : SubmissionID}
    (hs : Submitted q id s q') : Accounted q' ∧ ∀ x, q'.HandedOut x ↔ q.HandedOut x := by
  refine ⟨⟨hs.invariant, ?_, fun ref hmem => ?_⟩, HandedOut.of_eq hs.live hs.jobs hs.failed⟩
  · rw [hs.failed]
    exact h.failed_nodup
  · rw [hs.failed] at hmem
    exact (hs.live ref).2 (h.failed_live ref hmem)

/-- What a call of `NextJob` does. -/
structure Taken (q : Queue F) (id : JobID) (r : Option JobRef) (q' : Queue F) : Prop where
  accounted : Accounted q'
  progress : ∀ g, q'.progress g = q.progress g
  status : q'.status = q.status
  fresh : ∀ x, q.Fresh x → x ≠ id → q'.Fresh x
  live : ∀ o, q'.Live o → q.Live o ∨ o = id
  jobs : ∀ o, o ≠ id → q'.jobs.get? o = q.jobs.get? o
  renamed : q'.jobIDToOriginalJobID = q.jobIDToOriginalJobID
  hasID : ∀ o x, q.HasID o x → q'.HasID o x
  none : r = none → q'.newFailedJobs = [] ∧ q'.activeGenerators = [] ∧
    ∀ x, q'.HandedOut x ↔ q.HandedOut x
  some : ∀ ref, r = some ref → ∃ id, q'.HasID ref id ∧ ¬ q.HandedOut id ∧
    ∀ x, q'.HandedOut x ↔ q.HandedOut x ∨ x = id

theorem Accounted.nextJob (h : Accounted q) {id : JobID} (hf : q.Fresh id) :
    ∃ r q', q.nextJob id = .ok (r, q') ∧ Taken q id r q' := by
  obtain ⟨r, q', he, ⟨ref, rest, hfailed, rfl, rfl⟩ | ⟨hfailed, hc⟩⟩ := h.toInvariant.nextJob hf
  · have hnodup := h.failed_nodup
    rw [hfailed, List.nodup_cons] at hnodup
    have hmem : ref ∈ q.newFailedJobs := by
      rw [hfailed]
      exact List.mem_cons_self
    have hl := h.failed_live ref hmem
    obtain ⟨job, hjob, -⟩ := h.exists_object hl
    have hid : q.HasID ref job.id := ⟨hl, job, hjob, rfl⟩
    refine ⟨_, _, he, ⟨h.of_failed rest, hnodup.2, fun r hr => ?_⟩, fun _ => rfl, rfl,
      fun _ hx _ => hx, fun _ ho => .inl ho, fun _ _ => rfl, rfl, fun _ _ ho => ho,
      fun hr => (nomatch hr), fun ref' hr => ?_⟩
    · exact h.failed_live r (hfailed ▸ List.mem_cons_of_mem _ hr)
    · obtain rfl := Option.some.inj hr
      refine ⟨job.id, hid, fun hout => (h.handedOut_iff hid).1 hout hmem, fun x => ?_⟩
      constructor
      · rintro ⟨orig, hnot, hx⟩
        by_cases heq : orig = ref
        · subst heq
          exact .inr (HasID.eq (q := q) hx hid)
        · refine .inl ⟨orig, ?_, hx⟩
          rw [hfailed, List.mem_cons, not_or]
          exact ⟨heq, hnot⟩
      · rintro (⟨orig, hnot, hx⟩ | rfl)
        · exact ⟨orig, fun hr => hnot (hfailed ▸ List.mem_cons_of_mem _ hr), hx⟩
        · exact ⟨ref, hnodup.1, hid⟩
  · have hnil : q'.newFailedJobs = [] := hc.failed.trans hfailed
    refine ⟨r, q', he, ⟨hc.invariant, ?_, fun ref hmem => ?_⟩, hc.progress, hc.status,
      fun x hx hne => hc.fresh hx hne, hc.live, fun o ho => hc.jobs o ho, hc.renamed,
      fun o x ho => (hc.hasID hf o x).2 (.inl ho), fun hr => ?_, fun ref hr => ?_⟩
    · rw [hnil]
      exact .nil
    · rw [hnil] at hmem
      cases hmem
    · obtain ⟨hactive, hlive, hjobs⟩ := hc.none hr
      exact ⟨hnil, hactive, HandedOut.of_eq hlive hjobs hc.failed⟩
    · subst hr
      obtain rfl := (hc.some ref rfl).1
      have hhas := hc.hasID hf
      refine ⟨ref, (hhas ref ref).2 (.inr ⟨rfl, rfl, rfl⟩), ?_, fun x => ?_⟩
      · rintro ⟨orig, -, hx⟩
        exact (h.fresh_ne hf hx).1 rfl
      · simp only [HandedOut, hnil, hfailed, List.not_mem_nil, not_false_eq_true, true_and]
        constructor
        · rintro ⟨o, ho⟩
          rcases (hhas o x).1 ho with ho | ⟨-, -, rfl⟩
          · exact .inl ⟨o, ho⟩
          · exact .inr rfl
        · rintro (⟨o, ho⟩ | rfl)
          · exact ⟨o, (hhas o x).2 (.inl ho)⟩
          · exact ⟨_, (hhas _ _).2 (.inr ⟨rfl, rfl, rfl⟩)⟩

theorem Accounted.settled (h : Accounted q) {orig id : JobID} (hid : q.HasID orig id)
    (hout : q.HandedOut id) {gid : GeneratorID} {g : Generator F} {c : Completed (Generator F) F}
    (hs : JobSettled q orig gid g c q') :
    Accounted q' ∧ ∀ x, q'.HandedOut x ↔ q.HandedOut x ∧ x ≠ id := by
  have hnot := (h.handedOut_iff hid).1 hout
  refine ⟨⟨hs.invariant, ?_, fun ref hmem => ?_⟩, fun x => ?_⟩
  · rw [hs.failed]
    exact h.failed_nodup
  · rw [hs.failed] at hmem
    refine (hs.live ref).2 ⟨h.failed_live ref hmem, ?_⟩
    rintro rfl
    exact hnot hmem
  · simp only [HandedOut, hs.hasID_iff, hs.failed]
    constructor
    · rintro ⟨o, ho, hx, hne⟩
      refine ⟨⟨o, ho, hx⟩, ?_⟩
      rintro rfl
      exact hne (h.hasID_unique hx hid)
    · rintro ⟨⟨o, ho, hx⟩, hne⟩
      refine ⟨o, ho, hx, ?_⟩
      rintro rfl
      exact hne (hx.eq hid)

theorem Accounted.rescheduled (h : Accounted q) {orig id newID : JobID} (hid : q.HasID orig id)
    (hout : q.HandedOut id) (hf : q.Fresh newID) (hr : Rescheduled q orig id newID q') :
    Accounted q' ∧ (∀ x, q'.HandedOut x ↔ q.HandedOut x ∧ x ≠ id) ∧ ¬ q.HandedOut newID := by
  have hnot := (h.handedOut_iff hid).1 hout
  refine ⟨⟨hr.invariant, ?_, fun ref hmem => ?_⟩, fun x => ?_, ?_⟩
  · rw [hr.failed]
    exact List.nodup_append.2 ⟨h.failed_nodup, List.nodup_singleton _, fun a ha b hb => by
      rw [List.mem_singleton.1 hb]
      rintro rfl
      exact hnot ha⟩
  · rw [hr.failed, List.mem_append, List.mem_singleton] at hmem
    rw [hr.live]
    rcases hmem with hmem | rfl
    · exact h.failed_live ref hmem
    · exact hid.1
  · simp only [HandedOut, hr.hasID_iff, hr.failed, List.mem_append, List.mem_singleton, not_or]
    constructor
    · rintro ⟨o, ⟨ho, hne⟩, ⟨rfl, -⟩ | ⟨-, hx⟩⟩
      · exact absurd rfl hne
      · refine ⟨⟨o, ho, hx⟩, ?_⟩
        rintro rfl
        exact hne (h.hasID_unique hx hid)
    · rintro ⟨⟨o, ho, hx⟩, hne⟩
      have hne' : o ≠ orig := by
        rintro rfl
        exact hne (hx.eq hid)
      exact ⟨o, ⟨ho, hne'⟩, .inr ⟨hne', hx⟩⟩
  · rintro ⟨o, -, ho⟩
    exact (h.fresh_ne hf ho).1 rfl

end TestingSystem.Queue
