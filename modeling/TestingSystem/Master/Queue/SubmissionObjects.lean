import TestingSystem.Master.JobGenerators.SubmissionGrowth
import TestingSystem.Master.Queue.GetStatus
import TestingSystem.Master.Queue.QueueOperations

/-!
# The submissions of the generators

The submission that a generator changes is one object, and the queue finds it by its ID
(`findSubmission`). `NextJob` changes no submission, and a result changes the one of its job, which grows
and is copied to the status when the generator publishes it.
-/

set_option autoImplicit false

namespace TestingSystem.Queue

variable {F : Type}

/-- The submission with this ID, as its generator has it now. -/
def findSubmission (q : Queue F) (id : SubmissionID) : Option (Submission F) :=
  (q.generators.entries.map fun e => e.2.submission).find? fun s => s.id = id

/-- The generators hold the same submissions. -/
def SameObjects (q q' : Queue F) : Prop :=
  ∀ gid, (q'.generators.get? gid).map Generator.submission =
    (q.generators.get? gid).map Generator.submission

variable [Add F] [Min F] [Zero F] [One F]

/-- The submission that the generator passes to `UpdateSubmission` for a result, if it does. -/
def publishedBy (q : Queue F) (jobResult : InvokerJobResult F) : Option (Submission F) := do
  let id := (q.jobIDToOriginalJobID.get? jobResult.job.id).getD jobResult.job.id
  let generator ← q.originalJobIDToGenerator.get? id
  let g ← q.generators.get? generator
  match g.jobCompleted { jobResult with job := { jobResult.job with id := id } } with
  | .error _ => none
  | .ok c => c.published

/-- No generator started with a compilation result. -/
def StartedEmpty (q : Queue F) : Prop :=
  ∀ gid g, q.generators.get? gid = some g → g.StartedEmpty

variable {q q' : Queue F} {id : SubmissionID} {s : Submission F}

omit [Add F] [Min F] [Zero F] [One F] in
theorem mem_submissions :
    s ∈ q.generators.entries.map (fun e => e.2.submission) ↔
      ∃ gid g, q.generators.get? gid = some g ∧ g.submission = s := by
  rw [List.mem_map]
  constructor
  · rintro ⟨⟨gid, g⟩, hmem, rfl⟩
    exact ⟨gid, g, (GoMap.mem_entries_iff _ _ _).1 hmem, rfl⟩
  · rintro ⟨gid, g, hg, rfl⟩
    exact ⟨(gid, g), (GoMap.mem_entries_iff _ _ _).2 hg, rfl⟩

/-- A submission has one generator. -/
theorem Invariant.findSubmission_iff (h : q.Invariant) :
    q.findSubmission id = some s ↔
      ∃ gid g, q.generators.get? gid = some g ∧ g.submission = s ∧ s.id = id := by
  constructor
  · intro hfind
    unfold findSubmission at hfind
    have hid := List.find?_some hfind
    obtain ⟨gid, g, hg, hs⟩ := mem_submissions.1 (List.mem_of_find?_eq_some hfind)
    exact ⟨gid, g, hg, hs, of_decide_eq_true hid⟩
  · rintro ⟨gid, g, hg, rfl, rfl⟩
    unfold findSubmission
    cases hfind : List.find? _ (q.generators.entries.map fun e => e.2.submission) with
    | none =>
      have hnot := List.find?_eq_none.1 hfind g.submission (mem_submissions.2 ⟨gid, g, hg, rfl⟩)
      exact absurd (decide_eq_true rfl) hnot
    | some found =>
      have hid : found.id = g.submission.id := by simpa using List.find?_some hfind
      obtain ⟨gid', g', hg', rfl⟩ := mem_submissions.1 (List.mem_of_find?_eq_some hfind)
      -- the two generators test the same submission, so they are one
      obtain rfl := h.distinct _ _ _ _ hg' hg hid
      obtain rfl := Option.some.inj (hg'.symm.trans hg)
      rfl

theorem Invariant.findSubmission_same (h : q.Invariant) (h' : q'.Invariant)
    (hsame : q.SameObjects q') (id : SubmissionID) : q'.findSubmission id = q.findSubmission id := by
  apply Option.ext
  intro s
  rw [h'.findSubmission_iff, h.findSubmission_iff]
  constructor
  · rintro ⟨gid, g', hg', rfl, hid⟩
    have hget := hsame gid
    rw [hg', Option.map_some] at hget
    obtain ⟨g, hg, hs⟩ := Option.map_eq_some_iff.1 hget.symm
    exact ⟨gid, g, hg, hs, hid⟩
  · rintro ⟨gid, g, hg, rfl, hid⟩
    have hget := hsame gid
    rw [hg, Option.map_some] at hget
    obtain ⟨g', hg', hs⟩ := Option.map_eq_some_iff.1 hget
    exact ⟨gid, g', hg', hs, hid⟩

/-- One generator was added, or got another submission with the same ID. -/
theorem Invariant.findSubmission_set (h : q.Invariant) (h' : q'.Invariant) {gid : GeneratorID}
    {g' : Generator F} (hset : q'.generators = q.generators.set gid g')
    (hold : ∀ g, q.generators.get? gid = some g → g.submission.id = g'.submission.id)
    (id : SubmissionID) : q'.findSubmission id =
      if id = g'.submission.id then some g'.submission else q.findSubmission id := by
  split
  · next hid =>
    apply h'.findSubmission_iff.2
    refine ⟨gid, g', ?_, rfl, hid.symm⟩
    rw [hset]
    exact GoMap.get?_set_self _ _ _
  · next hid =>
    apply Option.ext
    intro s
    rw [h'.findSubmission_iff, h.findSubmission_iff]
    constructor
    · rintro ⟨a, g, hg, rfl, rfl⟩
      rw [hset] at hg
      rcases GoMap.of_get?_set hg with ⟨-, rfl⟩ | ⟨-, hg⟩
      · exact absurd rfl hid
      · exact ⟨a, g, hg, rfl, rfl⟩
    · rintro ⟨a, g, hg, rfl, rfl⟩
      refine ⟨a, g, ?_, rfl, rfl⟩
      have hne : a ≠ gid := by
        rintro rfl
        exact hid (hold g hg)
      rw [hset, GoMap.get?_set_ne _ _ hne]
      exact hg

omit [Add F] [Min F] [Zero F] [One F] in
theorem SameObjects.of_eq (h : q'.generators = q.generators) : q.SameObjects q' := by
  intro gid
  rw [h]

/-! ## Submit -/

/-- A submission that the queue accepts. -/
structure Accepts (q : Queue F) (submission : Submission F) (epoch : Epoch) (q' : Queue F) : Prop where
  started : q'.StartedEmpty
  object : ∃ gid g, q.generators.get? gid = none ∧ q'.generators = q.generators.set gid g ∧
    g.submission = submission
  status : q.status.addSubmission submission epoch = .ok q'.status

theorem StartedEmpty.submit (hs : q.StartedEmpty) {gid : GeneratorID}
    (hgid : q.generators.get? gid = none) {problem : Problem F} {submission : Submission F}
    (hnone : submission.compilationResult = none) (hverdict : submission.verdict = .RU) {epoch : Epoch}
    (he : q.submit gid problem submission epoch = .ok (.ok q')) : q.Accepts submission epoch q' := by
  unfold Queue.submit at he
  split at he
  · cases he
  · next generator hnew =>
    obtain ⟨status, hstatus, he⟩ := bind_eq_ok.1 he
    cases he
    have hstarted := Generator.startedEmpty_new hnew hnone
    have hid := (Generator.new_good hnew).1
    have hsubmission : generator.submission = submission := by
      rw [Generator.new_submission hnew, ← hverdict]
    refine ⟨Every.set hs hstarted rfl, ⟨generator.id, generator, ?_, rfl, hsubmission⟩, hstatus⟩
    rw [hid]
    exact hgid

/-! ## NextJob -/

/-- `NextJob` of a generator leaves its submission alone. -/
theorem Chosen.sameObjects {newID : JobID} {r : Option JobRef} (h : q.Chosen newID r q') :
    q.SameObjects q' := by
  have hcalls : ∀ g g' : Generator F, Relation.ReflTransGen (Generator.Asked newID) g g' →
      g'.submission = g.submission := by
    intro g g' hcalls
    induction hcalls with
    | refl => rfl
    | tail _ hcall ih =>
      obtain ⟨-, job, hnext⟩ := hcall
      exact (Generator.nextJob_submission hnext).trans ih
  intro gid
  cases hget : q'.generators.get? gid with
  | none =>
    have hnone := progress_eq_none.1 ((h.progress gid).symm.trans (progress_eq_none.2 hget))
    rw [hnone]
  | some g' =>
    obtain ⟨g, hg, hreached⟩ := h.generators gid g' hget
    rw [hg, Option.map_some, Option.map_some, hcalls g g' hreached]

theorem Invariant.nextJob_objects (h : q.Invariant) {newID : JobID} (hf : q.Fresh newID)
    (hs : q.StartedEmpty) {r : Option JobRef} (he : q.nextJob newID = .ok (r, q')) :
    q'.StartedEmpty ∧ q.SameObjects q' := by
  rcases h.nextJob_cases hf he with ⟨ref, rest, -, -, rfl⟩ | ⟨-, hc⟩
  · exact ⟨hs, fun _ => rfl⟩
  · refine ⟨hc.every hs fun g g' hg hasked => ?_, hc.sameObjects⟩
    obtain ⟨hid, job, hnext⟩ := hasked
    exact (hg.nextJob hid hnext).1

/-! ## JobCompleted -/

omit [Add F] [Min F] [Zero F] [One F] in
/-- What a generator publishes is what the status holds of its submission. -/
theorem publish_holders {status status' : QueueStatus F} (hproduction : status.isTesting = false)
    {published : Option (Submission F)} {epoch : Epoch}
    (he : status.publish published epoch = .ok status') :
    status'.isTesting = false ∧ ∀ id holder, status'.activeSubmissions.get? id = some holder →
      (status.activeSubmissions.get? id = some holder ∧ ∀ s, published = some s → id ≠ s.id) ∨
      published = some holder.submission ∧ id = holder.submission.id ∧ status.Active id := by
  cases published with
  | none =>
    cases he
    refine ⟨hproduction, ?_⟩
    intro id holder hget
    refine .inl ⟨hget, ?_⟩
    intro s hs
    cases hs
  | some s =>
    refine ⟨(QueueStatus.isTesting_updateSubmission he).trans hproduction, ?_⟩
    intro id holder hget
    unfold QueueStatus.publish QueueStatus.updateSubmission at he
    dsimp only at he
    rw [if_neg (ne_true_of_eq_false hproduction)] at he
    split at he
    · cases he
    · next old hold =>
      cases he
      rcases GoMap.of_get?_set hget with ⟨rfl, rfl⟩ | ⟨hne, hget⟩
      · exact .inr ⟨rfl, rfl, old, hold⟩
      · refine .inl ⟨hget, ?_⟩
        intro s' hs'
        cases hs'
        exact hne

/-- What a result does to the submission of its job. -/
structure Grown (q : Queue F) (result : InvokerJobResult F) (epoch : Epoch) (q' : Queue F)
    (returned : Except String (Option (Submission F))) : Prop where
  started : q'.StartedEmpty
  object : ∃ gid g c, q.generators.get? gid = some g ∧ ¬ g.Finished ∧ g.Advances c ∧
    q'.generators = q.generators.set gid c.generator ∧
    q.publishedBy result = c.published ∧ returned = c.submission
  status : q.status.publish (q.publishedBy result) epoch = .ok q'.status

theorem completeJob_grown {generator : GeneratorID} {orig : JobID} {result : InvokerJobResult F}
    {epoch : Epoch} {returned : Except String (Option (Submission F))} {g : Generator F} {job : Job}
    (hs : q.StartedEmpty) (hg : q.generators.get? generator = some g)
    (hget : g.givenJobs.get? orig = some job) (hresult : result.job.id = orig)
    (he : q.completeJob generator result epoch = .ok (q', returned)) :
    ∃ c, g.jobCompleted result = .ok c ∧ g.Advances c ∧ c.generator.StartedEmpty ∧
      q'.generators = q.generators.set generator c.generator ∧ returned = c.submission ∧
      q.status.publish c.published epoch = .ok q'.status := by
  obtain ⟨g', hg', he⟩ := bind_eq_ok.1 he
  obtain rfl := Option.some.inj ((deref_ok hg').symm.trans hg)
  obtain ⟨c, hc, he⟩ := bind_eq_ok.1 he
  obtain ⟨status, hstatus, he⟩ := bind_eq_ok.1 he
  cases he
  subst hresult
  obtain ⟨hstarted, hadvances⟩ := (hs generator g' hg).jobCompleted hget hc
  exact ⟨c, hc, hadvances, hstarted, rfl, rfl, hstatus⟩

theorem Invariant.original_eq (h : q.Invariant) {orig id : JobID} (hid : q.HasID orig id) :
    (q.jobIDToOriginalJobID.get? id).getD id = orig := by
  rcases h.resolve hid with hren | ⟨heq, hnone⟩
  · rw [hren]
    rfl
  · rw [hnone]
    exact heq

omit [Add F] [Min F] [Zero F] [One F] in
theorem activate_objects (q : Queue F) (gid : GeneratorID) :
    (q.activate gid).generators = q.generators ∧ (q.activate gid).status = q.status := by
  obtain ⟨active, ids, heq⟩ := activate_eq q gid
  rw [heq]
  exact ⟨rfl, rfl⟩

theorem Invariant.jobCompleted_grown (h : q.Invariant) (hs : q.StartedEmpty) {orig : JobID}
    {result : InvokerJobResult F} (hid : q.HasID orig result.job.id) {epoch : Epoch}
    {returned : Except String (Option (Submission F))}
    (he : q.jobCompleted result epoch = .ok (q', returned)) : q.Grown result epoch q' returned := by
  obtain ⟨gid, hgid⟩ := hid.1
  obtain ⟨g, hg, job, hjob⟩ := (h.given orig gid).1 hgid
  obtain ⟨m, -, heq⟩ := h.jobCompleted_eq hid hgid epoch
  rw [heq] at he
  -- the generator is called in the queue without the job
  obtain ⟨hgenerators, hstatus₁⟩ := activate_objects { q with
    jobIDToOriginalJobID := m
    originalJobIDToJob := q.originalJobIDToJob.delete orig
    originalJobIDToGenerator := q.originalJobIDToGenerator.delete orig } gid
  obtain ⟨c, hc, hadvances, hstarted, hset, hreturned, hstatus⟩ :=
    completeJob_grown (Every.of_eq hs hgenerators) (by rw [hgenerators]; exact hg) hjob rfl he
  have hpublished : q.publishedBy result = c.published := by
    unfold publishedBy
    rw [h.original_eq hid]
    simp only [hgid, hg, Option.bind_eq_bind, Option.bind_some, hc]
  rw [hgenerators] at hset
  rw [hstatus₁] at hstatus
  have hrunning := (h.not_finished hgid hg).2
  refine ⟨Every.set hs hstarted hset,
    ⟨gid, g, c, hg, hrunning, hadvances, hset, hpublished, hreturned⟩, ?_⟩
  rw [hpublished]
  exact hstatus

end TestingSystem.Queue
