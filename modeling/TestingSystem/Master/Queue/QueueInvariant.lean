import TestingSystem.Master.Queue.Queue

/-!
# The invariant of the queue

A live job is one that a generator counts as given. `Queue.Invariant` ties the maps of the queue to
the generators: they hold the live jobs and no others, a live job is found under the ID that its
object carries now, and a generator that is not active has a job out or is finished. Every operation
has one lemma that says what it does; the UUIDs that it draws are new to the queue (`Fresh`).
-/

set_option autoImplicit false

namespace TestingSystem

namespace Generator

variable {F : Type}

/-- The submission that the generator tests. -/
def submissionID (g : Generator F) : SubmissionID := g.submission.id

variable [Add F] [Min F] [Zero F] [One F]

/-- Some outcomes explain the state of the generator. -/
def Healthy (g : Generator F) : Prop := ∃ sub, Sound (fun _ => True) sub g

/-- What a call of `NextJob` does. -/
structure Selected (g : Generator F) (id : JobID) (r : Option Job) (g' : Generator F) : Prop where
  healthy : g'.Healthy
  id_eq : g'.id = g.id
  submissionID_eq : g'.submissionID = g.submissionID
  finished : g'.Finished ↔ g.Finished
  none : r = none → g'.givenJobs = g.givenJobs ∧
    ((∃ id job, g.givenJobs.get? id = some job) ∨ g.Finished)
  some : ∀ job, r = some job → job.id = id ∧ job.submitID = g.submissionID ∧
    g'.givenJobs = g.givenJobs.set id job

/-- What a call of `JobCompleted` for the given job `id` does. -/
structure Settled (g : Generator F) (id : JobID) (c : Completed (Generator F) F) : Prop where
  healthy : c.generator.Healthy
  id_eq : c.generator.id = g.id
  submissionID_eq : c.generator.submissionID = g.submissionID
  given : c.generator.givenJobs = g.givenJobs.delete id
  published : ∀ s, c.published = some s → s.id = g.submissionID
  submission : c.submission = .ok none ∧ ¬ c.generator.Finished ∨
    ∃ s, c.submission = .ok (some s) ∧ s.id = g.submissionID ∧ c.generator.Finished

/-- Completing a given job is no error. -/
theorem Settled.returns {g : Generator F} {id : JobID} {c : Completed (Generator F) F}
    (h : Settled g id c) : ∃ submission, c.submission = .ok submission := by
  rcases h.submission with ⟨hsub, -⟩ | ⟨s, hsub, -⟩
  · exact ⟨none, hsub⟩
  · exact ⟨some s, hsub⟩

/-- The panics of `JobCompleted` for a given job. -/
def scorePanics (p : Panic) : Prop :=
  p = .nilPoints ∨ p = .groupResultsLength ∨ p = .testResultsLength

variable {g : Generator F} {outs : Outcomes F} {sub : Submission F}

theorem Good.submissionID (h : g.Good outs sub) : g.submissionID = sub.id := by
  cases g with
  | icpc i => exact ICPCGenerator.Good.submission_id h
  | ioi i => exact IOIGenerator.Good.submission_id h

theorem Sound.submissionID {P : Outcomes F → Prop} (h : Sound P sub g) :
    g.submissionID = sub.id := by
  obtain ⟨outs, -, hgood, -⟩ := h
  exact hgood.submissionID

omit [One F] in
theorem scorePanics_of {p : Panic} (h : g.ScorePanic outs sub p) : scorePanics p := by
  cases g with
  | icpc i => cases h
  | ioi i =>
    cases h with
    | nilPoints => exact .inl rfl
    | groupResults => exact .inr (.inl rfl)
    | testResults => exact .inr (.inr rfl)

theorem healthy_new {id : GeneratorID} {problem : Problem F} (h : new id problem sub = .ok g) :
    g.id = id ∧ g.submissionID = sub.id ∧ ¬ g.Finished ∧ g.Healthy := by
  obtain ⟨hid, -, -, hfin, -⟩ := new_good h
  have hs : Sound (fun _ => True) sub g :=
    .of_new h ⟨{ verdict := .CD }, fun _ => { verdict := .OK }⟩ trivial fun _ => rfl
  exact ⟨hid, hs.submissionID, hfin, sub, hs⟩

theorem Healthy.nextJob (h : g.Healthy) {id : JobID} (hid : g.givenJobs.get? id = none) :
    ∃ r g', g.nextJob id = .ok (r, g') ∧ Selected g id r g' := by
  obtain ⟨sub, hs⟩ := h
  obtain ⟨r, g', he, hnone, hsome⟩ := hs.nextJob hid
  refine ⟨r, g', he, ?_⟩
  cases r with
  | none =>
    have hn := hnone rfl
    exact ⟨⟨sub, hn.sound⟩, hn.id_eq, hn.sound.submissionID.trans hs.submissionID.symm, hn.finished,
      fun _ => ⟨hn.given, hn.running⟩, fun _ hr => nomatch hr⟩
  | some job =>
    have hg := hsome job rfl
    refine ⟨⟨sub, hg.sound⟩, hg.id_eq, hg.sound.submissionID.trans hs.submissionID.symm,
      iff_of_false hg.not_finished.2 hg.not_finished.1, fun hr => (nomatch hr), fun job' hr => ?_⟩
    obtain rfl := Option.some.inj hr
    exact ⟨hg.job_id, hg.submitID.trans hs.submissionID.symm, hg.given⟩

theorem Healthy.jobCompleted (h : g.Healthy) {result : InvokerJobResult F} {job : Job}
    (hget : g.givenJobs.get? result.job.id = some job) :
    (∃ c, g.jobCompleted result = .ok c ∧ Settled g result.job.id c) ∨
      ∃ p, g.jobCompleted result = .error p ∧ scorePanics p := by
  obtain ⟨sub, hs⟩ := h
  rcases hs.jobCompleted hget fun _ _ => trivial with ⟨c, he, hc⟩ | ⟨p, outs, he, -, hp⟩
  · refine .inl ⟨c, he, ⟨sub, hc.sound⟩, hc.id_eq,
      hc.sound.submissionID.trans hs.submissionID.symm, hc.given, fun s hpub => ?_, ?_⟩
    · exact (hc.published s hpub).trans hs.submissionID.symm
    · refine hc.submission.imp_right ?_
      rintro ⟨s, h1, h2, h3⟩
      exact ⟨s, h1, h2.trans hs.submissionID.symm, h3⟩
  · exact .inr ⟨p, he, scorePanics_of hp⟩

theorem Healthy.given_none (h : g.Healthy) (hf : g.Finished) (id : JobID) :
    g.givenJobs.get? id = none := by
  obtain ⟨sub, outs, -, hgood, -⟩ := h
  exact hgood.given_none hf id

end Generator

namespace Queue

variable {F : Type}

/-- The job with this original ID waits for its result. -/
def Live (q : Queue F) (orig : JobID) : Prop :=
  ∃ generator, q.originalJobIDToGenerator.get? orig = some generator

/-- The live job `orig` has the ID `id` now. -/
def HasID (q : Queue F) (orig id : JobID) : Prop :=
  q.Live orig ∧ ∃ job, q.jobs.get? orig = some job ∧ job.id = id

/-- The UUID is new to the queue. -/
def Fresh (q : Queue F) (id : JobID) : Prop :=
  ¬ q.Live id ∧ q.jobIDToOriginalJobID.get? id = none

/-- What is known of the submission of a generator: its ID and whether testing is finished. -/
def progress (q : Queue F) (generator : GeneratorID) : Option (SubmissionID × Prop) :=
  (q.generators.get? generator).map fun g => (g.submissionID, g.Finished)

theorem progress_eq_some {q : Queue F} {id : GeneratorID} {s : SubmissionID} {finished : Prop} :
    q.progress id = some (s, finished) ↔
      ∃ g, q.generators.get? id = some g ∧ g.submissionID = s ∧ g.Finished = finished := by
  simp only [progress, Option.map_eq_some_iff, Prod.mk.injEq]

theorem progress_eq_none {q : Queue F} {id : GeneratorID} :
    q.progress id = none ↔ q.generators.get? id = none := by
  rw [progress, Option.map_eq_none_iff]

/-- The progress of the generators after one of them was put into the map. -/
theorem progress_set {q q' : Queue F} {id : GeneratorID} {g : Generator F}
    (h : q'.generators = q.generators.set id g) (a : GeneratorID) :
    q'.progress a = if a = id then some (g.submissionID, g.Finished) else q.progress a := by
  rw [progress, h, GoMap.get?_set]
  split
  · rfl
  · rfl

variable [Add F] [Min F] [Zero F] [One F]

/-- The invariant of the queue. -/
structure Invariant (q : Queue F) : Prop where
  healthy : ∀ id g, q.generators.get? id = some g → g.id = id ∧ g.Healthy
  distinct : ∀ id id' g g', q.generators.get? id = some g → q.generators.get? id' = some g' →
    g.submissionID = g'.submissionID → id = id'
  given : ∀ orig id, q.originalJobIDToGenerator.get? orig = some id ↔
    ∃ g, q.generators.get? id = some g ∧ ∃ job, g.givenJobs.get? orig = some job
  job : ∀ orig, q.Live orig → q.originalJobIDToJob.get? orig = some orig
  live : ∀ orig ref, q.originalJobIDToJob.get? orig = some ref → q.Live orig
  object : ∀ orig id g, q.originalJobIDToGenerator.get? orig = some id →
    q.generators.get? id = some g → ∃ job, q.jobs.get? orig = some job ∧
      job.submitID = g.submissionID ∧
      (job.id = orig ∨ q.jobIDToOriginalJobID.get? job.id = some orig)
  renamed : ∀ id orig, q.jobIDToOriginalJobID.get? id = some orig → q.HasID orig id ∧ ¬ q.Live id
  nodup : q.activeGenerators.Nodup
  active : ∀ id, id ∈ q.activeGenerators ↔ ∃ u, q.activeGeneratorIDs.get? id = some u
  exists_generator : ∀ id ∈ q.activeGenerators, ∃ g, q.generators.get? id = some g
  idle : ∀ id g, q.generators.get? id = some g → id ∉ q.activeGenerators →
    (∃ orig job, g.givenJobs.get? orig = some job) ∨ g.Finished
  tested : ∀ id g, q.generators.get? id = some g → ¬ g.Finished → q.status.Active g.submissionID

variable {q q' : Queue F}

/-- The submission of another generator is another one. -/
theorem Invariant.other_submission (h : Invariant q) {id a : GeneratorID} {g : Generator F}
    (hg : q.generators.get? id = some g) (ha : a ≠ id) {s : SubmissionID} {finished : Prop}
    (hp : q.progress a = some (s, finished)) : s ≠ g.submissionID := by
  rintro rfl
  obtain ⟨g', hg', hsame, -⟩ := progress_eq_some.1 hp
  exact ha (h.distinct _ _ _ _ hg' hg hsame)

theorem invariant_new : Invariant (new : Queue F) where
  healthy _ _ h := nomatch h
  distinct _ _ _ _ h := nomatch h
  given _ _ := ⟨fun h => (nomatch h), fun ⟨_, h, _⟩ => (nomatch h)⟩
  job _ h := absurd h fun ⟨_, h⟩ => (nomatch h)
  live _ _ h := nomatch h
  object _ _ _ h := nomatch h
  renamed _ _ h := nomatch h
  nodup := .nil
  active _ := ⟨fun h => (nomatch h), fun ⟨_, h⟩ => (nomatch h)⟩
  exists_generator _ h := nomatch h
  idle _ _ h := nomatch h
  tested _ _ h := nomatch h

/-! ## The IDs of the live jobs -/

theorem Invariant.exists_object (h : Invariant q) {orig : JobID} (hl : q.Live orig) :
    ∃ job, q.jobs.get? orig = some job ∧
      (job.id = orig ∨ q.jobIDToOriginalJobID.get? job.id = some orig) := by
  obtain ⟨id, hid⟩ := hl
  obtain ⟨g, hg, -⟩ := (h.given orig id).1 hid
  obtain ⟨job, hjob, -, hor⟩ := h.object orig id g hid hg
  exact ⟨job, hjob, hor⟩

/-- How the queue finds a live job. -/
theorem Invariant.resolve (h : Invariant q) {orig id : JobID} (hid : q.HasID orig id) :
    q.jobIDToOriginalJobID.get? id = some orig ∨
      id = orig ∧ q.jobIDToOriginalJobID.get? id = none := by
  obtain ⟨hl, job, hjob, rfl⟩ := hid
  obtain ⟨job', hjob', hor⟩ := h.exists_object hl
  obtain rfl := Option.some.inj (hjob.symm.trans hjob')
  rcases hor with heq | hren
  · refine .inr ⟨heq, ?_⟩
    cases hget : q.jobIDToOriginalJobID.get? job.id with
    | none => rfl
    | some orig' => exact absurd (heq ▸ hl) (h.renamed _ _ hget).2
  · exact .inl hren

theorem Invariant.hasID_unique (h : Invariant q) {orig orig' id : JobID} (hid : q.HasID orig id)
    (hid' : q.HasID orig' id) : orig = orig' := by
  rcases h.resolve hid with hren | ⟨heq, hnone⟩ <;> rcases h.resolve hid' with hren' | ⟨heq', hnone'⟩
  · exact Option.some.inj (hren.symm.trans hren')
  · simp [hren] at hnone'
  · simp [hren'] at hnone
  · exact heq.symm.trans heq'

omit [Add F] [Min F] [Zero F] [One F] in
theorem HasID.eq {orig id id' : JobID} (hid : q.HasID orig id) (hid' : q.HasID orig id') :
    id = id' := by
  obtain ⟨-, job, hjob, rfl⟩ := hid
  obtain ⟨-, job', hjob', rfl⟩ := hid'
  rw [Option.some.inj (hjob.symm.trans hjob')]

/-- The ID of a live job is not new. -/
theorem Invariant.fresh_ne (h : Invariant q) {orig id newID : JobID} (hf : q.Fresh newID)
    (hid : q.HasID orig id) : newID ≠ id ∧ newID ≠ orig := by
  refine ⟨?_, ?_⟩
  · rintro rfl
    rcases h.resolve hid with hren | ⟨rfl, -⟩
    · rw [hf.2] at hren
      cases hren
    · exact hf.1 hid.1
  · rintro rfl
    exact hf.1 hid.1

end Queue

end TestingSystem
