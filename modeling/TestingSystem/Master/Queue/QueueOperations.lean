import TestingSystem.Master.Queue.QueueInvariant

/-!
# The operations of the queue

What `Submit`, `NextJob`, `JobCompleted` and `RescheduleJob` do in a state that meets the invariant.
A call with an ID that no live job has now and that is not the original ID of one is rejected
(`jobCompleted_dead`, `rescheduleJob_dead`).
-/

set_option autoImplicit false

namespace TestingSystem

/-- A call of `NextJob` of a generator, with an ID that it has not given. -/
def Generator.Asked {F : Type} [Zero F] (id : JobID) (g g' : Generator F) : Prop :=
  g.givenJobs.get? id = none ∧ ∃ job, g.nextJob id = .ok (job, g')

namespace Queue

variable {F : Type} [Add F] [Min F] [Zero F] [One F] {q : Queue F}

/-! ## Properties of all generators -/

/-- All generators have the property. -/
def Every (P : Generator F → Prop) (q : Queue F) : Prop :=
  ∀ gid g, q.generators.get? gid = some g → P g

section Every

variable {P : Generator F → Prop} {q' : Queue F}

omit [Add F] [Min F] [Zero F] [One F] in
theorem Every.of_eq (h : q.Every P) (heq : q'.generators = q.generators) : q'.Every P := by
  intro gid g hg
  exact h gid g (heq ▸ hg)

omit [Add F] [Min F] [Zero F] [One F] in
theorem Every.set (h : q.Every P) {gid : GeneratorID} {g : Generator F} (hg : P g)
    (hset : q'.generators = q.generators.set gid g) : q'.Every P := by
  intro a b hget
  rw [hset] at hget
  rcases GoMap.of_get?_set hget with ⟨-, rfl⟩ | ⟨-, hold⟩
  · exact hg
  · exact h a b hold

end Every

/-! ## Submit -/

/-- A submission that is accepted gets a new generator. -/
theorem submit_generator {id : GeneratorID} {problem : Problem F} {sub : Submission F} {epoch : Epoch}
    {q' : Queue F} (he : q.submit id problem sub epoch = .ok (.ok q')) :
    ∃ g, Generator.new id problem sub = .ok g ∧ q'.generators = q.generators.set id g := by
  unfold Queue.submit at he
  cases hg : Generator.new id problem sub with
  | error err => simp [hg] at he
  | ok g =>
    simp only [hg] at he
    obtain ⟨status, -, he⟩ := bind_eq_ok.1 he
    cases he
    exact ⟨g, rfl, by rw [(Generator.new_good hg).1]⟩

omit [Add F] [Min F] [Zero F] [One F] in
/-- A submission in testing is not accepted again. -/
theorem submit_new {id : GeneratorID} {problem : Problem F} {sub : Submission F} {epoch : Epoch}
    {q' : Queue F} (he : q.submit id problem sub epoch = .ok (.ok q')) :
    ¬ q.status.Active sub.id := by
  unfold Queue.submit at he
  cases hg : Generator.new id problem sub with
  | error err => simp [hg] at he
  | ok g =>
    simp only [hg] at he
    obtain ⟨status, hstatus, -⟩ := bind_eq_ok.1 he
    exact (QueueStatus.addSubmission_ok hstatus).1

/-- What a call of `Submit` that accepts the problem does. -/
structure Submitted (q : Queue F) (id : GeneratorID) (s : SubmissionID) (q' : Queue F) : Prop where
  invariant : q'.Invariant
  live : ∀ o, q'.Live o ↔ q.Live o
  jobs : q'.jobs = q.jobs
  failed : q'.newFailedJobs = q.newFailedJobs
  renamed : q'.jobIDToOriginalJobID = q.jobIDToOriginalJobID
  status : ¬ q.status.Active s ∧ ∀ a, q'.status.Active a ↔ a = s ∨ q.status.Active a
  generators : ∃ g, q'.generators = q.generators.set id g ∧ g.submissionID = s ∧ ¬ g.Finished

theorem Invariant.submit (h : Invariant q) {id : GeneratorID} {problem : Problem F}
    {sub : Submission F} {epoch : Epoch} (hid : q.generators.get? id = none)
    (hnew : ∀ id' g, q.generators.get? id' = some g → g.submissionID ≠ sub.id) {q' : Queue F}
    (he : q.submit id problem sub epoch = .ok (.ok q')) : Submitted q id sub.id q' := by
  unfold Queue.submit at he
  cases hg : Generator.new id problem sub with
  | error err => simp [hg] at he
  | ok g =>
    simp only [hg] at he
    obtain ⟨status, hstatus, he⟩ := bind_eq_ok.1 he
    cases he
    obtain ⟨rfl, hsub, hfin, hhealthy⟩ := Generator.healthy_new hg
    obtain ⟨hnot, hactive⟩ := QueueStatus.addSubmission_ok hstatus
    have hnone : ∀ orig, g.givenJobs.get? orig = none := Generator.new_given hg
    have hmem : g.id ∉ q.activeGenerators := fun hmem => by
      obtain ⟨g', hg'⟩ := h.exists_generator _ hmem
      rw [hid] at hg'
      cases hg'
    refine ⟨⟨fun id' g' hget => ?_, fun id' id'' g' g'' hget hget' hs => ?_, fun orig id' => ?_,
      h.job, h.live, fun orig id' g' ho hget => ?_, h.renamed, ?_, fun id' => ?_, fun id' hmem' => ?_,
      fun id' g' hget hidle => ?_, fun id' g' hget hfin' => ?_⟩, fun _ => Iff.rfl, rfl, rfl, rfl,
      ⟨hnot, hactive⟩, g, rfl, hsub, hfin⟩
    · -- `healthy`, for the new generator and for the old ones
      rcases GoMap.of_get?_set hget with ⟨heq, rfl⟩ | ⟨-, hget⟩
      · exact ⟨heq.symm, hhealthy⟩
      · exact h.healthy id' g' hget
    · rcases GoMap.of_get?_set hget with ⟨heq, rfl⟩ | ⟨-, hold⟩ <;>
        rcases GoMap.of_get?_set hget' with ⟨heq', rfl⟩ | ⟨-, hold'⟩
      · exact heq.trans heq'.symm
      · exact absurd (hs.symm.trans hsub) (hnew _ _ hold')
      · exact absurd (hs.trans hsub) (hnew _ _ hold)
      · exact h.distinct _ _ _ _ hold hold' hs
    · -- `given`: a new generator has given nothing
      rw [h.given orig id']
      simp only [GoMap.get?_set]
      by_cases heq : id' = g.id
      · subst heq
        simp [hid, hnone]
      · simp [heq]
    · rcases GoMap.of_get?_set hget with ⟨heq, -⟩ | ⟨-, hget⟩
      · obtain ⟨g'', hg'', -⟩ := (h.given orig id').1 ho
        rw [heq, hid] at hg''
        cases hg''
      · exact h.object orig id' g' ho hget
    · exact List.concat_eq_append ▸ h.nodup.concat hmem
    · -- `active` and what follows it: the new generator is active
      rw [List.mem_append, List.mem_singleton, h.active id', GoMap.get?_set]
      by_cases heq : id' = g.id <;> simp [heq]
    · rw [GoMap.get?_set]
      by_cases heq : id' = g.id
      · exact ⟨g, if_pos heq⟩
      · rw [if_neg heq]
        rcases List.mem_append.1 hmem' with hold | hlast
        · exact h.exists_generator id' hold
        · exact absurd (List.mem_singleton.1 hlast) heq
    · have heq : id' ≠ g.id := by
        rintro rfl
        exact hidle (List.mem_append_right _ (List.mem_singleton_self _))
      rw [GoMap.get?_set_ne _ _ heq] at hget
      exact h.idle id' g' hget fun hold => hidle (List.mem_append_left _ hold)
    · rw [hactive]
      rcases GoMap.of_get?_set hget with ⟨-, rfl⟩ | ⟨-, hget⟩
      · exact .inl hsub
      · exact .inr (h.tested id' g' hget hfin')

/-! ## NextJob -/

/-- What the loop of `NextJob` does. -/
structure Chosen (q : Queue F) (id : JobID) (r : Option JobRef) (q' : Queue F) : Prop where
  invariant : q'.Invariant
  progress : ∀ g, q'.progress g = q.progress g
  failed : q'.newFailedJobs = q.newFailedJobs
  renamed : q'.jobIDToOriginalJobID = q.jobIDToOriginalJobID
  status : q'.status = q.status
  generators : ∀ a g', q'.generators.get? a = Option.some g' →
    ∃ g, q.generators.get? a = Option.some g ∧ Relation.ReflTransGen (Generator.Asked id) g g'
  none : r = none → q'.activeGenerators = [] ∧ (∀ o, q'.Live o ↔ q.Live o) ∧ q'.jobs = q.jobs
  some : ∀ ref, r = some ref → ref = id ∧ (∀ o, q'.Live o ↔ q.Live o ∨ o = id) ∧
    ∃ job, q'.jobs = q.jobs.set id job ∧ job.id = id

/-- What a call of a generator keeps, the loop keeps. -/
theorem Chosen.every {q' : Queue F} {id : JobID} {r : Option JobRef} (h : Chosen q id r q')
    {P : Generator F → Prop} (hP : q.Every P) (hasked : ∀ g g', P g → g.Asked id g' → P g') :
    q'.Every P := by
  intro gid g' hget
  obtain ⟨g, hg, hcalls⟩ := h.generators gid g' hget
  clear hget
  induction hcalls with
  | refl => exact hP gid g hg
  | tail _ hcall ih => exact hasked _ _ ih hcall

omit [Add F] [Min F] [Zero F] [One F] in
/-- An operation that draws the UUID `id` leaves the other UUIDs new. -/
theorem Fresh.of {q' : Queue F} {id : JobID} (hlive : ∀ o, q'.Live o → q.Live o ∨ o = id)
    (hrenamed : ∀ x o, q'.jobIDToOriginalJobID.get? x = some o →
      x = id ∨ q.jobIDToOriginalJobID.get? x = some o) {x : JobID} (h : q.Fresh x) (hx : x ≠ id) :
    q'.Fresh x := by
  refine ⟨fun hl => ?_, ?_⟩
  · exact (hlive x hl).elim h.1 hx
  · cases hget : q'.jobIDToOriginalJobID.get? x with
    | none => rfl
    | some o =>
      rcases hrenamed x o hget with heq | hold
      · exact absurd heq hx
      · rw [h.2] at hold
        cases hold

theorem Chosen.live {q' : Queue F} {id : JobID} {r : Option JobRef} (h : Chosen q id r q')
    (o : JobID) (ho : q'.Live o) : q.Live o ∨ o = id := by
  cases r with
  | none => exact .inl (((h.none rfl).2.1 o).1 ho)
  | some ref => exact ((h.some ref rfl).2.1 o).1 ho

theorem Chosen.jobs {q' : Queue F} {id : JobID} {r : Option JobRef} (h : Chosen q id r q')
    (o : JobRef) (ho : o ≠ id) : q'.jobs.get? o = q.jobs.get? o := by
  cases r with
  | none => rw [(h.none rfl).2.2]
  | some ref =>
    obtain ⟨-, -, job, hjobs, -⟩ := h.some ref rfl
    rw [hjobs, GoMap.get?_set_ne _ _ ho]

theorem Chosen.fresh {q' : Queue F} {id : JobID} {r : Option JobRef} (h : Chosen q id r q')
    {x : JobID} (hf : q.Fresh x) (hx : x ≠ id) : q'.Fresh x :=
  hf.of h.live (fun _ _ hget => .inr (h.renamed ▸ hget)) hx

/-- The IDs of the live jobs after the loop. -/
theorem Chosen.hasID {q' : Queue F} {id : JobID} {r : Option JobRef} (h : Chosen q id r q')
    (hf : q.Fresh id) (o x : JobID) :
    q'.HasID o x ↔ q.HasID o x ∨ r = Option.some id ∧ o = id ∧ x = id := by
  cases r with
  | none =>
    obtain ⟨-, hlive, hjobs⟩ := h.none rfl
    simp [HasID, hlive, hjobs]
  | some ref =>
    obtain ⟨rfl, hlive, job, hjobs, hjid⟩ := h.some ref rfl
    simp only [HasID, hlive, hjobs, GoMap.get?_set]
    by_cases ho : o = ref
    · simp [ho, hjid, hf.1, eq_comm]
    · simp [ho]

section Replace

variable {gid : GeneratorID} {g g' : Generator F}

theorem Invariant.healthy_replaced (h : Invariant q) (hg : q.generators.get? gid = some g)
    (hid : g'.id = g.id) (hh : g'.Healthy) (a : GeneratorID) (g₁ : Generator F)
    (hget : (q.generators.set gid g').get? a = some g₁) : g₁.id = a ∧ g₁.Healthy := by
  rcases GoMap.of_get?_set hget with ⟨rfl, rfl⟩ | ⟨-, hold⟩
  · exact ⟨hid.trans (h.healthy _ _ hg).1, hh⟩
  · exact h.healthy a g₁ hold

omit [Add F] [Min F] [Zero F] [One F] in
theorem submissionID_replaced (hg : q.generators.get? gid = some g)
    (hs : g'.submissionID = g.submissionID) {a : GeneratorID} {g₁ : Generator F}
    (hget : (q.generators.set gid g').get? a = some g₁) :
    ∃ g₀, q.generators.get? a = some g₀ ∧ g₁.submissionID = g₀.submissionID := by
  rcases GoMap.of_get?_set hget with ⟨rfl, rfl⟩ | ⟨-, hold⟩
  · exact ⟨g, hg, hs⟩
  · exact ⟨g₁, hold, rfl⟩

theorem Invariant.distinct_replaced (h : Invariant q) (hg : q.generators.get? gid = some g)
    (hs : g'.submissionID = g.submissionID) (a b : GeneratorID) (g₁ g₂ : Generator F)
    (ha : (q.generators.set gid g').get? a = some g₁)
    (hb : (q.generators.set gid g').get? b = some g₂) (heq : g₁.submissionID = g₂.submissionID) :
    a = b := by
  obtain ⟨g₁', ha', hs₁⟩ := submissionID_replaced hg hs ha
  obtain ⟨g₂', hb', hs₂⟩ := submissionID_replaced hg hs hb
  exact h.distinct _ _ _ _ ha' hb' (hs₁.symm.trans (heq.trans hs₂))

theorem Invariant.tested_replaced (h : Invariant q) (hg : q.generators.get? gid = some g)
    (hs : g'.submissionID = g.submissionID) (hf : ¬ g'.Finished → ¬ g.Finished) {a : GeneratorID}
    {g₁ : Generator F} (hget : (q.generators.set gid g').get? a = some g₁) (hfin : ¬ g₁.Finished) :
    q.status.Active g₁.submissionID := by
  rcases GoMap.of_get?_set hget with ⟨rfl, rfl⟩ | ⟨-, hold⟩
  · rw [hs]
    exact h.tested a g hg (hf hfin)
  · exact h.tested a g₁ hold hfin

omit [Add F] [Min F] [One F] in
theorem asked_replaced (hg : q.generators.get? gid = some g) {id : JobID} (hasked : g.Asked id g')
    {a : GeneratorID} {g₁ : Generator F} (hget : (q.generators.set gid g').get? a = some g₁) :
    ∃ g₀, q.generators.get? a = some g₀ ∧ Relation.ReflTransGen (Generator.Asked id) g₀ g₁ := by
  rcases GoMap.of_get?_set hget with ⟨rfl, rfl⟩ | ⟨-, hold⟩
  · exact ⟨g, hg, .single hasked⟩
  · exact ⟨g₁, hold, .refl⟩

omit [Add F] [Min F] [Zero F] [One F] in
theorem exists_replaced {a : GeneratorID} (ha : ∃ g₀, q.generators.get? a = some g₀) :
    ∃ g₁, (q.generators.set gid g').get? a = some g₁ := by
  rw [GoMap.get?_set]
  split
  · exact ⟨_, rfl⟩
  · exact ha

omit [Add F] [Min F] [Zero F] [One F] in
theorem progress_replaced (hg : q.generators.get? gid = some g)
    (hs : g'.submissionID = g.submissionID) (hf : g'.Finished ↔ g.Finished) (a : GeneratorID) :
    ((q.generators.set gid g').get? a).map (fun g => (g.submissionID, g.Finished)) =
      q.progress a := by
  rw [progress, GoMap.get?_set]
  by_cases ha : a = gid
  · rw [if_pos ha, ha, hg, Option.map_some, Option.map_some, hs, propext hf]
  · rw [if_neg ha]

end Replace

/-- A generator that gives no job is dropped. -/
theorem Invariant.drop (h : Invariant q) {gid : GeneratorID} {rest : List GeneratorID}
    (hactive : q.activeGenerators = gid :: rest) {g g' : Generator F} {id : JobID}
    (hg : q.generators.get? gid = some g) (hsel : g.Selected id none g') :
    Invariant { q with
      generators := q.generators.set gid g'
      activeGenerators := rest
      activeGeneratorIDs := q.activeGeneratorIDs.delete gid } := by
  obtain ⟨hgiven, hrun⟩ := hsel.none rfl
  have hnodup := h.nodup
  rw [hactive, List.nodup_cons] at hnodup
  refine ⟨h.healthy_replaced hg hsel.id_eq hsel.healthy,
    h.distinct_replaced hg hsel.submissionID_eq, fun orig a => ?_, h.job, h.live,
    fun orig a g₁ ho hget => ?_, h.renamed, hnodup.2, fun a => ?_, fun a ha => ?_,
    fun a g₁ hget hidle => ?_, fun a g₁ hget hfin => ?_⟩
  · -- `given`: the generator has given the same jobs as before
    rw [h.given orig a]
    simp only [GoMap.get?_set]
    by_cases ha : a = gid
    · subst ha
      simp [hg, hgiven]
    · simp [ha]
  · obtain ⟨g₀, hget', hs⟩ := submissionID_replaced hg hsel.submissionID_eq hget
    rw [hs]
    exact h.object orig a g₀ ho hget'
  · have hold := h.active a
    rw [hactive, List.mem_cons] at hold
    rw [GoMap.get?_delete]
    by_cases ha : a = gid
    · subst ha
      simp [hnodup.1]
    · simpa [ha] using hold
  · exact exists_replaced (h.exists_generator a (hactive ▸ List.mem_cons_of_mem _ ha))
  · -- `idle`: a generator that gives nothing has a job out or is finished
    rcases GoMap.of_get?_set hget with ⟨rfl, rfl⟩ | ⟨ha, hold⟩
    · rw [hgiven, hsel.finished]
      exact hrun
    · refine h.idle a g₁ hold ?_
      rw [hactive, List.mem_cons]
      rintro (heq | hmem)
      · exact ha heq
      · exact hidle hmem
  · exact h.tested_replaced hg hsel.submissionID_eq (mt hsel.finished.2) hget hfin

/-- A generator that gives a job moves to the end, and the maps get the job. -/
theorem Invariant.give (h : Invariant q) {gid : GeneratorID} {rest : List GeneratorID}
    (hactive : q.activeGenerators = gid :: rest) {g g' : Generator F} {id : JobID} {job : Job}
    (hg : q.generators.get? gid = some g) (hsel : g.Selected id (some job) g') (hf : q.Fresh id) :
    Invariant { q with
      generators := q.generators.set gid g'
      activeGenerators := rest ++ [gid]
      originalJobIDToGenerator := q.originalJobIDToGenerator.set id gid
      originalJobIDToJob := q.originalJobIDToJob.set id id
      jobs := q.jobs.set id job } := by
  obtain ⟨hjid, hsubmit, hgiven⟩ := hsel.some job rfl
  have hperm : (rest ++ [gid]).Perm q.activeGenerators := by
    rw [hactive]
    exact List.perm_append_singleton gid rest
  have hmem : gid ∈ q.activeGenerators := by
    rw [hactive]
    exact List.mem_cons_self
  have hlive : ∀ o a, (q.originalJobIDToGenerator.set id gid).get? o = some a ↔
      o = id ∧ a = gid ∨ o ≠ id ∧ q.originalJobIDToGenerator.get? o = some a := by
    intro o a
    rw [GoMap.get?_set]
    by_cases ho : o = id <;> simp [ho, eq_comm]
  refine ⟨h.healthy_replaced hg hsel.id_eq hsel.healthy,
    h.distinct_replaced hg hsel.submissionID_eq, fun orig a => ?_, fun orig ho => ?_,
    fun orig ref hget => ?_, fun orig a g₁ ho hget => ?_, fun x orig hget => ?_, ?_, fun a => ?_,
    fun a ha => ?_, fun a g₁ hget hidle => ?_, fun a g₁ hget hfin => ?_⟩
  · -- `given`: the new job is given by `gid`, the others by the same generators as before
    rw [hlive]
    constructor
    · rintro (⟨rfl, rfl⟩ | ⟨hne, hold⟩)
      · exact ⟨g', GoMap.get?_set_self _ _ _, job, by rw [hgiven, GoMap.get?_set_self]⟩
      · obtain ⟨g₀, hg₀, job₀, hjob₀⟩ := (h.given orig a).1 hold
        by_cases ha : a = gid
        · obtain rfl := Option.some.inj ((ha ▸ hg₀).symm.trans hg)
          refine ⟨g', by rw [ha, GoMap.get?_set_self], job₀, ?_⟩
          rw [hgiven, GoMap.get?_set_ne _ _ hne, hjob₀]
        · exact ⟨g₀, by rw [GoMap.get?_set_ne _ _ ha, hg₀], job₀, hjob₀⟩
    · rintro ⟨g₁, hget, job₁, hjob₁⟩
      rcases GoMap.of_get?_set hget with ⟨rfl, rfl⟩ | ⟨ha, hold⟩
      · by_cases ho : orig = id
        · exact .inl ⟨ho, rfl⟩
        · rw [hgiven, GoMap.get?_set_ne _ _ ho] at hjob₁
          exact .inr ⟨ho, (h.given orig a).2 ⟨g, hg, job₁, hjob₁⟩⟩
      · have hl := (h.given orig a).2 ⟨g₁, hold, job₁, hjob₁⟩
        exact .inr ⟨fun ho => hf.1 (ho ▸ ⟨a, hl⟩), hl⟩
  · -- `job` and `live`: the two maps of live jobs get the same key
    obtain ⟨a, ha⟩ := ho
    rw [GoMap.get?_set]
    rcases (hlive orig a).1 ha with ⟨rfl, -⟩ | ⟨hne, hold⟩
    · exact if_pos rfl
    · rw [if_neg hne]
      exact h.job orig ⟨a, hold⟩
  · by_cases ho : orig = id
    · exact ⟨gid, (hlive orig gid).2 (.inl ⟨ho, rfl⟩)⟩
    · rw [GoMap.get?_set_ne _ _ ho] at hget
      obtain ⟨a, ha⟩ := h.live orig ref hget
      exact ⟨a, (hlive orig a).2 (.inr ⟨ho, ha⟩)⟩
  · -- `object`: the new job is found under its own ID
    rcases (hlive orig a).1 ho with ⟨rfl, rfl⟩ | ⟨hne, hold⟩
    · rw [GoMap.get?_set_self] at hget
      obtain rfl := Option.some.inj hget
      exact ⟨job, GoMap.get?_set_self _ _ _, hsubmit.trans hsel.submissionID_eq.symm, .inl hjid⟩
    · obtain ⟨g₀, hget', hs⟩ := submissionID_replaced hg hsel.submissionID_eq hget
      rw [hs, GoMap.get?_set_ne _ _ hne]
      exact h.object orig a g₀ hold hget'
  · -- `renamed`: the ID is fresh, so no job has it as a new ID
    obtain ⟨⟨⟨a, ha⟩, hobject⟩, hnot⟩ := h.renamed x orig hget
    have hne : orig ≠ id := fun heq => hf.1 (heq ▸ ⟨a, ha⟩)
    have hxne : x ≠ id := by
      rintro rfl
      rw [hf.2] at hget
      cases hget
    refine ⟨⟨⟨a, (hlive orig a).2 (.inr ⟨hne, ha⟩)⟩, ?_⟩, ?_⟩
    · rw [GoMap.get?_set_ne _ _ hne]
      exact hobject
    · rintro ⟨b, hb⟩
      rcases (hlive x b).1 hb with ⟨heq, -⟩ | ⟨-, hold⟩
      · exact hxne heq
      · exact hnot ⟨b, hold⟩
  · exact hperm.nodup_iff.2 h.nodup
  · exact hperm.mem_iff.trans (h.active a)
  · exact exists_replaced (h.exists_generator a (hperm.mem_iff.1 ha))
  · rcases GoMap.of_get?_set hget with ⟨rfl, rfl⟩ | ⟨-, hold⟩
    · exact absurd (hperm.mem_iff.2 hmem) hidle
    · exact h.idle a g₁ hold fun ha => hidle (hperm.mem_iff.2 ha)
  · exact h.tested_replaced hg hsel.submissionID_eq (mt hsel.finished.2) hget hfin

/-- The loop of `NextJob` asks the active generators in turn. -/
theorem Invariant.nextJobLoop (h : Invariant q) {id : JobID} (hf : q.Fresh id) {n : Nat}
    (hn : q.activeGenerators.length = n) :
    ∃ r q', q.nextJobLoop id n = .ok (r, q') ∧ Chosen q id r q' := by
  induction n generalizing q with
  | zero =>
    refine ⟨none, q, rfl, h, fun _ => rfl, rfl, rfl, rfl, fun a g hg => ⟨g, hg, .refl⟩, ?_,
      fun _ hr => (nomatch hr)⟩
    intro _
    exact ⟨List.length_eq_zero_iff.1 hn, fun _ => Iff.rfl, rfl⟩
  | succ n ih =>
    obtain ⟨gid, rest, hactive⟩ := List.exists_cons_of_length_eq_add_one hn
    obtain ⟨g, hg⟩ := h.exists_generator gid (hactive ▸ List.mem_cons_self)
    have hid : g.givenJobs.get? id = none := by
      cases hget : g.givenJobs.get? id with
      | none => rfl
      | some job => exact absurd ⟨gid, (h.given id gid).2 ⟨g, hg, job, hget⟩⟩ hf.1
    obtain ⟨r, g', he, hsel⟩ := (h.healthy gid g hg).2.nextJob hid
    simp only [Queue.nextJobLoop, hactive, hg, deref_some, ok_bind, he]
    have hprogress := progress_replaced hg hsel.submissionID_eq hsel.finished
    have hasked : g.Asked id g' := ⟨hid, r, he⟩
    cases r with
    | none =>
      have hdrop := h.drop hactive hg hsel
      have hlength : rest.length = n := by
        rw [hactive, List.length_cons] at hn
        omega
      obtain ⟨r, q', he', hc⟩ := ih hdrop hf hlength
      refine ⟨r, q', he', hc.invariant, fun a => (hc.progress a).trans (hprogress a), hc.failed,
        hc.renamed, hc.status, ?_, hc.none, hc.some⟩
      -- the call of this turn comes before those of the turns that follow
      intro a g₂ hget
      obtain ⟨g₁, hg₁, hcalls⟩ := hc.generators a g₂ hget
      obtain ⟨g₀, hg₀, hcall⟩ := asked_replaced hg hasked hg₁
      exact ⟨g₀, hg₀, hcall.trans hcalls⟩
    | some job =>
      obtain ⟨hjid, -, -⟩ := hsel.some job rfl
      have hgive := h.give hactive hg hsel hf
      simp only [hjid]
      refine ⟨some id, _, rfl, hgive, hprogress, rfl, rfl, rfl,
        fun a g₁ hget => asked_replaced hg hasked hget, fun hr => (nomatch hr), ?_⟩
      intro ref hr
      refine ⟨(Option.some.inj hr).symm, ?_, job, rfl, hjid⟩
      intro o
      simp only [Live, GoMap.get?_set]
      by_cases ho : o = id <;> simp [ho]

/-- What a call of `NextJob` does. -/
theorem Invariant.nextJob (h : Invariant q) {id : JobID} (hf : q.Fresh id) :
    ∃ r q', q.nextJob id = .ok (r, q') ∧
      ((∃ ref rest, q.newFailedJobs = ref :: rest ∧ r = some ref ∧
          q' = { q with newFailedJobs := rest }) ∨
        q.newFailedJobs = [] ∧ Chosen q id r q') := by
  unfold Queue.nextJob
  cases hfailed : q.newFailedJobs with
  | cons ref rest => exact ⟨some ref, _, rfl, .inl ⟨ref, rest, rfl, rfl, rfl⟩⟩
  | nil =>
    obtain ⟨r, q', he, hc⟩ := h.nextJobLoop hf rfl
    exact ⟨r, q', he, .inr ⟨rfl, hc⟩⟩

theorem Invariant.nextJob_cases (h : Invariant q) {id : JobID} (hf : q.Fresh id) {r : Option JobRef}
    {q' : Queue F} (he : q.nextJob id = .ok (r, q')) :
    (∃ ref rest, q.newFailedJobs = ref :: rest ∧ r = some ref ∧
        q' = { q with newFailedJobs := rest }) ∨
      q.newFailedJobs = [] ∧ Chosen q id r q' := by
  obtain ⟨r', q'', he', hcases⟩ := h.nextJob hf
  cases he.symm.trans he'
  exact hcases

/-- The invariant does not mention the failed jobs. -/
theorem Invariant.of_failed (h : Invariant q) (failed : List JobRef) :
    Invariant { q with newFailedJobs := failed } :=
  ⟨h.healthy, h.distinct, h.given, h.job, h.live, h.object, h.renamed, h.nodup, h.active,
    h.exists_generator, h.idle, h.tested⟩

/-! ## The maps without a resolved ID -/

/-- `m` is the map of the new IDs without `id`. -/
def Without (q : Queue F) (id : JobID) (m : GoMap JobID JobID) : Prop :=
  ∀ x, m.get? x = if x = id then none else q.jobIDToOriginalJobID.get? x

/-- Without the ID of one live job, the map still holds the new IDs of the others. -/
theorem Invariant.renamed_without (h : Invariant q) {orig id : JobID} (hid : q.HasID orig id)
    {m : GoMap JobID JobID} (hm : q.Without id m) {x o : JobID} (hget : m.get? x = some o) :
    o ≠ orig ∧ q.HasID o x ∧ ¬ q.Live x := by
  rw [hm x] at hget
  split at hget
  · cases hget
  · next hx =>
    obtain ⟨ho, hnot⟩ := h.renamed x o hget
    refine ⟨?_, ho, hnot⟩
    rintro rfl
    exact hx (ho.eq hid)

theorem Invariant.object_without (h : Invariant q) {orig id : JobID} (hid : q.HasID orig id)
    {m : GoMap JobID JobID} (hm : q.Without id m) {o : JobID} (hne : o ≠ orig) {a : GeneratorID}
    {g : Generator F} (ho : q.originalJobIDToGenerator.get? o = some a)
    (hg : q.generators.get? a = some g) :
    ∃ job, q.jobs.get? o = some job ∧ job.submitID = g.submissionID ∧
      (job.id = o ∨ m.get? job.id = some o) := by
  obtain ⟨job, hjob, hs, hor⟩ := h.object o a g ho hg
  refine ⟨job, hjob, hs, hor.imp_right fun hren => ?_⟩
  rw [hm job.id, if_neg, hren]
  intro heq
  exact hne (h.hasID_unique ⟨⟨a, ho⟩, job, hjob, heq⟩ hid)

/-! ## RescheduleJob -/

/-- What a call of `RescheduleJob` with the ID of a live job does. -/
structure Rescheduled (q : Queue F) (orig id newID : JobID) (q' : Queue F) : Prop where
  invariant : q'.Invariant
  live : ∀ o, q'.Live o ↔ q.Live o
  failed : q'.newFailedJobs = q.newFailedJobs ++ [orig]
  generators : q'.generators = q.generators
  status : q'.status = q.status
  hasID : q'.HasID orig newID
  object : ∀ job, q.jobs.get? orig = some job → q'.jobs.get? orig = some { job with id := newID }
  jobs : ∀ o, o ≠ orig → q'.jobs.get? o = q.jobs.get? o
  renamed : ∀ x o, q'.jobIDToOriginalJobID.get? x = some o →
    x = newID ∨ q.jobIDToOriginalJobID.get? x = some o

theorem Rescheduled.fresh {q' : Queue F} {orig id newID : JobID}
    (h : Rescheduled q orig id newID q') {x : JobID} (hf : q.Fresh x) (hx : x ≠ newID) :
    q'.Fresh x :=
  hf.of (fun o ho => .inl ((h.live o).1 ho)) h.renamed hx

omit [Add F] [Min F] [Zero F] [One F] in
theorem hasID_set_of_ne {q' : Queue F} (hlive : ∀ o, q'.Live o ↔ q.Live o) {o : JobID}
    (hjobs : q'.jobs.get? o = q.jobs.get? o) (x : JobID) : q'.HasID o x ↔ q.HasID o x := by
  rw [HasID, HasID, hlive, hjobs]

/-- The IDs of the live jobs after a job was rescheduled. -/
theorem Rescheduled.hasID_iff {q' : Queue F} {orig id newID : JobID}
    (h : Rescheduled q orig id newID q') (o x : JobID) :
    q'.HasID o x ↔ o = orig ∧ x = newID ∨ o ≠ orig ∧ q.HasID o x := by
  by_cases ho : o = orig
  · subst ho
    simp only [true_and, ne_eq, not_true_eq_false, false_and, or_false]
    exact ⟨fun hx => hx.eq h.hasID, fun hx => hx ▸ h.hasID⟩
  · rw [hasID_set_of_ne h.live (h.jobs o ho)]
    simp [ho]

theorem Invariant.requeue (h : Invariant q) {orig id newID : JobID} (hid : q.HasID orig id)
    (hf : q.Fresh newID) {m : GoMap JobID JobID} (hm : q.Without id m) :
    ∃ q', ({ q with jobIDToOriginalJobID := m } : Queue F).requeue orig orig newID =
        .ok (q', .ok ()) ∧ Rescheduled q orig id newID q' := by
  have hl := hid.1
  obtain ⟨job, hjob, -⟩ := hid.2
  let q' : Queue F := { q with
    jobs := q.jobs.set orig { job with id := newID }
    jobIDToOriginalJobID := m.set newID orig
    newFailedJobs := q.newFailedJobs ++ [orig] }
  have hhasID : q'.HasID orig newID := ⟨hl, _, GoMap.get?_set_self _ _ _, rfl⟩
  refine ⟨q', by simp [Queue.requeue, hjob, pure, Except.pure, q'],
    ⟨h.healthy, h.distinct, h.given, h.job, h.live, fun o a g ho hg => ?_, fun x o hget => ?_,
      h.nodup, h.active, h.exists_generator, h.idle, h.tested⟩, fun _ => Iff.rfl, rfl, rfl, rfl,
    hhasID, fun job' hjob' => ?_, fun o hne => GoMap.get?_set_ne _ _ hne, fun x o hget => ?_⟩
  · -- `object`: the object of `orig` has the new ID, the others keep theirs
    by_cases hne : o = orig
    · obtain ⟨job', hjob', hs, -⟩ := h.object o a g ho hg
      rw [hne, hjob] at hjob'
      obtain rfl := Option.some.inj hjob'
      refine ⟨{ job with id := newID }, ?_, hs, .inr ?_⟩
      · rw [hne]
        exact GoMap.get?_set_self _ _ _
      · rw [hne]
        exact GoMap.get?_set_self _ _ _
    · obtain ⟨job', hjob', hs, hor⟩ := h.object_without hid hm hne ho hg
      have hnew := (h.fresh_ne hf ⟨⟨a, ho⟩, job', hjob', rfl⟩).1
      refine ⟨job', (GoMap.get?_set_ne _ _ hne).trans hjob', hs, hor.imp_right fun hren => ?_⟩
      exact (GoMap.get?_set_ne _ _ hnew.symm).trans hren
  · change (m.set newID orig).get? x = some o at hget
    rcases GoMap.of_get?_set hget with ⟨hx, rfl⟩ | ⟨-, hget⟩
    · rw [hx]
      exact ⟨hhasID, hf.1⟩
    · obtain ⟨hne, ⟨ho, job', hjob', hjid⟩, hnot⟩ := h.renamed_without hid hm hget
      exact ⟨⟨ho, job', (GoMap.get?_set_ne _ _ hne).trans hjob', hjid⟩, hnot⟩
  · obtain rfl := Option.some.inj (hjob.symm.trans hjob')
    exact GoMap.get?_set_self _ _ _
  · change (m.set newID orig).get? x = some o at hget
    rcases GoMap.of_get?_set hget with ⟨hx, -⟩ | ⟨-, hget⟩
    · exact .inl hx
    · rw [hm x] at hget
      split at hget
      · cases hget
      · exact .inr hget

omit [Add F] [Min F] [Zero F] [One F] in
theorem without_delete (id : JobID) : q.Without id (q.jobIDToOriginalJobID.delete id) := fun x => by
  rw [GoMap.get?_delete]

omit [Add F] [Min F] [Zero F] [One F] in
theorem without_of_none {id : JobID} (h : q.jobIDToOriginalJobID.get? id = none) :
    q.Without id q.jobIDToOriginalJobID := fun x => by
  split
  · next hx => rw [hx, h]
  · rfl

theorem Invariant.rescheduleJob (h : Invariant q) {orig id newID : JobID} (hid : q.HasID orig id)
    (hf : q.Fresh newID) :
    ∃ q', q.rescheduleJob id newID = .ok (q', .ok ()) ∧ Rescheduled q orig id newID q' := by
  have hjob := h.job orig hid.1
  unfold Queue.rescheduleJob
  rcases h.resolve hid with hren | ⟨rfl, hnone⟩
  · obtain ⟨q', he, hr⟩ := h.requeue hid hf (without_delete id)
    exact ⟨q', by simp only [hren, hjob, he], hr⟩
  · obtain ⟨q', he, hr⟩ := h.requeue hid hf (without_of_none hnone)
    exact ⟨q', by simp only [hnone, hjob, he], hr⟩

/-! ## JobCompleted -/

omit [Add F] [Min F] [Zero F] [One F] in
theorem activate_eq (q : Queue F) (gid : GeneratorID) :
    ∃ active ids, q.activate gid = { q with activeGenerators := active, activeGeneratorIDs := ids } := by
  unfold activate
  split
  · exact ⟨_, _, rfl⟩
  · exact ⟨_, _, rfl⟩

/-- The active generators after one of them was put back. -/
theorem Invariant.activate (h : Invariant q) {gid : GeneratorID}
    (hg : ∃ g, q.generators.get? gid = some g) : Invariant (q.activate gid) ∧
      gid ∈ (q.activate gid).activeGenerators := by
  unfold Queue.activate
  cases hget : q.activeGeneratorIDs.get? gid with
  | some u => exact ⟨h, (h.active gid).2 ⟨u, hget⟩⟩
  | none =>
    have hnot : gid ∉ q.activeGenerators := fun hmem => by
      obtain ⟨u, hu⟩ := (h.active gid).1 hmem
      rw [hget] at hu
      cases hu
    refine ⟨⟨h.healthy, h.distinct, h.given, h.job, h.live, h.object, h.renamed, ?_, fun a => ?_,
      fun a ha => ?_, fun a g hga hidle => ?_, h.tested⟩,
      List.mem_append_right _ (List.mem_singleton_self _)⟩
    · exact List.concat_eq_append ▸ h.nodup.concat hnot
    · rw [List.mem_append, List.mem_singleton, h.active a, GoMap.get?_set]
      by_cases heq : a = gid <;> simp [heq]
    · rcases List.mem_append.1 ha with hold | hlast
      · exact h.exists_generator a hold
      · exact List.mem_singleton.1 hlast ▸ hg
    · exact h.idle a g hga fun hold => hidle (List.mem_append_left _ hold)

/-- What a call of `JobCompleted` with the ID of a live job does. -/
structure JobSettled (q : Queue F) (orig : JobID) (gid : GeneratorID) (g : Generator F)
    (c : Completed (Generator F) F) (q' : Queue F) : Prop where
  invariant : q'.Invariant
  live : ∀ o, q'.Live o ↔ q.Live o ∧ o ≠ orig
  jobs : q'.jobs = q.jobs
  failed : q'.newFailedJobs = q.newFailedJobs
  renamed : ∀ x o, q'.jobIDToOriginalJobID.get? x = some o →
    q.jobIDToOriginalJobID.get? x = some o
  status : ∀ s, q'.status.Active s ↔ q.status.Active s
  generator : q.originalJobIDToGenerator.get? orig = some gid ∧ q.generators.get? gid = some g
  generators : q'.generators = q.generators.set gid c.generator
  settled : g.Settled orig c

theorem JobSettled.fresh {q' : Queue F} {orig : JobID} {gid : GeneratorID} {g : Generator F}
    {c : Completed (Generator F) F} (h : JobSettled q orig gid g c q') {x : JobID}
    (hf : q.Fresh x) : q'.Fresh x := by
  refine ⟨fun hl => hf.1 ((h.live x).1 hl).1, ?_⟩
  cases hget : q'.jobIDToOriginalJobID.get? x with
  | none => rfl
  | some o =>
    have hold := h.renamed x o hget
    rw [hf.2] at hold
    cases hold

/-- The IDs of the live jobs after a job was completed. -/
theorem JobSettled.hasID_iff {q' : Queue F} {orig : JobID} {gid : GeneratorID} {g : Generator F}
    {c : Completed (Generator F) F} (h : JobSettled q orig gid g c q') (o x : JobID) :
    q'.HasID o x ↔ q.HasID o x ∧ o ≠ orig := by
  rw [HasID, HasID, h.live, h.jobs, and_right_comm]

/-- The generator that has a job given is not finished. -/
theorem Invariant.not_finished (h : Invariant q) {orig : JobID} {gid : GeneratorID}
    {g : Generator F} (hgid : q.originalJobIDToGenerator.get? orig = some gid)
    (hg : q.generators.get? gid = some g) :
    (∃ job, g.givenJobs.get? orig = some job) ∧ ¬ g.Finished := by
  obtain ⟨g', hg', job, hjob⟩ := (h.given orig gid).1 hgid
  obtain rfl := Option.some.inj (hg'.symm.trans hg)
  refine ⟨⟨job, hjob⟩, fun hf => ?_⟩
  rw [(h.healthy gid g' hg).2.given_none hf] at hjob
  cases hjob

/-- The queue without a job that its generator completed. -/
theorem Invariant.settle (h : Invariant q) {orig id : JobID} {gid : GeneratorID}
    (hid : q.HasID orig id) {m : GoMap JobID JobID} (hm : q.Without id m)
    (hgid : q.originalJobIDToGenerator.get? orig = some gid) {g : Generator F}
    (hg : q.generators.get? gid = some g) (hactive : gid ∈ q.activeGenerators)
    {c : Completed (Generator F) F} (hc : g.Settled orig c) {status : QueueStatus F}
    (hstatus : ∀ s, status.Active s ↔ q.status.Active s) :
    Invariant { q with
      jobIDToOriginalJobID := m
      originalJobIDToJob := q.originalJobIDToJob.delete orig
      originalJobIDToGenerator := q.originalJobIDToGenerator.delete orig
      generators := q.generators.set gid c.generator
      status := status } := by
  have hnot := (h.not_finished hgid hg).2
  have hlive : ∀ o a, (q.originalJobIDToGenerator.delete orig).get? o = some a ↔
      o ≠ orig ∧ q.originalJobIDToGenerator.get? o = some a := by
    intro o a
    rw [GoMap.get?_delete]
    by_cases ho : o = orig <;> simp [ho]
  refine ⟨h.healthy_replaced hg hc.id_eq hc.healthy, h.distinct_replaced hg hc.submissionID_eq,
    fun o a => ?_, fun o ho => ?_, fun o ref hget => ?_, fun o a g₁ ho hget => ?_,
    fun x o hget => ?_, h.nodup, h.active, fun a ha => exists_replaced (h.exists_generator a ha),
    fun a g₁ hget hidle => ?_, fun a g₁ hget hfin => ?_⟩
  · -- `given`: only `orig` is no longer given
    rw [hlive]
    constructor
    · rintro ⟨hne, ho⟩
      obtain ⟨g₀, hg₀, job₀, hjob₀⟩ := (h.given o a).1 ho
      by_cases ha : a = gid
      · subst ha
        obtain rfl := Option.some.inj (hg₀.symm.trans hg)
        refine ⟨c.generator, GoMap.get?_set_self _ _ _, job₀, ?_⟩
        rw [hc.given, GoMap.get?_delete_ne _ hne, hjob₀]
      · exact ⟨g₀, by rw [GoMap.get?_set_ne _ _ ha, hg₀], job₀, hjob₀⟩
    · rintro ⟨g₁, hget, job₁, hjob₁⟩
      rcases GoMap.of_get?_set hget with ⟨rfl, rfl⟩ | ⟨ha, hold⟩
      · rw [hc.given] at hjob₁
        obtain ⟨hne, hjob⟩ := GoMap.of_get?_delete hjob₁
        exact ⟨hne, (h.given o a).2 ⟨g, hg, job₁, hjob⟩⟩
      · have ho := (h.given o a).2 ⟨g₁, hold, job₁, hjob₁⟩
        refine ⟨?_, ho⟩
        rintro rfl
        exact ha (Option.some.inj (ho.symm.trans hgid))
  · obtain ⟨a, ha⟩ := ho
    obtain ⟨hne, ho⟩ := (hlive o a).1 ha
    exact (GoMap.get?_delete_ne _ hne).trans (h.job o ⟨a, ho⟩)
  · obtain ⟨hne, hold⟩ := GoMap.of_get?_delete hget
    obtain ⟨a, ha⟩ := h.live o ref hold
    exact ⟨a, (hlive o a).2 ⟨hne, ha⟩⟩
  · obtain ⟨hne, ho⟩ := (hlive o a).1 ho
    obtain ⟨g₀, hget', hs⟩ := submissionID_replaced hg hc.submissionID_eq hget
    rw [hs]
    exact h.object_without hid hm hne ho hget'
  · -- `renamed`: the new ID of `orig` has left the map as well
    obtain ⟨hne, ⟨⟨a, ha⟩, hobject⟩, hdead⟩ := h.renamed_without hid hm hget
    refine ⟨⟨⟨a, (hlive o a).2 ⟨hne, ha⟩⟩, hobject⟩, ?_⟩
    rintro ⟨b, hb⟩
    exact hdead ⟨b, ((hlive x b).1 hb).2⟩
  · rcases GoMap.of_get?_set hget with ⟨rfl, rfl⟩ | ⟨-, hold⟩
    · exact absurd hactive hidle
    · exact h.idle a g₁ hold hidle
  · rw [hstatus]
    exact h.tested_replaced hg hc.submissionID_eq (fun _ => hnot) hget hfin

/-- The end of `JobCompleted`, once the job is found. -/
theorem Invariant.completeJob (h : Invariant q) {orig id : JobID} (hid : q.HasID orig id)
    {m : GoMap JobID JobID} (hm : q.Without id m) {gid : GeneratorID}
    (hgid : q.originalJobIDToGenerator.get? orig = some gid) (result : InvokerJobResult F)
    (hresult : result.job.id = orig) (epoch : Epoch) :
    let q₂ : Queue F := { q with
      jobIDToOriginalJobID := m
      originalJobIDToJob := q.originalJobIDToJob.delete orig
      originalJobIDToGenerator := q.originalJobIDToGenerator.delete orig }
    (∃ g c q', g.jobCompleted result = .ok c ∧
        (q₂.activate gid).completeJob gid result epoch = .ok (q', c.submission) ∧
        JobSettled q orig gid g c q') ∨
      ∃ g p, q.generators.get? gid = some g ∧ g.jobCompleted result = .error p ∧
        (q₂.activate gid).completeJob gid result epoch = .error p ∧ Generator.scorePanics p := by
  intro q₂
  obtain ⟨g, hg, job, hjob⟩ := (h.given orig gid).1 hgid
  obtain ⟨hinv, hactive⟩ := h.activate ⟨g, hg⟩
  have hnot := (h.not_finished hgid hg).2
  have hcommute : q₂.activate gid = { q.activate gid with
      jobIDToOriginalJobID := m
      originalJobIDToJob := q.originalJobIDToJob.delete orig
      originalJobIDToGenerator := q.originalJobIDToGenerator.delete orig } := by
    unfold Queue.activate
    cases q.activeGeneratorIDs.get? gid <;> rfl
  rw [hcommute]
  obtain ⟨active, ids, hq⟩ := activate_eq q gid
  rw [hq] at hinv hactive ⊢
  subst hresult
  rcases (h.healthy gid g hg).2.jobCompleted hjob with ⟨c, he, hc⟩ | ⟨p, he, hp⟩
  · left
    have hpublish : ∀ s, c.published = some s → q.status.Active s.id := by
      intro s hpub
      rw [hc.published s hpub]
      exact h.tested gid g hg hnot
    obtain ⟨status, hst, hsame⟩ := QueueStatus.publish_active epoch hpublish
    refine ⟨g, c, _, he, by simp only [Queue.completeJob, hg, deref_some, ok_bind, he, hst]; rfl,
      hinv.settle hid hm hgid hg hactive hc hsame, fun o => ?_, rfl, rfl, fun x o hget => ?_, hsame,
      ⟨hgid, hg⟩, rfl, hc⟩
    · simp only [Live, GoMap.get?_delete]
      by_cases ho : o = result.job.id <;> simp [ho]
    · have hget : m.get? x = some o := hget
      rw [hm x] at hget
      split at hget
      · cases hget
      · exact hget
  · refine .inr ⟨g, p, hg, he, ?_, hp⟩
    simp only [Queue.completeJob, hg, deref_some, ok_bind, he]
    rfl

/-- A result with the ID of a live job is handed on under the original ID, to the queue without the job. -/
theorem Invariant.jobCompleted_eq (h : Invariant q) {orig : JobID} {result : InvokerJobResult F}
    (hid : q.HasID orig result.job.id) {gid : GeneratorID}
    (hgid : q.originalJobIDToGenerator.get? orig = some gid) (epoch : Epoch) :
    ∃ m, q.Without result.job.id m ∧
      q.jobCompleted result epoch =
        Queue.completeJob
          (Queue.activate { q with
            jobIDToOriginalJobID := m
            originalJobIDToJob := q.originalJobIDToJob.delete orig
            originalJobIDToGenerator := q.originalJobIDToGenerator.delete orig } gid)
          gid { result with job := { result.job with id := orig } } epoch := by
  unfold Queue.jobCompleted
  rcases h.resolve hid with hren | ⟨heq, hnone⟩
  · -- the job has got a new ID
    refine ⟨_, without_delete _, ?_⟩
    simp only [hren, hgid]
  · refine ⟨_, without_of_none hnone, ?_⟩
    simp only [hnone]
    rw [heq]
    simp only [hgid]

/-- A result with the ID of a live job reaches the generator of the job under its original ID. -/
theorem Invariant.jobCompleted_cases (h : Invariant q) {orig : JobID} {result : InvokerJobResult F}
    (hid : q.HasID orig result.job.id) (epoch : Epoch) :
    let given := { result with job := { result.job with id := orig } }
    (∃ gid g c q', g.jobCompleted given = .ok c ∧
        q.jobCompleted result epoch = .ok (q', c.submission) ∧ JobSettled q orig gid g c q') ∨
      ∃ gid g p, q.originalJobIDToGenerator.get? orig = some gid ∧
        q.generators.get? gid = some g ∧ g.jobCompleted given = .error p ∧
        q.jobCompleted result epoch = .error p ∧ Generator.scorePanics p := by
  intro given
  obtain ⟨gid, hgid⟩ := hid.1
  obtain ⟨m, hm, heq⟩ := h.jobCompleted_eq hid hgid epoch
  rw [heq]
  rcases h.completeJob hid hm hgid given rfl epoch with ⟨g, c, q', hc⟩ | ⟨g, p, hg, hp⟩
  · exact .inl ⟨gid, g, c, q', hc⟩
  · exact .inr ⟨gid, g, p, hgid, hg, hp⟩

theorem Invariant.jobCompleted (h : Invariant q) {orig : JobID} {result : InvokerJobResult F}
    (hid : q.HasID orig result.job.id) (epoch : Epoch) :
    (∃ gid g c q', q.jobCompleted result epoch = .ok (q', c.submission) ∧
        JobSettled q orig gid g c q') ∨
      ∃ p, q.jobCompleted result epoch = .error p ∧ Generator.scorePanics p := by
  rcases h.jobCompleted_cases hid epoch with
    ⟨gid, g, c, q', -, he, hs⟩ | ⟨gid, g, p, -, -, -, he, hp⟩
  · exact .inl ⟨gid, g, c, q', he, hs⟩
  · exact .inr ⟨p, he, hp⟩

/-! ## Calls with other IDs -/

/-- The ID is neither the ID of a live job now nor the original ID of one. -/
def Dead (q : Queue F) (id : JobID) : Prop := ¬ q.Live id ∧ ∀ orig, ¬ q.HasID orig id

theorem Invariant.dead_unmapped (h : Invariant q) {id : JobID} (hd : q.Dead id) :
    q.jobIDToOriginalJobID.get? id = none ∧ q.originalJobIDToGenerator.get? id = none ∧
      q.originalJobIDToJob.get? id = none := by
  refine ⟨?_, ?_, ?_⟩
  · cases hget : q.jobIDToOriginalJobID.get? id with
    | none => rfl
    | some orig => exact absurd (h.renamed _ _ hget).1 (hd.2 orig)
  · cases hget : q.originalJobIDToGenerator.get? id with
    | none => rfl
    | some gid => exact absurd ⟨gid, hget⟩ hd.1
  · cases hget : q.originalJobIDToJob.get? id with
    | none => rfl
    | some ref => exact absurd (h.live _ _ hget) hd.1

theorem Invariant.jobCompleted_dead (h : Invariant q) {result : InvokerJobResult F}
    (hd : q.Dead result.job.id) (epoch : Epoch) :
    ∃ err, q.jobCompleted result epoch = .ok (q, .error err) := by
  obtain ⟨h1, h2, -⟩ := h.dead_unmapped hd
  exact ⟨_, by simp only [Queue.jobCompleted, h1, h2, ne_eq, not_true_eq_false, if_false]; rfl⟩

theorem Invariant.rescheduleJob_dead (h : Invariant q) {id : JobID} (hd : q.Dead id)
    (newID : JobID) : ∃ err, q.rescheduleJob id newID = .ok (q, .error err) := by
  obtain ⟨h1, -, h3⟩ := h.dead_unmapped hd
  exact ⟨_, by simp only [Queue.rescheduleJob, h1, h3]; rfl⟩

end Queue

end TestingSystem
