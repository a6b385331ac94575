import TestingSystem.Master.JobGenerators.IOISafety
import TestingSystem.Master.Queue.QueueRuns

/-!
# Rescheduled jobs

`RescheduleJob` gives a job a new ID. The old ID is then unknown to the queue unless it is the
original ID of the job: `originalJobIDToGenerator` and `originalJobIDToJob` keep the job under that
ID, so a late call with it is accepted (`original_id_not_dead`), and the new ID leads nowhere
afterwards. In runs without such a call every rescheduled ID is dead, and as long as the results leave
no group without a score, the job is completed under its new ID.
-/

set_option autoImplicit false

namespace TestingSystem

namespace Queue

variable {F : Type}

/-- The original ID of a live job that has another ID now. -/
def Stale (q : Queue F) (id : JobID) : Prop := q.Live id ∧ ¬ q.HasID id id

/-- With this result the generator of the job can score its groups. -/
def Scorable (q : Queue F) (result : InvokerJobResult F) : Prop :=
  ∀ orig gid g job, q.HasID orig result.job.id → q.originalJobIDToGenerator.get? orig = some gid →
    q.generators.get? gid = some g → g.givenJobs.get? orig = some job → g.Scorable job result

/-- A call with the ID is rejected and changes nothing. -/
def Rejects [Add F] [Min F] [Zero F] [One F] (q : Queue F) (id : JobID) : Prop :=
  (∀ result : InvokerJobResult F, result.job.id = id → ∀ epoch,
      ∃ err, q.jobCompleted result epoch = .ok (q, .error err)) ∧
    ∀ newID, ∃ err, q.rescheduleJob id newID = .ok (q, .error err)

variable [Add F] [Min F] [Zero F] [One F] {q : Queue F} {orig : JobID} {result : InvokerJobResult F}

/-- An ID belongs to one given job. -/
theorem Invariant.scorable_of (h : q.Invariant) (hid : q.HasID orig result.job.id)
    {gid : GeneratorID} (hgid : q.originalJobIDToGenerator.get? orig = some gid) {g : Generator F}
    (hg : q.generators.get? gid = some g) {job : Job} (hjob : g.givenJobs.get? orig = some job)
    (hresult : g.Scorable job result) : q.Scorable result := by
  intro orig' gid' g' job' hid' hgid' hg' hjob'
  obtain rfl := h.hasID_unique hid hid'
  obtain rfl := Option.some.inj (hgid.symm.trans hgid')
  obtain rfl := Option.some.inj (hg.symm.trans hg')
  obtain rfl := Option.some.inj (hjob.symm.trans hjob')
  exact hresult

/-- A live job is completed with a result that its generator can score. -/
theorem Invariant.jobCompleted_scored (h : q.Invariant) (hs : q.Every Generator.CanScore)
    (hid : q.HasID orig result.job.id) (hresult : q.Scorable result) (epoch : Epoch) :
    ∃ gid g c q', q.jobCompleted result epoch = .ok (q', c.submission) ∧
      JobSettled q orig gid g c q' ∧ q'.Every Generator.CanScore := by
  -- the generator of the job succeeds
  have hcalled : ∀ gid g, q.originalJobIDToGenerator.get? orig = some gid →
      q.generators.get? gid = some g → ∃ c,
        g.jobCompleted { result with job := { result.job with id := orig } } = .ok c ∧
          c.generator.CanScore := by
    intro gid g hgid hg
    obtain ⟨⟨job, hjob⟩, -⟩ := h.not_finished hgid hg
    have hscorable : g.Scorable job { result with job := { result.job with id := orig } } :=
      hresult orig gid g job hid hgid hg hjob
    exact (hs gid g hg).jobCompleted hjob hscorable
  rcases h.jobCompleted_cases hid epoch with
    ⟨gid, g, c, q', hc, he, hsettled⟩ | ⟨gid, g, p, hgid, hg, hp, -⟩
  · obtain ⟨c', hc', hscores⟩ := hcalled gid g hsettled.generator.1 hsettled.generator.2
    obtain rfl := Except.ok.inj (hc.symm.trans hc')
    exact ⟨gid, g, c, q', he, hsettled, hs.set hscores hsettled.generators⟩
  · obtain ⟨c, hc, -⟩ := hcalled gid g hgid hg
    cases hp.symm.trans hc

end Queue

namespace QueueRun

variable {F : Type} [Add F] [Min F] [Zero F] [One F]

omit [Add F] [Min F] [Zero F] [One F] in
/-- No call uses the original ID of a job that has another ID now, submissions come without results,
and no result leaves a group without a score. -/
def Admitted (r : QueueRun F) : QueueCall F → Prop
  | .submit _ _ submission _ => submission.testResults = [] ∧ submission.groupResults = []
  | .nextJob _ => True
  | .jobCompleted result _ => ¬ r.queue.Stale result.job.id ∧ r.queue.Scorable result
  | .rescheduleJob jobID _ => ¬ r.queue.Stale jobID

/-- The invariant of these runs. -/
structure Sane (r : QueueRun F) : Prop where
  invariant : r.queue.Invariant
  scores : r.queue.Every Generator.CanScore
  fresh : ∀ id, id ∉ r.issued → r.queue.Fresh id
  tested : ∀ id g, r.queue.generators.get? id = some g → r.queue.status.Active g.submissionID
  retired : ∀ p ∈ r.rescheduled, p.1 ∈ r.issued ∧ ∀ orig, ¬ r.queue.HasID orig p.1
  renewed : ∀ p ∈ r.rescheduled, p.2 ∈ r.completed ∨ p.2 ∈ r.rescheduled.map Prod.fst ∨
    ∃ orig, r.queue.HasID orig p.2

variable {r r' : QueueRun F}

theorem Sane.init : Sane (⟨.new, [], [], [], [], [], []⟩ : QueueRun F) where
  invariant := Queue.invariant_new
  scores _ _ h := nomatch h
  fresh _ _ := ⟨fun ⟨_, h⟩ => (nomatch h), rfl⟩
  tested _ _ h := nomatch h
  retired _ h := nomatch h
  renewed _ h := nomatch h

/-- An ID of a live job was drawn. -/
theorem Sane.issued (h : Sane r) {orig id : JobID} (hid : r.queue.HasID orig id) :
    id ∈ r.issued := by
  by_contra hnot
  exact (h.invariant.fresh_ne (h.fresh id hnot) hid).1 rfl

theorem Sane.submit (h : Sane r) {id : GeneratorID} {problem : Problem F}
    {sub : Submission F} {epoch : Epoch} (hok : r.Admitted (.submit id problem sub epoch))
    (hen : r.enabled (.submit id problem sub epoch))
    (he : r.exec (.submit id problem sub epoch) = .ok r') : Sane r' := by
  obtain ⟨result, hcall, he⟩ := bind_eq_ok.1 he
  cases result with
  | error err =>
    cases he
    exact h
  | ok q =>
    cases he
    have hnew : ∀ id' g, r.queue.generators.get? id' = some g → g.submissionID ≠ sub.id :=
      fun id' g hg heq => Queue.submit_new hcall (heq ▸ h.tested id' g hg)
    have hs := h.invariant.submit hen hnew hcall
    have hhas : ∀ o x, q.HasID o x ↔ r.queue.HasID o x := fun o x =>
      Queue.hasID_set_of_ne hs.live (by rw [hs.jobs]) x
    obtain ⟨g, hgen, hsub, -⟩ := hs.generators
    obtain ⟨new, hcreated, hset⟩ := Queue.submit_generator hcall
    have hscores := h.scores.set (Generator.canScore_new hcreated hok.1 hok.2) hset
    refine ⟨hs.invariant, hscores, fun x hx => ?_, fun a g' hg' => ?_, fun p hp => ?_, fun p hp => ?_⟩
    · have hx := h.fresh x hx
      exact ⟨fun hl => hx.1 ((hs.live x).1 hl), hs.renamed ▸ hx.2⟩
    · rw [hs.status.2]
      rw [hgen] at hg'
      rcases GoMap.of_get?_set hg' with ⟨-, rfl⟩ | ⟨-, hold⟩
      · exact .inl hsub
      · exact .inr (h.tested a g' hold)
    · obtain ⟨hmem, hdead⟩ := h.retired p hp
      exact ⟨hmem, fun orig ho => hdead orig ((hhas _ _).1 ho)⟩
    · simp only [hhas]
      exact h.renewed p hp

theorem Sane.nextJob (h : Sane r) {id : JobID} (hen : r.enabled (.nextJob id))
    (he : r.exec (.nextJob id) = .ok r') : Sane r' := by
  have hf := h.fresh id hen
  obtain ⟨ref, q, hcall, hnext⟩ := h.invariant.nextJob hf
  simp only [exec, hcall, ok_bind] at he
  cases he
  rcases hnext with ⟨ref, rest, hfailed, rfl, rfl⟩ | ⟨-, hc⟩
  · refine ⟨h.invariant.of_failed rest, h.scores, fun x hx => ?_, h.tested, fun p hp => ?_, h.renewed⟩
    · rw [List.mem_cons, not_or] at hx
      exact h.fresh x hx.2
    · exact ⟨List.mem_cons_of_mem _ (h.retired p hp).1, (h.retired p hp).2⟩
  · have hscores : q.Every Generator.CanScore := by
      refine hc.every h.scores fun g g' hg hasked => ?_
      obtain ⟨hid, job, hcall⟩ := hasked
      exact hg.nextJob hid hcall
    refine ⟨hc.invariant, hscores, fun x hx => ?_, fun a g hg => ?_, fun p hp => ?_, fun p hp => ?_⟩
    · rw [List.mem_cons, not_or] at hx
      exact hc.fresh (h.fresh x hx.2) hx.1
    · have hp := Queue.progress_eq_some.2 ⟨g, hg, rfl, rfl⟩
      rw [hc.progress] at hp
      obtain ⟨g', hg', hsame, -⟩ := Queue.progress_eq_some.1 hp
      rw [hc.status, ← hsame]
      exact h.tested a g' hg'
    · obtain ⟨hmem, hdead⟩ := h.retired p hp
      refine ⟨List.mem_cons_of_mem _ hmem, fun orig ho => ?_⟩
      rcases (hc.hasID hf _ _).1 ho with hold | ⟨-, -, rfl⟩
      · exact hdead orig hold
      · exact hen hmem
    · rcases h.renewed p hp with hdone | hdone | ⟨orig, ho⟩
      · exact .inl hdone
      · exact .inr (.inl hdone)
      · exact .inr (.inr ⟨orig, (hc.hasID hf _ _).2 (.inl ho)⟩)

/-- A call without a stale ID is for a live job, or it is rejected. -/
theorem Sane.hasID_or_rejects (h : Sane r) {id : JobID} (hid : ¬ r.queue.Stale id) :
    (∃ orig, r.queue.HasID orig id) ∨ r.queue.Rejects id := by
  by_cases hlive : ∃ orig, r.queue.HasID orig id
  · exact .inl hlive
  · rw [not_exists] at hlive
    have hdead : r.queue.Dead id := ⟨fun hl => hid ⟨hl, hlive id⟩, hlive⟩
    refine .inr ⟨?_, h.invariant.rescheduleJob_dead hdead⟩
    rintro result rfl epoch
    exact h.invariant.jobCompleted_dead hdead epoch

theorem Sane.jobCompleted (h : Sane r) {result : InvokerJobResult F} {epoch : Epoch}
    (hok : r.Admitted (.jobCompleted result epoch)) (he : r.exec (.jobCompleted result epoch) = .ok r') :
    Sane r' := by
  rcases h.hasID_or_rejects hok.1 with ⟨orig, hid⟩ | hrej
  · obtain ⟨gid, g, c, q, hcall, hs, hscores⟩ :=
      h.invariant.jobCompleted_scored h.scores hid hok.2 epoch
    obtain ⟨submission, hsub⟩ := hs.settled.returns
    simp only [exec, hcall, ok_bind, hsub] at he
    cases he
    refine ⟨hs.invariant, hscores, fun x hx => hs.fresh (h.fresh x hx), fun a g' hg' => ?_,
      fun p hp => ?_, fun p hp => ?_⟩
    · rw [hs.status]
      rw [hs.generators] at hg'
      obtain ⟨g₀, hg₀, hsame⟩ :=
        Queue.submissionID_replaced hs.generator.2 hs.settled.submissionID_eq hg'
      rw [hsame]
      exact h.tested a g₀ hg₀
    · obtain ⟨hmem, hdead⟩ := h.retired p hp
      exact ⟨hmem, fun o ho => hdead o ((hs.hasID_iff _ _).1 ho).1⟩
    · rcases h.renewed p hp with hdone | hdone | ⟨o, ho⟩
      · exact .inl (List.mem_cons_of_mem _ hdone)
      · exact .inr (.inl hdone)
      · by_cases hne : o = orig
        · subst hne
          rw [ho.eq hid]
          exact .inl List.mem_cons_self
        · exact .inr (.inr ⟨o, (hs.hasID_iff _ _).2 ⟨ho, hne⟩⟩)
  · obtain ⟨err, hcall⟩ := hrej.1 result rfl epoch
    simp only [exec, hcall, ok_bind] at he
    cases he
    exact h

theorem Sane.rescheduleJob (h : Sane r) {jobID newID : JobID} (hok : ¬ r.queue.Stale jobID)
    (hen : r.enabled (.rescheduleJob jobID newID))
    (he : r.exec (.rescheduleJob jobID newID) = .ok r') : Sane r' := by
  rcases h.hasID_or_rejects hok with ⟨orig, hid⟩ | hrej
  · have hf := h.fresh newID hen
    obtain ⟨q, hcall, hr⟩ := h.invariant.rescheduleJob hid hf
    have hissued := h.issued hid
    simp only [exec, hcall, ok_bind] at he
    cases he
    refine ⟨hr.invariant, h.scores.of_eq hr.generators, fun x hx => ?_, ?_, fun p hp => ?_,
      fun p hp => ?_⟩
    · rw [List.mem_cons, not_or] at hx
      exact hr.fresh (h.fresh x hx.2) hx.1
    · rw [hr.generators, hr.status]
      exact h.tested
    · rcases List.mem_cons.1 hp with rfl | hp
      · refine ⟨List.mem_cons_of_mem _ hissued, fun o ho => ?_⟩
        rcases (hr.hasID_iff _ _).1 ho with ⟨-, heq⟩ | ⟨hne, ho⟩
        · have heq : jobID = newID := heq
          exact hen (heq ▸ hissued)
        · exact hne (h.invariant.hasID_unique ho hid)
      · obtain ⟨hmem, hdead⟩ := h.retired p hp
        refine ⟨List.mem_cons_of_mem _ hmem, fun o ho => ?_⟩
        rcases (hr.hasID_iff _ _).1 ho with ⟨-, heq⟩ | ⟨-, ho⟩
        · exact hen (heq ▸ hmem)
        · exact hdead o ho
    · rcases List.mem_cons.1 hp with rfl | hp
      · exact .inr (.inr ⟨orig, hr.hasID⟩)
      · rw [List.map_cons, List.mem_cons]
        rcases h.renewed p hp with hdone | hdone | ⟨o, ho⟩
        · exact .inl hdone
        · exact .inr (.inl (.inr hdone))
        · by_cases hne : o = orig
          · subst hne
            exact .inr (.inl (.inl (ho.eq hid)))
          · exact .inr (.inr ⟨o, (hr.hasID_iff _ _).2 (.inr ⟨hne, ho⟩)⟩)
  · obtain ⟨err, hcall⟩ := hrej.2 newID
    simp only [exec, hcall, ok_bind] at he
    cases he
    exact h

theorem sane (hr : machine.Reachable Admitted r) : Sane r := by
  refine hr.invariant ?_ ?_
  · rintro r rfl
    exact Sane.init
  · rintro r call r' h hok hen he
    cases call with
    | submit id problem sub epoch => exact h.submit hok hen he
    | nextJob id => exact h.nextJob hen he
    | jobCompleted result epoch => exact h.jobCompleted hok he
    | rescheduleJob jobID newID => exact h.rescheduleJob hok hen he

/-- The original ID of a live job is found, whatever ID the job has now. -/
theorem Sane.not_rejects (h : Sane r) {id : JobID} (hid : r.queue.Stale id) :
    ¬ r.queue.Rejects id := by
  rintro ⟨-, hrej⟩
  obtain ⟨err, hcall⟩ := hrej id
  have hnone : r.queue.jobIDToOriginalJobID.get? id = none := by
    cases hget : r.queue.jobIDToOriginalJobID.get? id with
    | none => rfl
    | some orig => exact absurd hid.1 (h.invariant.renamed id orig hget).2
  simp only [Queue.rescheduleJob, hnone, h.invariant.job id hid.1] at hcall
  obtain ⟨job, -, hcall⟩ := bind_eq_ok.1 hcall
  cases (Prod.mk.inj (Except.ok.inj hcall)).2

/-- In these runs, an ID that was rescheduled is rejected unless it is stale, and the job is completed
under its new ID with any result that its generator can score. -/
theorem rescheduled_id_dead (r : QueueRun F) (hr : machine.Reachable Admitted r) :
    ∀ p ∈ r.rescheduled,
      (r.queue.Rejects p.1 ↔ ¬ r.queue.Stale p.1) ∧
      (p.2 ∈ r.completed ∨ p.2 ∈ r.rescheduled.map Prod.fst ∨
        ∀ result : InvokerJobResult F, result.job.id = p.2 → r.queue.Scorable result → ∀ epoch,
          ∃ q submission, r.queue.jobCompleted result epoch = .ok (q, .ok submission)) := by
  intro p hp
  have h := sane hr
  refine ⟨⟨fun hrej hstale => h.not_rejects hstale hrej, fun hnot => ?_⟩, ?_⟩
  · exact (h.hasID_or_rejects hnot).resolve_left fun ⟨orig, ho⟩ => (h.retired p hp).2 orig ho
  · refine (h.renewed p hp).imp_right (Or.imp_right ?_)
    rintro ⟨orig, ho⟩ result hres hresult epoch
    rw [← hres] at ho
    obtain ⟨gid, g, c, q, hcall, hs, -⟩ := h.invariant.jobCompleted_scored h.scores ho hresult epoch
    obtain ⟨submission, hsub⟩ := hs.settled.returns
    exact ⟨q, submission, by rw [hcall, hsub]⟩

/-- The compile job of a problem with an `EachTest` group gets the ID 2 and then 3, and is completed
under it; the ID 2 is dead before, and the ID 1 after that. -/
theorem rescheduled_id_dead_completed :
    ∃ r : QueueRun Int, machine.Reachable Admitted r ∧ r.rescheduled = [(2, 3), (1, 2)] ∧
      r.queue.Rejects 2 ∧
      (∃ q submission, r.queue.jobCompleted (GeneratorRun.resultOf 3 .CD none) 1 =
        .ok (q, .ok submission)) ∧
      ∃ r' : QueueRun Int, machine.Reachable Admitted r' ∧ r'.completed = [3] ∧ r'.queue.Rejects 1 := by
  let result : InvokerJobResult Int := GeneratorRun.resultOf 3 .CD none
  have hr := Machine.Reachable.of_runs (machine (F := Int)) Admitted
    [.submit 0 GeneratorRun.requiringEachTest GeneratorRun.newSubmission 0, .nextJob 1,
      .rescheduleJob 1 2, .nextJob 4, .rescheduleJob 2 3, .nextJob 5]
    (.of_init rfl)
    ⟨⟨rfl, rfl⟩, rfl, _, rfl, trivial, List.not_mem_nil, _, rfl,
      fun h => h.2 ⟨⟨_, rfl⟩, _, rfl, rfl⟩, (by decide : (2 : JobID) ∉ [1]), _, rfl,
      trivial, (by decide : (4 : JobID) ∉ [2, 1]), _, rfl,
      fun h => h.1.elim fun _ h => (nomatch h), (by decide : (3 : JobID) ∉ [4, 2, 1]), _, rfl,
      trivial, (by decide : (5 : JobID) ∉ [3, 4, 2, 1]), _, rfl, rfl⟩
  have hscorable : Queue.Scorable _ result := (sane hr).invariant.scorable_of
    (show Queue.HasID _ 1 3 from ⟨⟨_, rfl⟩, _, rfl, rfl⟩) rfl rfl rfl (.inl rfl)
  have hr' := Machine.Reachable.of_runs (machine (F := Int)) Admitted [.jobCompleted result 1] hr
    ⟨⟨fun h => h.1.elim fun _ h => (nomatch h), hscorable⟩, trivial, _, rfl, rfl⟩
  have hdead := rescheduled_id_dead _ hr
  have hdead' := rescheduled_id_dead _ hr'
  refine ⟨_, hr, rfl, (hdead (2, 3) (by decide)).1.2 ?_, ?_, _, hr', rfl,
    (hdead' (1, 2) (by decide)).1.2 ?_⟩
  · exact fun h => h.1.elim fun _ h => (nomatch h)
  · have hsucceeds := (hdead (2, 3) (by decide)).2.resolve_left (by decide)
    exact hsucceeds.resolve_left (by decide) result rfl hscorable 1
  · exact fun h => h.1.elim fun _ h => (nomatch h)

/-- A late result with the original ID is accepted. -/
theorem original_id_not_dead :
    ¬ ∀ r : QueueRun Int, machine.Reachable Machine.always r →
      ∀ p ∈ r.rescheduled, r.queue.Rejects p.1 := by
  intro h
  have hr := Machine.Reachable.of_runs (machine (F := Int)) Machine.always
    [.submit 0 GeneratorRun.twoTests GeneratorRun.newSubmission 0, .nextJob 1,
      .rescheduleJob 1 2]
    (.of_init rfl)
    ⟨trivial, rfl, _, rfl, trivial, List.not_mem_nil, _, rfl,
      trivial, (by decide : (2 : JobID) ∉ [1]), _, rfl, rfl⟩
  obtain ⟨err, hcall⟩ := (h _ hr (1, 2) List.mem_cons_self).1 (GeneratorRun.resultOf 1 .CD none) rfl 1
  cases hcall

end QueueRun

end TestingSystem
