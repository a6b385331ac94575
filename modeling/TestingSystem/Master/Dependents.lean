import TestingSystem.Master.JobGenerators.RequiredJobs
import TestingSystem.Master.StaleResults

/-!
# The jobs that a failed job stops

A new job requires the given jobs that it depends on, under the IDs that they were created with. When a
result fails its job, `HandleInvokerJobResult` stops the jobs in testing that require the ID of the
result. That is the ID the job was created with only if the job was never rescheduled; after that none
of the jobs that depend on it is stopped.
-/

set_option autoImplicit false

namespace TestingSystem

namespace Queue

variable {F : Type}

/-- `NextJob` created the job `job'` between these states, `job` was outstanding then and `job'` depends
on it. -/
def Depends (before after : Queue F) (job' job : JobRef) : Prop :=
  ∃ gid g object given, after.originalJobIDToGenerator.get? job' = some gid ∧
    before.originalJobIDToGenerator.get? job = some gid ∧ before.generators.get? gid = some g ∧
    after.jobs.get? job' = some object ∧ g.givenJobs.get? job = some given ∧
    g.DependsOn object given

variable {q q' : Queue F}

/-- The loop of `NextJob` returns a new job of one of the active generators. -/
theorem nextJobLoop_created {id : JobID} {n : Nat} {ref : JobRef} (hnodup : q.activeGenerators.Nodup)
    (he : q.nextJobLoop id n = .ok (some ref, q')) :
    ∃ gid g g' job, gid ∈ q.activeGenerators ∧ q.generators.get? gid = some g ∧
      g.nextJob id = .ok (some job, g') ∧ ref = job.id ∧
      q'.originalJobIDToGenerator = q.originalJobIDToGenerator.set job.id gid ∧
      q'.jobs = q.jobs.set job.id job := by
  induction n generalizing q with
  | zero => cases he
  | succ n ih =>
    unfold Queue.nextJobLoop at he
    cases hactive : q.activeGenerators with
    | nil =>
      rw [hactive] at he
      cases he
    | cons generator rest =>
      rw [hactive, List.nodup_cons] at hnodup
      simp only [hactive] at he
      obtain ⟨g, hg, he⟩ := bind_eq_ok.1 he
      obtain ⟨⟨next, g'⟩, hnext, he⟩ := bind_eq_ok.1 he
      cases next with
      | none =>
        obtain ⟨gid, g₁, g₁', job, hmem, hg₁, hrest⟩ := ih hnodup.2 he
        refine ⟨gid, g₁, g₁', job, List.mem_cons_of_mem _ hmem, ?_, hrest⟩
        have hne : gid ≠ generator := by
          rintro rfl
          exact hnodup.1 hmem
        exact (GoMap.get?_set_ne _ _ hne).symm.trans hg₁
      | some job =>
        cases he
        exact ⟨generator, g, g', job, List.mem_cons_self, deref_ok hg, hnext, rfl, rfl, rfl⟩

variable [Add F] [Min F] [Zero F] [One F]

/-- The new job that `NextJob` returns requires the jobs that it depends on. -/
theorem Invariant.created (h : q.Invariant) {id : JobID} {ref : JobRef}
    (hfailed : q.newFailedJobs = []) (he : q.nextJob id = .ok (some ref, q')) :
    ∃ job, q'.jobs.get? ref = some job ∧
      ∀ x, x ∈ job.requiredJobIDs ↔ Depends q q' ref x := by
  unfold Queue.nextJob at he
  rw [hfailed] at he
  obtain ⟨gid, g, g', job, -, hg, hnext, rfl, hgenerator, hjobs⟩ := nextJobLoop_created h.nodup he
  obtain ⟨sub, outs, -, hgood, -⟩ := (h.healthy gid g hg).2
  have hjob : q'.jobs.get? job.id = some job := by
    rw [hjobs, GoMap.get?_set_self]
  have hcreator : q'.originalJobIDToGenerator.get? job.id = some gid := by
    rw [hgenerator, GoMap.get?_set_self]
  refine ⟨job, hjob, fun x => (hgood.required hnext x).trans ?_⟩
  constructor
  · rintro ⟨given, hgiven, hdepends⟩
    have hx := (h.given x gid).2 ⟨g, hg, given, hgiven⟩
    exact ⟨gid, g, job, given, hcreator, hx, hg, hjob, hgiven, hdepends⟩
  · rintro ⟨gid', g₁, object, given, hcreator', -, hg₁, hobject, hgiven, hdepends⟩
    obtain rfl := Option.some.inj (hcreator.symm.trans hcreator')
    obtain rfl := Option.some.inj (hg.symm.trans hg₁)
    obtain rfl := Option.some.inj (hjob.symm.trans hobject)
    exact ⟨given, hgiven, hdepends⟩

omit [Add F] [Min F] [Zero F] [One F] in
theorem Depends.live {job' job : JobRef} (h : Depends q q' job' job) : q.Live job := by
  obtain ⟨gid, -, -, -, -, hgid, -⟩ := h
  exact ⟨gid, hgid⟩

end Queue

namespace MasterRun

variable {F : Type}

/-- The job `job'` was created while `job` was outstanding, and it depends on it. -/
def DependsOn (s : MasterRun F) (job' job : JobRef) : Prop :=
  ∃ before after, s.created.get? job' = some (before, after) ∧ before.Depends after job' job

/-- The jobs require those that they depend on, under their original IDs; `created` has every job, and
no ID that `RescheduleJob` gave. -/
structure Required (s : MasterRun F) : Prop where
  objects : ∀ o before after, s.created.get? o = some (before, after) →
    ∃ job, s.queue.jobs.get? o = some job ∧ ∀ x, x ∈ job.requiredJobIDs ↔ before.Depends after o x
  earlier : ∀ o before after x, s.created.get? o = some (before, after) →
    before.Depends after o x → ∃ c, s.created.get? x = some c
  live : ∀ o, s.queue.Live o → ∃ c, s.created.get? o = some c
  lt : ∀ o c, s.created.get? o = some c → o < s.registry.fresh
  renamed : ∀ x o, s.queue.jobIDToOriginalJobID.get? x = some o → s.created.get? x = none

variable [Add F] [Min F] [Zero F] [One F] {s t : MasterRun F}

omit [Add F] [Min F] [Zero F] [One F] in
theorem required_new : Required (new : MasterRun F) where
  objects _ _ _ h := nomatch h
  earlier _ _ _ _ h := nomatch h
  live _ h := h.elim fun _ h => nomatch h
  lt _ _ h := nomatch h
  renamed _ _ h := nomatch h

omit [Add F] [Min F] [Zero F] [One F] in
/-- A step that creates no job and gives no new ID. -/
theorem Required.keep (h : s.Required)
    (hjobs : ∀ o job, s.queue.jobs.get? o = some job → ∃ job', t.queue.jobs.get? o = some job' ∧
      job'.requiredJobIDs = job.requiredJobIDs)
    (hcreated : t.created = s.created) (hlive : ∀ o, t.queue.Live o → s.queue.Live o)
    (hfresh : s.registry.fresh ≤ t.registry.fresh)
    (hrenamed : ∀ x o, t.queue.jobIDToOriginalJobID.get? x = some o →
      x = s.registry.fresh ∨ s.queue.jobIDToOriginalJobID.get? x = some o) : t.Required := by
  refine ⟨fun o before after ho => ?_, ?_, fun o ho => ?_, fun o c ho => ?_, fun x o hx => ?_⟩
  · rw [hcreated] at ho
    obtain ⟨job, hjob, hrequired⟩ := h.objects o before after ho
    obtain ⟨job', hjob', hsame⟩ := hjobs o job hjob
    exact ⟨job', hjob', hsame ▸ hrequired⟩
  · rw [hcreated]
    exact h.earlier
  · rw [hcreated]
    exact h.live o (hlive o ho)
  · rw [hcreated] at ho
    exact Nat.lt_of_lt_of_le (h.lt o c ho) hfresh
  · rw [hcreated]
    rcases hrenamed x o hx with rfl | hold
    · cases hget : s.created.get? s.registry.fresh with
      | none => rfl
      | some c => exact absurd (h.lt _ c hget) (Nat.lt_irrefl _)
    · exact h.renamed x o hold

/-- `NextJob` created a job. -/
theorem Required.create (h : s.Required) (hinv : s.Inv) {ref : JobRef} {q : Queue F}
    (hfailed : s.queue.newFailedJobs = [])
    (hcall : s.queue.nextJob s.registry.fresh = .ok (some ref, q))
    (hc : s.queue.Chosen s.registry.fresh (some ref) q) :
    Required { s with
      registry := { s.registry with nextJob := some ref, queue := q, fresh := s.registry.fresh + 1 }
      created := s.created.set ref (s.queue, q) } := by
  have hfresh := hinv.custody.fresh s.registry.fresh (Nat.le_refl _)
  obtain ⟨job, hjob, hrequired⟩ :=
    hinv.custody.accounted.toInvariant.created hfailed hcall
  obtain ⟨rfl, hlive, -⟩ := hc.some ref rfl
  have hcreated : ∀ o c, s.created.get? o = some c →
      (s.created.set s.registry.fresh (s.queue, q)).get? o = some c := by
    intro o c ho
    rw [GoMap.get?_set_ne _ _ (Nat.ne_of_lt (h.lt o c ho)), ho]
  have hcases : ∀ o c, (s.created.set s.registry.fresh (s.queue, q)).get? o = some c →
      o = s.registry.fresh ∧ c = (s.queue, q) ∨ s.created.get? o = some c := by
    intro o c ho
    exact (GoMap.of_get?_set ho).imp_right And.right
  refine ⟨fun o before after ho => ?_, fun o before after x ho hx => ?_, fun o ho => ?_,
    fun o c ho => ?_, fun x o hx => ?_⟩
  · rcases hcases o _ ho with ⟨rfl, heq⟩ | hold
    · obtain ⟨rfl, rfl⟩ := Prod.mk.inj heq
      exact ⟨job, hjob, hrequired⟩
    · obtain ⟨job', hjob', hrequired'⟩ := h.objects o before after hold
      exact ⟨job', (hc.jobs o (Nat.ne_of_lt (h.lt o _ hold))).trans hjob', hrequired'⟩
  · have hx' : ∃ c, s.created.get? x = some c := by
      rcases hcases o _ ho with ⟨rfl, heq⟩ | hold
      · obtain ⟨rfl, rfl⟩ := Prod.mk.inj heq
        exact h.live x hx.live
      · exact h.earlier o before after x hold hx
    obtain ⟨c, hget⟩ := hx'
    exact ⟨c, hcreated x c hget⟩
  · rcases (hlive o).1 ho with hold | rfl
    · obtain ⟨c, hget⟩ := h.live o hold
      exact ⟨c, hcreated o c hget⟩
    · exact ⟨_, GoMap.get?_set_self _ _ _⟩
  · rcases hcases o c ho with ⟨rfl, -⟩ | hold
    · exact Nat.lt_succ_self _
    · exact Nat.lt_succ_of_lt (h.lt o c hold)
  · have hx : q.jobIDToOriginalJobID.get? x = some o := hx
    rw [hc.renamed] at hx
    have hne : x ≠ s.registry.fresh := by
      rintro rfl
      rw [hfresh.2] at hx
      cases hx
    exact (GoMap.get?_set_ne _ _ hne).trans (h.renamed x o hx)

omit [Add F] [Min F] [Zero F] [One F] in
/-- A step that leaves the queue as it is. -/
theorem Required.same (h : s.Required) (hqueue : t.queue = s.queue) (hcreated : t.created = s.created)
    (hfresh : s.registry.fresh ≤ t.registry.fresh) : t.Required := by
  refine h.keep (fun o job hjob => ⟨job, ?_, rfl⟩) hcreated (fun o ho => ?_) hfresh fun x o hx => ?_
  · rw [hqueue, hjob]
  · exact hqueue ▸ ho
  · exact .inr (hqueue ▸ hx)

/-- Every step keeps the facts about the required jobs. -/
theorem Required.step (h : s.Required) (hinv : s.Inv) {a : MasterStep F} (he : s.Effect a t) :
    t.Required := by
  cases he with
  | quiet hq => exact h.same hq.queue hq.created hq.fresh
  | submitted hs =>
    refine h.keep (fun o job hjob => ⟨job, ?_, rfl⟩) rfl (fun o ho => (hs.live o).1 ho)
      (Nat.le_succ _) fun x o hx => .inr (hs.renamed ▸ hx)
    exact (congrArg (GoMap.get? · o) hs.jobs).trans hjob
  | @taken next q hnone hcall ht created hcreated =>
    have hfresh := hinv.custody.fresh s.registry.fresh (Nat.le_refl _)
    rcases hinv.custody.accounted.toInvariant.nextJob_cases hfresh hcall with
      ⟨ref, rest, hfailed, rfl, rfl⟩ | ⟨hfailed, hc⟩
    · rw [hfailed] at hcreated
      exact h.keep (fun o job hjob => ⟨job, hjob, rfl⟩) hcreated (fun o ho => ho) (Nat.le_succ _)
        fun x o hx => .inr hx
    · rw [hfailed] at hcreated
      cases next with
      | none =>
        obtain ⟨-, hlive, hjobs⟩ := hc.none rfl
        refine h.keep (fun o job hjob => ⟨job, ?_, rfl⟩) hcreated (fun o ho => (hlive o).1 ho)
          (Nat.le_succ _) fun x o hx => .inr (hc.renamed ▸ hx)
        exact (congrArg (GoMap.get? · o) hjobs).trans hjob
      | some ref =>
        rw [hcreated]
        exact h.create hinv hfailed hcall hc
  | sent hnext hid hnew => exact h.same rfl rfl (Nat.le_refl _)
  | built hmem hobject => exact h.same rfl rfl (Nat.le_refl _)
  | @rescheduled ref i id orig q hrec hid hr =>
    refine h.keep (fun o job hjob => ?_) rfl (fun o ho => (hr.live o).1 ho) (Nat.le_succ _) hr.renamed
    by_cases ho : o = orig
    · subst ho
      exact ⟨_, hr.object job hjob, rfl⟩
    · exact ⟨job, (hr.jobs o ho).trans hjob, rfl⟩
  | handled hh =>
    have hsame := hh.same
    refine h.same ?_ rfl ?_
    · rw [queue, hsame]
    · rw [hsame]
  | completed _ _ hs hregistry _ hcreated =>
    refine h.keep (fun o job hjob => ⟨job, ?_, rfl⟩) hcreated (fun o ho => ((hs.live o).1 ho).1) ?_
      fun x o hx => .inr (hs.renamed x o hx)
    · exact (congrArg (GoMap.get? · o) hs.jobs).trans hjob
    · rw [hregistry]
  | finished =>
    exact h.keep (fun o job hjob => ⟨job, hjob, rfl⟩) rfl (fun _ ho => ho) (Nat.le_refl _)
      fun _ _ hx => .inr hx

theorem required {ok : MasterRun F → MasterStep F → Prop} (hr : machine.Reachable ok s) :
    s.Inv ∧ s.Required := by
  refine hr.invariant (P := fun s => s.Inv ∧ s.Required) ?_ ?_
  · rintro s rfl
    exact ⟨inv_new, required_new⟩
  · rintro s a t ⟨hinv, hrequired⟩ - hen he
    have hstep := (hinv.step hen).value he
    exact ⟨hstep.inv, hrequired.step hinv hstep.effect⟩

/-! ## The calls of StopJob -/

/-- The new calls of `StopJob` are those for the jobs in testing that depend on `job`, each of the invoker
that is recorded for it. -/
def StopsDependents (s t : MasterRun F) (job : JobRef) : Prop :=
  ∀ ref i, s.registry.objects.get? ref = some i → ∃ i' calls,
    t.registry.objects.get? ref = some i' ∧ i'.stops = i.stops ++ calls ∧ calls.Nodup ∧
      ∀ id, id ∈ calls ↔ s.registry.invokerByJobID.get? id = some ref ∧
        ∃ job', s.registry.testingJobs.get? id = some job' ∧ s.DependsOn job' job

omit [Add F] [Min F] [Zero F] [One F] in
theorem nodup_stopCalls (r : InvokerRegistry F) (jobID : JobID) (ref : InvokerRef) :
    (r.stopCalls jobID ref r.testingJobs.entries).Nodup := by
  have hkeys := r.testingJobs.nodup_keys
  rw [← GoMap.entries_map_fst] at hkeys
  exact hkeys.sublist (List.filter_sublist.map _)

omit [Add F] [Min F] [Zero F] [One F] in
theorem mem_stopCalls (r : InvokerRegistry F) (jobID : JobID) (ref : InvokerRef) (id : JobID) :
    id ∈ r.stopCalls jobID ref r.testingJobs.entries ↔ r.invokerByJobID.get? id = some ref ∧
      ∃ job, r.testingJobs.get? id = some job ∧ r.requires jobID job = true := by
  simp only [InvokerRegistry.stopCalls, List.mem_map, List.mem_filter, GoMap.mem_entries_iff,
    Bool.and_eq_true, decide_eq_true_eq, Prod.exists]
  constructor
  · rintro ⟨x, job, ⟨hjob, hrec, hrequires⟩, rfl⟩
    exact ⟨hrec, job, hjob, hrequires⟩
  · rintro ⟨hrec, job, hjob, hrequires⟩
    exact ⟨id, job, ⟨hjob, hrec, hrequires⟩, rfl⟩

/-- A job in testing requires an ID if it depends on the job that was created with it. -/
theorem Required.requires_iff (h : s.Required) (hinv : s.Inv) {id : JobID} {job : JobRef}
    (hjob : s.registry.testingJobs.get? id = some job) (jobID : JobID) :
    s.registry.requires jobID job = true ↔ s.DependsOn job jobID := by
  obtain ⟨-, hid⟩ := hinv.custody.testing id job hjob
  obtain ⟨⟨before, after⟩, hcreated⟩ := h.live job hid.1
  obtain ⟨object, hobject, hrequired⟩ := h.objects job before after hcreated
  have hobject' : s.registry.queue.jobs.get? job = some object := hobject
  simp only [InvokerRegistry.requires, hobject', decide_eq_true_eq, hrequired]
  constructor
  · intro hdepends
    exact ⟨before, after, hcreated, hdepends⟩
  · rintro ⟨before', after', hcreated', hdepends⟩
    obtain ⟨rfl, rfl⟩ := Prod.mk.inj (Option.some.inj (hcreated.symm.trans hcreated'))
    exact hdepends

/-- No job depends on an ID that `RescheduleJob` gave. -/
theorem Required.not_dependsOn (h : s.Required) (hinv : s.Inv) {orig : JobRef} {id : JobID}
    (hid : s.queue.HasID orig id) (hne : id ≠ orig) (job : JobRef) : ¬ s.DependsOn job id := by
  rintro ⟨before, after, hcreated, hdepends⟩
  obtain ⟨c, hc⟩ := h.earlier job before after id hcreated hdepends
  rcases hinv.custody.accounted.resolve hid with hrenamed | ⟨heq, -⟩
  · rw [h.renamed id orig hrenamed] at hc
    cases hc
  · exact hne heq

/-- The calls of `StopJob` for an accepted result that fails its job. -/
theorem Inv.stopCalls (h : s.Inv) {result : InvokerJobResult F}
    (he : s.exec (.handleInvokerJobResult result) = .ok t)
    (hhandled : t.handled = (result, true) :: s.handled)
    (hverdict : result.verdict ≠ .OK ∧ result.verdict ≠ .PT) (ref : InvokerRef) (i : Invoker)
    (hi : s.registry.objects.get? ref = some i) :
    ∃ i', t.registry.objects.get? ref = some i' ∧ i'.stops = i.stops ++
      s.registry.stopCalls result.job.id ref s.registry.testingJobs.entries := by
  rcases h.custody.handleInvokerJobResult s.pending result with
    ⟨-, hcall⟩ | ⟨recorded, tested, r, hcall, hh, -⟩
  · simp only [exec, hcall, ok_bind] at he
    cases he
    have hfalse := (Prod.mk.inj (List.cons.inj hhandled).1).2
    cases hfalse
  · simp only [exec, hcall, ok_bind] at he
    cases he
    obtain ⟨i', hi', -, hs, -⟩ := hh.objects ref i hi
    rw [InvokerRegistry.stopCallsFor, if_pos (stops_iff.2 hverdict)] at hs
    exact ⟨i', hi', hs⟩

/-- A result that fails its job stops the jobs in testing that depend on it and no others, exactly if the
job still has the ID that it was created with, or no job in testing depends on it. -/
theorem stopsDependents_iff (hr : machine.Reachable Machine.always s) {result : InvokerJobResult F}
    (he : s.exec (.handleInvokerJobResult result) = .ok t)
    (hhandled : t.handled = (result, true) :: s.handled)
    (hverdict : result.verdict ≠ .OK ∧ result.verdict ≠ .PT) {orig : JobRef}
    (hid : s.queue.HasID orig result.job.id) :
    s.StopsDependents t orig ↔ result.job.id = orig ∨
      ∀ id job, s.registry.testingJobs.get? id = some job → ¬ s.DependsOn job orig := by
  obtain ⟨hinv, hrequired⟩ := required hr
  have hcalls := hinv.stopCalls he hhandled hverdict
  have hmem : ∀ ref id,
      id ∈ s.registry.stopCalls result.job.id ref s.registry.testingJobs.entries ↔
        s.registry.invokerByJobID.get? id = some ref ∧
          ∃ job, s.registry.testingJobs.get? id = some job ∧ s.DependsOn job result.job.id := by
    intro ref id
    rw [mem_stopCalls]
    refine and_congr_right fun _ => exists_congr fun job => and_congr_right fun hjob => ?_
    exact hrequired.requires_iff hinv hjob _
  by_cases heq : result.job.id = orig
  · refine iff_of_true (fun ref i hi => ?_) (.inl heq)
    obtain ⟨i', hi', hs⟩ := hcalls ref i hi
    exact ⟨i', _, hi', hs, nodup_stopCalls _ _ _, heq ▸ hmem ref⟩
  · -- no job requires the ID, so none is stopped
    have hnone := hrequired.not_dependsOn hinv hid heq
    rw [or_iff_right heq]
    constructor
    · intro hstop id job hjob hdepends
      obtain ⟨⟨ref, hrec⟩, -⟩ := hinv.custody.testing id job hjob
      obtain ⟨i, hi, -⟩ := hinv.custody.answered id ref hrec
      obtain ⟨i', calls, hi', hs, -, hiff⟩ := hstop ref i hi
      obtain ⟨i'', hi'', hs'⟩ := hcalls ref i hi
      obtain rfl := Option.some.inj (hi'.symm.trans hi'')
      obtain rfl := List.append_cancel_left (hs.symm.trans hs')
      obtain ⟨-, job', -, hdepends'⟩ := (hmem ref id).1 ((hiff id).2 ⟨hrec, job, hjob, hdepends⟩)
      exact hnone job' hdepends'
    · intro hindependent ref i hi
      obtain ⟨i', hi', hs⟩ := hcalls ref i hi
      refine ⟨i', _, hi', hs, nodup_stopCalls _ _ _, fun id => iff_of_false (fun hmem' => ?_) ?_⟩
      · obtain ⟨-, job, -, hdepends⟩ := (hmem ref id).1 hmem'
        exact hnone job hdepends
      · rintro ⟨-, job, hjob, hdepends⟩
        exact hindependent id job hjob hdepends

/-- A status of another invoker that takes one job. -/
def otherJob : Status := { oneJob with address := "other" }

/-- The first test fails under its original ID, and the second one is stopped. -/
theorem stopsDependents_iff_second_test :
    ∃ s t : MasterRun Int, machine.Reachable Machine.always s ∧
      s.exec (.handleInvokerJobResult (GeneratorRun.resultOf 3 .WA none)) = .ok t ∧
      s.StopsDependents t 3 ∧ (t.registry.objects.get? 4).map Invoker.stops = some [5] := by
  have hr := Machine.Reachable.of_runs (machine (F := Int)) Machine.always
    [.submit GeneratorRun.twoTests GeneratorRun.newSubmission 0, .upsertInvoker oneJob id,
      .takeNextJob, .trySendJob 1, .handleInvokerJobResult (GeneratorRun.resultOf 2 .CD none),
      .upsertAfterResult 0 id, .jobCompleted 0 1, .takeNextJob, .trySendJob 1,
      .upsertInvoker otherJob id, .takeNextJob, .trySendJob 4]
    (.of_init rfl)
    ⟨trivial, List.not_mem_nil, _, rfl, trivial, fun ids => .refl ids, _, rfl, trivial, trivial, _, rfl,
      trivial, List.mem_cons_self, _, rfl, trivial, trivial, _, rfl,
      trivial, ⟨⟨_, rfl⟩, fun ids => .refl ids⟩, _, rfl, trivial, ⟨_, rfl⟩, _, rfl,
      trivial, trivial, _, rfl, trivial, List.mem_cons_self, _, rfl,
      trivial, fun ids => .refl ids, _, rfl, trivial, trivial, _, rfl,
      trivial, List.mem_cons_of_mem _ List.mem_cons_self, _, rfl, rfl⟩
  refine ⟨_, _, hr, rfl, (stopsDependents_iff hr rfl rfl ?_ ?_).2 (.inl rfl), rfl⟩
  · decide
  · exact ⟨⟨0, rfl⟩, _, rfl, rfl⟩

/-- The invoker of the first test fails, the test is rescheduled under the ID 4 and fails there: the second
test is in testing, depends on it and is not stopped. -/
theorem dependent_of_rescheduled_runs :
    ¬ ∀ (s t : MasterRun Int) (result : InvokerJobResult Int) (orig : JobRef),
      machine.Reachable Machine.always s → s.exec (.handleInvokerJobResult result) = .ok t →
      t.handled = (result, true) :: s.handled → result.verdict ≠ .OK ∧ result.verdict ≠ .PT →
      s.queue.HasID orig result.job.id → s.StopsDependents t orig := by
  intro hall
  have hr := Machine.Reachable.of_runs (machine (F := Int)) Machine.always
    [.submit GeneratorRun.twoTests GeneratorRun.newSubmission 0, .upsertInvoker oneJob id,
      .takeNextJob, .trySendJob 1, .handleInvokerJobResult (GeneratorRun.resultOf 2 .CD none),
      .upsertAfterResult 0 id, .jobCompleted 0 1, .takeNextJob, .trySendJob 1,
      .ping 1 none id, .extractJobs 1 id, .rescheduleJob 1, .removeInvoker 1,
      .upsertInvoker oneJob id, .takeNextJob, .trySendJob 5,
      .upsertInvoker otherJob id, .takeNextJob, .trySendJob 7]
    (.of_init rfl)
    ⟨trivial, List.not_mem_nil, _, rfl, trivial, fun ids => .refl ids, _, rfl, trivial, trivial, _, rfl,
      trivial, List.mem_cons_self, _, rfl, trivial, trivial, _, rfl,
      trivial, ⟨⟨_, rfl⟩, fun ids => .refl ids⟩, _, rfl, trivial, ⟨_, rfl⟩, _, rfl,
      trivial, trivial, _, rfl, trivial, List.mem_cons_self, _, rfl,
      trivial, fun ids => .refl ids, _, rfl, trivial, ⟨⟨_, rfl, rfl⟩, fun ids => .refl ids⟩, _, rfl,
      trivial, ⟨_, _, _, rfl, rfl⟩, _, rfl, trivial, ⟨_, rfl, rfl⟩, _, rfl,
      trivial, fun ids => .refl ids, _, rfl, trivial, trivial, _, rfl,
      trivial, List.mem_cons_self, _, rfl, trivial, fun ids => .refl ids, _, rfl,
      trivial, trivial, _, rfl, trivial, List.mem_cons_of_mem _ List.mem_cons_self, _, rfl, rfl⟩
  have hstops := hall _ _ (GeneratorRun.resultOf 4 .WA none) 3 hr rfl rfl (by decide)
    ⟨⟨0, rfl⟩, _, rfl, rfl⟩
  obtain ⟨i, calls, hi, hs, -, hiff⟩ := hstops 7 _ rfl
  obtain rfl := Option.some.inj hi
  obtain rfl : ([] : List JobID) = calls := hs
  exact List.not_mem_nil ((hiff 8).2
    ⟨rfl, 8, rfl, _, _, rfl, 0, _, _, _, rfl, rfl, rfl, rfl, rfl, trivial⟩)

end MasterRun

end TestingSystem
