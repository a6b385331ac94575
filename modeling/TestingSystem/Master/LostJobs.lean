import TestingSystem.Master.StaleResults

/-!
# Jobs that are lost

A job that a generator counts as given has a place, and every step but one keeps that: when a failed
invoker's jobs are extracted and the section of `OnInvokerFailure` has not run yet, a result makes
`HandleInvokerJobResult` forget a job that `JobTested` does not find any more. `OnInvokerFailure` skips
it then, and it is neither rescheduled nor completed.
-/

set_option autoImplicit false

namespace TestingSystem.MasterRun

variable {F : Type}

/-- The job waits among the failed ones or is the next job; or under its ID an invoker that answers for
it is recorded, or its result was accepted. -/
def Kept (s : MasterRun F) (orig : JobRef) : Prop :=
  orig ∈ s.queue.newFailedJobs ∨ s.registry.nextJob = some orig ∨
    ∃ id, s.queue.HasID orig id ∧
      ((∃ ref i, s.registry.invokerByJobID.get? id = some ref ∧
          s.registry.objects.get? ref = some i ∧ i.Answers id) ∨
        id ∈ s.pending)

/-- Every job that a generator counts as given is kept. -/
def NoJobLost (s : MasterRun F) : Prop :=
  ∀ gid g orig job, s.queue.generators.get? gid = some g → g.givenJobs.get? orig = some job →
    s.Kept orig

/-- No result is handled for a job that was extracted from its invoker. -/
def ResultsInTime (s : MasterRun F) : MasterStep F → Prop
  | .handleInvokerJobResult result => ∀ ref i jobs,
      s.registry.invokerByJobID.get? result.job.id = some ref →
      s.registry.objects.get? ref = some i → i.failure = .extracted jobs → result.job.id ∉ jobs
  | _ => True

variable [Add F] [Min F] [Zero F] [One F] {s t : MasterRun F}

/-- No job is lost exactly if the ledger is complete. -/
theorem Inv.noJobLost_iff (h : s.Inv) :
    s.NoJobLost ↔ (s.registry.ledger s.pending).Complete := by
  have hc := h.custody
  constructor
  · rintro hlost id ⟨orig, hnot, hid⟩
    obtain ⟨gid, hgid⟩ := hid.1
    obtain ⟨g, hg, job, hjob⟩ := (hc.accounted.given orig gid).1 hgid
    show id ∈ s.registry.nextIDs ++ s.registry.invokerByJobID.keys ++ s.pending
    rw [List.mem_append, List.mem_append]
    rcases hlost gid g orig job hg hjob with hfailed | hnext | ⟨id', hid', hplace⟩
    · exact absurd hfailed hnot
    · rw [InvokerRegistry.nextIDs_some hnext hid]
      exact .inl (.inl List.mem_cons_self)
    · obtain rfl : id' = id := hid'.eq hid
      rcases hplace with ⟨ref, -, hrec, -⟩ | hpending
      · exact .inl (.inr ((GoMap.mem_keys_iff _ _).2 ⟨ref, hrec⟩))
      · exact .inr hpending
  · intro hcomplete gid g orig job hg hjob
    have hlive : s.queue.Live orig := ⟨gid, (hc.accounted.given orig gid).2 ⟨g, hg, job, hjob⟩⟩
    obtain ⟨object, hobject, -⟩ := hc.accounted.exists_object hlive
    have hid : s.queue.HasID orig object.id := ⟨hlive, object, hobject, rfl⟩
    by_cases hfailed : orig ∈ s.queue.newFailedJobs
    · exact .inl hfailed
    · right
      have hplace := hcomplete object.id ⟨orig, hfailed, hid⟩
      rw [InvokerRegistry.ledger, List.mem_append, List.mem_append] at hplace
      rcases hplace with (hnext | hkey) | hpending
      · left
        cases hn : s.registry.nextJob with
        | none =>
          rw [InvokerRegistry.nextIDs_none hn] at hnext
          cases hnext
        | some ref =>
          obtain ⟨id, hid', hids⟩ := hc.nextID hn
          rw [hids, List.mem_singleton] at hnext
          rw [hc.accounted.hasID_unique hid (hnext ▸ hid')]
      · obtain ⟨ref, hrec⟩ := (GoMap.mem_keys_iff _ _).1 hkey
        obtain ⟨i, hi, hans⟩ := hc.answered _ ref hrec
        exact .inr ⟨_, hid, .inl ⟨ref, i, hrec, hi, hans⟩⟩
      · exact .inr ⟨_, hid, .inr hpending⟩

/-- A job is dropped exactly if its result comes when it was extracted. -/
theorem Inv.drops_iff (h : s.Inv) (a : MasterStep F) : s.Drops a ↔ ¬ s.ResultsInTime a := by
  constructor
  · rintro ⟨result, ref, i, rfl, hrec, hi, hnot⟩ hok
    obtain ⟨i', hi', hans⟩ := h.custody.answered _ ref hrec
    obtain rfl := Option.some.inj (hi'.symm.trans hi)
    rcases hans with hheld | ⟨jobs, hf, hmem⟩
    · exact hnot hheld
    · exact hok ref i' jobs hrec hi' hf hmem
  · intro hlate
    cases a with
    | handleInvokerJobResult result =>
      simp only [ResultsInTime, not_forall, not_not] at hlate
      obtain ⟨ref, i, jobs, hrec, hi, hf, -⟩ := hlate
      exact ⟨result, ref, i, rfl, hrec, hi, h.extracted hi hf _⟩
    | _ => exact absurd trivial hlate

/-- A job that is dropped is out and at no place. -/
theorem Inv.dropped (h : s.Inv) {a : MasterStep F} (hd : s.Drops a) (he : s.exec a = .ok t) :
    ¬ (t.registry.ledger t.pending).Complete := by
  obtain ⟨result, ref, i, rfl, hrec, hi, hnot⟩ := hd
  rcases h.custody.handleInvokerJobResult s.pending result with
    ⟨hnone, -⟩ | ⟨ref', tested, r, hcall, hh, -⟩
  · rw [hrec] at hnone
    cases hnone
  · obtain ⟨i', hi', htested⟩ := hh.invoker
    obtain rfl := Option.some.inj (hrec.symm.trans hh.recorded)
    obtain rfl := Option.some.inj (hi'.symm.trans hi)
    have hfalse : tested = false := Bool.eq_false_iff.2 fun ht => hnot (htested.1 ht)
    subst hfalse
    simp only [exec, hcall, ok_bind] at he
    cases he
    intro hcomplete
    have hout : r.queue.HandedOut result.job.id := by
      rw [hh.same]
      exact InvokerRegistry.handedOut_of_recorded h.exact hrec
    have hmem := hcomplete result.job.id hout
    rw [hh.same] at hmem
    have hnodup := (InvokerRegistry.places_delete s.pending hrec).nodup_iff.1 h.exact.nodup
    exact (List.nodup_cons.1 hnodup).1 hmem

/-- A step loses a job exactly if it drops one. -/
theorem Inv.noJobLost_step (h : s.Inv) (hs : s.NoJobLost) {a : MasterStep F} (hen : s.enabled a)
    (he : s.exec a = .ok t) : t.NoJobLost ↔ s.ResultsInTime a := by
  have hstep := (h.step hen).value he
  rw [hstep.inv.noJobLost_iff]
  constructor
  · intro hcomplete
    by_contra hlate
    exact h.dropped ((h.drops_iff a).2 hlate) he hcomplete
  · intro hok
    have hno : ¬ s.Drops a := fun hd => (h.drops_iff a).1 hd hok
    exact hstep.ledger.complete hno (h.noJobLost_iff.1 hs)

/-- In the runs in which no result is handled for an extracted job, no job is lost; a step from one of
their states loses a job exactly if it handles such a result. -/
theorem noJobLost_of_resultsInTime (hr : machine.Reachable ResultsInTime s) :
    s.NoJobLost ∧ ∀ a t, s.enabled a → s.exec a = .ok t → (t.NoJobLost ↔ s.ResultsInTime a) := by
  have hs : s.Inv ∧ s.NoJobLost := by
    refine hr.invariant (P := fun s => s.Inv ∧ s.NoJobLost) ?_ ?_
    · rintro s rfl
      exact ⟨inv_new, fun _ _ _ _ hg => (nomatch hg)⟩
    · rintro s a t ⟨hinv, hlost⟩ hok hen he
      exact ⟨((hinv.step hen).value he).inv, (hinv.noJobLost_step hlost hen he).2 hok⟩
  exact ⟨hs.2, fun a t hen he => hs.1.noJobLost_step hs.2 hen he⟩

theorem noJobLost_of_resultsInTime_sent :
    ∃ s : MasterRun Int, machine.Reachable ResultsInTime s ∧
      s.registry.invokerByJobID.get? 2 = some 1 ∧ s.NoJobLost := by
  have hr := Machine.Reachable.of_runs (machine (F := Int)) ResultsInTime
    [.submit GeneratorRun.twoTests GeneratorRun.newSubmission 0, .upsertInvoker oneJob id,
      .takeNextJob, .trySendJob 1]
    (.of_init rfl)
    ⟨trivial, List.not_mem_nil, _, rfl, trivial, fun ids => .refl ids, _, rfl, trivial, trivial, _, rfl,
      trivial, List.mem_cons_self, _, rfl, rfl⟩
  exact ⟨_, hr, rfl, (noJobLost_of_resultsInTime hr).1⟩

/-- The result of the compilation comes after `ExtractJobs` and before the section of `OnInvokerFailure`:
the job is lost. -/
theorem extracted_job_lost :
    ¬ ∀ s : MasterRun Int, machine.Reachable Machine.always s → s.NoJobLost := by
  intro hall
  have hr := Machine.Reachable.of_runs (machine (F := Int)) Machine.always
    [.submit GeneratorRun.twoTests GeneratorRun.newSubmission 0, .upsertInvoker oneJob id,
      .takeNextJob, .trySendJob 1, .ping 1 none id, .extractJobs 1 id,
      .handleInvokerJobResult (GeneratorRun.resultOf 2 .CD none), .rescheduleJob 1, .removeInvoker 1]
    (.of_init rfl)
    ⟨trivial, List.not_mem_nil, _, rfl, trivial, fun ids => .refl ids, _, rfl, trivial, trivial, _, rfl,
      trivial, List.mem_cons_self, _, rfl, trivial, fun ids => .refl ids, _, rfl,
      trivial, ⟨⟨_, rfl, rfl⟩, fun ids => .refl ids⟩, _, rfl, trivial, trivial, _, rfl,
      trivial, ⟨_, _, _, rfl, rfl⟩, _, rfl, trivial, ⟨_, rfl, rfl⟩, _, rfl, rfl⟩
  rcases hall _ hr 0 _ 2 _ rfl rfl with hfailed | hnext | ⟨id, hid, hplace⟩
  · exact List.not_mem_nil hfailed
  · cases hnext
  · obtain ⟨-, job, hjob, rfl⟩ := hid
    obtain rfl := Option.some.inj hjob
    rcases hplace with ⟨ref, -, hrec, -⟩ | hpending
    · cases hrec
    · exact List.not_mem_nil hpending

end TestingSystem.MasterRun
