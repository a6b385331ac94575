import TestingSystem.Master.JobGenerators.IOIInvariant

/-!
# NextJob of the IOI generator

The loop of `NextJob` passes over the tests of stopped groups and gives the first other test. No
completed test is given again: its group is marked, and a marked group is stopped.
-/

set_option autoImplicit false

namespace TestingSystem.IOIGenerator

variable {F : Type}

/-- Only the fields that the giving of tests writes differ. -/
def Passed (i i' : IOIGenerator F) : Prop :=
  i' = { i with
    internalTestResults := i'.internalTestResults
    givenJobs := i'.givenJobs
    firstNotGivenTest := i'.firstNotGivenTest }

theorem Passed.trans {i j k : IOIGenerator F} (h : Passed i j) (h' : Passed j k) : Passed i k := by
  unfold Passed at h h' ⊢
  rw [h'] at *
  rw [h]

variable [Zero F] {outs : Outcomes F} {i : IOIGenerator F}

/-- The state after tests were passed. -/
structure PassedGood (outs : Outcomes F) (i i' : IOIGenerator F) : Prop where
  passed : Passed i i'
  first_le : i.firstNotGivenTest ≤ i'.firstNotGivenTest
  prepared : Prepared i'
  jobs : Jobs outs i'
  processed : Processed outs i'
  waiting : Waiting outs i → Waiting outs i'

theorem PassedGood.trans {j k : IOIGenerator F} (h : PassedGood outs i j)
    (h' : PassedGood outs j k) : PassedGood outs i k :=
  ⟨h.passed.trans h'.passed, Nat.le_trans h.first_le h'.first_le, h'.prepared, h'.jobs, h'.processed,
    fun hw => h'.waiting (h.waiting hw)⟩

omit [Zero F] in
theorem setTestState_eq {t : Nat} {e : InternalTestResult F} (he : i.getEntry t = some e)
    (state : InternalTestState) :
    i.setTestState t state = .ok (i.withEntry t { e with state := state }) := by
  unfold setTestState
  rw [index_eq_ok he]
  rfl

theorem skipTest_good (hp : Prepared i) (hj : Jobs outs i) (h : Processed outs i)
    {group : TestGroup F} (hg : group ∈ i.problem.testGroups)
    (hhas : group.Has i.firstNotGivenTest)
    (hs : stopFlag.of i.groupNameToInternalInfo group.name = true) {e : InternalTestResult F}
    (he : i.getEntry i.firstNotGivenTest = some e) : PassedGood outs i (i.skipTest e) := by
  have hb := hp.accepted.has_bounds hg hhas
  refine ⟨rfl, Nat.le_succ _, ⟨hp.accepted, hp.info, hp.names, hp.total, (hp.withEntry _ _).length⟩,
    hj.skip hp hg hhas hs he, ?_, ?_⟩
  · exact h.pass rfl rfl rfl rfl (e := { e with state := .testFinished })
      (fun t ht => getEntry_withEntry he hb.1 ht) (fun _ hrun => nomatch hrun)
  · rintro ⟨hle, hw⟩
    refine ⟨hle, hw.imp_right ?_⟩
    rintro ⟨hfirst, g, hmem, hk, hm⟩
    refine ⟨?_, g, hmem, hk, hm⟩
    -- The test that waits is not the one that is passed, since its group is not marked.
    rcases Nat.lt_or_eq_of_le hfirst with hlt | heq
    · exact hlt
    · rw [← heq] at hk hm
      obtain rfl := hp.accepted.eq_of_has hmem hg hk hhas
      rw [hj.marks_of_stopped hp hmem hs] at hm
      cases hm

/-- A test that is given is not completed. -/
theorem Processed.le_of_not_stopped (hp : Prepared i) (hj : Jobs outs i) (h : Processed outs i)
    (hcd : outs.compile.verdict = .CD) {group : TestGroup F} (hg : group ∈ i.problem.testGroups)
    (hhas : group.Has i.firstNotGivenTest)
    (hs : stopFlag.of i.groupNameToInternalInfo group.name = false) :
    i.firstNotCompletedTest ≤ i.firstNotGivenTest := by
  by_contra hlt
  have hlt := Nat.not_le.1 hlt
  have hm := h.skipped group hg _ hhas hlt (Nat.le_refl _)
  rw [h.stopped hp hj hcd (Nat.le_of_lt hlt) hm] at hs
  cases hs

theorem giveTest_good (hp : Prepared i) (hj : Jobs outs i) (h : Processed outs i)
    (hcd : outs.compile.verdict = .CD) {group : TestGroup F} (hg : group ∈ i.problem.testGroups)
    (hhas : group.Has i.firstNotGivenTest)
    (hs : stopFlag.of i.groupNameToInternalInfo group.name = false) {e : InternalTestResult F}
    (he : i.getEntry i.firstNotGivenTest = some e) {job : Job}
    (hid : i.givenJobs.get? job.id = none) (htype : job.type = .testJob)
    (htest : job.test = i.firstNotGivenTest) : PassedGood outs i (i.giveTest e job) := by
  have hb := hp.accepted.has_bounds hg hhas
  have hle := h.le_of_not_stopped hp hj hcd hg hhas hs
  refine ⟨rfl, Nat.le_succ _, ⟨hp.accepted, hp.info, hp.names, hp.total, (hp.withEntry _ _).length⟩,
    hj.give hp hg hhas he hid htype htest, ?_, ?_⟩
  · exact h.pass rfl rfl rfl rfl (e := { e with state := .testRunning })
      (fun t ht => getEntry_withEntry he hb.1 ht) (fun hlt => absurd hle (Nat.not_le.2 hlt))
  · rintro ⟨hle', hw⟩
    refine ⟨hle', ?_⟩
    rcases hw with ⟨id', job', hget, htest'⟩ | ⟨hfirst, g, hmem, hk, hm⟩
    · refine .inl ⟨id', job', ?_, htest'⟩
      change (i.givenJobs.set job.id job).get? id' = some job'
      rw [GoMap.get?_set_ne _ _ fun heq => ?_, hget]
      rw [heq, hid] at hget
      cases hget
    · refine .inl ⟨job.id, job, GoMap.get?_set_self _ _ _, ?_⟩
      rw [htest]
      exact Nat.le_antisymm hfirst hle

/-- What the loop of `NextJob` does. -/
theorem nextTestLoop_eq {id : JobID} (turns : Nat) (hp : Prepared i) (hj : Jobs outs i)
    (h : Processed outs i) (hcd : outs.compile.verdict = .CD) (hid : i.givenJobs.get? id = none)
    (hturns : turns = i.problem.testsNumber + 1 - i.firstNotGivenTest) :
    ∃ r i', nextTestLoop id turns i = .ok (r, i') ∧ PassedGood outs i i' ∧
      (r = none → i'.firstNotGivenTest = i.problem.testsNumber + 1 ∧ i'.givenJobs = i.givenJobs) ∧
      ∀ job, r = some job → job.id = id ∧ job.submitID = i.submission.id ∧ job.type = .testJob ∧
        i.firstNotCompletedTest ≤ job.test ∧ i'.givenJobs = i.givenJobs.set id job ∧
        i.firstNotGivenTest ≤ job.test ∧
        ∃ group ∈ i.problem.testGroups, group.Has job.test ∧
          ∀ id', id' ∈ job.requiredJobIDs ↔
            ∃ job', i.givenJobs.get? id' = some job' ∧ Depends i.problem group job'.test := by
  induction turns generalizing i with
  | zero =>
    have hle := hj.first_le
    refine ⟨none, i, rfl, ⟨rfl, Nat.le_refl _, hp, hj, h, fun hw => hw⟩, fun _ => ⟨by omega, rfl⟩,
      fun _ hr => by cases hr⟩
  | succ turns ih =>
    have hpos := hj.first_pos
    obtain ⟨group, hg, hhas⟩ := hp.accepted.exists_group hpos (by omega)
    obtain ⟨e, he, -, -⟩ := hj.entries group hg _ hhas
    obtain ⟨info, hinfo⟩ := hp.total group hg
    have hflag : stopFlag.of i.groupNameToInternalInfo group.name = stopFlag.isSet info :=
      GroupFlag.of_eq hinfo
    cases hs : stopFlag.isSet info with
    | true =>
      rw [hs] at hflag
      have hskip := skipTest_good hp hj h hg hhas hflag he
      obtain ⟨r, i', hloop, hgood, hnone, hsome⟩ := ih (i := i.skipTest e) hskip.prepared
        hskip.jobs hskip.processed hid (by simp only [skipTest, IOIGenerator.withEntry]; omega)
      refine ⟨r, i', ?_, hskip.trans hgood, hnone, ?_⟩
      · have hgive : (!info.shouldGiveNewJobs) = true := hs
        simp only [nextTestLoop, hp.names group hg _ hhas, hinfo, deref_some, ok_bind, hgive,
          if_true, setTestState_eq he]
        exact hloop
      · intro job hr
        obtain ⟨h1, h2, h3, h4, h5, h6, h7⟩ := hsome job hr
        exact ⟨h1, h2, h3, h4, h5, Nat.le_of_succ_le h6, h7⟩
    | false =>
      rw [hs] at hflag
      obtain ⟨ids, hids, hmem⟩ := requiredJobIDs_eq
        (hp.withEntry i.firstNotGivenTest { e with state := .testRunning }) hg
        (show ∀ entry ∈ i.givenJobs.entries,
            1 ≤ entry.2.test ∧ entry.2.test ≤ i.problem.testsNumber by
          rintro ⟨id', job'⟩ hentry
          obtain ⟨-, h1, hlt, -⟩ := hj.given id' job' ((GoMap.mem_entries_iff _ _ _).1 hentry)
          have hle := hj.first_le
          exact ⟨h1, show job'.test ≤ i.problem.testsNumber by omega⟩)
      let job : Job :=
        { id := id, submitID := i.submission.id, type := .testJob, test := i.firstNotGivenTest,
          requiredJobIDs := ids }
      have hgood := giveTest_good hp hj h hcd hg hhas hflag he
        (show i.givenJobs.get? job.id = none from hid) rfl rfl
      refine ⟨some job, _, ?_, hgood, fun hr => (by cases hr), ?_⟩
      · have hgive : (!info.shouldGiveNewJobs) = false := hs
        simp only [nextTestLoop, hp.names group hg _ hhas, hinfo, deref_some, ok_bind, hgive,
          Bool.false_eq_true, if_false, setTestState_eq he]
        exact bind_eq_ok.2 ⟨ids, hids, rfl⟩
      · rintro job' hr
        cases hr
        refine ⟨rfl, rfl, rfl, h.le_of_not_stopped hp hj hcd hg hhas hflag, rfl, Nat.le_refl _,
          group, hg, hhas, fun id' => ?_⟩
        change id' ∈ ids ↔ _
        simp only [hmem, GoMap.mem_entries_iff]
        rfl

end TestingSystem.IOIGenerator
