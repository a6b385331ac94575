import TestingSystem.Master.JobGenerators.IOIPhases

/-!
# JobCompleted of the IOI generator

The result of a given job is stored, the groups that it stops are stopped, and the results are
processed. `jobCompleted_good` is the specification of a call that completes a given job: it keeps
the invariant and returns the final submission when all tests are completed, or it panics for one of
the reasons of `ScorePanic`.
-/

set_option autoImplicit false

namespace TestingSystem.IOIGenerator

variable {F : Type}

/-! ## Storing a result -/

/-- The state after the result `r` of test `t`, whose job is `id`, was stored. -/
def storeResult (i : IOIGenerator F) (id : JobID) (t : Nat) (r : TestResult F)
    (infos : GoMap String InternalGroupInfo) : IOIGenerator F :=
  { i.withEntry t { result := r, state := .testFinished } with
    givenJobs := i.givenJobs.delete id
    groupNameToInternalInfo := infos }

/-- The flags after the verdict of a test of the group arrived. -/
structure Stops (i : IOIGenerator F) (group : TestGroup F) (verdict : Verdict)
    (infos : GoMap String InternalGroupInfo) : Prop where
  total : Total i.problem.testGroups infos
  mark : ∀ name, markFlag.of infos name = markFlag.of i.groupNameToInternalInfo name
  stop : ∀ g ∈ i.problem.testGroups, stopFlag.of infos g.name = true ↔
    stopFlag.of i.groupNameToInternalInfo g.name = true ∨
      prevents group verdict = true ∧ Closure.Leads i.problem.nodes group.name g.name

variable [Zero F] {outs : Outcomes F} {i : IOIGenerator F}

/-- What `stopGivingNewTestsIfNeeded` does. -/
theorem stopGivingNewTestsIfNeeded_eq (hp : Prepared i) (hj : Jobs outs i) {group : TestGroup F}
    (hg : group ∈ i.problem.testGroups) (verdict : Verdict) {i' : IOIGenerator F}
    (hproblem : i'.problem = i.problem)
    (hinfos : i'.groupNameToInternalInfo = i.groupNameToInternalInfo) :
    ∃ infos, i'.stopGivingNewTestsIfNeeded group.name group verdict =
        .ok { i' with groupNameToInternalInfo := infos } ∧ Stops i group verdict infos := by
  simp only [stopGivingNewTestsIfNeeded,
    doesTestPreventTestingGroup_eq (hp.accepted.scored group hg), ok_bind]
  cases hprev : prevents group verdict with
  | false =>
    refine ⟨i'.groupNameToInternalInfo, by simp [pure, Except.pure], ?_, ?_, ?_⟩
    · rw [hinfos]
      exact hp.total
    · rw [hinfos]
      exact fun _ => rfl
    · intro g _
      rw [hinfos]
      simp [hprev]
  | true =>
    obtain ⟨infos, mark, hraise, hsets, hflags⟩ := raiseFlag_eq (i := i')
      (hproblem ▸ hp.accepted) (by rw [hproblem, hinfos]; exact hp.total) stopFlag
      (show group ∈ i'.problem.testGroups from hproblem ▸ hg)
    rw [hinfos] at hsets
    refine ⟨infos, by simpa using hraise, hsets.total hp.total, hsets.mark_of, fun g hmem => ?_⟩
    rw [hflags g (hproblem ▸ hmem), hproblem, hinfos]
    constructor
    · rintro ⟨b, hb | rfl, hl⟩
      · exact .inl (hj.closed_leads hb hl)
      · exact .inr ⟨hprev, hl⟩
    · rintro (hold | ⟨-, hl⟩)
      · exact ⟨g.name, .inl hold, .refl⟩
      · exact ⟨group.name, .inr rfl, hl⟩

/-- A result that may be stored for a test: its own, or any if its group is marked before it. -/
def Storable (problem : Problem F) (outs : Outcomes F) (group : TestGroup F) (t : Nat)
    (r : TestResult F) : Prop :=
  r = ownResult group outs t ∨ marks problem outs t group.name = true

/-- Storing the result of a given job keeps the agreement. -/
theorem Jobs.complete (hp : Prepared i) (h : Jobs outs i) (hcd : outs.compile.verdict = .CD)
    {id : JobID} {job : Job} (hget : i.givenJobs.get? id = some job) {group : TestGroup F}
    (hg : group ∈ i.problem.testGroups) (hhas : group.Has job.test) {r : TestResult F}
    (hnum : r.testNumber = job.test) (hr : Storable i.problem outs group job.test r)
    {infos : GoMap String InternalGroupInfo} (hs : Stops i group r.verdict infos) :
    Jobs outs (i.storeResult id job.test r infos) := by
  obtain ⟨htype, hpos, hlt, old, hold, hrun⟩ := h.given id job hget
  have hentry : ∀ t, 1 ≤ t → (i.storeResult id job.test r infos).getEntry t =
      if t = job.test then some { result := r, state := .testFinished } else i.getEntry t :=
    fun t ht => getEntry_withEntry hold hpos ht
  -- A group that the result stops has a cause among the passed tests.
  have hcause : prevents group r.verdict = true → ∃ g ∈ i.problem.testGroups,
      (∃ p < i.firstNotGivenTest, PreventedBy outs g p) ∧
        Closure.Leads i.problem.nodes g.name group.name := by
    intro hprev
    rcases hr with rfl | hm
    · exact ⟨group, hg, ⟨job.test, hlt, hhas, hprev⟩, .refl⟩
    · rcases (marks_iff hp.accepted).1 hm with hne | ⟨g, hmem, ⟨p, hp', hprev'⟩, hl⟩
      · exact absurd hcd hne
      · exact ⟨g, hmem, ⟨p, by omega, hprev'⟩, hl⟩
  refine ⟨h.first_pos, h.first_le, ?_, ?_, ?_, ?_, ?_⟩
  · intro id' job' hget'
    obtain ⟨hne, hold'⟩ := GoMap.of_get?_delete hget'
    obtain ⟨htype', hpos', hlt', e', he', hrun'⟩ := h.given id' job' hold'
    refine ⟨htype', hpos', hlt', e', ?_, hrun'⟩
    rw [hentry _ hpos', if_neg fun heq => hne (h.given_inj _ _ _ _ hold' hget heq), he']
  · intro id₁ id₂ job₁ job₂ h₁ h₂ heq
    exact h.given_inj _ _ _ _ (GoMap.of_get?_delete h₁).2 (GoMap.of_get?_delete h₂).2 heq
  · intro g hmem t ht
    have htb := hp.accepted.has_bounds hmem ht
    obtain ⟨e', he', hnum', hold'⟩ := h.entries g hmem t ht
    rw [hentry t htb.1]
    by_cases heq : t = job.test
    · subst heq
      obtain rfl := hp.accepted.eq_of_has hmem hg ht hhas
      refine ⟨_, if_pos rfl, hnum, ?_⟩
      rcases hr with rfl | hm
      · refine .own rfl hlt rfl fun hprev => (hs.stop g hmem).2 (.inr ⟨hprev.2, .refl⟩)
      · exact .marked rfl hlt hm
    · rw [if_neg heq]
      refine ⟨e', he', hnum', ?_⟩
      cases hold' with
      | notGiven state le => exact .notGiven state le
      | running state lt id' job' given test =>
        refine .running state lt id' job' ?_ test
        change (i.givenJobs.delete id).get? id' = some job'
        rw [GoMap.get?_delete_ne _ fun hid => heq ?_, given]
        subst hid
        rw [hget] at given
        cases given
        exact test.symm
      | own state lt result stops =>
        exact .own state lt result fun hprev => (hs.stop g hmem).2 (.inl (stops hprev))
      | marked state lt marked => exact .marked state lt marked
  · intro g hmem name hname hstop
    obtain ⟨required, hreq, rfl, -⟩ := hp.accepted.required_before hmem hname
    rcases (hs.stop required hreq).1 hstop with hold' | ⟨hprev, hl⟩
    · exact (hs.stop g hmem).2 (.inl (h.closed g hmem _ hname hold'))
    · exact (hs.stop g hmem).2 (.inr ⟨hprev, hl.tail ⟨_, List.mem_map_of_mem hmem, hname⟩⟩)
  · intro g hmem hstop
    rcases (hs.stop g hmem).1 hstop with hold' | ⟨hprev, hl⟩
    · exact h.cause g hmem hold'
    · obtain ⟨g', hg', hp', hl'⟩ := hcause hprev
      exact ⟨g', hg', hp', hl'.trans hl⟩

/-- Storing a result does not touch the completed tests. -/
theorem Processed.complete (hj : Jobs outs i) (h : Processed outs i) {id : JobID} {job : Job}
    (hget : i.givenJobs.get? id = some job) (r : TestResult F) {group : TestGroup F}
    {infos : GoMap String InternalGroupInfo} (hs : Stops i group r.verdict infos) :
    Processed outs (i.storeResult id job.test r infos) := by
  obtain ⟨htype, hpos, hlt, old, hold, hrun⟩ := hj.given id job hget
  refine ⟨h.pos, h.le, ?_, h.skipped, ?_⟩
  · intro t e h1 ht he
    rw [show (i.storeResult id job.test r infos).getEntry t = _ from getEntry_withEntry hold hpos h1]
      at he
    split at he
    · cases he
      exact fun hr => nomatch hr
    · exact h.notRunning t e h1 ht he
  · intro g hmem
    exact (hs.mark _).trans (h.flags g hmem)

/-- What `testJobCompleted` does. -/
theorem testJobCompleted_eq (hp : Prepared i) (hj : Jobs outs i) {id : JobID} {job : Job}
    (hget : i.givenJobs.get? id = some job) {group : TestGroup F}
    (hg : group ∈ i.problem.testGroups) (hhas : group.Has job.test) (result : InvokerJobResult F) :
    ∃ infos, ({ i with givenJobs := i.givenJobs.delete id } : IOIGenerator F).testJobCompleted job
        result = .ok (i.storeResult id job.test
          ((storedOutcome group result.outcome).testResult job.test) infos) ∧
      Stops i group (storedOutcome group result.outcome).verdict infos := by
  obtain ⟨htype, hpos, hlt, old, hold, hrun⟩ := hj.given id job hget
  obtain ⟨populated, hpop⟩ := populateTestJobResult_eq (hp.accepted.scored group hg)
    result.verdict result.points
  have hstored : storedOutcome group result.outcome = populatedOutcome result.outcome populated := by
    simp only [storedOutcome, InvokerJobResult.outcome, hpop]
  obtain ⟨infos, hstop, hs⟩ := stopGivingNewTestsIfNeeded_eq hp hj hg
    (storedOutcome group result.outcome).verdict
    (show ({ i.withEntry job.test
        { result := (storedOutcome group result.outcome).testResult job.test,
          state := .testFinished } with
            givenJobs := i.givenJobs.delete id } : IOIGenerator F).problem = i.problem from rfl) rfl
  refine ⟨infos, ?_, hs⟩
  have hname : ({ i with givenJobs := i.givenJobs.delete id } : IOIGenerator F).groupNameOfTest
      job.test = group.name := hp.names group hg _ hhas
  simp only [testJobCompleted, hname, hp.info group hg, deref_some, ok_bind, hpop,
    testIndex_of_pos hpos, index_eq_ok (show i.internalTestResults[job.test - 1]? = _ from hold),
    ← hstored]
  exact hstop

omit [Zero F] in
theorem markAllGroups_eq {groups : List (TestGroup F)} {infos : GoMap String InternalGroupInfo}
    (ht : Total groups infos) :
    ∃ infos', markAllGroups groups infos = .ok infos' ∧
      markFlag.Sets infos infos' fun n => groups.any fun g => decide (n = g.name) := by
  induction groups generalizing infos with
  | nil =>
    refine ⟨infos, rfl, fun n => ?_⟩
    cases infos.get? n <;> rfl
  | cons group groups ih =>
    obtain ⟨info, hinfo⟩ := ht group List.mem_cons_self
    obtain ⟨infos₁, hraise, hsets⟩ := markFlag.raiseGroup_eq hinfo
    have ht' : Total groups infos₁ :=
      hsets.total fun g hg => ht g (List.mem_cons_of_mem _ hg)
    obtain ⟨infos₂, hloop, hsets'⟩ := ih ht'
    refine ⟨infos₂, by simp [markAllGroups, hraise, hloop], fun n => ?_⟩
    rw [(hsets.trans hsets') n]
    rfl

/-! ## Processing -/

variable [Add F] [Min F] {sub : Submission F}

/-- The result of a call that completed a given job. -/
structure CompletedGood (outs : Outcomes F) (sub : Submission F) (i : IOIGenerator F) (id : JobID)
    (c : Completed (IOIGenerator F) F) : Prop where
  id_eq : c.generator.id = i.id
  problem : c.generator.problem = i.problem
  given : c.generator.givenJobs = i.givenJobs.delete id
  first_eq : c.generator.firstNotGivenTest = i.firstNotGivenTest
  good : Good outs sub c.generator
  published : ∀ s, c.published = some s → s.id = sub.id
  submission : c.submission = .ok none ∧ ¬ Finished c.generator ∨
    c.submission = .ok (some (finalSubmission i.problem outs sub)) ∧ Finished c.generator

omit [Add F] [Min F] in
/-- No job is given when all tests are completed. -/
theorem Processed.given_none (hj : Jobs outs i) (h : Processed outs i)
    (hend : i.firstNotCompletedTest = i.problem.testsNumber + 1) (id : JobID) :
    i.givenJobs.get? id = none := by
  cases hget : i.givenJobs.get? id with
  | none => rfl
  | some job =>
    obtain ⟨-, hpos, hlt, e, he, hrun⟩ := hj.given id job hget
    have hle := hj.first_le
    exact absurd hrun (h.notRunning _ e hpos (by omega) he)

omit [Add F] [Min F] [Zero F] in
theorem Updated.fields {i i' : IOIGenerator F} (h : Updated i i') :
    i'.id = i.id ∧ i'.problem = i.problem ∧ i'.state = i.state ∧ i'.givenJobs = i.givenJobs ∧
      i'.firstNotGivenTest = i.firstNotGivenTest := by
  rw [h]
  exact ⟨rfl, rfl, rfl, rfl, rfl⟩

omit [Add F] [Min F] in
/-- After a failed compilation nothing is waited for. -/
theorem Waiting.compiled (h : Waiting outs i) (hgiven : ∀ id, i.givenJobs.get? id = none) :
    outs.compile.verdict = .CD := by
  obtain ⟨-, ⟨id, job, hget, -⟩ | ⟨-, group, -, -, hm⟩⟩ := h
  · rw [hgiven] at hget
    cases hget
  · by_contra hne
    simp [marks, hne] at hm

/-- What `updateSubmissionResult` does when the stored results agree with the outcomes. -/
theorem updateSubmissionResult_good (hp : Prepared i) (hj : Jobs outs i) (hg : Graded outs sub i)
    (hphase : i.state = .compilationFinished ∧ outs.compile.verdict = .CD ∨
      i.state = .compilationStarted ∧ outs.compile.verdict ≠ .CD ∧
        ∀ id, i.givenJobs.get? id = none) :
    (∃ c, i.updateSubmissionResult = .ok c ∧ c.generator.id = i.id ∧
        c.generator.problem = i.problem ∧ c.generator.givenJobs = i.givenJobs ∧
        c.generator.firstNotGivenTest = i.firstNotGivenTest ∧ Good outs sub c.generator ∧
        (∀ s, c.published = some s → s.id = sub.id) ∧
        (c.submission = .ok none ∧ ¬ Finished c.generator ∨
          c.submission = .ok (some (finalSubmission i.problem outs sub)) ∧
            Finished c.generator)) ∨
      ∃ p, i.updateSubmissionResult = .error p ∧ ScorePanic i.problem outs sub p := by
  rcases updateLoop_eq _ false hp hj hg rfl with
    ⟨herr, group, hmem, hscore⟩ | ⟨j, updated, hloop, hgood, hend⟩
  · refine .inr ⟨_, ?_, .nilPoints group hmem hscore⟩
    simp only [updateSubmissionResult, herr, error_bind]
  obtain ⟨hid, hproblem, hstate, hgiven, hfirst⟩ := hgood.updated.fields
  rcases hend with hend | hwait
  · have hnone := hgood.graded.given_none hgood.jobs (hproblem ▸ hend)
    have hlen : j.givenJobs.len = 0 := (GoMap.len_eq_zero_iff _).2 hnone
    have hcond : j.firstNotCompletedTest > j.problem.testsNumber ∧ j.givenJobs.len = 0 :=
      ⟨by rw [hproblem]; omega, hlen⟩
    have hgroups : ¬ j.firstNotCompletedGroup ≤ j.problem.testGroups.length := by
      rw [hgood.graded.groups, hproblem, hend, groupsBefore_end hp.accepted]
      omega
    rcases setFinalScoreAndVerdict_eq hgood.prepared.accepted hgood.graded (hproblem ▸ hend) hlen
      with hfinal | ⟨p, herr, hpanic⟩
    · have hstarted : j.state ≠ .compilationNotStarted := by
        rcases hphase with ⟨hs, -⟩ | ⟨hs, -, -⟩ <;> simp [hstate, hs]
      have hfin : Finished { j with submission := finalSubmission j.problem outs sub } :=
        ⟨hstarted, hcond.1, hnone⟩
      have hscored : Scored j.problem outs sub := by
        have hall := hgood.graded.scored
        rwa [hend, ← hproblem, groupsBefore_end hgood.prepared.accepted] at hall
      refine .inl ⟨⟨{ j with submission := finalSubmission j.problem outs sub },
        some (finalSubmission j.problem outs sub), .ok (some (finalSubmission j.problem outs sub))⟩,
        ?_, hid, hproblem, hgiven, hfirst, ?_, ?_, .inr ⟨by rw [hproblem], hfin⟩⟩
      · simp only [updateSubmissionResult, hloop, ok_bind, if_pos hcond, hfinal, hgroups, if_false]
        rfl
      · rcases hphase with ⟨hs, hcd⟩ | ⟨hs, -⟩
        · refine .done (hstate.trans hs) hcd
            ⟨hgood.prepared.accepted, hgood.prepared.info, hgood.prepared.names,
              hgood.prepared.total, hgood.prepared.length⟩
            (hgood.jobs.of_eq rfl rfl rfl rfl fun _ => rfl) ?_ (hproblem ▸ hend) hnone hscored rfl
          exact ⟨hgood.graded.pos, hgood.graded.le, hgood.graded.notRunning, hgood.graded.skipped,
            hgood.graded.flags⟩
        · exact .failed (hstate.trans hs) hgood.prepared.accepted (hproblem ▸ hend) hnone hscored rfl
      · intro s hs
        cases hs
        rfl
    · refine .inr ⟨p, ?_, hproblem ▸ hpanic⟩
      simp only [updateSubmissionResult, hloop, ok_bind, if_pos hcond, herr, error_bind]
  · obtain ⟨hs, hcd⟩ := hphase.resolve_right fun hfail =>
      hfail.2.1 (hwait.compiled (hgiven ▸ hfail.2.2))
    have hcond : ¬ (j.firstNotCompletedTest > j.problem.testsNumber ∧ j.givenJobs.len = 0) :=
      fun hc => absurd hwait.1 (Nat.not_le.2 hc.1)
    refine .inl ⟨⟨j, if updated then some j.submission else none, .ok none⟩, ?_, hid, hproblem,
      hgiven, hfirst, .testing (hstate.trans hs) hcd hgood.prepared hgood.jobs hgood.graded hwait, ?_,
      .inl ⟨rfl, hwait.not_finished⟩⟩
    · simp only [updateSubmissionResult, hloop, ok_bind, hcond, if_false]
      rfl
    · intro s hsome
      cases updated <;> cases hsome
      rw [hgood.graded.submission]
      rfl

/-- The same for a call on `i` that stored a result in `j`. -/
theorem completed_of_update {j : IOIGenerator F} {id : JobID} (hp : Prepared j)
    (hj : Jobs outs j) (hg : Graded outs sub j) (hid : j.id = i.id)
    (hproblem : j.problem = i.problem) (hgiven : j.givenJobs = i.givenJobs.delete id)
    (hfirst : j.firstNotGivenTest = i.firstNotGivenTest)
    (hphase : j.state = .compilationFinished ∧ outs.compile.verdict = .CD ∨
      j.state = .compilationStarted ∧ outs.compile.verdict ≠ .CD ∧
        ∀ id, j.givenJobs.get? id = none) :
    (∃ c, j.updateSubmissionResult = .ok c ∧ CompletedGood outs sub i id c) ∨
      ∃ p, j.updateSubmissionResult = .error p ∧ ScorePanic i.problem outs sub p := by
  rcases updateSubmissionResult_good hp hj hg hphase with
    ⟨c, he, hid', hproblem', hgiven', hfirst', hgood, hpub, hsub⟩ | ⟨p, he, hpanic⟩
  · refine .inl ⟨c, he, hid'.trans hid, hproblem'.trans hproblem, hgiven'.trans hgiven,
      hfirst'.trans hfirst, hgood, hpub, ?_⟩
    rw [← hproblem]
    exact hsub
  · exact .inr ⟨p, he, hproblem ▸ hpanic⟩

/-! ## The compile job -/

omit [Add F] [Min F] [Zero F] in
theorem Untested.prepared (h : Untested sub i) : Prepared i := by
  refine ⟨h.accepted, h.tables.info, fun group hg t ht => ?_, fun group hg => ?_, ?_⟩
  · rw [groupNameOfTest, h.tables.names group hg t (h.accepted.has_bounds hg ht).1 ht]
    rfl
  · exact ⟨_, h.tables.internal group hg⟩
  · rw [h.tables.results]
    simp

omit [Add F] [Min F] [Zero F] in
theorem Untested.not_stopped (h : Untested sub i) {group : TestGroup F}
    (hg : group ∈ i.problem.testGroups) :
    stopFlag.of i.groupNameToInternalInfo group.name = false := by
  rw [GroupFlag.of_eq (h.tables.internal group hg)]
  rfl

omit [Add F] [Min F] in
/-- A generator without jobs that tested nothing agrees with any outcomes. -/
theorem Untested.jobs (h : Untested sub i) (hgiven : ∀ id, i.givenJobs.get? id = none) :
    Jobs outs i := by
  refine ⟨?_, ?_, ?_, ?_, ?_, ?_, ?_⟩
  · exact Nat.le_of_eq h.first.symm
  · rw [h.first]
    omega
  · intro id job hget
    rw [hgiven] at hget
    cases hget
  · intro id id' job job' hget
    rw [hgiven] at hget
    cases hget
  · intro group hg t ht
    have hb := h.accepted.has_bounds hg ht
    refine ⟨newEntry t, ?_, rfl, .notGiven rfl (h.first ▸ hb.1)⟩
    rw [getEntry, h.tables.results, List.getElem?_map, List.getElem?_range' (by omega)]
    simp only [Option.map_some, Option.some.injEq, Nat.one_mul]
    rw [Nat.add_sub_cancel' hb.1]
  · intro group hg name hname hstop
    obtain ⟨required, hreq, rfl, -⟩ := h.accepted.required_before hg hname
    rw [h.not_stopped hreq] at hstop
    cases hstop
  · intro group hg hstop
    rw [h.not_stopped hg] at hstop
    cases hstop

/-- The state after the compile job: nothing is completed yet, and the marks are those of the
compile verdict. -/
theorem Untested.graded (h : Untested sub i) {infos : GoMap String InternalGroupInfo}
    (state : GeneratorState)
    (hflags : ∀ group ∈ i.problem.testGroups, markFlag.of infos group.name =
      decide (outs.compile.verdict ≠ .CD)) :
    Graded outs sub { i with
      state := state
      groupNameToInternalInfo := infos
      submission := compiledSubmission outs.compile sub } := by
  have hnone : groupsBefore i.problem 1 = [] := by
    rw [groupsBefore, List.filter_eq_nil_iff]
    intro group hg
    have := h.accepted.tiled.bounds hg
    rw [decide_eq_true_eq]
    omega
  refine ⟨⟨?_, ?_, ?_, ?_, ?_⟩, ?_, ?_, ?_⟩
  · exact Nat.le_of_eq h.completedTest.symm
  · change i.firstNotCompletedTest ≤ _
    rw [h.completedTest]
    omega
  · intro t e h1 ht
    change t < i.firstNotCompletedTest at ht
    rw [h.completedTest] at ht
    omega
  · intro group hg t ht hlt
    have := h.accepted.has_bounds hg ht
    change t < i.firstNotCompletedTest at hlt
    rw [h.completedTest] at hlt
    omega
  · intro group hg
    change markFlag.of infos group.name = marks i.problem outs i.firstNotCompletedTest group.name
    rw [hflags group hg, h.completedTest, Bool.eq_iff_iff, marks_iff h.accepted, decide_eq_true_eq]
    refine (or_iff_left ?_).symm
    rintro ⟨g, hmem, ⟨p, hp, hprev⟩, -⟩
    have := h.accepted.has_bounds hmem hprev.1
    omega
  · change compiledSubmission outs.compile sub = gradedSubmission i.problem outs sub
      i.firstNotCompletedTest
    rw [h.completedTest, gradedSubmission, hnone]
    simp [shownTests, compiledSubmission]
  · change i.firstNotCompletedGroup = (groupsBefore i.problem i.firstNotCompletedTest).length + 1
    rw [h.completedTest, h.completedGroup, hnone]
    rfl
  · intro group hg
    change group ∈ groupsBefore i.problem i.firstNotCompletedTest at hg
    rw [h.completedTest, hnone] at hg
    cases hg

omit [Add F] [Min F] [Zero F] in
/-- What `compileJobCompleted` does: it stores the outcome and, unless it is `CD`, marks all
groups. -/
theorem compileJobCompleted_eq {i : IOIGenerator F} (h : Untested sub i) {job : Job}
    (htest : job.test = 0) (result : InvokerJobResult F) :
    ∃ infos state, i.compileJobCompleted job result =
        .ok { i with
          state := state
          groupNameToInternalInfo := infos
          submission := compiledSubmission result.outcome sub } ∧
      state = (if result.verdict = .CD then .compilationFinished else i.state) ∧
      Total i.problem.testGroups infos ∧
      (∀ name, stopFlag.of infos name = stopFlag.of i.groupNameToInternalInfo name) ∧
      ∀ group ∈ i.problem.testGroups,
        markFlag.of infos group.name = decide (result.verdict ≠ .CD) := by
  have htotal := h.prepared.total
  have hsub := h.submission
  by_cases hcd : result.verdict = .CD
  · refine ⟨i.groupNameToInternalInfo, .compilationFinished, ?_, (if_pos hcd).symm, htotal,
      fun _ => rfl, fun group hg => ?_⟩
    · simp only [compileJobCompleted, hcd, hsub, buildTestResult_eq, htest, compiledSubmission,
        compileVerdict, storedCompileOutcome, InvokerJobResult.outcome_verdict]
      rfl
    · rw [GroupFlag.of_eq (h.tables.internal group hg)]
      simp [hcd, markFlag]
  · obtain ⟨infos, hmark, hsets⟩ := markAllGroups_eq htotal
    refine ⟨infos, i.state, ?_, (if_neg hcd).symm, hsets.total htotal, hsets.stop_of,
      fun group hg => ?_⟩
    · obtain ⟨rjob, verdict, points, error, statistics, status⟩ := result
      cases verdict <;>
        first
        | exact absurd rfl hcd
        | (simp only [compileJobCompleted, hmark, ok_bind, hsub, buildTestResult_eq, htest,
             compiledSubmission, compileVerdict, storedCompileOutcome, InvokerJobResult.outcome]
           rfl)
    · obtain ⟨info, hinfo⟩ := htotal group hg
      have hany : (i.problem.testGroups.any fun g => decide (group.name = g.name)) = true :=
        List.any_eq_true.2 ⟨group, hg, by simp⟩
      rw [hsets.of hinfo, hany, Bool.or_true, decide_eq_true hcd]

/-! ## JobCompleted -/

/-- Completing a given job with an admissible result keeps the invariant, or panics because of the
scores. -/
theorem jobCompleted_good (h : Good outs sub i) {result : InvokerJobResult F} {job : Job}
    (hget : i.givenJobs.get? result.job.id = some job)
    (hadm : Admissible i.problem outs job result) :
    (∃ c, i.jobCompleted result = .ok c ∧ CompletedGood outs sub i result.job.id c) ∨
      ∃ p, i.jobCompleted result = .error p ∧ ScorePanic i.problem outs sub p := by
  cases h with
  | notStarted state untested given =>
    rw [given] at hget
    cases hget
  | done state verdict prepared jobs processed completed given =>
    rw [given] at hget
    cases hget
  | failed state accepted completed given =>
    rw [given] at hget
    cases hget
  | compiling state untested id cjob compiling =>
    obtain rfl := compiling.only _ _ hget
    obtain rfl : cjob = job := Option.some.inj (compiling.given.symm.trans hget)
    have hout : result.outcome = outs.compile := by simpa [Admissible, compiling.type] using hadm
    have hverdict : result.verdict = outs.compile.verdict := by rw [← hout]; rfl
    have hdel := GoMap.get?_delete_only compiling.only
    have hunt := untested.withGiven i.state (i.givenJobs.delete result.job.id)
    obtain ⟨infos, gstate, he, hgstate, htotal, hstop, hflags⟩ :=
      compileJobCompleted_eq hunt compiling.test result
    rw [hverdict] at hgstate hflags
    rw [hout] at he
    have hgraded := hunt.graded gstate hflags
    have hprep := hunt.prepared
    have hjobs : Jobs outs { i with givenJobs := i.givenJobs.delete result.job.id } :=
      hunt.jobs hdel
    simp only [jobCompleted, hget, compiling.type, he, ok_bind]
    refine completed_of_update ⟨hprep.accepted, hprep.info, hprep.names, htotal, hprep.length⟩
      (hjobs.of_eq rfl rfl rfl rfl hstop) hgraded rfl rfl rfl rfl ?_
    by_cases hcd : outs.compile.verdict = .CD
    · exact .inl ⟨by rw [hgstate, if_pos hcd], hcd⟩
    · exact .inr ⟨by rw [hgstate, if_neg hcd]; exact state, hcd, hdel⟩
  | testing state verdict prepared jobs graded waiting =>
    obtain ⟨htype, hpos, hlt, -⟩ := jobs.given _ _ hget
    have hle := jobs.first_le
    obtain ⟨group, hg, hhas⟩ := prepared.accepted.exists_group hpos (by omega)
    have hstorable : Storable i.problem outs group job.test
        ((storedOutcome group result.outcome).testResult job.test) := by
      rw [Admissible, htype] at hadm
      rcases hadm with hout | ⟨g, hmem, hhas', hm⟩
      · exact .inl (by rw [hout]; rfl)
      · rw [prepared.accepted.eq_of_has hmem hg hhas' hhas] at hm
        exact .inr hm
    obtain ⟨infos, he, hs⟩ := testJobCompleted_eq prepared jobs hget hg hhas result
    have hjobs := jobs.complete prepared verdict hget hg hhas rfl hstorable hs
    have hproc := graded.toProcessed.complete jobs hget
      ((storedOutcome group result.outcome).testResult job.test) hs
    simp only [jobCompleted, hget, htype, he, ok_bind]
    exact completed_of_update
      ⟨prepared.accepted, prepared.info, prepared.names, hs.total, (prepared.withEntry _ _).length⟩
      hjobs ⟨hproc, graded.submission, graded.groups, graded.scored⟩ rfl rfl rfl rfl
      (.inl ⟨state, verdict⟩)

/-- A result for a job that is not given changes nothing. -/
theorem jobCompleted_unknown {result : InvokerJobResult F}
    (hget : i.givenJobs.get? result.job.id = none) :
    i.jobCompleted result =
      .ok ⟨i, none, .error s!"job {result.job.id} does not exist"⟩ := by
  simp [jobCompleted, hget]

/-! ## Changing the outcomes -/

omit [Add F] [Min F] in
/-- The marks depend on the outcomes of the compile job and of the tests before. -/
theorem marks_congr {problem : Problem F} (ha : Accepted problem) {outs' : Outcomes F}
    (hc : outs'.compile = outs.compile) {k : Nat} (h : ∀ t < k, outs'.test t = outs.test t)
    (name : String) : marks problem outs' k name = marks problem outs k name := by
  have hprev : ∀ group p, p < k → (PreventedBy outs' group p ↔ PreventedBy outs group p) := by
    intro group p hp
    rw [PreventedBy, PreventedBy, h p hp]
  rw [Bool.eq_iff_iff, marks_iff ha, marks_iff ha, hc]
  refine or_congr_right (exists_congr fun group => and_congr_right fun _ => and_congr_left fun _ => ?_)
  exact exists_congr fun p => and_congr_right fun hp => hprev group p hp

omit [Add F] [Min F] in
theorem shown_congr {problem : Problem F} (ha : Accepted problem) {outs' : Outcomes F}
    (hc : outs'.compile = outs.compile) {t : Nat} (h : ∀ s ≤ t, outs'.test s = outs.test s) :
    shown problem outs' t = shown problem outs t := by
  unfold shown
  cases problem.testGroups.find? fun group => decide (group.Has t) with
  | none => rfl
  | some group =>
    simp only [marks_congr ha hc (fun s hs => h s (Nat.le_of_lt hs)), h t (Nat.le_refl t)]

omit [Add F] [Min F] in
theorem shownTests_congr {problem : Problem F} (ha : Accepted problem) {outs' : Outcomes F}
    (hc : outs'.compile = outs.compile) {k : Nat} (h : ∀ s ≤ k, outs'.test s = outs.test s) :
    shownTests problem outs' k = shownTests problem outs k := by
  refine List.map_congr_left fun t ht => shown_congr ha hc fun s hs => h s ?_
  have := (List.mem_range'_1.1 ht).2
  omega

omit [Add F] [Min F] in
theorem groupTests_congr {problem : Problem F} (ha : Accepted problem) {outs' : Outcomes F}
    (hc : outs'.compile = outs.compile) {group : TestGroup F} (hg : group ∈ problem.testGroups)
    (h : ∀ s ≤ group.lastTest, outs'.test s = outs.test s) :
    groupTests problem outs' sub group = groupTests problem outs sub group := by
  have hle := (ha.tiled.bounds hg).2.2
  have h1 := groupTestResults_eq outs' sub hle
  have h2 := groupTestResults_eq outs sub hle
  rw [shownTests_congr ha hc h, h2] at h1
  exact (Except.ok.inj h1).symm

omit [Add F] [Min F] in
/-- The marks before a test do not depend on its outcome. -/
theorem marks_setTest_before {problem : Problem F} (ha : Accepted problem) {test : Nat}
    (outcome : Outcome F) {k : Nat} (hk : k ≤ test) (name : String) :
    marks problem (outs.setTest test outcome) k name = marks problem outs k name := by
  have hcompile : (outs.setTest test outcome).compile = outs.compile := rfl
  refine marks_congr ha hcompile (fun t ht => ?_) name
  exact Outcomes.setTest_ne _ _ (Nat.ne_of_lt (Nat.lt_of_lt_of_le ht hk))

omit [Add F] [Min F] in
theorem PreventedBy.setTest {group : TestGroup F} {test p : Nat} {outcome : Outcome F}
    (hmono : PreventedBy outs group test →
      prevents group (storedOutcome group outcome).verdict = true)
    (h : PreventedBy outs group p) : PreventedBy (outs.setTest test outcome) group p := by
  by_cases heq : p = test
  · subst heq
    refine ⟨h.1, ?_⟩
    rw [Outcomes.setTest_self]
    exact hmono h
  · rw [PreventedBy, Outcomes.setTest_ne _ _ heq]
    exact h

omit [Add F] [Min F] in
theorem marks_setTest {problem : Problem F} (ha : Accepted problem) {test : Nat}
    {outcome : Outcome F}
    (hmono : ∀ group ∈ problem.testGroups, PreventedBy outs group test →
      prevents group (storedOutcome group outcome).verdict = true) {k : Nat} {name : String}
    (h : marks problem outs k name = true) :
    marks problem (outs.setTest test outcome) k name = true := by
  rw [marks_iff ha] at h ⊢
  refine h.imp_right ?_
  rintro ⟨group, hg, ⟨p, hp, hprev⟩, hl⟩
  exact ⟨group, hg, ⟨p, hp, hprev.setTest (hmono group hg)⟩, hl⟩

omit [Add F] [Min F] in
/-- The entries of a state agree with an outcome that prevents more, while its test is running. -/
theorem Jobs.setTest (jobs : Jobs outs i) (ha : Accepted i.problem) {id : JobID} {job : Job}
    (hget : i.givenJobs.get? id = some job) {outcome : Outcome F}
    (hmono : ∀ group ∈ i.problem.testGroups, PreventedBy outs group job.test →
      prevents group (storedOutcome group outcome).verdict = true) :
    Jobs (outs.setTest job.test outcome) i := by
  obtain ⟨-, -, -, e, he, hrun⟩ := jobs.given _ _ hget
  refine ⟨jobs.first_pos, jobs.first_le, jobs.given, jobs.given_inj, ?_, jobs.closed, ?_⟩
  · intro g hg t ht
    obtain ⟨e', he', hnum, hold⟩ := jobs.entries g hg t ht
    refine ⟨e', he', hnum, ?_⟩
    cases hold with
    | notGiven state' le => exact .notGiven state' le
    | running state' lt id' job' given test => exact .running state' lt id' job' given test
    | own state' lt result stops =>
      have hne : t ≠ job.test := by
        rintro rfl
        rw [he] at he'
        cases he'
        rw [hrun] at state'
        cases state'
      refine .own state' lt ?_ fun hp => stops ?_
      · rw [ownResult, Outcomes.setTest_ne _ _ hne]
        exact result
      · rwa [PreventedBy, Outcomes.setTest_ne _ _ hne] at hp
    | marked state' lt marked => exact .marked state' lt (marks_setTest ha hmono marked)
  · intro g hg hs
    obtain ⟨g', hg', ⟨p, hp, hp'⟩, hl⟩ := jobs.cause g hg hs
    exact ⟨g', hg', ⟨p, hp, hp'.setTest (hmono g' hg')⟩, hl⟩

/-- The grades so far do not depend on a test that is not completed. -/
theorem Graded.setTest (graded : Graded outs sub i) (ha : Accepted i.problem) {test : Nat}
    (hle : i.firstNotCompletedTest ≤ test) (outcome : Outcome F) :
    Graded (outs.setTest test outcome) sub i := by
  have hsame : ∀ t, t < test → (outs.setTest test outcome).test t = outs.test t :=
    fun t ht => Outcomes.setTest_ne _ _ (Nat.ne_of_lt ht)
  have hcompile : (outs.setTest test outcome).compile = outs.compile := rfl
  have hscored : ∀ g ∈ groupsBefore i.problem i.firstNotCompletedTest,
      groupTests i.problem (outs.setTest test outcome) sub g =
        groupTests i.problem outs sub g := by
    intro g hg
    rw [groupsBefore, List.mem_filter, decide_eq_true_eq] at hg
    exact groupTests_congr ha hcompile hg.1 fun s hs => hsame s (by omega)
  refine ⟨⟨graded.pos, graded.le, graded.notRunning, ?_, ?_⟩, ?_, graded.groups, ?_⟩
  · intro g hg t ht hlt' hle'
    rw [marks_setTest_before ha outcome (Nat.le_trans (Nat.le_of_lt hlt') hle)]
    exact graded.skipped g hg t ht hlt' hle'
  · intro g hg
    rw [marks_setTest_before ha outcome hle]
    exact graded.flags g hg
  · rw [graded.submission, gradedSubmission, gradedSubmission]
    rw [shownTests_congr ha hcompile fun s hs => hsame s (by have := graded.pos; omega)]
    have hmap : (groupsBefore i.problem i.firstNotCompletedTest).map
        (groupResult i.problem (outs.setTest test outcome) sub) =
        (groupsBefore i.problem i.firstNotCompletedTest).map (groupResult i.problem outs sub) :=
      List.map_congr_left fun g hg => by simp only [groupResult, hscored g hg]
    rw [hmap]
    rfl
  · intro g hg
    rw [hscored g hg]
    exact graded.scored g hg

/-- As long as the result of a test is out, its outcome may be replaced by one that prevents every
group that the old one did. -/
theorem Good.setTest (h : Good outs sub i) {id : JobID} {job : Job}
    (hget : i.givenJobs.get? id = some job) {outcome : Outcome F}
    (hmono : ∀ group ∈ i.problem.testGroups, PreventedBy outs group job.test →
      prevents group (storedOutcome group outcome).verdict = true) :
    Good (outs.setTest job.test outcome) sub i := by
  cases h with
  | notStarted state untested given =>
    rw [given] at hget
    cases hget
  | compiling state untested id' cjob compiling =>
    exact .compiling state untested id' cjob compiling
  | done state verdict prepared jobs processed completed given =>
    rw [given] at hget
    cases hget
  | failed state accepted completed given =>
    rw [given] at hget
    cases hget
  | testing state verdict prepared jobs graded waiting =>
    obtain ⟨-, hpos, hlt, e, he, hrun⟩ := jobs.given _ _ hget
    have ha := prepared.accepted
    -- The test is running, so it is not completed.
    have hle : i.firstNotCompletedTest ≤ job.test := by
      by_contra hlt'
      exact graded.notRunning _ e hpos (Nat.not_le.1 hlt') he hrun
    refine .testing state verdict prepared (jobs.setTest ha hget hmono)
      (graded.setTest ha hle outcome) ⟨waiting.1, waiting.2.imp_right ?_⟩
    rintro ⟨hfirst, g, hg, hhas, hm⟩
    refine ⟨hfirst, g, hg, hhas, ?_⟩
    rw [marks_setTest_before ha outcome hle]
    exact hm

/-- While the compile job is out, nothing depends on the outcomes. -/
theorem Good.setCompile (h : Good outs sub i) {id : JobID} {job : Job}
    (hget : i.givenJobs.get? id = some job) (htype : job.type = .compileJob)
    (outs' : Outcomes F) : Good outs' sub i := by
  cases h with
  | notStarted state untested given => exact .notStarted state untested given
  | compiling state untested id' cjob compiling =>
    exact .compiling state untested id' cjob compiling
  | testing state verdict prepared jobs =>
    rw [(jobs.given _ _ hget).1] at htype
    cases htype
  | done state verdict prepared jobs processed completed given =>
    rw [given] at hget
    cases hget
  | failed state accepted completed given =>
    rw [given] at hget
    cases hget

end TestingSystem.IOIGenerator
