import TestingSystem.Master.JobGenerators.IOIInvariant

/-!
# Processing of the results in the IOI generator

`updateSubmissionResult` completes the tests in order. `gradedSubmission` is the submission after the
first tests, computed from the outcomes: every test is `shown`, and a group is scored when its last
test is. The loop of the generator either stays at this grade or panics because the points of a test
are missing (`updateLoop_eq`).
-/

set_option autoImplicit false

namespace TestingSystem.IOIGenerator

variable {F : Type} [Add F] [Min F] [Zero F]

/-! ## The grade -/

/-- The results of the first `k` tests. -/
def shownTests (problem : Problem F) (outs : Outcomes F) (k : Nat) : List (TestResult F) :=
  (List.range' 1 k).map (shown problem outs)

/-- The results of the tests of a group, as `completeGroupTesting` reads them. -/
def groupTests (problem : Problem F) (outs : Outcomes F) (sub : Submission F)
    (group : TestGroup F) : List (TestResult F) :=
  ((sub.testResults ++ shownTests problem outs problem.testsNumber).take group.lastTest).drop
    (group.firstTest - 1)

/-- The points of a group, 0 where `completeGroupTesting` panics. -/
def groupPoints (group : TestGroup F) (results : List (TestResult F)) : F :=
  match groupScore group results with
  | .ok score => score
  | .error _ => 0

/-- The result of a group. -/
def groupResult (problem : Problem F) (outs : Outcomes F) (sub : Submission F)
    (group : TestGroup F) : GroupResult F :=
  let results := groupTests problem outs sub group
  { groupName := group.name
    points := groupPoints group results
    passed := decide (calcGroupVerdict results = .OK) }

/-- The groups whose tests are all before test `k`. -/
def groupsBefore (problem : Problem F) (k : Nat) : List (TestGroup F) :=
  problem.testGroups.filter fun group => decide (group.lastTest < k)

/-- The submission when the tests before test `k` are completed. -/
def gradedSubmission (problem : Problem F) (outs : Outcomes F) (sub : Submission F) (k : Nat) :
    Submission F :=
  { compiledSubmission outs.compile sub with
    testResults := sub.testResults ++ shownTests problem outs (k - 1)
    groupResults := sub.groupResults ++
      (groupsBefore problem k).map (groupResult problem outs sub) }

variable {problem : Problem F} {outs : Outcomes F} {sub : Submission F} {i : IOIGenerator F}

omit [Add F] [Min F] [Zero F] in
theorem groupsBefore_succ {groups : List (TestGroup F)} {first last : Nat}
    (h : Tiled first groups last) {group : TestGroup F} (hg : group ∈ groups) {k : Nat}
    (hk : group.Has k) :
    (groups.filter fun g => decide (g.lastTest < k + 1)) =
      (groups.filter fun g => decide (g.lastTest < k)) ++
        if k = group.lastTest then [group] else [] := by
  obtain ⟨hk1, hk2⟩ := hk
  induction groups generalizing first with
  | nil => cases hg
  | cons head groups ih =>
    obtain ⟨hfirst, hle, htiled⟩ := h
    rcases List.mem_cons.1 hg with rfl | hmem
    · have hnone : ∀ m ≤ group.lastTest + 1,
          (groups.filter fun g => decide (g.lastTest < m)) = [] := by
        intro m hm
        rw [List.filter_eq_nil_iff]
        intro g hg'
        have := htiled.bounds hg'
        simp only [decide_eq_true_eq]
        omega
      have hlt : ¬ group.lastTest < k := by omega
      simp only [List.filter_cons, hnone (k + 1) (by omega), hnone k (by omega), hlt, decide_false,
        Bool.false_eq_true, if_false, List.nil_append]
      by_cases heq : k = group.lastTest
      · simp [heq]
      · have hlt' : ¬ group.lastTest < k + 1 := by omega
        simp [heq, hlt']
    · have := htiled.bounds hmem
      have hlt : head.lastTest < k := by omega
      have hlt' : head.lastTest < k + 1 := by omega
      simp only [List.filter_cons, hlt, hlt', decide_true, if_true, ih htiled hmem,
        List.cons_append]

omit [Add F] [Min F] in
theorem shownTests_succ (k : Nat) :
    shownTests problem outs (k + 1) = shownTests problem outs k ++ [shown problem outs (k + 1)] := by
  simp only [shownTests, List.range'_1_concat, List.map_append, List.map_cons, List.map_nil,
    Nat.add_comm 1 k]

omit [Add F] [Min F] in
theorem shownTests_of_pos {k : Nat} (h : 1 ≤ k) :
    shownTests problem outs (k - 1) ++ [shown problem outs k] = shownTests problem outs k := by
  have hk : k - 1 + 1 = k := Nat.sub_add_cancel h
  rw [← hk, Nat.add_sub_cancel, shownTests_succ]

omit [Add F] [Min F] in
@[simp] theorem length_shownTests (k : Nat) : (shownTests problem outs k).length = k := by
  simp [shownTests]

omit [Add F] [Min F] in
theorem shownTests_add (problem : Problem F) (outs : Outcomes F) (k n : Nat) :
    ∃ rest, shownTests problem outs (k + n) = shownTests problem outs k ++ rest := by
  induction n with
  | zero => exact ⟨[], (List.append_nil _).symm⟩
  | succ n ih =>
    obtain ⟨rest, hrest⟩ := ih
    exact ⟨rest ++ [shown problem outs (k + n + 1)], by
      rw [← Nat.add_assoc, shownTests_succ, hrest, List.append_assoc]⟩

omit [Add F] [Min F] in
/-- A group reads the same results when its last test is completed as at the end. -/
theorem groupTestResults_eq (outs : Outcomes F) (sub : Submission F) {group : TestGroup F}
    (hle : group.lastTest ≤ problem.testsNumber) :
    groupTestResults (sub.testResults ++ shownTests problem outs group.lastTest) group =
      .ok (groupTests problem outs sub group) := by
  obtain ⟨rest, hrest⟩ := shownTests_add problem outs group.lastTest
    (problem.testsNumber - group.lastTest)
  rw [Nat.add_sub_cancel' hle] at hrest
  have hlen : group.lastTest ≤
      (sub.testResults ++ shownTests problem outs group.lastTest).length := by
    simp
  rw [groupTestResults, if_pos hlen, groupTests, hrest, ← List.append_assoc,
    List.take_append_of_le_length hlen]

omit [Add F] [Zero F] [Min F] in
theorem sumPoints_or [Add F] (results : List (TestResult F)) (score : F) :
    (∃ s, sumPoints results score = .ok s) ∨ sumPoints results score = .error .nilPoints := by
  induction results generalizing score with
  | nil => exact .inl ⟨score, rfl⟩
  | cons result results ih =>
    rw [sumPoints]
    cases result.points with
    | none => exact .inr rfl
    | some points => exact ih _

omit [Add F] in
theorem minPoints_or (results : List (TestResult F)) (score : F) :
    (∃ s, minPoints results score = .ok s) ∨ minPoints results score = .error .nilPoints := by
  induction results generalizing score with
  | nil => exact .inl ⟨score, rfl⟩
  | cons result results ih =>
    rw [minPoints]
    cases result.points with
    | none =>
      by_cases hsk : result.verdict = .SK
      · simpa [hsk] using ih 0
      · exact .inr (by simp [hsk])
    | some points => exact ih _

/-- The only panic of a score is about missing points. -/
theorem groupScore_or {group : TestGroup F} (h : group.Scored) (results : List (TestResult F)) :
    (∃ s, groupScore group results = .ok s) ∨ groupScore group results = .error .nilPoints := by
  unfold groupScore
  unfold TestGroup.Scored at h
  cases hs : group.scoringType with
  | complete =>
    simp only [hs] at h
    obtain ⟨score, hscore⟩ := Option.isSome_iff_exists.1 h
    by_cases hv : calcGroupVerdict results = .OK
    · exact .inl ⟨score, by simp [hv, hscore]⟩
    · exact .inl ⟨0, by simp [hv]⟩
  | eachTest => exact sumPoints_or results 0
  | min =>
    simp only [hs] at h
    obtain ⟨score, hscore⟩ := Option.isSome_iff_exists.1 h
    simpa [hscore] using minPoints_or results score
  | other value => simp [hs] at h

/-- Every group has a score: no test that is added up lacks its points. -/
def Scored (problem : Problem F) (outs : Outcomes F) (sub : Submission F) : Prop :=
  ∀ group ∈ problem.testGroups, ∃ s, groupScore group (groupTests problem outs sub group) = .ok s

/-! ## One turn -/

omit [Add F] [Min F] in
/-- Nothing that the invariant of the jobs mentions differs. -/
theorem Jobs.of_eq (h : Jobs outs i) {i' : IOIGenerator F} (hproblem : i'.problem = i.problem)
    (hfirst : i'.firstNotGivenTest = i.firstNotGivenTest) (hgiven : i'.givenJobs = i.givenJobs)
    (hresults : i'.internalTestResults = i.internalTestResults)
    (hstop : ∀ name, stopFlag.of i'.groupNameToInternalInfo name =
      stopFlag.of i.groupNameToInternalInfo name) : Jobs outs i' := by
  have hentry : ∀ t, i'.getEntry t = i.getEntry t := fun t => by rw [getEntry, getEntry, hresults]
  refine ⟨?_, ?_, ?_, ?_, ?_, ?_, ?_⟩
  · rw [hfirst]
    exact h.first_pos
  · rw [hfirst, hproblem]
    exact h.first_le
  · simp only [hgiven, hfirst, hentry]
    exact h.given
  · rw [hgiven]
    exact h.given_inj
  · intro group hg t ht
    rw [hproblem] at hg
    obtain ⟨e, he, hnum, hold⟩ := h.entries group hg t ht
    refine ⟨e, (hentry t).trans he, hnum, ?_⟩
    cases hold with
    | notGiven state le => exact .notGiven state (hfirst ▸ le)
    | running state lt id job given test =>
      exact .running state (hfirst ▸ lt) id job (hgiven ▸ given) test
    | own state lt result stops =>
      exact .own state (hfirst ▸ lt) result fun hprev => (hstop _).trans (stops hprev)
    | marked state lt marked => exact .marked state (hfirst ▸ lt) (hproblem ▸ marked)
  · simp only [hproblem, hstop]
    exact h.closed
  · simp only [hproblem, hstop, hfirst]
    exact h.cause

/-- The submission and the completed groups agree with the grade. -/
structure Graded (outs : Outcomes F) (sub : Submission F) (i : IOIGenerator F) : Prop extends
    Processed outs i where
  submission : i.submission = gradedSubmission i.problem outs sub i.firstNotCompletedTest
  groups : i.firstNotCompletedGroup =
    (groupsBefore i.problem i.firstNotCompletedTest).length + 1
  scored : ∀ group ∈ groupsBefore i.problem i.firstNotCompletedTest,
    ∃ s, groupScore group (groupTests i.problem outs sub group) = .ok s

/-- Only the fields that the processing of results writes differ. -/
def Updated (i i' : IOIGenerator F) : Prop :=
  i' = { i with
    submission := i'.submission
    groupNameToInternalInfo := i'.groupNameToInternalInfo
    firstNotCompletedTest := i'.firstNotCompletedTest
    firstNotCompletedGroup := i'.firstNotCompletedGroup }

omit [Add F] [Min F] [Zero F] in
theorem Updated.trans {i j k : IOIGenerator F} (h : Updated i j) (h' : Updated j k) :
    Updated i k := by
  unfold Updated at h h' ⊢
  rw [h'] at *
  rw [h]

omit [Add F] [Min F] in
/-- Appending the result of the next test: it is the shown one, and the marks are those after it. -/
theorem addTestResult_eq (hp : Prepared i) (hj : Jobs outs i) (h : Processed outs i)
    {group : TestGroup F} (hg : group ∈ i.problem.testGroups)
    (hhas : group.Has i.firstNotCompletedTest) {e : InternalTestResult F}
    (he : i.getEntry i.firstNotCompletedTest = some e) (hrun : e.state ≠ .testRunning)
    (hmark : e.state = .testNotGiven →
      marks i.problem outs i.firstNotCompletedTest group.name = true) :
    ∃ infos, i.addTestResult group.name group
        (marks i.problem outs i.firstNotCompletedTest group.name) e.result =
        .ok { i.appendTestResult (shown i.problem outs i.firstNotCompletedTest) with
          groupNameToInternalInfo := infos } ∧
      Total i.problem.testGroups infos ∧
      (∀ name, stopFlag.of infos name = stopFlag.of i.groupNameToInternalInfo name) ∧
      ∀ g ∈ i.problem.testGroups, markFlag.of infos g.name =
        marks i.problem outs (i.firstNotCompletedTest + 1) g.name := by
  obtain ⟨e', he', hnum, hentry⟩ := hj.entries group hg _ hhas
  rw [he] at he'
  cases he'
  rw [shown_eq hp.accepted hg hhas]
  -- If the test adds no mark, the flags stay as they are.
  have hkeep : (PreventedBy outs group i.firstNotCompletedTest →
      marks i.problem outs i.firstNotCompletedTest group.name = true) →
      ∀ g ∈ i.problem.testGroups, markFlag.of i.groupNameToInternalInfo g.name =
        marks i.problem outs (i.firstNotCompletedTest + 1) g.name := by
    intro hno g hmem
    rw [h.flags g hmem, Bool.eq_iff_iff, marks_succ hp.accepted hg hhas]
    refine (or_iff_left_of_imp ?_).symm
    rintro ⟨hprev, hl⟩
    exact marks_of_leads hp.accepted (hno hprev) hl
  cases hm : marks i.problem outs i.firstNotCompletedTest group.name with
  | true =>
    refine ⟨i.groupNameToInternalInfo, ?_, hp.total, fun _ => rfl, hkeep fun _ => hm⟩
    simp only [addTestResult, if_true, hnum]
    rfl
  | false =>
    -- The group is not marked, so the result is the test's own.
    have hown : e.result = ownResult group outs i.firstNotCompletedTest := by
      cases hentry with
      | notGiven state => rw [hmark state] at hm; cases hm
      | running state => exact absurd state hrun
      | own state lt result => exact result
      | marked state lt marked => rw [marked] at hm; cases hm
    have hshown : (if e.result.verdict = .SK then
        { e.result with
          verdict := .CF
          error := "invoker returned verdict SK, but no required test failed" }
        else e.result) =
        shownResult i.firstNotCompletedTest
          (storedOutcome group (outs.test i.firstNotCompletedTest)) := by
      rw [hown]
      rfl
    have hprevents : prevents group (shownResult i.firstNotCompletedTest
        (storedOutcome group (outs.test i.firstNotCompletedTest))).verdict = true ↔
        PreventedBy outs group i.firstNotCompletedTest := by
      rw [prevents_shownResult]
      exact ⟨fun hprev => ⟨hhas, hprev⟩, fun hprev => hprev.2⟩
    simp only [addTestResult, Bool.false_eq_true, if_false, hshown,
      doesTestPreventTestingGroup_eq (hp.accepted.scored group hg), ok_bind]
    by_cases hprev : PreventedBy outs group i.firstNotCompletedTest
    · obtain ⟨infos, mark, hraise, hsets, hflags⟩ := raiseFlag_eq
        (i := i.appendTestResult (shownResult i.firstNotCompletedTest
          (storedOutcome group (outs.test i.firstNotCompletedTest)))) hp.accepted hp.total
        markFlag hg
      refine ⟨infos, ?_, hsets.total hp.total, hsets.stop_of, fun g hmem => ?_⟩
      · rw [if_pos (hprevents.2 hprev)]
        exact hraise
      · rw [Bool.eq_iff_iff, hflags g hmem, marks_succ hp.accepted hg hhas]
        constructor
        · rintro ⟨b, hb | rfl, hl⟩
          · refine .inl ?_
            rcases hp.accepted.leads hmem hl with rfl | ⟨first, hfirst, rfl, -⟩
            · exact (h.flags g hmem).symm.trans hb
            · exact marks_of_leads hp.accepted ((h.flags first hfirst).symm.trans hb) hl
          · exact .inr ⟨hprev, hl⟩
        · rintro (hold | ⟨-, hl⟩)
          · exact ⟨g.name, .inl ((h.flags g hmem).trans hold), .refl⟩
          · exact ⟨group.name, .inr rfl, hl⟩
    · refine ⟨i.groupNameToInternalInfo, ?_, hp.total, fun _ => rfl, hkeep fun hp => absurd hp hprev⟩
      rw [if_neg (mt hprevents.1 hprev)]
      rfl

/-- The state when one more test is completed and the counter is not yet raised. -/
def withNextTest (outs : Outcomes F) (sub : Submission F) (infos : GoMap String InternalGroupInfo)
    (i : IOIGenerator F) : IOIGenerator F :=
  { i with
    submission := gradedSubmission i.problem outs sub (i.firstNotCompletedTest + 1)
    groupNameToInternalInfo := infos
    firstNotCompletedGroup := (groupsBefore i.problem (i.firstNotCompletedTest + 1)).length + 1 }

/-- The state after a turn of the loop. -/
structure TurnGood (outs : Outcomes F) (sub : Submission F) (i i' : IOIGenerator F) : Prop where
  updated : Updated i i'
  prepared : Prepared i'
  jobs : Jobs outs i'
  graded : Graded outs sub i'

theorem withNextTest_good (hp : Prepared i) (hj : Jobs outs i) (h : Graded outs sub i)
    {group : TestGroup F} (hg : group ∈ i.problem.testGroups)
    (hhas : group.Has i.firstNotCompletedTest) {e : InternalTestResult F}
    (he : i.getEntry i.firstNotCompletedTest = some e) (hrun : e.state ≠ .testRunning)
    (hmark : e.state = .testNotGiven →
      marks i.problem outs i.firstNotCompletedTest group.name = true)
    {infos : GoMap String InternalGroupInfo} (htotal : Total i.problem.testGroups infos)
    (hstop : ∀ name, stopFlag.of infos name = stopFlag.of i.groupNameToInternalInfo name)
    (hflags : ∀ g ∈ i.problem.testGroups, markFlag.of infos g.name =
      marks i.problem outs (i.firstNotCompletedTest + 1) g.name)
    (hscore : i.firstNotCompletedTest = group.lastTest →
      ∃ s, groupScore group (groupTests i.problem outs sub group) = .ok s) :
    TurnGood outs sub i { i.withNextTest outs sub infos with
      firstNotCompletedTest := i.firstNotCompletedTest + 1 } := by
  have hb := hp.accepted.has_bounds hg hhas
  refine ⟨rfl, ⟨hp.accepted, hp.info, hp.names, htotal, hp.length⟩,
    hj.of_eq rfl rfl rfl rfl hstop, ⟨⟨?_, ?_, ?_, ?_, hflags⟩, rfl, rfl, ?_⟩⟩
  · exact Nat.le_add_left 1 _
  · exact Nat.succ_le_succ hb.2
  · intro t e' h1 hlt he'
    by_cases heq : t = i.firstNotCompletedTest
    · subst heq
      rw [show i.getEntry i.firstNotCompletedTest = some e' from he'] at he
      cases he
      exact hrun
    · exact h.notRunning t e' h1 (lt_of_le_of_ne (Nat.lt_succ_iff.1 hlt) heq) he'
  · intro g hmem t ht hlt hle
    by_cases heq : t = i.firstNotCompletedTest
    · subst heq
      obtain rfl := hp.accepted.eq_of_has hmem hg ht hhas
      obtain ⟨e', he', -, hentry⟩ := hj.entries g hmem _ ht
      rw [he] at he'
      cases he'
      have hle' : i.firstNotGivenTest ≤ i.firstNotCompletedTest := hle
      cases hentry with
      | notGiven state => exact hmark state
      | running state lt => omega
      | own state lt => omega
      | marked state lt => omega
    · exact h.skipped g hmem t ht (lt_of_le_of_ne (Nat.lt_succ_iff.1 hlt) heq) hle
  · intro g hmem
    change g ∈ groupsBefore i.problem (i.firstNotCompletedTest + 1) at hmem
    rw [groupsBefore, groupsBefore_succ hp.accepted.tiled hg hhas, List.mem_append] at hmem
    rcases hmem with hmem | hmem
    · exact h.scored g hmem
    · split at hmem
      · next hlast =>
        rw [List.mem_singleton.1 hmem]
        exact hscore hlast
      · cases hmem

/-- One turn of the loop: the next test is completed, and its group if it was the last of it. -/
theorem turn_eq (hp : Prepared i) (hj : Jobs outs i) (h : Graded outs sub i)
    {group : TestGroup F} (hg : group ∈ i.problem.testGroups)
    (hhas : group.Has i.firstNotCompletedTest) {e : InternalTestResult F}
    (he : i.getEntry i.firstNotCompletedTest = some e) (hrun : e.state ≠ .testRunning)
    (hmark : e.state = .testNotGiven →
      marks i.problem outs i.firstNotCompletedTest group.name = true) :
    ∃ i₁, i.addTestResult group.name group
        (marks i.problem outs i.firstNotCompletedTest group.name) e.result = .ok i₁ ∧
      ((groupScore group (groupTests i.problem outs sub group) = .error .nilPoints ∧
          i₁.completeGroupIfLast group = .error .nilPoints) ∨
        ∃ infos, i₁.completeGroupIfLast group = .ok (i.withNextTest outs sub infos) ∧
          TurnGood outs sub i { i.withNextTest outs sub infos with
            firstNotCompletedTest := i.firstNotCompletedTest + 1 }) := by
  obtain ⟨infos, hadd, htotal, hstop, hflags⟩ :=
    addTestResult_eq hp hj h.toProcessed hg hhas he hrun hmark
  refine ⟨_, hadd, ?_⟩
  have hb := hp.accepted.has_bounds hg hhas
  have hresults : i.submission.testResults ++ [shown i.problem outs i.firstNotCompletedTest] =
      sub.testResults ++ shownTests i.problem outs i.firstNotCompletedTest := by
    rw [h.submission, gradedSubmission, List.append_assoc, shownTests_of_pos hb.1]
  have hbefore : groupsBefore i.problem (i.firstNotCompletedTest + 1) =
      groupsBefore i.problem i.firstNotCompletedTest ++
        if i.firstNotCompletedTest = group.lastTest then [group] else [] :=
    groupsBefore_succ hp.accepted.tiled hg hhas
  have hsub : gradedSubmission i.problem outs sub (i.firstNotCompletedTest + 1) =
      { i.submission with
        testResults := i.submission.testResults ++ [shown i.problem outs i.firstNotCompletedTest]
        groupResults := i.submission.groupResults ++
          if i.firstNotCompletedTest = group.lastTest then [groupResult i.problem outs sub group]
          else [] } := by
    rw [hresults, gradedSubmission, hbefore, h.submission, gradedSubmission]
    split <;> simp
  have hgood := withNextTest_good hp hj h hg hhas he hrun hmark htotal hstop hflags
  by_cases hlast : i.firstNotCompletedTest = group.lastTest
  · have hread := groupTestResults_eq outs sub
      (show group.lastTest ≤ i.problem.testsNumber from hlast ▸ hb.2)
    rw [← hlast, ← hresults] at hread
    have hbad : ¬ i.firstNotCompletedTest ≠ group.lastTest := not_not.2 hlast
    rcases groupScore_or (hp.accepted.scored group hg) (groupTests i.problem outs sub group) with
      ⟨s, hs⟩ | hs
    · refine .inr ⟨infos, ?_, hgood fun _ => ⟨s, hs⟩⟩
      rw [if_pos hlast] at hbefore hsub
      simp only [completeGroupIfLast, completeGroupTesting, appendTestResult, if_pos hlast,
        if_neg hbad, hread, ok_bind, hs, withNextTest, hsub, hbefore, h.groups, groupResult, groupPoints,
        List.length_append, List.length_singleton]
      rfl
    · refine .inl ⟨hs, ?_⟩
      simp only [completeGroupIfLast, completeGroupTesting, appendTestResult, if_pos hlast,
        if_neg hbad, hread, ok_bind, hs, error_bind]
  · refine .inr ⟨infos, ?_, hgood fun heq => absurd heq hlast⟩
    rw [if_neg hlast, List.append_nil] at hbefore hsub
    simp only [completeGroupIfLast, appendTestResult, if_neg hlast, withNextTest, hsub, hbefore,
      h.groups]

/-- The loop completes tests up to one that is running or may still be given. The only panic is
about the missing points of a group. -/
theorem updateLoop_eq (turns : Nat) (updated : Bool) (hp : Prepared i) (hj : Jobs outs i)
    (h : Graded outs sub i)
    (hturns : turns = i.problem.testsNumber + 1 - i.firstNotCompletedTest) :
    (updateLoop turns i updated = .error .nilPoints ∧ ∃ group ∈ i.problem.testGroups,
        groupScore group (groupTests i.problem outs sub group) = .error .nilPoints) ∨
      ∃ i' updated', updateLoop turns i updated = .ok (i', updated') ∧
        TurnGood outs sub i i' ∧
        (i'.firstNotCompletedTest = i.problem.testsNumber + 1 ∨ Waiting outs i') := by
  induction turns generalizing i updated with
  | zero =>
    have hle := h.le
    exact .inr ⟨i, updated, rfl, ⟨rfl, hp, hj, h⟩, .inl (by omega)⟩
  | succ turns ih =>
    have hle : i.firstNotCompletedTest ≤ i.problem.testsNumber := by omega
    obtain ⟨group, hg, hhas⟩ := hp.accepted.exists_group h.pos hle
    obtain ⟨e, he, -, hentry⟩ := hj.entries group hg _ hhas
    obtain ⟨info, hinfo⟩ := hp.total group hg
    have hof : markFlag.of i.groupNameToInternalInfo group.name = markFlag.isSet info :=
      GroupFlag.of_eq hinfo
    have hflag : info.shouldMarkFinalTestsSkipped =
        marks i.problem outs i.firstNotCompletedTest group.name :=
      (hof.symm.trans (h.flags group hg))
    have hname := hp.names group hg _ hhas
    by_cases hrun : e.state = .testRunning
    · refine .inr ⟨i, updated, ?_, ⟨rfl, hp, hj, h⟩, .inr ⟨hle, .inl ?_⟩⟩
      · simp only [updateLoop, index_eq_ok he, ok_bind, hrun, if_true]
        rfl
      · cases hentry with
        | notGiven state => rw [hrun] at state; cases state
        | running state lt id job given test => exact ⟨id, job, given, test⟩
        | own state => rw [hrun] at state; cases state
        | marked state => rw [hrun] at state; cases state
    · by_cases hwait : e.state = .testNotGiven ∧
          marks i.problem outs i.firstNotCompletedTest group.name = false
      · refine .inr ⟨i, updated, ?_, ⟨rfl, hp, hj, h⟩, .inr ⟨hle, .inr ?_⟩⟩
        · simp only [updateLoop, hname, index_eq_ok he, ok_bind, hinfo, deref_some, hflag, hwait,
            Bool.not_false, and_self, if_true]
          rfl
        · cases hentry with
          | notGiven state le => exact ⟨le, group, hg, hhas, hwait.2⟩
          | running state => exact absurd state hrun
          | own state => rw [hwait.1] at state; cases state
          | marked state => rw [hwait.1] at state; cases state
      · have hgo : ¬ (e.state = .testNotGiven ∧
            (!marks i.problem outs i.firstNotCompletedTest group.name) = true) := by
          rwa [Bool.not_eq_true']
        obtain ⟨i₁, hadd, hturn⟩ := turn_eq hp hj h hg hhas he hrun fun hstate => by
          simpa [hstate] using hwait
        simp only [updateLoop, hname, index_eq_ok he, ok_bind, hrun, if_false, hinfo, deref_some,
          hflag, hgo, hp.info group hg, hadd]
        rcases hturn with ⟨hscore, herr⟩ | ⟨infos, hok, hgood⟩
        · refine .inl ⟨?_, group, hg, hscore⟩
          rw [herr]
          rfl
        · rw [hok, ok_bind]
          rcases ih (i := { i.withNextTest outs sub infos with
              firstNotCompletedTest := i.firstNotCompletedTest + 1 }) true hgood.prepared hgood.jobs
              hgood.graded (by simp only [withNextTest]; omega) with
            ⟨herr, hbad⟩ | ⟨i', updated', hloop, hgood', hend⟩
          · exact .inl ⟨herr, hbad⟩
          · exact .inr ⟨i', updated', hloop,
              ⟨hgood.updated.trans hgood'.updated, hgood'.prepared, hgood'.jobs, hgood'.graded⟩,
              hend⟩

end TestingSystem.IOIGenerator
