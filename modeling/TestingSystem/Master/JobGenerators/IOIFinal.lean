import TestingSystem.Master.JobGenerators.IOIProcessing
import Mathlib.Data.List.Induction
import Mathlib.Data.Nat.Find

/-!
# The final submission of the IOI generator

`finalSubmission` is the submission that testing ends with, computed from the outcomes. The panics
of `setFinalScoreAndVerdict` and of `updateSubmissionResult` cannot happen for a submission that
started without results: in particular, skipped tests have a failed test before them.
-/

set_option autoImplicit false

namespace TestingSystem.IOIGenerator

variable {F : Type}

/-! ## Score and verdict -/

/-- The verdict that `setFinalScoreAndVerdict` derives from the results of the tests. -/
def finalVerdict (results : List (TestResult F)) : Verdict :=
  let (verdict, _, hasVerdict) := results.foldl finalVerdictStep (.RU, false, false)
  if hasVerdict then verdict else .OK

/-- The last result that is neither `OK` nor `SK`. -/
def decidingResult (results : List (TestResult F)) : Option (TestResult F) :=
  (results.filter fun result => decide (result.verdict ≠ .OK ∧ result.verdict ≠ .SK)).getLast?

theorem decidingResult_concat (results : List (TestResult F)) (result : TestResult F) :
    decidingResult (results ++ [result]) =
      if result.verdict ≠ .OK ∧ result.verdict ≠ .SK then some result
      else decidingResult results := by
  rw [decidingResult, List.filter_append, List.filter_cons, List.filter_nil]
  by_cases h : result.verdict ≠ .OK ∧ result.verdict ≠ .SK
  · rw [if_pos (decide_eq_true h), if_pos h, List.getLast?_concat]
  · rw [if_neg (by rwa [decide_eq_true_eq]), if_neg h, List.append_nil]
    rfl

theorem finalVerdict_concat (results : List (TestResult F)) (result : TestResult F) :
    finalVerdict (results ++ [result]) =
      if result.verdict ≠ .OK ∧ result.verdict ≠ .SK then
        if result.verdict = .CF then .CF else .PT
      else finalVerdict results := by
  unfold finalVerdict
  rw [List.foldl_append]
  generalize results.foldl finalVerdictStep (.RU, false, false) = state
  obtain ⟨verdict, hasSkipped, hasVerdict⟩ := state
  rw [List.foldl_cons, List.foldl_nil]
  unfold finalVerdictStep
  cases result.verdict <;> simp

/-- The last result that is neither `OK` nor skipped decides the verdict. -/
theorem finalVerdict_eq (results : List (TestResult F)) :
    finalVerdict results =
      match decidingResult results with
      | none => .OK
      | some last => if last.verdict = .CF then .CF else .PT := by
  induction results using List.reverseRecOn with
  | nil => rfl
  | append_singleton results result ih =>
    rw [finalVerdict_concat, decidingResult_concat]
    by_cases h : result.verdict ≠ .OK ∧ result.verdict ≠ .SK
    · rw [if_pos h, if_pos h]
    · rw [if_neg h, if_neg h, ih]

theorem of_decidingResult {results : List (TestResult F)} {last : TestResult F}
    (h : decidingResult results = some last) :
    last ∈ results ∧ last.verdict ≠ .OK ∧ last.verdict ≠ .SK := by
  have hmem := List.mem_of_getLast? h
  rwa [List.mem_filter, decide_eq_true_eq] at hmem

theorem of_decidingResult_none {results : List (TestResult F)} (h : decidingResult results = none)
    {result : TestResult F} (hmem : result ∈ results) :
    result.verdict = .OK ∨ result.verdict = .SK := by
  have hnil := List.getLast?_eq_none_iff.1 h
  have hnot := (List.filter_eq_nil_iff.1 hnil) result hmem
  rw [decide_eq_true_eq, not_and_or, not_not, not_not] at hnot
  exact hnot

theorem finalVerdictStep_flags (state : Verdict × Bool × Bool) (result : TestResult F) :
    (finalVerdictStep state result).2.1 = (state.2.1 || decide (result.verdict = .SK)) ∧
      (finalVerdictStep state result).2.2 =
        (state.2.2 || decide (result.verdict ≠ .OK ∧ result.verdict ≠ .SK)) := by
  obtain ⟨verdict, hasSkipped, hasVerdict⟩ := state
  unfold finalVerdictStep
  cases result.verdict <;> simp

/-- `hasSkipped` and `hasVerdict` after the loop. -/
theorem finalVerdict_flags (results : List (TestResult F)) (state : Verdict × Bool × Bool) :
    ((results.foldl finalVerdictStep state).2.1 = true ↔
        state.2.1 = true ∨ ∃ r ∈ results, r.verdict = .SK) ∧
      ((results.foldl finalVerdictStep state).2.2 = true ↔
        state.2.2 = true ∨ ∃ r ∈ results, r.verdict ≠ .OK ∧ r.verdict ≠ .SK) := by
  induction results generalizing state with
  | nil => simp
  | cons result results ih =>
    obtain ⟨h1, h2⟩ := finalVerdictStep_flags state result
    obtain ⟨hs, hv⟩ := ih (finalVerdictStep state result)
    rw [h1, Bool.or_eq_true, decide_eq_true_eq] at hs
    rw [h2, Bool.or_eq_true, decide_eq_true_eq] at hv
    refine ⟨hs.trans ?_, hv.trans ?_⟩ <;> simp [or_assoc]

variable [Add F] [Min F] [Zero F]

/-- The submission that testing ends with. -/
def finalSubmission (problem : Problem F) (outs : Outcomes F) (sub : Submission F) :
    Submission F :=
  let graded := gradedSubmission problem outs sub (problem.testsNumber + 1)
  { graded with
    score := graded.groupResults.foldl (fun score group => score + group.points) graded.score
    verdict := if graded.verdict ≠ .RU then graded.verdict else finalVerdict graded.testResults }

variable {problem : Problem F} {outs : Outcomes F} {sub : Submission F} {i : IOIGenerator F}

omit [Add F] [Min F] [Zero F] in
theorem shownResult_verdict_ne_sk (test : Nat) (outcome : Outcome F) :
    (shownResult test outcome).verdict ≠ .SK := by
  unfold shownResult
  by_cases h : outcome.verdict = .SK <;> simp [h]

omit [Add F] [Min F] in
/-- If some group is marked, the first preventing test is shown with its own verdict. -/
theorem exists_shown_failed (ha : Accepted problem) (hcd : outs.compile.verdict = .CD) {k : Nat}
    {name : String} (hm : marks problem outs k name = true) :
    ∃ t, 1 ≤ t ∧ t ≤ problem.testsNumber ∧ (shown problem outs t).verdict ≠ .OK ∧
      (shown problem outs t).verdict ≠ .SK := by
  have hex : ∃ p, ∃ group ∈ problem.testGroups, PreventedBy outs group p := by
    rcases (marks_iff ha).1 hm with hne | ⟨group, hg, ⟨p, -, hprev⟩, -⟩
    · exact absurd hcd hne
    · exact ⟨p, group, hg, hprev⟩
  classical
  obtain ⟨group, hg, hprev⟩ := Nat.find_spec hex
  have hb := ha.has_bounds hg hprev.1
  have hfree : marks problem outs (Nat.find hex) group.name = false := by
    rw [Bool.eq_false_iff, ne_eq, marks_iff ha, not_or]
    refine ⟨not_not.2 hcd, ?_⟩
    rintro ⟨g, hmem, ⟨p, hlt, hp⟩, -⟩
    exact Nat.find_min hex hlt ⟨g, hmem, hp⟩
  refine ⟨Nat.find hex, hb.1, hb.2, ?_, ?_⟩
  · rw [shown_eq ha hg hprev.1, hfree]
    refine ne_ok_of_prevents (show prevents group _ = true from ?_)
    rw [if_neg Bool.false_ne_true, prevents_shownResult]
    exact hprev.2
  · rw [shown_eq ha hg hprev.1, hfree]
    exact shownResult_verdict_ne_sk _ _

omit [Add F] [Min F] in
theorem mem_shownTests {k : Nat} {r : TestResult F} :
    r ∈ shownTests problem outs k ↔ ∃ t, 1 ≤ t ∧ t ≤ k ∧ r = shown problem outs t := by
  simp only [shownTests, List.mem_map, List.mem_range'_1]
  constructor
  · rintro ⟨t, ht, rfl⟩
    exact ⟨t, ht.1, by omega, rfl⟩
  · rintro ⟨t, h1, h2, rfl⟩
    exact ⟨t, ⟨h1, by omega⟩, rfl⟩

omit [Add F] [Min F] in
/-- Skipped tests come with a failed one. -/
theorem hasVerdict_of_hasSkipped (ha : Accepted problem) (hcd : outs.compile.verdict = .CD)
    (state : Verdict)
    (h : ((shownTests problem outs problem.testsNumber).foldl finalVerdictStep
      (state, false, false)).2.1 = true) :
    ((shownTests problem outs problem.testsNumber).foldl finalVerdictStep
      (state, false, false)).2.2 = true := by
  rw [(finalVerdict_flags _ _).1] at h
  rw [(finalVerdict_flags _ _).2]
  obtain ⟨r, hr, hsk⟩ := h.resolve_left Bool.false_ne_true
  obtain ⟨t, h1, h2, rfl⟩ := mem_shownTests.1 hr
  obtain ⟨group, hg, hhas⟩ := ha.exists_group h1 h2
  rw [shown_eq ha hg hhas] at hsk
  split at hsk
  · next hm =>
    obtain ⟨p, hp1, hp2, hne, hne'⟩ := exists_shown_failed ha hcd hm
    exact .inr ⟨_, mem_shownTests.2 ⟨p, hp1, hp2, rfl⟩, hne, hne'⟩
  · exact absurd hsk (shownResult_verdict_ne_sk _ _)

omit [Add F] [Min F] [Zero F] in
theorem groupsBefore_end (ha : Accepted problem) :
    groupsBefore problem (problem.testsNumber + 1) = problem.testGroups := by
  rw [groupsBefore, List.filter_eq_self]
  intro group hg
  have := (ha.tiled.bounds hg).2.2
  rw [decide_eq_true_eq]
  omega

/-- The panics that the completion of a job can end in. -/
inductive ScorePanic (problem : Problem F) (outs : Outcomes F) (sub : Submission F) :
    Panic → Prop where
  | nilPoints (group : TestGroup F) (mem : group ∈ problem.testGroups)
      (score : groupScore group (groupTests problem outs sub group) = .error .nilPoints) :
      ScorePanic problem outs sub .nilPoints
  | groupResults (old : sub.groupResults ≠ []) : ScorePanic problem outs sub .groupResultsLength
  | testResults (old : sub.testResults ≠ []) : ScorePanic problem outs sub .testResultsLength

/-- When all tests are completed, `setFinalScoreAndVerdict` yields the final submission, unless the
submission had results before. -/
theorem setFinalScoreAndVerdict_eq (ha : Accepted i.problem) (h : Graded outs sub i)
    (hend : i.firstNotCompletedTest = i.problem.testsNumber + 1) (hgiven : i.givenJobs.len = 0) :
    i.setFinalScoreAndVerdict =
        .ok { i with submission := finalSubmission i.problem outs sub } ∨
      ∃ p, i.setFinalScoreAndVerdict = .error p ∧ ScorePanic i.problem outs sub p := by
  have hsub := h.submission
  rw [hend] at hsub
  have hgroups : i.submission.groupResults =
      sub.groupResults ++ i.problem.testGroups.map (groupResult i.problem outs sub) := by
    rw [hsub, gradedSubmission, groupsBefore_end ha]
  have htests : i.submission.testResults =
      sub.testResults ++ shownTests i.problem outs i.problem.testsNumber := by
    rw [hsub, gradedSubmission, Nat.add_sub_cancel]
  by_cases hold : sub.groupResults = []
  · by_cases holdt : sub.testResults = []
    · refine .inl ?_
      rw [hold, List.nil_append] at hgroups
      rw [holdt, List.nil_append] at htests
      have hverdict : i.submission.verdict = compileVerdict outs.compile.verdict := by
        rw [hsub]; rfl
      have hfinal : finalSubmission i.problem outs sub =
          { i.submission with
            score := (i.problem.testGroups.map (groupResult i.problem outs sub)).foldl
              (fun score group => score + group.points) i.submission.score
            verdict := if i.submission.verdict ≠ .RU then i.submission.verdict
              else finalVerdict (shownTests i.problem outs i.problem.testsNumber) } := by
        rw [finalSubmission, ← hsub]
        simp only [hgroups, htests]
      simp only [setFinalScoreAndVerdict, hgiven, hend, hgroups, htests, List.length_map,
        length_shownTests, ne_eq, not_true_eq_false, if_false, hfinal]
      by_cases hru : i.submission.verdict = .RU
      · have hcd : outs.compile.verdict = .CD := by
          rw [hverdict] at hru
          revert hru
          cases outs.compile.verdict <;> simp [compileVerdict]
        have hskip := hasVerdict_of_hasSkipped ha hcd (.RU : Verdict)
        simp only [hru, not_true_eq_false, if_false, finalVerdict]
        generalize (shownTests i.problem outs i.problem.testsNumber).foldl finalVerdictStep
          (.RU, false, false) = state at hskip ⊢
        obtain ⟨verdict, hasSkipped, hasVerdict⟩ := state
        cases hasVerdict with
        | true => simp
        | false => cases hasSkipped <;> simp_all
      · simp only [hru, not_false_eq_true, if_true]
    · refine .inr ⟨_, ?_, .testResults holdt⟩
      have hlen : ¬ (sub.testResults ++
          shownTests i.problem outs i.problem.testsNumber).length = i.problem.testsNumber := by
        have hpos := List.length_pos_iff.2 holdt
        rw [List.length_append, length_shownTests]
        omega
      have hlen' : ¬ i.submission.groupResults.length ≠ i.problem.testGroups.length := by
        simp [hgroups, hold]
      simp only [setFinalScoreAndVerdict, hgiven, hend, htests, ne_eq, not_true_eq_false, if_false,
        hlen', hlen, not_false_eq_true, if_true]
  · refine .inr ⟨_, ?_, .groupResults hold⟩
    have hlen : ¬ (sub.groupResults ++
        i.problem.testGroups.map (groupResult i.problem outs sub)).length =
          i.problem.testGroups.length := by
      have hpos := List.length_pos_iff.2 hold
      rw [List.length_append, List.length_map]
      omega
    simp only [setFinalScoreAndVerdict, hgiven, hend, hgroups, ne_eq, not_true_eq_false, if_false,
      hlen, not_false_eq_true, if_true]

end TestingSystem.IOIGenerator
