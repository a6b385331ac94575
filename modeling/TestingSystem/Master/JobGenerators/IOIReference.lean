import TestingSystem.Master.JobGenerators.IOIFinal

/-!
# A sequential reference for IOI

`reference` grades the groups of a problem one after another from the verdicts and points of the
tests. It knows which groups have failed and nothing of jobs, flags or orders of arrival.
`finalSubmission_reference` shows that the final submission of the generator has this grade.
-/

set_option autoImplicit false

namespace TestingSystem.IOIGenerator

/-- The part of a test result that counts for the grade. -/
structure TestGrade (F : Type) where
  test : Nat
  verdict : Verdict
  points : Option F
  deriving DecidableEq, Repr

/-- The grade of a submission. -/
structure Grade (F : Type) where
  verdict : Verdict
  score : F
  groups : List (GroupResult F)
  tests : List (TestGrade F)
  deriving DecidableEq, Repr

variable {F : Type}

def testGrade (result : TestResult F) : TestGrade F :=
  { test := result.testNumber, verdict := result.verdict, points := result.points }

def gradeOf (sub : Submission F) : Grade F :=
  { verdict := sub.verdict
    score := sub.score
    groups := sub.groupResults
    tests := sub.testResults.map testGrade }

/-! ## The reference -/

/-- The numbers of the tests of a group. -/
def testNumbers (group : TestGroup F) : List Nat :=
  List.range' group.firstTest (group.lastTest + 1 - group.firstTest)

def skippedGrade (t : Nat) : TestGrade F := { test := t, verdict := .SK, points := none }

section Reference

variable [Add F] [Min F] [Zero F]

/-- The outcome of a test, with the points that `populateTestJobResult` fills in. -/
def ownGrade (group : TestGroup F) (t : Nat) (outcome : Verdict × Option F) : TestGrade F :=
  let stored := storedOutcome group { verdict := outcome.1, points := outcome.2 }
  { test := t, verdict := stored.verdict, points := stored.points }

/-- The tests of a group that is not blocked: their own outcomes up to the first preventing one. -/
def showTests (group : TestGroup F) (test : Nat → Verdict × Option F) :
    List Nat → List (TestGrade F)
  | [] => []
  | t :: ts =>
    let own := ownGrade group t (test t)
    own :: if prevents group own.verdict then ts.map skippedGrade else showTests group test ts

/-- The points of a group with these tests. -/
def referencePoints (group : TestGroup F) (tests : List (TestGrade F)) : F :=
  match group.scoringType with
  | .complete => if tests.all fun t => decide (t.verdict = .OK) then group.groupScore.getD 0 else 0
  | .eachTest => tests.foldl (fun sum t => sum + t.points.getD 0) 0
  | .min =>
    if tests.any fun t => decide (t.verdict = .SK) then 0
    else tests.foldl (fun least t => min least (t.points.getD 0)) (group.groupScore.getD 0)
  | .other _ => 0

/-- The groups one after another; `failed` are the earlier groups that are blocked or have a test
that is not `OK`. -/
def referenceGroups (compiled : Bool) (test : Nat → Verdict × Option F) :
    List (TestGroup F) → List String → List (TestGrade F) × List (GroupResult F)
  | [], _ => ([], [])
  | group :: groups, failed =>
    let blocked := !compiled || group.requiredGroupNames.any fun name => decide (name ∈ failed)
    let tests :=
      if blocked then (testNumbers group).map skippedGrade
      else showTests group test (testNumbers group)
    let passed := tests.all fun t => decide (t.verdict = .OK)
    let rest := referenceGroups compiled test groups
      (if blocked || !passed then group.name :: failed else failed)
    (tests ++ rest.1,
      { groupName := group.name, points := referencePoints group tests, passed := passed } :: rest.2)

/-- The verdict: after a compilation, the last test that is neither `OK` nor skipped decides. -/
def referenceVerdict (compile : Verdict) (tests : List (TestGrade F)) : Verdict :=
  match compile with
  | .CD =>
    match (tests.filter fun t => decide (t.verdict ≠ .OK ∧ t.verdict ≠ .SK)).getLast? with
    | none => .OK
    | some t => if t.verdict = .CF then .CF else .PT
  | .CE => .CE
  | _ => .CF

/-- The grade of a problem for given verdicts and points. -/
def reference (problem : Problem F) (compile : Verdict) (test : Nat → Verdict × Option F) :
    Grade F :=
  let groups := referenceGroups (decide (compile = .CD)) test problem.testGroups []
  { verdict := referenceVerdict compile groups.1
    score := groups.2.foldl (fun score group => score + group.points) 0
    groups := groups.2
    tests := groups.1 }

/-! ## The shown tests -/

/-- The outcomes have the assigned verdicts and points. -/
def Agrees (outs : Outcomes F) (test : Nat → Verdict × Option F) : Prop :=
  ∀ t, (outs.test t).verdict = (test t).1 ∧ (outs.test t).points = (test t).2

/-- No test of the problem is assigned the verdict of a skipped test. -/
def NotSkipped (problem : Problem F) (test : Nat → Verdict × Option F) : Prop :=
  ∀ t, 1 ≤ t → t ≤ problem.testsNumber → (test t).1 ≠ .SK

variable {problem : Problem F} {outs : Outcomes F} {test : Nat → Verdict × Option F}

omit [Add F] [Min F] in
/-- Verdict and points of a stored outcome only depend on verdict and points. -/
theorem storedOutcome_congr (group : TestGroup F) {o o' : Outcome F} (hv : o.verdict = o'.verdict)
    (hp : o.points = o'.points) :
    (storedOutcome group o).verdict = (storedOutcome group o').verdict ∧
      (storedOutcome group o).points = (storedOutcome group o').points := by
  unfold storedOutcome
  rw [hv, hp]
  cases populateTestJobResult group o'.verdict o'.points with
  | error p => exact ⟨hv, hp⟩
  | ok populated =>
    cases populated with
    | ok points => exact ⟨hv, rfl⟩
    | error err => exact ⟨rfl, by simp [populatedOutcome, hp]⟩

omit [Add F] [Min F] in
/-- The only verdict that is stored in place of another one is `CF`. -/
theorem storedOutcome_ne (group : TestGroup F) {v : Verdict} (hcf : v ≠ .CF) {o : Outcome F}
    (h : o.verdict ≠ v) : (storedOutcome group o).verdict ≠ v := by
  unfold storedOutcome
  cases populateTestJobResult group o.verdict o.points with
  | error p => exact h
  | ok populated =>
    cases populated with
    | ok points => exact h
    | error err => exact Ne.symm hcf

omit [Add F] [Min F] in
theorem Agrees.own (h : Agrees outs test) (group : TestGroup F) (t : Nat) :
    (storedOutcome group (outs.test t)).verdict = (ownGrade group t (test t)).verdict ∧
      (storedOutcome group (outs.test t)).points = (ownGrade group t (test t)).points :=
  storedOutcome_congr group (h t).1 (h t).2

omit [Add F] [Min F] in
/-- A test that is not skipped is shown with its own outcome. -/
theorem testGrade_shownResult (h : Agrees outs test) (group : TestGroup F) {t : Nat}
    (hsk : (test t).1 ≠ .SK) :
    testGrade (shownResult t (storedOutcome group (outs.test t))) = ownGrade group t (test t) := by
  have hne : (storedOutcome group (outs.test t)).verdict ≠ .SK :=
    storedOutcome_ne group (by simp) (by rw [(h t).1]; exact hsk)
  obtain ⟨hv, hp⟩ := h.own group t
  have hshown : shownResult t (storedOutcome group (outs.test t)) =
      (storedOutcome group (outs.test t)).testResult t := by
    simp [shownResult, hne]
  rw [hshown]
  simp only [testGrade, Outcome.testResult_verdict, Outcome.testResult_points,
    Outcome.testResult_testNumber, hv, hp, ownGrade]

omit [Add F] [Min F] in
theorem Agrees.prevented (h : Agrees outs test) (group : TestGroup F) {t : Nat}
    (ht : group.Has t) :
    PreventedBy outs group t ↔ prevents group (ownGrade group t (test t)).verdict = true := by
  rw [PreventedBy, (h.own group t).1]
  exact and_iff_right ht

/-- The shown tests of a group. -/
def shownGroup (problem : Problem F) (outs : Outcomes F) (group : TestGroup F) :
    List (TestResult F) :=
  (testNumbers group).map (shown problem outs)

omit [Add F] [Min F] in
/-- The tests of a blocked group are skipped. -/
theorem shownGroup_blocked (ha : Accepted problem) {group : TestGroup F}
    (hg : group ∈ problem.testGroups)
    (hm : marks problem outs group.firstTest group.name = true) :
    (shownGroup problem outs group).map testGrade = (testNumbers group).map skippedGrade := by
  rw [shownGroup, List.map_map]
  refine List.map_congr_left fun t ht => ?_
  have ht' := List.mem_range'_1.1 ht
  have hle := (ha.tiled.bounds hg).2.1
  rw [Function.comp_apply, shown_eq ha hg ⟨ht'.1, by omega⟩,
    if_pos (marks_mono ha hm ht'.1)]
  rfl

omit [Add F] [Min F] in
/-- In a group that is not blocked, a test is marked by an earlier test of the group only. -/
theorem marks_in_group (ha : Accepted problem) {group : TestGroup F}
    (hg : group ∈ problem.testGroups) {t : Nat} (ht : t ≤ group.lastTest + 1)
    (hm : marks problem outs group.firstTest group.name = false) :
    marks problem outs t group.name = true ↔ ∃ p < t, PreventedBy outs group p := by
  rw [marks_iff ha]
  rw [Bool.eq_false_iff, ne_eq, marks_iff ha, not_or] at hm
  obtain ⟨hcd, hno⟩ := hm
  constructor
  · rintro (hne | ⟨g, hmem, ⟨p, hp, hprev⟩, hl⟩)
    · exact absurd hne hcd
    · by_cases hlt : p < group.firstTest
      · exact absurd ⟨g, hmem, ⟨p, hlt, hprev⟩, hl⟩ hno
      · obtain rfl := ha.eq_of_has hmem hg hprev.1 ⟨by omega, by omega⟩
        exact ⟨p, hp, hprev⟩
  · rintro ⟨p, hp, hprev⟩
    exact .inr ⟨group, hg, ⟨p, hp, hprev⟩, .refl⟩

omit [Add F] [Min F] in
/-- The tests of a group that is not blocked, from test `t` on. -/
theorem shown_unblocked (ha : Accepted problem) (h : Agrees outs test)
    (hsk : NotSkipped problem test) {group : TestGroup F} (hg : group ∈ problem.testGroups)
    (hm : marks problem outs group.firstTest group.name = false) (n t : Nat)
    (hfirst : group.firstTest ≤ t) (hlast : t + n = group.lastTest + 1)
    (hno : ∀ p < t, ¬ PreventedBy outs group p) :
    (List.range' t n).map (testGrade ∘ shown problem outs) =
      showTests group test (List.range' t n) := by
  induction n generalizing t with
  | zero => rfl
  | succ n ih =>
    have hhas : group.Has t := ⟨hfirst, by omega⟩
    have hfree : marks problem outs t group.name = false := by
      rw [Bool.eq_false_iff, ne_eq, marks_in_group ha hg (by omega) hm]
      rintro ⟨p, hp, hprev⟩
      exact hno p hp hprev
    rw [List.range'_succ, List.map_cons, showTests]
    congr 1
    · rw [Function.comp_apply, shown_eq ha hg hhas, hfree]
      have hb := ha.has_bounds hg hhas
      exact testGrade_shownResult h group (hsk t hb.1 hb.2)
    · by_cases hprev : PreventedBy outs group t
      · rw [if_pos ((h.prevented group hhas).1 hprev)]
        refine List.map_congr_left fun s hs => ?_
        have hs' := List.mem_range'_1.1 hs
        rw [Function.comp_apply, shown_eq ha hg ⟨by omega, by omega⟩,
          if_pos ((marks_in_group ha hg (by omega) hm).2 ⟨t, by omega, hprev⟩)]
        rfl
      · rw [if_neg (mt (h.prevented group hhas).2 hprev)]
        refine ih (t + 1) (by omega) (by omega) fun p hp => ?_
        by_cases heq : p = t
        · exact heq ▸ hprev
        · exact hno p (by omega)

omit [Add F] [Min F] in
theorem shownGroup_unblocked (ha : Accepted problem) (h : Agrees outs test)
    (hsk : NotSkipped problem test) {group : TestGroup F} (hg : group ∈ problem.testGroups)
    (hm : marks problem outs group.firstTest group.name = false) :
    (shownGroup problem outs group).map testGrade = showTests group test (testNumbers group) := by
  have hle := (ha.tiled.bounds hg).2.1
  rw [shownGroup, List.map_map]
  refine shown_unblocked ha h hsk hg hm _ _ (Nat.le_refl _) (by omega) fun p hp hprev => ?_
  have := hprev.1.1
  omega

/-! ## Points -/

omit [Min F] [Zero F] in
theorem sumPoints_eq [Zero F] {results : List (TestResult F)} {score s : F}
    (h : sumPoints results score = .ok s) :
    s = (results.map testGrade).foldl (fun sum t => sum + t.points.getD 0) score := by
  induction results generalizing score with
  | nil =>
    cases h
    rfl
  | cons result results ih =>
    rw [sumPoints] at h
    cases hp : result.points with
    | none =>
      rw [hp] at h
      cases h
    | some points =>
      rw [hp] at h
      have htest : (testGrade result).points = some points := hp
      rw [ih h, List.map_cons, List.foldl_cons, htest, Option.getD_some]

omit [Add F] in
theorem minPoints_skipped {results : List (TestResult F)} {ts : List Nat}
    (hr : results.map testGrade = ts.map skippedGrade) {score s : F}
    (h : minPoints results score = .ok s) : s = if ts = [] then score else 0 := by
  induction results generalizing ts score with
  | nil =>
    cases ts with
    | nil =>
      cases h
      rfl
    | cons t ts => simp at hr
  | cons result results ih =>
    cases ts with
    | nil => simp at hr
    | cons t ts =>
      rw [List.map_cons, List.map_cons, List.cons.injEq] at hr
      have hp : result.points = none := congrArg TestGrade.points hr.1
      have hv : result.verdict = .SK := congrArg TestGrade.verdict hr.1
      simp only [minPoints, hp, hv, ne_eq, not_true_eq_false, if_false] at h
      rw [ih hr.2 h]
      simp

omit [Add F] in
/-- The loop for `Min`, when the skipped tests come last. -/
theorem minPoints_eq {results : List (TestResult F)} {own : List (TestGrade F)} {ts : List Nat}
    (hown : ∀ t ∈ own, t.verdict ≠ .SK)
    (hr : results.map testGrade = own ++ ts.map skippedGrade) {score s : F}
    (h : minPoints results score = .ok s) :
    s = if (own ++ ts.map skippedGrade).any fun t => decide (t.verdict = Verdict.SK) then 0
      else (own ++ ts.map skippedGrade).foldl
        (fun least (t : TestGrade F) => min least (t.points.getD 0)) score := by
  induction own generalizing results score with
  | nil =>
    rw [minPoints_skipped hr h]
    cases ts with
    | nil => rfl
    | cons t ts => simp [skippedGrade]
  | cons t own ih =>
    cases results with
    | nil => simp at hr
    | cons result results =>
      rw [List.map_cons, List.cons_append, List.cons.injEq] at hr
      have hv : result.verdict = t.verdict := congrArg TestGrade.verdict hr.1
      have hp : result.points = t.points := congrArg TestGrade.points hr.1
      have hne := hown t List.mem_cons_self
      rw [minPoints, hp, hv] at h
      cases hpoints : t.points with
      | none => simp [hpoints, hne] at h
      | some points =>
        simp only [hpoints] at h
        rw [ih (fun t ht => hown t (List.mem_cons_of_mem _ ht)) hr.2 h]
        simp [hne, hpoints]

omit [Add F] [Min F] in
/-- The skipped tests of a group come last. -/
theorem showTests_split (group : TestGroup F) {ts : List Nat} (hsk : ∀ t ∈ ts, (test t).1 ≠ .SK) :
    ∃ own rest, showTests group test ts = own ++ List.map skippedGrade rest ∧
      ∀ t ∈ own, t.verdict ≠ .SK := by
  induction ts with
  | nil => exact ⟨[], [], rfl, fun _ h => nomatch h⟩
  | cons t ts ih =>
    have hne : (ownGrade group t (test t)).verdict ≠ .SK :=
      storedOutcome_ne group (by simp) (hsk t List.mem_cons_self)
    rw [showTests]
    by_cases hprev : prevents group (ownGrade group t (test t)).verdict = true
    · refine ⟨[ownGrade group t (test t)], ts, by simp [hprev], fun s hs => ?_⟩
      rw [List.mem_singleton.1 hs]
      exact hne
    · obtain ⟨own, rest, he, hown⟩ := ih fun s hs => hsk s (List.mem_cons_of_mem _ hs)
      refine ⟨ownGrade group t (test t) :: own, rest, by simp [hprev, he], fun s hs => ?_⟩
      rcases List.mem_cons.1 hs with rfl | hs
      · exact hne
      · exact hown s hs

omit [Add F] [Min F] [Zero F] in
theorem calcGroupVerdict_eq_ok (results : List (TestResult F)) :
    calcGroupVerdict results = .OK ↔
      ((results.map testGrade).all fun t => decide (t.verdict = .OK)) = true := by
  rw [calcGroupVerdict, List.all_map]
  by_cases h : (results.any fun result => decide (result.verdict ≠ .OK)) = true
  · rw [if_pos h]
    refine iff_of_false (by simp) fun hall => ?_
    obtain ⟨r, hr, hne⟩ := List.any_eq_true.1 h
    have := List.all_eq_true.1 hall r hr
    exact (of_decide_eq_true hne) (of_decide_eq_true this)
  · rw [if_neg h]
    refine iff_of_true rfl (List.all_eq_true.2 fun r hr => ?_)
    have hok : ¬ r.verdict ≠ .OK := fun hne =>
      h (List.any_eq_true.2 ⟨r, hr, decide_eq_true hne⟩)
    exact decide_eq_true (not_not.1 hok)

/-- The score of a group whose skipped tests come last is that of the reference. -/
theorem groupScore_reference {group : TestGroup F} {results : List (TestResult F)}
    {own : List (TestGrade F)} {ts : List Nat} (hown : ∀ t ∈ own, t.verdict ≠ .SK)
    (hr : results.map testGrade = own ++ ts.map skippedGrade) {s : F}
    (h : groupScore group results = .ok s) :
    s = referencePoints group (results.map testGrade) := by
  rw [groupScore] at h
  unfold referencePoints
  cases hs : group.scoringType with
  | complete =>
    simp only [hs] at h ⊢
    by_cases hok : calcGroupVerdict results = .OK
    · rw [if_pos hok] at h
      rw [if_pos ((calcGroupVerdict_eq_ok results).1 hok)]
      cases hscore : group.groupScore with
      | none =>
        rw [hscore] at h
        cases h
      | some score =>
        rw [hscore] at h
        cases h
        rfl
    · rw [if_neg hok] at h
      cases h
      rw [if_neg (mt (calcGroupVerdict_eq_ok results).2 hok)]
  | eachTest =>
    simp only [hs] at h ⊢
    exact sumPoints_eq h
  | min =>
    simp only [hs] at h ⊢
    obtain ⟨score, hscore, h⟩ := bind_eq_ok.1 h
    have hget : group.groupScore = some score := by
      cases hg : group.groupScore with
      | none =>
        rw [hg] at hscore
        cases hscore
      | some score' =>
        rw [hg] at hscore
        cases hscore
        rfl
    rw [hget, Option.getD_some, hr]
    exact minPoints_eq hown hr h
  | other value =>
    simp only [hs] at h ⊢
    cases h
    rfl

/-! ## The groups -/

omit [Add F] [Min F] in
/-- A `Complete` group that is not blocked passes if none of its tests prevents it. -/
theorem showTests_passed {group : TestGroup F} (hc : group.scoringType = .complete) (ts : List Nat) :
    ((showTests group test ts).all fun t => decide (t.verdict = .OK)) = true ↔
      ∀ t ∈ ts, prevents group (ownGrade group t (test t)).verdict = false := by
  induction ts with
  | nil => simp [showTests]
  | cons t ts ih =>
    have hprev : prevents group (ownGrade group t (test t)).verdict =
        decide ((ownGrade group t (test t)).verdict ≠ .OK) := by
      rw [prevents, hc]
    rw [List.forall_mem_cons, ← ih, showTests, List.all_cons, Bool.and_eq_true, hprev]
    by_cases hok : (ownGrade group t (test t)).verdict = .OK
    · simp [hok]
    · simp [hok]

omit [Add F] [Min F] [Zero F] in
theorem testNumbers_append {first last : Nat} {groups : List (TestGroup F)}
    (h : Tiled first groups last) :
    groups.flatMap testNumbers = List.range' (first + 1) (last - first) := by
  induction groups generalizing first with
  | nil =>
    cases h
    simp
  | cons group groups ih =>
    obtain ⟨hfirst, hle, htiled⟩ := h
    have hlast := htiled.le
    have happend := List.range'_append_1 (s := first + 1) (m := group.lastTest - first)
      (n := last - group.lastTest)
    have h1 : first + 1 + (group.lastTest - first) = group.lastTest + 1 := by omega
    have h2 : group.lastTest - first + (last - group.lastTest) = last - first := by omega
    have h3 : group.lastTest + 1 - (first + 1) = group.lastTest - first := by omega
    rw [h1, h2] at happend
    rw [List.flatMap_cons, ih htiled, testNumbers, hfirst, h3, happend]

variable {sub : Submission F}

omit [Add F] [Min F] in
/-- The results that a group reads are its shown tests. -/
theorem groupTests_eq (ha : Accepted problem) (hsub : sub.testResults = []) {group : TestGroup F}
    (hg : group ∈ problem.testGroups) :
    groupTests problem outs sub group = shownGroup problem outs group := by
  obtain ⟨hpos, hle, hlast⟩ := ha.tiled.bounds hg
  have hstart : 1 + (group.firstTest - 1) = group.firstTest := by omega
  have hlength : group.lastTest - (group.firstTest - 1) =
      group.lastTest + 1 - group.firstTest := by omega
  rw [groupTests, hsub, List.nil_append, shownTests, shownGroup, testNumbers, ← List.map_take,
    ← List.map_drop, List.take_range'_of_length_ge hlast, List.drop_range', Nat.mul_one, hstart,
    hlength]

omit [Add F] [Min F] in
/-- The marks of a group do not change once its tests are completed. -/
theorem marks_settled (ha : Accepted problem) {group : TestGroup F}
    (hg : group ∈ problem.testGroups) {k k' : Nat} (hk : group.lastTest < k)
    (h : marks problem outs k' group.name = true) : marks problem outs k group.name = true := by
  rw [marks_iff ha] at h ⊢
  rcases h with hne | ⟨g, hmem, ⟨p, -, hprev⟩, hl⟩
  · exact .inl hne
  · refine .inr ⟨g, hmem, ⟨p, ?_, hprev⟩, hl⟩
    have hp := hprev.1.2
    rcases ha.leads hg hl with hname | ⟨g', hmem', hname, -, hlast⟩
    · obtain rfl := ha.eq_of_name hmem hg hname
      omega
    · obtain rfl := ha.eq_of_name hmem' hmem hname
      have := (ha.tiled.bounds hg).2.1
      omega

/-- The groups that the reference has left, and the failed ones among those before. -/
structure Progress (problem : Problem F) (outs : Outcomes F) (done todo : List (TestGroup F))
    (first : Nat) (failed : List String) : Prop where
  groups : problem.testGroups = done ++ todo
  tiled : Tiled first todo problem.testsNumber
  failed : ∀ g ∈ problem.testGroups, g.scoringType = .complete →
    (g.name ∈ failed ↔ g ∈ done ∧ marks problem outs (first + 1) g.name = true)

section Step

variable {done groups : List (TestGroup F)} {group : TestGroup F} {first : Nat}
  {failed : List String}

omit [Add F] [Min F] in
theorem Progress.mem (hp : Progress problem outs done (group :: groups) first failed) :
    group ∈ problem.testGroups := by
  rw [hp.groups]
  exact List.mem_append_right _ List.mem_cons_self

omit [Add F] [Min F] in
theorem Progress.not_mem_done (ha : Accepted problem)
    (hp : Progress problem outs done (group :: groups) first failed) : group ∉ done := by
  intro hmem
  have hnames := ha.names
  rw [hp.groups, List.pairwise_append] at hnames
  exact hnames.2.2 group hmem group List.mem_cons_self rfl

omit [Add F] [Min F] in
theorem Progress.mem_done (ha : Accepted problem)
    (hp : Progress problem outs done (group :: groups) first failed) {g : TestGroup F}
    (hg : g ∈ problem.testGroups) (hlt : g.lastTest < group.firstTest) : g ∈ done := by
  have hpair := ha.tiled.pairwise
  have hle := (ha.tiled.bounds hg).2.1
  have hle' := (ha.tiled.bounds hp.mem).2.1
  rw [hp.groups, List.mem_append, List.mem_cons] at hg
  rw [hp.groups, List.pairwise_append, List.pairwise_cons] at hpair
  rcases hg with hmem | rfl | hmem
  · exact hmem
  · omega
  · have := hpair.2.1.1 g hmem
    omega

omit [Add F] [Min F] in
theorem Progress.lastTest_le (ha : Accepted problem)
    (hp : Progress problem outs done (group :: groups) first failed) {g : TestGroup F}
    (hg : g ∈ done) : g.lastTest ≤ first := by
  have hpair := ha.tiled.pairwise
  rw [hp.groups, List.pairwise_append] at hpair
  have := hpair.2.2 g hg group List.mem_cons_self
  have := hp.tiled.1
  omega

omit [Add F] [Min F] in
/-- The reference blocks a group exactly if it is marked before its first test. -/
theorem Progress.blocked (ha : Accepted problem)
    (hp : Progress problem outs done (group :: groups) first failed) :
    (!decide (outs.compile.verdict = .CD) ||
      group.requiredGroupNames.any fun name => decide (name ∈ failed)) =
        marks problem outs group.firstTest group.name := by
  have hg := hp.mem
  have hfirst := hp.tiled.1
  rw [Bool.eq_iff_iff]
  simp only [Bool.or_eq_true, Bool.not_eq_true', decide_eq_false_iff_not, List.any_eq_true,
    decide_eq_true_eq]
  constructor
  · rintro (hne | ⟨name, hname, hf⟩)
    · exact (marks_iff ha).2 (.inl hne)
    · obtain ⟨required, hmem, rfl, hc, -⟩ := ha.required_before hg hname
      have hm := ((hp.failed required hmem hc).1 hf).2
      rw [hfirst]
      exact marks_of_leads ha hm (.single ⟨_, List.mem_map_of_mem hg, hname⟩)
  · intro hm
    rcases (marks_iff ha).1 hm with hne | ⟨g, hmem, ⟨p, hlt, hprev⟩, hl⟩
    · exact .inl hne
    · refine .inr ?_
      rcases hl.cases_tail with hname | ⟨name, hl', names, hnode, hname⟩
      · obtain rfl := ha.eq_of_name hmem hg hname.symm
        have := hprev.1.1
        omega
      · obtain ⟨group', hg', heq⟩ := List.mem_map.1 hnode
        obtain ⟨hsame, rfl⟩ := Prod.mk.inj heq
        obtain rfl := ha.eq_of_name hg' hg hsame
        obtain ⟨required, hr, rfl, hc, hlast⟩ := ha.required_before hg hname
        refine ⟨required.name, hname, (hp.failed required hr hc).2 ⟨hp.mem_done ha hr hlast, ?_⟩⟩
        rw [← hfirst]
        exact (marks_iff ha).2 (.inr ⟨g, hmem, ⟨p, hlt, hprev⟩, hl'⟩)

omit [Add F] [Min F] in
/-- The shown tests of the next group are those of the reference. -/
theorem Progress.tests (ha : Accepted problem) (h : Agrees outs test)
    (hsk : NotSkipped problem test)
    (hp : Progress problem outs done (group :: groups) first failed) :
    (shownGroup problem outs group).map testGrade =
      if marks problem outs group.firstTest group.name then (testNumbers group).map skippedGrade
      else showTests group test (testNumbers group) := by
  cases hm : marks problem outs group.firstTest group.name with
  | true => exact shownGroup_blocked ha hp.mem hm
  | false => exact shownGroup_unblocked ha h hsk hp.mem hm

omit [Add F] [Min F] in
/-- A `Complete` group is marked at its end exactly if the reference takes it for failed. -/
theorem Progress.marks_end (ha : Accepted problem) (h : Agrees outs test)
    (hp : Progress problem outs done (group :: groups) first failed)
    (hc : group.scoringType = .complete)
    (hm : marks problem outs group.firstTest group.name = false) :
    marks problem outs (group.lastTest + 1) group.name = true ↔
      ¬ ((showTests group test (testNumbers group)).all fun t => decide (t.verdict = .OK)) = true := by
  have hg := hp.mem
  rw [marks_in_group ha hg (Nat.le_refl _) hm, showTests_passed hc]
  simp only [not_forall]
  constructor
  · rintro ⟨p, -, hprev⟩
    refine ⟨p, List.mem_range'_1.2 ⟨hprev.1.1, ?_⟩, ?_⟩
    · have := hprev.1
      have := (ha.tiled.bounds hg).2.1
      have := hprev.1.2
      omega
    · rw [(h.prevented group hprev.1).1 hprev]
      exact Bool.noConfusion
  · rintro ⟨p, hmem, hprev⟩
    have hb := List.mem_range'_1.1 hmem
    have hhas : group.Has p := ⟨hb.1, by omega⟩
    exact ⟨p, by omega, (h.prevented group hhas).2 (Bool.not_eq_false _ ▸ hprev)⟩

omit [Add F] [Min F] in
/-- One turn of the reference. -/
theorem Progress.next (ha : Accepted problem) (h : Agrees outs test) {tests : List (TestGrade F)}
    (hp : Progress problem outs done (group :: groups) first failed)
    (htests : tests =
      if marks problem outs group.firstTest group.name then (testNumbers group).map skippedGrade
      else showTests group test (testNumbers group)) :
    Progress problem outs (done ++ [group]) groups group.lastTest
      (if marks problem outs group.firstTest group.name ||
          !tests.all fun t => decide (t.verdict = .OK)
        then group.name :: failed else failed) := by
  have hle := hp.tiled.2.1
  refine ⟨by rw [hp.groups, List.append_assoc]; rfl, hp.tiled.2.2, fun g hg hc => ?_⟩
  by_cases hname : g.name = group.name
  · obtain rfl := ha.eq_of_name hg hp.mem hname
    have hnot : g.name ∉ failed := fun hf =>
      hp.not_mem_done ha ((hp.failed g hg hc).1 hf).1
    cases hm : marks problem outs g.firstTest g.name with
    | true =>
      simp [marks_mono ha hm (show g.firstTest ≤ g.lastTest + 1 by omega)]
    | false =>
      rw [hm, if_neg Bool.false_ne_true] at htests
      have hend := hp.marks_end ha h hc hm
      rw [← htests] at hend
      by_cases hpassed : (tests.all fun t => decide (t.verdict = .OK)) = true
      · simp [hpassed, hnot, hend]
      · simp [hpassed, hend]
  · have hne : g ≠ group := fun heq => hname (congrArg TestGroup.name heq)
    have hkeep : (g.name ∈ if marks problem outs group.firstTest group.name ||
          !tests.all fun t => decide (t.verdict = .OK)
        then group.name :: failed else failed) ↔ g.name ∈ failed := by
      split
      · simp [hname]
      · exact Iff.rfl
    rw [hkeep, hp.failed g hg hc, List.mem_append, List.mem_singleton, or_iff_left hne]
    refine and_congr_right fun hdone => ⟨fun hm => marks_mono ha hm ?_, fun hm => ?_⟩
    · have := hp.tiled.1
      omega
    · exact marks_settled ha hg (Nat.lt_succ_of_le (hp.lastTest_le ha hdone)) hm

/-- The result of a group is that of the reference. -/
theorem Progress.result (ha : Accepted problem) (h : Agrees outs test)
    (hsk : NotSkipped problem test) (hscored : Scored problem outs sub)
    (hsub : sub.testResults = [])
    (hp : Progress problem outs done (group :: groups) first failed) :
    groupResult problem outs sub group =
      { groupName := group.name
        points := referencePoints group ((shownGroup problem outs group).map testGrade)
        passed := ((shownGroup problem outs group).map testGrade).all fun t =>
          decide (t.verdict = .OK) } := by
  have hg := hp.mem
  obtain ⟨score, hscore⟩ := hscored group hg
  have hsplit : ∃ own rest, (shownGroup problem outs group).map testGrade =
      own ++ List.map skippedGrade rest ∧ ∀ t ∈ own, t.verdict ≠ .SK := by
    rw [hp.tests ha h hsk]
    split
    · exact ⟨[], _, rfl, fun _ hmem => nomatch hmem⟩
    · refine showTests_split group fun t ht => ?_
      have ht' := List.mem_range'_1.1 ht
      have := ha.tiled.bounds hg
      exact hsk t (by omega) (by omega)
  rw [groupTests_eq ha hsub hg] at hscore
  obtain ⟨own, rest, heq, hown⟩ := hsplit
  have hpoints := groupScore_reference hown heq hscore
  rw [groupResult, groupTests_eq ha hsub hg, groupPoints, hscore, ← hpoints, GroupResult.mk.injEq]
  exact ⟨rfl, rfl, Bool.eq_iff_iff.2 (decide_eq_true_iff.trans (calcGroupVerdict_eq_ok _))⟩

end Step

/-- What the reference yields for the groups that are left. -/
theorem referenceGroups_eq (ha : Accepted problem) (h : Agrees outs test)
    (hsk : NotSkipped problem test) (hscored : Scored problem outs sub)
    (hsub : sub.testResults = []) {done todo : List (TestGroup F)} {first : Nat}
    {failed : List String} (hp : Progress problem outs done todo first failed) :
    referenceGroups (decide (outs.compile.verdict = .CD)) test todo failed =
      (todo.flatMap fun g => (shownGroup problem outs g).map testGrade,
        todo.map (groupResult problem outs sub)) := by
  induction todo generalizing done first failed with
  | nil => rfl
  | cons group groups ih =>
    have htests := hp.tests ha h hsk
    have hrest := ih (hp.next ha h htests)
    simp only [referenceGroups, hp.blocked ha, ← htests, hrest, List.flatMap_cons, List.map_cons,
      hp.result ha h hsk hscored hsub]

/-! ## The grade -/

omit [Add F] [Min F] [Zero F] in
theorem referenceVerdict_eq (compile : Verdict) (results : List (TestResult F)) :
    (if compileVerdict compile ≠ .RU then compileVerdict compile else finalVerdict results) =
      referenceVerdict compile (results.map testGrade) := by
  have hdeciding : ((results.map testGrade).filter fun t =>
      decide (t.verdict ≠ .OK ∧ t.verdict ≠ .SK)).getLast? =
        (decidingResult results).map testGrade := by
    rw [List.filter_map, List.getLast?_map]
    rfl
  unfold referenceVerdict
  rw [hdeciding, finalVerdict_eq]
  cases compile <;> simp only [compileVerdict, ne_eq, reduceCtorEq, not_true_eq_false,
    not_false_eq_true, if_true, if_false]
  cases decidingResult results with
  | none => rfl
  | some last => rfl

/-- The final submission has the grade of the reference. -/
theorem finalSubmission_reference (ha : Accepted problem) (h : Agrees outs test)
    (hsk : NotSkipped problem test) (hscored : Scored problem outs sub)
    (hsub : sub.testResults = []) (hgroups : sub.groupResults = []) (hscore : sub.score = 0) :
    gradeOf (finalSubmission problem outs sub) = reference problem outs.compile.verdict test := by
  have hp : Progress problem outs [] problem.testGroups 0 [] :=
    ⟨rfl, ha.tiled, fun g _ _ => by simp⟩
  have hreference := referenceGroups_eq ha h hsk hscored hsub hp
  have htests : (finalSubmission problem outs sub).testResults.map testGrade =
      problem.testGroups.flatMap fun g => (shownGroup problem outs g).map testGrade := by
    have hnumbers := testNumbers_append ha.tiled
    rw [Nat.zero_add, Nat.sub_zero] at hnumbers
    simp only [finalSubmission, gradedSubmission, hsub, List.nil_append, Nat.add_sub_cancel,
      shownTests, ← hnumbers, List.map_flatMap, shownGroup]
  have hresults : (finalSubmission problem outs sub).groupResults =
      problem.testGroups.map (groupResult problem outs sub) := by
    simp only [finalSubmission, gradedSubmission, hgroups, List.nil_append, groupsBefore_end ha]
  have hverdict : (finalSubmission problem outs sub).verdict =
      referenceVerdict outs.compile.verdict
        ((finalSubmission problem outs sub).testResults.map testGrade) :=
    referenceVerdict_eq outs.compile.verdict _
  have hpoints : (finalSubmission problem outs sub).score =
      (finalSubmission problem outs sub).groupResults.foldl
        (fun score group => score + group.points) sub.score := rfl
  rw [gradeOf, hverdict, hpoints, htests, hresults, hscore, reference, hreference]

end Reference

end TestingSystem.IOIGenerator
