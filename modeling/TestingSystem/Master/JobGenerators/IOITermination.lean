import TestingSystem.Lib.CountingLoop
import TestingSystem.Master.JobGenerators.IOIProblem

/-!
# Termination of the IOI generator

`NewIOIGenerator` step by step. The loops over the tests of a group count up to `LastTest` in `uint64`,
and `prepareGenerator` runs the first of them before the group is compared with `TestsNumber`. Where the
run ends, it returns what `IOIGenerator.new` is; it does not end if a group up to the largest test number
is reached.
-/

set_option autoImplicit false

namespace TestingSystem

open StateTransition

section Groups

variable {F : Type}

/-- The group passes the checks of the loop of `prepareGenerator`. -/
def TestGroup.Prepares (group : TestGroup F) : Prop :=
  group.Scored ∧ group.firstTest ≤ group.lastTest

/-- The test numbers are `uint64`. -/
structure Problem.Stored (problem : Problem F) : Prop where
  groups : ∀ group ∈ problem.testGroups, group.firstTest < 2 ^ 64 ∧ group.lastTest < 2 ^ 64
  testsNumber : problem.testsNumber < 2 ^ 64

/-- A group up to the largest test number passes the checks, as do all groups before it. -/
def Endless (groups : List (TestGroup F)) : Prop :=
  ∃ before group after, groups = before ++ group :: after ∧ (∀ g ∈ before, g.Prepares) ∧
    group.Prepares ∧ group.lastTest = 2 ^ 64 - 1

theorem not_endless_nil : ¬ Endless ([] : List (TestGroup F)) := by
  rintro ⟨before, group, after, heq, -⟩
  simp at heq

theorem endless_cons {group : TestGroup F} {groups : List (TestGroup F)} :
    Endless (group :: groups) ↔
      group.Prepares ∧ (group.lastTest = 2 ^ 64 - 1 ∨ Endless groups) := by
  constructor
  · rintro ⟨before, g, after, heq, hbefore, hg, hlast⟩
    cases before with
    | nil =>
      obtain ⟨rfl, rfl⟩ := List.cons.inj heq
      exact ⟨hg, .inl hlast⟩
    | cons head before =>
      obtain ⟨rfl, rfl⟩ := List.cons.inj heq
      exact ⟨hbefore _ List.mem_cons_self, .inr ⟨before, g, after, rfl,
        fun x hx => hbefore x (List.mem_cons_of_mem _ hx), hg, hlast⟩⟩
  · rintro ⟨hgroup, hlast | ⟨before, g, after, rfl, hbefore, hg, hlast⟩⟩
    · exact ⟨[], group, groups, rfl, fun _ hx => (nomatch hx), hgroup, hlast⟩
    · refine ⟨group :: before, g, after, rfl, fun x hx => ?_, hg, hlast⟩
      rcases List.mem_cons.1 hx with rfl | hx
      · exact hgroup
      · exact hbefore x hx

end Groups

namespace IOIGenerator

variable {F : Type}

/-! ## The steps of `NewIOIGenerator` -/

/-- The body of the loop over the tests of a group. -/
def prepareTest (group : TestGroup F) (testNumber : Nat) (i : IOIGenerator F) : IOIGenerator F :=
  { i with
    testNumberToGroupName := i.testNumberToGroupName.set (testIndex testNumber) group.name
    internalTestResults := i.internalTestResults ++
      [{ result := { testNumber := testNumber, verdict := .RU }, state := .testNotGiven }] }

/-- The loop over the tests of a group; no turn leaves it. -/
def testsTurn (group : TestGroup F) :
    (Nat × IOIGenerator F) ⊕ IOIGenerator F → Option ((Nat × IOIGenerator F) ⊕ IOIGenerator F) :=
  countTurn 64 group.lastTest (fun testNumber i => .inl (prepareTest group testNumber i)) fun i => i

/-- The end of a turn of the loop over the groups. -/
def addGroup (i : IOIGenerator F) (group : TestGroup F) : IOIGenerator F :=
  { i with
    groupNameToGroupInfo := i.groupNameToGroupInfo.set group.name group
    groupNameToInternalInfo := i.groupNameToInternalInfo.set group.name
      { shouldGiveNewJobs := true, shouldMarkFinalTestsSkipped := false } }

end IOIGenerator

/-- Where `prepareGenerator` is: at the head of the loop over the groups, in the loop over the tests of
`group`, or at its end. -/
inductive PrepareState (F : Type) where
  | groups (rest : List (TestGroup F)) (i : IOIGenerator F)
  | tests (group : TestGroup F) (rest : List (TestGroup F))
      (loop : (Nat × IOIGenerator F) ⊕ IOIGenerator F)
  | done (result : Except String (IOIGenerator F))

namespace IOIGenerator

variable {F : Type}

def prepareStep : PrepareState F → Option (PrepareState F)
  | .groups [] i => some (.done do
      i.checkIfGroupsDependenciesOK i.problem
      return i)
  | .groups (group :: rest) i =>
    match checkScores i.problem group with
    | .error err => some (.done (.error err))
    | .ok () =>
      if group.firstTest > group.lastTest then
        some (.done (.error s!"group {group.name} has FirstTest > LastTest"))
      else some (.tests group rest (.inl (group.firstTest, i)))
  | .tests group rest (.inl turn) => (testsTurn group (.inl turn)).map (.tests group rest)
  | .tests group rest (.inr i) => some (.groups rest (i.addGroup group))
  | .done _ => none

/-- `NewIOIGenerator` before its call of `prepareGenerator`. -/
def unprepared (id : GeneratorID) (problem : Problem F) (submission : Submission F) :
    IOIGenerator F :=
  { id := id
    submission := { submission with verdict := .RU }
    problem := problem
    state := .compilationNotStarted
    givenJobs := .empty
    groupNameToGroupInfo := .empty
    groupNameToInternalInfo := .empty
    testNumberToGroupName := .empty
    internalTestResults := []
    firstNotCompletedTest := 1
    firstNotCompletedGroup := 1
    firstNotGivenTest := 1 }

/-- The first state of `prepareGenerator` in `NewIOIGenerator`. -/
def newState (id : GeneratorID) (problem : Problem F) (submission : Submission F) : PrepareState F :=
  if problem.problemType ≠ .ioi then .done (.error s!"problem {problem.id} is not an IOI problem")
  else .groups problem.testGroups (unprepared id problem submission)

/-! ## Runs -/

theorem checkScores_iff {problem : Problem F} {group : TestGroup F} :
    checkScores problem group = .ok () ↔ group.Scored := by
  refine ⟨checkScores_ok, fun h => ?_⟩
  unfold checkScores
  unfold TestGroup.Scored at h
  cases hs : group.scoringType with
  | complete | min => cases hscore : group.groupScore <;> simp_all
  | eachTest => cases hscore : group.testScore <;> simp_all
  | other value => simp [hs] at h

theorem prepareTests_countFrom (group : TestGroup F) (turns n : Nat) (i : IOIGenerator F) :
    countFrom (fun testNumber i => .inl (prepareTest group testNumber i))
      (fun i => i) turns n i = prepareTests group turns n i := by
  induction turns generalizing n i with
  | zero => rfl
  | succ turns ih => exact ih (n + 1) (prepareTest group n i)

/-- The generator after a group. -/
def prepared (i : IOIGenerator F) (group : TestGroup F) : IOIGenerator F :=
  (prepareTests group (group.lastTest + 1 - group.firstTest) group.firstTest i).addGroup group

theorem prepareGroup_eq {i : IOIGenerator F} {group : TestGroup F} (h : group.Prepares) :
    i.prepareGroup group = .ok (i.prepared group) := by
  unfold prepareGroup
  rw [checkScores_iff.2 h.1, ok_bind, if_neg (Nat.not_lt.2 h.2)]
  rfl

theorem prepared_problem (i : IOIGenerator F) (group : TestGroup F) :
    (i.prepared group).problem = i.problem := by
  have htests : ∀ turns n (i : IOIGenerator F), (prepareTests group turns n i).problem = i.problem := by
    intro turns
    induction turns with
    | zero => exact fun _ _ => rfl
    | succ turns ih => exact fun n i => ih (n + 1) (prepareTest group n i)
  exact htests _ _ i

/-- The loop over the tests of a group as part of the run. -/
theorem tests_reaches (group : TestGroup F) (rest : List (TestGroup F))
    {a b : (Nat × IOIGenerator F) ⊕ IOIGenerator F} (h : Reaches (testsTurn group) a b) :
    Reaches prepareStep (.tests group rest a) (.tests group rest b) := by
  refine Relation.ReflTransGen.lift (PrepareState.tests group rest) (fun a b hab => ?_) _ _ h
  cases a with
  | inl turn =>
    show (testsTurn group (.inl turn)).map (PrepareState.tests group rest) = some _
    rw [hab]
    rfl
  | inr i => cases hab

/-- A group that passes the checks. -/
theorem step_prepares {i : IOIGenerator F} {group : TestGroup F} (rest : List (TestGroup F))
    (h : group.Prepares) : prepareStep (.groups (group :: rest) i) =
      some (.tests group rest (.inl (group.firstTest, i))) := by
  simp only [prepareStep, checkScores_iff.2 h.1, if_neg (Nat.not_lt.2 h.2)]

/-- A group that fails one of them. -/
theorem step_fails {i : IOIGenerator F} {group : TestGroup F} (rest : List (TestGroup F))
    (h : ¬ group.Prepares) : ∃ err, i.prepareGroup group = .error err ∧
      prepareStep (.groups (group :: rest) i) = some (.done (.error err)) := by
  cases hscores : checkScores i.problem group with
  | error err => exact ⟨err, by rw [prepareGroup, hscores]; rfl, by simp only [prepareStep, hscores]⟩
  | ok =>
    have hlt : group.firstTest > group.lastTest := by
      by_contra hle
      exact h ⟨checkScores_iff.1 hscores, Nat.not_lt.1 hle⟩
    exact ⟨_, by rw [prepareGroup, hscores, ok_bind, if_pos hlt],
      by simp only [prepareStep, hscores, if_pos hlt]⟩

/-- A group that is reached is prepared, unless it goes up to the largest test number. -/
theorem group_reaches {i : IOIGenerator F} {group : TestGroup F} (rest : List (TestGroup F))
    (h : group.Prepares) (hlast : group.lastTest + 1 < 2 ^ 64) :
    Reaches prepareStep (.groups (group :: rest) i) (.groups rest (i.prepared group)) := by
  have hloop := tests_reaches group rest (count_reaches hlast (n := group.firstTest) rfl i)
  rw [prepareTests_countFrom] at hloop
  have hfirst : .tests group rest (.inl (group.firstTest, i)) ∈
      prepareStep (.groups (group :: rest) i) := step_prepares rest h
  exact .tail (.head hfirst hloop) rfl

/-- The run does not get past a group up to the largest test number. -/
theorem tests_endless {i : IOIGenerator F} {group : TestGroup F} (rest : List (TestGroup F))
    (h : group.Prepares) (hlast : group.lastTest = 2 ^ 64 - 1) :
    ¬ Ends prepareStep (.groups (group :: rest) i) := by
  rw [ends_iff_of_reaches (.single (step_prepares rest h))]
  refine not_ends (P := fun state => ∃ n j, state = .tests group rest (.inl (n, j)) ∧
    n ≤ group.lastTest) ⟨_, i, rfl, h.2⟩ ?_
  rintro _ ⟨n, j, rfl, hn⟩
  obtain ⟨m, hm, hturn⟩ : ∃ m ≤ group.lastTest,
      testsTurn group (.inl (n, j)) = some (.inl (m, prepareTest group n j)) :=
    countTurn_top (by omega) hn rfl
  exact ⟨.tests group rest (.inl (m, prepareTest group n j)), congrArg (Option.map _) hturn,
    m, prepareTest group n j, rfl, hm⟩

theorem groups_endless {i : IOIGenerator F} {groups : List (TestGroup F)}
    (hstored : ∀ g ∈ groups, g.lastTest < 2 ^ 64) (h : Endless groups) :
    ¬ Ends prepareStep (.groups groups i) := by
  induction groups generalizing i with
  | nil => exact absurd h not_endless_nil
  | cons group rest ih =>
    obtain ⟨hgroup, htop⟩ := endless_cons.1 h
    by_cases hlast : group.lastTest = 2 ^ 64 - 1
    · exact tests_endless rest hgroup hlast
    · have hlt := hstored group List.mem_cons_self
      rw [ends_iff_of_reaches (group_reaches rest hgroup (by omega))]
      exact ih (fun g hg => hstored g (List.mem_cons_of_mem _ hg)) (htop.resolve_left hlast)

theorem groups_reaches {i : IOIGenerator F} {groups : List (TestGroup F)}
    (hstored : ∀ g ∈ groups, g.lastTest < 2 ^ 64) (h : ¬ Endless groups) :
    Reaches prepareStep (.groups groups i) (.done do
      let j ← prepareGroups groups i
      j.checkIfGroupsDependenciesOK i.problem
      return j) := by
  induction groups generalizing i with
  | nil => exact .single rfl
  | cons group rest ih =>
    by_cases hgroup : group.Prepares
    · have hnot : group.lastTest ≠ 2 ^ 64 - 1 := fun hlast =>
        h (endless_cons.2 ⟨hgroup, .inl hlast⟩)
      have hlt := hstored group List.mem_cons_self
      have hrest := ih (i := i.prepared group) (fun g hg => hstored g (List.mem_cons_of_mem _ hg))
        fun hrest => h (endless_cons.2 ⟨hgroup, .inr hrest⟩)
      rw [prepareGroups, prepareGroup_eq hgroup, ok_bind]
      rw [prepared_problem] at hrest
      exact (group_reaches rest hgroup (by omega)).trans hrest
    · obtain ⟨err, herr, hstep⟩ := step_fails (i := i) rest hgroup
      rw [prepareGroups, herr, error_bind]
      exact .single hstep

/-- Where the run ends, it returns what `new` is. -/
theorem newState_reaches {problem : Problem F} (hstored : problem.Stored)
    (h : problem.problemType = .ioi → ¬ Endless problem.testGroups) (id : GeneratorID)
    (submission : Submission F) :
    Reaches prepareStep (newState id problem submission) (.done (new id problem submission)) := by
  have hnew : new id problem submission = prepareGenerator (unprepared id problem submission) := rfl
  have hproblem : (unprepared id problem submission).problem = problem := rfl
  unfold newState
  rw [hnew, prepareGenerator, hproblem]
  split
  · exact .refl
  · next htype =>
    exact groups_reaches (fun g hg => (hstored.groups g hg).2) (h (not_not.1 htype))

/-! ## The loops of `completeGroupTesting` -/

section Scores

variable [Add F] [Min F] [Zero F]

/-- The body of the loop for `EachTest`. -/
def eachTestBody (results : List (TestResult F)) (testNumber : Nat) (score : F) :
    F ⊕ Except Panic F :=
  match index results (testIndex testNumber) with
  | .error p => .inr (.error p)
  | .ok result =>
    match result.points with
    | none => .inr (.error .nilPoints)
    | some testScore => .inl (score + testScore)

/-- The body of the loop for `Min`. -/
def minBody (results : List (TestResult F)) (testNumber : Nat) (score : F) : F ⊕ Except Panic F :=
  match index results (testIndex testNumber) with
  | .error p => .inr (.error p)
  | .ok result =>
    match result.points with
    | none => if result.verdict ≠ .SK then .inr (.error .nilPoints) else .inl 0
    | some testScore => .inl (min score testScore)

/-- The loop for `EachTest`. -/
def eachTestTurn (results : List (TestResult F)) (group : TestGroup F) :
    (Nat × F) ⊕ Except Panic F → Option ((Nat × F) ⊕ Except Panic F) :=
  countTurn 64 group.lastTest (eachTestBody results) .ok

/-- The loop for `Min`. -/
def minTurn (results : List (TestResult F)) (group : TestGroup F) :
    (Nat × F) ⊕ Except Panic F → Option ((Nat × F) ⊕ Except Panic F) :=
  countTurn 64 group.lastTest (minBody results) .ok

/-- The loops over the tests of the group end, with a score or a panic. -/
def GroupLoopsEnd (group : TestGroup F) : Prop :=
  ∀ (results : List (TestResult F)) (score : F),
    Ends (eachTestTurn results group) (.inl (group.firstTest, score)) ∧
      Ends (minTurn results group) (.inl (group.firstTest, score))

omit [Add F] [Min F] [Zero F] in
/-- The next test of a loop is the next result. -/
theorem results_from (results : List (TestResult F)) (turns : Nat) {n : Nat} (hn : 1 ≤ n)
    (hle : n + turns ≤ results.length) :
    ∃ result, index results (testIndex n) = .ok result ∧
      (results.drop (n - 1)).take (turns + 1) = result :: (results.drop n).take turns := by
  have hlt : n - 1 < results.length := by omega
  refine ⟨results[n - 1], ?_, ?_⟩
  · rw [testIndex_of_pos hn]
    exact index_eq_ok (List.getElem?_eq_getElem hlt)
  · rw [List.drop_eq_getElem_cons hlt, List.take_succ_cons, Nat.sub_add_cancel hn]

omit [Min F] [Zero F] in
theorem eachTest_countFrom {results : List (TestResult F)} {turns n : Nat} (hn : 1 ≤ n)
    (hle : n + turns ≤ results.length + 1) (score : F) :
    countFrom (eachTestBody results) .ok turns n score =
      sumPoints ((results.drop (n - 1)).take turns) score := by
  induction turns generalizing n score with
  | zero => rfl
  | succ turns ih =>
    obtain ⟨result, hindex, hslice⟩ := results_from results turns hn (by omega)
    rw [countFrom, hslice, sumPoints, eachTestBody, hindex]
    cases hpoints : result.points with
    | none => simp only [hpoints]
    | some testScore =>
      simp only [hpoints]
      exact ih (Nat.le_add_left 1 n) (by omega) _

omit [Add F] in
theorem min_countFrom {results : List (TestResult F)} {turns n : Nat} (hn : 1 ≤ n)
    (hle : n + turns ≤ results.length + 1) (score : F) :
    countFrom (minBody results) .ok turns n score =
      minPoints ((results.drop (n - 1)).take turns) score := by
  induction turns generalizing n score with
  | zero => rfl
  | succ turns ih =>
    obtain ⟨result, hindex, hslice⟩ := results_from results turns hn (by omega)
    rw [countFrom, hslice, minPoints, minBody, hindex]
    cases hpoints : result.points with
    | none =>
      simp only [hpoints]
      by_cases hverdict : result.verdict ≠ .SK
      · simp only [if_pos hverdict]
      · simp only [if_neg hverdict]
        exact ih (Nat.le_add_left 1 n) (by omega) _
    | some testScore =>
      simp only [hpoints]
      exact ih (Nat.le_add_left 1 n) (by omega) _

/-- The loops compute what `completeGroupTesting` uses of them. -/
theorem groupLoops_reach {results slice : List (TestResult F)} {group : TestGroup F}
    (hfirst : 1 ≤ group.firstTest) (hle : group.firstTest ≤ group.lastTest)
    (hlast : group.lastTest + 1 < 2 ^ 64) (h : groupTestResults results group = .ok slice) (score : F) :
    Reaches (eachTestTurn results group) (.inl (group.firstTest, score))
        (.inr (sumPoints slice score)) ∧
      Reaches (minTurn results group) (.inl (group.firstTest, score))
        (.inr (minPoints slice score)) := by
  unfold groupTestResults at h
  split at h
  · next hlength =>
    cases h
    have hturns : group.lastTest - (group.firstTest - 1) = group.lastTest + 1 - group.firstTest := by
      omega
    rw [List.drop_take, hturns, ← eachTest_countFrom hfirst (by omega),
      ← min_countFrom hfirst (by omega)]
    exact ⟨count_reaches hlast rfl score, count_reaches hlast rfl score⟩
  · cases h

/-! ## Termination -/

omit [Add F] [Min F] [Zero F] in
/-- The run of `NewIOIGenerator` ends, with this generator or error. -/
def Returns (id : GeneratorID) (problem : Problem F) (submission : Submission F)
    (result : Except String (IOIGenerator F)) : Prop :=
  .done result ∈ eval prepareStep (newState id problem submission)

/-- `NewIOIGenerator` ends with a generator or an error, and so does every loop over the tests of a
group of an accepted problem. -/
def Terminates (id : GeneratorID) (problem : Problem F) (submission : Submission F) : Prop :=
  (∃ result, .done result ∈ eval prepareStep (newState id problem submission)) ∧
    ∀ i, .done (.ok i) ∈ eval prepareStep (newState id problem submission) →
      ∀ group ∈ problem.testGroups, GroupLoopsEnd group

omit [Add F] [Min F] [Zero F] in
theorem not_ends_of_endless {problem : Problem F} (hstored : problem.Stored)
    (hioi : problem.problemType = .ioi) (h : Endless problem.testGroups) (id : GeneratorID)
    (submission : Submission F) : ¬ Ends prepareStep (newState id problem submission) := by
  have hstart : newState id problem submission =
      .groups problem.testGroups (unprepared id problem submission) := by
    rw [newState, if_neg (not_not.2 hioi)]
  rw [hstart]
  exact groups_endless (fun g hg => (hstored.groups g hg).2) h

omit [Add F] [Min F] [Zero F] in
/-- What `NewIOIGenerator` returns, if it does, is the value of `new`. -/
theorem returns_iff {problem : Problem F} (hstored : problem.Stored)
    (hioi : problem.problemType = .ioi) (id : GeneratorID) (submission : Submission F)
    (result : Except String (IOIGenerator F)) :
    Returns id problem submission result ↔
      ¬ Endless problem.testGroups ∧ new id problem submission = result := by
  have hnew : ¬ Endless problem.testGroups →
      Returns id problem submission (new id problem submission) := by
    intro h
    exact mem_eval.2 ⟨newState_reaches hstored (fun _ => h) id submission, rfl⟩
  constructor
  · intro hresult
    have hnot : ¬ Endless problem.testGroups := fun h =>
      not_ends_of_endless hstored hioi h id submission ⟨_, hresult⟩
    exact ⟨hnot, PrepareState.done.inj (Part.mem_unique (hnew hnot) hresult)⟩
  · rintro ⟨hnot, rfl⟩
    exact hnew hnot

omit [Add F] [Min F] [Zero F] in
/-- An accepted problem reaches all its groups. -/
theorem lastTest_lt {problem : Problem F} (hstored : problem.Stored) (ha : Accepted problem)
    (h : ¬ Endless problem.testGroups) : ∀ group ∈ problem.testGroups, group.lastTest + 1 < 2 ^ 64 := by
  intro group hgroup
  have hprepares : ∀ g ∈ problem.testGroups, g.Prepares := fun g hg =>
    ⟨ha.scored g hg, (ha.tiled.bounds hg).2.1⟩
  have hlt := (hstored.groups group hgroup).2
  have hne : group.lastTest ≠ 2 ^ 64 - 1 := by
    intro hlast
    obtain ⟨before, after, heq⟩ := List.append_of_mem hgroup
    refine h ⟨before, group, after, heq, fun g hg => hprepares g ?_, hprepares group hgroup, hlast⟩
    exact heq ▸ List.mem_append_left _ hg
  omega

theorem not_terminates {problem : Problem F} (hstored : problem.Stored)
    (hioi : problem.problemType = .ioi) (h : Endless problem.testGroups) (id : GeneratorID)
    (submission : Submission F) : ¬ Terminates id problem submission := by
  rintro ⟨⟨result, hresult⟩, -⟩
  exact not_ends_of_endless hstored hioi h id submission ⟨_, hresult⟩

/-- The run ends if and only if no group up to the largest test number is reached. -/
theorem new_terminates_iff {problem : Problem F} (hstored : problem.Stored)
    (hioi : problem.problemType = .ioi) (id : GeneratorID) (submission : Submission F) :
    Terminates id problem submission ↔ ¬ Endless problem.testGroups := by
  constructor
  · exact fun hends h => not_terminates hstored hioi h id submission hends
  · intro h
    have hreturns := returns_iff hstored hioi id submission
    refine ⟨⟨_, (hreturns _).2 ⟨h, rfl⟩⟩, fun i hi group hgroup results score => ?_⟩
    obtain ⟨-, hok⟩ := (hreturns (.ok i)).1 hi
    have hlast := lastTest_lt hstored (new_ok hok).1 h group hgroup
    exact ⟨count_ends hlast _ score, count_ends hlast _ score⟩

end Scores

/-- A problem with one group of the tests from `firstTest` to `lastTest`. -/
def oneGroup (firstTest lastTest : Nat) : Problem Nat where
  id := 1
  problemType := .ioi
  testGroups := [
    { name := "all", firstTest := firstTest, lastTest := lastTest, testScore := none,
      groupScore := some 100, scoringType := .complete, requiredGroupNames := [] }]
  testsNumber := lastTest

theorem oneGroup_stored {firstTest lastTest : Nat} (h : firstTest < 2 ^ 64 ∧ lastTest < 2 ^ 64) :
    (oneGroup firstTest lastTest).Stored := by
  refine ⟨fun group hg => ?_, h.2⟩
  rw [oneGroup, List.mem_singleton] at hg
  rw [hg]
  exact h

theorem new_terminates_iff_two :
    Terminates 7 (oneGroup 1 2)
      { id := 1, score := 0, verdict := .RU, testResults := [], compilationResult := none,
        groupResults := [] } := by
  refine (new_terminates_iff (oneGroup_stored (by decide)) rfl 7 _).2 ?_
  rw [oneGroup, endless_cons]
  rintro ⟨-, hlast | hrest⟩
  · exact absurd hlast (by decide)
  · exact not_endless_nil hrest

/-- One group up to the largest test number, with as many tests. -/
theorem new_endless : (oneGroup 1 (2 ^ 64 - 1)).Stored ∧ (oneGroup 1 (2 ^ 64 - 1)).problemType = .ioi ∧
    ∀ id submission, ¬ Terminates id (oneGroup 1 (2 ^ 64 - 1)) submission := by
  have hstored : (oneGroup 1 (2 ^ 64 - 1)).Stored := oneGroup_stored (by decide)
  refine ⟨hstored, rfl, not_terminates hstored rfl ?_⟩
  rw [oneGroup, endless_cons]
  exact ⟨⟨rfl, by decide⟩, .inl rfl⟩

end IOIGenerator

end TestingSystem
