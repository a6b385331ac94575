import TestingSystem.Master.JobGenerators.IOIAcceptance
import TestingSystem.Master.JobGenerators.IOITermination

/-!
# Problems that the admin API accepts

`checkProblemIsOK` of `clients/tsapi/problem.go` against `NewIOIGenerator`. A check is the value that
the function returns with the messages that `respError` writes on the way; two of the checks write
a message and go on. `Submittable` is what the API leaves to the generator.
-/

set_option autoImplicit false

namespace TestingSystem

variable {F : Type}

/-- What a part of `checkProblemIsOK` does: whether the function goes on, and its messages. -/
structure Check where
  passed : Bool
  messages : List String := []
  deriving DecidableEq, Repr

namespace Check

/-- `respError` before `return false`. -/
def fail (message : String) : Check := { passed := false, messages := [message] }

/-- `respError` without `return`. -/
def warn (message : String) : Check := { passed := true, messages := [message] }

/-- A statement after another one. -/
def andThen (a b : Check) : Check :=
  if a.passed then { passed := b.passed, messages := a.messages ++ b.messages } else a

@[simp] theorem passed_fail (message : String) : (fail message).passed = false := rfl

@[simp] theorem passed_andThen (a b : Check) :
    (a.andThen b).passed = true ↔ a.passed = true ∧ b.passed = true := by
  unfold andThen
  split <;> simp [*]

end Check

/-- The switch over the scoring type. -/
def checkGroupScore (group : TestGroup F) : Check :=
  match group.scoringType with
  | .complete | .min =>
    if group.groupScore.isNone then .fail s!"Group {group.name} has no group score"
    else { passed := true }
  | .eachTest =>
    if group.testScore.isNone then .fail s!"Group {group.name} has no test score"
    else { passed := true }
  | .other _ => .fail s!"Group {group.name} has invalid scoring type"

/-- The switch over the feedback type. -/
def checkFeedbackType (group : TestGroup F) : Check :=
  match group.feedbackType with
  | .none | .points | .icpc | .complete | .full => { passed := true }
  | .other _ => .fail s!"Group {group.name} has invalid feedback type"

/-- The loop over the required groups. Nothing is ever put into `usedRequiredGroups`. -/
def checkRequiredGroupNames (usedGroupNames usedRequiredGroups : List String)
    (group : TestGroup F) : List String → Check
  | [] => { passed := true }
  | required :: names =>
    if required ∉ usedGroupNames then
      .fail s!"Group {group.name} has required group name {required} which is not present"
    else
      let duplicate : Check :=
        if required ∈ usedRequiredGroups then
          .warn s!"Group {group.name} has duplicate required group name {required}"
        else { passed := true }
      duplicate.andThen (checkRequiredGroupNames usedGroupNames usedRequiredGroups group names)

/-- One turn of the loop over the groups. -/
def checkTestGroup (lastTest : Nat) (usedGroupNames : List String) (group : TestGroup F) : Check :=
  if group.name ∈ usedGroupNames then .fail s!"Group {group.name} is used more than once"
  else if group.firstTest ≠ u64 (lastTest + 1) then
    .fail s!"Group {group.name} first test is incorrect, should be previous group last test + 1"
  else
    let order : Check :=
      if group.firstTest > group.lastTest then
        .warn s!"Group {group.name} first test is greater than last test"
      else { passed := true }
    order.andThen <| (checkGroupScore group).andThen <| (checkFeedbackType group).andThen <|
      checkRequiredGroupNames usedGroupNames [] group group.requiredGroupNames

/-- The loop over the groups and the check after it. -/
def checkTestGroups (testsNumber : Nat) : List (TestGroup F) → Nat → List String → Check
  | [], lastTest, _ =>
    if lastTest ≠ testsNumber then .fail "Not all tests are present in all groups"
    else { passed := true }
  | group :: groups, lastTest, usedGroupNames =>
    (checkTestGroup lastTest usedGroupNames group).andThen
      (checkTestGroups testsNumber groups group.lastTest (group.name :: usedGroupNames))

/-- `checkProblemIsOK`. -/
def checkProblemIsOK (problem : Problem F) : Check :=
  match problem.problemType with
  | .icpc => { passed := true }
  | .ioi => checkTestGroups problem.testsNumber problem.testGroups 0 []
  | .other _ => .fail "Invalid problem type"

/-- What the API does not check and the generator needs: no group is empty, required groups are of
type `Complete`, and the test numbers stay in the range in which the generator counts and compares
them. -/
structure Submittable (problem : Problem F) : Prop where
  nonempty : ∀ group ∈ problem.testGroups, group.firstTest ≤ group.lastTest
  complete : ∀ group ∈ problem.testGroups, ∀ name ∈ group.requiredGroupNames,
    ∀ required ∈ problem.testGroups, required.name = name → required.scoringType = .complete
  sorted : IOIGenerator.isSortedByFirstTest problem.testGroups = true
  counted : ∀ group ∈ problem.testGroups, group.lastTest + 1 < 2 ^ 64

/-! ## What the API checks -/

theorem checkGroupScore_passed {group : TestGroup F} :
    (checkGroupScore group).passed = true ↔ group.Scored := by
  unfold checkGroupScore TestGroup.Scored
  cases group.scoringType with
  | complete | min => cases group.groupScore <;> simp
  | eachTest => cases group.testScore <;> simp
  | other value => simp

theorem checkRequiredGroupNames_passed {used usedRequired : List String} {group : TestGroup F}
    {names : List String} :
    (checkRequiredGroupNames used usedRequired group names).passed = true ↔
      ∀ name ∈ names, name ∈ used := by
  induction names with
  | nil => simp [checkRequiredGroupNames]
  | cons name names ih =>
    rw [checkRequiredGroupNames, List.forall_mem_cons]
    by_cases hmem : name ∈ used
    · have hwarn : ∀ a b : Check, a.passed = true → (a.andThen b).passed = b.passed := by
        intro a b ha
        simp [Check.andThen, ha]
      rw [if_neg (not_not.2 hmem)]
      simp only [hmem, true_and, ← ih]
      rw [hwarn]
      split <;> rfl
    · simp [hmem]

/-- The facts that the loop over the groups has checked. -/
def Listed (testsNumber : Nat) : List (TestGroup F) → Nat → List String → Prop
  | [], lastTest, _ => lastTest = testsNumber
  | group :: groups, lastTest, used =>
    group.name ∉ used ∧ group.firstTest = u64 (lastTest + 1) ∧ group.Scored ∧
      (∀ name ∈ group.requiredGroupNames, name ∈ used) ∧
      Listed testsNumber groups group.lastTest (group.name :: used)

theorem listed_of_passed {testsNumber : Nat} {groups : List (TestGroup F)} {lastTest : Nat}
    {used : List String} (h : (checkTestGroups testsNumber groups lastTest used).passed = true) :
    Listed testsNumber groups lastTest used := by
  induction groups generalizing lastTest used with
  | nil =>
    rw [checkTestGroups] at h
    split at h
    · cases h
    · next heq => exact not_not.1 heq
  | cons group groups ih =>
    rw [checkTestGroups, Check.passed_andThen] at h
    obtain ⟨hgroup, hrest⟩ := h
    unfold checkTestGroup at hgroup
    split at hgroup
    · cases hgroup
    split at hgroup
    · cases hgroup
    next hname hfirst =>
    simp only [Check.passed_andThen, checkGroupScore_passed, checkRequiredGroupNames_passed]
      at hgroup
    obtain ⟨-, hscored, -, hrequired⟩ := hgroup
    exact ⟨hname, not_not.1 hfirst, hscored, hrequired, ih hrest⟩

namespace Listed

variable {testsNumber lastTest : Nat} {groups : List (TestGroup F)} {used : List String}

theorem names (h : Listed testsNumber groups lastTest used) :
    (groups.Pairwise fun a b => b.name ≠ a.name) ∧ ∀ group ∈ groups, group.name ∉ used := by
  induction groups generalizing lastTest used with
  | nil => exact ⟨.nil, fun _ hg => nomatch hg⟩
  | cons head groups ih =>
    obtain ⟨hname, -, -, -, hrest⟩ := h
    obtain ⟨hpair, hnew⟩ := ih hrest
    refine ⟨List.pairwise_cons.2 ⟨fun b hb heq => hnew b hb (heq ▸ List.mem_cons_self), hpair⟩,
      fun group hg => ?_⟩
    rcases List.mem_cons.1 hg with rfl | hg
    · exact hname
    · exact fun hmem => hnew group hg (List.mem_cons_of_mem _ hmem)

theorem scored (h : Listed testsNumber groups lastTest used) : ∀ group ∈ groups, group.Scored := by
  induction groups generalizing lastTest used with
  | nil => exact fun _ hg => nomatch hg
  | cons head groups ih =>
    obtain ⟨-, -, hscored, -, hrest⟩ := h
    exact List.forall_mem_cons.2 ⟨hscored, ih hrest⟩

/-- A required group comes before the group that requires it. -/
theorem required (h : Listed testsNumber groups lastTest used) {before after : List (TestGroup F)}
    {group : TestGroup F} (heq : groups = before ++ group :: after) {name : String}
    (hname : name ∈ group.requiredGroupNames) :
    name ∈ used ∨ name ∈ before.map TestGroup.name := by
  induction before generalizing groups lastTest used with
  | nil =>
    rw [List.nil_append] at heq
    rw [heq] at h
    obtain ⟨-, -, -, hrequired, -⟩ := h
    exact .inl (hrequired name hname)
  | cons head before ih =>
    rw [List.cons_append] at heq
    rw [heq] at h
    obtain ⟨-, -, -, -, hrest⟩ := h
    rw [List.map_cons]
    rcases ih hrest rfl with hmem | hmem
    · rcases List.mem_cons.1 hmem with rfl | hmem
      · exact .inr List.mem_cons_self
      · exact .inl hmem
    · exact .inr (List.mem_cons_of_mem _ hmem)

/-- Without empty groups and overflows the groups tile the tests. -/
theorem tiled (h : Listed testsNumber groups lastTest used) (hlast : lastTest + 1 < 2 ^ 64)
    (hnonempty : ∀ group ∈ groups, group.firstTest ≤ group.lastTest)
    (hcounted : ∀ group ∈ groups, group.lastTest + 1 < 2 ^ 64) :
    Tiled lastTest groups testsNumber := by
  induction groups generalizing lastTest used with
  | nil => exact h
  | cons head groups ih =>
    obtain ⟨-, hfirst, -, -, hrest⟩ := h
    refine ⟨?_, hnonempty head List.mem_cons_self, ih hrest (hcounted head List.mem_cons_self)
      (fun group hg => hnonempty group (List.mem_cons_of_mem _ hg)) fun group hg =>
      hcounted group (List.mem_cons_of_mem _ hg)⟩
    rw [hfirst, u64, Nat.mod_eq_of_lt hlast]

/-- With `Submittable`, the checks of the API yield those of the generator. -/
theorem accepted {problem : Problem F} (h : Listed problem.testsNumber problem.testGroups 0 [])
    (hioi : problem.problemType = .ioi) (hsub : Submittable problem) : Accepted problem := by
  refine ⟨hioi, h.scored, h.tiled (by decide) hsub.nonempty hsub.counted, h.names.1,
    fun before group after heq name hname => ?_⟩
  rcases h.required heq hname with hmem | hmem
  · cases hmem
  · obtain ⟨required, hr, rfl⟩ := List.mem_map.1 hmem
    have hgroup : group ∈ problem.testGroups := heq ▸ List.mem_append_right _ List.mem_cons_self
    have hrequired : required ∈ problem.testGroups := heq ▸ List.mem_append_left _ hr
    exact ⟨required, hr, rfl, hsub.complete group hgroup _ hname required hrequired rfl⟩

end Listed

/-- For a problem that the API accepts, `NewIOIGenerator` returns a generator exactly if it is
submittable. -/
theorem accepted_iff_submittable (problem : Problem F) (hstored : problem.Stored)
    (hioi : problem.problemType = .ioi) (h : (checkProblemIsOK problem).passed = true)
    (id : GeneratorID) (submission : Submission F) :
    (∃ i, IOIGenerator.Returns id problem submission (.ok i)) ↔ Submittable problem := by
  have hlisted : Listed problem.testsNumber problem.testGroups 0 [] := by
    rw [checkProblemIsOK, hioi] at h
    exact listed_of_passed h
  have hreturns := IOIGenerator.returns_iff hstored hioi id submission
  constructor
  · rintro ⟨i, hi⟩
    obtain ⟨hends, hnew⟩ := (hreturns (.ok i)).1 hi
    obtain ⟨hacc, -⟩ := IOIGenerator.new_ok hnew
    refine ⟨fun group hg => (hacc.tiled.bounds hg).2.1, fun group hg name hname required hr heq => ?_,
      IOIGenerator.new_sorted hnew, IOIGenerator.lastTest_lt hstored hacc hends⟩
    obtain ⟨before, after, hsplit⟩ := List.append_of_mem hg
    obtain ⟨found, hfound, hname', hcomplete⟩ := hacc.required before group after hsplit name hname
    have hmem : found ∈ problem.testGroups := hsplit ▸ List.mem_append_left _ hfound
    rw [hacc.eq_of_name hr hmem (heq.trans hname'.symm)]
    exact hcomplete
  · intro hsub
    obtain ⟨i, hi⟩ := IOIGenerator.new_of_sorted (hlisted.accepted hioi hsub) hsub.sorted id submission
    refine ⟨i, (hreturns (.ok i)).2 ⟨?_, hi⟩⟩
    -- a group without end goes up to the largest test number
    rintro ⟨before, group, after, heq, -, -, hlast⟩
    have hlt := hsub.counted group (heq ▸ List.mem_append_right _ List.mem_cons_self)
    omega

/-- Two groups of one test each, the second of which requires the first. -/
def twoGroups (first : TestGroupScoringType) : Problem Int where
  id := 1
  problemType := .ioi
  testGroups :=
    [{ name := "a", firstTest := 1, lastTest := 1, testScore := some 50, groupScore := some 50,
       scoringType := first, requiredGroupNames := [], feedbackType := .full },
     { name := "b", firstTest := 2, lastTest := 2, testScore := none, groupScore := some 50,
       scoringType := .complete, requiredGroupNames := ["a"], feedbackType := .full }]
  testsNumber := 2

/-- A submission that waits for its testing. -/
def waitingSubmission : Submission Int :=
  { id := 1, score := 0, verdict := .RU, testResults := [], compilationResult := none,
    groupResults := [] }

theorem twoGroups_stored (first : TestGroupScoringType) : (twoGroups first).Stored := by
  have hstored : (twoGroups .complete).Stored := ⟨by decide, by decide⟩
  refine ⟨fun group hg => ?_, hstored.2⟩
  rcases List.mem_cons.1 hg with rfl | hg
  · exact (by decide : 1 < 2 ^ 64 ∧ 1 < 2 ^ 64)
  · exact hstored.1 group (List.mem_cons_of_mem _ hg)

theorem accepted_iff_submittable_complete :
    Submittable (twoGroups .complete) ∧
      ∃ i, IOIGenerator.Returns 0 (twoGroups .complete) waitingSubmission (.ok i) := by
  have hiff := accepted_iff_submittable _ (twoGroups_stored .complete) rfl (by decide) 0 waitingSubmission
  have hsub : Submittable (twoGroups .complete) := by
    refine ⟨by decide, ?_, by decide, by decide⟩
    decide
  exact ⟨hsub, hiff.2 hsub⟩

/-- The API accepts a group that requires one of type `Min`. -/
theorem accepted_not_submittable :
    ¬ ∀ problem : Problem Int, problem.Stored → problem.problemType = .ioi →
      (checkProblemIsOK problem).passed = true → ∀ id submission,
        ∃ i, IOIGenerator.Returns id problem submission (.ok i) := by
  intro h
  have hstored := twoGroups_stored .min
  obtain ⟨i, hi⟩ := h (twoGroups .min) hstored rfl (by decide) 0 waitingSubmission
  obtain ⟨-, hnew⟩ := (IOIGenerator.returns_iff hstored rfl 0 waitingSubmission (.ok i)).1 hi
  cases hnew

end TestingSystem
