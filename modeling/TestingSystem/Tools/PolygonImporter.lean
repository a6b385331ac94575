import TestingSystem.Common.Models

/-!
# The polygon importer

`buildProblemModel` of `tools/polygon_importer/xml.go`: the problem that is made from the testsets of a
polygon package. Of the XML only what decides the tests and their groups is kept; a dependency is the
name of the group. A panic ends the importer.
-/

set_option autoImplicit false

namespace TestingSystem

/-- `XTest`. -/
structure XTest (F : Type) where
  group : String
  points : F
  deriving DecidableEq, Repr

/-- `XGroup`. -/
structure XGroup where
  name : String
  feedbackPolicy : String
  pointsPolicy : String
  dependencies : List String
  deriving DecidableEq, Repr

/-- `XTestset`. The length of a slice is an `int`. -/
structure XTestset (F : Type) where
  name : String
  tests : List (XTest F)
  groups : List XGroup
  length_lt : tests.length < 2 ^ 63

/-- The panics of `buildProblemModel`. -/
inductive ImportPanic where
  | noTestset
  | unknownFeedbackPolicy
  | unknownPointsPolicy
  | noTestGroup
  deriving DecidableEq, Repr

variable {F : Type}

/-- The last testset with the name `tests`. -/
def chooseTestset (testsets : List (XTestset F)) : Option (XTestset F) :=
  testsets.foldl
    (fun testset someTestset => if someTestset.name ≠ "tests" then testset else some someTestset) none

/-- The switch over the feedback policy. -/
def feedbackType : String → Option TestGroupFeedbackType
  | "none" => some .none
  | "points" => some .points
  | "icpc" => some .icpc
  | "complete" => some .complete
  | _ => none

/-- The switch over the points policy. -/
def scoringType : String → Option TestGroupScoringType
  | "complete-group" => some .complete
  | "each-test" => some .eachTest
  | _ => none

/-- A group before the tests are counted. -/
def newTestGroup [Zero F] (testsNumber : Nat) (xGroup : XGroup) (feedback : TestGroupFeedbackType)
    (scoring : TestGroupScoringType) : TestGroup F where
  name := xGroup.name
  firstTest := testsNumber
  lastTest := 0
  testScore := none
  groupScore := some 0
  scoringType := scoring
  requiredGroupNames := xGroup.dependencies
  feedbackType := feedback

/-- One turn of the loop over the groups. -/
def convertGroup [Zero F] (testsNumber : Nat) (xGroup : XGroup) : Except ImportPanic (TestGroup F) :=
  match feedbackType xGroup.feedbackPolicy with
  | none => .error .unknownFeedbackPolicy
  | some feedback =>
    match scoringType xGroup.pointsPolicy with
    | none => .error .unknownPointsPolicy
    | some scoring => .ok (newTestGroup testsNumber xGroup feedback scoring)

/-- What the test with the number `id` does to a group. -/
def addTest [Add F] (id : Nat) (test : XTest F) (group : TestGroup F) : TestGroup F :=
  if group.name = test.group then
    { group with
      firstTest := min group.firstTest id
      lastTest := max group.lastTest id
      groupScore := group.groupScore.map (· + test.points) }
  else group

/-- The loop over the tests, from the one with the number `id` on. -/
def addTests [Add F] : List (XTest F) → Nat → List (TestGroup F) →
    Except ImportPanic (List (TestGroup F))
  | [], _, groups => .ok groups
  | test :: tests, id, groups =>
    if test.group = "" then .error .noTestGroup
    else addTests tests (id + 1) (groups.map (addTest id test))

/-- The number of tests of a group, in 64 bits. -/
def testsOf (group : TestGroup F) : Nat :=
  (UInt64.ofNat group.lastTest - UInt64.ofNat group.firstTest + 1).toNat

/-- The last loop: the score of a group becomes that of each of its tests. -/
def setTestScore [Div F] [NatCast F] (group : TestGroup F) : TestGroup F :=
  if group.scoringType = .eachTest then
    { group with
      testScore := group.groupScore.map (· / (testsOf group : F))
      groupScore := none }
  else group

/-- `buildProblemModel`. The database gives the problem its ID later. -/
def buildProblemModel [Zero F] [Add F] [Div F] [NatCast F] (testsets : List (XTestset F)) :
    Except ImportPanic (Problem F) :=
  match chooseTestset testsets with
  | none => .error .noTestset
  | some testset =>
    let testsNumber := testset.tests.length
    if testset.groups.length = 0 then
      .ok { id := 0, problemType := .icpc, testGroups := [], testsNumber := testsNumber }
    else do
      let groups ← testset.groups.mapM (convertGroup testsNumber)
      let groups ← addTests testset.tests 1 groups
      return {
        id := 0
        problemType := .ioi
        testGroups := groups.map setTestScore
        testsNumber := testsNumber }

end TestingSystem
