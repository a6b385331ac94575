import Mathlib.Algebra.Ring.Int.Defs
import Mathlib.Algebra.Ring.Nat

/-!
# Problems and submissions

The part of `common/db/models` and `common/constants/verdict` that testing reads and writes. Points
and scores are `float64` in the source; they are values of a type `F` here, and the definitions over
`F` use the addition, the minimum and the constants of the source in the order of the source, so no
law of arithmetic is assumed of `F`.

Columns that testing never touches (names, limits, dates, the language) are left out.
-/

set_option autoImplicit false

namespace TestingSystem

/-- Primary key of a submission. -/
abbrev SubmissionID := Nat

/-- `verdict.Verdict`. The source type is a string, so an invoker may send one that is none of the
constants: `other`. -/
inductive Verdict where
  | OK | PT | WA | WR | RT | ML | TL | WL | SE | CE | CD | CF | SK | RU
  | other (text : String)
  deriving DecidableEq, Repr

/-- `models.ProblemType`, an integer with two named values. -/
inductive ProblemType where
  | icpc
  | ioi
  | other (value : Int)
  deriving DecidableEq, Repr

/-- `models.TestGroupScoringType`, an integer with three named values. -/
inductive TestGroupScoringType where
  | complete
  | eachTest
  | min
  | other (value : Int)
  deriving DecidableEq, Repr

/-- The integer behind a scoring type, as `%v` prints it. -/
def TestGroupScoringType.value : TestGroupScoringType → Int
  | .complete => 1
  | .eachTest => 2
  | .min => 3
  | .other value => value

/-- `models.TestGroupFeedbackType`, an integer with five named values. -/
inductive TestGroupFeedbackType where
  | none
  | points
  | icpc
  | complete
  | full
  | other (value : Int)
  deriving DecidableEq, Repr

/-- `models.TestGroup`. Test numbers are `uint64`. -/
structure TestGroup (F : Type) where
  name : String
  firstTest : Nat
  lastTest : Nat
  testScore : Option F
  groupScore : Option F
  scoringType : TestGroupScoringType
  requiredGroupNames : List String
  feedbackType : TestGroupFeedbackType := .other 0
  deriving DecidableEq, Repr

/-- `models.Problem`. -/
structure Problem (F : Type) where
  id : Nat
  problemType : ProblemType
  testGroups : List (TestGroup F)
  testsNumber : Nat
  deriving DecidableEq, Repr

/-- `models.TestResult`. A nil pointer is `none`. -/
structure TestResult (F : Type) where
  testNumber : Nat
  verdict : Verdict
  points : Option F := none
  time : Option Nat := none
  memory : Option Nat := none
  wallTime : Option Nat := none
  error : String := ""
  exitCode : Option Int := none
  deriving DecidableEq, Repr

/-- `models.GroupResult`. -/
structure GroupResult (F : Type) where
  groupName : String
  points : F
  passed : Bool
  deriving DecidableEq, Repr

/-- `models.Submission`. -/
structure Submission (F : Type) where
  id : SubmissionID
  score : F
  verdict : Verdict
  testResults : List (TestResult F)
  compilationResult : Option (TestResult F)
  groupResults : List (GroupResult F)
  deriving DecidableEq, Repr

end TestingSystem
