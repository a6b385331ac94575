import Mathlib.Init

/-!
# Resources of the storage

`common/constants/resource`: the kinds of files that the storage component holds, and whether a file
belongs to a problem or to a submission.
-/

set_option autoImplicit false

namespace TestingSystem

/-- `resource.Type`. -/
inductive ResourceType where
  | sourceCode
  | compiledBinary
  | compileOutput
  | testInput
  | testAnswer
  | testOutput
  | testStderr
  | checker
  | checkerOutput
  | interactor
  deriving DecidableEq, Repr

/-- `Type.String`. -/
def ResourceType.toString : ResourceType → String
  | .sourceCode => "SourceCode"
  | .compiledBinary => "CompiledBinary"
  | .compileOutput => "CompileOutput"
  | .testInput => "TestInput"
  | .testAnswer => "TestAnswer"
  | .testOutput => "TestOutput"
  | .testStderr => "TestStderr"
  | .checker => "Checker"
  | .checkerOutput => "CheckerOutput"
  | .interactor => "Interactor"

theorem ResourceType.toString_injective {r r' : ResourceType} (h : r.toString = r'.toString) :
    r = r' := by
  cases r <;> cases r' <;> first | rfl | exact absurd h (by decide)

/-- The type with this number; the source's type is an `int` with ten named values. -/
def ResourceType.ofInt : Int → Option ResourceType
  | 0 => some .sourceCode
  | 1 => some .compiledBinary
  | 2 => some .compileOutput
  | 3 => some .testInput
  | 4 => some .testAnswer
  | 5 => some .testOutput
  | 6 => some .testStderr
  | 7 => some .checker
  | 8 => some .checkerOutput
  | 9 => some .interactor
  | _ => none

/-- `resource.DataType`. -/
inductive DataType where
  | unknownDataType
  | problem
  | submission
  deriving DecidableEq, Repr

/-- `DataType.String`. -/
def DataType.toString : DataType → String
  | .unknownDataType => "UnknownDataType"
  | .problem => "Problem"
  | .submission => "Submission"

theorem DataType.toString_injective {d d' : DataType} (h : d.toString = d'.toString) : d = d' := by
  cases d <;> cases d' <;> first | rfl | exact absurd h (by decide)

end TestingSystem
