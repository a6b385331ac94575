import TestingSystem.Common.Models

/-!
# Messages between the master and the invokers

The data of `common/connectors/invokerconn` and `common/connectors/masterconn`. An ID is the text of
a UUID: it is only compared, so it is an opaque token here. The epoch of a status is a version 7
UUID, of which the source uses the order.
-/

set_option autoImplicit false

namespace TestingSystem

/-- A job ID, the text of a UUID. -/
abbrev JobID := Nat

/-- A status epoch, the text of a version 7 UUID. -/
abbrev Epoch := Nat

/-- `invokerconn.JobType`, an integer with two named values. -/
inductive JobType where
  | compileJob
  | testJob
  | other (value : Int)
  deriving DecidableEq, Repr

/-- `String`, as stringer generates it. -/
def JobType.string : JobType → String
  | .compileJob => "CompileJob"
  | .testJob => "TestJob"
  | .other value => "JobType(" ++ toString value ++ ")"

/-- `invokerconn.Job`. The order of `requiredJobIDs` is the order of a range over a map, and only
membership in it is ever read. -/
structure Job where
  id : JobID
  submitID : SubmissionID
  type : JobType
  test : Nat := 0
  requiredJobIDs : List JobID := []
  deriving DecidableEq, Repr

/-- `invokerconn.Status`. -/
structure Status where
  maxNewJobs : Int
  activeJobIDs : List JobID
  epoch : Epoch
  address : String
  deriving DecidableEq, Repr

/-- `masterconn.JobResultStatistics`. Times and memory are `uint64`. -/
structure JobResultStatistics where
  time : Nat
  memory : Nat
  wallTime : Nat
  exitCode : Int
  deriving DecidableEq, Repr

/-- `masterconn.InvokerJobResult`. -/
structure InvokerJobResult (F : Type) where
  job : Job
  verdict : Verdict
  points : Option F := none
  error : String := ""
  statistics : Option JobResultStatistics := none
  invokerStatus : Status
  deriving DecidableEq, Repr

/-- `masterconn.Status`, without the status of the invokers. -/
structure MasterStatusResponse (F : Type) where
  epoch : Epoch
  testingSubmissions : List SubmissionID
  updatedSubmissions : List (Submission F)
  deriving DecidableEq, Repr

end TestingSystem
