import TestingSystem.Common.Connectors
import TestingSystem.Common.CustomFields

/-!
# The meta file of isolate

`invoker/sandbox/isolate`: after a run isolate leaves a file with one `key:value` a line, and
`parseMeta` makes the verdict and the statistics of the run from it. The lines are those that
`bufio.Scanner` returns.

`seconds` is `strconv.ParseFloat` and the conversion of the number to nanoseconds; `exactSeconds` reads
decimal numbers as exact rationals.
-/

set_option autoImplicit false

namespace TestingSystem

/-- `config.RunLimitsConfig`, the limits that the verdict depends on. -/
structure RunLimitsConfig where
  timeLimit : Nat
  memoryLimit : Nat
  wallTimeLimit : Nat
  deriving DecidableEq, Repr

/-- `sandbox.RunResult`, without the points, which the sandbox does not set. -/
structure RunResult where
  err : Option String := none
  verdict : Verdict := .other ""
  statistics : JobResultStatistics := ⟨0, 0, 0, 0⟩
  deriving DecidableEq, Repr

/-- The conversion of a number of seconds to `customfields.Time`: the nanoseconds are cut to an integer
and kept in 64 bits. -/
def toNanoseconds (seconds : Rat) : Nat :=
  let scaled := seconds * (10 ^ 9 : Nat)
  (scaled.num.tdiv scaled.den % 2 ^ 64).toNat

/-- Decimal numbers read as exact rationals. -/
def exactSeconds (value : String) : Option Nat :=
  (parseFloat value).map toNanoseconds

namespace Sandbox

/-- The key and the value of a line; `none` if the line has no colon. -/
def keyValue (line : String) : Option (String × String) :=
  (splitInTwo ':' line).map fun parts => (trimSpace parts.1, trimSpace parts.2)

/-- `result` with the error of a line that can not be parsed. -/
def cannotParse (line : String) (result : RunResult) : RunResult :=
  { result with err := some ("can not parse meta file line " ++ line) }

/-- `result.Verdict` becomes `verdict` unless something other than `OK` was found before. -/
def setIfOK (verdict : Verdict) (result : RunResult) : RunResult :=
  if result.verdict = .OK then { result with verdict := verdict } else result

variable (seconds : String → Option Nat)

/-- One round of the loop of `parseMeta`. `.error` is an early return with an error. -/
def parseLine (result : RunResult) (line : String) : Except RunResult RunResult :=
  match keyValue line with
  | none => .error (cannotParse line result)
  | some (key, value) =>
    match key with
    | "cg-mem" =>
      match Memory.fromStr (value ++ "k") with
      | none => .error (cannotParse line result)
      | some memory => .ok { result with statistics := { result.statistics with memory := memory } }
    | "cg-oom-killed" => .ok (if value = "1" then { result with verdict := .ML } else result)
    | "exitcode" =>
      match atoi value with
      | .error exitCode =>
        .error (cannotParse line
          { result with statistics := { result.statistics with exitCode := exitCode } })
      | .ok exitCode =>
        .ok { result with statistics := { result.statistics with exitCode := exitCode } }
    | "exitsig" =>
      match atoi value with
      | .error exitCode =>
        .error (cannotParse line
          { result with statistics := { result.statistics with exitCode := exitCode } })
      | .ok exitCode =>
        .ok (setIfOK .RT
          { result with statistics := { result.statistics with exitCode := exitCode } })
    | "status" =>
      match value with
      | "RE" | "SG" => .ok (setIfOK .RT result)
      | "TO" => .ok { result with verdict := .WL }
      | "XX" => .error { result with err := some "unknown error from isolate" }
      | _ => .error (cannotParse line result)
    | "time" =>
      match seconds value with
      | none => .error (cannotParse line result)
      | some time => .ok { result with statistics := { result.statistics with time := time } }
    | "time-wall" =>
      match seconds value with
      | none => .error (cannotParse line result)
      | some wallTime =>
        .ok { result with statistics := { result.statistics with wallTime := wallTime } }
    | "csw-forced" | "csw-voluntary" | "killed" | "max-rss" | "message" => .ok result
    | _ => .error (cannotParse line result)

/-- The loop of `parseMeta`. -/
def parseLines : List String → RunResult → Except RunResult RunResult
  | [], result => .ok result
  | line :: lines, result =>
    match parseLine seconds result line with
    | .error result => .error result
    | .ok result => parseLines lines result

/-- `setVerdict` of `parseMeta`. -/
def setVerdict (toSet : Verdict) (condition : Prop) [Decidable condition]
    (canHaveVerdicts : List Verdict) (result : RunResult) : RunResult :=
  if result.verdict ∈ canHaveVerdicts ∧ condition then { result with verdict := toSet } else result

/-- The rewrites of the verdict after the loop of `parseMeta`. -/
def compareLimits (config : RunLimitsConfig) (result : RunResult) : RunResult :=
  let result := setVerdict .ML (config.memoryLimit < result.statistics.memory) [.OK, .RT] result
  let result := setVerdict .TL (config.timeLimit < result.statistics.time) [.OK, .WL] result
  let result := setVerdict .WL (config.wallTimeLimit < result.statistics.wallTime) [.OK] result
  setVerdict .RT (result.statistics.exitCode ≠ 0) [.OK] result

/-- `Sandbox.parseMeta`. `file` holds the lines of the meta file, or the error of opening it. -/
def parseMeta (file : Except String (List String)) (config : RunLimitsConfig) (result : RunResult) :
    RunResult :=
  match file with
  | .error err => { result with err := some ("can not open meta file, error: " ++ err) }
  | .ok lines =>
    match parseLines seconds lines { result with verdict := .OK } with
    | .error result => result
    | .ok result => compareLimits config result

end Sandbox

end TestingSystem
