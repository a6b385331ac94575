import TestingSystem.Invoker.IsolateVerdict
import TestingSystem.Invoker.JobResults

/-!
# Well-formed results

With isolate as the sandbox a run without an error has one of six verdicts (`Sandbox.run_verdict`). Every
result that an invoker sends is then well formed: its verdict is one that the type of the job has, the
points are there exactly with `PT`, and the statistics exactly without an error.
-/

set_option autoImplicit false

namespace TestingSystem

namespace Sandbox

/-- How the command of isolate ends. -/
inductive IsolateEnd where
  /-- The context of the run is cancelled. -/
  | skipped
  /-- `cmd.Run` returns an error that is no `ExitError`. -/
  | notRun (err : String)
  /-- The meta file is read. -/
  | exited (file : Except String (List String))

/-- `Sandbox.Run` of isolate. -/
def run (seconds : String → Option Nat) (id : Int) (config : RunLimitsConfig) :
    IsolateEnd → RunResult
  | .skipped => { verdict := .SK }
  | .notRun err =>
    { err := some ("error running isolate box " ++ toString id ++ ", error: " ++ err) }
  | .exited file => parseMeta seconds file config {}

variable {seconds : String → Option Nat} {result : RunResult}

theorem MetaEffect.apply_cases (effect : MetaEffect) (h : result.verdict ∈ [.OK, .RT, .ML, .WL]) :
    (effect.apply result).verdict ∈ [.OK, .RT, .ML, .WL] := by
  have hset : ∀ result : RunResult, result.verdict ∈ [.OK, .RT, .ML, .WL] →
      (setIfOK .RT result).verdict ∈ [.OK, .RT, .ML, .WL] := by
    intro result h
    unfold setIfOK
    split
    · simp
    · exact h
  cases effect with
  | memory value => exact h
  | oomKilled => simp [MetaEffect.apply]
  | exitCode value => exact h
  | exitSignal value => exact hset _ h
  | runtimeError => exact hset _ h
  | timedOut => simp [MetaEffect.apply]
  | time value => exact h
  | wallTime value => exact h
  | skip => exact h

theorem foldl_cases (seconds : String → Option Nat) (result : RunResult) (lines : List String)
    (h : result.verdict ∈ [.OK, .RT, .ML, .WL]) :
    (lines.foldl (applyLine seconds) result).verdict ∈ [.OK, .RT, .ML, .WL] := by
  induction lines generalizing result with
  | nil => exact h
  | cons line lines ih =>
    apply ih
    unfold applyLine
    cases metaEffect seconds line with
    | none => exact h
    | some effect => exact effect.apply_cases h

theorem compareLimits_cases (config : RunLimitsConfig) (h : result.verdict ∈ [.OK, .RT, .ML, .WL]) :
    (compareLimits config result).verdict ∈ [.OK, .RT, .ML, .WL, .TL] := by
  have hset : ∀ (toSet : Verdict) (condition : Prop) [Decidable condition] (from' : List Verdict)
      (result : RunResult), toSet ∈ [.OK, .RT, .ML, .WL, .TL] →
      result.verdict ∈ [.OK, .RT, .ML, .WL, .TL] →
      (setVerdict toSet condition from' result).verdict ∈ [.OK, .RT, .ML, .WL, .TL] := by
    intro toSet condition _ from' result hto h
    rw [setVerdict_verdict]
    split
    · exact hto
    · exact h
  have hsubset : [Verdict.OK, .RT, .ML, .WL] ⊆ [.OK, .RT, .ML, .WL, .TL] := by simp
  unfold compareLimits
  refine hset _ _ _ _ (by simp) (hset _ _ _ _ (by simp) (hset _ _ _ _ (by simp) ?_))
  exact hset _ _ _ _ (by simp) (hsubset h)

/-- A run without an error has a verdict. -/
theorem run_verdict {id : Int} {config : RunLimitsConfig} {ending : IsolateEnd}
    (h : (run seconds id config ending).err = none) :
    (run seconds id config ending).verdict ∈ [.OK, .RT, .ML, .WL, .TL, .SK] := by
  cases ending with
  | skipped => simp [run]
  | notRun err => cases h
  | exited file =>
    cases file with
    | error err => cases h
    | ok lines =>
      have hread := readable_of_err h
      have hcases := compareLimits_cases config
        (foldl_cases seconds { verdict := .OK } lines (by simp))
      have hsubset : [Verdict.OK, .RT, .ML, .WL, .TL] ⊆ [.OK, .RT, .ML, .WL, .TL, .SK] := by simp
      have hrun : run seconds id config (.exited (.ok lines)) =
          compareLimits config (lines.foldl (applyLine seconds) { verdict := .OK }) :=
        parseMeta_eq hread
      rw [hrun]
      exact hsubset hcases

end Sandbox

variable {F : Type}

/-- The result says something that the master understands. -/
structure InvokerJobResult.WellFormed (result : InvokerJobResult F) : Prop where
  compile : result.job.type = .compileJob → result.verdict ∈ [.CD, .CE, .CF]
  test : result.job.type = .testJob →
    result.verdict ∈ [.OK, .PT, .WA, .CF, .RT, .TL, .ML, .WL, .SK]
  points : result.points.isSome = true ↔ result.verdict = .PT
  statistics : result.statistics.isSome = true ↔ result.error = ""
  error : result.error ≠ "" → result.verdict = .CF

open JobPipelineState PipelineM

variable {env : JobEnv F} {job : PipelineJob}

theorem failResult_wellFormed (err : String) : (failResult env job err).WellFormed where
  compile _ := by simp [failResult]
  test _ := by simp [failResult]
  points := by simp [failResult]
  statistics := by
    refine iff_of_false Bool.noConfusion ?_
    intro hempty
    have hlength := congrArg String.length hempty
    simp [failResult] at hlength
  error _ := rfl

/-- The runs of the job are runs of isolate. -/
def JobEnv.UsesIsolate (env : JobEnv F) (seconds : String → Option Nat) : Prop :=
  ∀ command, ∃ id config ending, env.run command = Sandbox.run seconds id config ending

theorem JobEnv.UsesIsolate.verdict {seconds : String → Option Nat} (h : env.UsesIsolate seconds)
    {command : String} (hruns : env.Executes command) :
    (env.run command).verdict ∈ [.OK, .RT, .ML, .WL, .TL, .SK] := by
  obtain ⟨id, config, ending, hrun⟩ := h command
  have herr := hruns.2
  rw [hrun] at herr ⊢
  exact Sandbox.run_verdict herr

theorem compiled_wellFormed (htype : job.request.type = .compileJob) (hcompiles : env.Compiles job) :
    (successResult env job (compiledResult env) none).WellFormed := by
  have hverdict : (compiledResult env).verdict ∈ [.CD, .CE] := by
    rcases compiledResult_cases hcompiles.verdict with ⟨hCD, -⟩ | ⟨hCE, -⟩
    · simp [hCD]
    · simp [hCE]
  refine ⟨?_, ?_, ?_, ?_, ?_⟩
  · intro _
    have hsubset : [Verdict.CD, .CE] ⊆ [.CD, .CE, .CF] := by simp
    exact hsubset hverdict
  · intro htest
    cases htype.symm.trans htest
  · refine iff_of_false Bool.noConfusion ?_
    intro hPT
    unfold successResult at hPT
    dsimp only at hPT
    rw [hPT] at hverdict
    simp at hverdict
  · exact iff_of_true rfl rfl
  · intro herror
    exact absurd rfl herror

theorem tested_wellFormed {seconds : String → Option Nat} (hsandbox : env.UsesIsolate seconds)
    (htype : job.request.type = .testJob) (htests : env.Tests job) :
    (successResult env job (testedResult env) env.graded.2).WellFormed := by
  have hcases : env.graded.1 ∈ [Verdict.OK, .PT, .WA, .CF, .RT, .TL, .ML, .WL, .SK] ∧
      (env.graded.2.isSome = true ↔ env.graded.1 = .PT) := by
    unfold JobEnv.graded
    by_cases hok : (env.run solutionBinaryFile).verdict = .OK
    · rw [if_pos hok]
      obtain ⟨grade, hchecked⟩ := Option.isSome_iff_exists.1 (htests.checks hok).decides
      obtain ⟨hverdict, hpoints⟩ := JobEnv.checked_cases hchecked
      rw [hchecked]
      have hsubset : [Verdict.OK, .WA, .PT, .CF, .SK] ⊆
          [.OK, .PT, .WA, .CF, .RT, .TL, .ML, .WL, .SK] := by simp
      exact ⟨hsubset hverdict, hpoints⟩
    · rw [if_neg hok]
      have hverdict := hsandbox.verdict htests.runs
      have hsubset : [Verdict.OK, .RT, .ML, .WL, .TL, .SK] ⊆
          [.OK, .PT, .WA, .CF, .RT, .TL, .ML, .WL, .SK] := by simp
      refine ⟨hsubset hverdict, iff_of_false Bool.noConfusion ?_⟩
      intro hPT
      dsimp only at hPT
      rw [hPT] at hverdict
      simp at hverdict
  refine ⟨?_, ?_, ?_, ?_, ?_⟩
  · intro hcompile
    cases htype.symm.trans hcompile
  · intro _
    exact hcases.1
  · exact hcases.2
  · exact iff_of_true rfl rfl
  · intro herror
    exact absurd rfl herror

/-- With isolate, every job that the invoker accepts is the one of the request and ends with one result,
about this job, and the result is well formed. -/
theorem sent_wellFormed {seconds : String → Option Nat} (hsandbox : env.UsesIsolate seconds)
    {log : List InvokerJobEvent} (hhandled : handleNewJob env = .ok ⟨some job, log⟩) :
    env.bindJSON = .ok job.request ∧
      ∃ result, Sends (processJob env job) result ∧ result.job = job.request ∧ result.WellFormed := by
  refine ⟨accepted_request hhandled, ?_⟩
  have hready := accepted_ready hhandled
  obtain ⟨handled, hhandled', hend⟩ := handleNewJob_ends env
  obtain rfl := Except.ok.inj (hhandled.symm.trans hhandled')
  cases hend with
  | accepted htakes hopen hvalid _ =>
    unfold processJob
    rcases hvalid with htype | ⟨htype, -⟩
    · rw [htype]
      rcases fullCompilationPipeline_sends hready with ⟨hcompiles, hsends⟩ | ⟨-, err, hsends⟩
      · exact ⟨_, hsends, rfl, compiled_wellFormed htype hcompiles⟩
      · exact ⟨_, hsends, rfl, failResult_wellFormed err⟩
    · rw [htype]
      rcases fullTestingPipeline_sends hready with ⟨htests, hsends⟩ | ⟨-, err, hsends⟩
      · exact ⟨_, hsends, rfl, tested_wellFormed hsandbox htype htests⟩
      · exact ⟨_, hsends, rfl, failResult_wellFormed err⟩

/-- A test whose solution is killed by isolate. -/
def killedTestJob : JobEnv Nat :=
  { openTestJob with
    run := fun _ => Sandbox.run exactSeconds 0 ⟨10 ^ 9, 2 ^ 20, 10 ^ 9⟩
      (.exited (.ok ["cg-oom-killed:1", "exitsig:9", "status:SG"])) }

theorem sent_wellFormed_killed :
    ∃ job log result, handleNewJob killedTestJob = .ok ⟨some job, log⟩ ∧
      killedTestJob.bindJSON = .ok result.job ∧ Sends (processJob killedTestJob job) result ∧
      result.WellFormed := by
  have haccepted : ∃ job log, handleNewJob killedTestJob = .ok ⟨some job, log⟩ := ⟨_, _, rfl⟩
  obtain ⟨job, log, hhandled⟩ := haccepted
  have hsandbox : killedTestJob.UsesIsolate exactSeconds := fun _ =>
    ⟨0, ⟨10 ^ 9, 2 ^ 20, 10 ^ 9⟩, .exited (.ok ["cg-oom-killed:1", "exitsig:9", "status:SG"]), rfl⟩
  obtain ⟨hrequest, result, hsends, hjob, hwell⟩ := sent_wellFormed hsandbox hhandled
  exact ⟨job, log, result, hhandled, hjob ▸ hrequest, hsends, hwell⟩

end TestingSystem
