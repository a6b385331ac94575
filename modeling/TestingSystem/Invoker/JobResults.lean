import TestingSystem.Invoker.JobLocks

/-!
# The result of a job

The invoker sends one result for every job that its sandbox threads process. Which one it is follows from
what the sandbox, the storage and the checker answer. A job succeeds if every step of its pipeline does
(`JobEnv.Compiles`, `JobEnv.Tests`), and then the result has the verdict and the statistics of the run.
Otherwise the result is `CF` with the error of a step.
-/

set_option autoImplicit false

namespace TestingSystem

open Fallible

variable {F : Type}

/-! ## When a job succeeds -/

/-- The keys of the files of a job. -/
def PipelineJob.cacheKey (job : PipelineJob) : CacheGetter → CacheKey
  | .source => { epoch := job.storageEpoch, resource := .sourceCode, submitID := job.submission.id }
  | .binary =>
    { epoch := job.storageEpoch, resource := .compiledBinary, submitID := job.submission.id }
  | .checker => { epoch := job.storageEpoch, resource := .checker, problemID := job.problem.id }
  | .interactor => { epoch := job.storageEpoch, resource := .interactor, submitID := job.submission.id }
  | .testInput =>
    { epoch := job.storageEpoch, resource := .testInput, problemID := job.problem.id
      testID := job.request.test }
  | .testAnswer =>
    { epoch := job.storageEpoch, resource := .testAnswer, problemID := job.problem.id
      testID := job.request.test }

namespace JobEnv

open PipelineM

variable (env : JobEnv F) (job : PipelineJob)

/-- The file comes from the storage and is copied into the sandbox. -/
def Provides (getter : CacheGetter) (dst : String) : Prop :=
  ∃ path, env.get getter (job.cacheKey getter) = .ok path ∧ env.openFile path = none ∧
    env.createSandboxFile dst = none

/-- The command runs in the sandbox. -/
def Executes (command : String) : Prop :=
  env.runnerThreadsClosed command = false ∧ (env.run command).err = none

/-- The source comes from the storage and is copied into the sandbox under its name. -/
def ProvidesSource : Prop :=
  ∃ path, env.get .source (job.cacheKey .source) = .ok path ∧ env.openFile path = none ∧
    env.createSandboxFile ("source_" ++ path.getLastD ".") = none

/-- The language is known and its script is written. -/
def ProvidesScript : Prop :=
  env.hasLanguage job.submission.language = true ∧
    (∃ path, env.get .source (job.cacheKey .source) = .ok path ∧
      env.generateScript job.submission.language ("source_" ++ path.getLastD ".")
        solutionBinaryFile = none) ∧
    env.writeScript = none

/-- The file is opened in the sandbox and sent to the storage. -/
def Stores (fileName : String) (resourceType : ResourceType) : Prop :=
  env.openSandboxFile fileName = none ∧ env.upload resourceType = none

end JobEnv

/-- The verdict of a compilation whose run has the given one. -/
def compilationVerdict : Verdict → Option Verdict
  | .OK => some .CD
  | .RT | .TL | .ML | .WL | .SE => some .CE
  | _ => none

/-- The verdict and the points in the answer of the checker. -/
def checkerOutcome (result : CheckerResultXML F) : Option (Verdict × Option F) :=
  match result.outcome with
  | "accepted" => some (.OK, none)
  | "wrong-answer" | "presentation-error" | "unexpected-eof" => some (.WA, none)
  | "fail" => some (.CF, none)
  | "points" | "relative-scoring" => result.points.map fun points => (.PT, some points)
  | _ => none

namespace JobEnv

open PipelineM

variable (env : JobEnv F) (job : PipelineJob)

/-- A compilation succeeds: it gives a binary, or an error message for the user. -/
structure Compiles : Prop where
  sandbox : env.initSandbox = none
  source : env.ProvidesSource job
  script : env.ProvidesScript job
  runs : env.Executes compileScriptFile
  verdict : (compilationVerdict (env.run compileScriptFile).verdict).isSome = true
  message : (env.run compileScriptFile).verdict = .OK ∨ (env.run compileScriptFile).verdict = .RT →
    env.openSandboxFile compilationMessageFile = none
  output : env.upload .compileOutput = none
  binary : (env.run compileScriptFile).verdict = .OK → env.Stores solutionBinaryFile .compiledBinary

/-- What the checker decides, after it was run. A stopped checker decides nothing. -/
def checked : Option (Verdict × Option F) :=
  match (env.run checkerBinaryFile).verdict with
  | .SK => some (.SK, none)
  | .OK | .RT =>
    if env.statSandboxFile checkResultFile = .exists ∧ env.openSandboxFile checkResultFile = none then
      match env.decodeCheckerResult with
      | .ok result => checkerOutcome result
      | .error _ => none
    else none
  | _ => none

/-- The checker decides the test. -/
structure Checks : Prop where
  checker : env.Provides job .checker checkerBinaryFile
  answer : env.Provides job .testAnswer testAnswerFile
  runs : env.Executes checkerBinaryFile
  decides : env.checked.isSome = true

/-- The verdict and the points of a test: those of the checker, if the run was `OK`. -/
def graded : Verdict × Option F :=
  if (env.run solutionBinaryFile).verdict = .OK then env.checked.getD (.CF, none)
  else ((env.run solutionBinaryFile).verdict, none)

/-- A test succeeds: the solution is run, checked if it ends well, and its output is stored if it is
checked. -/
structure Tests : Prop where
  sandbox : env.initSandbox = none
  binary : env.Provides job .binary solutionBinaryFile
  input : env.Provides job .testInput testInputFile
  runs : env.Executes solutionBinaryFile
  checks : (env.run solutionBinaryFile).verdict = .OK → env.Checks job
  output : (env.run solutionBinaryFile).verdict = .OK → env.graded.1 ≠ .SK →
    env.Stores testOutputFile .testOutput ∧ env.Stores testErrorFile .testStderr ∧
      env.upload .checkerOutput = none

end JobEnv

/-! ## The steps -/

/-- A job without its log and what it has deferred. -/
def PipelineJob.core (job : PipelineJob) : PipelineJob := { job with log := [], defers := [] }

/-- A pipeline without what it has deferred and logged, and without the name of the source. -/
def JobPipelineState.core (s : JobPipelineState F) : JobPipelineState F :=
  { s with
    job := s.job.core
    sourceName := ""
    defers := []
    finished := false }

namespace PipelineM

variable (env : JobEnv F) {c c' : JobPipelineState F} {C C' : Prop}

/-- In the case `C` the step changes the core from `c` to `c'`, and otherwise it returns an error. No
result is sent. -/
abbrev Steps (c : JobPipelineState F) (C : Prop) (c' : JobPipelineState F) (m : PipelineM F Unit) :
    Prop :=
  Decides (fun s => s.core = c) C (fun _ s => s.core = c') (fun s => s.sent = c.sent) m

theorem sent_of_core {s : JobPipelineState F} (h : s.core = c) : s.sent = c.sent := by
  rw [← h]
  rfl

theorem job_of_core {s : JobPipelineState F} (h : s.core = c) :
    s.job.request = c.job.request ∧ s.job.submission = c.job.submission ∧
      s.job.problem = c.job.problem ∧ s.job.storageEpoch = c.job.storageEpoch := by
  rw [← h]
  exact ⟨rfl, rfl, rfl, rfl⟩

theorem call_steps (text : String) (err : Option String) :
    Steps c (err = none) c (errorf text (.check err)) :=
  (Decides.check err fun _ => sent_of_core).wrapping _

theorem set_steps {f : JobPipelineState F → JobPipelineState F}
    (h : ∀ s, s.core = c → (f s).core = c') : Steps c True c' (modify f) :=
  .modify h

theorem Steps.bind {c'' : JobPipelineState F} {m : PipelineM F Unit} {k : Unit → PipelineM F Unit}
    (hm : Steps c C c' m) (hsent : c'.sent = c.sent) (hk : C → Steps c' C' c'' (k ())) :
    Steps c (C ∧ C') c'' (m >>= k) := by
  refine Decides.bind hm fun hC _ => ?_
  rw [← hsent]
  exact hk hC

theorem initSandbox_steps : Steps c (env.initSandbox = none) c (initSandbox env) := by
  refine (Steps.bind (call_steps _ _) rfl fun _ => set_steps ?_).iff (and_iff_left trivial)
  intro s hs
  exact hs

theorem openSandboxFile_steps (text fileName : String) :
    Steps c (env.openSandboxFile fileName = none) c (errorf text (openSandboxFile env fileName)) := by
  refine Decides.wrapping ?_ _
  refine (Steps.bind (.check _ fun _ => sent_of_core) rfl fun _ => set_steps ?_).iff
    (and_iff_left trivial)
  intro s hs
  exact hs

/-- The result of a command that is executed. -/
theorem runProcess_decides (text command : String) :
    Decides (fun s => s.core = c) (env.runnerThreadsClosed command = false)
      (fun result s => result = env.run command ∧ s.core = c) (fun s => s.sent = c.sent)
      (errorf text (runProcess env command)) := by
  refine Decides.wrapping (.ite ?_ ?_) _
  · intro hclosed
    refine (Decides.throw _ fun _ => sent_of_core).iff ?_
    rw [hclosed]
    simp
  · intro hopen
    refine (Decides.pure fun s hs => ⟨rfl, hs⟩).iff ?_
    simpa using hopen

/-- The three commands are executed in one way: the result is kept, and its error ends the pipeline. -/
theorem execute_steps (text text' command : String)
    (keep : RunResult → JobPipelineState F → JobPipelineState F)
    (hkeep : ∀ s, s.core = c → (keep (env.run command) s).core = c') (hsent : c'.sent = c.sent) :
    Steps c (env.Executes command) c' (do
      let result ← errorf text (runProcess env command)
      modify (keep result)
      errorf text' (.check result.err)) := by
  refine Decides.bind (runProcess_decides env text command) fun _ result => ?_
  refine Decides.of_state ?_
  rintro t ⟨rfl, ht⟩
  refine ((Steps.bind (c := c) (set_steps hkeep) hsent fun _ => call_steps text' _).pre ?_).iff
    (and_iff_right trivial)
  rintro s rfl
  exact ht

/-! ### Files of the storage -/

/-- `Get` of a file with its key. -/
theorem loadResource_decides (text : String) {getter : CacheGetter} {vals : List Nat}
    (hkey : getter.keyGen c.job.storageEpoch vals = .ok (c.job.cacheKey getter)) :
    Decides (fun s => s.core = c) (∃ path, env.get getter (c.job.cacheKey getter) = .ok path)
      (fun path s => env.get getter (c.job.cacheKey getter) = .ok path ∧ s.core = c)
      (fun s => s.sent = c.sent) (errorf text (loadResource env (getter, vals))) := by
  refine Decides.wrapping (.get_bind ?_) _
  intro t ht
  have hjob : t.job.key (getter, vals) = .ok (c.job.cacheKey getter) := by
    unfold PipelineJob.key
    rw [(job_of_core ht).2.2.2, hkey]
    rfl
  simp only [hjob]
  cases hget : env.get getter (c.job.cacheKey getter) with
  | error err =>
    refine (Decides.throw _ ?_).iff (iff_of_false not_false ?_)
    · rintro s rfl
      exact sent_of_core ht
    · rintro ⟨path, hpath⟩
      cases hpath
  | ok path =>
    refine (Decides.pure ?_).iff (iff_of_true trivial ⟨path, rfl⟩)
    rintro s rfl
    exact ⟨rfl, ht⟩

theorem copyFileToSandbox_steps (text : String) (src : List String) (dst : String) :
    Steps c (env.openFile src = none ∧ env.createSandboxFile dst = none) c
      (errorf text (copyFileToSandbox env src dst)) :=
  (Steps.bind (.check _ fun _ => sent_of_core) rfl
    fun _ => .check _ fun _ => sent_of_core).wrapping _

theorem loadFile_steps (name : String) {getter : CacheGetter} {vals : List Nat} (dst : String)
    (hkey : getter.keyGen c.job.storageEpoch vals = .ok (c.job.cacheKey getter)) :
    Steps c (env.Provides c.job getter dst) c (loadFile env name (getter, vals) dst) := by
  have hrest : ∀ path, Decides (fun s => env.get getter (c.job.cacheKey getter) = .ok path ∧ s.core = c)
      (env.Provides c.job getter dst) (fun _ s => s.core = c) (fun s => s.sent = c.sent)
      (errorf ("can not copy " ++ name ++ " to sandbox, error: ") (copyFileToSandbox env path dst)) := by
    intro path
    refine Decides.of_state ?_
    rintro t ⟨hpath, ht⟩
    refine ((copyFileToSandbox_steps (c := c) env _ path dst).pre ?_).iff ?_
    · rintro s rfl
      exact ht
    · unfold JobEnv.Provides
      constructor
      · intro hcopied
        exact ⟨path, hpath, hcopied⟩
      · rintro ⟨path', hpath', hcopied⟩
        obtain rfl := Except.ok.inj (hpath.symm.trans hpath')
        exact hcopied
  refine (Decides.bind (loadResource_decides env _ hkey) fun _ => hrest).iff
    (and_iff_right_of_imp ?_)
  rintro ⟨path, hpath, -⟩
  exact ⟨path, hpath⟩

theorem loadSolutionBinary_steps :
    Steps c (env.Provides c.job .binary solutionBinaryFile) c (loadSolutionBinary env) := by
  refine .get_bind ?_
  intro t ht
  refine (loadFile_steps env _ _ ?_).pre (by rintro s rfl; exact ht)
  rw [(job_of_core ht).2.1]
  rfl

theorem loadTestInput_steps :
    Steps c (env.Provides c.job .testInput testInputFile) c (loadTestInput env) := by
  refine .get_bind ?_
  intro t ht
  refine (loadFile_steps env _ _ ?_).pre (by rintro s rfl; exact ht)
  rw [(job_of_core ht).2.2.1, (job_of_core ht).1]
  rfl

theorem loadTestAnswerFile_steps :
    Steps c (env.Provides c.job .testAnswer testAnswerFile) c (loadTestAnswerFile env) := by
  refine .get_bind ?_
  intro t ht
  refine (loadFile_steps env _ _ ?_).pre (by rintro s rfl; exact ht)
  rw [(job_of_core ht).2.2.1, (job_of_core ht).1]
  rfl

theorem loadCheckerBinaryFile_steps :
    Steps c (env.Provides c.job .checker checkerBinaryFile) c (loadCheckerBinaryFile env) := by
  refine .get_bind ?_
  intro t ht
  refine (loadFile_steps env _ _ ?_).pre (by rintro s rfl; exact ht)
  rw [(job_of_core ht).2.2.1]
  rfl

theorem uploadOutput_steps (fileName : String) (resourceType : ResourceType) :
    Steps c (env.Stores fileName resourceType) c (uploadOutput env fileName resourceType) :=
  Steps.bind (openSandboxFile_steps env _ _) rfl fun _ => call_steps _ _

theorem uploadBinary_steps :
    Steps c (env.Stores solutionBinaryFile .compiledBinary) c (uploadBinary env) :=
  Steps.bind (openSandboxFile_steps env _ _) rfl fun _ => call_steps _ _

/-! ### Compilation -/

theorem loadSolutionSourceFile_decides :
    Decides (fun s => s.core = c) (env.ProvidesSource c.job)
      (fun _ s => (∃ path, env.get .source (c.job.cacheKey .source) = .ok path ∧
        s.sourceName = "source_" ++ path.getLastD ".") ∧ s.core = c)
      (fun s => s.sent = c.sent) (loadSolutionSourceFile env) := by
  refine .get_bind ?_
  intro t ht
  have hkey : CacheGetter.source.keyGen c.job.storageEpoch [t.job.submission.id] =
      .ok (c.job.cacheKey .source) := by
    rw [(job_of_core ht).2.1]
    rfl
  have hrest : ∀ path, Decides
      (fun s => env.get .source (c.job.cacheKey .source) = .ok path ∧ s.core = c)
      (env.ProvidesSource c.job)
      (fun _ s => (∃ path, env.get .source (c.job.cacheKey .source) = .ok path ∧
        s.sourceName = "source_" ++ path.getLastD ".") ∧ s.core = c)
      (fun s => s.sent = c.sent) (do
        modify fun s => { s with sourceName := "source_" ++ path.getLastD "." }
        errorf "can not copy submission source to sandbox, error: "
          (copyFileToSandbox env path ("source_" ++ path.getLastD "."))) := by
    intro path
    refine Decides.of_state ?_
    rintro t ⟨hpath, ht⟩
    -- the name stays while the file is copied
    have hcopy : Decides
        (fun s => s.sourceName = "source_" ++ path.getLastD "." ∧ s.core = c)
        (env.openFile path = none ∧ env.createSandboxFile ("source_" ++ path.getLastD ".") = none)
        (fun _ s => s.sourceName = "source_" ++ path.getLastD "." ∧ s.core = c)
        (fun s => s.sent = c.sent)
        (errorf "can not copy submission source to sandbox, error: "
          (copyFileToSandbox env path ("source_" ++ path.getLastD "."))) :=
      (Decides.bind (.check _ fun s hs => sent_of_core hs.2)
        fun _ _ => .check _ fun s hs => sent_of_core hs.2).wrapping _
    have hset : Decides (fun s => s = t) True
        (fun _ s => s.sourceName = "source_" ++ path.getLastD "." ∧ s.core = c)
        (fun s => s.sent = c.sent)
        (modify fun s => { s with sourceName := "source_" ++ path.getLastD "." } :
          PipelineM F Unit) := by
      refine .modify ?_
      rintro s rfl
      exact ⟨rfl, ht⟩
    refine ((Decides.bind hset fun _ _ => hcopy).post ?_).iff ?_
    · rintro _ s ⟨hname, hcore⟩
      exact ⟨⟨path, hpath, hname⟩, hcore⟩
    · rw [true_and]
      constructor
      · intro hcopied
        exact ⟨path, hpath, hcopied⟩
      · rintro ⟨path', hpath', hcopied⟩
        obtain rfl := Except.ok.inj (hpath.symm.trans hpath')
        exact hcopied
  refine (Decides.bind ((loadResource_decides env _ hkey).pre ?_) fun _ => hrest).iff
    (and_iff_right_of_imp ?_)
  · rintro s rfl
    exact ht
  · rintro ⟨path, hpath, -⟩
    exact ⟨path, hpath⟩

theorem setupCompileScript_decides :
    Decides
      (fun s => (∃ path, env.get .source (c.job.cacheKey .source) = .ok path ∧
        s.sourceName = "source_" ++ path.getLastD ".") ∧ s.core = c)
      (env.ProvidesScript c.job) (fun _ s => s.core = c) (fun s => s.sent = c.sent)
      (setupCompileScript env) := by
  refine .get_bind ?_
  rintro t ⟨⟨path, hpath, hname⟩, ht⟩
  have hpre : ∀ s, s = t → s.core = c := by
    rintro s rfl
    exact ht
  simp only [(job_of_core ht).2.1, hname]
  refine .ite ?_ ?_
  · intro hlanguage
    refine (Decides.throw _ fun s hs => sent_of_core (hpre s hs)).iff (iff_of_false not_false ?_)
    rintro ⟨hknown, -⟩
    rw [hknown] at hlanguage
    cases hlanguage
  · intro hlanguage
    refine ((Steps.bind (call_steps _ _) rfl fun _ => call_steps _ _).pre hpre).iff ?_
    have hknown : env.hasLanguage c.job.submission.language = true := by simpa using hlanguage
    constructor
    · rintro ⟨hscript, hwritten⟩
      exact ⟨hknown, ⟨path, hpath, hscript⟩, hwritten⟩
    · rintro ⟨-, ⟨path', hpath', hscript⟩, hwritten⟩
      obtain rfl := Except.ok.inj (hpath.symm.trans hpath')
      exact ⟨hscript, hwritten⟩

theorem executeCompilationCommand_steps :
    Steps c (env.Executes compileScriptFile) { c with compileResult := env.run compileScriptFile }
      (executeCompilationCommand env) := by
  refine execute_steps env _ _ _ (fun result s => { s with compileResult := result }) ?_ rfl
  rintro s rfl
  rfl

theorem setCompileVerdict_steps (verdict : Verdict) :
    Steps c True { c with compileResult := { c.compileResult with verdict := verdict } }
      (setCompileVerdict verdict) := by
  refine set_steps ?_
  rintro s rfl
  rfl

/-- A verdict that comes with a message of the compiler. -/
theorem setCompileVerdict_message (verdict : Verdict) :
    Steps c (env.openSandboxFile compilationMessageFile = none)
      { c with compileResult := { c.compileResult with verdict := verdict } } (do
        setCompileVerdict verdict
        openCompilationMessage env) := by
  refine (Steps.bind (setCompileVerdict_steps verdict) rfl fun _ => ?_).iff (and_iff_right trivial)
  exact openSandboxFile_steps env _ _

theorem processCompilationResult_steps {verdict : Verdict} (hrun : c.compileResult.verdict = verdict) :
    Steps c
      ((compilationVerdict verdict).isSome = true ∧
        (verdict = .OK ∨ verdict = .RT → env.openSandboxFile compilationMessageFile = none))
      { c with compileResult :=
          { c.compileResult with verdict := (compilationVerdict verdict).getD verdict } }
      (processCompilationResult env) := by
  refine .get_bind ?_
  intro t ht
  have hpre : ∀ s, s = t → s.core = c := by
    rintro s rfl
    exact ht
  have hverdict : t.compileResult.verdict = verdict := by
    rw [← hrun, ← ht]
    rfl
  rw [hverdict]
  cases verdict with
  | OK => exact ((setCompileVerdict_message env _).pre hpre).iff (by simp [compilationVerdict])
  | RT => exact ((setCompileVerdict_message env _).pre hpre).iff (by simp [compilationVerdict])
  | TL => exact ((setCompileVerdict_steps _).pre hpre).iff (by simp [compilationVerdict])
  | ML => exact ((setCompileVerdict_steps _).pre hpre).iff (by simp [compilationVerdict])
  | WL => exact ((setCompileVerdict_steps _).pre hpre).iff (by simp [compilationVerdict])
  | SE => exact ((setCompileVerdict_steps _).pre hpre).iff (by simp [compilationVerdict])
  | _ =>
    refine (Decides.throw _ fun s hs => sent_of_core (hpre s hs)).iff ?_
    simp [compilationVerdict]

theorem compilationProcessPipeline_steps :
    Steps c
      (env.initSandbox = none ∧ env.ProvidesSource c.job ∧ env.ProvidesScript c.job ∧
        env.Executes compileScriptFile ∧
        (compilationVerdict (env.run compileScriptFile).verdict).isSome = true ∧
        ((env.run compileScriptFile).verdict = .OK ∨ (env.run compileScriptFile).verdict = .RT →
          env.openSandboxFile compilationMessageFile = none))
      { c with compileResult :=
          { env.run compileScriptFile with
            verdict := (compilationVerdict (env.run compileScriptFile).verdict).getD
              (env.run compileScriptFile).verdict } }
      (compilationProcessPipeline env) := by
  refine Steps.bind (initSandbox_steps env) rfl fun _ => ?_
  refine Decides.bind (loadSolutionSourceFile_decides env) fun _ _ => ?_
  refine Decides.bind (setupCompileScript_decides env) fun _ _ => ?_
  refine Steps.bind (executeCompilationCommand_steps env) rfl fun _ => ?_
  exact processCompilationResult_steps env rfl

theorem uploadCompilationResources_steps :
    Steps c
      (env.upload .compileOutput = none ∧
        (c.compileResult.verdict = .CD → env.Stores solutionBinaryFile .compiledBinary))
      c (uploadCompilationResources env) := by
  refine Steps.bind (call_steps _ _) rfl fun _ => ?_
  refine .get_bind ?_
  intro t ht
  have hpre : ∀ s, s = t → s.core = c := by
    rintro s rfl
    exact ht
  have hverdict : t.compileResult = c.compileResult := by
    rw [← ht]
    rfl
  rw [hverdict]
  refine .ite ?_ ?_
  · intro hne
    exact (Decides.pure hpre).iff (iff_of_true trivial fun heq => absurd heq hne)
  · intro heq
    refine ((uploadBinary_steps env).pre hpre).iff ?_
    constructor
    · intro hstored _
      exact hstored
    · intro hstored
      exact hstored (not_not.1 heq)

/-! ### Tests -/

theorem executeTestRunCommand_steps :
    Steps c (env.Executes solutionBinaryFile) { c with runResult := env.run solutionBinaryFile }
      (executeTestRunCommand env) := by
  refine execute_steps env _ _ _ (fun result s => { s with runResult := result }) ?_ rfl
  rintro s rfl
  rfl

/-- The verdicts of the checker run with which the pipeline goes on. -/
def CheckerRan (verdict : Verdict) : Prop := verdict = .OK ∨ verdict = .RT ∨ verdict = .SK

/-- The verdict of the checker run is looked at. -/
theorem checkerRan_steps (verdict : Verdict) :
    Steps c (CheckerRan verdict) c
      (match verdict with
        | .OK | .RT | .SK => return ()
        | .TL => throw ("checker running took more than " ++ env.checkerLimit .TL ++ " time")
        | .ML => throw ("checker running took more than " ++ env.checkerLimit .ML ++ " memory")
        | .WL => throw ("checker running took more than " ++ env.checkerLimit .WL ++ " wall time")
        | .SE => throw "checker security violation"
        | verdict => throw ("unknown checker sandbox run verdict: " ++ verdictText verdict)) := by
  have hgoes : Steps c True c (return ()) := .pure fun _ hs => hs
  have hstops (text : String) : Steps c False c (throw text) := .throw text fun _ => sent_of_core
  unfold CheckerRan
  cases verdict with
  | OK => exact hgoes.iff (by simp)
  | RT => exact hgoes.iff (by simp)
  | SK => exact hgoes.iff (by simp)
  | _ => exact (hstops _).iff (by simp)

theorem executeCheckerRunCommand_steps :
    Steps c (env.Executes checkerBinaryFile ∧ CheckerRan (env.run checkerBinaryFile).verdict)
      { c with checkResult := env.run checkerBinaryFile } (executeCheckerRunCommand env) := by
  refine (Decides.bind (runProcess_decides env _ checkerBinaryFile) fun _ result =>
    Decides.of_state ?_).iff and_assoc.symm
  rintro t ⟨rfl, ht⟩
  have hset : Steps c True { c with checkResult := env.run checkerBinaryFile }
      (modify fun s => { s with checkResult := env.run checkerBinaryFile }) := by
    refine set_steps ?_
    rintro s rfl
    rfl
  refine ((Steps.bind hset rfl fun _ => Steps.bind (call_steps _ _) rfl fun _ =>
    checkerRan_steps env _).pre ?_).iff (and_iff_right trivial)
  rintro s rfl
  exact ht

/-- The pipeline with the verdict and the points of the checker. -/
def withGrade (c : JobPipelineState F) (grade : Verdict × Option F) : JobPipelineState F :=
  { c with runResult := { c.runResult with verdict := grade.1 }, points := grade.2 }

theorem setRunVerdict_steps (hpoints : c.points = none) (verdict : Verdict) :
    Steps c True (withGrade c (verdict, none)) (setRunVerdict verdict) := by
  refine set_steps ?_
  rintro s rfl
  have hnone : s.points = none := hpoints
  unfold withGrade JobPipelineState.core
  simp [hnone]

/-- The two outcomes with points. -/
theorem setPoints_steps (hpoints : c.points = none) (points : F) :
    Steps c True (withGrade c (.PT, some points)) (do
      setRunVerdict .PT
      modify fun s => { s with points := some points }) := by
  refine (Steps.bind (setRunVerdict_steps hpoints .PT) rfl fun _ => set_steps ?_).iff
    (and_iff_left trivial)
  intro s hs
  have hcore : ({ s with points := some points } : JobPipelineState F).core =
      { s.core with points := some points } := rfl
  rw [hcore, hs]
  rfl

/-- The points of an outcome with points may be missing. -/
theorem parsePoints_steps (hpoints : c.points = none) (points : Option F) (text : String) :
    Steps c (points.map fun p => (Verdict.PT, some p)).isSome
      (withGrade c ((points.map fun p => (Verdict.PT, some p)).getD (.CF, none)))
      (match points with
        | none => throw text
        | some points => do
          setRunVerdict .PT
          modify fun s => { s with points := some points }) := by
  cases points with
  | none => exact (Decides.throw _ fun _ => sent_of_core).iff (by simp)
  | some points => exact (setPoints_steps hpoints points).iff (by simp)

/-- The outcomes that `parseTestlibCheckerResult` knows. -/
def knownOutcomes : List String :=
  ["accepted", "wrong-answer", "presentation-error", "unexpected-eof", "fail", "points",
    "relative-scoring"]

theorem checkerOutcome_unknown {result : CheckerResultXML F} (h : result.outcome ∉ knownOutcomes) :
    checkerOutcome result = none := by
  unfold checkerOutcome
  split
  all_goals first
    | rfl
    | next heq => exact absurd (heq ▸ by decide) h

theorem parseTestlibCheckerResult_steps (hpoints : c.points = none) :
    Steps c
      ((if env.openSandboxFile checkResultFile = none then
          match env.decodeCheckerResult with
          | .ok result => checkerOutcome result
          | .error _ => none
        else none).isSome = true)
      (withGrade c ((if env.openSandboxFile checkResultFile = none then
          match env.decodeCheckerResult with
          | .ok result => checkerOutcome result
          | .error _ => none
        else none).getD (.CF, none)))
      (parseTestlibCheckerResult env) := by
  refine .get_bind ?_
  intro t ht
  have hpre : ∀ s, s = t → s.core = c := by
    rintro s rfl
    exact ht
  refine Decides.ite ?_ ?_
  · intro hopen
    rw [if_neg (by simpa using Option.ne_none_iff_isSome.2 hopen)]
    refine (Decides.throw _ fun s hs => sent_of_core (hpre s hs)).iff ?_
    simp
  · intro hopen
    rw [if_pos (by simpa using hopen)]
    cases env.decodeCheckerResult with
    | error err =>
      refine (Decides.throw _ fun s hs => sent_of_core (hpre s hs)).iff ?_
      simp
    | ok result =>
      obtain ⟨outcome, points⟩ := result
      by_cases hknown : outcome ∈ knownOutcomes
      · simp only [knownOutcomes, List.mem_cons, List.not_mem_nil, or_false] at hknown
        rcases hknown with rfl | rfl | rfl | rfl | rfl | rfl | rfl
        · exact ((setRunVerdict_steps hpoints _).pre hpre).iff (by simp [checkerOutcome])
        · exact ((setRunVerdict_steps hpoints _).pre hpre).iff (by simp [checkerOutcome])
        · exact ((setRunVerdict_steps hpoints _).pre hpre).iff (by simp [checkerOutcome])
        · exact ((setRunVerdict_steps hpoints _).pre hpre).iff (by simp [checkerOutcome])
        · exact ((setRunVerdict_steps hpoints _).pre hpre).iff (by simp [checkerOutcome])
        · exact (parsePoints_steps hpoints points _).pre hpre
        · exact (parsePoints_steps hpoints points _).pre hpre
      · dsimp only
        rw [checkerOutcome_unknown hknown]
        split
        all_goals first
          | exact absurd (by decide) hknown
          | exact (Decides.throw _ fun s hs => sent_of_core (hpre s hs)).iff (by simp)

theorem parseCheckerResult_steps (hpoints : c.points = none)
    (hcheck : c.checkResult = env.run checkerBinaryFile)
    (hran : CheckerRan (env.run checkerBinaryFile).verdict) :
    Steps c (env.checked.isSome = true) (withGrade c (env.checked.getD (.CF, none)))
      (parseCheckerResult env) := by
  refine .get_bind ?_
  intro t ht
  have hpre : ∀ s, s = t → s.core = c := by
    rintro s rfl
    exact ht
  have hverdict : t.checkResult.verdict = (env.run checkerBinaryFile).verdict := by
    rw [← hcheck, ← ht]
    rfl
  refine .ite ?_ ?_
  · intro hstopped
    have hchecked : env.checked = some (.SK, none) := by
      unfold JobEnv.checked
      rw [← hverdict, hstopped]
    rw [hchecked]
    exact ((setRunVerdict_steps hpoints _).pre hpre).iff (iff_of_true trivial rfl)
  · intro hstopped
    have hchecked : env.checked =
        if env.statSandboxFile checkResultFile = .exists ∧
          env.openSandboxFile checkResultFile = none then
          match env.decodeCheckerResult with
          | .ok result => checkerOutcome result
          | .error _ => none
        else none := by
      unfold JobEnv.checked
      rcases hran with hok | hrt | hsk
      · rw [hok]
      · rw [hrt]
      · exact absurd (hverdict.trans hsk) hstopped
    rw [hchecked]
    cases env.statSandboxFile checkResultFile with
    | «exists» =>
      simp only [true_and]
      exact (parseTestlibCheckerResult_steps env hpoints).pre hpre
    | notExist =>
      exact (Decides.throw _ fun s hs => sent_of_core (hpre s hs)).iff (by simp)
    | other =>
      exact (Decides.throw _ fun s hs => sent_of_core (hpre s hs)).iff (by simp)

theorem fullCheckPipeline_steps (hpoints : c.points = none) :
    Steps c (env.Checks c.job)
      (withGrade { c with checkResult := env.run checkerBinaryFile } (env.checked.getD (.CF, none)))
      (fullCheckPipeline env) := by
  let c' : JobPipelineState F := { c with checkResult := env.run checkerBinaryFile }
  refine (Steps.bind (loadCheckerBinaryFile_steps env) rfl fun _ =>
    Steps.bind (loadTestAnswerFile_steps env) rfl fun _ =>
    Steps.bind (executeCheckerRunCommand_steps env) rfl fun hran =>
    parseCheckerResult_steps (c := c') env hpoints rfl hran.2).iff ?_
  constructor
  · rintro ⟨hchecker, hanswer, ⟨hruns, -⟩, hdecides⟩
    exact ⟨hchecker, hanswer, hruns, hdecides⟩
  · rintro ⟨hchecker, hanswer, hruns, hdecides⟩
    refine ⟨hchecker, hanswer, ⟨hruns, ?_⟩, hdecides⟩
    -- a checker that decides was run to its end
    unfold CheckerRan
    unfold JobEnv.checked at hdecides
    split at hdecides
    · next hsk => exact .inr (.inr hsk)
    · next hok => exact .inl hok
    · next hrt => exact .inr (.inl hrt)
    · cases hdecides

/-- What is left of the core when the test has its verdict. -/
structure Graded (c s : JobPipelineState F) : Prop where
  job : s.core.job = c.job
  sent : s.sent = c.sent
  runResult : s.runResult = { env.run solutionBinaryFile with verdict := env.graded.1 }
  points : s.points = env.graded.2
  hasResources : s.hasResources = true ↔ (env.run solutionBinaryFile).verdict = .OK

theorem testingProcessPipeline_decides (hpoints : c.points = none) :
    Decides (fun s => s.core = c)
      (env.initSandbox = none ∧ env.Provides c.job .binary solutionBinaryFile ∧
        env.Provides c.job .testInput testInputFile ∧ env.Executes solutionBinaryFile ∧
        ((env.run solutionBinaryFile).verdict = .OK → env.Checks c.job))
      (fun _ s => Graded env c s) (fun s => s.sent = c.sent) (testingProcessPipeline env) := by
  have hran : Decides (fun s => s.core = { c with runResult := env.run solutionBinaryFile })
      ((env.run solutionBinaryFile).verdict = .OK → env.Checks c.job)
      (fun _ s => Graded env c s) (fun s => s.sent = c.sent) (do
        let s ← get
        if s.runResult.verdict ≠ .OK then modify fun s => { s with hasResources := false }
        else do
          modify fun s => { s with hasResources := true }
          fullCheckPipeline env) := by
    refine .get_bind ?_
    intro t ht
    have hverdict : t.runResult = env.run solutionBinaryFile := congrArg JobPipelineState.runResult ht
    rw [hverdict]
    refine .ite ?_ ?_
    · intro hne
      refine (Decides.modify ?_).iff (iff_of_true trivial fun heq => absurd heq hne)
      rintro s rfl
      have hjob := congrArg JobPipelineState.job ht
      have hsent := congrArg JobPipelineState.sent ht
      refine ⟨hjob, hsent, ?_, ?_, ?_⟩
      · unfold JobEnv.graded
        rw [if_neg hne]
        exact hverdict
      · unfold JobEnv.graded
        rw [if_neg hne]
        exact (congrArg JobPipelineState.points ht).trans hpoints
      · exact iff_of_false Bool.noConfusion hne
    · intro heq
      have hok := not_not.1 heq
      let c' : JobPipelineState F :=
        { c with runResult := env.run solutionBinaryFile, hasResources := true }
      have hset : Decides (fun s => s = t) True (fun _ s => s.core = c') (fun s => s.sent = c.sent)
          (modify fun s => { s with hasResources := true } : PipelineM F Unit) := by
        refine .modify ?_
        rintro s rfl
        exact congrArg (fun core => { core with hasResources := true }) ht
      refine ((Decides.bind hset fun _ _ =>
        fullCheckPipeline_steps (c := c') env hpoints).post ?_).iff ?_
      · rintro _ s hs
        have hgraded : env.graded = env.checked.getD (.CF, none) := by
          unfold JobEnv.graded
          rw [if_pos hok]
        have hjob := congrArg JobPipelineState.job hs
        have hsent := congrArg JobPipelineState.sent hs
        refine ⟨hjob, hsent, ?_, ?_, ?_⟩
        · rw [hgraded]
          exact congrArg JobPipelineState.runResult hs
        · rw [hgraded]
          exact congrArg JobPipelineState.points hs
        · exact iff_of_true (congrArg JobPipelineState.hasResources hs) hok
      · constructor
        · rintro ⟨-, hchecks⟩ _
          exact hchecks
        · intro hchecks
          exact ⟨trivial, hchecks hok⟩
  refine Decides.bind (initSandbox_steps env) fun _ _ => ?_
  refine Decides.bind (loadSolutionBinary_steps env) fun _ _ => ?_
  refine Decides.bind (loadTestInput_steps env) fun _ _ => ?_
  exact Decides.bind (executeTestRunCommand_steps env) fun _ _ => hran

theorem uploadTestRunResources_steps :
    Steps c
      (env.Stores testOutputFile .testOutput ∧ env.Stores testErrorFile .testStderr ∧
        env.upload .checkerOutput = none)
      c (uploadTestRunResources env) :=
  Steps.bind (uploadOutput_steps env _ _) rfl fun _ =>
    Steps.bind (uploadOutput_steps env _ _) rfl fun _ => call_steps _ _

end PipelineM

/-! ## Whole jobs -/

/-- `deferFunc` only changes the log and the deferred calls. -/
theorem PipelineJob.deferFunc_core {job job' : PipelineJob} (h : job.deferFunc = .ok job') :
    job'.core = job.core := by
  obtain ⟨job₁, hunlocks, hclear⟩ := bind_eq_ok.1 h
  cases hclear
  have hkeeps : ∀ (resources : List Resource) (job : PipelineJob),
      resources.foldlM PipelineJob.unlock job = .ok job₁ → job₁.core = job.core := by
    intro resources
    induction resources with
    | nil =>
      intro job hnone
      cases hnone
      rfl
    | cons resource resources ih =>
      intro job hsome
      obtain ⟨job₂, hunlock, hrest⟩ := bind_eq_ok.1 hsome
      obtain ⟨key, -, hrecord⟩ := bind_eq_ok.1 hunlock
      cases hrecord
      have hsame := ih _ hrest
      exact hsame
  exact hkeeps _ _ hunlocks

namespace JobPipelineState

variable {job : PipelineJob} {c s s' : JobPipelineState F}

theorem runDeferred_core {action : Deferred} (h : s.runDeferred action = .ok s') :
    s'.core = s.core := by
  cases action with
  | jobDefers =>
    obtain ⟨job', hjob, hset⟩ := bind_eq_ok.1 h
    cases hset
    have hcore := PipelineJob.deferFunc_core hjob
    unfold core
    dsimp only
    rw [hcore]
    rfl
  | metrics =>
    cases h
    rfl
  | cleanup =>
    cases h
    rfl
  | closeFile name =>
    cases h
    rfl

/-- `finish` keeps the request and the results of the runs. -/
theorem finish_core (h : s.finish = .ok s') : s'.core = s.core := by
  unfold finish at h
  split at h
  · cases h
  · obtain ⟨s₁, hran, hset⟩ := bind_eq_ok.1 h
    cases hset
    have hkeeps : ∀ (actions : List Deferred) (s : JobPipelineState F),
        actions.foldlM runDeferred s = .ok s₁ → s₁.core = s.core := by
      intro actions
      induction actions with
      | nil =>
        intro s hnone
        cases hnone
        rfl
      | cons action actions ih =>
        intro s hsome
        obtain ⟨s₂, hrun, hrest⟩ := bind_eq_ok.1 hsome
        rw [ih s₂ hrest, runDeferred_core hrun]
    have hsame := hkeeps _ _ hran
    exact hsame

/-- The result of a job whose step failed with this error. -/
def failResult (env : JobEnv F) (job : PipelineJob) (err : String) : InvokerJobResult F :=
  { job := job.request
    verdict := .CF
    error := "job " ++ job.request.id.repr ++ " error: " ++ err
    invokerStatus := env.getStatus }

/-- The result of a job that succeeded. -/
def successResult (env : JobEnv F) (job : PipelineJob) (runResult : RunResult) (points : Option F) :
    InvokerJobResult F :=
  { job := job.request
    verdict := runResult.verdict
    points := points
    statistics := some runResult.statistics
    invokerStatus := env.getStatus }

/-- The pipeline of the job has ended with one result. -/
def Sends (r : Except JobPanic (JobPipelineState F)) (result : InvokerJobResult F) : Prop :=
  ∃ s, r = .ok s ∧ s.finished = true ∧ s.sent = [result]

/-- A state of the pipeline of the job. -/
structure Running (job : PipelineJob) (s : JobPipelineState F) : Prop where
  defers : Defers (new job) s
  sent : s.sent = []

theorem Running.request (h : Running job s) : s.job.request = job.request := by
  obtain ⟨-, actions, -, -, hjob⟩ := h.defers
  rw [hjob]
  rfl

theorem Running.finish (hready : job.Ready) (h : Running job s) :
    ∃ s', s.finish = .ok s' ∧ s'.finished = true ∧ s'.job.request = job.request ∧ s'.sent = [] := by
  obtain ⟨s', hfinish, hsettled⟩ := (finish_settles hready h.defers).exists_value
  have hcore := finish_core hfinish
  have hrequest := congrArg (fun s => s.job.request) hcore
  have hsent := congrArg JobPipelineState.sent hcore
  exact ⟨s', hfinish, hsettled.finished, hrequest.trans h.request, hsent.trans h.sent⟩

theorem Running.failJob (hready : job.Ready) (env : JobEnv F) (h : Running job s) (err : String) :
    Sends (s.failJob env err) (failResult env job err) := by
  obtain ⟨s', hfinish, hfinished, hrequest, hsent⟩ := h.finish hready
  unfold JobPipelineState.failJob
  rw [hfinish]
  refine ⟨_, rfl, hfinished, ?_⟩
  unfold uploadJobResult failResult
  rw [hsent, hrequest]
  rfl

theorem Running.successJob (hready : job.Ready) (env : JobEnv F) (h : Running job s)
    (runResult : RunResult) (points : Option F) :
    Sends (s.successJob env runResult points) (successResult env job runResult points) := by
  obtain ⟨s', hfinish, hfinished, hrequest, hsent⟩ := h.finish hready
  unfold JobPipelineState.successJob
  rw [hfinish]
  refine ⟨_, rfl, hfinished, ?_⟩
  unfold uploadJobResult successResult
  rw [hsent, hrequest]
  rfl

/-- Steps with `orFail` go on in the case `C`, and otherwise the job fails. -/
theorem Running.orFail (hready : job.Ready) (env : JobEnv F)
    (next : JobPipelineState F → Except JobPanic (JobPipelineState F)) (h : Running job s)
    {steps : PipelineM F Unit} {Q : JobPipelineState F → Prop} {C : Prop}
    (hsteps : Decides (fun t => t.core = s.core) C (fun _ => Q) (fun t => t.sent = s.sent) steps)
    (hdefers : Within Defers steps) (hsent : ∀ t, Q t → t.sent = s.sent) :
    (C ∧ ∃ s', Running job s' ∧ Q s' ∧ s.orFail env steps next = next s') ∨
      (¬ C ∧ ∃ err, Sends (s.orFail env steps next) (failResult env job err)) := by
  rcases hsteps.within hdefers rfl with ⟨hC, _, s', hexec, hQ, hmoves⟩ | ⟨hC, err, s', hexec, hE, hmoves⟩
  · refine .inl ⟨hC, s', ?_, hQ, ?_⟩
    · exact ⟨IsTrans.trans _ _ _ h.defers hmoves, (hsent s' hQ).trans h.sent⟩
    · unfold JobPipelineState.orFail
      rw [hexec]
      rfl
  · have hrunning : Running job s' := ⟨IsTrans.trans _ _ _ h.defers hmoves, hE.trans h.sent⟩
    refine .inr ⟨hC, err, ?_⟩
    unfold JobPipelineState.orFail
    rw [hexec]
    exact hrunning.failJob hready env err

theorem Running.new (job : PipelineJob) : Running job (new job : JobPipelineState F) :=
  ⟨Std.Refl.refl _, rfl⟩

theorem Sends.checkFinish {r : Except JobPanic (JobPipelineState F)} {result : InvokerJobResult F}
    (h : Sends r result) : Sends (r >>= checkFinish) result := by
  obtain ⟨s, rfl, hfinished, hsent⟩ := h
  refine ⟨s, ?_, hfinished, hsent⟩
  rw [ok_bind]
  unfold JobPipelineState.checkFinish
  rw [if_pos hfinished]

end JobPipelineState

open JobPipelineState PipelineM

variable {env : JobEnv F} {job : PipelineJob}

/-- The result of the compiler with the verdict of the job. -/
def compiledResult (env : JobEnv F) : RunResult :=
  { env.run compileScriptFile with
    verdict := (compilationVerdict (env.run compileScriptFile).verdict).getD
      (env.run compileScriptFile).verdict }

/-- The verdict of a compilation that succeeds. -/
theorem compiledResult_cases (hknown : (compilationVerdict (env.run compileScriptFile).verdict).isSome) :
    (compiledResult env).verdict = .CD ∧ (env.run compileScriptFile).verdict = .OK ∨
      (compiledResult env).verdict = .CE ∧
        (env.run compileScriptFile).verdict ∈ [.RT, .TL, .ML, .WL, .SE] := by
  unfold compiledResult
  cases hrun : (env.run compileScriptFile).verdict with
  | OK => simp [compilationVerdict]
  | RT => simp [compilationVerdict]
  | TL => simp [compilationVerdict]
  | ML => simp [compilationVerdict]
  | WL => simp [compilationVerdict]
  | SE => simp [compilationVerdict]
  | _ =>
    rw [hrun] at hknown
    cases hknown

theorem compiledResult_eq_CD_iff (hknown : (compilationVerdict (env.run compileScriptFile).verdict).isSome) :
    (compiledResult env).verdict = .CD ↔ (env.run compileScriptFile).verdict = .OK := by
  rcases compiledResult_cases hknown with ⟨hCD, hok⟩ | ⟨hCE, hother⟩
  · exact iff_of_true hCD hok
  · refine iff_of_false ?_ ?_
    · rw [hCE]
      intro heq
      cases heq
    · intro hok
      rw [hok] at hother
      simp at hother

theorem fullCompilationPipeline_sends (hready : job.Ready) :
    (env.Compiles job ∧
        Sends (fullCompilationPipeline env job) (successResult env job (compiledResult env) none)) ∨
      (¬ env.Compiles job ∧
        ∃ err, Sends (fullCompilationPipeline env job) (failResult env job err)) := by
  -- the compilation, then the upload of what it has left
  let finish (s : JobPipelineState F) := s.successJob env s.compileResult none
  rcases (Running.new job).orFail hready env (orFail env (uploadCompilationResources env) finish)
      (compilationProcessPipeline_steps env) (compilationProcessPipeline_defers env)
      (fun _ => sent_of_core) with
    ⟨⟨hsandbox, hsource, hscript, hruns, hverdict, hmessage⟩, s, hrunning, hcore, heq⟩ |
      ⟨hnot, err, hsends⟩
  · have hresult : s.compileResult = compiledResult env := congrArg JobPipelineState.compileResult hcore
    rcases hrunning.orFail hready env finish (uploadCompilationResources_steps env)
        (uploadCompilationResources_defers env) (fun _ => sent_of_core) with
      ⟨⟨houtput, hbinary⟩, s', hrunning', hcore', heq'⟩ | ⟨hnot, err, hsends⟩
    · refine .inl ⟨⟨hsandbox, hsource, hscript, hruns, hverdict, hmessage, houtput, ?_⟩, ?_⟩
      · intro hok
        apply hbinary
        have hsame : s.core.compileResult = compiledResult env := hresult
        rw [hsame]
        exact (compiledResult_eq_CD_iff hverdict).2 hok
      · have hresult' : s'.compileResult = compiledResult env :=
          (congrArg JobPipelineState.compileResult hcore').trans hresult
        unfold fullCompilationPipeline
        rw [heq, heq', ← hresult']
        exact (hrunning'.successJob hready env s'.compileResult none).checkFinish
    · refine .inr ⟨?_, err, ?_⟩
      · intro hcompiles
        apply hnot
        refine ⟨hcompiles.output, ?_⟩
        intro hCD
        apply hcompiles.binary
        have hsame : s.core.compileResult = compiledResult env := hresult
        rw [hsame] at hCD
        exact (compiledResult_eq_CD_iff hverdict).1 hCD
      · unfold fullCompilationPipeline
        rw [heq]
        exact hsends.checkFinish
  · refine .inr ⟨?_, err, hsends.checkFinish⟩
    intro hcompiles
    exact hnot ⟨hcompiles.sandbox, hcompiles.source, hcompiles.script, hcompiles.runs,
      hcompiles.verdict, hcompiles.message⟩

/-- The result of the run with the verdict of the test. -/
def testedResult (env : JobEnv F) : RunResult :=
  { env.run solutionBinaryFile with verdict := env.graded.1 }

theorem checks_new : env.Checks (new job : JobPipelineState F).core.job ↔ env.Checks job :=
  ⟨fun h => ⟨h.checker, h.answer, h.runs, h.decides⟩, fun h => ⟨h.checker, h.answer, h.runs, h.decides⟩⟩

theorem fullTestingPipeline_sends (hready : job.Ready) :
    (env.Tests job ∧
        Sends (fullTestingPipeline env job) (successResult env job (testedResult env) env.graded.2)) ∨
      (¬ env.Tests job ∧ ∃ err, Sends (fullTestingPipeline env job) (failResult env job err)) := by
  let finish (s : JobPipelineState F) := s.successJob env s.runResult s.points
  let upload (s : JobPipelineState F) :=
    if s.hasResources ∧ s.runResult.verdict ≠ .SK then
      s.orFail env (uploadTestRunResources env) finish
    else finish s
  have hpoints : (new job : JobPipelineState F).core.points = none := rfl
  rcases (Running.new job).orFail hready env upload (testingProcessPipeline_decides env hpoints)
      (testingProcessPipeline_defers env) (fun _ hgraded => hgraded.sent) with
    ⟨⟨hsandbox, hbinary, hinput, hruns, hchecks⟩, s, hrunning, hgraded, heq⟩ | ⟨hnot, err, hsends⟩
  · have hresult : s.runResult = testedResult env := hgraded.runResult
    -- the output is stored if the solution was checked and the checker was not stopped
    have hstored : (s.hasResources = true ∧ s.runResult.verdict ≠ .SK) ↔
        (env.run solutionBinaryFile).verdict = .OK ∧ env.graded.1 ≠ .SK := by
      rw [hgraded.hasResources, hresult]
      rfl
    have hfinish : ∀ s' : JobPipelineState F, Running job s' → s'.runResult = s.runResult →
        s'.points = s.points →
        Sends (finish s') (successResult env job (testedResult env) env.graded.2) := by
      intro s' hrunning' hresult' hpoints'
      rw [← hresult, ← hgraded.points, ← hresult', ← hpoints']
      exact hrunning'.successJob hready env s'.runResult s'.points
    have htests : ((env.run solutionBinaryFile).verdict = .OK → env.graded.1 ≠ .SK →
        env.Stores testOutputFile .testOutput ∧ env.Stores testErrorFile .testStderr ∧
          env.upload .checkerOutput = none) → env.Tests job :=
      fun houtput =>
        ⟨hsandbox, hbinary, hinput, hruns, fun hok => checks_new.1 (hchecks hok), houtput⟩
    have hpipeline : fullTestingPipeline env job = upload s >>= checkFinish := by
      rw [← heq]
      rfl
    rw [hpipeline]
    by_cases hupload : s.hasResources = true ∧ s.runResult.verdict ≠ .SK
    · have huploads : upload s = s.orFail env (uploadTestRunResources env) finish := if_pos hupload
      rw [huploads]
      rcases hrunning.orFail hready env finish (uploadTestRunResources_steps env)
          (uploadTestRunResources_defers env) (fun _ => sent_of_core) with
        ⟨houtput, s', hrunning', hcore', heq'⟩ | ⟨hnot, err, hsends⟩
      · have hresult' := congrArg JobPipelineState.runResult hcore'
        have hpoints' := congrArg JobPipelineState.points hcore'
        rw [heq']
        exact .inl ⟨htests fun _ _ => houtput, (hfinish s' hrunning' hresult' hpoints').checkFinish⟩
      · refine .inr ⟨?_, err, hsends.checkFinish⟩
        intro hall
        obtain ⟨hok, hne⟩ := hstored.1 hupload
        exact hnot (hall.output hok hne)
    · have hnone : upload s = finish s := if_neg hupload
      rw [hnone]
      refine .inl ⟨htests fun hok hne => ?_, (hfinish s hrunning rfl rfl).checkFinish⟩
      exact absurd (hstored.2 ⟨hok, hne⟩) hupload
  · refine .inr ⟨?_, err, hsends.checkFinish⟩
    intro hall
    exact hnot ⟨hall.sandbox, hall.binary, hall.input, hall.runs,
      fun hok => checks_new.2 (hall.checks hok)⟩

/-! ## From the request to the result -/

namespace PipelineJob

variable {job job' : PipelineJob}

theorem lock_request {resource : Resource} (h : job.lock resource = .ok job') :
    job'.request = job.request := by
  obtain ⟨key, -, hlock⟩ := bind_eq_ok.1 h
  cases hlock
  rfl

variable (job) in
theorem found_request {Row : Type} (name : String) (id : Nat) (answer : Option DBError × Row) :
    (job.found name id answer).2.request = job.request := by
  unfold found
  split <;> rfl

theorem add_request : (job.add env).2.request = job.request := by
  unfold add
  split <;> rfl

variable (env job) in
theorem initJob_request : (initJob env job).2.request = job.request := by
  unfold initJob
  dsimp only
  split
  · next hfound =>
    rw [← congrArg Prod.snd hfound]
    exact found_request _ _ _ _
  · next hfound =>
    have hfirst := found_request { job with storageEpoch := env.getEpoch } "Submission"
      job.request.submitID (env.findSubmission job.request.submitID)
    rw [hfound] at hfirst
    split
    · next hfound' =>
      rw [← congrArg Prod.snd hfound', found_request]
      exact hfirst
    · next hfound' =>
      have hsecond := congrArg (fun answer => answer.2.request) hfound'
      rw [found_request] at hsecond
      exact hsecond.symm.trans hfirst

theorem newJob_request {accepted : Bool} (h : job.newJob env = .ok (accepted, job')) :
    job'.request = job.request := by
  unfold newJob at h
  split at h
  · obtain ⟨job₁, hlock, hadd⟩ := bind_eq_ok.1 h
    have hout := congrArg (fun out => out.2.request) (Except.ok.inj hadd)
    exact hout.symm.trans (add_request.trans (lock_request hlock))
  · unfold newTestJob at h
    split at h
    · cases h
      rfl
    · obtain ⟨job₁, hbinary, h⟩ := bind_eq_ok.1 h
      obtain ⟨job₂, hinput, h⟩ := bind_eq_ok.1 h
      obtain ⟨job₃, hanswer, h⟩ := bind_eq_ok.1 h
      obtain ⟨job₄, hchecker, hadd⟩ := bind_eq_ok.1 h
      have hout := congrArg (fun out => out.2.request) (Except.ok.inj hadd)
      rw [← lock_request hbinary, ← lock_request hinput, ← lock_request hanswer,
        ← lock_request hchecker]
      exact hout.symm.trans add_request
  · cases h
    rfl

end PipelineJob

/-- The accepted job is the one of the request. -/
theorem accepted_request {log : List InvokerJobEvent} (h : handleNewJob env = .ok ⟨some job, log⟩) :
    env.bindJSON = .ok job.request := by
  unfold handleNewJob at h
  split at h
  · cases h
  · next request hparsed =>
    split at h
    · cases h
    · next job₁ hinit =>
      obtain ⟨out, hnew, h⟩ := bind_eq_ok.1 h
      split at h
      · cases h
      · next job₂ =>
        cases h
        have hfirst := PipelineJob.initJob_request env { request := request }
        rw [hinit] at hfirst
        have hsecond := PipelineJob.newJob_request hnew
        rw [hparsed]
        exact congrArg _ (hfirst.symm.trans hsecond.symm)

theorem accepted_ready {log : List InvokerJobEvent} (h : handleNewJob env = .ok ⟨some job, log⟩) :
    job.Ready := by
  obtain ⟨handled, hhandled, hend⟩ := handleNewJob_ends env
  obtain rfl := Except.ok.inj (h.symm.trans hhandled)
  cases hend with
  | accepted htakes hopen hvalid hready => exact hready

/-- For every compile job that the invoker accepts it sends one result, about the job of the request. The
compilation succeeds exactly if every step does; the verdict is then `CD` or `CE` by the run of the
compiler. Otherwise the verdict is `CF` with the error of a step. -/
theorem compile_job_result {log : List InvokerJobEvent}
    (hhandled : handleNewJob env = .ok ⟨some job, log⟩) (htype : job.request.type = .compileJob) :
    env.bindJSON = .ok job.request ∧
      ((env.Compiles job ∧ Sends (processJob env job) (successResult env job (compiledResult env) none) ∧
          ((compiledResult env).verdict = .CD ∧ (env.run compileScriptFile).verdict = .OK ∨
            (compiledResult env).verdict = .CE ∧
              (env.run compileScriptFile).verdict ∈ [.RT, .TL, .ML, .WL, .SE])) ∨
        (¬ env.Compiles job ∧ ∃ err, Sends (processJob env job) (failResult env job err))) := by
  refine ⟨accepted_request hhandled, ?_⟩
  have hprocess : processJob env job = fullCompilationPipeline env job := by
    unfold processJob
    rw [htype]
  rw [hprocess]
  refine (fullCompilationPipeline_sends (accepted_ready hhandled)).imp_left ?_
  rintro ⟨hcompiles, hsends⟩
  exact ⟨hcompiles, hsends, compiledResult_cases hcompiles.verdict⟩

/-- A compile job on an invoker where everything works. -/
def openCompileJob : JobEnv Nat := { lateCompileJob with sandboxThreadsClosed := false }

theorem compile_job_result_compiled :
    ∃ job log, handleNewJob openCompileJob = .ok ⟨some job, log⟩ ∧
      Sends (processJob openCompileJob job)
        { job := { id := 1, submitID := 7, type := .compileJob }
          verdict := .CD
          statistics := some ⟨0, 0, 0, 0⟩
          invokerStatus := { maxNewJobs := 1, activeJobIDs := [], epoch := 0, address := "" } } := by
  have haccepted : ∃ job log, handleNewJob openCompileJob = .ok ⟨some job, log⟩ ∧
      job.request = { id := 1, submitID := 7, type := .compileJob } := ⟨_, _, rfl, rfl⟩
  obtain ⟨job, log, hhandled, hrequest⟩ := haccepted
  have hcompiles : openCompileJob.Compiles job := by
    refine ⟨rfl, ⟨_, rfl, rfl, rfl⟩, ⟨rfl, ⟨_, rfl, rfl⟩, rfl⟩, ⟨rfl, rfl⟩, rfl, ?_, rfl, ?_⟩
    · intro _
      rfl
    · intro _
      exact ⟨rfl, rfl⟩
  obtain ⟨-, ⟨-, hsends, -⟩ | ⟨hnot, -⟩⟩ := compile_job_result hhandled (by rw [hrequest])
  · refine ⟨job, log, hhandled, ?_⟩
    unfold successResult at hsends
    rw [hrequest] at hsends
    exact hsends
  · exact absurd hcompiles hnot

/-- The points are those of the outcomes with points. -/
theorem checkerOutcome_cases {result : CheckerResultXML F} {grade : Verdict × Option F}
    (h : checkerOutcome result = some grade) :
    grade.1 ∈ [.OK, .WA, .PT, .CF, .SK] ∧ (grade.2.isSome = true ↔ grade.1 = .PT) := by
  have hpoints : ∀ points : Option F,
      (points.map fun points => (Verdict.PT, some points)) = some grade →
        grade.1 ∈ [.OK, .WA, .PT, .CF, .SK] ∧ (grade.2.isSome = true ↔ grade.1 = .PT) := by
    intro points hmap
    obtain ⟨value, -, rfl⟩ := Option.map_eq_some_iff.1 hmap
    simp
  unfold checkerOutcome at h
  split at h
  · cases h
    simp
  · cases h
    simp
  · cases h
    simp
  · cases h
    simp
  · cases h
    simp
  · exact hpoints _ h
  · exact hpoints _ h
  · cases h

theorem JobEnv.checked_cases {grade : Verdict × Option F} (h : env.checked = some grade) :
    grade.1 ∈ [.OK, .WA, .PT, .CF, .SK] ∧ (grade.2.isSome = true ↔ grade.1 = .PT) := by
  have hparsed : (if env.statSandboxFile checkResultFile = .exists ∧
        env.openSandboxFile checkResultFile = none then
      match env.decodeCheckerResult with
      | .ok result => checkerOutcome result
      | .error _ => none
      else none) = some grade →
        grade.1 ∈ [.OK, .WA, .PT, .CF, .SK] ∧ (grade.2.isSome = true ↔ grade.1 = .PT) := by
    intro hgrade
    split at hgrade
    · split at hgrade
      · exact checkerOutcome_cases hgrade
      · cases hgrade
    · cases hgrade
  unfold checked at h
  split at h
  · cases h
    simp
  · exact hparsed h
  · exact hparsed h
  · cases h

/-- For every test job that the invoker accepts it sends one result, about the job of the request. The test
succeeds exactly if every step does, and then it has the verdict of the run, or that of the checker if the
run was `OK`; the points are there exactly with the verdict `PT`. Otherwise the verdict is `CF` with the
error of a step. -/
theorem test_job_result {log : List InvokerJobEvent}
    (hhandled : handleNewJob env = .ok ⟨some job, log⟩) (htype : job.request.type = .testJob) :
    env.bindJSON = .ok job.request ∧
      ((env.Tests job ∧ Sends (processJob env job) (successResult env job (testedResult env) env.graded.2) ∧
          ((env.run solutionBinaryFile).verdict = .OK →
            (testedResult env).verdict ∈ [.OK, .WA, .PT, .CF, .SK] ∧
              (env.graded.2.isSome = true ↔ (testedResult env).verdict = .PT)) ∧
          ((env.run solutionBinaryFile).verdict ≠ .OK →
            (testedResult env).verdict = (env.run solutionBinaryFile).verdict ∧ env.graded.2 = none)) ∨
        (¬ env.Tests job ∧ ∃ err, Sends (processJob env job) (failResult env job err))) := by
  refine ⟨accepted_request hhandled, ?_⟩
  have hprocess : processJob env job = fullTestingPipeline env job := by
    unfold processJob
    rw [htype]
  rw [hprocess]
  refine (fullTestingPipeline_sends (accepted_ready hhandled)).imp_left ?_
  rintro ⟨htests, hsends⟩
  refine ⟨htests, hsends, ?_, ?_⟩
  · intro hok
    have hdecides := (htests.checks hok).decides
    unfold testedResult JobEnv.graded
    rw [if_pos hok]
    obtain ⟨grade, hchecked⟩ := Option.isSome_iff_exists.1 hdecides
    rw [hchecked]
    exact JobEnv.checked_cases hchecked
  · intro hne
    unfold testedResult JobEnv.graded
    rw [if_neg hne]
    exact ⟨rfl, rfl⟩

/-- A test job whose checker gives points. -/
def openTestJob : JobEnv Nat :=
  { openCompileJob with
    bindJSON := .ok { id := 2, submitID := 7, type := .testJob, test := 5 }
    decodeCheckerResult := .ok { outcome := "points", points := some 30 } }

theorem test_job_result_points :
    ∃ job log, handleNewJob openTestJob = .ok ⟨some job, log⟩ ∧
      Sends (processJob openTestJob job)
        { job := { id := 2, submitID := 7, type := .testJob, test := 5 }
          verdict := .PT
          points := some 30
          statistics := some ⟨0, 0, 0, 0⟩
          invokerStatus := { maxNewJobs := 1, activeJobIDs := [], epoch := 0, address := "" } } := by
  have haccepted : ∃ job log, handleNewJob openTestJob = .ok ⟨some job, log⟩ ∧
      job.request = { id := 2, submitID := 7, type := .testJob, test := 5 } := ⟨_, _, rfl, rfl⟩
  obtain ⟨job, log, hhandled, hrequest⟩ := haccepted
  have htests : openTestJob.Tests job := by
    refine ⟨rfl, ⟨_, rfl, rfl, rfl⟩, ⟨_, rfl, rfl, rfl⟩, ⟨rfl, rfl⟩, ?_, ?_⟩
    · intro _
      exact ⟨⟨_, rfl, rfl, rfl⟩, ⟨_, rfl, rfl, rfl⟩, ⟨rfl, rfl⟩, by decide⟩
    · intro _ _
      exact ⟨⟨rfl, rfl⟩, ⟨rfl, rfl⟩, rfl⟩
  have hgraded : openTestJob.graded = (.PT, some 30) := by decide
  obtain ⟨-, ⟨-, hsends, -⟩ | ⟨hnot, -⟩⟩ := test_job_result hhandled (by rw [hrequest])
  · refine ⟨job, log, hhandled, ?_⟩
    unfold successResult testedResult at hsends
    rw [hrequest, hgraded] at hsends
    exact hsends
  · exact absurd htests hnot

end TestingSystem
