import TestingSystem.Invoker.JobPipeline
import TestingSystem.Lib.Brackets

/-!
# The locks of a job are released

A job that the sandbox threads accept releases every lock that was taken for it: its pipeline calls
`finish` once, on each of its ends, and `finish` runs what was deferred in reverse order. If
`SandboxThreads.add` refuses the job, nothing runs the deferred `Unlock`s.
-/

set_option autoImplicit false

namespace TestingSystem

/-! ## Logs -/

namespace InvokerJobEvent

@[simp] def lock? : InvokerJobEvent → Option (CacheGetter × CacheKey)
  | .lock getter key => some (getter, key)
  | _ => none

@[simp] def unlock? : InvokerJobEvent → Option (CacheGetter × CacheKey)
  | .unlock getter key => some (getter, key)
  | _ => none

@[simp] def deferred? : InvokerJobEvent → Option Deferred
  | .deferred action => some action
  | _ => none

@[simp] def ran? : InvokerJobEvent → Option Deferred
  | .ran action => some action
  | _ => none

end InvokerJobEvent

open InvokerJobEvent

/-- Every lock is released by exactly one later unlock of the same key. -/
abbrev LocksReleased (log : List InvokerJobEvent) : Prop := Balanced lock? unlock? log

/-- `finish` was called once, and what was deferred was run once, in reverse order: the functions of the
pipeline and the unlocks of the job. -/
structure FinishedOnce (log : List InvokerJobEvent) : Prop where
  finish : log.count .finish = 1
  ran : log.filterMap ran? = (log.filterMap deferred?).reverse
  unlocks : log.filterMap unlock? = (log.filterMap lock?).reverse

/-- A job of a known type, and with a test of the problem. -/
def Job.Valid (request : Job) (testsNumber : Nat) : Prop :=
  request.type = .compileJob ∨ request.type = .testJob ∧ 0 < request.test ∧ request.test ≤ testsNumber

/-- The handler locks the resources of a job: the request is parsed, the database answers and the job
is valid. -/
structure JobEnv.TakesLocks {F : Type} (env : JobEnv F) (request : Job) : Prop where
  parsed : env.bindJSON = .ok request
  submission : ∀ text, (env.findSubmission request.submitID).1 ≠ some (.other text)
  problem : ∀ text,
    (env.findProblem (env.findSubmission request.submitID).2.problemID).1 ≠ some (.other text)
  valid : request.Valid
    (env.findProblem (env.findSubmission request.submitID).2.problemID).2.testsNumber

variable {F : Type} {env : JobEnv F}

/-! ## The handler -/

namespace PipelineJob

variable {job job' : PipelineJob}

/-- The lock that a deferred `Unlock` releases. -/
def held (storageEpoch : Nat) (resource : Resource) : Except JobPanic (CacheGetter × CacheKey) :=
  ((resource.1.keyGen storageEpoch resource.2).mapError .storage).map (resource.1, ·)

/-- What the handler keeps: the deferred unlocks are those of the locks in the log, and nothing else has
happened than answers to the request. -/
structure Ready (job : PipelineJob) : Prop where
  locks : job.defers.map (held job.storageEpoch) = (job.log.filterMap lock?).map .ok
  unlocks : job.log.filterMap unlock? = []
  deferred : job.log.filterMap deferred? = []
  ran : job.log.filterMap ran? = []
  finish : job.log.count .finish = 0

namespace Ready

theorem new {job : PipelineJob} (hdefers : job.defers = []) (hlog : job.log = []) : job.Ready := by
  constructor <;> simp [hdefers, hlog]

/-- One more event, which is no end of anything and at most takes a lock. -/
theorem event (h : job.Ready) {event : InvokerJobEvent} (hlog : job'.log = job.log ++ [event])
    (hquiet : unlock? event = none ∧ deferred? event = none ∧ ran? event = none ∧ event ≠ .finish)
    (hlocks : job'.defers.map (held job'.storageEpoch) = (job'.log.filterMap lock?).map .ok) :
    job'.Ready := by
  obtain ⟨hunlock, hdeferred, hran, hfinish⟩ := hquiet
  refine ⟨hlocks, ?_, ?_, ?_, ?_⟩
  all_goals rw [hlog]
  · rw [List.filterMap_append, h.unlocks, List.filterMap_cons_none hunlock]
    rfl
  · rw [List.filterMap_append, h.deferred, List.filterMap_cons_none hdeferred]
    rfl
  · rw [List.filterMap_append, h.ran, List.filterMap_cons_none hran]
    rfl
  · rw [List.count_append, h.finish, List.count_singleton]
    simpa using hfinish

/-- An answer to the request. -/
theorem respErr (h : job.Ready) (code : Nat) (text : String) :
    (job.record (.respErr code text)).Ready :=
  h.event rfl ⟨rfl, rfl, rfl, nofun⟩ (by simpa [record, List.filterMap_cons] using h.locks)

theorem respOK (h : job.Ready) : (job.record .respOK).Ready :=
  h.event rfl ⟨rfl, rfl, rfl, nofun⟩ (by simpa [record, List.filterMap_cons] using h.locks)

theorem lock (h : job.Ready) {resource : Resource} (hl : job.lock resource = .ok job') :
    job'.Ready := by
  obtain ⟨key, hkey, hjob⟩ := bind_eq_ok.1 hl
  cases hjob
  have hheld : held job.storageEpoch resource = .ok (resource.1, key) := by
    unfold PipelineJob.key at hkey
    rw [held, hkey]
    rfl
  exact h.event rfl ⟨rfl, rfl, rfl, nofun⟩ (by simp [record, h.locks, hheld])

theorem no_locks (h : job.Ready) (hdefers : job.defers = []) : job.log.filterMap lock? = [] := by
  have hlocks := h.locks
  rw [hdefers] at hlocks
  exact List.map_eq_nil_iff.1 hlocks.symm

theorem some_lock (h : job.Ready) (hdefers : job.defers ≠ []) : job.log.filterMap lock? ≠ [] := by
  intro hnone
  have hlocks := h.locks
  rw [hnone] at hlocks
  exact hdefers (List.map_eq_nil_iff.1 hlocks)

end Ready

/-- `found` fails on an error of the database that is not about the record. -/
theorem Ready.found (h : job.Ready) {Row : Type} (name : String) (id : Nat)
    (answer : Option DBError × Row) : ∃ log, Ready { job with log := log } ∧
      (job.found name id answer = (none, { job with log := log }) ∧
          (∃ text, answer.1 = some (.other text)) ∨
        job.found name id answer = (some answer.2, { job with log := log }) ∧
          ∀ text, answer.1 ≠ some (.other text)) := by
  obtain ⟨err, row⟩ := answer
  match err with
  | none => exact ⟨job.log, h, .inr ⟨rfl, nofun⟩⟩
  | some .recordNotFound => exact ⟨_, h.respErr .., .inr ⟨rfl, nofun⟩⟩
  | some (.other text) => exact ⟨_, h.respErr .., .inl ⟨rfl, text, rfl⟩⟩

/-- What `initJob` leaves: no lock is taken yet. -/
structure Begun (env : JobEnv F) (request : Job) (begun : Bool × PipelineJob) : Prop where
  ready : begun.2.Ready
  defers : begun.2.defers = []
  same : begun.2.request = request
  answered : begun.1 = true ↔
    (∀ text, (env.findSubmission request.submitID).1 ≠ some (.other text)) ∧
    ∀ text, (env.findProblem (env.findSubmission request.submitID).2.problemID).1 ≠
      some (.other text)
  problem : begun.1 = true →
    begun.2.problem = (env.findProblem (env.findSubmission request.submitID).2.problemID).2

theorem initJob_begun (env : JobEnv F) (request : Job) :
    Begun env request (initJob env { request := request }) := by
  have hnew : Ready { request := request, storageEpoch := env.getEpoch } := .new rfl rfl
  obtain ⟨log, hready, ⟨heq, text, herr⟩ | ⟨heq, hsubmission⟩⟩ :=
    hnew.found "Submission" request.submitID (env.findSubmission request.submitID)
  · simp only [initJob, heq]
    exact ⟨hready, rfl, rfl, ⟨nofun, fun h => absurd herr (h.1 text)⟩, nofun⟩
  · let submission := (env.findSubmission request.submitID).2
    have hready' : Ready { request, submission, storageEpoch := env.getEpoch, log } :=
      ⟨hready.locks, hready.unlocks, hready.deferred, hready.ran, hready.finish⟩
    obtain ⟨log', hready', ⟨heq', text, herr⟩ | ⟨heq', hproblem⟩⟩ :=
      hready'.found "Problem" submission.problemID (env.findProblem submission.problemID)
    · simp only [initJob, heq, submission] at heq' ⊢
      simp only [heq']
      exact ⟨hready', rfl, rfl, ⟨nofun, fun h => absurd herr (h.2 text)⟩, nofun⟩
    · simp only [initJob, heq, submission] at heq' ⊢
      simp only [heq']
      exact ⟨⟨hready'.locks, hready'.unlocks, hready'.deferred, hready'.ran, hready'.finish⟩, rfl, rfl,
        ⟨fun _ => ⟨hsubmission, hproblem⟩, fun _ => rfl⟩, fun _ => rfl⟩

/-- `newJob` takes the locks of a valid job only, and gives the job to the sandbox threads unless they are
closed. -/
inductive Locked (env : JobEnv F) (job : PipelineJob) : Bool × PipelineJob → Prop where
  | rejected {job' : PipelineJob} (hvalid : ¬ job.request.Valid job.problem.testsNumber)
    (hready : job'.Ready) (hdefers : job'.defers = []) : Locked env job (false, job')
  | refused {job' : PipelineJob} (hvalid : job.request.Valid job.problem.testsNumber)
    (hready : job'.Ready) (hdefers : job'.defers ≠ []) (hclosed : env.sandboxThreadsClosed = true) :
    Locked env job (false, job')
  | added {job' : PipelineJob} (hvalid : job.request.Valid job.problem.testsNumber)
    (hready : job'.Ready) (hsame : job'.request = job.request)
    (hopen : env.sandboxThreadsClosed = false) : Locked env job (true, job')

/-- The end of `newCompileJob` and `newTestJob`. -/
theorem Ready.add (h : job'.Ready) (hvalid : job.request.Valid job.problem.testsNumber)
    (hdefers : job'.defers ≠ []) (hsame : job'.request = job.request) :
    Locked env job (job'.add env) := by
  unfold PipelineJob.add
  by_cases hclosed : env.sandboxThreadsClosed = true
  · rw [if_pos hclosed]
    exact .refused hvalid (h.respErr ..) hdefers hclosed
  · rw [if_neg hclosed]
    exact .added hvalid h hsame (Bool.eq_false_iff.2 hclosed)

theorem newJob_locked (env : JobEnv F) (h : job.Ready) (hdefers : job.defers = []) :
    ∃ out, job.newJob env = .ok out ∧ Locked env job out := by
  unfold newJob
  cases htype : job.request.type with
  | other value =>
    refine ⟨_, rfl, .rejected ?_ (h.respErr ..) hdefers⟩
    rintro (hcompile | ⟨htest, -⟩)
    · exact nomatch htype.symm.trans hcompile
    · exact nomatch htype.symm.trans htest
  | compileJob =>
    have hlock := h.lock (show job.lock (.source, [job.submission.id]) = .ok _ from rfl)
    exact ⟨_, rfl, hlock.add (.inl htype) (by simp) rfl⟩
  | testJob =>
    show ∃ out, job.newTestJob env = .ok out ∧ _
    unfold newTestJob
    by_cases hrange : job.request.test ≤ 0 ∨ job.request.test > job.problem.testsNumber
    · rw [if_pos hrange]
      refine ⟨_, rfl, .rejected ?_ (h.respErr ..) hdefers⟩
      rintro (hcompile | ⟨-, hpos, hle⟩)
      · exact nomatch htype.symm.trans hcompile
      · omega
    · rw [if_neg hrange]
      have hbinary := h.lock (show job.lock (.binary, [job.submission.id]) = .ok _ from rfl)
      have hinput := hbinary.lock
        (show PipelineJob.lock _ (.testInput, [job.problem.id, job.request.test]) = .ok _ from rfl)
      have hanswer := hinput.lock
        (show PipelineJob.lock _ (.testAnswer, [job.problem.id, job.request.test]) = .ok _ from rfl)
      have hchecker := hanswer.lock
        (show PipelineJob.lock _ (.checker, [job.problem.id]) = .ok _ from rfl)
      refine ⟨_, rfl, hchecker.add (.inr ⟨htype, ?_, ?_⟩) (by simp) rfl⟩ <;> omega

/-- The job as the storage sees it. -/
def stored (job : PipelineJob) : InvokerJob where
  type := job.request.type
  test := job.request.test
  submissionID := job.submission.id
  problemID := job.problem.id
  testsNumber := job.problem.testsNumber
  storageEpoch := job.storageEpoch
  defers := job.defers.reverse
  stage := .rejected

@[simp] theorem add_defers (env : JobEnv F) (job : PipelineJob) :
    (job.add env).2.defers = job.defers := by
  unfold PipelineJob.add
  split <;> rfl

/-- The locks are those that the runs of the storage assume. -/
theorem newJob_resources (env : JobEnv F) (hdefers : job.defers = []) :
    ∃ out, job.newJob env = .ok out ∧ out.2.defers = job.stored.newJob.getD [] := by
  unfold newJob InvokerJob.newJob stored
  cases htype : job.request.type with
  | other value => exact ⟨_, rfl, hdefers⟩
  | compileJob => exact ⟨_, rfl, by simp [record, hdefers]⟩
  | testJob =>
    show ∃ out, job.newTestJob env = .ok out ∧ _
    unfold newTestJob
    by_cases hrange : job.request.test ≤ 0 ∨ job.request.test > job.problem.testsNumber
    · rw [if_pos hrange, if_pos hrange]
      exact ⟨_, rfl, hdefers⟩
    · rw [if_neg hrange, if_neg hrange]
      exact ⟨_, rfl, by simp [record, hdefers]⟩

end PipelineJob

/-- How `handleNewJob` ends. -/
inductive HandlerEnd (env : JobEnv F) : Handled → Prop where
  | rejected {log : List InvokerJobEvent} (hnone : ∀ request, ¬ env.TakesLocks request)
    (hlocks : log.filterMap lock? = []) (hunlocks : log.filterMap unlock? = []) :
    HandlerEnd env ⟨none, log⟩
  | refused {log : List InvokerJobEvent} {request : Job} (htakes : env.TakesLocks request)
    (hclosed : env.sandboxThreadsClosed = true) (hlocks : log.filterMap lock? ≠ [])
    (hunlocks : log.filterMap unlock? = []) : HandlerEnd env ⟨none, log⟩
  | accepted {job : PipelineJob} {request : Job} {testsNumber : Nat}
    (htakes : env.TakesLocks request) (hopen : env.sandboxThreadsClosed = false)
    (hvalid : job.request.Valid testsNumber) (hready : job.Ready) :
    HandlerEnd env ⟨some job, job.log⟩

theorem handleNewJob_ends (env : JobEnv F) :
    ∃ handled, handleNewJob env = .ok handled ∧ HandlerEnd env handled := by
  unfold handleNewJob
  cases hparse : env.bindJSON with
  | error e => exact ⟨_, rfl, .rejected (fun request h => nomatch hparse.symm.trans h.parsed) rfl rfl⟩
  | ok request =>
    have hbegun := PipelineJob.initJob_begun env request
    have hparsed : ∀ request', env.TakesLocks request' → env.TakesLocks request := fun request' h =>
      Except.ok.inj (h.parsed.symm.trans hparse) ▸ h
    simp only
    generalize PipelineJob.initJob env { request := request } = begun at hbegun ⊢
    obtain ⟨answered, job⟩ := begun
    have hlocks := hbegun.ready.no_locks hbegun.defers
    cases answered with
    | false =>
      -- a record could not be read
      refine ⟨_, rfl, .rejected (fun request' h => ?_) hlocks hbegun.ready.unlocks⟩
      have htakes := hparsed request' h
      exact nomatch hbegun.answered.2 ⟨htakes.submission, htakes.problem⟩
    | true =>
      have hvalid : env.TakesLocks request ↔ job.request.Valid job.problem.testsNumber := by
        obtain ⟨hsubmission, hproblem⟩ := hbegun.answered.1 rfl
        rw [hbegun.same, hbegun.problem rfl]
        exact ⟨fun h => h.valid, fun h => ⟨hparse, hsubmission, hproblem, h⟩⟩
      obtain ⟨out, hnew, hlocked⟩ := PipelineJob.newJob_locked env hbegun.ready hbegun.defers
      simp only [hnew, ok_bind]
      cases hlocked with
      | rejected hnot hready hdefers =>
        refine ⟨_, rfl, .rejected (fun request' h => ?_) (hready.no_locks hdefers) hready.unlocks⟩
        exact hnot (hvalid.1 (hparsed request' h))
      | refused hvalid' hready hdefers hclosed =>
        exact ⟨_, rfl, .refused (hvalid.2 hvalid') hclosed (hready.some_lock hdefers) hready.unlocks⟩
      | added hvalid' hready hsame hopen =>
        exact ⟨_, rfl, .accepted (hvalid.2 hvalid') hopen (hsame ▸ hvalid') hready.respOK⟩

/-! ## The steps of a pipeline -/

namespace JobPipelineState

variable {s s' : JobPipelineState F}

/-- What the steps of a pipeline do to the deferred functions: they append others than `deferFunc`. -/
def Defers (s s' : JobPipelineState F) : Prop :=
  s'.finished = s.finished ∧ ∃ actions, .jobDefers ∉ actions ∧ s'.defers = s.defers ++ actions ∧
    s'.job = { s.job with log := s.job.log ++ actions.map .deferred }

instance : Std.Refl (Defers (F := F)) := ⟨fun s => ⟨rfl, [], by simp, by simp, by simp⟩⟩

instance : IsTrans (JobPipelineState F) Defers where
  trans s t u hst htu := by
    obtain ⟨hfinished, actions, hnot, hdefers, hjob⟩ := hst
    obtain ⟨hfinished', actions', hnot', hdefers', hjob'⟩ := htu
    refine ⟨hfinished'.trans hfinished, actions ++ actions', ?_, ?_, ?_⟩
    · exact fun hmem => (List.mem_append.1 hmem).elim hnot hnot'
    · rw [hdefers', hdefers, List.append_assoc]
    · rw [hjob', hjob, List.map_append, List.append_assoc]

theorem Defers.defer (s : JobPipelineState F) {action : Deferred} (h : action ≠ .jobDefers) :
    Defers s (s.defer action) :=
  ⟨rfl, [action], by simp [h.symm], rfl, rfl⟩

/-- A step that changes other fields. -/
theorem Defers.of_eq (hfinished : s'.finished = s.finished) (hdefers : s'.defers = s.defers)
    (hjob : s'.job = s.job) : Defers s s' :=
  ⟨hfinished, [], by simp, by simp [hdefers], by simp [hjob]⟩

end JobPipelineState

namespace PipelineM

open JobPipelineState Fallible

variable (env : JobEnv F)

theorem set_defers {f : JobPipelineState F → JobPipelineState F}
    (h : ∀ s, (f s).finished = s.finished ∧ (f s).defers = s.defers ∧ (f s).job = s.job) :
    Within Defers (modify f : PipelineM F Unit) :=
  .modify fun s => .of_eq (h s).1 (h s).2.1 (h s).2.2

theorem errorf_defers {α : Type} {m : PipelineM F α} (h : Within Defers m) (text : String) :
    Within Defers (errorf text m) := h.wrapping _

/-- The error of a call. -/
theorem call_defers (text : String) (err : Option String) :
    Within Defers (errorf text (.check err) : PipelineM F Unit) := errorf_defers (.check err) text

theorem initSandbox_defers : Within Defers (initSandbox env) :=
  .bind (call_defers _ _) fun _ => .modify fun s => .defer s (by simp)

theorem runProcess_defers (text command : String) :
    Within Defers (errorf text (runProcess env command)) :=
  errorf_defers (.ite (.throw _) (.pure _)) text

theorem openSandboxFile_defers (text fileName : String) :
    Within Defers (errorf text (openSandboxFile env fileName)) :=
  errorf_defers (.bind (.check _) fun _ => .modify fun s => .defer s (by simp)) text

theorem copyFileToSandbox_defers (text : String) (src : List String) (dst : String) :
    Within Defers (errorf text (copyFileToSandbox env src dst)) :=
  errorf_defers (.bind (.check _) fun _ => .check _) text

/-- `Get` is called with as many values as the key has. -/
theorem loadResource_defers (text : String) {resource : Resource}
    (hkey : ∀ epoch, ∃ key, resource.1.keyGen epoch resource.2 = .ok key) :
    Within Defers (errorf text (loadResource env resource)) := by
  refine errorf_defers (.get_bind fun s => ?_) text
  obtain ⟨key, hkey⟩ := hkey s.job.storageEpoch
  have hjob : s.job.key resource = .ok key := by
    unfold PipelineJob.key
    rw [hkey]
    rfl
  simp only [hjob]
  cases env.get resource.1 key with
  | error err => exact .throw err
  | ok path => exact .pure path

theorem loadFile_defers (name : String) {resource : Resource} (dst : String)
    (hkey : ∀ epoch, ∃ key, resource.1.keyGen epoch resource.2 = .ok key) :
    Within Defers (loadFile env name resource dst) :=
  .bind (loadResource_defers env _ hkey) fun _ => copyFileToSandbox_defers env _ _ _

theorem loadSolutionBinary_defers : Within Defers (loadSolutionBinary env) :=
  .get_bind fun _ => loadFile_defers env _ _ fun _ => ⟨_, rfl⟩

theorem loadTestInput_defers : Within Defers (loadTestInput env) :=
  .get_bind fun _ => loadFile_defers env _ _ fun _ => ⟨_, rfl⟩

theorem loadCheckerBinaryFile_defers : Within Defers (loadCheckerBinaryFile env) :=
  .get_bind fun _ => loadFile_defers env _ _ fun _ => ⟨_, rfl⟩

theorem loadTestAnswerFile_defers : Within Defers (loadTestAnswerFile env) :=
  .get_bind fun _ => loadFile_defers env _ _ fun _ => ⟨_, rfl⟩

theorem loadSolutionSourceFile_defers : Within Defers (loadSolutionSourceFile env) := by
  refine .get_bind fun s => .bind (loadResource_defers env _ fun _ => ⟨_, rfl⟩) fun source => ?_
  exact .bind (set_defers fun _ => ⟨rfl, rfl, rfl⟩) fun _ => copyFileToSandbox_defers env _ _ _

theorem uploadBinary_defers : Within Defers (uploadBinary env) :=
  .bind (openSandboxFile_defers env _ _) fun _ => call_defers _ _

theorem uploadOutput_defers (fileName : String) (resourceType : ResourceType) :
    Within Defers (uploadOutput env fileName resourceType) :=
  .bind (openSandboxFile_defers env _ _) fun _ => call_defers _ _

theorem setupCompileScript_defers : Within Defers (setupCompileScript env) := by
  refine .get_bind fun s => .ite (.throw _) ?_
  exact .bind (call_defers _ _) fun _ => call_defers _ _

theorem executeCompilationCommand_defers : Within Defers (executeCompilationCommand env) := by
  refine .bind (runProcess_defers env _ _) fun result => ?_
  exact .bind (set_defers fun _ => ⟨rfl, rfl, rfl⟩) fun _ => call_defers _ _

theorem setCompileVerdict_defers (verdict : Verdict) :
    Within Defers (setCompileVerdict verdict : PipelineM F Unit) :=
  set_defers fun _ => ⟨rfl, rfl, rfl⟩

theorem processCompilationResult_defers : Within Defers (processCompilationResult env) := by
  refine .get_bind fun s => ?_
  split
  · exact .bind (setCompileVerdict_defers _) fun _ => openSandboxFile_defers env _ _
  · exact .bind (setCompileVerdict_defers _) fun _ => openSandboxFile_defers env _ _
  · exact setCompileVerdict_defers _
  · exact setCompileVerdict_defers _
  · exact setCompileVerdict_defers _
  · exact setCompileVerdict_defers _
  · exact .throw _

theorem compilationProcessPipeline_defers : Within Defers (compilationProcessPipeline env) :=
  .bind (initSandbox_defers env) fun _ =>
  .bind (loadSolutionSourceFile_defers env) fun _ =>
  .bind (setupCompileScript_defers env) fun _ =>
  .bind (executeCompilationCommand_defers env) fun _ =>
  processCompilationResult_defers env

theorem uploadCompilationResources_defers : Within Defers (uploadCompilationResources env) :=
  .bind (call_defers _ _) fun _ => .get_bind fun _ => .ite (.pure _) (uploadBinary_defers env)

theorem executeCheckerRunCommand_defers : Within Defers (executeCheckerRunCommand env) := by
  refine .bind (runProcess_defers env _ _) fun result => ?_
  refine .bind (set_defers fun _ => ⟨rfl, rfl, rfl⟩) fun _ => .bind (call_defers _ _) fun _ => ?_
  split <;> first | exact .pure _ | exact .throw _

theorem setRunVerdict_defers (verdict : Verdict) :
    Within Defers (setRunVerdict verdict : PipelineM F Unit) :=
  set_defers fun _ => ⟨rfl, rfl, rfl⟩

theorem parseTestlibCheckerResult_defers : Within Defers (parseTestlibCheckerResult env) := by
  refine .get_bind fun s => .ite (.throw _) ?_
  cases env.decodeCheckerResult with
  | error err => exact .throw _
  | ok result =>
    have hpoints (points : F) : Within Defers (do
        setRunVerdict .PT
        modify fun s => { s with points := some points } : PipelineM F Unit) :=
      .bind (setRunVerdict_defers _) fun _ => set_defers fun _ => ⟨rfl, rfl, rfl⟩
    simp only
    split
    · exact setRunVerdict_defers _
    · exact setRunVerdict_defers _
    · exact setRunVerdict_defers _
    · exact setRunVerdict_defers _
    · exact setRunVerdict_defers _
    · cases result.points with
      | none => exact .throw _
      | some points => exact hpoints points
    · cases result.points with
      | none => exact .throw _
      | some points => exact hpoints points
    · exact .throw _

theorem parseCheckerResult_defers : Within Defers (parseCheckerResult env) := by
  refine .get_bind fun s => .ite (setRunVerdict_defers _) ?_
  cases env.statSandboxFile checkResultFile with
  | «exists» => exact parseTestlibCheckerResult_defers env
  | notExist => exact .throw _
  | other => exact .throw _

theorem fullCheckPipeline_defers : Within Defers (fullCheckPipeline env) :=
  .bind (loadCheckerBinaryFile_defers env) fun _ =>
  .bind (loadTestAnswerFile_defers env) fun _ =>
  .bind (executeCheckerRunCommand_defers env) fun _ =>
  parseCheckerResult_defers env

theorem uploadTestRunResources_defers : Within Defers (uploadTestRunResources env) :=
  .bind (uploadOutput_defers env _ _) fun _ =>
  .bind (uploadOutput_defers env _ _) fun _ =>
  call_defers _ _

theorem executeTestRunCommand_defers : Within Defers (executeTestRunCommand env) := by
  refine .bind (runProcess_defers env _ _) fun result => ?_
  exact .bind (set_defers fun _ => ⟨rfl, rfl, rfl⟩) fun _ => call_defers _ _

theorem testingProcessPipeline_defers : Within Defers (testingProcessPipeline env) := by
  refine .bind (initSandbox_defers env) fun _ =>
    .bind (loadSolutionBinary_defers env) fun _ =>
    .bind (loadTestInput_defers env) fun _ =>
    .bind (executeTestRunCommand_defers env) fun _ =>
    .get_bind fun s => .ite (set_defers fun _ => ⟨rfl, rfl, rfl⟩) ?_
  exact .bind (set_defers fun _ => ⟨rfl, rfl, rfl⟩) fun _ => fullCheckPipeline_defers env

end PipelineM

/-! ## The end of a pipeline -/

namespace PipelineJob

variable {job : PipelineJob}

theorem unlock_of_held {resource : Resource} {lock : CacheGetter × CacheKey}
    (h : held job.storageEpoch resource = .ok lock) :
    job.unlock resource = .ok (job.record (.unlock lock.1 lock.2)) := by
  obtain ⟨key, hkey, rfl⟩ := map_eq_ok.1 h
  unfold unlock PipelineJob.key
  rw [hkey]
  rfl

theorem foldlM_unlock {resources : List Resource} {locks : List (CacheGetter × CacheKey)}
    (h : resources.map (held job.storageEpoch) = locks.map .ok) :
    resources.foldlM unlock job =
      .ok { job with log := job.log ++ locks.map fun lock => .unlock lock.1 lock.2 } := by
  induction resources generalizing job locks with
  | nil =>
    rw [List.map_eq_nil_iff.1 h.symm]
    simp [pure, Except.pure]
  | cons resource resources ih =>
    obtain ⟨lock, locks, rfl, hlock, hlocks⟩ := List.map_eq_cons_iff.1 h.symm
    have hrest := @ih (job.record (.unlock lock.1 lock.2)) locks hlocks.symm
    rw [List.foldlM_cons, unlock_of_held hlock.symm, ok_bind, hrest]
    simp [record]

/-- `deferFunc` releases the locks of the log in reverse order. -/
theorem Ready.deferFunc (h : job.Ready) (log : List InvokerJobEvent) :
    PipelineJob.deferFunc { job with log := log } =
      .ok { job with
        log := log ++ (job.log.filterMap lock?).reverse.map fun lock => .unlock lock.1 lock.2
        defers := [] } := by
  have hlocks := congrArg List.reverse h.locks
  rw [← List.map_reverse, ← List.map_reverse] at hlocks
  have hunlock := @foldlM_unlock { job with log := log } _ _ hlocks
  unfold PipelineJob.deferFunc
  simp only [hunlock, ok_bind]
  rfl

end PipelineJob

namespace JobPipelineState

variable {s : JobPipelineState F} {job : PipelineJob}

theorem foldlM_runDeferred {actions : List Deferred} (h : .jobDefers ∉ actions) :
    actions.foldlM runDeferred s =
      .ok { s with job := { s.job with log := s.job.log ++ actions.map .ran } } := by
  induction actions generalizing s with
  | nil => simp [pure, Except.pure]
  | cons action actions ih =>
    rw [List.mem_cons, not_or] at h
    have hrun : s.runDeferred action = .ok { s with job := s.job.record (.ran action) } := by
      cases action with
      | jobDefers => exact absurd rfl h.1
      | metrics => rfl
      | cleanup => rfl
      | closeFile name => rfl
    rw [List.foldlM_cons, hrun, ok_bind, ih h.2]
    simp [PipelineJob.record]

theorem runDeferred_jobDefers (hready : job.Ready) {log : List InvokerJobEvent}
    (hjob : s.job = { job with log := log }) :
    s.runDeferred .jobDefers = .ok { s with job := { job with
      log := log ++ [.ran .jobDefers] ++
        (job.log.filterMap lock?).reverse.map fun lock => .unlock lock.1 lock.2
      defers := [] } } := by
  have hdefer := hready.deferFunc (log ++ [.ran .jobDefers])
  unfold runDeferred PipelineJob.record
  simp only [hjob, hdefer, ok_bind]
  rfl

/-- The events of `finish` if `actions` were deferred after `deferFunc`. -/
def finishEvents (job : PipelineJob) (actions : List Deferred) : List InvokerJobEvent :=
  .finish :: actions.reverse.map .ran ++ [.ran .jobDefers] ++
    ((job.log.filterMap lock?).reverse.map fun lock => .unlock lock.1 lock.2) ++ [.ran .metrics]

/-- `finish` after the steps of a pipeline. -/
theorem finish_eq (hready : job.Ready) (h : Defers (new job) s) :
    ∃ actions s', .jobDefers ∉ actions ∧ s.finish = .ok s' ∧ s'.finished = true ∧
      s'.job.log = job.log ++ (.deferred .metrics :: .deferred .jobDefers ::
        actions.map .deferred ++ finishEvents job actions) := by
  obtain ⟨hfinished, actions, hnot, hdefers, hjob⟩ := h
  have hstart : s.finished = false := hfinished
  have hreverse : s.defers.reverse = actions.reverse ++ [.jobDefers, .metrics] := by
    rw [hdefers]
    simp [new, defer]
  have hnot' : .jobDefers ∉ actions.reverse := fun hmem => hnot (List.mem_reverse.1 hmem)
  have hjob' : s.job = { job with
      log := job.log ++ [.deferred .metrics] ++ [.deferred .jobDefers] ++ actions.map .deferred } := hjob
  let started := { s with job := s.job.record .finish, defers := s.defers.reverse }
  have hran := @foldlM_runDeferred _ started _ hnot'
  have hjobDefers := @runDeferred_jobDefers _
    { started with job := { started.job with log := started.job.log ++ actions.reverse.map .ran } } _
    hready (started.job.log ++ actions.reverse.map .ran) (by simp [started, hjob', PipelineJob.record])
  let unlocks := (job.log.filterMap lock?).reverse.map fun lock => InvokerJobEvent.unlock lock.1 lock.2
  let log := started.job.log ++ actions.reverse.map .ran ++ [.ran .jobDefers] ++ unlocks ++
    [.ran .metrics]
  let ended := { started with job := { job with log := log, defers := [] }, finished := true }
  refine ⟨actions, ended, hnot, ?_, rfl, ?_⟩
  · unfold finish
    rw [if_neg (Bool.eq_false_iff.1 hstart)]
    show s.defers.reverse.foldlM runDeferred started >>= _ = _
    rw [hreverse, List.foldlM_append, hran, ok_bind, List.foldlM_cons, hjobDefers]
    rfl
  · simp [ended, log, unlocks, started, hjob', PipelineJob.record, finishEvents]

/-- The job is over. -/
structure Settled (s : JobPipelineState F) : Prop where
  finished : s.finished = true
  released : LocksReleased s.job.log
  once : FinishedOnce s.job.log

/-- It ends without a panic, and the job is over. -/
abbrev Settles : Except JobPanic (JobPipelineState F) → Prop := Yields (fun _ => False) Settled

theorem finish_settles (hready : job.Ready) (h : Defers (new job) s) : Settles s.finish := by
  obtain ⟨actions, s', hnot, hfinish, hfinished, hlog⟩ := finish_eq hready h
  -- what `finish` adds to the log: all unlocks, all deferred functions and itself
  have hlocks : (finishEvents job actions).filterMap lock? = [] := by
    simp [finishEvents, List.filterMap_map, Function.comp_def, List.filterMap_cons]
  have hunlocks :
      (finishEvents job actions).filterMap unlock? = (job.log.filterMap lock?).reverse := by
    simp [finishEvents, List.filterMap_map, Function.comp_def, List.filterMap_cons]
  have hran : (finishEvents job actions).filterMap ran? =
      actions.reverse ++ [.jobDefers, .metrics] := by
    simp [finishEvents, List.filterMap_map, Function.comp_def, List.filterMap_cons]
  have hdeferred : (finishEvents job actions).filterMap deferred? = [] := by
    simp [finishEvents, List.filterMap_map, Function.comp_def, List.filterMap_cons]
  have hcount : (finishEvents job actions).count .finish = 1 := by
    have hother : InvokerJobEvent.finish ∉ (finishEvents job actions).tail := by simp [finishEvents]
    have hcons : finishEvents job actions = .finish :: (finishEvents job actions).tail := rfl
    rw [hcons, List.count_cons_self, List.count_eq_zero.2 hother]
  rw [hfinish]
  refine ⟨hfinished, ?_, ?_, ?_, ?_⟩
  · rw [hlog]
    refine .append hready.unlocks ?_ ?_
    · simp [hlocks, List.filterMap_map, Function.comp_def, List.filterMap_cons]
    · simp [hunlocks, List.filterMap_map, Function.comp_def, List.filterMap_cons, List.reverse_perm]
  · have hnone : (actions.map InvokerJobEvent.deferred).count .finish = 0 :=
      List.count_eq_zero.2 (by simp)
    rw [hlog, List.count_append, hready.finish, Nat.zero_add, ← hcount]
    simp [hnone]
  · rw [hlog]
    simp [hready.ran, hready.deferred, hran, hdeferred, List.filterMap_map, Function.comp_def,
      List.filterMap_cons]
  · rw [hlog]
    simp [hready.unlocks, hlocks, hunlocks, List.filterMap_map, Function.comp_def,
      List.filterMap_cons]

theorem failJob_settles (env : JobEnv F) (hready : job.Ready) (err : String)
    (h : Defers (new job) s) : Settles (s.failJob env err) :=
  .bind (finish_settles hready h) fun _ hs => ⟨hs.finished, hs.released, hs.once⟩

theorem successJob_settles (env : JobEnv F) (hready : job.Ready) (runResult : RunResult)
    (points : Option F) (h : Defers (new job) s) : Settles (s.successJob env runResult points) :=
  .bind (finish_settles hready h) fun _ hs => ⟨hs.finished, hs.released, hs.once⟩

theorem orFail_settles (env : JobEnv F) (hready : job.Ready) {steps : PipelineM F Unit}
    {next : JobPipelineState F → Except JobPanic (JobPipelineState F)}
    (hsteps : Fallible.Within Defers steps) (hnext : ∀ s, Defers (new job) s → Settles (next s))
    (h : Defers (new job) s) : Settles (s.orFail env steps next) := by
  obtain ⟨r, s', hexec, hdefers⟩ := hsteps s
  have hall := IsTrans.trans _ _ _ h hdefers
  unfold orFail
  rw [hexec, ok_bind]
  cases r with
  | error err => exact failJob_settles env hready err hall
  | ok _ => exact hnext s' hall

theorem checkFinish_settles {r : Except JobPanic (JobPipelineState F)} (h : Settles r) :
    Settles (r >>= checkFinish) := by
  refine h.bind fun s hs => ?_
  unfold checkFinish
  rw [if_pos hs.finished]
  exact hs

end JobPipelineState

open JobPipelineState PipelineM

theorem fullCompilationPipeline_settles (env : JobEnv F) {job : PipelineJob} (hready : job.Ready) :
    Settles (fullCompilationPipeline env job) := by
  refine checkFinish_settles (orFail_settles env hready (compilationProcessPipeline_defers env) ?_
    (Std.Refl.refl _))
  intro s h
  refine orFail_settles env hready (uploadCompilationResources_defers env) ?_ h
  intro s h
  exact successJob_settles env hready _ _ h

theorem fullTestingPipeline_settles (env : JobEnv F) {job : PipelineJob} (hready : job.Ready) :
    Settles (fullTestingPipeline env job) := by
  refine checkFinish_settles (orFail_settles env hready (testingProcessPipeline_defers env) ?_
    (Std.Refl.refl _))
  intro s h
  split
  · refine orFail_settles env hready (uploadTestRunResources_defers env) ?_ h
    intro s h
    exact successJob_settles env hready _ _ h
  · exact successJob_settles env hready _ _ h

theorem processJob_settles (env : JobEnv F) {job : PipelineJob} {testsNumber : Nat}
    (hvalid : job.request.Valid testsNumber) (hready : job.Ready) : Settles (processJob env job) := by
  unfold processJob
  rcases hvalid with hcompile | ⟨htest, -⟩
  · rw [hcompile]
    exact fullCompilationPipeline_settles env hready
  · rw [htest]
    exact fullTestingPipeline_settles env hready

/-- A job runs if and only if its locks are taken and the sandbox threads are open. -/
theorem jobLife_ran_iff (env : JobEnv F) : ∃ life, jobLife env = .ok life ∧
    (life.ran = true ↔ env.sandboxThreadsClosed = false ∧ ∃ request, env.TakesLocks request) := by
  obtain ⟨handled, hhandled, hend⟩ := handleNewJob_ends env
  unfold jobLife
  rw [hhandled, ok_bind]
  cases hend with
  | rejected hnone => exact ⟨_, rfl, nofun, fun ⟨_, request, htakes⟩ => absurd htakes (hnone request)⟩
  | refused _ hclosed => exact ⟨_, rfl, nofun, fun ⟨hopen, _⟩ => nomatch hclosed.symm.trans hopen⟩
  | accepted htakes hopen hvalid hready =>
    obtain ⟨s, hs, -⟩ := (processJob_settles env hvalid hready).exists_value
    simp only [hs, ok_bind]
    exact ⟨_, rfl, fun _ => ⟨hopen, _, htakes⟩, fun _ => rfl⟩

/-- The locks of a job are released unless the sandbox threads refuse it after they were taken. -/
theorem jobLife_releases_iff (env : JobEnv F) :
    (∃ life, jobLife env = .ok life ∧ LocksReleased life.log ∧
        (life.ran = true → FinishedOnce life.log)) ↔
      (env.sandboxThreadsClosed = false ∨ ∀ request, ¬ env.TakesLocks request) := by
  obtain ⟨handled, hhandled, hend⟩ := handleNewJob_ends env
  unfold jobLife
  rw [hhandled, ok_bind]
  cases hend with
  | rejected hnone hlocks hunlocks =>
    exact ⟨fun _ => .inr hnone, fun _ => ⟨_, rfl, .of_none hlocks hunlocks, nofun⟩⟩
  | @refused log request htakes hclosed hlocks hunlocks =>
    constructor
    · rintro ⟨life, hlife, hreleased, -⟩
      cases hlife
      exact absurd hreleased (Balanced.not_of_unclosed hlocks hunlocks)
    · rintro (hopen | hnone)
      · exact nomatch hclosed.symm.trans hopen
      · exact absurd htakes (hnone request)
  | accepted htakes hopen hvalid hready =>
    refine ⟨fun _ => .inl hopen, fun _ => ?_⟩
    obtain ⟨s, hs, hsettled⟩ := (processJob_settles env hvalid hready).exists_value
    simp only [hs, ok_bind]
    exact ⟨_, rfl, hsettled.released, fun _ => hsettled.once⟩

/-- A compile job that meets closed sandbox threads. -/
def lateCompileJob : JobEnv Nat where
  bindJSON := .ok { id := 1, submitID := 7, type := .compileJob }
  getEpoch := 0
  findSubmission id := (none, { id := id, problemID := 3, language := "cpp" })
  findProblem id := (none, { id := id, testsNumber := 5 })
  sandboxThreadsClosed := true
  runnerThreadsClosed _ := false
  getStatus := { maxNewJobs := 1, activeJobIDs := [], epoch := 0, address := "" }
  initSandbox := none
  get _ _ := .ok ["source.cpp"]
  openFile _ := none
  createSandboxFile _ := none
  openSandboxFile _ := none
  hasLanguage _ := true
  generateScript _ _ _ := none
  writeScript := none
  run _ := { verdict := .OK }
  checkerLimit _ := "1s"
  statSandboxFile _ := .exists
  decodeCheckerResult := .ok { outcome := "accepted", points := none }
  upload _ := none

/-- Its lock on the source stays. -/
theorem lateCompileJob_leaks : ∃ life, jobLife lateCompileJob = .ok life ∧
    ¬ LocksReleased life.log := by
  refine ⟨_, rfl, fun h => ?_⟩
  have hclosed := h.closed (.source, { epoch := 0, resource := .sourceCode, submitID := 7 })
  exact absurd hclosed (by decide)

end TestingSystem
