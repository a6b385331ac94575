import TestingSystem.Invoker.Storage
import TestingSystem.Lib.Machine
import TestingSystem.Master.Registry.Link

/-!
# The jobs that an invoker reports as active

`handleNewJob`, `SandboxThreads`, `finish` and `getStatus` of the invoker, with the steps that other
goroutines can see. A handler puts the job into `SandboxThreads` in one section and into `ActiveJobs`
in a later one, and `finish` deletes it in a third one. `ActiveJobs` has no finished job as long as no
handler inserts a job that a sandbox thread has finished before (`omitsFinished_of_insertsUnfinished`);
a job that is inserted later than that stays (`finished_job_active`).
-/

set_option autoImplicit false

namespace TestingSystem

/-! ## The model -/

/-- Where `handleNewJob` is. -/
inductive HandlerStage where
  | parsed
  | locking (rest : List Resource)
  | added
  | inserted
  | answered
  | refused
  deriving DecidableEq, Repr

/-- `SandboxThreads.add` has succeeded. -/
def HandlerStage.wasAdded : HandlerStage → Bool
  | .added | .inserted | .answered => true
  | .parsed | .locking _ | .refused => false

/-- The job was inserted into `ActiveJobs`. -/
def HandlerStage.wasInserted : HandlerStage → Bool
  | .inserted | .answered => true
  | .parsed | .locking _ | .added | .refused => false

/-- A job of a `NewJob` request. -/
structure ReceivedJob where
  id : JobID
  type : JobType
  test : Nat
  stage : HandlerStage
  deriving DecidableEq, Repr

/-- A status with what was going on when it was taken: the jobs that had finished, and how many were
in `SandboxThreads` or in a thread. -/
structure TakenStatus where
  status : Status
  finished : List Nat
  unfinished : Nat
  deriving DecidableEq

/-- `Invoker` of the invoker. A thread of `SandboxThreads` runs a job, and takes the status for its
result when the job has finished: `running` and `reporting`. `finished` and `statuses` are a history. -/
structure ActiveRun where
  address : String
  queueSize : Nat
  sandboxes : Nat
  activeJobs : GoMap JobID Nat
  epoch : Epoch
  values : List Nat
  closed : Bool
  running : List Nat
  reporting : List Nat
  jobs : GoMap Nat ReceivedJob
  nextJob : Nat
  finished : List Nat
  statuses : List TakenStatus

inductive ActiveStep where
  | receive (id : JobID) (type : JobType) (test : Nat)
  | initJob (j storageEpoch : Nat) (found : Option (Nat × Nat × Nat))
  | lock (j : Nat)
  | add (j : Nat)
  | insert (j : Nat)
  | respond (j : Nat) (epoch : Epoch) (order : RangeOrder)
  | take
  | finish (j : Nat)
  | report (j : Nat) (epoch : Epoch) (order : RangeOrder)
  | getStatus (epoch : Epoch) (order : RangeOrder)
  | stop

/-- The panic of a thread. -/
inductive ThreadPanic where
  | unknownJobType (type : JobType)
  deriving DecidableEq, Repr

namespace ActiveRun

/-- `SetupInvoker`. -/
def new (address : String) (queueSize sandboxes : Nat) : ActiveRun :=
  { address := address, queueSize := queueSize, sandboxes := sandboxes, activeJobs := .empty
    epoch := 0, values := [], closed := false, running := [], reporting := [], jobs := .empty
    nextJob := 0, finished := [], statuses := [] }

/-- `MaxJobs`. -/
def maxJobs (s : ActiveRun) : Nat := s.queueSize + s.sandboxes

/-- The ID of a job. -/
def idOf (s : ActiveRun) (j : Nat) : Option JobID := (s.jobs.get? j).map ReceivedJob.id

/-- Where the handler of a job is. -/
def stageOf (s : ActiveRun) (j : Nat) : Option HandlerStage :=
  (s.jobs.get? j).map ReceivedJob.stage

/-- The handler goes on. -/
def setStage (s : ActiveRun) (j : Nat) (stage : HandlerStage) : ActiveRun :=
  { s with
    jobs :=
      match s.jobs.get? j with
      | none => s.jobs
      | some job => s.jobs.set j { job with stage := stage } }

/-- `BindJSON` in `handleNewJob`. -/
def receive (s : ActiveRun) (id : JobID) (type : JobType) (test : Nat) : ActiveRun :=
  { s with
    jobs := s.jobs.set s.nextJob { id := id, type := type, test := test, stage := .parsed }
    nextJob := s.nextJob + 1 }

/-- `initJob`, with what the database answers, and the first checks of `newCompileJob` and
`newTestJob`. -/
def initJob (s : ActiveRun) (j : Nat) (job : ReceivedJob) (storageEpoch : Nat)
    (found : Option (Nat × Nat × Nat)) : ActiveRun :=
  match found with
  | none => s.setStage j .refused
  | some (submissionID, problemID, testsNumber) =>
    let storageJob : InvokerJob :=
      { type := job.type, test := job.test, submissionID := submissionID, problemID := problemID
        testsNumber := testsNumber, storageEpoch := storageEpoch, defers := [], stage := .rejected }
    match storageJob.newJob with
    | none => s.setStage j .refused
    | some resources => s.setStage j (.locking resources)

/-- `SandboxThreads.add`. -/
def add (s : ActiveRun) (j : Nat) : ActiveRun :=
  if s.closed then s.setStage j .refused
  else { s.setStage j .added with values := s.values ++ [j] }

/-- The insertion into `ActiveJobs`. -/
def insert (s : ActiveRun) (j : Nat) (id : JobID) : ActiveRun :=
  { s.setStage j .inserted with activeJobs := s.activeJobs.set id j }

/-- The status that `getStatus` returns. -/
def status (s : ActiveRun) (epoch : Epoch) (order : RangeOrder) : Status :=
  let activeJobIDs := order s.activeJobs.keys
  { address := s.address, epoch := epoch, activeJobIDs := activeJobIDs
    maxNewJobs :=
      if activeJobIDs.length > s.maxJobs then 0 else (s.maxJobs : Int) - activeJobIDs.length }

/-- `getStatus`. -/
def getStatus (s : ActiveRun) (epoch : Epoch) (order : RangeOrder) : ActiveRun :=
  { s with
    epoch := epoch
    statuses := ⟨s.status epoch order, s.finished, s.values.length + s.running.length⟩ :: s.statuses }

/-- `runThread` takes a value, and its processor chooses the pipeline. -/
def take (s : ActiveRun) (j : Nat) (values : List Nat) (job : ReceivedJob) :
    Except ThreadPanic ActiveRun :=
  match job.type with
  | .compileJob | .testJob => .ok { s with values := values, running := j :: s.running }
  | .other value => .error (.unknownJobType (.other value))

/-- The section of `finish`. -/
def finish (s : ActiveRun) (j : Nat) (id : JobID) : ActiveRun :=
  { s with
    activeJobs := s.activeJobs.delete id
    running := s.running.erase j
    reporting := j :: s.reporting
    finished := j :: s.finished }

/-- The program of the handlers and of the threads. Epochs grow, and a range is in some order. -/
def enabled (s : ActiveRun) : ActiveStep → Prop
  | .receive .. | .stop => True
  | .initJob j _ _ => s.stageOf j = some .parsed
  | .lock j => ∃ resource rest, s.stageOf j = some (.locking (resource :: rest))
  | .add j => s.stageOf j = some (.locking [])
  | .insert j => s.stageOf j = some .added
  | .respond j epoch order =>
      s.stageOf j = some .inserted ∧ s.epoch < epoch ∧ ∀ ids, (order ids).Perm ids
  | .take => s.values ≠ [] ∧ s.running.length + s.reporting.length < s.sandboxes
  | .finish j => j ∈ s.running
  | .report j epoch order => j ∈ s.reporting ∧ s.epoch < epoch ∧ ∀ ids, (order ids).Perm ids
  | .getStatus epoch order => s.epoch < epoch ∧ ∀ ids, (order ids).Perm ids

def exec (s : ActiveRun) (a : ActiveStep) : Except ThreadPanic ActiveRun :=
  match a with
  | .receive id type test => .ok (s.receive id type test)
  | .initJob j storageEpoch found =>
    match s.jobs.get? j with
    | none => .ok s
    | some job => .ok (s.initJob j job storageEpoch found)
  | .lock j =>
    match s.stageOf j with
    | some (.locking (_ :: rest)) => .ok (s.setStage j (.locking rest))
    | _ => .ok s
  | .add j => .ok (s.add j)
  | .insert j =>
    match s.jobs.get? j with
    | none => .ok s
    | some job => .ok (s.insert j job.id)
  | .respond j epoch order => .ok ((s.getStatus epoch order).setStage j .answered)
  | .take =>
    match s.values with
    | [] => .ok s
    | j :: values =>
      match s.jobs.get? j with
      | none => .ok s
      | some job => s.take j values job
  | .finish j =>
    match s.jobs.get? j with
    | none => .ok s
    | some job => .ok (s.finish j job.id)
  | .report j epoch order =>
    .ok { s.getStatus epoch order with reporting := s.reporting.erase j }
  | .getStatus epoch order => .ok (s.getStatus epoch order)
  | .stop => .ok { s with closed := true }

/-- The runs of a new invoker. -/
def machine : Machine ActiveRun ActiveStep ThreadPanic where
  init s := ∃ address queueSize sandboxes, s = new address queueSize sandboxes
  enabled := enabled
  exec := exec

/-! ## The handlers -/

variable {s t : ActiveRun} {j : Nat} {stage stage' : HandlerStage} {job : ReceivedJob}

theorem setStage_jobs (hj : s.jobs.get? j = some job) (stage : HandlerStage) :
    (s.setStage j stage).jobs = s.jobs.set j { job with stage := stage } := by
  simp only [setStage, hj]

theorem idOf_setStage (s : ActiveRun) (j : Nat) (stage : HandlerStage) (k : Nat) :
    (s.setStage j stage).idOf k = s.idOf k := by
  cases hj : s.jobs.get? j with
  | none => simp only [setStage, idOf, hj]
  | some job =>
    rw [idOf, idOf, setStage_jobs hj, GoMap.get?_set]
    split
    · next heq => rw [heq, hj]; rfl
    · rfl

theorem stageOf_setStage (hj : s.stageOf j = some stage) (stage' : HandlerStage) (k : Nat) :
    (s.setStage j stage').stageOf k = if k = j then some stage' else s.stageOf k := by
  obtain ⟨job, hjob, -⟩ := Option.map_eq_some_iff.1 hj
  rw [stageOf, stageOf, setStage_jobs hjob, GoMap.get?_set]
  split <;> rfl

/-- The handler of `j` has put it into `SandboxThreads`. -/
def Added (s : ActiveRun) (j : Nat) : Prop := ∃ stage, s.stageOf j = some stage ∧ stage.wasAdded

/-- The handler of `j` has inserted it into `ActiveJobs`. -/
def Inserted (s : ActiveRun) (j : Nat) : Prop :=
  ∃ stage, s.stageOf j = some stage ∧ stage.wasInserted

/-- What `getStatus`, `finish` and the handlers have in common: a job goes from `SandboxThreads` to a
thread and from there to the finished ones, and `ActiveJobs` has jobs that were inserted. -/
structure Inv (s : ActiveRun) : Prop where
  received : ∀ j, s.nextJob ≤ j → s.jobs.get? j = none
  types : ∀ j job, s.jobs.get? j = some job → job.stage ≠ .parsed → job.stage ≠ .refused →
    job.type = .compileJob ∨ job.type = .testJob
  nodup : (s.values ++ (s.running ++ s.finished)).Nodup
  places : ∀ j, j ∈ s.values ++ (s.running ++ s.finished) ↔ s.Added j
  active : ∀ id j, s.activeJobs.get? id = some j → s.idOf j = some id ∧ s.Inserted j

theorem Inv.new (address : String) (queueSize sandboxes : Nat) :
    (new address queueSize sandboxes).Inv where
  received _ _ := rfl
  types _ _ h := nomatch h
  nodup := List.nodup_nil
  places _ := ⟨fun h => (nomatch h), fun ⟨_, h, _⟩ => (nomatch h)⟩
  active _ _ h := nomatch h

theorem Inserted.added (h : s.Inserted j) : s.Added j := by
  obtain ⟨stage, hstage, hinserted⟩ := h
  refine ⟨stage, hstage, ?_⟩
  cases stage <;> first | rfl | exact hinserted

/-- A step of the handler that does not touch `SandboxThreads` or `ActiveJobs`. -/
theorem Inv.setStage (h : s.Inv) (hj : s.stageOf j = some stage)
    (hadded : stage'.wasAdded = stage.wasAdded)
    (hinserted : stage.wasInserted = true → stage'.wasInserted = true)
    (htype : ∀ job, s.jobs.get? j = some job → stage' ≠ .refused →
      job.type = .compileJob ∨ job.type = .testJob) : (s.setStage j stage').Inv := by
  have hstages := stageOf_setStage hj stage'
  obtain ⟨job, hjob, hstage⟩ := Option.map_eq_some_iff.1 hj
  have hjobs := setStage_jobs hjob stage'
  refine ⟨fun k hk => ?_, fun k other hk hparsed hrefused => ?_, h.nodup, fun k => ?_, fun id k hk => ?_⟩
  · have hne : k ≠ j := by
      rintro rfl
      exact absurd (hjob.symm.trans (h.received k hk)) (by simp)
    rw [hjobs, GoMap.get?_set_ne _ _ hne]
    exact h.received k hk
  · rw [hjobs] at hk
    rcases GoMap.of_get?_set hk with ⟨-, rfl⟩ | ⟨-, hk⟩
    · exact htype job hjob hrefused
    · exact h.types k other hk hparsed hrefused
  · refine (h.places k).trans ?_
    by_cases hk : k = j
    · subst hk
      simp only [Added, hstages, if_pos, hj, Option.some.injEq, exists_eq_left', hadded]
    · simp only [Added, hstages, if_neg hk]
  · obtain ⟨hid, stage₀, hstage₀, hins⟩ := h.active id k hk
    refine ⟨(idOf_setStage s j stage' k).trans hid, ?_⟩
    by_cases hkj : k = j
    · subst hkj
      obtain rfl := Option.some.inj (hj.symm.trans hstage₀)
      exact ⟨stage', by rw [hstages, if_pos rfl], hinserted hins⟩
    · exact ⟨stage₀, by rw [hstages, if_neg hkj]; exact hstage₀, hins⟩

/-- A step that moves a job between the places. -/
theorem Inv.move (h : s.Inv) (hjobs : t.jobs = s.jobs) (hnext : t.nextJob = s.nextJob)
    (hplaces : (t.values ++ (t.running ++ t.finished)).Perm (s.values ++ (s.running ++ s.finished)))
    (hactive : ∀ id j, t.activeJobs.get? id = some j → s.activeJobs.get? id = some j) : t.Inv := by
  have hstage : t.stageOf = s.stageOf := by
    funext k
    rw [stageOf, stageOf, hjobs]
  have hid : t.idOf = s.idOf := by
    funext k
    rw [idOf, idOf, hjobs]
  refine ⟨?_, ?_, hplaces.nodup_iff.2 h.nodup, fun k => ?_, fun id k hk => ?_⟩
  · rw [hjobs, hnext]
    exact h.received
  · rw [hjobs]
    exact h.types
  · rw [hplaces.mem_iff, h.places, Added, Added, hstage]
  · rw [hid, Inserted, hstage]
    exact h.active id k (hactive id k hk)

theorem Inv.receive (h : s.Inv) (id : JobID) (type : JobType) (test : Nat) :
    (s.receive id type test).Inv := by
  have hnone := h.received s.nextJob (Nat.le_refl _)
  have hstages : ∀ k, (s.receive id type test).stageOf k =
      if k = s.nextJob then some .parsed else s.stageOf k := by
    intro k
    rw [stageOf, stageOf, ActiveRun.receive, GoMap.get?_set]
    split <;> rfl
  have hids : ∀ k, k ≠ s.nextJob → (s.receive id type test).idOf k = s.idOf k := by
    intro k hk
    rw [idOf, idOf, ActiveRun.receive, GoMap.get?_set_ne _ _ hk]
  have hunknown : s.stageOf s.nextJob = none := by rw [stageOf, hnone]; rfl
  refine ⟨fun k hk => ?_, fun k job hk hparsed hrefused => ?_, h.nodup, fun k => ?_,
    fun x k hk => ?_⟩
  · have hne : k ≠ s.nextJob := Nat.ne_of_gt hk
    exact (GoMap.get?_set_ne _ _ hne).trans (h.received k (Nat.le_of_succ_le hk))
  · rw [ActiveRun.receive] at hk
    rcases GoMap.of_get?_set hk with ⟨-, rfl⟩ | ⟨-, hk⟩
    · exact absurd rfl hparsed
    · exact h.types k job hk hparsed hrefused
  · refine (h.places k).trans ?_
    by_cases hk : k = s.nextJob
    · subst hk
      simp [Added, hstages, hunknown, HandlerStage.wasAdded]
    · simp only [Added, hstages, if_neg hk]
  · obtain ⟨hid, stage₀, hstage₀, hins⟩ := h.active x k hk
    have hne : k ≠ s.nextJob := by
      rintro rfl
      exact absurd (hunknown.symm.trans hstage₀) (by simp)
    exact ⟨(hids k hne).trans hid, stage₀, by rw [hstages, if_neg hne]; exact hstage₀, hins⟩

theorem Inv.initJob (h : s.Inv) (hjob : s.jobs.get? j = some job) (hparsed : job.stage = .parsed)
    (storageEpoch : Nat) (found : Option (Nat × Nat × Nat)) :
    (s.initJob j job storageEpoch found).Inv := by
  have hstage : s.stageOf j = some .parsed := by rw [stageOf, hjob, ← hparsed]; rfl
  have hrefused : (s.setStage j .refused).Inv :=
    h.setStage hstage rfl (fun h => h) fun _ _ hne => absurd rfl hne
  unfold ActiveRun.initJob
  split
  · exact hrefused
  · dsimp only
    split
    · exact hrefused
    · next resources hnew =>
      refine h.setStage hstage rfl (fun h => h) fun other hother _ => ?_
      obtain rfl := Option.some.inj (hjob.symm.trans hother)
      -- `handleNewJob` refuses all other types
      unfold InvokerJob.newJob at hnew
      split at hnew
      · next heq => exact .inl heq
      · next heq => exact .inr heq
      · cases hnew

theorem Inv.add (h : s.Inv) (hj : s.stageOf j = some (.locking [])) : (s.add j).Inv := by
  obtain ⟨job, hjob, hstage⟩ := Option.map_eq_some_iff.1 hj
  have htype := h.types j job hjob (by rw [hstage]; simp) (by rw [hstage]; simp)
  unfold ActiveRun.add
  split
  · exact h.setStage hj rfl (fun h => h) fun _ _ hne => absurd rfl hne
  · have hstages := stageOf_setStage hj .added
    have hnew : j ∉ s.values ++ (s.running ++ s.finished) := by
      intro hmem
      obtain ⟨stage, hstage', hadded⟩ := (h.places j).1 hmem
      obtain rfl := Option.some.inj (hj.symm.trans hstage')
      cases hadded
    have hperm : (s.values ++ [j] ++ (s.running ++ s.finished)).Perm
        (j :: (s.values ++ (s.running ++ s.finished))) := by
      rw [List.append_assoc]
      exact List.perm_middle
    -- in `places` and in `active` the job `j` changes from `locking` to `added`
    have hadded : ∀ k, (s.setStage j .added).Added k ↔ k = j ∨ s.Added k := by
      intro k
      by_cases hk : k = j
      · subst hk
        simp [Added, hstages, HandlerStage.wasAdded]
      · simp only [Added, hstages, if_neg hk]
        simp only [hk, false_or]
    have hjobs := setStage_jobs hjob .added
    refine ⟨fun k hk => ?_, fun k other hk hparsed hrefused => ?_,
      hperm.nodup_iff.2 (List.nodup_cons.2 ⟨hnew, h.nodup⟩), fun k => ?_, fun id k hk => ?_⟩
    · have hne : k ≠ j := by
        rintro rfl
        exact absurd (hjob.symm.trans (h.received k hk)) (by simp)
      show (s.setStage j .added).jobs.get? k = none
      rw [hjobs, GoMap.get?_set_ne _ _ hne]
      exact h.received k hk
    · have hk : (s.setStage j .added).jobs.get? k = some other := hk
      rw [hjobs] at hk
      rcases GoMap.of_get?_set hk with ⟨-, rfl⟩ | ⟨-, hk⟩
      · exact htype
      · exact h.types k other hk hparsed hrefused
    · show k ∈ s.values ++ [j] ++ (s.running ++ s.finished) ↔ (s.setStage j .added).Added k
      rw [hperm.mem_iff, List.mem_cons, h.places, hadded]
    · obtain ⟨hid, stage₀, hstage₀, hins⟩ := h.active id k hk
      have hne : k ≠ j := by
        rintro rfl
        obtain rfl := Option.some.inj (hj.symm.trans hstage₀)
        cases hins
      refine ⟨(idOf_setStage s j .added k).trans hid, stage₀, ?_, hins⟩
      show (s.setStage j .added).stageOf k = some stage₀
      rw [hstages, if_neg hne]
      exact hstage₀

theorem Inv.insert (h : s.Inv) (hjob : s.jobs.get? j = some job) (hadded : job.stage = .added) :
    (s.insert j job.id).Inv := by
  have hstage : s.stageOf j = some .added := by rw [stageOf, hjob, ← hadded]; rfl
  have htype := h.types j job hjob (by rw [hadded]; simp) (by rw [hadded]; simp)
  have hset : (s.setStage j .inserted).Inv := by
    refine h.setStage hstage rfl (fun _ => rfl) fun other hother _ => ?_
    obtain rfl := Option.some.inj (hjob.symm.trans hother)
    exact htype
  refine ⟨hset.received, hset.types, hset.nodup, hset.places, fun id k hk => ?_⟩
  have hk : (s.activeJobs.set job.id j).get? id = some k := hk
  rcases GoMap.of_get?_set hk with ⟨hid, rfl⟩ | ⟨-, hk⟩
  · refine ⟨(idOf_setStage s k .inserted k).trans ?_, .inserted, ?_, rfl⟩
    · rw [idOf, hjob, hid]
      rfl
    · exact (stageOf_setStage hstage .inserted k).trans (if_pos rfl)
  · exact hset.active id k hk

theorem Inv.take (h : s.Inv) {values : List Nat} (hvalues : s.values = j :: values) :
    Inv { s with values := values, running := j :: s.running } := by
  refine h.move rfl rfl ?_ fun _ _ hk => hk
  show (values ++ (j :: s.running ++ s.finished)).Perm _
  rw [hvalues, List.cons_append, List.cons_append]
  exact List.perm_middle

theorem Inv.finish (h : s.Inv) (hj : j ∈ s.running) (id : JobID) : (s.finish j id).Inv := by
  refine h.move rfl rfl ?_ fun _ _ hk => (GoMap.of_get?_delete hk).2
  refine List.Perm.append_left _ (List.perm_middle.trans ?_)
  exact (List.perm_cons_erase hj).symm.append_right _

/-! ## What a step does to `ActiveJobs` -/

/-- A step of `ActiveJobs` and of the history. -/
inductive Effect (s : ActiveRun) : ActiveStep → ActiveRun → Prop
  | quiet {a : ActiveStep} {t : ActiveRun} (ha : ∀ j, a ≠ .insert j)
      (hactive : t.activeJobs = s.activeJobs) (hfinished : t.finished = s.finished)
      (hepoch : t.epoch = s.epoch) (hstatuses : t.statuses = s.statuses)
      (hinserted : ∀ k, t.Inserted k ↔ s.Inserted k) : Effect s a t
  | insert {t : ActiveRun} {j : Nat} {id : JobID} (hid : s.idOf j = some id)
      (hnew : ¬ s.Inserted j) (hactive : t.activeJobs = s.activeJobs.set id j)
      (hfinished : t.finished = s.finished) (hepoch : t.epoch = s.epoch)
      (hstatuses : t.statuses = s.statuses)
      (hinserted : ∀ k, t.Inserted k ↔ k = j ∨ s.Inserted k) : Effect s (.insert j) t
  | finish {t : ActiveRun} {j : Nat} {id : JobID} (hid : s.idOf j = some id)
      (hnew : j ∉ s.finished) (hactive : t.activeJobs = s.activeJobs.delete id)
      (hfinished : t.finished = j :: s.finished) (hepoch : t.epoch = s.epoch) (hstatuses : t.statuses = s.statuses)
      (hinserted : ∀ k, t.Inserted k ↔ s.Inserted k) : Effect s (.finish j) t
  | status {a : ActiveStep} {t : ActiveRun} {epoch : Epoch} {order : RangeOrder}
      (ha : ∀ j, a ≠ .insert j) (hnew : s.epoch < epoch) (ho : ∀ ids, (order ids).Perm ids)
      (hactive : t.activeJobs = s.activeJobs) (hfinished : t.finished = s.finished)
      (hepoch : t.epoch = epoch)
      (hstatuses : t.statuses = (s.getStatus epoch order).statuses)
      (hinserted : ∀ k, t.Inserted k ↔ s.Inserted k) : Effect s a t

/-- What no step changes: the configuration and the ID of a job. A request brings a new job. -/
structure Extends (s : ActiveRun) (a : ActiveStep) (t : ActiveRun) : Prop where
  address : t.address = s.address
  maxJobs : t.maxJobs = s.maxJobs
  ids : ∀ k id, s.idOf k = some id → t.idOf k = some id
  received : ∀ k id, t.idOf k = some id → s.idOf k = some id ∨
    k = s.nextJob ∧ ∃ type test, a = .receive id type test

theorem Inserted.setStage_iff (hj : s.stageOf j = some stage)
    (hinserted : stage'.wasInserted = stage.wasInserted) (k : Nat) :
    (s.setStage j stage').Inserted k ↔ s.Inserted k := by
  by_cases hk : k = j
  · subst hk
    simp only [Inserted, stageOf_setStage hj, if_pos, hj, Option.some.injEq, exists_eq_left', hinserted]
  · simp only [Inserted, stageOf_setStage hj, if_neg hk]

theorem Extends.of_ids {a : ActiveStep} (haddress : t.address = s.address)
    (hmax : t.maxJobs = s.maxJobs) (hids : ∀ k, t.idOf k = s.idOf k) : s.Extends a t :=
  ⟨haddress, hmax, fun k _ hk => (hids k).trans hk, fun k _ hk => .inl ((hids k).symm.trans hk)⟩

theorem Extends.of_jobs {a : ActiveStep} (haddress : t.address = s.address)
    (hmax : t.maxJobs = s.maxJobs) (hjobs : t.jobs = s.jobs) : s.Extends a t := by
  refine .of_ids haddress hmax fun k => ?_
  rw [idOf, idOf, hjobs]

theorem Extends.of_setStage {a : ActiveStep} (haddress : t.address = s.address)
    (hmax : t.maxJobs = s.maxJobs) (hjobs : t.jobs = (s.setStage j stage).jobs) :
    s.Extends a t := by
  refine .of_ids haddress hmax fun k => ?_
  rw [idOf, hjobs]
  exact idOf_setStage s j stage k

/-- A step of a handler that only moves on. -/
theorem Effect.setStage {a : ActiveStep} (ha : ∀ j, a ≠ .insert j) (hj : s.stageOf j = some stage)
    (hinserted : stage'.wasInserted = stage.wasInserted) : s.Effect a (s.setStage j stage') :=
  .quiet ha rfl rfl rfl rfl (Inserted.setStage_iff hj hinserted)

/-- A request brings a new job, which is nowhere yet. -/
theorem Inv.receive_effect (h : s.Inv) (id : JobID) (type : JobType) (test : Nat) :
    s.Effect (.receive id type test) (s.receive id type test) ∧
      s.Extends (.receive id type test) (s.receive id type test) := by
  have hnone := h.received s.nextJob (Nat.le_refl _)
  have hother : ∀ k, k ≠ s.nextJob → (s.receive id type test).jobs.get? k = s.jobs.get? k :=
    fun k hk => GoMap.get?_set_ne _ _ hk
  constructor
  · refine .quiet (by simp) rfl rfl rfl rfl fun k => ?_
    by_cases hk : k = s.nextJob
    · subst hk
      simp [Inserted, stageOf, hnone, ActiveRun.receive, HandlerStage.wasInserted]
    · rw [Inserted, Inserted, stageOf, stageOf, hother k hk]
  · refine ⟨rfl, rfl, fun k x hx => ?_, fun k x hx => ?_⟩
    · have hk : k ≠ s.nextJob := by
        rintro rfl
        rw [idOf, hnone] at hx
        cases hx
      rw [idOf, hother k hk]
      exact hx
    · by_cases hk : k = s.nextJob
      · subst hk
        rw [idOf, ActiveRun.receive, GoMap.get?_set_self] at hx
        obtain rfl : id = x := Option.some.inj hx
        exact .inr ⟨rfl, type, test, rfl⟩
      · rw [idOf, hother k hk] at hx
        exact .inl hx

/-- The handler inserts its job once. -/
theorem insert_effect (hjob : s.jobs.get? j = some job) (hadded : job.stage = .added) :
    s.Effect (.insert j) (s.insert j job.id) := by
  have hstage : s.stageOf j = some .added := by rw [stageOf, hjob, ← hadded]; rfl
  have hid : s.idOf j = some job.id := by rw [idOf, hjob]; rfl
  refine .insert hid ?_ rfl rfl rfl rfl fun k => ?_
  · rintro ⟨stage, hstage', hinserted⟩
    obtain rfl := Option.some.inj (hstage.symm.trans hstage')
    cases hinserted
  · show (s.setStage j .inserted).Inserted k ↔ k = j ∨ s.Inserted k
    by_cases hk : k = j
    · subst hk
      simp [Inserted, stageOf_setStage hstage, HandlerStage.wasInserted]
    · simp only [Inserted, stageOf_setStage hstage, if_neg hk]
      simp only [hk, false_or]

/-- A thread knows the type of the job that it takes. -/
theorem Inv.take_eq (h : s.Inv) {values : List Nat} (hvalues : s.values = j :: values) :
    ∃ job, s.jobs.get? j = some job ∧
      s.take j values job = .ok { s with values := values, running := j :: s.running } := by
  have hadded : s.Added j := (h.places j).1 (by rw [hvalues]; exact List.mem_cons_self)
  obtain ⟨stage, hstage, hwas⟩ := hadded
  obtain ⟨job, hjob, rfl⟩ := Option.map_eq_some_iff.1 hstage
  refine ⟨job, hjob, ?_⟩
  have htype := h.types j job hjob (fun heq => by rw [heq] at hwas; cases hwas)
    (fun heq => by rw [heq] at hwas; cases hwas)
  rcases htype with htype | htype <;> simp only [ActiveRun.take, htype]

/-- No thread panics, and every step has one of the effects. -/
theorem Inv.step (h : s.Inv) {a : ActiveStep} (hen : s.enabled a) :
    ∃ t, s.exec a = .ok t ∧ t.Inv ∧ s.Effect a t ∧ s.Extends a t := by
  cases a with
  | receive id type test => exact ⟨_, rfl, h.receive id type test, h.receive_effect id type test⟩
  | initJob j storageEpoch found =>
    obtain ⟨job, hjob, hparsed⟩ := Option.map_eq_some_iff.1 hen
    refine ⟨_, by simp only [exec, hjob], h.initJob hjob hparsed storageEpoch found, ?_⟩
    unfold ActiveRun.initJob
    split
    · exact ⟨.setStage (by simp) hen rfl, .of_setStage rfl rfl rfl⟩
    · dsimp only
      split
      · exact ⟨.setStage (by simp) hen rfl, .of_setStage rfl rfl rfl⟩
      · exact ⟨.setStage (by simp) hen rfl, .of_setStage rfl rfl rfl⟩
  | lock j =>
    obtain ⟨resource, rest, hstage⟩ := hen
    obtain ⟨job, hjob, hlocking⟩ := Option.map_eq_some_iff.1 hstage
    have htype := h.types j job hjob (by rw [hlocking]; simp) (by rw [hlocking]; simp)
    refine ⟨s.setStage j (.locking rest), by simp only [exec, hstage], h.setStage hstage rfl (fun h => h) ?_,
      .setStage (by simp) hstage rfl, .of_setStage rfl rfl rfl⟩
    intro other hother _
    obtain rfl := Option.some.inj (hjob.symm.trans hother)
    exact htype
  | add j =>
    refine ⟨_, rfl, h.add hen, ?_⟩
    unfold ActiveRun.add
    split
    · exact ⟨.setStage (by simp) hen rfl, .of_setStage rfl rfl rfl⟩
    · exact ⟨.quiet (by simp) rfl rfl rfl rfl (Inserted.setStage_iff hen rfl), .of_setStage rfl rfl rfl⟩
  | insert j =>
    obtain ⟨job, hjob, hadded⟩ := Option.map_eq_some_iff.1 hen
    exact ⟨_, by simp only [exec, hjob], h.insert hjob hadded, insert_effect hjob hadded,
      .of_setStage rfl rfl rfl⟩
  | respond j epoch order =>
    obtain ⟨hstage, hnew, ho⟩ := hen
    obtain ⟨job, hjob, hinserted⟩ := Option.map_eq_some_iff.1 hstage
    have htype := h.types j job hjob (by rw [hinserted]; simp) (by rw [hinserted]; simp)
    have hinv : (s.getStatus epoch order).Inv := h.move rfl rfl (.refl _) fun _ _ hk => hk
    have hstage' : (s.getStatus epoch order).stageOf j = some .inserted := hstage
    refine ⟨_, rfl, hinv.setStage hstage' rfl (fun _ => rfl) fun other hother _ => ?_,
      .status (by simp) hnew ho rfl rfl rfl rfl (Inserted.setStage_iff hstage' rfl),
      .of_setStage rfl rfl rfl⟩
    obtain rfl := Option.some.inj (hjob.symm.trans hother)
    exact htype
  | take =>
    obtain ⟨hvalues, -⟩ := hen
    cases hv : s.values with
    | nil => exact absurd hv hvalues
    | cons j values =>
      obtain ⟨job, hjob, htake⟩ := h.take_eq hv
      exact ⟨_, by simp only [exec, hv, hjob, htake], h.take hv,
        .quiet (by simp) rfl rfl rfl rfl fun _ => Iff.rfl, .of_jobs rfl rfl rfl⟩
  | finish j =>
    have hmem : j ∈ s.values ++ (s.running ++ s.finished) :=
      List.mem_append_right _ (List.mem_append_left _ hen)
    obtain ⟨stage, hstage, -⟩ := (h.places j).1 hmem
    obtain ⟨job, hjob, -⟩ := Option.map_eq_some_iff.1 hstage
    have hid : s.idOf j = some job.id := by rw [idOf, hjob]; rfl
    have hnew : j ∉ s.finished :=
      (List.nodup_append'.1 (List.nodup_append'.1 h.nodup).2.1).2.2 hen
    exact ⟨_, by simp only [exec, hjob], h.finish hen job.id,
      .finish hid hnew rfl rfl rfl rfl fun _ => Iff.rfl, .of_jobs rfl rfl rfl⟩
  | report j epoch order =>
    obtain ⟨-, hnew, ho⟩ := hen
    exact ⟨_, rfl, h.move rfl rfl (.refl _) fun _ _ hk => hk,
      .status (by simp) hnew ho rfl rfl rfl rfl fun _ => Iff.rfl, .of_jobs rfl rfl rfl⟩
  | getStatus epoch order =>
    obtain ⟨hnew, ho⟩ := hen
    exact ⟨_, rfl, h.move rfl rfl (.refl _) fun _ _ hk => hk,
      .status (by simp) hnew ho rfl rfl rfl rfl fun _ => Iff.rfl, .of_jobs rfl rfl rfl⟩
  | stop =>
    exact ⟨_, rfl, h.move rfl rfl (.refl _) fun _ _ hk => hk,
      .quiet (by simp) rfl rfl rfl rfl fun _ => Iff.rfl, .of_jobs rfl rfl rfl⟩

theorem machine_inv {ok : ActiveRun → ActiveStep → Prop} (h : machine.Reachable ok s) : s.Inv := by
  refine h.invariant ?_ ?_
  · rintro s ⟨address, queueSize, sandboxes, rfl⟩
    exact .new address queueSize sandboxes
  · intro s a t hs _ hen hex
    obtain ⟨t', ht, hinv, -, -⟩ := hs.step hen
    obtain rfl := Except.ok.inj (ht.symm.trans hex)
    exact hinv

/-- No thread gets a job of an unknown type. -/
theorem machine_safe (ok : ActiveRun → ActiveStep → Prop) : machine.Safe ok := by
  intro s hs a _ hen
  obtain ⟨t, ht, -⟩ := (machine_inv hs).step hen
  exact ⟨t, ht⟩

/-! ## Finished jobs -/

/-- `ActiveJobs` has no finished job; every ID in a status is that of a job that had not finished when
the status was taken; and a status takes at most the unfinished jobs from `MaxJobs`. -/
structure OmitsFinished (s : ActiveRun) : Prop where
  active : ∀ id j, s.activeJobs.get? id = some j → j ∉ s.finished
  statuses : ∀ taken ∈ s.statuses, ∀ id ∈ taken.status.activeJobIDs,
    ∃ j, s.idOf j = some id ∧ j ∉ taken.finished
  maxNewJobs : ∀ taken ∈ s.statuses,
    (s.maxJobs : Int) - taken.unfinished ≤ taken.status.maxNewJobs

/-- The handler inserts no job into `ActiveJobs` that a thread has finished already. -/
def insertsUnfinished (s : ActiveRun) : ActiveStep → Prop
  | .insert j => j ∉ s.finished
  | _ => True

theorem OmitsFinished.new (address : String) (queueSize sandboxes : Nat) :
    (new address queueSize sandboxes).OmitsFinished :=
  ⟨fun _ _ h => (nomatch h), fun _ h => (nomatch h), fun _ h => (nomatch h)⟩

/-- `ActiveJobs` has at most the jobs that are in `SandboxThreads` or in a thread. -/
theorem OmitsFinished.length_le (h : s.OmitsFinished) (hinv : s.Inv) :
    s.activeJobs.keys.length ≤ s.values.length + s.running.length := by
  have hactive : ∀ e ∈ s.activeJobs.entries, s.activeJobs.get? e.1 = some e.2 := fun e he =>
    (GoMap.mem_entries_iff _ _ _).1 he
  have hkeys : (s.activeJobs.entries.map Prod.snd).map s.idOf = s.activeJobs.keys.map some := by
    rw [← GoMap.entries_map_fst, List.map_map, List.map_map]
    exact List.map_congr_left fun e he => (hinv.active e.1 e.2 (hactive e he)).1
  -- a job has one ID, so the jobs of the map are as many as its keys
  have hnodup : (s.activeJobs.entries.map Prod.snd).Nodup := by
    refine List.Nodup.of_map s.idOf ?_
    rw [hkeys]
    exact s.activeJobs.nodup_keys.map fun _ _ => Option.some.inj
  have hsub : s.activeJobs.entries.map Prod.snd ⊆ s.values ++ s.running := by
    intro j hj
    obtain ⟨e, he, rfl⟩ := List.mem_map.1 hj
    have hadded := (hinv.active e.1 e.2 (hactive e he)).2.added
    have hplace := (hinv.places e.2).2 hadded
    have hunfinished := h.active e.1 e.2 (hactive e he)
    simp only [List.mem_append] at hplace ⊢
    tauto
  have hlength := (List.subperm_of_subset hnodup hsub).length_le
  have hcount : (s.activeJobs.entries.map Prod.snd).length = s.activeJobs.keys.length := by
    rw [← GoMap.entries_map_fst, List.length_map, List.length_map]
  rw [List.length_append] at hlength
  omega

/-- The statuses that were taken before a step are about the same jobs after it. -/
theorem OmitsFinished.old (h : s.OmitsFinished) {a : ActiveStep} (hext : s.Extends a t) :
    ∀ taken ∈ s.statuses, (∀ id ∈ taken.status.activeJobIDs,
      ∃ j, t.idOf j = some id ∧ j ∉ taken.finished) ∧
      (t.maxJobs : Int) - taken.unfinished ≤ taken.status.maxNewJobs := by
  intro taken hmem
  refine ⟨fun id hid => ?_, hext.maxJobs ▸ h.maxNewJobs taken hmem⟩
  obtain ⟨j, hj, hunfinished⟩ := h.statuses taken hmem id hid
  exact ⟨j, hext.ids j id hj, hunfinished⟩

/-- A step that takes no status. -/
theorem OmitsFinished.keep (h : s.OmitsFinished) {a : ActiveStep} (hext : s.Extends a t)
    (hstatuses : t.statuses = s.statuses)
    (hactive : ∀ id j, t.activeJobs.get? id = some j → j ∉ t.finished) : t.OmitsFinished := by
  refine ⟨hactive, ?_, ?_⟩
  · rw [hstatuses]
    exact fun taken hmem => (h.old hext taken hmem).1
  · rw [hstatuses]
    exact fun taken hmem => (h.old hext taken hmem).2

theorem OmitsFinished.step (h : s.OmitsFinished) (hinv : s.Inv) {a : ActiveStep}
    (hok : insertsUnfinished s a) (heffect : s.Effect a t) (hext : s.Extends a t) :
    t.OmitsFinished := by
  cases heffect with
  | quiet _ hactive hfinished _ hstatuses =>
    refine h.keep hext hstatuses ?_
    rw [hactive, hfinished]
    exact h.active
  | @insert _ j id hid hnew hactive hfinished _ hstatuses =>
    refine h.keep hext hstatuses fun x k hk => ?_
    rw [hactive] at hk
    rw [hfinished]
    rcases GoMap.of_get?_set hk with ⟨-, rfl⟩ | ⟨-, hk⟩
    · exact hok
    · exact h.active x k hk
  | @finish _ j id hid _ hactive hfinished _ hstatuses =>
    refine h.keep hext hstatuses fun x k hk => ?_
    rw [hactive] at hk
    obtain ⟨hne, hk⟩ := GoMap.of_get?_delete hk
    rw [hfinished, List.mem_cons, not_or]
    refine ⟨?_, h.active x k hk⟩
    -- the deleted key is the ID of the finished job, under which alone it can be in the map
    rintro rfl
    exact hne (Option.some.inj ((hinv.active x k hk).1.symm.trans hid))
  | @status _ _ epoch order _ _ ho hactive hfinished _ hstatuses =>
    have hnew : ∀ id ∈ (s.status epoch order).activeJobIDs,
        ∃ j, t.idOf j = some id ∧ j ∉ s.finished := by
      intro id hid
      obtain ⟨j, hj⟩ := (GoMap.mem_keys_iff _ _).1 ((ho _).mem_iff.1 hid)
      exact ⟨j, hext.ids j id (hinv.active id j hj).1, h.active id j hj⟩
    have hmax : (t.maxJobs : Int) - ((s.values.length + s.running.length : Nat) : Int) ≤
        (s.status epoch order).maxNewJobs := by
      have hlength := h.length_le hinv
      have hperm : (order s.activeJobs.keys).length = s.activeJobs.keys.length := (ho _).length_eq
      rw [hext.maxJobs]
      simp only [ActiveRun.status, hperm]
      split <;> omega
    refine ⟨?_, ?_, ?_⟩
    · rw [hactive, hfinished]
      exact h.active
    · rw [hstatuses]
      intro taken hmem
      rcases List.mem_cons.1 hmem with rfl | hmem
      · exact hnew
      · exact (h.old hext taken hmem).1
    · rw [hstatuses]
      intro taken hmem
      rcases List.mem_cons.1 hmem with rfl | hmem
      · exact hmax
      · exact (h.old hext taken hmem).2

/-- In a run in which no handler inserts a finished job, no status shows a finished job or counts it
against `MaxNewJobs`; an insertion of a finished job ends this. -/
theorem omitsFinished_of_insertsUnfinished (h : machine.Reachable insertsUnfinished s) :
    s.OmitsFinished ∧ ∀ a t, machine.enabled s a → machine.exec s a = .ok t →
      (t.OmitsFinished ↔ insertsUnfinished s a) := by
  have hs : s.OmitsFinished := by
    have hrun : s.Inv ∧ s.OmitsFinished := by
      refine h.invariant (P := fun s => s.Inv ∧ s.OmitsFinished) ?_ ?_
      · rintro s ⟨address, queueSize, sandboxes, rfl⟩
        exact ⟨.new address queueSize sandboxes, .new address queueSize sandboxes⟩
      · rintro s a t ⟨hinv, hs⟩ hok hen hex
        obtain ⟨t', ht, hinv', heffect, hext⟩ := hinv.step hen
        obtain rfl := Except.ok.inj (ht.symm.trans hex)
        exact ⟨hinv', hs.step hinv hok heffect hext⟩
    exact hrun.2
  refine ⟨hs, fun a t hen hex => ?_⟩
  have hinv := machine_inv h
  obtain ⟨t', ht, -, heffect, hext⟩ := hinv.step hen
  obtain rfl := Except.ok.inj (ht.symm.trans hex)
  refine ⟨fun homits => ?_, fun hok => hs.step hinv hok heffect hext⟩
  cases a with
  | insert j =>
    cases heffect with
    | quiet ha => exact absurd rfl (ha j)
    | status ha => exact absurd rfl (ha j)
    | @insert _ _ id _ _ hactive hfinished =>
      have hin : t'.activeJobs.get? id = some j := by rw [hactive, GoMap.get?_set_self]
      have hout := homits.active id j hin
      rw [hfinished] at hout
      exact hout
  | _ => trivial

theorem omitsFinished_of_insertsUnfinished_one_job :
    ∃ s : ActiveRun, s.finished = [0] ∧ s.statuses.length = 1 ∧ s.OmitsFinished := by
  refine ⟨_, ?_, ?_, (omitsFinished_of_insertsUnfinished (Machine.Reachable.of_runs machine
    insertsUnfinished [.receive 7 .compileJob 0, .initJob 0 0 (some (1, 1, 1)), .lock 0, .add 0,
      .insert 0, .take, .finish 0, .report 0 1 id] (.of_init ⟨"invoker", 0, 1, rfl⟩)
    ⟨trivial, trivial, _, rfl, trivial, rfl, _, rfl, trivial, ⟨_, _, rfl⟩, _, rfl, trivial, rfl, _,
      rfl, List.not_mem_nil, rfl, _, rfl, trivial, ⟨List.cons_ne_nil 0 [], Nat.zero_lt_one⟩, _, rfl,
      trivial, List.mem_cons_self, _, rfl, trivial,
      ⟨List.mem_cons_self, by decide, fun _ => .refl _⟩, _, rfl, rfl⟩)).1⟩
  · rfl
  · rfl

/-- The requests are for other jobs than `id`. -/
def receivesOther (id : JobID) (_ : ActiveRun) : ActiveStep → Prop
  | .receive id' _ _ => id' ≠ id
  | _ => True

/-- A finished job in `ActiveJobs` stays there as long as there is no other request with its ID. -/
theorem finished_job_stays {ok : ActiveRun → ActiveStep → Prop} (h : machine.Reachable ok s)
    {id : JobID} (hin : s.activeJobs.get? id = some j) (hfinished : j ∈ s.finished)
    (honly : ∀ k, s.idOf k = some id → k = j) (hrun : machine.Reaches (receivesOther id) s t) :
    t.activeJobs.get? id = some j ∧ j ∈ t.finished := by
  have hkeeps : t.Inv ∧ t.activeJobs.get? id = some j ∧ j ∈ t.finished ∧
      ∀ k, t.idOf k = some id → k = j := by
    refine hrun.keeps (P := fun s => s.Inv ∧ s.activeJobs.get? id = some j ∧ j ∈ s.finished ∧
      ∀ k, s.idOf k = some id → k = j) ⟨machine_inv h, hin, hfinished, honly⟩ ?_
    rintro s a t ⟨hinv, hin, hfinished, honly⟩ hok hen hex
    obtain ⟨t', ht, hinv', heffect, hext⟩ := hinv.step hen
    obtain rfl := Except.ok.inj (ht.symm.trans hex)
    have honly' : ∀ k, t'.idOf k = some id → k = j := by
      intro k hk
      rcases hext.received k id hk with hold | ⟨-, type, test, rfl⟩
      · exact honly k hold
      · exact absurd rfl hok
    refine ⟨hinv', ?_, ?_, honly'⟩
    · cases heffect with
      | quiet _ hactive => rw [hactive]; exact hin
      | status _ _ _ hactive => rw [hactive]; exact hin
      | @insert _ k x hid hnew hactive =>
        rw [hactive, GoMap.get?_set_ne]
        · exact hin
        · rintro rfl
          obtain rfl := honly k hid
          exact hnew (hinv.active _ _ hin).2
      | @finish _ k x hid hnew hactive =>
        rw [hactive, GoMap.get?_delete_ne]
        · exact hin
        · rintro rfl
          obtain rfl := honly k hid
          exact hnew hfinished
    · cases heffect with
      | quiet _ _ hfin => rw [hfin]; exact hfinished
      | status _ _ _ _ hfin => rw [hfin]; exact hfinished
      | insert _ _ _ hfin => rw [hfin]; exact hfinished
      | finish _ _ _ hfin => rw [hfin]; exact List.mem_cons_of_mem _ hfinished
  exact ⟨hkeeps.2.1, hkeeps.2.2.1⟩

/-- A thread takes and finishes the job before the handler inserts it; then the job stays in
`ActiveJobs`, unless there is another request with its ID. -/
theorem finished_job_active : ∃ s : ActiveRun, machine.Reachable Machine.always s ∧
    ¬ s.OmitsFinished ∧ ∀ t, machine.Reaches (receivesOther 7) s t →
      t.activeJobs.get? 7 = some 0 ∧ 0 ∈ t.finished := by
  have hs : machine.Reachable Machine.always _ := Machine.Reachable.of_runs machine
    Machine.always [.receive 7 .compileJob 0, .initJob 0 0 (some (1, 1, 1)), .lock 0, .add 0,
      .take, .finish 0, .report 0 1 id, .insert 0, .respond 0 2 id]
    (.of_init ⟨"invoker", 0, 1, rfl⟩)
    ⟨trivial, trivial, _, rfl, trivial, rfl, _, rfl, trivial, ⟨_, _, rfl⟩, _, rfl, trivial, rfl, _,
      rfl, trivial, ⟨List.cons_ne_nil 0 [], Nat.zero_lt_one⟩, _, rfl, trivial, List.mem_cons_self, _,
      rfl, trivial, ⟨List.mem_cons_self, by decide, fun _ => .refl _⟩, _, rfl, trivial, rfl, _, rfl,
      trivial, ⟨rfl, by decide, fun _ => .refl _⟩, _, rfl, rfl⟩
  refine ⟨_, hs, fun homits => ?_, fun t hrun => ?_⟩
  · exact homits.active 7 0 rfl List.mem_cons_self
  · refine finished_job_stays hs rfl List.mem_cons_self (fun k hk => ?_) hrun
    rcases Nat.eq_zero_or_pos k with hzero | hpos
    · exact hzero
    · have hnone := (machine_inv hs).received k hpos
      rw [idOf, hnone] at hk
      cases hk

/-! ## The process of a link -/

/-- No two requests have the same job ID. -/
def receivesFresh (s : ActiveRun) : ActiveStep → Prop
  | .receive id _ _ => ∀ j, s.idOf j ≠ some id
  | _ => True

/-- The `InvokerProcess` that the master is linked to. -/
structure Simulates (p : InvokerProcess) (s : ActiveRun) : Prop where
  address : p.address = s.address
  maxJobs : p.maxJobs = s.maxJobs
  activeJobs : p.activeJobs = s.activeJobs.keys
  epoch : p.epoch = s.epoch
  statuses : p.statuses = s.statuses.map TakenStatus.status
  entered : ∀ id, (∃ e, p.timeline.entered id = some e) → ∃ j, s.idOf j = some id ∧ s.Inserted j

theorem Simulates.step {p : InvokerProcess} (h : Simulates p s) (hp : p.WellFormed) (hinv : s.Inv)
    (hunique : ∀ j k id, s.idOf j = some id → s.idOf k = some id → j = k) {a : ActiveStep}
    (heffect : s.Effect a t) (hext : s.Extends a t) : ∃ q : InvokerProcess, q.WellFormed ∧
      Simulates q t := by
  have hentered : ∀ id, (∃ e, p.timeline.entered id = some e) →
      (∀ k, s.Inserted k → t.Inserted k) → ∃ j, t.idOf j = some id ∧ t.Inserted j := by
    intro id he hmono
    obtain ⟨j, hid, hins⟩ := h.entered id he
    exact ⟨j, hext.ids j id hid, hmono j hins⟩
  have haddress := h.address.trans hext.address.symm
  have hmax := h.maxJobs.trans hext.maxJobs.symm
  cases heffect with
  | quiet _ hactive hfinished hepoch hstatuses hinserted =>
    exact ⟨p, hp, haddress, hmax, h.activeJobs.trans (by rw [hactive]), h.epoch.trans hepoch.symm,
      h.statuses.trans (by rw [hstatuses]), fun id he => hentered id he fun k => (hinserted k).2⟩
  | @insert _ j id hid hnew hactive _ hepoch hstatuses hinserted =>
    have hfresh : p.timeline.entered id = none := by
      cases he : p.timeline.entered id with
      | none => rfl
      | some e =>
        obtain ⟨k, hk, hins⟩ := h.entered id ⟨e, he⟩
        exact absurd (hunique k j id hk hid ▸ hins) hnew
    have hkey : s.activeJobs.get? id = none := by
      cases hk : s.activeJobs.get? id with
      | none => rfl
      | some k =>
        obtain ⟨hkid, hins⟩ := hinv.active id k hk
        exact absurd (hunique k j id hkid hid ▸ hins) hnew
    refine ⟨p.insert id, hp.insert hfresh, haddress, hmax, ?_, h.epoch.trans hepoch.symm,
      h.statuses.trans (by rw [hstatuses]), fun x he => ?_⟩
    · show id :: p.activeJobs = t.activeJobs.keys
      rw [hactive, GoMap.keys_set_of_none hkey, h.activeJobs]
    · obtain ⟨e, he⟩ := he
      have he : Function.update p.timeline.entered id (some p.epoch) x = some e := he
      rw [Function.update_apply] at he
      split at he
      · next heq => exact ⟨j, hext.ids j x (heq ▸ hid), (hinserted j).2 (.inl rfl)⟩
      · exact hentered x ⟨e, he⟩ fun k hk => (hinserted k).2 (.inr hk)
  | @finish _ j id hid _ hactive _ hepoch hstatuses hinserted =>
    have hmono : ∀ k, s.Inserted k → t.Inserted k := fun k => (hinserted k).2
    -- the deletion of an absent key is no step of the process
    by_cases hmem : id ∈ p.activeJobs
    · refine ⟨p.delete id, hp.delete hmem, haddress, hmax, ?_, h.epoch.trans hepoch.symm,
        h.statuses.trans (by rw [hstatuses]), fun x he => hentered x he hmono⟩
      show p.activeJobs.erase id = t.activeJobs.keys
      rw [hactive, h.activeJobs, GoMap.keys_delete]
    · refine ⟨p, hp, haddress, hmax, ?_, h.epoch.trans hepoch.symm,
        h.statuses.trans (by rw [hstatuses]), fun x he => hentered x he hmono⟩
      rw [hactive, GoMap.keys_delete, ← h.activeJobs, List.erase_of_not_mem hmem]
  | @status _ _ epoch order _ hnew ho hactive _ hepoch hstatuses hinserted =>
    refine ⟨p.getStatus epoch order, hp.getStatus (h.epoch ▸ hnew) ho, haddress, hmax, ?_,
      hepoch.symm, ?_, fun x he => hentered x he fun k => (hinserted k).2⟩
    · exact h.activeJobs.trans (by rw [hactive])
    · have hstatus : p.status epoch order = s.status epoch order := by
        simp only [InvokerProcess.status, InvokerProcess.maxNewJobs, status, h.address, h.maxJobs,
          h.activeJobs]
      show p.status epoch order :: p.statuses = t.statuses.map TakenStatus.status
      rw [hstatuses, hstatus, h.statuses]
      rfl

/-- In every run with fresh job IDs, also in one that inserts a finished job, the invoker is one of the
processes that a `Link` may start from. -/
theorem process_of_receivesFresh (h : machine.Reachable receivesFresh s) :
    ∃ p : InvokerProcess, p.WellFormed ∧ Simulates p s := by
  have hrun : s.Inv ∧ (∀ j k id, s.idOf j = some id → s.idOf k = some id → j = k) ∧
      ∃ p : InvokerProcess, p.WellFormed ∧ Simulates p s := by
    refine h.invariant (P := fun s => s.Inv ∧
      (∀ j k id, s.idOf j = some id → s.idOf k = some id → j = k) ∧
      ∃ p : InvokerProcess, p.WellFormed ∧ Simulates p s) ?_ ?_
    · rintro s ⟨address, queueSize, sandboxes, rfl⟩
      refine ⟨.new address queueSize sandboxes, fun _ _ _ hj => (nomatch hj),
        .new address (queueSize + sandboxes), .new _ _, rfl, rfl, rfl, rfl, rfl, ?_⟩
      rintro id ⟨e, he⟩
      cases he
    · rintro s a t ⟨hinv, hunique, p, hp, hsim⟩ hok hen hex
      obtain ⟨t', ht, hinv', heffect, hext⟩ := hinv.step hen
      obtain rfl := Except.ok.inj (ht.symm.trans hex)
      refine ⟨hinv', fun j k id hj hk => ?_, hsim.step hp hinv hunique heffect hext⟩
      rcases hext.received j id hj with hj | ⟨hj, type, test, rfl⟩
      · rcases hext.received k id hk with hk | ⟨-, type, test, rfl⟩
        · exact hunique j k id hj hk
        · exact absurd hj (hok j)
      · rcases hext.received k id hk with hk | ⟨hk, -⟩
        · exact absurd hk (hok k)
        · exact hj.trans hk.symm
  exact hrun.2.2

end ActiveRun

end TestingSystem
