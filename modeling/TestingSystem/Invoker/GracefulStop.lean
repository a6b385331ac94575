import TestingSystem.Invoker.InvokerThreads
import TestingSystem.Lib.Outcome

/-!
# The invoker stops without refusing its own work

The runner pool is closed only when the counter of `threadsWaiter` is zero, which is when every sandbox
thread has left its loop. A job runs on a sandbox thread, so `runProcess` never meets a closed pool; and
a job waits for each of its functions, so all of them have been executed when the pool is closed.
-/

set_option autoImplicit false

namespace TestingSystem

namespace InvokerThreads

variable {S R J H : Type} [DecidableEq S] [DecidableEq R] [Fintype S] {i : InvokerThreads S R J H}

/-- What holds between the two pools. -/
structure Inv (i : InvokerThreads S R J H) : Prop where
  sandbox : i.sandbox.Locked ∧ i.sandbox.Queued
  runner : i.runner.Locked ∧ i.runner.Queued
  waiter : i.threadsWaiter + i.doneThreads.card = Fintype.card S
  done : ∀ s ∈ i.doneThreads, i.sandbox.stages s = .finished
  stopped : i.runner.closed = true → ∀ s, i.sandbox.stages s = .finished
  busy : ∀ s, i.progress s ≠ .working → ∃ job, i.sandbox.stages s = .processing job
  accepted : i.refused = [] ∧ ∀ s, i.progress s ≠ .queueing false
  queued : ∀ f ∈ i.runner.added,
    f ∈ i.executed ∨ i.progress f.1 ≠ .working ∧ f.2 + 1 = i.calls f.1

namespace Inv

theorem init : Inv ({ threadsWaiter := Fintype.card S } : InvokerThreads S R J H) where
  sandbox := ⟨.init, .init⟩
  runner := ⟨.init, .init⟩
  waiter := rfl
  done := fun s hs => absurd hs (Finset.notMem_empty s)
  stopped := nofun
  busy := fun _ h => absurd rfl h
  accepted := ⟨rfl, fun _ => nofun⟩
  queued := nofun

/-- The counter is zero only when every sandbox thread has finished. -/
theorem all_finished (h : Inv i) (hzero : i.threadsWaiter = 0) (s : S) :
    i.sandbox.stages s = .finished := by
  refine h.done s ?_
  have hcard := h.waiter
  rw [hzero, Nat.zero_add] at hcard
  rw [(Finset.card_eq_iff_eq_univ _).1 hcard]
  exact Finset.mem_univ s

/-- A thread that runs a job keeps the runner pool open. -/
theorem open_of_processing (h : Inv i) {s : S} {job : J} (hs : i.sandbox.stages s = .processing job) :
    i.runner.closed = false := by
  cases hclosed : i.runner.closed with
  | false => rfl
  | true => rw [h.stopped hclosed s] at hs; cases hs

variable [DecidableEq H]

/-- A step of the sandbox pool. -/
theorem sandbox_step (h : Inv i) {a : ExecutorStep S J (SandboxCaller H)}
    (hen : i.sandbox.Enabled a) (hallows : i.AllowsSandbox a)
    {sandbox : ThreadsExecutor S J (SandboxCaller H)} (hex : i.sandbox.exec a = .ok sandbox) :
    Inv { i with sandbox := sandbox } := by
  have hret : ThreadsExecutor.Returns i.sandbox a := by
    rintro t job rfl
    exact hallows
  obtain ⟨_, hex', hlocked⟩ := h.sandbox.1.step hen hret
  cases hex'.symm.trans hex
  refine { h with
    sandbox := ⟨hlocked, h.sandbox.2.step h.sandbox.1 hen hret hex⟩
    done := fun s hs => ThreadsExecutor.finished_step hen hex (h.done s hs)
    stopped := fun hc s => ThreadsExecutor.finished_step hen hex (h.stopped hc s)
    busy := fun s hs => ?_ }
  obtain ⟨job, hjob⟩ := h.busy s hs
  refine ⟨job, ThreadsExecutor.processing_step hen hex hjob ?_ (hret s job)⟩
  rintro rfl
  exact hs hallows

/-- A step of the runner pool keeps that pool in order. -/
theorem runner_pool (h : Inv i) {a : ExecutorStep R (S × Nat) (RunnerCaller S H)}
    (hen : i.runner.Enabled a) (hallows : i.AllowsRunner a)
    {runner : ThreadsExecutor R (S × Nat) (RunnerCaller S H)}
    (hex : i.runner.exec a = .ok runner) : runner.Locked ∧ runner.Queued := by
  have hret : ThreadsExecutor.Returns i.runner a := by
    rintro t f rfl
    exact hallows
  obtain ⟨_, hex', hlocked⟩ := h.runner.1.step hen hret
  cases hex'.symm.trans hex
  exact ⟨hlocked, h.runner.2.step h.runner.1 hen hret hex⟩

omit [DecidableEq H] in
/-- A step of the runner pool that adds no function and closes the pool only after the sandbox
threads. -/
theorem runner_keep (h : Inv i) {runner : ThreadsExecutor R (S × Nat) (RunnerCaller S H)}
    (hpool : runner.Locked ∧ runner.Queued) (hadded : runner.added = i.runner.added)
    (hclosed : runner.closed = true → ∀ s, i.sandbox.stages s = .finished) :
    Inv { i with runner := runner } :=
  { h with
    runner := hpool
    stopped := hclosed
    queued := fun f hf => h.queued f (hadded ▸ hf) }

omit [DecidableEq R] [Fintype S] [DecidableEq H] in
/-- What holds of the new place of a job and of the places of the others holds of all places. -/
theorem forall_setProgress {P : S → JobProgress → Prop} {s : S} {progress : JobProgress}
    (hself : P s progress) (hothers : ∀ s', s' ≠ s → P s' (i.progress s')) (s' : S) :
    P s' ((i.setProgress s progress).progress s') := by
  by_cases heq : s' = s
  · subst heq
    simpa [InvokerThreads.setProgress] using hself
  · simpa [InvokerThreads.setProgress, heq] using hothers s' heq

omit [DecidableEq H] in
/-- A job comes to a place where its function is still unfinished or has been executed. -/
theorem setProgress (h : Inv i) {s : S} {progress : JobProgress}
    (hbusy : progress ≠ .working → i.progress s ≠ .working) (hrefused : progress ≠ .queueing false)
    (hdone : progress = .working → i.progress s ≠ .working → (s, i.calls s - 1) ∈ i.executed) :
    Inv (i.setProgress s progress) := by
  refine { h with
    busy := forall_setProgress (P := fun s' progress => progress ≠ .working →
      ∃ job, i.sandbox.stages s' = .processing job) (fun hne => h.busy s (hbusy hne))
      fun s' _ => h.busy s'
    accepted := ⟨h.accepted.1, forall_setProgress (P := fun _ progress => progress ≠ .queueing false)
      hrefused fun s' _ => h.accepted.2 s'⟩
    queued := fun f hf => forall_setProgress (P := fun s' progress => ∀ n, (s', n) ∈ i.runner.added →
      (s', n) ∈ i.executed ∨ progress ≠ .working ∧ n + 1 = i.calls s') ?_
      (fun s' _ n hn => h.queued (s', n) hn) f.1 f.2 hf }
  intro n hn
  rcases h.queued (s, n) hn with hexec | ⟨hworking, hlast⟩
  · exact .inl hexec
  · -- A job that goes on to work has seen its last function executed.
    by_cases hprogress : progress = .working
    · have hmem := hdone hprogress hworking
      rw [← hlast, Nat.add_sub_cancel] at hmem
      exact .inl hmem
    · exact .inr ⟨hprogress, hlast⟩

/-- `runProcess` meets an open pool, which accepts the function. -/
theorem runProcess (h : Inv i) {s : S} {job : J} {woken : Option R}
    (hen : i.runner.Enabled (.enter (.job s) (.add (s, i.calls s) woken)))
    (hjob : i.sandbox.stages s = .processing job) (hworking : i.progress s = .working)
    {runner : ThreadsExecutor R (S × Nat) (RunnerCaller S H)}
    (hpool : runner.Locked ∧ runner.Queued)
    (hex : i.runner.exec (.enter (.job s) (.add (s, i.calls s) woken)) = .ok runner) :
    Inv { i.followRunner (.enter (.job s) (.add (s, i.calls s) woken)) with runner := runner } := by
  have hopen := h.open_of_processing hjob
  have hadded : runner.added = i.runner.added ++ [(s, i.calls s)] := by
    cases hex
    simp [ThreadsExecutor.run, ThreadsExecutor.add, hopen, ThreadsExecutor.signal]
  have hclosed : runner.closed = false := by
    cases hex
    simp [ThreadsExecutor.run, ThreadsExecutor.add, hopen, ThreadsExecutor.signal]
  simp only [followRunner, hopen, Bool.false_eq_true, if_false]
  refine { h with
    runner := hpool
    stopped := fun hc => absurd (hclosed.symm.trans hc) Bool.false_ne_true
    busy := forall_setProgress (P := fun s' progress => progress ≠ .working →
      ∃ job, i.sandbox.stages s' = .processing job) (fun _ => ⟨job, hjob⟩) fun s' _ => h.busy s'
    accepted := ⟨h.accepted.1, forall_setProgress (P := fun _ progress => progress ≠ .queueing false)
      (by simp) fun s' _ => h.accepted.2 s'⟩
    queued := fun f hf => ?_ }
  rw [hadded, List.mem_append, List.mem_singleton] at hf
  rcases hf with hf | rfl
  · rcases h.queued f hf with hexec | ⟨hne, hlast⟩
    · exact .inl hexec
    · -- The job of an unfinished function is not at work, so it is another job.
      have heq : f.1 ≠ s := by
        rintro rfl
        exact hne hworking
      exact .inr ⟨by simpa [InvokerThreads.setProgress, heq] using hne, by simpa [heq] using hlast⟩
  · exact .inr ⟨by simp [InvokerThreads.setProgress], by simp⟩

omit [DecidableEq H] in
/-- A function calls `Done`. -/
theorem execute (h : Inv i) (f : S × Nat) : Inv { i with executed := i.executed ++ [f] } :=
  { h with
    queued := fun f' hf' => (h.queued f' hf').imp_left fun hexec => List.mem_append_left _ hexec }

omit [DecidableEq H] in
/-- A sandbox thread calls `threadsWaiter.Done`. -/
theorem doneThread (h : Inv i) {s : S} (hfinished : i.sandbox.stages s = .finished)
    (hs : s ∉ i.doneThreads) :
    Inv { i with threadsWaiter := i.threadsWaiter - 1, doneThreads := insert s i.doneThreads } := by
  refine { h with waiter := ?_, done := fun s' hs' => ?_ }
  · -- The thread is not counted as done yet, so the counter is positive.
    have hle : (insert s i.doneThreads).card ≤ Fintype.card S := Finset.card_le_univ _
    have hcard := Finset.card_insert_of_notMem hs
    have hwaiter := h.waiter
    show i.threadsWaiter - 1 + (insert s i.doneThreads).card = Fintype.card S
    omega
  · rcases Finset.mem_insert.1 hs' with rfl | hs'
    · exact hfinished
    · exact h.done s' hs'

/-- A step of the runner pool. -/
theorem runner_step (h : Inv i) {a : ExecutorStep R (S × Nat) (RunnerCaller S H)}
    (hen : i.runner.Enabled a) (hallows : i.AllowsRunner a)
    {runner : ThreadsExecutor R (S × Nat) (RunnerCaller S H)} (hex : i.runner.exec a = .ok runner) :
    Inv { i.followRunner a with runner := runner } := by
  have hpool := h.runner_pool hen hallows hex
  -- Without a call of `add` or `stop` the pool accepts and closes nothing.
  have hkeep : (∀ c call, a = .enter c call → call = .metrics) → Inv { i with runner := runner } := by
    intro hcall
    obtain ⟨hadded, hclosed⟩ := ThreadsExecutor.accepts_step hex hcall
    exact h.runner_keep hpool hadded fun hc => h.stopped (hclosed ▸ hc)
  cases a with
  | enter c call =>
    cases c with
    | handler c =>
      refine hkeep fun c' call' heq => ?_
      cases heq
      exact hallows
    | waiter =>
      obtain ⟨rfl, hzero, hopen⟩ := hallows
      refine h.runner_keep hpool ?_ fun _ => h.all_finished hzero
      cases hex
      simp [ThreadsExecutor.run, ThreadsExecutor.stop, hopen, ThreadsExecutor.broadcast]
    | job s =>
      obtain ⟨⟨job, hjob⟩, hworking, woken, rfl⟩ := hallows
      exact h.runProcess hen hjob hworking hpool hex
  | leave c =>
    cases c with
    | handler c => exact hkeep fun _ _ heq => by cases heq
    | waiter => exact hkeep fun _ _ heq => by cases heq
    | job s =>
      have hnot := h.accepted.2 s
      refine (hkeep fun _ _ heq => by cases heq).setProgress ?_ ?_ ?_
      all_goals cases hs : i.progress s with
      | working | awaiting => simp [JobProgress.leaveAdd]
      | queueing accepted => cases accepted <;> simp_all [JobProgress.leaveAdd]
  | lock | check | release | ret | exit | unwind => exact hkeep fun _ _ heq => by cases heq
  | panic => exact hallows.elim

/-- Every step keeps what holds between the pools. -/
theorem step (h : Inv i) {a : InvokerStep S R J H} (hen : i.Enabled a) {i' : InvokerThreads S R J H}
    (hex : i.exec a = .ok i') : Inv i' := by
  cases a with
  | cancel =>
    cases hex
    exact { h with }
  | sandbox a =>
    obtain ⟨sandbox, hpool, rfl⟩ := map_eq_ok.1 hex
    exact h.sandbox_step hen.1 hen.2 hpool
  | execute r f =>
    cases hex
    exact h.execute f
  | resume s =>
    cases hex
    refine h.setProgress (fun hne => absurd rfl hne) nofun fun _ _ => hen.2
  | done s =>
    cases hex
    exact h.doneThread hen.1 hen.2
  | runner a =>
    obtain ⟨runner, hpool, rfl⟩ := map_eq_ok.1 hex
    exact h.runner_step hen.1 hen.2 hpool

end Inv

variable [DecidableEq H]

/-- In every run the runner pool is closed only after the last sandbox thread, no job is refused a
function, and before a runner thread exits every function has been executed. -/
theorem stops_gracefully (h : (machine S R J H).Reachable Machine.always i) :
    (i.runner.closed = true → ∀ s, i.sandbox.stages s = .finished) ∧ i.refused = [] ∧
    ∀ r, i.runner.stages r = .finished → ∀ f ∈ i.runner.added, f ∈ i.executed ∧
      ∃ r', (r', f) ∈ i.runner.taken ∧
        (i.runner.stages r' = .finished → (r', f) ∈ i.runner.returned) := by
  have hinv : Inv i := by
    refine h.invariant ?_ fun i a i' hi _ hen hex => hi.step hen hex
    rintro _ rfl
    exact .init
  refine ⟨hinv.stopped, hinv.accepted.1, fun r hr f hf => ?_⟩
  obtain ⟨hclosed, hempty⟩ := hinv.runner.2.left r (.inr hr)
  constructor
  · -- A job whose function is not executed would still be running.
    rcases hinv.queued f hf with hexec | ⟨hne, -⟩
    · exact hexec
    · obtain ⟨job, hjob⟩ := hinv.busy f.1 hne
      rw [hinv.stopped hclosed f.1] at hjob
      cases hjob
  · rw [hinv.runner.2.log, hempty, List.append_nil] at hf
    obtain ⟨⟨r', f'⟩, hmem, rfl⟩ := List.mem_map.1 hf
    refine ⟨r', hmem, fun hr' => ?_⟩
    have hcurrent : i.runner.taken.filter (·.1 = r') = i.runner.returned.filter (·.1 = r') := by
      simpa [hr', ThreadStage.current] using hinv.runner.2.current r'
    have hfilter : (r', f') ∈ i.runner.taken.filter (·.1 = r') :=
      List.mem_filter.2 ⟨hmem, by simp⟩
    exact (List.mem_filter.1 (hcurrent ▸ hfilter)).1

/-- One job that queues a function while the invoker is asked to stop. -/
def queuesWhileStopping : List (InvokerStep Unit Unit Unit Unit) :=
  [.sandbox (.enter (.handler ()) (.add () none)), .sandbox (.leave (.handler ())),
    .sandbox (.lock ()), .sandbox (.check ()), .sandbox (.release () ()), .cancel,
    .sandbox (.enter .stopper .stop), .runner (.enter (.job ()) (.add ((), 0) none))]

theorem stops_gracefully_while_queueing :
    ∃ i, (machine Unit Unit Unit Unit).Reachable Machine.always i ∧ i.sandbox.closed = true ∧
      i.runner.added = [((), 0)] ∧ i.refused = [] := by
  have hruns : ∃ i, (machine Unit Unit Unit Unit).Runs Machine.always queuesWhileStopping
      { threadsWaiter := Fintype.card Unit } i ∧ i.sandbox.closed = true ∧
        i.runner.added = [((), 0)] :=
    ⟨_, ⟨trivial, ⟨⟨rfl, by decide, fun _ _ => nofun⟩, nofun⟩, _, rfl,
      trivial, ⟨Finset.mem_insert_self .., trivial⟩, _, rfl,
      trivial, ⟨⟨rfl, by decide⟩, trivial⟩, _, rfl, trivial, ⟨rfl, trivial⟩, _, rfl,
      trivial, ⟨rfl, trivial⟩, _, rfl, trivial, trivial, _, rfl,
      trivial, ⟨⟨rfl, by decide, trivial⟩, rfl, rfl, rfl⟩, _, rfl,
      trivial, ⟨⟨rfl, by decide, fun _ _ => nofun⟩, ⟨(), rfl⟩, rfl, none, rfl⟩, _, rfl, rfl⟩, rfl, rfl⟩
  obtain ⟨i, hr, hclosed, hadded⟩ := hruns
  have hreach := Machine.Reachable.of_runs (machine Unit Unit Unit Unit) Machine.always _
    (.of_init rfl) hr
  exact ⟨i, hreach, hclosed, hadded, (stops_gracefully hreach).2.1⟩

end InvokerThreads

end TestingSystem
