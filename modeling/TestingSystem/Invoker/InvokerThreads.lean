import TestingSystem.Invoker.ThreadsInvariant
import Mathlib.Data.Fintype.Card

/-!
# The two pools of the invoker

`initializeSandboxThreads` and `initializeRunnerThreads`: the sandbox threads process jobs, and a job
queues functions for the runner threads with `runProcess` and waits for each. When `StopCtx` is done a
process stops the sandbox pool; each sandbox thread calls `threadsWaiter.Done` after `runThread`, and
another process waits for all of them and stops the runner pool.

`S` and `R` are the threads of the pools, `J` the jobs and `H` the goroutines that handle requests and
send the status. A function is the sandbox thread whose job queued it and the number of functions that
the thread had queued before. No job and no function panics.
-/

set_option autoImplicit false

namespace TestingSystem

/-- Who calls `add`, `stop` and `metrics` of the sandbox pool. -/
inductive SandboxCaller (H : Type) where
  | handler (handler : H)
  /-- The process that waits for `StopCtx`. -/
  | stopper
  deriving DecidableEq, Repr

/-- Who calls `add`, `stop` and `metrics` of the runner pool. -/
inductive RunnerCaller (S H : Type) where
  | handler (handler : H)
  | job (thread : S)
  /-- The process that waits for `threadsWaiter`. -/
  | waiter
  deriving DecidableEq, Repr

/-- A job and the functions it queues. -/
inductive JobProgress where
  /-- Between two calls of `runProcess`. -/
  | working
  /-- In `RunnerThreads.add`, which has accepted the function or not. -/
  | queueing (accepted : Bool)
  /-- In `executeWaitGroup.Wait`. -/
  | awaiting
  deriving DecidableEq, Repr

/-- The job after `RunnerThreads.add`: it waits for a function that was accepted, and `runProcess`
returns the error otherwise. -/
def JobProgress.leaveAdd : JobProgress → JobProgress
  | .queueing true => .awaiting
  | .queueing false => .working
  | progress => progress

/-- The pools and what happens around them. `executed` are the functions that have called
`executeWaitGroup.Done`, `refused` those for which `runProcess` returned an error. -/
structure InvokerThreads (S R J H : Type) where
  sandbox : ThreadsExecutor S J (SandboxCaller H) := {}
  runner : ThreadsExecutor R (S × Nat) (RunnerCaller S H) := {}
  stopCtx : Bool := false
  threadsWaiter : Nat
  doneThreads : Finset S := ∅
  progress : S → JobProgress := fun _ => .working
  calls : S → Nat := fun _ => 0
  executed : List (S × Nat) := []
  refused : List (S × Nat) := []

/-- A step of the invoker. -/
inductive InvokerStep (S R J H : Type) where
  /-- `StopCtx` is cancelled. -/
  | cancel
  | sandbox (step : ExecutorStep S J (SandboxCaller H))
  | runner (step : ExecutorStep R (S × Nat) (RunnerCaller S H))
  /-- The function calls `executeWaitGroup.Done`. -/
  | execute (thread : R) (function : S × Nat)
  /-- `executeWaitGroup.Wait` of the job returns. -/
  | resume (thread : S)
  /-- `threadsWaiter.Done`. -/
  | done (thread : S)

namespace InvokerThreads

variable {S R J H : Type} [DecidableEq S] [DecidableEq R] [DecidableEq H]

/-- The invoker takes the step of its sandbox pool. -/
def AllowsSandbox (i : InvokerThreads S R J H) : ExecutorStep S J (SandboxCaller H) → Prop
  | .enter (.handler _) call => call ≠ .stop
  | .enter .stopper call => call = .stop ∧ i.stopCtx = true ∧ i.sandbox.closed = false
  | .ret s _ => i.progress s = .working
  | .panic _ _ => False
  | _ => True

/-- The invoker takes the step of its runner pool. -/
def AllowsRunner (i : InvokerThreads S R J H) :
    ExecutorStep R (S × Nat) (RunnerCaller S H) → Prop
  | .enter (.handler _) call => call = .metrics
  | .enter (.job s) call => (∃ job, i.sandbox.stages s = .processing job) ∧
    i.progress s = .working ∧ ∃ woken, call = .add (s, i.calls s) woken
  | .enter .waiter call => call = .stop ∧ i.threadsWaiter = 0 ∧ i.runner.closed = false
  | .ret _ function => function ∈ i.executed
  | .panic _ _ => False
  | _ => True

/-- The step can be taken. -/
def Enabled (i : InvokerThreads S R J H) : InvokerStep S R J H → Prop
  | .cancel => True
  | .sandbox a => i.sandbox.Enabled a ∧ i.AllowsSandbox a
  | .runner a => i.runner.Enabled a ∧ i.AllowsRunner a
  | .execute r function => i.runner.stages r = .processing function ∧ function ∉ i.executed
  | .resume s => i.progress s = .awaiting ∧ (s, i.calls s - 1) ∈ i.executed
  | .done s => i.sandbox.stages s = .finished ∧ s ∉ i.doneThreads

/-- The job goes on to another place. -/
def setProgress (i : InvokerThreads S R J H) (s : S) (progress : JobProgress) :
    InvokerThreads S R J H :=
  { i with progress := Function.update i.progress s progress }

/-- What a job does in a step of the runner pool: `runProcess` calls `add`, which returns an error if
the pool is closed. -/
def followRunner (i : InvokerThreads S R J H) :
    ExecutorStep R (S × Nat) (RunnerCaller S H) → InvokerThreads S R J H
  | .enter (.job s) _ =>
    if i.runner.closed then
      { i.setProgress s (.queueing false) with refused := i.refused ++ [(s, i.calls s)] }
    else
      { i.setProgress s (.queueing true) with calls := Function.update i.calls s (i.calls s + 1) }
  | .leave (.job s) =>
    i.setProgress s (i.progress s).leaveAdd
  | _ => i

/-- The effect of a step. -/
def exec (i : InvokerThreads S R J H) : InvokerStep S R J H →
    Except FatalError (InvokerThreads S R J H)
  | .cancel => .ok { i with stopCtx := true }
  | .sandbox a => (i.sandbox.exec a).map fun sandbox => { i with sandbox := sandbox }
  | .runner a => (i.runner.exec a).map fun runner => { i.followRunner a with runner := runner }
  | .execute _ function => .ok { i with executed := i.executed ++ [function] }
  | .resume s => .ok (i.setProgress s .working)
  | .done s => .ok { i with
      threadsWaiter := i.threadsWaiter - 1
      doneThreads := insert s i.doneThreads }

variable [Fintype S]

/-- `threadsWaiter` starts with the number of the sandbox threads. -/
def Initial (i : InvokerThreads S R J H) : Prop := i = { threadsWaiter := Fintype.card S }

variable (S R J H) in
/-- The runs of the invoker. -/
def machine : Machine (InvokerThreads S R J H) (InvokerStep S R J H) FatalError where
  init := Initial
  enabled := Enabled
  exec := exec

end InvokerThreads

end TestingSystem
