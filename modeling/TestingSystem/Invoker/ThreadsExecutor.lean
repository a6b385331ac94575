import TestingSystem.Lib.Machine
import Mathlib.Data.Finset.Insert
import Mathlib.Data.Finset.Erase
import Mathlib.Logic.Function.Basic

/-!
# A pool of threads

`threadsExecutor` of `invoker/threads_executor.go`: a queue of values under a mutex, and threads that
wait on a condition variable for values to process. The mutex is the goroutine that holds it, and every
`Lock`, `Unlock` and `Wait` of a thread is a step of its own. As in `sync`, `Unlock` does not ask who
holds the mutex and ends the program if nobody does; `Signal` wakes one waiting thread if there is one,
`Broadcast` wakes all.

`T` are the threads, `V` the values and `C` the other goroutines, which call `add`, `stop` and
`metrics`. Durations are left out.
-/

set_option autoImplicit false

namespace TestingSystem

/-- Where a thread of the pool is. -/
inductive ThreadStage (V : Type) where
  /-- Before the first `Lock`. -/
  | starting
  /-- At the test of `len(e.values)`, with the mutex. -/
  | checking
  /-- Asleep in `Wait`. -/
  | waiting
  /-- Woken in `Wait`, before it takes the mutex again. -/
  | woken
  /-- Before the `Unlock` in mid-loop. -/
  | taken (value : V)
  | processing (value : V)
  /-- Before the `Lock` in mid-loop. -/
  | returning
  /-- Out of the loop, before the deferred `Unlock`. -/
  | leaving
  | finished
  /-- The processor has panicked, and the deferred `Unlock` comes next. -/
  | panicking
  /-- The panic has left `runThread`. -/
  | crashed
  deriving DecidableEq, Repr

/-- Who holds the mutex. -/
inductive MutexOwner (T C : Type) where
  | thread (thread : T)
  | caller (caller : C)
  deriving DecidableEq, Repr

/-- `fatal error: sync: unlock of unlocked mutex`, which no `recover` stops. -/
inductive FatalError where
  | unlockOfUnlockedMutex
  deriving DecidableEq, Repr

/-- A call from outside. `woken` is the thread that `Signal` wakes. -/
inductive ExecutorCall (T V : Type) where
  | add (value : V) (woken : Option T)
  | stop
  | metrics

/-- A step of the pool. -/
inductive ExecutorStep (T V C : Type) where
  /-- A call takes the mutex and does its work. -/
  | enter (caller : C) (call : ExecutorCall T V)
  /-- The deferred `Unlock` of a call. -/
  | leave (caller : C)
  | lock (thread : T)
  | check (thread : T)
  | release (thread : T) (value : V)
  | ret (thread : T) (value : V)
  | panic (thread : T) (value : V)
  | exit (thread : T)
  | unwind (thread : T)

/-- The pool, with the callers between their `Lock` and `Unlock`. `added`, `taken` and `returned` are
the values that `add` accepted, that threads have taken and whose processors have returned; `panics`
are the threads whose panic `runProcess` has recovered. -/
structure ThreadsExecutor (T V C : Type) where
  values : List V := []
  closed : Bool := false
  owner : Option (MutexOwner T C) := none
  inside : Finset C := ∅
  stages : T → ThreadStage V := fun _ => .starting
  added : List V := []
  taken : List (T × V) := []
  returned : List (T × V) := []
  panics : List T := []

namespace ThreadsExecutor

variable {T V C : Type} [DecidableEq T] [DecidableEq C]

/-- The thread goes on to another place. -/
def setStage (e : ThreadsExecutor T V C) (t : T) (stage : ThreadStage V) : ThreadsExecutor T V C :=
  { e with stages := Function.update e.stages t stage }

/-- `mutex.Unlock`. -/
def unlock (e : ThreadsExecutor T V C) : Except FatalError (ThreadsExecutor T V C) :=
  match e.owner with
  | none => .error .unlockOfUnlockedMutex
  | some _ => .ok { e with owner := none }

/-- `cond.Signal`, which wakes `woken`. -/
def signal (e : ThreadsExecutor T V C) (woken : Option T) : ThreadsExecutor T V C :=
  { e with stages := fun t => if woken = some t then .woken else e.stages t }

/-- A sleeping thread after `Broadcast`. -/
def wake : ThreadStage V → ThreadStage V
  | .waiting => .woken
  | stage => stage

/-- `cond.Broadcast`. -/
def broadcast (e : ThreadsExecutor T V C) : ThreadsExecutor T V C :=
  { e with stages := fun t => wake (e.stages t) }

/-- `threadsExecutor.add`. A closed pool refuses the value. -/
def add (e : ThreadsExecutor T V C) (value : V) (woken : Option T) : ThreadsExecutor T V C :=
  if e.closed then e
  else { e with values := e.values ++ [value], added := e.added ++ [value] }.signal woken

/-- `threadsExecutor.stop`. -/
def stop (e : ThreadsExecutor T V C) : ThreadsExecutor T V C :=
  if e.closed then e else { e with closed := true }.broadcast

/-- The work of a call under the mutex. -/
def run (e : ThreadsExecutor T V C) : ExecutorCall T V → ThreadsExecutor T V C
  | .add value woken => e.add value woken
  | .stop => e.stop
  | .metrics => e

/-- The loop of `runThread` from the test of `len(e.values)` to the next `Wait`, `Unlock` or `break`. -/
def check (e : ThreadsExecutor T V C) (t : T) : Except FatalError (ThreadsExecutor T V C) :=
  match e.values with
  | [] =>
    if e.closed then .ok (e.setStage t .leaving)
    else e.unlock.map fun e => e.setStage t .waiting
  | value :: values =>
    .ok ({ e with values := values, taken := e.taken ++ [(t, value)] }.setStage t (.taken value))

/-- `Signal` wakes a waiting thread if there is one. -/
def Signals (e : ThreadsExecutor T V C) : Option T → Prop
  | none => ∀ t, e.stages t ≠ .waiting
  | some t => e.stages t = .waiting

/-- The call may do its work in this way. -/
def Answers (e : ThreadsExecutor T V C) : ExecutorCall T V → Prop
  | .add _ woken => e.closed = false → e.Signals woken
  | _ => True

/-- The step can be taken. -/
def Enabled (e : ThreadsExecutor T V C) : ExecutorStep T V C → Prop
  | .enter c call => e.owner = none ∧ c ∉ e.inside ∧ e.Answers call
  | .leave c => c ∈ e.inside
  | .lock t => e.owner = none ∧ e.stages t ∈ [.starting, .woken, .returning]
  | .check t => e.stages t = .checking
  | .release t value => e.stages t = .taken value
  | .ret t value => e.stages t = .processing value
  | .panic t value => e.stages t = .processing value
  | .exit t => e.stages t = .leaving
  | .unwind t => e.stages t = .panicking

/-- The effect of a step. -/
def exec (e : ThreadsExecutor T V C) : ExecutorStep T V C →
    Except FatalError (ThreadsExecutor T V C)
  | .enter c call =>
    .ok { e.run call with owner := some (.caller c), inside := insert c e.inside }
  | .leave c => e.unlock.map fun e => { e with inside := e.inside.erase c }
  | .lock t => .ok ({ e with owner := some (.thread t) }.setStage t .checking)
  | .check t => e.check t
  | .release t value => e.unlock.map fun e => e.setStage t (.processing value)
  | .ret t value => .ok ({ e with returned := e.returned ++ [(t, value)] }.setStage t .returning)
  | .panic t _ => .ok (e.setStage t .panicking)
  | .exit t => e.unlock.map fun e => e.setStage t .finished
  -- `runProcess` recovers what comes out of `runThread` and stops the other processes.
  | .unwind t => e.unlock.map fun e => { e.setStage t .crashed with panics := e.panics ++ [t] }

/-- Nothing has started. -/
def Initial (e : ThreadsExecutor T V C) : Prop := e = {}

variable (T V C) in
/-- The runs of a pool. -/
def machine : Machine (ThreadsExecutor T V C) (ExecutorStep T V C) FatalError where
  init := Initial
  enabled := Enabled
  exec := exec

/-- The step is not the panic of a processor. -/
def Returns (_ : ThreadsExecutor T V C) (a : ExecutorStep T V C) : Prop :=
  ∀ t value, a ≠ .panic t value

end ThreadsExecutor

end TestingSystem
