import TestingSystem.Invoker.ThreadsExecutor
import TestingSystem.Lib.Mutex

/-!
# Invariants of a pool of threads

As long as no processor panics, the goroutines between a `Lock` and its `Unlock` are exactly the holder
of the mutex (`Locked`), and the queue loses nothing (`Queued`): a thread leaves only a closed and empty
pool, and while values wait for a thread not every thread sleeps.
-/

set_option autoImplicit false

namespace TestingSystem

/-- The thread is between a `Lock` and the next `Unlock`. -/
def ThreadStage.Holds {V : Type} : ThreadStage V → Prop
  | .checking | .taken _ | .leaving => True
  | _ => False

/-- The value that the thread has taken and whose processor has not returned. -/
def ThreadStage.current {V : Type} : ThreadStage V → List V
  | .taken value | .processing value => [value]
  | _ => []

/-- The thread that takes the step; `none` for the steps of a caller. -/
def ExecutorStep.thread {T V C : Type} : ExecutorStep T V C → Option T
  | .enter _ _ | .leave _ => none
  | .lock t | .check t | .release t _ | .ret t _ | .panic t _ | .exit t | .unwind t => some t

namespace ThreadsExecutor

variable {T V C : Type} {e : ThreadsExecutor T V C}

/-- The goroutine is between a `Lock` and the next `Unlock`. -/
def Critical (e : ThreadsExecutor T V C) : MutexOwner T C → Prop
  | .thread t => (e.stages t).Holds
  | .caller c => c ∈ e.inside

/-- Only the holder of the mutex is between a `Lock` and its `Unlock`, and nothing has panicked. -/
structure Locked (e : ThreadsExecutor T V C) : Prop where
  guards : Guards e.owner e.Critical
  calm : ∀ t, e.stages t ≠ .panicking ∧ e.stages t ≠ .crashed

namespace Locked

theorem init : Locked ({} : ThreadsExecutor T V C) := by
  refine ⟨Guards.unlocked ?_, fun t => ⟨nofun, nofun⟩⟩
  rintro (t | c)
  · exact id
  · exact Finset.notMem_empty c

/-- The thread in a critical section holds the mutex. -/
theorem owner_of_holds (h : Locked e) {t : T} (ht : (e.stages t).Holds) :
    e.owner = some (.thread t) :=
  (h.guards (.thread t)).1 ht

/-- `Unlock` in a critical section gives the mutex back. -/
theorem unlock_map (h : Locked e) {g : MutexOwner T C} (hg : e.Critical g)
    (f : ThreadsExecutor T V C → ThreadsExecutor T V C) :
    e.unlock.map f = .ok (f { e with owner := none }) := by
  simp only [unlock, (h.guards g).1 hg]
  rfl

theorem unlock_thread (h : Locked e) {t : T} (ht : (e.stages t).Holds)
    (f : ThreadsExecutor T V C → ThreadsExecutor T V C) :
    e.unlock.map f = .ok (f { e with owner := none }) :=
  h.unlock_map (g := .thread t) ht f

end Locked

/-! ## The mutex -/

section Stages

variable [DecidableEq T]

@[simp] theorem setStage_self (e : ThreadsExecutor T V C) (t : T) (stage : ThreadStage V) :
    (e.setStage t stage).stages t = stage :=
  Function.update_self ..

theorem setStage_ne (e : ThreadsExecutor T V C) {t t' : T} (stage : ThreadStage V) (h : t' ≠ t) :
    (e.setStage t stage).stages t' = e.stages t' :=
  Function.update_of_ne h ..

theorem critical_enter {t : T} {stage : ThreadStage V} (hstage : stage.Holds) (g : MutexOwner T C) :
    (e.setStage t stage).Critical g ↔ g = .thread t ∨ e.Critical g := by
  rcases g with t' | c
  · by_cases ht : t' = t
    · simp [Critical, ht, hstage]
    · simp [Critical, ht, setStage_ne]
  · simp [Critical, setStage]

theorem critical_leave {t : T} {stage : ThreadStage V} (hstage : ¬ stage.Holds)
    (g : MutexOwner T C) : (e.setStage t stage).Critical g ↔ g ≠ .thread t ∧ e.Critical g := by
  rcases g with t' | c
  · by_cases ht : t' = t
    · simp [Critical, ht, hstage]
    · simp [Critical, ht, setStage_ne]
  · simp [Critical, setStage]

theorem critical_move {t : T} {stage : ThreadStage V} (hstage : stage.Holds ↔ (e.stages t).Holds)
    (g : MutexOwner T C) : (e.setStage t stage).Critical g ↔ e.Critical g := by
  rcases g with t' | c
  · by_cases ht : t' = t
    · simp [Critical, ht, hstage]
    · simp [Critical, ht, setStage_ne]
  · simp [Critical, setStage]

/-- What holds of the new stage of a thread and of the stages of the others holds of all stages. -/
theorem forall_setStage {P : T → ThreadStage V → Prop} {t : T} {stage : ThreadStage V}
    (hself : P t stage) (hothers : ∀ t', t' ≠ t → P t' (e.stages t')) (t' : T) :
    P t' ((e.setStage t stage).stages t') := by
  by_cases ht : t' = t
  · rw [ht, setStage_self]
    exact hself
  · rw [setStage_ne e stage ht]
    exact hothers t' ht

theorem calm_setStage {t : T} {stage : ThreadStage V}
    (h : ∀ t, e.stages t ≠ .panicking ∧ e.stages t ≠ .crashed)
    (hstage : stage ≠ .panicking ∧ stage ≠ .crashed) :
    ∀ t', (e.setStage t stage).stages t' ≠ .panicking ∧ (e.setStage t stage).stages t' ≠ .crashed :=
  forall_setStage (P := fun _ stage => stage ≠ .panicking ∧ stage ≠ .crashed) hstage fun t' _ => h t'

/-- The threads after the work of a call: one may be woken, or all that sleep. -/
theorem run_stages (e : ThreadsExecutor T V C) {call : ExecutorCall T V} (h : e.Answers call) (t : T) :
    (e.run call).stages t = e.stages t ∨
      e.stages t = .waiting ∧ (e.run call).stages t = .woken := by
  cases call with
  | add value woken =>
    cases hclosed : e.closed
    · simp only [run, add, hclosed, signal]
      by_cases ht : woken = some t
      · subst ht
        exact .inr ⟨h hclosed, by simp⟩
      · simp [ht]
    · simp [run, add, hclosed]
  | stop =>
    cases hclosed : e.closed
    · cases hs : e.stages t <;> simp [run, stop, hclosed, broadcast, wake, hs]
    · simp [run, stop, hclosed]
  | metrics => exact .inl rfl

theorem run_current (e : ThreadsExecutor T V C) {call : ExecutorCall T V} (h : e.Answers call) (t : T) :
    ((e.run call).stages t).current = (e.stages t).current := by
  rcases e.run_stages h t with hs | ⟨hs, hs'⟩
  · rw [hs]
  · rw [hs, hs']
    rfl

end Stages

variable [DecidableEq T] [DecidableEq C]

/-- Every step but a panic can be done, and keeps the discipline of the mutex. -/
theorem Locked.step (h : Locked e) {a : ExecutorStep T V C} (hen : e.Enabled a) (hret : Returns e a) :
    ∃ e', e.exec a = .ok e' ∧ Locked e' := by
  cases a with
  | enter c call =>
    obtain ⟨howner, hc, hcall⟩ := hen
    refine ⟨_, rfl, ?_, ?_⟩
    · -- the mutex was free, and the call wakes threads without giving it to them
      have hfree : Guards none e.Critical := howner ▸ h.guards
      refine hfree.acquire ?_
      rintro (t | c')
      · simp only [Critical]
        rcases e.run_stages hcall t with hs | ⟨hs, hs'⟩
        · simp [hs]
        · simp [hs, hs', ThreadStage.Holds]
      · simp [Critical]
    · intro t
      rcases e.run_stages hcall t with hs | ⟨-, hs⟩
      · exact hs ▸ h.calm t
      · exact hs ▸ ⟨nofun, nofun⟩
  | leave c =>
    refine ⟨_, h.unlock_map (g := .caller c) hen _, ?_, h.calm⟩
    have howner := (h.guards (.caller c)).1 hen
    refine Guards.release (g := .caller c) (howner ▸ h.guards) ?_
    rintro (t | c') <;> simp [Critical]
  | lock t =>
    refine ⟨_, rfl, ?_, calm_setStage h.calm ⟨nofun, nofun⟩⟩
    exact Guards.acquire (hen.1 ▸ h.guards) (critical_enter trivial)
  | check t =>
    have hholds : (e.stages t).Holds := by rw [show e.stages t = .checking from hen]; trivial
    have howner := h.owner_of_holds hholds
    -- only the thread that goes to sleep gives the mutex back here
    simp only [exec, check]
    split
    · split
      · refine ⟨_, rfl, ?_, calm_setStage h.calm ⟨nofun, nofun⟩⟩
        exact h.guards.keep (critical_move (iff_of_true trivial hholds))
      · refine ⟨_, h.unlock_thread hholds _, ?_, calm_setStage h.calm ⟨nofun, nofun⟩⟩
        exact Guards.release (howner ▸ h.guards) (critical_leave id)
    · refine ⟨_, rfl, ?_, calm_setStage h.calm ⟨nofun, nofun⟩⟩
      exact h.guards.keep (critical_move (iff_of_true trivial hholds))
  | release t value =>
    have hholds : (e.stages t).Holds := by rw [show e.stages t = .taken value from hen]; trivial
    have howner := h.owner_of_holds hholds
    refine ⟨_, h.unlock_thread hholds _, ?_, calm_setStage h.calm ⟨nofun, nofun⟩⟩
    exact Guards.release (howner ▸ h.guards) (critical_leave id)
  | ret t value =>
    have hholds : ¬ (e.stages t).Holds := by
      rw [show e.stages t = .processing value from hen]
      exact id
    refine ⟨_, rfl, ?_, calm_setStage h.calm ⟨nofun, nofun⟩⟩
    exact h.guards.keep (critical_move (iff_of_false id hholds))
  | panic t value => exact absurd rfl (hret t value)
  | exit t =>
    have hholds : (e.stages t).Holds := by rw [show e.stages t = .leaving from hen]; trivial
    have howner := h.owner_of_holds hholds
    refine ⟨_, h.unlock_thread hholds _, ?_, calm_setStage h.calm ⟨nofun, nofun⟩⟩
    exact Guards.release (howner ▸ h.guards) (critical_leave id)
  | unwind t => exact absurd hen (h.calm t).1

/-! ## The queue -/

/-- What the pool has done with the values that `add` accepted. -/
structure Queued (e : ThreadsExecutor T V C) : Prop where
  log : e.added = e.taken.map Prod.snd ++ e.values
  left : ∀ t, e.stages t = .leaving ∨ e.stages t = .finished → e.closed = true ∧ e.values = []
  closed : e.closed = true → ∀ t, e.stages t ≠ .waiting
  awake : e.values ≠ [] → Nonempty T → ∃ t, e.stages t ≠ .waiting
  current : ∀ t, e.taken.filter (·.1 = t) =
    e.returned.filter (·.1 = t) ++ (e.stages t).current.map (t, ·)

namespace Queued

omit [DecidableEq C]

theorem init : Queued ({} : ThreadsExecutor T V C) where
  log := rfl
  left := fun _ h => h.elim nofun nofun
  closed := nofun
  awake := fun h => absurd rfl h
  current := fun _ => rfl

/-- The queue does not depend on the holder of the mutex. -/
theorem of_owner (h : Queued e) (owner : Option (MutexOwner T C)) :
    Queued { e with owner := owner } :=
  ⟨h.log, h.left, h.closed, h.awake, h.current⟩

/-- A thread that is out of the loop was so before the call. -/
theorem left_run (h : Queued e) {call : ExecutorCall T V} (hcall : e.Answers call) (t : T)
    (ht : (e.run call).stages t = .leaving ∨ (e.run call).stages t = .finished) :
    e.closed = true ∧ e.values = [] := by
  rcases e.run_stages hcall t with hs | ⟨-, hs⟩
  · exact h.left t (hs ▸ ht)
  · rw [hs] at ht
    exact ht.elim nofun nofun

/-- The work of a call keeps the queue in order. -/
theorem run (h : Queued e) {call : ExecutorCall T V} (hcall : e.Answers call) :
    Queued (e.run call) := by
  have hleft := h.left_run hcall
  have hcurrent := e.run_current hcall
  cases hclosed : e.closed with
  | true =>
    -- A closed pool refuses values and is not closed again.
    have hsame : e.run call = e := by
      cases call <;> simp [ThreadsExecutor.run, add, stop, hclosed]
    rw [hsame]
    exact h
  | false =>
    cases call with
    | add value woken =>
      have hrun : e.run (.add value woken) =
          { e with values := e.values ++ [value], added := e.added ++ [value] }.signal woken := by
        simp [ThreadsExecutor.run, add, hclosed]
      rw [hrun] at hleft hcurrent ⊢
      have hopen : ¬ e.closed = true := by simp [hclosed]
      refine ⟨?_, fun t ht => absurd (hleft t ht).1 hopen, fun hc => absurd hc hopen,
        fun _ hT => ?_, fun t => ?_⟩
      · simp [signal, h.log]
      · cases woken with
        | none =>
          obtain ⟨t⟩ := hT
          exact ⟨t, by simpa [signal] using hcall hclosed t⟩
        | some t => exact ⟨t, by simp [signal]⟩
      · rw [hcurrent t]
        exact h.current t
    | stop =>
      have hrun : e.run .stop = { e with closed := true }.broadcast := by
        simp [ThreadsExecutor.run, stop, hclosed]
      rw [hrun] at hleft hcurrent ⊢
      have hwoken : ∀ t, wake (e.stages t) ≠ .waiting := by
        intro t
        cases hs : e.stages t <;> simp [wake]
      refine ⟨h.log, fun t ht => ⟨rfl, (hleft t ht).2⟩, fun _ => hwoken,
        fun _ hT => ⟨hT.some, hwoken _⟩, fun t => ?_⟩
      rw [hcurrent t]
      exact h.current t
    | metrics => exact h

/-- A thread goes to another stage, and the queue changes with it. -/
theorem move (h : Queued e) {e' : ThreadsExecutor T V C} {t : T} {stage : ThreadStage V}
    (hstages : e'.stages = e.stages) (hclosed : e'.closed = e.closed)
    (hlog : e'.added = e'.taken.map Prod.snd ++ e'.values)
    (hempty : e.values = [] → e'.values = [])
    (hself : stage = .leaving ∨ stage = .finished → e.closed = true ∧ e.values = [])
    (hwaiting : stage = .waiting → e.closed = false ∧ e'.values = [])
    (hcurrent : e'.taken.filter (·.1 = t) =
      e'.returned.filter (·.1 = t) ++ stage.current.map (t, ·))
    (hothers : ∀ t', t' ≠ t → e'.taken.filter (·.1 = t') = e.taken.filter (·.1 = t') ∧
      e'.returned.filter (·.1 = t') = e.returned.filter (·.1 = t')) : Queued (e'.setStage t stage) where
  log := hlog
  left := by
    have hold : ∀ t', e'.stages t' = .leaving ∨ e'.stages t' = .finished →
        e'.closed = true ∧ e'.values = [] := by
      intro t' ht'
      rw [hstages] at ht'
      exact hclosed ▸ (h.left t' ht').imp_right hempty
    refine forall_setStage (P := fun _ stage => stage = .leaving ∨ stage = .finished →
      e'.closed = true ∧ e'.values = []) ?_ fun t' _ => hold t'
    exact fun hs => hclosed ▸ (hself hs).imp_right hempty
  closed hc := by
    have hc' : e.closed = true := hclosed.symm.trans hc
    refine forall_setStage (P := fun _ stage => stage ≠ .waiting) ?_ fun t' _ => ?_
    · exact fun hs => Bool.false_ne_true ((hwaiting hs).1.symm.trans hc')
    · rw [hstages]
      exact h.closed hc' t'
  awake hne _ := ⟨t, by rw [setStage_self]; exact fun hs => hne (hwaiting hs).2⟩
  current := by
    refine forall_setStage (P := fun t' stage => e'.taken.filter (·.1 = t') =
      e'.returned.filter (·.1 = t') ++ stage.current.map (t', ·)) hcurrent fun t' ht' => ?_
    rw [(hothers t' ht').1, (hothers t' ht').2, hstages]
    exact h.current t'

/-- A thread goes on with the queue as it is. -/
theorem setStage (h : Queued e) {t : T} {stage : ThreadStage V} (hwaiting : stage ≠ .waiting)
    (hleft : stage = .leaving ∨ stage = .finished → e.closed = true ∧ e.values = [])
    (hcurrent : stage.current = (e.stages t).current) : Queued (e.setStage t stage) := by
  refine h.move rfl rfl h.log id hleft (fun hs => absurd hs hwaiting) ?_ fun _ _ => ⟨rfl, rfl⟩
  rw [hcurrent]
  exact h.current t

/-- A thread finds the open pool empty and goes to sleep. -/
theorem wait (h : Queued e) {t : T} (hopen : e.closed = false) (hempty : e.values = [])
    (hcurrent : (e.stages t).current = []) : Queued (e.setStage t .waiting) := by
  refine h.move rfl rfl h.log id (fun hs => hs.elim nofun nofun) (fun _ => ⟨hopen, hempty⟩) ?_
    fun _ _ => ⟨rfl, rfl⟩
  have hold := h.current t
  rwa [hcurrent] at hold

/-- A thread takes the first value. -/
theorem take (h : Queued e) {t : T} {value : V} {values : List V} (hvalues : e.values = value :: values)
    (hcurrent : (e.stages t).current = []) :
    Queued ({ e with values := values, taken := e.taken ++ [(t, value)] }.setStage t
      (.taken value)) := by
  have hold := h.current t
  rw [hcurrent, List.map_nil, List.append_nil] at hold
  refine h.move rfl rfl ?_ ?_ (fun hs => hs.elim nofun nofun) nofun ?_ fun t' ht' => ⟨?_, rfl⟩
  · simp [h.log, hvalues]
  · intro hnil
    exact absurd (hvalues.symm.trans hnil) (List.cons_ne_nil _ _)
  · simp [List.filter_append, hold, ThreadStage.current]
  · simp [List.filter_append, ht'.symm]

/-- The processor of a thread returns. -/
theorem ret (h : Queued e) {t : T} {value : V} (hstage : e.stages t = .processing value) :
    Queued ({ e with returned := e.returned ++ [(t, value)] }.setStage t .returning) := by
  have hold := h.current t
  rw [hstage] at hold
  refine h.move rfl rfl h.log id (fun hs => hs.elim nofun nofun) nofun ?_ fun t' ht' => ⟨rfl, ?_⟩
  · simp [List.filter_append, hold, ThreadStage.current]
  · simp [List.filter_append, ht'.symm]

end Queued

/-- The queue stays in order in every step but a panic. -/
theorem Queued.step (hl : Locked e) (h : Queued e) {a : ExecutorStep T V C} (hen : e.Enabled a)
    (hret : Returns e a) {e' : ThreadsExecutor T V C} (hex : e.exec a = .ok e') : Queued e' := by
  cases a with
  | enter c call =>
    cases hex
    have hrun := h.run hen.2.2
    exact ⟨hrun.log, hrun.left, hrun.closed, hrun.awake, hrun.current⟩
  | leave c =>
    cases (hl.unlock_map (g := .caller c) hen _).symm.trans hex
    exact ⟨h.log, h.left, h.closed, h.awake, h.current⟩
  | lock t =>
    cases hex
    refine (h.of_owner (some (.thread t))).setStage nofun (fun hs => hs.elim nofun nofun) ?_
    have hstage := hen.2
    simp only [List.mem_cons, List.not_mem_nil, or_false] at hstage
    rcases hstage with hs | hs | hs <;> simp [hs, ThreadStage.current]
  | check t =>
    have hstage : e.stages t = .checking := hen
    have hcurrent : (e.stages t).current = [] := by rw [hstage]; rfl
    simp only [exec, check] at hex
    split at hex
    · next hempty =>
      split at hex
      · next hclosed =>
        cases hex
        exact h.setStage nofun (fun _ => ⟨hclosed, hempty⟩) hcurrent.symm
      · next hopen =>
        cases (hl.unlock_thread (by rw [hstage]; trivial) _).symm.trans hex
        exact (h.of_owner none).wait (by simpa using hopen) hempty hcurrent
    · next value values hvalues =>
      cases hex
      exact h.take hvalues hcurrent
  | release t value =>
    have hstage : e.stages t = .taken value := hen
    cases (hl.unlock_thread (by rw [hstage]; trivial) _).symm.trans hex
    refine (h.of_owner none).setStage nofun (fun hs => hs.elim nofun nofun) ?_
    simp [hstage, ThreadStage.current]
  | ret t value =>
    cases hex
    exact h.ret hen
  | panic t value => exact absurd rfl (hret t value)
  | exit t =>
    have hstage : e.stages t = .leaving := hen
    cases (hl.unlock_thread (by rw [hstage]; trivial) _).symm.trans hex
    refine (h.of_owner none).setStage nofun (fun _ => h.left t (.inl hstage)) ?_
    simp [hstage, ThreadStage.current]
  | unwind t => exact absurd hen (hl.calm t).1

/-! ## What a step leaves alone -/

section Frame

variable {e' : ThreadsExecutor T V C} {a : ExecutorStep T V C}

omit [DecidableEq T] [DecidableEq C] in
theorem of_unlock_map {f : ThreadsExecutor T V C → ThreadsExecutor T V C}
    (h : e.unlock.map f = .ok e') : e' = f { e with owner := none } := by
  unfold unlock at h
  split at h
  · cases h
  · cases h
    rfl

/-- A step goes to another place with its own thread only, and a call only wakes. -/
theorem stages_step (hen : e.Enabled a) (hex : e.exec a = .ok e') {t : T}
    (hsleeps : e.stages t ≠ .waiting) (hown : a.thread ≠ some t) : e'.stages t = e.stages t := by
  have hne : ∀ (e₁ : ThreadsExecutor T V C) (t' : T) (stage : ThreadStage V),
      e₁.stages = e.stages → a.thread = some t' → (e₁.setStage t' stage).stages t = e.stages t := by
    intro e₁ t' stage hstages ht'
    rw [setStage_ne, hstages]
    rintro rfl
    exact hown ht'
  cases a with
  | enter c call =>
    cases hex
    exact (e.run_stages hen.2.2 t).resolve_right fun hw => hsleeps hw.1
  | leave c => rw [of_unlock_map hex]
  | lock t' =>
    cases hex
    exact hne _ t' _ rfl rfl
  | check t' =>
    simp only [exec, check] at hex
    split at hex
    · split at hex
      · cases hex
        exact hne _ t' _ rfl rfl
      · rw [of_unlock_map hex]
        exact hne _ t' _ rfl rfl
    · cases hex
      exact hne _ t' _ rfl rfl
  | release t' value | exit t' | unwind t' =>
    rw [of_unlock_map hex]
    exact hne _ t' _ rfl rfl
  | ret t' value | panic t' value =>
    cases hex
    exact hne _ t' _ rfl rfl

/-- A thread that has finished takes no step any more. -/
theorem finished_step (hen : e.Enabled a) (hex : e.exec a = .ok e') {t : T}
    (ht : e.stages t = .finished) : e'.stages t = .finished := by
  rw [stages_step hen hex (by simp [ht]) ?_, ht]
  intro hown
  cases a <;> simp_all [ExecutorStep.thread, Enabled]

/-- A thread goes on with its value until the processor returns. -/
theorem processing_step (hen : e.Enabled a) (hex : e.exec a = .ok e') {t : T} {value : V}
    (ht : e.stages t = .processing value) (hret : a ≠ .ret t value) (hpanic : a ≠ .panic t value) :
    e'.stages t = .processing value := by
  rw [stages_step hen hex (by simp [ht]) ?_, ht]
  intro hown
  cases a <;> simp_all [ExecutorStep.thread, Enabled]

/-- Only `add` and `stop` change what was accepted and whether the pool is closed. -/
theorem accepts_step (hex : e.exec a = .ok e') (hcall : ∀ c call, a = .enter c call → call = .metrics) :
    e'.added = e.added ∧ e'.closed = e.closed := by
  cases a with
  | enter c call =>
    cases hex
    rw [hcall c call rfl]
    exact ⟨rfl, rfl⟩
  | check t =>
    simp only [exec, check] at hex
    split at hex
    · split at hex
      · cases hex
        exact ⟨rfl, rfl⟩
      · rw [of_unlock_map hex]
        exact ⟨rfl, rfl⟩
    · cases hex
      exact ⟨rfl, rfl⟩
  | leave c => exact of_unlock_map hex ▸ ⟨rfl, rfl⟩
  | release t value | exit t | unwind t => exact of_unlock_map hex ▸ ⟨rfl, rfl⟩
  | lock t | ret t value | panic t value =>
    cases hex
    exact ⟨rfl, rfl⟩

end Frame

end ThreadsExecutor

end TestingSystem
