import TestingSystem.Invoker.ThreadsInvariant
import Mathlib.Algebra.BigOperators.Group.Finset.Basic
import Mathlib.Algebra.BigOperators.Group.Finset.Piecewise
import Mathlib.Data.Fintype.Basic

/-!
# Runs of a pool of threads

In the runs whose processors return, the pool loses and repeats no value and never sleeps over a value:
its own steps come to an end, and where they do every value that `add` accepted has been taken. In these
runs every `Unlock` of a thread is by the holder of the mutex. A processor that panics breaks this at
once: the deferred `Unlock` of `runThread` comes without the `Lock` that follows the processor.
-/

set_option autoImplicit false

namespace TestingSystem

namespace ThreadsExecutor

variable {T V C : Type} [DecidableEq T] [DecidableEq C] {e e' : ThreadsExecutor T V C}

/-- The invariants of a run whose processors return. -/
theorem sound (h : (machine T V C).Reachable Returns e) : Locked e ∧ Queued e := by
  refine h.invariant (P := fun e => Locked e ∧ Queued e) ?_ ?_
  · rintro _ rfl
    exact ⟨.init, .init⟩
  · rintro e a e' ⟨hl, hq⟩ hret hen hex
    obtain ⟨e'', hex', hl'⟩ := hl.step hen hret
    cases hex'.symm.trans hex
    exact ⟨hl', hq.step hl hen hret hex⟩

/-! ## The steps of the pool itself -/

/-- A step that the pool takes without a new call from outside. -/
def Internal (_ : ThreadsExecutor T V C) : ExecutorStep T V C → Prop
  | .enter _ _ | .panic _ _ | .unwind _ => False
  | _ => True

omit [DecidableEq T] [DecidableEq C] in
theorem Internal.returns {a : ExecutorStep T V C} (h : Internal e a) : Returns e a := by
  rintro t value rfl
  exact h

omit [DecidableEq C] in
/-- While a value is in the queue the pool can take a step. -/
theorem progress (hl : Locked e) (hq : Queued e) (hne : e.values ≠ []) (hT : Nonempty T) :
    ∃ a, Internal e a ∧ e.Enabled a := by
  obtain ⟨t, ht⟩ := hq.awake hne hT
  -- The holder of the mutex can go on; if the mutex is free, a thread can take it.
  cases howner : e.owner with
  | some g =>
    have hg : e.Critical g := (hl.guards g).2 howner
    cases g with
    | thread t' =>
      cases hs : e.stages t' with
      | checking => exact ⟨.check t', trivial, hs⟩
      | taken value => exact ⟨.release t' value, trivial, hs⟩
      | leaving => exact ⟨.exit t', trivial, hs⟩
      | _ => exact absurd hg (by simp [Critical, hs, ThreadStage.Holds])
    | caller c => exact ⟨.leave c, trivial, hg⟩
  | none =>
    cases hs : e.stages t with
    | starting | woken | returning => exact ⟨.lock t, trivial, howner, by simp [hs]⟩
    | checking => exact ⟨.check t, trivial, hs⟩
    | taken value => exact ⟨.release t value, trivial, hs⟩
    | processing value => exact ⟨.ret t value, trivial, hs⟩
    | waiting => exact absurd hs ht
    | leaving => exact absurd (hq.left t (.inl hs)).2 hne
    | finished => exact absurd (hq.left t (.inr hs)).2 hne
    | panicking => exact absurd hs (hl.calm t).1
    | crashed => exact absurd hs (hl.calm t).2

/-- The steps that a thread can take on its own before it sleeps or leaves. -/
def weight : ThreadStage V → Nat
  | .starting | .woken | .returning => 3
  | .checking => 2
  | .taken _ => 5
  | .processing _ => 4
  | .leaving | .panicking => 1
  | .waiting | .finished | .crashed => 0

/-- A bound on the steps that the pool can take on its own. -/
def remaining [Fintype T] (e : ThreadsExecutor T V C) : Nat :=
  (∑ t, weight (e.stages t)) + 4 * e.values.length + e.inside.card

omit [DecidableEq C] in
theorem sum_weight_setStage [Fintype T] (e : ThreadsExecutor T V C) (t : T) (stage : ThreadStage V) :
    (∑ t', weight ((e.setStage t stage).stages t')) + weight (e.stages t) =
      (∑ t', weight (e.stages t')) + weight stage := by
  have hupdate : (fun t' => weight ((e.setStage t stage).stages t')) =
      Function.update (fun t' => weight (e.stages t')) t (weight stage) :=
    Function.comp_update weight e.stages t stage
  rw [hupdate, Finset.sum_update_of_mem (Finset.mem_univ t),
    ← Finset.add_sum_erase Finset.univ (fun t' => weight (e.stages t')) (Finset.mem_univ t),
    Finset.sdiff_singleton_eq_erase]
  omega

omit [DecidableEq C] in
theorem remaining_setStage [Fintype T] (e : ThreadsExecutor T V C) (t : T) (stage : ThreadStage V) :
    (e.setStage t stage).remaining + weight (e.stages t) = e.remaining + weight stage := by
  have hsum := sum_weight_setStage e t stage
  simp only [remaining]
  change _ + 4 * e.values.length + e.inside.card + _ = _
  omega

/-- Every step that the pool takes on its own lowers the bound. -/
theorem remaining_step [Fintype T] (hl : Locked e) {a : ExecutorStep T V C} (hi : Internal e a)
    (hen : e.Enabled a) (hex : e.exec a = .ok e') : e'.remaining < e.remaining := by
  -- A thread that goes on with the queue as it is goes to a place of less weight.
  have hmove : ∀ (e₁ : ThreadsExecutor T V C) (t : T) (stage : ThreadStage V),
      e₁.remaining = e.remaining → e₁.stages = e.stages → weight stage < weight (e.stages t) →
      (e₁.setStage t stage).remaining < e.remaining := by
    intro e₁ t stage hsame hstages hlt
    have hset := e₁.remaining_setStage t stage
    rw [hstages, hsame] at hset
    omega
  cases a with
  | enter | panic | unwind => exact hi.elim
  | leave c =>
    cases (hl.unlock_map (g := .caller c) hen _).symm.trans hex
    have hcard : (e.inside.erase c).card < e.inside.card := Finset.card_erase_lt_of_mem hen
    simpa [remaining] using hcard
  | lock t =>
    cases hex
    refine hmove _ t _ rfl rfl ?_
    have hstage := hen.2
    simp only [List.mem_cons, List.not_mem_nil, or_false] at hstage
    rcases hstage with hs | hs | hs <;> simp [hs, weight]
  | check t =>
    have hstage : e.stages t = .checking := hen
    simp only [exec, check] at hex
    split at hex
    · split at hex
      · cases hex
        exact hmove _ t _ rfl rfl (by simp [hstage, weight])
      · cases (hl.unlock_thread (by rw [hstage]; trivial) _).symm.trans hex
        exact hmove _ t _ rfl rfl (by simp [hstage, weight])
    · next value values hvalues =>
      cases hex
      have hset := ({ e with values := values, taken := e.taken ++ [(t, value)] } :
        ThreadsExecutor T V C).remaining_setStage t (.taken value)
      have hlen : e.values.length = values.length + 1 := by rw [hvalues, List.length_cons]
      simp only [remaining, hstage, weight] at hset ⊢
      omega
  | release t value =>
    have hstage : e.stages t = .taken value := hen
    cases (hl.unlock_thread (by rw [hstage]; trivial) _).symm.trans hex
    exact hmove _ t _ rfl rfl (by simp [hstage, weight])
  | ret t value =>
    cases hex
    exact hmove _ t _ rfl rfl (by simp [show e.stages t = .processing value from hen, weight])
  | exit t =>
    have hstage : e.stages t = .leaving := hen
    cases (hl.unlock_thread (by rw [hstage]; trivial) _).symm.trans hex
    exact hmove _ t _ rfl rfl (by simp [hstage, weight])

/-- The steps that the pool takes on its own come to an end. -/
theorem internal_runs_end [Fintype T] (hl : Locked e) {as : List (ExecutorStep T V C)}
    (hr : (machine T V C).Runs Internal as e e') : as.length ≤ e.remaining := by
  induction as generalizing e with
  | nil => exact Nat.zero_le _
  | cons a as ih =>
    obtain ⟨hi, hen, e₁, hex, hr⟩ := hr
    obtain ⟨e₂, hex', hl'⟩ := hl.step hen hi.returns
    cases hex'.symm.trans hex
    have hlt := remaining_step hl hi hen hex
    have hle := ih hl' hr
    rw [List.length_cons]
    omega

/-- For any number of threads and any order of steps: every step that can be taken succeeds, unless it is
the panic of a processor; the values that `add` accepted are taken in their order, each by one thread; a
thread leaves only the closed and empty pool; no thread sleeps over a value or over the end; and the pool
comes to an end of its own steps only when every value is taken. -/
theorem loses_nothing [Fintype T] (h : (machine T V C).Reachable Returns e) :
    (∀ a, Returns e a → e.Enabled a → ∃ e', e.exec a = .ok e') ∧
    e.added = e.taken.map Prod.snd ++ e.values ∧
    (∀ t, e.stages t = .leaving ∨ e.stages t = .finished → e.closed = true ∧ e.values = []) ∧
    ¬ ((e.values ≠ [] ∨ e.closed = true) ∧ Nonempty T ∧ ∀ t, e.stages t = .waiting) ∧
    (∃ bound, ∀ as e', (machine T V C).Runs Internal as e e' → as.length ≤ bound) ∧
    (Nonempty T → (∀ a, Internal e a → ¬ e.Enabled a) → e.taken.map Prod.snd = e.added) := by
  obtain ⟨hl, hq⟩ := sound h
  refine ⟨?_, hq.log, hq.left, ?_, ⟨e.remaining, fun as e' => internal_runs_end hl⟩, ?_⟩
  · intro a hret hen
    obtain ⟨e', hex, -⟩ := hl.step hen hret
    exact ⟨e', hex⟩
  · rintro ⟨hne | hclosed, hT, hall⟩
    · obtain ⟨t, ht⟩ := hq.awake hne hT
      exact ht (hall t)
    · exact hq.closed hclosed hT.some (hall _)
  · intro hT hstuck
    have hempty : e.values = [] := by
      by_contra hne
      obtain ⟨a, hi, hen⟩ := progress hl hq hne hT
      exact hstuck a hi hen
    rw [hq.log, hempty, List.append_nil]

/-- One thread that sleeps, a value, and the thread that is woken for it. -/
def wokenForValue : List (ExecutorStep Unit Nat Unit) :=
  [.lock (), .check (), .enter () (.add 7 (some ())), .leave (), .lock (), .check ()]

/-- The woken thread has taken the value, and it can go on. -/
theorem loses_nothing_woken_thread :
    ∃ e, (machine Unit Nat Unit).Reachable Returns e ∧ e.added = [7] ∧
      e.added = e.taken.map Prod.snd ++ e.values ∧ ∃ e', e.exec (.release () 7) = .ok e' := by
  have hruns : ∃ e, (machine Unit Nat Unit).Runs Returns wokenForValue {} e ∧ e.added = [7] ∧
      e.stages () = .taken 7 :=
    ⟨_, ⟨fun _ _ => nofun, ⟨rfl, by decide⟩, _, rfl, fun _ _ => nofun, rfl, _, rfl,
      fun _ _ => nofun, ⟨rfl, by decide, fun _ => rfl⟩, _, rfl, fun _ _ => nofun,
      Finset.mem_insert_self .., _, rfl, fun _ _ => nofun, ⟨rfl, by decide⟩, _, rfl,
      fun _ _ => nofun, rfl, _, rfl, rfl⟩, rfl, rfl⟩
  obtain ⟨e, hr, hadded, hstage⟩ := hruns
  have hreach := Machine.Reachable.of_runs (machine Unit Nat Unit) Returns _ (.of_init rfl) hr
  obtain ⟨hsucceeds, hlog, -⟩ := loses_nothing hreach
  exact ⟨e, hreach, hadded, hlog, hsucceeds (.release () 7) (fun _ _ => nofun) hstage⟩

/-! ## Who unlocks -/

/-- The thread `t` calls `Unlock` in this step, also inside `Wait`. -/
def Unlocks (e : ThreadsExecutor T V C) (t : T) : ExecutorStep T V C → Prop
  | .release t' _ | .exit t' | .unwind t' => t' = t
  | .check t' => t' = t ∧ e.values = [] ∧ e.closed = false
  | _ => False

/-- Every `Unlock` that a thread comes to is by the holder of the mutex. -/
def UnlocksOwn (e : ThreadsExecutor T V C) : Prop :=
  ∀ t a, e.Enabled a → e.Unlocks t a → e.owner = some (.thread t)

omit [DecidableEq T] [DecidableEq C] in
theorem Locked.unlocksOwn (h : Locked e) : e.UnlocksOwn := by
  intro t a hen hunlocks
  cases a with
  | release t' value =>
    obtain rfl := hunlocks
    exact h.owner_of_holds (by rw [show e.stages t' = .taken value from hen]; trivial)
  | exit t' =>
    obtain rfl := hunlocks
    exact h.owner_of_holds (by rw [show e.stages t' = .leaving from hen]; trivial)
  | unwind t' => exact absurd hen (h.calm t').1
  | check t' =>
    obtain ⟨rfl, -⟩ := hunlocks
    exact h.owner_of_holds (by rw [show e.stages t' = .checking from hen]; trivial)
  | enter | leave | lock | ret | panic => exact hunlocks.elim

/-- As long as every processor returns, the threads unlock only what they hold; a processor that
panics ends this at once. -/
theorem unlocks_own_mutex (h : (machine T V C).Reachable Returns e) :
    e.UnlocksOwn ∧ ∀ t value e', e.Enabled (.panic t value) →
      e.exec (.panic t value) = .ok e' → ¬ e'.UnlocksOwn := by
  obtain ⟨hl, -⟩ := sound h
  refine ⟨hl.unlocksOwn, fun t value e' hen hex hown => ?_⟩
  cases hex
  -- The deferred `Unlock` is next, but the thread has left its critical section.
  have howner : e.owner = some (.thread t) := hown t (.unwind t) (setStage_self ..) rfl
  have hholds : (e.stages t).Holds := (hl.guards (.thread t)).2 howner
  rw [show e.stages t = .processing value from hen] at hholds
  exact hholds

/-- One thread that takes a value, and a processor that panics at it. -/
def panicsAtValue : List (ExecutorStep Unit Nat Unit) :=
  [.enter () (.add 7 none), .leave (), .lock (), .check (), .release () 7]

theorem unlocks_own_mutex_panic :
    ∃ e, (machine Unit Nat Unit).Reachable Returns e ∧ e.UnlocksOwn ∧
      ¬ (e.setStage () .panicking).UnlocksOwn := by
  have hruns : ∃ e, (machine Unit Nat Unit).Runs Returns panicsAtValue {} e ∧
      e.stages () = .processing 7 :=
    ⟨_, ⟨fun _ _ => nofun, ⟨rfl, by decide, fun _ _ => nofun⟩, _, rfl, fun _ _ => nofun,
      Finset.mem_insert_self .., _, rfl, fun _ _ => nofun, ⟨rfl, by decide⟩, _, rfl,
      fun _ _ => nofun, rfl, _, rfl, fun _ _ => nofun, rfl, _, rfl, rfl⟩, rfl⟩
  obtain ⟨e, hr, hstage⟩ := hruns
  have hreach := Machine.Reachable.of_runs (machine Unit Nat Unit) Returns _ (.of_init rfl) hr
  obtain ⟨hown, hpanic⟩ := unlocks_own_mutex hreach
  exact ⟨e, hreach, hown, hpanic () 7 _ hstage rfl⟩

/-- The panic of a processor meets the deferred `Unlock` without the mutex: the program ends with a
fatal error, and `runProcess` never sees the panic. -/
theorem panic_unlocks_unlocked :
    ¬ ∀ e, (machine Unit Nat Unit).Reachable Machine.always e →
      e.UnlocksOwn ∧ ∀ t, e.Enabled (.unwind t) →
        ∃ e', e.exec (.unwind t) = .ok e' ∧ t ∈ e'.panics := by
  intro h
  have hruns : ∃ e, (machine Unit Nat Unit).Runs Machine.always (panicsAtValue ++ [.panic () 7]) {} e ∧
      e.stages () = .panicking ∧ e.owner = none :=
    ⟨_, ⟨trivial, ⟨rfl, by decide, fun _ _ => nofun⟩, _, rfl, trivial,
      Finset.mem_insert_self .., _, rfl, trivial, ⟨rfl, by decide⟩, _, rfl, trivial, rfl, _, rfl,
      trivial, rfl, _, rfl, trivial, rfl, _, rfl, rfl⟩,
      rfl, rfl⟩
  obtain ⟨e, hr, hstage, howner⟩ := hruns
  obtain ⟨-, hunwind⟩ := h e (.of_runs _ _ _ (.of_init rfl) hr)
  obtain ⟨e', hex, -⟩ := hunwind () hstage
  simp [exec, unlock, howner, Except.map] at hex

end ThreadsExecutor

end TestingSystem
