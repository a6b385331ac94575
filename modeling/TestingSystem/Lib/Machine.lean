import Mathlib.Logic.Relation

/-!
# Machines that take atomic steps

A `Machine` has initial states and, for each label, a guard `enabled` and a partial effect `exec`
that may end in a failure. `StepWhen M ok` is the step relation of the runs in which every label
meets the condition `ok` on the state before the step; `Step M` is the case without condition.

An invariant is shown once for the initial states and once for a step (`Reachable.invariant`). A
property that later steps keep is carried along a run by `Reaches.keeps`. `Safe` says that no step
of a reachable state fails.
-/

set_option autoImplicit false

namespace TestingSystem

universe u v w

/-- A labelled transition system whose steps may fail. -/
structure Machine (σ : Type u) (α : Type v) (ε : Type w) where
  init : σ → Prop
  enabled : σ → α → Prop
  exec : σ → α → Except ε σ

namespace Machine

variable {σ : Type u} {α : Type v} {ε : Type w}

/-- No condition on the labels. -/
def always : σ → α → Prop := fun _ _ => True

/-- A step whose label meets `ok`. -/
def StepWhen (M : Machine σ α ε) (ok : σ → α → Prop) (s t : σ) : Prop :=
  ∃ a, ok s a ∧ M.enabled s a ∧ M.exec s a = .ok t

/-- A finite run whose labels meet `ok`. -/
abbrev Reaches (M : Machine σ α ε) (ok : σ → α → Prop) : σ → σ → Prop :=
  Relation.ReflTransGen (M.StepWhen ok)

/-- The states of the runs whose labels meet `ok`. -/
def Reachable (M : Machine σ α ε) (ok : σ → α → Prop) (s : σ) : Prop :=
  ∃ s₀, M.init s₀ ∧ M.Reaches ok s₀ s

variable {M : Machine σ α ε} {ok : σ → α → Prop}

/-- A property that every step keeps holds to the end of a run. -/
theorem Reaches.keeps {P : σ → Prop} {s t : σ} (h : M.Reaches ok s t) (hs : P s)
    (hstep : ∀ s a t, P s → ok s a → M.enabled s a → M.exec s a = .ok t → P t) : P t := by
  induction h with
  | refl => exact hs
  | tail _ hst ih =>
    obtain ⟨a, hok, hen, hex⟩ := hst
    exact hstep _ a _ ih hok hen hex

theorem Reaches.snoc {s t u : σ} (h : M.Reaches ok s t) (a : α) (hok : ok t a)
    (hen : M.enabled t a) (hex : M.exec t a = .ok u) : M.Reaches ok s u :=
  h.tail ⟨a, hok, hen, hex⟩

theorem Reachable.of_init {s : σ} (h : M.init s) : M.Reachable ok s :=
  ⟨s, h, .refl⟩

theorem Reachable.snoc {s t : σ} (h : M.Reachable ok s) (a : α) (hok : ok s a)
    (hen : M.enabled s a) (hex : M.exec s a = .ok t) : M.Reachable ok t := by
  obtain ⟨s₀, h₀, hr⟩ := h
  exact ⟨s₀, h₀, hr.snoc a hok hen hex⟩

theorem Reachable.trans {s t : σ} (h : M.Reachable ok s) (hr : M.Reaches ok s t) :
    M.Reachable ok t := by
  obtain ⟨s₀, h₀, hr₀⟩ := h
  exact ⟨s₀, h₀, hr₀.trans hr⟩

/-- The invariant rule: a property of the initial states that every step keeps holds in every
state reached. -/
theorem Reachable.invariant {P : σ → Prop} {s : σ} (h : M.Reachable ok s)
    (hinit : ∀ s, M.init s → P s)
    (hstep : ∀ s a t, P s → ok s a → M.enabled s a → M.exec s a = .ok t → P t) : P s := by
  obtain ⟨s₀, h₀, hr⟩ := h
  exact hr.keeps (hinit s₀ h₀) hstep

/-- The invariant rule where earlier invariants are at hand: the state before a step is reachable. -/
theorem Reachable.invariant_of_reachable {P : σ → Prop} {s : σ} (h : M.Reachable ok s)
    (hinit : ∀ s, M.init s → P s)
    (hstep : ∀ s a t, M.Reachable ok s → P s → ok s a → M.enabled s a → M.exec s a = .ok t → P t) :
    P s := by
  refine (h.invariant (P := fun s => M.Reachable ok s ∧ P s) ?_ ?_).2
  · intro s hs
    exact ⟨.of_init hs, hinit s hs⟩
  · rintro s a t ⟨hr, hs⟩ hok hen hex
    exact ⟨hr.snoc a hok hen hex, hstep s a t hr hs hok hen hex⟩

/-- A run given by its labels. -/
def Runs (M : Machine σ α ε) (ok : σ → α → Prop) : List α → σ → σ → Prop
  | [], s, t => s = t
  | a :: as, s, t => ok s a ∧ M.enabled s a ∧ ∃ u, M.exec s a = .ok u ∧ Runs M ok as u t

theorem Reaches.of_runs (M : Machine σ α ε) (ok : σ → α → Prop) (as : List α) {s t : σ}
    (hr : M.Runs ok as s t) : M.Reaches ok s t := by
  induction as generalizing s with
  | nil => exact hr ▸ .refl
  | cons a as ih =>
    obtain ⟨hok, hen, u, hex, hr⟩ := hr
    exact .head ⟨a, hok, hen, hex⟩ (ih hr)

theorem Reachable.of_runs (M : Machine σ α ε) (ok : σ → α → Prop) (as : List α) {s t : σ}
    (h : M.Reachable ok s) (hr : M.Runs ok as s t) : M.Reachable ok t :=
  h.trans (.of_runs M ok as hr)

/-- No step of a reachable state fails. -/
def Safe (M : Machine σ α ε) (ok : σ → α → Prop) : Prop :=
  ∀ s, M.Reachable ok s → ∀ a, ok s a → M.enabled s a → ∃ t, M.exec s a = .ok t

end Machine

end TestingSystem
