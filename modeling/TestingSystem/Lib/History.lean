import TestingSystem.Lib.Machine
import TestingSystem.Lib.Outcome

/-!
# Histories of a machine

`M.observed observe` runs a machine together with the events that an observer sees, latest first. A rule
says which event may happen after which events; a run follows it if every event was allowed when it
happened (`Follows`). To show this, an invariant ties the state to the events so far and one step is
looked at (`Reachable.follows`).
-/

set_option autoImplicit false

namespace TestingSystem

universe u v w x

section Follows

variable {β : Type x} {rule : List β → β → Prop} {before events : List β} {event : β}

/-- Every event is allowed after those before it. -/
def Follows (rule : List β → β → Prop) : List β → Prop
  | [] => True
  | event :: before => rule before event ∧ Follows rule before

theorem Follows.concat (h : Follows rule before) (hevent : rule before event) :
    Follows rule (event :: before) :=
  ⟨hevent, h⟩

/-- Any event of the history was allowed when it happened. -/
theorem Follows.allowed (h : Follows rule events) (hs : event :: before <:+ events) :
    rule before event := by
  induction events with
  | nil => cases List.suffix_nil.1 hs
  | cons last events ih =>
    rcases List.suffix_cons_iff.1 hs with heq | hs
    · cases heq
      exact h.1
    · exact ih h.2 hs

end Follows

/-- A state with the events that were seen on the way to it, latest first. -/
structure Observed (σ : Type u) (β : Type x) where
  state : σ
  events : List β

namespace Machine

variable {σ : Type u} {α : Type v} {ε : Type w} {β : Type x} {M : Machine σ α ε}
  {observe : σ → α → Option β}

/-- The machine watched by an observer who may see an event at each step. -/
def observed (M : Machine σ α ε) (observe : σ → α → Option β) : Machine (Observed σ β) α ε where
  init s := ∃ s₀, M.init s₀ ∧ s = ⟨s₀, []⟩
  enabled s a := M.enabled s.state a
  exec s a :=
    match M.exec s.state a with
    | .ok t => .ok ⟨t, (observe s.state a).toList ++ s.events⟩
    | .error e => .error e

theorem observed_exec {s t : Observed σ β} {a : α} (h : (M.observed observe).exec s a = .ok t) :
    M.exec s.state a = .ok t.state ∧ t.events = (observe s.state a).toList ++ s.events := by
  unfold observed at h
  dsimp only at h
  split at h
  · next u hu =>
    cases h
    exact ⟨hu, rfl⟩
  · cases h

/-- Watching a machine does not change its runs. -/
theorem Reachable.of_observed {s : Observed σ β}
    (h : (M.observed observe).Reachable always s) : M.Reachable always s.state := by
  refine h.invariant (P := fun s => M.Reachable always s.state) ?_ ?_
  · rintro s ⟨s₀, h₀, rfl⟩
    exact .of_init h₀
  · intro s a t hs _ hen hex
    exact hs.snoc a trivial hen (observed_exec hex).1

/-- The rule for histories: with an invariant of state and events, each step shows an allowed event. -/
theorem Reachable.follows {rule : List β → β → Prop} {P : σ → List β → Prop} {s : Observed σ β}
    (h : (M.observed observe).Reachable always s) (hinit : ∀ s, M.init s → P s [])
    (hstep : ∀ s events a t, M.Reachable always s → P s events → M.enabled s a → M.exec s a = .ok t →
      (∀ event, observe s a = some event → rule events event) ∧
        P t ((observe s a).toList ++ events)) :
    Follows rule s.events := by
  refine (h.invariant_of_reachable (P := fun s => P s.state s.events ∧ Follows rule s.events) ?_ ?_).2
  · rintro s ⟨s₀, h₀, rfl⟩
    exact ⟨hinit s₀ h₀, trivial⟩
  · rintro s a t hr ⟨hs, hfollows⟩ - hen hex
    obtain ⟨hex, hevents⟩ := observed_exec hex
    obtain ⟨hrule, ht⟩ := hstep s.state s.events a t.state hr.of_observed hs hen hex
    rw [hevents]
    refine ⟨ht, ?_⟩
    cases hseen : observe s.state a with
    | none => exact hfollows
    | some event => exact hfollows.concat (hrule event hseen)

end Machine

end TestingSystem
