import TestingSystem.Lib.Machine

/-!
# Servers and what they are for

A `Server` answers calls and changes its state. A `Service` says which answers are allowed: in a state of
the service a call may be answered in some way and leads to some state. The states of the service are
those that the clients reason about, and a server of any inner structure may offer it.

`Server.offers` is the rule of simulation: a relation between the two kinds of states that every answer
keeps explains the answers of every run.
-/

set_option autoImplicit false

namespace TestingSystem

universe u v w x y

/-- A state machine that answers each call, or fails. -/
structure Server (σ : Type u) (α : Type v) (ρ : Type w) (ε : Type x) where
  init : σ → Prop
  enabled : σ → α → Prop
  answer : σ → α → Except ε (ρ × σ)

/-- The answers that are allowed, with the states they lead to. -/
abbrev Service (τ : Type y) (α : Type v) (ρ : Type w) := τ → α → ρ → τ → Prop

/-- A state of a server with the calls that it has answered, latest first. -/
structure Served (σ : Type u) (α : Type v) (ρ : Type w) where
  state : σ
  answered : List (α × ρ)

variable {σ : Type u} {α : Type v} {ρ : Type w} {ε : Type x} {τ : Type y}

/-- The answers, latest first, lead from the one state of the service to the other. -/
def Service.Explains (service : Service τ α ρ) (start : τ) : List (α × ρ) → τ → Prop
  | [], t => t = start
  | (call, reply) :: before, t =>
    ∃ u, service.Explains start before u ∧ service u call reply t

namespace Server

variable {server : Server σ α ρ ε}

/-- The runs of a server, with its answers. -/
def machine (server : Server σ α ρ ε) : Machine (Served σ α ρ) α ε where
  init s := server.init s.state ∧ s.answered = []
  enabled s call := server.enabled s.state call
  exec s call :=
    match server.answer s.state call with
    | .ok (reply, state) => .ok { state := state, answered := (call, reply) :: s.answered }
    | .error e => .error e

theorem machine_exec {s t : Served σ α ρ} {call : α} (h : server.machine.exec s call = .ok t) :
    ∃ reply, server.answer s.state call = .ok (reply, t.state) ∧
      t.answered = (call, reply) :: s.answered := by
  unfold machine at h
  dsimp only at h
  split at h
  · next reply state hreply =>
    cases h
    exact ⟨reply, hreply, rfl⟩
  · cases h

/-- The rule of simulation: `rel` relates the initial states to `start`, and every answer of a related
state is allowed and leads to a related state. -/
theorem offers {service : Service τ α ρ} {start : τ} {rel : σ → τ → Prop}
    {ok : Served σ α ρ → α → Prop} (hinit : ∀ s, server.init s → rel s start)
    (hanswer : ∀ s t call reply s', rel s t → server.enabled s call →
      server.answer s call = .ok (reply, s') → ∃ t', service t call reply t' ∧ rel s' t')
    {s : Served σ α ρ} (h : server.machine.Reachable ok s) :
    ∃ t, service.Explains start s.answered t ∧ rel s.state t := by
  refine h.invariant (P := fun s => ∃ t, service.Explains start s.answered t ∧ rel s.state t) ?_ ?_
  · rintro s ⟨hs, hempty⟩
    refine ⟨start, ?_, hinit s.state hs⟩
    rw [hempty]
    rfl
  · rintro s call s' ⟨t, hexplains, hrel⟩ - hen hex
    obtain ⟨reply, hreply, hanswered⟩ := machine_exec hex
    obtain ⟨t', hservice, hrel'⟩ := hanswer s.state t call reply s'.state hrel hen hreply
    refine ⟨t', ?_, hrel'⟩
    rw [hanswered]
    exact ⟨t, hexplains, hservice⟩

end Server

end TestingSystem
