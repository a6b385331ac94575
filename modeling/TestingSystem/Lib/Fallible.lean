import TestingSystem.Lib.Outcome
import Mathlib.Order.Defs.Unbundled

/-!
# Programs that change a state, return errors and may panic

An error is a value that the program returns together with the state it has reached; a panic leaves no
state. `Within R m` says that `m` never panics and that the state it starts in is related by `R` to the
state it ends in, whether it returns a value or an error. If `R` is a preorder the rules follow the
structure of `m`: a program is within `R` if the steps it consists of are.

`Decides P C Q E m` says when `m` succeeds: a sequence does if every step of it does.
-/

set_option autoImplicit false

namespace TestingSystem

universe u

/-- Programs with states `σ` and errors `ε` that may panic with a `π`. -/
abbrev Fallible (ε σ π α : Type u) : Type u := ExceptT ε (StateT σ (Except π)) α

namespace Fallible

variable {ε ε' σ π α β : Type u}

/-- What the program ends with from the state `s`. -/
def exec (m : Fallible ε σ π α) (s : σ) : Except π (Except ε α × σ) := m.run.run s

/-- A program that panics. -/
def panic (p : π) : Fallible ε σ π α := ExceptT.lift (StateT.lift (.error p))

/-- The error of a call, if it returns one. -/
def check (err : Option ε) : Fallible ε σ π PUnit :=
  match err with
  | none => Pure.pure ⟨⟩
  | some e => throw e

/-- The program with its error wrapped. -/
def wrapping (f : ε → ε') (m : Fallible ε σ π α) : Fallible ε' σ π α := ExceptT.adapt f m

theorem exec_bind (m : Fallible ε σ π α) (k : α → Fallible ε σ π β) (s : σ) :
    (m >>= k).exec s = m.exec s >>= fun
      | (.ok a, s') => (k a).exec s'
      | (.error e, s') => .ok (.error e, s') := by
  unfold exec
  rw [ExceptT.run_bind, StateT.run_bind]
  congr
  funext ⟨r, s'⟩
  cases r <;> rfl

theorem exec_wrapping (f : ε → ε') (m : Fallible ε σ π α) (s : σ) :
    (m.wrapping f).exec s = (m.exec s).map fun out => (out.1.mapError f, out.2) := by
  have hmap : (m.wrapping f).run.run s = m.run.run s >>= fun out => .ok (out.1.mapError f, out.2) := rfl
  unfold exec
  rw [hmap]
  cases m.run.run s <;> rfl

variable {R : σ → σ → Prop}

/-- The program does not panic, and moves along `R`. -/
def Within (R : σ → σ → Prop) (m : Fallible ε σ π α) : Prop :=
  ∀ s, ∃ r s', m.exec s = .ok (r, s') ∧ R s s'

namespace Within

theorem modify {f : σ → σ} (h : ∀ s, R s (f s)) :
    Within R (modify f : Fallible ε σ π PUnit) := by
  intro s
  exact ⟨.ok ⟨⟩, f s, rfl, h s⟩

theorem wrapping {m : Fallible ε σ π α} (h : Within R m) (f : ε → ε') : Within R (m.wrapping f) := by
  intro s
  obtain ⟨r, s', hm, hR⟩ := h s
  refine ⟨r.mapError f, s', ?_, hR⟩
  rw [exec_wrapping, hm]
  rfl

theorem ite {c : Prop} [Decidable c] {m n : Fallible ε σ π α} (hm : Within R m) (hn : Within R n) :
    Within R (if c then m else n) := by
  by_cases h : c
  · rw [if_pos h]
    exact hm
  · rw [if_neg h]
    exact hn

theorem get_bind {k : σ → Fallible ε σ π α} (h : ∀ s, Within R (k s)) :
    Within R (get >>= k) := by
  intro s
  exact h s s

section Preorder

variable [Std.Refl R]

theorem pure (a : α) : Within R (Pure.pure a : Fallible ε σ π α) :=
  fun s => ⟨.ok a, s, rfl, Std.Refl.refl s⟩

theorem throw (e : ε) : Within R (throw e : Fallible ε σ π α) :=
  fun s => ⟨.error e, s, rfl, Std.Refl.refl s⟩

theorem check (err : Option ε) : Within R (check err : Fallible ε σ π PUnit) := by
  cases err with
  | none => exact pure _
  | some e => exact throw e

omit [Std.Refl R] in
/-- The rule of sequencing: an error ends the program where it is. -/
theorem bind [IsTrans σ R] {m : Fallible ε σ π α} {k : α → Fallible ε σ π β} (hm : Within R m)
    (hk : ∀ a, Within R (k a)) : Within R (m >>= k) := by
  intro s
  obtain ⟨r, s', hr, hR⟩ := hm s
  rw [exec_bind, hr, ok_bind]
  cases r with
  | error e => exact ⟨.error e, s', rfl, hR⟩
  | ok a =>
    obtain ⟨r, s'', hk, hR'⟩ := hk a s'
    exact ⟨r, s'', hk, IsTrans.trans s s' s'' hR hR'⟩

end Preorder

end Within

/-! ## Programs that succeed in some case -/

/-- From the states with `P` the program does not panic. If `C` holds it returns a value, and then `Q` holds
of this value and of the state it ends in; otherwise it returns an error in a state with `E`. -/
def Decides (P : σ → Prop) (C : Prop) (Q : α → σ → Prop) (E : σ → Prop) (m : Fallible ε σ π α) : Prop :=
  ∀ s, P s →
    (C ∧ ∃ a s', m.exec s = .ok (.ok a, s') ∧ Q a s') ∨
      (¬ C ∧ ∃ e s', m.exec s = .ok (.error e, s') ∧ E s')

namespace Decides

variable {P P' : σ → Prop} {C C' : Prop} {Q : α → σ → Prop} {E : σ → Prop}

theorem pure {a : α} (h : ∀ s, P s → Q a s) :
    Decides P True Q E (Pure.pure a : Fallible ε σ π α) := by
  intro s hs
  exact .inl ⟨trivial, a, s, rfl, h s hs⟩

theorem throw (e : ε) (h : ∀ s, P s → E s) :
    Decides P False Q E (throw e : Fallible ε σ π α) := by
  intro s hs
  exact .inr ⟨not_false, e, s, rfl, h s hs⟩

theorem iff {m : Fallible ε σ π α} (h : Decides P C Q E m) (hC : C ↔ C') : Decides P C' Q E m := by
  rw [← hC]
  exact h

theorem pre {m : Fallible ε σ π α} (h : Decides P C Q E m) (hP : ∀ s, P' s → P s) :
    Decides P' C Q E m := by
  intro s hs
  exact h s (hP s hs)

theorem post {Q' : α → σ → Prop} {m : Fallible ε σ π α} (h : Decides P C Q E m)
    (hQ : ∀ a s, Q a s → Q' a s) : Decides P C Q' E m := by
  intro s hs
  rcases h s hs with ⟨hC, a, s', hexec, ha⟩ | hfailed
  · exact .inl ⟨hC, a, s', hexec, hQ a s' ha⟩
  · exact .inr hfailed

/-- What the precondition says is known. -/
theorem of_state {m : Fallible ε σ π α} (h : ∀ t, P t → Decides (fun s => s = t) C Q E m) :
    Decides P C Q E m := by
  intro s hs
  exact h s hs s rfl

theorem check (err : Option ε) (h : ∀ s, P s → E s) :
    Decides P (err = none) (fun _ => P) E (check err : Fallible ε σ π PUnit) := by
  cases err with
  | none => exact (pure fun s hs => hs : Decides P True _ E _).iff (iff_of_true trivial rfl)
  | some e => exact (throw e h).iff (iff_of_false not_false (Option.some_ne_none e))

theorem modify {f : σ → σ} {Q : PUnit → σ → Prop} (h : ∀ s, P s → Q ⟨⟩ (f s)) :
    Decides P True Q E (modify f : Fallible ε σ π PUnit) := by
  intro s hs
  exact .inl ⟨trivial, ⟨⟩, f s, rfl, h s hs⟩

theorem wrapping {m : Fallible ε σ π α} (h : Decides P C Q E m) (f : ε → ε') :
    Decides P C Q E (m.wrapping f) := by
  intro s hs
  rcases h s hs with ⟨hC, a, s', hm, hQ⟩ | ⟨hC, e, s', hm, hE⟩
  · refine .inl ⟨hC, a, s', ?_, hQ⟩
    rw [exec_wrapping, hm]
    rfl
  · refine .inr ⟨hC, f e, s', ?_, hE⟩
    rw [exec_wrapping, hm]
    rfl

theorem get_bind {k : σ → Fallible ε σ π α} (h : ∀ t, P t → Decides (fun s => s = t) C Q E (k t)) :
    Decides P C Q E (get >>= k) := by
  intro s hs
  exact h s hs s rfl

/-- The rule of sequencing: both programs have to succeed. -/
theorem bind {R : β → σ → Prop} {m : Fallible ε σ π β} {k : β → Fallible ε σ π α}
    (hm : Decides P C R E m) (hk : C → ∀ b, Decides (R b) C' Q E (k b)) :
    Decides P (C ∧ C') Q E (m >>= k) := by
  intro s hs
  rcases hm s hs with ⟨hC, b, s', hexec, hR⟩ | ⟨hC, e, s', hexec, hE⟩
  · rcases hk hC b s' hR with ⟨hC', a, s'', hexec', hQ⟩ | ⟨hC', e, s'', hexec', hE⟩
    · refine .inl ⟨⟨hC, hC'⟩, a, s'', ?_, hQ⟩
      rw [exec_bind, hexec]
      exact hexec'
    · refine .inr ⟨fun h => hC' h.2, e, s'', ?_, hE⟩
      rw [exec_bind, hexec]
      exact hexec'
  · refine .inr ⟨fun h => hC h.1, e, s', ?_, hE⟩
    rw [exec_bind, hexec]
    rfl

theorem ite {c : Prop} [Decidable c] {m n : Fallible ε σ π α} (hm : c → Decides P C Q E m)
    (hn : ¬ c → Decides P C Q E n) : Decides P C Q E (if c then m else n) := by
  by_cases h : c
  · rw [if_pos h]
    exact hm h
  · rw [if_neg h]
    exact hn h

/-- A program that always moves along `R` does so here. -/
theorem within {m : Fallible ε σ π α} (h : Decides P C Q E m) {R : σ → σ → Prop}
    (hR : Within R m) {s : σ} (hs : P s) :
    (C ∧ ∃ a s', m.exec s = .ok (.ok a, s') ∧ Q a s' ∧ R s s') ∨
      (¬ C ∧ ∃ e s', m.exec s = .ok (.error e, s') ∧ E s' ∧ R s s') := by
  obtain ⟨r, s', hexec, hmoves⟩ := hR s
  rcases h s hs with ⟨hC, a, s'', hexec', hQ⟩ | ⟨hC, e, s'', hexec', hE⟩
  · obtain ⟨rfl, rfl⟩ := Prod.mk.inj (Except.ok.inj (hexec.symm.trans hexec'))
    exact .inl ⟨hC, a, s', hexec, hQ, hmoves⟩
  · obtain ⟨rfl, rfl⟩ := Prod.mk.inj (Except.ok.inj (hexec.symm.trans hexec'))
    exact .inr ⟨hC, e, s', hexec, hE, hmoves⟩

end Decides

end Fallible

end TestingSystem
