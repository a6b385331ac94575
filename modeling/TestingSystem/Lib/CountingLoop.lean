import Mathlib.Computability.StateTransition

/-!
# Loops that count

A program is a function `σ → Option σ`: a step, or `none` at its end. `Ends f s` says that its run from
`s` has finitely many steps, and an invariant under which there always is a step excludes it
(`not_ends`).

`countTurn` is a turn of the loop `for n := first; n <= last; n++` with a counter of `w` bits. The loop
ends if `last` is not the largest number of `w` bits (`count_reaches`); if it is, the counter never passes
it, and the loop only ends where a turn leaves it (`countTurn_top`).
-/

set_option autoImplicit false

namespace TestingSystem

open StateTransition

universe u v

section Runs

variable {σ : Type u} {f : σ → Option σ} {s t : σ}

/-- The run from `s` ends. -/
def Ends (f : σ → Option σ) (s : σ) : Prop := ∃ t, t ∈ eval f s

theorem Ends.of_reaches (h : Reaches f s t) (ht : f t = none) : Ends f s := ⟨t, mem_eval.2 ⟨h, ht⟩⟩

theorem ends_iff_of_reaches (h : Reaches f s t) : Ends f s ↔ Ends f t := by
  rw [Ends, Ends, reaches_eval h]

/-- A run that always has a next step does not end. -/
theorem not_ends {P : σ → Prop} (hs : P s) (hstep : ∀ s, P s → ∃ t, f s = some t ∧ P t) :
    ¬ Ends f s := by
  rintro ⟨t, ht⟩
  obtain ⟨hreach, hend⟩ := mem_eval.1 ht
  have hinv : ∀ u, Reaches f s u → P u := by
    intro u hu
    induction hu with
    | refl => exact hs
    | tail _ hab ih =>
      obtain ⟨c, hc, hP⟩ := hstep _ ih
      obtain rfl := Option.some.inj (hc.symm.trans hab)
      exact hP
  obtain ⟨c, hc, -⟩ := hstep t (hinv t hreach)
  rw [hend] at hc
  cases hc

end Runs

section Counting

variable {σ : Type u} {ρ : Type v}

/-- A turn of the loop. The body gives the next state or leaves the loop with a result; after the last
turn the result is that of `finish`. -/
def countTurn (w last : Nat) (body : Nat → σ → σ ⊕ ρ) (finish : σ → ρ) :
    (Nat × σ) ⊕ ρ → Option ((Nat × σ) ⊕ ρ)
  | .inr _ => none
  | .inl (n, s) =>
    if n ≤ last then
      match body n s with
      | .inl s => some (.inl ((n + 1) % 2 ^ w, s))
      | .inr r => some (.inr r)
    else some (.inr (finish s))

/-- The result of a number of turns from `n`. -/
def countFrom (body : Nat → σ → σ ⊕ ρ) (finish : σ → ρ) : Nat → Nat → σ → ρ
  | 0, _, s => finish s
  | turns + 1, n, s =>
    match body n s with
    | .inl s => countFrom body finish turns (n + 1) s
    | .inr r => r

variable {w last : Nat} {body : Nat → σ → σ ⊕ ρ} {finish : σ → ρ}

/-- A loop with a bound below the largest number ends with the result of its turns. -/
theorem count_reaches (h : last + 1 < 2 ^ w) {turns n : Nat} (hturns : turns = last + 1 - n) (s : σ) :
    Reaches (countTurn w last body finish) (.inl (n, s)) (.inr (countFrom body finish turns n s)) := by
  induction turns generalizing n s with
  | zero =>
    have hlt : ¬ n ≤ last := by omega
    exact .single (by simp only [countTurn, if_neg hlt]; rfl)
  | succ turns ih =>
    have hle : n ≤ last := by omega
    have hnext : (n + 1) % 2 ^ w = n + 1 := Nat.mod_eq_of_lt (by omega)
    rw [countFrom]
    cases hbody : body n s with
    | inl s' =>
      refine .head ?_ (ih (by omega) s')
      simp only [countTurn, if_pos hle, hbody, hnext]
      rfl
    | inr r =>
      refine .single ?_
      simp only [countTurn, if_pos hle, hbody]
      rfl

theorem count_ends (h : last + 1 < 2 ^ w) (n : Nat) (s : σ) :
    Ends (countTurn w last body finish) (.inl (n, s)) :=
  .of_reaches (count_reaches h rfl s) rfl

/-- In a loop up to the largest number a turn is followed by another one, unless it leaves the loop. -/
theorem countTurn_top (h : 2 ^ w ≤ last + 1) {n : Nat} (hn : n ≤ last) {s s' : σ}
    (hbody : body n s = .inl s') :
    ∃ m ≤ last, countTurn w last body finish (.inl (n, s)) = some (.inl (m, s')) := by
  refine ⟨(n + 1) % 2 ^ w, ?_, by simp only [countTurn, if_pos hn, hbody]⟩
  have := Nat.mod_lt (n + 1) (Nat.two_pow_pos w)
  omega

end Counting

end TestingSystem
