import Mathlib.Init

/-!
# Computations that may fail

`Yields P Q x` says how the computation `x` may end: in a failure that meets `P` or in a value that
meets `Q`. The rules follow the structure of a computation, so the code that chains the calls is
never unfolded together with the code of the calls.
-/

set_option autoImplicit false

namespace TestingSystem

universe u v

variable {ε : Type u} {α β : Type v} {P P' : ε → Prop} {Q Q' : α → Prop} {R : β → Prop}

@[simp] theorem ok_bind (a : α) (f : α → Except ε β) : ((.ok a : Except ε α) >>= f) = f a := rfl

@[simp] theorem error_bind (e : ε) (f : α → Except ε β) :
    ((.error e : Except ε α) >>= f) = .error e := rfl

/-- A sequence succeeds when both parts do. -/
theorem bind_eq_ok {x : Except ε α} {f : α → Except ε β} {b : β} :
    (x >>= f) = .ok b ↔ ∃ a, x = .ok a ∧ f a = .ok b := by
  cases x with
  | error e => simp
  | ok a => simp

@[simp] theorem mapError_ok {ε' : Type u} (a : α) (f : ε → ε') :
    (.ok a : Except ε α).mapError f = .ok a := rfl

@[simp] theorem mapError_error {ε' : Type u} (e : ε) (f : ε → ε') :
    (.error e : Except ε α).mapError f = .error (f e) := rfl

theorem mapError_eq_ok {ε' : Type u} {x : Except ε α} {f : ε → ε'} {a : α} :
    x.mapError f = .ok a ↔ x = .ok a := by
  cases x with
  | error e => simp
  | ok b => simp

theorem map_eq_ok {γ : Type v} {x : Except ε α} {f : α → γ} {c : γ} :
    x.map f = .ok c ↔ ∃ a, x = .ok a ∧ f a = c := by
  cases x with
  | error e => simp [Except.map]
  | ok a => simp [Except.map]

/-- A list of calls that succeed. -/
theorem mapM_eq_ok {f : α → Except ε β} {g : α → β} {l : List α}
    (h : ∀ a ∈ l, f a = .ok (g a)) : l.mapM f = .ok (l.map g) := by
  induction l with
  | nil => rfl
  | cons a l ih =>
    rw [List.mapM_cons, h a List.mem_cons_self, ok_bind, ih fun b hb => h b (List.mem_cons_of_mem _ hb)]
    rfl

/-- `x` fails with some `e` of `P` or returns some `a` of `Q`. -/
def Yields (P : ε → Prop) (Q : α → Prop) : Except ε α → Prop
  | .error e => P e
  | .ok a => Q a

namespace Yields

@[simp] theorem ok_iff {a : α} : Yields P Q (.ok a) ↔ Q a := Iff.rfl

theorem value {x : Except ε α} {a : α} (h : Yields P Q x) (hx : x = .ok a) : Q a := by
  subst hx
  exact h

theorem failure {x : Except ε α} {e : ε} (h : Yields P Q x) (hx : x = .error e) : P e := by
  subst hx
  exact h

/-- A computation that can not fail returns a value. -/
theorem exists_value {x : Except ε α} (h : Yields (fun _ => False) Q x) : ∃ a, x = .ok a ∧ Q a := by
  cases x with
  | error e => exact h.elim
  | ok a => exact ⟨a, rfl, h⟩

theorem mono {x : Except ε α} (h : Yields P Q x) (hP : ∀ e, P e → P' e) (hQ : ∀ a, Q a → Q' a) :
    Yields P' Q' x := by
  cases x with
  | error e => exact hP e h
  | ok a => exact hQ a h

theorem weaken {x : Except ε α} (h : Yields P Q x) (hQ : ∀ a, Q a → Q' a) : Yields P Q' x :=
  h.mono (fun _ he => he) hQ

/-- The rule of sequencing. -/
theorem bind {x : Except ε α} {f : α → Except ε β} (h : Yields P Q x)
    (hf : ∀ a, Q a → Yields P R (f a)) : Yields P R (x >>= f) := by
  cases x with
  | error e => exact h
  | ok a => exact hf a h

end Yields

end TestingSystem
