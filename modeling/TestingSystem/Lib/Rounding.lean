import Mathlib.Algebra.Order.Floor.Div
import Mathlib.Algebra.Order.Ring.Canonical
import Mathlib.GroupTheory.GroupAction.Ring
import Mathlib.Order.Bounds.Basic

/-!
# Rounding up

`roundUp f x` is the least multiple of `f` that is not below `x`. Rounding up in two steps is rounding
up to the second unit if it is a multiple of the first one (`roundUp_roundUp`).

`roundInUnits f x` has units of growing size: `1` below `f`, then `f` below `f * f`, then `f * f`. It
is a closure operator: never below its argument, monotone and idempotent.
-/

set_option autoImplicit false

namespace TestingSystem

universe u

variable {α : Type u}

section Multiples

variable [CommSemiring α] [PartialOrder α] [CeilDiv α α]

/-- The least multiple of `f` that is not below `x`. -/
def roundUp (f x : α) : α := f * (x ⌈/⌉ f)

variable {f g x y m : α}

theorem dvd_roundUp (f x : α) : f ∣ roundUp f x := dvd_mul_right _ _

theorem le_roundUp (hf : 0 < f) (x : α) : x ≤ roundUp f x := (gc_mul_ceilDiv hf).le_u_l x

theorem roundUp_le (hf : 0 < f) (hm : f ∣ m) (h : x ≤ m) : roundUp f x ≤ m := by
  obtain ⟨c, rfl⟩ := hm
  exact (gc_mul_ceilDiv hf).monotone_u ((ceilDiv_le_iff_le_mul hf).2 h)

theorem isLeast_roundUp (hf : 0 < f) (x : α) : IsLeast {m | f ∣ m ∧ x ≤ m} (roundUp f x) :=
  ⟨⟨dvd_roundUp f x, le_roundUp hf x⟩, fun _ hm => roundUp_le hf hm.1 hm.2⟩

theorem roundUp_mono (hf : 0 < f) (h : x ≤ y) : roundUp f x ≤ roundUp f y :=
  roundUp_le hf (dvd_roundUp f y) (h.trans (le_roundUp hf y))

/-- A multiple is rounded already. -/
theorem roundUp_of_dvd (hf : 0 < f) (h : f ∣ x) : roundUp f x = x :=
  (roundUp_le hf h le_rfl).antisymm (le_roundUp hf x)

/-- A coarser unit rounds up further. -/
theorem roundUp_le_roundUp (hf : 0 < f) (hg : 0 < g) (h : f ∣ g) (x : α) :
    roundUp f x ≤ roundUp g x :=
  roundUp_le hf (h.trans (dvd_roundUp g x)) (le_roundUp hg x)

/-- Rounding to a finer unit first makes no difference. -/
theorem roundUp_roundUp (hf : 0 < f) (hg : 0 < g) (h : f ∣ g) (x : α) :
    roundUp g (roundUp f x) = roundUp g x := by
  apply le_antisymm
  · exact roundUp_le hg (dvd_roundUp g x) (roundUp_le_roundUp hf hg h x)
  · exact roundUp_mono hg (le_roundUp hf x)

end Multiples

section Units

variable [CommSemiring α] [LinearOrder α] [IsStrictOrderedRing α] [CeilDiv α α]

/-- `x` rounded up to units that grow with it. -/
def roundInUnits (f x : α) : α :=
  if x < f then x
  else if roundUp f x < f * f then roundUp f x
  else roundUp (f * f) x

variable {f x y : α}

theorem le_roundInUnits (hf : 0 < f) (x : α) : x ≤ roundInUnits f x := by
  unfold roundInUnits
  split
  · exact le_rfl
  · split
    · exact le_roundUp hf x
    · exact le_roundUp (mul_pos hf hf) x

theorem roundInUnits_mono (hf : 0 < f) (h : x ≤ y) : roundInUnits f x ≤ roundInUnits f y := by
  have hff : 0 < f * f := mul_pos hf hf
  have hup := roundUp_mono hf h
  by_cases hx : x < f
  · rw [roundInUnits, if_pos hx]
    exact h.trans (le_roundInUnits hf y)
  have hy : ¬ y < f := fun hy => hx (h.trans_lt hy)
  rw [roundInUnits, roundInUnits, if_neg hx, if_neg hy]
  by_cases hlarge : roundUp f y < f * f
  · rw [if_pos (hup.trans_lt hlarge), if_pos hlarge]
    exact hup
  · rw [if_neg hlarge]
    split
    · exact hup.trans (roundUp_le_roundUp hf hff (dvd_mul_right f f) y)
    · exact roundUp_mono hff h

/-- A multiple of the unit it lies in is rounded already. -/
theorem roundInUnits_of_dvd (hf : 0 < f) (h : x < f ∨ f ∣ x ∧ (x < f * f ∨ f * f ∣ x)) :
    roundInUnits f x = x := by
  have hff : 0 < f * f := mul_pos hf hf
  unfold roundInUnits
  split
  · rfl
  next hx =>
    obtain ⟨hdvd, hunit⟩ := h.resolve_left hx
    rw [roundUp_of_dvd hf hdvd]
    split
    · rfl
    next hlarge => exact roundUp_of_dvd hff (hunit.resolve_left hlarge)

theorem roundInUnits_idem (hf : 0 < f) (x : α) :
    roundInUnits f (roundInUnits f x) = roundInUnits f x := by
  apply roundInUnits_of_dvd hf
  rw [roundInUnits]
  split
  · next hx => exact .inl hx
  · right
    split
    · next hlarge => exact ⟨dvd_roundUp f x, .inl hlarge⟩
    · exact ⟨(dvd_mul_right f f).trans (dvd_roundUp (f * f) x), .inr (dvd_roundUp (f * f) x)⟩

end Units

/-! ## Natural numbers -/

theorem roundUp_eq (f x : Nat) : roundUp f x = (x + f - 1) / f * f := mul_comm _ _

theorem roundUp_lt {f : Nat} (hf : 0 < f) (x : Nat) : roundUp f x < x + f := by
  rw [roundUp_eq]
  have := Nat.div_mul_le_self (x + f - 1) f
  omega

/-- The result and its multiple of `f` exceed the argument by the largest unit at most. -/
theorem roundUp_roundInUnits_le {f : Nat} (hf : 0 < f) (x : Nat) :
    roundUp f (roundInUnits f x) ≤ x + f * f := by
  have hff : 0 < f * f := Nat.mul_pos hf hf
  have hup : roundUp f x ≤ x + f * f :=
    (roundUp_le_roundUp hf hff (dvd_mul_right f f) x).trans (roundUp_lt hff x).le
  rw [roundInUnits]
  split
  · exact hup
  · split
    · rw [roundUp_of_dvd hf (dvd_roundUp f x)]
      exact hup
    · rw [roundUp_of_dvd hf ((dvd_mul_right f f).trans (dvd_roundUp (f * f) x))]
      exact (roundUp_lt hff x).le

end TestingSystem
