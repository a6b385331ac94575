import Mathlib.Tactic.Ring
import TestingSystem.Lib.Rounding
import TestingSystem.Master.JobGenerators.Common

/-!
# The rounding of times and sizes

Where no sum in it wraps around, `roundValue` rounds in units of `1`, the factor and its square
(`roundValue_eq`).
-/

set_option autoImplicit false

namespace TestingSystem

/-- One turn of the loop of `roundValue`. -/
theorem roundLoop_succ {turns value roundFactor : Nat} (hf : 0 < roundFactor)
    (h : value + roundFactor ≤ 2 ^ 64) :
    roundLoop (turns + 1) value roundFactor =
      if value < roundFactor then value
      else roundLoop turns (roundUp roundFactor value) (u64 (roundFactor * roundFactor)) := by
  have hsum : u64 (value + roundFactor + (2 ^ 64 - 1)) = value + roundFactor - 1 := by
    unfold u64
    omega
  have hup := roundUp_lt hf value
  have hprod : u64 ((value + roundFactor - 1) / roundFactor * roundFactor) =
      roundUp roundFactor value := by
    rw [← roundUp_eq]
    exact Nat.mod_eq_of_lt (by omega)
  rw [roundLoop, hsum, hprod]

/-- The two rounds together. -/
theorem roundValue_eq {f x : Nat} (hf : 0 < f) (h : x + f ≤ 2 ^ 64)
    (hup : roundUp f x + f * f ≤ 2 ^ 64) : roundValue x f = roundInUnits f x := by
  have hff : 0 < f * f := Nat.mul_pos hf hf
  by_cases hx : x < f
  · rw [roundValue, roundLoop_succ hf h, if_pos hx, roundInUnits, if_pos hx]
  have hle : f ≤ roundUp f x := (Nat.not_lt.1 hx).trans (le_roundUp hf x)
  have hsquare : u64 (f * f) = f * f := Nat.mod_eq_of_lt (by omega)
  rw [roundValue, roundLoop_succ hf h, if_neg hx, hsquare, roundLoop_succ hff hup, roundLoop,
    roundUp_roundUp hf hff (dvd_mul_right f f), roundInUnits, if_neg hx]

/-- `roundValue` gives the least multiple of the unit of its argument. -/
theorem roundValue_rounds {f x y : Nat} (hf : 2 ≤ f) (hxy : x ≤ y) (hx : x + 2 * f * f ≤ 2 ^ 64)
    (hy : y + 2 * f * f ≤ 2 ^ 64) :
    (x < f → roundValue x f = x) ∧
      (f ≤ x → ∃ m, IsLeast {m | f ∣ m ∧ x ≤ m} m ∧ (m < f * f → roundValue x f = m) ∧
        (f * f ≤ m → IsLeast {m | f * f ∣ m ∧ x ≤ m} (roundValue x f))) ∧
      roundValue (roundValue x f) f = roundValue x f ∧ roundValue x f ≤ roundValue y f ∧
      x ≤ roundValue x f := by
  have hf0 : 0 < f := by omega
  have hff : 0 < f * f := Nat.mul_pos hf0 hf0
  have hfactor : f ≤ f * f := Nat.le_mul_of_pos_left f hf0
  have htwice : 2 * f * f = f * f + f * f := by ring
  have heq : ∀ z, z + 2 * f * f ≤ 2 ^ 64 → roundValue z f = roundInUnits f z := by
    intro z hz
    have := roundUp_lt hf0 z
    exact roundValue_eq hf0 (by omega) (by omega)
  rw [heq x hx, heq y hy]
  refine ⟨fun hlt => if_pos hlt, fun hle => ?_, ?_, roundInUnits_mono hf0 hxy,
    le_roundInUnits hf0 x⟩
  · have hnot : ¬ x < f := Nat.not_lt.2 hle
    refine ⟨roundUp f x, isLeast_roundUp hf0 x, fun hlt => ?_, fun hge => ?_⟩
    · rw [roundInUnits, if_neg hnot, if_pos hlt]
    · rw [roundInUnits, if_neg hnot, if_neg (Nat.not_lt.2 hge)]
      exact isLeast_roundUp hff x
  · -- the rounded value may exceed the bound on `x`, but the second call does not wrap around either
    have hle := le_roundUp hf0 (roundInUnits f x)
    have hup := roundUp_roundInUnits_le hf0 x
    rw [roundValue_eq hf0 (by omega) (by omega), roundInUnits_idem hf0]

theorem roundValue_rounds_thousand :
    roundValue 1500 1000 = 2000 ∧ roundValue 1000001 1000 = 2000000 ∧
      roundValue (roundValue 1500 1000) 1000 = roundValue 1500 1000 ∧
      roundValue 1500 1000 ≤ roundValue 1000001 1000 ∧ 1500 ≤ roundValue 1500 1000 := by
  have h := roundValue_rounds (f := 1000) (x := 1500) (y := 1000001) (by decide) (by decide) (by decide)
    (by decide)
  exact ⟨by decide, by decide, h.2.2⟩

end TestingSystem
