import Mathlib.Logic.Function.Basic
import Mathlib.Order.Lattice

/-!
# Snapshots of a changing set

An element enters a set at most once and leaves it at most once. Snapshots of the set carry versions
that grow in the order in which the snapshots are taken; the time of a change is the version of the
last snapshot before it. A reader that gets the snapshots late, twice or in another order can still
tell from the versions what has happened: an element that a snapshot missed after its entry has left,
and no later snapshot has it again.
-/

set_option autoImplicit false

namespace TestingSystem

universe u v

/-- When the elements entered and left. -/
structure Timeline (α : Type u) (E : Type v) where
  entered : α → Option E
  left : α → Option E

namespace Timeline

variable {α : Type u} {E : Type v} [LinearOrder E] {t : Timeline α E} {a b : α} {e e' : E}
  {xs : List α}

/-- `a` had entered when the snapshot `e` was taken. -/
def EnteredBefore (t : Timeline α E) (a : α) (e : E) : Prop := ∃ x, t.entered a = some x ∧ x < e

/-- `a` had left when the snapshot `e` was taken. -/
def LeftBefore (t : Timeline α E) (a : α) (e : E) : Prop := ∃ x, t.left a = some x ∧ x < e

/-- The snapshot `e` has the elements `xs`. -/
def Shows (t : Timeline α E) (e : E) (xs : List α) : Prop :=
  ∀ a, a ∈ xs ↔ t.EnteredBefore a e ∧ ¬ t.LeftBefore a e

theorem EnteredBefore.mono (h : t.EnteredBefore a e) (hle : e ≤ e') : t.EnteredBefore a e' := by
  obtain ⟨x, hx, hlt⟩ := h
  exact ⟨x, hx, hlt.trans_le hle⟩

theorem LeftBefore.mono (h : t.LeftBefore a e) (hle : e ≤ e') : t.LeftBefore a e' := by
  obtain ⟨x, hx, hlt⟩ := h
  exact ⟨x, hx, hlt.trans_le hle⟩

/-- An element that a snapshot misses after its entry has left. -/
theorem Shows.left_of_missing (h : t.Shows e xs) (ha : t.EnteredBefore a e) (hmem : a ∉ xs) :
    t.LeftBefore a e := by
  by_contra hleft
  exact hmem ((h a).2 ⟨ha, hleft⟩)

/-- An element that has left does not come back in a later snapshot. -/
theorem Shows.missing_of_left (h : t.Shows e' xs) (ha : t.LeftBefore a e) (hle : e ≤ e') :
    a ∉ xs :=
  fun hmem => ((h a).1 hmem).2 (ha.mono hle)

/-- An element that is still there is in every snapshot after its entry. -/
theorem Shows.mem_of_present (h : t.Shows e xs) (ha : t.EnteredBefore a e)
    (hpresent : t.left a = none) : a ∈ xs := by
  refine (h a).2 ⟨ha, ?_⟩
  rintro ⟨x, hx, -⟩
  rw [hpresent] at hx
  cases hx

variable [DecidableEq α]

/-- `a` enters after the snapshot `now`. -/
def enter (t : Timeline α E) (a : α) (now : E) : Timeline α E :=
  { t with entered := Function.update t.entered a (some now) }

/-- `a` leaves after the snapshot `now`. -/
def leave (t : Timeline α E) (a : α) (now : E) : Timeline α E :=
  { t with left := Function.update t.left a (some now) }

theorem enteredBefore_enter (hnew : t.entered a = none) :
    (t.enter a e).EnteredBefore b e' ↔ t.EnteredBefore b e' ∨ b = a ∧ e < e' := by
  unfold EnteredBefore enter
  by_cases hb : b = a
  · subst hb
    simp [hnew]
  · simp [hb]

theorem leftBefore_leave (hnew : t.left a = none) :
    (t.leave a e).LeftBefore b e' ↔ t.LeftBefore b e' ∨ b = a ∧ e < e' := by
  unfold LeftBefore leave
  by_cases hb : b = a
  · subst hb
    simp [hnew]
  · simp [hb]

/-- The snapshots taken so far show no later entry. -/
theorem Shows.enter (h : t.Shows e xs) (hnew : t.entered a = none) (hle : e ≤ e') :
    (t.enter a e').Shows e xs := by
  intro b
  have hb : ¬ (b = a ∧ e' < e) := fun hb => not_lt_of_ge hle hb.2
  rw [h b, enteredBefore_enter hnew, or_iff_left hb]
  rfl

/-- The snapshots taken so far show no later removal. -/
theorem Shows.leave (h : t.Shows e xs) (hnew : t.left a = none) (hle : e ≤ e') :
    (t.leave a e').Shows e xs := by
  intro b
  have hb : ¬ (b = a ∧ e' < e) := fun hb => not_lt_of_ge hle hb.2
  rw [h b, leftBefore_leave hnew, or_iff_left hb]
  rfl

end Timeline

end TestingSystem
