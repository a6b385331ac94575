import Mathlib.Init

/-!
# A mutex and the critical sections it guards

A mutex is the goroutine that holds it. `Guards` says that the goroutines in a critical section are
those that hold the mutex, which is at most one. A goroutine that takes the free mutex and enters, one
that leaves and gives the mutex back, and a step outside the critical sections keep this.
-/

set_option autoImplicit false

namespace TestingSystem

universe u

/-- The goroutines in a critical section are exactly the holder of the mutex. -/
def Guards {G : Type u} (owner : Option G) (critical : G → Prop) : Prop :=
  ∀ g, critical g ↔ owner = some g

namespace Guards

variable {G : Type u} {owner : Option G} {critical critical' : G → Prop}

theorem unlocked (h : ∀ g, ¬ critical g) : Guards none critical := by
  intro g
  exact ⟨fun hg => absurd hg (h g), nofun⟩

/-- `g` takes the free mutex and enters. -/
theorem acquire {g : G} (h : Guards none critical)
    (hcritical : ∀ g', critical' g' ↔ g' = g ∨ critical g') : Guards (some g) critical' := by
  intro g'
  rw [hcritical, h g', Option.some.injEq, eq_comm]
  exact or_iff_left nofun

/-- The holder gives the mutex back and leaves. -/
theorem release {g : G} (h : Guards (some g) critical)
    (hcritical : ∀ g', critical' g' ↔ g' ≠ g ∧ critical g') : Guards none critical' := by
  intro g'
  rw [hcritical, h g', Option.some.injEq]
  exact ⟨fun hg => absurd hg.2.symm hg.1, nofun⟩

/-- Nobody enters or leaves. -/
theorem keep (h : Guards owner critical) (hcritical : ∀ g, critical' g ↔ critical g) :
    Guards owner critical' := by
  intro g
  rw [hcritical, h g]

end Guards

end TestingSystem
