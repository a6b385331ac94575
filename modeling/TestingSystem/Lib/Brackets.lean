import Mathlib.Data.List.Infix

/-!
# Things that are opened and closed again

In a log of events some open a thing and some close one. A log is `Balanced` if each thing is closed as
often as it is opened, and at no time more often.
-/

set_option autoImplicit false

namespace TestingSystem

universe u v

variable {ε : Type u} {κ : Type v} [DecidableEq κ]

/-- Every thing that an event opens is closed by exactly one later event. -/
structure Balanced (opens closes : ε → Option κ) (log : List ε) : Prop where
  closed : ∀ a, (log.filterMap closes).count a = (log.filterMap opens).count a
  opened_before : ∀ a front, front <+: log →
    (front.filterMap closes).count a ≤ (front.filterMap opens).count a

namespace Balanced

variable {opens closes : ε → Option κ} {log front back : List ε}

/-- Nothing happens to the things. -/
theorem of_none (hopens : log.filterMap opens = []) (hcloses : log.filterMap closes = []) :
    Balanced opens closes log := by
  constructor
  · intro a
    rw [hopens, hcloses]
  · intro a front hfront
    have hnone := hfront.filterMap closes
    rw [hcloses] at hnone
    rw [List.prefix_nil.1 hnone]
    exact Nat.zero_le _

/-- What is opened first is closed afterwards, in some order. -/
theorem append (hfront : front.filterMap closes = []) (hback : back.filterMap opens = [])
    (h : (back.filterMap closes).Perm (front.filterMap opens)) :
    Balanced opens closes (front ++ back) := by
  constructor
  · intro a
    rw [List.filterMap_append, List.filterMap_append, hfront, hback, List.nil_append, List.append_nil]
    exact h.count_eq a
  · intro a left hleft
    rcases List.prefix_or_prefix_of_prefix hleft (List.prefix_append front back) with hpre | hpre
    · have hnone := hpre.filterMap closes
      rw [hfront] at hnone
      rw [List.prefix_nil.1 hnone]
      exact Nat.zero_le _
    · obtain ⟨rest, rfl⟩ := hpre
      have hrest := (List.prefix_append_right_inj front).1 hleft
      rw [List.filterMap_append, hfront, List.nil_append, List.filterMap_append, List.count_append,
        ← h.count_eq a]
      exact Nat.le_add_right_of_le ((hrest.filterMap closes).sublist.count_le a)

/-- Something is opened, and nothing is closed. -/
theorem not_of_unclosed (hopens : log.filterMap opens ≠ []) (hcloses : log.filterMap closes = []) :
    ¬ Balanced opens closes log := by
  intro h
  obtain ⟨a, ha⟩ := List.exists_mem_of_ne_nil _ hopens
  have hclosed := h.closed a
  rw [hcloses, List.count_nil] at hclosed
  exact List.count_eq_zero.1 hclosed.symm ha

end Balanced

end TestingSystem
