import Mathlib.Data.List.Nodup

/-!
# Taking turns

Whoever stands first in a line may be served and goes to the end, and those in front of it who want
nothing leave the line (`Turn`); others join at the end. If `g` waits while `h` is served, then `h`
stands behind `g` from then on (`Ahead`), so `h` is not served again before `g` is served or leaves.
-/

set_option autoImplicit false

namespace TestingSystem

universe u

variable {α : Type u}

/-- A turn: those in front leave the line and the next one is served, or all leave. -/
inductive Turn (line : List α) : List α → Option α → List α → Prop where
  | serve {left : List α} {served : α} {rest : List α} (h : line = left ++ served :: rest) :
    Turn line left (some served) (rest ++ [served])
  | leave : Turn line line none []

/-- `g` stands in the line, and `h` does not stand in front of it. -/
def Ahead (g h : α) (line : List α) : Prop :=
  ∃ front back, line = front ++ g :: back ∧ h ∉ front

variable {g h : α} {line line' left : List α} {served : Option α}

/-- One more in front leaves. -/
theorem Turn.cons (ht : Turn line left served line') (x : α) :
    Turn (x :: line) (x :: left) served line' := by
  cases ht with
  | serve heq => exact .serve (heq ▸ rfl)
  | leave => exact .leave

theorem Turn.mem_of_left (ht : Turn line left served line') (hleft : g ∈ left) : g ∈ line := by
  cases ht with
  | serve heq => exact heq ▸ List.mem_append_left _ hleft
  | leave => exact hleft

/-- Those who have not left are in the line. -/
theorem Turn.mem_iff (ht : Turn line left served line') (hnodup : line.Nodup) :
    g ∈ line' ↔ g ∈ line ∧ g ∉ left := by
  cases ht with
  | serve heq =>
    subst heq
    have hdisjoint := (List.nodup_append.1 hnodup).2.2
    constructor
    · intro hmem
      have hmem' : g ∈ _ :: _ := List.perm_append_singleton .. |>.mem_iff.1 hmem
      exact ⟨List.mem_append_right _ hmem', fun hleft => hdisjoint g hleft g hmem' rfl⟩
    · rintro ⟨hmem, hleft⟩
      exact (List.perm_append_singleton ..).mem_iff.2 ((List.mem_append.1 hmem).resolve_left hleft)
  | leave => simp

/-- Whoever waits while `h` is served stands in front of it afterwards. -/
theorem Ahead.of_served (ht : Turn line left (some h) line') (hnodup : line.Nodup) (hmem : g ∈ line)
    (hleft : g ∉ left) (hne : g ≠ h) : Ahead g h line' := by
  cases ht with
  | @serve left _ rest heq =>
    subst heq
    have hrest : g ∈ rest :=
      (List.mem_cons.1 ((List.mem_append.1 hmem).resolve_left hleft)).resolve_left hne
    obtain ⟨front, back, rfl⟩ := List.append_of_mem hrest
    refine ⟨front, back ++ [h], by simp, fun hfront => ?_⟩
    have htail := (List.nodup_cons.1 (List.nodup_append.1 hnodup).2.1).1
    exact htail (List.mem_append_left _ hfront)

/-- Where `g` stands when `x` is the first to stay: it leaves, or is `x`, or stands behind `x`. -/
theorem stands_cases {front back rest : List α} {x : α}
    (heq : front ++ g :: back = left ++ x :: rest) :
    g ∈ left ∨ g = x ∨ ∃ mid, front = left ++ x :: mid ∧ rest = mid ++ g :: back := by
  rcases List.append_eq_append_iff.1 heq with ⟨mid, hmid, htail⟩ | ⟨mid, hmid, htail⟩
  · cases mid with
    | nil => exact .inr (.inl (List.cons.inj htail).1)
    | cons x' mid =>
      obtain rfl : g = x' := (List.cons.inj htail).1
      exact .inl (hmid ▸ List.mem_append_right _ List.mem_cons_self)
  · cases mid with
    | nil => exact .inr (.inl (List.cons.inj htail).1.symm)
    | cons x' mid =>
      obtain ⟨rfl, rfl⟩ := List.cons.inj htail
      exact .inr (.inr ⟨mid, hmid, rfl⟩)

/-- A turn in which `g` is not served and does not leave keeps it in front of `h`. -/
theorem Ahead.turn (ha : Ahead g h line) (ht : Turn line left served line') (hleft : g ∉ left)
    (hserved : served ≠ some g) : Ahead g h line' := by
  obtain ⟨front, back, rfl, hfront⟩ := ha
  cases ht with
  | @serve left x rest heq =>
    rcases stands_cases heq with hmem | rfl | ⟨mid, rfl, rfl⟩
    · exact absurd hmem hleft
    · exact absurd rfl hserved
    · refine ⟨mid, back ++ [x], by simp, fun hmem => hfront ?_⟩
      exact List.mem_append_right _ (List.mem_cons_of_mem _ hmem)
  | leave => exact absurd (List.mem_append_right _ List.mem_cons_self) hleft

/-- If `h` is served while `g` stands in front of it, then `g` leaves. -/
theorem Ahead.left_of_served (ha : Ahead g h line) (ht : Turn line left (some h) line') (hne : g ≠ h) :
    g ∈ left := by
  obtain ⟨front, back, rfl, hfront⟩ := ha
  cases ht with
  | serve heq =>
    rcases stands_cases heq with hmem | rfl | ⟨mid, rfl, -⟩
    · exact hmem
    · exact absurd rfl hne
    · exact absurd (List.mem_append_right _ List.mem_cons_self) hfront

theorem Ahead.join (ha : Ahead g h line) (x : α) : Ahead g h (line ++ [x]) := by
  obtain ⟨front, back, rfl, hfront⟩ := ha
  exact ⟨front, back ++ [x], by simp, hfront⟩

end TestingSystem
