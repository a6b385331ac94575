import TestingSystem.Lib.FilePath
import Mathlib.Data.List.TakeWhile

/-!
# Decimal numbers in file names

A number is written with its decimal digits, with two digits at least (`twoDigits`), or in a pair with
a dash between. Numbers can be read back, also when a text that starts with another character than a
digit follows: the digits end where the first other character stands (`append_cancel`).
-/

set_option autoImplicit false

namespace TestingSystem

universe u

/-- Two lists are equal in both parts if the first parts meet `p` and the second ones start with an
element that does not. -/
theorem append_cancel {α : Type u} {p : α → Bool} {xs xs' ys ys' : List α} (hxs : ∀ x ∈ xs, p x = true)
    (hxs' : ∀ x ∈ xs', p x = true) (hys : ∀ y ∈ ys.head?, p y = false)
    (hys' : ∀ y ∈ ys'.head?, p y = false) (h : xs ++ ys = xs' ++ ys') : xs = xs' ∧ ys = ys' := by
  have htake : ∀ zs : List α, (∀ z ∈ zs.head?, p z = false) → zs.takeWhile p = [] := by
    intro zs hz
    cases zs with
    | nil => rfl
    | cons z zs => rw [List.takeWhile_cons_of_neg]; simp [hz z rfl]
  have heq := congrArg (List.takeWhile p) h
  rw [List.takeWhile_append_of_pos hxs, List.takeWhile_append_of_pos hxs', htake ys hys, htake ys' hys',
    List.append_nil, List.append_nil] at heq
  exact ⟨heq, List.append_cancel_left (heq ▸ h)⟩

/-- A number with two digits at least, as `%02d` writes it. -/
def twoDigits (n : Nat) : String := if n < 10 then "0" ++ n.repr else n.repr

/-- Two numbers with a dash between. -/
def dashed (m n : Nat) : String := m.repr ++ "-" ++ n.repr

/-- The value of a text of digits. -/
def decimalValue (s : String) : Nat := Nat.ofDigitChars 10 s.toList 0

@[simp] theorem decimalValue_repr (n : Nat) : decimalValue n.repr = n := by
  rw [decimalValue, Nat.toList_repr, Nat.ofDigitChars_ten_toDigits]

theorem repr_injective {m n : Nat} (h : m.repr = n.repr) : m = n := by
  rw [← decimalValue_repr m, h, decimalValue_repr]

/-! ## Digits -/

theorem repr_digits (n : Nat) : ∀ c ∈ n.repr.toList, c.isDigit = true := by
  rw [Nat.toList_repr]
  exact fun c hc => Nat.isDigit_of_mem_toDigits (by decide) (by decide) hc

theorem repr_ne_empty (n : Nat) : n.repr ≠ "" := by
  intro h
  rw [← String.toList_eq_nil_iff, Nat.toList_repr] at h
  exact Nat.toDigits_ne_nil h

theorem twoDigits_digits (n : Nat) : ∀ c ∈ (twoDigits n).toList, c.isDigit = true := by
  unfold twoDigits
  split
  · intro c hc
    rw [String.toList_append] at hc
    rcases List.mem_append.1 hc with hc | hc
    · rw [List.mem_singleton.1 (show c ∈ ['0'] from hc)]
      rfl
    · exact repr_digits n c hc
  · exact repr_digits n

theorem twoDigits_ne_empty (n : Nat) : twoDigits n ≠ "" := by
  unfold twoDigits
  split
  · exact fun h => repr_ne_empty n (String.append_eq_empty_iff.1 h).2
  · exact repr_ne_empty n

/-- A text that starts with digits is a name. -/
theorem proper_of_digits {s t : String} (hne : s ≠ "") (hs : ∀ c ∈ s.toList, c.isDigit = true)
    (ht : '/' ∉ t.toList) : FilePath.Proper (s ++ t) := by
  obtain ⟨c, cs, heq⟩ := List.exists_cons_of_ne_nil (mt String.toList_eq_nil_iff.1 hne)
  have hc : c.isDigit = true := hs c (heq ▸ List.mem_cons_self)
  have hhead : (s ++ t).toList.head? = some c := by simp [heq]
  refine ⟨fun h => ?_, fun h => ?_, fun h => ?_, fun h => ?_⟩
  · rw [h] at hhead
    cases hhead
  · rw [h] at hhead
    cases hhead
    exact absurd hc (by decide)
  · rw [h] at hhead
    cases hhead
    exact absurd hc (by decide)
  · rw [String.toList_append, List.mem_append] at h
    rcases h with h | h
    · exact absurd (hs _ h) (by decide)
    · exact ht h

theorem proper_repr (n : Nat) : FilePath.Proper n.repr := by
  have h := proper_of_digits (t := "") (repr_ne_empty n) (repr_digits n) (by decide)
  rwa [String.append_empty] at h

/-- The digits at the front of a text and what follows them are unique. -/
theorem digits_append_cancel {s s' t t' : String} (hs : ∀ c ∈ s.toList, c.isDigit = true)
    (hs' : ∀ c ∈ s'.toList, c.isDigit = true) (ht : ∀ c ∈ t.toList.head?, c.isDigit = false)
    (ht' : ∀ c ∈ t'.toList.head?, c.isDigit = false) (h : s ++ t = s' ++ t') : s = s' ∧ t = t' := by
  have hlist := congrArg String.toList h
  rw [String.toList_append, String.toList_append] at hlist
  obtain ⟨h1, h2⟩ := append_cancel hs hs' ht ht' hlist
  exact ⟨String.toList_injective h1, String.toList_injective h2⟩

theorem dashed_injective {m n m' n' : Nat} (h : dashed m n = dashed m' n') : m = m' ∧ n = n' := by
  have hdash : ∀ k : Nat, ∀ c ∈ ("-" ++ k.repr).toList.head?, c.isDigit = false := by
    intro k c hc
    have hhead : ("-" ++ k.repr).toList.head? = some '-' := by simp
    rw [hhead] at hc
    cases hc
    rfl
  unfold dashed at h
  rw [String.append_assoc, String.append_assoc] at h
  obtain ⟨h1, h2⟩ := digits_append_cancel (repr_digits m) (repr_digits m') (hdash n) (hdash n') h
  refine ⟨repr_injective h1, repr_injective (String.toList_injective ?_)⟩
  have hlist := congrArg String.toList h2
  rw [String.toList_append, String.toList_append] at hlist
  exact List.append_cancel_left hlist

theorem proper_dashed (m n : Nat) : FilePath.Proper (dashed m n) := by
  rw [dashed, String.append_assoc]
  refine proper_of_digits (repr_ne_empty m) (repr_digits m) fun h => ?_
  rw [String.toList_append, List.mem_append] at h
  rcases h with h | h
  · exact absurd h (by decide)
  · exact absurd (repr_digits n _ h) (by decide)

end TestingSystem
