import Mathlib.Data.List.Basic

/-!
# Slices that share arrays

A heap has objects at addresses. A slice is the beginning of an array in the heap. `append` writes into
the room that the array has left, where every slice of the same array shares the cell, and moves to a
larger array when there is none. Of several slices of an array only one is appended to here, the live
one, and the others are earlier values of it: `View` says that such a slice still has its elements, which
are the first ones of the live slice. `append` keeps every view.
-/

set_option autoImplicit false

namespace TestingSystem

universe u

/-! ## Objects -/

/-- Objects in the order in which they were made; the address of an object is its position. -/
structure Heap (α : Type u) where
  objects : List α

namespace Heap

variable {α : Type u} {h : Heap α} {a b : α} {address other : Nat}

def empty : Heap α := ⟨[]⟩

def get? (h : Heap α) (address : Nat) : Option α := h.objects[address]?

/-- The address of the next object. -/
def next (h : Heap α) : Nat := h.objects.length

/-- A new object, at the address `next`. -/
def alloc (h : Heap α) (a : α) : Heap α := ⟨h.objects ++ [a]⟩

/-- Assigns to an object. -/
def write (h : Heap α) (address : Nat) (a : α) : Heap α := ⟨h.objects.set address a⟩

theorem lt_next (hget : h.get? address = some a) : address < h.next :=
  (List.getElem?_eq_some_iff.1 hget).1

@[simp] theorem get?_alloc_next : (h.alloc a).get? h.next = some a :=
  List.getElem?_concat_length

/-- A new object leaves the others where they are. -/
theorem get?_alloc (hget : h.get? address = some b) : (h.alloc a).get? address = some b := by
  rw [← hget]
  exact List.getElem?_append_left (lt_next hget)

@[simp] theorem get?_write_self (hget : h.get? address = some b) :
    (h.write address a).get? address = some a :=
  List.getElem?_set_self (lt_next hget)

theorem get?_write_ne (hne : other ≠ address) : (h.write address a).get? other = h.get? other :=
  List.getElem?_set_ne (Ne.symm hne)

theorem write_self (hget : h.get? address = some a) : h.write address a = h := by
  obtain ⟨hlt, rfl⟩ := List.getElem?_eq_some_iff.1 hget
  rw [write, List.set_getElem_self]

end Heap

/-! ## Slices -/

/-- An array: the cells that were written so far, and the number of all cells. -/
structure BackingArray (α : Type u) where
  cells : List α
  capacity : Nat

/-- Assigns to cell `n`; the cells before it were written. -/
def BackingArray.put {α : Type u} (array : BackingArray α) (n : Nat) (a : α) : BackingArray α :=
  { array with cells := array.cells.take n ++ a :: array.cells.drop (n + 1) }

/-- The first `length` cells of the array at an address. -/
structure Slice where
  array : Nat
  length : Nat
  deriving DecidableEq, Repr

namespace Slice

variable {α : Type u} {arrays : Heap (BackingArray α)} {s live : Slice} {grow : Nat → Nat} {a : α}
  {xs : List α}

/-- The elements of a slice. -/
def contents (arrays : Heap (BackingArray α)) (s : Slice) : List α :=
  match arrays.get? s.array with
  | none => []
  | some array => array.cells.take s.length

theorem contents_eq {array : BackingArray α} (h : arrays.get? s.array = some array) :
    contents arrays s = array.cells.take s.length := by
  rw [contents, h]

/-- `append`: the heap and the slice afterwards. A new array for `n` elements has room for `grow n`
more. -/
def append (grow : Nat → Nat) (arrays : Heap (BackingArray α)) (s : Slice) (a : α) :
    Heap (BackingArray α) × Slice :=
  match arrays.get? s.array with
  | none => (arrays, s)
  | some array =>
    if s.length < array.capacity then
      (arrays.write s.array (array.put s.length a), { s with length := s.length + 1 })
    else
      (arrays.alloc
        { cells := array.cells.take s.length ++ [a]
          capacity := s.length + 1 + grow (s.length + 1) },
        { array := arrays.next, length := s.length + 1 })

/-- `copy`: the elements of `src` are written to the cells of `dst`, as many as both have. -/
def copy (arrays : Heap (BackingArray α)) (dst src : Slice) : Heap (BackingArray α) :=
  match arrays.get? dst.array with
  | none => arrays
  | some array =>
    let copied := (contents arrays src).take dst.length
    arrays.write dst.array { array with cells := copied ++ array.cells.drop copied.length }

/-- Copying a slice to itself changes nothing. -/
theorem copy_self (arrays : Heap (BackingArray α)) (s : Slice) : copy arrays s s = arrays := by
  unfold copy
  cases harray : arrays.get? s.array with
  | none => rfl
  | some array =>
    have hcopied : (contents arrays s).take s.length = array.cells.take s.length := by
      rw [contents_eq harray, List.take_take, Nat.min_self]
    have hcells : array.cells.take s.length ++ array.cells.drop (array.cells.take s.length).length =
        array.cells := by
      rw [List.length_take]
      rcases Nat.le_total s.length array.cells.length with hle | hle
      · rw [Nat.min_eq_left hle, List.take_append_drop]
      · rw [Nat.min_eq_right hle, List.take_of_length_le hle, List.drop_length, List.append_nil]
    dsimp only
    rw [hcopied, hcells]
    exact Heap.write_self harray

/-- The slice that is appended to: every cell that was written is one of its. -/
def Live (arrays : Heap (BackingArray α)) (s : Slice) : Prop :=
  ∃ array, arrays.get? s.array = some array ∧ array.cells.length = s.length

/-- A slice of a new array without elements is live. -/
theorem live_alloc (arrays : Heap (BackingArray α)) (capacity : Nat) :
    Live (arrays.alloc ⟨[], capacity⟩) ⟨arrays.next, 0⟩ :=
  ⟨_, Heap.get?_alloc_next, rfl⟩

theorem Live.append (h : Live arrays s) (grow : Nat → Nat) (a : α) :
    Live (append grow arrays s a).1 (append grow arrays s a).2 ∧
      contents (append grow arrays s a).1 (append grow arrays s a).2 = contents arrays s ++ [a] := by
  obtain ⟨array, harray, hlen⟩ := h
  have htake : array.cells.take s.length = array.cells := List.take_of_length_le (Nat.le_of_eq hlen)
  have hput : array.put s.length a = { array with cells := array.cells ++ [a] } := by
    rw [BackingArray.put, htake, List.drop_of_length_le (by omega)]
  have hlen' : (array.cells ++ [a]).length = s.length + 1 := by
    rw [List.length_append, hlen]
    rfl
  have hall : (array.cells ++ [a]).take (s.length + 1) = array.cells ++ [a] :=
    List.take_of_length_le (Nat.le_of_eq hlen')
  rw [contents_eq harray, htake]
  unfold Slice.append
  by_cases hroom : s.length < array.capacity
  · simp only [harray, if_pos hroom, hput]
    have hget := Heap.get?_write_self (a := { array with cells := array.cells ++ [a] }) harray
    exact ⟨⟨_, hget, hlen'⟩, (contents_eq (s := ⟨s.array, s.length + 1⟩) hget).trans hall⟩
  · simp only [harray, if_neg hroom, htake]
    exact ⟨⟨_, Heap.get?_alloc_next, hlen'⟩,
      (contents_eq (s := ⟨arrays.next, s.length + 1⟩) Heap.get?_alloc_next).trans hall⟩

/-! ## Earlier values of the live slice -/

/-- `s` is an earlier value of the live slice, with the elements `xs`. -/
structure View (arrays : Heap (BackingArray α)) (live s : Slice) (xs : List α) : Prop where
  valid : ∃ array, arrays.get? s.array = some array ∧ s.length ≤ array.cells.length
  length_le : s.array = live.array → s.length ≤ live.length
  shown : contents arrays s = xs
  isPrefix : xs <+: contents arrays live

theorem Live.view (h : Live arrays live) : View arrays live live (contents arrays live) := by
  obtain ⟨array, harray, hlen⟩ := h
  exact ⟨⟨array, harray, Nat.le_of_eq hlen.symm⟩, fun _ => Nat.le_refl _, rfl, List.prefix_refl _⟩

/-- A slice that nothing was written to keeps its elements. -/
theorem contents_congr {arrays' : Heap (BackingArray α)}
    (h : arrays'.get? s.array = arrays.get? s.array) : contents arrays' s = contents arrays s := by
  rw [contents, contents, h]

/-- Appending to the live slice keeps the elements of its earlier values. -/
theorem View.append (h : View arrays live s xs) (hlive : Live arrays live) (grow : Nat → Nat) (a : α) :
    View (Slice.append grow arrays live a).1 (Slice.append grow arrays live a).2 s xs := by
  obtain ⟨-, hcontents⟩ := hlive.append grow a
  have hprefix : xs <+:
      contents (Slice.append grow arrays live a).1 (Slice.append grow arrays live a).2 := by
    rw [hcontents]
    exact h.isPrefix.trans (List.prefix_append _ _)
  obtain ⟨larray, hlarray, hlen⟩ := hlive
  obtain ⟨array, harray, hvalid⟩ := h.valid
  unfold Slice.append at hprefix ⊢
  by_cases hroom : live.length < larray.capacity
  · simp only [hlarray, if_pos hroom] at hprefix ⊢
    by_cases hsame : s.array = live.array
    · -- The new element is behind the cells of the slice.
      have hle := h.length_le hsame
      obtain rfl : array = larray := Option.some.inj (harray.symm.trans (hsame ▸ hlarray))
      have hget : (arrays.write live.array (array.put live.length a)).get? s.array =
          some (array.put live.length a) := by
        rw [hsame]
        exact Heap.get?_write_self hlarray
      refine ⟨⟨_, hget, ?_⟩, fun _ => Nat.le_succ_of_le hle, ?_, hprefix⟩
      · rw [BackingArray.put, List.length_append, List.length_take]
        omega
      · rw [contents_eq hget, ← h.shown, contents_eq harray, BackingArray.put,
          List.take_append_of_le_length (by rw [List.length_take]; omega),
          List.take_take, Nat.min_eq_left hle]
    · have hget := Heap.get?_write_ne (h := arrays) (a := larray.put live.length a) hsame
      exact ⟨⟨array, hget.trans harray, hvalid⟩, fun heq => absurd heq hsame,
        (contents_congr hget).trans h.shown, hprefix⟩
  · simp only [hlarray, if_neg hroom] at hprefix ⊢
    have hget := Heap.get?_alloc (a :=
      { cells := larray.cells.take live.length ++ [a]
        capacity := live.length + 1 + grow (live.length + 1) }) harray
    refine ⟨⟨array, hget, hvalid⟩, fun heq => ?_,
      (contents_congr (hget.trans harray.symm)).trans h.shown, hprefix⟩
    exact absurd (Heap.lt_next harray) (by rw [heq]; exact Nat.lt_irrefl _)

end Slice

end TestingSystem
