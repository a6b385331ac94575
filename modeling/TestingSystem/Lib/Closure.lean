import Mathlib.Logic.Function.Basic
import Mathlib.Logic.Relation

/-!
# Marks spread by one pass over a sorted graph

A graph is given as a list of nodes, each with the nodes it requires. `pass` goes through the list
once and marks a node as soon as some node that it requires is marked. If every node stands after
the nodes it requires, one pass marks exactly the nodes that a mark reaches (`pass_iff`); without
the order it would have to be repeated.
-/

set_option autoImplicit false

namespace TestingSystem.Closure

universe u

variable {α : Type u}

/-- `a` is a node that requires `b`. -/
def Edge (nodes : List (α × List α)) (b a : α) : Prop :=
  ∃ required, (a, required) ∈ nodes ∧ b ∈ required

/-- `a` requires `b`, directly or through other nodes, or is `b`. -/
abbrev Leads (nodes : List (α × List α)) : α → α → Prop := Relation.ReflTransGen (Edge nodes)

/-- Every node is listed once, and after the nodes it requires. -/
def Sorted (nodes : List (α × List α)) : Prop :=
  nodes.Pairwise (fun x y => y.1 ≠ x.1 ∧ y.1 ∉ x.2) ∧ ∀ x ∈ nodes, x.1 ∉ x.2

theorem Sorted.tail {x : α × List α} {nodes : List (α × List α)} (h : Sorted (x :: nodes)) :
    Sorted nodes :=
  ⟨(List.pairwise_cons.1 h.1).2, fun y hy => h.2 y (List.mem_cons_of_mem x hy)⟩

theorem Leads.mono {x : α × List α} {nodes : List (α × List α)} {b a : α}
    (h : Leads nodes b a) : Leads (x :: nodes) b a := by
  refine Relation.ReflTransGen.mono ?_ _ _ h
  rintro c d ⟨required, hmem, hc⟩
  exact ⟨required, List.mem_cons_of_mem x hmem, hc⟩

/-- Only nodes are led to, apart from the start. -/
theorem Leads.eq_or_node {nodes : List (α × List α)} {b a : α} (h : Leads nodes b a) :
    b = a ∨ ∃ required, (a, required) ∈ nodes := by
  cases h with
  | refl => exact .inl rfl
  | tail _ hedge =>
    obtain ⟨required, hmem, -⟩ := hedge
    exact .inr ⟨required, hmem⟩

variable [DecidableEq α]

/-- One pass over the nodes. -/
def pass : List (α × List α) → (α → Bool) → α → Bool
  | [], mark => mark
  | (a, required) :: nodes, mark =>
    pass nodes (if required.any mark then Function.update mark a true else mark)

/-- A path is cut at its last visit of the first node. -/
theorem Leads.cut {a : α} {required : List α} {nodes : List (α × List α)}
    (hs : Sorted ((a, required) :: nodes)) {mark : α → Bool} {b c : α} (hb : mark b = true)
    (h : Leads ((a, required) :: nodes) b c) :
    ∃ b', (if required.any mark then Function.update mark a true else mark) b' = true ∧
      Leads nodes b' c := by
  have hkeep : ∀ d, mark d = true →
      (if required.any mark then Function.update mark a true else mark) d = true := by
    intro d hd
    split
    · by_cases hda : d = a
      · rw [hda, Function.update_self]
      · rw [Function.update_of_ne hda, hd]
    · exact hd
  induction h with
  | refl => exact ⟨b, hkeep b hb, .refl⟩
  | @tail d c _ hedge ih =>
    obtain ⟨b', hb', hd⟩ := ih
    obtain ⟨required', hmem, hdr⟩ := hedge
    rcases List.mem_cons.1 hmem with heq | hmem
    · -- The edge enters the first node, so `d` is no later node and the path to it is empty.
      cases heq
      have hnot : ∀ r, (d, r) ∉ nodes := fun r hr =>
        ((List.pairwise_cons.1 hs.1).1 _ hr).2 hdr
      rcases hd.eq_or_node with rfl | ⟨r, hr⟩
      · have hne : b' ≠ a := by
          rintro rfl
          exact hs.2 _ List.mem_cons_self hdr
        have hmark : mark b' = true := by
          split at hb'
          · rwa [Function.update_of_ne hne] at hb'
          · exact hb'
        refine ⟨a, ?_, .refl⟩
        rw [if_pos (List.any_eq_true.2 ⟨b', hdr, hmark⟩), Function.update_self]
      · exact absurd hr (hnot r)
    · exact ⟨b', hb', hd.tail ⟨required', hmem, hdr⟩⟩

/-- One pass marks what the marks lead to. -/
theorem pass_iff {nodes : List (α × List α)} (hs : Sorted nodes) (mark : α → Bool) (a : α) :
    pass nodes mark a = true ↔ ∃ b, mark b = true ∧ Leads nodes b a := by
  induction nodes generalizing mark with
  | nil =>
    constructor
    · exact fun h => ⟨a, h, .refl⟩
    · rintro ⟨b, hb, h⟩
      rcases h.eq_or_node with rfl | ⟨required, hmem⟩
      · exact hb
      · cases hmem
  | cons node nodes ih =>
    obtain ⟨n, required⟩ := node
    rw [pass, ih hs.tail]
    constructor
    · rintro ⟨b, hb, h⟩
      split at hb
      · next hany =>
        by_cases hbn : b = n
        · obtain ⟨r, hr, hmark⟩ := List.any_eq_true.1 hany
          subst hbn
          exact ⟨r, hmark, .head ⟨required, List.mem_cons_self, hr⟩ h.mono⟩
        · rw [Function.update_of_ne hbn] at hb
          exact ⟨b, hb, h.mono⟩
      · exact ⟨b, hb, h.mono⟩
    · rintro ⟨b, hb, h⟩
      exact h.cut hs hb

/-- A pass keeps the marks, whatever the order of the nodes is. -/
theorem pass_of_mark (nodes : List (α × List α)) {mark : α → Bool} {a : α}
    (h : mark a = true) : pass nodes mark a = true := by
  induction nodes generalizing mark with
  | nil => exact h
  | cons node nodes ih =>
    refine ih ?_
    split
    · by_cases ha : a = node.1
      · rw [ha, Function.update_self]
      · rw [Function.update_of_ne ha, h]
    · exact h

end TestingSystem.Closure
