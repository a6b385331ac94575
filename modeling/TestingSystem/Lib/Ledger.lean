import Mathlib.Data.List.Perm.Basic
import Mathlib.Logic.Relation

/-!
# Ledgers of tokens

Tokens are given out and come back. In between each of them is at a place: `places` lists the tokens
at all places together. A ledger is `Exact` if every token at a place is out and no token is at two
places, and `Complete` if every token that is out is at a place. A step moves tokens between places,
issues a new token, settles one, or drops one: takes it from its place while it stays out. Every run
keeps a ledger exact; a run that drops no token keeps it complete.
-/

set_option autoImplicit false

namespace TestingSystem

universe u

/-- The tokens that are out and the tokens at the places. -/
structure Ledger (α : Type u) where
  out : α → Prop
  places : List α

namespace Ledger

variable {α : Type u} {l l' : Ledger α} {loses loses' : Prop}

/-- Every token at a place is out, and at no other place. -/
structure Exact (l : Ledger α) : Prop where
  nodup : l.places.Nodup
  out : ∀ a ∈ l.places, l.out a

/-- Every token that is out is at a place. -/
def Complete (l : Ledger α) : Prop := ∀ a, l.out a → a ∈ l.places

/-- A step of a ledger; it may drop a token only if `loses`. -/
inductive Step (loses : Prop) (l l' : Ledger α) : Prop
  | move (hout : ∀ x, l'.out x ↔ l.out x) (hplaces : l'.places.Perm l.places)
  | issue (a : α) (hnew : ¬ l.out a) (hout : ∀ x, l'.out x ↔ l.out x ∨ x = a)
      (hplaces : l'.places.Perm (a :: l.places))
  | settle (a : α) (hout : ∀ x, l'.out x ↔ l.out x ∧ x ≠ a)
      (hplaces : l.places.Perm (a :: l'.places))
  | drop (a : α) (hloses : loses) (hout : ∀ x, l'.out x ↔ l.out x)
      (hplaces : l.places.Perm (a :: l'.places))

/-- A run of a ledger. -/
abbrev Steps (loses : Prop) : Ledger α → Ledger α → Prop := Relation.ReflTransGen (Step loses)

theorem Step.mono (h : Step loses l l') (hle : loses → loses') : Step loses' l l' := by
  cases h with
  | move hout hplaces => exact .move hout hplaces
  | issue a hnew hout hplaces => exact .issue a hnew hout hplaces
  | settle a hout hplaces => exact .settle a hout hplaces
  | drop a hloses hout hplaces => exact .drop a (hle hloses) hout hplaces

theorem Steps.mono (h : Steps loses l l') (hle : loses → loses') : Steps loses' l l' :=
  Relation.ReflTransGen.mono (fun _ _ hs => Step.mono hs hle) _ _ h

theorem Step.exact (h : Step loses l l') (hl : l.Exact) : l'.Exact := by
  cases h with
  | move hout hplaces =>
    exact ⟨hplaces.nodup_iff.2 hl.nodup, fun x hx => (hout x).2 (hl.out x (hplaces.mem_iff.1 hx))⟩
  | issue a hnew hout hplaces =>
    refine ⟨hplaces.nodup_iff.2 (List.nodup_cons.2 ⟨fun ha => hnew (hl.out a ha), hl.nodup⟩),
      fun x hx => (hout x).2 ?_⟩
    rcases List.mem_cons.1 (hplaces.mem_iff.1 hx) with rfl | hold
    · exact .inr rfl
    · exact .inl (hl.out x hold)
  | settle a hout hplaces =>
    have hnodup := List.nodup_cons.1 (hplaces.nodup_iff.1 hl.nodup)
    refine ⟨hnodup.2, fun x hx => (hout x).2 ⟨?_, ?_⟩⟩
    · exact hl.out x (hplaces.mem_iff.2 (List.mem_cons_of_mem _ hx))
    · rintro rfl
      exact hnodup.1 hx
  | drop a hloses hout hplaces =>
    have hnodup := List.nodup_cons.1 (hplaces.nodup_iff.1 hl.nodup)
    exact ⟨hnodup.2, fun x hx =>
      (hout x).2 (hl.out x (hplaces.mem_iff.2 (List.mem_cons_of_mem _ hx)))⟩

theorem Steps.exact (h : Steps loses l l') (hl : l.Exact) : l'.Exact := by
  induction h with
  | refl => exact hl
  | tail _ hs ih => exact hs.exact ih

theorem Step.complete (h : Step loses l l') (hno : ¬ loses) (hl : l.Complete) : l'.Complete := by
  intro x hx
  cases h with
  | move hout hplaces => exact hplaces.mem_iff.2 (hl x ((hout x).1 hx))
  | issue a hnew hout hplaces =>
    rw [hplaces.mem_iff, List.mem_cons]
    exact ((hout x).1 hx).symm.imp_right (hl x)
  | settle a hout hplaces =>
    obtain ⟨hx, hne⟩ := (hout x).1 hx
    exact (List.mem_cons.1 (hplaces.mem_iff.1 (hl x hx))).resolve_left hne
  | drop a hloses hout hplaces => exact absurd hloses hno

theorem Steps.complete (h : Steps loses l l') (hno : ¬ loses) (hl : l.Complete) : l'.Complete := by
  induction h with
  | refl => exact hl
  | tail _ hs ih => exact hs.complete hno ih

end Ledger

end TestingSystem
