import TestingSystem.Lib.Slices
import Mathlib.Logic.Function.Basic

/-!
# Objects that are final once they are published

A publisher keeps objects under keys, its drafts, and appends the addresses of objects to a published
slice. A key may get another object at any time, and the draft under a key is repaired in place before it
is published. A repaired object is settled, and repairing a settled object changes nothing. So no object
changes after it is published (`Extends`), although its draft stays within reach.
-/

set_option autoImplicit false

namespace TestingSystem

universe u

structure Publisher (α : Type u) where
  objects : Heap α
  /-- The addresses of the drafts. -/
  drafts : Nat → Option Nat
  arrays : Heap (BackingArray Nat)
  published : Slice

/-- An assignment to an object that settles it, if it is not settled yet. -/
structure Repairs {α : Type u} (settled : α → Prop) (repair : α → α) : Prop where
  settles : ∀ a, settled (repair a)
  keeps : ∀ a, settled a → repair a = a

namespace Publisher

variable {α : Type u}

/-! ## Operations -/

/-- Makes a new object the draft of a key. -/
def draft (p : Publisher α) (key : Nat) (a : α) : Publisher α :=
  { p with
    objects := p.objects.alloc a
    drafts := Function.update p.drafts key (some p.objects.next) }

/-- Appends an address to the published slice. -/
def push (grow : Nat → Nat) (p : Publisher α) (address : Nat) : Publisher α :=
  { p with
    arrays := (p.published.append grow p.arrays address).1
    published := (p.published.append grow p.arrays address).2 }

/-- Publishes a new object. -/
def publishNew (grow : Nat → Nat) (p : Publisher α) (a : α) : Publisher α :=
  { p with objects := p.objects.alloc a }.push grow p.objects.next

/-- Repairs the draft of a key and publishes it. -/
def publishDraft (grow : Nat → Nat) (repair : α → α) (p : Publisher α) (key : Nat) : Publisher α :=
  match p.drafts key with
  | none => p
  | some address =>
    match p.objects.get? address with
    | none => p
    | some a => { p with objects := p.objects.write address (repair a) }.push grow address

/-- The draft of a key. -/
def draft? (p : Publisher α) (key : Nat) : Option α := (p.drafts key).bind p.objects.get?

/-- The addresses that are published. -/
def addresses (p : Publisher α) : List Nat := p.published.contents p.arrays

/-- The objects of a slice. -/
def elements (p : Publisher α) (s : Slice) : List α := (s.contents p.arrays).filterMap p.objects.get?

/-- The published objects. -/
def list (p : Publisher α) : List α := p.elements p.published

/-! ## Published objects do not change -/

/-- The invariant. Only the settled objects among the drafts are published. -/
structure Sound (settled : α → Prop) (p : Publisher α) : Prop where
  live : p.published.Live p.arrays
  drafts : ∀ key address, p.drafts key = some address → ∃ a, p.objects.get? address = some a
  distinct : ∀ key key' address, p.drafts key = some address → p.drafts key' = some address →
    key = key'
  published : ∀ address ∈ p.addresses, ∃ a, p.objects.get? address = some a
  settled : ∀ key address a, p.drafts key = some address → address ∈ p.addresses →
    p.objects.get? address = some a → settled a

/-- From `p` to `q` no published object and no earlier value of the published slice changes. -/
structure Extends (p q : Publisher α) : Prop where
  objects : ∀ address ∈ p.addresses, q.objects.get? address = p.objects.get? address
  views : ∀ s xs, Slice.View p.arrays p.published s xs → Slice.View q.arrays q.published s xs

variable {settled : α → Prop} {repair : α → α} {grow : Nat → Nat} {p q r : Publisher α} {a b : α}
  {key other address : Nat} {s : Slice} {xs : List Nat}

namespace Extends

theorem refl (p : Publisher α) : Extends p p := ⟨fun _ _ => rfl, fun _ _ hv => hv⟩

/-- What is published stays published. -/
theorem addresses (h : Extends p q) (hlive : p.published.Live p.arrays) :
    p.addresses <+: q.addresses :=
  (h.views _ _ hlive.view).isPrefix

theorem trans (h : Extends p q) (h' : Extends q r) (hlive : p.published.Live p.arrays) :
    Extends p r := by
  refine ⟨fun x hx => ?_, fun s xs hv => h'.views s xs (h.views s xs hv)⟩
  rw [h'.objects x ((h.addresses hlive).subset hx), h.objects x hx]

/-- Every earlier value of the published slice has the same objects as before. -/
theorem elements (h : Extends p q) (hv : Slice.View p.arrays p.published s xs) :
    q.elements s = p.elements s := by
  rw [Publisher.elements, Publisher.elements, (h.views s xs hv).shown, hv.shown]
  exact List.filterMap_congr fun x hx => h.objects x (hv.isPrefix.subset hx)

/-- The published objects are the first ones of those published later. -/
theorem list (h : Extends p q) (hlive : p.published.Live p.arrays) : p.list <+: q.list := by
  have hlist : p.list = p.addresses.filterMap q.objects.get? :=
    List.filterMap_congr fun x hx => (h.objects x hx).symm
  rw [hlist]
  exact (h.addresses hlive).filterMap _

end Extends

/-! ### A new object -/

theorem Sound.alloc (h : Sound settled p) (a : α) :
    Sound settled { p with objects := p.objects.alloc a } := by
  refine ⟨h.live, fun key x hx => ?_, h.distinct, fun x hx => ?_, fun key x b hx hmem hb => ?_⟩
  · obtain ⟨b, hb⟩ := h.drafts key x hx
    exact ⟨b, Heap.get?_alloc hb⟩
  · obtain ⟨b, hb⟩ := h.published x hx
    exact ⟨b, Heap.get?_alloc hb⟩
  · obtain ⟨b', hb'⟩ := h.published x hmem
    cases hb.symm.trans (Heap.get?_alloc hb')
    exact h.settled key x b hx hmem hb'

theorem Sound.extends_alloc (h : Sound settled p) (a : α) :
    Extends p { p with objects := p.objects.alloc a } := by
  refine ⟨fun x hx => ?_, fun _ _ hv => hv⟩
  obtain ⟨b, hb⟩ := h.published x hx
  exact (Heap.get?_alloc hb).trans hb.symm

theorem Sound.draft?_alloc (h : Sound settled p) (a : α) (key : Nat) :
    Publisher.draft? { p with objects := p.objects.alloc a } key = p.draft? key := by
  unfold Publisher.draft?
  cases hx : p.drafts key with
  | none => rfl
  | some x =>
    obtain ⟨b, hb⟩ := h.drafts key x hx
    exact (Heap.get?_alloc hb).trans hb.symm

/-- The next object is neither a draft nor published. -/
theorem Sound.next_new (h : Sound settled p) :
    (∀ key, p.drafts key ≠ some p.objects.next) ∧ p.objects.next ∉ p.addresses := by
  refine ⟨fun key hx => ?_, fun hx => ?_⟩
  · obtain ⟨b, hb⟩ := h.drafts key _ hx
    exact absurd (Heap.lt_next hb) (Nat.lt_irrefl _)
  · obtain ⟨b, hb⟩ := h.published _ hx
    exact absurd (Heap.lt_next hb) (Nat.lt_irrefl _)

/-! ### Appending -/

theorem addresses_push (hlive : p.published.Live p.arrays) (address : Nat) :
    (p.push grow address).addresses = p.addresses ++ [address] :=
  (hlive.append grow address).2

/-- A settled object may be published, whether it is a draft or not. -/
theorem Sound.push (h : Sound settled p) (ha : p.objects.get? address = some a)
    (hsettled : ∀ key, p.drafts key = some address → settled a) :
    Sound settled (p.push grow address) := by
  refine ⟨(h.live.append grow address).1, h.drafts, h.distinct, fun x hx => ?_,
    fun key x b hx hmem hb => ?_⟩
  · rw [addresses_push h.live, List.mem_append, List.mem_singleton] at hx
    rcases hx with hx | rfl
    · exact h.published x hx
    · exact ⟨a, ha⟩
  · rw [addresses_push h.live, List.mem_append, List.mem_singleton] at hmem
    rcases hmem with hmem | rfl
    · exact h.settled key x b hx hmem hb
    · cases ha.symm.trans hb
      exact hsettled key hx

theorem Sound.extends_push (h : Sound settled p) (address : Nat) :
    Extends p (p.push grow address) :=
  ⟨fun _ _ => rfl, fun _ _ hv => hv.append h.live grow address⟩

theorem Sound.list_push (h : Sound settled p) (ha : p.objects.get? address = some a) :
    (p.push grow address).list = p.list ++ [a] := by
  have hlist : (p.push grow address).list = (p.addresses ++ [address]).filterMap p.objects.get? :=
    congrArg (List.filterMap p.objects.get?) (addresses_push h.live address)
  rw [hlist, List.filterMap_append, List.filterMap_cons_some ha]
  rfl

/-! ### Repairing a draft -/

/-- A draft that is published already is settled, so repairing it changes nothing. -/
theorem Sound.write_eq (h : Sound settled p) (hrepair : Repairs settled repair)
    (hdraft : p.drafts key = some address) (ha : p.objects.get? address = some a)
    (hmem : address ∈ p.addresses) : p.objects.write address (repair a) = p.objects := by
  rw [hrepair.keeps a (h.settled key address a hdraft hmem ha)]
  exact Heap.write_self ha

theorem Sound.write (h : Sound settled p) (hrepair : Repairs settled repair)
    (ha : p.objects.get? address = some a) :
    Sound settled { p with objects := p.objects.write address (repair a) } := by
  have hkept : ∀ x, (∃ b, p.objects.get? x = some b) →
      ∃ b, (p.objects.write address (repair a)).get? x = some b := by
    rintro x ⟨b, hb⟩
    by_cases hx : x = address
    · subst hx
      exact ⟨repair a, Heap.get?_write_self ha⟩
    · exact ⟨b, (Heap.get?_write_ne hx).trans hb⟩
  refine ⟨h.live, fun key x hx => hkept x (h.drafts key x hx), h.distinct,
    fun x hx => hkept x (h.published x hx), fun key x b hx hmem hb => ?_⟩
  by_cases hxa : x = address
  · subst hxa
    cases hb.symm.trans (Heap.get?_write_self ha)
    exact hrepair.settles a
  · exact h.settled key x b hx hmem ((Heap.get?_write_ne hxa).symm.trans hb)

theorem Sound.extends_write (h : Sound settled p) (hrepair : Repairs settled repair)
    (hdraft : p.drafts key = some address) (ha : p.objects.get? address = some a) :
    Extends p { p with objects := p.objects.write address (repair a) } := by
  refine ⟨fun x hx => ?_, fun _ _ hv => hv⟩
  by_cases hxa : x = address
  · subst hxa
    exact congrArg (Heap.get? · x) (h.write_eq hrepair hdraft ha hx)
  · exact Heap.get?_write_ne hxa

theorem Sound.draft?_write (h : Sound settled p) (hdraft : p.drafts key = some address)
    (hne : other ≠ key) :
    Publisher.draft? { p with objects := p.objects.write address b } other = p.draft? other := by
  unfold Publisher.draft?
  cases hx : p.drafts other with
  | none => rfl
  | some x =>
    refine Heap.get?_write_ne fun heq => hne ?_
    exact h.distinct other key address (heq ▸ hx) hdraft

/-! ### The operations -/

/-- What an operation does that publishes `added`. -/
structure Step (settled : α → Prop) (p q : Publisher α) (added : List α) : Prop where
  sound : Sound settled q
  extend : Extends p q
  list : q.list = p.list ++ added

theorem drafts_draft_self (p : Publisher α) (key : Nat) (a : α) :
    (p.draft key a).drafts key = some p.objects.next :=
  Function.update_self ..

theorem drafts_draft_ne (p : Publisher α) (a : α) (hne : other ≠ key) :
    (p.draft key a).drafts other = p.drafts other :=
  Function.update_of_ne hne ..

theorem Sound.draft (h : Sound settled p) (key : Nat) (a : α) :
    Step settled p (p.draft key a) [] := by
  obtain ⟨hdrafts, haddresses⟩ := h.next_new
  have hsound := h.alloc a
  have hextend := h.extends_alloc a
  have hkey : ∀ k x, (p.draft key a).drafts k = some x →
      k = key ∧ x = p.objects.next ∨ k ≠ key ∧ p.drafts k = some x := by
    intro k x hx
    by_cases hk : k = key
    · subst hk
      rw [drafts_draft_self] at hx
      exact .inl ⟨rfl, (Option.some.inj hx).symm⟩
    · rw [drafts_draft_ne p a hk] at hx
      exact .inr ⟨hk, hx⟩
  refine ⟨⟨h.live, fun k x hx => ?_, fun k k' x hx hx' => ?_, hsound.published,
    fun k x b hx hmem hb => ?_⟩, ⟨hextend.objects, hextend.views⟩, ?_⟩
  · rcases hkey k x hx with ⟨-, rfl⟩ | ⟨-, hold⟩
    · exact ⟨a, Heap.get?_alloc_next⟩
    · exact hsound.drafts k x hold
  · rcases hkey k x hx with ⟨rfl, rfl⟩ | ⟨-, hold⟩
    · rcases hkey k' _ hx' with ⟨rfl, -⟩ | ⟨-, hold'⟩
      · rfl
      · exact absurd hold' (hdrafts k')
    · rcases hkey k' x hx' with ⟨-, rfl⟩ | ⟨-, hold'⟩
      · exact absurd hold (hdrafts k)
      · exact h.distinct k k' x hold hold'
  · rcases hkey k x hx with ⟨-, rfl⟩ | ⟨-, hold⟩
    · exact absurd hmem haddresses
    · exact hsound.settled k x b hold hmem hb
  · rw [List.append_nil]
    exact hextend.elements h.live.view

theorem Sound.draft?_draft (h : Sound settled p) (key other : Nat) (a : α) :
    (p.draft key a).draft? other = if other = key then some a else p.draft? other := by
  by_cases hk : other = key
  · subst hk
    rw [if_pos rfl, Publisher.draft?, drafts_draft_self]
    exact Heap.get?_alloc_next
  · rw [if_neg hk, ← h.draft?_alloc a other, Publisher.draft?, drafts_draft_ne p a hk]
    rfl

theorem Sound.publishNew (h : Sound settled p) (a : α) :
    Step settled p (p.publishNew grow a) [a] := by
  have hsound := h.alloc a
  have hextend := h.extends_alloc a
  refine ⟨hsound.push Heap.get?_alloc_next fun key hx => absurd hx (h.next_new.1 key),
    hextend.trans (hsound.extends_push _) h.live, ?_⟩
  rw [Publisher.publishNew, hsound.list_push Heap.get?_alloc_next]
  exact congrArg (· ++ [a]) (hextend.elements h.live.view)

theorem Sound.draft?_publishNew (h : Sound settled p) (a : α) (other : Nat) :
    (p.publishNew grow a).draft? other = p.draft? other :=
  h.draft?_alloc a other

/-- A key with a draft has an address. -/
theorem of_draft? (h : p.draft? key = some a) :
    ∃ address, p.drafts key = some address ∧ p.objects.get? address = some a :=
  Option.bind_eq_some_iff.1 h

/-- Publishing the draft of a key without draft does nothing. -/
theorem Sound.publishDraft_none (h : Sound settled p) (hdraft : p.draft? key = none) :
    p.publishDraft grow repair key = p := by
  unfold Publisher.publishDraft
  cases hx : p.drafts key with
  | none => rfl
  | some x =>
    obtain ⟨a, ha⟩ := h.drafts key x hx
    rw [Publisher.draft?, hx, Option.bind_some, ha] at hdraft
    cases hdraft

theorem Sound.publishDraft (h : Sound settled p) (hrepair : Repairs settled repair)
    (hdraft : p.draft? key = some a) :
    Step settled p (p.publishDraft grow repair key) [repair a] := by
  obtain ⟨x, hx, ha⟩ := of_draft? hdraft
  have hsound := h.write hrepair ha
  have hextend := h.extends_write hrepair hx ha
  have hget : (p.objects.write x (repair a)).get? x = some (repair a) := Heap.get?_write_self ha
  unfold Publisher.publishDraft
  simp only [hx, ha]
  refine ⟨hsound.push hget fun _ _ => hrepair.settles a,
    hextend.trans (hsound.extends_push _) h.live, ?_⟩
  rw [hsound.list_push hget]
  exact congrArg (· ++ [repair a]) (hextend.elements h.live.view)

theorem Sound.draft?_publishDraft (h : Sound settled p) (hdraft : p.draft? key = some a)
    (hne : other ≠ key) : (p.publishDraft grow repair key).draft? other = p.draft? other := by
  obtain ⟨x, hx, ha⟩ := of_draft? hdraft
  unfold Publisher.publishDraft
  simp only [hx, ha]
  exact h.draft?_write hx hne

end Publisher

end TestingSystem
