import Mathlib.Algebra.Ring.Int.Defs
import Mathlib.Algebra.Ring.Nat
import Mathlib.Data.List.AList

/-!
# Finite maps

`GoMap K V` is a finite map: an association list whose keys are pairwise different, which is a
field of the underlying `AList`. Reading, writing and deleting a key are `get?`, `set` and
`delete`; `keys` and `entries` give the contents in an order of the representation, so results
about them are stated with membership and counts only.

Every operation has its equation for `get?`, and a proof about a map goes through these equations
and never through the list.
-/

set_option autoImplicit false

namespace TestingSystem

universe u v

/-- A finite map from `K` to `V`. -/
def GoMap (K : Type u) (V : Type v) : Type (max u v) := AList fun _ : K => V

namespace GoMap

variable {K : Type u} {V : Type v}

/-- The map without entries. -/
def empty : GoMap K V := (∅ : AList fun _ : K => V)

/-- The keys, each once. -/
def keys (m : GoMap K V) : List K := AList.keys m

/-- The entries, one for each key. -/
def entries (m : GoMap K V) : List (K × V) := (AList.entries m).map fun e => (e.1, e.2)

/-- The number of entries. -/
def len (m : GoMap K V) : Nat := m.keys.length

theorem nodup_keys (m : GoMap K V) : m.keys.Nodup := AList.keys_nodup m

theorem entries_map_fst (m : GoMap K V) : m.entries.map Prod.fst = m.keys := by
  rw [entries, List.map_map]
  rfl

section Access

variable [DecidableEq K]

/-- The value stored under `k`. -/
def get? (m : GoMap K V) (k : K) : Option V := AList.lookup k m

/-- The map with `v` stored under `k`. -/
def set (m : GoMap K V) (k : K) (v : V) : GoMap K V := AList.insert k v m

/-- The map without the key `k`. -/
def delete (m : GoMap K V) (k : K) : GoMap K V := AList.erase k m

instance [DecidableEq V] : DecidableEq (GoMap K V) :=
  inferInstanceAs (DecidableEq (AList fun _ : K => V))

@[simp] theorem get?_empty (k : K) : (empty : GoMap K V).get? k = none := rfl

theorem get?_set (m : GoMap K V) (k : K) (v : V) (a : K) :
    (m.set k v).get? a = if a = k then some v else m.get? a := by
  by_cases h : a = k
  · subst h
    rw [if_pos rfl]
    exact AList.lookup_insert m
  · rw [if_neg h]
    exact AList.lookup_insert_ne h

@[simp] theorem get?_set_self (m : GoMap K V) (k : K) (v : V) : (m.set k v).get? k = some v := by
  simp [get?_set]

theorem get?_set_ne (m : GoMap K V) {k a : K} (v : V) (h : a ≠ k) :
    (m.set k v).get? a = m.get? a := by
  simp [get?_set, h]

/-- A key found after a write is the one written or was there before. -/
theorem of_get?_set {m : GoMap K V} {k a : K} {v w : V} (h : (m.set k v).get? a = some w) :
    (a = k ∧ w = v) ∨ (a ≠ k ∧ m.get? a = some w) := by
  rw [get?_set] at h
  split at h
  · exact .inl ⟨‹_›, (Option.some.inj h).symm⟩
  · exact .inr ⟨‹_›, h⟩

/-- A key missing after a write is another key that was missing before. -/
theorem of_get?_set_none {m : GoMap K V} {k a : K} {v : V} (h : (m.set k v).get? a = none) :
    a ≠ k ∧ m.get? a = none := by
  rw [get?_set] at h
  split at h
  · cases h
  · exact ⟨‹_›, h⟩

theorem set_set (m : GoMap K V) (k : K) (v v' : V) : (m.set k v).set k v' = m.set k v' :=
  AList.insert_insert m

theorem get?_delete (m : GoMap K V) (k a : K) :
    (m.delete k).get? a = if a = k then none else m.get? a := by
  by_cases h : a = k
  · subst h
    rw [if_pos rfl]
    exact AList.lookup_erase a m
  · rw [if_neg h]
    exact AList.lookup_erase_ne h

@[simp] theorem get?_delete_self (m : GoMap K V) (k : K) : (m.delete k).get? k = none := by
  simp [get?_delete]

theorem get?_delete_ne (m : GoMap K V) {k a : K} (h : a ≠ k) :
    (m.delete k).get? a = m.get? a := by
  simp [get?_delete, h]

/-- A key found after a deletion was there before, and is another key. -/
theorem of_get?_delete {m : GoMap K V} {k a : K} {v : V} (h : (m.delete k).get? a = some v) :
    a ≠ k ∧ m.get? a = some v := by
  rw [get?_delete] at h
  split at h
  · cases h
  · exact ⟨‹_›, h⟩

/-- Deleting the only key leaves nothing. -/
theorem get?_delete_only {m : GoMap K V} {k : K} (honly : ∀ a v, m.get? a = some v → a = k)
    (a : K) : (m.delete k).get? a = none := by
  cases h : (m.delete k).get? a with
  | none => rfl
  | some v =>
    obtain ⟨hne, hold⟩ := of_get?_delete h
    exact absurd (honly a v hold) hne

theorem mem_keys_iff (m : GoMap K V) (k : K) : k ∈ m.keys ↔ ∃ v, m.get? k = some v := by
  have h : (AList.lookup k m).isSome = true ↔ k ∈ AList.keys m :=
    AList.lookup_isSome.trans AList.mem_keys
  rw [keys, ← h, Option.isSome_iff_exists]
  rfl

theorem not_mem_keys_iff (m : GoMap K V) (k : K) : k ∉ m.keys ↔ m.get? k = none := by
  rw [mem_keys_iff]
  cases m.get? k <;> simp

theorem len_eq_zero_iff (m : GoMap K V) : m.len = 0 ↔ ∀ k, m.get? k = none := by
  rw [len, List.length_eq_zero_iff, List.eq_nil_iff_forall_not_mem]
  simp only [not_mem_keys_iff]

theorem mem_entries_iff (m : GoMap K V) (k : K) (v : V) :
    (k, v) ∈ m.entries ↔ m.get? k = some v := by
  have h : AList.lookup k m = some v ↔ (⟨k, v⟩ : Sigma fun _ : K => V) ∈ AList.entries m :=
    AList.mem_lookup_iff
  simp only [entries, List.mem_map, Prod.mk.injEq]
  constructor
  · rintro ⟨⟨a, b⟩, hab, rfl, rfl⟩
    exact h.2 hab
  · intro hv
    exact ⟨⟨k, v⟩, h.1 hv, rfl, rfl⟩

theorem keys_delete (m : GoMap K V) (k : K) : (m.delete k).keys = m.keys.erase k :=
  AList.keys_erase k m

theorem keys_set_of_none {m : GoMap K V} {k : K} (h : m.get? k = none) (v : V) :
    (m.set k v).keys = k :: m.keys := by
  have hset : (m.set k v).keys = k :: m.keys.erase k := AList.keys_insert m
  rw [hset, List.erase_of_not_mem ((not_mem_keys_iff m k).2 h)]

theorem keys_delete_perm {m : GoMap K V} {k : K} {v : V} (h : m.get? k = some v) :
    m.keys.Perm (k :: (m.delete k).keys) := by
  have hk : k ∈ m.keys := (mem_keys_iff m k).2 ⟨v, h⟩
  rw [keys_delete]
  exact List.perm_cons_erase hk

section Read

variable [Zero V]

/-- The value stored under `k`; a missing key reads as zero. -/
def read (m : GoMap K V) (k : K) : V := (m.get? k).getD 0

theorem read_set (m : GoMap K V) (k : K) (v : V) (a : K) :
    (m.set k v).read a = if a = k then v else m.read a := by
  rw [read, get?_set]
  split <;> rfl

end Read

/-- The sum of a measure over the values. -/
def total (m : GoMap K V) (measure : V → Nat) : Nat := (m.entries.map fun e => measure e.2).sum

theorem total_delete {m : GoMap K V} {k : K} {v : V} (h : m.get? k = some v) (measure : V → Nat) :
    m.total measure = measure v + (m.delete k).total measure := by
  obtain ⟨b, left, right, -, heq, herase⟩ := List.exists_of_kerase ((mem_keys_iff m k).2 ⟨v, h⟩)
  have hb : (⟨k, b⟩ : Sigma fun _ : K => V) ∈ left ++ ⟨k, b⟩ :: right := by simp
  have hmem : (k, b) ∈ m.entries := List.mem_map.2 ⟨⟨k, b⟩, heq ▸ hb, rfl⟩
  obtain rfl := Option.some.inj (((mem_entries_iff m k b).1 hmem).symm.trans h)
  have hm : m.total measure =
      ((left ++ ⟨k, b⟩ :: right).map fun e => measure e.2).sum := by
    rw [← heq, total, entries, List.map_map]
    rfl
  have hd : (m.delete k).total measure = ((left ++ right).map fun e => measure e.2).sum := by
    rw [← herase, total, entries, List.map_map]
    rfl
  rw [hm, hd]
  simp
  omega

theorem total_set (m : GoMap K V) (k : K) (v : V) (measure : V → Nat) :
    (m.set k v).total measure = measure v + (m.delete k).total measure := by
  have hset : (m.set k v).entries = (k, v) :: (m.delete k).entries := rfl
  simp [total, hset]

theorem total_set_of_none {m : GoMap K V} {k : K} (h : m.get? k = none) (v : V)
    (measure : V → Nat) : (m.set k v).total measure = measure v + m.total measure := by
  have hk : k ∉ m.keys := (not_mem_keys_iff m k).2 h
  have hdelete : (m.delete k).entries = m.entries :=
    congrArg (List.map _) (List.kerase_of_notMem_keys hk)
  rw [total_set, total, hdelete, total]

end Access

end GoMap

end TestingSystem
