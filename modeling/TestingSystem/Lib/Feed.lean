import Mathlib.Data.List.TakeWhile
import Mathlib.Order.WithBot

/-!
# Incremental readers of a versioned store

A store holds a value for some keys, with the version of its last write. A reader keeps copies and the
version of its last poll; a poll gives it the entries whose version is not below that one. As long as
versions never go back, the reader holds the current value of every key after each poll.

`takeWhile_eq_filter` is for stores that keep their entries in the order of the versions.
-/

set_option autoImplicit false

namespace TestingSystem

universe u v w

/-- In a list in which `p` never comes back, the longest prefix with `p` is all of it. -/
theorem takeWhile_eq_filter {α : Type u} {p : α → Bool} {xs : List α}
    (h : xs.Pairwise fun a b => p b = true → p a = true) : xs.takeWhile p = xs.filter p := by
  induction h with
  | nil => rfl
  | @cons a xs hall _ ih =>
    cases hp : p a with
    | true => rw [List.takeWhile_cons_of_pos hp, List.filter_cons_of_pos hp, ih]
    | false =>
      have hnone : ∀ b ∈ xs, ¬ p b = true := fun b hb hpb => by
        rw [hall b hb hpb] at hp
        cases hp
      rw [List.takeWhile_cons_of_neg (by simp [hp]), List.filter_cons_of_neg (by simp [hp]),
        List.filter_eq_nil_iff.2 hnone]

/-- A store: the value of a key and the version of its last write. -/
abbrev VersionedStore (K : Type u) (V : Type v) (E : Type w) := K → Option (V × E)

/-- A reader: its copies and the version of its last poll. -/
structure Reader (K : Type u) (V : Type v) (E : Type w) where
  copies : K → Option V
  since : WithBot E

namespace Reader

variable {K : Type u} {V : Type v} {E : Type w} [LinearOrder E]
variable {r r' : Reader K V E} {store store' : VersionedStore K V E}

/-- Every entry is copied or will be part of the next poll. -/
def Synced (r : Reader K V E) (store : VersionedStore K V E) : Prop :=
  ∀ k v e, store k = some (v, e) → r.copies k = some v ∨ r.since ≤ e

/-- A poll: the entries that are not below the last poll are copied. -/
structure Polled (r : Reader K V E) (store : VersionedStore K V E) (r' : Reader K V E) : Prop where
  fetched : ∀ k v e, store k = some (v, e) → r.since ≤ e → r'.copies k = some v
  kept : ∀ k v e, store k = some (v, e) → ¬ r.since ≤ e → r'.copies k = r.copies k

/-- A change that only writes versions not below the last poll, or removes entries. -/
theorem Synced.of_written (h : r.Synced store)
    (hw : ∀ k v e, store' k = some (v, e) → store k = some (v, e) ∨ r.since ≤ e) :
    r.Synced store' := by
  intro k v e hget
  rcases hw k v e hget with hold | hle
  · exact h k v e hold
  · exact .inr hle

/-- After a poll the reader holds the store. -/
theorem Polled.current (hp : r.Polled store r') (h : r.Synced store) {k : K} {v : V} {e : E}
    (hget : store k = some (v, e)) : r'.copies k = some v := by
  by_cases hle : r.since ≤ e
  · exact hp.fetched k v e hget hle
  · rw [hp.kept k v e hget hle]
    exact (h k v e hget).resolve_right hle

theorem Polled.synced (hp : r.Polled store r') (h : r.Synced store) : r'.Synced store :=
  fun _ _ _ hget => .inl (hp.current h hget)

end Reader

end TestingSystem
