import TestingSystem.Cache.CacheRuns

/-!
# Removing items by hand

The runs of `CacheRuns` with calls of `Remove` between the other sections. `Remove` only looks at the
lock count. An item that is still loading has no list element, and when its locks have been returned
before the load ends nothing keeps `Remove` from removing this element (`remove_iff`).
-/

set_option autoImplicit false

namespace TestingSystem

/-- A section of the cache, or a call of `Remove`. -/
inductive RemovalStep (C K V E : Type) where
  | other (a : CacheStep C K V E)
  | remove (key : K)

namespace CacheRun

variable {C K V E : Type} [DecidableEq K] {r r' : CacheRun C K V E} {key : K}

/-- An item of `key` that is loading has a lock. -/
def Settled (r : CacheRun C K V E) (key : K) : Prop :=
  ∀ holder, r.cache.valueHolders.get? key = some holder →
    0 < holder.lockCount ∨ holder.loadingStatus = none

/-- Every `Remove` is called for a settled key. -/
def removesSettled (r : CacheRun C K V E) : RemovalStep C K V E → Prop
  | .other _ => True
  | .remove key => r.Settled key

/-- `Remove` of a settled key. -/
theorem Inv.remove (h : r.Inv) (hsettled : r.Settled key) :
    r.cache.remove key = .ok (r.cache, some (.itemLocked key)) ∨
      ∃ cache, r.cache.remove key = .ok (cache, none) ∧ cache.valueHolders.get? key = none ∧
        key ∉ cache.recentRank ∧ Inv { r with cache := cache } := by
  have hwf := h.tracked.wellFormed
  cases hget : r.cache.valueHolders.get? key with
  | none =>
    refine .inr ⟨r.cache, by simp [LRUSizeCache.remove, hget], hget, fun hmem => ?_, h⟩
    obtain ⟨holder, hholder, -⟩ := (hwf.ranked key).1 hmem
    rw [hget] at hholder
    cases hholder
  | some holder =>
    by_cases hcount : 0 < holder.lockCount
    · exact .inl (by simp [LRUSizeCache.remove, hget, hcount])
    · have hzero : holder.lockCount = 0 := Nat.eq_zero_of_not_pos hcount
      have hloaded := (hsettled holder hget).resolve_left hcount
      have hpos := (hwf.loaded key holder hget).2 hloaded
      have hremoves : r.cache.Removes (r.cache.withoutItem key holder) :=
        ⟨key, holder, hget, hzero, hpos, rfl⟩
      refine .inr ⟨r.cache.withoutItem key holder, ?_, GoMap.get?_delete_self _ _, ?_, ?_⟩
      · simp [LRUSizeCache.remove, hget, hcount,
          LRUSizeCache.removeSingleItem_of_unlocked hget hzero hpos]
      · exact fun hmem => (hwf.nodup.mem_erase_iff.1 hmem).1 rfl
      · exact ⟨h.tracked.removes hremoves, h.waiting, h.done⟩

/-- `Remove` of any other key uses the list element that the item does not have. -/
theorem Inv.remove_unsettled (h : r.Inv) (hsettled : ¬ r.Settled key) :
    r.cache.remove key = .error .nilListPosition := by
  unfold Settled at hsettled
  push Not at hsettled
  obtain ⟨holder, hget, hcount, hloading⟩ := hsettled
  have hzero : holder.lockCount = 0 := Nat.le_zero.1 hcount
  have hpos : holder.listPosition ≠ true := fun hpos =>
    hloading ((h.tracked.wellFormed.loaded key holder hget).1 hpos)
  simp [LRUSizeCache.remove, hget, hzero, LRUSizeCache.removeSingleItem, hpos]

section Steps

variable [DecidableEq C]

def execRemoving (r : CacheRun C K V E) : RemovalStep C K V E → Except CachePanic (CacheRun C K V E)
  | .other a => r.exec a
  | .remove key => do
    let (cache, _) ← r.cache.remove key
    return { r with cache := cache }

/-- The runs of a new cache with calls of `Remove`. -/
def removing : Machine (CacheRun C K V E) (RemovalStep C K V E) CachePanic where
  init := machine.init
  enabled r
    | .other a => r.enabled a
    | .remove _ => True
  exec := execRemoving

/-- What `Remove` is for: a locked item stays, and otherwise there is no item afterwards and no later
step fails. -/
def Removable (r : CacheRun C K V E) (key : K) : Prop :=
  r.cache.remove key = .ok (r.cache, some (.itemLocked key)) ∨
    ∃ cache, r.cache.remove key = .ok (cache, none) ∧ cache.valueHolders.get? key = none ∧
      key ∉ cache.recentRank ∧
      ∀ t, removing.Reaches removesSettled { r with cache := cache } t →
        ∀ a, removesSettled t a → removing.enabled t a → ∃ t', removing.exec t a = .ok t'

/-- A step that removes settled keys only succeeds and keeps the invariant. -/
theorem Inv.stepRemoving (h : r.Inv) (a : RemovalStep C K V E) (hok : r.removesSettled a)
    (hen : removing.enabled r a) : ∃ r', removing.exec r a = .ok r' ∧ r'.Inv := by
  cases a with
  | other a =>
    obtain ⟨r', hr', hinv, -⟩ := h.step a hen
    exact ⟨r', hr', hinv⟩
  | remove key =>
    obtain hremove | ⟨cache, hremove, -, -, hinv⟩ := h.remove hok
    · exact ⟨r, by simp [removing, execRemoving, hremove], h⟩
    · exact ⟨_, by simp [removing, execRemoving, hremove], hinv⟩

theorem Inv.of_removing (h : removing.Reachable Machine.always r) : r.Inv := by
  refine h.invariant ?_ fun s a t hs _ hen hex => ?_
  · rintro s ⟨sizeBound, remover, rfl⟩
    exact .init sizeBound remover
  · have hok : s.removesSettled a := by
      cases a with
      | other a => trivial
      | remove key =>
        by_contra hsettled
        simp [removing, execRemoving, hs.remove_unsettled hsettled] at hex
    obtain ⟨u, hu, hinv⟩ := hs.stepRemoving a hok hen
    exact Except.ok.inj (hu.symm.trans hex) ▸ hinv

theorem Inv.reaches_removing (h : r.Inv) (hr : removing.Reaches removesSettled r r') : r'.Inv :=
  hr.keeps h fun s a t hs hok hen hex => by
    obtain ⟨u, hu, hinv⟩ := hs.stepRemoving a hok hen
    exact Except.ok.inj (hu.symm.trans hex) ▸ hinv

/-- In every reachable state `Remove` keeps to its purpose exactly for the settled keys. -/
theorem remove_iff (h : removing.Reachable Machine.always r) (key : K) :
    r.Removable key ↔ r.Settled key := by
  have hinv := Inv.of_removing h
  constructor
  · intro hremovable
    by_contra hsettled
    have hpanic := hinv.remove_unsettled hsettled
    obtain hlocked | ⟨cache, hremoved, -⟩ := hremovable
    · rw [hpanic] at hlocked
      cases hlocked
    · rw [hpanic] at hremoved
      cases hremoved
  · intro hsettled
    obtain hlocked | ⟨cache, hremoved, habsent, hrank, hafter⟩ := hinv.remove hsettled
    · exact .inl hlocked
    · refine .inr ⟨cache, hremoved, habsent, hrank, fun t ht a hok hen => ?_⟩
      obtain ⟨t', ht', -⟩ := (hafter.reaches_removing ht).stepRemoving a hok hen
      exact ⟨t', ht'⟩

end Steps

/-- A loaded item is removed, then loaded again. -/
theorem remove_iff_loaded :
    ∃ r : CacheRun Nat Nat Nat String, r.cache.recentRank = [1] ∧ (r.Removable 1 ↔ r.Settled 1) := by
  have hreach := Machine.Reachable.of_runs
    (removing : Machine (CacheRun Nat Nat Nat String) _ _) Machine.always
    [.other (.lock 0 1), .other (.load 0 (some 7) none 3), .other (.unlock 0 1), .remove 1,
      .other (.lock 0 1), .other (.load 1 (some 8) none 3)] (.of_init ⟨5, true, rfl⟩)
    ⟨trivial, trivial, _, rfl, trivial, ⟨1, rfl⟩, _, rfl, trivial, List.Mem.head _, _, rfl,
      trivial, trivial, _, rfl, trivial, trivial, _, rfl, trivial, ⟨1, rfl⟩, _, rfl, rfl⟩
  exact ⟨_, rfl, remove_iff hreach 1⟩

/-- `Lock`, `Unlock` and `Remove` of an item whose load is still running. -/
theorem remove_while_loading :
    ∃ r : CacheRun Nat Nat Nat String, removing.Reachable Machine.always r ∧
      r.calls.running.get? 0 = some 1 ∧ r.locks = [] ∧ ¬ r.Removable 1 := by
  have hreach := Machine.Reachable.of_runs
    (removing : Machine (CacheRun Nat Nat Nat String) _ _) Machine.always
    [.other (.lock 0 1), .other (.unlock 0 1)] (.of_init ⟨5, true, rfl⟩)
    ⟨trivial, trivial, _, rfl, trivial, List.Mem.head _, _, rfl, rfl⟩
  refine ⟨_, hreach, rfl, rfl, ?_⟩
  rintro (hlocked | ⟨cache, hremoved, -⟩)
  · cases hlocked
  · cases hremoved

end CacheRun

end TestingSystem
