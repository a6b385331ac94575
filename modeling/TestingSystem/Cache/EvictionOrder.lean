import TestingSystem.Cache.CacheRuns
import TestingSystem.Lib.Outcome
import Mathlib.Data.List.Dedup

/-!
# The order of evictions

A run is watched together with the list of its uses: the keys of the completed `Get` calls, of the
`Lock` calls for loaded items and of the loads that ended, oldest first. `recentRank` is this list with
the last use of every key, restricted to the loaded items (`Ordered`), and `removeItemsIfNeeded` takes
out unlocked items from its front until the bound holds (`Evicts`).
-/

set_option autoImplicit false

namespace TestingSystem

/-- The last use of a key that is used again comes last. -/
theorem dedup_concat {α : Type} [DecidableEq α] (l : List α) (a : α) :
    (l ++ [a]).dedup = l.dedup.filter (· ≠ a) ++ [a] := by
  induction l with
  | nil => simp
  | cons b l ih =>
    rw [List.cons_append]
    by_cases hmem : b ∈ l
    · rw [List.dedup_cons_of_mem (List.mem_append_left _ hmem), ih, List.dedup_cons_of_mem hmem]
    · by_cases hab : b = a
      · subst hab
        rw [List.dedup_cons_of_mem (by simp), ih, List.dedup_cons_of_notMem hmem]
        simp
      · rw [List.dedup_cons_of_notMem (by simp [hmem, hab]), ih, List.dedup_cons_of_notMem hmem]
        simp [hab]

namespace LRUSizeCache

variable {K V E : Type} [DecidableEq K] {c c' : LRUSizeCache K V E} {key : K}
  {valueHolder : ValHolder V E} {uses : List K}

/-- The key has an item whose load has ended. -/
def loaded (c : LRUSizeCache K V E) (key : K) : Bool :=
  match c.valueHolders.get? key with
  | some valueHolder => valueHolder.loadingStatus.isNone
  | none => false

/-- The key has an item without locks. -/
def unlocked (c : LRUSizeCache K V E) (key : K) : Bool :=
  match c.valueHolders.get? key with
  | some valueHolder => valueHolder.lockCount == 0
  | none => false

/-- The cache without the item of `key`. -/
def evict (c : LRUSizeCache K V E) (key : K) : LRUSizeCache K V E :=
  match c.valueHolders.get? key with
  | some valueHolder => c.withoutItem key valueHolder
  | none => c

def evictAll (c : LRUSizeCache K V E) (keys : List K) : LRUSizeCache K V E := keys.foldl evict c

/-- The calls of the remover so far, latest first. -/
def removerCalls (c : LRUSizeCache K V E) : List (K × Option V) :=
  if c.remover then
    (c.removals.filter fun r => r.holder.error.isNone).map fun r => (r.key, r.holder.value)
  else []

/-- The keys are evicted from `c`: the first unlocked ones of `recentRank`, and with one of them less
the total size would still be above the bound. -/
structure Evicts (c c' : LRUSizeCache K V E) (evicted : List K) : Prop where
  evicts : c' = c.evictAll evicted
  nodup : evicted.Nodup
  order : evicted <+: c.recentRank.filter c.unlocked
  bounded : c'.Bounded
  shortest : ∀ shorter, shorter <+: evicted → shorter ≠ evicted →
    c.sizeBound < (c.evictAll shorter).totalSize

/-- `recentRank` holds the loaded keys in the order of their last uses. -/
def Ordered (c : LRUSizeCache K V E) (uses : List K) : Prop :=
  c.recentRank = uses.dedup.filter c.loaded

/-! ### The loop of `removeItemsIfNeeded` -/

theorem evict_eq (hget : c.valueHolders.get? key = some valueHolder) :
    c.evict key = c.withoutItem key valueHolder := by
  rw [evict, hget]

theorem evict_get?_ne {a : K} (hne : a ≠ key) :
    (c.evict key).valueHolders.get? a = c.valueHolders.get? a := by
  unfold evict
  split
  · exact GoMap.get?_delete_ne _ hne
  · rfl

@[simp] theorem evict_sizeBound : (c.evict key).sizeBound = c.sizeBound := by
  unfold evict
  split <;> rfl

@[simp] theorem evict_remover : (c.evict key).remover = c.remover := by
  unfold evict
  split <;> rfl

theorem filter_unlocked_evict {rest : List K} (h : key ∉ rest) :
    rest.filter (c.evict key).unlocked = rest.filter c.unlocked := by
  refine List.filter_congr fun a ha => ?_
  have hne : a ≠ key := fun heq => h (heq ▸ ha)
  rw [unlocked, unlocked, evict_get?_ne hne]

/-- The loop takes out the first unlocked keys of `rest`, as few as the bound needs. -/
theorem WellFormed.evictsFrom :
    ∀ (rest : List K) (c : LRUSizeCache K V E), c.WellFormed → rest.Nodup →
      (∀ key ∈ rest, key ∈ c.recentRank) →
      ∃ evicted, LRUSizeCache.removeItemsFrom rest c = .ok (c.evictAll evicted) ∧
        evicted <+: rest.filter c.unlocked ∧
        ∀ shorter, shorter <+: evicted → shorter ≠ evicted →
          c.sizeBound < (c.evictAll shorter).totalSize := by
  intro rest
  induction rest with
  | nil =>
    intro c _ _ _
    exact ⟨[], rfl, List.nil_prefix, fun shorter hs hne => absurd (List.prefix_nil.1 hs) hne⟩
  | cons key rest ih =>
    intro c h hnodup hrank
    rw [List.nodup_cons] at hnodup
    have hrest : ∀ a ∈ rest, a ∈ c.recentRank := fun a ha => hrank a (List.mem_cons_of_mem _ ha)
    by_cases hbound : c.totalSize > c.sizeBound
    · obtain ⟨holder, hget, hpos⟩ := (h.ranked key).1 (hrank key List.mem_cons_self)
      by_cases hzero : holder.lockCount = 0
      · have hr : c.Removes (c.evict key) :=
          ⟨key, holder, hget, hzero, hpos, evict_eq hget⟩
        have hleft : ∀ a ∈ rest, a ∈ (c.evict key).recentRank := by
          intro a ha
          rw [evict_eq hget]
          exact (h.nodup.mem_erase_iff).2 ⟨fun hak => hnodup.1 (hak ▸ ha), hrest a ha⟩
        obtain ⟨evicted, hrun, hprefix, hshort⟩ := ih (c.evict key) (h.removes hr) hnodup.2 hleft
        have hunlocked : c.unlocked key = true := by simp [unlocked, hget, hzero]
        refine ⟨key :: evicted, ?_, ?_, fun shorter hs hne => ?_⟩
        · rw [LRUSizeCache.removeItemsFrom, if_pos hbound, hget]
          simp only [hzero, if_true, removeSingleItem_of_unlocked hget hzero hpos, ← evict_eq hget]
          exact hrun
        · rw [List.filter_cons_of_pos hunlocked]
          exact (List.prefix_cons_inj key).2 (filter_unlocked_evict hnodup.1 ▸ hprefix)
        · cases shorter with
          | nil => exact hbound
          | cons a shorter =>
            obtain ⟨rfl, hprefix'⟩ := List.cons_prefix_cons.1 hs
            have hlt := hshort shorter hprefix' fun heq => hne (by rw [heq])
            rwa [evict_sizeBound] at hlt
      · obtain ⟨evicted, hrun, hprefix, hshort⟩ := ih c h hnodup.2 hrest
        have hlocked : ¬ c.unlocked key = true := by simp [unlocked, hget, hzero]
        refine ⟨evicted, ?_, ?_, hshort⟩
        · rw [LRUSizeCache.removeItemsFrom, if_pos hbound, hget]
          simp only [hzero, if_false]
          exact hrun
        · rwa [List.filter_cons_of_neg hlocked]
    · refine ⟨[], ?_, List.nil_prefix, fun shorter hs hne => absurd (List.prefix_nil.1 hs) hne⟩
      rw [LRUSizeCache.removeItemsFrom, if_neg hbound]
      rfl

theorem WellFormed.evicts (h : c.WellFormed) :
    ∃ c' evicted, c.removeItemsIfNeeded = .ok c' ∧ c.Evicts c' evicted := by
  obtain ⟨evicted, hrun, hprefix, hshort⟩ :=
    WellFormed.evictsFrom c.recentRank c h h.nodup fun _ hk => hk
  obtain ⟨c', hc', -, hbound⟩ := h.removeItemsIfNeeded
  obtain rfl : c.evictAll evicted = c' := Except.ok.inj (hrun.symm.trans hc')
  exact ⟨_, evicted, hrun, rfl, hprefix.sublist.nodup (h.nodup.filter _), hprefix, hbound, hshort⟩

/-! ### Calls of the remover -/

/-- The call of the remover for the item of `key`. -/
def removerCall (c : LRUSizeCache K V E) (key : K) : Option (K × Option V) :=
  match c.valueHolders.get? key with
  | some valueHolder => if valueHolder.error.isNone then some (key, valueHolder.value) else none
  | none => none

theorem removerCalls_evict (hremover : c.remover = true) :
    (c.evict key).removerCalls = (c.removerCall key).toList ++ c.removerCalls := by
  rw [removerCalls, removerCalls, evict_remover, if_pos hremover, if_pos hremover, removerCall, evict]
  split
  · simp only [withoutItem, List.filter_cons]
    split <;> rfl
  · rfl

theorem removerCalls_evictAll (hremover : c.remover = true) {keys : List K} (hnodup : keys.Nodup) :
    (c.evictAll keys).removerCalls = (keys.filterMap c.removerCall).reverse ++ c.removerCalls := by
  induction keys generalizing c with
  | nil => rfl
  | cons key keys ih =>
    rw [List.nodup_cons] at hnodup
    have hsame : keys.filterMap (c.evict key).removerCall = keys.filterMap c.removerCall := by
      refine List.filterMap_congr fun a ha => ?_
      have hne : a ≠ key := fun heq => hnodup.1 (heq ▸ ha)
      rw [removerCall, removerCall, evict_get?_ne hne]
    have hstep : c.evictAll (key :: keys) = (c.evict key).evictAll keys := rfl
    rw [hstep, ih (evict_remover.trans hremover) hnodup.2, hsame, removerCalls_evict hremover]
    cases hcall : c.removerCall key with
    | none => rw [List.filterMap_cons_none hcall]; rfl
    | some call => rw [List.filterMap_cons_some hcall]; simp

/-! ### The order of the uses -/

theorem loaded_iff : c.loaded key = true ↔
    ∃ valueHolder, c.valueHolders.get? key = some valueHolder ∧ valueHolder.loadingStatus = none := by
  unfold loaded
  cases c.valueHolders.get? key with
  | none => simp
  | some valueHolder => simp

theorem WellFormed.mem_recentRank (h : c.WellFormed) (key : K) :
    key ∈ c.recentRank ↔ c.loaded key = true := by
  rw [h.ranked key, loaded_iff]
  exact exists_congr fun v => and_congr_right fun hget => h.loaded key v hget

theorem itemUsed_recentRank (hpos : valueHolder.listPosition = true ↔ key ∈ c.recentRank) :
    (c.itemUsed key valueHolder).recentRank = c.recentRank.erase key ++ [key] := by
  unfold itemUsed
  split
  · next hl => exact if_pos (hpos.1 hl)
  · next hl => rw [List.erase_of_not_mem fun hmem => hl (hpos.2 hmem)]

theorem itemUsed_loaded (a : K) :
    (c.itemUsed key valueHolder).loaded a =
      if a = key then valueHolder.loadingStatus.isNone else c.loaded a := by
  by_cases ha : a = key
  · rw [loaded, itemUsed_valueHolders, ha, GoMap.get?_set_self, if_pos rfl]
  · rw [loaded, itemUsed_valueHolders, GoMap.get?_set_ne _ _ ha, if_neg ha, loaded]

/-- What `lockAndGetHolder` leaves as it is. -/
theorem lockAndGetHolder_order (c : LRUSizeCache K V E) (key : K) (group : WaitGroup) :
    (c.lockAndGetHolder key group).1.recentRank = c.recentRank ∧
      ∀ a, (c.lockAndGetHolder key group).1.loaded a = c.loaded a := by
  unfold lockAndGetHolder
  split
  · next holder hget =>
    refine ⟨rfl, fun a => ?_⟩
    by_cases ha : a = key
    · subst ha
      simp [loaded, hget]
    · simp only [loaded, GoMap.get?_set_ne _ _ ha]
  · next hget =>
    refine ⟨rfl, fun a => ?_⟩
    by_cases ha : a = key
    · subst ha
      simp [loaded, hget]
    · simp only [loaded, GoMap.get?_set_ne _ _ ha]

namespace Ordered

/-- Neither the rank nor the loads change. -/
theorem same (h : c.Ordered uses) (hrank : c'.recentRank = c.recentRank)
    (hloaded : ∀ a, c'.loaded a = c.loaded a) : c'.Ordered uses := by
  rw [Ordered, hrank, funext hloaded]
  exact h

/-- The key of a loaded item is used. -/
theorem used (h : c.Ordered uses) (hrank : c'.recentRank = c.recentRank.erase key ++ [key])
    (hkey : c'.loaded key = true) (hloaded : ∀ a, a ≠ key → c'.loaded a = c.loaded a) :
    c'.Ordered (uses ++ [key]) := by
  have hnodup : (uses.dedup.filter c.loaded).Nodup := (List.nodup_dedup uses).filter _
  rw [Ordered, hrank, h, hnodup.erase_eq_filter, dedup_concat, List.filter_append, List.filter_filter,
    List.filter_filter, List.filter_singleton, hkey]
  congr 1
  refine List.filter_congr fun a _ => ?_
  by_cases ha : a = key
  · simp [ha]
  · simp [ha, hloaded a ha]

/-- The item of `key` is replaced by a loaded one, which is used. -/
theorem itemUsed (h : c.Ordered uses) (hwf : c.WellFormed)
    (hget : c.valueHolders.get? key = some valueHolder) {after : ValHolder V E}
    (hpos : after.listPosition = valueHolder.listPosition) (hloaded : after.loadingStatus = none) :
    (c.itemUsed key after).Ordered (uses ++ [key]) := by
  refine h.used (itemUsed_recentRank ?_) ?_ fun a ha => ?_
  · rw [hwf.ranked key, hget, hpos]
    simp
  · rw [itemUsed_loaded, if_pos rfl, hloaded]
    rfl
  · rw [itemUsed_loaded, if_neg ha]

/-- An item is removed. -/
theorem removes (h : c.Ordered uses) (hr : c.Removes c') : c'.Ordered uses := by
  obtain ⟨key, valueHolder, hget, -, -, rfl⟩ := hr
  have hnodup : (uses.dedup.filter c.loaded).Nodup := (List.nodup_dedup uses).filter _
  have hrank : (c.withoutItem key valueHolder).recentRank = c.recentRank.erase key := rfl
  rw [Ordered, hrank, h, hnodup.erase_eq_filter, List.filter_filter]
  refine List.filter_congr fun a _ => ?_
  by_cases ha : a = key
  · subst ha
    simp [loaded, withoutItem, GoMap.get?_delete_self]
  · simp [loaded, withoutItem, GoMap.get?_delete_ne _ ha, ha]

theorem removesAll (h : c.Ordered uses) (hr : c.RemovesAll c') : c'.Ordered uses := by
  induction hr with
  | refl => exact h
  | tail _ hr ih => exact ih.removes hr

end Ordered

end LRUSizeCache

/-! ### Runs with their uses -/

/-- A run and the keys that were used in it, oldest first. -/
structure TracedRun (C K V E : Type) where
  run : CacheRun C K V E
  uses : List K

namespace CacheRun

variable {C K V E : Type} [DecidableEq K] {r r' : CacheRun C K V E} {uses : List K}

/-- The key that a step uses: a `Get` that returns, a `Lock` of a loaded item, or the end of a load. -/
def used (r : CacheRun C K V E) : CacheStep C K V E → List K
  | .get key | .lock _ key => if r.cache.loaded key then [key] else []
  | .wake key _ => [key]
  | .unlock _ _ => []
  | .load call _ _ _ => (r.calls.running.get? call).toList

/-- The cache on which a step calls `removeItemsIfNeeded`. -/
def beforeEviction (r : CacheRun C K V E) : CacheStep C K V E → Option (LRUSizeCache K V E)
  | .get _ | .wake _ _ | .lock _ _ => none
  | .unlock _ key =>
    (r.cache.valueHolders.get? key).map fun valueHolder =>
      { r.cache with
        valueHolders :=
          r.cache.valueHolders.set key { valueHolder with lockCount := valueHolder.lockCount - 1 } }
  | .load call value err size => do
    let key ← r.calls.running.get? call
    let valueHolder ← r.cache.valueHolders.get? key
    return { r.cache with totalSize := r.cache.totalSize + size }.itemUsed key
      (LRUSizeCache.loadedItem valueHolder value err size)

/-- A step from `r` to `r'` calls `removeItemsIfNeeded` on the cache `before`. -/
structure Evicting (r r' : CacheRun C K V E) (uses : List K) (before : LRUSizeCache K V E) :
    Prop where
  call : before.removeItemsIfNeeded = .ok r'.cache
  ordered : before.Ordered uses
  removals : before.removals = r.cache.removals
  remover : before.remover = r.cache.remover
  tracked : Tracked before r'.calls r'.pins

/-- The remover is called for a key with the value of its last load, unless this load gave an error. -/
def loadedCall (r : CacheRun C K V E) (key : K) : Option (K × Option V) :=
  match (r.calls.latest.get? key).bind r.calls.results.get? with
  | some (value, none) => some (key, value)
  | _ => none

/-- The cache of a `Get` or a `Lock` after `lockAndGetHolder`. -/
theorem Inv.lockAndGetHolder (h : r.Inv) (ho : r.cache.Ordered uses) {key : K}
    {c : LRUSizeCache K V E} {holder : ValHolder V E}
    (hc : r.cache.lockAndGetHolder key r.calls.next = (c, holder)) :
    c.WellFormed ∧ c.valueHolders.get? key = some holder ∧ c.removals = r.cache.removals ∧
      c.Ordered uses ∧ (r.cache.loaded key = true ↔ holder.loadingStatus = none) := by
  have hwf := h.tracked.wellFormed.lockAndGetHolder key r.calls.next
  have hget := LRUSizeCache.lockAndGetHolder_get? r.cache key r.calls.next
  have hremovals := LRUSizeCache.lockAndGetHolder_removals r.cache key r.calls.next
  obtain ⟨hrank, hloaded⟩ := LRUSizeCache.lockAndGetHolder_order r.cache key r.calls.next
  simp only [hc] at hwf hget hremovals hrank hloaded
  refine ⟨hwf, hget, hremovals, ho.same hrank hloaded, ?_⟩
  rw [← hloaded, LRUSizeCache.loaded_iff, hget]
  simp

section Steps

variable [DecidableEq C]

theorem Inv.ordered_get (h : r.Inv) (ho : r.cache.Ordered uses) {key : K}
    (hex : r.exec (.get key) = .ok r') :
    r'.cache.Ordered (uses ++ r.used (.get key)) ∧ r'.cache.removals = r.cache.removals := by
  rcases hc : r.cache.lockAndGetHolder key r.calls.next with ⟨c, holder⟩
  obtain ⟨hwf, hget, hremovals, hlocked, hkey⟩ := h.lockAndGetHolder ho hc
  cases hl : holder.loadingStatus with
  | none =>
    simp only [exec, LRUSizeCache.get, LRUSizeCache.finishGet, hc, hl] at hex
    obtain rfl := Except.ok.inj hex
    refine ⟨?_, by simpa using hremovals⟩
    rw [used, if_pos (hkey.2 hl)]
    exact hlocked.itemUsed hwf hget rfl rfl
  | some group =>
    have hloading : ¬ r.cache.loaded key = true := by simp [hkey, hl]
    simp only [exec, LRUSizeCache.get, hc, hl] at hex
    obtain rfl := Except.ok.inj hex
    rw [used, if_neg hloading, List.append_nil]
    exact ⟨hlocked, hremovals⟩

theorem Inv.ordered_wake (h : r.Inv) (ho : r.cache.Ordered uses) {key : K} {group : WaitGroup}
    (hen : r.enabled (.wake key group)) (hex : r.exec (.wake key group) = .ok r') :
    r'.cache.Ordered (uses ++ r.used (.wake key group)) ∧ r'.cache.removals = r.cache.removals := by
  obtain ⟨holder, hget, hl⟩ := h.woken hen.1 hen.2
  simp only [exec, LRUSizeCache.wake, hget] at hex
  obtain rfl := Except.ok.inj hex
  exact ⟨ho.itemUsed h.tracked.wellFormed hget rfl hl, LRUSizeCache.itemUsed_removals⟩

theorem Inv.ordered_lock (h : r.Inv) (ho : r.cache.Ordered uses) {client : C} {key : K}
    (hex : r.exec (.lock client key) = .ok r') :
    r'.cache.Ordered (uses ++ r.used (.lock client key)) ∧
      r'.cache.removals = r.cache.removals := by
  rcases hc : r.cache.lockAndGetHolder key r.calls.next with ⟨c, holder⟩
  obtain ⟨hwf, hget, hremovals, hlocked, hkey⟩ := h.lockAndGetHolder ho hc
  obtain rfl := Except.ok.inj hex
  simp only [LRUSizeCache.lock, hc]
  split
  · next hl =>
    refine ⟨?_, by simpa using hremovals⟩
    rw [used, if_pos (hkey.2 hl)]
    exact hlocked.itemUsed hwf hget rfl hl
  · next hl =>
    rw [used, if_neg (mt hkey.1 hl), List.append_nil]
    exact ⟨hlocked, hremovals⟩

theorem Inv.evicting_unlock (h : r.Inv) (ho : r.cache.Ordered uses) {client : C} {key : K}
    (hlock : (client, key) ∈ r.locks) (hex : r.exec (.unlock client key) = .ok r') :
    ∃ before, r.beforeEviction (.unlock client key) = some before ∧
      r.Evicting r' (uses ++ r.used (.unlock client key)) before := by
  obtain ⟨holder, hget, hcount, ht⟩ := h.unlocked hlock
  obtain ⟨c, hc, -⟩ := ht.wellFormed.removeItemsIfNeeded
  simp only [exec, LRUSizeCache.unlock, hget, gt_iff_lt, hcount, if_true, hc] at hex
  obtain rfl := Except.ok.inj hex
  refine ⟨_, by rw [beforeEviction, hget]; rfl, hc, ?_, rfl, rfl, ht⟩
  rw [used, List.append_nil]
  refine ho.same rfl fun a => ?_
  by_cases ha : a = key
  · subst ha
    simp [LRUSizeCache.loaded, hget]
  · simp only [LRUSizeCache.loaded, GoMap.get?_set_ne _ _ ha]

theorem Inv.evicting_load (h : r.Inv) (ho : r.cache.Ordered uses) {call : Nat} {key : K}
    (hrun : r.calls.running.get? call = some key) {value : Option V} {err : Option E}
    {size : UInt64} (hex : r.exec (.load call value err size) = .ok r') :
    ∃ before, r.beforeEviction (.load call value err size) = some before ∧
      r.Evicting r' (uses ++ r.used (.load call value err size)) before := by
  obtain ⟨holder, hget, hl⟩ := h.tracked.running call key hrun
  have ht := h.tracked.finish hget hl value err size (r.cache.totalSize + size)
  obtain ⟨c, hc, -⟩ := ht.wellFormed.removeItemsIfNeeded
  obtain ⟨hvalue, herr, -⟩ := h.tracked.wellFormed.unset key holder hget (by simp [hl])
  have hload : r.cache.loadAbsentValue key value err size = .ok (c, call) := by
    simp only [LRUSizeCache.loadedItem] at hc
    simp [LRUSizeCache.loadAbsentValue, hget, hvalue, herr, hl, hc]
  simp only [exec, hrun, hload] at hex
  obtain rfl := Except.ok.inj hex
  refine ⟨_, by rw [beforeEviction, hrun]; simp only [Option.bind_eq_bind, Option.bind_some, hget]; rfl,
    hc, ?_, LRUSizeCache.itemUsed_removals, LRUSizeCache.itemUsed_remover, ht⟩
  rw [used, hrun]
  have hwf := h.tracked.wellFormed
  have hwf' : LRUSizeCache.WellFormed { r.cache with totalSize := r.cache.totalSize + size } :=
    ⟨hwf.nodup, hwf.ranked, hwf.loaded, hwf.unset⟩
  have ho' : LRUSizeCache.Ordered { r.cache with totalSize := r.cache.totalSize + size } uses := ho
  exact ho'.itemUsed hwf' hget rfl rfl

end Steps

namespace Evicting

variable {before : LRUSizeCache K V E} {evicted : List K}

theorem ordered_after (h : r.Evicting r' uses before) : r'.cache.Ordered uses := by
  obtain ⟨c, hc, hall, -⟩ := h.tracked.wellFormed.removeItemsIfNeeded
  obtain rfl := Except.ok.inj (hc.symm.trans h.call)
  exact h.ordered.removesAll hall

theorem evicts (h : r.Evicting r' uses before) : ∃ evicted, before.Evicts r'.cache evicted := by
  obtain ⟨c, evicted, hc, hevicts⟩ := h.tracked.wellFormed.evicts
  obtain rfl := Except.ok.inj (hc.symm.trans h.call)
  exact ⟨evicted, hevicts⟩

/-- The remover is called with the results of the loads. -/
theorem removerCall_eq (h : r.Evicting r' uses before) {key : K} (hmem : key ∈ before.recentRank) :
    before.removerCall key = r'.loadedCall key := by
  obtain ⟨holder, hget, hpos⟩ := (h.tracked.wellFormed.ranked key).1 hmem
  have hloaded := (h.tracked.wellFormed.loaded key holder hget).1 hpos
  obtain ⟨call, hlatest, hresult⟩ := h.tracked.loaded key holder hget hloaded
  rw [LRUSizeCache.removerCall, hget, loadedCall, hlatest, Option.bind_some, hresult]
  cases herr : holder.error with
  | none => simp [herr]
  | some err => simp [herr]

theorem removerCalls_eq (h : r.Evicting r' uses before) (hevicts : before.Evicts r'.cache evicted) :
    r'.cache.removerCalls =
      (if r.cache.remover then (evicted.filterMap r'.loadedCall).reverse else []) ++
        r.cache.removerCalls := by
  have hbefore : before.removerCalls = r.cache.removerCalls := by
    rw [LRUSizeCache.removerCalls, LRUSizeCache.removerCalls, h.removals, h.remover]
  have hsame : evicted.filterMap before.removerCall = evicted.filterMap r'.loadedCall :=
    List.filterMap_congr fun key hkey =>
      h.removerCall_eq (List.mem_of_mem_filter (hevicts.order.subset hkey))
  cases hremover : r.cache.remover with
  | true =>
    rw [hevicts.evicts, LRUSizeCache.removerCalls_evictAll (h.remover.trans hremover) hevicts.nodup,
      hsame, hbefore, if_pos rfl]
  | false =>
    obtain ⟨c, hc, hall, -⟩ := h.tracked.wellFormed.removeItemsIfNeeded
    obtain rfl := Except.ok.inj (hc.symm.trans h.call)
    have hafter : r'.cache.remover = false :=
      (LRUSizeCache.remover_of_removesAll hall).trans (h.remover.trans hremover)
    simp [LRUSizeCache.removerCalls, hremover, hafter]

end Evicting

end CacheRun

namespace TracedRun

variable {C K V E : Type} [DecidableEq C] [DecidableEq K]

def exec (t : TracedRun C K V E) (a : CacheStep C K V E) : Except CachePanic (TracedRun C K V E) := do
  let run ← t.run.exec a
  return { run := run, uses := t.uses ++ t.run.used a }

/-- The runs of a new cache, with their uses. -/
def machine : Machine (TracedRun C K V E) (CacheStep C K V E) CachePanic where
  init t := ∃ run, CacheRun.machine.init run ∧ t = { run := run, uses := [] }
  enabled t a := t.run.enabled a
  exec := exec

variable {t t' : TracedRun C K V E}

/-- A step orders the keys by their last uses, before its removals and after them. -/
theorem ordered_step (h : t.run.Inv) (ho : t.run.cache.Ordered t.uses) (a : CacheStep C K V E)
    (hen : t.run.enabled a) (hex : t.exec a = .ok t') :
    t'.run.cache.Ordered t'.uses ∧
      match t.run.beforeEviction a with
      | none => t'.run.cache.removals = t.run.cache.removals
      | some before => t.run.Evicting t'.run t'.uses before := by
  obtain ⟨r', hr', hex⟩ := bind_eq_ok.1 hex
  obtain rfl := Except.ok.inj hex
  cases a with
  | get key => exact h.ordered_get ho hr'
  | wake key group => exact h.ordered_wake ho hen hr'
  | lock client key => exact h.ordered_lock ho hr'
  | unlock client key =>
    obtain ⟨before, hbefore, hevicting⟩ := h.evicting_unlock ho hen hr'
    rw [hbefore]
    exact ⟨hevicting.ordered_after, hevicting⟩
  | load call value err size =>
    obtain ⟨key, hrun⟩ := hen
    obtain ⟨before, hbefore, hevicting⟩ := h.evicting_load ho hrun hr'
    rw [hbefore]
    exact ⟨hevicting.ordered_after, hevicting⟩

theorem inv_of_reachable (h : machine.Reachable Machine.always t) :
    t.run.Inv ∧ t.run.cache.Ordered t.uses := by
  refine h.invariant (P := fun t => t.run.Inv ∧ t.run.cache.Ordered t.uses) ?_
    fun s a u hs _ hen hex => ?_
  · rintro s ⟨run, ⟨sizeBound, remover, rfl⟩, rfl⟩
    exact ⟨.init sizeBound remover, rfl⟩
  · refine ⟨?_, (ordered_step hs.1 hs.2 a hen hex).1⟩
    obtain ⟨r', hr', hex⟩ := bind_eq_ok.1 hex
    obtain rfl := Except.ok.inj hex
    obtain ⟨r'', hr'', hinv, -⟩ := hs.1.step a hen
    exact Except.ok.inj (hr''.symm.trans hr') ▸ hinv

/-- `recentRank` holds the loaded keys in the order of their last uses, and every call of
`removeItemsIfNeeded` takes the first unlocked ones of them, as few as the bound needs; the remover is
called once for each of them whose load gave no error, in this order. -/
theorem eviction_order (h : machine.Reachable Machine.always t) :
    t.run.cache.recentRank.Nodup ∧
      (∀ key, key ∈ t.run.cache.recentRank ↔ t.run.cache.loaded key = true) ∧
      t.run.cache.recentRank = t.uses.dedup.filter t.run.cache.loaded ∧
      ∀ a, machine.enabled t a → ∃ t', machine.exec t a = .ok t' ∧
        match t.run.beforeEviction a with
        | none => t'.run.cache.removals = t.run.cache.removals
        | some before =>
          before.removeItemsIfNeeded = .ok t'.run.cache ∧
            before.recentRank = t'.uses.dedup.filter before.loaded ∧
            ∃ evicted, before.Evicts t'.run.cache evicted ∧
              t'.run.cache.removerCalls =
                (if t.run.cache.remover then (evicted.filterMap t'.run.loadedCall).reverse else []) ++
                  t.run.cache.removerCalls := by
  obtain ⟨hinv, ho⟩ := inv_of_reachable h
  have hwf := hinv.tracked.wellFormed
  refine ⟨hwf.nodup, hwf.mem_recentRank, ho, fun a hen => ?_⟩
  obtain ⟨r', hr', -⟩ := hinv.step a hen
  have hex : t.exec a = .ok { run := r', uses := t.uses ++ t.run.used a } := by
    rw [exec, hr', ok_bind]
    rfl
  refine ⟨_, hex, ?_⟩
  obtain ⟨-, hstep⟩ := ordered_step hinv ho a hen hex
  cases hbefore : t.run.beforeEviction a with
  | none =>
    rw [hbefore] at hstep
    exact hstep
  | some before =>
    rw [hbefore] at hstep
    obtain ⟨evicted, hevicts⟩ := hstep.evicts
    exact ⟨hstep.call, hstep.ordered, evicted, hevicts, hstep.removerCalls_eq hevicts⟩

/-- Three items above the bound, of which only the second one is locked at the end. -/
theorem eviction_order_locked :
    ∃ t t' : TracedRun Nat Nat Nat String, t.uses = [1, 2, 3, 3] ∧ t.run.cache.recentRank = [1, 2, 3] ∧
      machine.exec t (.unlock 0 1) = .ok t' ∧ ∃ (before : LRUSizeCache Nat Nat String)
        (evicted : List Nat), before.Evicts t'.run.cache evicted ∧
          t'.run.cache.removerCalls = (evicted.filterMap t'.run.loadedCall).reverse := by
  have hreach := Machine.Reachable.of_runs
    (machine : Machine (TracedRun Nat Nat Nat String) _ _) Machine.always
    [.lock 0 1, .load 0 (some 7) none 3, .lock 0 2, .load 1 none (some "absent") 2, .get 3,
      .load 2 (some 9) none 4, .wake 3 2] (.of_init ⟨_, ⟨5, true, rfl⟩, rfl⟩)
    ⟨trivial, trivial, _, rfl, trivial, ⟨1, rfl⟩, _, rfl, trivial, trivial, _, rfl,
      trivial, ⟨2, rfl⟩, _, rfl, trivial, trivial, _, rfl, trivial, ⟨3, rfl⟩, _, rfl,
      trivial, ⟨by decide, by decide⟩, _, rfl, rfl⟩
  obtain ⟨t', hex, -, -, evicted, hevicts, hcalls⟩ :=
    (eviction_order hreach).2.2.2 (.unlock 0 1) (List.Mem.tail _ (List.Mem.head _))
  exact ⟨_, t', rfl, rfl, hex, _, evicted, hevicts, hcalls.trans (List.append_nil _)⟩

end TracedRun

end TestingSystem
