import TestingSystem.Cache.LRUSizeCache

/-!
# The invariant of the cache

`WellFormed` relates the holders and `recentRank`: exactly the loaded keys have an element. A removal is
one step of the relation `Removes`, and `removeItemsIfNeeded` is a sequence of such steps that ends
with the cache inside its bound or with all loaded items locked (`Bounded`).
-/

set_option autoImplicit false

namespace TestingSystem

namespace LRUSizeCache

variable {K V E : Type} [DecidableEq K] {c c' : LRUSizeCache K V E} {key : K}
  {valueHolder : ValHolder V E}

/-- The keys with an element are those of the loaded items, and a loading item is still empty. -/
structure WellFormed (c : LRUSizeCache K V E) : Prop where
  nodup : c.recentRank.Nodup
  ranked : ∀ key, key ∈ c.recentRank ↔
    ∃ valueHolder, c.valueHolders.get? key = some valueHolder ∧ valueHolder.listPosition = true
  loaded : ∀ key valueHolder, c.valueHolders.get? key = some valueHolder →
    (valueHolder.listPosition = true ↔ valueHolder.loadingStatus = none)
  unset : ∀ key valueHolder, c.valueHolders.get? key = some valueHolder →
    valueHolder.loadingStatus ≠ none →
      valueHolder.value = none ∧ valueHolder.error = none ∧ valueHolder.size = 0

/-- The bound holds as far as the locks allow. -/
def Bounded (c : LRUSizeCache K V E) : Prop :=
  c.totalSize ≤ c.sizeBound ∨ ∀ key valueHolder, c.valueHolders.get? key = some valueHolder →
    valueHolder.loadingStatus = none → 0 < valueHolder.lockCount

/-- An unlocked item with an element is removed. -/
def Removes (c c' : LRUSizeCache K V E) : Prop :=
  ∃ key valueHolder, c.valueHolders.get? key = some valueHolder ∧ valueHolder.lockCount = 0 ∧
    valueHolder.listPosition = true ∧ c' = c.withoutItem key valueHolder

/-- Any number of removals. -/
abbrev RemovesAll : LRUSizeCache K V E → LRUSizeCache K V E → Prop :=
  Relation.ReflTransGen Removes

theorem wellFormed_new (sizeBound : UInt64) (remover : Bool) :
    WellFormed (new sizeBound remover : LRUSizeCache K V E) where
  nodup := List.nodup_nil
  ranked key := by simp [new]
  loaded _ _ h := nomatch h
  unset _ _ h := nomatch h

theorem WellFormed.nodup_moveToBack {rank : List K} (h : rank.Nodup) (key : K) :
    (moveToBack rank key).Nodup ∧ ∀ a, a ∈ moveToBack rank key ↔ a ∈ rank := by
  unfold moveToBack
  split
  · next hmem =>
    have hperm : (rank.erase key ++ [key]).Perm rank :=
      List.perm_append_comm.trans (List.perm_cons_erase hmem).symm
    exact ⟨hperm.nodup_iff.2 h, fun a => hperm.mem_iff⟩
  · exact ⟨h, fun a => Iff.rfl⟩

theorem itemUsed_valueHolders :
    (c.itemUsed key valueHolder).valueHolders =
      c.valueHolders.set key { valueHolder with listPosition := true } := by
  unfold itemUsed
  split
  · next hpos => simp only [← hpos]
  · rfl

@[simp] theorem itemUsed_totalSize : (c.itemUsed key valueHolder).totalSize = c.totalSize := by
  unfold itemUsed
  split <;> rfl

@[simp] theorem itemUsed_sizeBound : (c.itemUsed key valueHolder).sizeBound = c.sizeBound := by
  unfold itemUsed
  split <;> rfl

@[simp] theorem itemUsed_removals : (c.itemUsed key valueHolder).removals = c.removals := by
  unfold itemUsed
  split <;> rfl

@[simp] theorem itemUsed_remover : (c.itemUsed key valueHolder).remover = c.remover := by
  unfold itemUsed
  split <;> rfl

theorem lockAndGetHolder_get? (c : LRUSizeCache K V E) (key : K) (group : WaitGroup) :
    (c.lockAndGetHolder key group).1.valueHolders.get? key =
      some (c.lockAndGetHolder key group).2 := by
  unfold lockAndGetHolder
  split <;> exact GoMap.get?_set_self _ _ _

theorem lockAndGetHolder_lockCount (c : LRUSizeCache K V E) (key : K) (group : WaitGroup) :
    0 < (c.lockAndGetHolder key group).2.lockCount := by
  unfold lockAndGetHolder
  split <;> exact Nat.succ_pos _

@[simp] theorem lockAndGetHolder_removals (c : LRUSizeCache K V E) (key : K) (group : WaitGroup) :
    (c.lockAndGetHolder key group).1.removals = c.removals := by
  unfold lockAndGetHolder
  split <;> rfl

@[simp] theorem lockAndGetHolder_remover (c : LRUSizeCache K V E) (key : K) (group : WaitGroup) :
    (c.lockAndGetHolder key group).1.remover = c.remover := by
  unfold lockAndGetHolder
  split <;> rfl

/-- The key of a loaded item is used. -/
theorem WellFormed.itemUsed (h : c.WellFormed)
    (hpos : valueHolder.listPosition = true ↔ key ∈ c.recentRank)
    (hloaded : valueHolder.loadingStatus = none) : (c.itemUsed key valueHolder).WellFormed := by
  have hget : ∀ a holder, (c.itemUsed key valueHolder).valueHolders.get? a = some holder →
      (a = key ∧ holder = { valueHolder with listPosition := true }) ∨
        (a ≠ key ∧ c.valueHolders.get? a = some holder) := by
    intro a holder ha
    rw [itemUsed_valueHolders] at ha
    exact GoMap.of_get?_set ha
  have hrank : (c.itemUsed key valueHolder).recentRank.Nodup ∧
      ∀ a, a ∈ (c.itemUsed key valueHolder).recentRank ↔ a ∈ c.recentRank ∨ a = key := by
    unfold LRUSizeCache.itemUsed
    split
    · next hl =>
      obtain ⟨hnodup, hmem⟩ := WellFormed.nodup_moveToBack h.nodup key
      refine ⟨hnodup, fun a => (hmem a).trans ⟨.inl, ?_⟩⟩
      rintro (ha | rfl)
      · exact ha
      · exact hpos.1 hl
    · next hl =>
      have hnew : key ∉ c.recentRank := fun hmem => hl (hpos.2 hmem)
      refine ⟨?_, fun a => by simp⟩
      exact List.nodup_append.2 ⟨h.nodup, List.nodup_singleton key,
        fun a ha b hb hab => hnew (List.mem_singleton.1 hb ▸ hab ▸ ha)⟩
  refine ⟨hrank.1, fun a => (hrank.2 a).trans ?_, fun a holder ha => ?_, fun a holder ha hl => ?_⟩
  · rw [itemUsed_valueHolders, GoMap.get?_set]
    split
    · next hkey => simp [hkey]
    · next hkey => simp only [h.ranked a, hkey, or_false]
  · rcases hget a holder ha with ⟨-, rfl⟩ | ⟨-, ha⟩
    · simp [hloaded]
    · exact h.loaded a holder ha
  · rcases hget a holder ha with ⟨-, rfl⟩ | ⟨-, ha⟩
    · exact absurd hloaded hl
    · exact h.unset a holder ha hl

/-- The lock count of an item changes. -/
theorem WellFormed.setLockCount (h : c.WellFormed)
    (hget : c.valueHolders.get? key = some valueHolder) (n : Nat) :
    WellFormed { c with
      valueHolders := c.valueHolders.set key { valueHolder with lockCount := n } } := by
  refine ⟨h.nodup, fun a => ?_, fun a holder ha => ?_, fun a holder ha hl => ?_⟩
  · rw [h.ranked a]
    simp only [GoMap.get?_set]
    split
    · next hkey => simp [hkey, hget]
    · exact Iff.rfl
  · rcases GoMap.of_get?_set ha with ⟨-, rfl⟩ | ⟨-, ha⟩
    · exact h.loaded key valueHolder hget
    · exact h.loaded a holder ha
  · rcases GoMap.of_get?_set ha with ⟨-, rfl⟩ | ⟨-, ha⟩
    · exact h.unset key valueHolder hget hl
    · exact h.unset a holder ha hl

/-- A loading item is added. -/
theorem WellFormed.addLoading (h : c.WellFormed) (hget : c.valueHolders.get? key = none) (n : Nat)
    (group : WaitGroup) :
    WellFormed { c with
      valueHolders := c.valueHolders.set key
        { value := none, error := none, lockCount := n, size := 0, loadingStatus := some group
          listPosition := false } } := by
  refine ⟨h.nodup, fun a => ?_, fun a holder ha => ?_, fun a holder ha hl => ?_⟩
  · rw [h.ranked a]
    simp only [GoMap.get?_set]
    split
    · next hkey => simp [hkey, hget]
    · exact Iff.rfl
  · rcases GoMap.of_get?_set ha with ⟨-, rfl⟩ | ⟨-, ha⟩
    · simp
    · exact h.loaded a holder ha
  · rcases GoMap.of_get?_set ha with ⟨-, rfl⟩ | ⟨-, ha⟩
    · simp
    · exact h.unset a holder ha hl

theorem WellFormed.lockAndGetHolder (h : c.WellFormed) (key : K) (group : WaitGroup) :
    (c.lockAndGetHolder key group).1.WellFormed := by
  unfold LRUSizeCache.lockAndGetHolder
  split
  · next holder hget => exact h.setLockCount hget _
  · next hget => exact h.addLoading hget 1 group

theorem WellFormed.removes (h : c.WellFormed) (hr : c.Removes c') : c'.WellFormed := by
  obtain ⟨key, valueHolder, hget, -, -, rfl⟩ := hr
  refine ⟨h.nodup.erase key, fun a => ?_, fun a holder ha => ?_, fun a holder ha hl => ?_⟩
  · simp only [withoutItem, h.nodup.mem_erase_iff, h.ranked a, GoMap.get?_delete]
    split
    · next hkey => simp [hkey]
    · next hkey => simp [hkey]
  · exact h.loaded a holder (GoMap.of_get?_delete ha).2
  · exact h.unset a holder (GoMap.of_get?_delete ha).2 hl

theorem WellFormed.removesAll (h : c.WellFormed) (hr : c.RemovesAll c') : c'.WellFormed := by
  induction hr with
  | refl => exact h
  | tail _ hr ih => exact ih.removes hr

/-- An item that is there after removals was there before, unchanged. -/
theorem get?_of_removesAll (hr : c.RemovesAll c')
    (hget : c'.valueHolders.get? key = some valueHolder) :
    c.valueHolders.get? key = some valueHolder := by
  induction hr with
  | refl => exact hget
  | tail _ hr ih =>
    obtain ⟨removed, holder, -, -, -, rfl⟩ := hr
    exact ih (GoMap.of_get?_delete hget).2

theorem remover_of_removesAll (hr : c.RemovesAll c') : c'.remover = c.remover := by
  induction hr with
  | refl => rfl
  | tail _ hr ih =>
    obtain ⟨removed, holder, -, -, -, rfl⟩ := hr
    exact ih

/-- A locked item is not removed. -/
theorem RemovesAll.locked (hr : c.RemovesAll c') (hget : c.valueHolders.get? key = some valueHolder)
    (hlocked : 0 < valueHolder.lockCount) :
    c'.valueHolders.get? key = some valueHolder ∧ c'.removalsOf key = c.removalsOf key := by
  induction hr with
  | refl => exact ⟨hget, rfl⟩
  | @tail d d' _ hr ih =>
    obtain ⟨hd, hremovals⟩ := ih
    obtain ⟨removed, holder, hholder, hzero, -, rfl⟩ := hr
    have hne : key ≠ removed := by
      rintro rfl
      obtain rfl := Option.some.inj (hholder.symm.trans hd)
      omega
    refine ⟨(GoMap.get?_delete_ne _ hne).trans hd, ?_⟩
    rw [← hremovals]
    simp [removalsOf, withoutItem, hne.symm]

/-- `removeSingleItem` for an unlocked item with an element. -/
theorem removeSingleItem_of_unlocked (hget : c.valueHolders.get? key = some valueHolder)
    (hzero : valueHolder.lockCount = 0) (hpos : valueHolder.listPosition = true) :
    c.removeSingleItem key = .ok (c.withoutItem key valueHolder) := by
  simp [removeSingleItem, hget, hzero, hpos]

/-- The loop of `removeItemsIfNeeded`: `rest` holds every key that may still be removed. -/
theorem WellFormed.removeItemsFrom :
    ∀ (rest : List K) (c : LRUSizeCache K V E), c.WellFormed → rest.Nodup →
      (∀ key ∈ rest, key ∈ c.recentRank) →
      (∀ key valueHolder, c.valueHolders.get? key = some valueHolder →
        valueHolder.loadingStatus = none → key ∉ rest → 0 < valueHolder.lockCount) →
      ∃ c', removeItemsFrom rest c = .ok c' ∧ c.RemovesAll c' ∧ c'.Bounded := by
  intro rest
  induction rest with
  | nil =>
    intro c h _ _ hlocked
    exact ⟨c, rfl, .refl, .inr fun key holder hget hl => hlocked key holder hget hl List.not_mem_nil⟩
  | cons key rest ih =>
    intro c h hnodup hrank hlocked
    rw [List.nodup_cons] at hnodup
    by_cases hbound : c.totalSize > c.sizeBound
    · obtain ⟨holder, hget, hpos⟩ := (h.ranked key).1 (hrank key List.mem_cons_self)
      have hrest : ∀ a ∈ rest, a ∈ c.recentRank := fun a ha => hrank a (List.mem_cons_of_mem _ ha)
      by_cases hzero : holder.lockCount = 0
      · have hr : c.Removes (c.withoutItem key holder) := ⟨key, holder, hget, hzero, hpos, rfl⟩
        obtain ⟨c', hc', hall, hend⟩ := ih (c.withoutItem key holder) (h.removes hr) hnodup.2
          (fun a ha => (h.nodup.mem_erase_iff).2 ⟨fun hak => hnodup.1 (hak ▸ ha), hrest a ha⟩)
          (fun a v ha hl hmem => by
            obtain ⟨hne, ha⟩ := GoMap.of_get?_delete ha
            exact hlocked a v ha hl (List.not_mem_cons_of_ne_of_not_mem hne hmem))
        refine ⟨c', ?_, .head hr hall, hend⟩
        rw [LRUSizeCache.removeItemsFrom, if_pos hbound, hget]
        simp only [hzero, if_true, removeSingleItem_of_unlocked hget hzero hpos]
        exact hc'
      · obtain ⟨c', hc', hall, hend⟩ := ih c h hnodup.2 hrest (fun a v ha hl hmem => by
          by_cases hak : a = key
          · subst hak
            obtain rfl := Option.some.inj (hget.symm.trans ha)
            exact Nat.pos_of_ne_zero hzero
          · exact hlocked a v ha hl (List.not_mem_cons_of_ne_of_not_mem hak hmem))
        refine ⟨c', ?_, hall, hend⟩
        rw [LRUSizeCache.removeItemsFrom, if_pos hbound, hget]
        simp only [hzero, if_false]
        exact hc'
    · refine ⟨c, ?_, .refl, .inl (UInt64.not_lt.1 hbound)⟩
      rw [LRUSizeCache.removeItemsFrom, if_neg hbound]

/-- `removeItemsIfNeeded` does not fail. -/
theorem WellFormed.removeItemsIfNeeded (h : c.WellFormed) :
    ∃ c', c.removeItemsIfNeeded = .ok c' ∧ c.RemovesAll c' ∧ c'.Bounded := by
  refine WellFormed.removeItemsFrom c.recentRank c h h.nodup (fun _ hk => hk) ?_
  intro key holder hget hl hmem
  exact absurd ((h.ranked key).2 ⟨holder, hget, (h.loaded key holder hget).2 hl⟩) hmem

/-- The item of a loading key at the end of its load. -/
def loadedItem (valueHolder : ValHolder V E) (value : Option V) (err : Option E) (size : UInt64) :
    ValHolder V E :=
  { valueHolder with value := value, error := err, size := size, loadingStatus := none }

/-- The end of a load, before the removals. -/
theorem WellFormed.load (h : c.WellFormed) (hget : c.valueHolders.get? key = some valueHolder)
    (value : Option V) (err : Option E) (size totalSize : UInt64) :
    WellFormed ({ c with totalSize := totalSize }.itemUsed key
      (loadedItem valueHolder value err size)) := by
  have hwf : WellFormed { c with totalSize := totalSize } := ⟨h.nodup, h.ranked, h.loaded, h.unset⟩
  refine hwf.itemUsed ?_ rfl
  rw [hwf.ranked key, hget]
  simp [loadedItem]

/-- `loadAbsentValue` for a loading item. -/
theorem WellFormed.loadAbsentValue (h : c.WellFormed)
    (hget : c.valueHolders.get? key = some valueHolder) {group : WaitGroup}
    (hl : valueHolder.loadingStatus = some group) (value : Option V) (err : Option E)
    (size : UInt64) :
    ∃ c', c.loadAbsentValue key value err size = .ok (c', group) ∧
      RemovesAll ({ c with totalSize := c.totalSize + size }.itemUsed key
        (loadedItem valueHolder value err size)) c' ∧ c'.Bounded := by
  obtain ⟨hvalue, herr, -⟩ := h.unset key valueHolder hget (by simp [hl])
  obtain ⟨c', hc', hall, hbound⟩ :=
    (h.load hget value err size (c.totalSize + size)).removeItemsIfNeeded
  refine ⟨c', ?_, hall, hbound⟩
  simp only [loadedItem] at hc'
  simp [LRUSizeCache.loadAbsentValue, hget, hvalue, herr, hl, hc']

/-- The bound stays if the total size does and no loaded item loses its last lock. -/
theorem Bounded.mono (h : c.Bounded) (htotal : c'.totalSize = c.totalSize)
    (hbound : c'.sizeBound = c.sizeBound)
    (hlocked : ∀ key valueHolder, c'.valueHolders.get? key = some valueHolder →
      valueHolder.loadingStatus = none → ∃ before, c.valueHolders.get? key = some before ∧
        before.loadingStatus = none ∧ (0 < before.lockCount → 0 < valueHolder.lockCount)) :
    c'.Bounded := by
  rcases h with h | h
  · exact .inl (by rw [htotal, hbound]; exact h)
  · refine .inr fun key valueHolder hget hl => ?_
    obtain ⟨before, hbefore, hl', hcount⟩ := hlocked key valueHolder hget hl
    exact hcount (h key before hbefore hl')

theorem Bounded.lockAndGetHolder (h : c.Bounded) (key : K) (group : WaitGroup) :
    (c.lockAndGetHolder key group).1.Bounded := by
  unfold LRUSizeCache.lockAndGetHolder
  split
  · next before hget =>
    refine h.mono rfl rfl fun a holder ha hl => ?_
    rcases GoMap.of_get?_set ha with ⟨hkey, rfl⟩ | ⟨-, ha⟩
    · exact ⟨before, hkey ▸ hget, hl, fun _ => Nat.succ_pos _⟩
    · exact ⟨holder, ha, hl, id⟩
  · refine h.mono rfl rfl fun a holder ha hl => ?_
    rcases GoMap.of_get?_set ha with ⟨-, rfl⟩ | ⟨-, ha⟩
    · cases hl
    · exact ⟨holder, ha, hl, id⟩

theorem Bounded.get (h : c.Bounded) (key : K) (group : WaitGroup) : (c.get key group).1.Bounded := by
  rcases hc : c.lockAndGetHolder key group with ⟨locked, holder⟩
  have hlocked := h.lockAndGetHolder key group
  simp only [hc] at hlocked
  cases hl : holder.loadingStatus with
  | some loading =>
    simp only [LRUSizeCache.get, hc, hl]
    exact hlocked
  | none =>
    simp only [LRUSizeCache.get, hc, hl, finishGet]
    cases hget : c.valueHolders.get? key with
    | none =>
      simp only [LRUSizeCache.lockAndGetHolder, hget, Prod.mk.injEq] at hc
      obtain ⟨-, rfl⟩ := hc
      cases hl
    | some before =>
      simp only [LRUSizeCache.lockAndGetHolder, hget, Prod.mk.injEq] at hc
      obtain ⟨rfl, rfl⟩ := hc
      refine h.mono itemUsed_totalSize itemUsed_sizeBound fun a holder ha hl' => ?_
      simp only [itemUsed_valueHolders, GoMap.set_set] at ha
      rcases GoMap.of_get?_set ha with ⟨hkey, rfl⟩ | ⟨-, ha⟩
      · exact ⟨before, hkey ▸ hget, hl, fun hpos => hpos⟩
      · exact ⟨holder, ha, hl', id⟩

/-- An item is used, with another lock count. -/
theorem Bounded.itemUsed (h : c.Bounded) (hget : c.valueHolders.get? key = some valueHolder) {n : Nat}
    (hn : c.totalSize ≤ c.sizeBound ∨ 0 < n) :
    (c.itemUsed key { valueHolder with lockCount := n }).Bounded := by
  rcases hn with hn | hn
  · exact .inl (by simpa using hn)
  · refine h.mono itemUsed_totalSize itemUsed_sizeBound fun a holder ha hl => ?_
    rw [itemUsed_valueHolders] at ha
    rcases GoMap.of_get?_set ha with ⟨hkey, rfl⟩ | ⟨-, ha⟩
    · exact ⟨valueHolder, hkey ▸ hget, hl, fun _ => hn⟩
    · exact ⟨holder, ha, hl, id⟩

theorem Bounded.lock (h : c.Bounded) (key : K) (group : WaitGroup) : (c.lock key group).Bounded := by
  rcases hc : c.lockAndGetHolder key group with ⟨locked, holder⟩
  have hlocked := h.lockAndGetHolder key group
  have hget := lockAndGetHolder_get? c key group
  have hpos := lockAndGetHolder_lockCount c key group
  simp only [hc] at hlocked hget hpos
  simp only [LRUSizeCache.lock, hc]
  split
  · exact hlocked.itemUsed hget (.inr hpos)
  · exact hlocked

end LRUSizeCache

end TestingSystem
