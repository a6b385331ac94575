import TestingSystem.Cache.CacheInvariant
import TestingSystem.Lib.Machine

/-!
# The total size of the cache

The exported operations one after the other, each load finished before the next operation. `totalSize`
is the sum of the sizes of the items as long as every accepted `Insert` has size 0: `Insert` stores the
size of its item and does not add it to the total (`accounted_of_insertsNothing`).
-/

set_option autoImplicit false

namespace TestingSystem

/-- What a call of the getter returns. -/
structure Loaded (V E : Type) where
  value : Option V
  err : Option E
  size : UInt64

/-- A call of an exported operation, with the result of the getter if the operation starts a load. -/
inductive CacheOp (K V E : Type) where
  | get (key : K) (loaded : Loaded V E)
  | lock (key : K) (loaded : Loaded V E)
  | unlock (key : K)
  | remove (key : K)
  | insert (key : K) (val : Option V) (size : UInt64)

namespace LRUSizeCache

variable {K V E : Type} [DecidableEq K] {c c' : LRUSizeCache K V E} {key : K}
  {valueHolder : ValHolder V E}

/-- The sum of the sizes of the items. -/
def sizes (c : LRUSizeCache K V E) : Nat :=
  c.valueHolders.total fun valueHolder => valueHolder.size.toNat

/-- The total size is the sum of the sizes, and no subtraction has wrapped. -/
structure Accounted (c : LRUSizeCache K V E) : Prop where
  total : c.totalSize.toNat = c.sizes
  removals : ∀ removal ∈ c.removals, removal.holder.size ≤ removal.totalSize

/-- An operation together with the load that it starts. -/
def run (c : LRUSizeCache K V E) : CacheOp K V E → Except CachePanic (LRUSizeCache K V E)
  | .get key loaded =>
    match c.get key 0 with
    | (c, .inl _) => .ok c
    | (c, .inr _) => do
      let (c, _) ← c.loadAbsentValue key loaded.value loaded.err loaded.size
      let (c, _) ← c.wake key
      return c
  | .lock key loaded =>
    match c.valueHolders.get? key with
    | some _ => .ok (c.lock key 0)
    | none => do
      let (c, _) ← (c.lock key 0).loadAbsentValue key loaded.value loaded.err loaded.size
      return c
  | .unlock key => do
    let (c, _) ← c.unlock key
    return c
  | .remove key => do
    let (c, _) ← c.remove key
    return c
  | .insert key val size => .ok (c.insert key val size).1

/-- The sizes fit into 64 bits, with that of the new item. -/
def fits (c : LRUSizeCache K V E) : CacheOp K V E → Prop
  | .get key loaded | .lock key loaded =>
    c.valueHolders.get? key = none → c.sizes + loaded.size.toNat < 2 ^ 64
  | .insert key _ size => c.valueHolders.get? key = none → c.sizes + size.toNat < 2 ^ 64
  | .unlock _ | .remove _ => True

/-- The runs of a new cache. -/
def operations : Machine (LRUSizeCache K V E) (CacheOp K V E) CachePanic where
  init c := ∃ sizeBound remover, c = new sizeBound remover
  enabled := fits
  exec := run

/-- An `Insert` that is accepted has size 0. -/
def insertsNothing (c : LRUSizeCache K V E) : CacheOp K V E → Prop
  | .insert key _ size => c.valueHolders.get? key = none → size = 0
  | _ => True

theorem Accounted.removes (h : c.Accounted) (hr : c.Removes c') : c'.Accounted := by
  obtain ⟨key, valueHolder, hget, -, -, rfl⟩ := hr
  have hsum : c.sizes = valueHolder.size.toNat + (c.withoutItem key valueHolder).sizes :=
    GoMap.total_delete hget _
  have hle : valueHolder.size ≤ c.totalSize := by
    rw [UInt64.le_iff_toNat_le, h.total]
    omega
  refine ⟨?_, fun removal hmem => ?_⟩
  · have hsub : (c.totalSize - valueHolder.size).toNat = c.totalSize.toNat - valueHolder.size.toNat :=
      UInt64.toNat_sub_of_le _ _ hle
    have htotal := h.total
    simp only [withoutItem] at hsum ⊢
    omega
  · rcases List.mem_cons.1 hmem with rfl | hmem
    · exact hle
    · exact h.removals removal hmem

theorem Accounted.removesAll (h : c.Accounted) (hr : c.RemovesAll c') : c'.Accounted := by
  induction hr with
  | refl => exact h
  | tail _ hr ih => exact ih.removes hr

/-- The holder of a key gets another size, and the total size changes by the same amount. -/
theorem Accounted.resize (h : c.Accounted) (hremovals : c'.removals = c.removals)
    {before after : ValHolder V E} (hget : c.valueHolders.get? key = some before)
    (hset : c'.valueHolders = c.valueHolders.set key after)
    (htotal : c'.totalSize.toNat + before.size.toNat = c.totalSize.toNat + after.size.toNat) :
    c'.Accounted := by
  have hold : c.sizes = before.size.toNat + _ := GoMap.total_delete hget _
  have hnew : c'.sizes = after.size.toNat + _ :=
    (congrArg (GoMap.total · _) hset).trans (GoMap.total_set c.valueHolders key after _)
  have hbefore := h.total
  exact ⟨by omega, by rw [hremovals]; exact h.removals⟩

/-- A key gets its first holder, and the total size grows by its size. -/
theorem Accounted.add (h : c.Accounted) (hremovals : c'.removals = c.removals)
    {after : ValHolder V E} (hget : c.valueHolders.get? key = none)
    (hset : c'.valueHolders = c.valueHolders.set key after)
    (htotal : c'.totalSize.toNat = c.totalSize.toNat + after.size.toNat) : c'.Accounted := by
  have hnew : c'.sizes = after.size.toNat + c.sizes :=
    (congrArg (GoMap.total · _) hset).trans (GoMap.total_set_of_none hget after _)
  have hbefore := h.total
  exact ⟨by omega, by rw [hremovals]; exact h.removals⟩

/-- The invariant between two operations. -/
structure Sound (c : LRUSizeCache K V E) : Prop where
  wellFormed : c.WellFormed
  loaded : ∀ key valueHolder, c.valueHolders.get? key = some valueHolder →
    valueHolder.loadingStatus = none
  accounted : c.Accounted

theorem sound_new (sizeBound : UInt64) (remover : Bool) :
    Sound (new sizeBound remover : LRUSizeCache K V E) where
  wellFormed := wellFormed_new sizeBound remover
  loaded _ _ h := nomatch h
  accounted := ⟨rfl, fun _ h => nomatch h⟩

theorem Sound.removesAll (h : c.Sound) (hr : c.RemovesAll c') : c'.Sound where
  wellFormed := h.wellFormed.removesAll hr
  loaded key valueHolder hget := h.loaded key valueHolder (get?_of_removesAll hr hget)
  accounted := h.accounted.removesAll hr

/-- A loaded holder is put into the map. -/
theorem Sound.loaded_set (h : c.Sound) {a : K} {holder : ValHolder V E}
    (ha : (c.valueHolders.set key valueHolder).get? a = some holder)
    (hloaded : valueHolder.loadingStatus = none) : holder.loadingStatus = none := by
  rcases GoMap.of_get?_set ha with ⟨-, rfl⟩ | ⟨-, ha⟩
  · exact hloaded
  · exact h.loaded a holder ha

/-- The lock count of an item changes. -/
theorem Sound.setLockCount (h : c.Sound) (hget : c.valueHolders.get? key = some valueHolder)
    (n : Nat) :
    Sound { c with
      valueHolders := c.valueHolders.set key { valueHolder with lockCount := n } } where
  wellFormed := h.wellFormed.setLockCount hget n
  loaded _ _ ha := h.loaded_set ha (h.loaded key valueHolder hget)
  accounted := h.accounted.resize rfl hget rfl rfl

/-- An item is used, with another lock count. -/
theorem Sound.itemUsed (h : c.Sound) (hget : c.valueHolders.get? key = some valueHolder) (n : Nat) :
    Sound (c.itemUsed key { valueHolder with lockCount := n }) where
  wellFormed := by
    refine h.wellFormed.itemUsed ?_ (h.loaded key valueHolder hget)
    rw [h.wellFormed.ranked key, hget]
    simp
  loaded a holder ha := by
    rw [itemUsed_valueHolders] at ha
    exact h.loaded_set ha (h.loaded key valueHolder hget)
  accounted := h.accounted.resize itemUsed_removals hget itemUsed_valueHolders (by simp)

/-- An item is locked and used, with the lock count `n` at the end. -/
theorem Sound.lockedAndUsed (h : c.Sound) (hget : c.valueHolders.get? key = some valueHolder) (n : Nat) :
    Sound ({ c with
        valueHolders := c.valueHolders.set key
          { valueHolder with lockCount := valueHolder.lockCount + 1 } }.itemUsed key
      { valueHolder with lockCount := n }) :=
  (h.setLockCount hget (valueHolder.lockCount + 1)).itemUsed (GoMap.get?_set_self ..) n

/-- A key without item is loaded. -/
theorem Sound.load (h : c.Sound) (hget : c.valueHolders.get? key = none) (loaded : Loaded V E)
    (hfits : c.sizes + loaded.size.toNat < 2 ^ 64) :
    ∃ c', (c.lockAndGetHolder key 0).1.loadAbsentValue key loaded.value loaded.err loaded.size =
      .ok (c', 0) ∧ c'.Sound ∧ ∃ holder, c'.valueHolders.get? key = some holder := by
  have heq : c.lockAndGetHolder key 0 =
      ({ c with valueHolders := c.valueHolders.set key ⟨none, none, 1, 0, some 0, false⟩ },
        ⟨none, none, 1, 0, some 0, false⟩) := by
    simp [LRUSizeCache.lockAndGetHolder, hget]
  have hwf := h.wellFormed.lockAndGetHolder key 0
  rw [heq] at hwf ⊢
  have hholder : ∀ v : ValHolder V E, (c.valueHolders.set key v).get? key = some v :=
    fun v => GoMap.get?_set_self _ _ _
  have hadded : Accounted { c with
      valueHolders := c.valueHolders.set key ⟨none, none, 1, 0, some 0, false⟩ } :=
    h.accounted.add rfl hget rfl rfl
  obtain ⟨c', hc', hall, -⟩ :=
    hwf.loadAbsentValue (hholder _) rfl loaded.value loaded.err loaded.size
  refine ⟨c', hc', Sound.removesAll ⟨?_, fun a holder ha => ?_, ?_⟩ hall, ?_⟩
  · exact hwf.load (hholder _) loaded.value loaded.err loaded.size _
  · rw [itemUsed_valueHolders, GoMap.set_set] at ha
    exact h.loaded_set ha rfl
  · refine hadded.resize itemUsed_removals (hholder _) itemUsed_valueHolders ?_
    have htotal := h.accounted.total
    simp only [itemUsed_totalSize, loadedItem, UInt64.toNat_add, UInt64.toNat_zero]
    omega
  · obtain ⟨hkept, -⟩ := RemovesAll.locked hall
      (by rw [itemUsed_valueHolders, GoMap.get?_set_self]) Nat.one_pos
    exact ⟨_, hkept⟩

/-- Every operation succeeds and keeps the accounts, but for an `Insert` with a size. -/
theorem Sound.run (h : c.Sound) (op : CacheOp K V E) (hfits : c.fits op)
    (hok : c.insertsNothing op) : ∃ c', c.run op = .ok c' ∧ c'.Sound := by
  cases op with
  | get key loaded =>
    cases hget : c.valueHolders.get? key with
    | some holder =>
      have hl := h.loaded key holder hget
      refine ⟨_, ?_, h.lockedAndUsed hget holder.lockCount⟩
      simp [LRUSizeCache.run, LRUSizeCache.get, LRUSizeCache.lockAndGetHolder, hget, hl, finishGet]
    | none =>
      obtain ⟨c', hc', hsound, holder, hholder⟩ := h.load hget loaded (hfits hget)
      refine ⟨_, ?_, hsound.itemUsed hholder (holder.lockCount - 1)⟩
      have hwait : c.get key 0 = ((c.lockAndGetHolder key 0).1, .inr 0) := by
        simp [LRUSizeCache.get, LRUSizeCache.lockAndGetHolder, hget]
      have hwake : c'.wake key = .ok (c'.finishGet key holder) := by simp [wake, hholder]
      simp only [LRUSizeCache.run, hwait, hc', bind, Except.bind, hwake]
      rfl
  | lock key loaded =>
    cases hget : c.valueHolders.get? key with
    | some holder =>
      have hl := h.loaded key holder hget
      refine ⟨_, ?_, h.lockedAndUsed hget (holder.lockCount + 1)⟩
      simp [LRUSizeCache.run, LRUSizeCache.lock, LRUSizeCache.lockAndGetHolder, hget, hl]
    | none =>
      obtain ⟨c', hc', hsound, -⟩ := h.load hget loaded (hfits hget)
      refine ⟨c', ?_, hsound⟩
      have hlock : c.lock key 0 = (c.lockAndGetHolder key 0).1 := by
        simp [LRUSizeCache.lock, LRUSizeCache.lockAndGetHolder, hget]
      simp [LRUSizeCache.run, hget, hlock, hc']
  | unlock key =>
    cases hget : c.valueHolders.get? key with
    | none => exact ⟨c, by simp [LRUSizeCache.run, unlock, hget], h⟩
    | some holder =>
      by_cases hcount : 0 < holder.lockCount
      · have hset := h.setLockCount hget (holder.lockCount - 1)
        obtain ⟨c', hc', hall, -⟩ := hset.wellFormed.removeItemsIfNeeded
        refine ⟨c', ?_, hset.removesAll hall⟩
        simp [LRUSizeCache.run, unlock, hget, hcount, hc']
      · exact ⟨c, by simp [LRUSizeCache.run, unlock, hget, hcount], h⟩
  | remove key =>
    cases hget : c.valueHolders.get? key with
    | none => exact ⟨c, by simp [LRUSizeCache.run, remove, hget], h⟩
    | some holder =>
      by_cases hcount : 0 < holder.lockCount
      · exact ⟨c, by simp [LRUSizeCache.run, remove, hget, hcount], h⟩
      · have hzero : holder.lockCount = 0 := by omega
        have hpos := (h.wellFormed.loaded key holder hget).2 (h.loaded key holder hget)
        refine ⟨c.withoutItem key holder, ?_,
          h.removesAll (.single ⟨key, holder, hget, hzero, hpos, rfl⟩)⟩
        simp [LRUSizeCache.run, remove, hget, hzero, removeSingleItem, hpos]
  | insert key val size =>
    cases hget : c.valueHolders.get? key with
    | some holder => exact ⟨c, by simp [LRUSizeCache.run, LRUSizeCache.insert, hget], h⟩
    | none =>
      refine ⟨_, rfl, ?_⟩
      obtain rfl := hok hget
      simp only [LRUSizeCache.insert, hget]
      refine ⟨h.wellFormed.itemUsed ?_ rfl, fun a holder ha => ?_, ?_⟩
      · rw [h.wellFormed.ranked key, hget]
        simp
      · rw [itemUsed_valueHolders] at ha
        exact h.loaded_set ha rfl
      · exact h.accounted.add itemUsed_removals hget itemUsed_valueHolders (by simp)

/-- An accepted `Insert` with a size breaks the accounts. -/
theorem Sound.not_accounted (h : c.Sound) {op : CacheOp K V E} (hok : ¬ c.insertsNothing op)
    (hrun : c.run op = .ok c') : ¬ c'.Accounted := by
  cases op with
  | insert key val size =>
    obtain ⟨hget, hsize⟩ := Classical.not_imp.1 hok
    simp only [LRUSizeCache.run, LRUSizeCache.insert, hget] at hrun
    obtain rfl := Except.ok.inj hrun
    intro hafter
    have hsum := GoMap.total_set_of_none hget (⟨val, none, 0, size, none, true⟩ : ValHolder V E)
      fun v => v.size.toNat
    have hbefore : c.totalSize.toNat = c.valueHolders.total _ := h.accounted.total
    have hafter := hafter.total
    simp only [sizes, itemUsed_valueHolders, itemUsed_totalSize] at hafter
    have hpos : size.toNat ≠ 0 := fun hzero => hsize (UInt64.toNat_inj.1 hzero)
    have hgrown : c.valueHolders.total _ = size.toNat + c.valueHolders.total _ :=
      hbefore.symm.trans (hafter.trans hsum)
    omega
  | get | lock | unlock | remove => exact absurd trivial hok

/-- In a run whose accepted `Insert` calls have size 0, the total size is the sum of the sizes after
every operation and no subtraction wraps; any other `Insert` breaks this. -/
theorem accounted_of_insertsNothing (h : operations.Reachable insertsNothing c) :
    c.Accounted ∧ (∀ op, c.fits op → c.insertsNothing op → ∃ c', c.run op = .ok c') ∧
      ∀ op c', ¬ c.insertsNothing op → c.run op = .ok c' → ¬ c'.Accounted := by
  have hsound : c.Sound := by
    refine h.invariant ?_ fun s op t hs hok hfits hrun => ?_
    · rintro s ⟨sizeBound, remover, rfl⟩
      exact sound_new sizeBound remover
    · obtain ⟨u, hu, hsound⟩ := hs.run op hfits hok
      exact Except.ok.inj (hu.symm.trans hrun) ▸ hsound
  refine ⟨hsound.accounted, fun op hfits hok => ?_, fun op c' hok => hsound.not_accounted hok⟩
  obtain ⟨c', hc', -⟩ := hsound.run op hfits hok
  exact ⟨c', hc'⟩

theorem accounted_of_insertsNothing_evicted :
    ∃ c : LRUSizeCache Nat Nat String, c.totalSize = 4 ∧ c.removals.length = 1 ∧ c.Accounted := by
  have hreach := Machine.Reachable.of_runs
    (operations : Machine (LRUSizeCache Nat Nat String) _ _) insertsNothing
    [.get 1 ⟨some 7, none, 3⟩, .lock 2 ⟨none, some "absent", 4⟩, .unlock 2, .insert 3 none 0]
    (.of_init ⟨5, true, rfl⟩)
    ⟨trivial, fun _ => by decide, _, rfl, trivial, fun _ => by decide, _, rfl,
      trivial, trivial, _, rfl, fun _ => rfl, fun _ => by decide, _, rfl, rfl⟩
  exact ⟨_, rfl, rfl, (accounted_of_insertsNothing hreach).1⟩

/-- `Insert` of an item of size 1 and `Remove` of it wrap the total size below zero. -/
theorem insert_remove_wraps :
    ∃ c : LRUSizeCache Nat Nat String, operations.Reachable Machine.always c ∧
      c.totalSize = UInt64.ofNat (2 ^ 64 - 1) ∧ c.sizes = 0 ∧ ¬ c.Accounted := by
  have hreach := Machine.Reachable.of_runs
    (operations : Machine (LRUSizeCache Nat Nat String) _ _) Machine.always
    [.insert 1 (some 7) 1, .remove 1] (.of_init ⟨5, true, rfl⟩)
    ⟨trivial, fun _ => by decide, _, rfl, trivial, trivial, _, rfl, rfl⟩
  refine ⟨_, hreach, rfl, rfl, fun h => ?_⟩
  exact absurd h.total (by decide)

end LRUSizeCache

end TestingSystem
