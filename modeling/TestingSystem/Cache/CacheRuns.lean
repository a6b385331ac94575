import TestingSystem.Cache.CacheInvariant
import TestingSystem.Lib.Machine
import Mathlib.Data.List.Count

/-!
# Runs of the cache with its clients

Any number of clients call `Get`, `Lock` and `Unlock`, and the getter calls that the cache has started
end in any order with any results. A client calls `Unlock` only for a `Lock` that it still holds. The
wait group of a new item and its getter call get the same new number.
-/

set_option autoImplicit false

namespace TestingSystem

open LRUSizeCache (Got)

/-- The getter calls of a run: those in progress, the latest one for each key, and the results. -/
structure GetterCalls (K V E : Type) where
  next : Nat
  running : GoMap Nat K
  latest : GoMap K Nat
  results : GoMap Nat (Got V E)

namespace GetterCalls

variable {K V E : Type} [DecidableEq K]

def new : GetterCalls K V E := { next := 0, running := .empty, latest := .empty, results := .empty }

/-- `lockAndGetHolder` starts a call for an absent key. -/
def request (calls : GetterCalls K V E) (c : LRUSizeCache K V E) (key : K) : GetterCalls K V E :=
  match c.valueHolders.get? key with
  | some _ => calls
  | none =>
    { calls with
      next := calls.next + 1
      running := calls.running.set calls.next key
      latest := calls.latest.set key calls.next }

@[simp] theorem request_results (calls : GetterCalls K V E) (c : LRUSizeCache K V E) (key : K) :
    (calls.request c key).results = calls.results := by
  unfold request
  split <;> rfl

/-- A call returns. -/
def finish (calls : GetterCalls K V E) (call : Nat) (got : Got V E) : GetterCalls K V E :=
  { calls with running := calls.running.delete call, results := calls.results.set call got }

end GetterCalls

/-- A section of the cache under its mutex. -/
inductive CacheStep (C K V E : Type) where
  | get (key : K)
  | wake (key : K) (group : WaitGroup)
  | lock (client : C) (key : K)
  | unlock (client : C) (key : K)
  | load (call : Nat) (value : Option V) (err : Option E) (size : UInt64)

/-- The cache, its getter calls, the wait groups that are done, the `Get` calls that wait, the locks
that clients hold and what the `Get` calls have returned, latest first. -/
structure CacheRun (C K V E : Type) where
  cache : LRUSizeCache K V E
  calls : GetterCalls K V E
  done : List WaitGroup
  waiting : List (K × WaitGroup)
  locks : List (C × K)
  returned : List (K × Got V E)

namespace CacheRun

variable {C K V E : Type} [DecidableEq K]

/-- The locks that clients hold on `key`. -/
def locksHeld (r : CacheRun C K V E) (key : K) : Nat := r.locks.countP fun held => held.2 = key

/-- The `Get` calls for `key` in progress. -/
def getsInProgress (r : CacheRun C K V E) (key : K) : Nat :=
  r.waiting.countP fun get => get.1 = key

def pins (r : CacheRun C K V E) (key : K) : Nat := r.locksHeld key + r.getsInProgress key

/-- `LockCount` of `key`, and 0 where there is no item. -/
def lockCount (r : CacheRun C K V E) (key : K) : Nat :=
  ((r.cache.valueHolders.get? key).map ValHolder.lockCount).getD 0

/-- A `Get` wakes up once its wait group is done, a lock is returned by the client that holds it, and
only a getter call in progress returns. -/
def enabled (r : CacheRun C K V E) : CacheStep C K V E → Prop
  | .get _ | .lock _ _ => True
  | .wake key group => (key, group) ∈ r.waiting ∧ group ∈ r.done
  | .unlock client key => (client, key) ∈ r.locks
  | .load call _ _ _ => ∃ key, r.calls.running.get? call = some key

def exec [DecidableEq C] (r : CacheRun C K V E) : CacheStep C K V E → Except CachePanic (CacheRun C K V E)
  | .get key =>
    let calls := r.calls.request r.cache key
    match r.cache.get key r.calls.next with
    | (cache, .inl got) =>
      .ok { r with cache := cache, calls := calls, returned := (key, got) :: r.returned }
    | (cache, .inr group) =>
      .ok { r with cache := cache, calls := calls, waiting := (key, group) :: r.waiting }
  | .wake key group => do
    let (cache, got) ← r.cache.wake key
    return { r with
      cache := cache
      waiting := r.waiting.erase (key, group)
      returned := (key, got) :: r.returned }
  | .lock client key =>
    .ok { r with
      cache := r.cache.lock key r.calls.next
      calls := r.calls.request r.cache key
      locks := (client, key) :: r.locks }
  | .unlock client key => do
    let (cache, _) ← r.cache.unlock key
    return { r with cache := cache, locks := r.locks.erase (client, key) }
  | .load call value err size =>
    match r.calls.running.get? call with
    | none => .ok r
    | some key => do
      let (cache, group) ← r.cache.loadAbsentValue key value err size
      return { r with
        cache := cache
        calls := r.calls.finish call (value, err)
        done := group :: r.done }

/-- The runs of a new cache. -/
def machine [DecidableEq C] : Machine (CacheRun C K V E) (CacheStep C K V E) CachePanic where
  init r := ∃ sizeBound remover, r = ⟨.new sizeBound remover, .new, [], [], [], []⟩
  enabled := enabled
  exec := exec

end CacheRun

/-! ### The cache and the getter calls -/

/-- The items, the getter calls and the number of pins of each key agree. -/
structure Tracked {K V E : Type} [DecidableEq K] (c : LRUSizeCache K V E) (calls : GetterCalls K V E)
    (pins : K → Nat) : Prop where
  wellFormed : c.WellFormed
  absent : ∀ key, c.valueHolders.get? key = none → pins key = 0
  counted : ∀ key holder, c.valueHolders.get? key = some holder → holder.lockCount = pins key
  loading : ∀ key holder call, c.valueHolders.get? key = some holder →
    holder.loadingStatus = some call →
      calls.latest.get? key = some call ∧ calls.running.get? call = some key
  loaded : ∀ key holder, c.valueHolders.get? key = some holder → holder.loadingStatus = none →
    ∃ call, calls.latest.get? key = some call ∧
      calls.results.get? call = some (holder.value, holder.error)
  running : ∀ call key, calls.running.get? call = some key →
    ∃ holder, c.valueHolders.get? key = some holder ∧ holder.loadingStatus = some call
  pending : ∀ call key, calls.running.get? call = some key →
    call < calls.next ∧ calls.results.get? call = none
  bounded : ∀ call got, calls.results.get? call = some got → call < calls.next

namespace Tracked

variable {K V E : Type} [DecidableEq K] {c c' : LRUSizeCache K V E} {calls : GetterCalls K V E}
  {pins pins' : K → Nat} {key : K} {holder : ValHolder V E}

theorem new (sizeBound : UInt64) (remover : Bool) :
    Tracked (.new sizeBound remover : LRUSizeCache K V E) .new fun _ => 0 where
  wellFormed := LRUSizeCache.wellFormed_new sizeBound remover
  absent _ _ := rfl
  counted _ _ h := nomatch h
  loading _ _ _ h := nomatch h
  loaded _ _ h := nomatch h
  running _ _ h := nomatch h
  pending _ _ h := nomatch h
  bounded _ _ h := nomatch h

theorem of_pins (h : Tracked c calls pins) (heq : ∀ a, pins' a = pins a) :
    Tracked c calls pins' :=
  funext heq ▸ h

/-- A pinned key has an item. -/
theorem present (h : Tracked c calls pins) (hpin : 0 < pins key) :
    ∃ holder, c.valueHolders.get? key = some holder ∧ 0 < holder.lockCount := by
  cases hget : c.valueHolders.get? key with
  | none =>
    have hzero := h.absent key hget
    omega
  | some holder => exact ⟨holder, rfl, (h.counted key holder hget).symm ▸ hpin⟩

/-- The getter call of a pinned key. -/
theorem call (h : Tracked c calls pins) (hpin : 0 < pins key) :
    ∃ call, calls.latest.get? key = some call := by
  obtain ⟨holder, hget, -⟩ := h.present hpin
  cases hl : holder.loadingStatus with
  | some call => exact ⟨call, (h.loading key holder call hget hl).1⟩
  | none =>
    obtain ⟨call, hcall, -⟩ := h.loaded key holder hget hl
    exact ⟨call, hcall⟩

/-- The lock count of one item changes with its pins. -/
theorem recount (h : Tracked c calls pins) (hget : c.valueHolders.get? key = some holder) {n : Nat}
    {position : Bool} (hc' : c'.WellFormed)
    (hset : c'.valueHolders =
      c.valueHolders.set key { holder with lockCount := n, listPosition := position })
    (hpins : ∀ a, pins' a = if a = key then n else pins a) : Tracked c' calls pins' := by
  have hcase : ∀ a v, c'.valueHolders.get? a = some v →
      (a = key ∧ v = { holder with lockCount := n, listPosition := position }) ∨
        (a ≠ key ∧ c.valueHolders.get? a = some v) := by
    intro a v ha
    rw [hset] at ha
    exact GoMap.of_get?_set ha
  refine ⟨hc', fun a ha => ?_, fun a v ha => ?_, fun a v call ha hl => ?_, fun a v ha hl => ?_,
    fun call a hrun => ?_, h.pending, h.bounded⟩
  · rw [hset] at ha
    obtain ⟨hkey, hold⟩ := GoMap.of_get?_set_none ha
    rw [hpins, if_neg hkey, h.absent a hold]
  · rw [hpins]
    rcases hcase a v ha with ⟨rfl, rfl⟩ | ⟨hne, ha⟩
    · simp
    · rw [if_neg hne, h.counted a v ha]
  · rcases hcase a v ha with ⟨rfl, rfl⟩ | ⟨-, ha⟩
    · exact h.loading a holder call hget hl
    · exact h.loading a v call ha hl
  · rcases hcase a v ha with ⟨rfl, rfl⟩ | ⟨-, ha⟩
    · exact h.loaded a holder hget hl
    · exact h.loaded a v ha hl
  · obtain ⟨v, hv, hl⟩ := h.running call a hrun
    by_cases hkey : a = key
    · subst hkey
      obtain rfl := Option.some.inj (hget.symm.trans hv)
      exact ⟨{ holder with lockCount := n, listPosition := position },
        by rw [hset, GoMap.get?_set_self], hl⟩
    · exact ⟨v, by rw [hset, GoMap.get?_set_ne _ _ hkey, hv], hl⟩

theorem removes (h : Tracked c calls pins) (hr : c.Removes c') : Tracked c' calls pins := by
  have hc' := h.wellFormed.removes hr
  obtain ⟨removed, v, hget, hzero, hpos, rfl⟩ := hr
  refine ⟨hc', fun a ha => ?_, fun a w ha => ?_, fun a w call ha => ?_, fun a w ha => ?_,
    fun call a hrun => ?_, h.pending, h.bounded⟩
  · by_cases hkey : a = removed
    · rw [hkey, ← h.counted removed v hget, hzero]
    · exact h.absent a ((GoMap.get?_delete_ne _ hkey).symm.trans ha)
  · exact h.counted a w (GoMap.of_get?_delete ha).2
  · exact h.loading a w call (GoMap.of_get?_delete ha).2
  · exact h.loaded a w (GoMap.of_get?_delete ha).2
  · obtain ⟨w, hw, hl⟩ := h.running call a hrun
    have hne : a ≠ removed := by
      rintro rfl
      obtain rfl := Option.some.inj (hget.symm.trans hw)
      have hnone := (h.wellFormed.loaded a v hget).1 hpos
      rw [hnone] at hl
      cases hl
    exact ⟨w, (GoMap.get?_delete_ne _ hne).trans hw, hl⟩

theorem removesAll (h : Tracked c calls pins) (hr : c.RemovesAll c') : Tracked c' calls pins := by
  induction hr with
  | refl => exact h
  | tail _ hr ih => exact ih.removes hr

/-- `lockAndGetHolder` adds a pin. -/
theorem lockAndGetHolder (h : Tracked c calls pins) (key : K)
    (hpins : ∀ a, pins' a = if a = key then pins key + 1 else pins a) :
    Tracked (c.lockAndGetHolder key calls.next).1 (calls.request c key) pins' := by
  have hc' := h.wellFormed.lockAndGetHolder key calls.next
  cases hget : c.valueHolders.get? key with
  | some holder =>
    have heq : (c.lockAndGetHolder key calls.next).1.valueHolders =
        c.valueHolders.set key { holder with lockCount := holder.lockCount + 1 } := by
      simp [LRUSizeCache.lockAndGetHolder, hget]
    have hcalls : calls.request c key = calls := by simp [GetterCalls.request, hget]
    rw [hcalls]
    refine h.recount hget hc' heq fun a => ?_
    rw [hpins, h.counted key holder hget]
  | none =>
    have heq : (c.lockAndGetHolder key calls.next).1.valueHolders =
        c.valueHolders.set key
          { value := none, error := none, lockCount := 1, size := 0
            loadingStatus := some calls.next, listPosition := false } := by
      simp [LRUSizeCache.lockAndGetHolder, hget]
    have hcalls : calls.request c key =
        { calls with
          next := calls.next + 1
          running := calls.running.set calls.next key
          latest := calls.latest.set key calls.next } := by
      simp [GetterCalls.request, hget]
    have hcase : ∀ a v, (c.lockAndGetHolder key calls.next).1.valueHolders.get? a = some v →
        (a = key ∧ v = ⟨none, none, 1, 0, some calls.next, false⟩) ∨
          (a ≠ key ∧ c.valueHolders.get? a = some v) := by
      intro a v ha
      rw [heq] at ha
      exact GoMap.of_get?_set ha
    rw [hcalls]
    refine ⟨hc', fun a ha => ?_, fun a v ha => ?_, fun a v call ha hl => ?_, fun a v ha hl => ?_,
      fun call a hrun => ?_, fun call a hrun => ?_, fun call got hres => ?_⟩
    · rw [heq] at ha
      obtain ⟨hkey, hold⟩ := GoMap.of_get?_set_none ha
      rw [hpins, if_neg hkey, h.absent a hold]
    · rw [hpins]
      rcases hcase a v ha with ⟨rfl, rfl⟩ | ⟨hne, ha⟩
      · simp [h.absent a hget]
      · rw [if_neg hne, h.counted a v ha]
    · rcases hcase a v ha with ⟨rfl, rfl⟩ | ⟨hne, ha⟩
      · obtain rfl := Option.some.inj hl
        simp
      · obtain ⟨hlatest, hrunning⟩ := h.loading a v call ha hl
        have hlt := (h.pending call a hrunning).1
        exact ⟨(GoMap.get?_set_ne _ _ hne).trans hlatest,
          (GoMap.get?_set_ne _ _ (Nat.ne_of_lt hlt)).trans hrunning⟩
    · rcases hcase a v ha with ⟨rfl, rfl⟩ | ⟨hne, ha⟩
      · cases hl
      · obtain ⟨call, hlatest, hres⟩ := h.loaded a v ha hl
        exact ⟨call, (GoMap.get?_set_ne _ _ hne).trans hlatest, hres⟩
    · rcases GoMap.of_get?_set hrun with ⟨hcall, rfl⟩ | ⟨-, hrun⟩
      · exact ⟨_, by rw [heq, GoMap.get?_set_self], by rw [hcall]⟩
      · obtain ⟨v, hv, hl⟩ := h.running call a hrun
        have hne : a ≠ key := fun hkey => by rw [hkey, hget] at hv; cases hv
        exact ⟨v, by rw [heq, GoMap.get?_set_ne _ _ hne, hv], hl⟩
    · rcases GoMap.of_get?_set hrun with ⟨hcall, -⟩ | ⟨-, hrun⟩
      · refine ⟨hcall ▸ Nat.lt_succ_self _, ?_⟩
        cases hres : calls.results.get? call with
        | none => rfl
        | some got =>
          have hlt := h.bounded call got hres
          omega
      · obtain ⟨hlt, hres⟩ := h.pending call a hrun
        exact ⟨Nat.lt_succ_of_lt hlt, hres⟩
    · exact Nat.lt_succ_of_lt (h.bounded call got hres)

/-- The latest call for a pinned key stays. -/
theorem request_latest (h : Tracked c calls pins) {a : K} (hpin : 0 < pins a) :
    (calls.request c key).latest.get? a = calls.latest.get? a := by
  unfold GetterCalls.request
  split
  · rfl
  · next hget =>
    have hne : a ≠ key := by
      rintro rfl
      have hzero := h.absent a hget
      omega
    exact GoMap.get?_set_ne _ _ hne

/-- A loaded item is used, with a new number of pins. -/
theorem itemUsed (h : Tracked c calls pins) (hget : c.valueHolders.get? key = some holder)
    (hloaded : holder.loadingStatus = none) (n : Nat)
    (hpins : ∀ a, pins' a = if a = key then n else pins a) :
    Tracked (c.itemUsed key { holder with lockCount := n }) calls pins' := by
  have hpos : holder.listPosition = true ↔ key ∈ c.recentRank := by
    rw [h.wellFormed.ranked key, hget]
    simp
  exact h.recount hget (h.wellFormed.itemUsed hpos hloaded) LRUSizeCache.itemUsed_valueHolders hpins

/-- The end of a getter call, before the removals. -/
theorem finish (h : Tracked c calls pins) {call : Nat} (hget : c.valueHolders.get? key = some holder)
    (hloading : holder.loadingStatus = some call) (value : Option V) (err : Option E)
    (size totalSize : UInt64) :
    Tracked
      ({ c with totalSize := totalSize }.itemUsed key
        (LRUSizeCache.loadedItem holder value err size))
      (calls.finish call (value, err)) pins := by
  obtain ⟨hlatest, hrunning⟩ := h.loading key holder call hget hloading
  have hnew := (h.pending call key hrunning).2
  have hcase : ∀ a v, (({ c with totalSize := totalSize }.itemUsed key
      (LRUSizeCache.loadedItem holder value err size)).valueHolders.get? a = some v) →
      (a = key ∧
        v = { LRUSizeCache.loadedItem holder value err size with listPosition := true }) ∨
          (a ≠ key ∧ c.valueHolders.get? a = some v) := by
    intro a v ha
    rw [LRUSizeCache.itemUsed_valueHolders] at ha
    exact GoMap.of_get?_set ha
  -- the other calls in progress belong to other keys
  have hother : ∀ a v other, a ≠ key → c.valueHolders.get? a = some v →
      v.loadingStatus = some other → other ≠ call := by
    rintro a v other hne ha hl rfl
    have hrun := (h.loading a v other ha hl).2
    exact hne (Option.some.inj (hrun.symm.trans hrunning))
  refine ⟨h.wellFormed.load hget value err size totalSize, fun a ha => ?_, fun a v ha => ?_,
    fun a v other ha hl => ?_, fun a v ha hl => ?_, fun other a hrun => ?_, fun other a hrun => ?_,
    fun other got hres => ?_⟩
  · rw [LRUSizeCache.itemUsed_valueHolders] at ha
    exact h.absent a (GoMap.of_get?_set_none ha).2
  · rcases hcase a v ha with ⟨rfl, rfl⟩ | ⟨-, ha⟩
    · exact h.counted a holder hget
    · exact h.counted a v ha
  · rcases hcase a v ha with ⟨rfl, rfl⟩ | ⟨hne, ha⟩
    · cases hl
    · obtain ⟨hl', hr'⟩ := h.loading a v other ha hl
      exact ⟨hl', (GoMap.get?_delete_ne _ (hother a v other hne ha hl)).trans hr'⟩
  · rcases hcase a v ha with ⟨rfl, rfl⟩ | ⟨-, ha⟩
    · exact ⟨call, hlatest, GoMap.get?_set_self _ _ _⟩
    · obtain ⟨other, hl', hres⟩ := h.loaded a v ha hl
      refine ⟨other, hl', (GoMap.get?_set_ne _ _ ?_).trans hres⟩
      rintro rfl
      rw [hnew] at hres
      cases hres
  · obtain ⟨hne, hrun⟩ := GoMap.of_get?_delete hrun
    obtain ⟨v, hv, hl⟩ := h.running other a hrun
    have hkey : a ≠ key := by
      rintro rfl
      obtain rfl := Option.some.inj (hget.symm.trans hv)
      exact hne (Option.some.inj (hl.symm.trans hloading))
    refine ⟨v, ?_, hl⟩
    rw [LRUSizeCache.itemUsed_valueHolders, GoMap.get?_set_ne _ _ hkey]
    exact hv
  · obtain ⟨hne, hrun⟩ := GoMap.of_get?_delete hrun
    obtain ⟨hlt, hres⟩ := h.pending other a hrun
    exact ⟨hlt, (GoMap.get?_set_ne _ _ hne).trans hres⟩
  · rcases GoMap.of_get?_set hres with ⟨hcall, -⟩ | ⟨-, hres⟩
    · exact hcall ▸ (h.pending call key hrunning).1
    · exact h.bounded other got hres

end Tracked

namespace CacheRun

variable {C K V E : Type} [DecidableEq K] {r r' : CacheRun C K V E}

/-- The invariant of the runs. -/
structure Inv (r : CacheRun C K V E) : Prop where
  tracked : Tracked r.cache r.calls r.pins
  waiting : ∀ key group, (key, group) ∈ r.waiting → r.calls.latest.get? key = some group
  done : ∀ group ∈ r.done, ∃ got, r.calls.results.get? group = some got

/-- What a step does for the keys that are pinned before it. -/
structure Pinned (r r' : CacheRun C K V E) : Prop where
  results : ∀ call got, r.calls.results.get? call = some got →
    r'.calls.results.get? call = some got
  latest : ∀ key, 0 < r.pins key → r'.calls.latest.get? key = r.calls.latest.get? key
  removals : ∀ key, 0 < r.pins key → 0 < r'.pins key →
    r'.cache.removalsOf key = r.cache.removalsOf key
  remover : r'.cache.remover = r.cache.remover
  returned : ∃ new, r'.returned = new ++ r.returned ∧ ∀ key got, (key, got) ∈ new →
    0 < r.pins key →
      ∃ call, r.calls.latest.get? key = some call ∧ r'.calls.results.get? call = some got

/-- What the `Get` calls for a pinned key return stays with its getter call. -/
theorem Pinned.returned_of {s : CacheRun C K V E} (h : s.Pinned r') {key : K} {call : Nat}
    (hcall : s.calls.latest.get? key = some call)
    (hs : ∃ new, s.returned = new ++ r.returned ∧
      ∀ got, (key, got) ∈ new → s.calls.results.get? call = some got) (hpin : 0 < s.pins key) :
    ∃ new, r'.returned = new ++ r.returned ∧
      ∀ got, (key, got) ∈ new → r'.calls.results.get? call = some got := by
  obtain ⟨old, hold, hres⟩ := hs
  obtain ⟨new, hnew, hgot⟩ := h.returned
  refine ⟨new ++ old, by rw [hnew, hold, List.append_assoc], fun got hmem => ?_⟩
  rcases List.mem_append.1 hmem with hmem | hmem
  · obtain ⟨call', hcall', hres'⟩ := hgot key got hmem hpin
    obtain rfl := Option.some.inj (hcall'.symm.trans hcall)
    exact hres'
  · exact h.results call got (hres got hmem)

theorem Inv.init (sizeBound : UInt64) (remover : Bool) :
    Inv (⟨.new sizeBound remover, .new, [], [], [], []⟩ : CacheRun C K V E) where
  tracked := .new sizeBound remover
  waiting _ _ h := nomatch h
  done _ h := nomatch h

theorem getsInProgress_pos {key : K} {group : WaitGroup} (h : (key, group) ∈ r.waiting) :
    0 < r.pins key := by
  have hpos : 0 < r.getsInProgress key := List.countP_pos_iff.2 ⟨_, h, by simp⟩
  exact Nat.lt_of_lt_of_le hpos (Nat.le_add_left _ _)

theorem locksHeld_pos {client : C} {key : K} (h : (client, key) ∈ r.locks) : 0 < r.pins key := by
  have hpos : 0 < r.locksHeld key := List.countP_pos_iff.2 ⟨_, h, by simp⟩
  exact Nat.lt_of_lt_of_le hpos (Nat.le_add_right _ _)

/-- The item of a `Get` that may wake up is loaded. -/
theorem Inv.woken (h : r.Inv) {key : K} {group : WaitGroup} (hwait : (key, group) ∈ r.waiting)
    (hdone : group ∈ r.done) : ∃ holder, r.cache.valueHolders.get? key = some holder ∧
      holder.loadingStatus = none := by
  obtain ⟨holder, hget, -⟩ := h.tracked.present (getsInProgress_pos hwait)
  have hlatest := h.waiting key group hwait
  obtain ⟨got, hgot⟩ := h.done group hdone
  have hl : holder.loadingStatus = none := by
    cases hl : holder.loadingStatus with
    | none => rfl
    | some other =>
      obtain ⟨hother, hrun⟩ := h.tracked.loading key holder other hget hl
      obtain rfl := Option.some.inj (hother.symm.trans hlatest)
      have hnone := (h.tracked.pending other key hrun).2
      rw [hgot] at hnone
      cases hnone
  exact ⟨holder, hget, hl⟩

theorem Inv.lockCount_eq (h : r.Inv) (key : K) :
    r.lockCount key = r.locksHeld key + r.getsInProgress key := by
  unfold lockCount
  cases hget : r.cache.valueHolders.get? key with
  | none => exact (h.tracked.absent key hget).symm
  | some holder => exact h.tracked.counted key holder hget

/-- The start of `Get` and `Lock`: the holder of the key, with one more pin. -/
theorem Inv.holderLocked (h : r.Inv) (key : K) {pins' : K → Nat}
    (hpins : ∀ a, pins' a = if a = key then r.pins key + 1 else r.pins a) :
    ∃ c holder, r.cache.lockAndGetHolder key r.calls.next = (c, holder) ∧
      Tracked c (r.calls.request r.cache key) pins' ∧ c.valueHolders.get? key = some holder ∧
      c.removals = r.cache.removals ∧ c.remover = r.cache.remover :=
  ⟨_, _, rfl, h.tracked.lockAndGetHolder key hpins,
    LRUSizeCache.lockAndGetHolder_get? r.cache key r.calls.next,
    LRUSizeCache.lockAndGetHolder_removals r.cache key r.calls.next,
    LRUSizeCache.lockAndGetHolder_remover r.cache key r.calls.next⟩

section Steps

variable [DecidableEq C]

theorem Inv.get (h : r.Inv) (key : K) : ∃ r', r.exec (.get key) = .ok r' ∧ r'.Inv ∧ r.Pinned r' := by
  obtain ⟨c, holder, hc, ht, hget, hremovals, hremover⟩ := h.holderLocked key fun _ => rfl
  have hlatest : ∀ a, 0 < r.pins a →
      (r.calls.request r.cache key).latest.get? a = r.calls.latest.get? a :=
    fun a ha => h.tracked.request_latest ha
  have hwaiting : ∀ a group, (a, group) ∈ r.waiting →
      (r.calls.request r.cache key).latest.get? a = some group := fun a group hmem =>
    (hlatest a (getsInProgress_pos hmem)).trans (h.waiting a group hmem)
  cases hl : holder.loadingStatus with
  | none =>
    have hexec : r.exec (.get key) = .ok { r with
        cache := c.itemUsed key { holder with lockCount := holder.lockCount - 1 }
        calls := r.calls.request r.cache key
        returned := (key, (holder.value, holder.error)) :: r.returned } := by
      simp [exec, LRUSizeCache.get, LRUSizeCache.finishGet, hc, hl]
    refine ⟨_, hexec, ⟨?_, hwaiting, ?_⟩, ?_, hlatest, ?_, ?_, ?_⟩
    · refine ht.itemUsed hget hl _ fun a => ?_
      have hcount := ht.counted key holder hget
      by_cases ha : a = key
      · subst ha
        rw [hcount, if_pos rfl, if_pos rfl]
        rfl
      · rw [if_neg ha, if_neg ha]
        rfl
    · simpa using h.done
    · simp
    · intro a _ _
      simp [LRUSizeCache.removalsOf, hremovals]
    · simpa using hremover
    · refine ⟨[(key, (holder.value, holder.error))], rfl, ?_⟩
      rintro a got hmem hpin
      obtain ⟨rfl, rfl⟩ := Prod.mk.inj (List.mem_singleton.1 hmem)
      obtain ⟨call, hcall, hres⟩ := ht.loaded a holder hget hl
      exact ⟨call, (hlatest a hpin).symm.trans hcall, hres⟩
  | some group =>
    have hexec : r.exec (.get key) = .ok { r with
        cache := c
        calls := r.calls.request r.cache key
        waiting := (key, group) :: r.waiting } := by
      simp [exec, LRUSizeCache.get, hc, hl]
    refine ⟨_, hexec, ⟨?_, ?_, ?_⟩, ?_, hlatest, ?_, hremover,
      ⟨[], rfl, fun _ _ hmem => by cases hmem⟩⟩
    · refine ht.of_pins fun a => ?_
      by_cases ha : a = key
      · subst ha
        rw [if_pos rfl]
        simp [pins, locksHeld, getsInProgress]
        omega
      · rw [if_neg ha]
        simp [pins, locksHeld, getsInProgress, Ne.symm ha]
    · rintro a other hmem
      rcases List.mem_cons.1 hmem with heq | hmem
      · obtain ⟨rfl, rfl⟩ := Prod.mk.inj heq
        exact (ht.loading a holder other hget hl).1
      · exact hwaiting a other hmem
    · simpa using h.done
    · simp
    · intro a _ _
      simp [LRUSizeCache.removalsOf, hremovals]

theorem Inv.wake (h : r.Inv) {key : K} {group : WaitGroup} (hwait : (key, group) ∈ r.waiting)
    (hdone : group ∈ r.done) :
    ∃ r', r.exec (.wake key group) = .ok r' ∧ r'.Inv ∧ r.Pinned r' := by
  obtain ⟨holder, hget, hl⟩ := h.woken hwait hdone
  have hexec : r.exec (.wake key group) = .ok { r with
      cache := r.cache.itemUsed key { holder with lockCount := holder.lockCount - 1 }
      waiting := r.waiting.erase (key, group)
      returned := (key, (holder.value, holder.error)) :: r.returned } := by
    simp [exec, LRUSizeCache.wake, hget, LRUSizeCache.finishGet]
  refine ⟨_, hexec, ⟨?_, fun a other hmem => ?_, h.done⟩, fun _ _ hres => hres, fun _ _ => rfl, ?_,
    LRUSizeCache.itemUsed_remover, ?_⟩
  · refine h.tracked.itemUsed hget hl _ fun a => ?_
    have hcount := h.tracked.counted key holder hget
    have hpos : 0 < r.getsInProgress key := List.countP_pos_iff.2 ⟨_, hwait, by simp⟩
    by_cases ha : a = key
    · subst ha
      rw [if_pos rfl, hcount]
      simp only [pins, locksHeld, getsInProgress] at hpos ⊢
      rw [List.countP_erase, if_pos ⟨hwait, by simp⟩]
      omega
    · rw [if_neg ha]
      simp [pins, locksHeld, getsInProgress, List.countP_erase, Ne.symm ha]
  · exact h.waiting a other (List.mem_of_mem_erase hmem)
  · intro a _ _
    simp [LRUSizeCache.removalsOf]
  · refine ⟨[(key, (holder.value, holder.error))], rfl, ?_⟩
    rintro a got' hmem -
    obtain ⟨rfl, rfl⟩ := Prod.mk.inj (List.mem_singleton.1 hmem)
    exact h.tracked.loaded a holder hget hl

theorem Inv.lock (h : r.Inv) (client : C) (key : K) :
    ∃ r', r.exec (.lock client key) = .ok r' ∧ r'.Inv ∧ r.Pinned r' := by
  have hpins : ∀ a, pins { r with
      cache := r.cache.lock key r.calls.next
      calls := r.calls.request r.cache key
      locks := (client, key) :: r.locks } a = if a = key then r.pins key + 1 else r.pins a := by
    intro a
    by_cases ha : a = key
    · subst ha
      simp [pins, locksHeld, getsInProgress]
      omega
    · simp [pins, locksHeld, getsInProgress, Ne.symm ha, ha]
  obtain ⟨c, holder, hc, ht, hget, hremovals, hremover⟩ := h.holderLocked key hpins
  have hlatest : ∀ a, 0 < r.pins a →
      (r.calls.request r.cache key).latest.get? a = r.calls.latest.get? a :=
    fun a ha => h.tracked.request_latest ha
  refine ⟨_, rfl, ⟨?_, fun a group hmem => ?_, ?_⟩, ?_, hlatest, ?_, ?_,
    ⟨[], rfl, fun _ _ hmem => by cases hmem⟩⟩
  · simp only [LRUSizeCache.lock, hc]
    split
    · next hl =>
      refine ht.itemUsed hget hl _ fun a => ?_
      split
      · next ha =>
        rw [ha, ht.counted key holder hget]
        rfl
      · rfl
    · exact ht
  · exact (hlatest a (getsInProgress_pos hmem)).trans (h.waiting a group hmem)
  · simpa using h.done
  · simp
  · intro a _ _
    simp only [LRUSizeCache.lock, hc]
    split <;> simp [LRUSizeCache.removalsOf, hremovals]
  · simp only [LRUSizeCache.lock, hc]
    split <;> simp [hremover]

/-- The cache of an `Unlock` before the removals. -/
theorem Inv.unlocked (h : r.Inv) {client : C} {key : K} (hlock : (client, key) ∈ r.locks) :
    ∃ holder, r.cache.valueHolders.get? key = some holder ∧ 0 < holder.lockCount ∧
      Tracked { r.cache with
          valueHolders :=
            r.cache.valueHolders.set key { holder with lockCount := holder.lockCount - 1 } }
        r.calls (pins { r with locks := r.locks.erase (client, key) }) := by
  obtain ⟨holder, hget, hcount⟩ := h.tracked.present (locksHeld_pos hlock)
  have hpos : 0 < r.locksHeld key := List.countP_pos_iff.2 ⟨_, hlock, by simp⟩
  have hpins : ∀ a, pins { r with locks := r.locks.erase (client, key) } a =
      if a = key then holder.lockCount - 1 else r.pins a := by
    intro a
    by_cases ha : a = key
    · subst ha
      rw [if_pos rfl, h.tracked.counted a holder hget]
      simp only [pins, locksHeld, getsInProgress] at hpos ⊢
      rw [List.countP_erase, if_pos ⟨hlock, by simp⟩]
      omega
    · rw [if_neg ha]
      simp [pins, locksHeld, getsInProgress, List.countP_erase, Ne.symm ha]
  exact ⟨holder, hget, hcount,
    h.tracked.recount hget (h.tracked.wellFormed.setLockCount hget _) rfl hpins⟩

theorem Inv.unlock (h : r.Inv) {client : C} {key : K} (hlock : (client, key) ∈ r.locks) :
    ∃ r', r.exec (.unlock client key) = .ok r' ∧ r'.Inv ∧ r.Pinned r' := by
  obtain ⟨holder, hget, hcount, ht⟩ := h.unlocked hlock
  obtain ⟨c, hc, hall, -⟩ := ht.wellFormed.removeItemsIfNeeded
  have hexec : r.exec (.unlock client key) =
      .ok { r with cache := c, locks := r.locks.erase (client, key) } := by
    simp [exec, LRUSizeCache.unlock, hget, hcount, hc]
  refine ⟨_, hexec, ⟨ht.removesAll hall, h.waiting, h.done⟩, fun _ _ hres => hres, fun _ _ => rfl, ?_,
    (LRUSizeCache.remover_of_removesAll hall).trans rfl, ⟨[], rfl, fun _ _ hmem => by cases hmem⟩⟩
  intro a _ hpin
  obtain ⟨v, hv, hlocked⟩ := ht.present hpin
  exact (LRUSizeCache.RemovesAll.locked hall hv hlocked).2

theorem Inv.load (h : r.Inv) {call : Nat} {key : K} (hrun : r.calls.running.get? call = some key)
    (value : Option V) (err : Option E) (size : UInt64) :
    ∃ r', r.exec (.load call value err size) = .ok r' ∧ r'.Inv ∧ r.Pinned r' := by
  obtain ⟨holder, hget, hl⟩ := h.tracked.running call key hrun
  have ht := h.tracked.finish hget hl value err size (r.cache.totalSize + size)
  obtain ⟨c, hc, hall, -⟩ := h.tracked.wellFormed.loadAbsentValue hget hl value err size
  have hexec : r.exec (.load call value err size) = .ok { r with
      cache := c, calls := r.calls.finish call (value, err), done := call :: r.done } := by
    simp [exec, hrun, hc]
  have hresults : ∀ other got, r.calls.results.get? other = some got →
      (r.calls.finish call (value, err)).results.get? other = some got := by
    intro other got hres
    refine (GoMap.get?_set_ne _ _ ?_).trans hres
    rintro rfl
    rw [(h.tracked.pending other key hrun).2] at hres
    cases hres
  refine ⟨_, hexec, ⟨ht.removesAll hall, h.waiting, fun group hmem => ?_⟩, hresults, fun _ _ => rfl, ?_,
    (LRUSizeCache.remover_of_removesAll hall).trans LRUSizeCache.itemUsed_remover,
    ⟨[], rfl, fun _ _ hmem => by cases hmem⟩⟩
  · rcases List.mem_cons.1 hmem with rfl | hmem
    · exact ⟨_, GoMap.get?_set_self _ _ _⟩
    · obtain ⟨got, hgot⟩ := h.done group hmem
      exact ⟨got, hresults group got hgot⟩
  · intro a hpin _
    obtain ⟨v, hv, hlocked⟩ := ht.present hpin
    refine (LRUSizeCache.RemovesAll.locked hall hv hlocked).2.trans ?_
    simp [LRUSizeCache.removalsOf]

/-- Every step succeeds and keeps the invariant. -/
theorem Inv.step (h : r.Inv) (a : CacheStep C K V E) (hen : r.enabled a) :
    ∃ r', r.exec a = .ok r' ∧ r'.Inv ∧ r.Pinned r' := by
  cases a with
  | get key => exact h.get key
  | wake key group => exact h.wake hen.1 hen.2
  | lock client key => exact h.lock client key
  | unlock client key => exact h.unlock hen
  | load call value err size =>
    obtain ⟨key, hrun⟩ := hen
    exact h.load hrun value err size

theorem Inv.of_reachable (h : machine.Reachable Machine.always r) : r.Inv :=
  h.invariant (fun _ hinit => by obtain ⟨sizeBound, remover, rfl⟩ := hinit; exact .init sizeBound remover)
    fun _ a _ hs _ hen hex => by
      obtain ⟨t, ht, hinv, -⟩ := hs.step a hen
      obtain rfl := Except.ok.inj (ht.symm.trans hex)
      exact hinv

end Steps

end CacheRun

end TestingSystem
