import TestingSystem.Cache.CacheRuns

/-!
# Locks and the bound of the cache

What a client holds is pinned: its item stays, and all `Get` calls for it return what one getter call
returned (`pinned_while_held`). The bound is kept up to the locks as long as no `Get` wakes up as the
last holder of an item while the total size is above the bound (`bounded_of_keepsBound`): `Get` does
not remove items at its end, other than `Unlock` and the end of a load.
-/

set_option autoImplicit false

namespace TestingSystem

namespace CacheRun

variable {C K V E : Type} [DecidableEq C] [DecidableEq K] {r r' : CacheRun C K V E}

/-- A run from `r` to `t` in which `key` is pinned all the time. -/
def StaysPinned (r : CacheRun C K V E) (key : K) (t : CacheRun C K V E) : Prop :=
  Relation.ReflTransGen
    (fun s t => 0 < s.pins key ∧ machine.StepWhen Machine.always s t ∧ 0 < t.pins key) r t

/-- What `r` keeps for a pinned key whose getter call is `call`: the item, the removals and the calls
of the remover, and every `Get` that has returned by the end of the next step has returned the result
of the call. -/
structure Keeps (r : CacheRun C K V E) (key : K) (call : Nat) (t : CacheRun C K V E) : Prop where
  present : ∃ holder, t.cache.valueHolders.get? key = some holder
  latest : t.calls.latest.get? key = some call
  removals : t.cache.removalsOf key = r.cache.removalsOf key
  removerCalls : t.cache.removerCallsOf key = r.cache.removerCallsOf key
  returned : ∀ t', machine.StepWhen Machine.always t t' → ∃ new, t'.returned = new ++ r.returned ∧
    ∀ got, (key, got) ∈ new → t'.calls.results.get? call = some got

theorem Inv.stepWhen (h : r.Inv) (hs : machine.StepWhen Machine.always r r') :
    r'.Inv ∧ r.Pinned r' := by
  obtain ⟨a, -, hen, hex⟩ := hs
  obtain ⟨t, ht, hinv, hpinned⟩ := h.step a hen
  obtain rfl := Except.ok.inj (ht.symm.trans hex)
  exact ⟨hinv, hpinned⟩

theorem StaysPinned.keeps (hinv : r.Inv) {key : K} {call : Nat} {t : CacheRun C K V E}
    (h : r.StaysPinned key t) (hpin : 0 < r.pins key)
    (hcall : r.calls.latest.get? key = some call) : r.Keeps key call t := by
  have hrun : t.Inv ∧ 0 < t.pins key ∧ t.calls.latest.get? key = some call ∧
      t.cache.removalsOf key = r.cache.removalsOf key ∧ t.cache.remover = r.cache.remover ∧
      ∃ new, t.returned = new ++ r.returned ∧
        ∀ got, (key, got) ∈ new → t.calls.results.get? call = some got := by
    induction h with
    | refl => exact ⟨hinv, hpin, hcall, rfl, rfl, [], rfl, fun _ hmem => nomatch hmem⟩
    | @tail s t _ hst ih =>
      obtain ⟨hs, -, hlatest, hremovals, hremover, hreturned⟩ := ih
      obtain ⟨hpin, hstep, hpin'⟩ := hst
      obtain ⟨ht, hpinned⟩ := hs.stepWhen hstep
      exact ⟨ht, hpin', (hpinned.latest key hpin).trans hlatest,
        (hpinned.removals key hpin hpin').trans hremovals, hpinned.remover.trans hremover,
        hpinned.returned_of hlatest hreturned hpin⟩
  obtain ⟨ht, hpin', hlatest, hremovals, hremover, hreturned⟩ := hrun
  refine ⟨?_, hlatest, hremovals, ?_, fun t' hstep => ?_⟩
  · obtain ⟨holder, hget, -⟩ := ht.tracked.present hpin'
    exact ⟨holder, hget⟩
  · unfold LRUSizeCache.removerCallsOf
    rw [hremovals, hremover]
  · exact (ht.stepWhen hstep).2.returned_of hlatest hreturned hpin'

/-- In every reachable state the lock counts are the locks and `Get` calls in progress, no step fails,
and what is pinned stays. -/
theorem pinned_while_held (h : machine.Reachable Machine.always r) :
    (∀ key, r.lockCount key = r.locksHeld key + r.getsInProgress key) ∧
      (∀ a, r.enabled a → ∃ r', r.exec a = .ok r') ∧
      ∀ key, 0 < r.locksHeld key + r.getsInProgress key →
        ∃ call, ∀ t, r.StaysPinned key t → r.Keeps key call t := by
  have hinv := Inv.of_reachable h
  refine ⟨hinv.lockCount_eq, fun a hen => ?_, fun key hpin => ?_⟩
  · obtain ⟨r', hr', -⟩ := hinv.step a hen
    exact ⟨r', hr'⟩
  · obtain ⟨call, hcall⟩ := hinv.tracked.call hpin
    exact ⟨call, fun t ht => ht.keeps hinv hpin hcall⟩

theorem pinned_while_held_oversized :
    ∃ r : CacheRun Nat Nat Nat String, r.returned = [(1, (some 7, none))] ∧ r.lockCount 1 = 1 ∧
      ∃ call, ∀ t, r.StaysPinned 1 t → r.Keeps 1 call t := by
  have hreach := Machine.Reachable.of_runs
    (machine : Machine (CacheRun Nat Nat Nat String) _ _) Machine.always
    [.lock 0 1, .get 1, .load 0 (some 7) none 10, .wake 1 0] (.of_init ⟨5, true, rfl⟩)
    ⟨trivial, trivial, _, rfl, trivial, trivial, _, rfl, trivial, ⟨1, rfl⟩, _, rfl,
      trivial, ⟨by decide, by decide⟩, _, rfl, rfl⟩
  obtain ⟨-, -, hkeep⟩ := pinned_while_held hreach
  exact ⟨_, rfl, rfl, hkeep 1 (by decide)⟩

/-! ### The bound -/

/-- No `Get` wakes up as the last one that holds its item while the total size is above the bound. -/
def keepsBound (r : CacheRun C K V E) : CacheStep C K V E → Prop
  | .wake key _ => r.lockCount key = 1 → r.cache.totalSize ≤ r.cache.sizeBound
  | _ => True

/-- A step that meets the condition keeps the bound. -/
theorem Inv.bounded (h : r.Inv) (hb : r.cache.Bounded) (a : CacheStep C K V E) (hen : r.enabled a)
    (hok : r.keepsBound a) (hex : r.exec a = .ok r') : r'.cache.Bounded := by
  cases a with
  | get key =>
    have hget := hb.get key r.calls.next
    simp only [exec] at hex
    rcases hc : r.cache.get key r.calls.next with ⟨c, got | group⟩ <;>
      simp only [hc, Except.ok.injEq] at hex hget <;> exact hex ▸ hget
  | wake key group =>
    obtain ⟨holder, hget, hcount⟩ := h.tracked.present (getsInProgress_pos hen.1)
    have hlock : r.lockCount key = holder.lockCount := by simp [lockCount, hget]
    simp only [exec, LRUSizeCache.wake, hget] at hex
    obtain rfl := Except.ok.inj hex
    refine hb.itemUsed hget ?_
    by_cases hone : holder.lockCount = 1
    · exact .inl (hok (hlock.trans hone))
    · exact .inr (by omega)
  | lock client key =>
    obtain rfl := Except.ok.inj hex
    exact hb.lock key r.calls.next
  | unlock client key =>
    obtain ⟨holder, hget, hcount⟩ := h.tracked.present (locksHeld_pos hen)
    have hwf := h.tracked.wellFormed.setLockCount hget (holder.lockCount - 1)
    obtain ⟨c, hc, -, hbound⟩ := hwf.removeItemsIfNeeded
    simp only [exec, LRUSizeCache.unlock, hget, gt_iff_lt, hcount, if_true, hc] at hex
    obtain rfl := Except.ok.inj hex
    exact hbound
  | load call value err size =>
    obtain ⟨key, hrun⟩ := hen
    obtain ⟨holder, hget, hl⟩ := h.tracked.running call key hrun
    obtain ⟨c, hc, -, hbound⟩ := h.tracked.wellFormed.loadAbsentValue hget hl value err size
    simp only [exec, hrun, hc] at hex
    obtain rfl := Except.ok.inj hex
    exact hbound

/-- A step that does not meet the condition leaves an unlocked item above the bound. -/
theorem Inv.not_bounded (h : r.Inv) {a : CacheStep C K V E} (hen : r.enabled a)
    (hok : ¬ r.keepsBound a) (hex : r.exec a = .ok r') : ¬ r'.cache.Bounded := by
  cases a with
  | wake key group =>
    obtain ⟨hone, habove⟩ := Classical.not_imp.1 hok
    obtain ⟨holder, hget, hl⟩ := h.woken hen.1 hen.2
    have hlock : r.lockCount key = holder.lockCount := by simp [lockCount, hget]
    simp only [exec, LRUSizeCache.wake, hget] at hex
    obtain rfl := Except.ok.inj hex
    rintro (hb | hb)
    · exact habove (by simpa [LRUSizeCache.finishGet] using hb)
    · have hpos := hb key { holder with lockCount := holder.lockCount - 1, listPosition := true }
        (by simp [LRUSizeCache.finishGet, LRUSizeCache.itemUsed_valueHolders]) hl
      have hlast : 0 < holder.lockCount - 1 := hpos
      omega
  | get | lock | unlock | load => exact absurd trivial hok

/-- In a run whose steps meet the condition the bound holds in every state reached, and a step that
does not meet it breaks the bound. -/
theorem bounded_of_keepsBound (h : machine.Reachable keepsBound r) :
    r.cache.Bounded ∧
      ∀ a r', r.enabled a → ¬ r.keepsBound a → r.exec a = .ok r' → ¬ r'.cache.Bounded := by
  have hinv : r.Inv ∧ r.cache.Bounded := by
    refine h.invariant (P := fun s => s.Inv ∧ s.cache.Bounded) ?_ fun s a t hs hok hen hex => ?_
    · rintro s ⟨sizeBound, remover, rfl⟩
      exact ⟨.init sizeBound remover, .inl UInt64.zero_le⟩
    · obtain ⟨u, hu, hinv, -⟩ := hs.1.step a hen
      obtain rfl := Except.ok.inj (hu.symm.trans hex)
      exact ⟨hinv, hs.1.bounded hs.2 a hen hok hex⟩
  exact ⟨hinv.2, fun _ _ hen hok hex => hinv.1.not_bounded hen hok hex⟩

theorem bounded_of_keepsBound_evicted :
    ∃ r : CacheRun Nat Nat Nat String, r.cache.recentRank = [2, 3] ∧ r.cache.Bounded := by
  have hreach := Machine.Reachable.of_runs
    (machine : Machine (CacheRun Nat Nat Nat String) _ _) keepsBound
    [.lock 0 1, .get 2, .load 0 (some 7) none 3, .load 1 none (some "absent") 2, .wake 2 1,
      .lock 0 2, .get 3, .load 2 (some 9) none 1, .unlock 0 1]
    (.of_init ⟨5, true, rfl⟩)
    ⟨trivial, trivial, _, rfl, trivial, trivial, _, rfl, trivial, ⟨1, rfl⟩, _, rfl,
      trivial, ⟨2, rfl⟩, _, rfl, fun _ => by decide, ⟨by decide, by decide⟩, _, rfl,
      trivial, trivial, _, rfl, trivial, trivial, _, rfl, trivial, ⟨3, rfl⟩, _, rfl,
      trivial, List.Mem.tail _ (List.Mem.head _), _, rfl, rfl⟩
  exact ⟨_, rfl, (bounded_of_keepsBound hreach).1⟩

/-- The only `Get` of an item larger than the bound leaves it in the cache. -/
theorem get_keeps_oversized :
    ∃ r : CacheRun Nat Nat Nat String, machine.Reachable Machine.always r ∧
      (∀ call, r.calls.running.get? call = none) ∧ r.waiting = [] ∧ ¬ r.cache.Bounded := by
  have hreach := Machine.Reachable.of_runs
    (machine : Machine (CacheRun Nat Nat Nat String) _ _) Machine.always
    [.get 1, .load 0 (some 7) none 10, .wake 1 0] (.of_init ⟨5, true, rfl⟩)
    ⟨trivial, trivial, _, rfl, trivial, ⟨1, rfl⟩, _, rfl,
      trivial, ⟨by decide, by decide⟩, _, rfl, rfl⟩
  refine ⟨_, hreach, (GoMap.len_eq_zero_iff _).1 rfl, rfl, ?_⟩
  rintro (hb | hb)
  · exact absurd hb (by decide)
  · exact absurd (hb 1 _ rfl rfl) (by decide)

end CacheRun

end TestingSystem
