import TestingSystem.Invoker.Storage
import TestingSystem.Lib.Outcome

/-!
# Resets of the storage

A job keeps the epoch that it read, and the epoch is part of every key. So the calls of a job for one
resource all go to one item, which its lock keeps in the cache, and the items of a new epoch are made
after the reset that began it (`resource_fresh`).
-/

set_option autoImplicit false

namespace TestingSystem

/-! ## Keys -/

/-- The type of the keys of a getter. -/
def CacheGetter.resource : CacheGetter → ResourceType
  | .source => .sourceCode
  | .binary => .compiledBinary
  | .checker => .checker
  | .interactor => .interactor
  | .testInput => .testInput
  | .testAnswer => .testAnswer

theorem CacheGetter.resource_injective {g g' : CacheGetter} (h : g.resource = g'.resource) :
    g = g' := by
  cases g <;> cases g' <;> first | rfl | cases h

section KeyGen

variable {epoch : Nat} {resource : ResourceType} {vals vals' : List Nat} {key : CacheKey}

theorem problemIDKeyGen_ok (h : problemIDKeyGen epoch resource vals = .ok key) :
    ∃ id, vals = [id] ∧ key = { epoch := epoch, resource := resource, problemID := id } := by
  unfold problemIDKeyGen at h
  split at h
  · exact ⟨_, rfl, (Except.ok.inj h).symm⟩
  · cases h

theorem submitKeyGen_ok (h : submitKeyGen epoch resource vals = .ok key) :
    ∃ id, vals = [id] ∧ key = { epoch := epoch, resource := resource, submitID := id } := by
  unfold submitKeyGen at h
  split at h
  · exact ⟨_, rfl, (Except.ok.inj h).symm⟩
  · cases h

theorem testKeyGen_ok (h : testKeyGen epoch resource vals = .ok key) :
    ∃ problemID testID, vals = [problemID, testID] ∧ key =
      { epoch := epoch, resource := resource, problemID := problemID, testID := testID } := by
  unfold testKeyGen at h
  split at h
  · exact ⟨_, _, rfl, (Except.ok.inj h).symm⟩
  · cases h

theorem CacheGetter.keyGen_ok {g : CacheGetter} (h : g.keyGen epoch vals = .ok key) :
    key.epoch = epoch ∧ key.resource = g.resource := by
  cases g with
  | source | binary | interactor =>
    obtain ⟨id, -, rfl⟩ := submitKeyGen_ok h
    exact ⟨rfl, rfl⟩
  | checker =>
    obtain ⟨id, -, rfl⟩ := problemIDKeyGen_ok h
    exact ⟨rfl, rfl⟩
  | testInput | testAnswer =>
    obtain ⟨problemID, testID, -, rfl⟩ := testKeyGen_ok h
    exact ⟨rfl, rfl⟩

/-- The values of a getter are in its keys. -/
theorem CacheGetter.keyGen_injective {g : CacheGetter} (h : g.keyGen epoch vals = .ok key)
    (h' : g.keyGen epoch vals' = .ok key) : vals = vals' := by
  cases g with
  | source | binary | interactor =>
    obtain ⟨id, rfl, rfl⟩ := submitKeyGen_ok h
    obtain ⟨id', rfl, hkey⟩ := submitKeyGen_ok h'
    rw [show id = id' from congrArg CacheKey.submitID hkey]
  | checker =>
    obtain ⟨id, rfl, rfl⟩ := problemIDKeyGen_ok h
    obtain ⟨id', rfl, hkey⟩ := problemIDKeyGen_ok h'
    rw [show id = id' from congrArg CacheKey.problemID hkey]
  | testInput | testAnswer =>
    obtain ⟨problemID, testID, rfl, rfl⟩ := testKeyGen_ok h
    obtain ⟨problemID', testID', rfl, hkey⟩ := testKeyGen_ok h'
    rw [show problemID = problemID' from congrArg CacheKey.problemID hkey,
      show testID = testID' from congrArg CacheKey.testID hkey]

/-- The request for a key of a getter has a folder. -/
theorem CacheGetter.requestBaseFolder_ok {g : CacheGetter} (h : g.keyGen epoch vals = .ok key) :
    ∃ id, requestBaseFolder key = .ok [key.epoch.repr, key.resource.toString, id] := by
  simp only [requestBaseFolder, (CacheGetter.keyGen_ok h).2]
  cases g <;> exact ⟨_, rfl⟩

end KeyGen

/-! ## Folders -/

theorem toList_repr_injective {a b : Nat} (h : a.repr.toList = b.repr.toList) : a = b := by
  rw [Nat.toList_repr, Nat.toList_repr] at h
  have hdigits := congrArg (Nat.ofDigitChars 10 · 0) h
  simpa using hdigits

/-- The folder of a test determines the problem and the test. -/
theorem repr_dash_injective {a b a' b' : Nat}
    (h : a.repr ++ "-" ++ b.repr = a'.repr ++ "-" ++ b'.repr) : a = a' ∧ b = b' := by
  have hdigit : ∀ n : Nat, ∀ c ∈ n.repr.toList, decide (c ≠ '-') = true := by
    intro n c hc
    rw [Nat.toList_repr] at hc
    rw [decide_eq_true_eq]
    rintro rfl
    exact absurd (Nat.isDigit_of_mem_toDigits (by decide) (by decide) hc) (by decide)
  have hlist : a.repr.toList ++ '-' :: b.repr.toList = a'.repr.toList ++ '-' :: b'.repr.toList := by
    simpa using congrArg String.toList h
  have hfirst : a.repr.toList = a'.repr.toList := by
    have htake := congrArg (List.takeWhile fun c => decide (c ≠ '-')) hlist
    rw [List.takeWhile_append_of_pos (hdigit a), List.takeWhile_append_of_pos (hdigit a')] at htake
    simpa using htake
  rw [hfirst, List.append_cancel_left_eq, List.cons.injEq] at hlist
  exact ⟨toList_repr_injective hfirst, toList_repr_injective hlist.2⟩

/-- Different keys have different folders, so no download writes over the file of another key. This
leaves out interactors: their keys carry a submission, and their folder is that of a problem. -/
theorem requestBaseFolder_injective {g g' : CacheGetter} {epoch epoch' : Nat} {vals vals' : List Nat}
    {key key' : CacheKey} (hg : g ≠ .interactor) (h : g.keyGen epoch vals = .ok key)
    (h' : g'.keyGen epoch' vals' = .ok key')
    (hfolder : requestBaseFolder key = requestBaseFolder key') : key = key' := by
  obtain ⟨id, hid⟩ := CacheGetter.requestBaseFolder_ok h
  obtain ⟨id', hid'⟩ := CacheGetter.requestBaseFolder_ok h'
  have hrepr : ∀ {a b : Nat}, a.repr = b.repr → a = b := fun heq =>
    toList_repr_injective (congrArg String.toList heq)
  obtain ⟨hepoch, hresource, -⟩ : key.epoch.repr = key'.epoch.repr ∧
      key.resource.toString = key'.resource.toString ∧ id = id' := by
    simpa [hid, hid'] using hfolder
  obtain ⟨rfl, hres⟩ := CacheGetter.keyGen_ok h
  obtain ⟨rfl, hres'⟩ := CacheGetter.keyGen_ok h'
  have hsame : key.resource = key'.resource := ResourceType.toString_injective hresource
  obtain rfl : g = g' := CacheGetter.resource_injective (hres.symm.trans (hsame.trans hres'))
  cases g with
  | source | binary =>
    obtain ⟨a, -, hkey⟩ := submitKeyGen_ok h
    obtain ⟨b, -, hkey'⟩ := submitKeyGen_ok h'
    rw [hkey, hkey'] at hfolder
    have hlast : a.repr = b.repr := by simpa [requestBaseFolder, hepoch] using hfolder
    rw [hkey, hkey', hrepr hepoch, hrepr hlast]
  | checker =>
    obtain ⟨a, -, hkey⟩ := problemIDKeyGen_ok h
    obtain ⟨b, -, hkey'⟩ := problemIDKeyGen_ok h'
    rw [hkey, hkey'] at hfolder
    have hlast : a.repr = b.repr := by simpa [requestBaseFolder, hepoch] using hfolder
    rw [hkey, hkey', hrepr hepoch, hrepr hlast]
  | interactor => exact absurd rfl hg
  | testInput | testAnswer =>
    obtain ⟨a, b, -, hkey⟩ := testKeyGen_ok h
    obtain ⟨a', b', -, hkey'⟩ := testKeyGen_ok h'
    rw [hkey, hkey'] at hfolder
    have hlast : a.repr ++ "-" ++ b.repr = a'.repr ++ "-" ++ b'.repr := by
      simpa [requestBaseFolder, hepoch] using hfolder
    obtain ⟨rfl, rfl⟩ := repr_dash_injective hlast
    rw [hkey, hkey', hrepr hepoch]

namespace InvokerJob

variable {job : InvokerJob} {resource resource' : Resource} {resources : List Resource}
  {key : CacheKey}

theorem key_epoch (h : job.key resource = .ok key) : key.epoch = job.storageEpoch :=
  (CacheGetter.keyGen_ok h).1

/-- Different resources of a job have different keys. -/
theorem key_injective (h : job.key resource = .ok key) (h' : job.key resource' = .ok key) :
    resource = resource' := by
  have hg : resource.1 = resource'.1 :=
    CacheGetter.resource_injective ((CacheGetter.keyGen_ok h).2.symm.trans (CacheGetter.keyGen_ok h').2)
  unfold InvokerJob.key at h h'
  rw [← hg] at h'
  exact Prod.ext hg (CacheGetter.keyGen_injective h h')

/-- What a job locks has a key, and is locked once. -/
theorem newJob_spec (h : job.newJob = some resources) :
    resources.Nodup ∧ (∀ resource ∈ resources, ∃ key, job.key resource = .ok key) ∧
      job.pipeline ⊆ resources := by
  unfold newJob at h
  unfold pipeline
  split at h
  · next htype =>
    obtain rfl := Option.some.inj h
    refine ⟨List.nodup_singleton _, ?_, fun _ hx => hx⟩
    simp [InvokerJob.key, CacheGetter.keyGen, submitKeyGen]
  · next htype =>
    split at h
    · cases h
    · obtain rfl := Option.some.inj h
      refine ⟨by simp, ?_, by simp⟩
      simp [InvokerJob.key, CacheGetter.keyGen, submitKeyGen, testKeyGen, problemIDKeyGen]
  · cases h

/-- The locks that a job has taken and not returned follow its program. -/
def Staged (job : InvokerJob) : Prop :=
  match job.stage with
  | .rejected => job.defers = []
  | .locking rest => job.newJob = some (job.defers.reverse ++ rest)
  | .running rest => job.newJob = some job.defers.reverse ∧ rest ⊆ job.defers
  | .loading resource rest _ => job.newJob = some job.defers.reverse ∧ resource :: rest ⊆ job.defers
  | .finishing => ∃ unlocked, job.newJob = some (job.defers.reverse ++ unlocked)

/-- Whether a job waits in a `Get`. -/
def waitsFor (job : InvokerJob) (key : CacheKey) (group : WaitGroup) : Bool :=
  match job.stage with
  | .loading resource _ other =>
    match job.key resource with
    | .ok key' => decide (key' = key ∧ other = group)
    | .error _ => false
  | _ => false

theorem waitsFor_loading {rest : List Resource} {group : WaitGroup}
    (hstage : job.stage = .loading resource rest group) (hkey : job.key resource = .ok key)
    (key' : CacheKey) (group' : WaitGroup) :
    job.waitsFor key' group' = decide (key = key' ∧ group = group') := by
  simp only [waitsFor, hstage, hkey]

theorem waitsFor_eq_false (job : InvokerJob)
    (hstage : ∀ resource rest group, job.stage ≠ .loading resource rest group)
    (key : CacheKey) (group : WaitGroup) : job.waitsFor key group = false := by
  unfold waitsFor
  split
  · next resource rest other hloading => exact absurd hloading (hstage resource rest other)
  · rfl

end InvokerJob

/-! ## Steps of the cache -/

/-- The key that a step may start a getter call for. -/
def CacheStep.Requests {C K V E : Type} (a : CacheStep C K V E) (key : K) : Prop :=
  match a with
  | .get k | .lock _ k => key = k
  | _ => False

namespace CacheRun

variable {C K V E : Type} [DecidableEq K] [DecidableEq C] {r r' : CacheRun C K V E}

/-- The getter calls after a step. -/
def callsAfter (r : CacheRun C K V E) : CacheStep C K V E → GetterCalls K V E
  | .get key | .lock _ key => r.calls.request r.cache key
  | .load call value err _ =>
    if (r.calls.running.get? call).isSome then r.calls.finish call (value, err) else r.calls
  | .wake .. | .unlock .. => r.calls

/-- The locks after a step. -/
def locksAfter (r : CacheRun C K V E) : CacheStep C K V E → List (C × K)
  | .lock client key => (client, key) :: r.locks
  | .unlock client key => r.locks.erase (client, key)
  | _ => r.locks

/-- The `Get` calls that wait after a step. -/
def waitingAfter (r : CacheRun C K V E) : CacheStep C K V E → List (K × WaitGroup)
  | .get key =>
    match (r.cache.get key r.calls.next).2 with
    | .inl _ => r.waiting
    | .inr group => (key, group) :: r.waiting
  | .wake key group => r.waiting.erase (key, group)
  | _ => r.waiting

theorem exec_after {a : CacheStep C K V E} (hex : r.exec a = .ok r') :
    r'.calls = r.callsAfter a ∧ r'.locks = r.locksAfter a ∧ r'.waiting = r.waitingAfter a := by
  cases a with
  | get key =>
    rcases hget : r.cache.get key r.calls.next with ⟨c, got | group⟩ <;>
      simp only [exec, hget, Except.ok.injEq] at hex <;> subst hex <;>
      simp [callsAfter, locksAfter, waitingAfter, hget]
  | wake key group =>
    rcases hw : r.cache.wake key with e | ⟨c, got⟩
    · simp only [exec, hw, error_bind] at hex
      cases hex
    · simp only [exec, hw, ok_bind] at hex
      obtain rfl := Except.ok.inj hex
      exact ⟨rfl, rfl, rfl⟩
  | lock client key =>
    obtain rfl := Except.ok.inj hex
    exact ⟨rfl, rfl, rfl⟩
  | unlock client key =>
    rcases hu : r.cache.unlock key with e | ⟨c, err⟩
    · simp only [exec, hu, error_bind] at hex
      cases hex
    · simp only [exec, hu, ok_bind] at hex
      obtain rfl := Except.ok.inj hex
      exact ⟨rfl, rfl, rfl⟩
  | load call value err size =>
    cases hrun : r.calls.running.get? call with
    | none =>
      simp only [exec, hrun] at hex
      obtain rfl := Except.ok.inj hex
      simp [callsAfter, locksAfter, waitingAfter, hrun]
    | some key =>
      rcases hl : r.cache.loadAbsentValue key value err size with e | ⟨c, group⟩
      · simp only [exec, hrun, hl, error_bind] at hex
        cases hex
      · simp only [exec, hrun, hl, ok_bind] at hex
        obtain rfl := Except.ok.inj hex
        simp [callsAfter, locksAfter, waitingAfter, hrun]

/-- A step makes getter calls with new numbers, for the keys that it requests. -/
theorem exec_latest {a : CacheStep C K V E} (hex : r.exec a = .ok r') :
    r.calls.next ≤ r'.calls.next ∧ ∀ key call, r'.calls.latest.get? key = some call →
      r.calls.latest.get? key = some call ∨ r.calls.next ≤ call ∧ a.Requests key := by
  have hrequest : ∀ k, r.calls.next ≤ (r.calls.request r.cache k).next ∧
      ∀ key call, (r.calls.request r.cache k).latest.get? key = some call →
        r.calls.latest.get? key = some call ∨ r.calls.next ≤ call ∧ key = k := by
    intro k
    unfold GetterCalls.request
    split
    · exact ⟨le_rfl, fun _ _ h => .inl h⟩
    · refine ⟨Nat.le_succ _, fun key call h => ?_⟩
      rcases GoMap.of_get?_set h with ⟨hkey, rfl⟩ | ⟨-, hold⟩
      · exact .inr ⟨le_rfl, hkey⟩
      · exact .inl hold
  rw [(exec_after hex).1]
  cases a with
  | get k => exact hrequest k
  | lock client k => exact hrequest k
  | wake k group => exact ⟨le_rfl, fun _ _ h => .inl h⟩
  | unlock client k => exact ⟨le_rfl, fun _ _ h => .inl h⟩
  | load call value err size =>
    simp only [callsAfter]
    split <;> exact ⟨le_rfl, fun _ _ h => .inl h⟩

/-- What a `Get` returns at once for a pinned key is the result of the getter call of the key. -/
theorem Inv.get_returned (h : r.Inv) {key : K} (hpin : 0 < r.pins key)
    {got : LRUSizeCache.Got V E} (hgot : (r.cache.get key r.calls.next).2 = .inl got)
    (hex : r.exec (.get key) = .ok r') :
    ∃ call, r'.calls.latest.get? key = some call ∧ r'.calls.results.get? call = some got := by
  obtain ⟨t, ht, -, hpinned⟩ := h.get key
  obtain rfl := Except.ok.inj (ht.symm.trans hex)
  obtain ⟨new, hnew, hres⟩ := hpinned.returned
  rcases hc : r.cache.get key r.calls.next with ⟨c, got' | group⟩
  · rw [hc] at hgot
    obtain rfl := Sum.inl.inj hgot
    have hret : t.returned = [(key, got')] ++ r.returned := by
      simp only [exec, hc] at hex
      obtain rfl := Except.ok.inj hex
      rfl
    obtain rfl : [(key, got')] = new := List.append_cancel_right (hret.symm.trans hnew)
    obtain ⟨call, hcall, hcallres⟩ := hres key got' (List.mem_singleton.2 rfl) hpin
    exact ⟨call, (hpinned.latest key hpin).trans hcall, hcallres⟩
  · rw [hc] at hgot
    cases hgot

/-- What a `Get` returns after its wait is the result of the getter call of the key. -/
theorem Inv.wake_returned (h : r.Inv) {key : K} {group : WaitGroup}
    (hwait : (key, group) ∈ r.waiting) (hdone : group ∈ r.done) :
    ∃ c got r' call, r.cache.wake key = .ok (c, got) ∧ r.exec (.wake key group) = .ok r' ∧
      r'.Inv ∧ r.Pinned r' ∧ r'.calls.latest.get? key = some call ∧
      r'.calls.results.get? call = some got := by
  obtain ⟨t, ht, hinv, hpinned⟩ := h.wake hwait hdone
  obtain ⟨holder, hget, hl⟩ := h.woken hwait hdone
  obtain ⟨call, hcall, hres⟩ := h.tracked.loaded key holder hget hl
  have hw : r.cache.wake key = .ok (r.cache.finishGet key holder) := by
    rw [LRUSizeCache.wake, hget]
  refine ⟨_, _, t, call, hw, ht, hinv, hpinned, ?_, hpinned.results call _ hres⟩
  exact (hpinned.latest key (getsInProgress_pos hwait)).trans hcall

end CacheRun

/-! ## The invariant -/

namespace StorageRun

variable {s s' : StorageRun} {j : Nat} {job job' : InvokerJob} {resource : Resource}
  {key : CacheKey}

/-- A job holds the locks that it still has to return. -/
structure JobInv (s : StorageRun) (j : Nat) (job : InvokerJob) : Prop where
  numbered : j < s.nextJob
  epoch_le : job.storageEpoch ≤ s.epoch
  staged : job.Staged
  held : ∀ resource ∈ job.defers, ∀ key, job.key resource = .ok key → (j, key) ∈ s.run.locks

/-- The uses of a job for one resource go to one item, which its lock keeps in the cache. -/
structure UsesInv (s : StorageRun) : Prop where
  keyed : ∀ u ∈ s.uses, ∃ job, s.jobs.get? u.job = some job ∧ job.key u.resource = .ok u.key ∧
    ∀ rest, job.stage = .locking rest → u.resource ∉ rest
  same : ∀ u ∈ s.uses, ∀ v ∈ s.uses, u.job = v.job → u.resource = v.resource → u.call = v.call
  latest : ∀ u ∈ s.uses, ∀ job, s.jobs.get? u.job = some job → u.resource ∈ job.defers →
    s.run.calls.latest.get? u.key = u.call
  received : ∀ u ∈ s.uses, ∀ got, u.kind = .received got →
    ∃ call, u.call = some call ∧ s.run.calls.results.get? call = some got

structure Inv (s : StorageRun) : Prop where
  run : s.run.Inv
  jobs : ∀ j job, s.jobs.get? j = some job → s.JobInv j job
  waits : ∀ key group, s.run.waiting.count (key, group) =
    s.jobs.total fun job => (job.waitsFor key group).toNat
  latest : ∀ key call, s.run.calls.latest.get? key = some call →
    key.epoch ≤ s.epoch ∧ ∃ folder, requestBaseFolder key = .ok folder
  results : ∀ call got, s.run.calls.results.get? call = some got → call ∈ s.started
  started : ∀ call ∈ s.started, call < s.run.calls.next
  uses : s.UsesInv

theorem Inv.new (sizeBound : UInt64) : (new sizeBound).Inv where
  run := .init sizeBound true
  jobs _ _ h := nomatch h
  waits _ _ := rfl
  latest _ _ h := nomatch h
  results _ _ h := nomatch h
  started _ h := nomatch h
  uses := ⟨fun _ h => (nomatch h), fun _ h => (nomatch h), fun _ h => (nomatch h),
    fun _ h => (nomatch h)⟩

theorem cacheStep_ok {a : CacheStep Nat CacheKey (List String) String}
    {run : CacheRun Nat CacheKey (List String) String} (h : s.run.exec a = .ok run) :
    s.cacheStep a = .ok run := by
  rw [cacheStep, h]
  rfl

/-- A resource that a job holds is pinned. -/
theorem JobInv.pinned (h : s.JobInv j job) (hmem : resource ∈ job.defers)
    (hkey : job.key resource = .ok key) : 0 < s.run.pins key :=
  CacheRun.locksHeld_pos (h.held resource hmem key hkey)

/-- What a step may change for the later ones. -/
structure Later (s s' : StorageRun) : Prop where
  next_le : s.run.calls.next ≤ s'.run.calls.next
  epoch_le : s.epoch ≤ s'.epoch
  jobs : ∀ j job', s'.jobs.get? j = some job' →
    (∃ job, s.jobs.get? j = some job ∧ job'.storageEpoch = job.storageEpoch) ∨
      s.jobs.get? j = none ∧ job'.storageEpoch = s.epoch
  kept : ∀ j job, s.jobs.get? j = some job → ∃ job', s'.jobs.get? j = some job'
  latest : ∀ key call, s'.run.calls.latest.get? key = some call →
    s.run.calls.latest.get? key = some call ∨ s.run.calls.next ≤ call
  uses : ∀ u ∈ s'.uses, u ∈ s.uses ∨
    ∃ job, s.jobs.get? u.job = some job ∧ u.key.epoch = job.storageEpoch ∧
      (s.run.calls.latest.get? u.key = u.call ∨ s'.run.calls.latest.get? u.key = u.call)

/-! ### Steps of a job -/

/-- A step of the cache keeps the item of a resource that is held. -/
theorem UsesInv.move (h : s.Inv) {run : CacheRun Nat CacheKey (List String) String}
    (hpinned : s.run.Pinned run) : UsesInv { s with run := run } := by
  refine ⟨h.uses.keyed, h.uses.same, fun u hu job hget hmem => ?_, fun u hu got hgot => ?_⟩
  · obtain ⟨other, hother, hkey, -⟩ := h.uses.keyed u hu
    obtain rfl := Option.some.inj (hother.symm.trans hget)
    have hpin := (h.jobs u.job other hget).pinned hmem hkey
    exact (hpinned.latest u.key hpin).trans (h.uses.latest u hu other hget hmem)
  · obtain ⟨call, hcall, hres⟩ := h.uses.received u hu got hgot
    exact ⟨call, hcall, hpinned.results call got hres⟩

/-- A job moves on and holds no resource again that it has used before. -/
theorem UsesInv.setJob (h : s.UsesInv) (hj : s.jobs.get? j = some job)
    (hkey : ∀ resource, job'.key resource = job.key resource)
    (hdefers : ∀ u ∈ s.uses, u.job = j → u.resource ∈ job'.defers → u.resource ∈ job.defers)
    (hrest : ∀ rest', job'.stage = .locking rest' → ∃ rest, job.stage = .locking rest ∧ rest' ⊆ rest) :
    UsesInv { s with jobs := s.jobs.set j job' } := by
  refine ⟨fun u hu => ?_, h.same, fun u hu other hget hmem => ?_, h.received⟩
  · obtain ⟨old, hold, hukey, hulock⟩ := h.keyed u hu
    by_cases hju : u.job = j
    · rw [hju] at hold
      obtain rfl := Option.some.inj (hold.symm.trans hj)
      refine ⟨job', by rw [hju, GoMap.get?_set_self], (hkey _).trans hukey, fun rest' hstage => ?_⟩
      obtain ⟨rest, hlocking, hsub⟩ := hrest rest' hstage
      exact fun hmem => hulock rest hlocking (hsub hmem)
    · exact ⟨old, (GoMap.get?_set_ne _ _ hju).trans hold, hukey, hulock⟩
  · rcases GoMap.of_get?_set hget with ⟨hju, rfl⟩ | ⟨-, hget⟩
    · exact h.latest u hu job (hju ▸ hj) (hdefers u hu hju hmem)
    · exact h.latest u hu other hget hmem

/-- A new use is recorded. -/
theorem UsesInv.record (h : s.UsesInv) {u : StorageUse} (hj : s.jobs.get? u.job = some job)
    (hkey : job.key u.resource = .ok u.key)
    (hlock : ∀ rest, job.stage = .locking rest → u.resource ∉ rest)
    (hsame : ∀ v ∈ s.uses, v.job = u.job → v.resource = u.resource → v.call = u.call)
    (hlatest : u.resource ∈ job.defers → s.run.calls.latest.get? u.key = u.call)
    (hgot : ∀ got, u.kind = .received got →
      ∃ call, u.call = some call ∧ s.run.calls.results.get? call = some got) :
    UsesInv { s with uses := u :: s.uses } := by
  refine ⟨fun v hv => ?_, fun v hv w hw hvw hres => ?_, fun v hv other hget hmem => ?_,
    fun v hv got hkind => ?_⟩
  · rcases List.mem_cons.1 hv with rfl | hv
    · exact ⟨job, hj, hkey, hlock⟩
    · exact h.keyed v hv
  · rcases List.mem_cons.1 hv with hvu | hv
    · rcases List.mem_cons.1 hw with hwu | hw
      · rw [hvu, hwu]
      · rw [hvu]
        exact (hsame w hw (hvw.symm.trans (hvu ▸ rfl)) (hres.symm.trans (hvu ▸ rfl))).symm
    · rcases List.mem_cons.1 hw with hwu | hw
      · rw [hwu]
        exact hsame v hv (hvw.trans (hwu ▸ rfl)) (hres.trans (hwu ▸ rfl))
      · exact h.same v hv w hw hvw hres
  · rcases List.mem_cons.1 hv with rfl | hv
    · obtain rfl := Option.some.inj (hget.symm.trans hj)
      exact hlatest hmem
    · exact h.latest v hv other hget hmem
  · rcases List.mem_cons.1 hv with rfl | hv
    · exact hgot got hkind
    · exact h.received v hv got hkind

/-- A use of a resource that the job holds goes to the item of its earlier uses. -/
theorem UsesInv.record_held (h : s.UsesInv) {u : StorageUse} (hj : s.jobs.get? u.job = some job)
    (hkey : job.key u.resource = .ok u.key) (hmem : u.resource ∈ job.defers)
    (hlock : ∀ rest, job.stage = .locking rest → u.resource ∉ rest)
    (hlatest : s.run.calls.latest.get? u.key = u.call)
    (hgot : ∀ got, u.kind = .received got →
      ∃ call, u.call = some call ∧ s.run.calls.results.get? call = some got) :
    UsesInv { s with uses := u :: s.uses } := by
  refine h.record hj hkey hlock (fun v hv hvu hres => ?_) (fun _ => hlatest) hgot
  obtain ⟨other, hother, hvkey, -⟩ := h.keyed v hv
  obtain rfl := Option.some.inj ((hvu ▸ hother).symm.trans hj)
  obtain hkeys : v.key = u.key := Except.ok.inj ((hres ▸ hvkey).symm.trans hkey)
  rw [← h.latest v hv other hother (hres ▸ hmem), ← hlatest, hkeys]

/-- A step of a job that has no download in it. -/
theorem Inv.jobStep (h : s.Inv) (hj : s.jobs.get? j = some job)
    {run : CacheRun Nat CacheKey (List String) String} (hinv : run.Inv)
    (hnext : s.run.calls.next ≤ run.calls.next)
    (hlatest : ∀ key call, run.calls.latest.get? key = some call →
      s.run.calls.latest.get? key = some call ∨
        s.run.calls.next ≤ call ∧ ∃ resource, job.key resource = .ok key)
    (hresults : run.calls.results = s.run.calls.results)
    (hlocks : ∀ i key, i ≠ j → (i, key) ∈ s.run.locks → (i, key) ∈ run.locks)
    (hepoch : job'.storageEpoch = job.storageEpoch) (hstaged : job'.Staged)
    (hheld : ∀ resource ∈ job'.defers, ∀ key, job'.key resource = .ok key → (j, key) ∈ run.locks)
    (hwaits : ∀ key group, run.waiting.count (key, group) + (job.waitsFor key group).toNat =
      s.run.waiting.count (key, group) + (job'.waitsFor key group).toNat)
    {uses : List StorageUse}
    (huses : UsesInv { s with run := run, jobs := s.jobs.set j job', uses := uses })
    (hnew : ∀ u ∈ uses, u ∈ s.uses ∨ u.job = j ∧ u.key.epoch = job.storageEpoch ∧
      (s.run.calls.latest.get? u.key = u.call ∨ run.calls.latest.get? u.key = u.call)) :
    Inv { s with run := run, jobs := s.jobs.set j job', uses := uses } ∧
      s.Later { s with run := run, jobs := s.jobs.set j job', uses := uses } := by
  have hjob := h.jobs j job hj
  refine ⟨⟨hinv, fun i other hget => ?_, fun key group => ?_, fun key call hget => ?_,
    fun call got hget => ?_, fun call hmem =>
      Nat.lt_of_lt_of_le (h.started call hmem) hnext, huses⟩,
    ⟨hnext, le_rfl, fun i other hget => ?_, fun i other hget => ?_, fun key call hget => ?_,
      fun u hu => ?_⟩⟩
  · rcases GoMap.of_get?_set hget with ⟨hij, rfl⟩ | ⟨hij, hget⟩
    · subst hij
      exact ⟨hjob.numbered, hepoch ▸ hjob.epoch_le, hstaged, hheld⟩
    · have hother := h.jobs i other hget
      exact ⟨hother.numbered, hother.epoch_le, hother.staged,
        fun x hx key hkey => hlocks i key hij (hother.held x hx key hkey)⟩
  · have hcount := h.waits key group
    have hstep := hwaits key group
    have hdelete := GoMap.total_delete hj fun job => (job.waitsFor key group).toNat
    have hset := GoMap.total_set s.jobs j job' fun job => (job.waitsFor key group).toNat
    dsimp only at hdelete hset ⊢
    omega
  · rcases hlatest key call hget with hold | ⟨-, hkey⟩
    · exact h.latest key call hold
    · obtain ⟨resource, hkey⟩ := hkey
      obtain ⟨id, hfolder⟩ := CacheGetter.requestBaseFolder_ok hkey
      exact ⟨InvokerJob.key_epoch hkey ▸ hjob.epoch_le, _, hfolder⟩
  · exact h.results call got (hresults ▸ hget)
  · rcases GoMap.of_get?_set hget with ⟨hij, rfl⟩ | ⟨-, hget⟩
    · exact .inl ⟨job, hij ▸ hj, hepoch⟩
    · exact .inl ⟨other, hget, rfl⟩
  · simp only [GoMap.get?_set]
    split
    · exact ⟨_, rfl⟩
    · exact ⟨other, hget⟩
  · exact (hlatest key call hget).imp_right And.left
  · refine (hnew u hu).imp_right fun hnew => ?_
    obtain ⟨hju, hepoch, hcall⟩ := hnew
    exact ⟨job, hju ▸ hj, hepoch, hcall⟩

theorem Inv.lock (h : s.Inv) (hj : s.jobs.get? j = some job) {rest : List Resource}
    (hstage : job.stage = .locking (resource :: rest)) :
    ∃ s', s.lock j job resource rest = .ok s' ∧ s'.Inv ∧ s.Later s' := by
  have hjob := h.jobs j job hj
  have hstaged := hjob.staged
  simp only [InvokerJob.Staged, hstage] at hstaged
  obtain ⟨hnodup, hkeys, -⟩ := InvokerJob.newJob_spec hstaged
  obtain ⟨key, hkey⟩ := hkeys resource (by simp)
  have hfresh : resource ∉ rest := by
    have hrest := (List.nodup_append.1 hnodup).2.1
    exact (List.nodup_cons.1 hrest).1
  obtain ⟨run, hrun, hinv, hpinned⟩ := h.run.lock j key
  obtain ⟨hcalls, hlocks, hwaiting⟩ := CacheRun.exec_after hrun
  obtain ⟨hnext, hlatest⟩ := CacheRun.exec_latest hrun
  -- the resource is locked for the first time, so there is no use of it yet
  have hunused : ∀ u ∈ s.uses, u.job = j → u.resource ∉ resource :: rest := by
    intro u hu hju
    obtain ⟨other, hother, -, hlock⟩ := h.uses.keyed u hu
    obtain rfl := Option.some.inj ((hju ▸ hother).symm.trans hj)
    exact hlock _ hstage
  refine ⟨_, by simp only [StorageRun.lock, hkey, ok_bind, cacheStep_ok hrun]; rfl, ?_⟩
  let job' : InvokerJob := { job with defers := resource :: job.defers, stage := .locking rest }
  let use : StorageUse := ⟨j, .lock, resource, key, run.calls.latest.get? key⟩
  have hadvance : UsesInv { s with run := run, jobs := s.jobs.set j job' } := by
    refine (UsesInv.move h hpinned).setJob hj (fun _ => rfl) (fun u hu hju hmem => ?_) fun rest' hrest' => ?_
    · rcases List.mem_cons.1 hmem with heq | hmem
      · exact absurd (heq ▸ List.mem_cons_self) (hunused u hu hju)
      · exact hmem
    · obtain rfl := JobStage.locking.inj hrest'
      exact ⟨_, hstage, fun x hx => List.mem_cons_of_mem _ hx⟩
  have huses : UsesInv { s with
      run := run, jobs := s.jobs.set j job', uses := use :: s.uses } :=
    hadvance.record (u := use) (GoMap.get?_set_self _ _ _) hkey
      (fun rest' hrest' => JobStage.locking.inj hrest' ▸ hfresh)
      (fun v hv hvj hres => absurd (hres ▸ List.mem_cons_self) (hunused v hv hvj))
      (fun _ => rfl) fun _ hgot => by cases hgot
  refine h.jobStep hj hinv hnext ?_ ?_ ?_ (show job'.storageEpoch = _ from rfl) ?_ ?_ ?_ huses ?_
  · intro k call hget
    refine (hlatest k call hget).imp_right fun hnew => ⟨hnew.1, resource, ?_⟩
    obtain rfl : k = key := hnew.2
    exact hkey
  · rw [hcalls]
    exact GetterCalls.request_results _ _ _
  · intro i k _ hmem
    rw [hlocks]
    exact List.mem_cons_of_mem _ hmem
  · show job.newJob = some ((resource :: job.defers).reverse ++ rest)
    rw [List.reverse_cons, List.append_assoc]
    exact hstaged
  · intro x hx k hk
    rw [hlocks]
    rcases List.mem_cons.1 hx with rfl | hx
    · obtain rfl := Except.ok.inj (hkey.symm.trans hk)
      exact List.mem_cons_self
    · exact List.mem_cons_of_mem _ (hjob.held x hx k hk)
  · intro k group
    rw [hwaiting]
    simp [InvokerJob.waitsFor, hstage, CacheRun.waitingAfter]
  · intro u hu
    rcases List.mem_cons.1 hu with rfl | hu
    · exact .inr ⟨rfl, InvokerJob.key_epoch hkey, .inr rfl⟩
    · exact .inl hu

/-- A step of a `Get` for a resource that the job holds. -/
theorem Inv.getStep (h : s.Inv) (stage : JobStage) (kinds : List UseKind)
    (hj : s.jobs.get? j = some job) (hmem : resource ∈ job.defers)
    (hkey : job.key resource = .ok key) {a : CacheStep Nat CacheKey (List String) String}
    {run : CacheRun Nat CacheKey (List String) String} (hrun : s.run.exec a = .ok run)
    (hinv : run.Inv) (hpinned : s.run.Pinned run) (hrequests : ∀ k, a.Requests k → k = key)
    (hlocks : run.locks = s.run.locks) (hresults : run.calls.results = s.run.calls.results)
    (hstage : ∀ rest, stage ≠ .locking rest) (hstaged : InvokerJob.Staged { job with stage := stage })
    (hwaits : ∀ k group, run.waiting.count (k, group) + (job.waitsFor k group).toNat =
      s.run.waiting.count (k, group) +
        (InvokerJob.waitsFor { job with stage := stage } k group).toNat)
    (hkinds : ∀ got, .received got ∈ kinds →
      ∃ call, run.calls.latest.get? key = some call ∧ run.calls.results.get? call = some got) :
    Inv { s with
        run := run
        jobs := s.jobs.set j { job with stage := stage }
        uses := kinds.map (⟨j, ·, resource, key, run.calls.latest.get? key⟩) ++ s.uses } ∧
      s.Later { s with
        run := run
        jobs := s.jobs.set j { job with stage := stage }
        uses := kinds.map (⟨j, ·, resource, key, run.calls.latest.get? key⟩) ++ s.uses } := by
  have hjob := h.jobs j job hj
  obtain ⟨hnext, hlatest⟩ := CacheRun.exec_latest hrun
  let job' : InvokerJob := { job with stage := stage }
  have huses : UsesInv { s with
      run := run
      jobs := s.jobs.set j job'
      uses := kinds.map (⟨j, ·, resource, key, run.calls.latest.get? key⟩) ++ s.uses } := by
    induction kinds with
    | nil =>
      exact (UsesInv.move h hpinned).setJob hj (fun _ => rfl) (fun _ _ _ hmem => hmem)
        fun rest hrest => absurd hrest (hstage rest)
    | cons kind kinds ih =>
      have hrest := ih fun got hgot => hkinds got (List.mem_cons_of_mem _ hgot)
      refine hrest.record_held (u := ⟨j, kind, resource, key, run.calls.latest.get? key⟩)
        (GoMap.get?_set_self _ _ _) hkey hmem (fun rest heq => absurd heq (hstage rest)) rfl
        fun got hkind => hkinds got ?_
      obtain rfl : kind = .received got := hkind
      exact List.mem_cons_self
  refine h.jobStep hj hinv hnext (fun k call hget => ?_) hresults (fun i k _ hlock => hlocks ▸ hlock)
    (show job'.storageEpoch = _ from rfl) hstaged (fun x hx k hk => ?_) hwaits huses fun u hu => ?_
  · refine (hlatest k call hget).imp_right fun hnew => ⟨hnew.1, resource, ?_⟩
    rw [hrequests k hnew.2, hkey]
  · exact hlocks ▸ hjob.held x hx k hk
  · rcases List.mem_append.1 hu with hu | hu
    · obtain ⟨kind, -, rfl⟩ := List.mem_map.1 hu
      exact .inr ⟨rfl, InvokerJob.key_epoch hkey, .inr rfl⟩
    · exact .inl hu

/-- The call of `Get` in `loadResource`. -/
theorem Inv.get (h : s.Inv) (hj : s.jobs.get? j = some job) {rest : List Resource}
    (hstage : job.stage = .running (resource :: rest)) :
    ∃ s', s.get j job resource rest = .ok s' ∧ s'.Inv ∧ s.Later s' := by
  have hjob := h.jobs j job hj
  have hstaged := hjob.staged
  simp only [InvokerJob.Staged, hstage] at hstaged
  obtain ⟨hplan, hsub⟩ := hstaged
  have hmem : resource ∈ job.defers := hsub List.mem_cons_self
  obtain ⟨key, hkey⟩ := (InvokerJob.newJob_spec hplan).2.1 resource (List.mem_reverse.2 hmem)
  obtain ⟨run, hrun, hinv, hpinned⟩ := h.run.get key
  obtain ⟨hcalls, hlocks, hwaiting⟩ := CacheRun.exec_after hrun
  have hresults : run.calls.results = s.run.calls.results := by
    rw [hcalls]
    exact GetterCalls.request_results _ _ _
  have hidle := job.waitsFor_eq_false (by simp [hstage])
  cases hgot : (s.run.cache.get key s.run.calls.next).2 with
  | inl got =>
    refine ⟨_, by simp only [StorageRun.get, hkey, ok_bind, cacheStep_ok hrun, hgot]; rfl, ?_⟩
    refine h.getStep (.running rest) [.received got, .get] hj hmem hkey hrun hinv hpinned
      (fun _ heq => heq) hlocks hresults (fun _ => by simp)
      ⟨hplan, fun x hx => hsub (List.mem_cons_of_mem _ hx)⟩ (fun k group => ?_) fun got' hgot' => ?_
    · rw [hwaiting, hidle, InvokerJob.waitsFor_eq_false _ (by simp)]
      simp [CacheRun.waitingAfter, hgot]
    · obtain rfl : got' = got := by simpa using hgot'
      exact h.run.get_returned (hjob.pinned hmem hkey) hgot hrun
  | inr group =>
    refine ⟨_, by simp only [StorageRun.get, hkey, ok_bind, cacheStep_ok hrun, hgot]; rfl, ?_⟩
    refine h.getStep (.loading resource rest group) [.get] hj hmem hkey hrun hinv hpinned
      (fun _ heq => heq) hlocks hresults (fun _ => by simp) ⟨hplan, hsub⟩ (fun k other => ?_)
      fun got' hgot' => by simp at hgot'
    have hstage' : InvokerJob.stage { job with stage := .loading resource rest group } =
        .loading resource rest group := rfl
    rw [hwaiting, hidle, InvokerJob.waitsFor_loading hstage' hkey]
    have hcount : (if key = k ∧ group = other then 1 else 0) =
        (decide (key = k) && decide (group = other)).toNat := by
      by_cases hk : key = k <;> by_cases hg : group = other <;> simp [hk, hg]
    simp [CacheRun.waitingAfter, hgot, List.count_cons, hcount]

/-- A job that waits is among the waiting calls of the cache. -/
theorem Inv.mem_waiting (h : s.Inv) (hj : s.jobs.get? j = some job) {rest : List Resource}
    {group : WaitGroup} (hstage : job.stage = .loading resource rest group)
    (hkey : job.key resource = .ok key) : (key, group) ∈ s.run.waiting := by
  have hcount := h.waits key group
  rw [GoMap.total_delete hj, InvokerJob.waitsFor_loading hstage hkey] at hcount
  refine List.count_pos_iff.1 ?_
  simp only [and_self, decide_true, Bool.toNat_true] at hcount
  omega

/-- The end of the wait in `Get`. -/
theorem Inv.wake (h : s.Inv) (hj : s.jobs.get? j = some job) {rest : List Resource}
    {group : WaitGroup} (hstage : job.stage = .loading resource rest group)
    (hdone : group ∈ s.run.done) :
    ∃ s', s.wake j job resource rest group = .ok s' ∧ s'.Inv ∧ s.Later s' := by
  have hjob := h.jobs j job hj
  have hstaged := hjob.staged
  simp only [InvokerJob.Staged, hstage] at hstaged
  obtain ⟨hplan, hsub⟩ := hstaged
  have hmem : resource ∈ job.defers := hsub List.mem_cons_self
  obtain ⟨key, hkey⟩ := (InvokerJob.newJob_spec hplan).2.1 resource (List.mem_reverse.2 hmem)
  have hwait := h.mem_waiting hj hstage hkey
  obtain ⟨c, got, run, call, hwake, hrun, hinv, hpinned, hcall, hres⟩ :=
    h.run.wake_returned hwait hdone
  obtain ⟨hcalls, hlocks, hwaiting⟩ := CacheRun.exec_after hrun
  have hexec : s.wake j job resource rest group = .ok { s with
      run := run
      jobs := s.jobs.set j { job with stage := .running rest }
      uses := ⟨j, .received got, resource, key, run.calls.latest.get? key⟩ :: s.uses } := by
    simp only [StorageRun.wake, hkey, ok_bind, hwake, mapError_ok, cacheStep_ok hrun]
    rfl
  refine ⟨_, hexec, ?_⟩
  refine h.getStep (.running rest) [.received got] hj hmem hkey hrun hinv hpinned
    (fun _ heq => absurd heq id) hlocks (congrArg GetterCalls.results hcalls) (fun _ => by simp)
    ⟨hplan, fun x hx => hsub (List.mem_cons_of_mem _ hx)⟩ (fun k other => ?_) fun got' hgot' => ?_
  · rw [hwaiting, InvokerJob.waitsFor_loading hstage hkey, InvokerJob.waitsFor_eq_false _ (by simp)]
    simp only [CacheRun.waitingAfter, List.count_erase, Bool.toNat_false, Nat.add_zero]
    have hpos := List.count_pos_iff.2 hwait
    by_cases heq : key = k ∧ group = other
    · obtain ⟨rfl, rfl⟩ := heq
      simp only [beq_self_eq_true, if_true, and_self, decide_true, Bool.toNat_true]
      omega
    · have hne : ((key, group) == (k, other)) = false := by simpa using heq
      simp [hne, heq]
  · obtain rfl : got' = got := by simpa using hgot'
    exact ⟨call, hcall, hres⟩

/-- `Unlock`, for the last resource that the job deferred. -/
theorem Inv.unlock (h : s.Inv) (hj : s.jobs.get? j = some job) {defers : List Resource}
    (hstage : job.stage = .finishing) (hdefers : job.defers = resource :: defers) :
    ∃ s', s.unlock j job resource defers = .ok s' ∧ s'.Inv ∧ s.Later s' := by
  have hjob := h.jobs j job hj
  have hstaged := hjob.staged
  simp only [InvokerJob.Staged, hstage] at hstaged
  obtain ⟨unlocked, hplan⟩ := hstaged
  have hmem : resource ∈ job.defers := hdefers ▸ List.mem_cons_self
  obtain ⟨hnodup, hkeys, -⟩ := InvokerJob.newJob_spec hplan
  obtain ⟨key, hkey⟩ := hkeys resource (List.mem_append_left _ (List.mem_reverse.2 hmem))
  have hlast : resource ∉ defers := by
    have hpart := List.nodup_reverse.1 (List.nodup_append.1 hnodup).1
    rw [hdefers] at hpart
    exact (List.nodup_cons.1 hpart).1
  obtain ⟨run, hrun, hinv, hpinned⟩ := h.run.unlock (hjob.held resource hmem key hkey)
  obtain ⟨hcalls, hlocks, hwaiting⟩ := CacheRun.exec_after hrun
  refine ⟨_, by simp only [StorageRun.unlock, hkey, ok_bind, cacheStep_ok hrun]; rfl, ?_⟩
  let job' : InvokerJob := { job with defers := defers }
  let use : StorageUse := ⟨j, .unlock, resource, key, s.run.calls.latest.get? key⟩
  have hadvance : UsesInv { s with run := run, jobs := s.jobs.set j job' } := by
    refine (UsesInv.move h hpinned).setJob hj (fun _ => rfl) (fun u hu hju hmem => ?_) fun rest hrest => ?_
    · exact hdefers ▸ List.mem_cons_of_mem _ hmem
    · exact absurd (hstage.symm.trans hrest) (by simp)
  have huses : UsesInv { s with run := run, jobs := s.jobs.set j job', uses := use :: s.uses } := by
    refine hadvance.record (u := use) (GoMap.get?_set_self _ _ _) hkey
      (fun rest hrest => absurd (hstage.symm.trans hrest) (by simp)) (fun v hv hvj hres => ?_)
      (fun hmem => absurd hmem hlast) fun _ hkind => by cases hkind
    -- the resource is still held, so its uses go to the current item
    obtain ⟨other, hother, hvkey, -⟩ := h.uses.keyed v hv
    obtain rfl := Option.some.inj ((hvj ▸ hother).symm.trans hj)
    obtain hvkey : v.key = key := Except.ok.inj ((hres ▸ hvkey).symm.trans hkey)
    have hlatest := h.uses.latest v hv other hother (hres ▸ hmem)
    rw [← hlatest, hvkey]
  refine h.jobStep hj hinv (CacheRun.exec_latest hrun).1 ?_ (congrArg GetterCalls.results hcalls) ?_
    (show job'.storageEpoch = _ from rfl) ?_ ?_ ?_ huses ?_
  · intro k call hget
    exact ((CacheRun.exec_latest hrun).2 k call hget).imp_right fun hnew => absurd hnew.2 id
  · intro i k hne hlock
    rw [hlocks]
    exact (List.mem_erase_of_ne fun heq => hne (Prod.mk.inj heq).1).2 hlock
  · simp only [InvokerJob.Staged, job', hstage]
    refine ⟨resource :: unlocked, ?_⟩
    show job.newJob = some (defers.reverse ++ resource :: unlocked)
    rw [hplan, hdefers, List.reverse_cons, List.append_assoc]
    rfl
  · intro x hx k hk
    rw [hlocks]
    have hlock := hjob.held x (hdefers ▸ List.mem_cons_of_mem _ hx) k hk
    refine (List.mem_erase_of_ne fun heq => hlast ?_).2 hlock
    obtain rfl : k = key := (Prod.mk.inj heq).2
    exact InvokerJob.key_injective hkey hk ▸ hx
  · intro k group
    rw [hwaiting, InvokerJob.waitsFor_eq_false _ (by simp [hstage]),
      InvokerJob.waitsFor_eq_false _ (by simp [job', hstage])]
    rfl
  · intro u hu
    rcases List.mem_cons.1 hu with rfl | hu
    · exact .inr ⟨rfl, InvokerJob.key_epoch hkey, .inl rfl⟩
    · exact .inl hu

/-- A step of a job without a call of the cache. -/
theorem Inv.setStage (h : s.Inv) (hj : s.jobs.get? j = some job) {stage : JobStage}
    (hlocking : ∀ rest, stage ≠ .locking rest)
    (hidle : ∀ resource rest group, job.stage ≠ .loading resource rest group)
    (hidle' : ∀ resource rest group, stage ≠ .loading resource rest group)
    (hstaged : InvokerJob.Staged { job with stage := stage }) :
    Inv { s with jobs := s.jobs.set j { job with stage := stage } } ∧
      s.Later { s with jobs := s.jobs.set j { job with stage := stage } } := by
  let job' : InvokerJob := { job with stage := stage }
  have huses : UsesInv { s with jobs := s.jobs.set j job' } :=
    h.uses.setJob hj (fun _ => rfl) (fun _ _ _ hmem => hmem)
      fun rest hrest => absurd hrest (hlocking rest)
  refine h.jobStep hj h.run le_rfl (fun _ _ hget => .inl hget) rfl (fun _ _ _ hlock => hlock)
    (show job'.storageEpoch = _ from rfl) hstaged (h.jobs j job hj).held (fun key group => ?_) huses
    (fun _ hu => .inl hu)
  rw [InvokerJob.waitsFor_eq_false _ hidle, InvokerJob.waitsFor_eq_false _ hidle']

theorem Inv.start (h : s.Inv) (hj : s.jobs.get? j = some job) (hstage : job.stage = .locking []) :
    Inv { s with jobs := s.jobs.set j { job with stage := .running job.pipeline } } ∧
      s.Later { s with jobs := s.jobs.set j { job with stage := .running job.pipeline } } := by
  have hstaged := (h.jobs j job hj).staged
  simp only [InvokerJob.Staged, hstage, List.append_nil] at hstaged
  refine h.setStage hj (by simp) (by simp [hstage]) (by simp) ⟨hstaged, fun x hx => ?_⟩
  exact List.mem_reverse.1 ((InvokerJob.newJob_spec hstaged).2.2 hx)

theorem Inv.finish (h : s.Inv) (hj : s.jobs.get? j = some job) {rest : List Resource}
    (hstage : job.stage = .running rest) :
    Inv { s with jobs := s.jobs.set j { job with stage := .finishing } } ∧
      s.Later { s with jobs := s.jobs.set j { job with stage := .finishing } } := by
  have hstaged := (h.jobs j job hj).staged
  simp only [InvokerJob.Staged, hstage] at hstaged
  refine h.setStage hj (by simp) (by simp [hstage]) (by simp) ⟨[], ?_⟩
  rw [List.append_nil]
  exact hstaged.1

/-! ### The other steps -/

theorem Inv.reset (h : s.Inv) : s.reset.Inv ∧ s.Later s.reset := by
  refine ⟨⟨h.run, fun j job hj => ?_, h.waits, fun key call hget => ?_, h.results, h.started,
    ⟨h.uses.keyed, h.uses.same, h.uses.latest, h.uses.received⟩⟩, ⟨le_rfl, Nat.le_succ _,
    fun j job hj => .inl ⟨job, hj, rfl⟩, fun j job hj => ⟨job, hj⟩, fun _ _ hget => .inl hget,
    fun _ hu => .inl hu⟩⟩
  · have hjob := h.jobs j job hj
    exact ⟨hjob.numbered, Nat.le_succ_of_le hjob.epoch_le, hjob.staged, hjob.held⟩
  · have hkey := h.latest key call hget
    exact ⟨Nat.le_succ_of_le hkey.1, hkey.2⟩

theorem Inv.initJob (h : s.Inv) (type : JobType) (test submissionID problemID testsNumber : Nat) :
    (s.initJob type test submissionID problemID testsNumber).Inv ∧
      s.Later (s.initJob type test submissionID problemID testsNumber) := by
  have hnone : s.jobs.get? s.nextJob = none := by
    rw [Option.eq_none_iff_forall_ne_some]
    exact fun job hj => Nat.lt_irrefl _ (h.jobs s.nextJob job hj).numbered
  have hold : ∀ i other, s.jobs.get? i = some other → i ≠ s.nextJob := fun i other hget =>
    Nat.ne_of_lt (h.jobs i other hget).numbered
  obtain ⟨job, hrun, hepoch, hdefers, hstaged, hidle⟩ : ∃ job : InvokerJob,
      s.initJob type test submissionID problemID testsNumber =
        { s with jobs := s.jobs.set s.nextJob job, nextJob := s.nextJob + 1 } ∧
      job.storageEpoch = s.epoch ∧ job.defers = [] ∧ job.Staged ∧
      ∀ key group, job.waitsFor key group = false := by
    refine ⟨_, rfl, rfl, rfl, ?_, fun key group => InvokerJob.waitsFor_eq_false _ ?_ key group⟩
    · split
      · exact rfl
      · next resources hplan => exact hplan
    · intro resource rest group
      dsimp only
      split <;> exact fun heq => nomatch heq
  rw [hrun]
  refine ⟨⟨h.run, fun i other hget => ?_, fun key group => ?_, h.latest, h.results, h.started,
    ⟨fun u hu => ?_, h.uses.same, fun u hu other hget hmem => ?_, h.uses.received⟩⟩,
    ⟨le_rfl, le_rfl, fun i other hget => ?_, fun i other hget => ?_, fun _ _ hget => .inl hget,
    fun _ hu => .inl hu⟩⟩
  · rcases GoMap.of_get?_set hget with ⟨hi, rfl⟩ | ⟨-, hget⟩
    · refine ⟨hi ▸ Nat.lt_succ_self _, Nat.le_of_eq hepoch, hstaged, fun resource hmem => ?_⟩
      rw [hdefers] at hmem
      cases hmem
    · have hother := h.jobs i other hget
      exact ⟨Nat.lt_succ_of_lt hother.numbered, hother.epoch_le, hother.staged, hother.held⟩
  · have hset := GoMap.total_set_of_none hnone job fun job => (job.waitsFor key group).toNat
    have hcount := h.waits key group
    simp only [hidle key group, Bool.toNat_false, Nat.zero_add] at hset
    dsimp only
    rw [hset, hcount]
  · obtain ⟨other, hother, hkey⟩ := h.uses.keyed u hu
    exact ⟨other, (GoMap.get?_set_ne _ _ (hold u.job other hother)).trans hother, hkey⟩
  · obtain ⟨other', hother, -⟩ := h.uses.keyed u hu
    have hne := hold u.job other' hother
    exact h.uses.latest u hu other ((GoMap.get?_set_ne _ _ hne).symm.trans hget) hmem
  · rcases GoMap.of_get?_set hget with ⟨hi, rfl⟩ | ⟨-, hget⟩
    · exact .inr ⟨hi ▸ hnone, hepoch⟩
    · exact .inl ⟨other, hget, rfl⟩
  · exact ⟨other, (GoMap.get?_set_ne _ _ (hold i other hget)).trans hget⟩

/-- A getter call in progress is for a key of some getter. -/
theorem Inv.folder (h : s.Inv) {call : Nat} (hrun : s.run.calls.running.get? call = some key) :
    ∃ folder, requestBaseFolder key = .ok folder := by
  obtain ⟨holder, hget, hl⟩ := h.run.tracked.running call key hrun
  exact (h.latest key call (h.run.tracked.loading key holder call hget hl).1).2

theorem Inv.startDownload (h : s.Inv) {call : Nat}
    (hrun : s.run.calls.running.get? call = some key) :
    Inv { s with started := call :: s.started } ∧
      s.Later { s with started := call :: s.started } := by
  refine ⟨⟨h.run, fun j job hj => ?_, h.waits, h.latest,
    fun call got hget => List.mem_cons_of_mem _ (h.results call got hget), fun other hmem => ?_,
    ⟨h.uses.keyed, h.uses.same, h.uses.latest, h.uses.received⟩⟩, ⟨le_rfl, le_rfl,
    fun j job hj => .inl ⟨job, hj, rfl⟩, fun j job hj => ⟨job, hj⟩, fun _ _ hget => .inl hget,
    fun _ hu => .inl hu⟩⟩
  · have hjob := h.jobs j job hj
    exact ⟨hjob.numbered, hjob.epoch_le, hjob.staged, hjob.held⟩
  · rcases List.mem_cons.1 hmem with rfl | hmem
    · exact (h.run.tracked.pending other key hrun).1
    · exact h.started other hmem

theorem Inv.download (h : s.Inv) {call : Nat} (hrun : s.run.calls.running.get? call = some key)
    (hstarted : call ∈ s.started) (response : FileResponse) :
    ∃ s', s.download call key response = .ok s' ∧ s'.Inv ∧ s.Later s' := by
  obtain ⟨folder, hfolder⟩ := h.folder hrun
  obtain ⟨value, err, size, hfiles⟩ : ∃ value err size,
      getFiles key response = .ok (value, err, size) := by
    simp only [getFiles, hfolder, ok_bind]
    split <;> exact ⟨_, _, _, rfl⟩
  obtain ⟨run, hload, hinv, hpinned⟩ := h.run.load hrun value err size
  obtain ⟨hcalls, hlocks, hwaiting⟩ := CacheRun.exec_after hload
  have hfinish : run.calls = s.run.calls.finish call (value, err) := by
    rw [hcalls]
    simp [CacheRun.callsAfter, hrun]
  refine ⟨_, by simp only [StorageRun.download, hfiles, ok_bind, cacheStep_ok hload]; rfl,
    ⟨hinv, fun j job hj => ?_, fun k group => ?_, fun k call' hget => ?_, fun call' got hget => ?_,
      fun call' hmem => ?_, .move h hpinned⟩, ⟨?_, le_rfl, fun j job hj => .inl ⟨job, hj, rfl⟩,
      fun j job hj => ⟨job, hj⟩, fun k call' hget => ?_, fun _ hu => .inl hu⟩⟩
  · have hjob := h.jobs j job hj
    refine ⟨hjob.numbered, hjob.epoch_le, hjob.staged, fun x hx k hk => ?_⟩
    dsimp only
    rw [hlocks]
    exact hjob.held x hx k hk
  · dsimp only
    rw [hwaiting]
    exact h.waits k group
  · exact h.latest k call' (by rwa [hfinish] at hget)
  · rw [hfinish] at hget
    rcases GoMap.of_get?_set hget with ⟨heq, -⟩ | ⟨-, hold⟩
    · exact heq ▸ hstarted
    · exact h.results call' got hold
  · dsimp only
    rw [hfinish]
    exact h.started call' hmem
  · rw [hfinish]
    exact le_rfl
  · exact .inl (by rwa [hfinish] at hget)

theorem stageOf_eq_some {stage : JobStage} (h : s.stageOf j = some stage) :
    ∃ job, s.jobs.get? j = some job ∧ job.stage = stage :=
  Option.map_eq_some_iff.1 h

/-- Every step succeeds and keeps the invariant. -/
theorem Inv.step (h : s.Inv) (a : StorageStep) (hen : s.enabled a) :
    ∃ s', s.exec a = .ok s' ∧ s'.Inv ∧ s.Later s' := by
  cases a with
  | reset => exact ⟨_, rfl, h.reset⟩
  | initJob type test submissionID problemID testsNumber => exact ⟨_, rfl, h.initJob ..⟩
  | lock j =>
    obtain ⟨resource, rest, hstage⟩ := hen
    obtain ⟨job, hj, hstage⟩ := stageOf_eq_some hstage
    simp only [exec, hj, execJob, hstage]
    exact h.lock hj hstage
  | start j =>
    obtain ⟨job, hj, hstage⟩ := stageOf_eq_some hen
    simp only [exec, hj, execJob]
    exact ⟨_, rfl, h.start hj hstage⟩
  | get j =>
    obtain ⟨resource, rest, hstage⟩ := hen
    obtain ⟨job, hj, hstage⟩ := stageOf_eq_some hstage
    simp only [exec, hj, execJob, hstage]
    exact h.get hj hstage
  | wake j =>
    obtain ⟨resource, rest, group, hstage, hdone⟩ := hen
    obtain ⟨job, hj, hstage⟩ := stageOf_eq_some hstage
    simp only [exec, hj, execJob, hstage]
    exact h.wake hj hstage hdone
  | finish j =>
    obtain ⟨rest, hstage⟩ := hen
    obtain ⟨job, hj, hstage⟩ := stageOf_eq_some hstage
    simp only [exec, hj, execJob]
    exact ⟨_, rfl, h.finish hj hstage⟩
  | unlock j =>
    obtain ⟨job, resource, defers, hj, hstage, hdefers⟩ := hen
    simp only [exec, hj, execJob, hdefers]
    exact h.unlock hj hstage hdefers
  | startDownload call =>
    obtain ⟨⟨key, hrun⟩, -⟩ := hen
    exact ⟨_, rfl, h.startDownload hrun⟩
  | download call response =>
    obtain ⟨⟨key, hrun⟩, hstarted⟩ := hen
    simp only [exec, hrun]
    exact h.download hrun hstarted response

theorem Inv.of_reachable (h : machine.Reachable Machine.always s) : s.Inv := by
  refine h.invariant (fun _ hinit => ?_) fun _ a _ hs _ hen hex => ?_
  · obtain ⟨sizeBound, rfl⟩ := hinit
    exact .new sizeBound
  · obtain ⟨t, ht, hinv, -⟩ := hs.step a hen
    obtain rfl := Except.ok.inj (ht.symm.trans hex)
    exact hinv

/-! ## Freshness -/

/-- What holds of the jobs that have read the epoch since `r`: their keys have items that were made
since then. -/
structure Since (r s : StorageRun) : Prop where
  next_le : r.run.calls.next ≤ s.run.calls.next
  epoch_le : r.epoch ≤ s.epoch
  kept : ∀ j, s.jobs.get? j = none → r.jobs.get? j = none
  jobs : ∀ j job, s.jobs.get? j = some job → r.jobs.get? j = none → r.epoch ≤ job.storageEpoch
  latest : ∀ key call, s.run.calls.latest.get? key = some call → r.epoch ≤ key.epoch →
    r.run.calls.next ≤ call
  uses : ∀ u ∈ s.uses, r.jobs.get? u.job = none → ∀ call, u.call = some call →
    r.run.calls.next ≤ call

/-- After a reset there is no item of the new epoch. -/
theorem Since.reset (h : s.Inv) : Since s.reset s.reset where
  next_le := le_rfl
  epoch_le := le_rfl
  kept _ h := h
  jobs j job hj hnone := by
    rw [hnone] at hj
    cases hj
  latest key call hget hle := by
    have hkey : key.epoch ≤ s.epoch := (h.latest key call hget).1
    exact absurd hkey (Nat.not_le_of_lt hle)
  uses u hu hnone := by
    obtain ⟨job, hj, -⟩ := h.uses.keyed u hu
    exact absurd (hj.symm.trans hnone) (by simp)

theorem Since.step {r : StorageRun} (h : r.Since s) (hl : s.Later s') : r.Since s' := by
  refine ⟨Nat.le_trans h.next_le hl.next_le, Nat.le_trans h.epoch_le hl.epoch_le, fun j hnone => h.kept j ?_,
    fun j job hj hnone => ?_, fun key call hget hle => ?_, fun u hu hnone call hcall => ?_⟩
  · cases hj : s.jobs.get? j with
    | none => rfl
    | some job =>
      obtain ⟨job', hj'⟩ := hl.kept j job hj
      exact absurd (hj'.symm.trans hnone) (by simp)
  · rcases hl.jobs j job hj with ⟨old, hold, hepoch⟩ | ⟨-, hepoch⟩
    · exact hepoch ▸ h.jobs j old hold hnone
    · exact hepoch ▸ h.epoch_le
  · rcases hl.latest key call hget with hget | hnew
    · exact h.latest key call hget hle
    · exact Nat.le_trans h.next_le hnew
  · rcases hl.uses u hu with hu | ⟨job, hj, hepoch, hlatest⟩
    · exact h.uses u hu hnone call hcall
    · have hle : r.epoch ≤ u.key.epoch := hepoch ▸ h.jobs u.job job hj hnone
      rw [hcall] at hlatest
      rcases hlatest with hlatest | hlatest
      · exact h.latest u.key call hlatest hle
      · rcases hl.latest u.key call hlatest with hlatest | hnew
        · exact h.latest u.key call hlatest hle
        · exact Nat.le_trans h.next_le hnew

/-- In every reachable state all uses of a job for one resource have one key and one item. After a
reset, a job that reads the epoch then receives only results of downloads that start after the
reset. -/
theorem resource_fresh (h : machine.Reachable Machine.always s) :
    (∀ u ∈ s.uses, ∀ v ∈ s.uses, u.job = v.job → u.resource = v.resource →
      u.key = v.key ∧ u.call = v.call) ∧
    ∀ r, s.exec .reset = .ok r → ∀ t, machine.Reaches Machine.always r t →
      ∀ u ∈ t.uses, r.jobs.get? u.job = none → ∀ got, u.kind = .received got →
        ∃ call, u.call = some call ∧ t.run.calls.results.get? call = some got ∧
          call ∈ t.started ∧ call ∉ r.started := by
  have hinv := Inv.of_reachable h
  refine ⟨fun u hu v hv hjob hres => ⟨?_, hinv.uses.same u hu v hv hjob hres⟩, fun r hr t hrun => ?_⟩
  · obtain ⟨job, hj, hukey, -⟩ := hinv.uses.keyed u hu
    obtain ⟨job', hj', hvkey, -⟩ := hinv.uses.keyed v hv
    obtain rfl := Option.some.inj (hj.symm.trans (hjob ▸ hj'))
    exact Except.ok.inj (hukey.symm.trans (hres ▸ hvkey))
  · obtain rfl : s.reset = r := Except.ok.inj hr
    have hsince : t.Inv ∧ s.reset.Since t := by
      refine Machine.Reaches.keeps (P := fun t => t.Inv ∧ s.reset.Since t) hrun
        ⟨hinv.reset.1, .reset hinv⟩ fun r a r' hr _ hen hex => ?_
      obtain ⟨r'', hr'', hinv', hlater⟩ := hr.1.step a hen
      obtain rfl := Except.ok.inj (hr''.symm.trans hex)
      exact ⟨hinv', hr.2.step hlater⟩
    obtain ⟨ht, hsince⟩ := hsince
    intro u hu hnew got hgot
    obtain ⟨call, hcall, hres⟩ := ht.uses.received u hu got hgot
    refine ⟨call, hcall, hres, ht.results call got hres, fun hold => ?_⟩
    have hlt : call < s.run.calls.next := hinv.started call hold
    exact Nat.lt_irrefl _ (Nat.lt_of_lt_of_le hlt (hsince.uses u hu hnew call hcall))

/-- Two jobs load one source, with a reset between them. -/
theorem resource_fresh_two_jobs :
    ∃ r t : StorageRun, r.started = [0] ∧ ∃ u ∈ t.uses, u.job = 1 ∧
      (∃ file, u.kind = .received (some file, none)) ∧
      ∃ call, u.call = some call ∧ call ∈ t.started ∧ call ∉ r.started := by
  let response : FileResponse := { error := none, filename := "main.cpp", size := 3 }
  have hreach := Machine.Reachable.of_runs machine Machine.always
    [.initJob .compileJob 0 5 1 2, .lock 0, .start 0, .get 0, .startDownload 0, .download 0 response,
      .wake 0]
    (.of_init ⟨100, rfl⟩)
    ⟨trivial, trivial, _, rfl, trivial, ⟨_, _, rfl⟩, _, rfl, trivial, rfl, _, rfl,
      trivial, ⟨_, _, rfl⟩, _, rfl, trivial, ⟨⟨_, rfl⟩, by decide⟩, _, rfl,
      trivial, ⟨⟨_, rfl⟩, by decide⟩, _, rfl, trivial, ⟨_, _, _, rfl, by decide⟩, _, rfl, rfl⟩
  have hfresh := (resource_fresh hreach).2 _ rfl _ (Machine.Reaches.of_runs machine Machine.always
    [.initJob .compileJob 0 5 1 2, .lock 1, .start 1, .get 1, .startDownload 1, .download 1 response,
      .wake 1]
    ⟨trivial, trivial, _, rfl, trivial, ⟨_, _, rfl⟩, _, rfl, trivial, rfl, _, rfl,
      trivial, ⟨_, _, rfl⟩, _, rfl, trivial, ⟨⟨_, rfl⟩, by decide⟩, _, rfl,
      trivial, ⟨⟨_, rfl⟩, by decide⟩, _, rfl, trivial, ⟨_, _, _, rfl, by decide⟩, _, rfl, rfl⟩)
  obtain ⟨call, hcall, -, hstarted, hnot⟩ := hfresh _ List.mem_cons_self rfl _ rfl
  exact ⟨_, _, rfl, _, List.mem_cons_self, rfl, ⟨_, rfl⟩, call, hcall, hstarted, hnot⟩

end StorageRun

end TestingSystem
