import TestingSystem.Master.RegistryBooks

/-!
# The bookkeeping of the registry

A state is as good as the one in which the holder of the mutex has done the writes that it owes
(`Settles`), and there the invariant of the master holds. Between two sections of the registry nothing
is owed, and the two maps, `nextJob` and the list of invokers agree (`registry_consistent`).
-/

set_option autoImplicit false

namespace TestingSystem

/-! ## The two maps -/

namespace Books

variable {F : Type} {b : Books F}

/-- The two maps have the same keys. -/
def SameKeys (b : Books F) : Prop :=
  ∀ id, (∃ ref, b.invokerByJobID.get? id = some ref) ↔ ∃ job, b.testingJobs.get? id = some job

theorem SameKeys.set (h : b.SameKeys) (id : JobID) (ref : InvokerRef) (job : JobRef)
    (next : Option JobRef) :
    SameKeys { b with
      invokerByJobID := b.invokerByJobID.set id ref
      testingJobs := b.testingJobs.set id job
      nextJob := next } := by
  intro x
  simp only [GoMap.get?_set]
  by_cases hx : x = id
  · simp [hx]
  · simpa only [hx, if_false] using h x

theorem SameKeys.delete (h : b.SameKeys) (id : JobID) :
    SameKeys { b with
      invokerByJobID := b.invokerByJobID.delete id
      testingJobs := b.testingJobs.delete id } := by
  intro x
  simp only [GoMap.get?_delete]
  by_cases hx : x = id
  · simp [hx]
  · simpa only [hx, if_false] using h x

end Books

/-! ## The list of invokers -/

/-- Two invokers that are both not failed have different addresses. -/
def Apart (objects : GoMap InvokerRef Invoker) (a b : InvokerRef) : Prop :=
  ∀ i j, objects.get? a = some i → objects.get? b = some j → i.failed = false → j.failed = false →
    i.address ≠ j.address

/-- No address has two invokers that are not failed. -/
def InvokerRegistry.Unique {F : Type} (r : InvokerRegistry F) : Prop :=
  r.invokers.Pairwise (Apart r.objects)

/-- The invoker is failed or has another address. -/
def Refuses (objects : GoMap InvokerRef Invoker) (status : Status) (ref : InvokerRef) : Prop :=
  ∀ i, objects.get? ref = some i → i.failed = false → i.address ≠ status.address

namespace MasterRun

variable {F : Type} {s t : MasterRun F} {a b : InvokerRef} {status : Status}

theorem Ages.of_get? (h : Ages s t) {i : Invoker} (hi : s.registry.objects.get? a = some i)
    {i' : Invoker} (hi' : t.registry.objects.get? a = some i') : i.Aged i' := by
  obtain ⟨i₁, hi₁, haged⟩ := h a i hi
  obtain rfl := Option.some.inj (hi'.symm.trans hi₁)
  exact haged

theorem Apart.ages (h : Ages s t) (hab : Apart s.registry.objects a b)
    (ha : ∃ i, s.registry.objects.get? a = some i) (hb : ∃ j, s.registry.objects.get? b = some j) :
    Apart t.registry.objects a b := by
  obtain ⟨i, hi⟩ := ha
  obtain ⟨j, hj⟩ := hb
  intro i' j' hi' hj' hfi hfj
  have hi' := h.of_get? hi hi'
  have hj' := h.of_get? hj hj'
  rw [hi'.1, hj'.1]
  exact hab i j hi hj (hi'.healthy hfi) (hj'.healthy hfj)

theorem Refuses.ages (h : Ages s t) (hr : Refuses s.registry.objects status a)
    (ha : ∃ i, s.registry.objects.get? a = some i) : Refuses t.registry.objects status a := by
  obtain ⟨i, hi⟩ := ha
  intro i' hi' hf
  have hi' := h.of_get? hi hi'
  rw [hi'.1]
  exact hr i hi (hi'.healthy hf)

theorem unique_of_ages (h : Ages s t) (hunique : s.registry.Unique)
    (hreg : ∀ ref ∈ s.registry.invokers, ∃ i, s.registry.objects.get? ref = some i)
    (hsub : t.registry.invokers.Sublist s.registry.invokers) : t.registry.Unique := by
  have hall : s.registry.invokers.Pairwise (Apart t.registry.objects) :=
    hunique.imp_of_mem fun ha hb hab => Apart.ages h hab (hreg _ ha) (hreg _ hb)
  exact hall.sublist hsub

end MasterRun

/-! ## The invariant -/

namespace RegistrySection

variable {F : Type}

/-- What the books are when the writes that the holder owes are done. A result whose job is no longer
recorded counts as accepted until `JobTested` says otherwise. -/
def Settles : RegistrySection F → Books F → Books F → Prop
  | .free, b, b' | .sendJobs _, b, b' | .onInvokerFailure _, b, b' => b' = b
  | .nextJob job _, b, b' => b' = { b with nextJob := job }
  | .recordJob ref _, b, b' => ∃ job id, b.nextJob = some job ∧ b' = { b with
      invokerByJobID := b.invokerByJobID.set id ref
      testingJobs := b.testingJobs.set id job
      nextJob := none }
  | .rescheduled _ id, b, b' => b' = { b with
      invokerByJobID := b.invokerByJobID.delete id
      testingJobs := b.testingJobs.delete id }
  | .upsertInvoker _ handler _, b, b' => b' = { b with handled := handler.toList ++ b.handled }
  | .jobTested result _, b, b' => b' = { b with handled := (result, true) :: b.handled }

/-- The invokers that the holder works with, and those that `UpsertInvoker` has asked. -/
def Located : RegistrySection F → InvokerRegistry F → Prop
  | .free, _ => True
  | .sendJobs refs, r | .nextJob _ refs, r => ∀ a ∈ refs, a ∈ r.invokers
  | .recordJob ref refs, r => ∀ a ∈ ref :: refs, a ∈ r.invokers
  | .onInvokerFailure ref, r | .rescheduled ref _, r | .jobTested _ ref, r =>
    ∃ i, r.objects.get? ref = some i
  | .upsertInvoker status _ refs, r =>
    ∃ asked, r.invokers = asked ++ refs ∧ ∀ a ∈ asked, Refuses r.objects status a

theorem Settles.invokers {m : RegistrySection F} {b b' : Books F} (h : m.Settles b b') :
    b'.invokers = b.invokers := by
  cases m with
  | recordJob ref refs =>
    obtain ⟨job, id, -, rfl⟩ := h
    rfl
  | _ =>
    obtain rfl := h
    rfl

theorem Located.ages {m : RegistrySection F} {s t : MasterRun F} (h : m.Located s.registry)
    (hages : MasterRun.Ages s t)
    (hreg : ∀ ref ∈ s.registry.invokers, ∃ i, s.registry.objects.get? ref = some i)
    (hinvokers : t.registry.invokers = s.registry.invokers) : m.Located t.registry := by
  have hobject : ∀ ref, (∃ i, s.registry.objects.get? ref = some i) →
      ∃ i, t.registry.objects.get? ref = some i := by
    rintro ref ⟨i, hi⟩
    obtain ⟨i', hi', -⟩ := hages ref i hi
    exact ⟨i', hi'⟩
  cases m with
  | free => trivial
  | sendJobs refs => exact fun a ha => hinvokers ▸ h a ha
  | nextJob job refs => exact fun a ha => hinvokers ▸ h a ha
  | recordJob ref refs => exact fun a ha => hinvokers ▸ h a ha
  | onInvokerFailure ref => exact hobject ref h
  | rescheduled ref id => exact hobject ref h
  | jobTested result ref => exact hobject ref h
  | upsertInvoker status handler refs =>
    obtain ⟨asked, hsplit, hasked⟩ := h
    refine ⟨asked, hinvokers.trans hsplit, fun a ha => ?_⟩
    exact MasterRun.Refuses.ages hages (hasked a ha)
      (hreg a (hsplit ▸ List.mem_append_left _ ha))

end RegistrySection

/-- The bookkeeping of the registry. -/
structure InvokerRegistry.Consistent {F : Type} (r : InvokerRegistry F) : Prop where
  keys : ∀ id, (∃ ref, r.invokerByJobID.get? id = some ref) ↔
    ∃ job, r.testingJobs.get? id = some job
  ids : ∀ id job, r.testingJobs.get? id = some job →
    ∃ object, r.queue.jobs.get? job = some object ∧ object.id = id
  next : ∀ job, r.nextJob = some job → ∃ object, r.queue.jobs.get? job = some object ∧
    r.invokerByJobID.get? object.id = none ∧ r.testingJobs.get? object.id = none
  addresses : r.Unique

namespace RegistryRun

open MasterRun

variable {F : Type} [Add F] [Min F] [Zero F] [One F]

/-- The invariant of the registry and of the holder of its mutex. -/
structure Inv (s : RegistryRun F) : Prop where
  settled : ∃ b, s.mutex.Settles s.run.books b ∧ (s.run.withBooks b).Inv
  keys : s.run.books.SameKeys
  unique : s.run.registry.Unique
  located : s.mutex.Located s.run.registry

variable {s : RegistryRun F}

theorem Inv.coherent (h : s.Inv) {ref : InvokerRef} {i : Invoker}
    (hi : s.run.registry.objects.get? ref = some i) : i.Coherent := by
  obtain ⟨b, -, hv⟩ := h.settled
  exact (hv.custody.objects ref i hi).2

theorem Inv.registered (h : s.Inv) :
    ∀ ref ∈ s.run.registry.invokers, ∃ i, s.run.registry.objects.get? ref = some i := by
  obtain ⟨b, hb, hv⟩ := h.settled
  have hinvokers : b.invokers = s.run.registry.invokers := hb.invokers
  exact hinvokers ▸ hv.custody.registered

/-- The invariant after a step that adds no invoker. -/
theorem Inv.next (h : s.Inv) {t : RegistryRun F} (hages : Ages s.run t.run)
    (hsub : t.run.registry.invokers.Sublist s.run.registry.invokers)
    (hsettled : ∃ b, t.mutex.Settles t.run.books b ∧ (t.run.withBooks b).Inv)
    (hkeys : t.run.books.SameKeys) (hlocated : t.mutex.Located t.run.registry) : t.Inv :=
  ⟨hsettled, hkeys, unique_of_ages hages h.unique h.registered hsub, hlocated⟩

/-- A section of the queue or of an invoker, at any time. -/
theorem Inv.elsewhere (h : s.Inv) {a : MasterStep F} (ha : a.Elsewhere) (hen : s.run.enabled a) :
    Yields Panics (fun t => s.run.OwnAddress a → Inv { s with run := t }) (s.run.exec a) := by
  obtain ⟨b, hb, hv⟩ := h.settled
  have hstep := hv.step ((enabled_withBooks ha b).2 hen)
  rw [exec_withBooks ha] at hstep
  cases hex : s.run.exec a with
  | error p =>
    rw [hex] at hstep
    exact hstep
  | ok t =>
    rw [hex] at hstep
    have ht : (t.withBooks b).Inv := hstep.inv
    intro hok
    have hbooks := books_elsewhere ha hex
    have hages := ages_elsewhere (fun _ _ => h.coherent) ha hen hok hex
    have hinvokers : t.registry.invokers = s.run.registry.invokers :=
      congrArg Books.invokers hbooks
    exact h.next hages (hinvokers ▸ .refl _) ⟨b, hbooks ▸ hb, ht⟩ (hbooks ▸ h.keys)
      (h.located.ages hages h.registered hinvokers)

/-! ## Starts of sections -/

/-- Where the holder owes nothing, the invariant of the master holds. -/
theorem Inv.calm (h : s.Inv) (hm : ∀ b b', s.mutex.Settles b b' → b' = b) : s.run.Inv := by
  obtain ⟨b, hb, hv⟩ := h.settled
  obtain rfl := hm _ _ hb
  exact hv

theorem Inv.lock (h : s.Inv) {call : RegistryCall F} (hen : s.enabled (.lock call)) :
    ∃ t, s.lock call = .ok t ∧ t.Inv := by
  obtain ⟨run, mutex⟩ := s
  obtain ⟨rfl, hcall⟩ : mutex = .free ∧ _ := hen
  have hrun : run.Inv := h.calm fun _ _ hb => hb
  have hages : Ages run run := ages_of_eq rfl
  cases call with
  | sendJobs =>
    exact ⟨_, rfl, h.next hages (.refl _) ⟨_, rfl, hrun⟩ h.keys fun a ha => ha⟩
  | onInvokerFailure ref =>
    obtain ⟨i, jobs, hi, -⟩ := hcall
    exact ⟨_, rfl, h.next hages (.refl _) ⟨_, rfl, hrun⟩ h.keys ⟨i, hi⟩⟩
  | upsertInvoker status =>
    exact ⟨_, rfl, h.next hages (.refl _) ⟨_, rfl, hrun⟩ h.keys ⟨[], rfl, fun a ha => (nomatch ha)⟩⟩
  | upsertAfterResult k =>
    obtain ⟨entry, hentry⟩ := hcall
    have hentry : run.handled[k]? = some entry := hentry
    let t : RegistryRun F := {
      run := { run with handled := run.handled.eraseIdx k }
      mutex := .upsertInvoker entry.1.invokerStatus (some entry) run.registry.invokers }
    have hq : run.Quiet { run with handled := entry :: run.handled.eraseIdx k } :=
      ⟨rfl, rfl, rfl, rfl, Nat.le_refl _, fun _ hs => hs, pending_eraseIdx hentry, rfl, rfl, rfl, rfl,
        rfl, rfl, rfl, rfl⟩
    exact ⟨t, by simp only [RegistryRun.lock, hentry]; rfl, h.next hages (.refl _)
      ⟨_, rfl, hrun.quiet hq hrun.custody hrun.drained⟩ h.keys ⟨[], rfl, fun a ha => (nomatch ha)⟩⟩
  | handleInvokerJobResult result =>
    rcases hrun.takeResult result with
      ⟨t, he, ht, hold, hbooks⟩ | ⟨ref, t, he, ht, hold, hi, hbooks⟩
    · refine ⟨⟨t, .free⟩, by simp only [RegistryRun.lock, he, ok_bind]; rfl, ?_⟩
      have hinvokers : t.registry.invokers = run.registry.invokers := congrArg Books.invokers hbooks
      exact h.next hold (hinvokers ▸ .refl _) ⟨_, rfl, ht⟩ (hbooks ▸ h.keys) trivial
    · refine ⟨⟨t, .jobTested result ref⟩, by simp only [RegistryRun.lock, he, ok_bind]; rfl, ?_⟩
      have hinvokers : t.registry.invokers = run.registry.invokers := congrArg Books.invokers hbooks
      exact h.next hold (hinvokers ▸ .refl _) ⟨_, rfl, ht⟩ (hbooks ▸ h.keys.delete _) hi

/-! ## Steps of the holder -/

section Advance

variable {run : MasterRun F} {ref : InvokerRef} {refs : List InvokerRef} {order : RangeOrder}

/-- `SendJobs`, when it has no next job. -/
theorem Inv.callNextJob (h : Inv ⟨run, .sendJobs (ref :: refs)⟩)
    (hnext : run.registry.nextJob = none) :
    ∃ t, advance ⟨run, .sendJobs (ref :: refs)⟩ order = .ok t ∧ t.Inv := by
  have hrun : run.Inv := h.calm fun _ _ hb => hb
  obtain ⟨t', he, hadvanced⟩ := hrun.takeNextJob
  rw [takeNextJob_calls hnext] at he
  obtain ⟨⟨job, t⟩, hcall, he⟩ := bind_eq_ok.1 he
  obtain rfl := Except.ok.inj he
  obtain ⟨hbooks, hobjects⟩ := callNextJob_same hcall
  have hinvokers : t.registry.invokers = run.registry.invokers := congrArg Books.invokers hbooks
  refine ⟨⟨t, .nextJob job (ref :: refs)⟩, ?_, ?_⟩
  · simp only [advance, hnext, hcall, ok_bind]
    rfl
  · exact h.next (ages_of_eq hobjects) (hinvokers ▸ .refl _) ⟨_, rfl, hadvanced.inv⟩ (hbooks ▸ h.keys)
      fun a ha => hinvokers ▸ h.located a ha

/-- `SendJobs`, after `NextJob`. -/
theorem Inv.setNextJob {job : Option JobRef} (h : Inv ⟨run, .nextJob job refs⟩) :
    ∃ t, advance ⟨run, .nextJob job refs⟩ order = .ok t ∧ t.Inv := by
  obtain ⟨b, rfl, hv⟩ := h.settled
  cases job with
  | none => exact ⟨_, rfl, h.next (ages_of_eq rfl) (.refl _) ⟨_, rfl, hv⟩ h.keys trivial⟩
  | some job => exact ⟨_, rfl, h.next (ages_of_eq rfl) (.refl _) ⟨_, rfl, hv⟩ h.keys h.located⟩

/-- `SendJobs`, when it has a job. -/
theorem Inv.callTrySendJob (h : Inv ⟨run, .sendJobs (ref :: refs)⟩) {job : JobRef}
    (hnext : run.registry.nextJob = some job) :
    ∃ t, advance ⟨run, .sendJobs (ref :: refs)⟩ order = .ok t ∧ t.Inv := by
  have hrun : run.Inv := h.calm fun _ _ hb => hb
  obtain ⟨t', he, hadvanced⟩ := hrun.trySendJob (h.located ref List.mem_cons_self)
  rw [trySendJob_calls hnext] at he
  obtain ⟨⟨sent, t⟩, hcall, he⟩ := bind_eq_ok.1 he
  obtain ⟨hbooks, hages⟩ := callTrySendJob_same (fun _ _ => h.coherent) hcall
  have hinvokers : t.registry.invokers = run.registry.invokers := congrArg Books.invokers hbooks
  cases sent with
  | false =>
    obtain rfl := Except.ok.inj he
    refine ⟨⟨t, .sendJobs refs⟩, ?_, ?_⟩
    · simp only [advance, hnext, hcall, ok_bind]
      rfl
    · exact h.next hages (hinvokers ▸ .refl _) ⟨_, rfl, hadvanced.inv⟩ (hbooks ▸ h.keys)
        fun a ha => hinvokers ▸ h.located a (List.mem_cons_of_mem _ ha)
  | true =>
    have hnext' : t.registry.nextJob = some job := (congrArg Books.nextJob hbooks).trans hnext
    have he : t.recordJob ref = .ok t' := he
    obtain ⟨object, hobject⟩ : ∃ object, t.queue.jobs.get? job = some object := by
      rw [MasterRun.recordJob, hnext', deref_some, ok_bind] at he
      obtain ⟨object, hobject, -⟩ := bind_eq_ok.1 he
      exact ⟨object, deref_ok hobject⟩
    obtain rfl := Except.ok.inj (he.symm.trans (recordJob_eq hnext' hobject))
    refine ⟨⟨t, .recordJob ref refs⟩, ?_, ?_⟩
    · simp only [advance, hnext, hcall, ok_bind]
      rfl
    · exact h.next hages (hinvokers ▸ .refl _) ⟨_, ⟨job, object.id, hnext', rfl⟩, hadvanced.inv⟩
        (hbooks ▸ h.keys) fun a ha => hinvokers ▸ h.located a ha

/-- `SendJobs`, after `TrySendJob`. The job still has the ID under which it was sent. -/
theorem Inv.recordJob (h : Inv ⟨run, .recordJob ref refs⟩) :
    ∃ t, advance ⟨run, .recordJob ref refs⟩ order = .ok t ∧ t.Inv := by
  obtain ⟨b, ⟨job, id, hnext, rfl⟩, hv⟩ := h.settled
  obtain ⟨-, -, object, hobject, rfl⟩ := hv.custody.testing id job (GoMap.get?_set_self _ _ _)
  have hobject : run.queue.jobs.get? job = some object := hobject
  let recorded : MasterRun F := run.withBooks { run.books with
    invokerByJobID := run.registry.invokerByJobID.set object.id ref
    testingJobs := run.registry.testingJobs.set object.id job
    nextJob := none }
  have hrecord : run.recordJob ref = .ok recorded := recordJob_eq hnext hobject
  refine ⟨⟨recorded, .sendJobs (ref :: refs)⟩, ?_, ?_⟩
  · simp only [advance, hrecord, ok_bind]
    rfl
  · exact h.next (ages_of_eq rfl) (.refl _) ⟨_, rfl, hv⟩ (h.keys.set _ _ _ _) h.located

/-- The loop of `OnInvokerFailure`. -/
theorem Inv.callRescheduleJob (h : Inv ⟨run, .onInvokerFailure ref⟩) {i : Invoker}
    (hi : run.registry.objects.get? ref = some i) {jobID : JobID} {jobs : List JobID}
    (hf : i.failure = .extracted (jobID :: jobs)) :
    ∃ t, advance ⟨run, .onInvokerFailure ref⟩ order = .ok t ∧ t.Inv := by
  have hrun : run.Inv := h.calm fun _ _ hb => hb
  obtain ⟨t', he, hadvanced⟩ := hrun.rescheduleJob hi hf
  rw [rescheduleJob_calls hi hf] at he
  obtain ⟨⟨called, t⟩, hcall, he⟩ := bind_eq_ok.1 he
  obtain ⟨hbooks, hages⟩ := callRescheduleJob_same hi hcall
  have hinvokers : t.registry.invokers = run.registry.invokers := congrArg Books.invokers hbooks
  have hobject : ∃ i, t.registry.objects.get? ref = some i := by
    obtain ⟨i', hi', -⟩ := hages ref i hi
    exact ⟨i', hi'⟩
  cases called with
  | none =>
    obtain rfl := Except.ok.inj he
    refine ⟨⟨t, .onInvokerFailure ref⟩, ?_, ?_⟩
    · simp only [advance, hi, deref_some, ok_bind, hf, hcall]
      rfl
    · exact h.next hages (hinvokers ▸ .refl _) ⟨_, rfl, hadvanced.inv⟩ (hbooks ▸ h.keys) hobject
  | some id =>
    obtain rfl := Except.ok.inj he
    refine ⟨⟨t, .rescheduled ref id⟩, ?_, ?_⟩
    · simp only [advance, hi, deref_some, ok_bind, hf, hcall]
      rfl
    · exact h.next hages (hinvokers ▸ .refl _) ⟨_, rfl, hadvanced.inv⟩ (hbooks ▸ h.keys) hobject

/-- `OnInvokerFailure`, after `RescheduleJob`. -/
theorem Inv.deleteJob {id : JobID} (h : Inv ⟨run, .rescheduled ref id⟩) :
    ∃ t, advance ⟨run, .rescheduled ref id⟩ order = .ok t ∧ t.Inv := by
  obtain ⟨b, rfl, hv⟩ := h.settled
  exact ⟨_, rfl, h.next (ages_of_eq rfl) (.refl _) ⟨_, rfl, hv⟩ (h.keys.delete id) h.located⟩

/-- The end of `OnInvokerFailure`. -/
theorem Inv.removeInvoker (h : Inv ⟨run, .onInvokerFailure ref⟩) {i : Invoker}
    (hi : run.registry.objects.get? ref = some i) (hf : i.failure = .extracted []) :
    ∃ t, advance ⟨run, .onInvokerFailure ref⟩ order = .ok t ∧ t.Inv := by
  have hrun : run.Inv := h.calm fun _ _ hb => hb
  obtain ⟨t, he, hages, hbooks⟩ := removeInvoker_eq hi
  have ht : t.Inv := ((hrun.removeInvoker hi hf).value he).inv
  refine ⟨⟨t, .free⟩, ?_, ?_⟩
  · simp only [advance, hi, deref_some, ok_bind, hf, he]
    rfl
  · have hinvokers : t.registry.invokers = run.registry.invokers.filter fun a => a ≠ ref :=
      congrArg Books.invokers hbooks
    exact h.next hages (hinvokers ▸ List.filter_sublist) ⟨_, rfl, ht⟩ (hbooks ▸ h.keys) trivial

/-- `HandleInvokerJobResult`, after the deletions. -/
theorem Inv.callJobTested {result : InvokerJobResult F} (h : Inv ⟨run, .jobTested result ref⟩) :
    ∃ t, advance ⟨run, .jobTested result ref⟩ order = .ok t ∧ t.Inv := by
  obtain ⟨b, rfl, hv⟩ := h.settled
  obtain ⟨i, hi⟩ := h.located
  have hv : MasterRun.Inv { run with handled := (result, true) :: run.handled } := hv
  obtain ⟨t, he, ht, hages, tested, hbooks⟩ := hv.callJobTested hi
  refine ⟨⟨t, .free⟩, ?_, ?_⟩
  · simp only [advance, he, ok_bind]
    rfl
  · have hinvokers : t.registry.invokers = run.registry.invokers := congrArg Books.invokers hbooks
    exact h.next hages (hinvokers ▸ .refl _) ⟨_, rfl, ht⟩ (hbooks ▸ h.keys) trivial

variable {status : Status} {handler : Option (InvokerJobResult F × Bool)}

/-- `UpsertInvoker`, for one invoker. -/
theorem Inv.verify (h : Inv ⟨run, .upsertInvoker status handler (ref :: refs)⟩)
    (ho : ∀ ids, (order ids).Perm ids) :
    ∃ t, advance ⟨run, .upsertInvoker status handler (ref :: refs)⟩ order = .ok t ∧ t.Inv := by
  obtain ⟨b, rfl, hv⟩ := h.settled
  obtain ⟨asked, hsplit, hasked⟩ := h.located
  have hsplit : run.registry.invokers = asked ++ ref :: refs := hsplit
  have hregistered : ref ∈ run.registry.invokers := by rw [hsplit]; simp
  obtain ⟨i, hi⟩ := h.registered ref hregistered
  have hv : MasterRun.Inv { run with handled := handler.toList ++ run.handled } := hv
  obtain ⟨updated, i', he, hv', haged, hrefused⟩ := hv.verify hi status ho
  have he : InvokerRegistry.updateInvokers status order [ref] run.registry =
    .ok (updated, run.registry.setInvoker ref i') := he
  let t : MasterRun F := { run with registry := run.registry.setInvoker ref i' }
  have hages : Ages run t := ages_set hi haged rfl
  cases updated with
  | true =>
    refine ⟨⟨t.afterUpsert handler, .free⟩, ?_, ?_⟩
    · simp only [advance, he, ok_bind]
      rfl
    · have ht : (t.afterUpsert handler).Inv := Inv.afterUpsert hv'
      obtain ⟨hregistry, hbooks⟩ := t.afterUpsert_same handler
      have hinvokers : (t.afterUpsert handler).registry.invokers = run.registry.invokers := by
        rw [hregistry]
        rfl
      exact h.next (ages_set hi haged (congrArg InvokerRegistry.objects hregistry))
        (hinvokers ▸ .refl _) ⟨_, rfl, ht⟩ (hbooks ▸ h.keys) trivial
  | false =>
    refine ⟨⟨t, .upsertInvoker status handler refs⟩, ?_, ?_⟩
    · simp only [advance, he, ok_bind]
      rfl
    · refine h.next hages (.refl _) ⟨_, rfl, hv'⟩ h.keys ⟨asked ++ [ref], ?_, fun a ha => ?_⟩
      · exact hsplit.trans (List.append_cons asked ref refs)
      · rcases List.mem_append.1 ha with ha | ha
        · exact Refuses.ages hages (hasked a ha) (h.registered a (hsplit ▸ List.mem_append_left _ ha))
        · obtain rfl := List.mem_singleton.1 ha
          intro j hj
          obtain rfl := Option.some.inj ((GoMap.get?_set_self _ _ _).symm.trans hj)
          exact hrefused rfl

/-- The end of `UpsertInvoker`, when every invoker has refused the status. -/
theorem Inv.addInvoker (h : Inv ⟨run, .upsertInvoker status handler []⟩) :
    ∃ t, advance ⟨run, .upsertInvoker status handler []⟩ order = .ok t ∧ t.Inv := by
  obtain ⟨b, rfl, hv⟩ := h.settled
  obtain ⟨asked, hsplit, hasked⟩ := h.located
  have hsplit : run.registry.invokers = asked := hsplit.trans (List.append_nil asked)
  have hv : MasterRun.Inv { run with handled := handler.toList ++ run.handled } := hv
  let t : MasterRun F := { run with registry := run.registry.addInvoker status }
  have ht : (t.afterUpsert handler).Inv := Inv.afterUpsert (hv.addInvoker status)
  obtain ⟨hregistry, hbooks⟩ := t.afterUpsert_same handler
  have hfresh : ∀ a ∈ run.registry.invokers, ∃ i, run.registry.objects.get? a = some i ∧
      t.registry.objects.get? a = some i := by
    intro a ha
    obtain ⟨i, hi⟩ := h.registered a ha
    have hlt : a < run.registry.fresh := (hv.custody.objects a i hi).1
    exact ⟨i, hi, (GoMap.get?_set_ne _ _ (Nat.ne_of_lt hlt)).trans hi⟩
  have hunique : t.registry.Unique := by
    refine List.pairwise_append.2 ⟨h.unique.imp_of_mem fun {a b} ha hb hab => ?_,
      List.pairwise_singleton _ _, fun a ha b hb => ?_⟩
    · -- the objects of the others are as before
      obtain ⟨i, hi, hi'⟩ := hfresh a ha
      obtain ⟨j, hj, hj'⟩ := hfresh b hb
      intro i₁ j₁ hi₁ hj₁
      obtain rfl := Option.some.inj (hi₁.symm.trans hi')
      obtain rfl := Option.some.inj (hj₁.symm.trans hj')
      exact hab _ _ hi hj
    · -- the new one has the address that every other one refused
      obtain rfl := List.mem_singleton.1 hb
      obtain ⟨i, hi, hi'⟩ := hfresh a ha
      intro i₁ j₁ hi₁ hj₁ hfi _
      obtain rfl := Option.some.inj (hi₁.symm.trans hi')
      obtain rfl := Option.some.inj ((GoMap.get?_set_self _ _ _).symm.trans hj₁)
      exact hasked a (hsplit ▸ ha) _ hi hfi
  refine ⟨⟨t.afterUpsert handler, .free⟩, rfl, ⟨_, rfl, ht⟩, ?_, ?_, trivial⟩
  · have hkeys : t.books.SameKeys := h.keys
    exact hbooks ▸ hkeys
  · show (t.afterUpsert handler).registry.Unique
    exact hregistry ▸ hunique

end Advance

theorem Inv.advance (h : s.Inv) {order : RangeOrder} (hen : s.enabled (.advance order)) :
    ∃ t, s.advance order = .ok t ∧ t.Inv := by
  obtain ⟨run, mutex⟩ := s
  obtain ⟨hmutex, ho⟩ := hen
  cases mutex with
  | free => exact absurd rfl hmutex
  | sendJobs refs =>
    cases refs with
    | nil =>
      have hrun : run.Inv := h.calm fun _ _ hb => hb
      exact ⟨_, rfl, h.next (ages_of_eq rfl) (.refl _) ⟨_, rfl, hrun⟩ h.keys trivial⟩
    | cons ref refs =>
      cases hnext : run.registry.nextJob with
      | none => exact h.callNextJob hnext
      | some job => exact h.callTrySendJob hnext
  | nextJob job refs => exact h.setNextJob
  | recordJob ref refs => exact h.recordJob
  | onInvokerFailure ref =>
    obtain ⟨i, hi⟩ := h.located
    have hi : run.registry.objects.get? ref = some i := hi
    cases hf : i.failure with
    | extracted jobs =>
      cases jobs with
      | nil => exact h.removeInvoker hi hf
      | cons id jobs => exact h.callRescheduleJob hi hf
    | notStarted | started | finished =>
      exact ⟨_, by simp only [RegistryRun.advance, hi, deref_some, ok_bind, hf], h⟩
  | rescheduled ref id => exact h.deleteJob
  | upsertInvoker status handler refs =>
    cases refs with
    | nil => exact h.addInvoker
    | cons ref refs => exact h.verify ho
  | jobTested result ref => exact h.callJobTested

/-! ## Runs -/

/-- Every status comes from the address that it reports. -/
def OwnAddress (s : RegistryRun F) : RegistryStep F → Prop
  | .elsewhere a => s.run.OwnAddress a
  | .lock _ | .advance _ => True

/-- The step lemma. -/
theorem Inv.step (h : s.Inv) {a : RegistryStep F} (hen : s.enabled a) :
    Yields Panics (fun t => s.OwnAddress a → t.Inv) (s.exec a) := by
  cases a with
  | elsewhere a => exact (h.elsewhere hen.1 hen.2).bind fun t ht => ht
  | lock call =>
    obtain ⟨t, he, ht⟩ := h.lock hen
    simp only [exec, he, Yields.ok_iff]
    exact fun _ => ht
  | advance order =>
    obtain ⟨t, he, ht⟩ := h.advance hen
    simp only [exec, he, Yields.ok_iff]
    exact fun _ => ht

theorem inv_of_reachable (hs : machine.Reachable OwnAddress s) : s.Inv := by
  refine hs.invariant ?_ fun s a t h hok hen hex => (h.step hen).value hex hok
  rintro s rfl
  exact ⟨⟨_, rfl, inv_new⟩, fun _ => ⟨fun ⟨_, h⟩ => (nomatch h), fun ⟨_, h⟩ => (nomatch h)⟩, .nil,
    trivial⟩

/-- Between two sections of the registry its two maps have the same keys, a recorded job has the ID that
it is recorded under, `nextJob` is recorded in neither map, and no address has two invokers that are not
failed. No step panics because a testing job has no invoker. -/
theorem registry_consistent (hs : machine.Reachable OwnAddress s) :
    (s.mutex = .free → s.run.registry.Consistent) ∧
      ∀ a p, s.enabled a → s.exec a = .error p → p ≠ .noInvokerForTestingJob := by
  have h := inv_of_reachable hs
  refine ⟨fun hfree => ?_, fun a p hen hex => ?_⟩
  · have hrun : s.run.Inv := h.calm fun b b' hb => by
      rw [hfree] at hb
      exact hb
    refine ⟨h.keys, fun id job hget => ?_, fun job hnext => ?_, h.unique⟩
    · obtain ⟨-, -, object, hobject, hid⟩ := hrun.custody.testing id job hget
      exact ⟨object, hobject, hid⟩
    · obtain ⟨id, ⟨-, object, hobject, rfl⟩, hids⟩ := hrun.custody.nextID hnext
      have hnodup := hrun.exact.nodup
      rw [InvokerRegistry.ledger, hids, List.append_assoc, List.singleton_append,
        List.nodup_cons] at hnodup
      have hunrecorded : s.run.registry.invokerByJobID.get? object.id = none :=
        (GoMap.not_mem_keys_iff _ _).1 fun hkey => hnodup.1 (List.mem_append_left _ hkey)
      refine ⟨object, hobject, hunrecorded, ?_⟩
      rw [Option.eq_none_iff_forall_ne_some]
      intro other hother
      obtain ⟨ref, href⟩ := (h.keys object.id).2 ⟨other, hother⟩
      exact absurd (hunrecorded.symm.trans href) (by simp)
  · have hp : Panics p := (h.step hen).failure hex
    rintro rfl
    rcases hp with hp | hp | hp | hp <;> cases hp

/-- The invoker fails and its jobs are extracted after `TrySendJob` and before the job is recorded. -/
theorem registry_consistent_failed :
    ∃ s : RegistryRun Int, s.mutex = .free ∧ s.run.registry.invokerByJobID.get? 2 = some 1 ∧
      (s.run.registry.objects.get? 1).map Invoker.failure = some (.extracted [2]) ∧
      s.run.registry.Consistent := by
  let oneJob : Status := { maxNewJobs := 1, activeJobIDs := [], epoch := 1, address := "invoker" }
  have hperm : ∀ ids : List JobID, (id ids).Perm ids := fun _ => .refl _
  have hreach := Machine.Reachable.of_runs (machine (F := Int)) OwnAddress
    [.elsewhere (.submit GeneratorRun.twoTests GeneratorRun.newSubmission 0),
      .lock (.upsertInvoker oneJob), .advance id, .lock .sendJobs, .advance id, .advance id, .advance id,
      .elsewhere (.ping 1 none id), .elsewhere (.extractJobs 1 id), .advance id, .advance id, .advance id]
    (.of_init rfl)
    ⟨trivial, ⟨trivial, List.not_mem_nil⟩, _, rfl, trivial, ⟨rfl, trivial⟩, _, rfl,
      trivial, ⟨by simp, hperm⟩, _, rfl, trivial, ⟨rfl, trivial⟩, _, rfl,
      trivial, ⟨by simp, hperm⟩, _, rfl, trivial, ⟨by simp, hperm⟩, _, rfl,
      trivial, ⟨by simp, hperm⟩, _, rfl,
      fun _ _ _ h => (nomatch h), ⟨trivial, hperm⟩, _, rfl,
      trivial, ⟨trivial, ⟨_, rfl, rfl⟩, hperm⟩, _, rfl,
      trivial, ⟨by simp, hperm⟩, _, rfl, trivial, ⟨by simp, hperm⟩, _, rfl,
      trivial, ⟨by simp, hperm⟩, _, rfl, rfl⟩
  exact ⟨_, rfl, rfl, rfl, (registry_consistent hreach).1 rfl⟩

end RegistryRun

end TestingSystem
