import TestingSystem.Master.LostJobs
import TestingSystem.Master.Sections
import TestingSystem.Master.SubmissionRecords

/-!
# SendJobs sends what can be sent

A call of `SendJobs` ends in one of two ways: every invoker has refused a job, or the queue has nothing
to give. In the second case each submission that is still in testing has a job under way, unless a
result came too late before (`ResultsInTime`).
-/

set_option autoImplicit false

namespace TestingSystem

namespace Invoker

/-- The invoker takes no job: it failed, or it has as many jobs in sending as it asked for. -/
def Refuses (i : Invoker) : Prop :=
  i.failed = true ∨ i.jobTypesCount.read .sendingJob + 1 > i.status.maxNewJobs

end Invoker

namespace InvokerRegistry

variable {F : Type} {r r' : InvokerRegistry F} {ref : InvokerRef}

/-- The object refuses a job. -/
def Refused (r : InvokerRegistry F) (ref : InvokerRef) : Prop :=
  ∃ i, r.objects.get? ref = some i ∧ i.Refuses

/-- There is no job to send, neither in the registry nor in the queue. -/
structure Idle (r : InvokerRegistry F) : Prop where
  nextJob : r.nextJob = none
  failed : r.queue.newFailedJobs = []
  active : r.queue.activeGenerators = []

variable [Add F] [Min F] [Zero F] [One F]

/-- The queue has given no job, so it has none. -/
theorem Custody.idle (h : r.Custody) (he : r.takeNextJob = .ok r') (hnext : r'.nextJob = none) :
    r'.Idle := by
  obtain ⟨r₁, he₁, -, ⟨job, hjob, rfl⟩ | ⟨-, next, q, ht, -, rfl⟩⟩ := h.takeNextJob False []
  · obtain rfl := Except.ok.inj (he₁.symm.trans he)
    rw [hjob] at hnext
    cases hnext
  · obtain rfl := Except.ok.inj (he₁.symm.trans he)
    have hnone : next = none := hnext
    obtain ⟨hfailed, hactive, -⟩ := ht.none hnone
    exact ⟨hnext, hfailed, hactive⟩

end InvokerRegistry

namespace MasterRun

variable {F : Type} [Add F] [Min F] [Zero F] [One F] {s t u : MasterRun F}
variable {r : InvokerRegistry F} {ref : InvokerRef}

/-! ## Submissions in testing -/

omit [Add F] [Min F] [Zero F] [One F] in
/-- Every submission has a generator. -/
def Generated (s : MasterRun F) : Prop :=
  ∀ x ∈ s.submitted, ∃ g finished, s.queue.progress g = some (x, finished)

omit [Add F] [Min F] [Zero F] [One F] in
theorem Generated.of_eq (h : s.Generated) (hsubmitted : t.submitted = s.submitted)
    (hprogress : ∀ g, t.queue.progress g = s.queue.progress g) : t.Generated := by
  intro x hx
  rw [hsubmitted] at hx
  obtain ⟨g, finished, hp⟩ := h x hx
  exact ⟨g, finished, (hprogress g).trans hp⟩

theorem jobCompleted_submitted {k : Nat} {epoch : Epoch} {result : InvokerJobResult F}
    (hresult : s.accepted[k]? = some result) (he : s.exec (.jobCompleted k epoch) = .ok t) :
    t.submitted = s.submitted := by
  have hcall : s.jobCompleted k epoch = .ok t := he
  unfold jobCompleted at hcall
  rw [hresult] at hcall
  obtain ⟨⟨q, submission⟩, hq, -⟩ := bind_eq_ok.1 hcall
  rcases jobCompleted_submissions hresult hq he with ⟨returned, -, hsame, -⟩ | ⟨-, hsame⟩
  · exact hsame
  · exact hsame.submitted

/-- No step drops a generator. -/
theorem Effect.generated {a : MasterStep F} (h : s.Effect a t) (hs : s.Inv) (hgen : s.Generated)
    (he : s.exec a = .ok t) : t.Generated := by
  cases h with
  | quiet hq =>
    refine hgen.of_eq hq.submitted ?_
    intro g
    rw [hq.queue]
  | @submitted problem submission epoch q hsub =>
    obtain ⟨generator, hset, hid, -⟩ := hsub.generators
    have hunused : s.queue.progress s.registry.fresh = none :=
      Queue.progress_eq_none.2 (hs.custody.unused _ (Nat.le_refl _))
    intro x hx
    rcases List.mem_cons.1 hx with rfl | hold
    · refine ⟨s.registry.fresh, generator.Finished, ?_⟩
      rw [queue, Queue.progress_set hset, if_pos rfl, hid]
    · obtain ⟨g, finished, hp⟩ := hgen x hold
      refine ⟨g, finished, ?_⟩
      have hne : g ≠ s.registry.fresh := by
        rintro rfl
        rw [hunused] at hp
        cases hp
      rw [queue, Queue.progress_set hset, if_neg hne]
      exact hp
  | taken hnone hcall ht hcreated => exact hgen.of_eq rfl ht.progress
  | sent hnext hid hnew => exact hgen.of_eq rfl fun _ => rfl
  | built hmem hobject => exact hgen.of_eq rfl fun _ => rfl
  | rescheduled hrec hid hr =>
    refine hgen.of_eq rfl ?_
    intro g
    rw [queue, Queue.progress, hr.generators]
    rfl
  | handled hh =>
    refine hgen.of_eq rfl ?_
    intro g
    rw [queue, hh.same]
  | @completed k epoch t result orig gid g c hresult hid hset hregistry =>
    intro x hx
    rw [jobCompleted_submitted hresult he] at hx
    obtain ⟨g', finished, hp⟩ := hgen x hx
    have hprogress := Queue.progress_set hset.generators g'
    by_cases hg : g' = gid
    · -- the generator of the job stays that of its submission
      subst hg
      obtain ⟨g₀, hg₀, hid₀, -⟩ := Queue.progress_eq_some.1 hp
      obtain rfl := Option.some.inj (hset.generator.2.symm.trans hg₀)
      rw [if_pos rfl, hset.settled.submissionID_eq, hid₀] at hprogress
      exact ⟨g', _, hprogress⟩
    · rw [if_neg hg] at hprogress
      exact ⟨g', finished, hprogress.trans hp⟩
  | finished => exact hgen.of_eq rfl fun _ => rfl

/-- What holds in the runs without late results. -/
structure Working (s : MasterRun F) : Prop where
  inv : s.Inv
  kept : s.NoJobLost
  generated : s.Generated

theorem working (hr : machine.Reachable ResultsInTime s) : s.Working := by
  refine hr.invariant (P := Working) ?_ ?_
  · rintro s rfl
    exact ⟨inv_new, fun _ _ _ _ hg => (nomatch hg), fun _ hx => (nomatch hx)⟩
  · intro s a t hs hok hen he
    have hstep := (hs.inv.step hen).value he
    exact ⟨hstep.inv, (hs.inv.noJobLost_step hs.kept hen he).2 hok,
      hstep.effect.generated hs.inv hs.generated he⟩

/-- A run of turns of `SendJobs`. -/
structure Sends (s t : MasterRun F) : Prop where
  run : machine.Reaches ResultsInTime s t
  submissions : s.SameSubmissions t
  pending : t.pending = s.pending
  invokers : t.registry.invokers = s.registry.invokers
  refused : ∀ ref, s.registry.Refused ref → t.registry.Refused ref

theorem Sends.refl (s : MasterRun F) : s.Sends s :=
  ⟨.refl, ⟨rfl, rfl, rfl⟩, rfl, rfl, fun _ h => h⟩

theorem Sends.trans (h : s.Sends t) (h' : t.Sends u) : s.Sends u where
  run := h.run.trans h'.run
  submissions := ⟨h'.submissions.submitted.trans h.submissions.submitted,
    h'.submissions.returned.trans h.submissions.returned,
    h'.submissions.finishing.trans h.submissions.finishing⟩
  pending := h'.pending.trans h.pending
  invokers := h'.invokers.trans h.invokers
  refused ref href := h'.refused ref (h.refused ref href)

end MasterRun

end TestingSystem
