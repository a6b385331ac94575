import TestingSystem.Lib.History
import TestingSystem.Lib.RoundRobin
import TestingSystem.Master.Queue.QueueRuns

/-!
# `NextJob` is fair

The active generators take turns: `NextJob` drops those in front that have no job to give and moves the
one that gives a job to the end of the list. This holds in every run, also with results and jobs that
the queue does not wait for.
-/

set_option autoImplicit false

namespace TestingSystem

namespace Queue

variable {F : Type} {q q' : Queue F}

/-- What every operation keeps of the active generators. -/
structure Listed (q : Queue F) : Prop where
  nodup : q.activeGenerators.Nodup
  active : ∀ id, id ∈ q.activeGenerators ↔ ∃ u, q.activeGeneratorIDs.get? id = some u
  known : ∀ id ∈ q.activeGenerators, ∃ g, q.generators.get? id = some g
  owner : ∀ orig id, q.originalJobIDToGenerator.get? orig = some id →
    ∃ g, q.generators.get? id = some g

/-- The generator has no job to give when a call of `NextJob` draws `id`. -/
def GivesNone (q : Queue F) (id : JobID) (generator : GeneratorID) : Prop :=
  ∃ g g', q.generators.get? generator = some g ∧ g.nextJob id = .ok (none, g')

/-- A call of `NextJob` in which the generators `left` were dropped and `served` gave the job. -/
structure Took (q : Queue F) (id : JobID) (r : Option JobRef) (q' : Queue F)
    (left : List GeneratorID) (served : Option GeneratorID) : Prop where
  turn : Turn q.activeGenerators left served q'.activeGenerators
  left : ∀ generator ∈ left, q.GivesNone id generator
  served : ∀ generator, served = some generator ↔
    ∃ ref, r = some ref ∧ q'.originalJobIDToGenerator.get? ref = some generator
  listed : q'.Listed

/-- What an operation other than `NextJob` does to the list: at most one generator joins. -/
structure Joins (q q' : Queue F) : Prop where
  listed : q'.Listed
  joins : q'.activeGenerators = q.activeGenerators ∨
    ∃ id, q'.activeGenerators = q.activeGenerators ++ [id]

namespace Listed

theorem new : Listed (Queue.new : Queue F) where
  nodup := .nil
  active _ := ⟨fun h => (nomatch h), fun ⟨_, h⟩ => (nomatch h)⟩
  known _ h := nomatch h
  owner _ _ h := nomatch h

/-- A generator is stored. -/
theorem setGenerator (h : Listed q) (id : GeneratorID) (g : Generator F) :
    Listed { q with generators := q.generators.set id g } :=
  { h with
    known := fun a ha => exists_replaced (h.known a ha)
    owner := fun orig a ha => exists_replaced (h.owner orig a ha) }

/-- The first generator leaves. -/
theorem drop (h : Listed q) {generator : GeneratorID} {rest : List GeneratorID}
    (hactive : q.activeGenerators = generator :: rest) :
    Listed { q with
      activeGenerators := rest
      activeGeneratorIDs := q.activeGeneratorIDs.delete generator } := by
  have hnodup := h.nodup
  rw [hactive, List.nodup_cons] at hnodup
  refine { h with nodup := hnodup.2, active := fun id => ?_, known := fun id hid => h.known id ?_ }
  · by_cases heq : id = generator
    · subst heq
      simp [hnodup.1]
    · rw [GoMap.get?_delete_ne _ heq, ← h.active, hactive, List.mem_cons, or_iff_right heq]
  · rw [hactive]
    exact List.mem_cons_of_mem _ hid

/-- The first generator gives a job and goes to the end. -/
theorem give (h : Listed q) {generator : GeneratorID} {rest : List GeneratorID}
    (hactive : q.activeGenerators = generator :: rest) (job : Job) :
    Listed { q with
      activeGenerators := rest ++ [generator]
      originalJobIDToGenerator := q.originalJobIDToGenerator.set job.id generator
      originalJobIDToJob := q.originalJobIDToJob.set job.id job.id
      jobs := q.jobs.set job.id job } := by
  have hperm : (rest ++ [generator]).Perm q.activeGenerators := by
    rw [hactive]
    exact List.perm_append_singleton ..
  refine ⟨hperm.nodup_iff.2 h.nodup, fun id => hperm.mem_iff.trans (h.active id),
    fun id hid => h.known id (hperm.mem_iff.1 hid), fun orig id hid => ?_⟩
  rcases GoMap.of_get?_set hid with ⟨-, rfl⟩ | ⟨-, hold⟩
  · exact h.known id (by rw [hactive]; exact List.mem_cons_self)
  · exact h.owner orig id hold

/-- The loop of `NextJob` is a turn. -/
theorem nextJobLoop (h : Listed q) {id : JobID} {n : Nat} (hn : q.activeGenerators.length = n)
    {r : Option JobRef} (he : q.nextJobLoop id n = .ok (r, q')) :
    ∃ left served, Took q id r q' left served := by
  induction n generalizing q with
  | zero =>
    cases he
    have hnil := List.length_eq_zero_iff.1 hn
    refine ⟨[], none, ?_, nofun, fun generator => ⟨nofun, fun ⟨_, hr, _⟩ => nomatch hr⟩, h⟩
    rw [hnil]
    exact .leave
  | succ n ih =>
    unfold Queue.nextJobLoop at he
    cases hactive : q.activeGenerators with
    | nil => rw [hactive] at hn; cases hn
    | cons generator rest =>
      rw [hactive, List.length_cons, Nat.add_right_cancel_iff] at hn
      simp only [hactive] at he
      obtain ⟨g, hg, he⟩ := bind_eq_ok.1 he
      obtain ⟨⟨next, g'⟩, hnext, he⟩ := bind_eq_ok.1 he
      cases next with
      | none =>
        obtain ⟨left, served, ht⟩ := ih ((h.setGenerator generator g').drop hactive) hn he
        refine ⟨generator :: left, served, hactive ▸ ht.turn.cons generator, fun d hd => ?_,
          ht.served, ht.listed⟩
        rcases List.mem_cons.1 hd with heq | hd'
        · exact heq ▸ ⟨g, g', deref_ok hg, hnext⟩
        · obtain ⟨g₁, g₁', hg₁, hnone⟩ := ht.left d hd'
          have hnodup := h.nodup
          rw [hactive, List.nodup_cons] at hnodup
          have hne : d ≠ generator := by
            rintro rfl
            exact hnodup.1 (ht.turn.mem_of_left hd')
          exact ⟨g₁, g₁', (GoMap.get?_set_ne _ _ hne).symm.trans hg₁, hnone⟩
      | some job =>
        cases he
        have hline : q.activeGenerators = [] ++ generator :: rest := hactive
        refine ⟨[], some generator, .serve hline, nofun, fun gid => ?_,
          (h.setGenerator generator g').give hactive job⟩
        simp

/-- Operations that leave the active generators and the owners of the jobs alone. -/
theorem of_eq (h : Listed q) (hactive : q'.activeGenerators = q.activeGenerators)
    (hids : q'.activeGeneratorIDs = q.activeGeneratorIDs) (hgenerators : q'.generators = q.generators)
    (howner : q'.originalJobIDToGenerator = q.originalJobIDToGenerator) : Listed q' := by
  constructor
  · exact hactive ▸ h.nodup
  · exact hactive ▸ hids ▸ h.active
  · exact hactive ▸ hgenerators ▸ h.known
  · exact howner ▸ hgenerators ▸ h.owner

/-- `id` joins at the end. -/
theorem join (h : Listed q) {id : GeneratorID} (hid : q.activeGeneratorIDs.get? id = none)
    {g : Generator F} (hg : q.generators.get? id = some g) :
    Listed { q with
      activeGenerators := q.activeGenerators ++ [id]
      activeGeneratorIDs := q.activeGeneratorIDs.set id () } := by
  have hnot : id ∉ q.activeGenerators := by
    rw [h.active, hid]
    exact fun ⟨_, hu⟩ => nomatch hu
  have hperm : (q.activeGenerators ++ [id]).Perm (id :: q.activeGenerators) :=
    List.perm_append_singleton ..
  refine ⟨hperm.nodup_iff.2 (List.nodup_cons.2 ⟨hnot, h.nodup⟩), fun a => ?_, fun a ha => ?_, h.owner⟩
  · rw [hperm.mem_iff, List.mem_cons, GoMap.get?_set]
    by_cases ha : a = id
    · simp [ha]
    · simp [ha, h.active]
  · rcases List.mem_cons.1 (hperm.mem_iff.1 ha) with rfl | ha
    · exact ⟨g, hg⟩
    · exact h.known a ha

variable [Add F] [Min F] [Zero F] [One F]

theorem submit (h : Listed q) {id : GeneratorID} (hid : q.generators.get? id = none)
    {problem : Problem F} {submission : Submission F} {epoch : Epoch}
    (he : q.submit id problem submission epoch = .ok (.ok q')) : Joins q q' := by
  unfold Queue.submit at he
  cases hg : Generator.new id problem submission with
  | error err => simp [hg] at he
  | ok g =>
    simp only [hg] at he
    obtain ⟨status, -, he⟩ := bind_eq_ok.1 he
    cases he
    obtain ⟨rfl, -⟩ := Generator.new_good hg
    -- The active generators are known, so the new one is not among them.
    have hnone : q.activeGeneratorIDs.get? g.id = none := by
      cases hget : q.activeGeneratorIDs.get? g.id with
      | none => rfl
      | some u =>
        obtain ⟨g', hg'⟩ := h.known g.id ((h.active g.id).2 ⟨u, hget⟩)
        rw [hid] at hg'
        cases hg'
    exact ⟨((h.setGenerator g.id g).join hnone (GoMap.get?_set_self ..)).of_eq rfl rfl rfl rfl,
      .inr ⟨g.id, rfl⟩⟩

theorem jobCompleted (h : Listed q) {result : InvokerJobResult F} {epoch : Epoch}
    {r : Except String (Option (Submission F))} (he : q.jobCompleted result epoch = .ok (q', r)) :
    Joins q q' := by
  -- The call of the generator stores it again, after it was put back if it was not active.
  have hcomplete : ∀ (q₁ : Queue F) id result, Listed q₁ →
      q₁.activeGenerators = q.activeGenerators → (∃ g, q₁.generators.get? id = some g) →
      (q₁.activate id).completeJob id result epoch = .ok (q', r) → Joins q q' := by
    intro q₁ id result h₁ hactive ⟨g, hg⟩ he
    obtain ⟨g₁, -, he⟩ := bind_eq_ok.1 he
    obtain ⟨c, -, he⟩ := bind_eq_ok.1 he
    obtain ⟨status, -, he⟩ := bind_eq_ok.1 he
    cases he
    unfold Queue.activate
    cases hids : q₁.activeGeneratorIDs.get? id with
    | some u => exact ⟨(h₁.setGenerator id c.generator).of_eq rfl rfl rfl rfl, .inl hactive⟩
    | none =>
      exact ⟨((h₁.join hids hg).setGenerator id c.generator).of_eq rfl rfl rfl rfl,
        .inr ⟨id, by rw [← hactive]⟩⟩
  -- The maps that lose the job do not matter to the list.
  have hdelete : ∀ (m : GoMap JobID JobID) id, Listed { q with
      jobIDToOriginalJobID := m
      originalJobIDToJob := q.originalJobIDToJob.delete id
      originalJobIDToGenerator := q.originalJobIDToGenerator.delete id } := by
    intro m id
    exact { h with owner := fun orig a ha => h.owner orig a (GoMap.of_get?_delete ha).2 }
  unfold Queue.jobCompleted at he
  cases hren : q.jobIDToOriginalJobID.get? result.job.id
  all_goals
    simp only [hren] at he
    split at he
    · split at he
      · cases he
      · cases he
        exact ⟨h.of_eq rfl rfl rfl rfl, .inl rfl⟩
    · next generator hgenerator =>
      exact hcomplete _ generator _ (hdelete _ _) rfl
        (h.owner _ generator hgenerator) he

omit [Add F] [Min F] [Zero F] [One F] in
theorem rescheduleJob (h : Listed q) {jobID newID : JobID} {r : Except String Unit}
    (he : q.rescheduleJob jobID newID = .ok (q', r)) :
    q'.Listed ∧ q'.activeGenerators = q.activeGenerators := by
  -- The object of the job gets another ID and waits to be given again.
  have hrequeue : ∀ (q₁ : Queue F) orig ref, Listed q₁ →
      q₁.activeGenerators = q.activeGenerators → q₁.requeue orig ref newID = .ok (q', r) →
      q'.Listed ∧ q'.activeGenerators = q.activeGenerators := by
    intro q₁ orig ref h₁ hactive he
    obtain ⟨job, -, he⟩ := bind_eq_ok.1 he
    cases he
    exact ⟨h₁.of_eq rfl rfl rfl rfl, hactive⟩
  unfold Queue.rescheduleJob at he
  split at he
  · next orig _ =>
    dsimp only at he
    split at he
    · cases he
    · exact hrequeue { q with jobIDToOriginalJobID := q.jobIDToOriginalJobID.delete jobID } _ _
        (h.of_eq rfl rfl rfl rfl) rfl he
  · split at he
    · cases he
      exact ⟨h, rfl⟩
    · exact hrequeue _ _ _ h rfl he

end Listed

end Queue

/-- A call of `NextJob` with the queue before and after it. -/
structure NextJobCall (F : Type) where
  before : Queue F
  id : JobID
  job : Option JobRef
  after : Queue F

namespace NextJobCall

variable {F : Type} (e : NextJobCall F)

/-- The call returned a new job of the generator. -/
def Gave (generator : GeneratorID) : Prop :=
  e.before.newFailedJobs = [] ∧
    ∃ ref, e.job = some ref ∧ e.after.originalJobIDToGenerator.get? ref = some generator

/-- The call removed the generator because it had no job to give. -/
def Removed (generator : GeneratorID) : Prop :=
  generator ∈ e.before.activeGenerators ∧ generator ∉ e.after.activeGenerators ∧
    e.before.GivesNone e.id generator

end NextJobCall

namespace QueueRun

variable {F : Type}

/-- The calls of `NextJob` that a run makes. -/
def nextJobCall [Zero F] (r : QueueRun F) : QueueCall F → Option (NextJobCall F)
  | .nextJob id =>
    match r.queue.nextJob id with
    | .ok (job, q) => some ⟨r.queue, id, job, q⟩
    | .error _ => none
  | _ => none

/-- A call that gives a job of `h` comes only after every `g` that waited at an earlier call for `h` was
served or removed. -/
def Fair (earlier : List (NextJobCall F)) (last : NextJobCall F) : Prop :=
  ∀ g h mid first before, earlier = mid ++ first :: before → g ∈ first.before.activeGenerators →
    first.Gave h → last.Gave h → ∃ e ∈ last :: (mid ++ [first]), e.Gave g ∨ e.Removed g

/-- After the calls `events`, a generator that has waited since another one gave a job stands in front
of it. -/
structure Owed (q : Queue F) (events : List (NextJobCall F)) : Prop where
  listed : q.Listed
  ahead : ∀ g h mid first before, events = mid ++ first :: before →
    g ∈ first.before.activeGenerators → first.Gave h →
    (∀ e ∈ mid ++ [first], ¬ e.Gave g ∧ ¬ e.Removed g) → Ahead g h q.activeGenerators

namespace Owed

variable {q q' : Queue F} {events : List (NextJobCall F)}

/-- Before the first call nobody has waited. -/
theorem start (h : q.Listed) : Owed q [] :=
  ⟨h, fun _ _ mid _ _ heq => absurd heq.symm (by simp)⟩

/-- A call that is not `NextJob`. -/
theorem joins (h : Owed q events) (hj : q.Joins q') : Owed q' events := by
  refine ⟨hj.listed, fun g g' mid first before heq hg hgave hnot => ?_⟩
  have hahead := h.ahead g g' mid first before heq hg hgave hnot
  rcases hj.joins with hsame | ⟨id, hjoin⟩
  · rwa [hsame]
  · rw [hjoin]
    exact hahead.join id

section Call

variable {id : JobID} {r : Option JobRef} {left : List GeneratorID} {served : Option GeneratorID}

/-- A generator that leaves in a turn is removed by the call. -/
theorem removed (h : Owed q events) (ht : q.Took id r q' left served) {g : GeneratorID}
    (hg : g ∈ left) : (NextJobCall.mk q id r q').Removed g :=
  ⟨ht.turn.mem_of_left hg, fun hmem => ((ht.turn.mem_iff h.listed.nodup).1 hmem).2 hg, ht.left g hg⟩

/-- The generator that is served is the one whose job the call returns. -/
theorem gave_iff (hfailed : q.newFailedJobs = []) (ht : q.Took id r q' left served)
    (g : GeneratorID) : (NextJobCall.mk q id r q').Gave g ↔ served = some g := by
  rw [ht.served g, NextJobCall.Gave, and_iff_right hfailed]

/-- The call is fair to those who have waited. -/
theorem fair (h : Owed q events) (hfailed : q.newFailedJobs = [])
    (ht : q.Took id r q' left served) : Fair events ⟨q, id, r, q'⟩ := by
  intro g g' mid first before heq hg hgave hlast
  by_contra hnone
  simp only [List.mem_cons, not_exists, not_and, not_or] at hnone
  have hlast' := (gave_iff hfailed ht g').1 hlast
  have hahead := h.ahead g g' mid first before heq hg hgave fun e he => hnone e (.inr he)
  have hne : g ≠ g' := by
    rintro rfl
    exact (hnone _ (.inl rfl)).1 hlast
  exact (hnone _ (.inl rfl)).2 (h.removed ht (hahead.left_of_served (hlast' ▸ ht.turn) hne))

/-- A turn keeps those who still wait in front of those who were served. -/
theorem took (h : Owed q events) (hfailed : q.newFailedJobs = [])
    (ht : q.Took id r q' left served) : Owed q' (⟨q, id, r, q'⟩ :: events) := by
  refine ⟨ht.listed, fun g g' mid first before heq hg hgave hnot => ?_⟩
  have hstays : ∀ e ∈ mid ++ [first], e = ⟨q, id, r, q'⟩ → g ∉ left ∧ served ≠ some g := by
    rintro e he rfl
    obtain ⟨hnotGave, hnotRemoved⟩ := hnot _ he
    exact ⟨fun hleft => hnotRemoved (h.removed ht hleft), mt (gave_iff hfailed ht g).2 hnotGave⟩
  cases mid with
  | nil =>
    -- The call itself served `g'` while `g` waited.
    obtain ⟨rfl, -⟩ := List.cons.inj heq
    obtain ⟨hleft, hserved⟩ := hstays _ (by simp) rfl
    have hserved' := (gave_iff hfailed ht g').1 hgave
    have hne : g ≠ g' := by
      rintro rfl
      exact hserved hserved'
    exact .of_served (hserved' ▸ ht.turn) h.listed.nodup hg hleft hne
  | cons e mid =>
    obtain ⟨rfl, rfl⟩ := List.cons.inj heq
    obtain ⟨hleft, hserved⟩ := hstays _ (by simp) rfl
    have hahead := h.ahead g g' mid first before rfl hg hgave fun e he =>
      hnot e (List.mem_cons_of_mem _ he)
    exact hahead.turn ht.turn hleft hserved

/-- A rescheduled job bypasses the list. -/
theorem rescheduled (h : Owed q events) (hfailed : q.newFailedJobs ≠ []) (hlisted : q'.Listed)
    (hsame : q'.activeGenerators = q.activeGenerators) : Owed q' (⟨q, id, r, q'⟩ :: events) := by
  refine ⟨hlisted, fun g g' mid first before heq hg hgave hnot => ?_⟩
  rw [hsame]
  cases mid with
  | nil =>
    obtain ⟨rfl, -⟩ := List.cons.inj heq
    exact absurd hgave.1 hfailed
  | cons e mid =>
    obtain ⟨rfl, rfl⟩ := List.cons.inj heq
    exact h.ahead g g' mid first before rfl hg hgave fun e he => hnot e (List.mem_cons_of_mem _ he)

end Call

end Owed

variable [Add F] [Min F] [Zero F] [One F]

/-- What a step does to the list, and that the call of `NextJob` in it is fair. -/
theorem Owed.step {r r' : QueueRun F} {events : List (NextJobCall F)} (h : Owed r.queue events)
    {call : QueueCall F} (hen : r.enabled call) (hex : r.exec call = .ok r') :
    (∀ e, r.nextJobCall call = some e → Fair events e) ∧
      Owed r'.queue ((r.nextJobCall call).toList ++ events) := by
  cases call with
  | submit id problem submission epoch =>
    obtain ⟨result, hcall, hex⟩ := bind_eq_ok.1 hex
    refine ⟨nofun, ?_⟩
    cases result with
    | error err =>
      cases hex
      exact h
    | ok q =>
      cases hex
      exact h.joins (h.listed.submit hen hcall)
  | jobCompleted result epoch =>
    obtain ⟨⟨q, submission⟩, hcall, hex⟩ := bind_eq_ok.1 hex
    refine ⟨nofun, ?_⟩
    have hjoins := h.joins (h.listed.jobCompleted hcall)
    cases submission <;> cases hex <;> exact hjoins
  | rescheduleJob jobID newID =>
    obtain ⟨⟨q, result⟩, hcall, hex⟩ := bind_eq_ok.1 hex
    refine ⟨nofun, ?_⟩
    obtain ⟨hlisted, hsame⟩ := h.listed.rescheduleJob hcall
    have hjoins := h.joins ⟨hlisted, .inl hsame⟩
    cases result <;> cases hex <;> exact hjoins
  | nextJob id =>
    obtain ⟨⟨ref, q⟩, hcall, hex⟩ := bind_eq_ok.1 hex
    cases hex
    have hevent : r.nextJobCall (.nextJob id) = some ⟨r.queue, id, ref, q⟩ := by
      simp only [nextJobCall, hcall]
    rw [hevent]
    unfold Queue.nextJob at hcall
    cases hfailed : r.queue.newFailedJobs with
    | nil =>
      simp only [hfailed] at hcall
      obtain ⟨left, served, ht⟩ := h.listed.nextJobLoop rfl hcall
      refine ⟨fun e he => ?_, h.took hfailed ht⟩
      cases he
      exact h.fair hfailed ht
    | cons job rest =>
      simp only [hfailed] at hcall
      cases hcall
      have hne : r.queue.newFailedJobs ≠ [] := by simp [hfailed]
      refine ⟨fun e he => ?_, h.rescheduled hne (h.listed.of_eq rfl rfl rfl rfl) rfl⟩
      cases he
      exact fun _ _ _ _ _ _ _ _ hlast => absurd hlast.1 hne

/-- Between two new jobs of one generator, every generator that was active before the first of them
gives a new job or is removed because it has none; the active generators are listed once each. -/
theorem nextJob_fair {s : Observed (QueueRun F) (NextJobCall F)}
    (h : (machine.observed nextJobCall).Reachable Machine.always s) :
    (∀ g g' later last mid first before, s.events = later ++ last :: (mid ++ first :: before) →
      g ∈ first.before.activeGenerators → first.Gave g' → last.Gave g' →
      ∃ e ∈ last :: (mid ++ [first]), e.Gave g ∨ e.Removed g) ∧
    s.state.queue.activeGenerators.Nodup ∧
    ∀ id, id ∈ s.state.queue.activeGenerators ↔
      ∃ u, s.state.queue.activeGeneratorIDs.get? id = some u := by
  have hlisted : s.state.queue.Listed := by
    refine h.of_observed.invariant (P := fun r => r.queue.Listed) ?_ ?_
    · rintro _ rfl
      exact .new
    · intro r call r' hlisted _ hen hex
      exact ((Owed.start hlisted).step hen hex).2.listed
  have hfollows : Follows Fair s.events := by
    refine h.follows (P := fun r events => Owed r.queue events) ?_ ?_
    · rintro _ rfl
      exact .start .new
    · intro r events call r' _ howed hen hex
      exact howed.step hen hex
  refine ⟨fun g g' later last mid first before heq hg hfirst hlast => ?_, hlisted.nodup,
    hlisted.active⟩
  have hsuffix : last :: (mid ++ first :: before) <:+ s.events := ⟨later, heq.symm⟩
  exact hfollows.allowed hsuffix g g' mid first before rfl hg hfirst hlast

/-- Two submissions, and a second job of the first one after its compilation. -/
def twoSubmissions : List (QueueCall Int) :=
  [.submit 0 GeneratorRun.twoTests GeneratorRun.newSubmission 0,
    .submit 1 GeneratorRun.twoTests { GeneratorRun.newSubmission with id := 2 } 1,
    .nextJob 1, .nextJob 2, .jobCompleted (GeneratorRun.resultOf 1 .CD none) 2, .nextJob 3]

theorem nextJob_fair_two_generators :
    ∃ first second last : NextJobCall Int, first.Gave 0 ∧ last.Gave 0 ∧
      ∃ e ∈ [last, second, first], e.Gave 1 ∨ e.Removed 1 := by
  have hruns : ∃ s : Observed (QueueRun Int) (NextJobCall Int), ∃ first second last : NextJobCall Int,
      (machine.observed nextJobCall).Runs Machine.always twoSubmissions
        ⟨⟨.new, [], [], [], [], [], []⟩, []⟩ s ∧ s.events = [last, second, first] ∧
        1 ∈ first.before.activeGenerators ∧ first.Gave 0 ∧ last.Gave 0 :=
    ⟨_, _, _, _, ⟨trivial, rfl, _, rfl, trivial, rfl, _, rfl, trivial, List.not_mem_nil, _, rfl,
      trivial, (by decide : 2 ∉ [1]), _, rfl, trivial, trivial, _, rfl, trivial,
      (by decide : 3 ∉ [2, 1]), _, rfl, rfl⟩, rfl, (by decide : 1 ∈ [0, 1]), ⟨rfl, _, rfl, rfl⟩,
      ⟨rfl, _, rfl, rfl⟩⟩
  obtain ⟨s, first, second, last, hr, hevents, hwaits, hfirst, hlast⟩ := hruns
  have hreach := Machine.Reachable.of_runs (machine.observed nextJobCall) Machine.always _
    (.of_init ⟨_, rfl, rfl⟩) hr
  exact ⟨first, second, last, hfirst, hlast,
    (nextJob_fair hreach).1 1 0 [] last [second] first [] hevents hwaits hfirst hlast⟩

end QueueRun

end TestingSystem
