import TestingSystem.Lib.History
import TestingSystem.Master.JobGenerators.GeneratorRuns
import TestingSystem.Master.JobGenerators.Giving

/-!
# The discipline of NextJob

A run is watched with the jobs that it gives and the jobs that are completed. `Disciplined` says what a call
of `NextJob` may return after these events: one compile job first, then tests with growing numbers, no test
that a completed one prevents, and no test is passed over for another reason.
-/

set_option autoImplicit false

namespace TestingSystem

/-- What is seen of a call: the job that `NextJob` gives, if any, or a given job with its result. -/
inductive JobEvent (F : Type) where
  | nextJob (given : Option Job)
  | completed (job : Job) (result : InvokerJobResult F)

section Rule

variable {F : Type}

/-- The job was given. -/
def Gave (events : List (JobEvent F)) (job : Job) : Prop := .nextJob (some job) ∈ events

/-- The compile job was completed with `CD`. -/
def Compiled (events : List (JobEvent F)) : Prop :=
  ∃ job result, .completed job result ∈ events ∧ job.type = .compileJob ∧ result.verdict = .CD

variable [Zero F]

/-- A completed test prevents test `t`. -/
def Prevented (problem : Problem F) (events : List (JobEvent F)) (t : Nat) : Prop :=
  ∃ job result, .completed job result ∈ events ∧ job.type = .testJob ∧
    Prevents problem job result t

/-- What `NextJob` may return after the events. -/
structure Disciplined (problem : Problem F) (before : List (JobEvent F)) (given : Option Job) :
    Prop where
  first : (∀ job, ¬ Gave before job) → ∃ job, given = some job ∧ job.type = .compileJob
  compile : ∀ job, given = some job → job.type = .compileJob → ∀ earlier, ¬ Gave before earlier
  test : ∀ job, given = some job → job.type ≠ .compileJob →
    job.type = .testJob ∧ Compiled before ∧ 1 ≤ job.test ∧ job.test ≤ problem.testsNumber
  increasing : ∀ job, given = some job → job.type = .testJob → ∀ earlier, Gave before earlier →
    earlier.type = .testJob → earlier.test < job.test
  prevented : ∀ job, given = some job → job.type = .testJob → ¬ Prevented problem before job.test
  withheld : Compiled before → ∀ t, 1 ≤ t → t ≤ problem.testsNumber →
    (∀ job, given = some job → t < job.test) →
    (∀ earlier, Gave before earlier → earlier.type = .testJob → earlier.test ≠ t) →
    Prevented problem before t

/-- The rule for a run: a job that is completed was given. -/
def JobRule (problem : Problem F) (before : List (JobEvent F)) : JobEvent F → Prop
  | .nextJob given => Disciplined problem before given
  | .completed job _ => Gave before job

variable {problem : Problem F} {events : List (JobEvent F)} {given : Option Job} {job : Job}
  {result : InvokerJobResult F} {t : Nat}

omit [Zero F] in
theorem gave_nextJob {job : Job} :
    Gave (.nextJob given :: events) job ↔ given = some job ∨ Gave events job := by
  rw [Gave, List.mem_cons, JobEvent.nextJob.injEq, eq_comm]
  rfl

omit [Zero F] in
theorem gave_nextJob_none {job : Job} : Gave (.nextJob none :: events) job ↔ Gave events job :=
  gave_nextJob.trans (or_iff_right fun heq => nomatch heq)

omit [Zero F] in
theorem gave_completed {job' : Job} :
    Gave (.completed job result :: events) job' ↔ Gave events job' := by
  rw [Gave, List.mem_cons, or_iff_right (fun heq => nomatch heq)]
  rfl

omit [Zero F] in
theorem mem_nextJob : .completed job result ∈ JobEvent.nextJob given :: events ↔
    JobEvent.completed job result ∈ events := by
  rw [List.mem_cons, or_iff_right (fun heq => nomatch heq)]

omit [Zero F] in
theorem compiled_nextJob : Compiled (.nextJob given :: events) ↔ Compiled events := by
  simp only [Compiled, mem_nextJob]

omit [Zero F] in
theorem compiled_completed : Compiled (.completed job result :: events) ↔
    job.type = .compileJob ∧ result.verdict = .CD ∨ Compiled events := by
  constructor
  · rintro ⟨job', result', hmem, htype, hverdict⟩
    rcases List.mem_cons.1 hmem with heq | hmem
    · obtain ⟨rfl, rfl⟩ := JobEvent.completed.inj heq
      exact .inl ⟨htype, hverdict⟩
    · exact .inr ⟨job', result', hmem, htype, hverdict⟩
  · rintro (⟨htype, hverdict⟩ | ⟨job', result', hmem, hold⟩)
    · exact ⟨job, result, List.mem_cons_self, htype, hverdict⟩
    · exact ⟨job', result', List.mem_cons_of_mem _ hmem, hold⟩

theorem prevented_nextJob :
    Prevented problem (.nextJob given :: events) t ↔ Prevented problem events t := by
  simp only [Prevented, mem_nextJob]

theorem prevented_completed : Prevented problem (.completed job result :: events) t ↔
    job.type = .testJob ∧ Prevents problem job result t ∨ Prevented problem events t := by
  constructor
  · rintro ⟨job', result', hmem, htype, hprevents⟩
    rcases List.mem_cons.1 hmem with heq | hmem
    · obtain ⟨rfl, rfl⟩ := JobEvent.completed.inj heq
      exact .inl ⟨htype, hprevents⟩
    · exact .inr ⟨job', result', hmem, htype, hprevents⟩
  · rintro (⟨htype, hprevents⟩ | ⟨job', result', hmem, hold⟩)
    · exact ⟨job, result, List.mem_cons_self, htype, hprevents⟩
    · exact ⟨job', result', List.mem_cons_of_mem _ hmem, hold⟩

end Rule

/-! ## The generator knows its history -/

/-- How the state of the generator reflects the events. -/
structure Remembers {F : Type} [Zero F] (problem : Problem F) (g : Generator F)
    (events : List (JobEvent F)) : Prop where
  jobs : ∀ id job, g.givenJobs.get? id = some job → Gave events job
  started : g.state = .compilationNotStarted ↔ ∀ job, ¬ Gave events job
  first : g.state ≠ .compilationFinished → g.firstTest = 1
  first_pos : 1 ≤ g.firstTest
  compiled : g.state = .compilationFinished →
    Compiled events ∨ problem.testsNumber < g.firstTest
  finished : Compiled events → g.state = .compilationFinished
  given : ∀ job, Gave events job → job.type = .testJob → job.test < g.firstTest
  passed : Compiled events → ∀ t, 1 ≤ t → t < g.firstTest → t ≤ problem.testsNumber →
    (∃ job, Gave events job ∧ job.type = .testJob ∧ job.test = t) ∨ Prevented problem events t
  stops : ∀ t, g.firstTest ≤ t → t ≤ problem.testsNumber →
    (g.Stops t ↔ Prevented problem events t)

namespace Remembers

variable {F : Type} [Zero F] {g g' : Generator F} {events : List (JobEvent F)}
  {given : Option Job}

/-- Before the compilation is over no compile job was successful. -/
theorem not_compiled (h : Remembers g.problem g events) (hstate : g.state ≠ .compilationFinished) :
    ¬ Compiled events :=
  fun hcompiled => hstate (h.finished hcompiled)

/-- A test was given or prevented, if it is passed over now or was before. -/
theorem accounted (h : Remembers g.problem g events) (hcompiled : Compiled events) {t : Nat}
    (hpos : 1 ≤ t) (hle : t ≤ g.problem.testsNumber) (hpassed : g.firstTest ≤ t → g.Stops t) :
    (∃ job, Gave events job ∧ job.type = .testJob ∧ job.test = t) ∨ Prevented g.problem events t := by
  rcases Nat.lt_or_ge t g.firstTest with hold | hnew
  · exact h.passed hcompiled t hpos hold hle
  · exact .inr ((h.stops t hnew hle).1 (hpassed hnew))

/-- Any job that `NextJob` gives is allowed. -/
theorem disciplined (h : Remembers g.problem g events) (hgives : g.Gives g' given) :
    Disciplined g.problem events given := by
  cases hgives with
  | compile job before type =>
    refine ⟨fun _ => ⟨job, rfl, type⟩, fun _ _ _ => h.started.1 before, fun job' heq hne => ?_,
      fun job' heq htest => ?_, fun job' heq htest => ?_, fun hcompiled => ?_⟩
    · cases heq
      exact absurd type hne
    · cases heq
      rw [type] at htest
      cases htest
    · cases heq
      rw [type] at htest
      cases htest
    · exact absurd hcompiled (h.not_compiled (by simp [before]))
  | waits before =>
    refine ⟨fun hnone => ?_, fun _ heq => (nomatch heq), fun _ heq => (nomatch heq),
      fun _ heq => (nomatch heq), fun _ heq => (nomatch heq), fun hcompiled => ?_⟩
    · exact GeneratorState.noConfusion (before.symm.trans (h.started.2 hnone))
    · exact absurd hcompiled (h.not_compiled (by simp [before]))
  | test job before type after first first_le le free passed =>
    refine ⟨fun hnone => ?_, fun job' heq hcompile => ?_, fun job' heq _ => ?_,
      fun job' heq _ earlier hgave htest => ?_, fun job' heq _ => ?_,
      fun hcompiled t hpos hle hlt hnot => ?_⟩
    · exact GeneratorState.noConfusion (before.symm.trans (h.started.2 hnone))
    · cases heq
      rw [type] at hcompile
      cases hcompile
    · cases heq
      have hpos := h.first_pos
      refine ⟨type, (h.compiled before).resolve_right fun hlast => ?_, by omega, le⟩
      omega
    · cases heq
      exact Nat.lt_of_lt_of_le (h.given earlier hgave htest) first_le
    · cases heq
      rw [← h.stops _ first_le le]
      exact free
    · refine (h.accounted hcompiled hpos hle fun hnew => passed t hnew (hlt job rfl)).resolve_left ?_
      rintro ⟨earlier, hgave, htest, heq⟩
      exact hnot earlier hgave htest heq
  | nothing before after first_le first passed =>
    refine ⟨fun hnone => ?_, fun _ heq => (nomatch heq), fun _ heq => (nomatch heq),
      fun _ heq => (nomatch heq), fun _ heq => (nomatch heq), fun hcompiled t hpos hle _ hnot => ?_⟩
    · exact GeneratorState.noConfusion (before.symm.trans (h.started.2 hnone))
    · refine (h.accounted hcompiled hpos hle fun hnew => passed t hnew hle).resolve_left ?_
      rintro ⟨earlier, hgave, htest, heq⟩
      exact hnot earlier hgave htest heq

/-- A job is given only if it is among the given jobs afterwards. -/
theorem jobs_set {id : JobID} {job : Job} (h : Remembers g.problem g events)
    (hgiven : g'.givenJobs = g.givenJobs.set id job) (id' : JobID) (job' : Job)
    (hget : g'.givenJobs.get? id' = some job') : Gave (.nextJob (some job) :: events) job' := by
  rw [hgiven] at hget
  rw [gave_nextJob]
  rcases GoMap.of_get?_set hget with ⟨-, rfl⟩ | ⟨-, hget⟩
  · exact .inl rfl
  · exact .inr (h.jobs id' job' hget)

/-- After `NextJob` the state reflects the job that it gave. -/
theorem gives (h : Remembers g.problem g events) (id : JobID) (hgives : g.Gives g' given)
    (hstops : ∀ t, g'.Stops t ↔ g.Stops t)
    (hnone : given = none → g'.givenJobs = g.givenJobs)
    (hsome : ∀ job, given = some job → g'.givenJobs = g.givenJobs.set id job) :
    Remembers g.problem g' (.nextJob given :: events) := by
  have hkeeps : ∀ t, g.firstTest ≤ t → t ≤ g.problem.testsNumber →
      (g'.Stops t ↔ Prevented g.problem (.nextJob given :: events) t) := by
    intro t hle hle'
    rw [prevented_nextJob, hstops]
    exact h.stops t hle hle'
  cases hgives with
  | compile job before type after first =>
    have hnot : ¬ Compiled (.nextJob (some job) :: events) := by
      rw [compiled_nextJob]
      exact h.not_compiled (by simp [before])
    refine ⟨h.jobs_set (hsome job rfl), ?_, fun _ => ?_, ?_, fun hfin => ?_,
      fun hcompiled => absurd hcompiled hnot, fun job' hgave htest => ?_,
      fun hcompiled => absurd hcompiled hnot, fun t hle => hkeeps t (first ▸ hle)⟩
    · refine iff_of_false (fun heq => GeneratorState.noConfusion (after.symm.trans heq)) ?_
      exact fun hall => hall job (gave_nextJob.2 (.inl rfl))
    · rw [first]
      exact h.first fun hfin => GeneratorState.noConfusion (before.symm.trans hfin)
    · rw [first]
      exact h.first_pos
    · exact GeneratorState.noConfusion (after.symm.trans hfin)
    · rcases gave_nextJob.1 hgave with heq | hgave
      · cases heq
        rw [type] at htest
        cases htest
      · rw [first]
        exact h.given job' hgave htest
  | waits before same =>
    subst same
    refine ⟨fun id' job' hget => gave_nextJob_none.2 (h.jobs id' job' hget), ?_, h.first,
      h.first_pos, ?_, ?_, fun job' hgave htest => ?_, ?_, hkeeps⟩
    · simp only [gave_nextJob_none]
      exact h.started
    · rw [compiled_nextJob]
      exact h.compiled
    · rw [compiled_nextJob]
      exact h.finished
    · exact h.given job' (gave_nextJob_none.1 hgave) htest
    · rw [compiled_nextJob]
      exact fun hcompiled => absurd hcompiled (h.not_compiled (by simp [before]))
  | test job before type after first first_le le free passed =>
    have hpos := h.first_pos
    refine ⟨h.jobs_set (hsome job rfl), ?_, fun hnot => absurd after hnot, ?_, fun _ => .inl ?_,
      fun _ => after, fun job' hgave htest => ?_, fun hcompiled t ht hlt hle => ?_,
      fun t hle => hkeeps t ?_⟩
    · refine iff_of_false (fun heq => GeneratorState.noConfusion (after.symm.trans heq)) ?_
      exact fun hall => hall job (gave_nextJob.2 (.inl rfl))
    · omega
    · refine compiled_nextJob.2 ((h.compiled before).resolve_right fun hlast => ?_)
      omega
    · rcases gave_nextJob.1 hgave with heq | hgave
      · cases heq
        omega
      · have := h.given job' hgave htest
        omega
    · -- The new tests before `firstTest` were passed over, apart from the one that is given.
      rw [prevented_nextJob]
      rcases Nat.lt_or_eq_of_le (show t ≤ job.test by omega) with hlt' | heq
      · have hcompiled := compiled_nextJob.1 hcompiled
        refine (h.accounted hcompiled ht hle fun hnew => passed t hnew hlt').imp_left ?_
        rintro ⟨earlier, hgave, htest, heq⟩
        exact ⟨earlier, gave_nextJob.2 (.inr hgave), htest, heq⟩
      · exact .inl ⟨job, gave_nextJob.2 (.inl rfl), type, heq.symm⟩
    · omega
  | nothing before after first_le first passed =>
    have hpos := h.first_pos
    refine ⟨?_, ?_, fun hnot => absurd after hnot, Nat.le_trans hpos first_le, fun _ => .inr first,
      fun _ => after, fun job' hgave htest => ?_, fun hcompiled t ht hlt hle => ?_,
      fun t hle => hkeeps t (Nat.le_trans first_le hle)⟩
    · rw [hnone rfl]
      exact fun id' job' hget => gave_nextJob_none.2 (h.jobs id' job' hget)
    · simp only [gave_nextJob_none, ← h.started]
      refine iff_of_false (fun heq => ?_) fun heq => ?_
      · exact GeneratorState.noConfusion (after.symm.trans heq)
      · exact GeneratorState.noConfusion (before.symm.trans heq)
    · exact Nat.lt_of_lt_of_le (h.given job' (gave_nextJob_none.1 hgave) htest) first_le
    · rw [prevented_nextJob]
      have hcompiled := compiled_nextJob.1 hcompiled
      refine (h.accounted hcompiled ht hle fun hnew => passed t hnew hle).imp_left ?_
      rintro ⟨earlier, hgave, htest, heq⟩
      exact ⟨earlier, gave_nextJob_none.2 hgave, htest, heq⟩

/-- After `JobCompleted` the state reflects the job that was completed. -/
theorem settles {id : JobID} {job : Job} {result : InvokerJobResult F}
    (h : Remembers g.problem g events) (hsettles : g.Settles g' job result)
    (hgiven : g'.givenJobs = g.givenJobs.delete id) :
    Remembers g.problem g' (.completed job result :: events) := by
  have hjobs : ∀ id' job', g'.givenJobs.get? id' = some job' →
      Gave (.completed job result :: events) job' := by
    intro id' job' hget
    rw [hgiven] at hget
    exact gave_completed.2 (h.jobs id' job' (GoMap.of_get?_delete hget).2)
  have hstarted : g.state ≠ .compilationNotStarted → g'.state ≠ .compilationNotStarted →
      (g'.state = .compilationNotStarted ↔ ∀ job', ¬ Gave (.completed job result :: events) job') := by
    intro hold hnew
    refine iff_of_false hnew fun hall => hold (h.started.2 fun job' hgave => ?_)
    exact hall job' (gave_completed.2 hgave)
  cases hsettles with
  | compiled type before verdict after first stops =>
    have hone : g.firstTest = 1 :=
      h.first fun hfin => GeneratorState.noConfusion (before.symm.trans hfin)
    refine ⟨hjobs, hstarted (by simp [before]) (by simp [after]), fun hnot => absurd after hnot,
      by omega, fun _ => .inl (compiled_completed.2 (.inl ⟨type, verdict⟩)), fun _ => after,
      fun job' hgave htest => ?_, fun _ t ht hlt => ?_, fun t hle hle' => ?_⟩
    · rw [first]
      exact h.given job' (gave_completed.1 hgave) htest
    · omega
    · rw [stops, h.stops t (first ▸ hle) hle', prevented_completed,
        or_iff_right fun hnew => ?_]
      rw [type] at hnew
      cases hnew.1
  | failed type before verdict after stops =>
    have hnot : ¬ Compiled (.completed job result :: events) := by
      rw [compiled_completed]
      rintro (⟨-, hcd⟩ | hold)
      · exact verdict hcd
      · exact h.not_compiled (by simp [before]) hold
    have hone : g.firstTest = 1 :=
      h.first fun hfin => GeneratorState.noConfusion (before.symm.trans hfin)
    have hle : g.firstTest ≤ g'.firstTest := by
      rcases after with ⟨-, hfirst⟩ | ⟨-, hlast⟩ <;> omega
    refine ⟨hjobs, hstarted (by simp [before]) ?_, fun hnot' => ?_, by omega, fun hfin => ?_,
      fun hcompiled => absurd hcompiled hnot, fun job' hgave htest => ?_,
      fun hcompiled => absurd hcompiled hnot, fun t hle' hle'' => ?_⟩
    · rcases after with ⟨hstate, -⟩ | ⟨hstate, -⟩ <;> simp [hstate]
    · rcases after with ⟨-, hfirst⟩ | ⟨hstate, -⟩
      · rw [hfirst, hone]
      · exact absurd hstate hnot'
    · rcases after with ⟨hstate, -⟩ | ⟨-, hlast⟩
      · exact GeneratorState.noConfusion (hstate.symm.trans hfin)
      · exact .inr hlast
    · exact Nat.lt_of_lt_of_le (h.given job' (gave_completed.1 hgave) htest) hle
    · rw [stops, h.stops t (Nat.le_trans hle hle') hle'', prevented_completed,
        or_iff_right fun hnew => ?_]
      rw [type] at hnew
      cases hnew.1
  | test type before after first_le passed stops =>
    have hcompiled : ∀ hyp : Compiled (.completed job result :: events), Compiled events := by
      intro hyp
      refine (compiled_completed.1 hyp).resolve_left fun hnew => ?_
      rw [type] at hnew
      cases hnew.1
    refine ⟨hjobs, hstarted (by simp [before]) (by simp [after]), fun hnot => absurd after hnot,
      Nat.le_trans h.first_pos first_le, fun _ => ?_, fun _ => after,
      fun job' hgave htest => ?_, fun hyp t ht hlt hle => ?_, fun t hle hle' => ?_⟩
    · refine (h.compiled before).imp (fun hold => compiled_completed.2 (.inr hold)) fun hlast => ?_
      exact Nat.lt_of_lt_of_le hlast first_le
    · exact Nat.lt_of_lt_of_le (h.given job' (gave_completed.1 hgave) htest) first_le
    · rw [prevented_completed]
      rcases Nat.lt_or_ge t g.firstTest with hold | hnew
      · rcases h.passed (hcompiled hyp) t ht hold hle with ⟨earlier, hgave, htest, heq⟩ | hprev
        · exact .inl ⟨earlier, gave_completed.2 hgave, htest, heq⟩
        · exact .inr (.inr hprev)
      · exact .inr (.inl ⟨type, passed t hnew hlt⟩)
    · rw [stops t hle hle', h.stops t (Nat.le_trans first_le hle) hle', prevented_completed, or_comm,
        and_iff_right type]

end Remembers

namespace GeneratorRun

variable {F : Type} [Add F] [Min F] [Zero F] [One F]

/-- The event of a call. -/
def observe (r : GeneratorRun F) : Call F → Option (JobEvent F)
  | .nextJob id =>
    match r.generator.nextJob id with
    | .ok (job, _) => some (.nextJob job)
    | .error _ => none
  | .jobCompleted result =>
    (r.generator.givenJobs.get? result.job.id).map fun job => .completed job result

variable {problem : Problem F} {sub : Submission F}

omit [Add F] [Min F] [One F] in
/-- A new generator has given nothing and stops nothing. -/
theorem remembers_new {id : GeneratorID} {g : Generator F} (h : Generator.new id problem sub = .ok g) :
    Remembers problem g [] := by
  have hnone : ∀ job, ¬ Gave ([] : List (JobEvent F)) job := fun job hgave => nomatch hgave
  have hcompiled : ¬ Compiled ([] : List (JobEvent F)) := fun ⟨_, _, hmem, _⟩ => nomatch hmem
  have hprevented : ∀ t, ¬ Prevented problem ([] : List (JobEvent F)) t :=
    fun t ⟨_, _, hmem, _⟩ => nomatch hmem
  have hnew : g.state = .compilationNotStarted ∧ g.firstTest = 1 ∧
      ∀ t, 1 ≤ t → t ≤ problem.testsNumber → ¬ g.Stops t := by
    unfold Generator.new at h
    split at h
    · obtain ⟨i, hi, h⟩ := bind_eq_ok.1 h
      cases h
      unfold ICPCGenerator.new at hi
      split at hi
      · cases hi
      · cases hi
        exact ⟨rfl, rfl, fun t _ _ hstop => hstop⟩
    · obtain ⟨i, hi, h⟩ := bind_eq_ok.1 h
      cases h
      obtain ⟨ha, ht, -, rfl, hsub, hstate, -, hct, hcg, hfirst⟩ := IOIGenerator.new_ok hi
      refine ⟨hstate, hfirst, fun t h1 h2 hstop => ?_⟩
      obtain ⟨group, hg, hhas⟩ := ha.exists_group h1 h2
      have hu : IOIGenerator.Untested sub i := ⟨ha, ht, hsub, hct, hcg, hfirst⟩
      change IOIGenerator.stopFlag.of _ (i.groupNameOfTest t) = true at hstop
      rw [hu.prepared.names group hg t hhas,
        IOIGenerator.GroupFlag.of_eq (ht.internal group hg)] at hstop
      cases hstop
    · cases h
  obtain ⟨hstate, hfirst, hstops⟩ := hnew
  refine ⟨fun id' job hget => ?_, iff_of_true hstate hnone, fun _ => hfirst, Nat.le_of_eq hfirst.symm,
    fun hfin => GeneratorState.noConfusion (hstate.symm.trans hfin),
    fun hc => absurd hc hcompiled, fun job hgave => absurd hgave (hnone job),
    fun hc => absurd hc hcompiled, fun t hle hle' => ?_⟩
  · rw [Generator.new_given h] at hget
    cases hget
  · exact iff_of_false (hstops t (hfirst ▸ hle) hle') (hprevented t)

/-- One call gives an allowed event, and the generator knows its history afterwards. -/
theorem remembers_step {r r' : GeneratorRun F} {events : List (JobEvent F)} {call : Call F}
    (hr : (machine problem sub).Reachable Machine.always r) (h : Remembers problem r.generator events)
    (hen : r.enabled call) (he : r.exec call = .ok r') :
    (∀ event, observe r call = some event → JobRule problem events event) ∧
      Remembers problem r'.generator ((observe r call).toList ++ events) := by
  obtain ⟨outs, hfresh, hex⟩ := explained_always hr
  have hproblem := hex.problem_eq
  subst hproblem
  cases call with
  | nextJob id =>
    obtain ⟨given, g, hnext, hnone, hsome⟩ := Generator.nextJob_ok hex.good hen
    obtain ⟨hgives, hstops⟩ := Generator.nextJob_gives hnext
    have hseen : observe r (.nextJob id) = some (.nextJob given) := by
      simp only [observe, hnext]
    simp only [exec, hnext, ok_bind] at he
    cases he
    rw [hseen]
    refine ⟨fun event heq => ?_, ?_⟩
    · cases heq
      exact h.disciplined hgives
    · exact h.gives id hgives hstops (fun heq => (hnone heq).given)
        fun job heq => (hsome job heq).given
  | jobCompleted result =>
    cases hget : r.generator.givenJobs.get? result.job.id with
    | none =>
      have hseen : observe r (.jobCompleted result) = none := by
        simp only [observe, hget, Option.map_none]
      rw [hseen, exec_unknown hget he]
      exact ⟨fun event heq => (by cases heq), h⟩
    | some job =>
      have hseen : observe r (.jobCompleted result) = some (.completed job result) := by
        simp only [observe, hget, Option.map_some]
      rcases Generator.jobCompleted_fresh hex.good hfresh hget with ⟨c, hc, hgood⟩ | ⟨p, hp, -⟩
      · simp only [exec, hc, ok_bind] at he
        cases he
        have hsettles := Generator.jobCompleted_settles hex.good hex.type hget hc
        rw [hseen]
        refine ⟨fun event heq => ?_, h.settles hsettles hgood.given⟩
        cases heq
        exact h.jobs _ _ hget
      · simp only [exec, hp, error_bind] at he
        cases he

theorem follows_jobRule {r : Observed (GeneratorRun F) (JobEvent F)}
    (hr : ((machine problem sub).observed observe).Reachable Machine.always r) :
    Follows (JobRule problem) r.events := by
  refine hr.follows (P := fun r events => Remembers problem r.generator events) ?_ ?_
  · rintro r ⟨id, g, hnew, rfl⟩
    exact remembers_new hnew
  · intro r events call r' hreach h hen he
    exact remembers_step hreach h hen he

/-- In every run of an ICPC generator, or of an IOI generator on a problem that it accepts, every call of
`NextJob` keeps the discipline, and only given jobs are completed. -/
theorem nextJob_disciplined (problem : Problem F) (sub : Submission F)
    (r : Observed (GeneratorRun F) (JobEvent F))
    (hr : ((machine problem sub).observed observe).Reachable Machine.always r) :
    (∀ given before, .nextJob given :: before <:+ r.events → Disciplined problem before given) ∧
      ∀ job result before, .completed job result :: before <:+ r.events → Gave before job :=
  ⟨fun _ _ hs => (follows_jobRule hr).allowed hs,
    fun _ _ _ hs => (follows_jobRule hr).allowed hs⟩

/-- A chain of three groups, and a group that requires none. -/
def chainOfGroups : Problem Int :=
  { id := 1
    problemType := .ioi
    testsNumber := 4
    testGroups :=
      [{ name := "a", firstTest := 1, lastTest := 1, testScore := none, groupScore := some 10,
         scoringType := .complete, requiredGroupNames := [] },
       { name := "b", firstTest := 2, lastTest := 2, testScore := none, groupScore := some 20,
         scoringType := .complete, requiredGroupNames := ["a"] },
       { name := "c", firstTest := 3, lastTest := 3, testScore := none, groupScore := some 30,
         scoringType := .complete, requiredGroupNames := ["b"] },
       { name := "d", firstTest := 4, lastTest := 4, testScore := some 40, groupScore := none,
         scoringType := .eachTest, requiredGroupNames := [] }] }

/-- The first group fails, so the next test is that of the last one. -/
theorem nextJob_disciplined_chain :
    ∃ r job before, ((machine chainOfGroups newSubmission).observed observe).Reachable Machine.always r ∧
      r.events = .nextJob (some job) :: before ∧ job.test = 4 ∧
      Prevented chainOfGroups before 3 ∧ ¬ Prevented chainOfGroups before 4 := by
  have hr := Machine.Reachable.of_runs ((machine chainOfGroups newSubmission).observed observe)
    Machine.always
    [.nextJob 1, answer 1 .CD none, .nextJob 2, answer 2 .WA none, .nextJob 3]
    (.of_init ⟨_, ⟨0, _, rfl, rfl⟩, rfl⟩)
    ⟨trivial, rfl, _, rfl, trivial, trivial, _, rfl, trivial, rfl, _, rfl, trivial, trivial, _, rfl,
      trivial, rfl, _, rfl, rfl⟩
  have hlast := (nextJob_disciplined _ _ _ hr).1 _ _ (List.suffix_refl _)
  refine ⟨_, _, _, hr, rfl, rfl, ?_, hlast.prevented _ rfl rfl⟩
  refine hlast.withheld ?_ 3 (by decide) (by decide) ?_ ?_
  · exact ⟨_, _, .tail _ (.tail _ (.head _)), rfl, rfl⟩
  · rintro job heq
    cases heq
    decide
  · -- Only the compile job and test 1 were given.
    intro earlier hgave htest heq
    cases hgave with
    | tail _ hgave =>
      cases hgave with
      | head => exact absurd heq (by decide)
      | tail _ hgave =>
        cases hgave with
        | tail _ hgave =>
          cases hgave with
          | head => cases htest
          | tail _ hgave => cases hgave

end GeneratorRun

end TestingSystem
