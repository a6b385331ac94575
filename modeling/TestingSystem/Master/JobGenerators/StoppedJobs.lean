import TestingSystem.Master.JobGenerators.GeneratorRuns

/-!
# Stopped jobs

A job that requires a job with a failed result is stopped by the registry: its result is `SK`
whatever its own outcome is. The registry decides this when a result is reported, and the generator
receives the results later and in any order. `StoppingRun` models both steps. A stopped test is one
that the grade skips anyway (`skipped_of_required`), so the submission that is returned is the one
of a run without stopped jobs.
-/

set_option autoImplicit false

namespace TestingSystem

/-- The verdicts for which `HandleInvokerJobResult` stops the jobs that require the tested one. -/
def stops (verdict : Verdict) : Bool := decide (verdict ≠ .OK ∧ verdict ≠ .PT)

theorem stops_iff {verdict : Verdict} : stops verdict = true ↔ verdict ≠ .OK ∧ verdict ≠ .PT :=
  decide_eq_true_iff

namespace IOIGenerator

variable {F : Type} [Zero F]

theorem stops_storedOutcome (group : TestGroup F) {outcome : Outcome F}
    (h : stops outcome.verdict = true) : stops (storedOutcome group outcome).verdict = true := by
  unfold storedOutcome
  cases populateTestJobResult group outcome.verdict outcome.points with
  | error p => exact h
  | ok populated =>
    cases populated with
    | ok points => exact h
    | error err => rfl

variable {problem : Problem F} {outs : Outcomes F}

/-- A test that fails, or is in a marked group, marks the groups that depend on it. -/
theorem marks_of_depends (ha : Accepted problem) {group : TestGroup F}
    (hg : group ∈ problem.testGroups) {p t : Nat} (hlt : p < t) (hd : Depends problem group p)
    (hp : stops (outs.test p).verdict = true ∨
      ∃ g ∈ problem.testGroups, g.Has p ∧ marks problem outs p g.name = true) :
    marks problem outs t group.name = true := by
  obtain ⟨g, hmem, hhas, hdep⟩ := hd
  have hleads : Closure.Leads problem.nodes g.name group.name := by
    rcases hdep with ⟨rfl, -⟩ | hreq
    · exact .refl
    · exact .single ⟨_, List.mem_map_of_mem hg, hreq⟩
  rcases hp with hstop | ⟨g', hmem', hhas', hm⟩
  · have hstored := stops_iff.1 (stops_storedOutcome g hstop)
    have hscored := ha.scored g hmem
    have hprev : prevents g (storedOutcome g (outs.test p)).verdict = true := by
      have htype : g.scoringType ≠ .eachTest := by
        rcases hdep with ⟨rfl, hne⟩ | hreq
        · exact hne
        · obtain ⟨required, hr, hname, hc, -⟩ := ha.required_before hg hreq
          obtain rfl := ha.eq_of_name hr hmem hname
          simp [hc]
      unfold TestGroup.Scored at hscored
      unfold prevents
      cases hs : g.scoringType with
      | complete => exact decide_eq_true hstored.1
      | min => exact decide_eq_true hstored
      | eachTest => exact absurd hs htype
      | other value => simp [hs] at hscored
    exact (marks_iff ha).2 (.inr ⟨g, hmem, ⟨p, hlt, hhas, hprev⟩, hleads⟩)
  · obtain rfl := ha.eq_of_has hmem hmem' hhas hhas'
    exact marks_of_leads ha (marks_mono ha hm (Nat.le_of_lt hlt)) hleads

end IOIGenerator

namespace Generator

variable {F : Type} [Add F] [Min F] [Zero F] [One F]

/-- The grade skips the test. -/
def Skipped (outs : Outcomes F) (test : Nat) : Generator F → Prop
  | .icpc _ => ICPCGenerator.Skips .RU outs.test test
  | .ioi i => ∃ group ∈ i.problem.testGroups, group.Has test ∧
      IOIGenerator.marks i.problem outs test group.name = true

variable {outs : Outcomes F} {sub : Submission F} {g g' : Generator F}

theorem Later.skipped (h : Later g g') (test : Nat) :
    g'.Skipped outs test ↔ g.Skipped outs test := by
  obtain ⟨-, hproblem, htype, -, -⟩ := h
  cases g <;> cases g'
  · exact Iff.rfl
  · cases htype
  · cases htype
  · rename_i i i'
    have hproblem : i'.problem = i.problem := hproblem
    rw [Skipped, Skipped, hproblem]

/-- The outcome of the job stops the jobs that require it, or the job is skipped itself. -/
def Fails (outs : Outcomes F) (job : Job) (g : Generator F) : Prop :=
  stops (outs.test job.test).verdict = true ∨ g.Skipped outs job.test

/-- The final submission only depends on the problem and its type. -/
theorem finalSubmission_congr (hproblem : g'.problem = g.problem)
    (htype : g'.problemType = g.problemType) :
    g'.finalSubmission outs sub = g.finalSubmission outs sub := by
  cases g <;> cases g'
  · rename_i i i'
    have hproblem : i'.problem = i.problem := hproblem
    rw [finalSubmission, finalSubmission, hproblem]
  · cases htype
  · cases htype
  · rename_i i i'
    have hproblem : i'.problem = i.problem := hproblem
    rw [finalSubmission, finalSubmission, hproblem]

theorem Later.fails (h : Later g g') (job : Job) : Fails outs job g' ↔ Fails outs job g :=
  or_congr_right (h.skipped job.test)

theorem Later.admissible (h : Later g g') {job : Job} {result : InvokerJobResult F} :
    g'.Admissible outs job result ↔ g.Admissible outs job result := by
  obtain ⟨-, hproblem, htype, -, -⟩ := h
  cases g <;> cases g'
  · exact Iff.rfl
  · cases htype
  · cases htype
  · rename_i i i'
    have hproblem : i'.problem = i.problem := hproblem
    rw [Admissible, Admissible, hproblem]

/-- The outcome of a job, if it is not stopped. -/
def ownOutcome (own : Outcomes F) (job : Job) : Outcome F :=
  if job.type = .compileJob then own.compile else own.test job.test

omit [Add F] [Min F] [One F] in
/-- A job may come back with its own outcome. -/
theorem admissible_of_own {job : Job} (htype : job.type = .compileJob ∨ job.type = .testJob)
    {result : InvokerJobResult F} (h : result.outcome = ownOutcome outs job) :
    g.Admissible outs job result := by
  rcases htype with htype | htype <;> cases g <;>
    simp [Admissible, ICPCGenerator.Admissible, IOIGenerator.Admissible, ownOutcome, htype] at h ⊢ <;>
    simp [h]

omit [Add F] [Min F] [One F] in
/-- A skipped test may be stopped. -/
theorem admissible_of_skipped {job : Job} (htype : job.type = .testJob)
    {result : InvokerJobResult F} (hsk : result.verdict = .SK) (h : g.Skipped outs job.test) :
    g.Admissible outs job result := by
  cases g with
  | icpc i =>
    rw [Admissible, ICPCGenerator.Admissible, htype]
    exact .inr ⟨hsk, h⟩
  | ioi i =>
    rw [Admissible, IOIGenerator.Admissible, htype]
    exact .inr h

/-- The jobs that a new job requires are given, and when one of them fails the new test is
skipped. -/
theorem skipped_of_required (h : g.Good outs sub) {id : JobID} (hid : g.givenJobs.get? id = none)
    {job : Job} (he : g.nextJob id = .ok (some job, g')) {id' : JobID}
    (hmem : id' ∈ job.requiredJobIDs) :
    ∃ job', g.givenJobs.get? id' = some job' ∧ job'.type = .testJob ∧ job.type = .testJob ∧
      (Fails outs job' g → g.Skipped outs job.test) := by
  cases g with
  | icpc i =>
    have hg := ICPCGenerator.nextJob_some h hid (Prod.ext (Prod.mk.inj (Except.ok.inj he)).1 rfl)
    rcases hg.kind with ⟨-, hnil⟩ | ⟨htype, htest, hkeys⟩
    · rw [hnil] at hmem
      cases hmem
    · rw [hkeys, GoMap.mem_keys_iff] at hmem
      obtain ⟨job', hget⟩ := hmem
      obtain ⟨htype', hpos, hlt⟩ := hg.earlier htype _ _ hget
      refine ⟨job', hget, htype', htype, ?_⟩
      rintro (hstop | hskip)
      · exact (ICPCGenerator.skips_iff _).2 ⟨job'.test, hpos, hlt, (stops_iff.1 hstop).1⟩
      · exact ICPCGenerator.skips_mono hskip (Nat.le_of_lt hlt)
  | ioi i =>
    obtain ⟨r, i', he', -, hsome⟩ := IOIGenerator.nextJob_ok h hid
    rw [nextJob, he'] at he
    obtain ⟨rfl, -⟩ := Prod.mk.inj (Except.ok.inj he)
    have hg := hsome job rfl
    rcases hg.kind with ⟨-, hnil⟩ | htype
    · rw [hnil] at hmem
      cases hmem
    · obtain ⟨group, hgroup, hhas, hreq⟩ := hg.required htype
      obtain ⟨job', hget, htype', hlt, hdep⟩ := hreq id' hmem
      exact ⟨job', hget, htype', htype, fun hfails => ⟨group, hgroup, hhas,
        IOIGenerator.marks_of_depends (IOIGenerator.Good.accepted h) hgroup hlt hdep hfails⟩⟩

end Generator

/-! ## Runs with stopped jobs -/

/-- A generator and the jobs that it gave, with the IDs of the tested jobs that stop others and the
results that are reported but have not reached the generator. -/
structure StoppingRun (F : Type) where
  run : GeneratorRun F
  jobs : GoMap JobID Job
  stopping : List JobID
  reported : GoMap JobID (InvokerJobResult F)

/-- A step of the master. -/
inductive StoppingStep (F : Type) where
  | nextJob (id : JobID)
  | report (result : InvokerJobResult F)
  | deliver (id : JobID)

namespace StoppingRun

variable {F : Type} [Add F] [Min F] [Zero F] [One F]

/-- UUIDs are new; a job is reported once, with its own outcome or, if a job that it requires is
among the stopping ones, with `SK`. -/
def enabled (own : Outcomes F) (r : StoppingRun F) : StoppingStep F → Prop
  | .nextJob id => r.jobs.get? id = none
  | .report result => ∃ job, r.run.generator.givenJobs.get? result.job.id = some job ∧
      r.reported.get? result.job.id = none ∧
      (result.outcome = Generator.ownOutcome own job ∨
        result.verdict = .SK ∧ ∃ id ∈ job.requiredJobIDs, id ∈ r.stopping)
  | .deliver id => ∃ result, r.reported.get? id = some result

def exec (r : StoppingRun F) : StoppingStep F → Except Panic (StoppingRun F)
  | .nextJob id => do
    let (job, g) ← r.run.generator.nextJob id
    return { r with
      run := { r.run with generator := g }
      jobs := match job with
        | none => r.jobs
        | some job => r.jobs.set id job }
  | .report result =>
    .ok { r with
      stopping := if stops result.verdict then result.job.id :: r.stopping else r.stopping
      reported := r.reported.set result.job.id result }
  | .deliver id =>
    match r.reported.get? id with
    | none => .ok r
    | some result => do
      let run ← r.run.exec (.jobCompleted result)
      return { r with run := run, reported := r.reported.delete id }

/-- The runs in which `own` are the outcomes of the jobs that are not stopped. -/
def machine (own : Outcomes F) (problem : Problem F) (sub : Submission F) :
    Machine (StoppingRun F) (StoppingStep F) Panic where
  init r := ∃ run, (GeneratorRun.machine problem sub).init run ∧ r = ⟨run, .empty, [], .empty⟩
  enabled := enabled own
  exec := exec

/-- The invariant of the runs: their own outcomes explain them. -/
structure Invariant (own : Outcomes F) (problem : Problem F) (sub : Submission F)
    (r : StoppingRun F) : Prop where
  explained : r.run.ExplainedBy problem sub own
  given : ∀ id job, r.run.generator.givenJobs.get? id = some job → r.jobs.get? id = some job
  required : ∀ id job, r.jobs.get? id = some job → ∀ id' ∈ job.requiredJobIDs,
    ∃ job', r.jobs.get? id' = some job' ∧ job'.type = .testJob ∧ job.type = .testJob ∧
      (Generator.Fails own job' r.run.generator → r.run.generator.Skipped own job.test)
  stopping : ∀ id ∈ r.stopping, ∃ job, r.jobs.get? id = some job ∧
    (job.type = .testJob → Generator.Fails own job r.run.generator)
  reported : ∀ id result, r.reported.get? id = some result → result.job.id = id ∧
    ∃ job, r.run.generator.givenJobs.get? id = some job ∧
      r.run.generator.Admissible own job result

variable {own : Outcomes F} {problem : Problem F} {sub : Submission F} {r r' : StoppingRun F}

theorem Invariant.init (h : (machine own problem sub).init r) : Invariant own problem sub r := by
  obtain ⟨run, ⟨id, g, hnew, rfl⟩, rfl⟩ := h
  obtain ⟨-, hproblem, htype, hfin, hgood⟩ := Generator.new_good hnew
  refine ⟨⟨hproblem, htype, hgood own, .inl ⟨rfl, hfin⟩⟩, fun id job hget => ?_,
    fun id job hget => (nomatch hget), fun id hmem => (nomatch hmem),
    fun id result hget => (nomatch hget)⟩
  rw [Generator.new_given hnew] at hget
  cases hget

/-- A call of `NextJob` keeps the invariant. -/
theorem Invariant.nextJob (h : Invariant own problem sub r) {id : JobID}
    (hen : r.jobs.get? id = none) (he : r.exec (.nextJob id) = .ok r') :
    Invariant own problem sub r' := by
  have hid : r.run.generator.givenJobs.get? id = none := by
    cases hget : r.run.generator.givenJobs.get? id with
    | none => rfl
    | some job => exact absurd (h.given id job hget) (by simp [hen])
  obtain ⟨job, g, hnext, hnone, hsome⟩ := Generator.nextJob_ok h.explained.good hid
  simp only [exec, hnext, ok_bind] at he
  cases he
  have hexplained : GeneratorRun.ExplainedBy problem sub own { r.run with generator := g } :=
    h.explained.nextJob hid (by simp [GeneratorRun.exec, hnext, pure, Except.pure])
  cases job with
  | none =>
    have hn := hnone rfl
    have hl := hn.toLater
    refine ⟨hexplained, fun id' job hget => h.given id' job (hn.given ▸ hget),
      fun id' job hget q hq => ?_, fun id' hmem => ?_, fun id' result hget => ?_⟩
    · obtain ⟨job', hget', htype', htype, himp⟩ := h.required id' job hget q hq
      exact ⟨job', hget', htype', htype, fun hf => (hl.skipped _).2 (himp ((hl.fails _).1 hf))⟩
    · obtain ⟨job, hget, hf⟩ := h.stopping id' hmem
      exact ⟨job, hget, fun htype => (hl.fails _).2 (hf htype)⟩
    · obtain ⟨hid', job, hget', hadm⟩ := h.reported id' result hget
      exact ⟨hid', job, hn.given ▸ hget', hl.admissible.2 hadm⟩
  | some job =>
    have hg := hsome job rfl
    have hl := hg.toLater
    have hkeep : ∀ q job', r.jobs.get? q = some job' → (r.jobs.set id job).get? q = some job' := by
      intro q job' hget
      rw [GoMap.get?_set_ne _ _ (fun heq => by simp [heq, hen] at hget), hget]
    refine ⟨hexplained, fun id' job' hget => ?_, fun id' job' hget q hq => ?_,
      fun id' hmem => ?_, fun id' result hget => ?_⟩
    · rw [hg.given] at hget
      rcases GoMap.of_get?_set hget with ⟨rfl, rfl⟩ | ⟨-, hget⟩
      · exact GoMap.get?_set_self _ _ _
      · exact hkeep id' job' (h.given id' job' hget)
    · rcases GoMap.of_get?_set hget with ⟨-, rfl⟩ | ⟨-, hget⟩
      · obtain ⟨job', hget', htype', htype, himp⟩ :=
          Generator.skipped_of_required h.explained.good hid hnext hq
        exact ⟨job', hkeep q job' (h.given q job' hget'), htype', htype,
          fun hf => (hl.skipped _).2 (himp ((hl.fails _).1 hf))⟩
      · obtain ⟨job'', hget', htype', htype, himp⟩ := h.required id' job' hget q hq
        exact ⟨job'', hkeep q job'' hget', htype', htype,
          fun hf => (hl.skipped _).2 (himp ((hl.fails _).1 hf))⟩
    · obtain ⟨job', hget, hf⟩ := h.stopping id' hmem
      exact ⟨job', hkeep id' job' hget, fun htype => (hl.fails _).2 (hf htype)⟩
    · obtain ⟨hid', job', hget', hadm⟩ := h.reported id' result hget
      refine ⟨hid', job', ?_, hl.admissible.2 hadm⟩
      rw [hg.given, GoMap.get?_set_ne _ _ (fun heq => by simp [heq, hid] at hget'), hget']

/-- A reported result stops only tests that are skipped anyway, and is admissible. -/
theorem Invariant.report (h : Invariant own problem sub r) {result : InvokerJobResult F}
    (hen : r.enabled own (.report result)) (he : r.exec (.report result) = .ok r') :
    Invariant own problem sub r' := by
  obtain ⟨job, hget, hnew, hout⟩ := hen
  cases he
  have hjob := h.given _ _ hget
  -- A stopped job is a test that the grade skips.
  have hstopped : result.verdict = .SK → (∃ id ∈ job.requiredJobIDs, id ∈ r.stopping) →
      job.type = .testJob ∧ r.run.generator.Skipped own job.test := by
    rintro - ⟨q, hq, hmem⟩
    obtain ⟨job', hget', htype', htype, himp⟩ := h.required _ _ hjob q hq
    obtain ⟨job'', hget'', hf⟩ := h.stopping q hmem
    obtain rfl := Option.some.inj (hget'.symm.trans hget'')
    exact ⟨htype, himp (hf htype')⟩
  refine ⟨h.explained, h.given, h.required, fun id hmem => ?_, fun id result' hget' => ?_⟩
  · by_cases hnot : stops result.verdict = true ∧ id = result.job.id
    · obtain ⟨hstop, rfl⟩ := hnot
      refine ⟨job, hjob, fun htype => ?_⟩
      rcases hout with hown | ⟨hsk, hreq⟩
      · rw [Generator.ownOutcome, if_neg (by simp [htype])] at hown
        refine .inl ?_
        rw [← hown]
        exact hstop
      · exact .inr (hstopped hsk hreq).2
    · refine h.stopping id ?_
      by_cases hstop : stops result.verdict = true
      · rw [if_pos hstop] at hmem
        exact (List.mem_cons.1 hmem).resolve_left fun heq => hnot ⟨hstop, heq⟩
      · rwa [if_neg hstop] at hmem
  · rcases GoMap.of_get?_set hget' with ⟨heq, rfl⟩ | ⟨-, hget'⟩
    · refine ⟨heq.symm, job, heq ▸ hget, ?_⟩
      rcases hout with hown | ⟨hsk, hreq⟩
      · exact Generator.admissible_of_own (h.explained.good.type_of_given hget) hown
      · obtain ⟨htype, hskip⟩ := hstopped hsk hreq
        exact Generator.admissible_of_skipped htype hsk hskip
    · exact h.reported id result' hget'

/-- The generator takes a reported result. -/
theorem Invariant.deliver (h : Invariant own problem sub r) {id : JobID}
    (he : r.exec (.deliver id) = .ok r') : Invariant own problem sub r' := by
  cases hrep : r.reported.get? id with
  | none =>
    simp only [exec, hrep] at he
    cases he
    exact h
  | some result =>
    obtain ⟨rfl, job, hget, hadm⟩ := h.reported id result hrep
    simp only [exec, hrep] at he
    obtain ⟨run, hrun, he⟩ := bind_eq_ok.1 he
    cases he
    have hcall := Generator.jobCompleted_good h.explained.good hget hadm
    have hexplained := h.explained.of_completed hget hcall hrun
    rcases hcall with ⟨c, hc, hgood⟩ | ⟨p, hp, -⟩
    · simp only [GeneratorRun.exec, hc, ok_bind] at hrun
      cases hrun
      have hl := hgood.toLater
      refine ⟨hexplained, fun id' job' hget' => ?_, fun id' job' hget' q hq => ?_,
        fun id' hmem => ?_, fun id' result' hget' => ?_⟩
      · rw [hgood.given] at hget'
        exact h.given id' job' (GoMap.of_get?_delete hget').2
      · obtain ⟨job'', hget'', htype', htype, himp⟩ := h.required id' job' hget' q hq
        exact ⟨job'', hget'', htype', htype,
          fun hf => (hl.skipped _).2 (himp ((hl.fails _).1 hf))⟩
      · obtain ⟨job', hget', hf⟩ := h.stopping id' hmem
        exact ⟨job', hget', fun htype => (hl.fails _).2 (hf htype)⟩
      · obtain ⟨hne, hget'⟩ := GoMap.of_get?_delete hget'
        obtain ⟨hid', job', hget'', hadm'⟩ := h.reported id' result' hget'
        refine ⟨hid', job', ?_, hl.admissible.2 hadm'⟩
        rw [hgood.given, GoMap.get?_delete_ne _ hne, hget'']
    · simp only [GeneratorRun.exec, hp, error_bind] at hrun
      cases hrun

/-- Every result of a given job is its own outcome. -/
def Owns (own : Outcomes F) (r : GeneratorRun F) : Call F → Prop
  | .nextJob _ => True
  | .jobCompleted result => ∀ job, r.generator.givenJobs.get? result.job.id = some job →
      result.outcome = Generator.ownOutcome own job

theorem invariant (hr : (machine own problem sub).Reachable Machine.always r) :
    Invariant own problem sub r := by
  refine hr.invariant (fun r h => .init h) ?_
  rintro r step r' h - hen he
  cases step with
  | nextJob id => exact h.nextJob hen he
  | report result => exact h.report hen he
  | deliver id => exact h.deliver he

/-- A run without stopped jobs is explained by the own outcomes as well. -/
theorem explained_of_owns {r : GeneratorRun F}
    (hr : (GeneratorRun.machine problem sub).Reachable (Owns own) r) :
    r.ExplainedBy problem sub own := by
  refine hr.invariant ?_ ?_
  · rintro r ⟨id, g, hnew, rfl⟩
    obtain ⟨-, hproblem, htype, hfin, hgood⟩ := Generator.new_good hnew
    exact ⟨hproblem, htype, hgood own, .inl ⟨rfl, hfin⟩⟩
  · rintro r call r' h hok hen he
    cases call with
    | nextJob id => exact h.nextJob hen he
    | jobCompleted result =>
      cases hget : r.generator.givenJobs.get? result.job.id with
      | none =>
        rw [GeneratorRun.exec_unknown hget he]
        exact h
      | some job =>
        have hadm := Generator.admissible_of_own (g := r.generator) (h.good.type_of_given hget) (hok job hget)
        exact h.of_completed hget (Generator.jobCompleted_good h.good hget hadm) he

/-- A run with stopped jobs returns the submission of every run without stopped jobs. -/
theorem stopping_keeps_submission (problem : Problem F) (sub : Submission F) (own : Outcomes F)
    (r : StoppingRun F) (hr : (machine own problem sub).Reachable Machine.always r)
    (r' : GeneratorRun F) (hr' : (GeneratorRun.machine problem sub).Reachable (Owns own) r') :
    ∀ s ∈ r.run.returned, ∀ s' ∈ r'.returned, s = s' := by
  intro s hs s' hs'
  have h := (invariant hr).explained
  have h' := explained_of_owns hr'
  rw [h.eq_final hs, h'.eq_final hs']
  exact Generator.finalSubmission_congr (h.problem_eq.trans h'.problem_eq.symm)
    (h.type.trans h'.type.symm)

/-- An IOI problem with a `Complete` group of two tests, of which the first fails. -/
def oneGroup : Problem Int :=
  { id := 1
    problemType := .ioi
    testsNumber := 2
    testGroups :=
      [{ name := "a", firstTest := 1, lastTest := 2, testScore := none, groupScore := some 100,
         scoringType := .complete, requiredGroupNames := [] }] }

def firstFails : Outcomes Int :=
  { compile := { verdict := .CD }
    test := fun t => { verdict := if t = 1 then .WA else .OK } }

/-- Test 2 is stopped, and its result comes before that of test 1. -/
theorem stopping_keeps_submission_one_group :
    ∃ (r : StoppingRun Int) (r' : GeneratorRun Int),
      (machine firstFails oneGroup GeneratorRun.newSubmission).Reachable Machine.always r ∧
      r.stopping = [3, 2, 1] ∧ r.run.returned.length = 1 ∧ r'.returned.length = 1 ∧
      ∀ s ∈ r.run.returned, ∀ s' ∈ r'.returned, s = s' := by
  have hr := Machine.Reachable.of_runs
    (machine firstFails oneGroup GeneratorRun.newSubmission) Machine.always
    [.nextJob 1, .report (GeneratorRun.resultOf 1 .CD none), .deliver 1, .nextJob 2,
      .nextJob 3, .report (GeneratorRun.resultOf 2 .WA none),
      .report (GeneratorRun.resultOf 3 .SK none), .deliver 3, .deliver 2]
    (.of_init ⟨_, ⟨0, _, rfl, rfl⟩, rfl⟩)
    ⟨trivial, rfl, _, rfl, trivial, ⟨_, rfl, rfl, .inl rfl⟩, _, rfl, trivial, ⟨_, rfl⟩, _, rfl,
      trivial, rfl, _, rfl, trivial, rfl, _, rfl, trivial, ⟨_, rfl, rfl, .inl rfl⟩, _, rfl,
      trivial, ⟨_, rfl, rfl, .inr ⟨rfl, 2, by decide, by decide⟩⟩, _, rfl,
      trivial, ⟨_, rfl⟩, _, rfl, trivial, ⟨_, rfl⟩, _, rfl, rfl⟩
  have hr' := Machine.Reachable.of_runs
    (GeneratorRun.machine oneGroup GeneratorRun.newSubmission) (Owns firstFails)
    [.nextJob 1, GeneratorRun.answer 1 .CD none, .nextJob 2, .nextJob 3,
      GeneratorRun.answer 2 .WA none, GeneratorRun.answer 3 .OK none]
    (.of_init ⟨0, _, rfl, rfl⟩)
    ⟨trivial, rfl, _, rfl, fun job h => Option.some.inj h ▸ rfl, trivial, _, rfl,
      trivial, rfl, _, rfl, trivial, rfl, _, rfl,
      fun job h => Option.some.inj h ▸ rfl, trivial, _, rfl,
      fun job h => Option.some.inj h ▸ rfl, trivial, _, rfl, rfl⟩
  exact ⟨_, _, hr, rfl, rfl, rfl,
    stopping_keeps_submission oneGroup GeneratorRun.newSubmission firstFails _ hr _ hr'⟩

end StoppingRun

end TestingSystem
