import TestingSystem.Master.JobGenerators.GeneratorRuns
import TestingSystem.Master.JobGenerators.IOIReference

/-!
# Panics of the IOI generator

`completeGroupTesting` adds up the points of the tests of a group. A skipped test has no points:
`Min` scores it 0, `EachTest` panics. As long as no result makes the generator skip a test of an
`EachTest` group (`KeepsEachTest`), no call panics; without this condition a failed compilation
suffices.
-/

set_option autoImplicit false

namespace TestingSystem

namespace IOIGenerator

variable {F : Type}

/-- No `EachTest` group requires the group of the test, directly or through other groups. -/
def Independent (problem : Problem F) (test : Nat) : Prop :=
  ∀ group ∈ problem.testGroups, group.Has test →
    ∀ each ∈ problem.testGroups, each.scoringType = .eachTest →
      ¬ Relation.TransGen (Closure.Edge problem.nodes) group.name each.name

def NoEachTest (problem : Problem F) : Prop :=
  ∀ group ∈ problem.testGroups, group.scoringType ≠ .eachTest

/-- A test whose group is required by no other is independent. -/
theorem Independent.of_not_required {problem : Problem F} {test : Nat}
    (h : ∀ group ∈ problem.testGroups, group.Has test →
      ∀ other ∈ problem.testGroups, group.name ∉ other.requiredGroupNames) :
    Independent problem test := by
  intro group hg hhas each _ _ hpath
  obtain ⟨next, ⟨required, hmem, hname⟩, -⟩ := Relation.TransGen.head'_iff.1 hpath
  obtain ⟨other, hother, heq⟩ := List.mem_map.1 hmem
  obtain ⟨-, rfl⟩ := Prod.mk.inj heq
  exact h group hg hhas other hother hname

/-- Outcomes that leave no test of an `EachTest` group without points. -/
structure KeepsPoints (problem : Problem F) (outs : Outcomes F) : Prop where
  compile : outs.compile.verdict = .CD ∨ NoEachTest problem
  test : ∀ t, (outs.test t).verdict ≠ .OK → Independent problem t
  points : ∀ group ∈ problem.testGroups, group.scoringType ≠ .complete → ∀ t, group.Has t →
    (outs.test t).verdict = .PT → (outs.test t).points.isSome

/-- A result that leaves none: it makes the generator skip no test of an `EachTest` group, and `PT`
comes with points if the score of the group reads them. -/
def Scorable (problem : Problem F) (job : Job) (result : InvokerJobResult F) : Prop :=
  if job.type = .compileJob then result.verdict = .CD ∨ NoEachTest problem
  else (result.verdict = .OK ∨ Independent problem job.test) ∧
    ∀ group ∈ problem.testGroups, group.scoringType ≠ .complete → group.Has job.test →
      result.verdict = .PT → result.points.isSome

/-- The outcome of a given job keeps the points. -/
theorem KeepsPoints.settle {problem : Problem F} {outs : Outcomes F} (h : KeepsPoints problem outs)
    {job : Job} (htype : job.type = .compileJob ∨ job.type = .testJob) {result : InvokerJobResult F}
    (hresult : Scorable problem job result) :
    KeepsPoints problem (Generator.settle outs job result.outcome) := by
  rcases htype with htype | htype
  · rw [Scorable, if_pos htype] at hresult
    simp only [Generator.settle, htype]
    exact ⟨hresult, h.test, h.points⟩
  · rw [Scorable, if_neg (by simp [htype])] at hresult
    obtain ⟨hskip, hpoints⟩ := hresult
    simp only [Generator.settle, htype]
    -- only the outcome of the test of the job is new
    refine ⟨h.compile, ?_, ?_⟩
    · intro t
      by_cases heq : t = job.test
      · rw [heq, Outcomes.setTest_self]
        intro hne
        exact hskip.resolve_left hne
      · rw [Outcomes.setTest_ne _ _ heq]
        exact h.test t
    · intro group hg hc t ht
      by_cases heq : t = job.test
      · rw [heq, Outcomes.setTest_self]
        exact hpoints group hg hc (heq ▸ ht)
      · rw [Outcomes.setTest_ne _ _ heq]
        exact h.points group hg hc t ht

/-! ## Points of the tests -/

section Points

variable [Zero F]

/-- The points that a group reads are there when the test was run. -/
theorem storedOutcome_points {group : TestGroup F} (h : group.Scored)
    (hc : group.scoringType ≠ .complete) {outcome : Outcome F}
    (hpt : outcome.verdict = .PT → outcome.points.isSome) :
    (storedOutcome group outcome).points.isSome := by
  have hmissing : ∀ score : Option F, score.isSome → outcome.points = none →
      ∃ points, missingPoints score outcome.verdict = .ok (some points) := by
    intro score hscore hnone
    obtain ⟨points, rfl⟩ := Option.isSome_iff_exists.1 hscore
    rw [hnone] at hpt
    unfold missingPoints
    cases hv : outcome.verdict with
    | OK => exact ⟨points, rfl⟩
    | PT => cases hpt hv
    | _ => exact ⟨0, rfl⟩
  unfold TestGroup.Scored at h
  unfold storedOutcome populateTestJobResult
  cases hs : group.scoringType with
  | complete => exact absurd hs hc
  | eachTest =>
    rw [hs] at h
    cases hp : outcome.points with
    | some points => simp [populatedOutcome]
    | none =>
      obtain ⟨points, hm⟩ := hmissing _ h hp
      simp [populatedOutcome, hm]
  | min =>
    rw [hs] at h
    cases hp : outcome.points with
    | some points => simp [populatedOutcome]
    | none =>
      obtain ⟨points, hm⟩ := hmissing _ h hp
      simp [populatedOutcome, hm]
  | other value => simp [hs] at h

omit [Zero F] in
theorem shownResult_points (t : Nat) (outcome : Outcome F) :
    (shownResult t outcome).points = outcome.points := by
  simp only [shownResult]
  split <;> simp

variable {problem : Problem F} {outs : Outcomes F}

/-- A test that is not skipped has points. -/
theorem shown_points (ha : Accepted problem) (h : KeepsPoints problem outs) {group : TestGroup F}
    (hg : group ∈ problem.testGroups) (hc : group.scoringType ≠ .complete) {t : Nat}
    (ht : group.Has t) :
    (shown problem outs t).verdict = .SK ∨ (shown problem outs t).points.isSome := by
  rw [shown_eq ha hg ht]
  split
  · exact .inl rfl
  · rw [shownResult_points]
    exact .inr (storedOutcome_points (ha.scored group hg) hc (h.points group hg hc t ht))

/-- No test of an `EachTest` group is skipped. -/
theorem marks_eachTest (ha : Accepted problem) (h : KeepsPoints problem outs)
    {group : TestGroup F} (hg : group ∈ problem.testGroups) (he : group.scoringType = .eachTest)
    (k : Nat) : marks problem outs k group.name = false := by
  rw [Bool.eq_false_iff, ne_eq, marks_iff ha, not_or]
  refine ⟨fun hne => ?_, ?_⟩
  · exact (h.compile.resolve_left hne) group hg he
  · rintro ⟨g, hmem, ⟨p, -, hhas, hprev⟩, hl⟩
    rcases Relation.reflTransGen_iff_eq_or_transGen.1 hl with hname | htrans
    · obtain rfl := ha.eq_of_name hg hmem hname
      rw [prevents, he] at hprev
      cases hprev
    · have hok : (outs.test p).verdict ≠ .OK := fun hok =>
        ne_ok_of_prevents hprev (storedOutcome_ok hok)
      exact h.test p hok g hmem hhas group hg he htrans

end Points

/-! ## Scores of the groups -/

theorem sumPoints_ok [Add F] {results : List (TestResult F)} (h : ∀ r ∈ results, r.points.isSome)
    (score : F) : ∃ s, sumPoints results score = .ok s := by
  induction results generalizing score with
  | nil => exact ⟨score, rfl⟩
  | cons result results ih =>
    obtain ⟨points, hp⟩ := Option.isSome_iff_exists.1 (h result List.mem_cons_self)
    rw [sumPoints, hp]
    exact ih (fun r hr => h r (List.mem_cons_of_mem _ hr)) _

theorem minPoints_ok [Min F] [Zero F] {results : List (TestResult F)}
    (h : ∀ r ∈ results, r.verdict = .SK ∨ r.points.isSome) (score : F) :
    ∃ s, minPoints results score = .ok s := by
  induction results generalizing score with
  | nil => exact ⟨score, rfl⟩
  | cons result results ih =>
    have hrest := ih fun r hr => h r (List.mem_cons_of_mem _ hr)
    rw [minPoints]
    cases hp : result.points with
    | some points => exact hrest _
    | none =>
      have hsk := (h result List.mem_cons_self).resolve_right (by simp [hp])
      rw [hsk]
      exact hrest 0

variable [Add F] [Min F] [Zero F] {problem : Problem F} {outs : Outcomes F} {sub : Submission F}

/-- Every group has a score. -/
theorem KeepsPoints.scored (ha : Accepted problem) (h : KeepsPoints problem outs)
    (hsub : sub.testResults = []) : Scored problem outs sub := by
  intro group hg
  have hresults : ∀ r ∈ groupTests problem outs sub group,
      ∃ t, group.Has t ∧ r = shown problem outs t := by
    rw [groupTests_eq ha hsub hg]
    intro r hr
    obtain ⟨t, ht, rfl⟩ := List.mem_map.1 hr
    have hb := List.mem_range'_1.1 ht
    have := (ha.tiled.bounds hg).2.1
    exact ⟨t, ⟨hb.1, by omega⟩, rfl⟩
  have hscored := ha.scored group hg
  unfold TestGroup.Scored at hscored
  unfold groupScore
  cases hs : group.scoringType with
  | complete =>
    rw [hs] at hscored
    obtain ⟨score, hscore⟩ := Option.isSome_iff_exists.1 hscored
    simp only [hscore]
    split
    · exact ⟨score, rfl⟩
    · exact ⟨0, rfl⟩
  | eachTest =>
    refine sumPoints_ok (fun r hr => ?_) 0
    obtain ⟨t, ht, rfl⟩ := hresults r hr
    have hc : group.scoringType ≠ .complete := by simp [hs]
    rw [shown_eq ha hg ht, marks_eachTest ha h hg hs, if_neg Bool.false_ne_true,
      shownResult_points]
    exact storedOutcome_points (ha.scored group hg) hc (h.points group hg hc t ht)
  | min =>
    rw [hs] at hscored
    obtain ⟨score, hscore⟩ := Option.isSome_iff_exists.1 hscored
    simp only [hscore, deref, ok_bind]
    refine minPoints_ok (fun r hr => ?_) score
    obtain ⟨t, ht, rfl⟩ := hresults r hr
    exact shown_points ha h hg (by simp [hs]) ht
  | other value => simp [hs] at hscored

/-- The completion of a job cannot panic. -/
theorem KeepsPoints.no_panic (ha : Accepted problem) (h : KeepsPoints problem outs)
    (hsub : sub.testResults = []) (hgroups : sub.groupResults = []) (p : Panic) :
    ¬ ScorePanic problem outs sub p := by
  rintro (⟨group, hg, hscore⟩ | hold | hold)
  · obtain ⟨s, hs⟩ := h.scored ha hsub group hg
    rw [hs] at hscore
    cases hscore
  · exact hold hgroups
  · exact hold hsub

end IOIGenerator

/-! ## Generators whose groups have scores -/

namespace Generator

variable {F : Type}

/-- Only the IOI generator reads points. -/
def KeepsPoints (outs : Outcomes F) : Generator F → Prop
  | .icpc _ => True
  | .ioi i => IOIGenerator.KeepsPoints i.problem outs

/-- The generator can score its groups with this result of the job. -/
def Scorable (job : Job) (result : InvokerJobResult F) : Generator F → Prop
  | .icpc _ => True
  | .ioi i => IOIGenerator.Scorable i.problem job result

theorem keepsPoints_of_problem {g : Generator F} {outs : Outcomes F}
    (h : IOIGenerator.KeepsPoints g.problem outs) : g.KeepsPoints outs := by
  cases g with
  | icpc i => trivial
  | ioi i => exact h

theorem KeepsPoints.settle {g : Generator F} {outs : Outcomes F} (h : g.KeepsPoints outs) {job : Job}
    (htype : job.type = .compileJob ∨ job.type = .testJob) {result : InvokerJobResult F}
    (hresult : g.Scorable job result) : g.KeepsPoints (settle outs job result.outcome) := by
  cases g with
  | icpc i => trivial
  | ioi i => exact IOIGenerator.KeepsPoints.settle h htype hresult

variable [Add F] [Min F] [Zero F] [One F] {g g' : Generator F} {outs : Outcomes F}
  {sub : Submission F}

theorem Later.keepsPoints_eq (h : Later g g') :
    (fun outs : Outcomes F => g'.KeepsPoints outs) = fun outs => g.KeepsPoints outs := by
  have htype := h.type
  have hproblem := h.problem
  funext outs
  cases g with
  | icpc i =>
    cases g' with
    | icpc i' => rfl
    | ioi i' => cases htype
  | ioi i =>
    cases g' with
    | icpc i' => cases htype
    | ioi i' =>
      have hproblem : i'.problem = i.problem := hproblem
      simp only [KeepsPoints, hproblem]

/-- Outcomes that keep the points make no completion panic. -/
theorem KeepsPoints.no_scorePanic (h : g.KeepsPoints outs) {outs' : Outcomes F} {sub' : Submission F}
    (hgood : g.Good outs' sub') (hsub : sub.testResults = []) (hgroups : sub.groupResults = [])
    (p : Panic) : ¬ g.ScorePanic outs sub p := by
  cases g with
  | icpc i => exact not_false
  | ioi i => exact IOIGenerator.KeepsPoints.no_panic (IOIGenerator.Good.accepted hgood) h hsub hgroups p

/-- A generator that started without results and whose results so far keep the points. -/
def CanScore (g : Generator F) : Prop :=
  ∃ sub, sub.testResults = [] ∧ sub.groupResults = [] ∧ g.Sound (fun outs => g.KeepsPoints outs) sub

theorem canScore_new {id : GeneratorID} {problem : Problem F} (h : new id problem sub = .ok g)
    (hsub : sub.testResults = []) (hgroups : sub.groupResults = []) : g.CanScore := by
  refine ⟨sub, hsub, hgroups, .of_new h ⟨{ verdict := .CD }, fun _ => { verdict := .OK }⟩
    (keepsPoints_of_problem ⟨.inl rfl, ?_, ?_⟩) fun _ => rfl⟩
  · intro t hne
    exact absurd rfl hne
  · intro group hg hc t ht hpt
    cases hpt

theorem CanScore.nextJob (h : g.CanScore) {id : JobID} (hid : g.givenJobs.get? id = none)
    {r : Option Job} (he : g.nextJob id = .ok (r, g')) : g'.CanScore := by
  obtain ⟨sub, hsub, hgroups, hs⟩ := h
  obtain ⟨r', g'', he', hnone, hsome⟩ := hs.nextJob hid
  obtain ⟨rfl, rfl⟩ := Prod.mk.inj (Except.ok.inj (he.symm.trans he'))
  refine ⟨sub, hsub, hgroups, ?_⟩
  cases r with
  | none =>
    rw [(hnone rfl).toLater.keepsPoints_eq]
    exact (hnone rfl).sound
  | some job =>
    rw [(hsome job rfl).toLater.keepsPoints_eq]
    exact (hsome job rfl).sound

/-- A completion with such a result succeeds. -/
theorem CanScore.jobCompleted (h : g.CanScore) {result : InvokerJobResult F} {job : Job}
    (hget : g.givenJobs.get? result.job.id = some job) (hresult : g.Scorable job result) :
    ∃ c, g.jobCompleted result = .ok c ∧ c.generator.CanScore := by
  obtain ⟨sub, hsub, hgroups, hs⟩ := h
  have hs' := hs
  obtain ⟨outs, -, hgood, -⟩ := hs'
  have htype := hgood.type_of_given hget
  rcases hs.jobCompleted hget fun _ hkeeps => hkeeps.settle htype hresult with
    ⟨c, he, hc⟩ | ⟨p, _, -, hkeeps, hp⟩
  · refine ⟨c, he, sub, hsub, hgroups, ?_⟩
    rw [hc.toLater.keepsPoints_eq]
    exact hc.sound
  · exact absurd hp (hkeeps.no_scorePanic hgood hsub hgroups p)

end Generator

namespace GeneratorRun

open IOIGenerator

variable {F : Type} [Add F] [Min F] [Zero F] [One F]

/-- A result is for a given job, and `PT` comes with points. -/
def Expected (r : GeneratorRun F) : Call F → Prop
  | .nextJob _ => True
  | .jobCompleted result => ∃ job, r.generator.givenJobs.get? result.job.id = some job ∧
      (job.type = .testJob → result.verdict = .PT → result.points.isSome)

/-- A result makes the generator skip no test of an `EachTest` group. -/
def KeepsEachTest (problem : Problem F) (r : GeneratorRun F) : Call F → Prop
  | .nextJob _ => True
  | .jobCompleted result => ∀ job, r.generator.givenJobs.get? result.job.id = some job →
      if job.type = .compileJob then result.verdict = .CD ∨ NoEachTest problem
      else result.verdict = .OK ∨ Independent problem job.test

/-- What holds between the calls: some outcomes explain the state of the generator. -/
structure Running (problem : Problem F) (sub : Submission F) (r : GeneratorRun F) : Prop where
  problem_eq : r.generator.problem = problem
  sound : r.generator.Sound (KeepsPoints problem) sub

variable {problem : Problem F} {sub : Submission F} {r r' : GeneratorRun F}

omit [Add F] [Min F] [Zero F] [One F] in
/-- An expected result leaves no points out. -/
theorem KeepsEachTest.scorable {result : InvokerJobResult F} {job : Job}
    (hget : r.generator.givenJobs.get? result.job.id = some job)
    (htype : job.type = .compileJob ∨ job.type = .testJob)
    (hexp : Expected r (.jobCompleted result)) (hkeep : KeepsEachTest problem r (.jobCompleted result)) :
    Scorable problem job result := by
  obtain ⟨job', hget', hpt⟩ := hexp
  obtain rfl := Option.some.inj (hget'.symm.trans hget)
  have hk := hkeep _ hget
  unfold Scorable
  rcases htype with htype | htype
  · rw [if_pos htype] at hk ⊢
    exact hk
  · rw [if_neg (by simp [htype])] at hk ⊢
    exact ⟨hk, fun _ _ _ _ => hpt htype⟩

/-- A call with an expected result succeeds and keeps the invariant. -/
theorem Running.exec (h : Running problem sub r) (hsub : sub.testResults = [])
    (hgroups : sub.groupResults = []) {call : Call F} (hen : r.enabled call)
    (hexp : Expected r call) (hkeep : KeepsEachTest problem r call) :
    ∃ r', r.exec call = .ok r' ∧ Running problem sub r' := by
  cases call with
  | nextJob id =>
    obtain ⟨job, g, he, hnone, hsome⟩ := h.sound.nextJob hen
    refine ⟨{ r with generator := g }, by simp [GeneratorRun.exec, he, pure, Except.pure], ?_⟩
    cases job with
    | none => exact ⟨(hnone rfl).problem.trans h.problem_eq, (hnone rfl).sound⟩
    | some job => exact ⟨(hsome job rfl).problem.trans h.problem_eq, (hsome job rfl).sound⟩
  | jobCompleted result =>
    obtain ⟨job, hget, -⟩ := id hexp
    have htype := h.sound.elim fun _ ho => ho.2.1.type_of_given hget
    rcases h.sound.jobCompleted hget fun _ hP => hP.settle htype (hkeep.scorable hget htype hexp) with
      ⟨c, he, hc⟩ | ⟨p, outs, he, hP, hp⟩
    · refine ⟨{ generator := c.generator, returned := record r.returned c.submission }, ?_,
        hc.problem.trans h.problem_eq, hc.sound⟩
      simp only [GeneratorRun.exec, he, ok_bind, pure, Except.pure]
    · obtain ⟨_, -, hgood, -⟩ := h.sound
      have hkeeps := Generator.keepsPoints_of_problem (h.problem_eq ▸ hP)
      exact absurd hp (hkeeps.no_scorePanic hgood hsub hgroups p)

/-- The generator of an accepted problem never panics in a run that keeps the tests of the
`EachTest` groups. -/
theorem safe_of_keepsEachTest (problem : Problem F) (sub : Submission F)
    (hsub : sub.testResults = []) (hgroups : sub.groupResults = []) :
    (machine problem sub).Safe fun r call => Expected r call ∧ KeepsEachTest problem r call := by
  intro r hr call hok hen
  have hrun : Running problem sub r := by
    refine hr.invariant ?_ ?_
    · rintro r ⟨id, g, hnew, rfl⟩
      refine ⟨(Generator.new_good hnew).2.1, Generator.Sound.of_new hnew
        ⟨{ verdict := .CD }, fun _ => { verdict := .OK }⟩ ?_ fun _ => rfl⟩
      exact ⟨.inl rfl, fun t h => absurd rfl h, fun _ _ _ t _ h => nomatch h⟩
    · rintro r call r' h ⟨hexp, hkeep⟩ hen he
      obtain ⟨r'', he', h'⟩ := h.exec hsub hgroups hen hexp hkeep
      have he : r.exec call = .ok r' := he
      rw [he] at he'
      exact Except.ok.inj he' ▸ h'
  obtain ⟨r', he, -⟩ := hrun.exec hsub hgroups hen hok.1 hok.2
  exact ⟨r', he⟩

/-- An IOI problem whose only group is an `EachTest` group. -/
def oneEachTest : Problem Int :=
  { id := 1
    problemType := .ioi
    testsNumber := 1
    testGroups :=
      [{ name := "a", firstTest := 1, lastTest := 1, testScore := some 100, groupScore := none,
         scoringType := .eachTest, requiredGroupNames := [] }] }

/-- An `EachTest` group that requires another group. -/
def requiringEachTest : Problem Int :=
  { id := 2
    problemType := .ioi
    testsNumber := 2
    testGroups :=
      [{ name := "a", firstTest := 1, lastTest := 1, testScore := none, groupScore := some 40,
         scoringType := .complete, requiredGroupNames := [] },
       { name := "b", firstTest := 2, lastTest := 2, testScore := some 60, groupScore := none,
         scoringType := .eachTest, requiredGroupNames := ["a"] }] }

/-- The required test is `OK`, and a wrong answer in the `EachTest` group itself does not panic. -/
theorem safe_of_keepsEachTest_compiled :
    ∃ r, (machine requiringEachTest newSubmission).Reachable
        (fun r call => Expected r call ∧ KeepsEachTest requiringEachTest r call) r ∧
      ∃ r', r.exec (answer 3 .WA none) = .ok r' ∧ r'.returned.length = 1 := by
  have hr := Machine.Reachable.of_runs (machine requiringEachTest newSubmission)
    (fun r call => Expected r call ∧ KeepsEachTest requiringEachTest r call)
    [.nextJob 1, answer 1 .CD none, .nextJob 2, answer 2 .OK none, .nextJob 3]
    (.of_init ⟨0, _, rfl, rfl⟩)
    ⟨⟨trivial, trivial⟩, rfl, _, rfl,
      ⟨⟨_, rfl, fun h => nomatch h⟩, fun job h => Option.some.inj h ▸ .inl rfl⟩, trivial, _, rfl,
      ⟨trivial, trivial⟩, rfl, _, rfl,
      ⟨⟨_, rfl, fun _ h => nomatch h⟩, fun job h => Option.some.inj h ▸ .inl rfl⟩, trivial, _, rfl,
      ⟨trivial, trivial⟩, rfl, _, rfl, rfl⟩
  have hindependent : Independent requiringEachTest 2 := .of_not_required (by decide)
  obtain ⟨r', he⟩ := safe_of_keepsEachTest requiringEachTest newSubmission rfl rfl _ hr
    (answer 3 .WA none)
    ⟨⟨_, rfl, fun _ h => nomatch h⟩, fun job h => Option.some.inj h ▸ .inr hindependent⟩ trivial
  have he' : GeneratorRun.exec _ (answer 3 .WA none) = .ok r' := he
  exact ⟨_, hr, r', he', by cases he'; rfl⟩

/-- A failed compilation skips the test, and the group panics. -/
theorem eachTest_panics :
    ¬ ∀ (problem : Problem Int) (sub : Submission Int), sub.testResults = [] →
      sub.groupResults = [] → (machine problem sub).Safe Expected := by
  intro h
  have hr := Machine.Reachable.of_runs (machine oneEachTest newSubmission) Expected
    [.nextJob 1] (.of_init ⟨0, _, rfl, rfl⟩) ⟨trivial, rfl, _, rfl, rfl⟩
  obtain ⟨r', he⟩ := h oneEachTest newSubmission rfl rfl _ hr (answer 1 .CE none)
    ⟨_, rfl, fun h => nomatch h⟩ trivial
  cases he

end GeneratorRun

end TestingSystem
