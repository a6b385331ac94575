import TestingSystem.Master.JobGenerators.ProcessingFrame

/-!
# Giving and withholding tests

The generators differ in how they remember what a completed test prevents: ICPC moves `firstTestToGive`
behind the last test, IOI stops groups. `Gives` and `Settles` describe one call for both.
-/

set_option autoImplicit false

namespace TestingSystem

section Prevents

variable {F : Type} [Zero F]

/-- The completed test prevents test `t`: in ICPC any test that is not `OK` prevents all others, in IOI a
verdict that prevents the group of its test prevents the tests of the groups that the group leads to. -/
def Prevents (problem : Problem F) (job : Job) (result : InvokerJobResult F) (t : Nat) : Prop :=
  match problem.problemType with
  | .icpc => result.verdict ≠ .OK
  | .ioi => ∃ group ∈ problem.testGroups, group.Has job.test ∧
      IOIGenerator.prevents group (IOIGenerator.storedOutcome group result.outcome).verdict = true ∧
      ∃ withheld ∈ problem.testGroups, withheld.Has t ∧
        Closure.Leads problem.nodes group.name withheld.name
  | .other _ => False

end Prevents

/-- The loop of `NextJob` passes over test `t`. -/
def IOIGenerator.Stopped {F : Type} (i : IOIGenerator F) (t : Nat) : Prop :=
  stopFlag.of i.groupNameToInternalInfo (i.groupNameOfTest t) = true

namespace Generator

variable {F : Type}

/-- The next call of `NextJob` passes over test `t`. -/
def Stops (t : Nat) : Generator F → Prop
  | .icpc _ => False
  | .ioi i => i.Stopped t

/-- What `NextJob` does, by the state of the generator. -/
inductive Gives (g g' : Generator F) : Option Job → Prop where
  | compile (job : Job) (before : g.state = .compilationNotStarted) (type : job.type = .compileJob)
      (after : g'.state = .compilationStarted) (first : g'.firstTest = g.firstTest) :
      Gives g g' (some job)
  | waits (before : g.state = .compilationStarted) (same : g' = g) : Gives g g' none
  | test (job : Job) (before : g.state = .compilationFinished) (type : job.type = .testJob)
      (after : g'.state = .compilationFinished) (first : g'.firstTest = job.test + 1)
      (first_le : g.firstTest ≤ job.test) (le : job.test ≤ g.problem.testsNumber)
      (free : ¬ g.Stops job.test) (passed : ∀ t, g.firstTest ≤ t → t < job.test → g.Stops t) :
      Gives g g' (some job)
  | nothing (before : g.state = .compilationFinished) (after : g'.state = .compilationFinished)
      (first_le : g.firstTest ≤ g'.firstTest) (first : g.problem.testsNumber < g'.firstTest)
      (passed : ∀ t, g.firstTest ≤ t → t ≤ g.problem.testsNumber → g.Stops t) : Gives g g' none

variable [Zero F]

/-- What `JobCompleted` does for a given job. -/
inductive Settles (g g' : Generator F) (job : Job) (result : InvokerJobResult F) : Prop where
  | compiled (type : job.type = .compileJob) (before : g.state = .compilationStarted)
      (verdict : result.verdict = .CD) (after : g'.state = .compilationFinished)
      (first : g'.firstTest = g.firstTest) (stops : ∀ t, g'.Stops t ↔ g.Stops t)
  | failed (type : job.type = .compileJob) (before : g.state = .compilationStarted)
      (verdict : result.verdict ≠ .CD)
      (after : g'.state = .compilationStarted ∧ g'.firstTest = g.firstTest ∨
        g'.state = .compilationFinished ∧ g.problem.testsNumber < g'.firstTest)
      (stops : ∀ t, g'.Stops t ↔ g.Stops t)
  | test (type : job.type = .testJob) (before : g.state = .compilationFinished)
      (after : g'.state = .compilationFinished) (first_le : g.firstTest ≤ g'.firstTest)
      (passed : ∀ t, g.firstTest ≤ t → t < g'.firstTest → Prevents g.problem job result t)
      (stops : ∀ t, g'.firstTest ≤ t → t ≤ g.problem.testsNumber →
        (g'.Stops t ↔ g.Stops t ∨ Prevents g.problem job result t))

end Generator

/-! ## NextJob -/

namespace IOIGenerator

variable {F : Type} {i i' : IOIGenerator F}

/-- The loop passes over stopped tests and gives the first other one. -/
theorem nextTestLoop_passes {id : JobID} {turns : Nat} {given : Option Job}
    (h : nextTestLoop id turns i = .ok (given, i')) :
    (i'.state = i.state ∧ ∀ t, i'.Stopped t ↔ i.Stopped t) ∧
      match given with
      | none => i'.firstNotGivenTest = i.firstNotGivenTest + turns ∧
          ∀ t, i.firstNotGivenTest ≤ t → t < i.firstNotGivenTest + turns → i.Stopped t
      | some job => job.type = .testJob ∧ i.firstNotGivenTest ≤ job.test ∧
          job.test < i.firstNotGivenTest + turns ∧ i'.firstNotGivenTest = job.test + 1 ∧
          ¬ i.Stopped job.test ∧ ∀ t, i.firstNotGivenTest ≤ t → t < job.test → i.Stopped t := by
  induction turns generalizing i with
  | zero =>
    cases h
    refine ⟨⟨rfl, fun t => Iff.rfl⟩, rfl, fun t hle hlt => ?_⟩
    omega
  | succ turns ih =>
    unfold nextTestLoop at h
    obtain ⟨info, hinfo, h⟩ := bind_eq_ok.1 h
    have hflag : i.Stopped i.firstNotGivenTest ↔ stopFlag.isSet info = true := by
      rw [Stopped, GroupFlag.of_eq (deref_ok hinfo)]
    split at h
    · next hset =>
      obtain ⟨i₁, hstate, h⟩ := bind_eq_ok.1 h
      obtain ⟨entry, -, hstate⟩ := bind_eq_ok.1 hstate
      cases hstate
      obtain ⟨⟨hsame, hstops⟩, hloop⟩ := ih h
      refine ⟨⟨hsame, hstops⟩, ?_⟩
      have hfirst : ∀ t, i.firstNotGivenTest ≤ t →
          (i.firstNotGivenTest + 1 ≤ t → i.Stopped t) → i.Stopped t := by
        intro t hle hlater
        rcases Nat.lt_or_eq_of_le hle with hlt | heq
        · exact hlater hlt
        · rw [← heq]
          exact hflag.2 hset
      cases given with
      | none =>
        obtain ⟨hend, hpassed⟩ := hloop
        dsimp only at hend hpassed ⊢
        refine ⟨by omega, fun t hle hlt => hfirst t hle fun hle' => hpassed t hle' (by omega)⟩
      | some job =>
        obtain ⟨htype, hle, hlt, hend, hfree, hpassed⟩ := hloop
        dsimp only at hle hlt hpassed ⊢
        refine ⟨htype, by omega, by omega, hend, hfree, fun t hle' hlt' => ?_⟩
        exact hfirst t hle' fun hle'' => hpassed t hle'' hlt'
    · next hset =>
      obtain ⟨i₁, hstate, h⟩ := bind_eq_ok.1 h
      obtain ⟨entry, -, hstate⟩ := bind_eq_ok.1 hstate
      cases hstate
      obtain ⟨ids, -, h⟩ := bind_eq_ok.1 h
      cases h
      refine ⟨⟨rfl, fun t => Iff.rfl⟩, rfl, Nat.le_refl _,
        Nat.lt_add_of_pos_right (Nat.succ_pos turns), rfl, ?_, fun t hle hlt => ?_⟩
      · exact fun hstopped => hset (hflag.1 hstopped)
      · dsimp only at hlt
        omega

end IOIGenerator

namespace Generator

variable {F : Type} {g g' : Generator F}

theorem nextJob_gives {id : JobID} {given : Option Job} (h : g.nextJob id = .ok (given, g')) :
    Gives g g' given ∧ ∀ t, g'.Stops t ↔ g.Stops t := by
  cases g with
  | icpc i =>
    obtain ⟨rfl, rfl⟩ := Prod.mk.inj (Except.ok.inj h)
    refine ⟨?_, fun t => Iff.rfl⟩
    unfold ICPCGenerator.nextJob
    split
    · next hstate => exact .waits hstate rfl
    split
    · next hstate => exact .compile _ hstate rfl rfl rfl
    next hstarted hnot =>
    have hfinished : i.state = .compilationFinished := by
      cases hs : i.state with
      | compilationNotStarted => exact absurd hs hnot
      | compilationStarted => exact absurd hs hstarted
      | compilationFinished => rfl
    split
    · next hlast =>
      refine .nothing hfinished hfinished (Nat.le_refl _) hlast fun t hle hle' => ?_
      exact absurd (Nat.lt_of_lt_of_le hlast (Nat.le_trans hle hle')) (Nat.lt_irrefl _)
    · next hlast =>
      refine .test _ hfinished rfl hfinished rfl (Nat.le_refl _) (Nat.not_lt.1 hlast)
        (fun hstop => hstop) fun t hle hlt => ?_
      exact absurd (Nat.lt_of_lt_of_le hlt hle) (Nat.lt_irrefl _)
  | ioi i =>
    obtain ⟨⟨job, i'⟩, hnext, h⟩ := bind_eq_ok.1 h
    cases h
    unfold IOIGenerator.nextJob at hnext
    split at hnext
    · next hlast =>
      cases hnext
      refine ⟨.nothing hlast.1 hlast.1 (Nat.le_refl _) hlast.2 fun t hle hle' => ?_, fun t => Iff.rfl⟩
      exact absurd (Nat.lt_of_lt_of_le hlast.2 (Nat.le_trans hle hle')) (Nat.lt_irrefl _)
    split at hnext
    · next hstate =>
      cases hnext
      exact ⟨.waits hstate rfl, fun t => Iff.rfl⟩
    split at hnext
    · next hstate =>
      cases hnext
      exact ⟨.compile _ hstate rfl rfl rfl, fun t => Iff.rfl⟩
    next hlast hstarted hnot =>
    have hfinished : i.state = .compilationFinished := by
      cases hs : i.state with
      | compilationNotStarted => exact absurd hs hnot
      | compilationStarted => exact absurd hs hstarted
      | compilationFinished => rfl
    have hle : i.firstNotGivenTest ≤ i.problem.testsNumber :=
      Nat.not_lt.1 fun hlt => hlast ⟨hfinished, hlt⟩
    obtain ⟨⟨hsame, hstops⟩, hloop⟩ := IOIGenerator.nextTestLoop_passes hnext
    refine ⟨?_, hstops⟩
    have hafter : i'.state = .compilationFinished := hsame.trans hfinished
    cases given with
    | none =>
      obtain ⟨hend, hpassed⟩ := hloop
      refine .nothing hfinished hafter ?_ ?_ fun t hle' hle'' => hpassed t hle' ?_
      · change i.firstNotGivenTest ≤ i'.firstNotGivenTest
        omega
      · change i.problem.testsNumber < i'.firstNotGivenTest
        omega
      · change t ≤ i.problem.testsNumber at hle''
        omega
    | some job =>
      obtain ⟨htype, hfirst, hlt, hend, hfree, hpassed⟩ := hloop
      refine .test job hfinished htype hafter hend hfirst ?_ hfree hpassed
      change job.test ≤ i.problem.testsNumber
      omega

/-! ## JobCompleted -/

section Settles

variable [Add F] [Min F] [Zero F] [One F] {outs : Outcomes F} {sub : Submission F}

omit [Add F] [Min F] in
theorem jobCompleted_settles_icpc {i : ICPCGenerator F} (hgood : i.Good outs sub)
    (htype : i.problem.problemType = .icpc) {result : InvokerJobResult F} {job : Job}
    (hget : i.givenJobs.get? result.job.id = some job) {c : Completed (ICPCGenerator F) F}
    (h : i.jobCompleted result = .ok c) : Settles (.icpc i) (.icpc c.generator) job result := by
  cases hgood with
  | notStarted _ _ given => exact absurd ((given _).symm.trans hget) (by simp)
  | done _ done => exact absurd ((done.given _).symm.trans hget) (by simp)
  | compiling state untested id cjob compiling =>
    obtain rfl := compiling.only _ _ hget
    obtain rfl : cjob = job := Option.some.inj (compiling.given.symm.trans hget)
    obtain ⟨m, first, he, hfirst, -⟩ := ICPCGenerator.compileJobCompleted_eq
      (untested.withGiven i.state (i.givenJobs.delete result.job.id)) compiling.type compiling.test result
    simp only [ICPCGenerator.jobCompleted, hget, compiling.type, he, ok_bind] at h
    have hsame := ICPCGenerator.updateSubmissionResult_same h
    by_cases hcd : result.verdict = .CD
    · rw [if_pos hcd] at hfirst
      refine .compiled compiling.type state hcd hsame.state ?_ fun t => Iff.rfl
      exact (hsame.first.trans hfirst).trans untested.first.symm
    · rw [if_neg hcd] at hfirst
      refine .failed compiling.type state hcd (.inr ⟨hsame.state, ?_⟩) fun t => Iff.rfl
      change i.problem.testsNumber < c.generator.firstTestToGive
      rw [hsame.first, hfirst]
      exact Nat.lt_succ_self _
  | testing state _ testing =>
    obtain ⟨hjob, -⟩ := testing.jobs.given _ _ hget
    have hle : i.firstTestToGive ≤ i.problem.testsNumber + 1 := testing.jobs.first_le
    obtain ⟨m, first, he, hfirst, -⟩ := ICPCGenerator.testJobCompleted_eq
      (i := { i with givenJobs := i.givenJobs.delete result.job.id }) hle hjob result
    simp only [ICPCGenerator.jobCompleted, hget, hjob, he, ok_bind] at h
    have hsame := ICPCGenerator.updateSubmissionResult_same h
    have hfirst' : c.generator.firstTestToGive =
        if result.verdict = .OK then i.firstTestToGive else i.problem.testsNumber + 1 :=
      hsame.first.trans hfirst
    have hprevents : ∀ t, Prevents i.problem job result t ↔ result.verdict ≠ .OK := by
      intro t
      rw [Prevents, htype]
    by_cases hok : result.verdict = .OK
    · rw [if_pos hok] at hfirst'
      refine .test hjob state (hsame.state.trans state) (Nat.le_of_eq hfirst'.symm) ?_ ?_
      · intro t hle' hlt
        rw [show firstTest (.icpc c.generator) = i.firstTestToGive from hfirst'] at hlt
        exact absurd (Nat.lt_of_lt_of_le hlt hle') (Nat.lt_irrefl _)
      · intro t _ _
        exact ⟨False.elim, fun hs => hs.elim False.elim fun hprev => (hprevents t).1 hprev hok⟩
    · rw [if_neg hok] at hfirst'
      refine .test hjob state (hsame.state.trans state) ?_ (fun t _ _ => (hprevents t).2 hok)
        fun t hle' hle'' => ?_
      · change i.firstTestToGive ≤ c.generator.firstTestToGive
        omega
      · change c.generator.firstTestToGive ≤ t at hle'
        change t ≤ i.problem.testsNumber at hle''
        omega

omit [One F] in
theorem jobCompleted_settles_ioi {i : IOIGenerator F} (hgood : i.Good outs sub)
    {result : InvokerJobResult F} {job : Job}
    (hget : i.givenJobs.get? result.job.id = some job) {c : Completed (IOIGenerator F) F}
    (h : i.jobCompleted result = .ok c) : Settles (.ioi i) (.ioi c.generator) job result := by
  cases hgood with
  | notStarted _ _ given => exact absurd ((given _).symm.trans hget) (by simp)
  | done _ _ _ _ _ _ given => exact absurd ((given _).symm.trans hget) (by simp)
  | failed _ _ _ given => exact absurd ((given _).symm.trans hget) (by simp)
  | compiling state untested id cjob compiling =>
    obtain rfl := compiling.only _ _ hget
    obtain rfl : cjob = job := Option.some.inj (compiling.given.symm.trans hget)
    obtain ⟨infos, state', he, hstate, -, hstop, -⟩ := IOIGenerator.compileJobCompleted_eq
      (untested.withGiven i.state (i.givenJobs.delete result.job.id)) compiling.test result
    simp only [IOIGenerator.jobCompleted, hget, compiling.type, he, ok_bind] at h
    have hsame := IOIGenerator.updateSubmissionResult_same h
    have hstops : ∀ t, Stops t (.ioi c.generator) ↔ Stops t (.ioi i) := by
      intro t
      change IOIGenerator.stopFlag.of _ _ = true ↔ IOIGenerator.stopFlag.of _ _ = true
      rw [hsame.names, hsame.stops, hstop]
      rfl
    by_cases hcd : result.verdict = .CD
    · rw [if_pos hcd] at hstate
      exact .compiled compiling.type state hcd (hsame.state.trans hstate) hsame.first hstops
    · rw [if_neg hcd] at hstate
      exact .failed compiling.type state hcd
        (.inl ⟨(hsame.state.trans hstate).trans state, hsame.first⟩) hstops
  | testing state _ prepared jobs =>
    obtain ⟨hjob, hpos, hlt, -⟩ := jobs.given _ _ hget
    have hle := jobs.first_le
    have ha := prepared.accepted
    obtain ⟨group, hg, hhas⟩ := ha.exists_group hpos (show job.test ≤ _ by omega)
    obtain ⟨infos, he, hs⟩ := IOIGenerator.testJobCompleted_eq prepared jobs hget hg hhas result
    simp only [IOIGenerator.jobCompleted, hget, hjob, he, ok_bind] at h
    have hsame := IOIGenerator.updateSubmissionResult_same h
    have hfirst : firstTest (.ioi c.generator) = i.firstNotGivenTest := hsame.first
    refine .test hjob state (hsame.state.trans state) (Nat.le_of_eq hfirst.symm) ?_ ?_
    · intro t hle' hlt'
      rw [hfirst] at hlt'
      exact absurd (Nat.lt_of_lt_of_le hlt' hle') (Nat.lt_irrefl _)
    · intro t hle' hle''
      rw [hfirst] at hle'
      obtain ⟨withheld, hw, hhas'⟩ := ha.exists_group (Nat.le_trans jobs.first_pos hle') hle''
      have hname : i.groupNameOfTest t = withheld.name := prepared.names withheld hw t hhas'
      have hnew : Stops t (.ioi c.generator) ↔
          IOIGenerator.stopFlag.of infos withheld.name = true := by
        change IOIGenerator.stopFlag.of _ _ = true ↔ _
        rw [hsame.names, hsame.stops]
        change IOIGenerator.stopFlag.of infos (i.groupNameOfTest t) = true ↔ _
        rw [hname]
      have hold : Stops t (.ioi i) ↔
          IOIGenerator.stopFlag.of i.groupNameToInternalInfo withheld.name = true := by
        change IOIGenerator.stopFlag.of _ _ = true ↔ _
        rw [hname]
      rw [hnew, hold, hs.stop withheld hw]
      refine or_congr_right ?_
      -- No other groups have the two tests.
      change _ ↔ Prevents i.problem job result t
      rw [Prevents, ha.type]
      constructor
      · rintro ⟨hprev, hl⟩
        exact ⟨group, hg, hhas, hprev, withheld, hw, hhas', hl⟩
      · rintro ⟨group₁, hg₁, hhas₁, hprev, withheld₁, hw₁, hhas₂, hl⟩
        obtain rfl := ha.eq_of_has hg₁ hg hhas₁ hhas
        obtain rfl := ha.eq_of_has hw₁ hw hhas₂ hhas'
        exact ⟨hprev, hl⟩

theorem jobCompleted_settles {g : Generator F} (hgood : g.Good outs sub)
    (htype : g.problemType = g.problem.problemType) {result : InvokerJobResult F} {job : Job}
    (hget : g.givenJobs.get? result.job.id = some job) {c : Completed (Generator F) F}
    (h : g.jobCompleted result = .ok c) : Settles g c.generator job result := by
  cases g with
  | icpc i =>
    obtain ⟨c', hc', hc⟩ := bind_eq_ok.1 h
    cases hc
    exact jobCompleted_settles_icpc hgood htype.symm hget hc'
  | ioi i =>
    obtain ⟨c', hc', hc⟩ := bind_eq_ok.1 h
    cases hc
    exact jobCompleted_settles_ioi hgood hget hc'

end Settles

end Generator

end TestingSystem
