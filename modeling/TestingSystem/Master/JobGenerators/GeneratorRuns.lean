import TestingSystem.Lib.Machine
import TestingSystem.Master.JobGenerators.Generator

/-!
# Runs of one generator

A generator is called with `NextJob` and `JobCompleted` in any order. Every UUID is new: `NextJob` is
never called with the ID of a job that is still given. A result may name any job; for one that is
not given, ICPC panics, which ends the run, and IOI returns an error.
-/

set_option autoImplicit false

namespace TestingSystem

/-- A call of a generator. -/
inductive Call (F : Type) where
  | nextJob (id : JobID)
  | jobCompleted (result : InvokerJobResult F)

/-- A generator with the submissions that `JobCompleted` returned so far. -/
structure GeneratorRun (F : Type) where
  generator : Generator F
  returned : List (Submission F)

namespace GeneratorRun

variable {F : Type} [Add F] [Min F] [Zero F] [One F]

/-- The submissions after a call returned `submission`. -/
def record (returned : List (Submission F)) :
    Except String (Option (Submission F)) → List (Submission F)
  | .ok (some submission) => returned ++ [submission]
  | _ => returned

def exec (r : GeneratorRun F) : Call F → Except Panic (GeneratorRun F)
  | .nextJob id => do
    let (_, g) ← r.generator.nextJob id
    return { r with generator := g }
  | .jobCompleted result => do
    let c ← r.generator.jobCompleted result
    return { generator := c.generator, returned := record r.returned c.submission }

/-- The UUID of a new job is not that of a given one. -/
def enabled (r : GeneratorRun F) : Call F → Prop
  | .nextJob id => r.generator.givenJobs.get? id = none
  | .jobCompleted _ => True

/-- The runs of the generators of a problem and a submission. -/
def machine (problem : Problem F) (sub : Submission F) : Machine (GeneratorRun F) (Call F) Panic where
  init r := ∃ id g, Generator.new id problem sub = .ok g ∧ r = ⟨g, []⟩
  enabled := enabled
  exec := exec

/-- The outcomes explain a run: the generator agrees with them, and a submission was returned, the
final one, exactly if testing is finished. -/
structure ExplainedBy (problem : Problem F) (sub : Submission F) (outs : Outcomes F)
    (r : GeneratorRun F) : Prop where
  problem_eq : r.generator.problem = problem
  type : r.generator.problemType = problem.problemType
  good : r.generator.Good outs sub
  returned : r.returned = [] ∧ ¬ r.generator.Finished ∨
    r.returned = [r.generator.finalSubmission outs sub] ∧ r.generator.Finished

variable {problem : Problem F} {sub : Submission F} {r r' : GeneratorRun F} {outs : Outcomes F}

theorem ExplainedBy.nextJob (h : ExplainedBy problem sub outs r) {id : JobID}
    (hen : r.enabled (.nextJob id)) (he : r.exec (.nextJob id) = .ok r') :
    ExplainedBy problem sub outs r' := by
  obtain ⟨job, g, hnext, hnone, hsome⟩ := Generator.nextJob_ok h.good hen
  simp only [exec, hnext, ok_bind] at he
  cases he
  cases job with
  | none =>
    have hn := hnone rfl
    refine ⟨hn.problem.trans h.problem_eq, hn.type.trans h.type, hn.good, ?_⟩
    rw [hn.finished, hn.final]
    exact h.returned
  | some job =>
    have hg := hsome job rfl
    refine ⟨hg.problem.trans h.problem_eq, hg.type.trans h.type, hg.good, .inl ⟨?_, hg.not_finished.2⟩⟩
    exact (h.returned.resolve_right fun hf => hg.not_finished.1 hf.2).1

/-- A completed job, for outcomes with which the call is explained. -/
theorem ExplainedBy.of_completed (h : ExplainedBy problem sub outs r)
    {result : InvokerJobResult F} {job : Job} {outs' : Outcomes F} {panics : Panic → Prop}
    (hget : r.generator.givenJobs.get? result.job.id = some job)
    (hcall : (∃ c, r.generator.jobCompleted result = .ok c ∧
        Generator.CompletedGood outs' sub r.generator result.job.id c) ∨
      ∃ p, r.generator.jobCompleted result = .error p ∧ panics p)
    (he : r.exec (.jobCompleted result) = .ok r') : ExplainedBy problem sub outs' r' := by
  have hnot : ¬ r.generator.Finished := fun hf => by
    rw [h.good.given_none hf] at hget
    cases hget
  have hempty := (h.returned.resolve_right fun hf => hnot hf.2).1
  rcases hcall with ⟨c, hc, hgood⟩ | ⟨p, hp, -⟩
  · simp only [exec, hc, ok_bind] at he
    cases he
    refine ⟨hgood.problem.trans h.problem_eq, hgood.type.trans h.type, hgood.good, ?_⟩
    rcases hgood.submission with ⟨hs, hfin⟩ | ⟨hs, hfin⟩
    · exact .inl ⟨by simp only [hs, record, hempty], hfin⟩
    · exact .inr ⟨by simp only [hs, record, hempty, List.nil_append, hgood.final], hfin⟩
  · simp only [exec, hp, error_bind] at he
    cases he

/-- What is returned is the final submission of the outcomes. -/
theorem ExplainedBy.eq_final (h : ExplainedBy problem sub outs r) {s : Submission F}
    (hs : s ∈ r.returned) : s = r.generator.finalSubmission outs sub := by
  rcases h.returned with ⟨hret, -⟩ | ⟨hret, -⟩
  · rw [hret] at hs
    cases hs
  · rwa [hret, List.mem_singleton] at hs

/-- A result for a job that is not given changes nothing. -/
theorem exec_unknown {result : InvokerJobResult F}
    (hget : r.generator.givenJobs.get? result.job.id = none)
    (he : r.exec (.jobCompleted result) = .ok r') : r' = r := by
  rcases Generator.jobCompleted_unknown hget with hp | ⟨err, hc⟩
  · simp only [exec, hp, error_bind] at he
    cases he
  · simp only [exec, hc, ok_bind] at he
    cases he
    rfl

/-- The rule for runs whose results agree with a family `P` of outcomes: every settled outcome stays
in the family and may take the place of the old one. -/
theorem explained {P : Outcomes F → Prop} {ok : GeneratorRun F → Call F → Prop}
    (hr : (machine problem sub).Reachable ok r) (outs : Outcomes F) (hP : P outs)
    (hsettle : ∀ (r : GeneratorRun F) outs result job, P outs →
      ExplainedBy problem sub outs r → ok r (.jobCompleted result) →
      r.generator.givenJobs.get? result.job.id = some job →
      P (Generator.settle outs job result.outcome) ∧
        (job.type = .testJob → r.generator.Covers outs job.test result.outcome)) :
    ∃ outs, P outs ∧ ExplainedBy problem sub outs r := by
  refine hr.invariant (P := fun r => ∃ outs, P outs ∧ ExplainedBy problem sub outs r) ?_ ?_
  · rintro s ⟨id, g, hnew, rfl⟩
    obtain ⟨-, hproblem, htype, hfin, hgood⟩ := Generator.new_good hnew
    exact ⟨outs, hP, hproblem, htype, hgood outs, .inl ⟨rfl, hfin⟩⟩
  · rintro s call t ⟨outs, hP, hs⟩ hok hen he
    cases call with
    | nextJob id => exact ⟨outs, hP, hs.nextJob hen he⟩
    | jobCompleted result =>
      cases hget : s.generator.givenJobs.get? result.job.id with
      | none =>
        rw [exec_unknown hget he]
        exact ⟨outs, hP, hs⟩
      | some job =>
        obtain ⟨hP', hcovers⟩ := hsettle s outs result job hP hs hok hget
        exact ⟨_, hP', hs.of_completed hget (Generator.jobCompleted_settle hs.good hget hcovers) he⟩

/-- The rule for runs with any results: as long as a result is out, its outcome is `OK`, and any other
may take its place. -/
theorem explained_fresh {P : Outcomes F → Prop} {ok : GeneratorRun F → Call F → Prop}
    (hr : (machine problem sub).Reachable ok r) (outs : Outcomes F) (hP : P outs)
    (hok : ∀ t, (outs.test t).verdict = .OK)
    (hsettle : ∀ (r : GeneratorRun F) outs result job, P outs → ok r (.jobCompleted result) →
      r.generator.givenJobs.get? result.job.id = some job →
      P (Generator.settle outs job result.outcome)) :
    ∃ outs, P outs ∧ Generator.Fresh outs r.generator ∧ ExplainedBy problem sub outs r := by
  refine hr.invariant (P := fun r => ∃ outs, P outs ∧ Generator.Fresh outs r.generator ∧
    ExplainedBy problem sub outs r) ?_ ?_
  · rintro s ⟨id, g, hnew, rfl⟩
    obtain ⟨-, hproblem, htype, hfin, hgood⟩ := Generator.new_good hnew
    exact ⟨outs, hP, fun t ht => absurd (hok t) ht, hproblem, htype, hgood outs, .inl ⟨rfl, hfin⟩⟩
  · rintro s call t ⟨outs, hP, hfresh, hs⟩ hmay hen he
    cases call with
    | nextJob id =>
      refine ⟨outs, hP, ?_, hs.nextJob hen he⟩
      obtain ⟨job, g, hnext, hnone, hsome⟩ := Generator.nextJob_ok hs.good hen
      simp only [machine, exec, hnext, ok_bind] at he
      cases he
      cases job with
      | none => exact hfresh.notGiven (hnone rfl)
      | some job => exact hfresh.given (hsome job rfl)
    | jobCompleted result =>
      cases hget : s.generator.givenJobs.get? result.job.id with
      | none =>
        rw [exec_unknown hget he]
        exact ⟨outs, hP, hfresh, hs⟩
      | some job =>
        have hcall := Generator.jobCompleted_fresh hs.good hfresh hget
        refine ⟨_, hsettle s outs result job hP hmay hget, ?_, hs.of_completed hget hcall he⟩
        rcases hcall with ⟨c, hc, hgood⟩ | ⟨p, hp, -⟩
        · simp only [machine, exec, hc, ok_bind] at he
          cases he
          exact hfresh.completed hs.good hget hgood
        · simp only [machine, exec, hp, error_bind] at he
          cases he

/-- Whatever results arrive, some outcomes explain the run. -/
theorem explained_always (hr : (machine problem sub).Reachable Machine.always r) :
    ∃ outs, Generator.Fresh outs r.generator ∧ ExplainedBy problem sub outs r := by
  obtain ⟨outs, -, hfresh, h⟩ := explained_fresh (P := fun _ => True) hr
    ⟨{ verdict := .CD }, fun _ => { verdict := .OK }⟩ trivial (fun _ => rfl)
    fun _ _ _ _ _ _ _ => trivial
  exact ⟨outs, hfresh, h⟩

/-! ## Concrete runs -/

/-- A result of job `id`. -/
def resultOf (id : JobID) (verdict : Verdict) (points : Option F) : InvokerJobResult F :=
  { job := { id := id, submitID := 0, type := .testJob }
    verdict := verdict
    points := points
    invokerStatus := { maxNewJobs := 0, activeJobIDs := [], epoch := 0, address := "" } }

def answer (id : JobID) (verdict : Verdict) (points : Option F) : Call F :=
  .jobCompleted (resultOf id verdict points)

/-- An ICPC problem with two tests. -/
def twoTests : Problem Int := { id := 1, problemType := .icpc, testGroups := [], testsNumber := 2 }

/-- A submission without results. -/
def newSubmission : Submission Int :=
  { id := 1, score := 0, verdict := .RU, testResults := [], compilationResult := none,
    groupResults := [] }

end GeneratorRun

end TestingSystem
