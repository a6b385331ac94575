import TestingSystem.Master.Queue.Queue

/-!
# The verdict of a tested submission

Neither generator returns a submission with the verdict `RU` of a running one, whatever results it got.
-/

set_option autoImplicit false

namespace TestingSystem

variable {F : Type}

namespace IOIGenerator

theorem hasVerdict_ne_running (results : List (TestResult F)) (state : Verdict × Bool × Bool)
    (h : state.2.2 = true → state.1 ≠ .RU) :
    (results.foldl finalVerdictStep state).2.2 = true →
      (results.foldl finalVerdictStep state).1 ≠ .RU := by
  induction results generalizing state with
  | nil => exact h
  | cons result results ih =>
    apply ih
    obtain ⟨verdict, hasSkipped, hasVerdict⟩ := state
    unfold finalVerdictStep
    cases result.verdict with
    | OK | SK => exact h
    | PT | WA | WR | RT | ML | TL | WL | SE | CE | CD | CF | RU => simp
    | other text => simp

variable [Add F]

theorem setFinalScoreAndVerdict_ne_running {i i' : IOIGenerator F}
    (h : i.setFinalScoreAndVerdict = .ok i') : i'.submission.verdict ≠ .RU := by
  unfold setFinalScoreAndVerdict at h
  iterate 4
    split at h
    · cases h
  dsimp only at h
  split at h
  · next hverdict =>
    cases h
    exact hverdict
  · split at h
    · next hhas =>
      cases h
      apply hasVerdict_ne_running _ _ _ hhas
      intro hfalse
      cases hfalse
    · split at h
      · cases h
      · cases h
        simp

theorem updateSubmissionResult_ne_running [Min F] [Zero F] {i : IOIGenerator F}
    {c : Completed (IOIGenerator F) F} (h : i.updateSubmissionResult = .ok c) {s : Submission F}
    (hs : c.submission = .ok (some s)) : s.verdict ≠ .RU := by
  unfold updateSubmissionResult at h
  obtain ⟨⟨i', updated⟩, -, h⟩ := bind_eq_ok.1 h
  dsimp only at h
  split at h
  · obtain ⟨i'', hfinal, h⟩ := bind_eq_ok.1 h
    split at h
    · cases h
    · cases h
      cases hs
      exact setFinalScoreAndVerdict_ne_running hfinal
  · cases h
    cases hs

theorem jobCompleted_ne_running [Min F] [Zero F] {i : IOIGenerator F} {result : InvokerJobResult F}
    {c : Completed (IOIGenerator F) F} (h : i.jobCompleted result = .ok c) {s : Submission F}
    (hs : c.submission = .ok (some s)) : s.verdict ≠ .RU := by
  unfold jobCompleted at h
  split at h
  · cases h
    cases hs
  · dsimp only at h
    split at h
    · obtain ⟨i', -, h⟩ := bind_eq_ok.1 h
      exact updateSubmissionResult_ne_running h hs
    · obtain ⟨i', -, h⟩ := bind_eq_ok.1 h
      exact updateSubmissionResult_ne_running h hs
    · cases h
      cases hs

end IOIGenerator

namespace ICPCGenerator

variable [One F]

theorem updateSubmissionResult_ne_running {i : ICPCGenerator F} {c : Completed (ICPCGenerator F) F}
    (h : i.updateSubmissionResult = .ok c) {s : Submission F} (hs : c.submission = .ok (some s)) :
    s.verdict ≠ .RU := by
  unfold updateSubmissionResult at h
  obtain ⟨⟨i', updated, tested⟩, -, h⟩ := bind_eq_ok.1 h
  dsimp only at h
  split at h
  · cases h
    cases hs
  · cases h
    cases hs
    split
    · simp
    · assumption

theorem jobCompleted_ne_running [Zero F] {i : ICPCGenerator F} {result : InvokerJobResult F}
    {c : Completed (ICPCGenerator F) F} (h : i.jobCompleted result = .ok c) {s : Submission F}
    (hs : c.submission = .ok (some s)) : s.verdict ≠ .RU := by
  unfold jobCompleted at h
  split at h
  · cases h
  · dsimp only at h
    split at h
    · obtain ⟨i', -, h⟩ := bind_eq_ok.1 h
      exact updateSubmissionResult_ne_running h hs
    · obtain ⟨i', -, h⟩ := bind_eq_ok.1 h
      exact updateSubmissionResult_ne_running h hs
    · cases h

end ICPCGenerator

variable [Add F] [Min F] [Zero F] [One F]

theorem Generator.jobCompleted_ne_running {g : Generator F} {result : InvokerJobResult F}
    {c : Completed (Generator F) F} (h : g.jobCompleted result = .ok c) {s : Submission F}
    (hs : c.submission = .ok (some s)) : s.verdict ≠ .RU := by
  cases g with
  | icpc i =>
    obtain ⟨c', hc', h⟩ := bind_eq_ok.1 h
    cases h
    exact ICPCGenerator.jobCompleted_ne_running hc' hs
  | ioi i =>
    obtain ⟨c', hc', h⟩ := bind_eq_ok.1 h
    cases h
    exact IOIGenerator.jobCompleted_ne_running hc' hs

theorem Queue.completeJob_ne_running {q q' : Queue F} {generator : GeneratorID}
    {result : InvokerJobResult F} {epoch : Epoch} {s : Submission F}
    (h : q.completeJob generator result epoch = .ok (q', .ok (some s))) : s.verdict ≠ .RU := by
  unfold completeJob at h
  obtain ⟨g, -, h⟩ := bind_eq_ok.1 h
  obtain ⟨c, hc, h⟩ := bind_eq_ok.1 h
  obtain ⟨status, -, h⟩ := bind_eq_ok.1 h
  have hsubmission := congrArg Prod.snd (Except.ok.inj h)
  exact Generator.jobCompleted_ne_running hc hsubmission

/-- Testing ends with a verdict. -/
theorem Queue.jobCompleted_ne_running {q q' : Queue F} {result : InvokerJobResult F} {epoch : Epoch}
    {s : Submission F} (h : q.jobCompleted result epoch = .ok (q', .ok (some s))) :
    s.verdict ≠ .RU := by
  unfold jobCompleted at h
  dsimp only at h
  split at h
  · split at h
    · split at h
      · cases h
      · cases congrArg Prod.snd (Except.ok.inj h)
    · split at h
      · cases h
      · cases congrArg Prod.snd (Except.ok.inj h)
  · exact Queue.completeJob_ne_running h

end TestingSystem
