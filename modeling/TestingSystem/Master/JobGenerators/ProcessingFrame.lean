import TestingSystem.Master.JobGenerators.Generator

/-!
# What the processing of results leaves alone

`updateSubmissionResult` changes neither the state of a generator nor its next test, and in the IOI
generator it marks groups but stops none. These facts need no invariant.
-/

set_option autoImplicit false

namespace TestingSystem

namespace ICPCGenerator

variable {F : Type} {i j : ICPCGenerator F}

/-- Nothing that the giving of tests reads differs. -/
structure SameTests (i j : ICPCGenerator F) : Prop where
  problem : j.problem = i.problem
  state : j.state = i.state
  first : j.firstTestToGive = i.firstTestToGive

theorem SameTests.trans {k : ICPCGenerator F} (h : SameTests i j) (h' : SameTests j k) :
    SameTests i k :=
  ⟨h'.problem.trans h.problem, h'.state.trans h.state, h'.first.trans h.first⟩

theorem addTestResult_same {result : TestResult F} (h : i.addTestResult result = .ok j) :
    SameTests i j := by
  unfold addTestResult at h
  dsimp only at h
  split at h
  · cases h
    exact ⟨rfl, rfl, rfl⟩
  · split at h
    · cases h
      exact ⟨rfl, rfl, rfl⟩
    · cases h
      exact ⟨rfl, rfl, rfl⟩
  · split at h
    · cases h
    · cases h
      exact ⟨rfl, rfl, rfl⟩

theorem updateLoop_same {turns : Nat} {updated updated' tested : Bool}
    (h : updateLoop turns i updated = .ok (j, updated', tested)) : SameTests i j := by
  induction turns generalizing i updated with
  | zero =>
    cases h
    exact ⟨rfl, rfl, rfl⟩
  | succ turns ih =>
    unfold updateLoop at h
    split at h
    · cases h
      exact ⟨rfl, rfl, rfl⟩
    · obtain ⟨i', hadd, h⟩ := bind_eq_ok.1 h
      exact (addTestResult_same hadd).trans (ih h)

theorem updateSubmissionResult_same [One F] {c : Completed (ICPCGenerator F) F}
    (h : i.updateSubmissionResult = .ok c) : SameTests i c.generator := by
  unfold updateSubmissionResult at h
  obtain ⟨⟨i', updated, tested⟩, hloop, h⟩ := bind_eq_ok.1 h
  have hsame := updateLoop_same hloop
  cases tested with
  | false =>
    cases h
    exact hsame
  | true =>
    cases h
    refine hsame.trans ?_
    dsimp only
    split
    · exact ⟨rfl, rfl, rfl⟩
    · exact ⟨rfl, rfl, rfl⟩

end ICPCGenerator

namespace IOIGenerator

variable {F : Type} {i j : IOIGenerator F}

/-- Nothing that the giving of tests reads differs: the marks are not read there. -/
structure SameTests (i j : IOIGenerator F) : Prop where
  problem : j.problem = i.problem
  state : j.state = i.state
  first : j.firstNotGivenTest = i.firstNotGivenTest
  names : j.groupNameOfTest = i.groupNameOfTest
  stops : ∀ name, stopFlag.of j.groupNameToInternalInfo name =
    stopFlag.of i.groupNameToInternalInfo name

theorem SameTests.trans {k : IOIGenerator F} (h : SameTests i j) (h' : SameTests j k) :
    SameTests i k :=
  ⟨h'.problem.trans h.problem, h'.state.trans h.state, h'.first.trans h.first,
    h'.names.trans h.names, fun name => (h'.stops name).trans (h.stops name)⟩

/-! ### Marking does not stop -/

variable {infos infos' : GoMap String InternalGroupInfo}

theorem raiseGroup_stops {name : String} (h : markFlag.raiseGroup infos name = .ok infos')
    (n : String) : stopFlag.of infos' n = stopFlag.of infos n := by
  obtain ⟨info, hinfo, h⟩ := bind_eq_ok.1 h
  obtain ⟨infos₁, hraise, hsets⟩ := markFlag.raiseGroup_eq (deref_ok hinfo)
  have hraised : markFlag.raiseGroup infos name = .ok infos' := by
    rw [GroupFlag.raiseGroup, hinfo]
    exact h
  rw [hraise] at hraised
  exact Except.ok.inj hraised ▸ hsets.stop_of n

theorem raiseIfRequired_stops {name : String} {names : List String}
    (h : markFlag.raiseIfRequired name names infos = .ok infos') (n : String) :
    stopFlag.of infos' n = stopFlag.of infos n := by
  induction names generalizing infos with
  | nil =>
    cases h
    rfl
  | cons head names ih =>
    obtain ⟨info, -, h⟩ := bind_eq_ok.1 h
    split at h
    · obtain ⟨infos₁, hraise, h⟩ := bind_eq_ok.1 h
      exact (ih h).trans (raiseGroup_stops hraise n)
    · exact ih h

theorem spread_stops {groups : List (TestGroup F)} (h : markFlag.spread groups infos = .ok infos')
    (n : String) : stopFlag.of infos' n = stopFlag.of infos n := by
  induction groups generalizing infos with
  | nil =>
    cases h
    rfl
  | cons group groups ih =>
    obtain ⟨infos₁, hraise, h⟩ := bind_eq_ok.1 h
    exact (ih h).trans (raiseIfRequired_stops hraise n)

theorem raiseFlag_same {name : String} (h : i.raiseFlag markFlag name = .ok j) : SameTests i j := by
  obtain ⟨infos₁, hraise, h⟩ := bind_eq_ok.1 h
  obtain ⟨infos₂, hspread, h⟩ := bind_eq_ok.1 h
  cases h
  exact ⟨rfl, rfl, rfl, rfl, fun n => (spread_stops hspread n).trans (raiseGroup_stops hraise n)⟩

theorem addTestResult_same {name : String} {group : TestGroup F} {marked : Bool}
    {result : TestResult F} (h : i.addTestResult name group marked result = .ok j) :
    SameTests i j := by
  unfold addTestResult at h
  split at h
  · cases h
    exact ⟨rfl, rfl, rfl, rfl, fun _ => rfl⟩
  · obtain ⟨prevents, -, h⟩ := bind_eq_ok.1 h
    split at h
    · have hraised := raiseFlag_same h
      exact ⟨hraised.problem, hraised.state, hraised.first, hraised.names, hraised.stops⟩
    · cases h
      exact ⟨rfl, rfl, rfl, rfl, fun _ => rfl⟩

variable [Add F] [Min F] [Zero F]

theorem completeGroupIfLast_same {group : TestGroup F} (h : i.completeGroupIfLast group = .ok j) :
    SameTests i j := by
  unfold completeGroupIfLast at h
  split at h
  · unfold completeGroupTesting at h
    split at h
    · cases h
    · obtain ⟨results, -, h⟩ := bind_eq_ok.1 h
      obtain ⟨score, -, h⟩ := bind_eq_ok.1 h
      cases h
      exact ⟨rfl, rfl, rfl, rfl, fun _ => rfl⟩
  · cases h
    exact ⟨rfl, rfl, rfl, rfl, fun _ => rfl⟩

theorem updateLoop_same {turns : Nat} {updated updated' : Bool}
    (h : updateLoop turns i updated = .ok (j, updated')) : SameTests i j := by
  induction turns generalizing i updated with
  | zero =>
    cases h
    exact ⟨rfl, rfl, rfl, rfl, fun _ => rfl⟩
  | succ turns ih =>
    unfold updateLoop at h
    obtain ⟨entry, -, h⟩ := bind_eq_ok.1 h
    split at h
    · cases h
      exact ⟨rfl, rfl, rfl, rfl, fun _ => rfl⟩
    obtain ⟨info, -, h⟩ := bind_eq_ok.1 h
    split at h
    · cases h
      exact ⟨rfl, rfl, rfl, rfl, fun _ => rfl⟩
    obtain ⟨group, -, h⟩ := bind_eq_ok.1 h
    obtain ⟨i₁, hadd, h⟩ := bind_eq_ok.1 h
    obtain ⟨i₂, hcomplete, h⟩ := bind_eq_ok.1 h
    have hnext : SameTests i₂ { i₂ with firstNotCompletedTest := i₂.firstNotCompletedTest + 1 } :=
      ⟨rfl, rfl, rfl, rfl, fun _ => rfl⟩
    exact (addTestResult_same hadd).trans
      ((completeGroupIfLast_same hcomplete).trans (hnext.trans (ih h)))

omit [Min F] [Zero F] in
theorem setFinalScoreAndVerdict_same (h : i.setFinalScoreAndVerdict = .ok j) : SameTests i j := by
  unfold setFinalScoreAndVerdict at h
  split at h
  · cases h
  split at h
  · cases h
  split at h
  · cases h
  split at h
  · cases h
  dsimp only at h
  split at h
  · cases h
    exact ⟨rfl, rfl, rfl, rfl, fun _ => rfl⟩
  split at h
  · cases h
    exact ⟨rfl, rfl, rfl, rfl, fun _ => rfl⟩
  split at h
  · cases h
  · cases h
    exact ⟨rfl, rfl, rfl, rfl, fun _ => rfl⟩

theorem updateSubmissionResult_same {c : Completed (IOIGenerator F) F}
    (h : i.updateSubmissionResult = .ok c) : SameTests i c.generator := by
  unfold updateSubmissionResult at h
  obtain ⟨⟨i', updated⟩, hloop, h⟩ := bind_eq_ok.1 h
  have hsame := updateLoop_same hloop
  dsimp only at h
  split at h
  · obtain ⟨j, hfinal, h⟩ := bind_eq_ok.1 h
    split at h
    · cases h
    · cases h
      exact hsame.trans (setFinalScoreAndVerdict_same hfinal)
  · cases h
    exact hsame

end IOIGenerator

end TestingSystem
