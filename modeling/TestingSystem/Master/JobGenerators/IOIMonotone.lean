import TestingSystem.Master.JobGenerators.IOIGrade
import Mathlib.Algebra.Order.Monoid.Unbundled.Basic
import Mathlib.Algebra.Order.Ring.Int
import Mathlib.Data.List.Forall2

/-!
# Better results never lower an IOI grade

Two runs on one problem are compared, where every test of the second does at least as well as in the
first. `returned_noWorse` shows that no group loses points, no passed group fails, the score does not
drop and an accepted submission stays accepted, in whatever orders the two runs take and complete
their jobs. Of the points it uses that they are ordered and that addition respects the order; addition
need not be associative.
-/

set_option autoImplicit false

namespace TestingSystem

section Folds

variable {α F : Type} [Preorder F] {R : α → α → Prop} {add : F → α → F}

/-- A fold is monotone in its list and its start when one step is. -/
theorem foldl_le_foldl (hadd : ∀ x y a b, x ≤ y → R a b → add x a ≤ add y b) {as bs : List α}
    (h : List.Forall₂ R as bs) {x y : F} (hxy : x ≤ y) : as.foldl add x ≤ bs.foldl add y := by
  induction h generalizing x y with
  | nil => exact hxy
  | cons hab _ ih =>
    apply ih
    exact hadd x y _ _ hxy hab

end Folds

namespace IOIGenerator

/-! ## Shown tests -/

section Tests

variable {F : Type} [LinearOrder F] [Zero F]

/-- The shown test `b` is no worse than the shown test `a`. -/
structure NoWorse (a b : TestGrade F) : Prop where
  ok : a.verdict = .OK → b.verdict = .OK
  skipped : b.verdict = .SK → a.verdict = .SK
  points : a.points.getD 0 ≤ b.points.getD 0
  nonneg : 0 ≤ b.points.getD 0

/-- The outcome `o'` of a test of the group is as good as the outcome `o`, with the points that are
filled in for either. -/
structure AsGood (group : TestGroup F) (t : Nat) (o o' : Verdict × Option F) : Prop where
  ok : (ownGrade group t o).verdict = .OK → (ownGrade group t o').verdict = .OK
  prevents : prevents group (ownGrade group t o').verdict = true →
    prevents group (ownGrade group t o).verdict = true
  points : (ownGrade group t o).points.getD 0 ≤ (ownGrade group t o').points.getD 0
  nonneg : 0 ≤ (ownGrade group t o').points.getD 0

variable {group : TestGroup F} {test test' : Nat → Verdict × Option F} {t : Nat} {ts : List Nat}
  {tests tests' : List (TestGrade F)}

omit [LinearOrder F] in
/-- A verdict `SK` is not made up. -/
theorem ownGrade_ne_skipped {o : Verdict × Option F} (h : o.1 ≠ .SK) :
    (ownGrade group t o).verdict ≠ .SK :=
  storedOutcome_ne group (by simp) h

omit [LinearOrder F] [Zero F] in
theorem prevents_of_ok : prevents group .OK = false := by
  unfold prevents
  cases group.scoringType with
  | complete => rfl
  | eachTest => rfl
  | min => rfl
  | other value => rfl

theorem AsGood.noWorse {o o' : Verdict × Option F} (h : AsGood group t o o') (hsk : o'.1 ≠ .SK) :
    NoWorse (ownGrade group t o) (ownGrade group t o') where
  ok := h.ok
  skipped hskipped := absurd hskipped (ownGrade_ne_skipped hsk)
  points := h.points
  nonneg := h.nonneg

theorem skipped_noWorse {b : TestGrade F} (hb : 0 ≤ b.points.getD 0) :
    NoWorse (skippedGrade t) b where
  ok := by
    intro hok
    cases hok
  skipped _ := rfl
  points := hb
  nonneg := hb

/-- Nothing is worse than a skipped test. -/
theorem skipped_noWorse_map : List.Forall₂ NoWorse (ts.map (skippedGrade (F := F)))
    (ts.map skippedGrade) := by
  induction ts with
  | nil => exact .nil
  | cons t ts ih => exact .cons (skipped_noWorse (le_refl 0)) ih

theorem skipped_noWorse_showTests (h : ∀ t ∈ ts, AsGood group t (test t) (test' t)) :
    List.Forall₂ NoWorse (ts.map skippedGrade) (showTests group test' ts) := by
  induction ts with
  | nil => exact .nil
  | cons t ts ih =>
    have hrest : ∀ t ∈ ts, AsGood group t (test t) (test' t) :=
      fun s hs => h s (List.mem_cons_of_mem t hs)
    apply List.Forall₂.cons (skipped_noWorse (h t List.mem_cons_self).nonneg)
    split
    · exact skipped_noWorse_map
    · exact ih hrest

/-- A test that stops the group in the better run stops it in the worse one too. -/
theorem showTests_noWorse (h : ∀ t ∈ ts, AsGood group t (test t) (test' t))
    (hsk : ∀ t ∈ ts, (test' t).1 ≠ .SK) :
    List.Forall₂ NoWorse (showTests group test ts) (showTests group test' ts) := by
  induction ts with
  | nil => exact .nil
  | cons t ts ih =>
    have hfirst := h t List.mem_cons_self
    have hrest : ∀ t ∈ ts, AsGood group t (test t) (test' t) :=
      fun s hs => h s (List.mem_cons_of_mem t hs)
    have hsk' : ∀ t ∈ ts, (test' t).1 ≠ .SK := fun s hs => hsk s (List.mem_cons_of_mem t hs)
    apply List.Forall₂.cons (hfirst.noWorse (hsk t List.mem_cons_self))
    by_cases hprev : prevents group (ownGrade group t (test t)).verdict = true
    · rw [if_pos hprev]
      split
      · exact skipped_noWorse_map
      · exact skipped_noWorse_showTests hrest
    · rw [if_neg hprev, if_neg (mt hfirst.prevents hprev)]
      exact ih hrest hsk'

/-- The tests of a group, blocked or not. -/
theorem blockTests_noWorse {blocked blocked' : Bool} (hblocked : blocked' = true → blocked = true)
    (h : ∀ t ∈ ts, AsGood group t (test t) (test' t)) (hsk : ∀ t ∈ ts, (test' t).1 ≠ .SK) :
    List.Forall₂ NoWorse (if blocked then ts.map skippedGrade else showTests group test ts)
      (if blocked' then ts.map skippedGrade else showTests group test' ts) := by
  cases blocked' with
  | true =>
    rw [hblocked rfl]
    exact skipped_noWorse_map
  | false =>
    cases blocked with
    | true => exact skipped_noWorse_showTests h
    | false => exact showTests_noWorse h hsk

theorem passed_of_noWorse (h : List.Forall₂ NoWorse tests tests')
    (hpassed : (tests.all fun t => decide (t.verdict = .OK)) = true) :
    (tests'.all fun t => decide (t.verdict = .OK)) = true := by
  induction h with
  | nil => rfl
  | cons hab _ ih =>
    rw [List.all_cons, Bool.and_eq_true, decide_eq_true_iff] at hpassed ⊢
    exact ⟨hab.ok hpassed.1, ih hpassed.2⟩

theorem skipped_of_noWorse (h : List.Forall₂ NoWorse tests tests')
    (hskipped : (tests'.any fun t => decide (t.verdict = .SK)) = true) :
    (tests.any fun t => decide (t.verdict = .SK)) = true := by
  induction h with
  | nil => exact hskipped
  | cons hab _ ih =>
    rw [List.any_cons, Bool.or_eq_true, decide_eq_true_iff] at hskipped ⊢
    exact hskipped.imp hab.skipped ih

theorem le_minPoints (h : List.Forall₂ NoWorse tests tests') {x : F} (hx : 0 ≤ x) :
    0 ≤ tests'.foldl (fun least t => min least (t.points.getD 0)) x := by
  induction h generalizing x with
  | nil => exact hx
  | cons hab _ ih =>
    apply ih
    exact le_min hx hab.nonneg

end Tests

/-! ## Groups -/

section Groups

variable {F : Type} [LinearOrder F] [Add F] [Zero F] [AddLeftMono F] [AddRightMono F]
  {group : TestGroup F} {test test' : Nat → Verdict × Option F} {tests tests' : List (TestGrade F)}

/-- The points of a group, for each scoring type. -/
theorem referencePoints_le (hscore : 0 ≤ group.groupScore.getD 0)
    (h : List.Forall₂ NoWorse tests tests') :
    referencePoints group tests ≤ referencePoints group tests' := by
  unfold referencePoints
  cases group.scoringType with
  | complete =>
    dsimp only
    by_cases hpassed : (tests.all fun t => decide (t.verdict = .OK)) = true
    · rw [if_pos hpassed, if_pos (passed_of_noWorse h hpassed)]
    · rw [if_neg hpassed]
      split
      · exact hscore
      · exact le_refl 0
  | eachTest =>
    refine foldl_le_foldl ?_ h (le_refl 0)
    intro x y a b hxy hab
    exact add_le_add hxy hab.points
  | min =>
    dsimp only
    by_cases hskipped : (tests.any fun t => decide (t.verdict = .SK)) = true
    · rw [if_pos hskipped]
      split
      · exact le_refl 0
      · exact le_minPoints h hscore
    · rw [if_neg hskipped, if_neg (mt (skipped_of_noWorse h) hskipped)]
      refine foldl_le_foldl ?_ h (le_refl _)
      intro x y a b hxy hab
      exact min_le_min hxy hab.points
  | other value => exact le_refl 0

/-- The group does not lose points, and stays passed. -/
structure GroupNoWorse (a b : GroupResult F) : Prop where
  groupName : a.groupName = b.groupName
  points : a.points ≤ b.points
  passed : a.passed = true → b.passed = true

/-- Every test is as good in `test'` as in `test`, and no group takes points away. -/
structure Improves (groups : List (TestGroup F)) (test test' : Nat → Verdict × Option F) : Prop where
  groupScore : ∀ group ∈ groups, 0 ≤ group.groupScore.getD 0
  tests : ∀ group ∈ groups, ∀ t, group.Has t → AsGood group t (test t) (test' t)

omit [LinearOrder F] [Add F] [Zero F] [AddLeftMono F] [AddRightMono F] in
theorem has_of_mem_testNumbers {t : Nat} (h : t ∈ testNumbers group) : group.Has t := by
  have ht := List.mem_range'_1.1 h
  exact ⟨ht.1, by omega⟩

/-- The groups one after another: what has failed in the better run has failed in the worse one. -/
theorem referenceGroups_noWorse {compiled compiled' : Bool}
    (hcompiled : compiled = true → compiled' = true) {groups : List (TestGroup F)}
    (h : Improves groups test test')
    (hsk : ∀ group ∈ groups, ∀ t, group.Has t → (test' t).1 ≠ .SK) {failed failed' : List String}
    (hfailed : failed' ⊆ failed) :
    List.Forall₂ NoWorse (referenceGroups compiled test groups failed).1
        (referenceGroups compiled' test' groups failed').1 ∧
      List.Forall₂ GroupNoWorse (referenceGroups compiled test groups failed).2
        (referenceGroups compiled' test' groups failed').2 := by
  induction groups generalizing failed failed' with
  | nil => exact ⟨.nil, .nil⟩
  | cons group groups ih =>
    have hgroups : Improves groups test test' := by
      refine ⟨?_, ?_⟩
      · intro g hg
        exact h.groupScore g (List.mem_cons_of_mem group hg)
      · intro g hg
        exact h.tests g (List.mem_cons_of_mem group hg)
    have hskGroups : ∀ group ∈ groups, ∀ t, group.Has t → (test' t).1 ≠ .SK :=
      fun g hg => hsk g (List.mem_cons_of_mem group hg)
    rw [referenceGroups, referenceGroups]
    generalize hb : (!compiled || group.requiredGroupNames.any fun name => decide (name ∈ failed)) =
      blocked
    generalize hb' :
      (!compiled' || group.requiredGroupNames.any fun name => decide (name ∈ failed')) = blocked'
    have hblocked : blocked' = true → blocked = true := by
      rw [← hb, ← hb', Bool.or_eq_true, Bool.or_eq_true]
      rintro (hnot | hany)
      · left
        cases compiled with
        | false => rfl
        | true =>
          rw [hcompiled rfl] at hnot
          exact hnot
      · right
        obtain ⟨name, hname, hmem⟩ := List.any_eq_true.1 hany
        apply List.any_eq_true.2
        exact ⟨name, hname, decide_eq_true (hfailed (of_decide_eq_true hmem))⟩
    have htests := blockTests_noWorse hblocked
      (fun t ht => h.tests group List.mem_cons_self t (has_of_mem_testNumbers ht))
      (fun t ht => hsk group List.mem_cons_self t (has_of_mem_testNumbers ht))
    dsimp only
    generalize (if blocked then (testNumbers group).map skippedGrade
      else showTests group test (testNumbers group)) = tests at htests ⊢
    generalize (if blocked' then (testNumbers group).map skippedGrade
      else showTests group test' (testNumbers group)) = tests' at htests ⊢
    have hpassed := passed_of_noWorse htests
    have hnext : (if (blocked' || !tests'.all fun t => decide (t.verdict = .OK)) = true
        then group.name :: failed' else failed') ⊆
        (if (blocked || !tests.all fun t => decide (t.verdict = .OK)) = true
          then group.name :: failed else failed) := by
      split
      · next hfail =>
        have hfail' : (blocked || !tests.all fun t => decide (t.verdict = .OK)) = true := by
          rw [Bool.or_eq_true, Bool.not_eq_true'] at hfail ⊢
          rcases hfail with hblock | hnot
          · exact .inl (hblocked hblock)
          · right
            rw [Bool.eq_false_iff] at hnot ⊢
            exact mt hpassed hnot
        rw [if_pos hfail']
        exact List.cons_subset_cons _ hfailed
      · split
        · exact fun name hname => List.mem_cons_of_mem _ (hfailed hname)
        · exact hfailed
    obtain ⟨hrest, hresults⟩ := ih hgroups hskGroups hnext
    refine ⟨List.rel_append htests hrest, .cons ?_ hresults⟩
    exact ⟨rfl, referencePoints_le (h.groupScore group List.mem_cons_self) htests, hpassed⟩

/-! ## The verdict -/

variable {problem : Problem F} {compile compile' : Verdict}

omit [LinearOrder F] [Add F] [AddLeftMono F] [AddRightMono F] in
/-- Without a failure no test of a group is skipped. -/
theorem showTests_ok {ts : List Nat} (hsk : ∀ t ∈ ts, (test t).1 ≠ .SK)
    (h : ∀ t ∈ showTests group test ts, t.verdict = .OK ∨ t.verdict = .SK) :
    ∀ t ∈ showTests group test ts, t.verdict = .OK := by
  induction ts with
  | nil => exact fun t ht => absurd ht List.not_mem_nil
  | cons t ts ih =>
    rw [showTests] at h ⊢
    have hown : (ownGrade group t (test t)).verdict = .OK := by
      rcases h _ List.mem_cons_self with hok | hskipped
      · exact hok
      · exact absurd hskipped (ownGrade_ne_skipped (hsk t List.mem_cons_self))
    rw [hown, prevents_of_ok, if_neg Bool.false_ne_true] at h ⊢
    intro s hs
    rcases List.mem_cons.1 hs with rfl | hs
    · exact hown
    · apply ih (fun t ht => hsk t (List.mem_cons_of_mem _ ht)) _ s hs
      exact fun t ht => h t (List.mem_cons_of_mem _ ht)

omit [AddLeftMono F] [AddRightMono F] in
/-- When no test of any group fails, no group is blocked, so that every test is `OK`. -/
theorem referenceGroups_ok {groups : List (TestGroup F)}
    (hsk : ∀ group ∈ groups, ∀ t, group.Has t → (test t).1 ≠ .SK)
    (h : ∀ t ∈ (referenceGroups true test groups []).1, t.verdict = .OK ∨ t.verdict = .SK) :
    ∀ t ∈ (referenceGroups true test groups []).1, t.verdict = .OK := by
  induction groups with
  | nil => exact fun t ht => absurd ht List.not_mem_nil
  | cons group groups ih =>
    have hfree : (!true || group.requiredGroupNames.any fun name => decide (name ∈ ([] : List String)))
        = false := by simp
    rw [referenceGroups] at h ⊢
    simp only [hfree, Bool.false_or, if_false, Bool.false_eq_true] at h ⊢
    have hshown := showTests_ok
      (fun t ht => hsk group List.mem_cons_self t (has_of_mem_testNumbers ht))
      (fun t ht => h t (List.mem_append_left _ ht))
    have hpassed : ((showTests group test (testNumbers group)).all
        fun t => decide (t.verdict = .OK)) = true := by
      apply List.all_eq_true.2
      exact fun t ht => decide_eq_true (hshown t ht)
    simp only [hpassed, Bool.not_true, if_false, Bool.false_eq_true] at h ⊢
    intro t ht
    rcases List.mem_append.1 ht with hmem | hmem
    · exact hshown t hmem
    · apply ih (fun g hg => hsk g (List.mem_cons_of_mem group hg)) _ t hmem
      exact fun t ht => h t (List.mem_append_right _ ht)

omit [LinearOrder F] [Add F] [Zero F] [AddLeftMono F] [AddRightMono F] in
theorem referenceVerdict_ok : referenceVerdict compile tests = .OK ↔
    compile = .CD ∧ ∀ t ∈ tests, t.verdict = .OK ∨ t.verdict = .SK := by
  unfold referenceVerdict
  cases compile with
  | CD =>
    dsimp only
    cases hlast : (tests.filter fun t => decide (t.verdict ≠ .OK ∧ t.verdict ≠ .SK)).getLast? with
    | none =>
      have hnone := List.getLast?_eq_none_iff.1 hlast
      refine iff_of_true rfl ⟨rfl, ?_⟩
      intro t ht
      have hkeep := List.filter_eq_nil_iff.1 hnone t ht
      rw [decide_eq_true_iff, not_and_or, not_not, not_not] at hkeep
      exact hkeep
    | some t =>
      have hmem := List.mem_filter.1 (List.mem_of_getLast? hlast)
      have hfailed := of_decide_eq_true hmem.2
      refine iff_of_false ?_ ?_
      · dsimp only
        split <;> simp
      · rintro ⟨-, hall⟩
        exact (hall t hmem.1).elim hfailed.1 hfailed.2
  | OK | PT | WA | WR | RT | ML | TL | WL | SE | CE | CF | SK | RU | other text => simp

/-- The grade `b` is no worse than the grade `a`. -/
structure GradeNoWorse (a b : Grade F) : Prop where
  verdict : a.verdict = .OK → b.verdict = .OK
  score : a.score ≤ b.score
  groups : List.Forall₂ GroupNoWorse a.groups b.groups

/-- The reference is monotone. -/
theorem reference_noWorse (hcompile : compile = .CD → compile' = .CD)
    (h : Improves problem.testGroups test test')
    (hsk : ∀ group ∈ problem.testGroups, ∀ t, group.Has t → (test t).1 ≠ .SK)
    (hsk' : ∀ group ∈ problem.testGroups, ∀ t, group.Has t → (test' t).1 ≠ .SK) :
    GradeNoWorse (reference problem compile test) (reference problem compile' test') := by
  have hcompiled : decide (compile = .CD) = true → decide (compile' = .CD) = true := by
    rw [decide_eq_true_iff, decide_eq_true_iff]
    exact hcompile
  obtain ⟨htests, hgroups⟩ :=
    referenceGroups_noWorse hcompiled h hsk' (List.Subset.refl [])
  refine ⟨?_, ?_, hgroups⟩
  · intro hok
    obtain ⟨rfl, hall⟩ := referenceVerdict_ok.1 hok
    have hpassed := passed_of_noWorse htests
      (List.all_eq_true.2 fun t ht => decide_eq_true (referenceGroups_ok hsk hall t ht))
    apply referenceVerdict_ok.2
    refine ⟨hcompile rfl, ?_⟩
    intro t ht
    exact .inl (of_decide_eq_true (List.all_eq_true.1 hpassed t ht))
  · refine foldl_le_foldl ?_ hgroups (le_refl 0)
    intro x y a b hxy hab
    exact add_le_add hxy hab.points

end Groups

end IOIGenerator

/-! ## Two runs -/

namespace GeneratorRun

open IOIGenerator

section Runs

variable {F : Type} [LinearOrder F] [Add F] [Zero F] [One F] {problem : Problem F}
  {sub sub' : Submission F} {compile compile' : Verdict} {test test' : Nat → Verdict × Option F}
  {r r' : GeneratorRun F}

/-- A submission of an IOI problem is returned for an accepted problem only. -/
theorem accepted_of_returned (hioi : problem.problemType = .ioi)
    (hr : (machine problem sub).Reachable (Answers compile test) r) {s : Submission F}
    (hs : s ∈ r.returned) : Accepted problem := by
  obtain ⟨outs, -, h⟩ := explained_answers hr
  have hkind := h.type.trans hioi
  have hproblem := h.problem_eq
  have hgood := h.good
  rcases h.returned with ⟨hret, -⟩ | ⟨-, hfin⟩
  · rw [hret] at hs
    exact absurd hs List.not_mem_nil
  · cases hg : r.generator with
    | icpc i =>
      rw [hg] at hkind
      cases hkind
    | ioi i =>
      rw [hg] at hproblem hgood hfin
      have hproblem : i.problem = problem := hproblem
      rw [← hproblem]
      exact (IOIGenerator.Good.scored hgood hfin).1

omit [LinearOrder F] [Add F] [Zero F] [One F] in
/-- No test of a group is assigned the verdict of a skipped test. -/
theorem notSkipped_groups (haccepted : Accepted problem) (hsk : NotSkipped problem test) :
    ∀ group ∈ problem.testGroups, ∀ t, group.Has t → (test t).1 ≠ .SK := by
  intro group hg t ht
  have hbounds := haccepted.has_bounds hg ht
  exact hsk t hbounds.1 hbounds.2

/-- Nothing of a submission has been graded. -/
structure Ungraded (sub : Submission F) : Prop where
  testResults : sub.testResults = []
  groupResults : sub.groupResults = []
  score : sub.score = 0

variable [AddLeftMono F] [AddRightMono F]

/-- Two submissions of one problem are tested, the second one with results that are as good as those
of the first one, each in an order of its own: the second grade is no worse. -/
theorem returned_noWorse (hioi : problem.problemType = .ioi) (hsub : Ungraded sub)
    (hsub' : Ungraded sub') (hsk : NotSkipped problem test) (hsk' : NotSkipped problem test')
    (hcompile : compile = .CD → compile' = .CD) (h : Improves problem.testGroups test test')
    (hr : (machine problem sub).Reachable (Answers compile test) r)
    (hr' : (machine problem sub').Reachable (Answers compile' test') r') :
    ∀ s ∈ r.returned, ∀ s' ∈ r'.returned, GradeNoWorse (gradeOf s) (gradeOf s') := by
  intro s hs s' hs'
  have haccepted := accepted_of_returned hioi hr hs
  rw [grade_eq_reference hioi hsub.testResults hsub.groupResults hsub.score hsk hr hs,
    grade_eq_reference hioi hsub'.testResults hsub'.groupResults hsub'.score hsk' hr' hs']
  apply reference_noWorse hcompile h
  · exact notSkipped_groups haccepted hsk
  · exact notSkipped_groups haccepted hsk'

end Runs

/-- The second try passes test 2 as well. -/
theorem returned_noWorse_second_try :
    ∃ s s' : Submission Int, GradeNoWorse (gradeOf s) (gradeOf s') ∧
      s.score = 70 ∧ s'.score = 100 ∧ s'.verdict = .OK := by
  have hr := Machine.Reachable.of_runs (machine twoGroups newSubmission)
    (Answers .CD oneFailure)
    [.nextJob 1, answer 1 .CD none, .nextJob 2, .nextJob 3, .nextJob 4,
      answer 4 .OK none, answer 3 .WA none, answer 2 .OK none]
    (.of_init ⟨0, _, rfl, rfl⟩)
    ⟨trivial, rfl, _, rfl, fun job h => Option.some.inj h ▸ rfl, trivial, _, rfl,
      trivial, rfl, _, rfl, trivial, rfl, _, rfl, trivial, rfl, _, rfl,
      fun job h => Option.some.inj h ▸ ⟨rfl, rfl⟩, trivial, _, rfl,
      fun job h => Option.some.inj h ▸ ⟨rfl, rfl⟩, trivial, _, rfl,
      fun job h => Option.some.inj h ▸ ⟨rfl, rfl⟩, trivial, _, rfl, rfl⟩
  have hr' := Machine.Reachable.of_runs (machine twoGroups newSubmission)
    (Answers .CD fun _ => (.OK, none))
    [.nextJob 1, answer 1 .CD none, .nextJob 2, answer 2 .OK none, .nextJob 3,
      answer 3 .OK none, .nextJob 4, answer 4 .OK none]
    (.of_init ⟨0, _, rfl, rfl⟩)
    ⟨trivial, rfl, _, rfl, fun job h => Option.some.inj h ▸ rfl, trivial, _, rfl,
      trivial, rfl, _, rfl, fun job h => Option.some.inj h ▸ ⟨rfl, rfl⟩, trivial, _, rfl,
      trivial, rfl, _, rfl, fun job h => Option.some.inj h ▸ ⟨rfl, rfl⟩, trivial, _, rfl,
      trivial, rfl, _, rfl, fun job h => Option.some.inj h ▸ ⟨rfl, rfl⟩, trivial, _, rfl, rfl⟩
  have hsk : NotSkipped twoGroups oneFailure := by
    intro t _ _
    unfold oneFailure
    split <;> simp
  have himproves : Improves twoGroups.testGroups oneFailure fun _ => (.OK, none) := by
    have hok : ∀ group ∈ twoGroups.testGroups, ∀ t,
        (ownGrade group t (.OK, none)).verdict = .OK ∧
          0 ≤ (ownGrade group t (.OK, none)).points.getD 0 ∧
          (ownGrade group t (.WA, none)).points.getD 0 = 0 := by
      intro group hg t
      simp only [twoGroups, List.mem_cons, List.not_mem_nil, or_false] at hg
      rcases hg with rfl | rfl
      · exact ⟨rfl, (by decide : (0 : Int) ≤ 0), rfl⟩
      · exact ⟨rfl, (by decide : (0 : Int) ≤ 70), rfl⟩
    refine ⟨by decide, ?_⟩
    intro group hg t _
    obtain ⟨hverdict, hnonneg, hzero⟩ := hok group hg t
    refine ⟨fun _ => hverdict, ?_, ?_, hnonneg⟩
    · intro hprev
      rw [hverdict, prevents_of_ok] at hprev
      cases hprev
    · unfold oneFailure
      split
      · rw [hzero]
        exact hnonneg
      · exact le_refl _
  exact ⟨_, _, returned_noWorse rfl ⟨rfl, rfl, rfl⟩ ⟨rfl, rfl, rfl⟩ hsk (fun t _ _ => by simp)
    (fun h => h) himproves hr hr' _ List.mem_cons_self _ List.mem_cons_self, rfl, rfl, rfl⟩

end GeneratorRun

end TestingSystem
