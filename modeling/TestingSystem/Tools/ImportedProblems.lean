import TestingSystem.Master.JobGenerators.IOIAcceptance
import TestingSystem.Tools.PolygonImporter

/-!
# Imported problems that can be graded

`buildProblemModel` finds the first and the last test of every group and keeps the groups in the order of
the package. The generator wants them in the order of their tests, so a well-formed testset becomes a
problem that is accepted exactly if its groups are declared in that order (and none has the empty
name, which the importer takes for a missing group).
-/

set_option autoImplicit false

namespace TestingSystem

variable {F : Type}

/-! ## Testsets -/

namespace XTestset

/-- The test at the index `i` is of the group. -/
def InGroup (t : XTestset F) (name : String) (i : Nat) : Prop :=
  ∃ test, t.tests[i]? = some test ∧ test.group = name

/-- The tests of a group come before those of another one. -/
def Before (t : XTestset F) (a b : XGroup) : Prop :=
  ∀ i j, t.InGroup a.name i → t.InGroup b.name j → i < j

/-- A testset with groups that can be graded. -/
structure WellFormed (t : XTestset F) : Prop where
  nonempty : t.groups ≠ []
  names : t.groups.Pairwise fun a b => b.name ≠ a.name
  declared : ∀ test ∈ t.tests, ∃ group ∈ t.groups, group.name = test.group
  block_nonempty : ∀ group ∈ t.groups, ∃ i, t.InGroup group.name i
  contiguous : ∀ group ∈ t.groups, ∀ i j k, i ≤ j → j ≤ k →
    t.InGroup group.name i → t.InGroup group.name k → t.InGroup group.name j
  feedback : ∀ group ∈ t.groups, (feedbackType group.feedbackPolicy).isSome
  points : ∀ group ∈ t.groups, (scoringType group.pointsPolicy).isSome
  dependencies : ∀ group ∈ t.groups, ∀ name ∈ group.dependencies, ∃ required ∈ t.groups,
    required.name = name ∧ required.pointsPolicy = "complete-group" ∧ t.Before required group

/-- The groups are declared in the order of their tests. -/
def InOrder (t : XTestset F) : Prop := t.groups.Pairwise t.Before

end XTestset

namespace XTestset.WellFormed

variable {t : XTestset F}

/-- A required group that comes earlier in the package. -/
theorem required (h : t.WellFormed) (horder : t.InOrder) {before after : List XGroup} {group : XGroup}
    (heq : t.groups = before ++ group :: after) {name : String} (hname : name ∈ group.dependencies) :
    ∃ required ∈ before, required.name = name ∧ required.pointsPolicy = "complete-group" := by
  have hg : group ∈ t.groups := heq ▸ List.mem_append_right _ List.mem_cons_self
  obtain ⟨required, hr, hrname, hpolicy, hbefore⟩ := h.dependencies group hg name hname
  refine ⟨required, ?_, hrname, hpolicy⟩
  have hpair : (group :: after).Pairwise t.Before := by
    have horder' := horder
    rw [XTestset.InOrder, heq] at horder'
    exact (List.pairwise_append.1 horder').2.1
  have hnot : required ∉ group :: after := by
    intro hmem
    obtain ⟨i, hi⟩ := h.block_nonempty group hg
    obtain ⟨j, hj⟩ := h.block_nonempty required hr
    have hlt := hbefore j i hj hi
    rcases List.mem_cons.1 hmem with rfl | hafter
    · exact absurd (hbefore i i hi hi) (Nat.lt_irrefl i)
    · exact absurd ((List.pairwise_cons.1 hpair).1 required hafter i j hi hj) (Nat.lt_asymm hlt)
  rw [heq] at hr
  exact (List.mem_append.1 hr).resolve_right hnot

/-- A group has a test, so a group with the empty name makes the importer panic. -/
theorem named_iff (h : t.WellFormed) :
    (∀ test ∈ t.tests, test.group ≠ "") ↔ ∀ group ∈ t.groups, group.name ≠ "" := by
  constructor
  · intro hnames group hg hname
    obtain ⟨i, test, htest, hgroup⟩ := h.block_nonempty group hg
    exact hnames test (List.mem_of_getElem? htest) (hgroup.trans hname)
  · intro hnames test hmem hempty
    obtain ⟨group, hg, hname⟩ := h.declared test hmem
    exact hnames group hg (hname.trans hempty)

end XTestset.WellFormed

/-! ## The loop over the tests -/

section Tests

variable [Add F]

/-- A group after the loop over the tests. -/
def afterTests : List (XTest F) → Nat → TestGroup F → TestGroup F
  | [], _, group => group
  | test :: tests, id, group => afterTests tests (id + 1) (addTest id test group)

theorem addTests_eq {tests : List (XTest F)} (h : ∀ test ∈ tests, test.group ≠ "") (id : Nat)
    (groups : List (TestGroup F)) :
    addTests tests id groups = .ok (groups.map (afterTests tests id)) := by
  induction tests generalizing id groups with
  | nil => simp [addTests, afterTests]
  | cons test tests ih =>
    rw [addTests, if_neg (h test List.mem_cons_self), ih fun a ha => h a (List.mem_cons_of_mem _ ha),
      List.map_map]
    rfl

theorem named_of_addTests {tests : List (XTest F)} {id : Nat} {groups groups' : List (TestGroup F)}
    (h : addTests tests id groups = .ok groups') : ∀ test ∈ tests, test.group ≠ "" := by
  induction tests generalizing id groups with
  | nil => exact fun _ hmem => nomatch hmem
  | cons test tests ih =>
    rw [addTests] at h
    split at h
    · cases h
    · next hne => exact List.forall_mem_cons.2 ⟨hne, ih h⟩

/-- `group'` is `group` after the tests: its bounds are numbers of its tests, or the old ones. -/
structure Counted (tests : List (XTest F)) (id : Nat) (group group' : TestGroup F) : Prop where
  same : group' = { group with
    firstTest := group'.firstTest, lastTest := group'.lastTest, groupScore := group'.groupScore }
  score : group'.groupScore.isSome = group.groupScore.isSome
  le : group'.firstTest ≤ group.firstTest ∧ group.lastTest ≤ group'.lastTest
  covers : ∀ i test, tests[i]? = some test → test.group = group.name → group'.Has (id + i)
  first : group'.firstTest = group.firstTest ∨
    ∃ i test, tests[i]? = some test ∧ test.group = group.name ∧ group'.firstTest = id + i
  last : group'.lastTest = group.lastTest ∨
    ∃ i test, tests[i]? = some test ∧ test.group = group.name ∧ group'.lastTest = id + i

theorem afterTests_counted (tests : List (XTest F)) (id : Nat) (group : TestGroup F) :
    Counted tests id group (afterTests tests id group) := by
  induction tests generalizing id group with
  | nil => exact ⟨rfl, rfl, ⟨le_rfl, le_rfl⟩, nofun, .inl rfl, .inl rfl⟩
  | cons test tests ih =>
    have h := ih (id + 1) (addTest id test group)
    rw [afterTests]
    generalize afterTests tests (id + 1) (addTest id test group) = group' at h ⊢
    by_cases hname : group.name = test.group
    · rw [addTest, if_pos hname] at h
      have hfirst : group'.firstTest ≤ min group.firstTest id := h.le.1
      have hlast : max group.lastTest id ≤ group'.lastTest := h.le.2
      have hself : test.group = group.name := hname.symm
      refine ⟨h.same, ?_, by omega, ?_, ?_, ?_⟩
      · rw [h.score, Option.isSome_map]
      · rintro (_ | i) other hother hgroup
        · exact ⟨by omega, by omega⟩
        · have hhas := h.covers i other hother hgroup
          rwa [Nat.add_right_comm] at hhas
      · rcases h.first with heq | ⟨i, other, hother, hgroup, heq⟩
        · have hmin : group'.firstTest = min group.firstTest id := heq
          rcases Nat.le_total group.firstTest id with hle | hle
          · exact .inl (by omega)
          · exact .inr ⟨0, test, rfl, hself, by omega⟩
        · exact .inr ⟨i + 1, other, hother, hgroup, by omega⟩
      · rcases h.last with heq | ⟨i, other, hother, hgroup, heq⟩
        · have hmax : group'.lastTest = max group.lastTest id := heq
          rcases Nat.le_total id group.lastTest with hle | hle
          · exact .inl (by omega)
          · exact .inr ⟨0, test, rfl, hself, by omega⟩
        · exact .inr ⟨i + 1, other, hother, hgroup, by omega⟩
    · rw [addTest, if_neg hname] at h
      obtain ⟨hsame, hscore, hle, hcovers, hfirst, hlast⟩ := h
      refine ⟨hsame, hscore, hle, ?_, ?_, ?_⟩
      · rintro (_ | i) other hother hgroup
        · cases hother
          exact absurd hgroup.symm hname
        · have hhas := hcovers i other hother hgroup
          rwa [Nat.add_right_comm] at hhas
      · refine hfirst.imp_right fun ⟨i, other, hother, hgroup, heq⟩ => ?_
        exact ⟨i + 1, other, hother, hgroup, by omega⟩
      · refine hlast.imp_right fun ⟨i, other, hother, hgroup, heq⟩ => ?_
        exact ⟨i + 1, other, hother, hgroup, by omega⟩

end Tests

/-! ## The groups of the problem -/

/-- Only the scores change in the last loop. -/
theorem setTestScore_eq [Div F] [NatCast F] (group : TestGroup F) : setTestScore group = { group with
    testScore := (setTestScore group).testScore, groupScore := (setTestScore group).groupScore } := by
  unfold setTestScore
  split <;> rfl

section Import

variable [Zero F] [Add F] [Div F] [NatCast F]

/-- The group that is made from `group`. -/
def XTestset.imported (t : XTestset F) (group : XGroup) : TestGroup F :=
  setTestScore <| afterTests t.tests 1 <| newTestGroup t.tests.length group
    ((feedbackType group.feedbackPolicy).getD .none) ((scoringType group.pointsPolicy).getD (.other 0))

/-- The problem that is made from a testset with groups. -/
def XTestset.problem (t : XTestset F) : Problem F where
  id := 0
  problemType := .ioi
  testGroups := t.groups.map t.imported
  testsNumber := t.tests.length

variable {t : XTestset F} {group : XGroup}

theorem imported_counted (t : XTestset F) (group : XGroup) : ∃ counted : TestGroup F,
    Counted t.tests 1 (newTestGroup t.tests.length group
      ((feedbackType group.feedbackPolicy).getD .none)
      ((scoringType group.pointsPolicy).getD (.other 0))) counted ∧
    t.imported group = setTestScore counted := ⟨_, afterTests_counted .., rfl⟩

@[simp] theorem imported_name : (t.imported group).name = group.name := by
  obtain ⟨counted, h, heq⟩ := imported_counted t group
  rw [heq, setTestScore_eq, h.same]
  rfl

@[simp] theorem imported_requiredGroupNames :
    (t.imported group).requiredGroupNames = group.dependencies := by
  obtain ⟨counted, h, heq⟩ := imported_counted t group
  rw [heq, setTestScore_eq, h.same]
  rfl

@[simp] theorem imported_scoringType :
    (t.imported group).scoringType = (scoringType group.pointsPolicy).getD (.other 0) := by
  obtain ⟨counted, h, heq⟩ := imported_counted t group
  rw [heq, setTestScore_eq, h.same]
  rfl

theorem imported_scored (h : (scoringType group.pointsPolicy).isSome) : (t.imported group).Scored := by
  obtain ⟨counted, hcounted, heq⟩ := imported_counted t group
  obtain ⟨scoring, hscoring⟩ := Option.isSome_iff_exists.1 h
  have htype : counted.scoringType = scoring := by
    rw [hcounted.same, hscoring]
    rfl
  have hscore : counted.groupScore.isSome := hcounted.score
  have hknown : scoring = .complete ∨ scoring = .eachTest := by
    unfold TestingSystem.scoringType at hscoring
    split at hscoring <;> cases hscoring <;> simp
  rw [heq]
  unfold setTestScore TestGroup.Scored
  rcases hknown with rfl | rfl
  · simp [htype, hscore]
  · simp [htype, hscore]

namespace XTestset.WellFormed

/-- The bounds of a group are its first and its last test. -/
theorem imported_bounds (h : t.WellFormed) (hg : group ∈ t.groups) : ∃ a b,
    t.InGroup group.name a ∧ t.InGroup group.name b ∧ (t.imported group).firstTest = a + 1 ∧
      (t.imported group).lastTest = b + 1 ∧ ∀ i, t.InGroup group.name i → a ≤ i ∧ i ≤ b := by
  obtain ⟨counted, hcounted, heq⟩ := imported_counted t group
  have hfirst : (t.imported group).firstTest = counted.firstTest := by rw [heq, setTestScore_eq]
  have hlast : (t.imported group).lastTest = counted.lastTest := by rw [heq, setTestScore_eq]
  have hcovers : ∀ i, t.InGroup group.name i → counted.firstTest ≤ 1 + i ∧ 1 + i ≤ counted.lastTest :=
    fun i ⟨test, htest, hname⟩ => hcounted.covers i test htest hname
  obtain ⟨i, hi⟩ := h.block_nonempty group hg
  have ⟨test, htest, _⟩ := hi
  have hlength := (List.getElem?_eq_some_iff.1 htest).1
  have hbounds := hcovers i hi
  -- the group has a test, so its bounds are not the values that the loop starts with
  have hmin : ∃ a, t.InGroup group.name a ∧ counted.firstTest = a + 1 := by
    rcases hcounted.first with hold | ⟨a, test, htest, hname, ha⟩
    · have hold' : counted.firstTest = t.tests.length := hold
      exact ⟨i, hi, by omega⟩
    · exact ⟨a, ⟨test, htest, hname⟩, by omega⟩
  have hmax : ∃ b, t.InGroup group.name b ∧ counted.lastTest = b + 1 := by
    rcases hcounted.last with hold | ⟨b, test, htest, hname, hb⟩
    · have hold' : counted.lastTest = 0 := hold
      omega
    · exact ⟨b, ⟨test, htest, hname⟩, by omega⟩
  obtain ⟨a, ha, hfirst'⟩ := hmin
  obtain ⟨b, hb, hlast'⟩ := hmax
  refine ⟨a, b, ha, hb, hfirst.trans hfirst', hlast.trans hlast', fun j hj => ?_⟩
  have := hcovers j hj
  omega

theorem imported_has (h : t.WellFormed) (hg : group ∈ t.groups) (i : Nat) :
    (t.imported group).Has (i + 1) ↔ t.InGroup group.name i := by
  obtain ⟨a, b, ha, hb, hfirst, hlast, hbetween⟩ := h.imported_bounds hg
  unfold TestGroup.Has
  rw [hfirst, hlast]
  constructor
  · rintro ⟨hle, hle'⟩
    exact h.contiguous group hg a i b (by omega) (by omega) ha hb
  · intro hi
    have := hbetween i hi
    omega

theorem imported_range (h : t.WellFormed) (hg : group ∈ t.groups) :
    0 < (t.imported group).firstTest ∧ (t.imported group).firstTest ≤ (t.imported group).lastTest ∧
      (t.imported group).lastTest ≤ t.tests.length := by
  obtain ⟨a, b, ha, ⟨test, htest, -⟩, hfirst, hlast, hbetween⟩ := h.imported_bounds hg
  have hlength := (List.getElem?_eq_some_iff.1 htest).1
  have := hbetween a ha
  omega

/-- One group comes before another one if it ends before the other one starts. -/
theorem before_iff (h : t.WellFormed) {a b : XGroup} (ha : a ∈ t.groups) (hb : b ∈ t.groups) :
    t.Before a b ↔ (t.imported a).lastTest < (t.imported b).firstTest := by
  obtain ⟨_, last, -, hlastIn, -, hlast, hinA⟩ := h.imported_bounds ha
  obtain ⟨first, _, hfirstIn, -, hfirst, -, hinB⟩ := h.imported_bounds hb
  constructor
  · intro hbefore
    have := hbefore last first hlastIn hfirstIn
    omega
  · intro hlt i j hi hj
    have := hinA i hi
    have := hinB j hj
    omega

end XTestset.WellFormed

end Import

/-- Groups in order that have every test tile the tests. -/
theorem Tiled.of_pairwise {groups : List (TestGroup F)} {first last : Nat}
    (hpair : groups.Pairwise fun a b => a.lastTest < b.firstTest)
    (hbounds : ∀ group ∈ groups, first < group.firstTest ∧ group.firstTest ≤ group.lastTest ∧
      group.lastTest ≤ last)
    (hcover : ∀ test, first < test → test ≤ last → ∃ group ∈ groups, group.Has test)
    (hle : first ≤ last) : Tiled first groups last := by
  induction groups generalizing first with
  | nil =>
    by_contra hne
    obtain ⟨group, hmem, -⟩ := hcover last (Nat.lt_of_le_of_ne hle hne) le_rfl
    cases hmem
  | cons head groups ih =>
    obtain ⟨hhead, hpair⟩ := List.pairwise_cons.1 hpair
    obtain ⟨hpos, hrange, hlast⟩ := hbounds head List.mem_cons_self
    -- the test after `first` is in a group, and all groups but the first one start later
    have hfirst : head.firstTest = first + 1 := by
      obtain ⟨group, hmem, hhas⟩ := hcover (first + 1) (by omega) (by omega)
      have hstart := hhas.1
      rcases List.mem_cons.1 hmem with rfl | hmem
      · omega
      · have := hhead group hmem
        omega
    refine ⟨hfirst, hrange, ih hpair (fun group hmem => ?_) (fun test hgt hle => ?_) hlast⟩
    · obtain ⟨-, hrange', hlast'⟩ := hbounds group (List.mem_cons_of_mem _ hmem)
      exact ⟨hhead group hmem, hrange', hlast'⟩
    · obtain ⟨group, hmem, hhas⟩ := hcover test (by omega) hle
      rcases List.mem_cons.1 hmem with rfl | hmem
      · exact absurd hhas.2 (by omega)
      · exact ⟨group, hmem, hhas⟩

section Import

variable [Zero F] [Add F] [Div F] [NatCast F] {t : XTestset F}

theorem scoringType_complete_iff {policy : String} :
    scoringType policy = some .complete ↔ policy = "complete-group" := by
  unfold scoringType
  split <;> simp_all

namespace XTestset.WellFormed

theorem tiled (h : t.WellFormed) (horder : t.InOrder) :
    Tiled 0 (t.groups.map t.imported) t.tests.length := by
  refine Tiled.of_pairwise ?_ ?_ ?_ (Nat.zero_le _)
  · rw [List.pairwise_map]
    exact horder.imp_of_mem fun ha hb hbefore => (h.before_iff ha hb).1 hbefore
  · intro group hmem
    obtain ⟨xGroup, hg, rfl⟩ := List.mem_map.1 hmem
    exact h.imported_range hg
  · rintro (_ | i) hpos hle
    · exact absurd hpos (Nat.lt_irrefl 0)
    · have htest := List.getElem?_eq_getElem hle
      obtain ⟨xGroup, hg, hname⟩ := h.declared _ (List.getElem_mem hle)
      exact ⟨_, List.mem_map_of_mem hg, (h.imported_has hg i).2 ⟨_, htest, hname.symm⟩⟩

theorem accepted (h : t.WellFormed) (horder : t.InOrder) : Accepted t.problem := by
  refine ⟨rfl, ?_, h.tiled horder, ?_, ?_⟩
  · intro group hmem
    obtain ⟨xGroup, hg, rfl⟩ := List.mem_map.1 hmem
    exact imported_scored (h.points xGroup hg)
  · exact List.pairwise_map.2 (h.names.imp fun hne => by simpa using hne)
  · intro before group after heq name hname
    obtain ⟨before, rest, heq', rfl, hrest⟩ := List.map_eq_append_iff.1 heq
    obtain ⟨xGroup, after, rfl, rfl, -⟩ := List.map_eq_cons_iff.1 hrest
    rw [imported_requiredGroupNames] at hname
    obtain ⟨required, hr, hrname, hpolicy⟩ := h.required horder heq' hname
    refine ⟨_, List.mem_map_of_mem hr, imported_name.trans hrname, ?_⟩
    rw [imported_scoringType, scoringType_complete_iff.2 hpolicy]
    rfl

/-- A testset without empty group names becomes its problem. -/
theorem build_eq (h : t.WellFormed) {testsets : List (XTestset F)}
    (ht : chooseTestset testsets = some t) (hnames : ∀ test ∈ t.tests, test.group ≠ "") :
    buildProblemModel testsets = .ok t.problem := by
  have hgroups : t.groups.mapM (convertGroup t.tests.length) = .ok (t.groups.map fun group =>
      (newTestGroup t.tests.length group ((feedbackType group.feedbackPolicy).getD .none)
        ((scoringType group.pointsPolicy).getD (.other 0)) : TestGroup F)) := by
    refine mapM_eq_ok fun group hg => ?_
    obtain ⟨feedback, hfeedback⟩ := Option.isSome_iff_exists.1 (h.feedback group hg)
    obtain ⟨scoring, hscoring⟩ := Option.isSome_iff_exists.1 (h.points group hg)
    simp only [convertGroup, hfeedback, hscoring, Option.getD_some]
  have hne : ¬ t.groups.length = 0 := fun hlength => h.nonempty (List.length_eq_zero_iff.1 hlength)
  unfold buildProblemModel
  simp only [ht, if_neg hne, hgroups, ok_bind, addTests_eq hnames, List.map_map]
  rfl

/-- The problem that is built, if any. -/
theorem of_build (h : t.WellFormed) {testsets : List (XTestset F)} {problem : Problem F}
    (ht : chooseTestset testsets = some t) (hbuild : buildProblemModel testsets = .ok problem) :
    (∀ test ∈ t.tests, test.group ≠ "") ∧ problem = t.problem := by
  have hne : ¬ t.groups.length = 0 := fun hlength => h.nonempty (List.length_eq_zero_iff.1 hlength)
  have hbuild' := hbuild
  unfold buildProblemModel at hbuild'
  simp only [ht, if_neg hne] at hbuild'
  obtain ⟨groups, -, hbuild'⟩ := bind_eq_ok.1 hbuild'
  obtain ⟨groups', htests, -⟩ := bind_eq_ok.1 hbuild'
  have hnames := named_of_addTests htests
  exact ⟨hnames, Except.ok.inj (hbuild.symm.trans (h.build_eq ht hnames))⟩

end XTestset.WellFormed

/-- The problem of a well-formed testset is accepted exactly if its groups are declared in the order of
their tests and have names. -/
theorem imported_accepted_iff {testsets : List (XTestset F)} (ht : chooseTestset testsets = some t)
    (h : t.WellFormed) (id : GeneratorID) (sub : Submission F) :
    (∃ problem, buildProblemModel testsets = .ok problem ∧
        ∃ i, IOIGenerator.new id problem sub = .ok i) ↔
      t.InOrder ∧ ∀ group ∈ t.groups, group.name ≠ "" := by
  rw [← h.named_iff]
  constructor
  · rintro ⟨problem, hbuild, i, hi⟩
    obtain ⟨hnames, rfl⟩ := h.of_build ht hbuild
    refine ⟨?_, hnames⟩
    have htiled := (IOIGenerator.new_ok hi).1.tiled.pairwise
    exact (List.pairwise_map.1 htiled).imp_of_mem fun ha hb hlt => (h.before_iff ha hb).2 hlt
  · rintro ⟨horder, hnames⟩
    have haccepted := h.accepted horder
    refine ⟨t.problem, h.build_eq ht hnames, IOIGenerator.new_of_sorted haccepted ?_ id sub⟩
    refine IOIGenerator.isSortedByFirstTest_of_tiled haccepted.tiled fun group hg => ?_
    have hbounds := haccepted.tiled.bounds hg
    exact Nat.lt_of_le_of_lt (Nat.le_trans hbounds.2.1 hbounds.2.2) t.length_lt

end Import

/-- The group of the first test. -/
def samplesGroup : XGroup := ⟨"samples", "complete", "complete-group", []⟩

/-- The group of the second test. -/
def mainGroup : XGroup := ⟨"main", "points", "each-test", ["samples"]⟩

/-- Two tests, and the groups in some order. -/
def twoTests (groups : List XGroup) : XTestset Int where
  name := "tests"
  tests := [⟨"samples", 0⟩, ⟨"main", 100⟩]
  groups := groups
  length_lt := by decide

theorem twoTests_inGroup {groups : List XGroup} {name : String} {i : Nat} :
    (twoTests groups).InGroup name i ↔ i = 0 ∧ name = "samples" ∨ i = 1 ∧ name = "main" := by
  unfold XTestset.InGroup twoTests
  match i with
  | 0 => simp [eq_comm]
  | 1 => simp [eq_comm]
  | i + 2 => simp

theorem twoTests_wellFormed {groups : List XGroup}
    (h : groups = [samplesGroup, mainGroup] ∨ groups = [mainGroup, samplesGroup]) :
    (twoTests groups).WellFormed := by
  have hmem : ∀ group, group ∈ groups ↔ group = samplesGroup ∨ group = mainGroup := by
    rcases h with rfl | rfl <;> simp [or_comm]
  have hin : ∀ group ∈ groups, ∃ k, ∀ i, (twoTests groups).InGroup group.name i ↔ i = k := by
    intro group hg
    rcases (hmem group).1 hg with rfl | rfl
    · exact ⟨0, fun i => by simp [twoTests_inGroup, samplesGroup]⟩
    · exact ⟨1, fun i => by simp [twoTests_inGroup, mainGroup]⟩
  constructor
  · rcases h with rfl | rfl <;> exact List.cons_ne_nil _ _
  · rcases h with rfl | rfl <;> simp [twoTests, samplesGroup, mainGroup]
  · intro test htest
    have hgroups := fun group => (hmem group).2
    simp only [twoTests, List.mem_cons, List.not_mem_nil, or_false] at htest
    rcases htest with rfl | rfl
    · exact ⟨samplesGroup, hgroups _ (.inl rfl), rfl⟩
    · exact ⟨mainGroup, hgroups _ (.inr rfl), rfl⟩
  · intro group hg
    obtain ⟨k, hk⟩ := hin group hg
    exact ⟨k, (hk k).2 rfl⟩
  · intro group hg i j k hij hjk hi hk
    obtain ⟨m, hm⟩ := hin group hg
    rw [hm] at hi hk ⊢
    omega
  · intro group hg
    rcases (hmem group).1 hg with rfl | rfl <;> rfl
  · intro group hg
    rcases (hmem group).1 hg with rfl | rfl <;> rfl
  · intro group hg name hname
    rcases (hmem group).1 hg with rfl | rfl
    · cases hname
    · rw [List.mem_singleton.1 hname]
      refine ⟨samplesGroup, (hmem _).2 (.inl rfl), rfl, rfl, fun i j hi hj => ?_⟩
      simp [twoTests_inGroup, samplesGroup, mainGroup] at hi hj
      omega

/-- A submission of an imported problem. -/
def importedSubmission : Submission Int :=
  { id := 1, score := 0, verdict := .RU, testResults := [], compilationResult := none,
    groupResults := [] }

theorem imported_accepted_iff_in_order : (twoTests [samplesGroup, mainGroup]).InOrder ∧
    ∃ problem, buildProblemModel [twoTests [samplesGroup, mainGroup]] = .ok problem ∧
      ∃ i, IOIGenerator.new 0 problem importedSubmission = .ok i := by
  have hchosen : chooseTestset [twoTests [samplesGroup, mainGroup]] = some _ := rfl
  have hiff := imported_accepted_iff hchosen (twoTests_wellFormed (.inl rfl)) 0 importedSubmission
  have haccepted := hiff.2 ⟨?_, by decide⟩
  · exact ⟨(hiff.1 haccepted).1, haccepted⟩
  · refine List.pairwise_pair.2 fun i j hi hj => ?_
    simp [twoTests_inGroup, samplesGroup, mainGroup] at hi hj
    omega

/-- The groups of a package may be declared in another order than that of their tests. -/
theorem imported_not_accepted : ¬ ∀ (testsets : List (XTestset Int)) (t : XTestset Int),
    chooseTestset testsets = some t → t.WellFormed → ∀ id sub,
      ∃ problem, buildProblemModel testsets = .ok problem ∧
        ∃ i, IOIGenerator.new id problem sub = .ok i := by
  intro h
  obtain ⟨problem, hbuild, i, hi⟩ := h [twoTests [mainGroup, samplesGroup]] _ rfl
    (twoTests_wellFormed (.inr rfl)) 0 importedSubmission
  cases hbuild
  cases hi

end TestingSystem
