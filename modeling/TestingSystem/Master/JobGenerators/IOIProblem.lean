import TestingSystem.Lib.Closure
import TestingSystem.Master.JobGenerators.IOIGenerator

/-!
# Accepted IOI problems

What `NewIOIGenerator` checks: the groups tile the tests in order (`Tiled`), every group has the
score its scoring type reads, names are different, and a group requires earlier `Complete` groups
only. The generator that is returned holds the same facts in its maps (`Prepared`), and no later
call changes them.
-/

set_option autoImplicit false

namespace TestingSystem

section Groups

variable {F : Type}

/-- The group reads a score that is there, and its scoring type is known. -/
def TestGroup.Scored (group : TestGroup F) : Prop :=
  match group.scoringType with
  | .complete | .min => group.groupScore.isSome
  | .eachTest => group.testScore.isSome
  | .other _ => False

/-- The groups cover the tests from `first + 1` to `last`, one after another. -/
def Tiled : Nat → List (TestGroup F) → Nat → Prop
  | first, [], last => first = last
  | first, group :: groups, last =>
    group.firstTest = first + 1 ∧ group.firstTest ≤ group.lastTest ∧
      Tiled group.lastTest groups last

/-- The test belongs to the group. -/
def TestGroup.Has (group : TestGroup F) (test : Nat) : Prop :=
  group.firstTest ≤ test ∧ test ≤ group.lastTest

instance (group : TestGroup F) (test : Nat) : Decidable (group.Has test) :=
  inferInstanceAs (Decidable (_ ∧ _))

theorem Tiled.le {first last : Nat} {groups : List (TestGroup F)} (h : Tiled first groups last) :
    first ≤ last := by
  induction groups generalizing first with
  | nil => exact Nat.le_of_eq h
  | cons group groups ih =>
    obtain ⟨h1, h2, h3⟩ := h
    have := ih h3
    omega

theorem Tiled.bounds {first last : Nat} {groups : List (TestGroup F)} (h : Tiled first groups last)
    {group : TestGroup F} (hg : group ∈ groups) :
    first < group.firstTest ∧ group.firstTest ≤ group.lastTest ∧ group.lastTest ≤ last := by
  induction groups generalizing first with
  | nil => cases hg
  | cons head groups ih =>
    obtain ⟨h1, h2, h3⟩ := h
    rcases List.mem_cons.1 hg with rfl | hmem
    · exact ⟨by omega, h2, h3.le⟩
    · have := ih h3 hmem
      omega

theorem Tiled.pairwise {first last : Nat} {groups : List (TestGroup F)}
    (h : Tiled first groups last) : groups.Pairwise fun a b => a.lastTest < b.firstTest := by
  induction groups generalizing first with
  | nil => exact List.Pairwise.nil
  | cons head groups ih =>
    obtain ⟨-, -, h3⟩ := h
    exact List.pairwise_cons.2 ⟨fun b hb => (h3.bounds hb).1, ih h3⟩

theorem Tiled.exists_has {first last : Nat} {groups : List (TestGroup F)}
    (h : Tiled first groups last) {test : Nat} (h1 : first < test) (h2 : test ≤ last) :
    ∃ group ∈ groups, group.Has test := by
  induction groups generalizing first with
  | nil =>
    change first = last at h
    omega
  | cons head groups ih =>
    obtain ⟨hfirst, -, h3⟩ := h
    by_cases hle : test ≤ head.lastTest
    · exact ⟨head, List.mem_cons_self, by omega, hle⟩
    · obtain ⟨group, hmem, hhas⟩ := ih h3 (by omega)
      exact ⟨group, List.mem_cons_of_mem _ hmem, hhas⟩

theorem eq_or_rel_of_pairwise {α : Type} {R : α → α → Prop} {xs : List α} (h : xs.Pairwise R)
    {a b : α} (ha : a ∈ xs) (hb : b ∈ xs) : a = b ∨ R a b ∨ R b a := by
  induction h with
  | nil => cases ha
  | cons hx _ ih =>
    rcases List.mem_cons.1 ha with rfl | ha' <;> rcases List.mem_cons.1 hb with rfl | hb'
    · exact .inl rfl
    · exact .inr (.inl (hx b hb'))
    · exact .inr (.inr (hx a ha'))
    · exact ih ha' hb'

/-- What `NewIOIGenerator` has checked of a problem that it accepts. -/
structure Accepted (problem : Problem F) : Prop where
  type : problem.problemType = .ioi
  scored : ∀ group ∈ problem.testGroups, group.Scored
  tiled : Tiled 0 problem.testGroups problem.testsNumber
  names : problem.testGroups.Pairwise fun a b => b.name ≠ a.name
  required : ∀ before group after, problem.testGroups = before ++ group :: after →
    ∀ name ∈ group.requiredGroupNames,
      ∃ required ∈ before, required.name = name ∧ required.scoringType = .complete

/-- The groups with the names they require. -/
def Problem.nodes (problem : Problem F) : List (String × List String) :=
  problem.testGroups.map fun group => (group.name, group.requiredGroupNames)

namespace Accepted

variable {problem : Problem F} (h : Accepted problem)

include h

theorem eq_of_has {a b : TestGroup F} (ha : a ∈ problem.testGroups) (hb : b ∈ problem.testGroups)
    {test : Nat} (hat : a.Has test) (hbt : b.Has test) : a = b := by
  rcases eq_or_rel_of_pairwise h.tiled.pairwise ha hb with heq | hlt | hlt
  · exact heq
  · have := hat.2
    have := hbt.1
    omega
  · have := hat.1
    have := hbt.2
    omega

theorem eq_of_name {a b : TestGroup F} (ha : a ∈ problem.testGroups)
    (hb : b ∈ problem.testGroups) (hname : a.name = b.name) : a = b := by
  rcases eq_or_rel_of_pairwise h.names ha hb with heq | hne | hne
  · exact heq
  · exact absurd hname.symm hne
  · exact absurd hname hne

theorem exists_group {test : Nat} (h1 : 1 ≤ test) (h2 : test ≤ problem.testsNumber) :
    ∃ group ∈ problem.testGroups, group.Has test :=
  h.tiled.exists_has h1 h2

theorem has_bounds {group : TestGroup F} (hg : group ∈ problem.testGroups) {test : Nat}
    (ht : group.Has test) : 1 ≤ test ∧ test ≤ problem.testsNumber := by
  have := h.tiled.bounds hg
  have := ht.1
  have := ht.2
  omega

/-- A required group is `Complete` and lies before the group that requires it. -/
theorem required_before {group : TestGroup F} (hg : group ∈ problem.testGroups) {name : String}
    (hname : name ∈ group.requiredGroupNames) :
    ∃ required ∈ problem.testGroups, required.name = name ∧ required.scoringType = .complete ∧
      required.lastTest < group.firstTest := by
  obtain ⟨before, after, heq⟩ := List.append_of_mem hg
  obtain ⟨required, hmem, hn, hc⟩ := h.required before group after heq name hname
  have hpair := h.tiled.pairwise
  rw [heq, List.pairwise_append] at hpair
  refine ⟨required, ?_, hn, hc, hpair.2.2 required hmem group List.mem_cons_self⟩
  rw [heq]
  exact List.mem_append_left _ hmem

theorem nodes_sorted : Closure.Sorted problem.nodes := by
  constructor
  · rw [Problem.nodes, List.pairwise_map]
    have hboth := h.names.and h.tiled.pairwise
    refine hboth.imp_of_mem ?_
    rintro a b ha hb ⟨hne, hlt⟩
    refine ⟨hne, fun hreq => ?_⟩
    obtain ⟨required, hmem, hname, -, hlast⟩ := h.required_before ha hreq
    obtain rfl := h.eq_of_name hmem hb hname
    have := (h.tiled.bounds ha).2.1
    have := (h.tiled.bounds hb).2.1
    omega
  · intro node hnode hreq
    obtain ⟨group, hg, rfl⟩ := List.mem_map.1 hnode
    obtain ⟨required, hmem, hname, -, hlast⟩ := h.required_before hg hreq
    obtain rfl := h.eq_of_name hmem hg hname
    have := (h.tiled.bounds hg).2.1
    omega

/-- A name that leads to a group is its own, or the name of an earlier `Complete` group. -/
theorem leads {name : String} {group : TestGroup F} (hg : group ∈ problem.testGroups)
    (hl : Closure.Leads problem.nodes name group.name) :
    name = group.name ∨ ∃ first ∈ problem.testGroups, first.name = name ∧
      first.scoringType = .complete ∧ first.lastTest < group.firstTest := by
  generalize hn : group.name = target at hl
  induction hl generalizing group with
  | refl => exact .inl rfl
  | @tail middle target _ hedge ih =>
    obtain ⟨names, hmem, hmiddle⟩ := hedge
    obtain ⟨group', hg', heq⟩ := List.mem_map.1 hmem
    obtain ⟨rfl, rfl⟩ := Prod.mk.inj heq
    obtain rfl := h.eq_of_name hg' hg hn.symm
    obtain ⟨required, hr, hrname, hc, hlast⟩ := h.required_before hg hmiddle
    rcases ih hr hrname with hsame | ⟨first, hf, hfname, hfc, hflast⟩
    · exact .inr ⟨required, hr, hrname.trans hsame.symm, hc, hlast⟩
    · have := (h.tiled.bounds hr).2.1
      exact .inr ⟨first, hf, hfname, hfc, by omega⟩

end Accepted

end Groups

/-! ## The generator of an accepted problem -/

namespace IOIGenerator

variable {F : Type}

/-- The entry of a test before it is given. -/
def newEntry (test : Nat) : InternalTestResult F :=
  { result := { testNumber := test, verdict := .RU }, state := .testNotGiven }

theorem prepareTests_eq (group : TestGroup F) (turns test : Nat) (h1 : 1 ≤ test)
    (i : IOIGenerator F) :
    ∃ names, prepareTests group turns test i =
        { i with
          testNumberToGroupName := names
          internalTestResults :=
            i.internalTestResults ++ (List.range' test turns).map newEntry } ∧
      ∀ t, 1 ≤ t → names.get? (testIndex t) =
        if test ≤ t ∧ t < test + turns then some group.name
        else i.testNumberToGroupName.get? (testIndex t) := by
  induction turns generalizing test i with
  | zero =>
    refine ⟨i.testNumberToGroupName, ?_, fun t _ => (if_neg (by omega)).symm⟩
    simp [prepareTests]
  | succ turns ih =>
    obtain ⟨names, he, hget⟩ := ih (test + 1) (by omega)
      { i with
        testNumberToGroupName := i.testNumberToGroupName.set (testIndex test) group.name
        internalTestResults := i.internalTestResults ++ [newEntry test] }
    refine ⟨names, ?_, fun t ht => ?_⟩
    · rw [prepareTests]
      refine he.trans ?_
      simp [List.range'_succ]
    · rw [hget t ht, GoMap.get?_set]
      have hindex : testIndex t = testIndex test ↔ t = test := by
        rw [testIndex_of_pos ht, testIndex_of_pos h1]
        omega
      simp only [hindex]
      by_cases heq : t = test
      · subst heq
        simp
      · have hiff : test + 1 ≤ t ∧ t < test + 1 + turns ↔ test ≤ t ∧ t < test + (turns + 1) := by
          omega
        simp only [hiff, heq, if_false]

theorem checkScores_ok {problem : Problem F} {group : TestGroup F}
    (h : checkScores problem group = .ok ()) : group.Scored := by
  unfold checkScores at h
  unfold TestGroup.Scored
  cases hs : group.scoringType with
  | complete | min => cases hscore : group.groupScore <;> simp_all
  | eachTest => cases hscore : group.testScore <;> simp_all
  | other value => simp [hs] at h

/-- The maps after the groups `groups`, of the tests up to `last`, were prepared. -/
structure Tables (groups : List (TestGroup F)) (last : Nat) (i : IOIGenerator F) : Prop where
  info : ∀ group ∈ groups, i.groupNameToGroupInfo.get? group.name = some group
  internal : ∀ group ∈ groups, i.groupNameToInternalInfo.get? group.name =
    some { shouldGiveNewJobs := true, shouldMarkFinalTestsSkipped := false }
  names : ∀ group ∈ groups, ∀ test, 1 ≤ test → group.Has test →
    i.testNumberToGroupName.get? (testIndex test) = some group.name
  results : i.internalTestResults = (List.range' 1 last).map newEntry

/-- The generator before `prepareGenerator`, with the maps of `i`. -/
def SameCore (i i' : IOIGenerator F) : Prop :=
  i' = { i with
    groupNameToGroupInfo := i'.groupNameToGroupInfo
    groupNameToInternalInfo := i'.groupNameToInternalInfo
    testNumberToGroupName := i'.testNumberToGroupName
    internalTestResults := i'.internalTestResults }

theorem SameCore.trans {i j k : IOIGenerator F} (h : SameCore i j) (h' : SameCore j k) :
    SameCore i k := by
  unfold SameCore at h h' ⊢
  rw [h'] at *
  rw [h]

theorem prepareGroup_ok {i i' : IOIGenerator F} {done : List (TestGroup F)} {last : Nat}
    {group : TestGroup F} (ht : Tables done last i) (hlast : ∀ g ∈ done, g.lastTest ≤ last)
    (hname : ∀ g ∈ done, group.name ≠ g.name) (hfirst : group.firstTest = last + 1)
    (h : i.prepareGroup group = .ok i') :
    group.Scored ∧ Tables (done ++ [group]) group.lastTest i' ∧ SameCore i i' := by
  obtain ⟨⟨⟩, hscores, h⟩ := bind_eq_ok.1 h
  refine ⟨checkScores_ok hscores, ?_⟩
  by_cases hlt : group.firstTest > group.lastTest
  · rw [if_pos hlt] at h
    cases h
  · rw [if_neg hlt] at h
    cases h
    obtain ⟨names, he, hget⟩ := prepareTests_eq group (group.lastTest + 1 - group.firstTest)
      group.firstTest (by omega) i
    rw [he]
    refine ⟨⟨?_, ?_, ?_, ?_⟩, rfl⟩
    · intro g hg
      rw [GoMap.get?_set]
      rcases List.mem_append.1 hg with hg | hg
      · rw [if_neg (Ne.symm (hname g hg)), ht.info g hg]
      · rw [List.mem_singleton.1 hg, if_pos rfl]
    · intro g hg
      rw [GoMap.get?_set]
      rcases List.mem_append.1 hg with hg | hg
      · rw [if_neg (Ne.symm (hname g hg)), ht.internal g hg]
      · rw [List.mem_singleton.1 hg, if_pos rfl]
    · intro g hg test h1 hhas
      change names.get? (testIndex test) = some g.name
      have hb := hhas.1
      have hb' := hhas.2
      rw [hget test h1]
      rcases List.mem_append.1 hg with hg | hg
      · have := hlast g hg
        rw [if_neg (by omega), ht.names g hg test h1 hhas]
      · rw [List.mem_singleton.1 hg] at hb hb' ⊢
        rw [if_pos (by omega)]
    · change i.internalTestResults ++ _ = _
      rw [ht.results, hfirst, ← List.map_append, Nat.add_comm last 1]
      have hlen : group.lastTest = last + (group.lastTest + 1 - (1 + last)) := by omega
      conv_rhs => rw [hlen]
      rw [List.range'_append_1]

theorem prepareGroups_ok {groups done : List (TestGroup F)} {i i' : IOIGenerator F}
    {last final : Nat} (ht : Tables done last i) (hlast : ∀ g ∈ done, g.lastTest ≤ last)
    (hnames : (done ++ groups).Pairwise fun a b => b.name ≠ a.name)
    (htiled : Tiled last groups final) (h : prepareGroups groups i = .ok i') :
    (∀ group ∈ groups, group.Scored) ∧ Tables (done ++ groups) final i' ∧ SameCore i i' := by
  induction groups generalizing done i last with
  | nil =>
    cases h
    cases htiled
    rw [List.append_nil]
    exact ⟨fun _ hg => (nomatch hg), ht, rfl⟩
  | cons group groups ih =>
    obtain ⟨j, hj, h⟩ := bind_eq_ok.1 h
    obtain ⟨hfirst, hle, htiled⟩ := htiled
    have hname : ∀ g ∈ done, group.name ≠ g.name := fun g hg =>
      (List.pairwise_append.1 hnames).2.2 g hg group List.mem_cons_self
    obtain ⟨hscored, htj, hsame⟩ := prepareGroup_ok ht hlast hname hfirst hj
    have happ : done ++ group :: groups = done ++ [group] ++ groups := by simp
    rw [happ] at hnames ⊢
    have hlast' : ∀ g ∈ done ++ [group], g.lastTest ≤ group.lastTest := by
      intro g hg
      rcases List.mem_append.1 hg with hg | hg
      · have := hlast g hg
        omega
      · rw [List.mem_singleton.1 hg]
    obtain ⟨hall, htables, hsame'⟩ := ih htj hlast' hnames htiled h
    refine ⟨fun g hg => ?_, htables, hsame.trans hsame'⟩
    rcases List.mem_cons.1 hg with rfl | hg
    · exact hscored
    · exact hall g hg

/-! ### The checks -/

theorem checkRequiredGroups_ok {i : IOIGenerator F} {encountered : List String}
    {group : TestGroup F} {names : List String}
    (h : i.checkRequiredGroups encountered group names = .ok ()) :
    ∀ name ∈ names, name ∈ encountered ∧
      ∀ info, i.groupNameToGroupInfo.get? name = some info → info.scoringType = .complete := by
  induction names with
  | nil => exact fun _ hn => nomatch hn
  | cons name names ih =>
    rw [checkRequiredGroups] at h
    split at h
    · cases h
    · next hmem =>
      have hmem := not_not.1 hmem
      intro name' hname'
      cases hinfo : i.groupNameToGroupInfo.get? name with
      | none =>
        rw [hinfo] at h
        rcases List.mem_cons.1 hname' with rfl | hname'
        · refine ⟨hmem, fun info hi => ?_⟩
          rw [hinfo] at hi
          cases hi
        · exact ih h name' hname'
      | some info =>
        simp only [hinfo] at h
        split at h
        · cases h
        · next hc =>
          rcases List.mem_cons.1 hname' with rfl | hname'
          · refine ⟨hmem, fun info' hi => ?_⟩
            rw [hinfo] at hi
            cases hi
            exact not_not.1 hc
          · exact ih h name' hname'

theorem checkGroups_ok {i : IOIGenerator F} {groups : List (TestGroup F)} {lastTest final : Nat}
    {encountered : List String} (h : i.checkGroups groups lastTest encountered = .ok final) :
    Tiled lastTest groups final ∧ (groups.Pairwise fun a b => b.name ≠ a.name) ∧
      (∀ group ∈ groups, group.name ∉ encountered) ∧
      ∀ before group after, groups = before ++ group :: after →
        ∀ name ∈ group.requiredGroupNames,
          (name ∈ encountered ∨ name ∈ before.map TestGroup.name) ∧
            ∀ info, i.groupNameToGroupInfo.get? name = some info → info.scoringType = .complete := by
  induction groups generalizing lastTest encountered with
  | nil =>
    cases h
    refine ⟨rfl, List.Pairwise.nil, fun _ hg => (nomatch hg), fun before group after heq => ?_⟩
    simp at heq
  | cons group groups ih =>
    rw [checkGroups] at h
    split at h
    · cases h
    split at h
    · cases h
    split at h
    · cases h
    next hfirst hle hnew =>
    obtain ⟨⟨⟩, hreq, h⟩ := bind_eq_ok.1 h
    obtain ⟨htiled, hnames, hfresh, hrest⟩ := ih h
    refine ⟨⟨not_not.1 hfirst, Nat.not_lt.1 hle, htiled⟩, ?_, ?_, ?_⟩
    · exact List.pairwise_cons.2
        ⟨fun b hb heq => hfresh b hb (heq ▸ List.mem_cons_self), hnames⟩
    · intro g hg
      rcases List.mem_cons.1 hg with rfl | hg
      · exact hnew
      · exact fun hmem => hfresh g hg (List.mem_cons_of_mem _ hmem)
    · intro before g after heq name hname
      cases before with
      | nil =>
        obtain ⟨rfl, -⟩ := List.cons.inj heq
        obtain ⟨hmem, hc⟩ := checkRequiredGroups_ok hreq name hname
        exact ⟨.inl hmem, hc⟩
      | cons head before =>
        obtain ⟨rfl, hrestEq⟩ := List.cons.inj heq
        obtain ⟨hmem, hc⟩ := hrest before g after hrestEq name hname
        refine ⟨?_, hc⟩
        rcases hmem with hmem | hmem
        · rcases List.mem_cons.1 hmem with rfl | hmem
          · exact .inr List.mem_cons_self
          · exact .inl hmem
        · exact .inr (List.mem_cons_of_mem _ hmem)

/-- What `NewIOIGenerator` returns. -/
theorem new_ok {id : GeneratorID} {problem : Problem F} {sub : Submission F}
    {i : IOIGenerator F} (h : new id problem sub = .ok i) :
    Accepted problem ∧ Tables problem.testGroups problem.testsNumber i ∧
      i.id = id ∧ i.problem = problem ∧ i.submission = { sub with verdict := .RU } ∧
      i.state = .compilationNotStarted ∧ i.givenJobs = .empty ∧ i.firstNotCompletedTest = 1 ∧
      i.firstNotCompletedGroup = 1 ∧ i.firstNotGivenTest = 1 := by
  unfold new prepareGenerator at h
  dsimp only at h
  split at h
  · cases h
  next htype =>
  obtain ⟨j, hj, h⟩ := bind_eq_ok.1 h
  obtain ⟨⟨⟩, hcheck, h⟩ := bind_eq_ok.1 h
  cases h
  unfold checkIfGroupsDependenciesOK at hcheck
  split at hcheck
  · cases hcheck
  obtain ⟨final, hgroups, hcheck⟩ := bind_eq_ok.1 hcheck
  split at hcheck
  · cases hcheck
  next hfinal =>
  obtain rfl := not_not.1 hfinal
  obtain ⟨htiled, hnames, -, hreq⟩ := checkGroups_ok hgroups
  obtain ⟨hscored, htables, hsame⟩ := prepareGroups_ok
    (show Tables [] 0 _ from
      ⟨fun _ hg => (nomatch hg), fun _ hg => (nomatch hg), fun _ hg => (nomatch hg), rfl⟩)
    (fun _ hg => (nomatch hg)) hnames htiled hj
  rw [List.nil_append] at htables
  refine ⟨⟨not_not.1 htype, hscored, htiled, hnames, ?_⟩, htables, ?_⟩
  · intro before group after heq name hname
    obtain ⟨hmem, hc⟩ := hreq before group after heq name hname
    rcases hmem with hmem | hmem
    · cases hmem
    · obtain ⟨required, hr, rfl⟩ := List.mem_map.1 hmem
      have hmem : required ∈ problem.testGroups := by
        rw [heq]
        exact List.mem_append_left _ hr
      exact ⟨required, hr, rfl, hc required (htables.info required hmem)⟩
  · rw [hsame]
    exact ⟨rfl, rfl, rfl, rfl, rfl, rfl, rfl, rfl⟩

end IOIGenerator

end TestingSystem
