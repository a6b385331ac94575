import TestingSystem.Master.JobGenerators.IOIProblem

/-!
# Which problems `NewIOIGenerator` accepts

The converse of `new_ok`: no loop of `prepareGenerator` refuses an `Accepted` problem, so the generator
is returned exactly for these (`new_iff`). The tests of the groups are compared as differences of
`int`s, so the numbers must be below `2 ^ 63` for the groups to count as sorted.
-/

set_option autoImplicit false

namespace TestingSystem

namespace IOIGenerator

variable {F : Type} {i : IOIGenerator F} {problem : Problem F} {group : TestGroup F}

/-! ### The loop over the groups in `prepareGenerator` -/

theorem checkScores_of_scored (problem : Problem F) (h : group.Scored) :
    checkScores problem group = .ok () := by
  cases htype : group.scoringType with
  | complete | min | eachTest =>
    simp only [TestGroup.Scored, htype] at h
    simp [checkScores, htype, Option.isNone_eq_false_iff.2 h]
  | other value =>
    simp only [TestGroup.Scored, htype] at h

theorem prepareGroup_total (i : IOIGenerator F) (hscored : group.Scored)
    (hle : group.firstTest ≤ group.lastTest) : ∃ i', i.prepareGroup group = .ok i' := by
  rw [prepareGroup, checkScores_of_scored i.problem hscored, ok_bind, if_neg (Nat.not_lt.2 hle)]
  exact ⟨_, rfl⟩

theorem prepareGroups_total {groups : List (TestGroup F)} (i : IOIGenerator F)
    (h : ∀ group ∈ groups, group.Scored ∧ group.firstTest ≤ group.lastTest) :
    ∃ i', prepareGroups groups i = .ok i' := by
  induction groups generalizing i with
  | nil => exact ⟨i, rfl⟩
  | cons group groups ih =>
    obtain ⟨hscored, hle⟩ := h group List.mem_cons_self
    obtain ⟨j, hj⟩ := i.prepareGroup_total hscored hle
    obtain ⟨i', hi'⟩ := ih j fun g hg => h g (List.mem_cons_of_mem _ hg)
    refine ⟨i', ?_⟩
    rw [prepareGroups, hj, ok_bind, hi']

/-! ### The checks -/

theorem checkRequiredGroups_of {encountered names : List String}
    (h : ∀ name ∈ names, name ∈ encountered ∧
      ∀ info, i.groupNameToGroupInfo.get? name = some info → info.scoringType = .complete) :
    i.checkRequiredGroups encountered group names = .ok () := by
  induction names with
  | nil => rfl
  | cons name names ih =>
    obtain ⟨hmem, hcomplete⟩ := h name List.mem_cons_self
    have hrest := ih fun n hn => h n (List.mem_cons_of_mem _ hn)
    rw [checkRequiredGroups, if_neg (not_not.2 hmem)]
    split
    · exact hrest
    · next info hinfo => rw [if_neg (not_not.2 (hcomplete info hinfo)), hrest]

theorem checkGroups_of {groups : List (TestGroup F)} {lastTest final : Nat} {encountered : List String}
    (htiled : Tiled lastTest groups final) (hnames : groups.Pairwise fun a b => b.name ≠ a.name)
    (hfresh : ∀ group ∈ groups, group.name ∉ encountered)
    (hrequired : ∀ before group after, groups = before ++ group :: after →
      ∀ name ∈ group.requiredGroupNames,
        (name ∈ encountered ∨ name ∈ before.map TestGroup.name) ∧
          ∀ info, i.groupNameToGroupInfo.get? name = some info → info.scoringType = .complete) :
    i.checkGroups groups lastTest encountered = .ok final := by
  induction groups generalizing lastTest encountered with
  | nil => rw [checkGroups, show lastTest = final from htiled]
  | cons group groups ih =>
    obtain ⟨hfirst, hle, htiled⟩ := htiled
    obtain ⟨hdistinct, hnames⟩ := List.pairwise_cons.1 hnames
    have hhead : i.checkRequiredGroups encountered group group.requiredGroupNames = .ok () := by
      refine checkRequiredGroups_of fun name hname => ?_
      obtain ⟨hmem, hcomplete⟩ := hrequired [] group groups rfl name hname
      exact ⟨hmem.resolve_right (by simp), hcomplete⟩
    have hrest : i.checkGroups groups group.lastTest (group.name :: encountered) = .ok final := by
      refine ih htiled hnames (fun g hg hmem => ?_) fun before g after heq name hname => ?_
      · rcases List.mem_cons.1 hmem with hsame | hmem
        · exact hdistinct g hg hsame
        · exact hfresh g (List.mem_cons_of_mem _ hg) hmem
      · obtain ⟨hmem, hcomplete⟩ := hrequired (group :: before) g after (by rw [heq]; rfl) name hname
        refine ⟨?_, hcomplete⟩
        rcases hmem with hmem | hmem
        · exact .inl (List.mem_cons_of_mem _ hmem)
        · rcases List.mem_cons.1 hmem with rfl | hmem
          · exact .inl List.mem_cons_self
          · exact .inr hmem
    rw [checkGroups, if_neg (not_not.2 hfirst), if_neg (Nat.not_lt.2 hle),
      if_neg (hfresh group List.mem_cons_self), hhead, ok_bind, hrest]

theorem compareFirstTest_nonneg {a b : TestGroup F} (hle : a.firstTest ≤ b.firstTest)
    (hlt : b.firstTest < 2 ^ 63) : 0 ≤ compareFirstTest b a := by
  have hsub : (BitVec.ofNat 64 b.firstTest - BitVec.ofNat 64 a.firstTest).toNat =
      b.firstTest - a.firstTest := by
    rw [BitVec.toNat_sub_of_le] <;> simp [BitVec.le_def] <;> omega
  rw [compareFirstTest, BitVec.toInt_eq_toNat_of_lt (by rw [hsub]; omega), hsub]
  exact Int.natCast_nonneg _

theorem isSortedByFirstTest_of_tiled {groups : List (TestGroup F)} {first last : Nat}
    (htiled : Tiled first groups last) (hlt : ∀ group ∈ groups, group.firstTest < 2 ^ 63) :
    isSortedByFirstTest groups = true := by
  induction groups generalizing first with
  | nil => rfl
  | cons a groups ih =>
    obtain ⟨-, hle, htiled⟩ := htiled
    have hrest := ih htiled fun g hg => hlt g (List.mem_cons_of_mem _ hg)
    cases groups with
    | nil => rfl
    | cons b groups =>
      have hfirst := (htiled.bounds List.mem_cons_self).1
      have hb := hlt b (List.mem_cons_of_mem _ List.mem_cons_self)
      rw [isSortedByFirstTest, hrest, Bool.and_true]
      exact decide_eq_true (compareFirstTest_nonneg (by omega) hb)

/-- An accepted problem whose groups count as sorted passes all checks. -/
theorem new_of_sorted (h : Accepted problem)
    (hsorted : isSortedByFirstTest problem.testGroups = true) (id : GeneratorID)
    (sub : Submission F) : ∃ i, new id problem sub = .ok i := by
  unfold new prepareGenerator
  dsimp only
  rw [if_neg (not_not.2 h.type)]
  obtain ⟨i, hi⟩ := prepareGroups_total _ fun group hg =>
    ⟨h.scored group hg, (h.tiled.bounds hg).2.1⟩
  rw [hi, ok_bind]
  have htables := (prepareGroups_ok
    (show Tables [] 0 _ from
      ⟨fun _ hg => (nomatch hg), fun _ hg => (nomatch hg), fun _ hg => (nomatch hg), rfl⟩)
    (fun _ hg => (nomatch hg)) h.names h.tiled hi).2.1
  have hgroups : i.checkGroups problem.testGroups 0 [] = .ok problem.testsNumber := by
    refine checkGroups_of h.tiled h.names (fun _ _ => List.not_mem_nil)
      fun before group after heq name hname => ?_
    obtain ⟨required, hmem, rfl, hcomplete⟩ := h.required before group after heq name hname
    refine ⟨.inr (List.mem_map_of_mem hmem), fun info hinfo => ?_⟩
    have hrequired : required ∈ problem.testGroups := heq ▸ List.mem_append_left _ hmem
    rw [htables.info required hrequired] at hinfo
    exact Option.some.inj hinfo ▸ hcomplete
  rw [checkIfGroupsDependenciesOK, hsorted, Bool.not_true, if_neg Bool.false_ne_true, hgroups,
    ok_bind, if_neg (not_not.2 rfl)]
  exact ⟨i, rfl⟩

theorem new_sorted {id : GeneratorID} {sub : Submission F} (h : new id problem sub = .ok i) :
    isSortedByFirstTest problem.testGroups = true := by
  unfold new prepareGenerator at h
  dsimp only at h
  split at h
  · cases h
  obtain ⟨j, -, h⟩ := bind_eq_ok.1 h
  obtain ⟨⟨⟩, hcheck, -⟩ := bind_eq_ok.1 h
  unfold checkIfGroupsDependenciesOK at hcheck
  split at hcheck
  · cases hcheck
  · next hs => simpa using hs

/-- `NewIOIGenerator` accepts exactly the well-formed problems, and the tables of the generator that it
returns hold every test and its group. -/
theorem new_iff (id : GeneratorID) (problem : Problem F) (sub : Submission F)
    (hgroups : ∀ group ∈ problem.testGroups, group.firstTest < 2 ^ 63 ∧ group.lastTest < 2 ^ 63) :
    ((∃ i, new id problem sub = .ok i) ↔ Accepted problem) ∧
      ∀ i, new id problem sub = .ok i →
        i.internalTestResults.length = problem.testsNumber ∧
          ∀ k < problem.testsNumber,
            i.internalTestResults[k]? = some (newEntry (k + 1)) ∧
            (∃ group ∈ problem.testGroups, group.Has (k + 1)) ∧
            ∀ group ∈ problem.testGroups, group.Has (k + 1) →
              i.testNumberToGroupName.get? k = some group.name := by
  refine ⟨⟨?_, fun h => new_of_sorted h ?_ id sub⟩, ?_⟩
  · rintro ⟨i, hi⟩
    exact (new_ok hi).1
  · exact isSortedByFirstTest_of_tiled h.tiled fun group hg => (hgroups group hg).1
  · intro i hi
    obtain ⟨haccepted, htables, -⟩ := new_ok hi
    refine ⟨by simp [htables.results], fun k hk => ⟨?_, haccepted.exists_group (by omega) hk, ?_⟩⟩
    · rw [htables.results, List.getElem?_map, List.getElem?_range' hk, Option.map_some, Nat.one_mul,
        Nat.add_comm 1 k]
    · intro group hg hhas
      have hname := htables.names group hg (k + 1) (by omega) hhas
      rwa [testIndex_of_pos (by omega), Nat.add_sub_cancel] at hname

/-- A `Complete` group and a group that requires it. -/
def requiringGroups : Problem Int :=
  { id := 1
    problemType := .ioi
    testsNumber := 3
    testGroups :=
      [{ name := "a", firstTest := 1, lastTest := 2, testScore := none, groupScore := some 30,
         scoringType := .complete, requiredGroupNames := [] },
       { name := "b", firstTest := 3, lastTest := 3, testScore := some 70, groupScore := none,
         scoringType := .eachTest, requiredGroupNames := ["a"] }] }

theorem new_iff_requiringGroups :
    Accepted requiringGroups ∧ ∃ i : IOIGenerator Int, i.internalTestResults.length = 3 ∧
      i.internalTestResults[2]? = some (newEntry 3) := by
  obtain ⟨hiff, htables⟩ := new_iff 0 requiringGroups
    ⟨1, 0, .RU, [], none, []⟩ (by decide)
  have hnew : ∃ i, new 0 requiringGroups ⟨1, 0, .RU, [], none, []⟩ = .ok i := ⟨_, rfl⟩
  obtain ⟨i, hi⟩ := hnew
  obtain ⟨hlength, hentries⟩ := htables i hi
  exact ⟨hiff.1 ⟨i, hi⟩, i, hlength, (hentries 2 (by decide)).1⟩

end IOIGenerator

end TestingSystem
