import TestingSystem.Master.JobGenerators.IOIProblem

/-!
# Marks of the IOI groups

The generator keeps two flags per group and spreads each with a loop over the groups. Both loops
compute the same closure: a group gets the flag if some group that leads to it has it
(`GroupFlag.raiseFlag_eq`).

`marks` says, from the outcomes alone, which groups are marked after the first tests: those that a
preventing test leads to. `shown` is the result that a test gets by these marks.
-/

set_option autoImplicit false

namespace TestingSystem.IOIGenerator

variable {F : Type}

/-! ## Spreading a flag -/

/-- The flag of a group, `false` for a name without entry. -/
def GroupFlag.of (flag : GroupFlag) (infos : GoMap String InternalGroupInfo) (name : String) :
    Bool :=
  match infos.get? name with
  | none => false
  | some info => flag.isSet info

/-- Every group has an entry. -/
def Total (groups : List (TestGroup F)) (infos : GoMap String InternalGroupInfo) : Prop :=
  ∀ group ∈ groups, ∃ info, infos.get? group.name = some info

/-- `infos'` differs from `infos` in the flag only, which is `mark` there. -/
def GroupFlag.Sets (flag : GroupFlag) (infos infos' : GoMap String InternalGroupInfo)
    (mark : String → Bool) : Prop :=
  ∀ name, infos'.get? name =
    (infos.get? name).map fun info => if mark name then flag.raise info else info

variable {flag : GroupFlag} {infos infos' : GoMap String InternalGroupInfo}

theorem GroupFlag.of_eq {name : String} {info : InternalGroupInfo}
    (h : infos.get? name = some info) : flag.of infos name = flag.isSet info := by
  simp [GroupFlag.of, h]

theorem GroupFlag.Sets.total {groups : List (TestGroup F)} {mark : String → Bool}
    (h : flag.Sets infos infos' mark) (ht : Total groups infos) : Total groups infos' := by
  intro group hg
  obtain ⟨info, hi⟩ := ht group hg
  exact ⟨_, by rw [h, hi]; rfl⟩

theorem GroupFlag.raiseGroup_eq {name : String} {info : InternalGroupInfo}
    (h : infos.get? name = some info) :
    ∃ infos', flag.raiseGroup infos name = .ok infos' ∧
      flag.Sets infos infos' fun n => decide (n = name) := by
  refine ⟨infos.set name (flag.raise info), by simp [raiseGroup, h, pure, Except.pure], fun n => ?_⟩
  rw [GoMap.get?_set]
  by_cases hn : n = name
  · subst hn
    simp [h]
  · simp [hn]

/-- Raising a flag twice is raising it once. -/
theorem GroupFlag.raise_raise (flag : GroupFlag) (info : InternalGroupInfo) :
    flag.raise (flag.raise info) = flag.raise info :=
  flag.raise_of_isSet _ (flag.isSet_raise info)

theorem GroupFlag.Sets.trans {infos'' : GoMap String InternalGroupInfo} {mark mark' : String → Bool}
    (h : flag.Sets infos infos' mark) (h' : flag.Sets infos' infos'' mark') :
    flag.Sets infos infos'' fun n => mark n || mark' n := by
  intro name
  rw [h' name, h name]
  cases infos.get? name with
  | none => rfl
  | some info =>
    cases hm : mark name <;> cases hm' : mark' name <;> simp [hm, hm', GroupFlag.raise_raise]

/-- The flags after a change. -/
theorem GroupFlag.Sets.of {mark : String → Bool} (h : flag.Sets infos infos' mark) {name : String}
    {info : InternalGroupInfo} (hi : infos.get? name = some info) :
    flag.of infos' name = (flag.of infos name || mark name) := by
  unfold GroupFlag.of
  rw [h name, hi]
  simp only [Option.map_some]
  cases mark name <;> simp [GroupFlag.isSet_raise]

/-- The inner loop raises the flag of the group if a required group has it. -/
theorem GroupFlag.raiseIfRequired_eq {name : String} {names : List String} (hname : name ∉ names)
    (hinfo : ∃ info, infos.get? name = some info)
    (hinfos : ∀ n ∈ names, ∃ info, infos.get? n = some info) :
    ∃ infos', flag.raiseIfRequired name names infos = .ok infos' ∧
      flag.Sets infos infos' fun n => decide (n = name) && names.any (flag.of infos) := by
  induction names generalizing infos with
  | nil =>
    refine ⟨infos, rfl, fun n => ?_⟩
    cases infos.get? n <;> simp
  | cons head names ih =>
    obtain ⟨hne, hnot⟩ := not_or.1 (mt List.mem_cons.2 hname)
    obtain ⟨info, hhead⟩ := hinfos head List.mem_cons_self
    have hrest : ∀ n ∈ names, ∃ info, infos.get? n = some info :=
      fun n hn => hinfos n (List.mem_cons_of_mem _ hn)
    by_cases hset : flag.isSet info = true
    · obtain ⟨own, hown⟩ := hinfo
      obtain ⟨infos₁, hraise, hsets⟩ := flag.raiseGroup_eq hown
      have hany : (head :: names).any (flag.of infos) = true := by
        simp [GroupFlag.of_eq hhead, hset]
      by_cases hstop : flag.stopsAtFirst = true
      · refine ⟨infos₁, ?_, ?_⟩
        · simp [raiseIfRequired, hhead, hset, hraise, hstop, pure, Except.pure]
        · simpa [hany] using hsets
      · obtain ⟨infos₂, hloop, hsets'⟩ := ih hnot
          (show ∃ info, infos₁.get? name = some info from
            ⟨flag.raise own, by rw [hsets name, hown]; simp⟩)
          (fun n hn => by
            obtain ⟨info', hi⟩ := hrest n hn
            exact ⟨_, by rw [hsets n, hi]; rfl⟩)
        refine ⟨infos₂, ?_, ?_⟩
        · simp [raiseIfRequired, hhead, hset, hraise, hstop, hloop]
        · intro n
          rw [(hsets.trans hsets') n, hany]
          by_cases hn : n = name <;> simp [hn]
    · obtain ⟨infos₁, hloop, hsets⟩ := ih hnot hinfo hrest
      refine ⟨infos₁, ?_, ?_⟩
      · simp [raiseIfRequired, hhead, hset, hloop]
      · simpa [GroupFlag.of_eq hhead, hset] using hsets

/-- The outer loop is a pass over the groups with the names they require. -/
theorem GroupFlag.spread_eq {groups : List (TestGroup F)}
    (hself : ∀ group ∈ groups, group.name ∉ group.requiredGroupNames)
    (hinfo : ∀ group ∈ groups, ∃ info, infos.get? group.name = some info)
    (hinfos : ∀ group ∈ groups, ∀ n ∈ group.requiredGroupNames, ∃ info, infos.get? n = some info) :
    ∃ infos', flag.spread groups infos = .ok infos' ∧
      flag.Sets infos infos' (Closure.pass
        (groups.map fun group => (group.name, group.requiredGroupNames)) (flag.of infos)) := by
  induction groups generalizing infos with
  | nil =>
    refine ⟨infos, rfl, fun n => ?_⟩
    cases hn : infos.get? n with
    | none => rfl
    | some info =>
      simp only [List.map_nil, Closure.pass, GroupFlag.of_eq hn, Option.map_some]
      split
      · next hset => rw [flag.raise_of_isSet info hset]
      · rfl
  | cons group groups ih =>
    have hgroup := hinfo group List.mem_cons_self
    obtain ⟨infos₁, hloop, hsets⟩ := flag.raiseIfRequired_eq (hself group List.mem_cons_self)
      hgroup (hinfos group List.mem_cons_self)
    have hkeep : ∀ n, (∃ info, infos.get? n = some info) → ∃ info, infos₁.get? n = some info := by
      rintro n ⟨info, hi⟩
      exact ⟨_, by rw [hsets n, hi]; rfl⟩
    obtain ⟨infos₂, hspread, hsets'⟩ := ih
      (fun g hg => hself g (List.mem_cons_of_mem _ hg))
      (fun g hg => hkeep _ (hinfo g (List.mem_cons_of_mem _ hg)))
      (fun g hg n hn => hkeep _ (hinfos g (List.mem_cons_of_mem _ hg) n hn))
    refine ⟨infos₂, by simp [spread, hloop, hspread], fun n => ?_⟩
    -- The flags after the inner loop are the marks after the first node of the pass.
    have hflags : flag.of infos₁ =
        if group.requiredGroupNames.any (flag.of infos) then
          Function.update (flag.of infos) group.name true
        else flag.of infos := by
      funext m
      cases hm : infos.get? m with
      | none =>
        have hnone : infos₁.get? m = none := by rw [hsets m, hm]; rfl
        have hne : m ≠ group.name := by
          rintro rfl
          obtain ⟨info, hi⟩ := hgroup
          rw [hm] at hi
          cases hi
        split <;> simp [GroupFlag.of, hnone, hm, hne]
      | some info =>
        rw [hsets.of hm]
        by_cases hmg : m = group.name
        · cases hany : group.requiredGroupNames.any (flag.of infos) <;> simp [hmg]
        · cases hany : group.requiredGroupNames.any (flag.of infos) <;> simp [hmg]
    rw [(hsets.trans hsets') n, List.map_cons, Closure.pass, hflags]
    by_cases hmark : n = group.name ∧ group.requiredGroupNames.any (flag.of infos) = true
    · have hpass : Closure.pass (groups.map fun g => (g.name, g.requiredGroupNames))
          (Function.update (flag.of infos) group.name true) n = true :=
        Closure.pass_of_mark _ (by rw [hmark.1, Function.update_self])
      simp [hmark.2, hpass]
    · have hfalse : (decide (n = group.name) && group.requiredGroupNames.any (flag.of infos)) =
          false := by
        rw [Bool.eq_false_iff, ne_eq, Bool.and_eq_true, decide_eq_true_eq]
        exact hmark
      simp only [hfalse, Bool.false_or]

/-- The flag of a group and of all groups it leads to is raised, and nothing else changes. -/
theorem raiseFlag_eq {i : IOIGenerator F} (ha : Accepted i.problem)
    (ht : Total i.problem.testGroups i.groupNameToInternalInfo) (flag : GroupFlag)
    {group : TestGroup F} (hg : group ∈ i.problem.testGroups) :
    ∃ infos mark, i.raiseFlag flag group.name = .ok { i with groupNameToInternalInfo := infos } ∧
      flag.Sets i.groupNameToInternalInfo infos mark ∧
      ∀ g ∈ i.problem.testGroups, flag.of infos g.name = true ↔
        ∃ b, (flag.of i.groupNameToInternalInfo b = true ∨ b = group.name) ∧
          Closure.Leads i.problem.nodes b g.name := by
  obtain ⟨info, hinfo⟩ := ht group hg
  obtain ⟨infos₁, hraise, hsets⟩ := flag.raiseGroup_eq hinfo
  have hself : ∀ g ∈ i.problem.testGroups, g.name ∉ g.requiredGroupNames := fun g hmem =>
    ha.nodes_sorted.2 _ (List.mem_map_of_mem hmem)
  obtain ⟨infos₂, hspread, hsets'⟩ := flag.spread_eq hself (hsets.total ht) fun g hmem n hn => by
    obtain ⟨required, hr, rfl, -⟩ := ha.required_before hmem hn
    exact hsets.total ht required hr
  refine ⟨infos₂, _, by simp [raiseFlag, hraise, hspread, pure, Except.pure], hsets.trans hsets',
    fun g hmem => ?_⟩
  obtain ⟨own, hown⟩ := ht g hmem
  obtain ⟨own₁, hown₁⟩ := hsets.total ht g hmem
  -- The flags from which the pass starts.
  have hstart : ∀ b, flag.of infos₁ b = true ↔
      flag.of i.groupNameToInternalInfo b = true ∨ b = group.name := by
    intro b
    cases hb : i.groupNameToInternalInfo.get? b with
    | none =>
      have hb₁ : infos₁.get? b = none := by rw [hsets b, hb]; rfl
      have hne : b ≠ group.name := by
        rintro rfl
        rw [hinfo] at hb
        cases hb
      simp [GroupFlag.of, hb, hb₁, hne]
    | some info' => rw [hsets.of hb, Bool.or_eq_true, decide_eq_true_eq]
  have hpass : ∀ n, Closure.pass i.problem.nodes (flag.of infos₁) n = true ↔
      ∃ b, (flag.of i.groupNameToInternalInfo b = true ∨ b = group.name) ∧
        Closure.Leads i.problem.nodes b n := by
    intro n
    rw [Closure.pass_iff ha.nodes_sorted]
    simp only [hstart]
  rw [← hpass, hsets'.of hown₁]
  change (flag.of infos₁ g.name || Closure.pass i.problem.nodes (flag.of infos₁) g.name) = true ↔ _
  rw [Bool.or_eq_true]
  exact or_iff_right_of_imp fun h => Closure.pass_of_mark _ h

/-- Marking leaves the other flag alone. -/
theorem GroupFlag.Sets.stop_of {mark : String → Bool} (h : markFlag.Sets infos infos' mark)
    (name : String) : stopFlag.of infos' name = stopFlag.of infos name := by
  unfold GroupFlag.of
  rw [h name]
  cases infos.get? name with
  | none => rfl
  | some info => cases mark name <;> simp [stopFlag, markFlag]

/-- Stopping leaves the other flag alone. -/
theorem GroupFlag.Sets.mark_of {mark : String → Bool} (h : stopFlag.Sets infos infos' mark)
    (name : String) : markFlag.of infos' name = markFlag.of infos name := by
  unfold GroupFlag.of
  rw [h name]
  cases infos.get? name with
  | none => rfl
  | some info => cases mark name <;> simp [stopFlag, markFlag]

/-! ## Outcomes -/

/-- A verdict that ends the testing of its group. -/
def prevents (group : TestGroup F) (verdict : Verdict) : Bool :=
  match group.scoringType with
  | .complete => decide (verdict ≠ .OK)
  | .min => decide (verdict ≠ .OK ∧ verdict ≠ .PT)
  | _ => false

theorem doesTestPreventTestingGroup_eq {group : TestGroup F} (h : group.Scored)
    (verdict : Verdict) :
    doesTestPreventTestingGroup group verdict = .ok (prevents group verdict) := by
  unfold doesTestPreventTestingGroup prevents
  unfold TestGroup.Scored at h
  cases hs : group.scoringType with
  | complete | eachTest | min => rfl
  | other value => simp [hs] at h

/-- `SK` and `CF` prevent the same groups. -/
theorem prevents_skipped (group : TestGroup F) : prevents group .SK = prevents group .CF := by
  unfold prevents
  cases group.scoringType <;> rfl

theorem ne_ok_of_prevents {group : TestGroup F} {verdict : Verdict}
    (h : prevents group verdict = true) : verdict ≠ .OK := by
  rintro rfl
  unfold prevents at h
  cases hs : group.scoringType <;> simp [hs] at h

section Outcomes

variable [Zero F]

/-- The outcome that `testJobCompleted` stores for a test of the group. -/
def storedOutcome (group : TestGroup F) (outcome : Outcome F) : Outcome F :=
  match populateTestJobResult group outcome.verdict outcome.points with
  | .ok populated => populatedOutcome outcome populated
  | .error _ => outcome

/-- An outcome `OK` is stored as such: its missing points are those of the problem. -/
theorem storedOutcome_ok {group : TestGroup F} {outcome : Outcome F} (h : outcome.verdict = .OK) :
    (storedOutcome group outcome).verdict = .OK := by
  unfold storedOutcome populateTestJobResult
  rw [h]
  cases group.scoringType <;> cases outcome.points <;> exact h

theorem populateTestJobResult_eq {group : TestGroup F} (h : group.Scored) (verdict : Verdict)
    (points : Option F) :
    ∃ populated, populateTestJobResult group verdict points = .ok populated := by
  unfold populateTestJobResult
  unfold TestGroup.Scored at h
  cases hs : group.scoringType with
  | other value => simp [hs] at h
  | complete | eachTest | min => cases points <;> exact ⟨_, rfl⟩

/-- The result with which a test is shown when its group is not marked. -/
def shownResult (test : Nat) (outcome : Outcome F) : TestResult F :=
  let result := outcome.testResult test
  if result.verdict = .SK then
    { result with
      verdict := .CF
      error := "invoker returned verdict SK, but no required test failed" }
  else result

omit [Zero F] in
theorem prevents_shownResult (group : TestGroup F) (test : Nat) (outcome : Outcome F) :
    prevents group (shownResult test outcome).verdict = prevents group outcome.verdict := by
  unfold shownResult
  by_cases h : outcome.verdict = .SK
  · simp [h, prevents_skipped]
  · simp [h]

/-- The stored outcome of test `test` prevents the group. -/
def PreventedBy (outs : Outcomes F) (group : TestGroup F) (test : Nat) : Prop :=
  group.Has test ∧ prevents group (storedOutcome group (outs.test test)).verdict = true

instance (outs : Outcomes F) (group : TestGroup F) (test : Nat) :
    Decidable (PreventedBy outs group test) :=
  inferInstanceAs (Decidable (_ ∧ _))

/-- The group of this name has a preventing test before test `k`. -/
def hasPreventing (problem : Problem F) (outs : Outcomes F) (k : Nat) (name : String) : Bool :=
  problem.testGroups.any fun group =>
    decide (group.name = name) && (List.range k).any fun p => decide (PreventedBy outs group p)

/-- The group of this name is marked when the tests before test `k` are completed. -/
def marks (problem : Problem F) (outs : Outcomes F) (k : Nat) (name : String) : Bool :=
  decide (outs.compile.verdict ≠ .CD) ||
    Closure.pass problem.nodes (hasPreventing problem outs k) name

variable {problem : Problem F} {outs : Outcomes F}

theorem hasPreventing_iff {k : Nat} {name : String} :
    hasPreventing problem outs k name = true ↔
      ∃ group ∈ problem.testGroups, group.name = name ∧ ∃ p < k, PreventedBy outs group p := by
  simp only [hasPreventing, List.any_eq_true, Bool.and_eq_true, decide_eq_true_eq, List.mem_range]

theorem marks_iff (ha : Accepted problem) {k : Nat} {name : String} :
    marks problem outs k name = true ↔ outs.compile.verdict ≠ .CD ∨
      ∃ group ∈ problem.testGroups, (∃ p < k, PreventedBy outs group p) ∧
        Closure.Leads problem.nodes group.name name := by
  rw [marks, Bool.or_eq_true, decide_eq_true_eq, Closure.pass_iff ha.nodes_sorted]
  simp only [hasPreventing_iff]
  refine or_congr_right ?_
  constructor
  · rintro ⟨b, ⟨group, hg, rfl, hp⟩, hl⟩
    exact ⟨group, hg, hp, hl⟩
  · rintro ⟨group, hg, hp, hl⟩
    exact ⟨group.name, ⟨group, hg, rfl, hp⟩, hl⟩

theorem marks_of_leads (ha : Accepted problem) {k : Nat} {name name' : String}
    (h : marks problem outs k name = true) (hl : Closure.Leads problem.nodes name name') :
    marks problem outs k name' = true := by
  rw [marks_iff ha] at h ⊢
  rcases h with h | ⟨group, hg, hp, hlead⟩
  · exact .inl h
  · exact .inr ⟨group, hg, hp, hlead.trans hl⟩

theorem marks_mono (ha : Accepted problem) {k k' : Nat} {name : String}
    (h : marks problem outs k name = true) (hk : k ≤ k') : marks problem outs k' name = true := by
  rw [marks_iff ha] at h ⊢
  rcases h with h | ⟨group, hg, ⟨p, hp, hprev⟩, hl⟩
  · exact .inl h
  · exact .inr ⟨group, hg, ⟨p, by omega, hprev⟩, hl⟩

/-- One more test adds the groups that it prevents. -/
theorem marks_succ (ha : Accepted problem) {group : TestGroup F} (hg : group ∈ problem.testGroups)
    {k : Nat} (hk : group.Has k) {name : String} :
    marks problem outs (k + 1) name = true ↔ marks problem outs k name = true ∨
      PreventedBy outs group k ∧ Closure.Leads problem.nodes group.name name := by
  constructor
  · intro h
    rw [marks_iff ha] at h
    rcases h with h | ⟨g, hmem, ⟨p, hp, hprev⟩, hl⟩
    · exact .inl ((marks_iff ha).2 (.inl h))
    · by_cases hpk : p = k
      · subst hpk
        obtain rfl := ha.eq_of_has hmem hg hprev.1 hk
        exact .inr ⟨hprev, hl⟩
      · exact .inl ((marks_iff ha).2 (.inr ⟨g, hmem, ⟨p, by omega, hprev⟩, hl⟩))
  · rintro (h | ⟨hprev, hl⟩)
    · exact marks_mono ha h (Nat.le_succ k)
    · exact (marks_iff ha).2 (.inr ⟨group, hg, ⟨k, Nat.lt_succ_self k, hprev⟩, hl⟩)

/-- The result with which test `test` is shown. -/
def shown (problem : Problem F) (outs : Outcomes F) (test : Nat) : TestResult F :=
  match problem.testGroups.find? fun group => decide (group.Has test) with
  | none => skippedResult test
  | some group =>
    if marks problem outs test group.name then skippedResult test
    else shownResult test (storedOutcome group (outs.test test))

theorem shown_eq (ha : Accepted problem) {group : TestGroup F} (hg : group ∈ problem.testGroups)
    {test : Nat} (ht : group.Has test) :
    shown problem outs test =
      if marks problem outs test group.name then skippedResult test
      else shownResult test (storedOutcome group (outs.test test)) := by
  unfold shown
  cases hf : problem.testGroups.find? fun group => decide (group.Has test) with
  | none =>
    have := List.find?_eq_none.1 hf group hg
    simp [ht] at this
  | some found =>
    have hmem := List.mem_of_find?_eq_some hf
    have hhas : found.Has test := by simpa using List.find?_some hf
    obtain rfl := ha.eq_of_has hmem hg hhas ht
    rfl

omit [Zero F] in
@[simp] theorem shownResult_testNumber (test : Nat) (outcome : Outcome F) :
    (shownResult test outcome).testNumber = test := by
  simp only [shownResult]
  split <;> rfl

end Outcomes

end TestingSystem.IOIGenerator
