import TestingSystem.Master.JobGenerators.IOIMarking

/-!
# Invariant of the IOI generator

`Jobs` ties the given jobs, the entries of the tests and the flags that stop the giving of jobs to an
assignment of outcomes. `Completed` says how far the results were processed: the marks are those of
`marks`, and the submission is `gradedSubmission`.

The flags that stop a group are set when a result arrives, the marks when the results before it are
complete. `Completed.stopped` is the link: a marked group is stopped, so no test is given after it
was shown as skipped. In the other direction `Jobs.stopped_cause` finds for every stopped group a
preventing test among the tests passed by `firstNotGivenTest`.
-/

set_option autoImplicit false

namespace TestingSystem.IOIGenerator

variable {F : Type}

/-- The entry of test `t`. -/
def getEntry (i : IOIGenerator F) (t : Nat) : Option (InternalTestResult F) :=
  i.internalTestResults[t - 1]?

/-- The tables of the problem. No call changes them. -/
structure Prepared (i : IOIGenerator F) : Prop where
  accepted : Accepted i.problem
  info : ∀ group ∈ i.problem.testGroups, i.groupNameToGroupInfo.get? group.name = some group
  names : ∀ group ∈ i.problem.testGroups, ∀ t, group.Has t → i.groupNameOfTest t = group.name
  total : Total i.problem.testGroups i.groupNameToInternalInfo
  length : i.internalTestResults.length = i.problem.testsNumber

variable [Zero F]

/-- The result that `testJobCompleted` stores for the outcome of test `t`. -/
def ownResult (group : TestGroup F) (outs : Outcomes F) (t : Nat) : TestResult F :=
  (storedOutcome group (outs.test t)).testResult t

/-- The possible entries of a test: it is not given, it is running, or it is finished with its own
result or, if its group is marked, with any. -/
inductive Entry (outs : Outcomes F) (i : IOIGenerator F) (group : TestGroup F) (t : Nat)
    (e : InternalTestResult F) : Prop where
  | notGiven (state : e.state = .testNotGiven) (le : i.firstNotGivenTest ≤ t)
  | running (state : e.state = .testRunning) (lt : t < i.firstNotGivenTest) (id : JobID) (job : Job)
      (given : i.givenJobs.get? id = some job) (test : job.test = t)
  | own (state : e.state = .testFinished) (lt : t < i.firstNotGivenTest)
      (result : e.result = ownResult group outs t)
      (stops : PreventedBy outs group t →
        stopFlag.of i.groupNameToInternalInfo group.name = true)
  | marked (state : e.state = .testFinished) (lt : t < i.firstNotGivenTest)
      (marked : marks i.problem outs t group.name = true)

/-- The jobs, the entries and the stopped groups agree with the assignment. -/
structure Jobs (outs : Outcomes F) (i : IOIGenerator F) : Prop where
  first_pos : 1 ≤ i.firstNotGivenTest
  first_le : i.firstNotGivenTest ≤ i.problem.testsNumber + 1
  given : ∀ id job, i.givenJobs.get? id = some job →
    job.type = .testJob ∧ 1 ≤ job.test ∧ job.test < i.firstNotGivenTest ∧
      ∃ e, i.getEntry job.test = some e ∧ e.state = .testRunning
  given_inj : ∀ id id' job job', i.givenJobs.get? id = some job →
    i.givenJobs.get? id' = some job' → job.test = job'.test → id = id'
  entries : ∀ group ∈ i.problem.testGroups, ∀ t, group.Has t →
    ∃ e, i.getEntry t = some e ∧ e.result.testNumber = t ∧ Entry outs i group t e
  closed : ∀ group ∈ i.problem.testGroups, ∀ name ∈ group.requiredGroupNames,
    stopFlag.of i.groupNameToInternalInfo name = true →
      stopFlag.of i.groupNameToInternalInfo group.name = true
  cause : ∀ group ∈ i.problem.testGroups,
    stopFlag.of i.groupNameToInternalInfo group.name = true →
      ∃ g ∈ i.problem.testGroups, (∃ p < i.firstNotGivenTest, PreventedBy outs g p) ∧
        Closure.Leads i.problem.nodes g.name group.name

/-- What is known of the completed tests, apart from the submission. -/
structure Processed (outs : Outcomes F) (i : IOIGenerator F) : Prop where
  pos : 1 ≤ i.firstNotCompletedTest
  le : i.firstNotCompletedTest ≤ i.problem.testsNumber + 1
  notRunning : ∀ t e, 1 ≤ t → t < i.firstNotCompletedTest → i.getEntry t = some e →
    e.state ≠ .testRunning
  skipped : ∀ group ∈ i.problem.testGroups, ∀ t, group.Has t → t < i.firstNotCompletedTest →
    i.firstNotGivenTest ≤ t → marks i.problem outs t group.name = true
  flags : ∀ group ∈ i.problem.testGroups,
    markFlag.of i.groupNameToInternalInfo group.name =
      marks i.problem outs i.firstNotCompletedTest group.name

variable {outs : Outcomes F} {i : IOIGenerator F}

/-- A stopped group stops the groups it leads to. -/
theorem Jobs.closed_leads (h : Jobs outs i) {name name' : String}
    (hs : stopFlag.of i.groupNameToInternalInfo name = true)
    (hl : Closure.Leads i.problem.nodes name name') :
    stopFlag.of i.groupNameToInternalInfo name' = true := by
  induction hl with
  | refl => exact hs
  | tail _ hedge ih =>
    obtain ⟨names, hmem, hn⟩ := hedge
    obtain ⟨group, hg, heq⟩ := List.mem_map.1 hmem
    obtain ⟨rfl, rfl⟩ := Prod.mk.inj heq
    exact h.closed group hg _ hn ih

/-- A stopped group is marked by the tests before `firstNotGivenTest`. -/
theorem Jobs.marks_of_stopped (hp : Prepared i) (h : Jobs outs i) {group : TestGroup F}
    (hg : group ∈ i.problem.testGroups)
    (hs : stopFlag.of i.groupNameToInternalInfo group.name = true) :
    marks i.problem outs i.firstNotGivenTest group.name = true :=
  (marks_iff hp.accepted).2 (.inr (h.cause group hg hs))

/-- A preventing test that is completed has stopped its group. -/
theorem Processed.stopped_of_prevented (hp : Prepared i) (hj : Jobs outs i) (h : Processed outs i)
    (hcd : outs.compile.verdict = .CD) {group : TestGroup F} (hg : group ∈ i.problem.testGroups)
    {p : Nat} (hlt : p < i.firstNotCompletedTest) (hprev : PreventedBy outs group p) :
    stopFlag.of i.groupNameToInternalInfo group.name = true := by
  induction p using Nat.strong_induction_on generalizing group with
  | _ p ih =>
    -- A test of a marked group comes after the preventing test of the mark.
    have hmarked : marks i.problem outs p group.name = true →
        stopFlag.of i.groupNameToInternalInfo group.name = true := by
      intro hm
      rcases (marks_iff hp.accepted).1 hm with hne | ⟨g, hmem, ⟨q, hq, hqprev⟩, hl⟩
      · exact absurd hcd hne
      · exact hj.closed_leads (ih q hq hmem (by omega) hqprev) hl
    obtain ⟨e, he, -, hentry⟩ := hj.entries group hg p hprev.1
    cases hentry with
    | notGiven state le => exact hmarked (h.skipped group hg p hprev.1 hlt le)
    | running state =>
      exact absurd state (h.notRunning p e (hp.accepted.has_bounds hg hprev.1).1 hlt he)
    | own state lt result stops => exact stops hprev
    | marked state lt marked => exact hmarked marked

/-- A marked group is stopped. -/
theorem Processed.stopped (hp : Prepared i) (hj : Jobs outs i) (h : Processed outs i)
    (hcd : outs.compile.verdict = .CD) {name : String} {k : Nat} (hk : k ≤ i.firstNotCompletedTest)
    (hm : marks i.problem outs k name = true) :
    stopFlag.of i.groupNameToInternalInfo name = true := by
  rcases (marks_iff hp.accepted).1 hm with hne | ⟨g, hmem, ⟨p, hlt, hprev⟩, hl⟩
  · exact absurd hcd hne
  · exact hj.closed_leads (h.stopped_of_prevented hp hj hcd hmem (by omega) hprev) hl

/-! ## Giving a test -/

/-- The generator with another entry for test `t`. -/
def withEntry (i : IOIGenerator F) (t : Nat) (e : InternalTestResult F) : IOIGenerator F :=
  { i with internalTestResults := i.internalTestResults.set (t - 1) e }

omit [Zero F] in
theorem getEntry_withEntry {e old : InternalTestResult F} {t : Nat} (h : i.getEntry t = some old)
    (ht : 1 ≤ t) {t' : Nat} (ht' : 1 ≤ t') :
    (i.withEntry t e).getEntry t' = if t' = t then some e else i.getEntry t' := by
  obtain ⟨hlen, -⟩ := List.getElem?_eq_some_iff.1 h
  simp only [getEntry, withEntry, List.getElem?_set]
  by_cases heq : t' = t
  · simp [heq, hlen]
  · have hne : ¬ t - 1 = t' - 1 := by omega
    simp [heq, hne]

omit [Zero F] in
theorem Prepared.withEntry (h : Prepared i) (t : Nat) (e : InternalTestResult F) :
    Prepared (i.withEntry t e) :=
  ⟨h.accepted, h.info, h.names, h.total, by simp [IOIGenerator.withEntry, h.length]⟩

/-- The next test is passed over because its group is stopped. -/
def skipTest (i : IOIGenerator F) (e : InternalTestResult F) : IOIGenerator F :=
  { i.withEntry i.firstNotGivenTest { e with state := .testFinished } with
    firstNotGivenTest := i.firstNotGivenTest + 1 }

/-- The next test is given as `job`. -/
def giveTest (i : IOIGenerator F) (e : InternalTestResult F) (job : Job) : IOIGenerator F :=
  { i.withEntry i.firstNotGivenTest { e with state := .testRunning } with
    givenJobs := i.givenJobs.set job.id job
    firstNotGivenTest := i.firstNotGivenTest + 1 }

/-- The entry of another test stays possible when more tests were passed. -/
theorem Entry.pass {i' : IOIGenerator F} {group : TestGroup F} {t : Nat}
    {e : InternalTestResult F} (h : Entry outs i group t e) (hproblem : i'.problem = i.problem)
    (hinfos : i'.groupNameToInternalInfo = i.groupNameToInternalInfo)
    (hfirst : i'.firstNotGivenTest = i.firstNotGivenTest + 1) (ht : t ≠ i.firstNotGivenTest)
    (hgiven : ∀ id job, i.givenJobs.get? id = some job → i'.givenJobs.get? id = some job) :
    Entry outs i' group t e := by
  cases h with
  | notGiven state le => exact .notGiven state (by omega)
  | running state lt id job given test => exact .running state (by omega) id job (hgiven _ _ given) test
  | own state lt result stops => exact .own state (by omega) result (by rwa [hinfos])
  | marked state lt marked => exact .marked state (by omega) (by rwa [hproblem])

theorem Jobs.skip (hp : Prepared i) (h : Jobs outs i) {group : TestGroup F}
    (hg : group ∈ i.problem.testGroups) (hhas : group.Has i.firstNotGivenTest)
    (hs : stopFlag.of i.groupNameToInternalInfo group.name = true) {e : InternalTestResult F}
    (he : i.getEntry i.firstNotGivenTest = some e) : Jobs outs (i.skipTest e) := by
  have hb := hp.accepted.has_bounds hg hhas
  have hentry : ∀ t, 1 ≤ t → (i.skipTest e).getEntry t =
      if t = i.firstNotGivenTest then some { e with state := .testFinished } else i.getEntry t :=
    fun t ht => getEntry_withEntry he hb.1 ht
  refine ⟨?_, ?_, ?_, h.given_inj, ?_, h.closed, ?_⟩
  · exact Nat.le_add_left 1 _
  · exact Nat.succ_le_succ hb.2
  · intro id job hget
    obtain ⟨htype, hpos, hlt, e', he', hrun⟩ := h.given id job hget
    refine ⟨htype, hpos, Nat.lt_succ_of_lt hlt, e', ?_, hrun⟩
    rw [hentry _ hpos, if_neg (by omega), he']
  · intro g hmem t ht
    have htb := hp.accepted.has_bounds hmem ht
    obtain ⟨e', he', hnum, hold⟩ := h.entries g hmem t ht
    rw [hentry t htb.1]
    by_cases heq : t = i.firstNotGivenTest
    · subst heq
      obtain rfl := hp.accepted.eq_of_has hmem hg ht hhas
      rw [he] at he'
      cases he'
      refine ⟨_, if_pos rfl, hnum, .marked rfl (Nat.lt_succ_self _) ?_⟩
      exact h.marks_of_stopped hp hmem hs
    · rw [if_neg heq]
      exact ⟨e', he', hnum, hold.pass rfl rfl rfl heq fun _ _ hget => hget⟩
  · intro g hmem hstop
    obtain ⟨g', hg', ⟨p, hlt, hprev⟩, hl⟩ := h.cause g hmem hstop
    exact ⟨g', hg', ⟨p, Nat.lt_succ_of_lt hlt, hprev⟩, hl⟩

theorem Jobs.give (hp : Prepared i) (h : Jobs outs i) {group : TestGroup F}
    (hg : group ∈ i.problem.testGroups) (hhas : group.Has i.firstNotGivenTest)
    {e : InternalTestResult F} (he : i.getEntry i.firstNotGivenTest = some e) {job : Job}
    (hid : i.givenJobs.get? job.id = none) (htype : job.type = .testJob)
    (htest : job.test = i.firstNotGivenTest) : Jobs outs (i.giveTest e job) := by
  have hb := hp.accepted.has_bounds hg hhas
  have hentry : ∀ t, 1 ≤ t → (i.giveTest e job).getEntry t =
      if t = i.firstNotGivenTest then some { e with state := .testRunning } else i.getEntry t :=
    fun t ht => getEntry_withEntry he hb.1 ht
  have hgiven : ∀ id' job', (i.giveTest e job).givenJobs.get? id' = some job' ↔
      id' = job.id ∧ job' = job ∨ i.givenJobs.get? id' = some job' := by
    intro id' job'
    change (i.givenJobs.set job.id job).get? id' = some job' ↔ _
    rw [GoMap.get?_set]
    by_cases heq : id' = job.id
    · subst heq
      simp [hid, eq_comm]
    · simp [heq]
  refine ⟨?_, ?_, ?_, ?_, ?_, h.closed, ?_⟩
  · exact Nat.le_add_left 1 _
  · exact Nat.succ_le_succ hb.2
  · intro id' job' hget
    rcases (hgiven id' job').1 hget with ⟨rfl, rfl⟩ | hold
    · refine ⟨htype, htest ▸ hb.1, htest ▸ Nat.lt_succ_self _,
        { e with state := .testRunning }, ?_, rfl⟩
      rw [hentry _ (htest ▸ hb.1), if_pos htest]
    · obtain ⟨htype', hpos, hlt, e', he', hrun⟩ := h.given id' job' hold
      refine ⟨htype', hpos, Nat.lt_succ_of_lt hlt, e', ?_, hrun⟩
      rw [hentry _ hpos, if_neg (by omega), he']
  · intro id₁ id₂ job₁ job₂ h₁ h₂ heq
    rcases (hgiven _ _).1 h₁ with ⟨rfl, rfl⟩ | hold₁ <;>
      rcases (hgiven _ _).1 h₂ with ⟨rfl, rfl⟩ | hold₂
    · rfl
    · have := (h.given id₂ job₂ hold₂).2.2.1
      omega
    · have := (h.given id₁ job₁ hold₁).2.2.1
      omega
    · exact h.given_inj _ _ _ _ hold₁ hold₂ heq
  · intro g hmem t ht
    have htb := hp.accepted.has_bounds hmem ht
    obtain ⟨e', he', hnum, hold⟩ := h.entries g hmem t ht
    rw [hentry t htb.1]
    by_cases heq : t = i.firstNotGivenTest
    · subst heq
      rw [he] at he'
      cases he'
      exact ⟨_, if_pos rfl, hnum, .running rfl (Nat.lt_succ_self _) job.id job
        ((hgiven _ _).2 (.inl ⟨rfl, rfl⟩)) htest⟩
    · rw [if_neg heq]
      exact ⟨e', he', hnum, hold.pass rfl rfl rfl heq fun _ _ hget => (hgiven _ _).2 (.inr hget)⟩
  · intro g hmem hstop
    obtain ⟨g', hg', ⟨p, hlt, hprev⟩, hl⟩ := h.cause g hmem hstop
    exact ⟨g', hg', ⟨p, Nat.lt_succ_of_lt hlt, hprev⟩, hl⟩

/-- Passing a test that is not completed keeps the facts about the completed tests. -/
theorem Processed.pass (h : Processed outs i) {i' : IOIGenerator F}
    (hproblem : i'.problem = i.problem)
    (hinfos : i'.groupNameToInternalInfo = i.groupNameToInternalInfo)
    (hcompleted : i'.firstNotCompletedTest = i.firstNotCompletedTest)
    (hfirst : i'.firstNotGivenTest = i.firstNotGivenTest + 1) {e : InternalTestResult F}
    (hentry : ∀ t, 1 ≤ t → i'.getEntry t =
      if t = i.firstNotGivenTest then some e else i.getEntry t)
    (he : i.firstNotGivenTest < i.firstNotCompletedTest → e.state ≠ .testRunning) :
    Processed outs i' := by
  refine ⟨?_, ?_, ?_, ?_, ?_⟩
  · rw [hcompleted]
    exact h.pos
  · rw [hcompleted, hproblem]
    exact h.le
  · intro t e' h1 hlt he'
    rw [hcompleted] at hlt
    rw [hentry t h1] at he'
    split at he'
    · next heq =>
      cases he'
      exact he (heq ▸ hlt)
    · exact h.notRunning t e' h1 hlt he'
  · intro group hg t ht hlt hle
    rw [hproblem] at hg ⊢
    exact h.skipped group hg t ht (hcompleted ▸ hlt) (by omega)
  · intro group hg
    rw [hproblem] at hg
    rw [hproblem, hinfos, hcompleted]
    exact h.flags group hg

/-- The next test to complete is running, or it is not given and its group is not marked. -/
def Waiting (outs : Outcomes F) (i : IOIGenerator F) : Prop :=
  i.firstNotCompletedTest ≤ i.problem.testsNumber ∧
    ((∃ id job, i.givenJobs.get? id = some job ∧ job.test = i.firstNotCompletedTest) ∨
      i.firstNotGivenTest ≤ i.firstNotCompletedTest ∧
        ∃ group ∈ i.problem.testGroups, group.Has i.firstNotCompletedTest ∧
          marks i.problem outs i.firstNotCompletedTest group.name = false)

/-- A test of the group depends on test `p`: the job of `p` is among its `RequiredJobIDs`. -/
def Depends (problem : Problem F) (group : TestGroup F) (p : Nat) : Prop :=
  ∃ g ∈ problem.testGroups, g.Has p ∧
    (g = group ∧ group.scoringType ≠ .eachTest ∨ g.name ∈ group.requiredGroupNames)

omit [Zero F] in
theorem doesGroupDependOnJob_eq (hp : Prepared i) {group : TestGroup F}
    (hg : group ∈ i.problem.testGroups) {job : Job} (h1 : 1 ≤ job.test)
    (h2 : job.test ≤ i.problem.testsNumber) :
    ∃ b, i.doesGroupDependOnJob group.name job = .ok b ∧
      (b = true ↔ Depends i.problem group job.test) := by
  obtain ⟨g, hmem, hhas⟩ := hp.accepted.exists_group h1 h2
  have hiff : Depends i.problem group job.test ↔
      g.name = group.name ∧ group.scoringType ≠ .eachTest ∨ g.name ∈ group.requiredGroupNames := by
    constructor
    · rintro ⟨g', hmem', hhas', hd⟩
      obtain rfl := hp.accepted.eq_of_has hmem hmem' hhas hhas'
      exact hd.imp_left fun hd => ⟨congrArg _ hd.1, hd.2⟩
    · exact fun hd => ⟨g, hmem, hhas,
        hd.imp_left fun hd => ⟨hp.accepted.eq_of_name hmem hg hd.1, hd.2⟩⟩
  simp only [doesGroupDependOnJob, hp.info group hg, deref_some, ok_bind,
    hp.names g hmem job.test hhas, hiff]
  by_cases hself : g.name = group.name ∧ group.scoringType ≠ .eachTest
  · exact ⟨true, by rw [if_pos hself]; rfl, by simp [hself]⟩
  · exact ⟨_, by rw [if_neg hself]; rfl, by simp [hself]⟩

omit [Zero F] in
theorem requiredJobIDs_eq (hp : Prepared i) {group : TestGroup F}
    (hg : group ∈ i.problem.testGroups) {jobs : List (JobID × Job)}
    (hjobs : ∀ entry ∈ jobs, 1 ≤ entry.2.test ∧ entry.2.test ≤ i.problem.testsNumber) :
    ∃ ids, i.requiredJobIDs group.name jobs = .ok ids ∧
      ∀ id, id ∈ ids ↔ ∃ job, (id, job) ∈ jobs ∧ Depends i.problem group job.test := by
  induction jobs with
  | nil => exact ⟨[], rfl, by simp⟩
  | cons head jobs ih =>
    obtain ⟨id, job⟩ := head
    obtain ⟨ids, he, hids⟩ := ih fun entry hmem => hjobs entry (List.mem_cons_of_mem _ hmem)
    obtain ⟨h1, h2⟩ := hjobs _ List.mem_cons_self
    obtain ⟨b, hb, hdep⟩ := doesGroupDependOnJob_eq hp hg h1 h2
    refine ⟨if b then id :: ids else ids, by simp [requiredJobIDs, hb, he, pure, Except.pure], ?_⟩
    intro id'
    have hsplit : (∃ job', (id', job') ∈ (id, job) :: jobs ∧ Depends i.problem group job'.test) ↔
        id' = id ∧ Depends i.problem group job.test ∨
          ∃ job', (id', job') ∈ jobs ∧ Depends i.problem group job'.test := by
      simp only [List.mem_cons, Prod.mk.injEq, or_and_right, exists_or, and_assoc]
      refine or_congr_left ?_
      constructor
      · rintro ⟨job', rfl, rfl, hd⟩
        exact ⟨rfl, hd⟩
      · rintro ⟨rfl, hd⟩
        exact ⟨job, rfl, rfl, hd⟩
    rw [hsplit, ← hids, ← hdep]
    cases b <;> simp

end TestingSystem.IOIGenerator
