import TestingSystem.Master.JobGenerators.Generator

/-!
# The jobs that a new job requires

A generator fills `RequiredJobIDs` of a new job with the IDs of the given jobs that the new one depends
on: all of them for ICPC, those that `doesGroupDependOnJob` names for IOI. The IDs are the keys of
`givenJobs`, so they are the ones that the jobs were created with.
-/

set_option autoImplicit false

namespace TestingSystem

namespace IOIGenerator

variable {F : Type} {i i' : IOIGenerator F}

/-- The tables that `doesGroupDependOnJob` reads are the same. -/
theorem doesGroupDependOnJob_congr (hinfo : i'.groupNameToGroupInfo = i.groupNameToGroupInfo)
    (hnames : i'.testNumberToGroupName = i.testNumberToGroupName) :
    i'.groupNameOfTest = i.groupNameOfTest ∧ i'.doesGroupDependOnJob = i.doesGroupDependOnJob := by
  have hname : i'.groupNameOfTest = i.groupNameOfTest := by
    funext test
    rw [groupNameOfTest, groupNameOfTest, hnames]
  refine ⟨hname, ?_⟩
  funext groupName job
  rw [doesGroupDependOnJob, doesGroupDependOnJob, hinfo, hname]

theorem mem_requiredJobIDs {groupName : String} {jobs : List (JobID × Job)} {ids : List JobID}
    (he : i.requiredJobIDs groupName jobs = .ok ids) (id : JobID) :
    id ∈ ids ↔ ∃ job, (id, job) ∈ jobs ∧ i.doesGroupDependOnJob groupName job = .ok true := by
  induction jobs generalizing ids with
  | nil =>
    cases he
    exact ⟨fun hmem => (nomatch hmem), fun ⟨_, hmem, _⟩ => (nomatch hmem)⟩
  | cons entry jobs ih =>
    obtain ⟨givenJobID, testingJob⟩ := entry
    obtain ⟨depends, hdepends, he⟩ := bind_eq_ok.1 he
    obtain ⟨rest, hrest, he⟩ := bind_eq_ok.1 he
    cases he
    have htail := ih hrest
    have hhead : (∃ job, (id, job) ∈ (givenJobID, testingJob) :: jobs ∧
        i.doesGroupDependOnJob groupName job = .ok true) ↔
        id = givenJobID ∧ depends = true ∨ id ∈ rest := by
      rw [htail]
      constructor
      · rintro ⟨job, hmem, hjob⟩
        rcases List.mem_cons.1 hmem with heq | hold
        · obtain ⟨rfl, rfl⟩ := Prod.mk.inj heq
          exact .inl ⟨rfl, Except.ok.inj (hdepends.symm.trans hjob)⟩
        · exact .inr ⟨job, hold, hjob⟩
      · rintro (⟨rfl, rfl⟩ | ⟨job, hold, hjob⟩)
        · exact ⟨testingJob, List.mem_cons_self, hdepends⟩
        · exact ⟨job, List.mem_cons_of_mem _ hold, hjob⟩
    rw [hhead]
    cases depends with
    | true => simp
    | false => simp

/-- The loop of `NextJob` changes none of the tables that `doesGroupDependOnJob` reads. -/
theorem setTestState_tables {test : Nat} {state : InternalTestState}
    (he : i.setTestState test state = .ok i') :
    i'.groupNameToGroupInfo = i.groupNameToGroupInfo ∧
      i'.testNumberToGroupName = i.testNumberToGroupName ∧ i'.givenJobs = i.givenJobs := by
  obtain ⟨entry, -, he⟩ := bind_eq_ok.1 he
  cases he
  exact ⟨rfl, rfl, rfl⟩

theorem nextTestLoop_required {id : JobID} {turns : Nat} {job : Job}
    (he : nextTestLoop id turns i = .ok (some job, i')) (id' : JobID) :
    id' ∈ job.requiredJobIDs ↔ ∃ given, i.givenJobs.get? id' = some given ∧
      i.doesGroupDependOnJob (i.groupNameOfTest job.test) given = .ok true := by
  induction turns generalizing i with
  | zero => cases he
  | succ turns ih =>
    obtain ⟨info, -, he⟩ := bind_eq_ok.1 he
    split at he
    · obtain ⟨i₁, hstate, he⟩ := bind_eq_ok.1 he
      obtain ⟨hinfo, hnames, hgiven⟩ := setTestState_tables hstate
      let i₂ : IOIGenerator F := { i₁ with firstNotGivenTest := i.firstNotGivenTest + 1 }
      have hrest := ih (i := i₂) he
      obtain ⟨hname, hdepends⟩ : i₂.groupNameOfTest = i.groupNameOfTest ∧
          i₂.doesGroupDependOnJob = i.doesGroupDependOnJob := doesGroupDependOnJob_congr hinfo hnames
      rw [hname, hdepends, show i₂.givenJobs = i.givenJobs from hgiven] at hrest
      exact hrest
    · obtain ⟨i₁, hstate, he⟩ := bind_eq_ok.1 he
      obtain ⟨hinfo, hnames, hgiven⟩ := setTestState_tables hstate
      obtain ⟨ids, hids, he⟩ := bind_eq_ok.1 he
      cases he
      rw [mem_requiredJobIDs hids id', (doesGroupDependOnJob_congr hinfo hnames).2, hgiven]
      exact exists_congr fun given => and_congr_left' (GoMap.mem_entries_iff _ _ _)

end IOIGenerator

namespace Generator

variable {F : Type}

/-- The new job `job` depends on the job `given`: on any in ICPC, and as `doesGroupDependOnJob` says in
IOI. -/
def DependsOn (g : Generator F) (job given : Job) : Prop :=
  match g with
  | .icpc _ => True
  | .ioi i => i.doesGroupDependOnJob (i.groupNameOfTest job.test) given = .ok true

end Generator

section Required

variable {F : Type} [Add F] [Min F] [Zero F] [One F] {outs : Outcomes F} {sub : Submission F}

omit [Add F] [Min F] [Zero F] in
theorem ICPCGenerator.Good.given_notStarted {i : ICPCGenerator F} (h : i.Good outs sub)
    (hstate : i.state = .compilationNotStarted) (id : JobID) : i.givenJobs.get? id = none := by
  cases h with
  | notStarted _ _ given => exact given id
  | compiling state => exact GeneratorState.noConfusion (hstate.symm.trans state)
  | testing state => exact GeneratorState.noConfusion (hstate.symm.trans state)
  | done state => exact GeneratorState.noConfusion (hstate.symm.trans state)

omit [One F] in
theorem IOIGenerator.Good.given_notStarted {i : IOIGenerator F} (h : i.Good outs sub)
    (hstate : i.state = .compilationNotStarted) (id : JobID) : i.givenJobs.get? id = none := by
  cases h with
  | notStarted _ _ given => exact given id
  | compiling state => exact GeneratorState.noConfusion (hstate.symm.trans state)
  | testing state => exact GeneratorState.noConfusion (hstate.symm.trans state)
  | done state => exact GeneratorState.noConfusion (hstate.symm.trans state)
  | failed state => exact GeneratorState.noConfusion (hstate.symm.trans state)

omit [Add F] [Min F] [Zero F] in
theorem ICPCGenerator.Good.required {i i' : ICPCGenerator F} (h : i.Good outs sub) {id : JobID}
    {job : Job} (he : i.nextJob id = (some job, i')) (id' : JobID) :
    id' ∈ job.requiredJobIDs ↔ ∃ given, i.givenJobs.get? id' = some given := by
  unfold ICPCGenerator.nextJob at he
  split at he
  · cases he
  · split at he
    · next hstate =>
      cases he
      refine iff_of_false List.not_mem_nil ?_
      rintro ⟨given, hget⟩
      rw [h.given_notStarted hstate] at hget
      cases hget
    · split at he
      · cases he
      · cases he
        exact GoMap.mem_keys_iff _ _

omit [One F] in
theorem IOIGenerator.Good.required {i i' : IOIGenerator F} (h : i.Good outs sub) {id : JobID}
    {job : Job} (he : i.nextJob id = .ok (some job, i')) (id' : JobID) :
    id' ∈ job.requiredJobIDs ↔ ∃ given, i.givenJobs.get? id' = some given ∧
      i.doesGroupDependOnJob (i.groupNameOfTest job.test) given = .ok true := by
  unfold IOIGenerator.nextJob at he
  split at he
  · cases he
  · split at he
    · cases he
    · split at he
      · next hstate =>
        cases he
        refine iff_of_false List.not_mem_nil ?_
        rintro ⟨given, hget, -⟩
        rw [h.given_notStarted hstate] at hget
        cases hget
      · exact IOIGenerator.nextTestLoop_required he id'

/-- A new job requires the given jobs that it depends on. -/
theorem Generator.Good.required {g g' : Generator F} (h : g.Good outs sub) {id : JobID} {job : Job}
    (he : g.nextJob id = .ok (some job, g')) (id' : JobID) :
    id' ∈ job.requiredJobIDs ↔ ∃ given, g.givenJobs.get? id' = some given ∧ g.DependsOn job given := by
  cases g with
  | icpc i =>
    have hgood : i.Good outs sub := h
    obtain ⟨hjob, -⟩ := Prod.mk.inj (Except.ok.inj he)
    rw [hgood.required (show i.nextJob id = (some job, (i.nextJob id).2) by rw [← hjob])]
    exact exists_congr fun given => (and_iff_left trivial).symm
  | ioi i =>
    have hgood : i.Good outs sub := h
    obtain ⟨⟨next, i'⟩, hnext, he⟩ := bind_eq_ok.1 he
    cases he
    exact hgood.required hnext id'

end Required

end TestingSystem
