import TestingSystem.Master.JobGenerators.IOIGrade
import TestingSystem.Master.JobGenerators.ResultEvents
import TestingSystem.Master.JobGenerators.ResultLists

/-!
# Snapshots of a submission

`QueueStatus.UpdateSubmission` copies a submission without its arrays and the objects behind its pointers,
and the generator goes on with them. A run is observed here together with the memory of its results and the
copies made so far. Every list of results is the beginning of the later ones, and a copy shows for ever what
the submission was when it was made (`results_never_retracted`).
-/

set_option autoImplicit false

namespace TestingSystem

/-! ## The statements of a call -/

namespace Generator

variable {F : Type}

/-- The statements of `NewGenerator`. -/
def newEvents : Generator F → List (ResultEvent F)
  | .icpc _ => []
  | .ioi i => IOIGenerator.placeholderEvents 0 i.internalTestResults

/-- The statements of `JobCompleted`. -/
def resultEvents [Add F] [Min F] [Zero F] (result : InvokerJobResult F) :
    Generator F → Except Panic (List (ResultEvent F))
  | .icpc i => i.resultEvents result
  | .ioi i => i.resultEvents result

/-- The memory holds the results of the generator. -/
def Held (m : ResultMemory F) : Generator F → Prop
  | .icpc i => i.Held m
  | .ioi i => i.Held m

variable {g g' : Generator F} {m : ResultMemory F}

theorem Held.sound (h : g.Held m) : m.Sound := by
  cases g with
  | icpc i => exact ResultMemory.Holds.sound h
  | ioi i => exact h.holds.sound

/-- The slices of the submission show its lists. -/
theorem Held.shows (h : g.Held m) :
    m.Shows m.current g.submission.testResults g.submission.groupResults := by
  have hshows := h.sound.shows_current
  cases g with
  | icpc i =>
    rw [ResultMemory.Holds.tests h, ResultMemory.Holds.groups h] at hshows
    exact hshows
  | ioi i =>
    rw [h.holds.tests, h.holds.groups] at hshows
    exact hshows

theorem new_held {id : GeneratorID} {problem : Problem F} {sub : Submission F}
    (h : new id problem sub = .ok g) (htests : sub.testResults = []) (hgroups : sub.groupResults = [])
    (testCapacity groupCapacity : Nat) (growth : Growth) :
    g.Held ((ResultMemory.empty testCapacity groupCapacity).applyAll growth g.newEvents) := by
  have hempty : ∀ next, (ResultMemory.empty testCapacity groupCapacity).Holds sub.testResults
      sub.groupResults (fun _ => none) next := by
    intro next
    rw [htests, hgroups]
    exact ⟨ResultMemory.sound_empty _ _, rfl, rfl, fun _ _ => rfl⟩
  unfold new at h
  split at h
  · obtain ⟨i, hi, h⟩ := bind_eq_ok.1 h
    cases h
    unfold ICPCGenerator.new at hi
    split at hi
    · cases hi
    · cases hi
      exact hempty 1
  · obtain ⟨i, hi, h⟩ := bind_eq_ok.1 h
    cases h
    obtain ⟨-, -, -, -, hsub, -, -, hfirst, -⟩ := IOIGenerator.new_ok hi
    refine ⟨Nat.le_of_eq hfirst.symm, ?_⟩
    rw [hsub, hfirst]
    exact IOIGenerator.placeholderEvents_held [] growth (hempty 0)
  · cases h

theorem nextJob_held {id : JobID} {job : Option Job} (hg : g.nextJob id = .ok (job, g'))
    (h : g.Held m) : g'.Held m := by
  cases g with
  | icpc i =>
    cases hg
    exact ICPCGenerator.nextJob_held h id
  | ioi i =>
    obtain ⟨⟨job', i'⟩, hi, hg⟩ := bind_eq_ok.1 hg
    cases hg
    exact IOIGenerator.Held.same h (IOIGenerator.nextJob_sameResults hi)

theorem jobCompleted_held [Add F] [Min F] [Zero F] [One F] {result : InvokerJobResult F}
    {c : Completed (Generator F) F} (hc : g.jobCompleted result = .ok c) :
    (∃ events, g.resultEvents result = .ok events ∧
      ∀ growth m, g.Held m → c.generator.Held (m.applyAll growth events)) ∧
      ∀ s, c.published = some s → s = c.generator.submission := by
  cases g with
  | icpc i =>
    obtain ⟨c', hc', hc⟩ := bind_eq_ok.1 hc
    cases hc
    exact ICPCGenerator.jobCompleted_held hc'
  | ioi i =>
    obtain ⟨c', hc', hc⟩ := bind_eq_ok.1 hc
    cases hc
    exact IOIGenerator.jobCompleted_held hc'

end Generator

/-! ## Runs with their memory -/

/-- A run with the memory of its results, and the copies that `UpdateSubmission` made, each with the
submission that it was called with. -/
structure StoredRun (F : Type) where
  run : GeneratorRun F
  memory : ResultMemory F
  snapshots : List (SubmissionCopy × Submission F)

namespace StoredRun

variable {F : Type} [Add F] [Min F] [Zero F] [One F]

def submission (s : StoredRun F) : Submission F := s.run.generator.submission

def exec (growth : Growth) (s : StoredRun F) : Call F → Except Panic (StoredRun F)
  | .nextJob id => do
    let run ← s.run.exec (.nextJob id)
    return { s with run := run }
  | .jobCompleted result => do
    let run ← s.run.exec (.jobCompleted result)
    let c ← s.run.generator.jobCompleted result
    let events ← s.run.generator.resultEvents result
    let memory := s.memory.applyAll growth events
    match c.published with
    | none => return { s with run := run, memory := memory }
    | some submission =>
      let (submissionCopy, memory) := memory.updateSubmission
      return { run, memory, snapshots := s.snapshots ++ [(submissionCopy, submission)] }

/-- The runs of the generators of a problem and a submission without results. The empty slices of the
submission may have any capacity. -/
def machine (growth : Growth) (problem : Problem F) (sub : Submission F) :
    Machine (StoredRun F) (Call F) Panic where
  init s := ∃ run testCapacity groupCapacity, (GeneratorRun.machine problem sub).init run ∧
    s = ⟨run, (ResultMemory.empty testCapacity groupCapacity).applyAll growth run.generator.newEvents,
      []⟩
  enabled s := s.run.enabled
  exec := exec growth

/-- What the generator has shown agrees with the memory. -/
structure Coherent (s : StoredRun F) : Prop where
  held : s.run.generator.Held s.memory
  snapshots : ∀ copy sub, (copy, sub) ∈ s.snapshots →
    s.memory.Shows copy sub.testResults sub.groupResults

/-- What a later state keeps of an earlier one. -/
structure Keeps (s t : StoredRun F) : Prop where
  memory : ResultMemory.Extends s.memory t.memory
  snapshots : s.snapshots <+: t.snapshots

variable {growth : Growth} {problem : Problem F} {sub : Submission F} {s t u : StoredRun F}

omit [Add F] [Min F] [Zero F] [One F] in
theorem Keeps.trans (h : Keeps s t) (h' : Keeps t u) (hs : s.Coherent) : Keeps s u :=
  ⟨h.memory.trans h'.memory hs.held.sound, h.snapshots.trans h'.snapshots⟩

/-- A step keeps what is shown, and its run does the same step. -/
theorem Coherent.exec (h : s.Coherent) {call : Call F} (he : s.exec growth call = .ok t) :
    t.Coherent ∧ Keeps s t ∧ s.run.exec call = .ok t.run := by
  cases call with
  | nextJob id =>
    obtain ⟨run, hrun, he⟩ := bind_eq_ok.1 he
    cases he
    refine ⟨⟨?_, h.snapshots⟩, ⟨.refl _, List.prefix_refl _⟩, hrun⟩
    obtain ⟨⟨job, g⟩, hg, hrun⟩ := bind_eq_ok.1 hrun
    cases hrun
    exact Generator.nextJob_held hg h.held
  | jobCompleted result =>
    obtain ⟨run, hrun, he⟩ := bind_eq_ok.1 he
    obtain ⟨c, hc, he⟩ := bind_eq_ok.1 he
    obtain ⟨events, hevents, he⟩ := bind_eq_ok.1 he
    obtain ⟨⟨events', hevents', hheld⟩, hpublished⟩ := Generator.jobCompleted_held hc
    obtain rfl : events' = events := Except.ok.inj (hevents'.symm.trans hevents)
    have hgenerator : run.generator = c.generator := by
      simp only [GeneratorRun.exec, hc, ok_bind] at hrun
      cases hrun
      rfl
    have hnow := hheld growth s.memory h.held
    have hextends := (h.held.sound.applyAll growth events').2
    have hold : ∀ copy sub, (copy, sub) ∈ s.snapshots →
        (s.memory.applyAll growth events').Shows copy sub.testResults sub.groupResults :=
      fun copy sub hmem => (h.snapshots copy sub hmem).extend hextends
    rw [← hgenerator] at hnow hpublished
    cases hp : c.published with
    | none =>
      simp only [hp] at he
      cases he
      exact ⟨⟨hnow, hold⟩, ⟨hextends, List.prefix_refl _⟩, hrun⟩
    | some published =>
      simp only [hp, ResultMemory.updateSubmission_eq] at he
      cases he
      refine ⟨⟨hnow, fun copy sub hmem => ?_⟩, ⟨hextends, List.prefix_append _ _⟩, hrun⟩
      rcases List.mem_append.1 hmem with hmem | hmem
      · exact hold copy sub hmem
      · obtain ⟨rfl, rfl⟩ := Prod.mk.inj (List.mem_singleton.1 hmem)
        rw [hpublished _ hp]
        exact hnow.shows

theorem coherent_init (htests : sub.testResults = []) (hgroups : sub.groupResults = [])
    (h : (machine growth problem sub).init s) : s.Coherent := by
  obtain ⟨run, testCapacity, groupCapacity, ⟨id, g, hg, rfl⟩, rfl⟩ := h
  exact ⟨Generator.new_held hg htests hgroups testCapacity groupCapacity growth,
    fun _ _ hmem => nomatch hmem⟩

variable {ok : GeneratorRun F → Call F → Prop}

theorem coherent (htests : sub.testResults = []) (hgroups : sub.groupResults = [])
    (h : (machine growth problem sub).Reachable (fun s => ok s.run) s) : s.Coherent :=
  h.invariant (fun _ hinit => coherent_init htests hgroups hinit)
    fun _ _ _ hs _ _ he => (hs.exec he).1

/-- Later states keep what is shown. -/
theorem keeps (hs : s.Coherent) (h : (machine growth problem sub).Reaches (fun s => ok s.run) s t) :
    t.Coherent ∧ Keeps s t := by
  refine h.keeps (P := fun t => t.Coherent ∧ Keeps s t) ⟨hs, .refl _, List.prefix_refl _⟩ ?_
  rintro t call u ⟨ht, hkeeps⟩ - - he
  obtain ⟨hu, hkeeps', -⟩ := ht.exec he
  exact ⟨hu, hkeeps.trans hkeeps' hs⟩

/-- The runs with memory are runs of the generator. -/
theorem reachable_run (htests : sub.testResults = []) (hgroups : sub.groupResults = [])
    (h : (machine growth problem sub).Reachable (fun s => ok s.run) s) :
    (GeneratorRun.machine problem sub).Reachable ok s.run := by
  refine h.invariant_of_reachable
    (P := fun s => (GeneratorRun.machine problem sub).Reachable ok s.run) ?_ ?_
  · rintro s ⟨run, testCapacity, groupCapacity, hrun, rfl⟩
    exact .of_init hrun
  · intro s call t hr hs hok hen he
    exact hs.snoc call hok hen ((coherent htests hgroups hr).exec he).2.2

/-- Every run of a generator is the run of one with memory. -/
theorem exists_stored (growth : Growth) {r : GeneratorRun F}
    (h : (GeneratorRun.machine problem sub).Reachable ok r) :
    ∃ s, s.run = r ∧ (machine growth problem sub).Reachable (fun s => ok s.run) s := by
  refine h.invariant (P := fun r => ∃ s : StoredRun F, s.run = r ∧
    (machine growth problem sub).Reachable (fun s => ok s.run) s) ?_ ?_
  · intro r hr
    exact ⟨_, rfl, .of_init ⟨r, 0, 0, hr, rfl⟩⟩
  · rintro r call r' ⟨s, rfl, hs⟩ hok hen he
    obtain ⟨t, ht, hrun⟩ : ∃ t, s.exec growth call = .ok t ∧ t.run = r' := by
      cases call with
      | nextJob id =>
        refine ⟨{ s with run := r' }, ?_, rfl⟩
        simp only [exec, show s.run.exec (.nextJob id) = .ok r' from he, ok_bind]
        rfl
      | jobCompleted result =>
        have hexec : s.run.exec (.jobCompleted result) = .ok r' := he
        obtain ⟨c, hc, -⟩ := bind_eq_ok.1 hexec
        obtain ⟨⟨events, hevents, -⟩, -⟩ := Generator.jobCompleted_held hc
        simp only [exec, hexec, hc, hevents, ok_bind]
        cases c.published with
        | none => exact ⟨_, rfl, rfl⟩
        | some published => exact ⟨_, rfl, rfl⟩
    exact ⟨t, hrun, hs.snoc call hok hen ht⟩

/-! ## Nothing is retracted -/

/-- What `s` has shown is still shown in `t`: the lists of the submission, through the pointers that they
had in `s`, and the copies made until `s`. -/
structure NotRetracted (s t : StoredRun F) : Prop where
  tests : s.submission.testResults <+: t.submission.testResults
  groups : s.submission.groupResults <+: t.submission.groupResults
  testsShown : t.memory.testResultsOf s.memory.current = s.submission.testResults
  groupsShown : t.memory.groupResultsOf s.memory.current = s.submission.groupResults
  snapshots : ∀ copy sub, (copy, sub) ∈ s.snapshots →
    t.memory.testResultsOf copy = sub.testResults ∧ t.memory.groupResultsOf copy = sub.groupResults

/-- In every run in which no invoker reports `RU`, nothing that was shown is retracted or changed, and the
lists of results are in order. -/
theorem results_never_retracted (growth : Growth) (problem : Problem F) (sub : Submission F)
    (htests : sub.testResults = []) (hgroups : sub.groupResults = []) {s t : StoredRun F}
    (hs : (machine growth problem sub).Reachable (fun s => GeneratorRun.NeverRunning s.run) s)
    (ht : (machine growth problem sub).Reaches (fun s => GeneratorRun.NeverRunning s.run) s t) :
    NotRetracted s t ∧ WellFormed problem t.submission := by
  have hscoherent := coherent htests hgroups hs
  obtain ⟨htcoherent, hkeeps⟩ := keeps hscoherent ht
  have hrun := reachable_run htests hgroups (hs.trans ht)
  have hthen := hscoherent.held.shows
  have hlater := hthen.extend hkeeps.memory
  have hlists := hkeeps.memory.lists hscoherent.held.sound
  have hnow := htcoherent.held.shows
  refine ⟨⟨?_, ?_, hlater.tests, hlater.groupResults, fun copy sub hmem => ?_⟩,
    GeneratorRun.wellFormed_of_reachable htests hgroups hrun⟩
  · rw [submission, submission, ← hthen.tests, ← hnow.tests]
    exact hlists.1
  · rw [submission, submission, ← hthen.groupResults, ← hnow.groupResults]
    exact hlists.2
  · have hold := (hscoherent.snapshots copy sub hmem).extend hkeeps.memory
    exact ⟨hold.tests, hold.groupResults⟩

/-- The runtime doubles the arrays. -/
def doubling : Growth := { tests := fun n => n, groups := fun n => n }

open GeneratorRun in
/-- The first result is reported as skipped and shown as `CF`; the second test is skipped. -/
theorem results_never_retracted_skipped :
    ∃ s t : StoredRun Int, NotRetracted s t ∧ WellFormed GeneratorRun.twoGroups t.submission ∧
      s.snapshots.length = 1 ∧ t.snapshots.length = 3 ∧
      s.submission.testResults.map (fun result => result.verdict) = [.CF] ∧
      t.submission.testResults.map (fun result => result.verdict) = [.CF, .SK, .OK] := by
  have hok : ∀ {s : StoredRun Int} {id verdict}, verdict ≠ .RU →
      NeverRunning s.run (answer id verdict none) := fun h => h
  have hs := Machine.Reachable.of_runs (machine doubling GeneratorRun.twoGroups newSubmission)
    (fun s => NeverRunning s.run)
    [.nextJob 1, answer 1 .CD none, .nextJob 2, .nextJob 3, .nextJob 4, answer 2 .SK none]
    (.of_init ⟨_, 0, 0, ⟨0, _, rfl, rfl⟩, rfl⟩)
    ⟨trivial, rfl, _, rfl, hok (by decide), trivial, _, rfl, trivial, rfl, _, rfl, trivial, rfl, _, rfl,
      trivial, rfl, _, rfl, hok (by decide), trivial, _, rfl, rfl⟩
  obtain ⟨hkept, hlists⟩ := results_never_retracted doubling GeneratorRun.twoGroups newSubmission
    rfl rfl hs (.of_runs (machine doubling GeneratorRun.twoGroups newSubmission) (fun s => NeverRunning s.run)
      [answer 3 .OK none, answer 4 .OK none]
      ⟨hok (by decide), trivial, _, rfl, hok (by decide), trivial, _, rfl, rfl⟩)
  exact ⟨_, _, hkept, hlists, rfl, rfl, rfl, rfl⟩

end StoredRun

end TestingSystem
