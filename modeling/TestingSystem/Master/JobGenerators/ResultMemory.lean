import TestingSystem.Lib.Publisher
import TestingSystem.Common.Models

/-!
# The memory of the results

`TestResults` is a slice of pointers and `GroupResults` a slice of values. The generators write to the
objects behind the pointers, and `UpdateSubmission` copies a submission without its arrays. A `ResultMemory`
holds the objects and the arrays, and a `ResultEvent` is a statement of the source that makes, changes or
appends a result. Whatever the events are, no result changes once it is in `TestResults` (`Sound.applyAll`):
the only assignment to an object is that of `CF` in place of `SK`, just before the object is appended.
-/

set_option autoImplicit false

namespace TestingSystem

/-- The slices of a copy that `UpdateSubmission` made. -/
structure SubmissionCopy where
  testResults : Slice
  groupResults : Slice
  deriving DecidableEq, Repr

/-- Where the results of a submission are kept. -/
structure ResultMemory (F : Type) where
  /-- The objects of `internalTestResults` are the drafts, and `TestResults` is published. -/
  tests : Publisher (TestResult F)
  groupArrays : Heap (BackingArray (GroupResult F))
  groupResults : Slice

/-- A statement on results. An internal result is named by its key in `internalTestResults`. -/
inductive ResultEvent (F : Type) where
  /-- A new object becomes an internal result. -/
  | store (key : Nat) (result : TestResult F)
  /-- A new object is appended to `TestResults`. -/
  | appendNew (result : TestResult F)
  /-- An internal result becomes a `CF` with this message if it is an `SK`, and is appended to
  `TestResults`. -/
  | appendStored (key : Nat) (message : String)
  /-- A value is appended to `GroupResults`. -/
  | appendGroup (result : GroupResult F)

/-- The room that `append` leaves in a new array, as the runtime chooses it. -/
structure Growth where
  tests : Nat → Nat
  groups : Nat → Nat

/-- The assignments to a result with the verdict `SK`. -/
def repairSkipped {F : Type} (message : String) (result : TestResult F) : TestResult F :=
  if result.verdict = .SK then { result with verdict := .CF, error := message } else result

/-- No statement assigns to the result again. -/
def Settled {F : Type} (result : TestResult F) : Prop := result.verdict ≠ .SK

theorem repairs_skipped {F : Type} (message : String) :
    Repairs (Settled (F := F)) (repairSkipped message) := by
  refine ⟨fun result => ?_, fun result h => if_neg h⟩
  unfold repairSkipped
  split
  · exact fun h => nomatch h
  · next hne => exact hne

namespace ResultMemory

variable {F : Type} {growth : Growth} {m m' m'' : ResultMemory F}

/-- The memory of a submission without results. Its two slices may have any capacity. -/
def empty (testCapacity groupCapacity : Nat) : ResultMemory F where
  tests :=
    { objects := .empty, drafts := fun _ => none, arrays := Heap.empty.alloc ⟨[], testCapacity⟩
      published := ⟨0, 0⟩ }
  groupArrays := Heap.empty.alloc ⟨[], groupCapacity⟩
  groupResults := ⟨0, 0⟩

def apply (growth : Growth) (m : ResultMemory F) : ResultEvent F → ResultMemory F
  | .store key result => { m with tests := m.tests.draft key result }
  | .appendNew result => { m with tests := m.tests.publishNew growth.tests result }
  | .appendStored key message =>
    { m with tests := m.tests.publishDraft growth.tests (repairSkipped message) key }
  | .appendGroup result =>
    { m with
      groupArrays := (m.groupResults.append growth.groups m.groupArrays result).1
      groupResults := (m.groupResults.append growth.groups m.groupArrays result).2 }

def applyAll (growth : Growth) (m : ResultMemory F) (events : List (ResultEvent F)) :
    ResultMemory F :=
  events.foldl (apply growth) m

theorem applyAll_append (events events' : List (ResultEvent F)) :
    m.applyAll growth (events ++ events') = (m.applyAll growth events).applyAll growth events' :=
  List.foldl_append

/-- The results that a copy shows. -/
def testResultsOf (m : ResultMemory F) (copy : SubmissionCopy) : List (TestResult F) :=
  m.tests.elements copy.testResults

/-- The groups that a copy shows. -/
def groupResultsOf (m : ResultMemory F) (copy : SubmissionCopy) : List (GroupResult F) :=
  copy.groupResults.contents m.groupArrays

/-- The slices of the submission. -/
def current (m : ResultMemory F) : SubmissionCopy where
  testResults := m.tests.published
  groupResults := m.groupResults

/-- `UpdateSubmission`: the copy `submissionCopy`, whose `TestResults` is then copied to the array that it
shares. -/
def updateSubmission (m : ResultMemory F) : SubmissionCopy × ResultMemory F :=
  let submissionCopy := m.current
  (submissionCopy,
    { m with
      tests :=
        { m.tests with
          arrays := Slice.copy m.tests.arrays submissionCopy.testResults m.tests.published } })

/-- The call of `copy` has no effect. -/
theorem updateSubmission_eq (m : ResultMemory F) : m.updateSubmission = (m.current, m) := by
  simp only [updateSubmission, current, Slice.copy_self]

/-! ## Nothing in `TestResults` changes -/

structure Sound (m : ResultMemory F) : Prop where
  tests : m.tests.Sound Settled
  groups : m.groupResults.Live m.groupArrays

/-- From `m` to `m'` nothing that was in `TestResults` or in `GroupResults` changes. -/
structure Extends (m m' : ResultMemory F) : Prop where
  tests : m.tests.Extends m'.tests
  groups : ∀ s xs, Slice.View m.groupArrays m.groupResults s xs →
    Slice.View m'.groupArrays m'.groupResults s xs

theorem Extends.refl (m : ResultMemory F) : Extends m m :=
  ⟨.refl _, fun _ _ hv => hv⟩

theorem Extends.trans (h : Extends m m') (h' : Extends m' m'') (hm : m.Sound) : Extends m m'' :=
  ⟨h.tests.trans h'.tests hm.tests.live, fun s xs hv => h'.groups s xs (h.groups s xs hv)⟩

theorem sound_empty (testCapacity groupCapacity : Nat) :
    (empty testCapacity groupCapacity : ResultMemory F).Sound := by
  refine ⟨⟨Slice.live_alloc .empty testCapacity, ?_, ?_, ?_, ?_⟩,
    Slice.live_alloc .empty groupCapacity⟩
  · exact fun _ _ hx => nomatch hx
  · exact fun _ _ _ hx => nomatch hx
  · exact fun _ hx => nomatch hx
  · exact fun _ _ _ hx => nomatch hx

theorem Sound.apply (h : m.Sound) (growth : Growth) (event : ResultEvent F) :
    (m.apply growth event).Sound ∧ Extends m (m.apply growth event) := by
  have hsame : ∀ {tests : Publisher (TestResult F)} {added}, Publisher.Step Settled m.tests tests added →
      Sound { m with tests := tests } ∧ Extends m { m with tests := tests } :=
    fun hstep => ⟨⟨hstep.sound, h.groups⟩, hstep.extend, fun _ _ hv => hv⟩
  cases event with
  | store key result => exact hsame (h.tests.draft key result)
  | appendNew result => exact hsame (h.tests.publishNew result)
  | appendStored key message =>
    cases hdraft : m.tests.draft? key with
    | none =>
      rw [ResultMemory.apply, h.tests.publishDraft_none hdraft]
      exact ⟨h, .refl m⟩
    | some result => exact hsame (h.tests.publishDraft (repairs_skipped message) hdraft)
  | appendGroup result =>
    exact ⟨⟨h.tests, (h.groups.append growth.groups result).1⟩, .refl _,
      fun _ _ hv => hv.append h.groups growth.groups result⟩

/-- No sequence of statements changes a result that is in `TestResults` or in `GroupResults`. -/
theorem Sound.applyAll (h : m.Sound) (growth : Growth) (events : List (ResultEvent F)) :
    (m.applyAll growth events).Sound ∧ Extends m (m.applyAll growth events) := by
  induction events generalizing m with
  | nil => exact ⟨h, .refl m⟩
  | cons event events ih =>
    obtain ⟨hsound, hextends⟩ := h.apply growth event
    obtain ⟨hsound', hextends'⟩ := ih hsound
    exact ⟨hsound', hextends.trans hextends' h⟩

/-! ## Copies -/

/-- The slices of a copy are earlier values of those of the submission. -/
structure Shows (m : ResultMemory F) (copy : SubmissionCopy) (results : List (TestResult F))
    (groups : List (GroupResult F)) : Prop where
  view : ∃ xs, Slice.View m.tests.arrays m.tests.published copy.testResults xs
  tests : m.testResultsOf copy = results
  groups : Slice.View m.groupArrays m.groupResults copy.groupResults groups

variable {copy : SubmissionCopy} {results : List (TestResult F)} {groups : List (GroupResult F)}

theorem Shows.groupResults (h : m.Shows copy results groups) : m.groupResultsOf copy = groups :=
  h.groups.shown

/-- A copy shows the same results from then on. -/
theorem Shows.extend (h : m.Shows copy results groups) (he : Extends m m') :
    m'.Shows copy results groups := by
  obtain ⟨xs, hv⟩ := h.view
  exact ⟨⟨xs, he.tests.views _ _ hv⟩, (he.tests.elements hv).trans h.tests, he.groups _ _ h.groups⟩

theorem Sound.shows_current (h : m.Sound) :
    m.Shows m.current m.tests.list (m.groupResultsOf m.current) :=
  ⟨⟨_, h.tests.live.view⟩, rfl, h.groups.view⟩

/-- The lists of the submission are the first elements of its later lists. -/
theorem Extends.lists (h : Extends m m') (hm : m.Sound) :
    m.tests.list <+: m'.tests.list ∧ m.groupResultsOf m.current <+: m'.groupResultsOf m'.current :=
  ⟨h.tests.list hm.tests.live, (h.groups _ _ hm.groups.view).isPrefix⟩

/-! ## The lists of a generator -/

/-- The memory holds the lists of a submission and, from the key `next` on, the internal results. -/
structure Holds (m : ResultMemory F) (results : List (TestResult F)) (groups : List (GroupResult F))
    (stored : Nat → Option (TestResult F)) (next : Nat) : Prop where
  sound : m.Sound
  tests : m.tests.list = results
  groups : m.groupResultsOf m.current = groups
  stored : ∀ key, next ≤ key → m.tests.draft? key = stored key

namespace Holds

variable {stored stored' : Nat → Option (TestResult F)} {next next' : Nat}

/-- Only the internal results from `next` on count. -/
theorem congr (h : m.Holds results groups stored next) (hle : next ≤ next')
    (hstored : ∀ key, next' ≤ key → stored' key = stored key) :
    m.Holds results groups stored' next' :=
  ⟨h.sound, h.tests, h.groups,
    fun key hkey => (h.stored key (Nat.le_trans hle hkey)).trans (hstored key hkey).symm⟩

theorem store (h : m.Holds results groups stored next) (growth : Growth) (key : Nat)
    (result : TestResult F) :
    (m.apply growth (.store key result)).Holds results groups
      (Function.update stored key (some result)) next := by
  have hstep := h.sound.tests.draft key result
  refine ⟨(h.sound.apply growth _).1, ?_, h.groups, fun other hother => ?_⟩
  · exact hstep.list.trans (by rw [List.append_nil, h.tests])
  · refine (h.sound.tests.draft?_draft key other result).trans ?_
    rw [Function.update_apply, h.stored other hother]

theorem appendNew (h : m.Holds results groups stored next) (growth : Growth) (result : TestResult F) :
    (m.apply growth (.appendNew result)).Holds (results ++ [result]) groups stored next := by
  refine ⟨(h.sound.apply growth _).1, ?_, h.groups, fun key hkey => ?_⟩
  · exact (h.sound.tests.publishNew result).list.trans (by rw [h.tests])
  · exact (h.sound.tests.draft?_publishNew result key).trans (h.stored key hkey)

/-- The internal result with the key `next` is appended. -/
theorem appendStored (h : m.Holds results groups stored next) {result : TestResult F}
    (hresult : stored next = some result) (growth : Growth) (message : String) :
    (m.apply growth (.appendStored next message)).Holds (results ++ [repairSkipped message result])
      groups stored (next + 1) := by
  have hdraft : m.tests.draft? next = some result := (h.stored next (Nat.le_refl _)).trans hresult
  refine ⟨(h.sound.apply growth _).1, ?_, h.groups, fun key hkey => ?_⟩
  · exact (h.sound.tests.publishDraft (repairs_skipped message) hdraft).list.trans (by rw [h.tests])
  · exact (h.sound.tests.draft?_publishDraft hdraft (by omega)).trans (h.stored key (by omega))

theorem appendGroup (h : m.Holds results groups stored next) (growth : Growth)
    (result : GroupResult F) :
    (m.apply growth (.appendGroup result)).Holds results (groups ++ [result]) stored next := by
  refine ⟨(h.sound.apply growth _).1, h.tests, ?_, h.stored⟩
  exact (h.sound.groups.append growth.groups result).2.trans (congrArg (· ++ [result]) h.groups)

theorem appendGroups (h : m.Holds results groups stored next) (growth : Growth)
    (added : List (GroupResult F)) :
    (m.applyAll growth (added.map .appendGroup)).Holds results (groups ++ added) stored next := by
  induction added generalizing m groups with
  | nil => rwa [List.append_nil]
  | cons result added ih =>
    rw [List.append_cons]
    exact ih (h.appendGroup growth result)

end Holds

end ResultMemory

end TestingSystem
