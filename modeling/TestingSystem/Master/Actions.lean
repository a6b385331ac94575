import TestingSystem.Master.MasterInvariant

/-!
# The master with its database and the storage

`master/client_handlers.go` and `master/actions.go`: what `handleNewSubmission` and the end of testing
write to the table of submissions and to the storage, on top of the runs of the queue and the registry.
A call to the database or the storage may fail, and one that is reported as failed may have had its
effect. `retryUntilOK` runs an action until a call succeeds; when it gives up it panics, which ends the
run.

A request that is refused before its submission is saved leaves no trace and is no step. The columns for
the problem, the language and the times are left out, but for `DeletedAt`: a row that is deleted stays in
the table with the mark, and no query finds it.
-/

set_option autoImplicit false

namespace TestingSystem

abbrev SourceCode := List UInt8

/-- A row of `models.Submission`; `deleted` is `DeletedAt`, which `Delete` sets. -/
structure StoredSubmission (F : Type) where
  submission : Submission F
  deleted : Bool

structure SubmissionTable (F : Type) where
  rows : GoMap SubmissionID (StoredSubmission F)

namespace SubmissionTable

variable {F : Type} {table : SubmissionTable F} {id a : SubmissionID} {submission row : Submission F}

def empty : SubmissionTable F := ⟨.empty⟩

/-- What a query for the row finds: a row that is not marked. -/
def find (table : SubmissionTable F) (id : SubmissionID) : Option (Submission F) :=
  match table.rows.get? id with
  | none => none
  | some row => if row.deleted then none else some row.submission

/-- `Save` writes all columns, with an empty mark. -/
def save (table : SubmissionTable F) (id : SubmissionID) (submission : Submission F) :
    SubmissionTable F :=
  ⟨table.rows.set id ⟨submission, false⟩⟩

/-- `Delete` marks the row. -/
def delete (table : SubmissionTable F) (id : SubmissionID) : SubmissionTable F :=
  match table.rows.get? id with
  | none => table
  | some row => ⟨table.rows.set id { row with deleted := true }⟩

theorem find_save_self (table : SubmissionTable F) (id : SubmissionID) (submission : Submission F) :
    (table.save id submission).find id = some submission := by
  simp only [find, save, GoMap.get?_set_self]
  rfl

theorem find_save_ne (table : SubmissionTable F) (submission : Submission F) (h : a ≠ id) :
    (table.save id submission).find a = table.find a := by
  simp only [find, save, GoMap.get?_set_ne _ _ h]

theorem of_find_save (h : (table.save id submission).find a = some row) :
    a = id ∧ row = submission ∨ a ≠ id ∧ table.find a = some row := by
  by_cases ha : a = id
  · subst ha
    rw [find_save_self] at h
    exact .inl ⟨rfl, (Option.some.inj h).symm⟩
  · rw [find_save_ne _ _ ha] at h
    exact .inr ⟨ha, h⟩

/-- A marked row is not found. -/
theorem find_delete_self (table : SubmissionTable F) (id : SubmissionID) :
    (table.delete id).find id = none := by
  unfold delete
  cases hget : table.rows.get? id with
  | none => simp only [find, hget]
  | some row =>
    simp only [find, GoMap.get?_set_self]
    rfl

theorem find_delete_ne (table : SubmissionTable F) (h : a ≠ id) :
    (table.delete id).find a = table.find a := by
  unfold delete
  split
  · rfl
  · simp only [find, GoMap.get?_set_ne _ _ h]

theorem of_find_delete (h : (table.delete id).find a = some row) :
    a ≠ id ∧ table.find a = some row := by
  have hne : a ≠ id := by
    rintro rfl
    rw [find_delete_self] at h
    cases h
  rw [find_delete_ne _ hne] at h
  exact ⟨hne, h⟩

end SubmissionTable

/-- A running `handleNewSubmission` after `saveSubmissionInDB`; `stored` is set by
`saveSubmissionInStorage`. -/
structure NewSubmission (F : Type) where
  problem : Problem F
  submission : Submission F
  file : SourceCode
  stored : Bool

/-- The reply of `handleNewSubmission`. -/
inductive SubmitReply where
  | accepted
  | serverError
  deriving DecidableEq, Repr

/-- `Master` with the table of submissions, the source codes in the storage and the running handlers and
retries, by submission; `saved` says that `finishSubmissionTesting` has written the row.

`uploads`, `answered` and `results` are a history: the files of `handleNewSubmission`, its replies and
the submissions that `Queue.JobCompleted` returned. -/
structure MasterService (F : Type) where
  run : MasterRun F
  database : SubmissionTable F
  lastID : SubmissionID
  storage : GoMap SubmissionID SourceCode
  handlers : GoMap SubmissionID (NewSubmission F)
  removingFromDB : List SubmissionID
  removingFromStorage : List SubmissionID
  finishing : GoMap SubmissionID (Submission F × Bool)
  uploads : GoMap SubmissionID SourceCode
  answered : GoMap SubmissionID SubmitReply
  results : GoMap SubmissionID (Submission F)

/-- A call has its effect when it is `written`, and reports success when it is `ok`. -/
structure CallEnd where
  written : Bool
  ok : Bool
  honest : ok = true → written = true

inductive MasterServiceStep (F : Type) where
  -- `handleNewSubmission`
  | saveSubmissionInDB (problem : Problem F) (file : SourceCode) (call : CallEnd)
  | saveSubmissionInStorage (id : SubmissionID) (call : CallEnd)
  | submit (id : SubmissionID) (epoch : Epoch)
  -- attempts of `retryUntilOK`
  | removeSubmissionFromDB (id : SubmissionID) (call : CallEnd)
  | removeSubmissionFromStorage (id : SubmissionID) (call : CallEnd)
  -- the two parts of `finishSubmissionTesting`
  | saveResult (id : SubmissionID) (call : CallEnd)
  | finishSubmissionTesting (id : SubmissionID)
  -- the end of `handleInvokerJobResult`
  | jobCompleted (k : Nat) (epoch : Epoch)
  -- everything else that the master does
  | other (step : MasterStep F)

/-- The step is not one of those that the service makes itself. -/
def MasterStep.isOther {F : Type} : MasterStep F → Bool
  | .submit .. | .jobCompleted .. | .finishSubmissionTesting .. => false
  | _ => true

namespace MasterService

variable {F : Type}

/-- `SetupMaster` with a table and a storage without submissions. -/
def new : MasterService F :=
  { run := .new, database := .empty, lastID := 0, storage := .empty, handlers := .empty
    removingFromDB := [], removingFromStorage := [], finishing := .empty, uploads := .empty
    answered := .empty, results := .empty }

section Handlers

variable [Zero F]

/-- `saveSubmissionInDB`. The database draws the next ID. -/
def saveSubmissionInDB (s : MasterService F) (problem : Problem F) (file : SourceCode)
    (call : CallEnd) : MasterService F :=
  let submission : Submission F :=
    { id := s.lastID + 1, score := 0, verdict := .RU, testResults := [], compilationResult := none
      groupResults := [] }
  { s with
    lastID := s.lastID + 1
    database := if call.written then s.database.save submission.id submission else s.database
    handlers :=
      if call.ok then s.handlers.set submission.id ⟨problem, submission, file, false⟩
      else s.handlers
    uploads := s.uploads.set submission.id file }

end Handlers

/-- The end of `handleNewSubmission` after an error. -/
def refuse (s : MasterService F) (id : SubmissionID) : MasterService F :=
  { s with
    handlers := s.handlers.delete id
    removingFromDB := id :: s.removingFromDB
    answered := s.answered.set id .serverError }

/-- `saveSubmissionInStorage`, and what follows its failure. -/
def saveSubmissionInStorage (s : MasterService F) (id : SubmissionID) (call : CallEnd) :
    MasterService F :=
  match s.handlers.get? id with
  | none => s
  | some handler =>
    let s := { s with storage := if call.written then s.storage.set id handler.file else s.storage }
    if call.ok then { s with handlers := s.handlers.set id { handler with stored := true } }
    else s.refuse id

/-- `Queue.Submit` and the end of `handleNewSubmission`. -/
def submit (s : MasterService F) (id : SubmissionID) (epoch : Epoch) :
    Except Panic (MasterService F) :=
  match s.handlers.get? id with
  | none => .ok s
  | some handler => do
    let submitted ← s.run.queue.submit s.run.registry.fresh handler.problem handler.submission epoch
    let run ← s.run.submit handler.problem handler.submission epoch
    let s := { s with run := run }
    match submitted with
    | .error _ =>
      let s := s.refuse id
      return { s with removingFromStorage := id :: s.removingFromStorage }
    | .ok _ =>
      return { s with
        handlers := s.handlers.delete id
        answered := s.answered.set id .accepted }

/-- An attempt of `removeSubmissionFromDB`. -/
def removeSubmissionFromDB (s : MasterService F) (id : SubmissionID) (call : CallEnd) :
    MasterService F :=
  { s with
    database := if call.written then s.database.delete id else s.database
    removingFromDB := if call.ok then s.removingFromDB.erase id else s.removingFromDB }

/-- An attempt of `removeSubmissionFromStorage`. -/
def removeSubmissionFromStorage (s : MasterService F) (id : SubmissionID) (call : CallEnd) :
    MasterService F :=
  { s with
    storage := if call.written then s.storage.delete id else s.storage
    removingFromStorage :=
      if call.ok then s.removingFromStorage.erase id else s.removingFromStorage }

/-- An attempt to save the row in `finishSubmissionTesting`. -/
def saveResult (s : MasterService F) (id : SubmissionID) (call : CallEnd) : MasterService F :=
  match s.finishing.get? id with
  | none => s
  | some (submission, saved) =>
    { s with
      database := if call.written then s.database.save id submission else s.database
      finishing := s.finishing.set id (submission, saved || call.ok) }

variable [Add F] [Min F] [Zero F] [One F]

/-- The end of `finishSubmissionTesting`. -/
def finishSubmissionTesting (s : MasterService F) (id : SubmissionID) :
    Except Panic (MasterService F) := do
  let run ← s.run.exec (.finishSubmissionTesting id)
  return { s with run := run, finishing := s.finishing.delete id }

/-- `Queue.JobCompleted` and the end of `handleInvokerJobResult`. -/
def jobCompleted (s : MasterService F) (k : Nat) (epoch : Epoch) : Except Panic (MasterService F) :=
  match s.run.accepted[k]? with
  | none => .ok s
  | some result => do
    let (_, submission) ← s.run.queue.jobCompleted result epoch
    let run ← s.run.jobCompleted k epoch
    let s := { s with run := run }
    match submission with
    | .ok (some submission) =>
      return { s with
        finishing := s.finishing.set submission.id (submission, false)
        results := s.results.set submission.id submission }
    | .ok none | .error _ => return s

def enabled (s : MasterService F) : MasterServiceStep F → Prop
  | .saveSubmissionInDB .. => True
  | .saveSubmissionInStorage id _ => ∃ handler, s.handlers.get? id = some handler ∧
      handler.stored = false
  | .submit id _ => ∃ handler, s.handlers.get? id = some handler ∧ handler.stored = true
  | .removeSubmissionFromDB id _ => id ∈ s.removingFromDB
  | .removeSubmissionFromStorage id _ => id ∈ s.removingFromStorage
  | .saveResult id _ => ∃ submission, s.finishing.get? id = some (submission, false)
  | .finishSubmissionTesting id => ∃ submission, s.finishing.get? id = some (submission, true)
  | .jobCompleted k _ => ∃ result, s.run.accepted[k]? = some result
  | .other step => step.isOther = true ∧ s.run.enabled step

def exec (s : MasterService F) : MasterServiceStep F → Except Panic (MasterService F)
  | .saveSubmissionInDB problem file call => .ok (s.saveSubmissionInDB problem file call)
  | .saveSubmissionInStorage id call => .ok (s.saveSubmissionInStorage id call)
  | .submit id epoch => s.submit id epoch
  | .removeSubmissionFromDB id call => .ok (s.removeSubmissionFromDB id call)
  | .removeSubmissionFromStorage id call => .ok (s.removeSubmissionFromStorage id call)
  | .saveResult id call => .ok (s.saveResult id call)
  | .finishSubmissionTesting id => s.finishSubmissionTesting id
  | .jobCompleted k epoch => s.jobCompleted k epoch
  | .other step => do
    let run ← s.run.exec step
    return { s with run := run }

/-- The runs of a new master, with any failures of the database and the storage. -/
def machine : Machine (MasterService F) (MasterServiceStep F) Panic where
  init s := s = new
  enabled := enabled
  exec := exec

end MasterService

end TestingSystem
