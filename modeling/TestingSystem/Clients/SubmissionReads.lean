import TestingSystem.Clients.MasterStatus
import TestingSystem.Lib.PolledView
import TestingSystem.Master.Queue.SubmissionObjects
import TestingSystem.Master.SubmissionRecords

/-!
# The API server

`clients/tsapi/masterstatus/master_status.go` over a running master: the update thread and the running
calls of `GetSubmission`, with the table of submissions that both processes use.

`AddSubmission` keeps the pointer of the submission, and `UpdateSubmission` replaces it by a copy. So until
the first update a response shows the submission as its generator has it (`shown`).
-/

set_option autoImplicit false

namespace TestingSystem

variable {F : Type}

/-- The end of `GetSubmission`, for the row that it read. -/
def MasterStatus.getSubmission (s : MasterStatus F) (row : Submission F) : Submission F :=
  if row.verdict = .RU then
    match s.submissions.get? row.id with
    | some updatedSubmission => updatedSubmission
    | none => { row with testResults := [] }
  else row

/-- The master and an API server. `copied` are the submissions that `UpdateSubmission` has copied, `response`
is the response of `GetStatus` that is under way, and `reads` are the running calls of `GetSubmission` that
have read their row. `replies` and the replies in `reads` are a history. -/
structure ApiService (F : Type) where
  service : MasterService F
  copied : List SubmissionID
  client : MasterStatus F
  response : Option (MasterStatusResponse F)
  reads : List (Reading (Submission F))
  replies : List (Submission F)

inductive ApiStep (F : Type) where
  | service (step : MasterServiceStep F)
  -- `updateStatus`; the response may be lost
  | getStatus (epoch : Epoch)
  | updateStatus (lost : Bool)
  -- the two parts of `GetSubmission`
  | findRow (id : SubmissionID)
  | getSubmission (k : Nat)

namespace ApiService

def new : ApiService F :=
  { service := .new, copied := [], client := .new, response := none, reads := [], replies := [] }

abbrev queue (a : ApiService F) : Queue F := a.service.run.queue

/-- The submission of a holder, as a response shows it. -/
def shown (q : Queue F) (copied : List SubmissionID) (submission : Submission F) : Submission F :=
  if submission.id ∈ copied then submission
  else (q.findSubmission submission.id).getD submission

/-- There is one update thread, and it waits for the response. -/
def enabled (a : ApiService F) : ApiStep F → Prop
  | .service step => a.service.enabled step
  | .getStatus _ => a.response = none
  | .updateStatus _ => ∃ response, a.response = some response
  | .findRow id => ∃ row, a.service.database.find id = some row
  | .getSubmission k => ∃ reading, a.reads[k]? = some reading

section Exec

variable [Add F] [Min F] [Zero F] [One F]

/-- The submissions that are copied after a step of the master. -/
def copiedAfter (s : MasterService F) (copied : List SubmissionID) :
    MasterServiceStep F → List SubmissionID
  | .jobCompleted k _ =>
    match s.run.accepted[k]?.bind s.run.queue.publishedBy with
    | none => copied
    | some submission => submission.id :: copied
  | _ => copied

def exec (a : ApiService F) : ApiStep F → Except Panic (ApiService F)
  | .service step => do
    let service ← a.service.exec step
    return { a with service := service, copied := copiedAfter a.service a.copied step }
  | .getStatus epoch => do
    let response ← a.queue.status.getStatus a.client.prevEpoch epoch
    let updated := response.updatedSubmissions.map (shown a.queue a.copied)
    return { a with response := some { response with updatedSubmissions := updated } }
  | .updateStatus lost =>
    .ok { a with
      client := a.client.updateStatus (if lost then none else a.response)
      response := none }
  | .findRow id =>
    match a.service.database.find id with
    | none => .ok a
    | some row => .ok { a with reads := ⟨row, a.replies⟩ :: a.reads }
  | .getSubmission k =>
    match a.reads[k]? with
    | none => .ok a
    | some reading =>
      .ok { a with
        reads := a.reads.eraseIdx k
        replies := a.client.getSubmission reading.row :: a.replies }

/-- The runs of a new master and an API server. -/
def machine : Machine (ApiService F) (ApiStep F) Panic where
  init a := a = new
  enabled := enabled
  exec := exec

end Exec

end ApiService

end TestingSystem
