import Inventory.Endpoint
import Inventory.Record.Change
import Inventory.RecordSet

/-! Committing records: new objects, changes and deletions travel in one request, and the records
are settled only after the service took the whole of it. -/

namespace Inventory

structure CommitRequest where
  created : List Fields
  changed : List ChangeSet
  deleted : List Int64

/-- A changed or deleted record needs an integer identity. -/
def Record.identityFailure? (member : Record × Nat) : Option (MemberError Error) :=
  let (r, index) := member
  if (r.state = .changed ∨ r.state = .deleted) ∧ r.objectId? = none then
    let raw := ((r.fields.get? objectIdName).map Value.canonical).getD ""
    some ⟨index, none, .invalidValue objectIdName (raw ++ " is not an integer identity")⟩
  else none

namespace CommitRequest

def isEmpty (request : CommitRequest) : Bool :=
  request.created.isEmpty && request.changed.isEmpty && request.deleted.isEmpty

/-- Sorts records by their state. One record without a usable identity fails the request. -/
def ofRecords (records : List Record) : Except Error CommitRequest :=
  let failures := records.zipIdx.filterMap Record.identityFailure?
  if failures.isEmpty then
    .ok {
      created := (records.filter (·.state = .created)).map Record.fields
      changed := (records.filter (·.state = .changed)).map Record.changes
      deleted := (records.filter (·.state = .deleted)).filterMap Record.objectId? }
  else .error (.batch failures)

def toJson (request : CommitRequest) : Json :=
  .object [
    ("created", .array (request.created.map Fields.toJson)),
    ("changed", .array (request.changed.map ChangeSet.toJson)),
    ("deleted", .array (request.deleted.map fun id => .integer id.toInt))]

end CommitRequest

structure CommitReply where
  status : String
  commitId : Int64
  message : Option String

namespace CommitReply

def jsonFields : List (Json.Field CommitReply) :=
  [⟨"status", true, fun r j => j.toText.map fun s => { r with status := s }⟩,
   ⟨"commit_id", false, fun r j => j.toInt64.map fun n => { r with commitId := n }⟩,
   ⟨"message", false, fun r j => j.toText?.map fun s => { r with message := s }⟩]

def ofJson (j : Json) : Except Mismatch CommitReply :=
  j.toRecord "CommitResponse" jsonFields ⟨"", 0, none⟩

/-- The commit id, if the service took the commit. -/
def accepted (j : Json) : Except Error Int64 :=
  match ofJson j with
  | .error e => .error (.decode ("failed to decode commit response: " ++ e.message))
  | .ok r =>
    if r.status = "success" then .ok r.commitId
    else .error (.commitFailed (r.message.getD r.status))

end CommitReply

variable {τ : Type} [Transport τ]

def CommitRequest.send (request : CommitRequest) (t : τ) : Except Error Int64 × τ :=
  match Transport.send t .commit request.toJson.sorted with
  | (.ok reply, t) => (CommitReply.accepted reply, t)
  | (.error e, t) => (.error e, t)

def commit (records : List Record) (t : τ) : Except Error Int64 × List Record × τ :=
  match CommitRequest.ofRecords records with
  | .error e => (.error e, records, t)
  | .ok request =>
    match request.send t with
    | (.ok id, t) => (.ok id, records.map Record.confirm, t)
    | (.error e, t) => (.error e, records, t)

def RecordSet.commit (s : RecordSet) (t : τ) : Except Error Int64 × RecordSet × τ :=
  let (answer, records, t) := Inventory.commit s.records t
  (answer, ⟨records⟩, t)

def Record.commit (r : Record) (t : τ) : Except Error Int64 × Record × τ :=
  let (answer, records, t) := Inventory.commit [r] t
  (answer, records.headD r, t)

end Inventory
