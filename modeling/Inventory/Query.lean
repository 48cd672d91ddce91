import Inventory.Endpoint
import Inventory.QueryText.Parser
import Inventory.RecordSet

/-! Queries. The first use of the results fetches them; later uses see what was fetched, with the
edits made to it since. -/

namespace Inventory

structure QueryRequest where
  filters : Filters
  restrict : List String
  orderBy : Option String

def QueryRequest.toJson (request : QueryRequest) : Json :=
  .object ([("filters", request.filters.toJson), ("restrict", .ofTexts request.restrict)]
    ++ (request.orderBy.map fun name => ("order_by", Json.text name)).toList)

structure QueryReply where
  status : Option String
  message : Option String
  result : List Fields

namespace QueryReply

def jsonFields : List (Json.Field QueryReply) :=
  [⟨"status", false, fun r j => j.toText?.map fun s => { r with status := s }⟩,
   ⟨"message", false, fun r j => j.toText?.map fun s => { r with message := s }⟩,
   ⟨"result", true, fun r j => (Fields.listOfJson j).map fun l => { r with result := l }⟩]

def ofJson (j : Json) : Except Mismatch QueryReply :=
  j.toRecord "QueryResponse" jsonFields ⟨none, none, []⟩

/-- The records of a reply that reports no error. -/
def records (j : Json) : Except Error RecordSet :=
  match ofJson j with
  | .error e => .error (.decode ("failed to decode query response: " ++ e.message))
  | .ok r =>
    if r.status = some "error" then .error (.queryFailed (r.message.getD "query failed"))
    else .ok ⟨r.result.map Record.ofFields⟩

end QueryReply

structure Query where
  filters : Filters
  attributes : List String
  orderBy : Option String
  loaded : Option RecordSet

namespace Query

def defaultAttributes : List String := [objectIdName, "hostname"]

def ofFilters (filters : Filters) : Query := ⟨filters, defaultAttributes, none, none⟩

def ofText (s : String) : Except Error Query :=
  match QueryText.parse s.toList with
  | .ok filters => .ok (ofFilters filters)
  | .error e => .error (.ofSyntax e)

def setAttributes (q : Query) (names : List String) : Query := { q with attributes := names }

def addAttributes (q : Query) (names : List String) : Query :=
  { q with attributes := q.attributes ++ names }

def sortBy (q : Query) (name : String) : Query := { q with orderBy := some name }

def addFilter (q : Query) (field : String) (c : Condition) : Query :=
  { q with filters := q.filters.insert field c }

def isLoaded (q : Query) : Bool := q.loaded.isSome

/-- Records cannot be changed without their identity, so it is always asked for. -/
def request (q : Query) : QueryRequest where
  filters := q.filters
  restrict :=
    if q.attributes.contains objectIdName then q.attributes else q.attributes ++ [objectIdName]
  orderBy := q.orderBy

variable {τ : Type} [Transport τ]

def fetch (request : QueryRequest) (t : τ) : Except Error RecordSet × τ :=
  match Transport.send t .query request.toJson.sorted with
  | (.ok reply, t) => (QueryReply.records reply, t)
  | (.error e, t) => (.error e, t)

def all (q : Query) (t : τ) : Except Error RecordSet × Query × τ :=
  match q.loaded with
  | some set => (.ok set, q, t)
  | none =>
    match fetch q.request t with
    | (.ok set, t) => (.ok set, { q with loaded := some set }, t)
    | (.error e, t) => (.error e, q, t)

def only (set : RecordSet) : Except Error Record :=
  match set.records with
  | [] => .error .noResults
  | [r] => .ok r
  | records => .error (.multipleResults records.length)

def one (q : Query) (t : τ) : Except Error Record × Query × τ :=
  match q.all t with
  | (.ok set, q, t) => (only set, q, t)
  | (.error e, q, t) => (.error e, q, t)

def count (q : Query) (t : τ) : Except Error Nat × Query × τ :=
  match q.all t with
  | (.ok set, q, t) => (.ok set.size, q, t)
  | (.error e, q, t) => (.error e, q, t)

def edit (q : Query) (f : RecordSet → RecordSet) : Query := { q with loaded := q.loaded.map f }

instance : BEq Query := ⟨fun p q =>
  p.filters.agrees Condition.beq q.filters && p.attributes == q.attributes
    && p.orderBy == q.orderBy && p.loaded == q.loaded⟩

end Query

end Inventory
