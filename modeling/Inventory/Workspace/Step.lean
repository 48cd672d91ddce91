import Inventory.Json.Reader
import Inventory.Workspace.Basic

/-! The operations on a workspace as data, so that whole programs can be run and compared. -/

namespace Inventory

inductive RecordStep where
  | set (field : String) (v : Value)
  | get (field : String)
  | getText (field : String)
  | getMulti (field : String)
  | hasField (field : String)
  | prior (field : String)
  | objectId
  | delete
  | rollback
  | state
  | changes
  | commit
  | editMulti (field : String) (edits : List MultiValue.Edit)

inductive SetStep where
  | push (r : Record)
  | size
  | get (index : Nat)
  | set (field : String) (v : Value)
  | setEach (field : String) (values : List Value)
  | delete
  | rollback
  | commit
  | states
  | ids
  | request

inductive QueryStep where
  | setAttributes (names : List String)
  | addAttributes (names : List String)
  | sortBy (name : String)
  | addFilter (field : String) (c : Condition)
  | request
  | isLoaded
  | all
  | one
  | count

inductive Step where
  | onRecord (target : Target) (step : RecordStep)
  | onSet (name : String) (step : SetStep)
  | onQuery (name : String) (step : QueryStep)
  | newRecord (name : String) (fields : Fields)
  /-- A record of the object that a JSON text spells. Of a text that spells nothing the reader of JSON
  says why. -/
  | readRecord (name : String) (text : String) (why : String)
  | copy (name : String) (target : Target)
  | equal (name other : String)
  | collect (name : String) (targets : List Target)
  | pushFrom (name : String) (target : Target)
  | newQuery (name : String) (filters : Filters)
  | readQuery (name : String) (text : String)
  | detach (name query : String)
  | newObject (name servertype : String)
  | createObject (name servertype : String) (attributes : List (String × Value))
  | send (endpoint : Endpoint) (payload : Json)

inductive Answer where
  | done
  | flag (b : Bool)
  | count (n : Nat)
  | text (s : String)
  | texts (l : List String)
  | value (v : Option Value)
  | multi (m : MultiValue)
  | id (id : Option Int64)
  | ids (ids : List (Option Int64))
  | state (s : CommitState)
  | states (l : List CommitState)
  | changes (c : ChangeSet)
  | committed (id : Int64)
  | record (r : Option Record)
  | request (r : CommitRequest)
  | query (q : Query)
  | filters (f : Filters)
  | json (j : Json)

variable {τ : Type} [Transport τ]

/-- The strings before they are stored. -/
def Record.editMulti (r : Record) (field : String) (edits : List MultiValue.Edit) :
    Except Error (MultiValue × Record) :=
  let edited := edits.foldl MultiValue.apply (r.getMulti field)
  (r.set field edited.toValue).map (edited, ·)

def RecordStep.run (r : Record) (t : τ) : RecordStep → Except Error Answer × Record × τ
  | set field v =>
    match r.set field v with
    | .ok r => (.ok .done, r, t)
    | .error e => (.error e, r, t)
  | get field => (.ok (.value (r.get? field)), r, t)
  | getText field => (.ok (.text (r.getText field)), r, t)
  | getMulti field => (.ok (.multi (r.getMulti field)), r, t)
  | hasField field => (.ok (.flag (r.hasField field)), r, t)
  | prior field => (.ok (.value (r.prior.get? field)), r, t)
  | objectId => (.ok (.id r.objectId?), r, t)
  | delete => (.ok .done, r.delete, t)
  | rollback => (.ok .done, r.rollback, t)
  | state => (.ok (.state r.state), r, t)
  | changes => (.ok (.changes r.changes), r, t)
  | commit =>
    match r.commit t with
    | (.ok id, r, t) => (.ok (.committed id), r, t)
    | (.error e, r, t) => (.error e, r, t)
  | editMulti field edits =>
    match r.editMulti field edits with
    | .ok (edited, r) => (.ok (.texts edited.items), r, t)
    | .error e => (.error e, r, t)

def SetStep.run (s : RecordSet) (t : τ) : SetStep → Except Error Answer × RecordSet × τ
  | push r => (.ok .done, s.push r, t)
  | size => (.ok (.count s.size), s, t)
  | get index => (.ok (.record (s.get? index)), s, t)
  | set field v =>
    let (answer, s) := s.set field v
    (answer.map fun _ => .done, s, t)
  | setEach field values =>
    let (answer, records) := RecordSet.setEach field s.records values
    (answer.map fun _ => .done, ⟨records⟩, t)
  | delete => (.ok .done, s.delete, t)
  | rollback => (.ok .done, s.rollback, t)
  | commit =>
    match s.commit t with
    | (.ok id, s, t) => (.ok (.committed id), s, t)
    | (.error e, s, t) => (.error e, s, t)
  | states => (.ok (.states (s.records.map Record.state)), s, t)
  | ids => (.ok (.ids (s.records.map Record.objectId?)), s, t)
  | request => ((CommitRequest.ofRecords s.records).map .request, s, t)

def QueryStep.run (q : Query) (t : τ) : QueryStep → Except Error Answer × Query × τ
  | setAttributes names =>
    let q := q.setAttributes names
    (.ok (.texts q.attributes), q, t)
  | addAttributes names =>
    let q := q.addAttributes names
    (.ok (.texts q.attributes), q, t)
  | sortBy name => (.ok .done, q.sortBy name, t)
  | addFilter field c =>
    let q := q.addFilter field c
    (.ok (.filters q.filters), q, t)
  | request => (.ok (.json q.request.toJson), q, t)
  | isLoaded => (.ok (.flag q.isLoaded), q, t)
  | all =>
    match q.all t with
    | (answer, q, t) => (answer.map fun s => .count s.size, q, t)
  | one =>
    match q.one t with
    | (answer, q, t) => (answer.map fun r => .record (some r), q, t)
  | count =>
    match q.count t with
    | (answer, q, t) => (answer.map .count, q, t)

def Record.ofText (text : String) (why : String) : Except Error Record :=
  match Json.parseSorted? text with
  | none => .error (.decode why)
  | some j =>
    match Fields.ofJson j with
    | .ok fields => .ok (.ofFields fields)
    | .error e => .error (.ofMismatch e)

namespace Workspace

def answered {α : Type} (w : Workspace τ) (answer : Except Failure α)
    (f : α → Answer × Workspace τ) : Except Failure Answer × Workspace τ :=
  match answer with
  | .ok a => (.ok (f a).1, (f a).2)
  | .error e => (.error e, w)

def run (w : Workspace τ) : Step → Except Failure Answer × Workspace τ
  | .onRecord target step => w.onRecord target fun r t => step.run r t
  | .onSet name step => w.onSet name fun s t => step.run s t
  | .onQuery name step => w.onQuery name fun q t => step.run q t
  | .newRecord name fields => (.ok .done, w.put name (.record (.ofFields fields)))
  | .readRecord name text why =>
    match Record.ofText text why with
    | .ok r => (.ok .done, w.put name (.record r))
    | .error e => (.error (.error e), w)
  | .copy name ⟨source, none⟩ =>
    match w.items.get? source with
    | some item => (.ok .done, w.put name item)
    | none => (.error .misuse, w)
  | .copy name target =>
    let (r, w) := w.record target
    w.answered r fun r => (.done, w.put name (.record r))
  | .equal name other =>
    match w.items.get? name, w.items.get? other with
    | some a, some b => (.ok (.flag (a == b)), w)
    | _, _ => (.error .misuse, w)
  | .collect name targets =>
    let (records, w) := w.gather targets
    w.answered records fun records => (.done, w.put name (.records ⟨records⟩))
  | .pushFrom name target =>
    match w.record target with
    | (.ok r, w) => w.onSet name fun s t => (SetStep.push r).run s t
    | (.error e, w) => (.error e, w)
  | .newQuery name filters =>
    let q := Query.ofFilters filters
    (.ok (.query q), w.put name (.query q))
  | .readQuery name text =>
    match Query.ofText text with
    | .ok q => (.ok (.query q), w.put name (.query q))
    | .error e => (.error (.error e), w)
  | .detach name query =>
    let (s, w) := w.onQuery query Query.all
    w.answered s fun s => (.done, w.put name (.records s))
  | .newObject name servertype =>
    let (answer, w) := w.keep name (Inventory.newObject servertype)
    w.answered answer fun _ => (.done, w)
  | .createObject name servertype attributes =>
    let (answer, w) := w.keep name (Inventory.createObject servertype attributes)
    w.answered answer fun _ => (.done, w)
  | .send endpoint payload =>
    match Transport.send w.transport endpoint payload with
    | (.ok reply, t) => (.ok (.json reply), w.reach t)
    | (.error e, t) => (.error (.error e), w.reach t)

end Workspace

end Inventory
