import Inventory.Commit
import Inventory.Query

/-! Creating objects: the service gives the attributes of a new object of a kind, they are filled
in and committed, and the stored object is read back. -/

namespace Inventory

def hostnameName : String := "hostname"

def newObjectFields : List (Json.Field Fields) :=
  [⟨"result", true, fun _ j => Fields.ofJson j⟩]

/-- The attributes of a new object. It has no identity yet. -/
def newRecord (j : Json) : Except Error Record :=
  match j.toRecord "NewObjectResponse" newObjectFields ∅ with
  | .ok fields => .ok (.ofFields (fields.insert objectIdName .null))
  | .error e => .error (.decode ("failed to decode new object response: " ++ e.message))

def Record.setAll (r : Record) : List (String × Value) → Except Error Record
  | [] => .ok r
  | (field, v) :: rest =>
    match r.set field v with
    | .ok r => setAll r rest
    | .error e => .error e

variable {τ : Type} [Transport τ]

def newObject (servertype : String) (t : τ) : Except Error Record × τ :=
  match Transport.send t (.newObject servertype) .null with
  | (.ok reply, t) => (newRecord reply, t)
  | (.error e, t) => (.error e, t)

def lastHostname? (attributes : List (String × Value)) : Option Value :=
  attributes.reverse.lookup hostnameName

def createObject (servertype : String) (attributes : List (String × Value)) (t : τ) :
    Except Error Record × τ :=
  match lastHostname? attributes with
  | none => (.error (.missingField hostnameName), t)
  | some hostname =>
    match newObject servertype t with
    | (.error e, t) => (.error e, t)
    | (.ok fresh, t) =>
      match fresh.setAll attributes with
      | .error e => (.error e, t)
      | .ok filled =>
        match filled.commit t with
        | (.error e, _, t) => (.error (e.context "committing new object"), t)
        | (.ok _, _, t) =>
          match (Query.ofFilters (.ofList [(hostnameName, .value hostname)])).one t with
          | (.ok created, _, t) => (.ok created, t)
          | (.error e, _, t) => (.error (e.context "re-querying created object"), t)

end Inventory
