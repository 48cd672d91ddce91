import Inventory.Json.Decode
import Inventory.Json.Printer
import Inventory.Value.Basic

/-! Values as JSON. A tree is a value if it holds no object; integers beyond 64 signed bits become
floats. Two values are the same attribute value when the texts of their normalized forms agree. -/

namespace Inventory

namespace Value

mutual

def toJson : Value → Json
  | .null => .null
  | .bool b => .bool b
  | .int n => .integer n.toInt
  | .float d => .ofDouble d
  | .text s => .text s
  | .list items => .array (allToJson items)

def allToJson : List Value → List Json
  | [] => []
  | v :: rest => toJson v :: allToJson rest

end

mutual

def ofJson? : Json → Option Value
  | .null => some .null
  | .bool b => some (.bool b)
  | .integer n =>
    if Int64.minValue.toInt ≤ n ∧ n ≤ Int64.maxValue.toInt then some (.int (.ofInt n))
    else some (.float (.ofInt n))
  | .float d => some (.float d)
  | .text s => some (.text s)
  | .array items => (allOfJson? items).map .list
  | .object _ => none

def allOfJson? : List Json → Option (List Value)
  | [] => some []
  | j :: rest =>
    match ofJson? j, allOfJson? rest with
    | some v, some vs => some (v :: vs)
    | _, _ => none

end

def ofJson (j : Json) : Except Mismatch Value :=
  match ofJson? j with
  | some v => .ok v
  | none => .error .notValue

def wire (v : Value) : String := v.toJson.compact

def canonical (v : Value) : String := v.normalized.toJson.compact

def sameAs (v w : Value) : Bool := v.canonical == w.canonical

/-- Texts show as they are, all else in canonical form. -/
def display : Value → String
  | .text s => s
  | v => v.canonical

end Value

abbrev Fields := TextMap Value

namespace Fields

def toJson (fields : Fields) : Json := .object (fields.entries.map fun (k, v) => (k, v.toJson))

def readMembers : List (String × Json) → Fields → Except Mismatch Fields
  | [], fields => .ok fields
  | (key, j) :: rest, fields =>
    match Value.ofJson j with
    | .ok v => readMembers rest (fields.insert key v)
    | .error e => .error e

def ofJson : Json → Except Mismatch Fields
  | .object members => readMembers members ∅
  | j => .error (.wrongType j "a map")

def allOfJson : List Json → Except Mismatch (List Fields)
  | [] => .ok []
  | j :: rest =>
    match ofJson j with
    | .ok fields => (allOfJson rest).map (fields :: ·)
    | .error e => .error e

def listOfJson : Json → Except Mismatch (List Fields)
  | .array items => allOfJson items
  | j => .error (.wrongType j "a sequence")

end Fields

end Inventory
