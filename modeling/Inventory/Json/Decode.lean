import Inventory.Json.Basic
import Inventory.Text.Quoted

/-! Reading typed data out of a sorted JSON tree, and why it can fail. A record of fields comes as
an object, whose unknown members are passed over, or as the array of its fields in their declared
order. -/

namespace Inventory

inductive Mismatch where
  | wrongType (found : Json) (wanted : String)
  | outOfRange (n : Int)
  | missing (field : String)
  | tooFew (index : Nat) (record : String) (fields : Nat)
  | tooMany (length : Nat)
  | notValue

namespace Mismatch

def kindOf : Json → String
  | .null => "null"
  | .bool b => s!"boolean `{b}`"
  | .integer n => s!"integer `{n}`"
  | .float d => "floating point `" ++ d.positional?.getD "" ++ "`"
  | .text s => "string " ++ Text.quoted s
  | .array _ => "sequence"
  | .object _ => "map"

def message : Mismatch → String
  | .wrongType found wanted => "invalid type: " ++ kindOf found ++ ", expected " ++ wanted
  | .outOfRange n => s!"invalid value: integer `{n}`, expected i64"
  | .missing field => "missing field `" ++ field ++ "`"
  | .tooFew index record fields =>
    s!"invalid length {index}, expected struct {record} with {fields} element"
      ++ if fields = 1 then "" else "s"
  | .tooMany length => s!"invalid length {length}, expected fewer elements in array"
  | .notValue => "data did not match any variant of untagged enum Value"

end Mismatch

namespace Json

def toText : Json → Except Mismatch String
  | .text s => .ok s
  | j => .error (.wrongType j "a string")

/-- Null stands for no text. -/
def toText? : Json → Except Mismatch (Option String)
  | .null => .ok none
  | j => (toText j).map some

def toInt64 : Json → Except Mismatch Int64
  | .integer n =>
    if Int64.minValue.toInt ≤ n ∧ n ≤ Int64.maxValue.toInt then .ok (.ofInt n)
    else .error (.outOfRange n)
  | j => .error (.wrongType j "i64")

/-- A field of a record that is read piece by piece into `σ`. -/
structure Field (σ : Type) where
  name : String
  required : Bool
  read : σ → Json → Except Mismatch σ

variable {σ : Type}

def readMembers (fields : List (Field σ)) : List (String × Json) → σ → Except Mismatch σ
  | [], acc => .ok acc
  | (key, j) :: rest, acc =>
    match fields.find? (·.name == key) with
    | some field =>
      match field.read acc j with
      | .ok acc => readMembers fields rest acc
      | .error e => .error e
    | none => readMembers fields rest acc

def readItems (record : String) (count : Nat) :
    Nat → List (Field σ) → List Json → σ → Except Mismatch σ
  | _, [], _, acc => .ok acc
  | index, field :: fields, [], acc =>
    if field.required then .error (.tooFew index record count)
    else readItems record count (index + 1) fields [] acc
  | index, field :: fields, j :: rest, acc =>
    match field.read acc j with
    | .ok acc => readItems record count (index + 1) fields rest acc
    | .error e => .error e

/-- Reads a record; `blank` holds the values of the fields that may be left out. -/
def toRecord (record : String) (fields : List (Field σ)) (blank : σ) : Json → Except Mismatch σ
  | .object members =>
    match readMembers fields members blank with
    | .ok acc =>
      match fields.find? fun f => f.required && !members.any (·.1 == f.name) with
      | some field => .error (.missing field.name)
      | none => .ok acc
    | .error e => .error e
  | .array items =>
    match readItems record fields.length 0 fields items blank with
    | .ok acc => if fields.length < items.length then .error (.tooMany items.length) else .ok acc
    | .error e => .error e
  | j => .error (.wrongType j ("struct " ++ record))

end Json

end Inventory
