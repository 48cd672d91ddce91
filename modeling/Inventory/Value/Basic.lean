import Inventory.Double.Basic

/-! Attribute values. JSON does not tell 42 from 42.0, so a float without a fraction that lies in
the integer range normalizes to the integer. -/

namespace Inventory

inductive Value where
  | null
  | bool (b : Bool)
  | int (n : Int64)
  | float (d : Double)
  | text (s : String)
  /-- The value of an attribute with many values. -/
  | list (items : List Value)

namespace Value

instance : Inhabited Value := ⟨.null⟩

def isNull : Value → Bool
  | .null => true
  | _ => false

def asText? : Value → Option String
  | .text s => some s
  | _ => none

def asList? : Value → Option (List Value)
  | .list items => some items
  | _ => none

mutual

def normalized : Value → Value
  | .float d =>
    match d.toInt64? with
    | some n => .int n
    | none => .float d
  | .list items => .list (normalizedAll items)
  | .null => .null
  | .bool b => .bool b
  | .int n => .int n
  | .text s => .text s

def normalizedAll : List Value → List Value
  | [] => []
  | v :: rest => normalized v :: normalizedAll rest

end

def asInt64? (v : Value) : Option Int64 :=
  match v.normalized with
  | .int n => some n
  | _ => none

mutual

/-- Whether every number inside can be written as JSON. -/
def isFinite : Value → Bool
  | .float d => d.isFinite
  | .list items => allFinite items
  | .null => true
  | .bool _ => true
  | .int _ => true
  | .text _ => true

def allFinite : List Value → Bool
  | [] => true
  | v :: rest => isFinite v && allFinite rest

end

mutual

/-- Equality of values of one kind; floats compare as numbers, so NaN differs from itself. -/
def beq : Value → Value → Bool
  | .null, .null => true
  | .bool a, .bool b => a == b
  | .int m, .int n => m == n
  | .float d, .float e => d == e
  | .text s, .text t => s == t
  | .list vs, .list ws => beqAll vs ws
  | _, _ => false

def beqAll : List Value → List Value → Bool
  | [], [] => true
  | v :: vs, w :: ws => beq v w && beqAll vs ws
  | _, _ => false

end

instance : BEq Value := ⟨beq⟩

end Value

end Inventory
