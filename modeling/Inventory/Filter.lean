import Inventory.Value.Json

/-! Conditions on attributes. A condition is a plain value, which asks for equality, or a filter: a
named operation with one operand. Operands nest. Nothing is checked here; the service rejects
operands it cannot use. -/

namespace Inventory

inductive Operation where
  | any
  | all
  | containedBy
  | containedOnlyBy
  | contains
  | empty
  | greaterThan
  | greaterThanOrEquals
  | lessThan
  | lessThanOrEquals
  | not
  | overlaps
  | regexp
  | startsWith
  /-- An operation without a registered name, passed on as it is. -/
  | other (name : String)
deriving DecidableEq

namespace Operation

def name : Operation → String
  | any => "Any"
  | all => "All"
  | containedBy => "ContainedBy"
  | containedOnlyBy => "ContainedOnlyBy"
  | contains => "Contains"
  | empty => "Empty"
  | greaterThan => "GreaterThan"
  | greaterThanOrEquals => "GreaterThanOrEquals"
  | lessThan => "LessThan"
  | lessThanOrEquals => "LessThanOrEquals"
  | not => "Not"
  | overlaps => "Overlaps"
  | regexp => "Regexp"
  | startsWith => "StartsWith"
  | other name => name

def registered : List Operation :=
  [any, all, containedBy, containedOnlyBy, contains, empty, greaterThan, greaterThanOrEquals,
   lessThan, lessThanOrEquals, not, overlaps, regexp, startsWith]

/-- The text with its ASCII capitals in lower case. -/
def folded (name : String) : List Char := name.toList.map Char.toLower

/-- The registered operation of this name, whatever the case of its ASCII letters. -/
def lookup (name : String) : Operation :=
  match registered.find? fun op => folded op.name == folded name with
  | some op => op
  | none => other name

/-- These take a list even of one or no operand. -/
def isVariadic (op : Operation) : Bool := op == any || op == all

end Operation

inductive Operand where
  | absent
  | value (v : Value)
  | filter (op : Operation) (operand : Operand)
  | list (items : List Operand)

structure Filter where
  operation : Operation
  operand : Operand

inductive Condition where
  | value (v : Value)
  | filter (f : Filter)

namespace Operand

mutual

def beq : Operand → Operand → Bool
  | .absent, .absent => true
  | .value v, .value w => v == w
  | .filter p x, .filter q y => p == q && beq x y
  | .list xs, .list ys => beqAll xs ys
  | _, _ => false

def beqAll : List Operand → List Operand → Bool
  | [], [] => true
  | x :: xs, y :: ys => beq x y && beqAll xs ys
  | _, _ => false

end

instance : BEq Operand := ⟨beq⟩

mutual

def toJson : Operand → Json
  | .absent => .null
  | .value v => v.toJson
  | .filter op operand => .object [(op.name, toJson operand)]
  | .list items => .array (allToJson items)

def allToJson : List Operand → List Json
  | [] => []
  | x :: rest => toJson x :: allToJson rest

end

def ofFilter (f : Filter) : Operand := .filter f.operation f.operand

end Operand

namespace Filter

instance : BEq Filter := ⟨fun f g => f.operation == g.operation && f.operand == g.operand⟩

def toJson (f : Filter) : Json := (Operand.ofFilter f).toJson

def wire (f : Filter) : String := f.toJson.compact

def any (operands : List Operand) : Filter := ⟨.any, .list operands⟩

def all (operands : List Operand) : Filter := ⟨.all, .list operands⟩

def not (operand : Operand) : Filter := ⟨.not, operand⟩

def empty : Filter := ⟨.empty, .absent⟩

def notEmpty : Filter := not (.ofFilter empty)

def contains (operand : Operand) : Filter := ⟨.contains, operand⟩

def containedBy (operand : Operand) : Filter := ⟨.containedBy, operand⟩

def containedOnlyBy (operand : Operand) : Filter := ⟨.containedOnlyBy, operand⟩

def overlaps (operand : Operand) : Filter := ⟨.overlaps, operand⟩

def greaterThan (v : Value) : Filter := ⟨.greaterThan, .value v⟩

def greaterThanOrEquals (v : Value) : Filter := ⟨.greaterThanOrEquals, .value v⟩

def lessThan (v : Value) : Filter := ⟨.lessThan, .value v⟩

def lessThanOrEquals (v : Value) : Filter := ⟨.lessThanOrEquals, .value v⟩

def regexp (pattern : String) : Filter := ⟨.regexp, .value (.text pattern)⟩

def startsWith (start : String) : Filter := ⟨.startsWith, .value (.text start)⟩

end Filter

namespace Condition

def toOperand : Condition → Operand
  | .value v => .value v
  | .filter f => .ofFilter f

def toJson (c : Condition) : Json := c.toOperand.toJson

def beq : Condition → Condition → Bool
  | .value v, .value w => v == w
  | .filter f, .filter g => f == g
  | _, _ => false

instance : BEq Condition := ⟨beq⟩

end Condition

abbrev Filters := TextMap Condition

namespace Filters

def toJson (filters : Filters) : Json :=
  .object (filters.entries.map fun (name, c) => (name, c.toJson))

def wire (filters : Filters) : String := filters.toJson.compact

end Filters

end Inventory
