/-! Decimal digits as read from text. -/

namespace Inventory.Text

def isDigit (c : Char) : Bool := '0' ≤ c && c ≤ '9'

def digitValue (c : Char) : Nat := c.toNat - '0'.toNat

def ofDigits (digits : List Char) : Nat :=
  digits.foldl (fun n c => 10 * n + digitValue c) 0

/-- An unsigned number of digits only, with an optional plus sign. -/
def readNat? (s : List Char) : Option Nat :=
  let digits := match s with
    | '+' :: rest => rest
    | _ => s
  if digits ≠ [] ∧ digits.all isDigit then some (ofDigits digits) else none

def readInt? (s : List Char) : Option Int :=
  match s with
  | '-' :: rest =>
    if rest ≠ [] ∧ rest.all isDigit then some (-(ofDigits rest : Int)) else none
  | _ => (readNat? s).map Int.ofNat

def readInt64? (s : List Char) : Option Int64 :=
  match readInt? s with
  | some n => if Int64.minValue.toInt ≤ n ∧ n ≤ Int64.maxValue.toInt then some (.ofInt n) else none
  | none => none

end Inventory.Text
