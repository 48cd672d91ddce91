import Inventory.Double.Reader
import Inventory.Text.Blank
import Inventory.Value.Basic

/-! Plain words of query text as values: the truth values, integers of 64 bits, other decimals as
floats, and everything else as text. -/

namespace Inventory.QueryText

/-- At least one digit, and besides digits only points and signs. -/
def looksNumeric (s : List Char) : Bool :=
  s.any Text.isDigit && s.all fun c => Text.isDigit c || c == '.' || c == '-' || c == '+'

def literal (s : List Char) : Value :=
  if s = ['t', 'r', 'u', 'e'] then .bool true
  else if s = ['f', 'a', 'l', 's', 'e'] then .bool false
  else
    match Text.readInt64? s with
    | some n => .int n
    | none =>
      match if looksNumeric s then Double.read? s else none with
      | some d => .float d
      | none => .text (String.ofList s)

/-- The inside of a text that begins and ends with the same quote. -/
def unquote? (s : List Char) : Option (List Char) :=
  match s with
  | [] => none
  | q :: rest =>
    if (q = '"' ∨ q = '\'') ∧ rest.getLast? = some q then some rest.dropLast else none

def isNameStart (c : Char) : Bool := c.isAlpha || c == '_'

def isIdentifier : List Char → Bool
  | [] => false
  | c :: rest => isNameStart c && rest.all fun c => isNameStart c || Text.isDigit c

end Inventory.QueryText
