import Inventory.Double.Decimal
import Inventory.Text.Decimal

/-! The double nearest to a decimal text: an optional sign, digits with at most one point among or
around them, and an optional exponent. -/

namespace Inventory

namespace Decimal

open Text (isDigit ofDigits readInt?)

def readExponent? (digits : Nat) (places : Nat) : List Char → Option Decimal
  | [] => some ⟨digits, -places⟩
  | c :: rest =>
    if c = 'e' ∨ c = 'E' then (readInt? rest).map fun e => ⟨digits, e - places⟩ else none

def read? (s : List Char) : Option Decimal :=
  let whole := s.takeWhile isDigit
  let (fraction, rest) := match s.dropWhile isDigit with
    | '.' :: rest => (rest.takeWhile isDigit, rest.dropWhile isDigit)
    | rest => ([], rest)
  if whole = [] ∧ fraction = [] then none
  else readExponent? (ofDigits (whole ++ fraction)) fraction.length rest

/-- An exponent this far out already gives infinity or zero, so going further changes nothing. -/
def clamp (d : Decimal) (length : Nat) : Decimal :=
  ⟨d.digits, max (min d.exponent 400) (-(400 + length : Int))⟩

end Decimal

def Double.read? (s : List Char) : Option Double :=
  let (negative, body) := match s with
    | '-' :: rest => (true, rest)
    | '+' :: rest => (false, rest)
    | _ => (false, s)
  (Decimal.read? body).map fun d => (d.clamp body.length).toDouble negative

end Inventory
