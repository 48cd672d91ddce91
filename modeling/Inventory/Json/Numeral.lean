import Inventory.Json.Basic
import Inventory.Text.Decimal

/-! Number literals of JSON and what they denote. An integer literal that fits 64 bits is an
integer. Any other literal is a double, computed from as many leading digits as fit 64 unsigned
bits and a power of ten, with a rounding at each step; a literal beyond the finite doubles denotes
nothing. -/

namespace Inventory.Json

structure Numeral where
  negative : Bool
  whole : List Char
  /-- Empty if there is no point. -/
  fraction : List Char
  exponent : Option Int

namespace Numeral

open Text (isDigit digitValue ofDigits)

def readExponent? (s : List Char) : Option Int :=
  let (negative, digits) := match s with
    | '-' :: rest => (true, rest)
    | '+' :: rest => (false, rest)
    | _ => (false, s)
  if digits ≠ [] ∧ digits.all isDigit then
    some (if negative then -(ofDigits digits : Int) else ofDigits digits)
  else none

/-- What may follow the whole part and the fraction. -/
def withExponent? (negative : Bool) (whole fraction : List Char) : List Char → Option Numeral
  | [] => some ⟨negative, whole, fraction, none⟩
  | c :: rest =>
    if c = 'e' ∨ c = 'E' then
      (readExponent? rest).map fun e => ⟨negative, whole, fraction, some e⟩
    else none

/-- A whole part without leading zeros, then a fraction, then an exponent, both of them optional. -/
def readUnsigned? (negative : Bool) (s : List Char) : Option Numeral :=
  let whole := s.takeWhile isDigit
  if whole = [] ∨ (whole.head? = some '0' ∧ whole.length ≠ 1) then none
  else
    match s.dropWhile isDigit with
    | '.' :: rest =>
      let fraction := rest.takeWhile isDigit
      if fraction = [] then none
      else withExponent? negative whole fraction (rest.dropWhile isDigit)
    | rest => withExponent? negative whole [] rest

def read? : List Char → Option Numeral
  | '-' :: rest => readUnsigned? true rest
  | s => readUnsigned? false s

/-- Appends digits to a number while it stays below 2^64, and gives the digits left over. -/
def absorb (n : Nat) : List Char → Nat × List Char
  | [] => (n, [])
  | c :: rest =>
    let next := 10 * n + digitValue c
    if next < UInt64.size then absorb next rest else (n, c :: rest)

def product (a b : Double) : Double :=
  match a, b with
  | .finite m r, .finite n s =>
    .ofRatio (m != n) (Double.units r * Double.units s) (1 <<< 2148)
  | _, _ => .nan

def quotient (a b : Double) : Double :=
  match a, b with
  | .finite m r, .finite n s => .ofRatio (m != n) (Double.units r) (Double.units s)
  | _, _ => .nan

def powerOfTen (n : Nat) : Double := .ofRatio false (Nat.pow 10 n) 1

/-- The double times a power of ten, if that is finite. Powers beyond 10^308 are no doubles, so a
smaller exponent is reached by steps of 308. -/
def scale? (d : Double) (exponent : Int) : Option Double :=
  if exponent.natAbs ≤ 308 then
    let scaled :=
      if exponent ≥ 0 then product d (powerOfTen exponent.natAbs)
      else quotient d (powerOfTen exponent.natAbs)
    if scaled.isFinite then some scaled else none
  else if d == .zero then some d
  else if exponent ≥ 0 then none
  else scale? (quotient d (powerOfTen 308)) (exponent + 308)
termination_by exponent.natAbs

def toDouble? (n : Numeral) : Option Double :=
  let (leading, left) := absorb 0 n.whole
  let (significand, ignored) := absorb leading n.fraction
  let exponent : Int :=
    n.exponent.getD 0 + left.length + ignored.length - n.fraction.length
  (scale? (.ofInt significand) exponent).map fun d => if n.negative then d.neg else d

/-- Minus zero has no integer form. -/
def toJson? (n : Numeral) : Option Json :=
  let whole := ofDigits n.whole
  if n.fraction = [] ∧ n.exponent = none ∧
      (if n.negative then 0 < whole ∧ whole ≤ 1 <<< 63 else whole < UInt64.size) then
    some (.integer (if n.negative then -(whole : Int) else whole))
  else n.toDouble?.map .float

end Numeral

end Inventory.Json
