import Inventory.Double.Basic

/-! Decimals, the double nearest to a decimal, and the shortest decimal that denotes a double.
A candidate of `n` digits is one of the two neighbours of the value on the grid of `n` significant
digits; the first grid with a neighbour that rounds to the value wins. -/

namespace Inventory

/-- The number `digits * 10 ^ exponent`. -/
structure Decimal where
  digits : Nat
  exponent : Int
deriving DecidableEq

namespace Decimal

def numerator (d : Decimal) : Nat := d.digits * Nat.pow 10 d.exponent.toNat

def denominator (d : Decimal) : Nat := Nat.pow 10 (-d.exponent).toNat

def rank (d : Decimal) : Nat := Double.nearestRank d.numerator d.denominator

def toDouble (negative : Bool) (d : Decimal) : Double :=
  Double.ofRank negative d.rank

/-- Drops trailing zeros of the digits; at most `fuel` of them. -/
def strip (d : Decimal) : Nat → Decimal
  | 0 => d
  | fuel + 1 =>
    if d.digits ≠ 0 ∧ d.digits % 10 = 0 then
      strip ⟨d.digits / 10, d.exponent + 1⟩ fuel
    else d

/-- Which of two equally near decimals of one length is taken. -/
inductive Tie where
  | even
  | up
deriving DecidableEq

/-- Of `lower` and `lower + 1` the one that is nearer to a value between them, going by where the
value stands to the point halfway. -/
def nearer (tie : Tie) (lower value halfway : Nat) : Nat :=
  if value < halfway then lower
  else if halfway < value then lower + 1
  else
    match tie with
    | .even => lower + lower % 2
    | .up => lower + 1

/-- The neighbour of `units * 2 ^ -1074` on the grid `10 ^ exponent` that rounds to `rank`; of two
the nearer. -/
def onGrid? (tie : Tie) (rank : Nat) (units lower : Nat) (exponent : Int) : Option Decimal :=
  let low : Decimal := ⟨lower, exponent⟩
  let high : Decimal := ⟨lower + 1, exponent⟩
  let middle : Decimal := ⟨2 * lower + 1, exponent⟩
  if low.rank = rank then
    if high.rank = rank then
      some ⟨nearer tie lower (2 * units * middle.denominator) (middle.numerator <<< 1074), exponent⟩
    else some low
  else if high.rank = rank then some high
  else none

/-- The value with 341 decimal places, enough for eighteen digits of the least magnitude. -/
def places : Nat := 341

/-- The decimal of fewest digits, at most seventeen, that rounds to the magnitude of this rank. -/
def candidate? (tie : Tie) (rank : Nat) : Option Decimal :=
  let units := Double.units rank
  let long := (units * Nat.pow 10 places) >>> 1074
  let length := (Nat.toDigits 10 long).length
  (List.range 17).findSome? fun n =>
    let dropped := length - (n + 1)
    onGrid? tie rank units (long / Nat.pow 10 dropped) ((dropped : Int) - places)

/-- The decimal with the very value of the magnitude. -/
def exact (rank : Nat) : Decimal := ⟨Double.units rank * Nat.pow 5 1074, -1074⟩

/-- A shortest decimal that rounds to the magnitude of this rank. Should no grid of at most
seventeen digits have one, the exact decimal of the magnitude serves. -/
def shortest (tie : Tie) (rank : Nat) : Decimal :=
  ((candidate? tie rank).map (·.strip 17)).getD (exact rank)

end Decimal

end Inventory
