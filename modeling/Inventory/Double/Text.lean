import Inventory.Double.Decimal

/-! The two decimal texts of a finite double: the one sent over the wire, which turns to an
exponent for large and small magnitudes, and the positional one used in messages. Both always show
a point or an exponent, so no double is written like an integer. -/

namespace Inventory

def zeros (n : Nat) : String := String.ofList (List.replicate n '0')

namespace Decimal

/-- How many digits stand before the point; negative when zeros follow the point. -/
def point (d : Decimal) : Int := (Nat.toDigits 10 d.digits).length + d.exponent

def positional (d : Decimal) : String :=
  let text := Nat.toDigits 10 d.digits
  if d.point ≤ 0 then "0." ++ zeros (-d.point).toNat ++ String.ofList text
  else if d.exponent ≥ 0 then String.ofList text ++ zeros d.exponent.toNat ++ ".0"
  else
    String.ofList (text.take d.point.toNat) ++ "." ++ String.ofList (text.drop d.point.toNat)

def scientific (d : Decimal) : String :=
  let text := Nat.toDigits 10 d.digits
  let power := d.point - 1
  String.ofList (text.take 1) ++ (if text.length = 1 then "" else ".")
    ++ String.ofList (text.drop 1) ++ (if power < 0 then "e-" else "e+") ++ toString power.natAbs

/-- Positional while the point stands at most four zeros before the digits and at most sixteen
places after their start. -/
def wire (d : Decimal) : String :=
  if -5 < d.point ∧ d.point ≤ 16 then d.positional else d.scientific

end Decimal

namespace Double

def text? (write : Decimal → String) (tie : Decimal.Tie) : Double → Option String
  | .finite negative rank =>
    some ((if negative then "-" else "") ++
      if rank.val = 0 then "0.0" else write (Decimal.shortest tie rank))
  | _ => none

/-- Of two nearest shortest decimals the wire carries the even one. -/
def wire? : Double → Option String := text? Decimal.wire .even

/-- Messages take the upper of two nearest shortest decimals. -/
def positional? : Double → Option String := text? Decimal.positional .up

end Double

end Inventory
