/-! Binary64 numbers as exact data. Every finite magnitude is a whole number of units of 2^-1074,
and the magnitudes in ascending order are numbered from zero by their rank. Up to 2^53 units the
rank is the number of units; above, every further 2^52 ranks double the gap between neighbours.
Rounding a quotient is then integer arithmetic, and rank order is numeric order. -/

namespace Inventory

inductive Double where
  | nan
  | infinite (negative : Bool)
  | finite (negative : Bool) (rank : Fin (2047 <<< 52))
deriving DecidableEq

namespace Double

def zero : Double := .finite false ⟨0, by decide⟩

instance : Inhabited Double := ⟨zero⟩

/-- The quotient to the nearest integer; an exact half goes to the even neighbour. -/
def roundQuotient (num den : Nat) : Nat :=
  let below := num / den
  let twice := 2 * (num % den)
  if twice < den ∨ (twice = den ∧ below % 2 = 0) then below else below + 1

/-- How many units of 2^-1074 the magnitude of this rank holds. -/
def units (rank : Nat) : Nat :=
  if rank < 1 <<< 52 then rank else (1 <<< 52 + rank % (1 <<< 52)) <<< (rank >>> 52 - 1)

/-- The rank of the magnitude nearest to `num / den`, as if ranks had no upper bound. -/
def nearestRank (num den : Nat) : Nat :=
  let scaled := num <<< 1074
  -- the gap between neighbours is 2^doublings units where the quotient lies
  let doublings := (scaled / den).log2 - 52
  doublings <<< 52 + roundQuotient scaled (den <<< doublings)

/-- A rank beyond the largest finite one stands for infinity. -/
def ofRank (negative : Bool) (rank : Nat) : Double :=
  if h : rank < 2047 <<< 52 then .finite negative ⟨rank, h⟩ else .infinite negative

def ofRatio (negative : Bool) (num den : Nat) : Double :=
  ofRank negative (nearestRank num den)

def ofInt (n : Int) : Double :=
  ofRatio (n < 0) n.natAbs 1

def isFinite : Double → Bool
  | .finite _ _ => true
  | _ => false

def neg : Double → Double
  | .nan => .nan
  | .infinite negative => .infinite !negative
  | .finite negative rank => .finite (!negative) rank

/-- Numeric equality: NaN differs from itself, and the two zeros are equal. -/
def beq : Double → Double → Bool
  | .infinite m, .infinite n => m == n
  | .finite m r, .finite n s => r == s && (m == n || r.val == 0)
  | _, _ => false

instance : BEq Double := ⟨beq⟩

/-- The integer this number stands for, if it has no fraction and lies within `-2^63` and `2^63`.
The upper bound itself has no 64-bit form and becomes the largest integer that has one. -/
def toInt64? : Double → Option Int64
  | .finite negative rank =>
    let whole : Nat := units rank >>> 1074
    if units rank % (1 <<< 1074) = 0 ∧ whole ≤ 1 <<< 63 then
      some (if negative then .ofInt (-(whole : Int)) else .ofNat (min whole (1 <<< 63 - 1)))
    else none
  | _ => none

end Double

end Inventory
