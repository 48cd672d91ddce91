import Inventory.Proofs.DoubleRank
import Mathlib.Data.Rat.Cast.Order
import Mathlib.Tactic.FieldSimp
import Mathlib.Tactic.Linarith
import Mathlib.Tactic.NormNum
import Mathlib.Tactic.Positivity

/-! The exact values of doubles. Finite doubles with one value are equal or both zero, and a double
has an integer form exactly when its value is an integer from -2^63 up to 2^63, both included; the
upper end takes the form of the integer before it. -/

namespace Inventory.Double

/-- How many of the least positive magnitudes make one. -/
def subunits : Nat := 1 <<< 1074

theorem subunits_pos : 0 < subunits := by
  decide +kernel

/-- The least positive magnitude. -/
def step : ℚ := 1 / subunits

theorem step_pos : 0 < step := by
  have hpos : (0 : ℚ) < subunits := Nat.cast_pos.mpr subunits_pos
  rw [step]
  positivity

theorem subunits_mul_step : (subunits : ℚ) * step = 1 := by
  have hpos : (0 : ℚ) < subunits := Nat.cast_pos.mpr subunits_pos
  rw [step, mul_one_div_cancel (ne_of_gt hpos)]

/-- The exact value of a finite double. -/
def toRat : Double → ℚ
  | .finite negative rank =>
    if negative then -((units rank : ℚ) * step) else (units rank : ℚ) * step
  | _ => 0

theorem units_injective {r s : Nat} (h : units r = units s) : r = s := by
  rw [← nearestRank_units r, h, nearestRank_units]

theorem abs_toRat (negative : Bool) (rank : Fin (2047 <<< 52)) :
    |toRat (.finite negative rank)| = (units rank : ℚ) * step := by
  have hnonneg : 0 ≤ (units rank : ℚ) * step := mul_nonneg (Nat.cast_nonneg _) (le_of_lt step_pos)
  cases negative with
  | true =>
    rw [toRat, if_pos rfl, abs_neg, abs_of_nonneg hnonneg]
  | false =>
    rw [toRat, if_neg Bool.false_ne_true, abs_of_nonneg hnonneg]

theorem toRat_neg (d : Double) : d.neg.toRat = -d.toRat := by
  cases d with
  | nan => exact neg_zero.symm
  | infinite negative => exact neg_zero.symm
  | finite negative rank =>
    cases negative with
    | true => exact (neg_neg _).symm
    | false => rfl

/-- Only zero has two doubles. -/
theorem eq_of_toRat_eq {d e : Double} (hd : d.isFinite = true) (he : e.isFinite = true)
    (h : d.toRat = e.toRat) : d = e ∨ d.toRat = 0 := by
  cases d with
  | nan => cases hd
  | infinite negative => cases hd
  | finite m r =>
    cases e with
    | nan => cases he
    | infinite negative => cases he
    | finite n s =>
      have hunits : units r = units s := by
        have habs := congrArg abs h
        rw [abs_toRat, abs_toRat] at habs
        exact_mod_cast mul_right_cancel₀ (ne_of_gt step_pos) habs
      have hrank : r = s := Fin.ext (units_injective hunits)
      subst hrank
      by_cases hsign : m = n
      · exact .inl (by rw [hsign])
      · right
        have hneg : Double.finite n r = neg (.finite m r) := by
          rw [neg, Bool.eq_not_of_ne fun h => hsign h.symm]
        rw [hneg, toRat_neg] at h
        linarith

theorem toRat_eq_intCast {negative : Bool} {rank : Fin (2047 <<< 52)} {z : Int} :
    toRat (.finite negative rank) = z ↔
      ∃ whole : Nat, units rank = whole * subunits ∧ z = if negative then -(whole : Int) else whole := by
  have hvalue : ∀ whole : Nat, units rank = whole * subunits →
      (units rank : ℚ) * step = whole := by
    intro whole h
    rw [h, Nat.cast_mul, mul_assoc, subunits_mul_step, mul_one]
  constructor
  · intro h
    have habs := congrArg abs h
    rw [abs_toRat, ← Int.cast_abs, Int.abs_eq_natAbs, Int.cast_natCast] at habs
    have hunits : units rank = z.natAbs * subunits := by
      have hcast : ((units rank : Nat) : ℚ) = ((z.natAbs * subunits : Nat) : ℚ) := by
        apply mul_right_cancel₀ (ne_of_gt step_pos)
        rw [habs, Nat.cast_mul, mul_assoc, subunits_mul_step, mul_one]
      exact_mod_cast hcast
    refine ⟨z.natAbs, hunits, ?_⟩
    have hwhole := hvalue _ hunits
    cases negative with
    | true =>
      rw [toRat, if_pos rfl, hwhole] at h
      rw [← Int.cast_natCast, ← Int.cast_neg] at h
      have hz : -(z.natAbs : Int) = z := Int.cast_inj.mp h
      rw [if_pos rfl, hz]
    | false =>
      rw [toRat, if_neg Bool.false_ne_true, hwhole] at h
      rw [← Int.cast_natCast] at h
      have hz : (z.natAbs : Int) = z := Int.cast_inj.mp h
      rw [if_neg Bool.false_ne_true, hz]
  · rintro ⟨whole, hunits, rfl⟩
    rw [toRat, hvalue whole hunits]
    cases negative <;> simp

/-- The conversion to 64 bits saturates at the upper end. -/
theorem toInt_saturated (negative : Bool) {whole : Nat} (h : whole ≤ 2 ^ 63) :
    (if negative then Int64.ofInt (-(whole : Int)) else .ofNat (min whole (2 ^ 63 - 1))).toInt =
      min (if negative then -(whole : Int) else whole) (2 ^ 63 - 1) := by
  cases negative with
  | true =>
    rw [if_pos rfl, if_pos rfl, Int64.toInt_ofInt_of_le (by omega) (by omega)]
    omega
  | false =>
    rw [if_neg Bool.false_ne_true, if_neg Bool.false_ne_true, Int64.toInt_ofNat_of_lt (by omega)]
    omega

/-- The integer form: of 2^63, which has none of 64 bits, it is the integer before. -/
theorem toInt64?_eq_some {d : Double} {n : Int64} : d.toInt64? = some n ↔
    d.isFinite = true ∧ ∃ z : Int, d.toRat = z ∧ -(2 ^ 63) ≤ z ∧ z ≤ 2 ^ 63 ∧
      n.toInt = min z (2 ^ 63 - 1) := by
  cases d with
  | nan => simp [toInt64?, isFinite]
  | infinite negative => simp [toInt64?, isFinite]
  | finite negative rank =>
    have hbits : (1 : Nat) <<< 63 = 2 ^ 63 := rfl
    have hshift : ∀ m n : Nat, m >>> n = m / 1 <<< n := fun m n => by
      rw [Nat.shiftRight_eq_div_pow, Nat.one_shiftLeft]
    simp only [toInt64?, hshift, hbits, ← subunits.eq_1]
    constructor
    · intro h
      split at h
      · rename_i hwhole
        obtain ⟨hmod, hle⟩ := hwhole
        obtain rfl := Option.some.inj h
        have hunits : units rank = units rank / subunits * subunits :=
          (Nat.div_mul_cancel (Nat.dvd_of_mod_eq_zero hmod)).symm
        generalize units rank / subunits = whole at *
        refine ⟨rfl, _, toRat_eq_intCast.mpr ⟨_, hunits, rfl⟩, ?_, ?_, toInt_saturated _ hle⟩
        · split <;> omega
        · split <;> omega
      · cases h
    · rintro ⟨-, z, hz, hlow, hhigh, hn⟩
      obtain ⟨whole, hunits, rfl⟩ := toRat_eq_intCast.mp hz
      have hdiv : units rank / subunits = whole := by
        rw [hunits, Nat.mul_div_cancel _ subunits_pos]
      have hmod : units rank % subunits = 0 := by
        rw [hunits, Nat.mul_mod_left]
      have hle : whole ≤ 2 ^ 63 := by
        cases negative with
        | true =>
          rw [if_pos rfl] at hlow
          omega
        | false =>
          rw [if_neg Bool.false_ne_true] at hhigh
          omega
      rw [hdiv, if_pos ⟨hmod, hle⟩]
      congr 1
      apply Int64.toInt_inj.mp
      rw [hn, toInt_saturated negative hle]

end Inventory.Double
