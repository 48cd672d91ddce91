import Inventory.Double.Basic
import Mathlib.Tactic.Linarith
import Mathlib.Tactic.Ring

/-! Which quotients round to finite doubles. The boundary lies halfway between the largest finite
double and 2^1024; the boundary itself rounds to infinity. -/

namespace Inventory.Double

/-- Halfway between the largest finite double and 2^1024. -/
def overflow : Nat := (2 ^ 54 - 1) * 2 ^ 970

theorem div_le_roundQuotient (num den : Nat) : num / den ≤ roundQuotient num den := by
  simp only [roundQuotient]
  split <;> omega

theorem roundQuotient_le {num den k : Nat} (h : num / den < k) : roundQuotient num den ≤ k := by
  simp only [roundQuotient]
  split <;> omega

/-- The half above an odd number rounds up. -/
theorem lt_roundQuotient_iff {num den k : Nat} (hden : 0 < den) (hk : k % 2 = 1) :
    k < roundQuotient num den ↔ (2 * k + 1) * den ≤ 2 * num := by
  have hsplit : den * (num / den) + num % den = num := Nat.div_add_mod num den
  have hmod : num % den < den := Nat.mod_lt num hden
  simp only [roundQuotient]
  generalize num / den = below at *
  generalize num % den = left at *
  rcases Nat.lt_trichotomy below k with h | rfl | h
  · have hmul : (below + 1) * den ≤ k * den := Nat.mul_le_mul_right den h
    have hless : 2 * num < (2 * k + 1) * den := by linarith
    split <;> omega
  · have hvalue : (2 * below + 1) * den = 2 * (den * below) + den := by ring
    split <;> omega
  · have hmul : (k + 1) * den ≤ below * den := Nat.mul_le_mul_right den h
    have hmore : (2 * k + 1) * den ≤ 2 * num := by linarith
    split <;> omega

/-- How far the scaled quotient reaches, going by the number of its doublings. -/
theorem quotient_bounds {scaled den doublings : Nat} (hden : 0 < den)
    (h : (scaled / den).log2 - 52 = doublings) :
    scaled < 2 ^ (doublings + 53) * den ∧
      (0 < doublings → 2 ^ (doublings + 52) * den ≤ scaled) := by
  have hlog : (scaled / den).log2 < doublings + 53 := by omega
  constructor
  · by_cases hzero : scaled / den = 0
    · have hless : scaled < den := by
        rcases Nat.div_eq_zero_iff.mp hzero with hd | hlt
        · omega
        · exact hlt
      calc scaled < 1 * den := by omega
        _ ≤ 2 ^ (doublings + 53) * den := Nat.mul_le_mul_right den Nat.one_le_two_pow
    · exact (Nat.div_lt_iff_lt_mul hden).mp ((Nat.log2_lt hzero).mp hlog)
  · intro hpos
    have hne : scaled / den ≠ 0 := by
      intro hzero
      rw [hzero] at h
      have hlog0 : Nat.log2 0 = 0 := rfl
      omega
    have hle : doublings + 52 ≤ (scaled / den).log2 := by omega
    exact (Nat.le_div_iff_mul_le hden).mp ((Nat.le_log2 hne).mp hle)

/-- The significand of the rank lies between 2^52 and 2^53, the latter included. -/
theorem roundQuotient_bounds {scaled den doublings : Nat} (hden : 0 < den)
    (h : (scaled / den).log2 - 52 = doublings) :
    roundQuotient scaled (den <<< doublings) ≤ 2 ^ 53 ∧
      (0 < doublings → 2 ^ 52 ≤ roundQuotient scaled (den <<< doublings)) := by
  obtain ⟨hupper, hlower⟩ := quotient_bounds hden h
  have hpos : 0 < den * 2 ^ doublings := Nat.mul_pos hden (Nat.two_pow_pos doublings)
  rw [Nat.shiftLeft_eq]
  constructor
  · apply roundQuotient_le
    rw [Nat.div_lt_iff_lt_mul hpos, Nat.mul_comm den, ← Nat.mul_assoc, ← Nat.pow_add,
      Nat.add_comm 53]
    exact hupper
  · intro hd
    refine Nat.le_trans ?_ (div_le_roundQuotient _ _)
    rw [Nat.le_div_iff_mul_le hpos, Nat.mul_comm den, ← Nat.mul_assoc, ← Nat.pow_add,
      Nat.add_comm 52]
    exact hlower hd

theorem overflow_scaled (den u : Nat) :
    overflow * den * 2 ^ (u + 1) = (2 ^ 54 - 1) * (den * 2 ^ (u + 971)) := by
  have hpower : 2 ^ 970 * 2 ^ (u + 1) = 2 ^ (u + 971) := by
    rw [← Nat.pow_add]
    congr 1
    omega
  rw [overflow, ← hpower]
  generalize 2 ^ 970 = p
  ring

theorem nearestRank_lt_iff (num : Nat) {den : Nat} (hden : 0 < den) :
    nearestRank num den < 2047 <<< 52 ↔ num < overflow * den := by
  have hend : (2047 : Nat) <<< 52 = 2047 * 2 ^ 52 := Nat.shiftLeft_eq _ _
  -- the exponents stay variables, so that no power of that size is computed
  obtain ⟨u, hu⟩ : ∃ u, u = 1074 := ⟨_, rfl⟩
  have hscale : num < overflow * den ↔
      2 * (num * 2 ^ u) < (2 ^ 54 - 1) * (den * 2 ^ (u + 971)) := by
    rw [← overflow_scaled, ← Nat.mul_lt_mul_right (Nat.two_pow_pos (u + 1)), Nat.pow_succ]
    constructor <;> intro h <;> linarith
  have hpos : 0 < den * 2 ^ (u + 971) := Nat.mul_pos hden (Nat.two_pow_pos _)
  rw [hscale, hend]
  simp only [nearestRank, ← hu]
  rw [Nat.shiftLeft_eq num]
  generalize num * 2 ^ u = scaled
  obtain ⟨doublings, hd⟩ : ∃ doublings, (scaled / den).log2 - 52 = doublings := ⟨_, rfl⟩
  obtain ⟨hupper, hlower⟩ := quotient_bounds hden hd
  obtain ⟨hmost, hleast⟩ := roundQuotient_bounds hden hd
  rw [hd, Nat.shiftLeft_eq doublings]
  rcases Nat.lt_trichotomy doublings (u + 971) with h | h | h
  · have hpower : 2 ^ (doublings + 53) ≤ 2 ^ 52 * 2 ^ (u + 971) := by
      rw [← Nat.pow_add]
      exact Nat.pow_le_pow_right (by decide) (by omega)
    have hle : 2 ^ (doublings + 53) * den ≤ 2 ^ 52 * (den * 2 ^ (u + 971)) := by
      calc 2 ^ (doublings + 53) * den ≤ 2 ^ 52 * 2 ^ (u + 971) * den :=
            Nat.mul_le_mul_right den hpower
        _ = 2 ^ 52 * (den * 2 ^ (u + 971)) := by rw [Nat.mul_assoc, Nat.mul_comm den]
    omega
  · have hround := @lt_roundQuotient_iff scaled _ (2 ^ 53 - 1) hpos (by decide)
    rw [h, Nat.shiftLeft_eq den] at hmost ⊢
    omega
  · have hpower : 2 ^ 53 * 2 ^ (u + 971) ≤ 2 ^ (doublings + 52) := by
      rw [← Nat.pow_add]
      exact Nat.pow_le_pow_right (by decide) (by omega)
    have hle : 2 ^ 53 * (den * 2 ^ (u + 971)) ≤ 2 ^ (doublings + 52) * den := by
      calc 2 ^ 53 * (den * 2 ^ (u + 971)) = 2 ^ 53 * 2 ^ (u + 971) * den := by
            rw [Nat.mul_assoc, Nat.mul_comm den]
        _ ≤ 2 ^ (doublings + 52) * den := Nat.mul_le_mul_right den hpower
    have hlarge := hlower (by omega)
    have hround := hleast (by omega)
    omega

theorem isFinite_ofRank (negative : Bool) (rank : Nat) :
    (ofRank negative rank).isFinite = true ↔ rank < 2047 <<< 52 := by
  rw [ofRank]
  split
  · rename_i h
    exact ⟨fun _ => h, fun _ => rfl⟩
  · rename_i h
    exact ⟨nofun, fun hlt => absurd hlt h⟩

theorem isFinite_ofRatio (negative : Bool) (num : Nat) {den : Nat} (hden : 0 < den) :
    (ofRatio negative num den).isFinite = true ↔ num < overflow * den := by
  rw [ofRatio, isFinite_ofRank, nearestRank_lt_iff num hden]

theorem isFinite_ofInt (n : Int) : (ofInt n).isFinite = true ↔ n.natAbs < overflow := by
  rw [ofInt, isFinite_ofRatio _ _ Nat.one_pos, Nat.mul_one]

theorem isFinite_ofInt_of_le {n : Int} (h : n.natAbs ≤ 2 ^ 64) : (ofInt n).isFinite = true := by
  obtain ⟨m, hm⟩ : ∃ m, m = 970 := ⟨_, rfl⟩
  have hpower : 2 ^ 64 ≤ 2 ^ m := Nat.pow_le_pow_right (by decide) (by omega)
  rw [isFinite_ofInt, overflow, ← hm]
  omega

end Inventory.Double
