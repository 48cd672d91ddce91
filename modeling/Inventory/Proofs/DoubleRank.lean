import Inventory.Double.Decimal
import Mathlib.Algebra.Ring.Nat
import Mathlib.Tactic.SplitIfs

/-! Magnitudes and their ranks. A quotient is rounded alike however it is written, and the magnitude
of a rank is rounded to that rank. So each finite double is the double nearest to the decimal it is
written as. -/

namespace Inventory

namespace Double

theorem roundQuotient_mul_right (num den : Nat) {k : Nat} (hk : 0 < k) :
    roundQuotient (num * k) (den * k) = roundQuotient num den := by
  have hless : 2 * (num % den * k) < den * k ↔ 2 * (num % den) < den := by
    rw [← Nat.mul_assoc]
    exact Nat.mul_lt_mul_right hk
  have heven : 2 * (num % den * k) = den * k ↔ 2 * (num % den) = den := by
    rw [← Nat.mul_assoc]
    exact Nat.mul_left_inj (Nat.ne_of_gt hk)
  simp only [roundQuotient, Nat.mul_div_mul_right _ _ hk, Nat.mul_mod_mul_right, hless, heven]

theorem nearestRank_mul_right (num den : Nat) {k : Nat} (hk : 0 < k) :
    nearestRank (num * k) (den * k) = nearestRank num den := by
  have hnum : (num * k) <<< 1074 = num <<< 1074 * k := by
    rw [Nat.shiftLeft_eq, Nat.shiftLeft_eq, Nat.mul_right_comm]
  have hden : ∀ n, (den * k) <<< n = den <<< n * k := by
    intro n
    rw [Nat.shiftLeft_eq, Nat.shiftLeft_eq, Nat.mul_right_comm]
  simp only [nearestRank, hnum, hden, Nat.mul_div_mul_right _ _ hk, roundQuotient_mul_right _ _ hk]

theorem roundQuotient_of_whole (n : Nat) {den : Nat} (h : 0 < den) :
    roundQuotient (n * den) den = n := by
  simp [roundQuotient, Nat.mul_div_cancel _ h, h]

theorem units_of_lt {rank : Nat} (h : rank < 2 ^ 52) : units rank = rank :=
  if_pos (by rwa [Nat.one_shiftLeft])

/-- Above the lowest magnitudes a rank holds a significand of 53 bits and a number of doublings. -/
theorem exists_significand {rank : Nat} (h : 2 ^ 52 ≤ rank) :
    ∃ significand doublings, 2 ^ 52 ≤ significand ∧ significand < 2 ^ 53 ∧
      rank = doublings * 2 ^ 52 + significand ∧ units rank = significand * 2 ^ doublings := by
  have hquotient : 1 ≤ rank / 2 ^ 52 := (Nat.one_le_div_iff (by decide)).mpr h
  have hsplit : rank / 2 ^ 52 * 2 ^ 52 + rank % 2 ^ 52 = rank := by
    rw [Nat.mul_comm]
    exact Nat.div_add_mod rank _
  have hmod : rank % 2 ^ 52 < 2 ^ 52 := Nat.mod_lt _ (by decide)
  refine ⟨2 ^ 52 + rank % 2 ^ 52, rank / 2 ^ 52 - 1, by omega, by omega, ?_, ?_⟩
  · rw [Nat.sub_mul]
    omega
  · rw [units, if_neg (by rw [Nat.one_shiftLeft]; omega), Nat.shiftLeft_eq, Nat.one_shiftLeft,
      Nat.shiftRight_eq_div_pow]

theorem nearestRank_units (rank : Nat) : nearestRank (units rank) (2 ^ 1074) = rank := by
  -- the exponent stays a variable, so that its power is not computed
  obtain ⟨u, hu⟩ : ∃ u, u = 1074 := ⟨_, rfl⟩
  have hpos : 0 < 2 ^ u := Nat.two_pow_pos u
  simp only [nearestRank, Nat.shiftLeft_eq, ← hu]
  generalize 2 ^ u = unit at hpos ⊢
  rw [Nat.mul_div_cancel _ hpos]
  by_cases h : rank < 2 ^ 52
  · have hlog : rank.log2 - 52 = 0 := by
      by_cases hz : rank = 0
      · rw [hz]
        rfl
      · have := (Nat.log2_lt hz).mpr h
        omega
    simp only [units_of_lt h, hlog, Nat.pow_zero, Nat.mul_one, roundQuotient_of_whole _ hpos]
    omega
  · obtain ⟨significand, doublings, hlow, hhigh, hrank, hunits⟩ :=
      exists_significand (Nat.not_lt.mp h)
    have hlog : (significand * 2 ^ doublings).log2 - 52 = doublings := by
      have hne : significand * 2 ^ doublings ≠ 0 :=
        Nat.mul_ne_zero (by omega) (Nat.ne_of_gt (Nat.two_pow_pos doublings))
      have hl : (significand * 2 ^ doublings).log2 = 52 + doublings := by
        rw [Nat.log2_eq_iff hne]
        constructor
        · rw [Nat.pow_add]
          exact Nat.mul_le_mul_right _ hlow
        · rw [show 52 + doublings + 1 = 53 + doublings by omega, Nat.pow_add]
          exact Nat.mul_lt_mul_of_pos_right hhigh (Nat.two_pow_pos doublings)
      omega
    have hquotient : roundQuotient (significand * 2 ^ doublings * unit) (unit * 2 ^ doublings) =
        significand := by
      rw [Nat.mul_assoc, Nat.mul_comm (2 ^ doublings)]
      exact roundQuotient_of_whole _ (Nat.mul_pos hpos (Nat.two_pow_pos doublings))
    rw [hunits, hlog, hquotient, hrank]

theorem nearestRank_zero (den : Nat) : nearestRank 0 den = 0 := by
  simp [nearestRank, roundQuotient, Nat.pos_iff_ne_zero, eq_comm]

end Double

namespace Decimal

theorem denominator_pos (d : Decimal) : 0 < d.denominator := Nat.pow_pos (by decide)

/-- Only the number that a decimal denotes counts for its rank. -/
theorem rank_eq_of_value {d e : Decimal}
    (h : d.numerator * e.denominator = e.numerator * d.denominator) : d.rank = e.rank := by
  rw [rank, rank, ← Double.nearestRank_mul_right _ _ e.denominator_pos, h,
    Nat.mul_comm d.denominator, Double.nearestRank_mul_right _ _ d.denominator_pos]

theorem rank_shift (digits places : Nat) (exponent : Int) :
    rank ⟨digits * 10 ^ places, exponent⟩ = rank ⟨digits, exponent + places⟩ := by
  apply rank_eq_of_value
  have hexponents : places + exponent.toNat + (-(exponent + places)).toNat =
      (exponent + places).toNat + (-exponent).toNat := by omega
  simp only [numerator, denominator, Nat.pow_eq]
  rw [Nat.mul_assoc, Nat.mul_assoc, Nat.mul_assoc, ← Nat.pow_add, ← Nat.pow_add, ← Nat.pow_add,
    ← Nat.add_assoc, hexponents]

theorem rank_strip (d : Decimal) (fuel : Nat) : (d.strip fuel).rank = d.rank := by
  induction fuel generalizing d with
  | zero => rfl
  | succ fuel ih =>
    rw [strip]
    split
    · rename_i h
      have hdigits : d.digits / 10 * 10 ^ 1 = d.digits := by omega
      have hshift := rank_shift (d.digits / 10) 1 d.exponent
      rw [hdigits] at hshift
      rw [ih]
      exact hshift.symm
    · rfl

theorem nearer_eq (tie : Tie) (lower value halfway : Nat) :
    nearer tie lower value halfway = lower ∨ nearer tie lower value halfway = lower + 1 := by
  cases tie with
  | even =>
    simp only [nearer]
    split_ifs <;> omega
  | up =>
    simp only [nearer]
    split_ifs <;> omega

theorem rank_of_onGrid {tie : Tie} {r units lower : Nat} {exponent : Int} {d : Decimal}
    (h : onGrid? tie r units lower exponent = some d) : d.rank = r := by
  rw [onGrid?] at h
  split at h
  · rename_i hlow
    split at h
    · rename_i hhigh
      obtain rfl := Option.some.inj h
      have hnearer := nearer_eq tie lower (2 * units * denominator ⟨2 * lower + 1, exponent⟩)
        (numerator ⟨2 * lower + 1, exponent⟩ <<< 1074)
      rcases hnearer with hn | hn
      · rw [hn, hlow]
      · rw [hn, hhigh]
    · exact Option.some.inj h ▸ hlow
  · split at h
    · rename_i hhigh
      exact Option.some.inj h ▸ hhigh
    · cases h

theorem nearestRank_of_fives (units n : Nat) :
    Double.nearestRank (units * Nat.pow 5 n) (Nat.pow 10 n) = Double.nearestRank units (2 ^ n) := by
  have hten : Nat.pow 10 n = 2 ^ n * Nat.pow 5 n := Nat.mul_pow 2 5 n
  have hpos : 0 < Nat.pow 5 n := Nat.pow_pos (by decide)
  rw [hten, Double.nearestRank_mul_right _ _ hpos]

theorem rank_exact (rank : Nat) : (exact rank).rank = rank := by
  have hnumerator : (exact rank).numerator = Double.units rank * Nat.pow 5 1074 := Nat.mul_one _
  have hdenominator : (exact rank).denominator = Nat.pow 10 1074 := by
    rw [denominator]
    rfl
  have hunits := Double.nearestRank_units rank
  rw [Decimal.rank, hnumerator, hdenominator]
  generalize (1074 : Nat) = places at *
  rw [nearestRank_of_fives, hunits]

theorem rank_candidate {tie : Tie} {rank : Nat} {d : Decimal} (h : candidate? tie rank = some d) :
    d.rank = rank := by
  rw [candidate?] at h
  obtain ⟨n, -, hgrid⟩ := List.exists_of_findSome?_eq_some h
  exact rank_of_onGrid hgrid

/-- Every magnitude is the one nearest to the decimal that is written for it. -/
theorem rank_shortest (tie : Tie) (rank : Nat) : (shortest tie rank).rank = rank := by
  rw [shortest]
  cases h : candidate? tie rank with
  | none => exact rank_exact rank
  | some d =>
    rw [Option.map_some, Option.getD_some, rank_strip, rank_candidate h]

theorem rank_of_no_digits {d : Decimal} (h : d.digits = 0) : d.rank = 0 := by
  rw [rank, numerator, h, Nat.zero_mul, Double.nearestRank_zero]

theorem digits_shortest_ne_zero (tie : Tie) {rank : Nat} (h : rank ≠ 0) :
    (shortest tie rank).digits ≠ 0 :=
  fun hzero => h ((rank_shortest tie rank).symm.trans (rank_of_no_digits hzero))

end Decimal

end Inventory
