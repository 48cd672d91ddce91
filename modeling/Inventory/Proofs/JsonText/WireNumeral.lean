import Inventory.Proofs.DecimalText
import Inventory.Proofs.DoubleRank
import Inventory.Proofs.JsonText.NumberLiteral

/-! The literals written for numbers. The literal of an integer has neither point nor exponent. The
literal of a finite double has one of the two, and the double is the one nearest to the number that
the literal spells, so that no two doubles share a literal. -/

namespace Inventory

namespace Text

theorem ofDigits_append (s t : List Char) :
    ofDigits (s ++ t) = t.foldl (fun n c => 10 * n + digitValue c) (ofDigits s) := by
  rw [ofDigits, List.foldl_append, ofDigits]

theorem ofDigits_zeros_append (n : Nat) (s : List Char) :
    ofDigits (List.replicate n '0' ++ s) = ofDigits s := by
  induction n with
  | zero => rfl
  | succ n ih =>
    have hzero : 10 * 0 + digitValue '0' = 0 := rfl
    rw [List.replicate_succ, List.cons_append, ← ih, ofDigits, List.foldl_cons, hzero, ofDigits]

theorem ofDigits_append_zeros (s : List Char) (n : Nat) :
    ofDigits (s ++ List.replicate n '0') = ofDigits s * 10 ^ n := by
  induction n with
  | zero => rw [List.replicate_zero, List.append_nil, Nat.pow_zero, Nat.mul_one]
  | succ n ih =>
    have hzero : digitValue '0' = 0 := rfl
    rw [List.replicate_succ', ← List.append_assoc, ofDigits_append, ih, List.foldl_cons,
      List.foldl_nil, hzero, Nat.add_zero, Nat.mul_comm, Nat.mul_assoc, ← Nat.pow_succ]

theorem head_toDigits {n : Nat} (h : n ≠ 0) : (Nat.toDigits 10 n).head? ≠ some '0' := by
  induction n using Nat.strongRecOn with
  | _ n ih =>
    by_cases hn : n < 10
    · rw [Nat.toDigits_of_lt_base hn, List.head?_cons]
      intro hzero
      exact h (Nat.digitChar_eq_zero.mp (Option.some.inj hzero))
    · rw [Nat.toDigits_of_base_le (by decide) (by omega), List.head?_append]
      have hrest := ih (n / 10) (by omega) (by omega)
      obtain ⟨c, rest, hdigits⟩ := List.exists_cons_of_ne_nil (@Nat.toDigits_ne_nil (n / 10) 10)
      rw [hdigits] at hrest ⊢
      exact hrest

theorem digits_toDigits (n : Nat) : Json.Digits (Nat.toDigits 10 n) :=
  ⟨Nat.toDigits_ne_nil, fun _ h => isDigit_of_mem_toDigits h⟩

end Text

namespace Json.Numeral

/-- The number that the literal spells. -/
def decimal (n : Numeral) : Decimal :=
  ⟨Text.ofDigits (n.whole ++ n.fraction), n.exponent.getD 0 - n.fraction.length⟩

/-- The double nearest to that number. -/
def nearest (n : Numeral) : Double := n.decimal.toDouble n.negative

def ofInt (n : Int) : Numeral := ⟨n < 0, Nat.toDigits 10 n.natAbs, [], none⟩

/-- Whether a point or an exponent stands in the literal. -/
def Pointed (n : Numeral) : Prop := n.fraction ≠ [] ∨ n.exponent ≠ none

theorem ofInt_spelled (n : Int) : (ofInt n).Spelled (toString n).toList := by
  refine ⟨Text.digits_toDigits _, ?_, fun c hc => absurd hc List.not_mem_nil, [], rfl, ?_⟩
  · intro hzero
    have hn : n.natAbs = 0 := Classical.byContradiction fun hne => Text.head_toDigits hne hzero
    rw [ofInt, hn]
    rfl
  · rw [ofInt, fractionText, if_pos rfl, List.append_nil, List.append_nil]
    cases n with
    | ofNat n => exact Text.toList_ofNat n
    | negSucc n =>
      have hnegative : decide (Int.negSucc n < 0) = true := decide_eq_true (Int.negSucc_lt_zero n)
      rw [Text.toList_negSucc, hnegative]
      rfl

end Json.Numeral

namespace Decimal

open Json (Numeral)
open Json.Numeral (fractionText signText)

/-- The literal that the text of the decimal is. -/
def numeral (negative : Bool) (d : Decimal) : Numeral :=
  let text := Nat.toDigits 10 d.digits
  if -5 < d.point ∧ d.point ≤ 16 then
    if d.point ≤ 0 then ⟨negative, ['0'], List.replicate (-d.point).toNat '0' ++ text, none⟩
    else if d.exponent ≥ 0 then
      ⟨negative, text ++ List.replicate d.exponent.toNat '0', ['0'], none⟩
    else ⟨negative, text.take d.point.toNat, text.drop d.point.toNat, none⟩
  else ⟨negative, text.take 1, text.drop 1, some (d.point - 1)⟩

theorem numeral_negative (negative : Bool) (d : Decimal) : (d.numeral negative).negative = negative := by
  simp only [numeral]
  split_ifs <;> rfl

theorem point_lt_length {d : Decimal} (h : ¬0 ≤ d.exponent) :
    d.point < (Nat.toDigits 10 d.digits).length := by
  rw [point]
  omega

theorem numeral_pointed (negative : Bool) (d : Decimal) : (d.numeral negative).Pointed := by
  simp only [numeral]
  split_ifs with hplain hsmall hwhole
  · exact .inl (List.append_ne_nil_of_right_ne_nil _ Nat.toDigits_ne_nil)
  · exact .inl (List.cons_ne_nil _ _)
  · have hlt := point_lt_length hwhole
    refine .inl fun hnil => ?_
    have hlength := List.drop_eq_nil_iff.mp hnil
    omega
  · exact .inr nofun

theorem rank_numeral (negative : Bool) (d : Decimal) : (d.numeral negative).decimal.rank = d.rank := by
  simp only [numeral]
  have hlength : 0 < (Nat.toDigits 10 d.digits).length :=
    List.length_pos_iff.mpr Nat.toDigits_ne_nil
  split_ifs with hplain hsmall hwhole
  · have hdigits : Text.ofDigits (['0'] ++ (List.replicate (-d.point).toNat '0' ++
        Nat.toDigits 10 d.digits)) = d.digits := by
      have hzeros := Text.ofDigits_zeros_append ((-d.point).toNat + 1) (Nat.toDigits 10 d.digits)
      rwa [Text.ofDigits_toDigits, List.replicate_succ] at hzeros
    congr 1
    simp only [Numeral.decimal, hdigits, Option.getD_none, List.length_append, List.length_replicate]
    obtain ⟨digits, exponent⟩ := d
    simp only [point] at *
    congr 1
    omega
  · have hdigits : Text.ofDigits ((Nat.toDigits 10 d.digits ++
        List.replicate d.exponent.toNat '0') ++ ['0']) = d.digits * 10 ^ (d.exponent.toNat + 1) := by
      have hzeros := Text.ofDigits_append_zeros (Nat.toDigits 10 d.digits) (d.exponent.toNat + 1)
      rwa [List.replicate_succ', ← List.append_assoc, Text.ofDigits_toDigits] at hzeros
    have hshift := rank_shift d.digits (d.exponent.toNat + 1) (-1)
    have hexponent : (-1 : Int) + ((d.exponent.toNat + 1 : Nat) : Int) = d.exponent := by omega
    rw [hexponent] at hshift
    simp only [Numeral.decimal, hdigits, Option.getD_none, List.length_singleton]
    exact hshift
  · have hlt := point_lt_length hwhole
    congr 1
    simp only [Numeral.decimal, List.take_append_drop, Text.ofDigits_toDigits, Option.getD_none,
      List.length_drop]
    obtain ⟨digits, exponent⟩ := d
    simp only [point] at *
    congr 1
    omega
  · congr 1
    simp only [Numeral.decimal, List.take_append_drop, Text.ofDigits_toDigits, Option.getD_some,
      List.length_drop]
    obtain ⟨digits, exponent⟩ := d
    simp only [point] at *
    congr 1
    omega

theorem isDigit_replicate (n : Nat) : ∀ c ∈ List.replicate n '0', Text.isDigit c = true := by
  intro c hc
  rw [List.eq_of_mem_replicate hc]
  rfl

theorem powerText (e : Int) :
    Numeral.PowerText (some e) ((if e < 0 then "e-" else "e+") ++ toString e.natAbs).toList := by
  have hdigits := Text.digits_toDigits e.natAbs
  have hvalue := Text.ofDigits_toDigits e.natAbs
  rw [String.toList_append, Nat.toString_eq_repr, Nat.toList_repr]
  refine ⟨'e', (if e < 0 then ['-'] else ['+']) ++ Nat.toDigits 10 e.natAbs, ?_, .inl rfl,
    _, hdigits, ?_⟩
  · split_ifs <;> rfl
  · rw [hvalue]
    split_ifs with he
    · exact .inl ⟨rfl, by omega⟩
    · exact .inr ⟨.inr rfl, by omega⟩

theorem digits_take (n : Nat) {k : Nat} (hk : 0 < k) : Json.Digits ((Nat.toDigits 10 n).take k) := by
  have hdigits := Text.digits_toDigits n
  have hlength : 0 < (Nat.toDigits 10 n).length := List.length_pos_iff.mpr Nat.toDigits_ne_nil
  refine ⟨fun hnil => ?_, fun c hc => hdigits.2 c (List.mem_of_mem_take hc)⟩
  have hzero := congrArg List.length hnil
  rw [List.length_take, List.length_nil] at hzero
  omega

theorem head_take {n k : Nat} (h : n ≠ 0) (hk : 0 < k) :
    ((Nat.toDigits 10 n).take k).head? ≠ some '0' := by
  rw [List.head?_take, if_neg (Nat.ne_of_gt hk)]
  exact Text.head_toDigits h

theorem isDigit_drop (n k : Nat) : ∀ c ∈ (Nat.toDigits 10 n).drop k, Text.isDigit c = true :=
  fun c hc => (Text.digits_toDigits n).2 c (List.mem_of_mem_drop hc)

/-- A single digit has no point after it. -/
theorem fractionText_drop_one (text : List Char) (h : 0 < text.length) :
    fractionText (text.drop 1) = (if text.length = 1 then "" else ".").toList ++ text.drop 1 := by
  by_cases hone : text.length = 1
  · have hnil : text.drop 1 = [] := List.drop_eq_nil_iff.mpr (Nat.le_of_eq hone)
    simp [fractionText, hone, hnil]
  · have hne : text.drop 1 ≠ [] := by
      intro hnil
      have hle := List.drop_eq_nil_iff.mp hnil
      omega
    rw [fractionText, if_neg hne, if_neg hone]
    rfl

/-- The text of a decimal that is not zero, after its sign, is its literal. -/
theorem numeral_unsigned {d : Decimal} (negative : Bool) (h : d.digits ≠ 0) :
    (d.numeral negative).Unsigned d.wire.toList := by
  have hdigits := Text.digits_toDigits d.digits
  simp only [numeral, wire]
  by_cases hplain : -5 < d.point ∧ d.point ≤ 16
  · simp only [if_pos hplain, positional]
    split_ifs with hsmall hwhole
    · have hne : List.replicate (-d.point).toNat '0' ++ Nat.toDigits 10 d.digits ≠ [] :=
        List.append_ne_nil_of_right_ne_nil _ Nat.toDigits_ne_nil
      refine ⟨⟨List.cons_ne_nil _ _, by simp [Text.isDigit]⟩, fun _ => rfl, ?_, [], rfl, ?_⟩
      · exact List.forall_mem_append.mpr ⟨isDigit_replicate _, hdigits.2⟩
      · simp [fractionText, hne, zeros]
    · refine ⟨⟨?_, ?_⟩, fun hzero => ?_, by simp [Text.isDigit], [], rfl, ?_⟩
      · exact List.append_ne_nil_of_left_ne_nil Nat.toDigits_ne_nil _
      · exact List.forall_mem_append.mpr ⟨hdigits.2, isDigit_replicate _⟩
      · have hhead := Text.head_toDigits h
        obtain ⟨c, rest, htext⟩ := List.exists_cons_of_ne_nil hdigits.1
        rw [htext] at hhead hzero
        exact absurd hzero hhead
      · simp [fractionText, zeros]
    · have hpoint : 0 < d.point.toNat := by omega
      have hlt := point_lt_length hwhole
      have hne : (Nat.toDigits 10 d.digits).drop d.point.toNat ≠ [] := by
        intro hnil
        have hle := List.drop_eq_nil_iff.mp hnil
        omega
      refine ⟨digits_take _ hpoint, fun hzero => ?_, isDigit_drop _ _, [], rfl, ?_⟩
      · exact absurd hzero (head_take h hpoint)
      · simp [fractionText, hne]
  · simp only [if_neg hplain, scientific]
    refine ⟨digits_take _ Nat.one_pos, fun hzero => ?_, isDigit_drop _ _, _,
      powerText (d.point - 1), ?_⟩
    · exact absurd hzero (head_take h Nat.one_pos)
    · rw [fractionText_drop_one _ (List.length_pos_iff.mpr Nat.toDigits_ne_nil)]
      simp only [String.toList_append, String.toList_ofList, List.append_assoc]

end Decimal

namespace Double

open Json (Numeral)

theorem toList_sign (negative : Bool) :
    (if negative then "-" else "").toList = Numeral.signText negative := by
  cases negative <;> rfl

/-- A finite double is written as a literal that is not one of an integer and whose nearest double
it is. -/
theorem exists_wire_numeral {d : Double} (h : d.isFinite = true) :
    ∃ s n, d.wire? = some s ∧ Numeral.Spelled n s.toList ∧ n.Pointed ∧ n.nearest = d := by
  cases d with
  | nan => cases h
  | infinite negative => cases h
  | finite negative rank =>
    have hnearest : ∀ n : Numeral, n.negative = negative → n.decimal.rank = rank.val →
        n.nearest = .finite negative rank := by
      intro n hsign hrank
      rw [Numeral.nearest, Decimal.toDouble, hsign, hrank, ofRank, dif_pos rank.isLt]
    by_cases hzero : rank.val = 0
    · refine ⟨_, ⟨negative, ['0'], ['0'], none⟩, rfl, ?_, .inl (List.cons_ne_nil _ _),
        hnearest _ rfl ?_⟩
      · refine ⟨⟨List.cons_ne_nil _ _, by simp [Text.isDigit]⟩, fun _ => rfl, by simp [Text.isDigit],
          [], rfl, ?_⟩
        rw [if_pos hzero, String.toList_append, toList_sign]
        rfl
      · rw [hzero]
        exact Decimal.rank_of_no_digits rfl
    · have hdigits := Decimal.digits_shortest_ne_zero .even hzero
      refine ⟨_, (Decimal.shortest .even rank).numeral negative, rfl, ?_,
        Decimal.numeral_pointed _ _, hnearest _ (Decimal.numeral_negative _ _) ?_⟩
      · rw [Numeral.spelled_iff, Decimal.numeral_negative]
        refine ⟨_, Decimal.numeral_unsigned negative hdigits, ?_⟩
        rw [if_neg hzero, String.toList_append, toList_sign]
      · rw [Decimal.rank_numeral, Decimal.rank_shortest]

end Double

end Inventory
