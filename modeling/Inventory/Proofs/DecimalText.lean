import Inventory.Text.Decimal

/-! Decimals as text. The text of an integer is read back as that integer. -/

namespace Inventory.Text

theorem isDigit_of_charIsDigit {c : Char} (h : c.isDigit = true) : isDigit c = true := by
  rw [Char.isDigit, Bool.and_eq_true] at h
  rw [isDigit, Bool.and_eq_true]
  exact ⟨h.1, h.2⟩

theorem isDigit_of_mem_toDigits {n : Nat} {c : Char} (h : c ∈ Nat.toDigits 10 n) :
    isDigit c = true :=
  isDigit_of_charIsDigit (Nat.isDigit_of_mem_toDigits (by decide) (by decide) h)

theorem ofDigits_toDigits (n : Nat) : ofDigits (Nat.toDigits 10 n) = n := by
  have h := @Nat.ofDigitChars_ten_toDigits n
  rwa [Nat.ofDigitChars_eq_foldl] at h

theorem toList_ofNat (n : Nat) : (toString (Int.ofNat n)).toList = Nat.toDigits 10 n :=
  Nat.toList_repr

theorem toList_negSucc (n : Nat) :
    (toString (Int.negSucc n)).toList = '-' :: Nat.toDigits 10 (n + 1) := by
  have happend : (toString (Int.negSucc n)).toList = "-".toList ++ (n + 1).repr.toList :=
    String.toList_append
  rw [happend, Nat.toList_repr]
  rfl

theorem readInt?_of_digits {s : List Char} (hne : s ≠ []) (hs : ∀ c ∈ s, isDigit c = true) :
    readInt? s = some (ofDigits s : Int) := by
  obtain ⟨c, rest, rfl⟩ := List.exists_cons_of_ne_nil hne
  have hc : isDigit c = true := hs c List.mem_cons_self
  have hplus : c ≠ '+' := by
    rintro rfl
    cases hc
  have hminus : c ≠ '-' := by
    rintro rfl
    cases hc
  have hall : (c :: rest).all isDigit = true := List.all_eq_true.mpr hs
  simp [readInt?, readNat?, hplus, hminus, hall]

theorem readInt?_toString (n : Int) : readInt? (toString n).toList = some n := by
  have hdigits : ∀ m, ∀ c ∈ Nat.toDigits 10 m, isDigit c = true :=
    fun _ _ h => isDigit_of_mem_toDigits h
  cases n with
  | ofNat n =>
    rw [toList_ofNat, readInt?_of_digits Nat.toDigits_ne_nil (hdigits n), ofDigits_toDigits]
    rfl
  | negSucc n =>
    have hall : (Nat.toDigits 10 (n + 1)).all isDigit = true := List.all_eq_true.mpr (hdigits _)
    simp only [toList_negSucc, readInt?]
    rw [if_pos ⟨Nat.toDigits_ne_nil, hall⟩, ofDigits_toDigits]
    rfl

theorem readInt64?_toString (n : Int64) : readInt64? (toString n.toInt).toList = some n := by
  rw [readInt64?, readInt?_toString]
  simp only
  rw [if_pos ⟨n.minValue_le_toInt, n.toInt_le⟩, Int64.ofInt_toInt]

theorem filter_isDigit_of_all {s : List Char} (h : s.all isDigit = true) :
    s.filter isDigit = s :=
  List.filter_eq_self.mpr (List.all_eq_true.mp h)

theorem eq_of_readNat? {s : List Char} {n : Nat} (h : readNat? s = some n) :
    n = ofDigits (s.filter isDigit) := by
  have hdigits : ∀ {digits : List Char},
      (if digits ≠ [] ∧ digits.all isDigit = true then some (ofDigits digits) else none) = some n →
        n = ofDigits (digits.filter isDigit) := by
    intro digits h
    split at h
    · rename_i hall
      rw [filter_isDigit_of_all hall.2]
      exact (Option.some.inj h).symm
    · cases h
  rw [readNat?.eq_def] at h
  dsimp only at h
  split at h
  · rename_i rest
    have hplus : ('+' :: rest).filter isDigit = rest.filter isDigit := rfl
    rw [hplus]
    exact hdigits h
  · exact hdigits h

/-- What is read as an integer has the digits of the text. -/
theorem natAbs_of_readInt? {s : List Char} {n : Int} (h : readInt? s = some n) :
    n.natAbs = ofDigits (s.filter isDigit) := by
  rw [readInt?.eq_def] at h
  split at h
  · rename_i rest
    split at h
    · rename_i hall
      obtain rfl := Option.some.inj h
      have hminus : ('-' :: rest).filter isDigit = rest := filter_isDigit_of_all hall.2
      rw [hminus, Int.natAbs_neg, Int.natAbs_natCast]
    · cases h
  · obtain ⟨m, hm, rfl⟩ := Option.map_eq_some_iff.mp h
    exact eq_of_readNat? hm

end Inventory.Text
