import Inventory.Json.Token
import Inventory.Proofs.DecimalText

/-! The texts of numbers are words: they are not empty and hold number characters only. -/

namespace Inventory

def NumberChars (s : String) : Prop := ∀ c ∈ s.toList, Json.Scan.isNumberChar c = true

def NumberWord (s : String) : Prop := s.toList ≠ [] ∧ NumberChars s

instance (s : String) : Decidable (NumberChars s) :=
  decidable_of_iff (s.toList.all Json.Scan.isNumberChar = true) List.all_eq_true

instance (s : String) : Decidable (NumberWord s) :=
  inferInstanceAs (Decidable (s.toList ≠ [] ∧ NumberChars s))

theorem NumberChars.append {s t : String} (hs : NumberChars s) (ht : NumberChars t) :
    NumberChars (s ++ t) := by
  intro c h
  rw [String.toList_append, List.mem_append] at h
  exact h.elim (hs c) (ht c)

theorem NumberChars.append_word {s t : String} (hs : NumberChars s) (ht : NumberWord t) :
    NumberWord (s ++ t) :=
  ⟨by simp [ht.1], hs.append ht.2⟩

theorem NumberWord.append_chars {s t : String} (hs : NumberWord s) (ht : NumberChars t) :
    NumberWord (s ++ t) :=
  ⟨by simp [hs.1], hs.2.append ht⟩

theorem isNumberChar_of_isDigit {c : Char} (h : c.isDigit = true) :
    Json.Scan.isNumberChar c = true := by
  have hd : Text.isDigit c = true := Text.isDigit_of_charIsDigit h
  simp [Json.Scan.isNumberChar, hd]

theorem isNumberChar_of_mem_toDigits {n : Nat} {c : Char} (h : c ∈ Nat.toDigits 10 n) :
    Json.Scan.isNumberChar c = true :=
  isNumberChar_of_isDigit (Nat.isDigit_of_mem_toDigits (by decide) (by decide) h)

theorem numberChars_of_subset {s : List Char} {n : Nat} (h : ∀ c ∈ s, c ∈ Nat.toDigits 10 n) :
    NumberChars (String.ofList s) := by
  intro c hc
  rw [String.toList_ofList] at hc
  exact isNumberChar_of_mem_toDigits (h c hc)

theorem numberWord_nat (n : Nat) : NumberWord (toString n) := by
  rw [NumberWord, NumberChars, Nat.toString_eq_repr, Nat.toList_repr]
  exact ⟨Nat.toDigits_ne_nil, fun c h => isNumberChar_of_mem_toDigits h⟩

theorem numberWord_int (n : Int) : NumberWord (toString n) := by
  cases n with
  | ofNat n => exact numberWord_nat n
  | negSucc n =>
    have hminus : NumberChars "-" := by decide
    exact hminus.append_word (numberWord_nat (n + 1))

theorem numberChars_zeros (n : Nat) : NumberChars (zeros n) := by
  intro c h
  rw [zeros, String.toList_ofList] at h
  rw [List.eq_of_mem_replicate h]
  rfl

namespace Decimal

theorem numberWord_positional (d : Decimal) : NumberWord d.positional := by
  have htext : NumberChars (String.ofList (Nat.toDigits 10 d.digits)) :=
    numberChars_of_subset fun c h => h
  rw [positional]
  split
  · have hpoint : NumberWord "0." := by decide
    exact (hpoint.append_chars (numberChars_zeros _)).append_chars htext
  · split
    · have hpoint : NumberWord ".0" := by decide
      exact (htext.append (numberChars_zeros _)).append_word hpoint
    · have hpoint : NumberWord "." := by decide
      have hwhole : NumberChars (String.ofList ((Nat.toDigits 10 d.digits).take d.point.toNat)) :=
        numberChars_of_subset fun c h => List.mem_of_mem_take h
      exact (hwhole.append_word hpoint).append_chars
        (numberChars_of_subset fun c h => List.mem_of_mem_drop h)

theorem numberWord_scientific (d : Decimal) : NumberWord d.scientific := by
  have hlead : NumberChars (String.ofList ((Nat.toDigits 10 d.digits).take 1)) :=
    numberChars_of_subset fun c h => List.mem_of_mem_take h
  have hpoint : NumberChars (if (Nat.toDigits 10 d.digits).length = 1 then "" else ".") := by
    split <;> decide
  have hrest : NumberChars (String.ofList ((Nat.toDigits 10 d.digits).drop 1)) :=
    numberChars_of_subset fun c h => List.mem_of_mem_drop h
  have hsign : NumberChars (if d.point - 1 < 0 then "e-" else "e+") := by
    split <;> decide
  exact (((hlead.append hpoint).append hrest).append hsign).append_word (numberWord_nat _)

theorem numberWord_wire (d : Decimal) : NumberWord d.wire := by
  rw [wire]
  split
  · exact d.numberWord_positional
  · exact d.numberWord_scientific

end Decimal

theorem Double.numberWord_wire {d : Double} {s : String} (h : d.wire? = some s) :
    NumberWord s := by
  cases d with
  | finite negative rank =>
    obtain rfl := Option.some.inj h
    have hsign : NumberChars (if negative then "-" else "") := by
      cases negative <;> decide
    refine hsign.append_word ?_
    split
    · decide
    · exact Decimal.numberWord_wire _
  | _ => cases h

end Inventory
