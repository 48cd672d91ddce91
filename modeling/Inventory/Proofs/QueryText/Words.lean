import Inventory.Proofs.DecimalText
import Inventory.Proofs.QueryText.Written

/-! Words that stand for themselves: names, decimals and truth values. Their characters have no
meaning of their own in query text, and the last two are read as the values they spell. -/

namespace Inventory.QueryText

/-- No blank, comma, parenthesis or quote. -/
structure Plain (c : Char) : Prop where
  blank : Text.isBlank c = false
  comma : c ≠ ','
  opening : c ≠ '('
  closing : c ≠ ')'
  quote : Scan.isQuote c = false

def isWordChar (c : Char) : Bool := isNameStart c || Text.isDigit c || c == '-'

theorem plain_of_isWordChar {c : Char} (h : isWordChar c = true) : Plain c := by
  refine ⟨?_, ?_, ?_, ?_, ?_⟩
  · have hrange : c.toNat = 45 ∨ (48 ≤ c.toNat ∧ c.toNat ≤ 57) ∨
        (65 ≤ c.toNat ∧ c.toNat ≤ 90) ∨ c.toNat = 95 ∨ (97 ≤ c.toNat ∧ c.toNat ≤ 122) := by
      have halpha : c.isAlpha = (c.isUpper || c.isLower) := rfl
      have hupper : c.isUpper = decide (c.val ≥ 'A'.val ∧ c.val ≤ 'Z'.val) := rfl
      have hlower : c.isLower = (decide (c.val ≥ 'a'.val) && decide (c.val ≤ 'z'.val)) := rfl
      simp only [isWordChar, isNameStart, halpha, hupper, hlower, Text.isDigit, Bool.or_eq_true, Bool.and_eq_true, decide_eq_true_eq, beq_iff_eq] at h
      rcases h with (((⟨hl, hr⟩ | ⟨hl, hr⟩) | rfl) | ⟨hl, hr⟩) | rfl
      · exact .inr (.inr (.inl ⟨hl, hr⟩))
      · exact .inr (.inr (.inr (.inr ⟨hl, hr⟩)))
      · exact .inr (.inr (.inr (.inl rfl)))
      · exact .inr (.inl ⟨hl, hr⟩)
      · exact .inl rfl
    simp [Text.isBlank, Text.inRanges, Text.blankRanges]
    omega
  · rintro rfl
    cases h
  · rintro rfl
    cases h
  · rintro rfl
    cases h
  · rw [← Bool.not_eq_true, Scan.isQuote, Bool.or_eq_true, beq_iff_eq, beq_iff_eq]
    rintro (rfl | rfl)
    · cases h
    · cases h

theorem plain_of_all {s : List Char} (h : s.all isWordChar = true) : ∀ c ∈ s, Plain c :=
  fun c hc => plain_of_isWordChar (List.all_eq_true.mp h c hc)

theorem plain_true : ∀ c ∈ ['t', 'r', 'u', 'e'], Plain c := plain_of_all rfl

theorem plain_false : ∀ c ∈ ['f', 'a', 'l', 's', 'e'], Plain c := plain_of_all rfl

theorem plain_toDigits (n : Nat) : ∀ c ∈ Nat.toDigits 10 n, Plain c := by
  intro c hc
  refine plain_of_isWordChar ?_
  rw [isWordChar, Text.isDigit_of_mem_toDigits hc]
  simp

theorem plain_toString (n : Int) : ∀ c ∈ (toString n).toList, Plain c := by
  cases n with
  | ofNat n =>
    rw [Text.toList_ofNat]
    exact plain_toDigits n
  | negSucc n =>
    rw [Text.toList_negSucc]
    exact List.forall_mem_cons.mpr ⟨plain_of_isWordChar rfl, plain_toDigits (n + 1)⟩

theorem toString_ne_nil (n : Int) : (toString n).toList ≠ [] := by
  intro hnil
  have hread := Text.readInt?_toString n
  rw [hnil] at hread
  cases hread

theorem literal_toString (n : Int64) : literal (toString n.toInt).toList = .int n := by
  have hread := Text.readInt64?_toString n
  have htrue : (toString n.toInt).toList ≠ ['t', 'r', 'u', 'e'] := by
    intro heq
    rw [heq] at hread
    cases hread
  have hfalse : (toString n.toInt).toList ≠ ['f', 'a', 'l', 's', 'e'] := by
    intro heq
    rw [heq] at hread
    cases hread
  rw [literal, if_neg htrue, if_neg hfalse, hread]

theorem Identifier.continues_name (name : Identifier) :
    ∀ c ∈ name.rest, (isNameStart c || Text.isDigit c) = true := by
  intro c hc
  rw [isNameStart]
  rcases name.continues c hc with hletter | rfl
  · rw [Char.isAlphanum, Bool.or_eq_true] at hletter
    rcases hletter with halpha | hdigit
    · rw [halpha]
      rfl
    · rw [Text.isDigit_of_charIsDigit hdigit, Bool.or_true]
  · rfl

theorem Identifier.isNameStart_first (name : Identifier) : isNameStart name.first = true := by
  rw [isNameStart, Bool.or_eq_true, beq_iff_eq]
  exact name.starts

theorem Identifier.isIdentifier_chars (name : Identifier) : isIdentifier name.chars = true := by
  rw [chars, isIdentifier, name.isNameStart_first, Bool.true_and, List.all_eq_true]
  exact name.continues_name

theorem Identifier.plain (name : Identifier) : ∀ c ∈ name.chars, Plain c := by
  refine List.forall_mem_cons.mpr ⟨plain_of_isWordChar ?_, fun c hc => plain_of_isWordChar ?_⟩
  · rw [isWordChar, name.isNameStart_first]
    rfl
  · rw [isWordChar, name.continues_name c hc]
    rfl

/-- A name can be that of an attribute. -/
def Identifier.toFieldName (name : Identifier) : FieldName where
  chars := name.chars
  nonempty := List.cons_ne_nil _ _
  plain c hc := by
    have hplain := name.plain c hc
    refine ⟨hplain.blank, ?_, hplain.opening, hplain.closing, hplain.quote⟩
    rintro rfl
    rcases List.mem_cons.mp hc with hfirst | hrest
    · have hstart := name.isNameStart_first
      rw [← hfirst] at hstart
      cases hstart
    · have hcontinues := name.continues_name _ hrest
      cases hcontinues

end Inventory.QueryText
