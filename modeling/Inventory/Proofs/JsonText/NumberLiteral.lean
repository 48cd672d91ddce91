import Inventory.Proofs.JsonText.Grammar

/-! Number literals are read as they are spelled. -/

namespace Inventory.Json

theorem takeWhile_digits {s t : List Char} (hs : ∀ c ∈ s, Text.isDigit c = true)
    (ht : ∀ c, t.head? = some c → Text.isDigit c = false) :
    (s ++ t).takeWhile Text.isDigit = s ∧ (s ++ t).dropWhile Text.isDigit = t := by
  rw [List.takeWhile_append_of_pos hs, List.dropWhile_append_of_pos hs]
  cases t with
  | nil => simp
  | cons c rest =>
    have hc : Text.isDigit c = false := ht c rfl
    simp [hc]

theorem isDigit_of_mem_takeWhile {s : List Char} : ∀ c ∈ s.takeWhile Text.isDigit,
    Text.isDigit c = true :=
  List.all_eq_true.mp List.all_takeWhile

namespace Numeral

theorem readExponent?_eq_some {s : List Char} {e : Int} :
    readExponent? s = some e ↔ SignedDigits e s := by
  have hread : ∀ (negative : Bool) (digits : List Char),
      (if digits ≠ [] ∧ digits.all Text.isDigit then
        some (if negative then -(Text.ofDigits digits : Int) else Text.ofDigits digits)
      else none) = some e →
      Digits digits ∧ e = if negative then -(Text.ofDigits digits : Int) else Text.ofDigits digits := by
    intro negative digits h
    split at h
    · rename_i hd
      exact ⟨⟨hd.1, List.all_eq_true.mp hd.2⟩, (Option.some.inj h).symm⟩
    · cases h
  constructor
  · intro h
    rw [readExponent?.eq_def] at h
    split at h
    rename_i negative digits hsign
    obtain ⟨hdigits, he⟩ := hread negative digits h
    refine ⟨digits, hdigits, ?_⟩
    split at hsign
    · obtain ⟨rfl, rfl⟩ := Prod.mk.inj hsign
      exact .inl ⟨rfl, he⟩
    · obtain ⟨rfl, rfl⟩ := Prod.mk.inj hsign
      exact .inr ⟨.inr rfl, he⟩
    · obtain ⟨rfl, rfl⟩ := Prod.mk.inj hsign
      exact .inr ⟨.inl rfl, he⟩
  · rintro ⟨digits, ⟨hne, hd⟩, hs⟩
    have hall : digits.all Text.isDigit = true := List.all_eq_true.mpr hd
    rcases hs with ⟨rfl, rfl⟩ | ⟨rfl | rfl, rfl⟩
    · simp [readExponent?, hne, hall]
    · obtain ⟨c, rest, rfl⟩ := List.exists_cons_of_ne_nil hne
      have hc : Text.isDigit c = true := hd c List.mem_cons_self
      have hminus : c ≠ '-' := by
        rintro rfl
        cases hc
      have hplus : c ≠ '+' := by
        rintro rfl
        cases hc
      simp [readExponent?, hall, hminus, hplus]
    · simp [readExponent?, hne, hall]

theorem withExponent?_eq_some {negative : Bool} {whole fraction s : List Char} {n : Numeral} :
    withExponent? negative whole fraction s = some n ↔
      n.negative = negative ∧ n.whole = whole ∧ n.fraction = fraction ∧ PowerText n.exponent s := by
  obtain ⟨m, w, f, e⟩ := n
  cases s with
  | nil =>
    simp only [withExponent?, Option.some.injEq, Numeral.mk.injEq]
    cases e with
    | none => simp [PowerText, eq_comm]
    | some e => simp [PowerText]
  | cons c rest =>
    rw [withExponent?]
    by_cases hc : c = 'e' ∨ c = 'E'
    · rw [if_pos hc]
      cases e with
      | none => simp [PowerText]
      | some e =>
        have hmark : PowerText (some e) (c :: rest) ↔ SignedDigits e rest := by
          constructor
          · rintro ⟨_, _, hs, -, he⟩
            cases hs
            exact he
          · exact fun he => ⟨c, rest, rfl, hc, he⟩
        rw [hmark, ← readExponent?_eq_some, Option.map_eq_some_iff]
        constructor
        · rintro ⟨e', he', hn⟩
          cases hn
          exact ⟨rfl, rfl, rfl, he'⟩
        · rintro ⟨rfl, rfl, rfl, he⟩
          exact ⟨e, he, rfl⟩
    · rw [if_neg hc]
      cases e with
      | none => simp [PowerText]
      | some e => simp [PowerText, hc]

theorem PowerText.head {e : Option Int} {s : List Char} (h : PowerText e s) :
    ∀ c, s.head? = some c → Text.isDigit c = false ∧ c ≠ '.' := by
  intro c hc
  cases e with
  | none =>
    obtain rfl : s = [] := h
    cases hc
  | some e =>
    obtain ⟨mark, rest, rfl, hmark, -⟩ := h
    obtain rfl := Option.some.inj hc
    rcases hmark with rfl | rfl <;> decide

/-- A literal without its sign. -/
structure Unsigned (n : Numeral) (s : List Char) : Prop where
  whole : Digits n.whole
  leading : n.whole.head? = some '0' → n.whole = ['0']
  fraction : ∀ c ∈ n.fraction, Text.isDigit c = true
  text : ∃ power, PowerText n.exponent power ∧ s = n.whole ++ (fractionText n.fraction ++ power)

theorem leading_iff {whole : List Char} (h : whole ≠ []) :
    ¬(whole = [] ∨ (whole.head? = some '0' ∧ whole.length ≠ 1)) ↔
      (whole.head? = some '0' → whole = ['0']) := by
  obtain ⟨c, rest, rfl⟩ := List.exists_cons_of_ne_nil h
  cases rest with
  | nil => simp
  | cons d rest => simp

theorem unsigned_of_readUnsigned? {negative : Bool} {s : List Char} {n : Numeral}
    (h : readUnsigned? negative s = some n) : n.negative = negative ∧ n.Unsigned s := by
  have hsplit : s.takeWhile Text.isDigit ++ s.dropWhile Text.isDigit = s :=
    List.takeWhile_append_dropWhile
  simp only [readUnsigned?] at h
  split at h
  · cases h
  · rename_i hleading
    have hne : s.takeWhile Text.isDigit ≠ [] := fun hnil => hleading (.inl hnil)
    have hzero := (leading_iff hne).mp hleading
    split at h
    · rename_i rest hrest
      have hinner : rest.takeWhile Text.isDigit ++ rest.dropWhile Text.isDigit = rest :=
        List.takeWhile_append_dropWhile
      split at h
      · cases h
      · rename_i hfraction
        obtain ⟨hnegative, hwhole, hfrac, hpower⟩ := withExponent?_eq_some.mp h
        refine ⟨hnegative, ?_, ?_, ?_, _, hpower, ?_⟩
        · exact hwhole ▸ ⟨hne, isDigit_of_mem_takeWhile⟩
        · exact hwhole ▸ hzero
        · exact hfrac ▸ isDigit_of_mem_takeWhile
        · rw [hwhole, hfrac, fractionText, if_neg hfraction, List.cons_append, hinner, ← hrest,
            hsplit]
    · obtain ⟨hnegative, hwhole, hfrac, hpower⟩ := withExponent?_eq_some.mp h
      refine ⟨hnegative, ?_, ?_, ?_, _, hpower, ?_⟩
      · exact hwhole ▸ ⟨hne, isDigit_of_mem_takeWhile⟩
      · exact hwhole ▸ hzero
      · rw [hfrac]
        exact fun c hc => absurd hc List.not_mem_nil
      · rw [hwhole, hfrac, fractionText, if_pos rfl, List.nil_append, hsplit]

theorem readUnsigned?_of_unsigned {negative : Bool} {s : List Char} {n : Numeral}
    (hnegative : n.negative = negative) (h : n.Unsigned s) :
    readUnsigned? negative s = some n := by
  obtain ⟨⟨hne, hdigits⟩, hzero, hfrac, power, hpower, rfl⟩ := h
  have hleading := (leading_iff hne).mpr hzero
  by_cases hf : n.fraction = []
  · have htail : fractionText n.fraction ++ power = power := by
      rw [fractionText, if_pos hf, List.nil_append]
    rw [htail]
    obtain ⟨htake, hdrop⟩ := takeWhile_digits hdigits fun c hc => (hpower.head c hc).1
    have hread : withExponent? negative n.whole [] power = some n :=
      withExponent?_eq_some.mpr ⟨hnegative, rfl, hf, hpower⟩
    simp only [readUnsigned?, htake, hdrop]
    rw [if_neg hleading]
    split
    · rename_i rest
      exact absurd rfl (hpower.head '.' rfl).2
    · exact hread
  · have htail : fractionText n.fraction ++ power = '.' :: (n.fraction ++ power) := by
      rw [fractionText, if_neg hf, List.cons_append]
    rw [htail]
    have hpoint : ∀ c, ('.' :: (n.fraction ++ power)).head? = some c → Text.isDigit c = false := by
      intro c hc
      obtain rfl := Option.some.inj hc
      decide
    obtain ⟨htake, hdrop⟩ := takeWhile_digits hdigits hpoint
    obtain ⟨hftake, hfdrop⟩ := takeWhile_digits hfrac fun c hc => (hpower.head c hc).1
    simp only [readUnsigned?, htake, hdrop, hftake, hfdrop]
    rw [if_neg hleading, if_neg hf]
    exact withExponent?_eq_some.mpr ⟨hnegative, rfl, rfl, hpower⟩

theorem readUnsigned?_eq_some {negative : Bool} {s : List Char} {n : Numeral} :
    readUnsigned? negative s = some n ↔ n.negative = negative ∧ n.Unsigned s :=
  ⟨unsigned_of_readUnsigned?, fun h => readUnsigned?_of_unsigned h.1 h.2⟩

theorem spelled_iff {n : Numeral} {s : List Char} :
    n.Spelled s ↔ ∃ rest, n.Unsigned rest ∧ s = signText n.negative ++ rest := by
  constructor
  · rintro ⟨hwhole, hleading, hfraction, power, hpower, rfl⟩
    exact ⟨_, ⟨hwhole, hleading, hfraction, power, hpower, rfl⟩, rfl⟩
  · rintro ⟨_, ⟨hwhole, hleading, hfraction, power, hpower, rfl⟩, rfl⟩
    exact ⟨hwhole, hleading, hfraction, power, hpower, rfl⟩

theorem Unsigned.head {n : Numeral} {s : List Char} (h : n.Unsigned s) :
    ∃ c rest, s = c :: rest ∧ Text.isDigit c = true := by
  obtain ⟨power, -, rfl⟩ := h.text
  obtain ⟨hne, hdigits⟩ := h.whole
  obtain ⟨c, rest, hw⟩ := List.exists_cons_of_ne_nil hne
  refine ⟨c, _, by rw [hw, List.cons_append], hdigits c ?_⟩
  rw [hw]
  exact List.mem_cons_self

theorem read?_eq_some {s : List Char} {n : Numeral} : read? s = some n ↔ n.Spelled s := by
  rw [spelled_iff]
  constructor
  · intro h
    rw [read?.eq_def] at h
    split at h
    · obtain ⟨hnegative, hu⟩ := readUnsigned?_eq_some.mp h
      exact ⟨_, hu, by rw [hnegative]; rfl⟩
    · obtain ⟨hnegative, hu⟩ := readUnsigned?_eq_some.mp h
      exact ⟨_, hu, by rw [hnegative]; rfl⟩
  · rintro ⟨rest, hu, rfl⟩
    cases hnegative : n.negative with
    | true => exact readUnsigned?_eq_some.mpr ⟨hnegative, hu⟩
    | false =>
      obtain ⟨c, more, rfl, hc⟩ := hu.head
      have hminus : c ≠ '-' := by
        rintro rfl
        cases hc
      have hread : read? (c :: more) = readUnsigned? false (c :: more) := by
        rw [read?.eq_def]
        split
        · rename_i heq
          exact absurd (List.cons.inj heq).1 hminus
        · rfl
      exact hread.trans (readUnsigned?_eq_some.mpr ⟨hnegative, hu⟩)

end Numeral

end Inventory.Json
