import Inventory.Proofs.DecimalText
import Inventory.Proofs.DoubleRange
import Inventory.Proofs.JsonText.NumberLiteral
import Inventory.QueryText.Literal

/-! Plain words that are read as numbers. A word of digits, with at most one point and a sign, is
rounded once from the decimal that it spells. It becomes infinite exactly when that decimal lies
beyond the finite doubles, and never becomes NaN. -/

namespace Inventory.QueryText

/-- The word is a sign, if any, and these digits, with a point between them or none. -/
def SpellsDecimal (word whole fraction : List Char) : Prop :=
  (∀ c ∈ whole ++ fraction, Text.isDigit c = true) ∧ ∃ sign point,
    (sign = [] ∨ sign = ['-'] ∨ sign = ['+']) ∧ ((point = [] ∧ fraction = []) ∨ point = ['.']) ∧
      word = sign ++ (whole ++ (point ++ fraction))

/-- The word spells a decimal too large for a finite double. -/
def Overflows (word : List Char) : Prop :=
  ∃ whole fraction, SpellsDecimal word whole fraction ∧
    Double.overflow * 10 ^ fraction.length ≤ Text.ofDigits (whole ++ fraction)

theorem overflows_of_digits {word : List Char} (hdigits : ∀ c ∈ word, Text.isDigit c = true)
    (h : Double.overflow ≤ Text.ofDigits word) : Overflows word := by
  refine ⟨word, [], ⟨?_, [], [], .inl rfl, .inl ⟨rfl, rfl⟩, ?_⟩, ?_⟩
  · rwa [List.append_nil]
  · rw [List.append_nil, List.nil_append, List.append_nil]
  · rwa [List.append_nil, List.length_nil, Nat.pow_zero, Nat.mul_one]

theorem readExponent?_eq_some {digits places : Nat} {rest : List Char} {d : Decimal}
    (hrest : ∀ c ∈ rest, c ≠ 'e' ∧ c ≠ 'E') (h : Decimal.readExponent? digits places rest = some d) :
    rest = [] ∧ d = ⟨digits, -places⟩ := by
  cases rest with
  | nil => exact ⟨rfl, (Option.some.inj h).symm⟩
  | cons c rest =>
    obtain ⟨hlower, hupper⟩ := hrest c List.mem_cons_self
    have hmark : ¬(c = 'e' ∨ c = 'E') := by
      rintro (he | he)
      · exact hlower he
      · exact hupper he
    rw [Decimal.readExponent?, if_neg hmark] at h
    cases h

/-- Text without an exponent is read as the decimal of its digits. -/
theorem exists_digits_of_read? {s : List Char} {d : Decimal} (hs : ∀ c ∈ s, c ≠ 'e' ∧ c ≠ 'E')
    (h : Decimal.read? s = some d) : ∃ whole fraction point,
      (∀ c ∈ whole ++ fraction, Text.isDigit c = true) ∧
      ((point = [] ∧ fraction = []) ∨ point = ['.']) ∧ s = whole ++ (point ++ fraction) ∧
      d = ⟨Text.ofDigits (whole ++ fraction), -(fraction.length : Int)⟩ := by
  have hsplit : s.takeWhile Text.isDigit ++ s.dropWhile Text.isDigit = s :=
    List.takeWhile_append_dropWhile
  have hwhole : ∀ c ∈ s.takeWhile Text.isDigit, Text.isDigit c = true :=
    Json.isDigit_of_mem_takeWhile
  have hdrop : ∀ c ∈ s.dropWhile Text.isDigit, c ≠ 'e' ∧ c ≠ 'E' :=
    fun c hc => hs c ((List.dropWhile_sublist _).subset hc)
  simp only [Decimal.read?] at h
  generalize s.takeWhile Text.isDigit = whole at *
  generalize s.dropWhile Text.isDigit = tail at *
  subst hsplit
  split at h
  · rename_i rest
    have hinner : rest.takeWhile Text.isDigit ++ rest.dropWhile Text.isDigit = rest :=
      List.takeWhile_append_dropWhile
    have hfraction : ∀ c ∈ rest.takeWhile Text.isDigit, Text.isDigit c = true :=
      Json.isDigit_of_mem_takeWhile
    split at h
    · cases h
    · obtain ⟨hnil, rfl⟩ := readExponent?_eq_some (fun c hc =>
        hdrop c (List.mem_cons_of_mem _ ((List.dropWhile_sublist _).subset hc))) h
      rw [hnil, List.append_nil] at hinner
      refine ⟨whole, rest.takeWhile Text.isDigit, ['.'], ?_, .inr rfl, ?_, rfl⟩
      · exact List.forall_mem_append.mpr ⟨hwhole, hfraction⟩
      · rw [hinner, List.singleton_append]
  · split at h
    · cases h
    · obtain ⟨rfl, rfl⟩ := readExponent?_eq_some hdrop h
      refine ⟨whole, [], [], ?_, .inl ⟨rfl, rfl⟩, rfl, rfl⟩
      exact List.forall_mem_append.mpr ⟨hwhole, fun c hc => absurd hc List.not_mem_nil⟩

theorem read?_digits {whole fraction point : List Char}
    (hdigits : ∀ c ∈ whole ++ fraction, Text.isDigit c = true) (hne : whole ++ fraction ≠ [])
    (hpoint : (point = [] ∧ fraction = []) ∨ point = ['.']) :
    Decimal.read? (whole ++ (point ++ fraction)) =
      some ⟨Text.ofDigits (whole ++ fraction), -(fraction.length : Int)⟩ := by
  obtain ⟨hwhole, hfraction⟩ := List.forall_mem_append.mp hdigits
  have hnot : ¬(whole = [] ∧ fraction = []) := by
    rintro ⟨rfl, rfl⟩
    exact hne rfl
  rcases hpoint with ⟨rfl, rfl⟩ | rfl
  · obtain ⟨htake, hdrop⟩ := Json.takeWhile_digits (t := []) hwhole nofun
    have hnonempty : whole ≠ [] := by
      rintro rfl
      exact hne rfl
    rw [List.append_nil] at htake hdrop
    simp [Decimal.read?, htake, hdrop, hnonempty, Decimal.readExponent?]
  · obtain ⟨htake, hdrop⟩ := Json.takeWhile_digits (t := '.' :: fraction) hwhole (by
      intro c hc
      obtain rfl := Option.some.inj hc
      rfl)
    obtain ⟨hinner, hend⟩ := Json.takeWhile_digits (t := []) hfraction nofun
    rw [List.append_nil] at hinner hend
    simp only [Decimal.read?, List.singleton_append, htake, hdrop, hinner, hend]
    rw [if_neg hnot, Decimal.readExponent?]

/-- A decimal with at most as many places as the text has characters is not clamped. -/
theorem clamp_places {digits places length : Nat} (h : places ≤ length) :
    (⟨digits, -(places : Int)⟩ : Decimal).clamp length = ⟨digits, -(places : Int)⟩ := by
  have hmin : min (-(places : Int)) 400 = -places := by omega
  have hmax : max (-(places : Int)) (-(400 + length)) = -places := by omega
  rw [Decimal.clamp, hmin, hmax]

theorem toDouble_places (negative : Bool) (digits places : Nat) :
    (⟨digits, -(places : Int)⟩ : Decimal).toDouble negative =
      .ofRatio negative digits (10 ^ places) := by
  have hup : (-(places : Int)).toNat = 0 := by omega
  have hdown : (- -(places : Int)).toNat = places := by omega
  simp only [Decimal.toDouble, Decimal.rank, Decimal.numerator, Decimal.denominator, hup, hdown,
    Nat.pow_eq, Nat.pow_zero, Nat.mul_one, Double.ofRatio]

theorem ne_exponent_of_looksNumeric {word : List Char} (h : looksNumeric word = true) :
    ∀ c ∈ word, c ≠ 'e' ∧ c ≠ 'E' := by
  intro c hc
  rw [looksNumeric, Bool.and_eq_true] at h
  have hchar := List.all_eq_true.mp h.2 c hc
  constructor
  · rintro rfl
    cases hchar
  · rintro rfl
    cases hchar

theorem read?_body {sign body : List Char} {negative : Bool} {d : Double}
    (hsign : sign = [] ∨ sign = ['-'] ∨ sign = ['+']) (hbody : ∀ c ∈ body, c ≠ 'e' ∧ c ≠ 'E')
    (h : (Decimal.read? body).map (fun d => (d.clamp body.length).toDouble negative) = some d) :
    ∃ whole fraction, SpellsDecimal (sign ++ body) whole fraction ∧
      d = .ofRatio negative (Text.ofDigits (whole ++ fraction)) (10 ^ fraction.length) := by
  obtain ⟨decimal, hdecimal, hd⟩ := Option.map_eq_some_iff.mp h
  obtain ⟨whole, fraction, point, hdigits, hpoint, hspelled, rfl⟩ :=
    exists_digits_of_read? hbody hdecimal
  have hplaces : fraction.length ≤ body.length := by
    rw [hspelled, List.length_append, List.length_append]
    omega
  refine ⟨whole, fraction, ⟨hdigits, sign, point, hsign, hpoint, by rw [hspelled]⟩, ?_⟩
  rw [← hd, clamp_places hplaces, toDouble_places]

/-- A numeral is rounded once, with its sign kept apart. -/
theorem read?_numeral {word : List Char} {d : Double} (hnumeric : looksNumeric word = true)
    (h : Double.read? word = some d) : ∃ negative whole fraction,
      SpellsDecimal word whole fraction ∧
      d = .ofRatio negative (Text.ofDigits (whole ++ fraction)) (10 ^ fraction.length) := by
  have hchars := ne_exponent_of_looksNumeric hnumeric
  rw [Double.read?.eq_def] at h
  split at h
  rename_i negative body hsplit
  split at hsplit
  · cases hsplit
    exact ⟨_, read?_body (.inr (.inl rfl)) (List.forall_mem_cons.mp hchars).2 h⟩
  · cases hsplit
    exact ⟨_, read?_body (.inr (.inr rfl)) (List.forall_mem_cons.mp hchars).2 h⟩
  · cases hsplit
    exact ⟨_, read?_body (.inl rfl) hchars h⟩

theorem SpellsDecimal.filter_isDigit {word whole fraction : List Char}
    (h : SpellsDecimal word whole fraction) : word.filter Text.isDigit = whole ++ fraction := by
  obtain ⟨hdigits, sign, point, hsign, hpoint, rfl⟩ := h
  have hsign' : sign.filter Text.isDigit = [] := by
    rcases hsign with rfl | rfl | rfl <;> rfl
  have hpoint' : point.filter Text.isDigit = [] := by
    rcases hpoint with ⟨rfl, -⟩ | rfl <;> rfl
  obtain ⟨hwhole, hfraction⟩ := List.forall_mem_append.mp hdigits
  rw [List.filter_append, List.filter_append, List.filter_append, hsign', hpoint',
    List.filter_eq_self.mpr hwhole, List.filter_eq_self.mpr hfraction]
  rfl

theorem digit_or_point {whole fraction point : List Char}
    (hdigits : ∀ c ∈ whole ++ fraction, Text.isDigit c = true)
    (hpoint : (point = [] ∧ fraction = []) ∨ point = ['.']) :
    ∀ c ∈ whole ++ (point ++ fraction), Text.isDigit c = true ∨ c = '.' := by
  obtain ⟨hwhole, hfraction⟩ := List.forall_mem_append.mp hdigits
  intro c hc
  rcases List.mem_append.mp hc with hc | hc
  · exact .inl (hwhole c hc)
  · rcases List.mem_append.mp hc with hc | hc
    · rcases hpoint with ⟨rfl, -⟩ | rfl
      · cases hc
      · exact .inr (List.mem_singleton.mp hc)
    · exact .inl (hfraction c hc)

theorem SpellsDecimal.looksNumeric {word whole fraction : List Char}
    (h : SpellsDecimal word whole fraction) (hne : whole ++ fraction ≠ []) :
    looksNumeric word = true := by
  obtain ⟨c, hc⟩ := List.exists_mem_of_ne_nil _ (h.filter_isDigit ▸ hne)
  obtain ⟨hmem, hdigit⟩ := List.mem_filter.mp hc
  obtain ⟨hdigits, sign, point, hsign, hpoint, rfl⟩ := h
  rw [QueryText.looksNumeric, Bool.and_eq_true, List.any_eq_true, List.all_eq_true]
  refine ⟨⟨c, hmem, hdigit⟩, List.forall_mem_append.mpr ⟨?_, fun c hc => ?_⟩⟩
  · rcases hsign with rfl | rfl | rfl <;> exact List.all_eq_true.mp rfl
  · rcases digit_or_point hdigits hpoint c hc with hd | rfl
    · rw [hd]
      rfl
    · rfl

theorem read?_signed {sign body : List Char} (hsign : sign = [] ∨ sign = ['-'] ∨ sign = ['+'])
    (hbody : ∀ c ∈ body, c ≠ '-' ∧ c ≠ '+') : ∃ negative, Double.read? (sign ++ body) =
      (Decimal.read? body).map fun d => (d.clamp body.length).toDouble negative := by
  rcases hsign with rfl | rfl | rfl
  · refine ⟨false, ?_⟩
    rw [List.nil_append, Double.read?.eq_def]
    split
    rename_i negative rest hsplit
    split at hsplit
    · exact absurd rfl (hbody _ List.mem_cons_self).1
    · exact absurd rfl (hbody _ List.mem_cons_self).2
    · cases hsplit
      rfl
  · exact ⟨true, rfl⟩
  · exact ⟨false, rfl⟩

theorem SpellsDecimal.read? {word whole fraction : List Char}
    (h : SpellsDecimal word whole fraction) (hne : whole ++ fraction ≠ []) : ∃ negative,
      Double.read? word =
        some (.ofRatio negative (Text.ofDigits (whole ++ fraction)) (10 ^ fraction.length)) := by
  obtain ⟨hdigits, sign, point, hsign, hpoint, rfl⟩ := h
  have hplaces : fraction.length ≤ (whole ++ (point ++ fraction)).length := by
    rw [List.length_append, List.length_append]
    omega
  have hbody : ∀ c ∈ whole ++ (point ++ fraction), c ≠ '-' ∧ c ≠ '+' := by
    intro c hc
    rcases digit_or_point hdigits hpoint c hc with hd | rfl
    · constructor
      · rintro rfl
        cases hd
      · rintro rfl
        cases hd
    · decide
  obtain ⟨negative, hread⟩ := read?_signed hsign hbody
  refine ⟨negative, ?_⟩
  rw [hread, read?_digits hdigits hne hpoint, Option.map_some, clamp_places hplaces,
    toDouble_places]

theorem literal_cases (word : List Char) : (∃ b, literal word = .bool b) ∨
    (∃ n, literal word = .int n) ∨ (∃ d, literal word = .float d) ∨ ∃ s, literal word = .text s := by
  rw [literal]
  split
  · exact .inl ⟨true, rfl⟩
  · split
    · exact .inl ⟨false, rfl⟩
    · split
      · exact .inr (.inl ⟨_, rfl⟩)
      · split
        · exact .inr (.inr (.inl ⟨_, rfl⟩))
        · exact .inr (.inr (.inr ⟨_, rfl⟩))

theorem literal_float {word : List Char} {d : Double} (h : literal word = .float d) :
    Text.readInt64? word = none ∧ looksNumeric word = true ∧ Double.read? word = some d := by
  rw [literal] at h
  split at h
  · cases h
  · split at h
    · cases h
    · split at h
      · cases h
      · rename_i hint
        split at h
        · rename_i e hread
          obtain rfl := Value.float.inj h
          split at hread
          · rename_i hnumeric
            exact ⟨hint, hnumeric, hread⟩
          · cases hread
        · cases h

theorem literal_rounded {word : List Char} {d : Double} (h : literal word = .float d) :
    ∃ negative whole fraction, SpellsDecimal word whole fraction ∧
      d = .ofRatio negative (Text.ofDigits (whole ++ fraction)) (10 ^ fraction.length) := by
  obtain ⟨-, hnumeric, hread⟩ := literal_float h
  exact read?_numeral hnumeric hread

theorem literal_ne_nan (word : List Char) : literal word ≠ .float .nan := by
  intro h
  obtain ⟨negative, whole, fraction, -, hd⟩ := literal_rounded h
  rw [Double.ofRatio, Double.ofRank] at hd
  split at hd <;> cases hd

theorem natAbs_lt_overflow {n : Int} (h : Int64.minValue.toInt ≤ n ∧ n ≤ Int64.maxValue.toInt) :
    n.natAbs < Double.overflow := by
  have hmin : Int64.minValue.toInt = -(2 ^ 63) := rfl
  have hmax : Int64.maxValue.toInt = 2 ^ 63 - 1 := rfl
  exact (Double.isFinite_ofInt n).mp (Double.isFinite_ofInt_of_le (by omega))

theorem Overflows.readInt64? {word : List Char} (h : Overflows word) :
    Text.readInt64? word = none := by
  obtain ⟨whole, fraction, hspells, hlarge⟩ := h
  rw [Text.readInt64?]
  split
  · rename_i n hn
    rw [if_neg]
    intro hrange
    have hless := natAbs_lt_overflow hrange
    rw [Text.natAbs_of_readInt? hn, hspells.filter_isDigit] at hless
    have hpower : Double.overflow ≤ Double.overflow * 10 ^ fraction.length :=
      Nat.le_mul_of_pos_right _ (Nat.pow_pos (by decide))
    omega
  · rfl

/-- A word becomes infinite exactly if it spells a decimal beyond the doubles. -/
theorem literal_infinite {word : List Char} :
    (∃ negative, literal word = .float (.infinite negative)) ↔ Overflows word := by
  constructor
  · rintro ⟨sign, h⟩
    obtain ⟨negative, whole, fraction, hspells, hd⟩ := literal_rounded h
    refine ⟨whole, fraction, hspells, Nat.not_lt.mp ?_⟩
    rw [← Double.isFinite_ofRatio negative _ (Nat.pow_pos (by decide)), ← hd]
    nofun
  · intro h
    have hint := h.readInt64?
    obtain ⟨whole, fraction, hspells, hlarge⟩ := h
    have hne : whole ++ fraction ≠ [] := by
      intro hnil
      have hpos : 0 < Double.overflow := natAbs_lt_overflow (n := 0) (by decide)
      rw [hnil] at hlarge
      exact absurd hlarge (Nat.not_le.mpr (Nat.mul_pos hpos (Nat.pow_pos (by decide))))
    have hnumeric := hspells.looksNumeric hne
    obtain ⟨negative, hread⟩ := hspells.read? hne
    have htrue : word ≠ ['t', 'r', 'u', 'e'] := by
      rintro rfl
      cases hnumeric
    have hfalse : word ≠ ['f', 'a', 'l', 's', 'e'] := by
      rintro rfl
      cases hnumeric
    have hrank := (Double.nearestRank_lt_iff (Text.ofDigits (whole ++ fraction))
      (Nat.pow_pos (n := fraction.length) (show 0 < 10 by decide))).not.mpr (Nat.not_lt.mpr hlarge)
    refine ⟨negative, ?_⟩
    rw [literal, if_neg htrue, if_neg hfalse, hint, hnumeric, if_pos rfl, hread, Double.ofRatio,
      Double.ofRank, dif_neg hrank]

/-- The value of a word is finite but for a decimal beyond the doubles. -/
theorem isFinite_literal {word : List Char} :
    (literal word).isFinite = true ↔ ¬Overflows word := by
  rw [← literal_infinite]
  constructor
  · rintro h ⟨negative, hinfinite⟩
    rw [hinfinite] at h
    cases h
  · intro h
    rcases literal_cases word with ⟨b, hb⟩ | ⟨n, hn⟩ | ⟨d, hd⟩ | ⟨s, hs⟩
    · rw [hb, Value.isFinite]
    · rw [hn, Value.isFinite]
    · cases d with
      | finite negative rank => rw [hd, Value.isFinite, Double.isFinite]
      | nan => exact absurd hd (literal_ne_nan word)
      | infinite negative => exact absurd ⟨negative, hd⟩ h
    · rw [hs, Value.isFinite]

instance : DecidablePred Overflows := fun word =>
  decidable_of_iff ((literal word).isFinite ≠ true) (by rw [Ne, isFinite_literal, not_not])

end Inventory.QueryText
