import Inventory.Proofs.FiniteValue
import Inventory.Proofs.JsonText.Rendered
import Inventory.Proofs.QueryText.JoinedTerms
import Inventory.Proofs.QueryText.NumberWords
import Inventory.Proofs.QueryText.ParseTree

/-! The numbers of a query and the nulls in its wire text. A word that spells a decimal beyond the
doubles is read as an infinity and sent as null. Every other number of a query is finite, and every
other null stands for a call without arguments. -/

namespace Inventory

/-- The number stands in the operand, at any depth. -/
inductive Operand.Holds (d : Double) : Operand → Prop where
  | value {v : Value} : v.Holds d → Holds d (.value v)
  | operand {op : Operation} {x : Operand} : Holds d x → Holds d (.filter op x)
  | element {items : List Operand} {x : Operand} : x ∈ items → Holds d x → Holds d (.list items)

def Condition.Holds (d : Double) (c : Condition) : Prop := c.toOperand.Holds d

namespace Operand

variable {d : Double}

theorem holds_value {v : Value} : (Operand.value v).Holds d ↔ v.Holds d := by
  constructor
  · rintro ⟨h⟩
    assumption
  · exact .value

theorem holds_filter {op : Operation} {x : Operand} : (Operand.filter op x).Holds d ↔ x.Holds d := by
  constructor
  · rintro ⟨h⟩
    assumption
  · exact .operand

theorem holds_list {items : List Operand} :
    (Operand.list items).Holds d ↔ ∃ x ∈ items, x.Holds d := by
  constructor
  · rintro ⟨⟩
    exact ⟨_, ‹_›, ‹_›⟩
  · rintro ⟨x, hx, hd⟩
    exact .element hx hd

end Operand

namespace Json

mutual

/-- How many nulls are written. -/
def Written.nulls : Written → Nat
  | .null => 1
  | .array items => Written.itemsNulls items
  | .object members => Written.membersNulls members
  | .bool _ => 0
  | .number _ => 0
  | .text _ => 0

def Written.itemsNulls : List Written → Nat
  | [] => 0
  | w :: rest => Written.nulls w + Written.itemsNulls rest

def Written.membersNulls : List (Option String × Written) → Nat
  | [] => 0
  | (_, w) :: rest => Written.nulls w + Written.membersNulls rest

end

theorem Written.nulls_ofDouble (d : Double) :
    (Written.ofJson (.ofDouble d)).nulls = if d.isFinite then 0 else 1 := by
  rw [Json.ofDouble]
  split
  · rename_i hfinite
    obtain ⟨s, n, hwire, hspelled, -, -⟩ := Double.exists_wire_numeral hfinite
    rw [Written.ofJson, Written.ofDouble, hwire, Option.bind_some,
      Numeral.read?_eq_some.mpr hspelled, Written.nulls]
  · rw [Written.ofJson, Written.nulls]

end Json

namespace QueryText

theorem holds_operandOf (op : Operation) (operands : List Operand) (d : Double) :
    (operandOf op operands).Holds d ↔ ∃ x ∈ operands, x.Holds d := by
  rw [operandOf.eq_def]
  split
  · exact Operand.holds_list
  · split
    · constructor
      · nofun
      · rintro ⟨x, hx, -⟩
        cases hx
    · simp
    · exact Operand.holds_list

theorem nulls_operandOf (op : Operation) (x : Operand) (rest : List Operand) :
    (Json.Written.ofJson (operandOf op (x :: rest)).toJson).nulls =
      Json.Written.itemsNulls (Json.Written.ofItems (Operand.allToJson (x :: rest))) := by
  rw [operandOf.eq_def]
  split
  · rw [Operand.toJson, Json.Written.ofJson, Json.Written.nulls]
  · cases rest with
    | nil => simp [Operand.allToJson, Json.Written.ofItems, Json.Written.itemsNulls]
    | cons y rest => simp [Operand.toJson, Json.Written.ofJson, Json.Written.nulls]

theorem nulls_callFilter (name : List Char) (cs : List Condition) :
    (Json.Written.ofJson (callFilter name cs).toJson).nulls =
      (Json.Written.ofJson (operandOf (Operation.lookup (String.ofList name))
        (cs.map Condition.toOperand)).toJson).nulls := by
  simp [callFilter, Condition.toJson, Condition.toOperand, Operand.ofFilter, Operand.toJson,
    Json.Written.ofJson, Json.Written.ofMembers, Json.Written.nulls, Json.Written.membersNulls]

/-- A word is sent as null only if it overflows. -/
theorem nulls_literal (word : List Char) :
    (Json.Written.ofJson (literal word).toJson).nulls = if Overflows word then 1 else 0 := by
  have hnulls : (Json.Written.ofJson (literal word).toJson).nulls =
      if (literal word).isFinite then 0 else 1 := by
    rcases literal_cases word with ⟨b, h⟩ | ⟨n, h⟩ | ⟨d, h⟩ | ⟨s, h⟩
    · rw [h]
      rfl
    · rw [h]
      rfl
    · rw [h, Value.toJson, Value.isFinite, Json.Written.nulls_ofDouble]
    · rw [h]
      rfl
  rw [hnulls]
  by_cases hword : Overflows word
  · rw [if_pos hword, if_neg (mt isFinite_literal.mp (not_not_intro hword))]
  · rw [if_neg hword, if_pos (isFinite_literal.mpr hword)]

theorem holds_literal {word : List Char} {d : Double} :
    (literal word).Holds d ↔ literal word = .float d := by
  constructor
  · intro h
    rcases literal_cases word with ⟨b, hw⟩ | ⟨n, hw⟩ | ⟨e, hw⟩ | ⟨s, hw⟩
    all_goals
      rw [hw] at h
      cases h
    exact hw
  · intro h
    rw [h]
    exact .number

namespace ParseTree

variable {d : Double}

mutual

/-- The numbers of a condition are those of its words. -/
theorem holds_condition (t : ParseTree) :
    t.condition.Holds d ↔ ∃ word ∈ t.words, literal word = .float d := by
  match t with
  | .quoted inside =>
    have hnone : ¬(Value.text (String.ofList inside)).Holds d := nofun
    rw [condition, Condition.Holds, Condition.toOperand, Operand.holds_value, words]
    simp [hnone]
  | .word text =>
    rw [condition, Condition.Holds, Condition.toOperand, Operand.holds_value, holds_literal, words]
    simp
  | .call name arguments =>
    rw [condition, callFilter, Condition.Holds, words, ← holds_conditions arguments]
    simp only [Condition.toOperand, Operand.ofFilter, Operand.holds_filter, holds_operandOf]
    simp [Condition.Holds]

theorem holds_conditions (ts : List ParseTree) :
    (∃ c ∈ conditions ts, c.Holds d) ↔ ∃ word ∈ wordsOfAll ts, literal word = .float d := by
  match ts with
  | [] => simp [conditions, wordsOfAll]
  | t :: rest =>
    have ht := holds_condition t
    have hrest := holds_conditions rest
    simp [conditions, wordsOfAll, or_and_right, exists_or, ht, hrest]

end

mutual

theorem nulls_condition (t : ParseTree) : (Json.Written.ofJson t.condition.toJson).nulls =
    t.bareCalls + t.words.countP (Overflows ·) := by
  match t with
  | .quoted inside => rfl
  | .word text =>
    rw [condition, Condition.toJson, Condition.toOperand, Operand.toJson, nulls_literal, words, bareCalls]
    simp [List.countP_cons]
  | .call name [] =>
    rw [condition, nulls_callFilter, conditions, words, wordsOfAll, bareCalls, operandOf.eq_def]
    split <;> rfl
  | .call name (t :: rest) =>
    have hall := nulls_conditions (t :: rest)
    rw [conditions, List.map_cons, bareCallsOfAll] at hall
    rw [condition, nulls_callFilter, conditions, words, bareCalls, List.map_cons, nulls_operandOf,
      hall]

theorem nulls_conditions (ts : List ParseTree) :
    Json.Written.itemsNulls (Json.Written.ofItems
      (Operand.allToJson ((conditions ts).map Condition.toOperand))) =
      bareCallsOfAll ts + (wordsOfAll ts).countP (Overflows ·) := by
  match ts with
  | [] => rfl
  | t :: rest =>
    have ht := nulls_condition t
    have hrest := nulls_conditions rest
    rw [conditions, List.map_cons, Operand.allToJson, Json.Written.ofItems, Json.Written.itemsNulls,
      ← Condition.toJson, ht, hrest, bareCallsOfAll, wordsOfAll, List.countP_append]
    omega

end

end ParseTree

theorem exists_map_eq {α β : Type} {f : α → β} {p : α → Prop} {ys : List β}
    (h : ∀ y ∈ ys, ∃ x, f x = y ∧ p x) : ∃ xs : List α, ys = xs.map f ∧ ∀ x ∈ xs, p x := by
  induction ys with
  | nil => exact ⟨[], rfl, List.forall_mem_nil _⟩
  | cons y ys ih =>
    obtain ⟨⟨x, hx, hp⟩, htail⟩ := List.forall_mem_cons.mp h
    obtain ⟨xs, rfl, hall⟩ := ih htail
    exact ⟨x :: xs, by rw [List.map_cons, hx], List.forall_mem_cons.mpr ⟨hp, hall⟩⟩

theorem nulls_filters (terms : List (String × ParseTree)) :
    (Json.Written.ofJson (.object (terms.map fun t => (t.1, t.2.condition.toJson)))).nulls =
      (terms.map fun t => t.2.bareCalls + t.2.words.countP (Overflows ·)).sum := by
  rw [Json.Written.ofJson, Json.Written.nulls]
  induction terms with
  | nil => rfl
  | cons t rest ih =>
    rw [List.map_cons, List.map_cons, List.sum_cons, Json.Written.ofMembers,
      Json.Written.membersNulls, t.2.nulls_condition, ih]

theorem ParseTree.finite_iff (t : ParseTree) :
    (∀ d, t.condition.Holds d → d.isFinite = true) ↔ ∀ word ∈ t.words, ¬Overflows word := by
  simp only [holds_condition, ← isFinite_literal, Value.isFinite_iff, holds_literal]
  constructor
  · intro h word hword d hd
    exact h d ⟨word, hword, hd⟩
  · rintro h d ⟨word, hword, hd⟩
    exact h word hword d hd

end QueryText

open QueryText

/-- The filters of a query are those of trees that the query spells. Their numbers are the numbers of
the plain words, all finite exactly if no word spells a decimal beyond the doubles. The wire text has
one null for each call that is written without arguments and takes no list, one for each such word,
and no other. -/
theorem query_numbers_finite_but_overflow (query : List Char) (filters : Filters)
    (h : parse query = .ok filters) : ∃ terms : List (String × ParseTree),
      filters.entries = terms.map (fun t => (t.1, t.2.condition)) ∧
      (∀ t ∈ terms, ∃ raw, t.2.Spells raw ∧ t.1.toList ++ '=' :: raw <:+: query) ∧
      (∀ t ∈ terms, ∀ d, t.2.condition.Holds d ↔ ∃ word ∈ t.2.words, literal word = .float d) ∧
      (∀ t ∈ terms, (∀ d, t.2.condition.Holds d → d.isFinite = true) ↔
        ∀ word ∈ t.2.words, ¬Overflows word) ∧
      ∃ w, Json.written? filters.wire = some w ∧
        w.nulls = (terms.map fun t => t.2.bareCalls + t.2.words.countP (Overflows ·)).sum := by
  have hentry : ∀ e ∈ filters.entries, ∃ t : String × ParseTree, (t.1, t.2.condition) = e ∧
      ∃ raw, t.2.Spells raw ∧ t.1.toList ++ '=' :: raw <:+: query := by
    rintro ⟨name, c⟩ hc
    obtain ⟨t, raw, hspells, rfl, hinfix⟩ := exists_tree_of_parse h hc
    exact ⟨(name, t), rfl, raw, hspells, hinfix⟩
  obtain ⟨terms, hterms, hspelled⟩ := exists_map_eq hentry
  refine ⟨terms, hterms, hspelled, fun t _ d => t.2.holds_condition, fun t _ => t.2.finite_iff,
    _, Json.written?_compact _, ?_⟩
  rw [← nulls_filters, Filters.toJson, hterms, List.map_map]
  rfl

def fieldX : FieldName := Identifier.toFieldName ⟨'x', [], .inl rfl, List.forall_mem_nil _⟩

/-- An integer beyond 64 bits is read as a float. -/
theorem query_numbers_finite_beyond_int64 :
    ∃ filters, ∃ terms : List (String × ParseTree),
      parse "x=99999999999999999999".toList = .ok filters ∧
      filters.entries = terms.map (fun t => (t.1, t.2.condition)) ∧
      ∃ w, Json.written? filters.wire = some w ∧
        w.nulls = (terms.map fun t => t.2.bareCalls + t.2.words.countP (Overflows ·)).sum := by
  have hparse := parse_word fieldX (List.replicate 20 '9') nofun (plain_of_all rfl)
  obtain ⟨terms, hterms, -, -, -, w, hw, hnulls⟩ := query_numbers_finite_but_overflow _ _ hparse
  exact ⟨_, terms, hparse, hterms, w, hw, hnulls⟩

/-- A one and 309 zeros is read as infinity and sent as null, with no call in the query. -/
theorem long_word_sent_as_null : ∃ filters d,
    parse ('x' :: '=' :: '1' :: List.replicate 309 '0') = .ok filters ∧
      filters.entries = [("x", .value (.float d))] ∧ d.isFinite = false ∧
      filters.wire = "\x7b\"x\":null\x7d" := by
  have hdigits : ∀ c ∈ '1' :: List.replicate 309 '0', Text.isDigit c = true :=
    List.all_eq_true.mp (by decide +kernel)
  have hlarge : Double.overflow ≤ Text.ofDigits ('1' :: List.replicate 309 '0') := by
    decide +kernel
  obtain ⟨negative, hword⟩ := literal_infinite.mpr (overflows_of_digits hdigits hlarge)
  have hparse := parse_word fieldX ('1' :: List.replicate 309 '0') nofun
    (plain_of_all (by decide +kernel))
  rw [hword] at hparse
  refine ⟨_, .infinite negative, hparse, rfl, rfl, ?_⟩
  cases negative <;> decide +kernel

end Inventory
