import Inventory.Proofs.QueryText.Concatenation
import Inventory.Proofs.QueryText.ErrorPositions
import Inventory.Proofs.QueryText.NumberWords
import Inventory.Proofs.QueryText.ParseTree

/-! The form of what queries are read as. Attributes have plain names, and at every depth an operation
stands with an operand of its kind, lists never directly in lists. -/

namespace Inventory

open QueryText (Identifier)

/-- A value that a word or a quoted text spells. -/
def Value.IsScalar : Value → Prop
  | .bool _ => True
  | .int _ => True
  | .float _ => True
  | .text _ => True
  | .null => False
  | .list _ => False

namespace Operation

/-- Whether some registered operation has this name, whatever the case of its ASCII letters. -/
def IsRegisteredName (name : String) : Prop := ∃ op ∈ registered, folded op.name = folded name

/-- An operation that was read from a name. It is a registered one just if its name is, in any case of
the letters, and so was the name that it was read from. -/
structure ReadFromName (op : Operation) : Prop where
  written : ∃ name : Identifier, op = lookup (String.ofList name.chars) ∧
    (op ∈ registered ↔ IsRegisteredName (String.ofList name.chars))
  identifier : ∃ name : Identifier, op.name = String.ofList name.chars
  registered_iff : op ∈ registered ↔ IsRegisteredName op.name

theorem lookup_mem_registered {name : String} : lookup name ∈ registered ↔ IsRegisteredName name := by
  rw [lookup]
  cases h : registered.find? fun op => folded op.name == folded name with
  | some op =>
    have hmem := List.mem_of_find?_eq_some h
    have hname := List.find?_some h
    exact iff_of_true hmem ⟨op, hmem, beq_iff_eq.mp hname⟩
  | none =>
    refine iff_of_false (by simp [registered]) ?_
    rintro ⟨op, hmem, hname⟩
    exact List.find?_eq_none.mp h op hmem (beq_iff_eq.mpr hname)

theorem folded_lookup (name : String) : folded (lookup name).name = folded name := by
  rw [lookup]
  cases h : registered.find? fun op => folded op.name == folded name with
  | some op =>
    have hname := List.find?_some h
    exact beq_iff_eq.mp hname
  | none => rfl

theorem isRegisteredName_lookup {name : String} :
    IsRegisteredName (lookup name).name ↔ IsRegisteredName name := by
  rw [IsRegisteredName, IsRegisteredName, folded_lookup]

end Operation

namespace QueryText

theorem charIsDigit_of_isDigit {c : Char} (h : Text.isDigit c = true) : c.isDigit = true := by
  rw [Text.isDigit, Bool.and_eq_true] at h
  rw [Char.isDigit, Bool.and_eq_true]
  exact h

theorem exists_identifier {s : List Char} (h : isIdentifier s = true) :
    ∃ name : Identifier, name.chars = s := by
  cases s with
  | nil => cases h
  | cons c rest =>
    rw [isIdentifier, isNameStart, Bool.and_eq_true, Bool.or_eq_true, beq_iff_eq, List.all_eq_true] at h
    refine ⟨⟨c, rest, h.1, fun d hd => ?_⟩, rfl⟩
    have hnext := h.2 d hd
    rw [isNameStart, Bool.or_eq_true, Bool.or_eq_true, beq_iff_eq] at hnext
    rw [Char.isAlphanum, Bool.or_eq_true]
    rcases hnext with (halpha | hline) | hdigit
    · exact .inl (.inl halpha)
    · exact .inr hline
    · exact .inl (.inr (charIsDigit_of_isDigit hdigit))

end QueryText

theorem Operation.exists_identifier_lookup (name : Identifier) :
    ∃ identifier : Identifier,
      (lookup (String.ofList name.chars)).name = String.ofList identifier.chars := by
  have hregistered : ∀ op ∈ registered, QueryText.isIdentifier op.name.toList = true := by decide
  rw [lookup]
  cases h : registered.find? fun op => folded op.name == folded (String.ofList name.chars) with
  | some op =>
    obtain ⟨identifier, hchars⟩ :=
      QueryText.exists_identifier (hregistered op (List.mem_of_find?_eq_some h))
    exact ⟨identifier, by rw [hchars, String.ofList_toList]⟩
  | none => exact ⟨name, rfl⟩

theorem Operation.readFromName_lookup (name : Identifier) :
    (lookup (String.ofList name.chars)).ReadFromName where
  written := ⟨name, rfl, lookup_mem_registered⟩
  identifier := exists_identifier_lookup name
  registered_iff := lookup_mem_registered.trans isRegisteredName_lookup.symm

namespace Operand

/-- The first operand stands in the second, at any depth. -/
inductive In (x : Operand) : Operand → Prop where
  | itself : In x x
  | operand {op : Operation} {y : Operand} : In x y → In x (.filter op y)
  | element {items : List Operand} {y : Operand} : y ∈ items → In x y → In x (.list items)

/-- What one expression is read as. -/
def IsSingle (x : Operand) : Prop := (∃ v, x = .value v) ∨ ∃ op y, x = .filter op y

/-- What an operation is called with. Some always take a list, the others only one of two or more. -/
def Fits (op : Operation) (x : Operand) : Prop :=
  if op.isVariadic then ∃ items, x = .list items
  else x = .absent ∨ x.IsSingle ∨ ∃ items, x = .list items ∧ 2 ≤ items.length

/-- The form of an operand, apart from what stands further down in it. -/
structure WellFormed (x : Operand) : Prop where
  value : ∀ v, x = .value v → v.IsScalar
  filter : ∀ op y, x = .filter op y → op.ReadFromName ∧ y.Fits op
  list : ∀ items, x = .list items → ∀ y ∈ items, y.IsSingle

theorem wellFormed_absent : WellFormed .absent := ⟨nofun, nofun, nofun⟩

theorem wellFormed_value {v : Value} (h : v.IsScalar) : WellFormed (.value v) := by
  refine ⟨?_, nofun, nofun⟩
  rintro _ ⟨⟩
  exact h

theorem wellFormed_filter {op : Operation} {y : Operand} (hop : op.ReadFromName) (hy : y.Fits op) :
    WellFormed (.filter op y) := by
  refine ⟨nofun, ?_, nofun⟩
  rintro _ _ ⟨⟩
  exact ⟨hop, hy⟩

theorem wellFormed_list {items : List Operand} (h : ∀ y ∈ items, y.IsSingle) :
    WellFormed (.list items) := by
  refine ⟨nofun, nofun, ?_⟩
  rintro _ ⟨⟩
  exact h

/-- The operand and all that stands in it are well formed, and one expression is read as it. -/
structure Sound (x : Operand) : Prop where
  single : x.IsSingle
  within : ∀ y : Operand, y.In x → y.WellFormed

theorem sound_value {v : Value} (h : v.IsScalar) : Sound (.value v) := by
  refine ⟨.inl ⟨v, rfl⟩, ?_⟩
  rintro _ ⟨⟩
  exact wellFormed_value h

theorem sound_filter {op : Operation} {x : Operand} (hop : op.ReadFromName) (hx : x.Fits op)
    (hwithin : ∀ y : Operand, y.In x → y.WellFormed) : Sound (.filter op x) := by
  refine ⟨.inr ⟨op, x, rfl⟩, fun y hy => ?_⟩
  cases hy with
  | itself => exact wellFormed_filter hop hx
  | operand hy => exact hwithin y hy

end Operand

namespace QueryText

theorem toOperand_callFilter (name : List Char) (cs : List Condition) :
    (callFilter name cs).toOperand = .filter (Operation.lookup (String.ofList name))
      (operandOf (Operation.lookup (String.ofList name)) (cs.map Condition.toOperand)) := rfl

theorem operandOf_cases (op : Operation) (xs : List Operand) :
    operandOf op xs = .list xs ∧ (op.isVariadic = true ∨ op.isVariadic = false ∧ 2 ≤ xs.length) ∨
      op.isVariadic = false ∧
        (operandOf op xs = .absent ∧ xs = [] ∨ ∃ x, operandOf op xs = x ∧ xs = [x]) := by
  rw [operandOf.eq_def]
  cases op.isVariadic with
  | true => exact .inl ⟨rfl, .inl rfl⟩
  | false =>
    cases xs with
    | nil => exact .inr ⟨rfl, .inl ⟨rfl, rfl⟩⟩
    | cons x rest =>
      cases rest with
      | nil => exact .inr ⟨rfl, .inr ⟨x, rfl, rfl⟩⟩
      | cons y rest => exact .inl ⟨rfl, .inr ⟨rfl, Nat.le_add_left 2 rest.length⟩⟩

theorem fits_operandOf {op : Operation} {xs : List Operand} (h : ∀ x ∈ xs, x.IsSingle) :
    (operandOf op xs).Fits op := by
  rw [Operand.Fits]
  rcases operandOf_cases op xs with ⟨hlist, hop | ⟨hop, htwo⟩⟩ | ⟨hop, hfew⟩
  · rw [if_pos hop]
    exact ⟨xs, hlist⟩
  · rw [hop, if_neg Bool.false_ne_true]
    exact .inr (.inr ⟨xs, hlist, htwo⟩)
  · rw [hop, if_neg Bool.false_ne_true]
    rcases hfew with ⟨habsent, -⟩ | ⟨x, hsingle, rfl⟩
    · exact .inl habsent
    · rw [hsingle]
      exact .inr (.inl (h x (List.mem_singleton_self x)))

theorem within_operandOf {op : Operation} {xs : List Operand} (h : ∀ x ∈ xs, x.Sound) (y : Operand)
    (hy : y.In (operandOf op xs)) : y.WellFormed := by
  rcases operandOf_cases op xs with ⟨hlist, -⟩ | ⟨-, ⟨habsent, -⟩ | ⟨x, hsingle, rfl⟩⟩
  · rw [hlist] at hy
    cases hy with
    | itself => exact Operand.wellFormed_list fun x hx => (h x hx).single
    | element hx hy => exact (h _ hx).within y hy
  · rw [habsent] at hy
    cases hy
    exact Operand.wellFormed_absent
  · rw [hsingle] at hy
    exact (h x (List.mem_singleton_self x)).within y hy

theorem sound_operation {op : Operation} {xs : List Operand} (hop : op.ReadFromName)
    (h : ∀ x ∈ xs, x.Sound) : (Operand.filter op (operandOf op xs)).Sound :=
  Operand.sound_filter hop (fits_operandOf fun x hx => (h x hx).single) (within_operandOf h)

theorem isScalar_literal (word : List Char) : (literal word).IsScalar := by
  rcases literal_cases word with ⟨_, h⟩ | ⟨_, h⟩ | ⟨_, h⟩ | ⟨_, h⟩ <;> rw [h] <;> trivial

namespace ParseTree

theorem conditions_eq_map (ts : List ParseTree) : conditions ts = ts.map condition := by
  induction ts with
  | nil => rfl
  | cons t rest ih => rw [conditions, List.map_cons, ih]

theorem MoreSpell.spelled {ts : List ParseTree} {s : List Char} (h : MoreSpell ts s) :
    ∀ t ∈ ts, ∃ raw, t.Spells raw := by
  induction ts generalizing s with
  | nil => exact List.forall_mem_nil _
  | cons t rest ih =>
    obtain ⟨front, back, hfront, hback, -⟩ := h
    exact List.forall_mem_cons.mpr ⟨⟨front, hfront⟩, ih hback⟩

theorem ArgumentsSpell.spelled {ts : List ParseTree} {s : List Char} (h : ArgumentsSpell ts s) :
    ∀ t ∈ ts, ∃ raw, t.Spells raw := by
  cases ts with
  | nil => exact List.forall_mem_nil _
  | cons t rest =>
    obtain ⟨front, back, hfront, hback, -⟩ := h
    exact List.forall_mem_cons.mpr ⟨⟨front, hfront⟩, hback.spelled⟩

mutual

/-- What a tree means has its form if some text spells the tree, for that makes names of its calls. -/
theorem sound_condition (t : ParseTree) (raw : List Char) (h : t.Spells raw) :
    t.condition.toOperand.Sound := by
  match t with
  | .quoted inside => exact Operand.sound_value trivial
  | .word text => exact Operand.sound_value (isScalar_literal text)
  | .call name arguments =>
    obtain ⟨-, -, inside, hname, harguments, -⟩ := h
    obtain ⟨identifier, rfl⟩ := exists_identifier hname
    have hall : ∀ x ∈ (conditions arguments).map Condition.toOperand, x.Sound := by
      rw [conditions_eq_map, List.map_map]
      exact List.forall_mem_map.mpr (sound_conditions arguments harguments.spelled)
    rw [condition, toOperand_callFilter]
    exact sound_operation (Operation.readFromName_lookup identifier) hall

theorem sound_conditions (ts : List ParseTree) (h : ∀ t ∈ ts, ∃ raw, t.Spells raw) :
    ∀ t ∈ ts, t.condition.toOperand.Sound := by
  match ts with
  | [] => exact List.forall_mem_nil _
  | t :: rest =>
    obtain ⟨⟨raw, ht⟩, hrest⟩ := List.forall_mem_cons.mp h
    exact List.forall_mem_cons.mpr ⟨sound_condition t raw ht, sound_conditions rest hrest⟩

end

end ParseTree

/-- Before the first `=` of a term nothing stands that would end the term or take it apart. -/
theorem Piece.Reads.field_plain {p : Piece} {gs : List Glyph} {k : Cursor}
    (h : p.Reads Text.isBlank 0 0 gs k) {field rest : List Char} (hp : p.text = field ++ rest)
    (hfield : ∀ c ∈ field, c ≠ '(' ∧ Scan.isQuote c = false) :
    ∀ c ∈ field, Text.isBlank c = false ∧ c ≠ ')' := by
  obtain ⟨hwithin, -⟩ := Cursor.Returns.append.mp (hp ▸ h.balanced.toReturns)
  obtain ⟨-, -, hlevel⟩ := Cursor.level h.balanced.outside hwithin hfield
  have hwhole := h.whole
  rw [h.glyphs, hp, Cursor.glyphs_append, List.forall_mem_append] at hwhole
  intro c hc
  rw [← Cursor.glyphs_chars k field] at hc
  obtain ⟨g, hg, rfl⟩ := List.mem_map.mp hc
  obtain ⟨hquoted, hdepth⟩ := hlevel g hg
  refine ⟨?_, fun hclosing => ?_⟩
  · have hsep := hwhole.1 g hg
    rwa [Glyph.separates, hquoted, hdepth, h.depth] at hsep
  · have hbelow := (hwithin g hg).2 (by rw [Glyph.isClosing, hquoted, hclosing]; rfl)
    omega

theorem exists_field_of_term {p : Piece} {gs : List Glyph} {k : Cursor}
    (h : p.Reads Text.isBlank 0 0 gs k) {name : String} {c : Condition} (hterm : term p = .ok (name, c)) :
    ∃ field : FieldName, name = String.ofList field.chars := by
  have hsplit : p.text.takeWhile (· != '=') ++ p.text.dropWhile (· != '=') = p.text :=
    List.takeWhile_append_dropWhile
  have hname : ∀ c ∈ p.text.takeWhile (· != '='), c ≠ '=' := by
    intro c hc
    have hother := List.mem_takeWhile_imp hc
    exact bne_iff_ne.mp hother
  simp only [term] at hterm
  generalize p.text.takeWhile (· != '=') = field at *
  split at hterm
  · cases hterm
  · rename_i raw hraw
    split at hterm
    · cases hterm
    · rename_i hmarks
      have hplain : ∀ c ∈ field, c ≠ '(' ∧ Scan.isQuote c = false := by
        simpa using hmarks
      have hwhole := h.field_plain hsplit.symm hplain
      have htrim := (h.trim_field hsplit.symm hplain).1
      rw [htrim] at hterm
      split at hterm
      · cases hterm
      · rename_i hne
        refine ⟨⟨field, hne, fun c hc => ?_⟩, ?_⟩
        · exact ⟨(hwhole c hc).1, hname c hc, (hplain c hc).1, (hwhole c hc).2, (hplain c hc).2⟩
        · cases hexpression : expression raw (p.start + Text.byteLength field + 1) with
          | error e =>
            rw [hexpression] at hterm
            cases hterm
          | ok condition =>
            rw [hexpression] at hterm
            cases hterm
            rfl

/-- Each entry of the filters is one of the terms. -/
theorem exists_term_of_parse {query : List Char} {filters : Filters} (h : parse query = .ok filters)
    {name : String} {c : Condition} (hc : (name, c) ∈ filters.entries) :
    ∃ pieces p, terms query = .ok pieces ∧ p ∈ pieces ∧ term p = .ok (name, c) := by
  rw [parse_eq_reference] at h
  obtain ⟨hbalanced, entries, hentries, rfl⟩ := Reference.parse_eq_ok.mp h
  obtain ⟨pieces, hpieces, hterms⟩ := terms_eq hbalanced
  rw [← hterms] at hentries
  rw [TextMap.mem_entries, TextMap.get?_ofList] at hc
  have hmem := List.mem_reverse.mp (mem_of_lookup_eq_some hc)
  obtain ⟨p, hp, hterm⟩ := exists_of_mem_mapM hentries hmem
  exact ⟨pieces, p, hpieces, hp, hterm⟩

/-- What a query is read as has its form, through and through: the name of every attribute is plain, and
at every depth the operations are those of their names, with operands that fit them, and values are
single. -/
theorem parse_wellFormed (query : List Char) (filters : Filters) (h : parse query = .ok filters) :
    ∀ name c, (name, c) ∈ filters.entries →
      (∃ field : FieldName, name = String.ofList field.chars) ∧
        ∀ x : Operand, x.In c.toOperand → x.WellFormed := by
  intro name c hc
  obtain ⟨pieces, p, hpieces, hp, hterm⟩ := exists_term_of_parse h hc
  obtain ⟨gs, k, hreads, -⟩ := (terms_reached (exists_balanced_of_terms hpieces) hpieces).2 p hp
  obtain ⟨t, raw, hspells, rfl, -⟩ := exists_tree_of_parse h hc
  exact ⟨exists_field_of_term hreads hterm, (t.sound_condition raw hspells).within⟩

theorem expression_of_call {raw : List Char} {offset start : Nat} {call : Call}
    {pieces : List Piece} {cs : List Condition} {c : Condition}
    (hstart : offset + Text.byteLength (raw.takeWhile Text.isBlank) = start)
    (hquotation : unquote? (Text.trim raw) = none)
    (hcall : call? (Text.trim raw) start = .ok (some call))
    (hpieces : arguments call.arguments (start + call.start) = .ok pieces)
    (hcs : List.Forall₂ (fun p c => expression p.text (start + call.start + p.start) = .ok c) pieces cs)
    (hc : callFilter call.name cs = c) : expression raw offset = .ok c := by
  rw [expression_eq, hquotation]
  simp only [hstart, hcall, hpieces, mapM_eq_ok.mpr hcs, ← hc]
  rfl

/-- Two calls down, an operation of no registered name stands with a list of two. -/
theorem nested_call_wellFormed :
    let near : Operand := .filter (.other "near") (.list [.value (.text "a"), .value (.int 7)])
    let filters : Filters := TextMap.insert ∅ "x" (.filter ⟨.not, .filter .any (.list [near])⟩)
    parse "x=NOT(ANY(near(a, 7)))".toList = .ok filters ∧ near.WellFormed := by
  intro near filters
  have hword : expression "a".toList 15 = .ok (.value (.text "a")) := by
    rw [expression_eq]
    rfl
  have hnumber : expression " 7".toList 17 = .ok (.value (.int 7)) := by
    rw [expression_eq]
    rfl
  have hnear : expression "near(a, 7)".toList 10 =
      .ok (.filter ⟨.other "near", .list [.value (.text "a"), .value (.int 7)]⟩) :=
    expression_of_call rfl rfl rfl rfl (.cons hword (.cons hnumber .nil)) rfl
  have hany : expression "ANY(near(a, 7))".toList 6 = .ok (.filter ⟨.any, .list [near]⟩) :=
    expression_of_call rfl rfl rfl rfl (.cons hnear .nil) rfl
  have hnot : expression "NOT(ANY(near(a, 7)))".toList 2 =
      .ok (.filter ⟨.not, .filter .any (.list [near])⟩) :=
    expression_of_call rfl rfl rfl rfl (.cons hany .nil) rfl
  have hterms : terms "x=NOT(ANY(near(a, 7)))".toList =
      .ok [⟨0, "x=NOT(ANY(near(a, 7)))".toList⟩] := rfl
  have hterm : term ⟨0, "x=NOT(ANY(near(a, 7)))".toList⟩ =
      .ok ("x", .filter ⟨.not, .filter .any (.list [near])⟩) := congrArg (Except.map ("x", ·)) hnot
  have hparse : parse "x=NOT(ANY(near(a, 7)))".toList = .ok filters := by
    rw [parse, hterms]
    simp only [termsInto, hterm]
    rfl
  have hentry : ("x", .filter ⟨.not, .filter .any (.list [near])⟩) ∈ filters.entries := by
    rw [TextMap.mem_entries, TextMap.get?_insert, if_pos rfl]
  obtain ⟨-, hwithin⟩ := parse_wellFormed _ filters hparse _ _ hentry
  refine ⟨hparse, hwithin near ?_⟩
  exact .operand (.operand (.element (List.mem_singleton_self _) .itself))

end QueryText

end Inventory
