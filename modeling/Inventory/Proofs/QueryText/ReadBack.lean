import Inventory.Proofs.QueryText.Agreement
import Inventory.Proofs.QueryText.WrittenMarks

/-! Written query text is read back as what the filter constructors build. The marks of an
expression are cut where its parts were put together, so the condition read is that of the tree. -/

namespace Inventory.QueryText

theorem operandOf_eq_applied (op : Operation) (operands : List Operand) :
    operandOf op operands = op.applied operands := by
  cases op with
  | any => rfl
  | all => rfl
  | _ =>
    match operands with
    | [] => rfl
    | [_] => rfl
    | _ :: _ :: _ => rfl

theorem unquote?_written (t : Quotable) : unquote? t.written = some t.chars := by
  have hlast : (t.chars ++ [t.quote]).getLast? = some t.quote := by simp
  rw [Quotable.written, unquote?, if_pos ⟨t.quote_eq, hlast⟩, List.dropLast_concat]

theorem unquote?_of_plain {c : Char} (hc : Plain c) (rest : List Char) :
    unquote? (c :: rest) = none := by
  have hquote := hc.quote
  rw [Scan.isQuote, Bool.or_eq_false_iff, beq_eq_false_iff_ne, beq_eq_false_iff_ne] at hquote
  rw [unquote?, if_neg]
  rintro ⟨hq | hq, -⟩
  · exact hquote.1 hq
  · exact hquote.2 hq

namespace Reference

theorem splitAtClosing?_append {d : Nat} {front : List Glyph} {g : Glyph}
    (hfront : ∀ g ∈ front, g.closes d = false) (hg : g.closes d = true) (back : List Glyph) :
    splitAtClosing? d (front ++ g :: back) = some (front, back) := by
  induction front with
  | nil => rw [List.nil_append, splitAtClosing?_cons, hg, if_pos rfl]
  | cons f front ih =>
    obtain ⟨hf, hrest⟩ := List.forall_mem_cons.mp hfront
    rw [List.cons_append, splitAtClosing?_cons, hf, if_neg Bool.false_ne_true, ih hrest]
    rfl

theorem call?_word {k : Cursor} {s : List Char} (hs : ∀ c ∈ s, Plain c) :
    call? (k.glyphs s) = .ok none := by
  have hdrop : s.dropWhile (· != '(') = [] :=
    List.dropWhile_eq_nil_iff.mpr fun c hc => bne_iff_ne.mpr (hs c hc).opening
  rw [call?, Cursor.glyphs_dropWhile k s (· != '('), hdrop]
  rfl

/-- A name with a balanced text in parentheses is a call, whose inside is that text. -/
theorem call?_written {k : Cursor} {n : Nat} (h : k.Ready (n + 1)) (name : Identifier)
    {inside : List Char} (hinside : (k.opened name.chars).Balanced inside) :
    call? (k.glyphs (name.chars ++ '(' :: (inside ++ [')']))) =
      .ok (some ⟨name.chars, (k.opened name.chars).depth,
        (k.opened name.chars).glyphs inside⟩) := by
  obtain ⟨-, hdepth, hdown, -⟩ := h.opened name
  have hname : ∀ c ∈ name.chars, (c != '(') = true :=
    fun c hc => bne_iff_ne.mpr (name.plain c hc).opening
  have htake : (name.chars ++ '(' :: (inside ++ [')'])).takeWhile (· != '(') = name.chars := by
    rw [List.takeWhile_append_of_pos hname]
    simp
  have hdrop : (name.chars ++ '(' :: (inside ++ [')'])).dropWhile (· != '(') =
      '(' :: (inside ++ [')']) := by
    rw [List.dropWhile_append_of_pos hname]
    simp
  have hopen : ((k.after name.chars).glyph '(').depth + 1 = (k.opened name.chars).depth := by
    change (k.after name.chars).depth + 1 = (k.opened name.chars).depth
    omega
  have hno : ∀ g ∈ (k.opened name.chars).glyphs inside,
      g.closes (k.opened name.chars).depth = false := by
    intro g hg
    rw [Glyph.closes, Bool.and_eq_false_iff, beq_eq_false_iff_ne]
    by_cases hclosing : g.isClosing = true
    · have hlt := (hinside.within g hg).2 hclosing
      exact .inr (by omega)
    · exact .inl (Bool.not_eq_true _ ▸ hclosing)
  have hclose : (((k.opened name.chars).after inside).glyph ')').closes
      (k.opened name.chars).depth = true := by
    have hquoted : ((k.opened name.chars).after inside).quoted ')' = false :=
      Cursor.quoted_eq_false hinside.quote rfl
    simp [Glyph.closes, Glyph.isClosing, Cursor.glyph, hquoted, hinside.depth]
  have hsplit := splitAtClosing?_append hno hclose []
  have hopened : (k.after name.chars).next '(' = k.opened name.chars := rfl
  rw [call?, Cursor.glyphs_takeWhile k _ (· != '('), Cursor.glyphs_dropWhile k _ (· != '('), htake,
    hdrop, Cursor.glyphs_chars]
  simp only [Cursor.glyphs, name.isIdentifier_chars, if_true, hopen, hopened, Cursor.glyphs_append,
    hsplit]

theorem condition_word {k : Cursor} {gs : List Glyph} {s : List Char} (hne : s ≠ [])
    (hs : ∀ c ∈ s, Plain c) (hgs : trim gs = k.glyphs s) :
    condition gs = .ok (.value (literal s)) := by
  obtain ⟨c, rest, rfl⟩ := List.exists_cons_of_ne_nil hne
  have hquote := unquote?_of_plain (hs c List.mem_cons_self) rest
  rw [condition_eq, hgs, quotation?_eq, Cursor.glyphs_chars, hquote]
  simp only [call?_word hs]

end Reference

theorem isBlank_of_trim_eq_nil {s : List Char} (h : Text.trim s = []) :
    ∀ c ∈ s, Text.isBlank c = true := by
  obtain ⟨trail, hs, htrail⟩ := trim_spec s
  rw [h, List.nil_append] at hs
  rw [hs, List.forall_mem_append]
  exact ⟨fun c hc => List.mem_takeWhile_imp hc, htrail⟩

theorem Cursor.arguments_of_tight {k : Cursor} {s : List Char} (hs : Tight s)
    (before after : Padding) (rest name : List Char) :
    Reference.Call.arguments ⟨name, k.depth, k.glyphs (padded before s after ++ rest)⟩ =
      (k.glyphs (padded before s after ++ rest)).splitOnP (Glyph.separates (· == ',') k.depth) := by
  obtain ⟨c, front, hfirst, hc⟩ := hs.first
  have hne : Text.trim (padded before s after ++ rest) ≠ [] := by
    intro hnil
    have hblank := isBlank_of_trim_eq_nil hnil c (by simp [padded, hfirst])
    rw [hc] at hblank
    cases hblank
  rw [Reference.Call.arguments, Cursor.trim_glyphs, if_neg]
  rw [List.isEmpty_iff, Cursor.glyphs_eq_nil]
  exact hne

theorem Cursor.whole_padded {k : Cursor} {s : List Char} (before after : Padding)
    (hbalanced : (k.after before.chars).Balanced s)
    (hs : (k.after before.chars).Whole (· == ',') s) :
    k.Whole (· == ',') (padded before s after) := by
  have hcomma : ∀ p : Padding, ∀ c ∈ p.chars, (c == ',') = false := by
    intro p c hc
    rw [beq_eq_false_iff_ne]
    rintro rfl
    cases p.blank _ hc
  have hlead : (k.after before.chars).depth = k.depth := depth_after_blanks before.blank
  exact (whole_of_unwanted (hcomma before)).append hlead
    (hs.append hbalanced.depth (whole_of_unwanted (hcomma after)))

/-- Blanks at the end of the last argument belong to those after it. -/
def Padding.append (p q : Padding) : Padding where
  chars := p.chars ++ q.chars
  blank := List.forall_mem_append.mpr ⟨p.blank, q.blank⟩

theorem padded_append (before after blanks : Padding) (s : List Char) :
    padded before s after ++ blanks.chars = padded before s (after.append blanks) := by
  simp [padded, Padding.append]

mutual

theorem Expr.condition_eq (e : Expr) {k : Cursor} (h : k.Ready e.nesting) {gs : List Glyph}
    (hgs : Reference.trim gs = k.glyphs e.written) : Reference.condition gs = .ok e.condition := by
  cases e with
  | text t =>
    rw [Reference.condition_eq, hgs, quotation?_eq, Cursor.glyphs_chars, Expr.written,
      unquote?_written]
    rfl
  | int n =>
    rw [Reference.condition_word (toString_ne_nil n.toInt) (plain_toString n.toInt) hgs,
      literal_toString]
    rfl
  | bool b =>
    cases b with
    | true => exact Reference.condition_word (List.cons_ne_nil _ _) plain_true hgs
    | false => exact Reference.condition_word (List.cons_ne_nil _ _) plain_false hgs
  | call name arguments =>
    have hready := (h.opened name).2.2.2
    have hmapM := arguments.mapM_condition hready name.chars
    have hquote : unquote? (Expr.call name arguments).written = none :=
      unquote?_of_plain (name.plain name.first List.mem_cons_self) _
    rw [Reference.condition_eq, hgs, quotation?_eq, Cursor.glyphs_chars, hquote, Expr.written,
      Reference.call?_written h name (arguments.balanced hready)]
    simp only [hmapM, Except.map, callFilter, operandOf_eq_applied, Expr.condition]

theorem Arguments.mapM_condition (a : Arguments) {k : Cursor} (h : k.Ready a.nesting)
    (name : List Char) :
    (Reference.Call.arguments ⟨name, k.depth, k.glyphs a.written⟩).mapM Reference.condition =
      .ok a.conditions := by
  cases a with
  | nil blanks =>
    have htrim : Text.trim blanks.chars = [] := by
      rw [Text.trim, Text.trimStart, List.dropWhile_eq_nil_iff.mpr blanks.blank]
      rfl
    rw [Arguments.written, Reference.Call.arguments, Cursor.trim_glyphs, htrim]
    rfl
  | cons before e after rest =>
    have hbefore := (h.after_blank before.blank).mono (Nat.le_max_left _ _)
    have he := e.balanced hbefore
    have hread : ∀ after, Reference.condition (k.glyphs (padded before e.written after)) =
        .ok e.condition :=
      fun after => e.condition_eq hbefore (k.trim_padded_glyphs before after e.tight)
    have hwhole : ∀ after, k.Whole (· == ',') (padded before e.written after) :=
      fun after => Cursor.whole_padded before after he (e.whole separator_comma hbefore)
    have ih := @Arguments.mapM_condition rest
    rw [Arguments.written, Cursor.arguments_of_tight e.tight]
    cases rest with
    | nil blanks =>
      rw [Arguments.separator, List.nil_append, Arguments.written, padded_append,
        List.splitOnP_eq_singleton (hwhole _), List.mapM_cons, hread]
      rfl
    | cons before' e' after' rest' =>
      have hfront := h.padded he after
      have hroom : (k.after (padded before e.written after)).depth +
          (Arguments.cons before' e' after' rest').nesting ≤ maxNesting := by
        rw [hfront.depth]
        exact (h.mono (Nat.le_max_right _ _)).room
      obtain ⟨hdepth, hready⟩ := Cursor.ready_comma hfront.quote hroom
      have hrest := ih hready name
      rw [Arguments.written, Cursor.arguments_of_tight e'.tight, ← Arguments.written, hdepth,
        hfront.depth] at hrest
      rw [Arguments.separator, List.singleton_append, (hwhole after).splitOnP hfront flat_comma rfl,
        List.mapM_cons, hread, hrest]
      rfl

end

end Inventory.QueryText
