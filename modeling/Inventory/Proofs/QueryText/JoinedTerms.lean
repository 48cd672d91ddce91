import Inventory.Proofs.QueryText.ReadBack

/-! Terms joined by gaps are read back in order. Every term is balanced and holds no blank outside
its quotes and calls, so the text is cut at the gaps alone. -/

namespace Inventory.QueryText

theorem FieldName.flat (field : FieldName) : ∀ c ∈ field.chars, Flat c :=
  fun c hc => (field.plain c hc).2.2

/-- A term with such an attribute is read as the condition of what follows the `=`. -/
theorem FieldName.term_eq (field : FieldName) (k : Cursor) (raw : List Char) :
    Reference.term (k.glyphs (field.chars ++ '=' :: raw)) =
      (Reference.condition (((k.after field.chars).next '=').glyphs raw)).map
        (String.ofList field.chars, ·) := by
  have hfield : ∀ c ∈ field.chars, (c != '=') = true :=
    fun c hc => bne_iff_ne.mpr (field.plain c hc).2.1
  have htake : (field.chars ++ '=' :: raw).takeWhile (· != '=') = field.chars := by
    rw [List.takeWhile_append_of_pos hfield]
    simp
  have hdrop : (field.chars ++ '=' :: raw).dropWhile (· != '=') = '=' :: raw := by
    rw [List.dropWhile_append_of_pos hfield]
    simp
  have hno : (field.chars.any fun c => c == '(' || Scan.isQuote c) = false := by
    rw [List.any_eq_false]
    intro c hc
    obtain ⟨hopen, -, hquote⟩ := field.flat c hc
    simp [hopen, hquote]
  rw [Reference.term, Cursor.glyphs_takeWhile k _ (· != '='),
    Cursor.glyphs_dropWhile k _ (· != '='), htake, hdrop]
  simp only [Cursor.glyphs_chars, Cursor.glyphs, hno, Bool.false_eq_true, if_false, field.nonempty]

theorem Cursor.Ready.depth_eq_zero {k : Cursor} (h : k.Ready maxNesting) : k.depth = 0 := by
  have hroom := h.room
  omega

namespace Term

theorem field_balanced (t : Term) {k : Cursor} (hk : k.quote = none) :
    k.Balanced (t.field.chars ++ ['=']) := by
  have hfield := Cursor.balanced_of_flat hk t.field.flat
  exact hfield.append
    (Cursor.balanced_of_flat hfield.quote (List.forall_mem_singleton.mpr flat_equals))

theorem ready_expr (t : Term) {k : Cursor} (h : k.Ready maxNesting) :
    (k.after (t.field.chars ++ ['='])).Ready t.expr.nesting := by
  have hfield := t.field_balanced h.outside
  refine ⟨hfield.quote, ?_, ?_⟩
  · rw [Cursor.after_append]
    rfl
  · rw [hfield.depth, h.depth_eq_zero, Nat.zero_add]
    exact t.shallow

theorem balanced (t : Term) {k : Cursor} (h : k.Ready maxNesting) : k.Balanced t.written := by
  rw [written, List.append_cons]
  exact (t.field_balanced h.outside).append (t.expr.balanced (t.ready_expr h))

theorem whole (t : Term) {k : Cursor} (h : k.Ready maxNesting) :
    k.Whole Text.isBlank t.written := by
  have hplain : ∀ c ∈ t.field.chars ++ ['='], Text.isBlank c = false :=
    List.forall_mem_append.mpr ⟨fun c hc => (t.field.plain c hc).1, List.forall_mem_singleton.mpr rfl⟩
  rw [written, List.append_cons]
  exact (Cursor.whole_of_unwanted hplain).append (t.field_balanced h.outside).depth
    (t.expr.whole separator_blank (t.ready_expr h))

theorem written_ne_nil (t : Term) : t.written ≠ [] := by
  simp [written]

theorem read (t : Term) {k : Cursor} (h : k.Ready maxNesting) :
    Reference.term (k.glyphs t.written) =
      .ok (String.ofList t.field.chars, t.expr.condition) := by
  have hread := t.expr.condition_eq (t.ready_expr h) (Cursor.trim_tight_glyphs _ t.expr.tight)
  rw [Cursor.after_append] at hread
  have hequals : (k.after t.field.chars).next '=' = (k.after t.field.chars).after ['='] := rfl
  rw [written, t.field.term_eq, hequals, hread]
  rfl

end Term

namespace Reference

theorem terms_whole {k : Cursor} (hk : k.depth = 0) {s : List Char} (hne : s ≠ [])
    (hs : k.Whole Text.isBlank s) : terms (k.glyphs s) = [k.glyphs s] := by
  rw [Cursor.Whole, hk] at hs
  rw [terms, List.splitOnP_eq_singleton hs]
  simp [Cursor.glyphs_eq_nil, hne]

/-- A blank outside quotes and parentheses ends the terms before it. -/
theorem terms_append_blank {k : Cursor} (hk : k.depth = 0) {front : List Char}
    (h : k.Balanced front) {c : Char} (hc : Text.isBlank c = true) (rest : List Char) :
    terms (k.glyphs (front ++ c :: rest)) =
      terms (k.glyphs front) ++ terms (((k.after front).next c).glyphs rest) := by
  have hquoted : (k.after front).quoted c = false :=
    Cursor.quoted_eq_false h.quote (flat_of_isBlank hc).2.2
  have hsep : ((k.after front).glyph c).separates Text.isBlank 0 = true := by
    simp [Glyph.separates, Cursor.glyph, hquoted, h.depth, hk, hc]
  rw [Cursor.glyphs_append, Cursor.glyphs, terms, List.splitOnP_append_cons _ _ hsep,
    List.filter_append]
  rfl

theorem terms_blank {k : Cursor} (hk : k.depth = 0) (hquote : k.quote = none)
    {blanks : List Char} (hblanks : ∀ c ∈ blanks, Text.isBlank c = true) (s : List Char) :
    terms (k.glyphs (blanks ++ s)) = terms ((k.after blanks).glyphs s) := by
  induction blanks generalizing k with
  | nil => rfl
  | cons c rest ih =>
    obtain ⟨hc, hrest⟩ := List.forall_mem_cons.mp hblanks
    have hdrop : terms (k.glyphs (c :: (rest ++ s))) = terms ((k.next c).glyphs (rest ++ s)) :=
      terms_append_blank hk (Cursor.Balanced.nil hquote) hc (rest ++ s)
    have hnext : (k.next c).quote = none :=
      Cursor.next_quote_of_unquoted (Cursor.quoted_eq_false hquote (flat_of_isBlank hc).2.2)
    rw [List.cons_append, hdrop, ih ((Cursor.next_blank hc).trans hk) hnext hrest,
      Cursor.after_cons]

/-- The first blank of a gap ends the terms before it, and the others belong to no term. -/
theorem terms_append_gap {k : Cursor} (hk : k.depth = 0) {front : List Char}
    (h : k.Balanced front) (gap : Gap) (rest : List Char) :
    terms (k.glyphs (front ++ (gap.chars ++ rest))) =
      terms (k.glyphs front) ++ terms (((k.after front).after gap.chars).glyphs rest) := by
  obtain ⟨c, blanks, hgap⟩ := List.exists_cons_of_ne_nil gap.nonempty
  have hblank := gap.blank
  rw [hgap] at hblank
  obtain ⟨hc, hblanks⟩ := List.forall_mem_cons.mp hblank
  have hdepth : ((k.after front).next c).depth = 0 :=
    (Cursor.next_blank hc).trans (h.depth.trans hk)
  have hnext : ((k.after front).next c).quote = none :=
    Cursor.next_quote_of_unquoted (Cursor.quoted_eq_false h.quote (flat_of_isBlank hc).2.2)
  rw [hgap, List.cons_append, terms_append_blank hk h hc, terms_blank hdepth hnext hblanks,
    Cursor.after_cons]

end Reference

theorem Cursor.ready_gap {k : Cursor} (hk : k.depth = 0) (hquote : k.quote = none) (gap : Gap) :
    (k.after gap.chars).Ready maxNesting := by
  obtain ⟨c, rest, hgap⟩ := List.exists_cons_of_ne_nil gap.nonempty
  have hblank := gap.blank
  rw [hgap] at hblank
  obtain ⟨hc, hrest⟩ := List.forall_mem_cons.mp hblank
  have hready : (k.next c).Ready maxNesting := by
    refine ⟨next_quote_of_unquoted (quoted_eq_false hquote (flat_of_isBlank hc).2.2), ?_, ?_⟩
    · simp [mayQuote, next, hc]
    · rw [next_blank hc, hk, Nat.zero_add]
  rw [hgap, after_cons]
  exact hready.after_blank hrest

theorem joined_balanced (gap : Nat → Gap) (terms : List Term) {k : Cursor}
    (h : k.Ready maxNesting) : k.Balanced (joined gap terms) := by
  induction gap, terms using joined.induct generalizing k with
  | case1 gap => exact Cursor.Balanced.nil h.outside
  | case2 gap t => exact t.balanced h
  | case3 gap t rest hrest ih =>
    have ht := t.balanced h
    have hdepth := ht.depth.trans h.depth_eq_zero
    rw [joined_cons gap t hrest]
    refine ht.append ((Cursor.balanced_of_blank ht.quote (gap 0).blank).append ?_)
    exact ih (Cursor.ready_gap hdepth ht.quote (gap 0))

theorem mapM_term_joined (gap : Nat → Gap) (terms : List Term) {k : Cursor}
    (h : k.Ready maxNesting) :
    (Reference.terms (k.glyphs (joined gap terms))).mapM Reference.term =
      .ok (terms.map fun t => (String.ofList t.field.chars, t.expr.condition)) := by
  have hzero := h.depth_eq_zero
  induction gap, terms using joined.induct generalizing k with
  | case1 gap => rfl
  | case2 gap t =>
    rw [joined, Reference.terms_whole hzero t.written_ne_nil (t.whole h), List.mapM_cons, t.read h]
    rfl
  | case3 gap t rest hrest ih =>
    have ht := t.balanced h
    have hdepth := ht.depth.trans hzero
    have hready := Cursor.ready_gap hdepth ht.quote (gap 0)
    have hterms : Reference.terms (k.glyphs (joined gap (t :: rest))) =
        k.glyphs t.written ::
          Reference.terms (((k.after t.written).after (gap 0).chars).glyphs
            (joined (fun n => gap (n + 1)) rest)) := by
      rw [joined_cons gap t hrest, Reference.terms_append_gap hzero ht,
        Reference.terms_whole hzero t.written_ne_nil (t.whole h), List.singleton_append]
    rw [hterms, List.mapM_cons, t.read h, ih hready hready.depth_eq_zero]
    rfl

/-- A single term with a plain word is read as the value of the word. -/
theorem parse_word (field : FieldName) (word : List Char) (hne : word ≠ [])
    (hword : ∀ c ∈ word, Plain c) : parse (field.chars ++ '=' :: word) =
      .ok (TextMap.ofList [(String.ofList field.chars, .value (literal word))]) := by
  have hflat : ∀ c ∈ field.chars ++ '=' :: word, Flat c :=
    List.forall_mem_append.mpr ⟨field.flat,
      List.forall_mem_cons.mpr ⟨flat_equals, fun c hc => (hword c hc).flat⟩⟩
  have hblank : ∀ c ∈ field.chars ++ '=' :: word, Text.isBlank c = false :=
    List.forall_mem_append.mpr ⟨fun c hc => (field.plain c hc).1,
      List.forall_mem_cons.mpr ⟨rfl, fun c hc => (hword c hc).blank⟩⟩
  have hscan := scan_eq_ok.mpr ⟨rfl, Cursor.balanced_of_flat rfl hflat⟩
  have hterms : Reference.terms (Cursor.start.glyphs (field.chars ++ '=' :: word)) =
      [Cursor.start.glyphs (field.chars ++ '=' :: word)] :=
    Reference.terms_whole rfl (by simp) (Cursor.whole_of_unwanted hblank)
  have hread := Reference.condition_word hne hword
    (Cursor.trim_tight_glyphs ((Cursor.start.after field.chars).next '=') (tight_of_plain hne hword))
  rw [parse_eq_reference, Reference.parse, hscan]
  simp only [hterms, List.mapM_cons, List.mapM_nil, field.term_eq, hread]
  rfl

/-- Terms with any expressions, written one after another with blanks between them, are read as the
filters built by inserting their conditions in order. -/
theorem parse_joined (gap : Nat → Gap) (terms : List Term) :
    parse (joined gap terms) =
      .ok (terms.foldl
        (fun filters t => filters.insert (String.ofList t.field.chars) t.expr.condition) ∅) := by
  have hready : Cursor.start.Ready maxNesting := ⟨rfl, rfl, Nat.le_refl _⟩
  have hscan := scan_eq_ok.mpr ⟨rfl, joined_balanced gap terms hready⟩
  rw [parse_eq_reference, Reference.parse, hscan]
  simp only [mapM_term_joined gap terms hready, Except.map, TextMap.ofList, List.foldl_map]

end Inventory.QueryText
