import Inventory.Proofs.QueryText.Expressions
import Inventory.Proofs.QueryText.OuterScan

/-! Reading query text level by level, each call on its own text, gives what one marking of the
whole text gives. -/

namespace Inventory.QueryText

theorem dropWhile_isBlank_eq_self {s : List Char} (h : ∀ c ∈ s, Text.isBlank c = false) :
    s.dropWhile Text.isBlank = s := by
  cases s with
  | nil => rfl
  | cons c rest => rw [List.dropWhile_cons, h c List.mem_cons_self, if_neg Bool.false_ne_true]

theorem trim_eq_self {s : List Char} (h : ∀ c ∈ s, Text.isBlank c = false) : Text.trim s = s := by
  have hreverse : ∀ c ∈ s.reverse, Text.isBlank c = false :=
    fun c hc => h c (List.mem_reverse.mp hc)
  rw [Text.trim, Text.trimStart, Text.trimEnd, dropWhile_isBlank_eq_self h,
    dropWhile_isBlank_eq_self hreverse, List.reverse_reverse]

/-- The attribute of a term holds no blank: one outside quotes and parentheses would end the term
before it. -/
theorem Piece.Reads.trim_field {p : Piece} {gs : List Glyph} {k : Cursor}
    (h : p.Reads Text.isBlank 0 0 gs k) {field rest : List Char} (hp : p.text = field ++ rest)
    (hfield : ∀ c ∈ field, c ≠ '(' ∧ Scan.isQuote c = false) :
    Text.trim field = field ∧ (k.after field).quote = none ∧ (k.after field).depth = 0 ∧
      (k.after field).Returns 0 rest := by
  have hbalanced := h.balanced.toReturns
  rw [h.depth, hp] at hbalanced
  obtain ⟨hwithin, hrest⟩ := Cursor.Returns.append.mp hbalanced
  obtain ⟨hquote, hdepth, hlevel⟩ :=
    Cursor.level h.balanced.outside (h.depth.symm ▸ hwithin) hfield
  rw [h.depth] at hdepth hlevel
  refine ⟨trim_eq_self ?_, hquote, hdepth, hrest⟩
  have hwhole := h.whole
  rw [h.glyphs, hp, Cursor.glyphs_append, List.forall_mem_append] at hwhole
  intro c hc
  rw [← Cursor.glyphs_chars k field] at hc
  obtain ⟨g, hg, rfl⟩ := List.mem_map.mp hc
  obtain ⟨hquoted, hzero⟩ := hlevel g hg
  have hsep := hwhole.1 g hg
  rw [Glyph.separates, hquoted, hzero] at hsep
  exact hsep

/-- The expression of a term is balanced where it stands. -/
theorem Piece.Reads.assigned {p : Piece} {gs : List Glyph} {k : Cursor}
    (h : p.Reads Text.isBlank 0 0 gs k) {field raw : List Char} (hp : p.text = field ++ '=' :: raw)
    (hfield : ∀ c ∈ field, c ≠ '(' ∧ Scan.isQuote c = false) :
    ((k.after field).next '=').Balanced raw ∧
      ((k.after field).next '=').position = p.start + Text.byteLength field + 1 := by
  obtain ⟨-, hquote, hdepth, hreturns⟩ := h.trim_field hp hfield
  have hnext : ((k.after field).next '=').depth = 0 :=
    (Cursor.next_depth (by decide) (by decide)).trans hdepth
  refine ⟨⟨hnext.symm ▸ (Cursor.Returns.cons.mp hreturns).2, ?_⟩, ?_⟩
  · exact Cursor.next_quote_of_unquoted (Cursor.quoted_eq_false hquote rfl)
  · rw [Cursor.next, Cursor.position_after, h.position, Nat.zero_add]
    rfl

theorem term_eq {p : Piece} {gs : List Glyph} {k : Cursor} (h : p.Reads Text.isBlank 0 0 gs k)
    (hne : p.text ≠ []) : term p = Reference.term gs := by
  have hsplit : p.text.takeWhile (· != '=') ++ p.text.dropWhile (· != '=') = p.text :=
    List.takeWhile_append_dropWhile
  have htake := Cursor.glyphs_takeWhile k p.text (· != '=')
  have hdrop := Cursor.glyphs_dropWhile k p.text (· != '=')
  have hhead := List.head?_dropWhile_not (· != '=') p.text
  have hstart : ((k.glyphs p.text).head?.map Glyph.position).getD 0 = p.start := by
    have hposition := h.position
    rw [Nat.zero_add] at hposition
    cases htext : p.text with
    | nil => exact absurd htext hne
    | cons c rest => exact hposition
  simp only [term, Reference.term, h.glyphs, htake, hdrop, Cursor.glyphs_chars, hstart]
  generalize p.text.takeWhile (· != '=') = field at *
  cases hrest : p.text.dropWhile (· != '=') with
  | nil => rfl
  | cons c raw =>
    rw [hrest] at hsplit hhead
    have hc : c = '=' := by simpa using hhead
    subst hc
    simp only [Cursor.glyphs]
    cases hfield : field.any fun c => c == '(' || Scan.isQuote c with
    | true => rfl
    | false =>
      have hplain : ∀ c ∈ field, c ≠ '(' ∧ Scan.isQuote c = false := by
        simpa using hfield
      have htrim := (h.trim_field hsplit.symm hplain).1
      obtain ⟨hbalanced, hposition⟩ := h.assigned hsplit.symm hplain
      rw [htrim, ← hposition, expression_eq_condition hbalanced]

/-- The terms of a query whose scan is accepted, beside the marks cut at its outer blanks. -/
theorem terms_eq {query : List Char} (h : Cursor.start.Balanced query) :
    ∃ pieces, terms query = .ok pieces ∧
      pieces.mapM term = (Reference.terms (Cursor.start.glyphs query)).mapM Reference.term := by
  have hcut := h.cut_splitOnP Text.isBlank rfl rfl
  have hmarks := h.markOuter rfl 0
  refine ⟨_, by rw [terms, hmarks]; rfl, ?_⟩
  refine mapM_congr_forall₂ (List.rel_filter ?_ hcut) ?_
  · rintro p gs ⟨k, hreads, -⟩
    rw [hreads.glyphs]
    simp [Cursor.glyphs_eq_nil]
  · rintro p hp gs ⟨k, hreads, -⟩
    have hne : p.text ≠ [] := by simpa using (List.mem_filter.mp hp).2
    exact term_eq hreads hne

theorem termsInto_eq (pieces : List Piece) (filters : Filters) :
    termsInto pieces filters =
      (pieces.mapM term).map (List.foldl (fun m e => m.insert e.1 e.2) filters) := by
  induction pieces generalizing filters with
  | nil => rfl
  | cons p rest ih =>
    rw [termsInto, List.mapM_cons]
    cases term p with
    | error e => rfl
    | ok e =>
      obtain ⟨field, condition⟩ := e
      simp only [ih]
      cases rest.mapM term with
      | error e => rfl
      | ok es => rfl

theorem parse_eq_reference (query : List Char) : parse query = Reference.parse query := by
  rw [parse, Reference.parse]
  cases hscan : Reference.scan query with
  | error e =>
    rw [terms, markOuter_query, hscan]
    rfl
  | ok gs =>
    obtain ⟨rfl, hbalanced⟩ := scan_eq_ok.mp hscan
    obtain ⟨pieces, hpieces, hterms⟩ := terms_eq hbalanced
    rw [hpieces]
    simp only [termsInto_eq, hterms]
    rfl

/-- Every query is read alike, down to the text, position and reason of a rejection: by scans that
begin again at each call and each list of arguments, and from a single marking of the query. The
marking is accepted if and only if no parenthesis outside quotes closes one that is not open or
opens more than 128, and the query ends outside quotes with none left open. -/
theorem parse_agrees_with_marking (query : List Char) :
    parse query = Reference.parse query ∧
      ((∃ gs, Reference.scan query = .ok gs) ↔
        (∀ g ∈ Cursor.start.glyphs query,
          (g.isClosing = true → 0 < g.depth) ∧ (g.isOpening = true → g.depth < maxNesting)) ∧
        (Cursor.start.after query).depth = 0 ∧ (Cursor.start.after query).quote = none) :=
  ⟨parse_eq_reference query, exists_scan_eq_ok⟩

end Inventory.QueryText
