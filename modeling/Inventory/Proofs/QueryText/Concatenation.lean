import Inventory.Proofs.QueryText.Agreement
import Inventory.Proofs.QueryText.FaultPositions
import Inventory.Proofs.QueryText.JoinedTerms
import Inventory.Proofs.QueryText.MovedMarks
import Inventory.Proofs.TextMap

/-! A query after another one, with a blank between. An accepted query leaves no quote and no
parenthesis open, and a quote may open after a blank, so what follows is marked as if it stood alone
and only its positions differ. -/

namespace Inventory.QueryText

/-- Marks the same characters alike, `n` bytes further on. -/
structure Cursor.Ahead (n : Nat) (k k' : Cursor) : Prop where
  position : k.position = n + k'.position
  depth : k.depth = k'.depth
  quote : k.quote = k'.quote
  mayQuote : k.mayQuote = k'.mayQuote

namespace Cursor.Ahead

variable {n : Nat} {k k' : Cursor}

theorem quoted (h : k.Ahead n k') (c : Char) : k.quoted c = k'.quoted c := by
  rw [Cursor.quoted, Cursor.quoted, h.quote, h.mayQuote]

theorem glyph (h : k.Ahead n k') (c : Char) : k.glyph c = (k'.glyph c).shift n := by
  simp [Cursor.glyph, Glyph.shift, h.position, h.depth, h.quoted c]

theorem next (h : k.Ahead n k') (c : Char) : (k.next c).Ahead n (k'.next c) := by
  refine ⟨?_, ?_, ?_, rfl⟩
  · simp only [Cursor.next, h.position]
    omega
  · simp only [Cursor.next, h.depth, h.quoted c]
  · simp only [Cursor.next, h.quote, h.quoted c]

theorem glyphs (h : k.Ahead n k') (s : List Char) : k.glyphs s = moved n (k'.glyphs s) := by
  induction s generalizing k k' with
  | nil => rfl
  | cons c rest ih =>
    rw [Cursor.glyphs, Cursor.glyphs, h.glyph c, ih (h.next c)]
    rfl

theorem after (h : k.Ahead n k') (s : List Char) : (k.after s).Ahead n (k'.after s) := by
  induction s generalizing k k' with
  | nil => exact h
  | cons c rest ih => exact ih (h.next c)

end Cursor.Ahead

/-- After an accepted query and a gap marking begins anew. -/
theorem Cursor.Balanced.append_gap {front gap : List Char} (h : start.Balanced front)
    (hgap : gap ≠ []) (hblank : ∀ c ∈ gap, Text.isBlank c = true) :
    start.Balanced (front ++ gap) ∧
      (start.after (front ++ gap)).Ahead (Text.byteLength (front ++ gap)) start := by
  have hwhole := h.append (balanced_of_blank h.quote hblank)
  have hready := ready_gap h.depth h.quote ⟨⟨gap, hblank⟩, hgap⟩
  refine ⟨hwhole, start_position_after _, hwhole.depth, hwhole.quote, ?_⟩
  rw [after_append]
  exact hready.mayQuote

namespace Reference

theorem findSome?_fault_moved (n : Nat) (gs : List Glyph) :
    (moved n gs).findSome? (fun g => (fault? g).map (g.position, ·)) =
      (gs.findSome? fun g => (fault? g).map (g.position, ·)).map fun e => (n + e.1, e.2) := by
  induction gs with
  | nil => rfl
  | cons g rest ih =>
    have hcons : moved n (g :: rest) = g.shift n :: moved n rest := rfl
    have hfault : fault? (g.shift n) = fault? g := rfl
    rw [hcons, List.findSome?_cons, List.findSome?_cons, hfault, ih]
    cases fault? g <;> rfl

theorem lastOpening?_append_moved {n depth position : Nat} {gs : List Glyph}
    (h : lastOpening? depth gs = some position) (front : List Glyph) :
    lastOpening? depth (front ++ moved n gs) = some (n + position) := by
  obtain ⟨g, hg, rfl⟩ := Option.map_eq_some_iff.mp h
  have hopening : (fun g : Glyph => g.isOpening && g.depth == depth) ∘ Glyph.shift n =
      fun g => g.isOpening && g.depth == depth := rfl
  rw [lastOpening?, List.reverse_append, List.find?_append, moved, ← List.map_reverse,
    List.find?_map, hopening, hg]
  rfl

/-- The marks of both texts, or the fault of the second one. -/
theorem scan_append {front : List Char} (h : Cursor.start.Balanced front)
    (hahead : (Cursor.start.after front).Ahead (Text.byteLength front) Cursor.start)
    (back : List Char) :
    scan (front ++ back) =
      match scan back with
      | .ok gs => .ok (Cursor.start.glyphs front ++ moved (Text.byteLength front) gs)
      | .error e => .error ⟨front ++ back, Text.byteLength front + e.position, e.reason⟩ := by
  have hlast := hahead.after back
  have hnone := findSome?_fault_eq_none.mpr h.within
  simp only [scan, Cursor.glyphs_append, Cursor.after_append, hahead.glyphs back, hlast.quote,
    hlast.depth, hlast.position, List.findSome?_append, hnone, Option.none_or,
    findSome?_fault_moved]
  cases (Cursor.start.glyphs back).findSome? fun g => (fault? g).map (g.position, ·) with
  | some fault => rfl
  | none =>
    by_cases hquote : (Cursor.start.after back).quote.isSome = true
    · simp [hquote]
    · by_cases hdepth : (Cursor.start.after back).depth = 0
      · simp [hquote, hdepth]
      · -- The innermost parenthesis left open is one of the second text.
        obtain ⟨before, g, after, -, -, -, hopening⟩ :=
          exists_stillOpen (k := Cursor.start) (Nat.zero_le _) back (Nat.sub_one_lt hdepth)
        have happend := lastOpening?_append_moved (n := Text.byteLength front) hopening
          (Cursor.start.glyphs front)
        simp [hquote, hdepth, hopening, happend]

theorem scan_token {query : List Char} {e : SyntaxError} (h : scan query = .error e) :
    e.token = query := by
  cases delimiterFault_of_scan h <;> rfl

/-- The terms of both queries, those of the second one further on. -/
theorem terms_append_moved {front gap : List Char} (h : Cursor.start.Balanced front)
    (hgap : gap ≠ []) (hblank : ∀ c ∈ gap, Text.isBlank c = true) (back : List Char) :
    terms (Cursor.start.glyphs (front ++ gap) ++
        moved (Text.byteLength (front ++ gap)) (Cursor.start.glyphs back)) =
      terms (Cursor.start.glyphs front) ++
        (terms (Cursor.start.glyphs back)).map (moved (Text.byteLength (front ++ gap))) := by
  have hahead := (h.append_gap hgap hblank).2
  have hterms := terms_append_gap rfl h ⟨⟨gap, hblank⟩, hgap⟩ back
  rw [← Cursor.after_append, hahead.glyphs back, terms_moved] at hterms
  rw [← hterms, ← hahead.glyphs back, ← Cursor.glyphs_append, List.append_assoc]

theorem mapM_term_moved (n : Nat) (gs : List Glyph) :
    ((terms gs).map (moved n)).mapM term =
      ((terms gs).mapM term).mapError (SyntaxError.shift n) := by
  rw [List.mapM_map]
  apply mapM_mapError
  intro part hpart
  have hne : part ≠ [] := by simpa using (List.mem_filter.mp hpart).2
  exact term_moved n hne

theorem parse_eq_ok {query : List Char} {filters : Filters} :
    Reference.parse query = .ok filters ↔
      Cursor.start.Balanced query ∧ ∃ entries,
        (terms (Cursor.start.glyphs query)).mapM term = .ok entries ∧
          TextMap.ofList entries = filters := by
  constructor
  · intro h
    rw [Reference.parse] at h
    cases hscan : scan query with
    | error e =>
      rw [hscan] at h
      cases h
    | ok gs =>
      obtain ⟨rfl, hbalanced⟩ := scan_eq_ok.mp hscan
      rw [hscan] at h
      simp only at h
      cases hterms : (terms (Cursor.start.glyphs query)).mapM term with
      | error e =>
        rw [hterms] at h
        cases h
      | ok entries =>
        rw [hterms] at h
        exact ⟨hbalanced, entries, rfl, Except.ok.inj h⟩
  · rintro ⟨hbalanced, entries, hterms, rfl⟩
    rw [Reference.parse, scan_eq_ok.mpr ⟨rfl, hbalanced⟩]
    simp only [hterms]
    rfl

/-- What is read of the second query is read as before, after the terms of the first one. -/
theorem parse_append_gap {front gap back : List Char} (h : Cursor.start.Balanced front)
    (hgap : gap ≠ []) (hblank : ∀ c ∈ gap, Text.isBlank c = true)
    {entries : List (String × Condition)}
    (hterms : (terms (Cursor.start.glyphs front)).mapM term = .ok entries)
    (hback : Cursor.start.Balanced back) :
    Reference.parse (front ++ gap ++ back) =
      (((terms (Cursor.start.glyphs back)).mapM term).mapError
        (SyntaxError.shift (Text.byteLength (front ++ gap)))).map
          fun more => TextMap.ofList (entries ++ more) := by
  obtain ⟨hfront, hahead⟩ := h.append_gap hgap hblank
  have hscan := scan_append hfront hahead back
  rw [scan_eq_ok.mpr ⟨rfl, hback⟩] at hscan
  rw [Reference.parse, hscan]
  simp only [terms_append_moved h hgap hblank, List.mapM_append, hterms, mapM_term_moved]
  cases (terms (Cursor.start.glyphs back)).mapM term <;> rfl

end Reference

/-- A query that follows an accepted one after some blanks is read as it would be alone. If it is
accepted, its conditions override those of the first one. Otherwise it fails for the same reason, as
many bytes further on as stand before it, and a fault of quotes or parentheses is reported with the
whole text. -/
theorem parse_concatenated (front gap back : List Char) (filters : Filters)
    (h : parse front = .ok filters) (hgap : gap ≠ [])
    (hblank : ∀ c ∈ gap, Text.isBlank c = true) :
    (∀ others, parse back = .ok others →
      ∃ joined, parse (front ++ gap ++ back) = .ok joined ∧
        ∀ name, joined.get? name = (others.get? name).or (filters.get? name)) ∧
    (∀ e, parse back = .error e →
      ∃ token, parse (front ++ gap ++ back) =
          .error ⟨token, Text.byteLength front + Text.byteLength gap + e.position, e.reason⟩ ∧
        (token = e.token ∨ e.token = back ∧ token = front ++ gap ++ back)) := by
  rw [parse_eq_reference] at h
  simp only [parse_eq_reference, ← byteLength_append]
  obtain ⟨hfront, entries, hterms, rfl⟩ := Reference.parse_eq_ok.mp h
  constructor
  · intro others hothers
    obtain ⟨hback, more, hmore, rfl⟩ := Reference.parse_eq_ok.mp hothers
    refine ⟨TextMap.ofList (entries ++ more), ?_, TextMap.get?_ofList_append entries more⟩
    rw [Reference.parse_append_gap hfront hgap hblank hterms hback, hmore]
    rfl
  · -- The fault is one of quotes and parentheses, or one of the terms.
    intro e he
    obtain ⟨hwhole, hahead⟩ := hfront.append_gap hgap hblank
    have hscan := Reference.scan_append hwhole hahead back
    cases hback : Reference.scan back with
    | error fault =>
      rw [Reference.parse, hback] at he
      cases he
      rw [hback] at hscan
      refine ⟨front ++ gap ++ back, ?_, .inr ⟨Reference.scan_token hback, rfl⟩⟩
      rw [Reference.parse, hscan]
    | ok gs =>
      obtain ⟨rfl, hbalanced⟩ := scan_eq_ok.mp hback
      rw [Reference.parse, hback] at he
      simp only at he
      refine ⟨e.token, ?_, .inl rfl⟩
      rw [Reference.parse_append_gap hfront hgap hblank hterms hbalanced]
      cases hmore : (Reference.terms (Cursor.start.glyphs back)).mapM Reference.term with
      | ok more =>
        rw [hmore] at he
        cases he
      | error fault =>
        rw [hmore] at he
        cases he
        rfl

/-- After a gap of two characters in four bytes, a query with the attribute of the first one, and one
with a parenthesis that closes nothing at its second byte. -/
theorem parse_concatenated_wide_gap :
    let front := ['a', '=', '1']
    let gap := [' ', '\u3000']
    (∃ joined, parse (front ++ gap ++ ['a', '=', '2']) = .ok joined ∧
      joined.get? "a" = some (.value (.int 2))) ∧
    ∃ token, parse (front ++ gap ++ ['b', ')']) = .error ⟨token, 8, .unmatchedClosing⟩ := by
  intro front gap
  have hone : expression ['1'] 2 = .ok (.value (.int 1)) := by
    rw [expression_eq]
    rfl
  have htwo : expression ['2'] 2 = .ok (.value (.int 2)) := by
    rw [expression_eq]
    rfl
  have hread : ∀ c v, expression [c] 2 = .ok (.value v) →
      terms ['a', '=', c] = .ok [⟨0, ['a', '=', c]⟩] →
      parse ['a', '=', c] = .ok (TextMap.ofList [("a", .value v)]) := by
    intro c v hexpression hterms
    have hterm : term ⟨0, ['a', '=', c]⟩ = .ok ("a", .value v) :=
      congrArg (Except.map ("a", ·)) hexpression
    rw [parse, hterms]
    simp only [termsInto, hterm]
    rfl
  have hfront : parse front = .ok (TextMap.ofList [("a", .value (.int 1))]) := hread '1' _ hone rfl
  have hblank : ∀ c ∈ gap, Text.isBlank c = true := List.all_eq_true.mp rfl
  have haccepted := (parse_concatenated front gap ['a', '=', '2'] _ hfront (List.cons_ne_nil _ _) hblank).1
  have hrejected := (parse_concatenated front gap ['b', ')'] _ hfront (List.cons_ne_nil _ _) hblank).2
  constructor
  · obtain ⟨joined, hjoined, hget⟩ := haccepted _ (hread '2' _ htwo rfl)
    exact ⟨joined, hjoined, (hget "a").trans rfl⟩
  · obtain ⟨token, htoken, -⟩ := hrejected ⟨['b', ')'], 1, .unmatchedClosing⟩ rfl
    exact ⟨token, htoken⟩

end Inventory.QueryText
