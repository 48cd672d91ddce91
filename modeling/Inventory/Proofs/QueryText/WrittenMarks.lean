import Inventory.Proofs.QueryText.Calls
import Inventory.Proofs.QueryText.Words

/-! The marks of written expressions. Wherever an expression may begin, its text is balanced, no
blank or comma stands outside its quotes and calls, and it neither begins nor ends with a blank. -/

namespace Inventory.QueryText

theorem Glyph.within_of_quoted {d : Nat} {g : Glyph} (h : g.quoted = true) : g.Within d := by
  simp [Within, isOpening, isClosing, h]

theorem Glyph.Within.mono {d e : Nat} {g : Glyph} (h : g.Within e) (hd : d ≤ e) : g.Within d :=
  ⟨h.1, fun hc => Nat.lt_of_le_of_lt hd (h.2 hc)⟩

/-- Leaves quotes and depth as they are. -/
def Flat (c : Char) : Prop := c ≠ '(' ∧ c ≠ ')' ∧ Scan.isQuote c = false

theorem Plain.flat {c : Char} (h : Plain c) : Flat c := ⟨h.opening, h.closing, h.quote⟩

theorem flat_comma : Flat ',' := ⟨by decide, by decide, rfl⟩

theorem flat_equals : Flat '=' := ⟨by decide, by decide, rfl⟩

theorem flat_of_isBlank {c : Char} (h : Text.isBlank c = true) : Flat c := by
  refine ⟨?_, ?_, ?_⟩
  · rintro rfl
    cases h
  · rintro rfl
    cases h
  · rw [← Bool.not_eq_true]
    intro hquote
    rw [isBlank_eq_false_of_isQuote hquote] at h
    cases h

namespace Cursor

theorem char_mem {k : Cursor} {s : List Char} {g : Glyph} (h : g ∈ k.glyphs s) : g.char ∈ s := by
  have hmem := List.mem_map_of_mem (f := Glyph.char) h
  rwa [glyphs_chars] at hmem

theorem Balanced.nil {k : Cursor} (h : k.quote = none) : k.Balanced [] :=
  ⟨⟨List.forall_mem_nil _, rfl, h⟩, h⟩

theorem Balanced.append {k : Cursor} {s t : List Char} (hs : k.Balanced s)
    (ht : (k.after s).Balanced t) : k.Balanced (s ++ t) := by
  have hrest := ht.toReturns
  rw [hs.depth] at hrest
  exact ⟨Returns.append.mpr ⟨hs.within, hrest⟩, hs.outside⟩

theorem balanced_of_flat {k : Cursor} {s : List Char} (hk : k.quote = none)
    (hs : ∀ c ∈ s, Flat c) : k.Balanced s := by
  have hwithin : ∀ g ∈ k.glyphs s, g.Within k.depth := by
    intro g hg
    obtain ⟨hopen, hclose, -⟩ := hs g.char (char_mem hg)
    simp [Glyph.Within, Glyph.isOpening, Glyph.isClosing, hopen, hclose]
  obtain ⟨hquote, hdepth, -⟩ :=
    level hk hwithin fun c hc => ⟨(hs c hc).1, (hs c hc).2.2⟩
  exact ⟨⟨hwithin, hdepth, hquote⟩, hk⟩

theorem balanced_of_plain {k : Cursor} {s : List Char} (hk : k.quote = none)
    (hs : ∀ c ∈ s, Plain c) : k.Balanced s :=
  balanced_of_flat hk fun c hc => (hs c hc).flat

theorem balanced_of_blank {k : Cursor} {s : List Char} (hk : k.quote = none)
    (hs : ∀ c ∈ s, Text.isBlank c = true) : k.Balanced s :=
  balanced_of_flat hk fun c hc => flat_of_isBlank (hs c hc)

theorem quoted_run {k : Cursor} {q : Char} (hk : k.quote = some q) {s : List Char} (hs : q ∉ s) :
    (∀ g ∈ k.glyphs s, g.quoted = true) ∧ (k.after s).quote = some q ∧
      (k.after s).depth = k.depth := by
  induction s generalizing k with
  | nil => exact ⟨List.forall_mem_nil _, hk, rfl⟩
  | cons c rest ih =>
    obtain ⟨hc, hrest⟩ := not_or.mp (List.mem_cons.not.mp hs)
    have hquoted : k.quoted c = true := by
      rw [quoted, hk]
      rfl
    have hquote : (k.next c).quote = some q := by
      simp [next, hk, Ne.symm hc]
    have hdepth : (k.next c).depth = k.depth := by
      simp [next, hquoted]
    obtain ⟨hall, hlast, hend⟩ := ih hquote hrest
    exact ⟨List.forall_mem_cons.mpr ⟨hquoted, hall⟩, hlast, hend.trans hdepth⟩

/-- An expression with calls nested this deep may begin here. -/
structure Ready (k : Cursor) (nesting : Nat) : Prop where
  outside : k.quote = none
  mayQuote : k.mayQuote = true
  room : k.depth + nesting ≤ maxNesting

theorem Ready.mono {k : Cursor} {m n : Nat} (h : k.Ready n) (hmn : m ≤ n) : k.Ready m :=
  ⟨h.outside, h.mayQuote, Nat.le_trans (Nat.add_le_add_left hmn _) h.room⟩

theorem mayQuote_after_blank {k : Cursor} (hk : k.mayQuote = true) {s : List Char}
    (hs : ∀ c ∈ s, Text.isBlank c = true) : (k.after s).mayQuote = true := by
  induction s generalizing k with
  | nil => exact hk
  | cons c rest ih =>
    obtain ⟨hc, hrest⟩ := List.forall_mem_cons.mp hs
    refine ih ?_ hrest
    simp [mayQuote, next, hc]

theorem Ready.after_blank {k : Cursor} {n : Nat} (h : k.Ready n) {s : List Char}
    (hs : ∀ c ∈ s, Text.isBlank c = true) : (k.after s).Ready n := by
  have hbalanced := balanced_of_blank h.outside hs
  refine ⟨hbalanced.quote, mayQuote_after_blank h.mayQuote hs, ?_⟩
  rw [hbalanced.depth]
  exact h.room

theorem Ready.quoted {k : Cursor} {n : Nat} (h : k.Ready n) (t : Quotable) :
    (∀ g ∈ k.glyphs t.written, g.quoted = true) ∧ k.Balanced t.written := by
  have hquoted : k.quoted t.quote = true := by
    rw [Cursor.quoted, t.isQuote_quote, h.mayQuote]
    simp
  have hopen : (k.next t.quote).quote = some t.quote := by
    simp [next, h.outside, hquoted]
  have hdepth : (k.next t.quote).depth = k.depth := by
    simp [next, hquoted]
  obtain ⟨hall, hrun, hend⟩ := quoted_run hopen t.quote_not_mem
  generalize hk : (k.next t.quote).after t.chars = k' at *
  have hlast : k'.quoted t.quote = true := by
    rw [Cursor.quoted, hrun]
    rfl
  have hafter : k.after t.written = k'.next t.quote := by
    rw [Quotable.written, after_cons, after_append, hk]
    rfl
  have hglyphs : ∀ g ∈ k.glyphs t.written, g.quoted = true := by
    rw [Quotable.written, glyphs, glyphs_append, hk, List.forall_mem_cons, List.forall_mem_append]
    exact ⟨hquoted, hall, List.forall_mem_singleton.mpr hlast⟩
  refine ⟨hglyphs, ⟨fun g hg => Glyph.within_of_quoted (hglyphs g hg), ?_, ?_⟩, h.outside⟩
  · rw [hafter, ← hdepth, ← hend]
    simp [next, hlast]
  · rw [hafter]
    simp [next, hrun]

theorem Ready.opened {k : Cursor} {n : Nat} (h : k.Ready (n + 1)) (name : Identifier) :
    (k.after name.chars).quote = none ∧ (k.after name.chars).depth = k.depth ∧
      (k.opened name.chars).depth = k.depth + 1 ∧ (k.opened name.chars).Ready n := by
  have hname := balanced_of_plain h.outside name.plain
  obtain ⟨hdown, hnext⟩ := opened_down hname.quote hname.depth
  have hroom := h.room
  exact ⟨hname.quote, hname.depth, hdown, hnext, rfl, by omega⟩

theorem Balanced.call {k : Cursor} {n : Nat} (h : k.Ready (n + 1)) {name : Identifier}
    {inside : List Char} (hinside : (k.opened name.chars).Balanced inside) :
    k.Balanced (name.chars ++ '(' :: (inside ++ [')'])) := by
  obtain ⟨hquote, hdepth, hdown, -⟩ := h.opened name
  have hopen : (k.after name.chars).quoted '(' = false := quoted_eq_false hquote rfl
  have hclose : ((k.opened name.chars).after inside).quoted ')' = false :=
    quoted_eq_false hinside.quote rfl
  have hroom := h.room
  have hend := hinside.depth
  -- The name, its parenthesis, what stands inside, and the parenthesis that closes it.
  refine ⟨Returns.append.mpr ⟨?_, Returns.cons.mpr ⟨?_, Returns.append.mpr ⟨?_, ?_⟩⟩⟩, h.outside⟩
  · exact (balanced_of_plain h.outside name.plain).within
  · refine ⟨fun _ => ?_, fun hc => ?_⟩
    · change (k.after name.chars).depth < maxNesting
      omega
    · simp [Glyph.isClosing, glyph] at hc
  · exact fun g hg => (hinside.within g hg).mono (by omega)
  · refine ⟨List.forall_mem_singleton.mpr ⟨fun ho => ?_, fun _ => ?_⟩, ?_, ?_⟩
    · simp [Glyph.isOpening, glyph] at ho
    · change k.depth < ((k.opened name.chars).after inside).depth
      omega
    · change (((k.opened name.chars).after inside).next ')').depth = k.depth
      rw [next_depth_of_mark, mark, hclose]
      change ((k.opened name.chars).after inside).depth - 1 = k.depth
      omega
    · exact next_quote_of_unquoted hclose

theorem Ready.padded {k : Cursor} {n : Nat} (h : k.Ready n) {before : Padding} {s : List Char}
    (hs : (k.after before.chars).Balanced s) (after : Padding) :
    k.Balanced (padded before s after) :=
  (balanced_of_blank h.outside before.blank).append
    (hs.append (balanced_of_blank hs.quote after.blank))

theorem ready_comma {k : Cursor} {n : Nat} (hk : k.quote = none)
    (hroom : k.depth + n ≤ maxNesting) :
    (k.next ',').depth = k.depth ∧ (k.next ',').Ready n := by
  have hdepth : (k.next ',').depth = k.depth := next_depth (by decide) (by decide)
  refine ⟨hdepth, next_quote_of_unquoted (quoted_eq_false hk rfl), rfl, ?_⟩
  rw [hdepth]
  exact hroom

theorem Returns.le_depth {d : Nat} {k : Cursor} {s : List Char} (h : k.Returns d s)
    (hk : d ≤ k.depth) : ∀ g ∈ k.glyphs s, d ≤ g.depth := by
  induction s generalizing k with
  | nil => exact List.forall_mem_nil _
  | cons c rest ih =>
    obtain ⟨hc, hrest⟩ := Returns.cons.mp h
    refine List.forall_mem_cons.mpr ⟨hk, ih hrest ?_⟩
    rw [next_depth_of_mark]
    cases hm : k.mark c with
    | opening => exact Nat.le_succ_of_le hk
    | closing => exact Nat.le_sub_one_of_lt (hc.2 (isClosing_glyph.mpr hm))
    | quoted => exact hk
    | plain => exact hk

/-- No character that is wanted stands in the text outside its quotes and calls. -/
def Whole (wanted : Char → Bool) (k : Cursor) (s : List Char) : Prop :=
  ∀ g ∈ k.glyphs s, g.separates wanted k.depth = false

theorem whole_of_unwanted {wanted : Char → Bool} {k : Cursor} {s : List Char}
    (h : ∀ c ∈ s, wanted c = false) : k.Whole wanted s := by
  intro g hg
  rw [Glyph.separates, h g.char (char_mem hg), Bool.and_false]

theorem Whole.append {wanted : Char → Bool} {k : Cursor} {s t : List Char}
    (hs : k.Whole wanted s) (hdepth : (k.after s).depth = k.depth)
    (ht : (k.after s).Whole wanted t) : k.Whole wanted (s ++ t) := by
  rw [Whole, hdepth] at ht
  rw [Whole, glyphs_append, List.forall_mem_append]
  exact ⟨hs, ht⟩

theorem Whole.splitOnP {wanted : Char → Bool} {k : Cursor} {s : List Char}
    (hs : k.Whole wanted s) (hbalanced : k.Balanced s) {c : Char} (hflat : Flat c)
    (hc : wanted c = true) (rest : List Char) :
    (k.glyphs (s ++ c :: rest)).splitOnP (Glyph.separates wanted k.depth) =
      k.glyphs s ::
        (((k.after s).next c).glyphs rest).splitOnP (Glyph.separates wanted k.depth) := by
  have hquoted : (k.after s).quoted c = false := quoted_eq_false hbalanced.quote hflat.2.2
  have hsep : ((k.after s).glyph c).separates wanted k.depth = true := by
    simp [Glyph.separates, glyph, hquoted, hbalanced.depth, hc]
  rw [glyphs_append, glyphs, List.splitOnP_append_cons_of_forall_mem hs _ hsep]

end Cursor

structure Separator (wanted : Char → Bool) : Prop where
  plain : ∀ c, Plain c → wanted c = false
  opening : wanted '(' = false
  closing : wanted ')' = false

theorem separator_blank : Separator Text.isBlank := ⟨fun _ h => h.blank, rfl, rfl⟩

theorem separator_comma : Separator (· == ',') :=
  ⟨fun _ h => beq_eq_false_iff_ne.mpr h.comma, rfl, rfl⟩

-- By induction on the tree, for every place where it may begin.
mutual

theorem Expr.balanced (e : Expr) {k : Cursor} (h : k.Ready e.nesting) : k.Balanced e.written := by
  cases e with
  | text t => exact (h.quoted t).2
  | int n => exact Cursor.balanced_of_plain h.outside (plain_toString n.toInt)
  | bool b =>
    cases b with
    | true => exact Cursor.balanced_of_plain h.outside plain_true
    | false => exact Cursor.balanced_of_plain h.outside plain_false
  | call name arguments =>
    exact Cursor.Balanced.call h (arguments.balanced (h.opened name).2.2.2)

theorem Arguments.balanced (a : Arguments) {k : Cursor} (h : k.Ready a.nesting) :
    k.Balanced a.written := by
  cases a with
  | nil blanks => exact Cursor.balanced_of_blank h.outside blanks.blank
  | cons before e after rest =>
    have he := e.balanced ((h.after_blank before.blank).mono (Nat.le_max_left _ _))
    have hfront := h.padded he after
    have ih := @Arguments.balanced rest
    have hroom : (k.after (padded before e.written after)).depth + rest.nesting ≤ maxNesting := by
      rw [hfront.depth]
      exact (h.mono (Nat.le_max_right _ _)).room
    generalize hk : k.after (padded before e.written after) = k' at *
    have hquote : k'.quote = none := hk ▸ hfront.quote
    refine hfront.append (hk ▸ ?_)
    -- A quote may stand at the beginning of what follows only if a comma stands before it.
    cases rest with
    | nil blanks => exact Cursor.balanced_of_blank hquote blanks.blank
    | cons before e after rest =>
      have hcomma : k'.Balanced [','] :=
        Cursor.balanced_of_flat hquote (List.forall_mem_singleton.mpr flat_comma)
      exact hcomma.append (ih (Cursor.ready_comma hquote hroom).2)

end

/-- What separates expressions stands only in the quotes and calls of one. -/
theorem Expr.whole {wanted : Char → Bool} (hw : Separator wanted) (e : Expr) {k : Cursor}
    (h : k.Ready e.nesting) : k.Whole wanted e.written := by
  have hword : ∀ s : List Char, (∀ c ∈ s, Plain c) → k.Whole wanted s :=
    fun s hs => Cursor.whole_of_unwanted fun c hc => hw.plain c (hs c hc)
  cases e with
  | text t =>
    intro g hg
    rw [Glyph.separates, (h.quoted t).1 g hg]
    rfl
  | int n => exact hword _ (plain_toString n.toInt)
  | bool b =>
    cases b with
    | true => exact hword _ plain_true
    | false => exact hword _ plain_false
  | call name arguments =>
    obtain ⟨hquote, hdepth, hdown, hready⟩ := h.opened name
    have hinside := arguments.balanced hready
    have hfloor := hinside.toReturns.le_depth (Nat.le_refl _)
    refine (hword _ name.plain).append hdepth ?_
    rw [Cursor.Whole, Cursor.glyphs, Cursor.glyphs_append, List.forall_mem_cons,
      List.forall_mem_append, hdepth]
    refine ⟨?_, fun g hg => ?_, List.forall_mem_singleton.mpr ?_⟩
    · rw [Glyph.separates]
      exact Bool.and_eq_false_iff.mpr (.inr hw.opening)
    · have hle := hfloor g hg
      have hne : (g.depth == k.depth) = false := beq_eq_false_iff_ne.mpr (by omega)
      rw [Glyph.separates, hne, Bool.and_false, Bool.false_and]
    · rw [Glyph.separates]
      exact Bool.and_eq_false_iff.mpr (.inr hw.closing)

/-- Not empty, and with no blank at either end. -/
structure Tight (s : List Char) : Prop where
  first : ∃ c rest, s = c :: rest ∧ Text.isBlank c = false
  last : ∃ front c, s = front ++ [c] ∧ Text.isBlank c = false

theorem tight_of_plain {s : List Char} (hne : s ≠ []) (hs : ∀ c ∈ s, Plain c) : Tight s := by
  obtain ⟨c, rest, hfirst⟩ := List.exists_cons_of_ne_nil hne
  obtain ⟨front, d, hlast⟩ := List.eq_nil_or_concat' s |>.resolve_left hne
  refine ⟨⟨c, rest, hfirst, (hs c ?_).blank⟩, front, d, hlast, (hs d ?_).blank⟩
  · rw [hfirst]
    exact List.mem_cons_self
  · rw [hlast]
    exact List.mem_append_right _ List.mem_cons_self

theorem Quotable.quote_not_blank (t : Quotable) : Text.isBlank t.quote = false :=
  isBlank_eq_false_of_isQuote t.isQuote_quote

theorem Expr.tight (e : Expr) : Tight e.written := by
  cases e with
  | text t =>
    exact ⟨⟨_, _, rfl, t.quote_not_blank⟩, t.quote :: t.chars, t.quote, rfl, t.quote_not_blank⟩
  | int n => exact tight_of_plain (toString_ne_nil n.toInt) (plain_toString n.toInt)
  | bool b =>
    cases b with
    | true => exact tight_of_plain (List.cons_ne_nil _ _) plain_true
    | false => exact tight_of_plain (List.cons_ne_nil _ _) plain_false
  | call name arguments =>
    have hfirst := (name.plain name.first List.mem_cons_self).blank
    refine ⟨⟨name.first, _, rfl, hfirst⟩, name.chars ++ '(' :: arguments.written, ')', ?_, rfl⟩
    rw [List.append_assoc]
    rfl

theorem takeWhile_blank {before s : List Char} (hb : ∀ c ∈ before, Text.isBlank c = true)
    (hs : ∃ c rest, s = c :: rest ∧ Text.isBlank c = false) (after : List Char) :
    (before ++ (s ++ after)).takeWhile Text.isBlank = before := by
  obtain ⟨c, rest, rfl, hc⟩ := hs
  rw [List.takeWhile_append_of_pos hb, List.cons_append, List.takeWhile_cons, hc,
    if_neg Bool.false_ne_true, List.append_nil]

theorem dropWhile_blank {before s : List Char} (hb : ∀ c ∈ before, Text.isBlank c = true)
    (hs : ∃ c rest, s = c :: rest ∧ Text.isBlank c = false) (after : List Char) :
    (before ++ (s ++ after)).dropWhile Text.isBlank = s ++ after := by
  obtain ⟨c, rest, rfl, hc⟩ := hs
  rw [List.dropWhile_append_of_pos hb, List.cons_append, List.dropWhile_cons, hc,
    if_neg Bool.false_ne_true]

theorem trim_padded (before after : Padding) {s : List Char} (hs : Tight s) :
    Text.trim (padded before s after) = s := by
  obtain ⟨front, d, hlast, hd⟩ := hs.last
  have hback : ∃ c rest, s.reverse = c :: rest ∧ Text.isBlank c = false :=
    ⟨d, front.reverse, by rw [hlast, List.reverse_concat], hd⟩
  have hafter : ∀ c ∈ after.chars.reverse, Text.isBlank c = true :=
    fun c hc => after.blank c (List.mem_reverse.mp hc)
  have hdrop := dropWhile_blank hafter hback []
  rw [List.append_nil] at hdrop
  rw [Text.trim, Text.trimStart, padded, dropWhile_blank before.blank hs.first, Text.trimEnd,
    List.reverse_append, hdrop, List.reverse_reverse]

theorem Cursor.trim_padded_glyphs (k : Cursor) (before after : Padding) {s : List Char}
    (hs : Tight s) :
    Reference.trim (k.glyphs (padded before s after)) = (k.after before.chars).glyphs s := by
  rw [Cursor.trim_glyphs, trim_padded before after hs, Cursor.trimmed, padded,
    takeWhile_blank before.blank hs.first]

theorem Cursor.trim_tight_glyphs (k : Cursor) {s : List Char} (hs : Tight s) :
    Reference.trim (k.glyphs s) = k.glyphs s := by
  have h := k.trim_padded_glyphs ⟨[], List.forall_mem_nil _⟩ ⟨[], List.forall_mem_nil _⟩ hs
  rwa [padded, List.nil_append, List.append_nil] at h

end Inventory.QueryText
