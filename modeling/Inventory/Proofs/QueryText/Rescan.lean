import Inventory.Proofs.QueryText.Reference

/-! A scan that begins anew inside a query, outside quotes, stays in step with the marking of the
whole query: it finds the same quoted runs, and the same parentheses except for those opened before
it began. -/

namespace Inventory.QueryText

/-- The parenthesis, if it is one, does not open a level too many and closes none of the first `d`
levels. -/
def Glyph.Within (d : Nat) (g : Glyph) : Prop :=
  (g.isOpening = true → g.depth < maxNesting) ∧ (g.isClosing = true → d < g.depth)

def Cursor.mark (k : Cursor) (c : Char) : Mark :=
  if k.quoted c then .quoted
  else if c = '(' then .opening
  else if c = ')' then .closing
  else .plain

/-- How a scan that began at depth `d` marks the character. -/
def Glyph.marked (d : Nat) (g : Glyph) : Marked :=
  ⟨g.char, !g.quoted && g.depth == d && g.char != '(' && g.char != ')'⟩

theorem Cursor.isOpening_glyph {k : Cursor} {c : Char} :
    (k.glyph c).isOpening = true ↔ k.mark c = .opening := by
  simp only [Glyph.isOpening, glyph, mark]
  cases k.quoted c with
  | true => simp
  | false => by_cases ho : c = '(' <;> by_cases hcl : c = ')' <;> simp [ho, hcl]

theorem Cursor.isClosing_glyph {k : Cursor} {c : Char} :
    (k.glyph c).isClosing = true ↔ k.mark c = .closing := by
  simp only [Glyph.isClosing, glyph, mark]
  cases k.quoted c with
  | true => simp
  | false => by_cases ho : c = '(' <;> by_cases hcl : c = ')' <;> simp [ho, hcl]

theorem Cursor.next_depth_of_mark (k : Cursor) (c : Char) :
    (k.next c).depth =
      match k.mark c with
      | .opening => k.depth + 1
      | .closing => k.depth - 1
      | .quoted => k.depth
      | .plain => k.depth := by
  simp only [next, mark]
  cases k.quoted c with
  | true => rfl
  | false => by_cases ho : c = '(' <;> by_cases hcl : c = ')' <;> simp [ho, hcl]

def Mark.stack (mark : Mark) (position : Nat) (opens : List Nat) : List Nat :=
  match mark with
  | .opening => position :: opens
  | .closing => opens.tail
  | .quoted => opens
  | .plain => opens

namespace Scan

/-- The scan stands where the marking stands, and `d` parentheses were opened before it began. -/
structure Follows (d : Nat) (scan : Scan) (k : Cursor) : Prop where
  quote : scan.quote = k.quote
  depth : scan.opens.length + d = k.depth
  mayQuote : scan.quoteMayStart = k.mayQuote

def advance (scan : Scan) (k : Cursor) (position : Nat) (c : Char) : Scan :=
  ⟨(k.next c).quote, (k.mark c).stack position scan.opens, some c⟩

theorem Follows.fresh {k : Cursor} (hq : k.quote = none) (hm : k.mayQuote = true) :
    Scan.fresh.Follows k.depth k :=
  ⟨hq.symm, Nat.zero_add _, hm.symm⟩

theorem Follows.step {d : Nat} {scan : Scan} {k : Cursor} (h : scan.Follows d k) {c : Char}
    (hc : (k.glyph c).Within d) (position : Nat) :
    scan.step position c = .ok (k.mark c, scan.advance k position c) := by
  cases hk : k.quote with
  | some q =>
    have hquoted : k.quoted c = true := by simp [Cursor.quoted, hk]
    simp [Scan.step, h.quote, hk, Cursor.mark, advance, Cursor.next, Mark.stack, hquoted]
  | none =>
    have hquoted : k.quoted c = (isQuote c && scan.quoteMayStart) := by
      simp [Cursor.quoted, hk, h.mayQuote]
    cases hb : (isQuote c && scan.quoteMayStart) with
    | true =>
      rw [hb] at hquoted
      simp [Scan.step, h.quote, hk, hb, Cursor.mark, advance, Cursor.next, Mark.stack, hquoted]
    | false =>
      rw [hb] at hquoted
      have hdepth := h.depth
      by_cases ho : c = '('
      · subst ho
        have hlt : k.depth < maxNesting := hc.1 (by simp [Glyph.isOpening, Cursor.glyph, hquoted])
        have hne : scan.opens.length ≠ maxNesting := by omega
        simp [Scan.step, h.quote, hk, hb, Cursor.mark, advance, Cursor.next, Mark.stack, hquoted,
          hne]
      · by_cases hcl : c = ')'
        · subst hcl
          have hlt : d < k.depth := hc.2 (by simp [Glyph.isClosing, Cursor.glyph, hquoted])
          cases hopens : scan.opens with
          | nil =>
            rw [hopens, List.length_nil] at hdepth
            omega
          | cons _ opens =>
            simp [Scan.step, h.quote, hk, hb, Cursor.mark, advance, Cursor.next, Mark.stack,
              hquoted, hopens]
        · simp [Scan.step, h.quote, hk, hb, Cursor.mark, advance, Cursor.next, Mark.stack, hquoted,
            ho, hcl]

theorem Follows.advance {d : Nat} {scan : Scan} {k : Cursor} (h : scan.Follows d k) {c : Char}
    (hc : (k.glyph c).Within d) (position : Nat) :
    (scan.advance k position c).Follows d (k.next c) := by
  refine ⟨rfl, ?_, rfl⟩
  have hdepth := h.depth
  rw [k.next_depth_of_mark, Scan.advance]
  cases hm : k.mark c with
  | opening =>
    simp only [Mark.stack, List.length_cons]
    omega
  | closing =>
    have hlt : d < k.depth := hc.2 (Cursor.isClosing_glyph.mpr hm)
    simp only [Mark.stack, List.length_tail]
    omega
  | quoted => exact hdepth
  | plain => exact hdepth

/-- The scan at the end of a text, read off the marking. -/
def through (scan : Scan) (k : Cursor) (position : Nat) : List Char → Scan
  | [] => scan
  | c :: rest => (scan.advance k position c).through (k.next c) (position + c.utf8Size) rest

theorem Follows.through {d : Nat} {scan : Scan} {k : Cursor} (h : scan.Follows d k)
    {s : List Char} (hs : ∀ g ∈ k.glyphs s, g.Within d) (position : Nat) :
    (scan.through k position s).Follows d (k.after s) := by
  induction s generalizing scan k position with
  | nil => exact h
  | cons c rest ih =>
    obtain ⟨hc, hrest⟩ := List.forall_mem_cons.mp hs
    exact ih (h.advance hc position) hrest _

theorem Follows.outer_iff {d : Nat} {scan : Scan} {k : Cursor} (h : scan.Follows d k) (c : Char)
    (position : Nat) :
    (k.mark c = .plain ∧ (scan.advance k position c).opens = []) ↔
      ((k.glyph c).marked d).outer = true := by
  have hdepth := h.depth
  have hopens : scan.opens = [] ↔ k.depth = d := by
    rw [← List.length_eq_zero_iff]
    omega
  simp only [Scan.advance, Cursor.mark, Glyph.marked, Cursor.glyph]
  cases k.quoted c with
  | true => simp
  | false =>
    by_cases ho : c = '('
    · simp [ho]
    · by_cases hcl : c = ')'
      · simp [hcl]
      · simp [ho, hcl, Mark.stack, hopens]

theorem Follows.run {d : Nat} {scan : Scan} {k : Cursor} (h : scan.Follows d k)
    {s : List Char} (hs : ∀ g ∈ k.glyphs s, g.Within d) (text : List Char) (base position : Nat) :
    Scan.run text base scan position s =
      ((scan.through k position s).finish text base).map fun _ =>
        (k.glyphs s).map (Glyph.marked d) := by
  induction s generalizing scan k position with
  | nil => rfl
  | cons c rest ih =>
    obtain ⟨hc, hrest⟩ := List.forall_mem_cons.mp hs
    have hmarked : (⟨c, k.mark c = .plain ∧ (scan.advance k position c).opens = []⟩ : Marked) =
        (k.glyph c).marked d := by
      rw [Marked.mk.injEq]
      exact ⟨rfl, by simp [h.outer_iff c position]⟩
    rw [Scan.run, h.step hc position]
    simp only
    rw [ih (h.advance hc position) hrest, hmarked, Scan.through, Cursor.glyphs]
    cases (((scan.advance k position c).through (k.next c) (position + c.utf8Size)
      rest).finish text base) with
    | error e => rfl
    | ok u => rfl

theorem Follows.closes_iff {d : Nat} {scan : Scan} {k : Cursor} (h : scan.Follows d k) {c : Char}
    (hc : (k.glyph c).Within d) (position : Nat) :
    (k.mark c = .closing ∧ (scan.advance k position c).opens = []) ↔
      (k.glyph c).closes (d + 1) = true := by
  have hnext := (h.advance hc position).depth
  rw [k.next_depth_of_mark] at hnext
  rw [Glyph.closes, Bool.and_eq_true, Cursor.isClosing_glyph, beq_iff_eq,
    ← List.length_eq_zero_iff]
  refine and_congr_right fun hm => ?_
  have hlt : d < k.depth := hc.2 (Cursor.isClosing_glyph.mpr hm)
  have hdepth : (k.glyph c).depth = k.depth := rfl
  rw [hm] at hnext
  simp only at hnext
  omega

theorem Follows.closing {d : Nat} {scan : Scan} {k : Cursor} (h : scan.Follows d k)
    {s : List Char} (hs : ∀ g ∈ k.glyphs s, g.Within d) (position : Nat) :
    closing scan position s =
      .ok ((Reference.splitAtClosing? (d + 1) (k.glyphs s)).map fun (inside, rest) =>
        (inside.map Glyph.char, rest.map Glyph.char)) := by
  induction s generalizing scan k position with
  | nil => rfl
  | cons c rest ih =>
    obtain ⟨hc, hrest⟩ := List.forall_mem_cons.mp hs
    rw [QueryText.closing, h.step hc position, Cursor.glyphs, Reference.splitAtClosing?_cons]
    simp only [h.closes_iff hc position]
    rw [ih (h.advance hc position) hrest]
    cases (k.glyph c).closes (d + 1) with
    | true => simp [Cursor.glyphs_chars]
    | false =>
      cases Reference.splitAtClosing? (d + 1) ((k.next c).glyphs rest) with
      | none => rfl
      | some parts => rfl

end Scan

end Inventory.QueryText
