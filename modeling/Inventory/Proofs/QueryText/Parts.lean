import Mathlib.Data.List.Forall2
import Mathlib.Data.List.TakeWhile
import Inventory.Proofs.QueryText.Rescan

/-! Parts of a marked query in which quotes and parentheses are balanced: the query itself once its
scan is accepted, its terms, and by them every expression and argument. A scan of such a part
succeeds, and cuts it where its marks say. -/

namespace Inventory.QueryText

/-- Reading through the text leaves the first `d` parentheses open and ends with just these,
outside quotes. -/
structure Cursor.Returns (d : Nat) (k : Cursor) (s : List Char) : Prop where
  within : ∀ g ∈ k.glyphs s, g.Within d
  depth : (k.after s).depth = d
  quote : (k.after s).quote = none

structure Cursor.Balanced (k : Cursor) (s : List Char) : Prop extends k.Returns k.depth s where
  outside : k.quote = none

theorem Cursor.Returns.append {d : Nat} {k : Cursor} {s t : List Char} :
    k.Returns d (s ++ t) ↔ (∀ g ∈ k.glyphs s, g.Within d) ∧ (k.after s).Returns d t := by
  constructor
  · intro h
    have hw := h.within
    rw [glyphs_append, List.forall_mem_append] at hw
    exact ⟨hw.1, hw.2, by rw [← after_append]; exact h.depth, by rw [← after_append]; exact h.quote⟩
  · rintro ⟨hs, ht⟩
    refine ⟨?_, by rw [after_append]; exact ht.depth, by rw [after_append]; exact ht.quote⟩
    rw [glyphs_append, List.forall_mem_append]
    exact ⟨hs, ht.within⟩

theorem Cursor.Returns.cons {d : Nat} {k : Cursor} {c : Char} {s : List Char} :
    k.Returns d (c :: s) ↔ (k.glyph c).Within d ∧ (k.next c).Returns d s := by
  have h := Returns.append (d := d) (k := k) (s := [c]) (t := s)
  simpa [glyphs, after] using h

theorem Cursor.Balanced.markOuter {k : Cursor} {s : List Char} (h : k.Balanced s)
    (hm : k.mayQuote = true) (base : Nat) :
    markOuter s base = .ok ((k.glyphs s).map (Glyph.marked k.depth)) := by
  have hf := Scan.Follows.fresh h.outside hm
  have hend := hf.through h.within 0
  have hopens : (Scan.fresh.through k 0 s).opens = [] := by
    have hdepth := hend.depth
    rw [h.depth] at hdepth
    rw [← List.length_eq_zero_iff]
    omega
  rw [QueryText.markOuter, hf.run h.within, Scan.finish, hend.quote, h.quote, hopens]
  rfl

theorem Glyph.separates_marked {wanted : Char → Bool} (ho : wanted '(' = false)
    (hc : wanted ')' = false) (d : Nat) (g : Glyph) :
    ((g.marked d).outer && wanted (g.marked d).char) = g.separates wanted d := by
  have hplain : wanted g.char = true → g.char ≠ '(' ∧ g.char ≠ ')' := by
    intro hw
    refine ⟨?_, ?_⟩
    · rintro heq
      rw [heq, ho] at hw
      cases hw
    · rintro heq
      rw [heq, hc] at hw
      cases hw
  rw [marked, separates, Bool.eq_iff_iff]
  simp only [Bool.and_eq_true, bne_iff_ne]
  constructor
  · rintro ⟨⟨⟨hg, -⟩, -⟩, hw⟩
    exact ⟨hg, hw⟩
  · rintro ⟨hg, hw⟩
    exact ⟨⟨⟨hg, (hplain hw).1⟩, (hplain hw).2⟩, hw⟩

/-- The piece, of a text that stands `base` bytes into the query, carries these marks there: it is
balanced at depth `d`, and nothing in it separates. -/
structure Piece.Reads (wanted : Char → Bool) (base d : Nat) (p : Piece) (gs : List Glyph)
    (k : Cursor) : Prop where
  position : k.position = base + p.start
  depth : k.depth = d
  glyphs : gs = k.glyphs p.text
  balanced : k.Balanced p.text
  whole : ∀ g ∈ gs, g.separates wanted d = false

/-- The text `t` stands in the text `s` that is read from `k` on, where `k'` is reached. -/
def Cursor.Reaches (k : Cursor) (s : List Char) (k' : Cursor) (t : List Char) : Prop :=
  ∃ front back, s = front ++ (t ++ back) ∧ k' = k.after front

theorem Cursor.Reaches.leading {k : Cursor} {s t : List Char} (h : t <+: s) : k.Reaches s k t := by
  obtain ⟨back, hs⟩ := h
  exact ⟨[], back, hs.symm, rfl⟩

theorem Cursor.Reaches.cons {k k' : Cursor} {s t : List Char} (c : Char)
    (h : (k.next c).Reaches s k' t) : k.Reaches (c :: s) k' t := by
  obtain ⟨front, back, rfl, hk⟩ := h
  exact ⟨c :: front, back, rfl, hk⟩

theorem Cursor.Returns.cutFrom_splitOnP {wanted : Char → Bool} (ho : wanted '(' = false)
    (hc : wanted ')' = false) {d : Nat} {k : Cursor} {s : List Char} (h : k.Returns d s)
    {base position : Nat} (hpos : k.position = base + position) :
    ∃ front more parts,
      cutFrom (fun m => m.outer && wanted m.char) position ((k.glyphs s).map (Glyph.marked d)) =
        (front, more) ∧
      (k.glyphs s).splitOnP (Glyph.separates wanted d) = k.glyphs front :: parts ∧
      k.Returns d front ∧ (∀ g ∈ k.glyphs front, g.separates wanted d = false) ∧ front <+: s ∧
      List.Forall₂ (fun p gs => ∃ k', p.Reads wanted base d gs k' ∧ k.Reaches s k' p.text)
        more parts := by
  -- By induction on the text that remains. Its front piece may begin in the middle of a part, so it
  -- only returns to the depth; the pieces after it are balanced.
  induction s generalizing k position with
  | nil =>
    exact ⟨[], [], [], rfl, List.splitOnP_nil, h, List.forall_mem_nil _, List.prefix_refl _, .nil⟩
  | cons c rest ih =>
    obtain ⟨hg, hrest⟩ := Returns.cons.mp h
    have hpos' : (k.next c).position = base + (position + c.utf8Size) := by
      rw [next, hpos, Nat.add_assoc]
    obtain ⟨front, more, parts, hcut, hsplit, hfront, hwhole, hleads, hmore⟩ := ih hrest hpos'
    have hlater : List.Forall₂ (fun p gs => ∃ k', p.Reads wanted base d gs k' ∧
        k.Reaches (c :: rest) k' p.text) more parts := by
      apply hmore.imp
      rintro p gs ⟨k', hreads, hreached⟩
      exact ⟨k', hreads, hreached.cons c⟩
    have hsep := Glyph.separates_marked ho hc d (k.glyph c)
    have hsize : ((k.glyph c).marked d).char.utf8Size = c.utf8Size := rfl
    simp only [glyphs, List.map_cons, cutFrom, hsep, hsize, hcut,
      List.splitOnP_cons_eq_if_modifyHead, hsplit]
    cases hs : (k.glyph c).separates wanted d with
    | true =>
      simp only [Glyph.separates, glyph, Bool.and_eq_true, Bool.not_eq_true', beq_iff_eq] at hs
      obtain ⟨⟨hquoted, hdepth⟩, hwanted⟩ := hs
      have hnext : (k.next c).depth = d := by
        rw [next_depth (by rintro rfl; simp [ho] at hwanted) (by rintro rfl; simp [hc] at hwanted),
          hdepth]
      refine ⟨[], ⟨position + c.utf8Size, front⟩ :: more, (k.next c).glyphs front :: parts, rfl,
        rfl, ⟨List.forall_mem_nil _, hdepth, quote_of_unquoted hquoted⟩, List.forall_mem_nil _,
        List.nil_prefix,
        .cons ⟨k.next c, ⟨hpos', hnext, rfl, ?_, hwhole⟩, (Reaches.leading hleads).cons c⟩ hlater⟩
      exact ⟨hnext.symm ▸ hfront, next_quote_of_unquoted hquoted⟩
    | false =>
      exact ⟨c :: front, more, parts, rfl, rfl, Returns.cons.mpr ⟨hg, hfront⟩,
        List.forall_mem_cons.mpr ⟨hs, hwhole⟩, List.cons_prefix_cons.mpr ⟨rfl, hleads⟩, hlater⟩

theorem Cursor.Balanced.cut_splitOnP {k : Cursor} {s : List Char} (h : k.Balanced s)
    (wanted : Char → Bool) (ho : wanted '(' = false) (hc : wanted ')' = false) :
    List.Forall₂ (fun p gs => ∃ k', p.Reads wanted k.position k.depth gs k' ∧ k.Reaches s k' p.text)
      (cut (fun m => m.outer && wanted m.char) ((k.glyphs s).map (Glyph.marked k.depth)))
      ((k.glyphs s).splitOnP (Glyph.separates wanted k.depth)) := by
  obtain ⟨front, more, parts, hcut, hsplit, hfront, hwhole, hleads, hmore⟩ :=
    h.toReturns.cutFrom_splitOnP ho hc (Nat.add_zero k.position).symm
  rw [cut, hcut, hsplit]
  exact .cons ⟨k, ⟨rfl, rfl, rfl, ⟨hfront, h.outside⟩, hwhole⟩, .leading hleads⟩ hmore

/-- Where a text begins once its leading blanks are left out. -/
def Cursor.trimmed (k : Cursor) (s : List Char) : Cursor := k.after (s.takeWhile Text.isBlank)

theorem Cursor.trim_glyphs (k : Cursor) (s : List Char) :
    Reference.trim (k.glyphs s) = (k.trimmed s).glyphs (Text.trim s) := by
  have hblank : Glyph.isBlank = fun g => Text.isBlank g.char := rfl
  have hlead : (k.glyphs s).dropWhile Glyph.isBlank = (k.trimmed s).glyphs (Text.trimStart s) := by
    rw [hblank, glyphs_dropWhile]
    rfl
  have hsplit : (k.trimmed s).glyphs (Text.trimStart s) =
      Reference.trim (k.glyphs s) ++
        (((k.glyphs s).dropWhile Glyph.isBlank).reverse.takeWhile Glyph.isBlank).reverse := by
    rw [Reference.trim, ← List.reverse_append, List.takeWhile_append_dropWhile,
      List.reverse_reverse, hlead]
  have hchars : (Reference.trim (k.glyphs s)).map Glyph.char = Text.trim s := by
    have hmap := glyphs_chars (k.trimmed s) (Text.trimStart s)
    rw [Reference.trim, hlead, hblank, Text.trim, Text.trimEnd, List.map_reverse]
    conv => rhs; rw [← hmap, ← List.map_reverse, List.dropWhile_map]
    rfl
  rw [(glyphs_eq_append hsplit).1, hchars]

theorem trim_spec (s : List Char) :
    ∃ trail, s = s.takeWhile Text.isBlank ++ (Text.trim s ++ trail) ∧
      ∀ c ∈ trail, Text.isBlank c = true := by
  refine ⟨((Text.trimStart s).reverse.takeWhile Text.isBlank).reverse, ?_, ?_⟩
  · rw [Text.trim, Text.trimEnd, ← List.reverse_append, List.takeWhile_append_dropWhile,
      List.reverse_reverse, Text.trimStart, List.takeWhile_append_dropWhile]
  · intro c hc
    exact List.mem_takeWhile_imp (List.mem_reverse.mp hc)

theorem isBlank_eq_false_of_isQuote {c : Char} (h : Scan.isQuote c = true) :
    Text.isBlank c = false := by
  rw [Scan.isQuote, Bool.or_eq_true, beq_iff_eq, beq_iff_eq] at h
  rcases h with rfl | rfl
  · rfl
  · rfl

theorem Cursor.next_blank {k : Cursor} {c : Char} (h : Text.isBlank c = true) :
    (k.next c).depth = k.depth := by
  refine next_depth ?_ ?_
  · rintro rfl
    cases h
  · rintro rfl
    cases h

theorem Cursor.depth_after_blanks {k : Cursor} {s : List Char}
    (h : ∀ c ∈ s, Text.isBlank c = true) : (k.after s).depth = k.depth := by
  induction s generalizing k with
  | nil => rfl
  | cons c rest ih =>
    obtain ⟨hc, hrest⟩ := List.forall_mem_cons.mp h
    rw [after_cons, ih hrest, next_blank hc]

theorem Cursor.quote_after_blanks {k : Cursor} {s : List Char}
    (h : ∀ c ∈ s, Text.isBlank c = true) (hk : ∀ q, k.quote = some q → Scan.isQuote q = true) :
    (k.after s).quote = k.quote := by
  induction s generalizing k with
  | nil => rfl
  | cons c rest ih =>
    obtain ⟨hc, hrest⟩ := List.forall_mem_cons.mp h
    have hno : ∀ q, Scan.isQuote q = true → c ≠ q := by
      rintro q hq rfl
      rw [isBlank_eq_false_of_isQuote hq] at hc
      cases hc
    have hnext : (k.next c).quote = k.quote := by
      cases hq : k.quote with
      | some q => simp [next, hq, hno q (hk q hq)]
      | none =>
        have hcq : Scan.isQuote c = false := by
          rw [← Bool.not_eq_true]
          exact fun hcq => hno c hcq rfl
        exact next_quote_of_unquoted (quoted_eq_false hq hcq)
    rw [after_cons, ih hrest (by rw [hnext]; exact hk), hnext]

theorem Cursor.isQuote_after {k : Cursor} {s : List Char}
    (hk : ∀ q, k.quote = some q → Scan.isQuote q = true) :
    ∀ q, (k.after s).quote = some q → Scan.isQuote q = true := by
  induction s generalizing k with
  | nil => exact hk
  | cons c rest ih =>
    refine ih fun q hq => ?_
    cases hquote : k.quote with
    | some p =>
      simp only [next, hquote] at hq
      split at hq
      · cases hq
      · exact hk q (hquote.trans hq)
    | none =>
      simp only [next, hquote, quoted, Option.isSome_none, Bool.false_or] at hq
      split at hq
      · rename_i hopen
        cases hq
        exact (Bool.and_eq_true_iff.mp hopen).1
      · cases hq

theorem Cursor.Balanced.trim {k : Cursor} {s : List Char} (h : k.Balanced s) :
    (k.trimmed s).depth = k.depth ∧ (k.trimmed s).Balanced (Text.trim s) := by
  obtain ⟨trail, hs, htrail⟩ := trim_spec s
  have hnone : ∀ q, k.quote = some q → Scan.isQuote q = true := by
    intro q hq
    rw [h.outside] at hq
    cases hq
  have hlead : ∀ c ∈ s.takeWhile Text.isBlank, Text.isBlank c = true :=
    fun c hc => List.mem_takeWhile_imp hc
  have hdepth : (k.trimmed s).depth = k.depth := depth_after_blanks hlead
  have hrest : (k.trimmed s).Returns k.depth (Text.trim s ++ trail) := by
    have hall := h.toReturns
    rw [hs] at hall
    exact (Returns.append.mp hall).2
  obtain ⟨hwithin, hend⟩ := Returns.append.mp hrest
  have hdepth' : ((k.trimmed s).after (Text.trim s)).depth = k.depth :=
    (depth_after_blanks htrail).symm.trans hend.depth
  have hquote : ((k.trimmed s).after (Text.trim s)).quote = none :=
    (quote_after_blanks htrail (isQuote_after (isQuote_after hnone))).symm.trans hend.quote
  refine ⟨hdepth, ?_⟩
  rw [← hdepth] at hwithin hdepth'
  exact ⟨⟨hwithin, hdepth', hquote⟩, (quote_after_blanks hlead hnone).trans h.outside⟩

end Inventory.QueryText
