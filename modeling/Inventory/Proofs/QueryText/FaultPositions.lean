import Mathlib.Data.List.Induction
import Inventory.Proofs.QueryText.Calls
import Inventory.Proofs.QueryText.OuterScan

/-! Where the scan of a whole query fails: at the first parenthesis that has no place there, or at the
end, for a quote left open or for the innermost parenthesis left open. -/

namespace Inventory.QueryText

open Reference

theorem byteLength_append (s t : List Char) :
    Text.byteLength (s ++ t) = Text.byteLength s + Text.byteLength t := by
  induction s with
  | nil => simp [Text.byteLength]
  | cons c rest ih =>
    rw [List.cons_append, Text.byteLength, Text.byteLength, ih]
    omega

theorem eq_nil_of_byteLength {s : List Char} (h : Text.byteLength s = 0) : s = [] := by
  cases s with
  | nil => rfl
  | cons c rest =>
    have hsize := c.utf8Size_pos
    rw [Text.byteLength] at h
    omega

theorem eq_of_prefix_of_byteLength {s t text : List Char} (hs : s <+: text) (ht : t <+: text)
    (h : Text.byteLength s = Text.byteLength t) : s = t := by
  rcases List.prefix_or_prefix_of_prefix hs ht with ⟨rest, rfl⟩ | ⟨rest, rfl⟩
  · rw [byteLength_append] at h
    rw [eq_nil_of_byteLength (s := rest) (by omega), List.append_nil]
  · rw [byteLength_append] at h
    rw [eq_nil_of_byteLength (s := rest) (by omega), List.append_nil]

/-- The position lies between two characters of the query, or at an end of it. -/
def OnBoundary (query : List Char) (position : Nat) : Prop :=
  ∃ front back, query = front ++ back ∧ position = Text.byteLength front

theorem OnBoundary.le {query : List Char} {position : Nat} (h : OnBoundary query position) :
    position ≤ Text.byteLength query := by
  obtain ⟨front, back, rfl, rfl⟩ := h
  rw [byteLength_append]
  omega

/-- An opening parenthesis, and none of the characters after it closes it. -/
def StillOpen (g : Glyph) (later : List Glyph) : Prop :=
  g.isOpening = true ∧ ∀ h ∈ later, h.closes (g.depth + 1) = false

/-- What is wrong with the quotes and parentheses of a query, and where. -/
inductive DelimiterFault (query : List Char) : SyntaxError → Prop where
  | unmatchedClosing {before after : List Glyph} {g : Glyph} :
      Cursor.start.glyphs query = before ++ g :: after → (∀ h ∈ before, h.Within 0) →
      g.isClosing = true → g.depth = 0 →
      DelimiterFault query ⟨query, g.position, .unmatchedClosing⟩
  | nestingTooDeep {before after : List Glyph} {g : Glyph} :
      Cursor.start.glyphs query = before ++ g :: after → (∀ h ∈ before, h.Within 0) →
      g.isOpening = true → g.depth = maxNesting →
      DelimiterFault query ⟨query, g.position, .nestingTooDeep⟩
  | unterminatedQuote :
      (∀ h ∈ Cursor.start.glyphs query, h.Within 0) →
      (Cursor.start.after query).quote ≠ none →
      DelimiterFault query ⟨query, Text.byteLength query, .unterminatedQuote⟩
  | unmatchedOpening {before after : List Glyph} {g : Glyph} :
      (∀ h ∈ Cursor.start.glyphs query, h.Within 0) →
      (Cursor.start.after query).quote = none →
      Cursor.start.glyphs query = before ++ g :: after → StillOpen g after →
      (∀ mid h later, after = mid ++ h :: later → ¬StillOpen h later) →
      DelimiterFault query ⟨query, g.position, .unmatchedOpening⟩

theorem Cursor.glyphs_eq_append_cons {k : Cursor} {s : List Char} {before after : List Glyph}
    {g : Glyph} (h : k.glyphs s = before ++ g :: after) :
    ∃ front rest, s = front ++ g.char :: rest ∧ before = k.glyphs front ∧
      g = (k.after front).glyph g.char ∧ after = ((k.after front).next g.char).glyphs rest := by
  obtain ⟨hfront, hback, hs⟩ := glyphs_eq_append h
  rw [List.map_cons, glyphs] at hback
  obtain ⟨hg, hafter⟩ := List.cons.inj hback
  exact ⟨_, _, hs, hfront, hg, hafter⟩

theorem Cursor.start_position_after (s : List Char) :
    (Cursor.start.after s).position = Text.byteLength s :=
  (position_after start s).trans (Nat.zero_add _)

theorem onBoundary_of_glyph {query : List Char} {before after : List Glyph} {g : Glyph}
    (h : Cursor.start.glyphs query = before ++ g :: after) : OnBoundary query g.position := by
  obtain ⟨front, rest, hquery, -, hg, -⟩ := Cursor.glyphs_eq_append_cons h
  have hposition : g.position = (Cursor.start.after front).position := congrArg Glyph.position hg
  exact ⟨front, g.char :: rest, hquery, hposition.trans (Cursor.start_position_after front)⟩

theorem DelimiterFault.onBoundary {query : List Char} {e : SyntaxError}
    (h : DelimiterFault query e) : OnBoundary query e.position := by
  cases h with
  | unmatchedClosing hquery _ _ _ => exact onBoundary_of_glyph hquery
  | nestingTooDeep hquery _ _ _ => exact onBoundary_of_glyph hquery
  | unterminatedQuote _ _ => exact ⟨query, [], (List.append_nil query).symm, rfl⟩
  | unmatchedOpening _ _ hquery _ _ => exact onBoundary_of_glyph hquery

theorem depth_after_le {k : Cursor} {s : List Char} {d : Nat} (hw : ∀ g ∈ k.glyphs s, g.Within d)
    (hk : k.depth ≤ maxNesting) : (k.after s).depth ≤ maxNesting := by
  induction s generalizing k with
  | nil => exact hk
  | cons c rest ih =>
    obtain ⟨hc, hrest⟩ := List.forall_mem_cons.mp hw
    exact ih hrest (Scan.next_depth_le hc hk)

theorem delimiterFault_of_fault {query : List Char} {position : Nat} {reason : Reason}
    (h : (Cursor.start.glyphs query).findSome? (fun g => (fault? g).map (g.position, ·)) =
      some (position, reason)) : DelimiterFault query ⟨query, position, reason⟩ := by
  obtain ⟨before, g, after, hquery, hg, hbefore⟩ := List.findSome?_eq_some_iff.mp h
  have hwithin : ∀ h ∈ before, h.Within 0 := by
    intro h hh
    have hnone := hbefore h hh
    rw [Option.map_eq_none_iff] at hnone
    exact fault?_eq_none.mp hnone
  obtain ⟨r, hfault, hr⟩ := Option.map_eq_some_iff.mp hg
  obtain ⟨rfl, rfl⟩ := Prod.mk.inj hr
  rw [fault?] at hfault
  split at hfault
  · rename_i hclosing
    obtain rfl := Option.some.inj hfault
    rw [Bool.and_eq_true, beq_iff_eq] at hclosing
    exact .unmatchedClosing hquery hwithin hclosing.1 hclosing.2
  · split at hfault
    · rename_i hopening
      obtain rfl := Option.some.inj hfault
      rw [Bool.and_eq_true, decide_eq_true_iff] at hopening
      have hdepth : g.depth ≤ maxNesting := by
        obtain ⟨front, rest, -, rfl, hg, -⟩ := Cursor.glyphs_eq_append_cons hquery
        rw [hg]
        exact depth_after_le hwithin (Nat.zero_le _)
      exact .nestingTooDeep hquery hwithin hopening.1 (Nat.le_antisymm hdepth hopening.2)
    · cases hfault

/-- If a text ends deeper than it began, the last parenthesis that was opened at a depth between is
still open. -/
theorem exists_stillOpen {d : Nat} {k : Cursor} (hk : k.depth ≤ d) (s : List Char)
    (hs : d < (k.after s).depth) : ∃ before g after, k.glyphs s = before ++ g :: after ∧
      g.depth = d ∧ StillOpen g after ∧ lastOpening? d (k.glyphs s) = some g.position := by
  -- By induction from the end: either the last character opens the parenthesis, or it was open
  -- before, and then the last character does not close it.
  induction s using List.reverseRecOn with
  | nil => exact absurd hs (Nat.not_lt.mpr hk)
  | append_singleton s c ih =>
    have hsplit : k.glyphs (s ++ [c]) = k.glyphs s ++ [(k.after s).glyph c] := by
      rw [Cursor.glyphs_append, Cursor.glyphs, Cursor.glyphs]
    have hnext : (k.after (s ++ [c])).depth = ((k.after s).next c).depth := by
      rw [Cursor.after_append]
      rfl
    rw [hnext, Cursor.next_depth_of_mark] at hs
    rw [hsplit, lastOpening?_append]
    have hdepth : ((k.after s).glyph c).depth = (k.after s).depth := rfl
    by_cases hd : d < (k.after s).depth
    · obtain ⟨before, g, after, hglyphs, hg, ⟨hopening, hlater⟩, hlast⟩ := ih hd
      have hclose : ((k.after s).glyph c).closes (g.depth + 1) = false := by
        rw [Glyph.closes, Bool.and_eq_false_iff, beq_eq_false_iff_ne, hdepth, hg]
        by_cases hclosing : ((k.after s).glyph c).isClosing = true
        · rw [Cursor.isClosing_glyph.mp hclosing] at hs
          exact .inr (by simp only at hs; omega)
        · exact .inl (Bool.not_eq_true _ ▸ hclosing)
      have hno : (((k.after s).glyph c).isOpening && ((k.after s).glyph c).depth == d) = false := by
        rw [Bool.and_eq_false_iff, beq_eq_false_iff_ne, hdepth]
        exact .inr (by omega)
      refine ⟨before, g, after ++ [(k.after s).glyph c], ?_, hg, ⟨hopening, ?_⟩, ?_⟩
      · rw [hglyphs, List.append_assoc, List.cons_append]
      · exact List.forall_mem_append.mpr ⟨hlater, List.forall_mem_singleton.mpr hclose⟩
      · rw [hno]
        exact hlast
    · have hmark : (k.after s).mark c = .opening ∧ (k.after s).depth = d := by
        cases hm : (k.after s).mark c <;> rw [hm] at hs <;> simp only at hs
        · omega
        · exact ⟨rfl, by omega⟩
        · omega
        · omega
      have hopening : ((k.after s).glyph c).isOpening = true := Cursor.isOpening_glyph.mpr hmark.1
      refine ⟨k.glyphs s, (k.after s).glyph c, [], rfl, hmark.2, ⟨hopening, ?_⟩, ?_⟩
      · exact List.forall_mem_nil _
      · rw [hopening, hdepth, hmark.2]
        simp

theorem next_depth_of_opening {k : Cursor} {c : Char} (h : (k.glyph c).isOpening = true) :
    (k.next c).depth = k.depth + 1 := by
  rw [Cursor.next_depth_of_mark, Cursor.isOpening_glyph.mp h]

/-- What follows a parenthesis that is still open stands deeper. -/
theorem StillOpen.deeper {k : Cursor} {c : Char} {s : List Char}
    (hopen : StillOpen (k.glyph c) ((k.next c).glyphs s)) {mid later : List Glyph} {h : Glyph}
    (hs : (k.next c).glyphs s = mid ++ h :: later) : k.depth < h.depth := by
  obtain ⟨front, rest, -, rfl, hh, -⟩ := Cursor.glyphs_eq_append_cons hs
  by_contra hle
  have hend : ((k.next c).after front).depth < k.depth + 1 := by
    have hdepth : h.depth = ((k.next c).after front).depth := congrArg Glyph.depth hh
    omega
  have hbegin := Nat.le_of_eq (next_depth_of_opening hopen.1).symm
  obtain ⟨g, hg, hcloses⟩ := Cursor.exists_closes hbegin hend
  have hmem : g ∈ (k.next c).glyphs s := by
    rw [hs]
    exact List.mem_append_left _ hg
  have hno : g.closes (k.depth + 1) = false := hopen.2 g hmem
  rw [hno] at hcloses
  cases hcloses

/-- If a text ends one level below an open parenthesis, that is the innermost one. -/
theorem StillOpen.innermost {k : Cursor} {c : Char} {s : List Char}
    (hopen : StillOpen (k.glyph c) ((k.next c).glyphs s))
    (hend : ((k.next c).after s).depth = k.depth + 1) (mid : List Glyph) (h : Glyph)
    (later : List Glyph) (hs : (k.next c).glyphs s = mid ++ h :: later) : ¬StillOpen h later := by
  rintro ⟨hopening, hlater⟩
  have hdeeper := hopen.deeper hs
  obtain ⟨front, rest, rfl, -, hh, rfl⟩ := Cursor.glyphs_eq_append_cons hs
  generalize hk' : (k.next c).after front = k' at hh hlater
  have hdepth : h.depth = k'.depth := congrArg Glyph.depth hh
  have hbegin : h.depth + 1 ≤ (k'.next h.char).depth := by
    rw [hh] at hopening
    rw [next_depth_of_opening hopening, hdepth]
  have hlast : ((k'.next h.char).after rest).depth < h.depth + 1 := by
    have hsame : (k.next c).after (front ++ h.char :: rest) = (k'.next h.char).after rest := by
      rw [Cursor.after_append, hk', Cursor.after_cons]
    rw [← hsame, hend]
    omega
  obtain ⟨g, hg, hcloses⟩ := Cursor.exists_closes hbegin hlast
  rw [hlater g hg] at hcloses
  cases hcloses

theorem delimiterFault_of_open {query : List Char}
    (hwithin : ∀ g ∈ Cursor.start.glyphs query, g.Within 0)
    (hquote : (Cursor.start.after query).quote = none)
    (hdepth : (Cursor.start.after query).depth ≠ 0) :
    let position := lastOpening? ((Cursor.start.after query).depth - 1) (Cursor.start.glyphs query)
    DelimiterFault query ⟨query, position.getD 0, .unmatchedOpening⟩ := by
  intro position
  obtain ⟨before, g, after, hquery, hg, hopen, hlast⟩ :=
    exists_stillOpen (k := Cursor.start) (Nat.zero_le _) query (Nat.sub_one_lt hdepth)
  have hposition : position.getD 0 = g.position := by
    rw [show position = some g.position from hlast, Option.getD_some]
  rw [hposition]
  obtain ⟨front, rest, hs, rfl, hglyph, rfl⟩ := Cursor.glyphs_eq_append_cons hquery
  rw [hglyph] at hopen hg
  refine .unmatchedOpening hwithin hquote hquery (hglyph.symm ▸ hopen) (hopen.innermost ?_)
  have hend : Cursor.start.after query =
      ((Cursor.start.after front).next g.char).after rest := by
    conv => lhs; rw [hs, Cursor.after_append, Cursor.after_cons]
  have hlevel : (Cursor.start.after front).depth = (Cursor.start.after query).depth - 1 := hg
  rw [← hend, hlevel]
  omega

theorem delimiterFault_of_scan {query : List Char} {e : SyntaxError}
    (h : Reference.scan query = .error e) : DelimiterFault query e := by
  simp only [Reference.scan] at h
  split at h
  · rename_i position reason hfault
    cases h
    exact delimiterFault_of_fault hfault
  · rename_i hfault
    have hwithin := findSome?_fault_eq_none.mp hfault
    split at h
    · rename_i hquote
      cases h
      rw [Cursor.start_position_after]
      exact .unterminatedQuote hwithin (Option.isSome_iff_ne_none.mp hquote)
    · rename_i hquote
      split at h
      · cases h
      · rename_i hdepth
        cases h
        exact delimiterFault_of_open hwithin (Option.not_isSome_iff_eq_none.mp hquote) hdepth

end Inventory.QueryText
