import Inventory.Proofs.QueryText.Parts

/-! The scan of the whole query. It is accepted exactly when the marking is, and otherwise fails
where the marking shows the fault. -/

namespace Inventory.QueryText

open Reference

theorem fault?_eq_none {g : Glyph} : fault? g = none ↔ g.Within 0 := by
  rw [fault?, Glyph.Within]
  by_cases hz : g.depth = 0 <;> by_cases hm : maxNesting ≤ g.depth <;>
    cases g.isClosing <;> cases g.isOpening <;> simp [hz, hm] <;> omega

theorem lastOpening?_append (depth : Nat) (gs : List Glyph) (g : Glyph) :
    lastOpening? depth (gs ++ [g]) =
      if g.isOpening && g.depth == depth then some g.position else lastOpening? depth gs := by
  rw [lastOpening?, List.reverse_append, List.reverse_singleton, List.singleton_append,
    List.find?_cons]
  cases g.isOpening && g.depth == depth with
  | true => rfl
  | false => rfl

/-- The open parentheses, innermost first, are the last opened ones at their depths. -/
def Stacked (gs : List Glyph) : List Nat → Prop
  | [] => True
  | position :: opens => lastOpening? opens.length gs = some position ∧ Stacked gs opens

theorem Stacked.append {gs : List Glyph} {opens : List Nat} (h : Stacked gs opens) {g : Glyph}
    (hg : g.isOpening = true → opens.length ≤ g.depth) : Stacked (gs ++ [g]) opens := by
  induction opens with
  | nil => trivial
  | cons position opens ih =>
    obtain ⟨hlast, hrest⟩ := h
    refine ⟨?_, ih hrest fun ho => Nat.le_of_succ_le (hg ho)⟩
    have hno : (g.isOpening && g.depth == opens.length) = false := by
      rw [Bool.and_eq_false_iff, beq_eq_false_iff_ne]
      by_cases ho : g.isOpening = true
      · have hlt := hg ho
        rw [List.length_cons] at hlt
        exact .inr (by omega)
      · exact .inl (Bool.not_eq_true _ ▸ ho)
    rw [lastOpening?_append, hno]
    exact hlast

namespace Scan

theorem Follows.stacked_advance {scan : Scan} {k : Cursor} (h : scan.Follows 0 k)
    {gs : List Glyph} (hs : Stacked gs scan.opens) (c : Char) :
    Stacked (gs ++ [k.glyph c]) (scan.advance k k.position c).opens := by
  have hdepth := h.depth
  have hle : scan.opens.length ≤ (k.glyph c).depth := Nat.le_of_eq hdepth
  rw [Scan.advance]
  cases hm : k.mark c with
  | opening =>
    refine ⟨?_, hs.append fun _ => hle⟩
    have ho : ((k.glyph c).isOpening && (k.glyph c).depth == scan.opens.length) = true := by
      rw [Bool.and_eq_true, beq_iff_eq]
      exact ⟨Cursor.isOpening_glyph.mpr hm, hdepth.symm⟩
    rw [lastOpening?_append, if_pos ho]
    rfl
  | closing =>
    cases hopens : scan.opens with
    | nil => trivial
    | cons position opens =>
      rw [hopens] at hs hle
      exact hs.2.append fun _ => Nat.le_of_succ_le hle
  | quoted => exact hs.append fun _ => hle
  | plain => exact hs.append fun _ => hle

theorem Follows.stacked_through {scan : Scan} {k : Cursor} (h : scan.Follows 0 k)
    {gs : List Glyph} (hs : Stacked gs scan.opens) {s : List Char}
    (hw : ∀ g ∈ k.glyphs s, g.Within 0) :
    Stacked (gs ++ k.glyphs s) (scan.through k k.position s).opens := by
  induction s generalizing scan k gs with
  | nil =>
    rw [Cursor.glyphs, List.append_nil]
    exact hs
  | cons c rest ih =>
    obtain ⟨hc, hrest⟩ := List.forall_mem_cons.mp hw
    have hnext := ih (h.advance hc k.position) (h.stacked_advance hs c) hrest
    rw [List.append_assoc] at hnext
    exact hnext

theorem next_depth_le {d : Nat} {k : Cursor} {c : Char} (hc : (k.glyph c).Within d)
    (hk : k.depth ≤ maxNesting) : (k.next c).depth ≤ maxNesting := by
  rw [k.next_depth_of_mark]
  cases hm : k.mark c with
  | opening => exact hc.1 (Cursor.isOpening_glyph.mpr hm)
  | closing => exact Nat.le_trans (Nat.sub_le _ _) hk
  | quoted => exact hk
  | plain => exact hk

theorem Follows.step_fault {scan : Scan} {k : Cursor} (h : scan.Follows 0 k)
    (hk : k.depth ≤ maxNesting) {c : Char} {reason : Reason}
    (hc : fault? (k.glyph c) = some reason) (position : Nat) :
    scan.step position c = .error reason := by
  have hdepth := h.depth
  rw [Nat.add_zero] at hdepth
  rw [fault?] at hc
  split at hc
  · rename_i hclosing
    cases hc
    simp only [Glyph.isClosing, Cursor.glyph, Bool.and_eq_true, Bool.not_eq_true', beq_iff_eq]
      at hclosing
    obtain ⟨⟨hquoted, rfl⟩, hz⟩ := hclosing
    have hopens : scan.opens = [] := List.length_eq_zero_iff.mp (hdepth.trans hz)
    rw [Scan.step, h.quote, Cursor.quote_of_unquoted hquoted, hopens]
    rfl
  · split at hc
    · rename_i hopening
      cases hc
      simp only [Glyph.isOpening, Cursor.glyph, Bool.and_eq_true, Bool.not_eq_true', beq_iff_eq]
        at hopening
      obtain ⟨⟨hquoted, rfl⟩, hm⟩ := hopening
      have hopens : scan.opens.length = maxNesting :=
        hdepth.trans (Nat.le_antisymm hk (of_decide_eq_true hm))
      rw [Scan.step, h.quote, Cursor.quote_of_unquoted hquoted]
      simp [hopens, isQuote]
    · cases hc

theorem Follows.run_fault {scan : Scan} {k : Cursor} (h : scan.Follows 0 k)
    (hk : k.depth ≤ maxNesting) {s : List Char} {position : Nat} {reason : Reason}
    (hs : (k.glyphs s).findSome? (fun g => (fault? g).map (g.position, ·)) =
      some (position, reason)) (text : List Char) (base : Nat) :
    Scan.run text base scan k.position s = .error ⟨text, position, reason⟩ := by
  induction s generalizing scan k with
  | nil => cases hs
  | cons c rest ih =>
    rw [Cursor.glyphs, List.findSome?_cons] at hs
    cases hc : fault? (k.glyph c) with
    | some r =>
      rw [hc] at hs
      cases hs
      rw [Scan.run, h.step_fault hk hc]
      rfl
    | none =>
      rw [hc] at hs
      have hwithin := fault?_eq_none.mp hc
      have hrest := ih (h.advance hwithin k.position) (next_depth_le hwithin hk) hs
      rw [Scan.run, h.step hwithin]
      simp only
      rw [show k.position + c.utf8Size = (k.next c).position from rfl, hrest]
      rfl

end Scan

theorem findSome?_fault_eq_none {gs : List Glyph} :
    gs.findSome? (fun g => (fault? g).map (g.position, ·)) = none ↔ ∀ g ∈ gs, g.Within 0 := by
  simp only [List.findSome?_eq_none_iff, Option.map_eq_none_iff, fault?_eq_none]

theorem follows_start : Scan.fresh.Follows 0 Cursor.start :=
  Scan.Follows.fresh (k := Cursor.start) rfl rfl

theorem scan_eq_ok {query : List Char} {gs : List Glyph} :
    scan query = .ok gs ↔ gs = Cursor.start.glyphs query ∧ Cursor.start.Balanced query := by
  constructor
  · intro h
    simp only [scan] at h
    split at h
    · cases h
    · rename_i hfault
      split at h
      · cases h
      · rename_i hquote
        split at h
        · rename_i hdepth
          cases h
          exact ⟨rfl, ⟨findSome?_fault_eq_none.mp hfault, hdepth,
            Option.not_isSome_iff_eq_none.mp hquote⟩, rfl⟩
        · cases h
  · rintro ⟨rfl, h⟩
    have hdepth : (Cursor.start.after query).depth = 0 := h.depth
    simp only [scan, findSome?_fault_eq_none.mpr h.within, h.quote, hdepth]
    rfl

/-- Without a fault the scan reaches the end of the query, and ends there as the marking does. -/
theorem finish_query {query : List Char} (hw : ∀ g ∈ Cursor.start.glyphs query, g.Within 0) :
    ((Scan.fresh.through Cursor.start 0 query).finish query 0).map
      (fun _ => Cursor.start.glyphs query) = scan query := by
  have hend := follows_start.through hw 0
  have hlength := hend.depth
  have hstack : Stacked ([] ++ Cursor.start.glyphs query)
      (Scan.fresh.through Cursor.start 0 query).opens :=
    follows_start.stacked_through trivial hw
  rw [List.nil_append] at hstack
  simp only [scan, findSome?_fault_eq_none.mpr hw, Scan.finish, hend.quote]
  by_cases hquote : (Cursor.start.after query).quote.isSome = true
  · rw [if_pos hquote, if_pos hquote, Cursor.position_after]
    rfl
  · rw [if_neg hquote, if_neg hquote]
    cases hopens : (Scan.fresh.through Cursor.start 0 query).opens with
    | nil =>
      have hclosed : (Cursor.start.after query).depth = 0 := by
        rw [← hlength, hopens, List.length_nil]
      rw [if_pos hclosed]
      rfl
    | cons position opens =>
      rw [hopens, List.length_cons, Nat.add_zero] at hlength
      rw [hopens] at hstack
      have hopen : (Cursor.start.after query).depth ≠ 0 := by omega
      have hlast : (Cursor.start.after query).depth - 1 = opens.length := by omega
      rw [if_neg hopen, hlast, hstack.1]
      simp only [Option.getD_some, Nat.zero_add]
      rfl

theorem markOuter_query (query : List Char) :
    markOuter query 0 = (scan query).map (List.map (Glyph.marked 0)) := by
  cases hfault : (Cursor.start.glyphs query).findSome?
      fun g => (fault? g).map (g.position, ·) with
  | some fault =>
    obtain ⟨position, reason⟩ := fault
    simp only [scan, hfault]
    exact follows_start.run_fault (Nat.zero_le _) hfault query 0
  | none =>
    have hwithin := findSome?_fault_eq_none.mp hfault
    rw [markOuter, follows_start.run hwithin, ← finish_query hwithin]
    cases (Scan.fresh.through Cursor.start 0 query).finish query 0 with
    | error e => rfl
    | ok u => rfl

theorem exists_scan_eq_ok {query : List Char} :
    (∃ gs, scan query = .ok gs) ↔
      (∀ g ∈ Cursor.start.glyphs query,
        (g.isClosing = true → 0 < g.depth) ∧ (g.isOpening = true → g.depth < maxNesting)) ∧
      (Cursor.start.after query).depth = 0 ∧ (Cursor.start.after query).quote = none := by
  constructor
  · rintro ⟨gs, hscan⟩
    obtain ⟨-, hbalanced⟩ := scan_eq_ok.mp hscan
    exact ⟨fun g hg => And.symm (hbalanced.within g hg), hbalanced.depth, hbalanced.quote⟩
  · rintro ⟨hwithin, hdepth, hquote⟩
    exact ⟨_, scan_eq_ok.mpr
      ⟨rfl, ⟨fun g hg => And.symm (hwithin g hg), hdepth, hquote⟩, rfl⟩⟩

end Inventory.QueryText
