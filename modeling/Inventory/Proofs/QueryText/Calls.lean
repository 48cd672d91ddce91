import Inventory.Proofs.QueryText.Parts

/-! Calls and their arguments. A text that is scanned on its own spells the call that its marks
spell, and the scan of its arguments cuts them at the same commas. -/

namespace Inventory.QueryText

theorem Cursor.level {k : Cursor} {s : List Char} (hq : k.quote = none)
    (hw : ∀ g ∈ k.glyphs s, g.Within k.depth) (hs : ∀ c ∈ s, c ≠ '(' ∧ Scan.isQuote c = false) :
    (k.after s).quote = none ∧ (k.after s).depth = k.depth ∧
      ∀ g ∈ k.glyphs s, g.quoted = false ∧ g.depth = k.depth := by
  induction s generalizing k with
  | nil => exact ⟨hq, rfl, List.forall_mem_nil _⟩
  | cons c rest ih =>
    obtain ⟨hg, hrest⟩ := List.forall_mem_cons.mp hw
    obtain ⟨⟨hopen, hquote⟩, hplain⟩ := List.forall_mem_cons.mp hs
    have hquoted : k.quoted c = false := quoted_eq_false hq hquote
    have hclose : c ≠ ')' := by
      rintro rfl
      have hlt : k.depth < k.depth := hg.2 (by simp [Glyph.isClosing, glyph, hquoted])
      omega
    have hdepth : (k.next c).depth = k.depth := next_depth hopen hclose
    obtain ⟨hafter, hlast, hall⟩ :=
      ih (next_quote_of_unquoted hquoted) (hdepth.symm ▸ hrest) hplain
    rw [hdepth] at hlast hall
    exact ⟨hafter, hlast, List.forall_mem_cons.mpr ⟨⟨hquoted, rfl⟩, hall⟩⟩

theorem plain_of_isIdentifier {name : List Char} (h : isIdentifier name = true) :
    ∀ c ∈ name, c ≠ '(' ∧ Scan.isQuote c = false := by
  have hall : ∀ c ∈ name, (isNameStart c || Text.isDigit c) = true := by
    cases name with
    | nil => exact List.forall_mem_nil _
    | cons c rest =>
      rw [isIdentifier, Bool.and_eq_true, List.all_eq_true] at h
      exact List.forall_mem_cons.mpr ⟨by rw [h.1]; rfl, h.2⟩
  intro c hc
  have hname := hall c hc
  refine ⟨?_, ?_⟩
  · rintro rfl
    cases hname
  · rw [← Bool.not_eq_true, Scan.isQuote, Bool.or_eq_true, beq_iff_eq, beq_iff_eq]
    rintro (rfl | rfl)
    · cases hname
    · cases hname

theorem Cursor.exists_closes {d : Nat} {k : Cursor} {s : List Char} (hk : d ≤ k.depth)
    (hs : (k.after s).depth < d) : ∃ g ∈ k.glyphs s, g.closes d = true := by
  induction s generalizing k with
  | nil => exact absurd hs (Nat.not_lt.mpr hk)
  | cons c rest ih =>
    by_cases hn : d ≤ (k.next c).depth
    · obtain ⟨g, hg, hcloses⟩ := ih hn hs
      exact ⟨g, List.mem_cons_of_mem _ hg, hcloses⟩
    · refine ⟨k.glyph c, List.mem_cons_self, ?_⟩
      have hdepth := k.next_depth_of_mark c
      cases hm : k.mark c with
      | closing =>
        rw [hm] at hdepth
        simp only at hdepth
        have heq : (k.glyph c).depth = d := show k.depth = d by omega
        rw [Glyph.closes, Cursor.isClosing_glyph.mpr hm, heq, beq_self_eq_true]
        rfl
      | opening =>
        rw [hm] at hdepth
        simp only at hdepth
        omega
      | quoted =>
        rw [hm] at hdepth
        exact absurd (hdepth ▸ hk) hn
      | plain =>
        rw [hm] at hdepth
        exact absurd (hdepth ▸ hk) hn

theorem Reference.splitAtClosing?_eq_some {d : Nat} {gs inside rest : List Glyph}
    (h : splitAtClosing? d gs = some (inside, rest)) :
    ∃ g, gs = inside ++ g :: rest ∧ g.closes d = true ∧ ∀ g ∈ inside, g.closes d = false := by
  induction gs generalizing inside with
  | nil => cases h
  | cons g gs ih =>
    rw [splitAtClosing?_cons] at h
    cases hg : g.closes d with
    | true =>
      rw [hg] at h
      cases h
      exact ⟨g, rfl, hg, List.forall_mem_nil _⟩
    | false =>
      rw [hg] at h
      obtain ⟨⟨front, back⟩, hparts, heq⟩ := Option.map_eq_some_iff.mp h
      cases heq
      obtain ⟨close, hgs, hclose, hall⟩ := ih hparts
      exact ⟨close, congrArg (g :: ·) hgs, hclose, List.forall_mem_cons.mpr ⟨hg, hall⟩⟩

theorem Reference.splitAtClosing?_eq_none {d : Nat} {gs : List Glyph} :
    splitAtClosing? d gs = none ↔ ∀ g ∈ gs, g.closes d = false := by
  induction gs with
  | nil => exact ⟨fun _ => List.forall_mem_nil _, fun _ => rfl⟩
  | cons g gs ih =>
    rw [splitAtClosing?_cons, List.forall_mem_cons, ← ih]
    cases hg : g.closes d with
    | true => simp
    | false => simp

/-- Where the text after a name and its parenthesis begins. -/
def Cursor.opened (k : Cursor) (name : List Char) : Cursor := (k.after name).next '('

theorem Cursor.opened_position (k : Cursor) (name : List Char) :
    (k.opened name).position = k.position + (Text.byteLength name + 1) := by
  rw [opened, next, position_after, Nat.add_assoc]
  rfl

theorem Cursor.closed_position (k : Cursor) (name inside : List Char) :
    (((k.opened name).after inside).next ')').position =
      k.position + Text.byteLength name + 1 + Text.byteLength inside + 1 := by
  rw [next, position_after, opened_position, ← Nat.add_assoc k.position]
  rfl

theorem Cursor.opened_down {k : Cursor} {name : List Char} (hquote : (k.after name).quote = none)
    (hdepth : (k.after name).depth = k.depth) :
    (k.opened name).depth = k.depth + 1 ∧ (k.opened name).quote = none := by
  have hquoted : (k.after name).quoted '(' = false := quoted_eq_false hquote rfl
  refine ⟨?_, next_quote_of_unquoted hquoted⟩
  rw [opened, next_depth_of_mark, mark, hquoted, hdepth]
  rfl

theorem Cursor.Balanced.opened {k : Cursor} {name body : List Char}
    (h : k.Balanced (name ++ '(' :: body)) (hname : isIdentifier name = true) :
    (k.after name).depth = k.depth ∧ (k.opened name).depth = k.depth + 1 ∧
      (k.opened name).quote = none ∧ (k.opened name).Returns k.depth body := by
  obtain ⟨hwithin, hrest⟩ := Cursor.Returns.append.mp h.toReturns
  obtain ⟨hquote, hdepth, -⟩ := Cursor.level h.outside hwithin (plain_of_isIdentifier hname)
  obtain ⟨hdown, hnext⟩ := opened_down hquote hdepth
  exact ⟨hdepth, hdown, hnext, (Cursor.Returns.cons.mp hrest).2⟩

theorem Cursor.Returns.inside {d : Nat} {k : Cursor} {inside rest : List Char}
    (h : k.Returns d (inside ++ ')' :: rest)) (hquote : k.quote = none) (hk : k.depth = d + 1)
    (hclose : ((k.after inside).glyph ')').closes (d + 1) = true)
    (hopen : ∀ g ∈ k.glyphs inside, g.closes (d + 1) = false) : k.Balanced inside := by
  obtain ⟨hwithin, -⟩ := Cursor.Returns.append.mp h
  rw [Glyph.closes, Bool.and_eq_true, beq_iff_eq] at hclose
  obtain ⟨hclosing, hdepth⟩ := hclose
  have hquoted : (k.after inside).quoted ')' = false := by
    rw [Glyph.isClosing, Bool.and_eq_true, Bool.not_eq_true'] at hclosing
    exact hclosing.1
  refine ⟨⟨?_, ?_, quote_of_unquoted hquoted⟩, hquote⟩
  · intro g hg
    obtain ⟨hlevel, hfloor⟩ := hwithin g hg
    refine ⟨hlevel, fun hc => ?_⟩
    have hne : g.depth ≠ d + 1 := by
      intro heq
      have hno := hopen g hg
      rw [Glyph.closes, hc, heq, beq_self_eq_true] at hno
      cases hno
    have hlt := hfloor hc
    omega
  · rw [hk]
    exact hdepth

theorem Cursor.splitAtClosing_glyphs {d : Nat} {k : Cursor} {s : List Char}
    {inside rest : List Glyph}
    (h : Reference.splitAtClosing? d (k.glyphs s) = some (inside, rest)) :
    ∃ front back, s = front ++ ')' :: back ∧ inside = k.glyphs front ∧
      rest = ((k.after front).next ')').glyphs back ∧
      ((k.after front).glyph ')').closes d = true ∧ ∀ g ∈ k.glyphs front, g.closes d = false := by
  obtain ⟨g, hgs, hclose, hall⟩ := Reference.splitAtClosing?_eq_some h
  obtain ⟨hinside, hback, hs⟩ := glyphs_eq_append hgs
  have hchar : g.char = ')' := by
    simp only [Glyph.closes, Glyph.isClosing, Bool.and_eq_true, beq_iff_eq] at hclose
    exact hclose.1.2
  rw [List.map_cons, hchar] at hback hs
  obtain ⟨hg, hrest⟩ := List.cons.inj hback
  exact ⟨inside.map Glyph.char, rest.map Glyph.char, hs, hinside, hrest, hg ▸ hclose,
    hinside ▸ hall⟩

/-- Read from `k` on, the parenthesis after the name is closed by the one after the text inside. -/
structure Cursor.Encloses (k : Cursor) (name inside : List Char) : Prop where
  opening : ((k.after name).glyph '(').isOpening = true
  inner : ∀ g ∈ (k.opened name).glyphs inside, g.closes ((k.after name).depth + 1) = false
  closing : (((k.opened name).after inside).glyph ')').closes ((k.after name).depth + 1) = true

/-- The parenthesis after a name is closed in a balanced text, and the scan from it on finds the same
place for that as the marks. -/
theorem Cursor.Balanced.closed {k : Cursor} {name body : List Char}
    (h : k.Balanced (name ++ '(' :: body)) (hname : isIdentifier name = true) :
    ∃ front back, body = front ++ ')' :: back ∧ (k.opened name).Balanced front ∧
      k.Encloses name front ∧
      Reference.splitAtClosing? (k.depth + 1) ((k.opened name).glyphs body) =
        some ((k.opened name).glyphs front,
          (((k.opened name).after front).next ')').glyphs back) ∧
      closing ⟨none, [Text.byteLength name], some '('⟩ (Text.byteLength name + 1) body =
        .ok (some (front, back)) := by
  obtain ⟨hdepth, hnext, hquote, hreturns⟩ := h.opened hname
  have hopening : ((k.after name).glyph '(').isOpening = true := by
    have hwithin := (Cursor.Returns.append.mp h.toReturns).1
    have hlevel := (Cursor.level h.outside hwithin (plain_of_isIdentifier hname)).1
    have hquoted : (k.after name).quoted '(' = false := Cursor.quoted_eq_false hlevel rfl
    simp [Glyph.isOpening, Cursor.glyph, hquoted]
  have hfollows : Scan.Follows k.depth ⟨none, [Text.byteLength name], some '('⟩
      (k.opened name) :=
    ⟨hquote.symm, by rw [hnext, List.length_singleton, Nat.add_comm], rfl⟩
  have hclosing := hfollows.closing hreturns.within (Text.byteLength name + 1)
  cases hparts : Reference.splitAtClosing? (k.depth + 1) ((k.opened name).glyphs body) with
  | none =>
    have hend : ((k.opened name).after body).depth < k.depth + 1 := by
      rw [hreturns.depth]
      exact Nat.lt_succ_self _
    obtain ⟨g, hg, hcloses⟩ := Cursor.exists_closes (Nat.le_of_eq hnext.symm) hend
    rw [Reference.splitAtClosing?_eq_none.mp hparts g hg] at hcloses
    cases hcloses
  | some parts =>
    obtain ⟨inside, rest⟩ := parts
    obtain ⟨front, back, rfl, rfl, rfl, hclose, hall⟩ := Cursor.splitAtClosing_glyphs hparts
    have hencloses : k.Encloses name front :=
      ⟨hopening, by rwa [hdepth], by rwa [hdepth]⟩
    refine ⟨front, back, rfl, hreturns.inside hquote hnext hclose hall, hencloses, rfl, ?_⟩
    rw [hclosing, hparts]
    simp only [Option.map_some, Cursor.glyphs_chars]

/-- What a text that begins at `k` gives for a call when it is scanned on its own, beside what its
marks give. Only text after the call is an error. -/
inductive CallsAgree (k : Cursor) : List Char → Except SyntaxError (Option Call) →
    Except SyntaxError (Option Reference.Call) → Prop
  | error (name inside : List Char) (c : Char) (rest : List Char)
      (named : isIdentifier name = true) (encloses : k.Encloses name inside) {e : SyntaxError}
      (fault : e = ⟨name ++ '(' :: (inside ++ ')' :: c :: rest),
        k.position + Text.byteLength name + 1 + Text.byteLength inside + 1, .textAfterCall⟩) :
      CallsAgree k (name ++ '(' :: (inside ++ ')' :: c :: rest)) (.error e) (.error e)
  | word (text : List Char) : CallsAgree k text (.ok none) (.ok none)
  | call (name inside : List Char) (balanced : (k.opened name).Balanced inside) :
      CallsAgree k (name ++ '(' :: (inside ++ [')']))
        (.ok (some ⟨name, Text.byteLength name + 1, inside⟩))
        (.ok (some ⟨name, (k.opened name).depth, (k.opened name).glyphs inside⟩))

theorem call?_agree {k : Cursor} {t : List Char} (h : k.Balanced t) :
    CallsAgree k t (call? t k.position) (Reference.call? (k.glyphs t)) := by
  have hsplit : t.takeWhile (· != '(') ++ t.dropWhile (· != '(') = t :=
    List.takeWhile_append_dropWhile
  have htake := Cursor.glyphs_takeWhile k t (· != '(')
  have hdrop := Cursor.glyphs_dropWhile k t (· != '(')
  have hhead := List.head?_dropWhile_not (· != '(') t
  simp only [call?, Reference.call?, htake, hdrop, Cursor.glyphs_chars]
  generalize t.takeWhile (· != '(') = name at *
  cases hbody : t.dropWhile (· != '(') with
  | nil => exact .word t
  | cons c body =>
    simp only [Cursor.glyphs]
    cases hname : isIdentifier name with
    | false => exact .word t
    | true =>
      rw [hbody] at hsplit hhead
      have hc : c = '(' := by simpa using hhead
      subst hc
      rw [← hsplit] at h
      obtain ⟨hdepth, hnext, -, -⟩ := h.opened hname
      obtain ⟨front, back, rfl, hbalanced, hencloses, hparts, hclosing⟩ := h.closed hname
      have hstep : Scan.fresh.step (Text.byteLength name) '(' =
          .ok (.opening, ⟨none, [Text.byteLength name], some '('⟩) := rfl
      have hopen : ((k.after name).glyph '(').depth = k.depth := hdepth
      have hopened : (k.after name).next '(' = k.opened name := rfl
      simp only [hstep, hclosing, hopen, hopened, hparts, if_true]
      cases back with
      | nil =>
        rw [← hnext, ← hsplit]
        exact .call name front hbalanced
      | cons c back =>
        have hposition : ((((k.opened name).after front).next ')').glyph c).position =
            k.position + Text.byteLength name + 1 + Text.byteLength front + 1 :=
          k.closed_position name front
        simp only [Cursor.glyphs, hposition]
        rw [← hsplit]
        exact .error name front c back hname hencloses rfl

theorem arguments_agree {k : Cursor} {inside : List Char} (h : k.Balanced inside)
    (hm : k.mayQuote = true) (name : List Char) :
    ∃ pieces, arguments inside k.position = .ok pieces ∧
      List.Forall₂ (fun p gs => ∃ k', p.Reads (· == ',') k.position k.depth gs k' ∧
          k.Reaches inside k' p.text) pieces
        (Reference.Call.arguments ⟨name, k.depth, k.glyphs inside⟩) := by
  simp only [arguments, Reference.Call.arguments, Cursor.trim_glyphs]
  by_cases hblank : Text.trim inside = []
  · refine ⟨[], by rw [if_pos hblank], ?_⟩
    rw [hblank, Cursor.glyphs]
    exact .nil
  · have hno : ((k.trimmed inside).glyphs (Text.trim inside)).isEmpty = false := by
      rw [← Bool.not_eq_true, List.isEmpty_iff, Cursor.glyphs_eq_nil]
      exact hblank
    refine ⟨_, by rw [if_neg hblank, h.markOuter hm]; rfl, ?_⟩
    rw [hno, if_neg Bool.false_ne_true]
    exact h.cut_splitOnP (· == ',') rfl rfl

end Inventory.QueryText
