import Inventory.QueryText.Scan

/-! One pass over a query, which marks every character with its position, whether it stands in a
quoted run, and how many parentheses are open before it. A quoted run opens outside quotes, at the
start of the query or after a blank, `=`, `(` or `,`, and ends with the next quote of its kind. -/

namespace Inventory.QueryText

structure Glyph where
  char : Char
  position : Nat
  quoted : Bool
  depth : Nat

namespace Glyph

def isBlank (g : Glyph) : Bool := Text.isBlank g.char

def isOpening (g : Glyph) : Bool := !g.quoted && g.char == '('

def isClosing (g : Glyph) : Bool := !g.quoted && g.char == ')'

def closes (depth : Nat) (g : Glyph) : Bool := g.isClosing && g.depth == depth

/-- Cuts a text at a depth, where its character is one of those wanted and stands outside quotes. -/
def separates (wanted : Char → Bool) (depth : Nat) (g : Glyph) : Bool :=
  !g.quoted && g.depth == depth && wanted g.char

end Glyph

/-- Where the pass stands: the position, the number of open parentheses, the open quote, and the
character before. -/
structure Cursor where
  position : Nat
  depth : Nat
  quote : Option Char
  previous : Option Char

namespace Cursor

def start : Cursor := ⟨0, 0, none, none⟩

def mayQuote (k : Cursor) : Bool :=
  match k.previous with
  | none => true
  | some p => Text.isBlank p || p == '=' || p == '(' || p == ','

/-- The quotes around a run belong to it. -/
def quoted (k : Cursor) (c : Char) : Bool := k.quote.isSome || (Scan.isQuote c && k.mayQuote)

def glyph (k : Cursor) (c : Char) : Glyph := ⟨c, k.position, k.quoted c, k.depth⟩

def next (k : Cursor) (c : Char) : Cursor where
  position := k.position + c.utf8Size
  depth :=
    if k.quoted c then k.depth
    else if c = '(' then k.depth + 1
    else if c = ')' then k.depth - 1
    else k.depth
  quote :=
    match k.quote with
    | some q => if c = q then none else some q
    | none => if k.quoted c then some c else none
  previous := some c

def glyphs (k : Cursor) : List Char → List Glyph
  | [] => []
  | c :: rest => k.glyph c :: (k.next c).glyphs rest

def after (k : Cursor) (s : List Char) : Cursor := s.foldl next k

theorem after_cons (k : Cursor) (c : Char) (s : List Char) :
    k.after (c :: s) = (k.next c).after s := rfl

theorem after_append (k : Cursor) (s t : List Char) :
    k.after (s ++ t) = (k.after s).after t := List.foldl_append

theorem glyphs_append (k : Cursor) (s t : List Char) :
    k.glyphs (s ++ t) = k.glyphs s ++ (k.after s).glyphs t := by
  induction s generalizing k with
  | nil => rfl
  | cons c rest ih =>
    rw [List.cons_append, glyphs, glyphs, ih, after_cons, List.cons_append]

theorem glyphs_chars (k : Cursor) (s : List Char) : (k.glyphs s).map Glyph.char = s := by
  induction s generalizing k with
  | nil => rfl
  | cons c rest ih => rw [glyphs, List.map_cons, ih, glyph]

theorem glyphs_eq_nil {k : Cursor} {s : List Char} : k.glyphs s = [] ↔ s = [] := by
  cases s <;> simp [glyphs]

theorem position_after (k : Cursor) (s : List Char) :
    (k.after s).position = k.position + Text.byteLength s := by
  induction s generalizing k with
  | nil => rfl
  | cons c rest ih =>
    rw [after_cons, ih]
    simp only [next, Text.byteLength]
    omega

theorem glyphs_eq_append {k : Cursor} {s : List Char} {front back : List Glyph}
    (h : k.glyphs s = front ++ back) :
    front = k.glyphs (front.map Glyph.char) ∧
      back = (k.after (front.map Glyph.char)).glyphs (back.map Glyph.char) ∧
      s = front.map Glyph.char ++ back.map Glyph.char := by
  induction front generalizing k s with
  | nil =>
    rw [List.nil_append] at h
    subst h
    rw [glyphs_chars]
    exact ⟨rfl, rfl, rfl⟩
  | cons g front ih =>
    cases s with
    | nil => simp [glyphs] at h
    | cons c rest =>
      rw [glyphs, List.cons_append] at h
      obtain ⟨hg, hrest⟩ := List.cons.inj h
      obtain ⟨hfront, hback, hs⟩ := ih hrest
      subst hg
      refine ⟨?_, hback, ?_⟩
      · exact congrArg (k.glyph c :: ·) hfront
      · rw [hs]
        rfl

theorem glyphs_takeWhile (k : Cursor) (s : List Char) (p : Char → Bool) :
    (k.glyphs s).takeWhile (fun g => p g.char) = k.glyphs (s.takeWhile p) := by
  induction s generalizing k with
  | nil => rfl
  | cons c rest ih =>
    have hchar : (k.glyph c).char = c := rfl
    rw [glyphs, List.takeWhile_cons, List.takeWhile_cons, hchar]
    cases p c with
    | true => rw [if_pos rfl, if_pos rfl, ih, glyphs]
    | false => rfl

theorem glyphs_dropWhile (k : Cursor) (s : List Char) (p : Char → Bool) :
    (k.glyphs s).dropWhile (fun g => p g.char) =
      (k.after (s.takeWhile p)).glyphs (s.dropWhile p) := by
  induction s generalizing k with
  | nil => rfl
  | cons c rest ih =>
    have hchar : (k.glyph c).char = c := rfl
    rw [glyphs, List.dropWhile_cons, List.dropWhile_cons, List.takeWhile_cons, hchar]
    cases p c with
    | true => rw [if_pos rfl, if_pos rfl, if_pos rfl, ih, after_cons]
    | false => rfl

theorem quote_of_unquoted {k : Cursor} {c : Char} (h : k.quoted c = false) : k.quote = none := by
  rw [quoted, Bool.or_eq_false_iff] at h
  exact Option.not_isSome_iff_eq_none.mp (by simp [h.1])

theorem next_quote_of_unquoted {k : Cursor} {c : Char} (h : k.quoted c = false) :
    (k.next c).quote = none := by
  simp [next, quote_of_unquoted h, h]

theorem quoted_eq_false {k : Cursor} {c : Char} (hk : k.quote = none)
    (hc : Scan.isQuote c = false) : k.quoted c = false := by
  rw [quoted, hk, hc]
  rfl

/-- A character that is no parenthesis leaves the depth as it is, quoted or not. -/
theorem next_depth {k : Cursor} {c : Char} (ho : c ≠ '(') (hc : c ≠ ')') :
    (k.next c).depth = k.depth := by
  simp [next, ho, hc]

end Cursor

end Inventory.QueryText
