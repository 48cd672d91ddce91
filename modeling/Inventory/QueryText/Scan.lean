import Inventory.Text.Blank

/-! Quotes and parentheses in query text. A quote opens only at the start of the text or after a
blank, `=`, `(` or `,`, and ends at the next quote of its kind. Parentheses count outside quotes;
at most 128 are open at once. -/

namespace Inventory.QueryText

inductive Reason where
  | nestingTooDeep
  | unmatchedClosing
  | unmatchedOpening
  | unterminatedQuote
  | noAttribute
  | emptyAttribute
  | textAfterCall
deriving DecidableEq

/-- The text at fault, a byte position, and what is wrong there. -/
structure SyntaxError where
  token : List Char
  position : Nat
  reason : Reason
deriving DecidableEq

def maxNesting : Nat := 128

inductive Mark where
  | quoted
  | opening
  | closing
  | plain
deriving DecidableEq

/-- The open quote, the positions of the open parentheses, innermost first, and the character
before. -/
structure Scan where
  quote : Option Char
  opens : List Nat
  previous : Option Char

namespace Scan

def fresh : Scan := ⟨none, [], none⟩

def isQuote (c : Char) : Bool := c == '"' || c == '\''

def quoteMayStart (scan : Scan) : Bool :=
  match scan.previous with
  | none => true
  | some p => Text.isBlank p || p == '=' || p == '(' || p == ','

def step (scan : Scan) (position : Nat) (c : Char) : Except Reason (Mark × Scan) :=
  match scan.quote with
  | some q => .ok (.quoted, ⟨if c = q then none else some q, scan.opens, some c⟩)
  | none =>
    if isQuote c && scan.quoteMayStart then .ok (.quoted, ⟨some c, scan.opens, some c⟩)
    else if c = '(' then
      if scan.opens.length = maxNesting then .error .nestingTooDeep
      else .ok (.opening, ⟨none, position :: scan.opens, some c⟩)
    else if c = ')' then
      match scan.opens with
      | [] => .error .unmatchedClosing
      | _ :: opens => .ok (.closing, ⟨none, opens, some c⟩)
    else .ok (.plain, ⟨none, scan.opens, some c⟩)

/-- Nothing may be left open at the end of a text, which stands `base` bytes into the query. -/
def finish (scan : Scan) (text : List Char) (base : Nat) : Except SyntaxError Unit :=
  if scan.quote.isSome then
    .error ⟨text, base + Text.byteLength text, .unterminatedQuote⟩
  else
    match scan.opens with
    | opening :: _ => .error ⟨text, base + opening, .unmatchedOpening⟩
    | [] => .ok ()

end Scan

/-- A character, and whether it stands outside all quotes and parentheses. -/
structure Marked where
  char : Char
  outer : Bool

/-- Reads on to the end of `text`, of which `rest` stands at `position`. -/
def Scan.run (text : List Char) (base : Nat) :
    Scan → Nat → List Char → Except SyntaxError (List Marked)
  | scan, _, [] => (scan.finish text base).map fun _ => []
  | scan, position, c :: rest =>
    match scan.step position c with
    | .error reason => .error ⟨text, position, reason⟩
    | .ok (mark, next) =>
      (run text base next (position + c.utf8Size) rest).map
        (⟨c, mark = .plain ∧ next.opens = []⟩ :: ·)

def markOuter (text : List Char) (base : Nat) : Except SyntaxError (List Marked) :=
  Scan.fresh.run text base 0 text

theorem Scan.run_chars {text : List Char} {base : Nat} {scan : Scan} {position : Nat}
    {rest : List Char} {marked : List Marked} (h : scan.run text base position rest = .ok marked) :
    marked.map (·.char) = rest := by
  induction rest generalizing scan position marked with
  | nil =>
    cases hf : scan.finish text base with
    | error e => simp [run, hf, Except.map] at h
    | ok _ => simp [run, hf, Except.map] at h; simp [← h]
  | cons c rest ih =>
    cases hs : scan.step position c with
    | error reason => simp [run, hs] at h
    | ok r =>
      obtain ⟨mark, next⟩ := r
      cases hr : run text base next (position + c.utf8Size) rest with
      | error e => simp [run, hs, hr, Except.map] at h
      | ok more =>
        simp only [run, hs, hr, Except.map, Except.ok.injEq] at h
        simp [← h, ih hr]

theorem markOuter_chars {text : List Char} {base : Nat} {marked : List Marked}
    (h : markOuter text base = .ok marked) : marked.map (·.char) = text :=
  Scan.run_chars h

/-- A part of a text and the byte position at which it starts. -/
structure Piece where
  start : Nat
  text : List Char

/-- What stands before the first separator, and the pieces after each separator. -/
def cutFrom (separates : Marked → Bool) : Nat → List Marked → List Char × List Piece
  | _, [] => ([], [])
  | position, m :: rest =>
    let next := position + m.char.utf8Size
    let (front, more) := cutFrom separates next rest
    if separates m then ([], ⟨next, front⟩ :: more) else (m.char :: front, more)

/-- The pieces between separators, empty ones included. -/
def cut (separates : Marked → Bool) (marked : List Marked) : List Piece :=
  let (front, more) := cutFrom separates 0 marked
  ⟨0, front⟩ :: more

theorem cutFrom_length (separates : Marked → Bool) (position : Nat) (marked : List Marked) :
    (cutFrom separates position marked).1.length ≤ marked.length ∧
    ∀ p ∈ (cutFrom separates position marked).2, p.text.length ≤ marked.length := by
  induction marked generalizing position with
  | nil => simp [cutFrom]
  | cons m rest ih =>
    have hh := ih (position + m.char.utf8Size)
    simp only [cutFrom]
    split
    · refine ⟨by simp, fun p hp => ?_⟩
      rcases List.mem_cons.mp hp with rfl | hp
      · simp only [List.length_cons]
        exact Nat.le_succ_of_le hh.1
      · simp only [List.length_cons]
        exact Nat.le_succ_of_le (hh.2 p hp)
    · refine ⟨by simpa using hh.1, fun p hp => ?_⟩
      simp only [List.length_cons]
      exact Nat.le_succ_of_le (hh.2 p hp)

theorem cut_length {separates : Marked → Bool} {marked : List Marked} {p : Piece}
    (h : p ∈ cut separates marked) : p.text.length ≤ marked.length := by
  have hl := cutFrom_length separates 0 marked
  rcases List.mem_cons.mp h with rfl | h
  · exact hl.1
  · exact hl.2 p h

end Inventory.QueryText
