import Inventory.Filter
import Inventory.QueryText.Literal
import Inventory.QueryText.Scan

/-! Query text as filters: terms `attribute=expression` between blanks, where an expression is a
quoted text, a call `name(expression, ...)` or a plain word. The whole text is scanned first, then
each call and each argument list on its own; every level of calls works on a shorter text. -/

namespace Inventory.QueryText

/-- Reads on to the parenthesis that closes the call whose opening one the scan has read. Gives the
text inside and the text after. -/
def closing (scan : Scan) (position : Nat) :
    List Char → Except (Nat × Reason) (Option (List Char × List Char))
  | [] => .ok none
  | c :: rest =>
    match scan.step position c with
    | .error reason => .error (position, reason)
    | .ok (mark, next) =>
      if mark = .closing ∧ next.opens = [] then .ok (some ([], rest))
      else
        (closing next (position + c.utf8Size) rest).map
          (Option.map fun (inside, after) => (c :: inside, after))

theorem closing_length {scan : Scan} {position : Nat} {s inside after : List Char}
    (h : closing scan position s = .ok (some (inside, after))) : inside.length < s.length := by
  induction s generalizing scan position inside after with
  | nil => simp [closing] at h
  | cons c rest ih =>
    cases hs : scan.step position c with
    | error reason => simp [closing, hs] at h
    | ok r =>
      obtain ⟨mark, next⟩ := r
      simp only [closing, hs] at h
      split at h
      · simp only [Except.ok.injEq, Option.some.injEq, Prod.mk.injEq] at h
        simp [← h.1]
      · cases hr : closing next (position + c.utf8Size) rest with
        | error e => simp [hr, Except.map] at h
        | ok found =>
          cases found with
          | none => simp [hr, Except.map] at h
          | some p =>
            obtain ⟨i, a⟩ := p
            simp only [hr, Except.map, Option.map_some, Except.ok.injEq, Option.some.injEq,
              Prod.mk.injEq] at h
            simpa [← h.1] using ih hr

/-- A call, with the byte position of its arguments in the text. -/
structure Call where
  name : List Char
  start : Nat
  arguments : List Char

/-- The call that makes up the whole text, which stands at `offset`; none if the text is a plain
word. -/
def call? (text : List Char) (offset : Nat) : Except SyntaxError (Option Call) :=
  let name := text.takeWhile (· != '(')
  let opening := Text.byteLength name
  match text.dropWhile (· != '(') with
  | [] => .ok none
  | c :: body =>
    if isIdentifier name then
      match Scan.fresh.step opening c with
      | .error reason => .error ⟨text, opening, reason⟩
      | .ok (_, scan) =>
        match closing scan (opening + 1) body with
        | .error (position, reason) => .error ⟨text, position, reason⟩
        | .ok none => .error ⟨text, offset + opening, .unmatchedOpening⟩
        | .ok (some (inside, [])) => .ok (some ⟨name, opening + 1, inside⟩)
        | .ok (some (inside, _ :: _)) =>
          .error ⟨text, offset + opening + 1 + Text.byteLength inside + 1, .textAfterCall⟩
    else .ok none

theorem call?_length {text : List Char} {offset : Nat} {call : Call}
    (h : call? text offset = .ok (some call)) : call.arguments.length < text.length := by
  have hsplit : (text.takeWhile (· != '(') ++ text.dropWhile (· != '(')).length = text.length := by
    rw [List.takeWhile_append_dropWhile]
  rw [List.length_append] at hsplit
  simp only [call?] at h
  split at h
  · simp at h
  · rename_i c body hbody
    rw [hbody, List.length_cons] at hsplit
    split at h
    · split at h
      · simp at h
      · split at h
        · simp at h
        · simp at h
        · rename_i hclose
          simp only [Except.ok.injEq, Option.some.injEq] at h
          have := closing_length hclose
          rw [← h]
          simp only
          omega
        · simp at h
    · simp at h

/-- The arguments of a call, cut at its commas; none if only blanks stand there. -/
def arguments (s : List Char) (offset : Nat) : Except SyntaxError (List Piece) :=
  if Text.trim s = [] then .ok []
  else
    (markOuter s offset).map fun marked => cut (fun m => m.outer && m.char == ',') marked

theorem arguments_length {s : List Char} {offset : Nat} {pieces : List Piece}
    (h : arguments s offset = .ok pieces) : ∀ p ∈ pieces, p.text.length ≤ s.length := by
  intro p hp
  simp only [arguments] at h
  split at h
  · simp only [Except.ok.injEq] at h
    simp [← h] at hp
  · cases hm : markOuter s offset with
    | error e => simp [hm, Except.map] at h
    | ok marked =>
      simp only [hm, Except.map, Except.ok.injEq] at h
      rw [← h] at hp
      have hl := cut_length hp
      rwa [← List.length_map Marked.char, markOuter_chars hm] at hl

/-- One operand stands for itself, except for an operation that always takes a list. -/
def operandOf (op : Operation) (operands : List Operand) : Operand :=
  if op.isVariadic then .list operands
  else
    match operands with
    | [] => .absent
    | [x] => x
    | xs => .list xs

theorem trimStart_length (s : List Char) : (Text.trimStart s).length ≤ s.length :=
  (List.dropWhile_sublist _).length_le

theorem trim_length (s : List Char) : (Text.trim s).length ≤ s.length := by
  simp only [Text.trim, Text.trimEnd, List.length_reverse]
  exact Nat.le_trans (List.dropWhile_sublist _).length_le
    (by simpa using trimStart_length s)

mutual

/-- The condition that an expression spells, which stands at `offset` with blanks around it. -/
def expression (raw : List Char) (offset : Nat) : Except SyntaxError Condition :=
  let start := offset + Text.byteLength (raw.takeWhile Text.isBlank)
  match unquote? (Text.trim raw) with
  | some inside => .ok (.value (.text (String.ofList inside)))
  | none =>
    match hc : call? (Text.trim raw) start with
    | .error e => .error e
    | .ok none => .ok (.value (literal (Text.trim raw)))
    | .ok (some call) =>
      match ha : arguments call.arguments (start + call.start) with
      | .error e => .error e
      | .ok pieces =>
        have : call.arguments.length < raw.length :=
          Nat.lt_of_lt_of_le (call?_length hc) (trim_length raw)
        match operandsFrom call.arguments.length (start + call.start) pieces
            (arguments_length ha) with
        | .error e => .error e
        | .ok operands =>
          let op := Operation.lookup (String.ofList call.name)
          .ok (.filter ⟨op, operandOf op operands⟩)
termination_by (raw.length, 0)
decreasing_by
  exact Prod.Lex.left _ _ this

def operandsFrom (limit offset : Nat) (pieces : List Piece)
    (bound : ∀ p ∈ pieces, p.text.length ≤ limit) : Except SyntaxError (List Operand) :=
  match pieces with
  | [] => .ok []
  | p :: rest =>
    match expression p.text (offset + p.start) with
    | .error e => .error e
    | .ok c =>
      match operandsFrom limit offset rest fun q hq => bound q (List.mem_cons_of_mem _ hq) with
      | .error e => .error e
      | .ok operands => .ok (c.toOperand :: operands)
termination_by (limit, pieces.length + 1)
decreasing_by
  · rcases Nat.lt_or_eq_of_le (bound p List.mem_cons_self) with h | h
    · exact Prod.Lex.left _ _ h
    · rw [h]; exact Prod.Lex.right _ (Nat.succ_pos _)
  · exact Prod.Lex.right _ (by simp)

end

def term (p : Piece) : Except SyntaxError (String × Condition) :=
  let field := p.text.takeWhile (· != '=')
  match p.text.dropWhile (· != '=') with
  | [] => .error ⟨p.text, p.start, .noAttribute⟩
  | _ :: raw =>
    if field.any fun c => c == '(' || Scan.isQuote c then
      .error ⟨p.text, p.start, .noAttribute⟩
    else if Text.trim field = [] then .error ⟨p.text, p.start, .emptyAttribute⟩
    else
      (expression raw (p.start + Text.byteLength field + 1)).map
        (String.ofList (Text.trim field), ·)

def termsInto : List Piece → Filters → Except SyntaxError Filters
  | [], filters => .ok filters
  | p :: rest, filters =>
    match term p with
    | .error e => .error e
    | .ok (field, condition) => termsInto rest (filters.insert field condition)

def terms (s : List Char) : Except SyntaxError (List Piece) :=
  (markOuter s 0).map fun marked =>
    (cut (fun m => m.outer && Text.isBlank m.char) marked).filter (·.text ≠ [])

def parse (s : List Char) : Except SyntaxError Filters :=
  match terms s with
  | .error e => .error e
  | .ok pieces => termsInto pieces ∅

end Inventory.QueryText
