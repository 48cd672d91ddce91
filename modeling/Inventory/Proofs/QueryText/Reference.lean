import Inventory.QueryText.Parser
import Inventory.Proofs.QueryText.Marking

/-! Query text read from one marking: the query is marked once, and terms, quoted texts, calls and
arguments are cut out of the marked characters, which are never scanned again. -/

namespace Inventory.QueryText.Reference

/-- What is wrong with a character where it stands. -/
def fault? (g : Glyph) : Option Reason :=
  if g.isClosing && g.depth == 0 then some .unmatchedClosing
  else if g.isOpening && decide (maxNesting ≤ g.depth) then some .nestingTooDeep
  else none

/-- The position of the last parenthesis that was opened at a depth. -/
def lastOpening? (depth : Nat) (gs : List Glyph) : Option Nat :=
  (gs.reverse.find? fun g => g.isOpening && g.depth == depth).map Glyph.position

/-- The marking is accepted if all parentheses match, at most 128 are open at once, and no quote is
left open. -/
def scan (query : List Char) : Except SyntaxError (List Glyph) :=
  let gs := Cursor.start.glyphs query
  let last := Cursor.start.after query
  match gs.findSome? fun g => (fault? g).map (g.position, ·) with
  | some (position, reason) => .error ⟨query, position, reason⟩
  | none =>
    if last.quote.isSome then .error ⟨query, last.position, .unterminatedQuote⟩
    else if last.depth = 0 then .ok gs
    else .error ⟨query, (lastOpening? (last.depth - 1) gs).getD 0, .unmatchedOpening⟩

def terms (gs : List Glyph) : List (List Glyph) :=
  (gs.splitOnP (Glyph.separates Text.isBlank 0)).filter fun part => !part.isEmpty

def trim (gs : List Glyph) : List Glyph :=
  ((gs.dropWhile Glyph.isBlank).reverse.dropWhile Glyph.isBlank).reverse

/-- The inside of a text of two or more characters that begins and ends with the same quote. -/
def quotation? (gs : List Glyph) : Option (List Char) :=
  match gs.head?, gs.getLast? with
  | some first, some last =>
    if 2 ≤ gs.length ∧ Scan.isQuote first.char ∧ last.char = first.char then
      some (gs.tail.dropLast.map Glyph.char)
    else none
  | _, _ => none

/-- The text before the first parenthesis that closes at a depth, and the text after it. -/
def splitAtClosing? (depth : Nat) (gs : List Glyph) : Option (List Glyph × List Glyph) :=
  match gs.dropWhile fun g => !g.closes depth with
  | [] => none
  | _ :: rest => some (gs.takeWhile fun g => !g.closes depth, rest)

/-- A name, and the text between its parentheses, which begins at a depth. -/
structure Call where
  name : List Char
  depth : Nat
  inside : List Glyph

/-- The call that a trimmed text spells, unless it is a plain word. Nothing may follow the
parenthesis that matches the first one. -/
def call? (gs : List Glyph) : Except SyntaxError (Option Call) :=
  let name := (gs.takeWhile fun g => g.char != '(').map Glyph.char
  match gs.dropWhile fun g => g.char != '(' with
  | [] => .ok none
  | opening :: body =>
    if isIdentifier name then
      match splitAtClosing? (opening.depth + 1) body with
      | none => .ok none
      | some (inside, []) => .ok (some ⟨name, opening.depth + 1, inside⟩)
      | some (_, g :: _) => .error ⟨gs.map Glyph.char, g.position, .textAfterCall⟩
    else .ok none

theorem splitAtClosing?_cons (depth : Nat) (g : Glyph) (gs : List Glyph) :
    splitAtClosing? depth (g :: gs) =
      if g.closes depth then some ([], gs)
      else (splitAtClosing? depth gs).map fun (inside, rest) => (g :: inside, rest) := by
  simp only [splitAtClosing?, List.dropWhile_cons, List.takeWhile_cons]
  cases g.closes depth with
  | true => rfl
  | false =>
    simp only [Bool.not_false, ↓reduceIte, Bool.false_eq_true]
    cases gs.dropWhile fun g => !g.closes depth with
    | nil => rfl
    | cons c rest => rfl

theorem splitAtClosing?_length {depth : Nat} {gs inside rest : List Glyph}
    (h : splitAtClosing? depth gs = some (inside, rest)) : inside.length ≤ gs.length := by
  simp only [splitAtClosing?] at h
  split at h
  · cases h
  · cases h
    exact (List.takeWhile_sublist _).length_le

theorem call?_length {gs : List Glyph} {call : Call} (h : call? gs = .ok (some call)) :
    call.inside.length < gs.length := by
  have hsub : (gs.dropWhile fun g => g.char != '(').length ≤ gs.length :=
    (List.dropWhile_sublist _).length_le
  simp only [call?] at h
  split at h
  · cases h
  · rename_i opening body hbody
    rw [hbody, List.length_cons] at hsub
    split at h
    · split at h
      · cases h
      · rename_i hsplit
        cases h
        exact Nat.lt_of_lt_of_le (Nat.lt_succ_of_le (splitAtClosing?_length hsplit)) hsub
      · cases h
    · cases h

/-- The arguments stand between the commas one level inside the call; a call without any holds
only blanks. -/
def Call.arguments (call : Call) : List (List Glyph) :=
  if (trim call.inside).isEmpty then []
  else call.inside.splitOnP (Glyph.separates (· == ',') call.depth)

theorem length_le_of_mem_splitOnP {separates : Glyph → Bool} {gs part : List Glyph}
    (h : part ∈ gs.splitOnP separates) : part.length ≤ gs.length := by
  induction gs generalizing part with
  | nil =>
    rw [List.splitOnP_nil, List.mem_singleton] at h
    exact Nat.le_of_eq (congrArg List.length h)
  | cons g rest ih =>
    rw [List.splitOnP_cons_eq_if_modifyHead] at h
    split at h
    · rcases List.mem_cons.mp h with rfl | h
      · exact Nat.zero_le _
      · exact Nat.le_succ_of_le (ih h)
    · cases hparts : rest.splitOnP separates with
      | nil => exact absurd hparts (List.splitOnP_ne_nil _ _)
      | cons front more =>
        rw [hparts] at h ih
        rcases List.mem_cons.mp h with rfl | h
        · exact Nat.succ_le_succ (ih List.mem_cons_self)
        · exact Nat.le_succ_of_le (ih (List.mem_cons_of_mem _ h))

theorem arguments_length {call : Call} {part : List Glyph} (h : part ∈ call.arguments) :
    part.length ≤ call.inside.length := by
  rw [Call.arguments] at h
  split at h
  · cases h
  · exact length_le_of_mem_splitOnP h

theorem trim_length (gs : List Glyph) : (trim gs).length ≤ gs.length := by
  rw [trim, List.length_reverse]
  refine Nat.le_trans (List.dropWhile_sublist _).length_le ?_
  rw [List.length_reverse]
  exact (List.dropWhile_sublist _).length_le

/-- The condition that an expression with blanks around it spells. -/
def condition (gs : List Glyph) : Except SyntaxError Condition :=
  match quotation? (trim gs) with
  | some inside => .ok (.value (.text (String.ofList inside)))
  | none =>
    match hcall : call? (trim gs) with
    | .error e => .error e
    | .ok none => .ok (.value (literal ((trim gs).map Glyph.char)))
    | .ok (some call) =>
      have : call.inside.length < gs.length :=
        Nat.lt_of_lt_of_le (call?_length hcall) (trim_length gs)
      (call.arguments.attach.mapM fun part => condition part.1).map fun conditions =>
        let op := Operation.lookup (String.ofList call.name)
        .filter ⟨op, operandOf op (conditions.map Condition.toOperand)⟩
termination_by gs.length
decreasing_by
  exact Nat.lt_of_le_of_lt (arguments_length part.2) this

/-- The attribute is the text before the first `=`, with no parenthesis or quote in it. -/
def term (gs : List Glyph) : Except SyntaxError (String × Condition) :=
  let start := (gs.head?.map Glyph.position).getD 0
  let field := (gs.takeWhile fun g => g.char != '=').map Glyph.char
  match gs.dropWhile fun g => g.char != '=' with
  | [] => .error ⟨gs.map Glyph.char, start, .noAttribute⟩
  | _ :: raw =>
    if field.any fun c => c == '(' || Scan.isQuote c then
      .error ⟨gs.map Glyph.char, start, .noAttribute⟩
    else if field = [] then .error ⟨gs.map Glyph.char, start, .emptyAttribute⟩
    else (condition raw).map (String.ofList field, ·)

/-- Of several terms with one attribute the last counts. -/
def parse (query : List Char) : Except SyntaxError Filters :=
  match scan query with
  | .error e => .error e
  | .ok gs => ((terms gs).mapM term).map TextMap.ofList

end Inventory.QueryText.Reference
