import Inventory.QueryText.Parser

/-! Query text as it is written: trees of expressions with the blanks around their arguments, their
texts, and the conditions that the filter constructors build of them. -/

namespace Inventory

/-- What an operation with these operands is applied to. -/
def Operation.applied : Operation → List Operand → Operand
  | .any, operands => .list operands
  | .all, operands => .list operands
  | _, [] => .absent
  | _, [operand] => operand
  | _, operands => .list operands

namespace QueryText

structure Padding where
  chars : List Char
  blank : ∀ c ∈ chars, Text.isBlank c = true

/-- An ASCII letter or `_`, then more of these and digits. -/
structure Identifier where
  first : Char
  rest : List Char
  starts : first.isAlpha = true ∨ first = '_'
  continues : ∀ c ∈ rest, c.isAlphanum = true ∨ c = '_'

def Identifier.chars (name : Identifier) : List Char := name.first :: name.rest

/-- A text that holds at most one kind of quote. -/
structure Quotable where
  chars : List Char
  quotable : '"' ∉ chars ∨ '\'' ∉ chars

namespace Quotable

def quote (t : Quotable) : Char := if '"' ∈ t.chars then '\'' else '"'

def written (t : Quotable) : List Char := t.quote :: (t.chars ++ [t.quote])

theorem quote_eq (t : Quotable) : t.quote = '"' ∨ t.quote = '\'' := by
  rw [quote]
  split
  · exact .inr rfl
  · exact .inl rfl

theorem isQuote_quote (t : Quotable) : Scan.isQuote t.quote = true := by
  rw [Scan.isQuote, Bool.or_eq_true, beq_iff_eq, beq_iff_eq]
  exact t.quote_eq

theorem quote_not_mem (t : Quotable) : t.quote ∉ t.chars := by
  rw [quote]
  split
  · rename_i hdouble
    exact t.quotable.resolve_left (not_not_intro hdouble)
  · assumption

end Quotable

mutual

inductive Expr where
  | text (t : Quotable)
  | int (n : Int64)
  | bool (b : Bool)
  | call (name : Identifier) (arguments : Arguments)

inductive Arguments where
  | nil (blanks : Padding)
  | cons (before : Padding) (e : Expr) (after : Padding) (rest : Arguments)

end

def padded (before : Padding) (s : List Char) (after : Padding) : List Char :=
  before.chars ++ (s ++ after.chars)

/-- What stands between an argument and those after it. -/
def Arguments.separator : Arguments → List Char
  | .nil _ => []
  | .cons _ _ _ _ => [',']

mutual

def Expr.written : Expr → List Char
  | .text t => t.written
  | .int n => (toString n.toInt).toList
  | .bool true => ['t', 'r', 'u', 'e']
  | .bool false => ['f', 'a', 'l', 's', 'e']
  | .call name arguments => name.chars ++ '(' :: (arguments.written ++ [')'])

def Arguments.written : Arguments → List Char
  | .nil blanks => blanks.chars
  | .cons before e after rest =>
    padded before e.written after ++ (rest.separator ++ rest.written)

end

mutual

/-- How many calls stand inside one another at the most. -/
def Expr.nesting : Expr → Nat
  | .text _ => 0
  | .int _ => 0
  | .bool _ => 0
  | .call _ arguments => arguments.nesting + 1

def Arguments.nesting : Arguments → Nat
  | .nil _ => 0
  | .cons _ e _ rest => max e.nesting rest.nesting

end

mutual

def Expr.condition : Expr → Condition
  | .text t => .value (.text (String.ofList t.chars))
  | .int n => .value (.int n)
  | .bool b => .value (.bool b)
  | .call name arguments =>
    let op := Operation.lookup (String.ofList name.chars)
    .filter ⟨op, op.applied (arguments.conditions.map Condition.toOperand)⟩

def Arguments.conditions : Arguments → List Condition
  | .nil _ => []
  | .cons _ e _ rest => e.condition :: rest.conditions

end

/-- The name of an attribute: not empty, and free of what ends it or takes a term apart. -/
structure FieldName where
  chars : List Char
  nonempty : chars ≠ []
  plain : ∀ c ∈ chars,
    Text.isBlank c = false ∧ c ≠ '=' ∧ c ≠ '(' ∧ c ≠ ')' ∧ Scan.isQuote c = false

structure Term where
  field : FieldName
  expr : Expr
  shallow : expr.nesting ≤ 128

structure Gap extends Padding where
  nonempty : chars ≠ []

def Term.written (t : Term) : List Char := t.field.chars ++ '=' :: t.expr.written

/-- The terms one after another, with a gap after each but the last. -/
def joined (gap : Nat → Gap) : List Term → List Char
  | [] => []
  | [t] => t.written
  | t :: rest => t.written ++ ((gap 0).chars ++ joined (fun n => gap (n + 1)) rest)

theorem joined_cons (gap : Nat → Gap) (t : Term) {rest : List Term} (h : rest ≠ []) :
    joined gap (t :: rest) =
      t.written ++ ((gap 0).chars ++ joined (fun n => gap (n + 1)) rest) := by
  rw [joined]
  exact h

end QueryText

end Inventory
