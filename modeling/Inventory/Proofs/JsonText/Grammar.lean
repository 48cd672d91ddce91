import Inventory.Json.Reader

/-! The texts of JSON, tree by tree: which texts spell a tree as it is written. Blanks may stand
around every value and every mark, and a tree of given depth, with its numbers as literals and its
texts unescaped, has many spellings. -/

namespace Inventory.Json

def Gap (s : List Char) : Prop := ∀ c ∈ s, c = ' ' ∨ c = '\t' ∨ c = '\n' ∨ c = '\r'

def Digits (s : List Char) : Prop := s ≠ [] ∧ ∀ c ∈ s, Text.isDigit c = true

namespace Numeral

def signText (negative : Bool) : List Char := if negative then ['-'] else []

def fractionText (fraction : List Char) : List Char :=
  if fraction = [] then [] else '.' :: fraction

def SignedDigits (e : Int) (s : List Char) : Prop :=
  ∃ digits, Digits digits ∧
    ((s = '-' :: digits ∧ e = -(Text.ofDigits digits : Int)) ∨
      ((s = digits ∨ s = '+' :: digits) ∧ e = Text.ofDigits digits))

def PowerText : Option Int → List Char → Prop
  | none, s => s = []
  | some e, s => ∃ mark rest, s = mark :: rest ∧ (mark = 'e' ∨ mark = 'E') ∧ SignedDigits e rest

/-- Only a whole part of one digit begins with zero. -/
structure Spelled (n : Numeral) (s : List Char) : Prop where
  whole : Digits n.whole
  leading : n.whole.head? = some '0' → n.whole = ['0']
  fraction : ∀ c ∈ n.fraction, Text.isDigit c = true
  text : ∃ power, PowerText n.exponent power ∧
    s = signText n.negative ++ (n.whole ++ (fractionText n.fraction ++ power))

end Numeral

/-- A character of a text stands for itself, or follows a backslash, or is named by its number. -/
inductive PieceText : Piece → List Char → Prop where
  | plain {c : Char} : c ≠ '"' → c ≠ '\\' → 0x20 ≤ c.toNat → PieceText (.char c) [c]
  | escaped {c e : Char} : Scan.unescaped? e = some c → PieceText (.char c) ['\\', e]
  | numbered {a b c d : Char} {p q r s : Nat} : Scan.hexValue? a = some p →
    Scan.hexValue? b = some q → Scan.hexValue? c = some r → Scan.hexValue? d = some s →
    PieceText (Scan.pieceOfUnit (16 * (16 * (16 * p + q) + r) + s)) ['\\', 'u', a, b, c, d]

def PiecesText : List Piece → List Char → Prop
  | [], s => s = []
  | p :: rest, s => ∃ front back, PieceText p front ∧ PiecesText rest back ∧ s = front ++ back

/-- A text literal without content has a surrogate that stands alone. -/
def LiteralText (content : Option String) (s : List Char) : Prop :=
  ∃ pieces body, PiecesText pieces body ∧ (joinPieces? pieces).map String.ofList = content ∧
    s = '"' :: (body ++ ['"'])

/-- Something with blanks around it. -/
def Padded (p : List Char → Prop) (s : List Char) : Prop :=
  ∃ before body behind, Gap before ∧ p body ∧ Gap behind ∧ s = before ++ (body ++ behind)

namespace Written

mutual

def Spelled : Written → List Char → Prop
  | .null, s => s = ['n', 'u', 'l', 'l']
  | .bool true, s => s = ['t', 'r', 'u', 'e']
  | .bool false, s => s = ['f', 'a', 'l', 's', 'e']
  | .number n, s => n.Spelled s
  | .text content, s => LiteralText content s
  | .array items, s => ∃ body, ItemsSpelled items body ∧ s = '[' :: (body ++ [']'])
  | .object members, s => ∃ body, MembersSpelled members body ∧ s = '\x7b' :: (body ++ ['\x7d'])

/-- What stands between the brackets of an array. -/
def ItemsSpelled : List Written → List Char → Prop
  | [], s => Gap s
  | w :: rest, s => ∃ front back, Padded (Spelled w) front ∧ MoreItems rest back ∧ s = front ++ back

def MoreItems : List Written → List Char → Prop
  | [], s => s = []
  | w :: rest, s =>
    ∃ front back, Padded (Spelled w) front ∧ MoreItems rest back ∧ s = ',' :: (front ++ back)

/-- What stands between the brackets of an object. -/
def MembersSpelled : List (Option String × Written) → List Char → Prop
  | [], s => Gap s
  | (key, w) :: rest, s => ∃ name front back, Padded (LiteralText key) name ∧
    Padded (Spelled w) front ∧ MoreMembers rest back ∧ s = name ++ ':' :: (front ++ back)

def MoreMembers : List (Option String × Written) → List Char → Prop
  | [], s => s = []
  | (key, w) :: rest, s => ∃ name front back, Padded (LiteralText key) name ∧
    Padded (Spelled w) front ∧ MoreMembers rest back ∧
    s = ',' :: (name ++ ':' :: (front ++ back))

end

end Written

end Inventory.Json
