import Inventory.Json.Numeral

/-! The tokens of a JSON text. The scan is one pass over the characters; a run of letters or of
number characters ends at the first character that is neither. -/

namespace Inventory.Json

inductive Token where
  | arrayStart
  | arrayEnd
  | objectStart
  | objectEnd
  | comma
  | colon
  | null
  | bool (b : Bool)
  | number (n : Numeral)
  /-- A text literal; it has no content when a surrogate in it stands alone. -/
  | text (content : Option String)

/-- A text literal in parts: characters, and the 16-bit surrogates that escapes can name. -/
inductive Piece where
  | char (c : Char)
  | surrogate (unit : Nat)

/-- Joins each leading surrogate with the trailing one after it. -/
def joinPieces? : List Piece → Option (List Char)
  | [] => some []
  | .char c :: rest => (joinPieces? rest).map (c :: ·)
  | .surrogate high :: .surrogate low :: rest =>
    if high < 0xDC00 ∧ 0xDC00 ≤ low then
      (joinPieces? rest).map
        (Char.ofNat (0x10000 + (high - 0xD800) * 0x400 + (low - 0xDC00)) :: ·)
    else none
  | .surrogate _ :: _ => none

/-- Where the scan stands. Runs and pieces are kept in reverse. -/
inductive Scan where
  | between
  | letters (run : List Char)
  | number (run : List Char)
  | text (pieces : List Piece)
  | escape (pieces : List Piece)
  | hex (pieces : List Piece) (missing : Nat) (unit : Nat)

namespace Scan

def isNumberChar (c : Char) : Bool :=
  Text.isDigit c || c == '-' || c == '+' || c == '.' || c == 'e' || c == 'E'

def isLetter (c : Char) : Bool := 'a' ≤ c && c ≤ 'z'

def hexValue? (c : Char) : Option Nat :=
  if Text.isDigit c then some (Text.digitValue c)
  else if 'a' ≤ c ∧ c ≤ 'f' then some (c.toNat - 'a'.toNat + 10)
  else if 'A' ≤ c ∧ c ≤ 'F' then some (c.toNat - 'A'.toNat + 10)
  else none

def unescaped? (c : Char) : Option Char :=
  match c with
  | '"' => some '"'
  | '\\' => some '\\'
  | '/' => some '/'
  | 'b' => some '\x08'
  | 'f' => some '\x0c'
  | 'n' => some '\n'
  | 'r' => some '\r'
  | 't' => some '\t'
  | _ => none

def pieceOfUnit (unit : Nat) : Piece :=
  if 0xD800 ≤ unit ∧ unit < 0xE000 then .surrogate unit else .char (Char.ofNat unit)

def wordToken? : List Char → Option Token
  | ['n', 'u', 'l', 'l'] => some .null
  | ['t', 'r', 'u', 'e'] => some (.bool true)
  | ['f', 'a', 'l', 's', 'e'] => some (.bool false)
  | _ => none

/-- The token that a run up to here makes, if the scan is in a run. -/
def pending? : Scan → Option (List Token)
  | .between => some []
  | .letters run => (wordToken? run.reverse).map ([·])
  | .number run => (Numeral.read? run.reverse).map fun n => [.number n]
  | _ => none

/-- Reads a character that begins something new. -/
def start? (c : Char) : Option (List Token × Scan) :=
  match c with
  | '[' => some ([.arrayStart], .between)
  | ']' => some ([.arrayEnd], .between)
  | '\x7b' => some ([.objectStart], .between)
  | '\x7d' => some ([.objectEnd], .between)
  | ',' => some ([.comma], .between)
  | ':' => some ([.colon], .between)
  | '"' => some ([], .text [])
  | c =>
    if c = ' ' ∨ c = '\t' ∨ c = '\n' ∨ c = '\r' then some ([], .between)
    else if Text.isDigit c ∨ c = '-' then some ([], .number [c])
    else if isLetter c then some ([], .letters [c])
    else none

/-- Reads one character and gives the tokens that it completes. -/
def step? (scan : Scan) (c : Char) : Option (List Token × Scan) :=
  match scan with
  | .text pieces =>
    if c = '"' then
      some ([.text ((joinPieces? pieces.reverse).map String.ofList)], .between)
    else if c = '\\' then some ([], .escape pieces)
    else if c.toNat < 0x20 then none
    else some ([], .text (.char c :: pieces))
  | .escape pieces =>
    if c = 'u' then some ([], .hex pieces 4 0)
    else (unescaped? c).map fun e => ([], .text (.char e :: pieces))
  | .hex pieces missing unit =>
    (hexValue? c).map fun v =>
      let unit := 16 * unit + v
      if missing ≤ 1 then ([], .text (pieceOfUnit unit :: pieces))
      else ([], .hex pieces (missing - 1) unit)
  | .letters run =>
    if isLetter c then some ([], .letters (c :: run)) else restart? scan c
  | .number run =>
    if isNumberChar c then some ([], .number (c :: run)) else restart? scan c
  | .between => start? c
where
  restart? (scan : Scan) (c : Char) : Option (List Token × Scan) :=
    match scan.pending?, start? c with
    | some done, some (tokens, next) => some (done ++ tokens, next)
    | _, _ => none

def run? (scan : Scan) : List Char → Option (List Token)
  | [] => scan.pending?
  | c :: rest =>
    match scan.step? c with
    | some (tokens, next) => (run? next rest).map (tokens ++ ·)
    | none => none

end Scan

def tokens? (s : List Char) : Option (List Token) := Scan.between.run? s

end Inventory.Json
