import Inventory.Text.Blank
import Inventory.Text.Visible

/-! Text between double quotes, as messages show it. The quote, the backslash and four control
characters have short escapes; any other character that would not show by itself is written by
its code point. -/

namespace Inventory.Text

def isVisible (c : Char) : Bool := inRanges visibleRanges c

def quotedChar (c : Char) : List Char :=
  match c with
  | '"' => ['\\', '"']
  | '\\' => ['\\', '\\']
  | '\t' => ['\\', 't']
  | '\n' => ['\\', 'n']
  | '\r' => ['\\', 'r']
  | '\x00' => ['\\', '0']
  | c =>
    if isVisible c then [c]
    else '\\' :: 'u' :: '\x7b' :: (Nat.toDigits 16 c.toNat ++ ['\x7d'])

def quoted (s : String) : String :=
  String.ofList ('"' :: (s.toList.flatMap quotedChar ++ ['"']))

end Inventory.Text
