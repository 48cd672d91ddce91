import Inventory.Json.Basic

/-! The compact text of a JSON tree: no blanks, and only the quote, the backslash and the control
characters below U+0020 are escaped. -/

namespace Inventory.Json

def hexDigits (width n : Nat) : List Char :=
  let digits := Nat.toDigits 16 n
  List.replicate (width - digits.length) '0' ++ digits

def escapedChar (c : Char) : List Char :=
  match c with
  | '"' => ['\\', '"']
  | '\\' => ['\\', '\\']
  | '\x08' => ['\\', 'b']
  | '\t' => ['\\', 't']
  | '\n' => ['\\', 'n']
  | '\x0c' => ['\\', 'f']
  | '\r' => ['\\', 'r']
  | c => if c.toNat < 0x20 then '\\' :: 'u' :: hexDigits 4 c.toNat else [c]

def renderText (s : String) : List Char :=
  '"' :: (s.toList.flatMap escapedChar ++ ['"'])

mutual

def render : Json → List Char
  | .null => ['n', 'u', 'l', 'l']
  | .bool true => ['t', 'r', 'u', 'e']
  | .bool false => ['f', 'a', 'l', 's', 'e']
  | .integer n => (toString n).toList
  | .float d => (d.wire?.getD "null").toList
  | .text s => renderText s
  | .array [] => ['[', ']']
  | .array (j :: rest) => '[' :: (render j ++ renderItems rest)
  | .object [] => ['\x7b', '\x7d']
  | .object ((key, j) :: rest) =>
    '\x7b' :: (renderText key ++ ':' :: (render j ++ renderMembers rest))

def renderItems : List Json → List Char
  | [] => [']']
  | j :: rest => ',' :: (render j ++ renderItems rest)

def renderMembers : List (String × Json) → List Char
  | [] => ['\x7d']
  | (key, j) :: rest => ',' :: (renderText key ++ ':' :: (render j ++ renderMembers rest))

end

def compact (j : Json) : String := String.ofList (render j)

end Inventory.Json
