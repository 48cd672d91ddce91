/-! Bytes, their hexadecimal text, and the text that they encode, in whole or in part. -/

namespace Inventory

abbrev Bytes := List UInt8

namespace Text

def toBytes (s : String) : Bytes := s.toUTF8.toList

/-- The text that the bytes encode, if they are UTF-8. -/
def ofBytes? (bytes : Bytes) : Option String := String.fromUTF8? bytes.toByteArray

/-- The character whose bytes come first. No character has more than four. -/
def leading? (bytes : Bytes) : Option Char := (bytes.take 4).toByteArray.utf8DecodeChar? 0

/-- Reads on behind the bytes of a character, of which `left` are still to be passed. -/
def filledFrom (part : List Char) : Nat → Bytes → List Char
  | _, [] => []
  | left + 1, _ :: rest => filledFrom part left rest
  | 0, b :: rest =>
    match leading? (b :: rest) with
    | some c => c :: filledFrom part (c.utf8Size - 1) rest
    | none => part ++ filledFrom part 0 rest

/-- The characters that the bytes encode, with `part` for each byte that belongs to none. -/
def filled (part : List Char) (bytes : Bytes) : List Char := filledFrom part 0 bytes

def hexDigit (n : Nat) : Char := Nat.digitChar n

def hexByte (b : UInt8) : List Char := [hexDigit (b.toNat / 16), hexDigit (b.toNat % 16)]

def hex (bytes : Bytes) : String := String.ofList (bytes.flatMap hexByte)

end Text

end Inventory
