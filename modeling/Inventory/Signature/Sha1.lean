import Inventory.Text.Bytes

/-! The SHA-1 digest and the keyed digest HMAC-SHA1. The message is padded to blocks of 64 bytes;
each block is spread to eighty words that are folded into a chain of five. -/

namespace Inventory.Sha1

structure Chain where
  a : UInt32
  b : UInt32
  c : UInt32
  d : UInt32
  e : UInt32

def Chain.initial : Chain := ⟨0x67452301, 0xEFCDAB89, 0x98BADCFE, 0x10325476, 0xC3D2E1F0⟩

def rotate (x : UInt32) (n : UInt32) : UInt32 := (x <<< n) ||| (x >>> (32 - n))

/-- The last `count` bytes of a number, the highest first. -/
def bigEndian (count n : Nat) : Bytes :=
  (List.range count).map fun i => UInt8.ofNat (n >>> (8 * (count - 1 - i)))

/-- A one bit, zeros up to 56 bytes in the last block, and the length in bits. -/
def pad (message : Bytes) : Bytes :=
  let zeros := (119 - message.length % 64) % 64
  message ++ 0x80 :: (List.replicate zeros 0 ++ bigEndian 8 (8 * message.length))

def word (bytes : Bytes) : UInt32 :=
  bytes.foldl (fun w b => (w <<< 8) ||| b.toUInt32) 0

/-- Splits into parts of `size`; at most `count` of them. -/
def chunks (size : Nat) : Nat → Bytes → List Bytes
  | 0, _ => []
  | _, [] => []
  | count + 1, bytes => bytes.take size :: chunks size count (bytes.drop size)

/-- Appends to the words so far, the latest first, the rotated sum of four earlier ones. -/
def spread : Nat → List UInt32 → List UInt32
  | 0, words => words
  | more + 1, words =>
    let earlier (n : Nat) := words.getD (n - 1) 0
    spread more (rotate (earlier 3 ^^^ earlier 8 ^^^ earlier 14 ^^^ earlier 16) 1 :: words)

def schedule (block : Bytes) : List UInt32 :=
  (spread 64 ((chunks 4 16 block).map word).reverse).reverse

def mix (round : Nat) (b c d : UInt32) : UInt32 :=
  if round < 20 then ((b &&& c) ||| (~~~b &&& d)) + 0x5A827999
  else if round < 40 then (b ^^^ c ^^^ d) + 0x6ED9EBA1
  else if round < 60 then ((b &&& c) ||| (b &&& d) ||| (c &&& d)) + 0x8F1BBCDC
  else (b ^^^ c ^^^ d) + 0xCA62C1D6

def turn (s : Chain) (step : UInt32 × Nat) : Chain :=
  ⟨rotate s.a 5 + mix step.2 s.b s.c s.d + s.e + step.1, s.a, rotate s.b 30, s.c, s.d⟩

def compress (s : Chain) (block : Bytes) : Chain :=
  let t := (schedule block).zipIdx.foldl turn s
  ⟨s.a + t.a, s.b + t.b, s.c + t.c, s.d + t.d, s.e + t.e⟩

def digest (message : Bytes) : Bytes :=
  let padded := pad message
  let s := (chunks 64 (padded.length / 64) padded).foldl compress .initial
  [s.a, s.b, s.c, s.d, s.e].flatMap fun w => bigEndian 4 w.toNat

/-- A key longer than a block is replaced by its digest. -/
def blockKey (key : Bytes) : Bytes :=
  let short := if key.length > 64 then digest key else key
  short ++ List.replicate (64 - short.length) 0

def keyed (key message : Bytes) : Bytes :=
  let k := blockKey key
  digest (k.map (· ^^^ 0x5C) ++ digest (k.map (· ^^^ 0x36) ++ message))

end Inventory.Sha1
