import BlockMusic.Text.Utf8

/-!
# Telling the encoding of a text

A JSON text starts with two ASCII characters, so the zeros among its first octets tell how it is
encoded: no zeros in UTF-8, every other octet zero in UTF-16, and three of four in UTF-32, on the one
side or the other by the order of the octets.
-/

namespace BlockMusic.Text

/-- How a text is written in octets. -/
inductive Encoding where
  | utf8
  | utf16 (bigEndian : Bool)
  | utf32 (bigEndian : Bool)
  deriving DecidableEq, Repr

namespace Encoding

/-- The encoding that the zeros among the first octets tell. -/
def ofOctets : List Nat → Encoding
  | 0 :: b :: _ :: _ :: _ => if b = 0 then .utf32 true else .utf16 true
  | _ :: 0 :: c :: d :: _ => if c = 0 ∧ d = 0 then .utf32 false else .utf16 false
  | [0, _] => .utf16 true
  | [_, 0] => .utf16 false
  | _ => .utf8

/-- The units of two octets each; there must be none left over. -/
def pairs? (bigEndian : Bool) : List Nat → Option (List Nat)
  | [] => some []
  | [_] => none
  | a :: b :: rest =>
    (pairs? bigEndian rest).map ((if bigEndian then 256 * a + b else 256 * b + a) :: ·)

/-- A character that UTF-8 and UTF-16 cannot write alone. -/
def isSurrogate (n : Nat) : Bool := 0xd800 ≤ n && n < 0xe000

/-- The character of a code point; half a character is shown as a replacement. -/
def charOf (n : Nat) : Char := if isSurrogate n then Char.ofNat 0xfffd else Char.ofNat n

/-- The characters of UTF-16 units. -/
def joinUnits : List Nat → List Char
  | [] => []
  | [n] => [charOf n]
  | n :: m :: rest =>
    if 0xd800 ≤ n ∧ n < 0xdc00 ∧ 0xdc00 ≤ m ∧ m < 0xe000 then
      Char.ofNat (0x10000 + (n - 0xd800) * 0x400 + (m - 0xdc00)) :: joinUnits rest
    else charOf n :: joinUnits (m :: rest)

/-- The characters of UTF-32 units, given as pairs of halves. -/
def joinHalves? (bigEndian : Bool) : List Nat → Option (List Char)
  | [] => some []
  | [_] => none
  | a :: b :: rest =>
    let n := if bigEndian then 0x10000 * a + b else 0x10000 * b + a
    if n < 0x110000 then (joinHalves? bigEndian rest).map (charOf n :: ·) else none

/-- Reads octets in a given encoding. -/
def decode? : Encoding → List Nat → Option (List Char)
  | .utf8, octets => (Utf8.decode octets).toOption.map String.toList
  | .utf16 bigEndian, octets => (pairs? bigEndian octets).map joinUnits
  | .utf32 bigEndian, octets => (pairs? bigEndian octets).bind (joinHalves? bigEndian)

end Encoding

/-- Reads octets in the encoding that they tell; a mark in front of UTF-8 is passed over. -/
def decodeAny? (octets : List Nat) : Option String :=
  let encoding := Encoding.ofOctets octets
  match encoding, encoding.decode? octets with
  | .utf8, some ('\ufeff' :: cs) => some (String.ofList cs)
  | _, some cs => some (String.ofList cs)
  | _, none => none

end BlockMusic.Text
