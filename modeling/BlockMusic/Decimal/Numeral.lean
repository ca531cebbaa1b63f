import BlockMusic.Decimal.Double
import BlockMusic.Text.Digit

/-!
# Reading numerals

A numeral is an optional sign, digits with at most one point among or around them, and an optional
power of ten. Which characters are digits is a parameter: fields take the decimal digits of every
script, documents only the ASCII ones. An integer is read and written only up to a number of digits.
-/

namespace BlockMusic

/-- A decimal number as read: `± digits · 10 ^ exponent`. -/
structure Numeral where
  negative : Bool
  digits : Nat
  exponent : Int
  deriving DecidableEq, Repr

namespace Numeral

open Text

/-- An optional sign, and what follows it. -/
def sign : List Char → Bool × List Char
  | '-' :: cs => (true, cs)
  | '+' :: cs => (false, cs)
  | cs => (false, cs)

/-- The sign and the digits of an integer numeral: an optional sign and one digit at least. -/
def integerDigits? (value? : Char → Option Nat) (cs : List Char) : Option (Bool × List Nat) :=
  let (negative, cs) := sign cs
  match digitRun value? cs with
  | ([], _) => none
  | (ds, []) => some (negative, ds)
  | (_, _ :: _) => none

/-- The integer with the given sign and digits. -/
def integer (negative : Bool) (ds : List Nat) : Int :=
  if negative then -(digitsValue ds : Int) else digitsValue ds

/-- The greatest number of digits that an integer is read or written with. -/
def digitLimit : Nat := 4300

/-- The number of decimal digits of an integer. -/
def digitCount (z : Int) : Nat := (Nat.toDigits 10 z.natAbs).length

/-- The power of ten behind the digits: nothing, or a mark with an integer numeral. -/
def exponent? (value? : Char → Option Nat) : List Char → Option Int
  | [] => some 0
  | c :: cs =>
    if c = 'e' ∨ c = 'E' then
      (integerDigits? value? cs).map fun (negative, ds) => integer negative ds
    else none

/-- Reads a numeral with a digit at least before or behind the point. -/
def ofChars? (value? : Char → Option Nat) (cs : List Char) : Option Numeral :=
  let (negative, cs) := sign cs
  let (whole, rest) := digitRun value? cs
  let (fraction, rest) :=
    match rest with
    | '.' :: rest => digitRun value? rest
    | rest => ([], rest)
  if whole.isEmpty && fraction.isEmpty then none
  else (exponent? value? rest).map fun e =>
    { negative, digits := digitsValue (whole ++ fraction), exponent := e - fraction.length }

/-- The double nearest to a numeral. -/
def toDouble (n : Numeral) : Double := Double.ofDecimal n.negative n.digits n.exponent

end Numeral

/-- Reads the written form of a double. -/
def Double.ofText? (s : String) : Option Double :=
  if s = "nan" then some .nan
  else if s = "inf" then some (.infinity false)
  else if s = "-inf" then some (.infinity true)
  else (Numeral.ofChars? Text.asciiDigit? s.toList).map Numeral.toDouble

end BlockMusic
