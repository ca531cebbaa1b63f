import BlockMusic.Decimal.Shortest

/-!
# Writing a double

A double is written positionally when its leading digit stands between the fourth place after the
point and the sixteenth before it, and with an exponent otherwise. The positional form always has a
point with a digit on both sides; the exponent form has a point only between digits, and an exponent
with a sign and two digits at least.
-/

namespace BlockMusic.Decimal

def zeros (n : Nat) : List Char := List.replicate n '0'

/-- The digits around a point, with zeros where digits are missing on either side. -/
def positional (d : Decimal) : List Char :=
  if d.scale < 0 then '0' :: '.' :: zeros (-d.scale - 1).toNat ++ d.digits
  else
    let whole := d.scale.toNat + 1
    let after := d.digits.drop whole
    d.digits.take whole ++ zeros (whole - d.digits.length) ++ '.' ::
      (if after.isEmpty then ['0'] else after)

/-- The first digit, the others behind a point, and the power of ten. -/
def exponential (d : Decimal) : List Char :=
  let tail := d.digits.tail
  let size := Nat.toDigits 10 d.scale.natAbs
  d.digits.take 1 ++ (if tail.isEmpty then [] else '.' :: tail) ++
    ['e', if d.scale < 0 then '-' else '+'] ++ zeros (2 - size.length) ++ size

/-- The places of the leading digit that are written positionally. -/
def isPositional (scale : Int) : Bool := -4 ≤ scale && scale < 16

def chars (d : Decimal) : List Char :=
  if isPositional d.scale then d.positional else d.exponential

end BlockMusic.Decimal

namespace BlockMusic.Double

/-- The written form of a double. -/
def chars : Double → List Char
  | .nan => ['n', 'a', 'n']
  | .infinity s => (if s then ['-'] else []) ++ ['i', 'n', 'f']
  | .finite s m k _ => (if s then ['-'] else []) ++ (shortest m k).chars

def text (x : Double) : String := String.ofList x.chars

end BlockMusic.Double
