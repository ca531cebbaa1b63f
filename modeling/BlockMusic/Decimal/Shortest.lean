import BlockMusic.Decimal.Double

/-!
# The shortest decimal

A finite double is written with the fewest significant digits that read back as the same double, and
among the decimals of that length with the nearest one, a tie to the even digit. Every finite double
has an exact decimal, its magnitude times `5 ^ 1074` at exponent `-1074`; the decimals of a given
length next to it below and above are its digits cut off there, and one more in the last place.
-/

namespace BlockMusic

/-- Significant decimal digits `d₁ d₂ d₃ …`, as characters, that stand for `d₁.d₂d₃… · 10 ^ scale`. -/
structure Decimal where
  digits : List Char
  scale : Int
  deriving DecidableEq, Repr

namespace Decimal

/-- The decimal `n · 10 ^ e`, without zeros at the end of its digits. -/
def ofScaled (n : Nat) (e : Int) : Decimal :=
  let ds := Nat.toDigits 10 n
  let kept := (ds.reverse.dropWhile (· == '0')).reverse
  { digits := if kept.isEmpty then ['0'] else kept
    scale := if kept.isEmpty then 0 else e + ds.length - 1 }

end Decimal

namespace Double

/-- The digits of the exact decimal of a magnitude, at exponent `-1074`. -/
def exactDigits (m k : Nat) : Nat := units m k * Nat.pow 5 1074

/-- Of the decimals of `n` digits next to the double `m, k`, the one that reads back as it; the
nearer one if both do, and the even one if they are equally near. The digits of the exact decimal are
`exact`, and there are `length` of them. -/
def shortestOfLength? (m k exact length n : Nat) : Option (Nat × Int) :=
  let step := Nat.pow 10 (length - n)
  let e : Int := (length - n : Nat) - 1074
  let below := exact / step
  let reads (d : Nat) : Bool :=
    match ofDecimal false d e with
    | .finite _ m' k' _ => m' == m && k' == k
    | _ => false
  let near := roundDiv exact step
  let far := if near = below then below + 1 else below
  if reads near then some (near, e) else if reads far then some (far, e) else none

/-- The shortest decimal of the magnitude `m, k`. Seventeen digits are always enough; the exact
decimal stands behind them. -/
def shortest (m k : Nat) : Decimal :=
  let exact := exactDigits m k
  let length := (Nat.toDigits 10 exact).length
  let found := ((List.range 17).map (· + 1)).findSome? (shortestOfLength? m k exact length)
  let best := found.getD (exact, -1074)
  Decimal.ofScaled best.1 best.2

end Double

end BlockMusic
