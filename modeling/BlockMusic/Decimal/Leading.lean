import BlockMusic.Decimal.Double

/-!
# Leading bits of large integers

A large integer is cut down before it becomes a double: its sixty-four leading bits stay, and the last
of them is set to remember that something was cut off. The integer is held in limbs of sixty-four
bits. Of every limb below the topmost only as many low bits are looked at as the topmost limb has, so
what was cut off can go unnoticed, and a value that lies just beside the middle of two doubles is then
rounded as if it were the middle.
-/

namespace BlockMusic

/-- The limbs of a natural number, the lowest one first. -/
def limbs (n : Nat) : List Nat :=
  (List.range (n.log2 / 64 + 1)).map fun i => n / Nat.pow 2 (64 * i) % Nat.pow 2 64

/-- Something below the topmost limb is seen when its low `size` bits are looked at. -/
def seenBelow (size n : Nat) : Bool := (limbs n).dropLast.any fun limb => limb % Nat.pow 2 size != 0

/-- A natural number cut down to its sixty-four leading bits. -/
def leadingBits (n : Nat) : Nat :=
  if n < Nat.pow 2 64 then n
  else
    let cut := n.log2 - 63
    let head := n / Nat.pow 2 cut
    let kept := if seenBelow (n.log2 % 64 + 1) n then head / 2 * 2 + 1 else head
    kept * Nat.pow 2 cut

/-- The double nearest to the leading bits of an integer. -/
def Double.ofLeading (n : Int) : Double := ofRatio (n < 0) (leadingBits n.natAbs) 1

end BlockMusic
