/-!
# Double-precision numbers

A double is not a number, an infinity, or a finite number `± m · 2 ^ k · 2 ^ (-1074)`. The exponent
is counted from the least one, so that it is a natural number and the magnitude of every finite
double is the natural number `m · 2 ^ k` in units of the least positive one. A finite double has one
form only: fewer than `2 ^ 53` units in the significand, and at least `2 ^ 52` of them unless the
exponent is zero.

The quotient of two natural numbers is rounded to the nearest double, a tie to the even significand.
-/

namespace BlockMusic

/-- The significand and exponent of a finite double in their only form. -/
def Double.IsCanonical (m k : Nat) : Prop :=
  m < Nat.pow 2 53 ∧ k ≤ 2045 ∧ (Nat.pow 2 52 ≤ m ∨ k = 0)

instance (m k : Nat) : Decidable (Double.IsCanonical m k) :=
  inferInstanceAs (Decidable (_ ∧ _ ∧ _))

/-- A double-precision number. -/
inductive Double where
  | nan
  | infinity (negative : Bool)
  | finite (negative : Bool) (m k : Nat) (canonical : Double.IsCanonical m k)
  deriving DecidableEq

namespace Double

theorem isCanonical_zero : IsCanonical 0 0 := by decide

/-- Positive or negative zero. -/
def zero (negative : Bool) : Double := .finite negative 0 0 isCanonical_zero

instance : Inhabited Double := ⟨zero false⟩

def isFinite : Double → Bool
  | .finite .. => true
  | _ => false

@[simp] theorem isFinite_finite (s : Bool) (m k : Nat) (h : IsCanonical m k) :
    (Double.finite s m k h).isFinite = true := rfl

/-- The magnitude of a finite double in units of the least positive one. -/
def units (m k : Nat) : Nat := m * Nat.pow 2 k

def isNan : Double → Bool
  | .nan => true
  | _ => false

/-- The place of a double in the order of the line. The two zeros share one place, and the
infinities lie beyond every finite double. A nan lies nowhere, and the zero here does not count. -/
def place : Double → Int
  | .nan => 0
  | .infinity s => if s then -(Nat.pow 2 2099 : Int) else Nat.pow 2 2099
  | .finite s m k _ => if s then -(units m k : Int) else units m k

/-- The first double lies before the second on the line, where a nan does not lie. -/
def isBefore (x y : Double) : Bool := !x.isNan && !y.isNan && x.place < y.place

/-- The doubles lie at the same place of the line, where a nan does not lie. -/
def isLevelWith (x y : Double) : Bool := !x.isNan && !y.isNan && x.place = y.place

/-- `n / d` rounded to the nearest natural number, a tie to the even one. -/
def roundDiv (n d : Nat) : Nat :=
  let q := n / d
  let r := n % d
  if d < 2 * r ∨ (2 * r = d ∧ q % 2 = 1) then q + 1 else q

/-- The double with the given significand and exponent. A significand of `2 ^ 53` carries over, and
beyond the greatest exponent lies infinity. -/
def pack (negative : Bool) (m k : Nat) : Double :=
  let m' := if m = Nat.pow 2 53 then Nat.pow 2 52 else m
  let k' := if m = Nat.pow 2 53 then k + 1 else k
  if h : IsCanonical m' k' then .finite negative m' k' h else .infinity negative

/-- The exponent at which a magnitude of `q` units and a fraction fills the significand. -/
def exponentFor (q : Nat) : Nat := q.log2 - 52

/-- The double nearest to `n / d`. -/
def ofRatio (negative : Bool) (n d : Nat) : Double :=
  let scaled := n * Nat.pow 2 1074
  let k := exponentFor (scaled / d)
  pack negative (roundDiv scaled (d * Nat.pow 2 k)) k

/-- The double nearest to `n · 10 ^ e`. A power of ten that takes every positive number beyond the
greatest double, or this one below half the least, is not computed. -/
def ofDecimal (negative : Bool) (n : Nat) (e : Int) : Double :=
  if n = 0 then zero negative
  else if 400 < e then .infinity negative
  else if e < -(400 + n.log2 : Int) then zero negative
  else if 0 ≤ e then ofRatio negative (n * Nat.pow 10 e.toNat) 1
  else ofRatio negative n (Nat.pow 10 (-e).toNat)

/-- The double nearest to an integer. -/
def ofInt (n : Int) : Double := ofRatio (n < 0) n.natAbs 1

/-- The double is an integer, and which. -/
def toInt? : Double → Option Int
  | .finite s m k _ =>
    if units m k % Nat.pow 2 1074 = 0 then
      let n : Int := (units m k / Nat.pow 2 1074 : Nat)
      some (if s then -n else n)
    else none
  | _ => none

end Double

end BlockMusic
