import BlockMusic.Literal
import Mathlib.Algebra.Field.Rat
import Mathlib.Data.List.Induction
import Mathlib.Data.List.TakeWhile
import Mathlib.Tactic.Ring

/-!
# How numbers are written

An integer is written as an optional minus sign and digits. A finite double is written as an optional
minus sign, digits, a point and digits, with a power of ten behind them or not: the point stands in
the mantissa also when the spelling of the shortest decimal has none, and the power is written as an
integer. Both are numerals of the script, and hold nothing but digits, points, minus signs and the mark
of the power. The numeral of an integer stands for the integer, and that of a double for its shortest
decimal.
-/

namespace BlockMusic

/-- One ASCII digit at least, and nothing else. -/
structure IsDigits (cs : List Char) : Prop where
  ne_nil : cs ≠ []
  digit : ∀ c ∈ cs, c.isDigit = true

namespace IsDigits

theorem toDigits (n : Nat) : IsDigits (Nat.toDigits 10 n) where
  ne_nil := Nat.toDigits_ne_nil
  digit _ hc := Nat.isDigit_of_mem_toDigits (by decide) (by decide) hc

theorem append {cs ds : List Char} (hc : IsDigits cs) (hd : ∀ d ∈ ds, d.isDigit = true) :
    IsDigits (cs ++ ds) where
  ne_nil := by simp [hc.ne_nil]
  digit c h := by
    rcases List.mem_append.1 h with h | h
    · exact hc.digit c h
    · exact hd c h

end IsDigits

theorem isDigit_of_mem_zeros {n : Nat} {c : Char} (h : c ∈ Decimal.zeros n) : c.isDigit = true := by
  rw [Decimal.zeros, List.mem_replicate] at h
  rw [h.2]
  decide

/-- The digits of a number with zeros in front of them. -/
theorem IsDigits.padded (j n : Nat) : IsDigits (Decimal.zeros j ++ Nat.toDigits 10 n) := by
  refine ⟨by simp [Nat.toDigits_ne_nil], fun c hc => ?_⟩
  rcases List.mem_append.1 hc with hc | hc
  · exact isDigit_of_mem_zeros hc
  · exact (IsDigits.toDigits n).digit c hc

namespace Text

theorem asciiDigit?_of_isDigit {c : Char} (h : c.isDigit = true) :
    asciiDigit? c = some (c.toNat - 48) := by
  have hc : '0' ≤ c ∧ c ≤ '9' := by
    simpa [Char.isDigit, Char.le_def] using h
  rw [asciiDigit?, if_pos hc]

/-- A run of digits ends where something else begins. -/
theorem digitRun_append {ds : List Char} (rest : List Char) (hds : ∀ d ∈ ds, d.isDigit = true)
    (hrest : ∀ c ∈ rest.head?, asciiDigit? c = none) :
    digitRun asciiDigit? (ds ++ rest) = (ds.map fun d => d.toNat - 48, rest) := by
  induction ds with
  | nil =>
      cases rest with
      | nil => rfl
      | cons c cs =>
          have hc : asciiDigit? c = none := hrest c rfl
          simp [digitRun, hc]
  | cons d ds ih =>
      have hd := asciiDigit?_of_isDigit (hds d (by simp))
      have htail := ih fun x hx => hds x (List.mem_cons_of_mem d hx)
      simp [digitRun, hd, htail]

theorem lt_ten_of_digit? {c : Char} {d : Nat} (h : digit? c = some d) : d < 10 := by
  obtain ⟨first, hfirst, rfl⟩ := Option.map_eq_some_iff.1 h
  have hbounds := List.find?_some hfirst
  simp only [Bool.and_eq_true, decide_eq_true_eq] at hbounds
  omega

theorem lt_ten_of_mem_digitRun (cs : List Char) : ∀ d ∈ (digitRun digit? cs).1, d < 10 := by
  induction cs with
  | nil => simp [digitRun]
  | cons c cs ih =>
      cases hc : digit? c with
      | none => simp [digitRun, hc]
      | some d => simpa [digitRun, hc] using ⟨lt_ten_of_digit? hc, ih⟩

theorem digitsValue_lt {ds : List Nat} (h : ∀ d ∈ ds, d < 10) : digitsValue ds < 10 ^ ds.length := by
  induction ds using List.reverseRecOn with
  | nil => exact Nat.one_pos
  | append_singleton ds d ih =>
      have hlast := h d (by simp)
      have hfront := ih fun d' hd' => h d' (by simp [hd'])
      rw [digitsValue_append_singleton, List.length_append, List.length_singleton, Nat.pow_succ]
      omega

@[simp] theorem digitsValue_map (ds : List Char) :
    digitsValue (ds.map fun d => d.toNat - 48) = Nat.ofDigitChars 10 ds 0 := by
  simp [digitsValue, Nat.ofDigitChars_eq_foldl, List.foldl_map]

end Text

namespace Numeral

open Text

/-- A minus sign in front of a negative number. -/
def minus (negative : Bool) : List Char := if negative then ['-'] else []

theorem sign_minus (negative : Bool) {cs : List Char} (h : ∀ c ∈ cs.head?, c.isDigit = true) :
    sign (minus negative ++ cs) = (negative, cs) := by
  cases negative with
  | true => rfl
  | false =>
      cases cs with
      | nil => rfl
      | cons c cs =>
          have hc : c.isDigit = true := h c rfl
          have hminus : c ≠ '-' := by
            rintro rfl
            simp [Char.isDigit] at hc
          have hplus : c ≠ '+' := by
            rintro rfl
            simp [Char.isDigit] at hc
          simp [minus, sign, hminus, hplus]

theorem lt_digitCount_pow (k : Nat) : k < digitCount (10 ^ k) := by
  have hpos : 0 < k ∨ k = 0 := by omega
  rw [digitCount, Int.natAbs_pow]
  rcases hpos with hk | rfl
  · exact lt_of_not_ge fun h => absurd ((Nat.length_toDigits_le_iff (by decide) hk).1 h) (by simp)
  · decide

/-- An integer has no more digits than are read for it. -/
theorem digitCount_integer_le {cs : List Char} {negative : Bool} {ds : List Nat}
    (h : integerDigits? digit? cs = some (negative, ds)) :
    digitCount (integer negative ds) ≤ ds.length := by
  unfold integerDigits? at h
  dsimp only at h
  split at h
  · cases h
  · rename_i ds' hne hrun
    obtain ⟨-, rfl⟩ := Prod.mk.inj (Option.some.inj h)
    have hdigits := lt_ten_of_mem_digitRun (sign cs).2
    rw [hrun] at hdigits
    have habs : (integer negative ds').natAbs = digitsValue ds' := by
      cases negative <;> simp [integer]
    have hpos : 0 < ds'.length := List.length_pos_iff.2 hne
    rw [digitCount, Nat.length_toDigits_le_iff (by decide) hpos, habs]
    exact digitsValue_lt hdigits
  · cases h

theorem head_isDigit {ds : List Char} (h : IsDigits ds) (rest : List Char) :
    ∀ c ∈ (ds ++ rest).head?, c.isDigit = true := by
  intro c hc
  cases ds with
  | nil => exact absurd rfl h.ne_nil
  | cons d ds =>
      obtain rfl : d = c := by simpa using hc
      exact h.digit d (by simp)

theorem integerDigits?_of_sign {negative : Bool} {cs ds : List Char}
    (hsign : sign cs = (negative, ds)) (h : IsDigits ds) :
    integerDigits? asciiDigit? cs = some (negative, ds.map fun d => d.toNat - 48) := by
  have hrun := digitRun_append [] h.digit (by simp)
  rw [List.append_nil] at hrun
  rw [integerDigits?, hsign]
  simp only [hrun]
  cases hds : ds with
  | nil => exact absurd hds h.ne_nil
  | cons d ds => rfl

/-- The integer with the given sign and digits, with zeros in front of them or not. -/
theorem integer_toDigits (z : Int) (j : Nat) :
    integer (decide (z < 0))
      ((Decimal.zeros j ++ Nat.toDigits 10 z.natAbs).map fun d => d.toNat - 48) = z := by
  have hvalue : Nat.ofDigitChars 10 (Decimal.zeros j ++ Nat.toDigits 10 z.natAbs) 0 = z.natAbs := by
    rw [Nat.ofDigitChars_append, Decimal.zeros, Nat.ofDigitChars_replicate_zero, Nat.mul_zero,
      Nat.ofDigitChars_ten_toDigits]
  rw [integer, digitsValue_map, hvalue]
  by_cases hz : z < 0
  · rw [decide_eq_true hz, if_pos rfl]
    omega
  · rw [decide_eq_false hz, if_neg Bool.false_ne_true]
    omega

/-- An integer in decimal: its sign and the digits of its magnitude. -/
theorem toList_toString (z : Int) :
    (toString z).toList = minus (decide (z < 0)) ++ Nat.toDigits 10 z.natAbs := by
  cases z with
  | ofNat n => simp [minus, Int.toString_eq_repr, Int.repr, Nat.toList_repr]
  | negSucc n => simp [minus, Int.toString_eq_repr, Int.repr, Nat.toList_repr]

theorem sign_toString (z : Int) :
    sign (toString z).toList = (decide (z < 0), Nat.toDigits 10 z.natAbs) := by
  rw [toList_toString]
  apply sign_minus
  simpa using head_isDigit (IsDigits.toDigits z.natAbs) []

theorem integerDigits?_toString (z : Int) :
    integerDigits? asciiDigit? (toString z).toList =
      some (decide (z < 0), (Nat.toDigits 10 z.natAbs).map fun d => d.toNat - 48) :=
  integerDigits?_of_sign (sign_toString z) (IsDigits.toDigits z.natAbs)

theorem exponent?_toString (z : Int) :
    exponent? asciiDigit? ('e' :: (toString z).toList) = some z := by
  rw [exponent?, if_pos (.inl rfl), integerDigits?_toString]
  exact congrArg some (integer_toDigits z 0)

/-- An integer in decimal is a numeral. -/
theorem ofChars?_toString (z : Int) :
    (ofChars? asciiDigit? (toString z).toList).isSome = true := by
  have hdigits := IsDigits.toDigits z.natAbs
  have hrun := digitRun_append [] hdigits.digit (by simp)
  rw [List.append_nil] at hrun
  rw [ofChars?, sign_toString]
  simp [hrun, hdigits.ne_nil, exponent?]

/-- The number that a numeral stands for, but for its sign. -/
def magnitude (n : Numeral) : ℚ := n.digits * 10 ^ n.exponent

/-- A numeral with digits on both sides of its point, and a power of ten behind them or not. -/
structure Pointed where
  negative : Bool
  whole : List Char
  fraction : List Char
  power : Option Int
  isDigits_whole : IsDigits whole
  isDigits_fraction : IsDigits fraction

namespace Pointed

variable (p : Pointed)

def powerChars : List Char := p.power.elim [] fun z => 'e' :: (toString z).toList

def chars : List Char := minus p.negative ++ p.whole ++ '.' :: p.fraction ++ p.powerChars

def numeral : Numeral where
  negative := p.negative
  digits := Nat.ofDigitChars 10 (p.whole ++ p.fraction) 0
  exponent := p.power.getD 0 - p.fraction.length

theorem sign_chars : sign p.chars = (p.negative, p.whole ++ '.' :: (p.fraction ++ p.powerChars)) := by
  have hchars : p.chars = minus p.negative ++ (p.whole ++ '.' :: (p.fraction ++ p.powerChars)) := by
    simp [chars]
  rw [hchars]
  exact sign_minus _ (head_isDigit p.isDigits_whole _)

/-- The digits in front of the point end there. -/
theorem digitRun_whole :
    digitRun asciiDigit? (p.whole ++ '.' :: (p.fraction ++ p.powerChars)) =
      (p.whole.map fun d => d.toNat - 48, '.' :: (p.fraction ++ p.powerChars)) :=
  digitRun_append _ p.isDigits_whole.digit (by simp [asciiDigit?])

theorem digitRun_fraction :
    digitRun asciiDigit? (p.fraction ++ p.powerChars) =
      (p.fraction.map fun d => d.toNat - 48, p.powerChars) := by
  apply digitRun_append _ p.isDigits_fraction.digit
  intro c hc
  unfold powerChars at hc
  cases hp : p.power with
  | none => simp [hp] at hc
  | some z =>
      obtain rfl : 'e' = c := by simpa [hp] using hc
      decide

theorem exponent?_powerChars : exponent? asciiDigit? p.powerChars = some (p.power.getD 0) := by
  unfold powerChars
  cases p.power with
  | none => rfl
  | some z => exact exponent?_toString z

theorem ofChars?_chars : ofChars? asciiDigit? p.chars = some p.numeral := by
  have hvalue := digitsValue_map (p.whole ++ p.fraction)
  rw [List.map_append] at hvalue
  rw [ofChars?, sign_chars]
  simp [digitRun_whole, digitRun_fraction, exponent?_powerChars, p.isDigits_whole.ne_nil, numeral,
    hvalue]

/-- With its point it is no integer. -/
theorem integerDigits?_chars : integerDigits? asciiDigit? p.chars = none := by
  rw [integerDigits?, sign_chars]
  simp only [digitRun_whole]
  cases h : p.whole with
  | nil => exact absurd h p.isDigits_whole.ne_nil
  | cons d ds => rfl

end Pointed

end Numeral

/-! ## What the script makes of a text -/

namespace Script

open Numeral

theorem ne_mark_of_isDigit {c : Char} (h : c.isDigit = true) : (c != 'e') = true := by
  simp only [bne_iff_ne, ne_eq]
  rintro rfl
  simp [Char.isDigit] at h

theorem ne_point_of_isDigit {c : Char} (h : c.isDigit = true) : c ≠ '.' := by
  rintro rfl
  simp [Char.isDigit] at h

theorem pointed_of_no_mark {cs : List Char} (h : ∀ c ∈ cs, (c != 'e') = true) :
    pointed cs = cs := by
  have hdrop : cs.dropWhile (· != 'e') = [] := List.dropWhile_eq_nil_iff.2 h
  simp [pointed, hdrop]

theorem pointed_mark {mantissa exponent : List Char} (h : ∀ c ∈ mantissa, (c != 'e') = true) :
    pointed (mantissa ++ 'e' :: exponent) =
      mantissa ++ (if mantissa.contains '.' then [] else ['.', '0']) ++
        'e' :: plainInteger exponent := by
  have htake : (mantissa ++ 'e' :: exponent).takeWhile (· != 'e') = mantissa := by
    rw [List.takeWhile_append_of_pos h]
    simp
  have hdrop : (mantissa ++ 'e' :: exponent).dropWhile (· != 'e') = 'e' :: exponent := by
    rw [List.dropWhile_append_of_pos h]
    simp
  simp [pointed, htake, hdrop]

theorem ne_mark_of_mem_minus {negative : Bool} {c : Char} (h : c ∈ minus negative) :
    (c != 'e') = true := by
  cases negative with
  | true =>
      obtain rfl : c = '-' := by simpa [minus] using h
      rfl
  | false => simp [minus] at h

end Script

/-! ## Spellings -/

namespace Numeral

open Text

/-- A number as the shortest decimal of a double is spelt: digits behind the point may be missing if
there is a power of ten, which has a sign and two digits at least. -/
structure Spelling where
  negative : Bool
  whole : List Char
  fraction : Option (List Char)
  power : Option (Bool × List Char)
  isDigits_whole : IsDigits whole
  isDigits_fraction : ∀ ds ∈ fraction, IsDigits ds
  isDigits_power : ∀ p ∈ power, IsDigits p.2 ∧ 2 ≤ p.2.length
  isSome_fraction : power = none → fraction.isSome = true

namespace Spelling

variable (s : Spelling)

def mantissaChars : List Char := minus s.negative ++ s.whole ++ s.fraction.elim [] ('.' :: ·)

def powerChars : List Char :=
  s.power.elim [] fun p => 'e' :: (if p.1 then '-' else '+') :: p.2

def chars : List Char := s.mantissaChars ++ s.powerChars

/-- The power of ten, zero if none is written. -/
def exponent : Int :=
  s.power.elim 0 fun p => if p.1 then -(Nat.ofDigitChars 10 p.2 0 : Int) else Nat.ofDigitChars 10 p.2 0

def numeral : Numeral where
  negative := s.negative
  digits := Nat.ofDigitChars 10 (s.whole ++ s.fraction.getD []) 0
  exponent := s.exponent - (s.fraction.getD []).length

/-- A sign and digits are read as the integer with this sign. -/
theorem integerDigits?_signed (negative : Bool) {ds : List Char} (h : IsDigits ds) :
    integerDigits? asciiDigit? ((if negative then '-' else '+') :: ds) =
      some (negative, ds.map fun d => d.toNat - 48) := by
  cases negative with
  | true => exact integerDigits?_of_sign rfl h
  | false => exact integerDigits?_of_sign rfl h

/-- The spelling with a point, and its power as an integer. -/
def pointed : Numeral.Pointed where
  negative := s.negative
  whole := s.whole
  fraction := s.fraction.getD ['0']
  power := s.power.map fun _ => s.exponent
  isDigits_whole := s.isDigits_whole
  isDigits_fraction := by
    cases hf : s.fraction with
    | none => exact ⟨by simp, by simp [Char.isDigit]⟩
    | some ds => exact s.isDigits_fraction ds hf

theorem getD_power_pointed : s.pointed.power.getD 0 = s.exponent := by
  unfold pointed exponent
  cases s.power <;> rfl

/-- The zero behind the point changes nothing. -/
theorem magnitude_pointed : s.pointed.numeral.magnitude = s.numeral.magnitude := by
  rw [magnitude, magnitude, Pointed.numeral, getD_power_pointed]
  cases hf : s.fraction with
  | none =>
      have hdigits : Nat.ofDigitChars 10 (s.whole ++ ['0']) 0 = 10 * Nat.ofDigitChars 10 s.whole 0 := by
        simp [Nat.ofDigitChars]
      have hten : (10 : ℚ) * 10 ^ (s.exponent - 1) = 10 ^ s.exponent := by
        rw [← zpow_one_add₀ (by norm_num)]
        congr 1
        omega
      simp only [pointed, numeral, hf, Option.getD_none, hdigits, List.length_singleton, List.append_nil,
        List.length_nil]
      push_cast
      rw [mul_right_comm, hten, sub_zero, mul_comm]
  | some ds => simp [pointed, numeral, hf]

theorem ne_mark_of_mem_mantissaChars {c : Char} (h : c ∈ s.mantissaChars) : (c != 'e') = true := by
  simp only [mantissaChars, List.mem_append] at h
  rcases h with (h | h) | h
  · exact Script.ne_mark_of_mem_minus h
  · exact Script.ne_mark_of_isDigit (s.isDigits_whole.digit c h)
  · cases hf : s.fraction with
    | none => simp [hf] at h
    | some ds =>
        rw [hf, Option.elim_some] at h
        rcases List.mem_cons.1 h with rfl | h
        · decide
        · exact Script.ne_mark_of_isDigit ((s.isDigits_fraction ds hf).digit c h)

theorem contains_point_mantissaChars : s.mantissaChars.contains '.' = s.fraction.isSome := by
  have hsign : '.' ∉ minus s.negative := by cases s.negative <;> simp [minus]
  have hwhole : '.' ∉ s.whole := fun h => Script.ne_point_of_isDigit (s.isDigits_whole.digit _ h) rfl
  cases hf : s.fraction with
  | none => simp [mantissaChars, hf, hsign, hwhole]
  | some ds => simp [mantissaChars, hf]

theorem plainInteger_power {p : Bool × List Char} (hp : s.power = some p) :
    Script.plainInteger ((if p.1 then '-' else '+') :: p.2) = (toString s.exponent).toList := by
  rw [Script.plainInteger, integerDigits?_signed p.1 (s.isDigits_power p hp).1]
  simp [exponent, hp, integer]

theorem pointed_chars : Script.pointed s.chars = s.pointed.chars := by
  cases hp : s.power with
  | none =>
      obtain ⟨ds, hf⟩ := Option.isSome_iff_exists.1 (s.isSome_fraction hp)
      have hchars : s.chars = s.mantissaChars := by simp [chars, powerChars, hp]
      rw [hchars, Script.pointed_of_no_mark fun c => s.ne_mark_of_mem_mantissaChars]
      simp [mantissaChars, Pointed.chars, Pointed.powerChars, pointed, hp, hf]
  | some p =>
      have hchars : s.chars = s.mantissaChars ++ 'e' :: (if p.1 then '-' else '+') :: p.2 := by
        simp [chars, powerChars, hp]
      rw [hchars, Script.pointed_mark fun c => s.ne_mark_of_mem_mantissaChars, s.plainInteger_power hp,
        contains_point_mantissaChars]
      cases hf : s.fraction with
      | none => simp [mantissaChars, Pointed.chars, Pointed.powerChars, pointed, hp, hf]
      | some ds => simp [mantissaChars, Pointed.chars, Pointed.powerChars, pointed, hp, hf]

end Spelling

end Numeral

/-! ## Doubles -/

namespace Decimal

theorem digits_ofScaled (n : Nat) (e : Int) : IsDigits (ofScaled n e).digits := by
  have hdigits := IsDigits.toDigits n
  simp only [ofScaled]
  split
  · exact ⟨by simp, by simp [Char.isDigit]⟩
  · rename_i hkept
    refine ⟨by simpa using hkept, ?_⟩
    intro c hc
    have hmem : c ∈ (Nat.toDigits 10 n).reverse :=
      (List.dropWhile_sublist _).subset (List.mem_reverse.1 hc)
    exact hdigits.digit c (List.mem_reverse.1 hmem)

/-- The number that a decimal stands for. -/
def magnitude (d : Decimal) : ℚ :=
  Nat.ofDigitChars 10 d.digits 0 * 10 ^ (d.scale + 1 - d.digits.length)

/-- Zeros at the end of the digits count as powers of ten. -/
theorem magnitude_eq {d : Decimal} {i : Nat} {e : Int} (he : e = d.scale + 1 - d.digits.length - i) :
    (Nat.ofDigitChars 10 (d.digits ++ zeros i) 0 : ℚ) * 10 ^ e = d.magnitude := by
  have hten : (10 : ℚ) ^ (d.scale + 1 - d.digits.length) = 10 ^ i * 10 ^ e := by
    rw [← zpow_natCast, ← zpow_add₀ (by norm_num), he]
    congr 1
    omega
  rw [magnitude, hten, Nat.ofDigitChars_append, zeros, Nat.ofDigitChars_replicate_zero]
  push_cast
  ring

@[simp] theorem ofDigitChars_zeros_append (i : Nat) (cs : List Char) :
    Nat.ofDigitChars 10 (zeros i ++ cs) 0 = Nat.ofDigitChars 10 cs 0 := by
  rw [Nat.ofDigitChars_append, zeros, Nat.ofDigitChars_replicate_zero, Nat.mul_zero]

/-- What is cut off the end of a text of digits is zeros. -/
theorem exists_append_zeros (ds : List Char) :
    ∃ i, ds = (ds.reverse.dropWhile (· == '0')).reverse ++ zeros i := by
  refine ⟨(ds.reverse.takeWhile (· == '0')).length, ?_⟩
  have hzeros : ds.reverse.takeWhile (· == '0') =
      zeros (ds.reverse.takeWhile (· == '0')).length := by
    refine List.eq_replicate_of_mem fun c hc => ?_
    simpa using List.mem_takeWhile_imp hc
  have hsplit := congrArg List.reverse
    (List.takeWhile_append_dropWhile (p := (· == '0')) (l := ds.reverse))
  rw [List.reverse_append, List.reverse_reverse, hzeros, zeros, List.reverse_replicate] at hsplit
  exact hsplit.symm

theorem ofScaled_eq (n : Nat) (e : Int) :
    ∃ kept i, Nat.toDigits 10 n = kept ++ zeros i ∧
      ofScaled n e = { digits := if kept.isEmpty then ['0'] else kept
                       scale := if kept.isEmpty then 0 else e + (Nat.toDigits 10 n).length - 1 } := by
  obtain ⟨i, hi⟩ := exists_append_zeros (Nat.toDigits 10 n)
  exact ⟨_, i, hi, rfl⟩

/-- Nothing is lost with the zeros at the end. -/
theorem magnitude_ofScaled (n : Nat) (e : Int) : (ofScaled n e).magnitude = n * 10 ^ e := by
  obtain ⟨kept, i, hi, hscaled⟩ := ofScaled_eq n e
  have hn : Nat.ofDigitChars 10 (Nat.toDigits 10 n) 0 = n := Nat.ofDigitChars_ten_toDigits
  rw [hscaled]
  cases kept with
  | nil =>
      have hzero : n = 0 := by
        rw [← hn, hi, zeros, List.nil_append, Nat.ofDigitChars_replicate_zero, Nat.mul_zero]
      simp [hzero, magnitude, Nat.ofDigitChars]
  | cons c cs =>
      have hlength := congrArg List.length hi
      rw [List.length_append, zeros, List.length_replicate] at hlength
      have hvalue := magnitude_eq (d := ⟨c :: cs, e + (Nat.toDigits 10 n).length - 1⟩) (i := i) (e := e)
        (by simp only [hlength]; omega)
      rw [← hi, hn] at hvalue
      exact hvalue.symm

/-- The positional form has digits on both sides of its point, and stands for the decimal. -/
theorem positional_eq {d : Decimal} (h : IsDigits d.digits) :
    ∃ whole fraction, d.positional = whole ++ '.' :: fraction ∧ IsDigits whole ∧
      IsDigits fraction ∧
      (Nat.ofDigitChars 10 (whole ++ fraction) 0 : ℚ) * 10 ^ (-fraction.length : Int) =
        d.magnitude := by
  have hzero : IsDigits ['0'] := ⟨by simp, by simp [Char.isDigit]⟩
  unfold positional
  split
  · rename_i hscale
    refine ⟨['0'], zeros (-d.scale - 1).toNat ++ d.digits, by simp, hzero, ?_, ?_⟩
    · refine ⟨by simp [h.ne_nil], ?_⟩
      intro c hc
      rcases List.mem_append.1 hc with hc | hc
      · exact isDigit_of_mem_zeros hc
      · exact h.digit c hc
    · have hfront : ['0'] ++ (zeros (-d.scale - 1).toNat ++ d.digits) =
          zeros ((-d.scale - 1).toNat + 1) ++ (d.digits ++ zeros 0) := by
        simp [zeros, List.replicate_succ]
      rw [hfront, ofDigitChars_zeros_append]
      apply magnitude_eq
      simp only [List.length_append, zeros, List.length_replicate]
      omega
  · rename_i hscale
    refine ⟨_, _, rfl, ?_, ?_, ?_⟩
    · refine IsDigits.append ⟨?_, ?_⟩ fun c hc => isDigit_of_mem_zeros hc
      · simp [h.ne_nil]
      · exact fun c hc => h.digit c (List.mem_of_mem_take hc)
    · split
      · exact hzero
      · rename_i hafter
        exact ⟨by simpa using hafter, fun c hc => h.digit c (List.mem_of_mem_drop hc)⟩
    · split
      · rename_i hafter
        have hlength : d.digits.length ≤ d.scale.toNat + 1 := by simpa using hafter
        have hall : d.digits.take (d.scale.toNat + 1) ++ zeros (d.scale.toNat + 1 - d.digits.length) ++
            ['0'] = d.digits ++ zeros (d.scale.toNat + 1 - d.digits.length + 1) := by
          rw [List.take_of_length_le hlength]
          simp [zeros, List.replicate_succ']
        rw [hall]
        apply magnitude_eq
        simp only [List.length_singleton]
        omega
      · rename_i hafter
        have hlength : d.scale.toNat + 1 < d.digits.length := by simpa using hafter
        have hall : d.digits.take (d.scale.toNat + 1) ++ zeros (d.scale.toNat + 1 - d.digits.length) ++
            d.digits.drop (d.scale.toNat + 1) = d.digits ++ zeros 0 := by
          simp [zeros, Nat.sub_eq_zero_of_le hlength.le]
        rw [hall]
        apply magnitude_eq
        rw [List.length_drop]
        omega

/-- How the exponential form is spelt. -/
def exponentialSpelling (negative : Bool) {d : Decimal} (h : IsDigits d.digits) : Numeral.Spelling where
  negative := negative
  whole := d.digits.take 1
  fraction := if d.digits.tail = [] then none else some d.digits.tail
  power := some (decide (d.scale < 0),
    zeros (2 - (Nat.toDigits 10 d.scale.natAbs).length) ++ Nat.toDigits 10 d.scale.natAbs)
  isDigits_whole := ⟨by simp [h.ne_nil], fun c hc => h.digit c (List.mem_of_mem_take hc)⟩
  isDigits_fraction := by
    intro ds hds
    split at hds
    · cases hds
    · rename_i hne
      cases hds
      exact ⟨hne, fun c hc => h.digit c (List.mem_of_mem_tail hc)⟩
  isDigits_power := by
    rintro p ⟨⟩
    refine ⟨.padded _ _, ?_⟩
    simp only [zeros, List.length_append, List.length_replicate]
    omega
  isSome_fraction := by simp

theorem chars_exponentialSpelling (negative : Bool) {d : Decimal} (h : IsDigits d.digits) :
    (exponentialSpelling negative h).chars = Numeral.minus negative ++ d.exponential := by
  by_cases ht : d.digits.tail = [] <;>
    simp [exponentialSpelling, Numeral.Spelling.chars, Numeral.Spelling.mantissaChars,
      Numeral.Spelling.powerChars, exponential, ht]

theorem exponent_exponentialSpelling (negative : Bool) {d : Decimal} (h : IsDigits d.digits) :
    (exponentialSpelling negative h).exponent = d.scale := by
  have hvalue := Numeral.integer_toDigits d.scale (2 - (Nat.toDigits 10 d.scale.natAbs).length)
  rw [Numeral.integer, Text.digitsValue_map] at hvalue
  exact hvalue

/-- The first digit and the others are the digits, so the spelling stands for the decimal. -/
theorem magnitude_exponentialSpelling (negative : Bool) {d : Decimal} (h : IsDigits d.digits) :
    (exponentialSpelling negative h).numeral.magnitude = d.magnitude := by
  have htail : (if d.digits.tail = [] then none else some d.digits.tail).getD [] = d.digits.tail := by
    split <;> simp_all
  have hdigits : d.digits.take 1 ++ d.digits.tail = d.digits := by
    rw [← List.drop_one, List.take_append_drop]
  have hpower : d.scale - (d.digits.tail.length : Int) = d.scale + 1 - d.digits.length := by
    have hlength := congrArg List.length hdigits
    have hpos := List.length_pos_iff.2 h.ne_nil
    rw [List.length_tail]
    omega
  rw [Numeral.magnitude, Numeral.Spelling.numeral, exponent_exponentialSpelling, magnitude]
  simp only [exponentialSpelling, htail, hdigits, hpower]

/-- Every decimal is written in a spelling that stands for it. -/
theorem exists_spelling (negative : Bool) {d : Decimal} (h : IsDigits d.digits) :
    ∃ s : Numeral.Spelling, s.chars = Numeral.minus negative ++ d.chars ∧ s.negative = negative ∧
      s.numeral.magnitude = d.magnitude := by
  rw [chars]
  split
  · obtain ⟨whole, fraction, heq, hwhole, hfraction, hvalue⟩ := positional_eq h
    refine ⟨⟨negative, whole, some fraction, none, hwhole, by simpa using hfraction, by simp, by simp⟩,
      ?_, rfl, ?_⟩
    · simp [Numeral.Spelling.chars, Numeral.Spelling.mantissaChars, Numeral.Spelling.powerChars, heq]
    · simpa [Numeral.magnitude, Numeral.Spelling.numeral, Numeral.Spelling.exponent] using hvalue
  · exact ⟨exponentialSpelling negative h, chars_exponentialSpelling negative h, rfl,
      magnitude_exponentialSpelling negative h⟩

end Decimal

theorem Double.exists_spelling (negative : Bool) (m k : Nat) :
    ∃ s : Numeral.Spelling, s.chars = Numeral.minus negative ++ (shortest m k).chars ∧
      s.negative = negative ∧ s.numeral.magnitude = (shortest m k).magnitude :=
  Decimal.exists_spelling negative (Decimal.digits_ofScaled _ _)

namespace Script

open Numeral Text

theorem float_eq_ok {x : Double} {s : String} (h : Script.float x = .ok s) :
    ∃ negative m k hc, x = .finite negative m k hc ∧ ∃ p : Numeral.Pointed, s.toList = p.chars ∧
      p.negative = negative ∧ p.numeral.magnitude = (Double.shortest m k).magnitude := by
  cases x with
  | nan => simp [Script.float, Double.isFinite] at h
  | infinity s => simp [Script.float, Double.isFinite] at h
  | finite negative m k hcanonical =>
      have hs : s.toList = pointed (minus negative ++ (Double.shortest m k).chars) := by
        simp only [Script.float, Double.isFinite, if_true, Except.ok.injEq] at h
        rw [← h, String.toList_ofList]
        rfl
      obtain ⟨spelling, hchars, hnegative, hvalue⟩ := Double.exists_spelling negative m k
      rw [← hchars, spelling.pointed_chars] at hs
      exact ⟨negative, m, k, hcanonical, rfl, spelling.pointed, hs, hnegative,
        spelling.magnitude_pointed.trans hvalue⟩

/-- A finite double is written as a numeral. -/
theorem ofChars?_float {x : Double} {s : String} (h : Script.float x = .ok s) :
    (Numeral.ofChars? asciiDigit? s.toList).isSome = true := by
  obtain ⟨_, _, _, _, _, p, hs, _, _⟩ := float_eq_ok h
  rw [hs, p.ofChars?_chars]
  rfl

/-- The characters of a number. -/
def isNumberChar (c : Char) : Bool := c.isDigit || c == '.' || c == 'e' || c == '-'

theorem isNumberChar_of_mem_minus {negative : Bool} {c : Char} (h : c ∈ minus negative) :
    isNumberChar c = true := by
  cases negative with
  | true =>
      obtain rfl : c = '-' := by simpa [minus] using h
      rfl
  | false => simp [minus] at h

theorem isNumberChar_of_isDigit {c : Char} (h : c.isDigit = true) : isNumberChar c = true := by
  simp [isNumberChar, h]

theorem isNumberChar_of_mem_toString {z : Int} {c : Char} (h : c ∈ (toString z).toList) :
    isNumberChar c = true := by
  rw [toList_toString] at h
  rcases List.mem_append.1 h with h | h
  · exact isNumberChar_of_mem_minus h
  · exact isNumberChar_of_isDigit ((IsDigits.toDigits _).digit c h)

theorem isNumberChar_of_mem_float {x : Double} {s : String} (hs : Script.float x = .ok s) {c : Char}
    (h : c ∈ s.toList) : isNumberChar c = true := by
  obtain ⟨_, _, _, _, _, p, heq, _, _⟩ := float_eq_ok hs
  rw [heq] at h
  simp only [Pointed.chars, List.mem_append, List.mem_cons] at h
  rcases h with ((h | h) | rfl | h) | h
  · exact isNumberChar_of_mem_minus h
  · exact isNumberChar_of_isDigit (p.isDigits_whole.digit c h)
  · rfl
  · exact isNumberChar_of_isDigit (p.isDigits_fraction.digit c h)
  · unfold Pointed.powerChars at h
    cases hp : p.power with
    | none => simp [hp] at h
    | some z =>
        rw [hp] at h
        rcases List.mem_cons.1 h with rfl | h
        · rfl
        · exact isNumberChar_of_mem_toString h

end Script

end BlockMusic
