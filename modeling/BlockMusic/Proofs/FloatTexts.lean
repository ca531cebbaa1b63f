import BlockMusic.Proofs.NumberFields

/-!
# The text of a double

The shortest decimal of a double is spelt with a sign and two digits at least in its power of ten, and
with a point only where there are digits behind it. The script takes that spelling and gives it a point
if it has none, and writes its power as an integer. Main statement: the spelling and what the script
makes of it stand for the same number, whatever digits, zeros and signs the spelling has.
-/

namespace BlockMusic

namespace Numeral

open Text

/-- The number that a numeral stands for. -/
def value (n : Numeral) : ℚ := if n.negative then -n.magnitude else n.magnitude

/-- The number that a text stands for. -/
def denoted? (cs : List Char) : Option ℚ := (ofChars? asciiDigit? cs).map value

/-! ## What a spelling stands for -/

namespace Spelling

variable (s : Spelling)

theorem exponent?_power : exponent? asciiDigit? s.powerChars = some s.exponent := by
  unfold powerChars exponent
  cases hp : s.power with
  | none => rfl
  | some p =>
      have hread := integerDigits?_signed p.1 (s.isDigits_power p hp).1
      rw [Option.elim_some, exponent?, if_pos (.inl rfl), hread, Option.map_some]
      simp [integer]

theorem sign_spelling :
    sign s.chars = (s.negative, s.whole ++ (s.fraction.elim [] ('.' :: ·) ++ s.powerChars)) := by
  have hchars : s.chars =
      minus s.negative ++ (s.whole ++ (s.fraction.elim [] ('.' :: ·) ++ s.powerChars)) := by
    simp [chars, mantissaChars]
  rw [hchars]
  exact sign_minus _ (head_isDigit s.isDigits_whole _)

/-- Without a point the digits are followed by the mark of the power. -/
theorem powerChars_eq_of_fraction (h : s.fraction = none) : ∃ cs, s.powerChars = 'e' :: cs := by
  cases hp : s.power with
  | none =>
      have hsome := s.isSome_fraction hp
      simp [h] at hsome
  | some p => exact ⟨_, by rw [powerChars, hp, Option.elim_some]⟩

theorem digitRun_powerChars {ds : List Char} (h : IsDigits ds) :
    digitRun asciiDigit? (ds ++ s.powerChars) = (ds.map fun d => d.toNat - 48, s.powerChars) := by
  apply digitRun_append _ h.digit
  intro c hc
  unfold powerChars at hc
  cases hp : s.power with
  | none => simp [hp] at hc
  | some p =>
      obtain rfl : 'e' = c := by simpa [hp] using hc
      decide

theorem ofChars?_spelling : ofChars? asciiDigit? s.chars = some s.numeral := by
  have hvalue := digitsValue_map (s.whole ++ s.fraction.getD [])
  rw [List.map_append] at hvalue
  rw [ofChars?, sign_spelling]
  cases hf : s.fraction with
  | none =>
      obtain ⟨cs, hcs⟩ := s.powerChars_eq_of_fraction hf
      have hwhole := s.digitRun_powerChars s.isDigits_whole
      have hpower := s.exponent?_power
      rw [hcs] at hwhole hpower
      rw [hf] at hvalue
      simp [hcs, hwhole, hpower, s.isDigits_whole.ne_nil, numeral, hf]
  | some ds =>
      have hwhole := digitRun_append ('.' :: (ds ++ s.powerChars)) s.isDigits_whole.digit
        (by simp [asciiDigit?])
      have hfraction := s.digitRun_powerChars (s.isDigits_fraction ds hf)
      rw [hf] at hvalue
      simp only [Option.getD_some] at hvalue
      simp [hwhole, hfraction, s.exponent?_power, s.isDigits_whole.ne_nil, numeral, hf, hvalue]

theorem denoted?_spelling : denoted? s.chars = some s.numeral.value := by
  rw [denoted?, ofChars?_spelling, Option.map_some]

theorem denoted?_pointed : denoted? (Script.pointed s.chars) = some s.numeral.value := by
  rw [denoted?, pointed_chars, Pointed.ofChars?_chars, Option.map_some, value, value, magnitude_pointed]
  rfl

end Spelling

namespace Pointed

theorem count_point_of_isDigits {ds : List Char} (h : ∀ d ∈ ds, d.isDigit = true) : ds.count '.' = 0 :=
  List.count_eq_zero.2 fun hmem => Script.ne_point_of_isDigit (h _ hmem) rfl

theorem count_point_minus (negative : Bool) : (minus negative).count '.' = 0 := by
  cases negative <;> rfl

/-- There is no second point. -/
theorem count_point (p : Numeral.Pointed) : p.chars.count '.' = 1 := by
  have hpower : p.powerChars.count '.' = 0 := by
    unfold powerChars
    cases p.power with
    | none => rfl
    | some z =>
        have hdigits := count_point_of_isDigits (IsDigits.toDigits z.natAbs).digit
        rw [Option.elim_some, toList_toString]
        simp [count_point_minus, hdigits]
  have hwhole := count_point_of_isDigits p.isDigits_whole.digit
  have hfraction := count_point_of_isDigits p.isDigits_fraction.digit
  simp [chars, count_point_minus, hwhole, hfraction, hpower]

end Pointed

end Numeral

/-! ## What the script writes -/

open Numeral

namespace Script

/-- The script writes a number that is spelt as doubles are without changing it: with one point between
digits, and with its power, if it has one, in plain decimal. This is what it does to every finite
double. -/
theorem float_text_keeps_number :
    (∀ s : Spelling,
      denoted? s.chars = some s.numeral.value ∧ denoted? (pointed s.chars) = some s.numeral.value ∧
      (pointed s.chars).count '.' = 1 ∧
      ∃ whole fraction power, pointed s.chars = minus s.negative ++ whole ++ '.' :: fraction ++ power ∧
        IsDigits whole ∧ IsDigits fraction ∧ (s.power = none → power = []) ∧
        (s.power ≠ none → ∃ cs, power = 'e' :: cs ∧ IsDecimalOf s.exponent cs)) ∧
    ∀ x : Double, x.isFinite = true →
      ∃ s : Spelling, s.chars = x.chars ∧ Script.float x = .ok (String.ofList (pointed s.chars)) := by
  refine ⟨fun s => ⟨s.denoted?_spelling, s.denoted?_pointed, ?_, ?_⟩, fun x hx => ?_⟩
  · rw [s.pointed_chars]
    exact s.pointed.count_point
  · refine ⟨_, _, _, s.pointed_chars, s.pointed.isDigits_whole, s.pointed.isDigits_fraction, ?_, ?_⟩
    · intro hp
      simp [Pointed.powerChars, Spelling.pointed, hp]
    · intro hp
      obtain ⟨p, hp⟩ := Option.ne_none_iff_exists'.1 hp
      refine ⟨_, ?_, isDecimalOf_toString s.exponent⟩
      simp [Pointed.powerChars, Spelling.pointed, hp]
  · cases x with
    | nan => cases hx
    | infinity => cases hx
    | finite negative m k =>
        obtain ⟨s, hs, -, -⟩ := Double.exists_spelling negative m k
        exact ⟨s, hs, by rw [Script.float, if_pos hx, hs]; rfl⟩

/-- A spelling without a point, with a zero in front of its power. -/
def paddedPower : Spelling where
  negative := true
  whole := ['1', '2']
  fraction := none
  power := some (true, ['0', '7'])
  isDigits_whole := ⟨by simp, by simp [Char.isDigit]⟩
  isDigits_fraction := by simp
  isDigits_power := by simpa using ⟨by simp, by simp [Char.isDigit]⟩
  isSome_fraction := by simp

theorem paddedPower_keeps_number :
    paddedPower.chars = "-12e-07".toList ∧ pointed paddedPower.chars = "-12.0e-7".toList ∧
      denoted? "-12.0e-7".toList = denoted? "-12e-07".toList ∧
      (Double.ofDecimal false 1 22).isFinite = true ∧
      ∃ s : Spelling, s.chars = "1e+22".toList ∧
        Script.float (Double.ofDecimal false 1 22) = .ok (String.ofList (pointed s.chars)) := by
  have hchars : paddedPower.chars = "-12e-07".toList := by decide
  have hpointed : pointed paddedPower.chars = "-12.0e-7".toList := by decide +kernel
  have hfinite : (Double.ofDecimal false 1 22).isFinite = true := by decide +kernel
  have htext : (Double.ofDecimal false 1 22).chars = "1e+22".toList := by decide +kernel
  obtain ⟨hbefore, hafter, -⟩ := float_text_keeps_number.1 paddedPower
  obtain ⟨s, hs, hfloat⟩ := float_text_keeps_number.2 _ hfinite
  rw [hpointed] at hafter
  rw [hchars] at hbefore
  exact ⟨hchars, hpointed, hafter.trans hbefore.symm, hfinite, s, hs.trans htext, hfloat⟩

end Script

end BlockMusic
