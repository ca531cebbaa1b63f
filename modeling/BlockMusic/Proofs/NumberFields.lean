import BlockMusic.Proofs.Decoding
import BlockMusic.Proofs.Drafts

/-!
# Number fields

A number field takes texts of two forms, with the decimal digits of any script and blanks around them.
The integer form is an optional sign and digits. The decimal form has digits before or behind a point,
or without one, and a power of ten behind them or not. The forms are stated as such here, and the reader
is shown to take exactly these texts.

What is returned for a field is a number again, in the form that a number has in a script. Read as the
text of a field it gives the same number, so it is returned unchanged.
-/

namespace BlockMusic

/-! ## Digits -/

namespace Text

/-- The characters are digits, of any script, with the given values. -/
def SpellDigits (cs : List Char) (ds : List Nat) : Prop := cs.map digit? = ds.map some

namespace SpellDigits

variable {c : Char} {cs cs' : List Char} {d : Nat} {ds ds' : List Nat}

theorem nil : SpellDigits [] [] := rfl

theorem cons_iff : SpellDigits (c :: cs) (d :: ds) ↔ digit? c = some d ∧ SpellDigits cs ds := by
  simp [SpellDigits]

theorem digit (h : SpellDigits cs ds) (hc : c ∈ cs) : ∃ d, digit? c = some d := by
  have hmem : digit? c ∈ ds.map some := h ▸ List.mem_map_of_mem hc
  obtain ⟨d, -, hd⟩ := List.mem_map.1 hmem
  exact ⟨d, hd.symm⟩

theorem length_eq (h : SpellDigits cs ds) : cs.length = ds.length := by
  simpa using congrArg List.length h

theorem eq_nil_iff (h : SpellDigits cs ds) : cs = [] ↔ ds = [] := by
  rw [← List.length_eq_zero_iff, h.length_eq, List.length_eq_zero_iff]

end SpellDigits

theorem toNat_of_isDigit {c : Char} (h : c.isDigit = true) : 48 ≤ c.toNat ∧ c.toNat < 58 := by
  have hbounds : '0' ≤ c ∧ c ≤ '9' := by simpa [Char.isDigit, Char.le_def] using h
  have hlow : '0'.toNat ≤ c.toNat := hbounds.1
  have hhigh : c.toNat ≤ '9'.toNat := hbounds.2
  exact ⟨hlow, Nat.lt_succ_of_le hhigh⟩

theorem digit?_of_isDigit {c : Char} (h : c.isDigit = true) : digit? c = some (c.toNat - 48) := by
  have hc := toNat_of_isDigit h
  simp [digit?, digitZeros, hc]

theorem spells_of_isDigit {cs : List Char} (h : ∀ c ∈ cs, c.isDigit = true) :
    SpellDigits cs (cs.map fun c => c.toNat - 48) := by
  rw [SpellDigits, List.map_map]
  exact List.map_congr_left fun c hc => digit?_of_isDigit (h c hc)

/-- A run of digits is what stands in front of the first other character. -/
theorem digitRun_of_spells {cs : List Char} {ds : List Nat} (h : SpellDigits cs ds) (rest : List Char)
    (hrest : ∀ c ∈ rest.head?, digit? c = none) : digitRun digit? (cs ++ rest) = (ds, rest) := by
  induction cs generalizing ds with
  | nil =>
      obtain rfl := h.eq_nil_iff.1 rfl
      cases rest with
      | nil => rfl
      | cons c rest =>
          have hc : digit? c = none := hrest c rfl
          simp [digitRun, hc]
  | cons c cs ih =>
      cases ds with
      | nil => cases h.eq_nil_iff.2 rfl
      | cons d ds =>
          obtain ⟨hc, hcs⟩ := SpellDigits.cons_iff.1 h
          simp [digitRun, hc, ih hcs]

theorem spells_digitRun (cs : List Char) :
    ∃ front, cs = front ++ (digitRun digit? cs).2 ∧ SpellDigits front (digitRun digit? cs).1 := by
  induction cs with
  | nil => exact ⟨[], rfl, .nil⟩
  | cons c cs ih =>
      cases hc : digit? c with
      | none => exact ⟨[], by simp [digitRun, hc], by simp [digitRun, hc, SpellDigits.nil]⟩
      | some d =>
          obtain ⟨front, hcs, hfront⟩ := ih
          refine ⟨c :: front, ?_, ?_⟩
          · simpa [digitRun, hc] using hcs
          · simpa [digitRun, hc] using SpellDigits.cons_iff.2 ⟨hc, hfront⟩

end Text

/-! ## The forms of a number -/

namespace Numeral

open Text

/-- An optional sign and what stands behind it. -/
inductive Signed : List Char → Bool → List Char → Prop
  | minus (cs : List Char) : Signed ('-' :: cs) true cs
  | plus (cs : List Char) : Signed ('+' :: cs) false cs
  | none (cs : List Char) : Signed cs false cs

/-- An optional sign and one digit at least. -/
def IntegerForm (cs : List Char) (negative : Bool) (ds : List Nat) : Prop :=
  ∃ rest, Signed cs negative rest ∧ SpellDigits rest ds ∧ ds ≠ []

/-- Digits with a point behind, among or before them, or with none. -/
inductive Mantissa : List Char → List Nat → List Nat → Prop
  | whole {cs : List Char} {whole : List Nat} (h : SpellDigits cs whole) (hne : whole ≠ []) :
      Mantissa cs whole []
  | point {cs cs' : List Char} {whole fraction : List Nat} (h : SpellDigits cs whole)
      (h' : SpellDigits cs' fraction) (hne : whole ≠ [] ∨ fraction ≠ []) :
      Mantissa (cs ++ '.' :: cs') whole fraction

/-- A mark and an integer, or nothing. -/
inductive Power : List Char → Int → Prop
  | none : Power [] 0
  | mark {c : Char} {cs : List Char} {negative : Bool} {ds : List Nat} (hc : c = 'e' ∨ c = 'E')
      (h : IntegerForm cs negative ds) : Power (c :: cs) (integer negative ds)

/-- An optional sign, a mantissa and an optional power of ten. -/
inductive DecimalForm : List Char → Numeral → Prop
  | intro {cs mantissa power : List Char} {negative : Bool} {whole fraction : List Nat} {e : Int}
      (hsign : Signed cs negative (mantissa ++ power)) (hmantissa : Mantissa mantissa whole fraction)
      (hpower : Power power e) :
      DecimalForm cs ⟨negative, digitsValue (whole ++ fraction), e - fraction.length⟩

theorem signed_sign (cs : List Char) : Signed cs (sign cs).1 (sign cs).2 := by
  unfold sign
  split
  · exact .minus _
  · exact .plus _
  · exact .none _

theorem sign_of_signed {cs rest : List Char} {negative : Bool} (h : Signed cs negative rest)
    (hrest : ∀ c ∈ rest.head?, c ≠ '-' ∧ c ≠ '+') : sign cs = (negative, rest) := by
  cases h with
  | minus => rfl
  | plus => rfl
  | none =>
      cases cs with
      | nil => rfl
      | cons c cs =>
          obtain ⟨hminus, hplus⟩ := hrest c rfl
          simp [sign, hminus, hplus]

/-- Digits do not begin with a sign. -/
theorem not_sign_of_digit {c : Char} {d : Nat} (h : digit? c = some d) : c ≠ '-' ∧ c ≠ '+' := by
  constructor
  · rintro rfl
    cases h
  · rintro rfl
    cases h

theorem head_digit_of_spells {cs : List Char} {ds : List Nat} (h : SpellDigits cs ds) (rest : List Char)
    (hne : ds ≠ []) : ∀ c ∈ (cs ++ rest).head?, ∃ d, digit? c = some d := by
  intro c hc
  cases cs with
  | nil => exact absurd (h.eq_nil_iff.1 rfl) hne
  | cons c' cs =>
      obtain rfl : c' = c := by simpa using hc
      exact h.digit List.mem_cons_self

/-- The reader takes the texts of the integer form. -/
theorem integerDigits?_eq_some {cs : List Char} {negative : Bool} {ds : List Nat} :
    integerDigits? digit? cs = some (negative, ds) ↔ IntegerForm cs negative ds := by
  constructor
  · intro h
    obtain ⟨front, hcs, hfront⟩ := spells_digitRun (sign cs).2
    have hsigned := signed_sign cs
    unfold integerDigits? at h
    dsimp only at h
    split at h
    · cases h
    · rename_i ds' hne hrun
      rw [hrun] at hcs hfront
      rw [List.append_nil] at hcs
      cases h
      exact ⟨front, hcs ▸ hsigned, hfront, hne⟩
    · cases h
  · rintro ⟨rest, hsigned, hspells, hne⟩
    have hhead := head_digit_of_spells hspells [] hne
    rw [List.append_nil] at hhead
    have hsign : sign cs = (negative, rest) := by
      refine sign_of_signed hsigned fun c hc => ?_
      obtain ⟨d, hd⟩ := hhead c hc
      exact not_sign_of_digit hd
    have hrun := digitRun_of_spells hspells [] (by simp)
    rw [List.append_nil] at hrun
    rw [integerDigits?, hsign]
    simp only [hrun]

theorem integerDigits?_eq_none {cs : List Char} (h : ∀ negative ds, ¬ IntegerForm cs negative ds) :
    integerDigits? digit? cs = none :=
  Option.eq_none_iff_forall_not_mem.2 fun read hread =>
    h read.1 read.2 (integerDigits?_eq_some.1 hread)

/-- The reader of powers takes what is written as one. -/
theorem exponent?_eq_some {cs : List Char} {e : Int} : exponent? digit? cs = some e ↔ Power cs e := by
  constructor
  · intro h
    cases cs with
    | nil =>
        cases h
        exact .none
    | cons c cs =>
        by_cases hc : c = 'e' ∨ c = 'E'
        · rw [exponent?, if_pos hc] at h
          obtain ⟨⟨negative, ds⟩, hdigits, rfl⟩ := Option.map_eq_some_iff.1 h
          exact .mark hc (integerDigits?_eq_some.1 hdigits)
        · rw [exponent?, if_neg hc] at h
          cases h
  · rintro (_ | ⟨hc, hform⟩)
    · rfl
    · rw [exponent?, if_pos hc, integerDigits?_eq_some.2 hform]
      rfl

/-- A power begins neither with a digit nor with a point. -/
theorem head_of_power {cs : List Char} {e : Int} (h : Power cs e) :
    ∀ c ∈ cs.head?, digit? c = none ∧ c ≠ '.' := by
  intro c hc
  cases h with
  | none => cases hc
  | mark hmark _ =>
      obtain rfl := Option.some.inj hc
      rcases hmark with rfl | rfl
      · decide
      · decide

/-- What stands behind a mantissa, once its whole part is read: a point with digits or nothing. -/
def fractionRun (cs : List Char) : List Nat × List Char :=
  match cs with
  | '.' :: rest => digitRun digit? rest
  | rest => ([], rest)

theorem fractionRun_of_ne {cs : List Char} (h : ∀ c ∈ cs.head?, c ≠ '.') :
    fractionRun cs = ([], cs) := by
  unfold fractionRun
  split
  · exact absurd rfl (h '.' rfl)
  · rfl

theorem ofChars?_eq (cs : List Char) :
    ofChars? digit? cs =
      let whole := (digitRun digit? (sign cs).2).1
      let fraction := fractionRun (digitRun digit? (sign cs).2).2
      if whole.isEmpty && fraction.1.isEmpty then none
      else (exponent? digit? fraction.2).map fun e =>
        ⟨(sign cs).1, digitsValue (whole ++ fraction.1), e - fraction.1.length⟩ := rfl

/-- Behind the digits that begin a text stand the rest of a mantissa and a power. -/
theorem mantissa_fractionRun {front rest : List Char} {whole : List Nat} (h : SpellDigits front whole)
    (hne : ¬ (whole.isEmpty && (fractionRun rest).1.isEmpty) = true) :
    ∃ mantissa, front ++ rest = mantissa ++ (fractionRun rest).2 ∧
      Mantissa mantissa whole (fractionRun rest).1 := by
  unfold fractionRun at hne ⊢
  split
  · rename_i rest
    obtain ⟨fraction, hrest, hfraction⟩ := spells_digitRun rest
    refine ⟨front ++ '.' :: fraction, by simpa using hrest, .point h hfraction ?_⟩
    by_contra hnone
    exact hne (by simpa using hnone)
  · rename_i hpoint
    refine ⟨front, rfl, .whole h ?_⟩
    rintro rfl
    apply hne
    split
    · exact absurd rfl (hpoint _)
    · rfl

/-- A mantissa and a power behind it are read as such. -/
theorem digitRun_mantissa {mantissa power : List Char} {whole fraction : List Nat} {e : Int}
    (h : Mantissa mantissa whole fraction) (hpower : Power power e) :
    ∃ rest, digitRun digit? (mantissa ++ power) = (whole, rest) ∧
      fractionRun rest = (fraction, power) := by
  have hhead := head_of_power hpower
  cases h with
  | whole hwhole _ =>
      exact ⟨power, digitRun_of_spells hwhole power fun c hc => (hhead c hc).1,
        fractionRun_of_ne fun c hc => (hhead c hc).2⟩
  | @point cs cs' _ _ hwhole hfraction _ =>
      refine ⟨'.' :: (cs' ++ power), ?_, ?_⟩
      · rw [List.append_assoc]
        refine digitRun_of_spells hwhole _ fun c hc => ?_
        obtain rfl := Option.some.inj hc
        decide
      · exact digitRun_of_spells hfraction power fun c hc => (hhead c hc).1

theorem not_empty_of_mantissa {mantissa : List Char} {whole fraction : List Nat}
    (h : Mantissa mantissa whole fraction) : ¬ (whole.isEmpty && fraction.isEmpty) = true := by
  cases h with
  | whole _ hne => simpa using hne
  | point _ _ hne => simpa [imp_iff_not_or] using hne

/-- A mantissa does not begin with a sign. -/
theorem head_of_mantissa {mantissa : List Char} {whole fraction : List Nat}
    (h : Mantissa mantissa whole fraction) (rest : List Char) :
    ∀ c ∈ (mantissa ++ rest).head?, c ≠ '-' ∧ c ≠ '+' := by
  intro c hc
  cases h with
  | whole hwhole hne =>
      obtain ⟨d, hd⟩ := head_digit_of_spells hwhole rest hne c hc
      exact not_sign_of_digit hd
  | @point cs cs' _ _ hwhole _ _ =>
      rw [List.append_assoc] at hc
      by_cases hne : whole = []
      · rw [hwhole.eq_nil_iff.2 hne] at hc
        obtain rfl := Option.some.inj hc
        decide
      · obtain ⟨d, hd⟩ := head_digit_of_spells hwhole _ hne c hc
        exact not_sign_of_digit hd

/-- The reader takes the texts of the decimal form. -/
theorem ofChars?_eq_some {cs : List Char} {n : Numeral} :
    ofChars? digit? cs = some n ↔ DecimalForm cs n := by
  constructor
  · intro h
    have hsigned := signed_sign cs
    obtain ⟨front, hfront, hwhole⟩ := spells_digitRun (sign cs).2
    rw [ofChars?_eq] at h
    dsimp only at h
    split at h
    · cases h
    · rename_i hne
      obtain ⟨e, he, rfl⟩ := Option.map_eq_some_iff.1 h
      obtain ⟨mantissa, hsplit, hmantissa⟩ := mantissa_fractionRun hwhole hne
      rw [hfront, hsplit] at hsigned
      exact .intro hsigned hmantissa (exponent?_eq_some.1 he)
  · rintro ⟨hsigned, hmantissa, hpower⟩
    have hsign := sign_of_signed hsigned (head_of_mantissa hmantissa _)
    obtain ⟨rest, hrun, hfraction⟩ := digitRun_mantissa hmantissa hpower
    rw [ofChars?_eq]
    simp only [hsign, hrun, hfraction]
    rw [if_neg (not_empty_of_mantissa hmantissa), exponent?_eq_some.2 hpower]
    rfl

theorem ofChars?_eq_none {cs : List Char} (h : ∀ n, ¬ DecimalForm cs n) : ofChars? digit? cs = none :=
  Option.eq_none_iff_forall_not_mem.2 fun n hn => h n (ofChars?_eq_some.1 hn)

/-! ## Canonical forms -/

/-- The characters are the decimal of an integer: a minus sign if it is negative, no plus sign, and no
zero in front of other digits. -/
def IsDecimalOf (z : Int) (cs : List Char) : Prop :=
  ∃ ds, cs = minus (decide (z < 0)) ++ ds ∧ IsDigits ds ∧ (ds.head? = some '0' → ds = ['0']) ∧
    Nat.ofDigitChars 10 ds 0 = z.natAbs

theorem head_toDigits {n : Nat} (h : (Nat.toDigits 10 n).head? = some '0') :
    Nat.toDigits 10 n = ['0'] := by
  induction n using Nat.strongRecOn with
  | ind n ih =>
      by_cases hn : n < 10
      · rw [Nat.toDigits_of_lt_base hn] at h ⊢
        rw [Option.some.inj h]
      · -- the digits in front of the last one would be a lone zero, but the number is ten at least
        have hsplit := Nat.toDigits_of_base_le (b := 10) (by decide) (Nat.le_of_not_lt hn)
        have hfront : (Nat.toDigits 10 (n / 10)).head? = some '0' := by
          rw [hsplit, List.head?_append_of_ne_nil _ Nat.toDigits_ne_nil] at h
          exact h
        have hzero := ih (n / 10) (by omega) hfront
        have hvalue : Nat.ofDigitChars 10 (Nat.toDigits 10 (n / 10)) 0 = n / 10 :=
          Nat.ofDigitChars_ten_toDigits
        rw [hzero] at hvalue
        have hdiv : n / 10 = 0 := hvalue.symm
        omega

theorem isDecimalOf_toString (z : Int) : IsDecimalOf z (toString z).toList :=
  ⟨Nat.toDigits 10 z.natAbs, toList_toString z, .toDigits _, head_toDigits,
    Nat.ofDigitChars_ten_toDigits⟩

/-! ## Numbers as they are written -/

theorem signed_minus (negative : Bool) (cs : List Char) : Signed (minus negative ++ cs) negative cs := by
  cases negative with
  | true => exact .minus cs
  | false => exact .none cs

theorem integerForm_toString (z : Int) :
    IntegerForm (toString z).toList (decide (z < 0))
      ((Nat.toDigits 10 z.natAbs).map fun c => c.toNat - 48) := by
  have hdigits := IsDigits.toDigits z.natAbs
  refine ⟨Nat.toDigits 10 z.natAbs, ?_, spells_of_isDigit hdigits.digit, by simp [hdigits.ne_nil]⟩
  rw [toList_toString]
  exact signed_minus _ _

theorem mem_of_signed {cs rest : List Char} {negative : Bool} {c : Char} (h : Signed cs negative rest)
    (hc : c ∈ cs) (hne : c ≠ '-' ∧ c ≠ '+') : c ∈ rest := by
  cases h with
  | minus => simpa [hne.1] using hc
  | plus => simpa [hne.2] using hc
  | none => exact hc

namespace Pointed

variable (p : Numeral.Pointed)

theorem power_powerChars : Power p.powerChars (p.power.getD 0) := by
  unfold powerChars
  cases p.power with
  | none => exact .none
  | some z =>
      have hpower := Power.mark (c := 'e') (.inl rfl) (integerForm_toString z)
      have hz := integer_toDigits z 0
      rw [Decimal.zeros, List.replicate_zero, List.nil_append] at hz
      rw [hz] at hpower
      exact hpower

theorem decimalForm_chars : DecimalForm p.chars p.numeral := by
  have hwhole := spells_of_isDigit p.isDigits_whole.digit
  have hfraction := spells_of_isDigit p.isDigits_fraction.digit
  have hmantissa := Mantissa.point hwhole hfraction (.inl (by simp [p.isDigits_whole.ne_nil]))
  have hsigned : Signed p.chars p.negative (p.whole ++ '.' :: p.fraction ++ p.powerChars) := by
    have hchars : p.chars = minus p.negative ++ (p.whole ++ '.' :: p.fraction ++ p.powerChars) := by
      simp [chars]
    rw [hchars]
    exact signed_minus _ _
  have hform := DecimalForm.intro hsigned hmantissa p.power_powerChars
  rw [← List.map_append, digitsValue_map, List.length_map] at hform
  exact hform

/-- With its point it is not of the integer form. -/
theorem not_integerForm_chars {negative : Bool} {ds : List Nat} :
    ¬ IntegerForm p.chars negative ds := by
  rintro ⟨rest, hsigned, hspells, -⟩
  have hpoint : '.' ∈ p.chars := by simp [chars]
  obtain ⟨d, hd⟩ := hspells.digit (mem_of_signed hsigned hpoint (by decide))
  cases hd

end Pointed

end Numeral

/-! ## Fields -/

namespace Text

/-- Blanks at the ends are all that is taken away. -/
theorem trimWhile_of_none {p : Char → Bool} {cs : List Char} (h : ∀ c ∈ cs, p c = false) :
    trimWhile p cs = cs := by
  have hdrop : ∀ ds : List Char, (∀ c ∈ ds, p c = false) → ds.dropWhile p = ds := by
    intro ds hds
    cases ds with
    | nil => rfl
    | cons c ds => rw [List.dropWhile_cons_of_neg (by simp [hds c (by simp)])]
  rw [trimWhile, hdrop cs h, dropEndWhile, hdrop cs.reverse (fun c hc => h c (List.mem_reverse.1 hc)),
    List.reverse_reverse]

/-- The characters of a text without the blanks at its ends. -/
def stripped (s : String) : List Char := trimWhile isBlank s.toList

theorem isBlank_of_isNumberChar {c : Char} (h : Script.isNumberChar c = true) : isBlank c = false := by
  simp only [Script.isNumberChar, Bool.or_eq_true, beq_iff_eq] at h
  rcases h with ((h | rfl) | rfl) | rfl
  · obtain ⟨hlow, hhigh⟩ := toNat_of_isDigit h
    simp only [isBlank, Bool.or_eq_false_iff, Bool.and_eq_false_iff, decide_eq_false_iff_not,
      beq_eq_false_iff_ne]
    omega
  · rfl
  · rfl
  · rfl

theorem stripped_of_isNumberChar {s : String} (h : ∀ c ∈ s.toList, Script.isNumberChar c = true) :
    stripped s = s.toList :=
  trimWhile_of_none fun c hc => isBlank_of_isNumberChar (h c hc)

end Text

namespace Arguments

open Numeral Text

theorem readNumber_of_integerForm {s : String} {negative : Bool} {ds : List Nat}
    (h : IntegerForm (stripped s) negative ds) (hlength : ds.length ≤ digitLimit) :
    readNumber s = .integer (integer negative ds) := by
  unfold readNumber
  dsimp only
  rw [← stripped, integerDigits?_eq_some.2 h]
  exact if_neg (Nat.not_lt.2 hlength)

theorem readNumber_of_decimalForm {s : String} {n : Numeral} (h : DecimalForm (stripped s) n)
    (hinteger : ∀ negative ds, ¬ IntegerForm (stripped s) negative ds) :
    readNumber s = .float n.toDouble := by
  unfold readNumber
  dsimp only
  rw [← stripped, integerDigits?_eq_none hinteger, ofChars?_eq_some.2 h]

theorem readNumber_of_neither {s : String}
    (hinteger : ∀ negative ds, ¬ IntegerForm (stripped s) negative ds)
    (hdecimal : ∀ n, ¬ DecimalForm (stripped s) n) : readNumber s = .none := by
  unfold readNumber
  dsimp only
  rw [← stripped, integerDigits?_eq_none hinteger, ofChars?_eq_none hdecimal]

/-- What is written for an integer is read as the integer. -/
theorem readNumber_integer {z : Int} {s : String} (h : Script.integer z = .ok s) :
    readNumber s = .integer z := by
  obtain ⟨hshort, rfl⟩ := Script.integer_eq_ok.1 h
  have hform := integerForm_toString z
  have hstripped : stripped (toString z) = (toString z).toList :=
    stripped_of_isNumberChar fun c hc => Script.isNumberChar_of_mem_toString hc
  have hz := integer_toDigits z 0
  rw [Decimal.zeros, List.replicate_zero, List.nil_append] at hz
  rw [← hstripped] at hform
  rw [readNumber_of_integerForm hform (by simpa [digitCount] using hshort), hz]

/-- What is written for a double is read as the double. -/
theorem readNumber_float {x : Double} {s : String} (h : Script.float x = .ok s) :
    readNumber s = .float x := by
  obtain ⟨negative, m, k, hcanonical, rfl, p, hs, rfl, hvalue⟩ := Script.float_eq_ok h
  have hx : p.numeral.toDouble = .finite p.negative m k hcanonical :=
    Script.toDouble_of_magnitude hcanonical hvalue
  have hstripped : stripped s = p.chars :=
    (stripped_of_isNumberChar fun c hc => Script.isNumberChar_of_mem_float h hc).trans hs
  have hform : DecimalForm (stripped s) p.numeral := hstripped ▸ p.decimalForm_chars
  rw [readNumber_of_decimalForm hform fun _ _ => hstripped ▸ p.not_integerForm_chars, hx]

/-- The value is not taken for a number: a text of neither form, a boolean, or nothing. -/
def NoNumber : Option Scalar → Prop
  | some (.text s) =>
      (∀ negative ds, ¬ IntegerForm (stripped s) negative ds) ∧ ∀ n, ¬ DecimalForm (stripped s) n
  | some (.int _) => False
  | some (.float _) => False
  | some (.bool _) => True
  | none => True

theorem numberIn_of_noNumber {v : Option Scalar} (h : NoNumber v) : numberIn v = .none := by
  cases v with
  | none => rfl
  | some v =>
      cases v with
      | text s => exact readNumber_of_neither h.1 h.2
      | int z => exact h.elim
      | float x => exact h.elim
      | bool b => rfl

variable {a : Arguments} {name : String}

theorem number_of_integer {z : Int} {t : String} (h : numberIn (a.fieldValue name) = .integer z)
    (ht : Script.integer z = .ok t) : a.number name = .done t := by
  simp only [number, h, ht]
  rfl

theorem number_of_float {x : Double} {t : String} (h : numberIn (a.fieldValue name) = .float x)
    (ht : Script.float x = .ok t) : a.number name = .done t := by
  simp only [number, h, ht]
  rfl

theorem number_of_none (h : numberIn (a.fieldValue name) = .none) :
    a.number name = ⟨.ok "0", [.notANumber a.node.name name]⟩ := by
  rw [number, h]

/-- What is returned for a number field is read as the number that it stands for. -/
theorem readNumber_of_returned {t : String} (h : (a.number name).outcome = .ok t) :
    (∃ z, Script.integer z = .ok t ∧ readNumber t = .integer z) ∨
      ∃ x, Script.float x = .ok t ∧ readNumber t = .float x := by
  cases hread : numberIn (a.fieldValue name) with
  | integer z =>
      rw [number, hread] at h
      have hz := Draft.outcome_ofRender_eq_ok.1 h
      exact .inl ⟨z, hz, readNumber_integer hz⟩
  | float x =>
      rw [number, hread] at h
      have hx := Draft.outcome_ofRender_eq_ok.1 h
      exact .inr ⟨x, hx, readNumber_float hx⟩
  | longInteger digits =>
      rw [number, hread] at h
      cases h
  | none =>
      rw [number_of_none hread] at h
      cases h
      have hzero : Script.integer 0 = .ok "0" := by decide
      exact .inl ⟨0, hzero, readNumber_integer hzero⟩

/-- Number fields are read exactly. A text of the integer form gives the decimal of the integer, and one
of the decimal form the script form of the double; so do integers and doubles themselves. Whatever is
no number gives zero and one diagnostic. What is returned gives itself when it is read as the text of a
field. -/
theorem number_field_exact (a : Arguments) (name : String) :
    (∀ s negative ds, a.fieldValue name = some (.text s) → IntegerForm (stripped s) negative ds →
      ds.length ≤ 4300 →
      ∃ t, a.number name = .done t ∧ IsDecimalOf (integer negative ds) t.toList) ∧
    (∀ s n, a.fieldValue name = some (.text s) → DecimalForm (stripped s) n →
      (∀ negative ds, ¬ IntegerForm (stripped s) negative ds) → n.toDouble.isFinite = true →
      ∃ t, a.number name = .done t ∧ Script.float n.toDouble = .ok t) ∧
    (∀ z, a.fieldValue name = some (.int z) → digitCount z ≤ 4300 →
      ∃ t, a.number name = .done t ∧ Script.integer z = .ok t ∧ IsDecimalOf z t.toList) ∧
    (∀ x, a.fieldValue name = some (.float x) → x.isFinite = true →
      ∃ t, a.number name = .done t ∧ Script.float x = .ok t) ∧
    (NoNumber (a.fieldValue name) →
      a.number name = ⟨.ok "0", [.notANumber a.node.name name]⟩) ∧
    (∀ t, (a.number name).outcome = .ok t →
      ∀ (a' : Arguments) (name' : String), a'.fieldValue name' = some (.text t) →
        a'.number name' = .done t) := by
  refine ⟨?_, ?_, ?_, ?_, ?_, ?_⟩
  · intro s negative ds hvalue hform hlength
    have hread : numberIn (a.fieldValue name) = .integer (integer negative ds) := by
      rw [hvalue]
      exact readNumber_of_integerForm hform hlength
    have ht : Script.integer (integer negative ds) = .ok _ :=
      if_pos ((digitCount_integer_le (integerDigits?_eq_some.2 hform)).trans hlength)
    exact ⟨_, number_of_integer hread ht, isDecimalOf_toString _⟩
  · intro s n hvalue hform hinteger hfinite
    have hread : numberIn (a.fieldValue name) = .float n.toDouble := by
      rw [hvalue]
      exact readNumber_of_decimalForm hform hinteger
    have ht : Script.float n.toDouble = .ok _ := if_pos hfinite
    exact ⟨_, number_of_float hread ht, ht⟩
  · intro z hvalue hshort
    have hread : numberIn (a.fieldValue name) = .integer z := by
      rw [hvalue]
      rfl
    have ht : Script.integer z = .ok _ := if_pos hshort
    exact ⟨_, number_of_integer hread ht, ht, isDecimalOf_toString z⟩
  · intro x hvalue hfinite
    have hread : numberIn (a.fieldValue name) = .float x := by
      rw [hvalue]
      rfl
    have ht : Script.float x = .ok _ := if_pos hfinite
    exact ⟨_, number_of_float hread ht, ht⟩
  · exact fun h => number_of_none (numberIn_of_noNumber h)
  · intro t ht a' name' hvalue
    have hread : numberIn (a'.fieldValue name') = readNumber t := by
      rw [hvalue]
      rfl
    rcases readNumber_of_returned ht with ⟨z, hz, hinteger⟩ | ⟨x, hx, hfloat⟩
    · exact number_of_integer (hread.trans hinteger) hz
    · exact number_of_float (hread.trans hfloat) hx

/-- The arguments for a number block whose field holds a value. -/
def ofNumber (v : Scalar) : Arguments where
  node := { id := "a", kind := "math_number", fields := [("NUM", v)] }
  block := { kind := "math_number", category := "math" }
  indentUnit := "  "

theorem ofNumber_exact :
    (∃ t, (ofNumber (.text " -٠٠٧\n")).number "NUM" = .done t ∧ IsDecimalOf (-7) t.toList) ∧
    (∃ t, (ofNumber (.text "1e3")).number "NUM" = .done t ∧
      Script.float (Numeral.toDouble ⟨false, 1, 3⟩) = .ok t) ∧
    (∃ t, (ofNumber (.int (-7))).number "NUM" = .done t ∧ Script.integer (-7) = .ok t ∧
      IsDecimalOf (-7) t.toList) ∧
    (∃ t, (ofNumber (.float (Double.ofDecimal true 15 (-1)))).number "NUM" = .done t ∧
      Script.float (Double.ofDecimal true 15 (-1)) = .ok t) ∧
    (ofNumber (.bool true)).number "NUM" = ⟨.ok "0", [.notANumber ⟨"a", "math_number"⟩ "NUM"]⟩ ∧
    (ofNumber (.text "-1.5")).number "NUM" = .done "-1.5" := by
  have hseven : IntegerForm (stripped " -٠٠٧\n") true [0, 0, 7] :=
    integerDigits?_eq_some.1 (by decide)
  have hthousand : DecimalForm (stripped "1e3") ⟨false, 1, 3⟩ := ofChars?_eq_some.1 (by decide)
  have hmark : ∀ negative ds, ¬ IntegerForm (stripped "1e3") negative ds := by
    intro negative ds h
    cases integerDigits?_eq_some.2 h
  have hfloat := (number_field_exact (ofNumber (.float (Double.ofDecimal true 15 (-1)))) "NUM").2.2.2.1 _
    rfl (by decide +kernel)
  refine ⟨?_, ?_, ?_, hfloat, ?_, ?_⟩
  · exact (number_field_exact (ofNumber (.text " -٠٠٧\n")) "NUM").1 _ true [0, 0, 7] rfl hseven (by decide)
  · exact (number_field_exact (ofNumber (.text "1e3")) "NUM").2.1 _ _ rfl hthousand hmark
      (by decide +kernel)
  · exact (number_field_exact (ofNumber (.int (-7))) "NUM").2.2.1 (-7) rfl (by decide)
  · exact (number_field_exact (ofNumber (.bool true)) "NUM").2.2.2.2.1 trivial
  · obtain ⟨t, ht, hscript⟩ := hfloat
    have hhalves : Script.float (Double.ofDecimal true 15 (-1)) = .ok "-1.5" := by decide +kernel
    obtain rfl := Except.ok.inj (hscript.symm.trans hhalves)
    exact (number_field_exact (ofNumber (.float (Double.ofDecimal true 15 (-1)))) "NUM").2.2.2.2.2 "-1.5"
      (by rw [ht]; rfl) _ _ rfl

end Arguments

end BlockMusic
