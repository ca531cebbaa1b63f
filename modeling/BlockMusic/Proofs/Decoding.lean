import BlockMusic.Proofs.Rounding
import BlockMusic.Proofs.Tokens

/-!
# Reading literals back

A literal is read from the front of a text. A quote opens a text that goes on to the next quote that
is not escaped, a bracket opens a list with commas between its items, and everything else is a word up
to the next comma, closing bracket or blank: an integer if it is a sign and digits, a double if it is
another numeral, or a truth value.

The reader undoes the script form. Of a double the script holds the shortest decimal, and the double
nearest to that is the double itself, however the decimal is laid out.
-/

namespace BlockMusic

namespace Script

open Numeral Text

/-- The characters in front of which a literal may end. -/
def endsLiteral (c : Char) : Bool := c == ',' || c == ']' || c == ')' || c == ' '

/-- Reads a text up to the quote that closes it. -/
def readQuoted? : List Char → Option (List Char × List Char)
  | [] => none
  | c :: cs =>
    if c = '"' then some ([], cs)
    else if c = '\\' then
      match cs with
      | [] => none
      | x :: cs => (unescape? x).bind fun y => (readQuoted? cs).map fun r => (y :: r.1, r.2)
    else (readQuoted? cs).map fun r => (c :: r.1, r.2)

/-- The value of a word. With a point or a power of ten a numeral is a double. -/
def wordScalar? (w : List Char) : Option Scalar :=
  match integerDigits? asciiDigit? w with
  | some (negative, ds) => some (.int (Numeral.integer negative ds))
  | none =>
    match ofChars? asciiDigit? w with
    | some n => some (.float n.toDouble)
    | none =>
      if w = ['t', 'r', 'u', 'e'] then some (.bool true)
      else if w = ['f', 'a', 'l', 's', 'e'] then some (.bool false)
      else none

def readScalar? : List Char → Option (Scalar × List Char)
  | [] => none
  | c :: cs =>
    if c = '"' then (readQuoted? cs).map fun r => (.text (String.ofList r.1), r.2)
    else
      (wordScalar? ((c :: cs).takeWhile (!endsLiteral ·))).map fun s =>
        (s, (c :: cs).dropWhile (!endsLiteral ·))

theorem length_of_readQuoted? {cs w rest : List Char} (h : readQuoted? cs = some (w, rest)) :
    rest.length < cs.length := by
  fun_induction readQuoted? cs generalizing w with
  | case1 => cases h
  | case2 cs =>
      obtain ⟨_, rfl⟩ := Prod.mk.inj (Option.some.inj h)
      exact Nat.lt_succ_self _
  | case3 => cases h
  | case4 x cs _ ih =>
      obtain ⟨y, _, h⟩ := Option.bind_eq_some_iff.1 h
      obtain ⟨r, hr, h⟩ := Option.map_eq_some_iff.1 h
      obtain ⟨_, rfl⟩ := Prod.mk.inj h
      have hshorter := ih hr
      simp only [List.length_cons]
      omega
  | case5 c cs _ _ ih =>
      obtain ⟨r, hr, h⟩ := Option.map_eq_some_iff.1 h
      obtain ⟨_, rfl⟩ := Prod.mk.inj h
      exact Nat.lt_succ_of_lt (ih hr)

theorem length_of_readScalar? {cs rest : List Char} {s : Scalar}
    (h : readScalar? cs = some (s, rest)) : rest.length ≤ cs.length := by
  cases cs with
  | nil => cases h
  | cons c cs =>
      rw [readScalar?] at h
      split at h
      · obtain ⟨r, hr, h⟩ := Option.map_eq_some_iff.1 h
        obtain ⟨_, rfl⟩ := Prod.mk.inj h
        exact (Nat.lt_succ_of_lt (length_of_readQuoted? hr)).le
      · obtain ⟨r, hr, h⟩ := Option.map_eq_some_iff.1 h
        obtain ⟨_, rfl⟩ := Prod.mk.inj h
        exact (List.dropWhile_sublist _).length_le

/-- Reads items up to the bracket that closes the list. -/
def readItems? (cs : List Char) : Option (List Scalar × List Char) :=
  match _h : readScalar? cs with
  | some (s, c :: rest) =>
    if c = ',' then (readItems? rest).map fun r => (s :: r.1, r.2)
    else if c = ']' then some ([s], rest)
    else none
  | _ => none
termination_by cs.length
decreasing_by exact length_of_readScalar? _h

/-- Reads a literal from the front of a text. -/
def readLiteral? : List Char → Option (Literal × List Char)
  | [] => none
  | c :: cs =>
    if c = '[' then
      if cs.head? = some ']' then some (.list [], cs.tail)
      else (readItems? cs).map fun r => (.list r.1, r.2)
    else (readScalar? (c :: cs)).map fun r => (.scalar r.1, r.2)

end Script

/-- Reads a literal from the front of a text, with the text behind it. -/
def Literal.read? (s : String) : Option (Literal × String) :=
  (Script.readLiteral? s.toList).map fun r => (r.1, String.ofList r.2)

/-! ## Single literals -/

namespace Script

open Numeral Text

/-- A literal may end in front of the text. -/
def EndsLiteral (cs : List Char) : Prop := ∀ c ∈ cs.head?, endsLiteral c = true

/-- Whatever a quoted text holds, it ends at its own closing quote. -/
theorem readQuoted?_escaped (cs rest : List Char) :
    readQuoted? (cs.flatMap escapeChar ++ '"' :: rest) = some (cs, rest) := by
  induction cs with
  | nil =>
      unfold readQuoted?
      rfl
  | cons c cs ih =>
      rw [List.flatMap_cons, List.append_assoc]
      rcases escapeChar_cases c with ⟨hself, hquote, hslash⟩ | ⟨x, hescape, hx⟩
      · unfold readQuoted?
        simp [hself, hquote, hslash, ih]
      · simp [hescape, readQuoted?, hx, ih]

theorem readScalar?_quote (s : String) (rest : List Char) :
    readScalar? ((Script.string s).toList ++ rest) = some (.text s, rest) := by
  have hcs : (Script.string s).toList ++ rest = '"' :: (s.toList.flatMap escapeChar ++ '"' :: rest) := by
    simp [Script.string, quote]
  rw [hcs, readScalar?, if_pos rfl, readQuoted?_escaped, Option.map_some, String.ofList_toList]

/-- A word is read to its end. -/
theorem readScalar?_word {w rest : List Char} {s : Scalar} (hquote : '"' ∉ w)
    (hw : w.all (!endsLiteral ·) = true) (hvalue : wordScalar? w = some s)
    (hrest : EndsLiteral rest) : readScalar? (w ++ rest) = some (s, rest) := by
  have hinside : ∀ c ∈ w, (!endsLiteral c) = true := List.all_eq_true.1 hw
  have hstop : rest.takeWhile (!endsLiteral ·) = [] ∧ rest.dropWhile (!endsLiteral ·) = rest := by
    cases rest with
    | nil => exact ⟨rfl, rfl⟩
    | cons c cs =>
        have hc : endsLiteral c = true := hrest c rfl
        simp [hc]
  have htake : (w ++ rest).takeWhile (!endsLiteral ·) = w := by
    rw [List.takeWhile_append_of_pos hinside, hstop.1, List.append_nil]
  have hdrop : (w ++ rest).dropWhile (!endsLiteral ·) = rest := by
    rw [List.dropWhile_append_of_pos hinside, hstop.2]
  cases w with
  | nil => simp [wordScalar?, integerDigits?, ofChars?, sign] at hvalue
  | cons c cs =>
      have hc : c ≠ '"' := fun hc => hquote (by simp [hc])
      rw [List.cons_append] at htake hdrop ⊢
      rw [readScalar?, if_neg hc, htake, hdrop, hvalue, Option.map_some]

theorem endsLiteral_of_isNumberChar {c : Char} (h : isNumberChar c = true) :
    endsLiteral c = false := by
  unfold endsLiteral
  simp only [Bool.or_eq_false_iff, beq_eq_false_iff_ne, ne_eq]
  refine ⟨⟨⟨?_, ?_⟩, ?_⟩, ?_⟩ <;> rintro rfl <;> simp [isNumberChar, Char.isDigit] at h

theorem readScalar?_number {w rest : List Char} {s : Scalar} (hw : ∀ c ∈ w, isNumberChar c = true)
    (hvalue : wordScalar? w = some s) (hrest : EndsLiteral rest) :
    readScalar? (w ++ rest) = some (s, rest) := by
  refine readScalar?_word ?_ (List.all_eq_true.2 fun c hc => ?_) hvalue hrest
  · exact fun hquote => absurd (hw _ hquote) (by decide)
  · rw [endsLiteral_of_isNumberChar (hw c hc), Bool.not_false]

theorem wordScalar?_integer (z : Int) : wordScalar? (toString z).toList = some (.int z) := by
  have hz := integer_toDigits z 0
  unfold wordScalar?
  rw [integerDigits?_toString]
  exact congrArg (fun z => some (Scalar.int z)) hz

/-- The double nearest to the decimal that is written for a double is the double. -/
theorem toDouble_of_magnitude {n : Numeral} {m k : Nat} (h : Double.IsCanonical m k)
    (hvalue : n.magnitude = (Double.shortest m k).magnitude) :
    n.toDouble = .finite n.negative m k h := by
  obtain ⟨d, e, hshortest, hreads⟩ := Double.exists_shortest_eq h
  rw [hshortest, Decimal.magnitude_ofScaled] at hvalue
  rw [Numeral.toDouble, Double.ofDecimal_congr n.negative hvalue, hreads]

theorem wordScalar?_float {x : Double} {s : String} (h : Script.float x = .ok s) :
    wordScalar? s.toList = some (.float x) := by
  obtain ⟨negative, m, k, hcanonical, rfl, p, hs, rfl, hvalue⟩ := float_eq_ok h
  have hx : p.numeral.toDouble = .finite p.negative m k hcanonical :=
    toDouble_of_magnitude hcanonical hvalue
  unfold wordScalar?
  rw [hs, p.integerDigits?_chars, p.ofChars?_chars, ← hx]

theorem readScalar?_boolean (b : Bool) {rest : List Char} (hrest : EndsLiteral rest) :
    readScalar? ((Script.boolean b).toList ++ rest) = some (.bool b, rest) := by
  cases b with
  | true => exact readScalar?_word (by decide) (by decide) (by decide) hrest
  | false => exact readScalar?_word (by decide) (by decide) (by decide) hrest

end Script

open Script

namespace Scalar

/-- A single literal is read back from its script form. -/
theorem read?_of_script {s : Scalar} {text : String} (h : s.script = .ok text) (rest : List Char)
    (hrest : EndsLiteral rest) : readScalar? (text.toList ++ rest) = some (s, rest) := by
  cases s with
  | text s =>
      obtain rfl := Except.ok.inj h
      exact readScalar?_quote s rest
  | int z =>
      obtain ⟨-, rfl⟩ := Script.integer_eq_ok.1 h
      exact readScalar?_number (fun c hc => isNumberChar_of_mem_toString hc) (wordScalar?_integer z) hrest
  | float x => exact readScalar?_number (fun c hc => isNumberChar_of_mem_float h hc) (wordScalar?_float h) hrest
  | bool b =>
      obtain rfl := Except.ok.inj h
      exact readScalar?_boolean b hrest

/-- A single literal does not begin as a list does, nor as one ends. -/
theorem head_script {s : Scalar} {text : String} (h : s.script = .ok text) :
    ∃ c cs, text.toList = c :: cs ∧ c ≠ '[' ∧ c ≠ ']' := by
  have hnumber : ∀ c, isNumberChar c = true → c ≠ '[' ∧ c ≠ ']' := by
    intro c hc
    constructor <;> rintro rfl <;> simp [isNumberChar, Char.isDigit] at hc
  cases hcs : text.toList with
  | nil =>
      have hread := read?_of_script h [] (by simp [EndsLiteral])
      rw [hcs] at hread
      cases hread
  | cons c cs =>
      have hmem : c ∈ text.toList := by simp [hcs]
      refine ⟨c, cs, rfl, ?_⟩
      cases s with
      | text s =>
          obtain rfl := Except.ok.inj h
          rw [Script.string, String.toList_ofList] at hcs
          obtain rfl := (List.cons.inj hcs).1
          decide
      | int z =>
          obtain ⟨-, rfl⟩ := Script.integer_eq_ok.1 h
          exact hnumber c (isNumberChar_of_mem_toString hmem)
      | float x => exact hnumber c (isNumberChar_of_mem_float h hmem)
      | bool b =>
          obtain rfl := Except.ok.inj h
          cases b <;> obtain rfl := (List.cons.inj hcs).1 <;> decide

end Scalar

/-! ## Lists -/

namespace Script

theorem readItems?_comma {cs rest : List Char} {s : Scalar}
    (h : readScalar? cs = some (s, ',' :: rest)) :
    readItems? cs = (readItems? rest).map fun r => (s :: r.1, r.2) := by
  rw [readItems?]
  split
  · rename_i s' c rest' h'
    obtain ⟨rfl, hrest⟩ := Prod.mk.inj (Option.some.inj (h.symm.trans h'))
    obtain ⟨rfl, rfl⟩ := List.cons.inj hrest
    rw [if_pos rfl]
  · rename_i hnone
    exact absurd h (hnone _ _ _)

theorem readItems?_close {cs rest : List Char} {s : Scalar}
    (h : readScalar? cs = some (s, ']' :: rest)) : readItems? cs = some ([s], rest) := by
  rw [readItems?]
  split
  · rename_i s' c rest' h'
    obtain ⟨rfl, hrest⟩ := Prod.mk.inj (Option.some.inj (h.symm.trans h'))
    obtain ⟨rfl, rfl⟩ := List.cons.inj hrest
    rfl
  · rename_i hnone
    exact absurd h (hnone _ _ _)

/-- The text of a list with items does not go on with its end. -/
theorem head_items_ne {s : Scalar} {text : String} (h : s.script = .ok text) {texts : List String}
    (rest : List Char) :
    ((",".intercalate (text :: texts)).toList ++ ']' :: rest).head? ≠ some ']' := by
  obtain ⟨c, cs, hcs, _, hclose⟩ := Scalar.head_script h
  cases texts with
  | nil => simpa [hcs] using hclose
  | cons text' texts => simpa [String.intercalate_cons_cons, hcs] using hclose

/-- The items of a list are read back from their script forms. -/
theorem readItems?_intercalate {s : Scalar} {text : String} {items : List Scalar}
    {texts : List String} (h : s.script = .ok text)
    (hs : List.Forall₂ (fun s text => s.script = .ok text) items texts) (rest : List Char) :
    readItems? ((",".intercalate (text :: texts)).toList ++ ']' :: rest) = some (s :: items, rest) := by
  induction hs generalizing s text with
  | nil =>
      rw [String.intercalate_singleton]
      exact readItems?_close (Scalar.read?_of_script h _ (by simp [EndsLiteral, endsLiteral]))
  | @cons s' text' items texts hhead _ ih =>
      have hchars : (",".intercalate (text :: text' :: texts)).toList ++ ']' :: rest =
          text.toList ++ ',' :: ((",".intercalate (text' :: texts)).toList ++ ']' :: rest) := by
        simp [String.intercalate_cons_cons]
      have hfirst := Scalar.read?_of_script h
        (',' :: ((",".intercalate (text' :: texts)).toList ++ ']' :: rest))
        (by simp [EndsLiteral, endsLiteral])
      rw [hchars, readItems?_comma hfirst, ih hhead]
      rfl

end Script

namespace Literal

/-- A literal is read back from its script form. -/
theorem readLiteral?_script {l : Literal} {text : String} (h : l.script = .ok text)
    {rest : List Char} (hrest : EndsLiteral rest) :
    readLiteral? (text.toList ++ rest) = some (l, rest) := by
  cases l with
  | scalar s =>
      obtain ⟨c, cs, hcs, hopen, _⟩ := Scalar.head_script h
      have hread := Scalar.read?_of_script h rest hrest
      rw [hcs, List.cons_append] at hread ⊢
      rw [readLiteral?, if_neg hopen, hread]
      rfl
  | list items =>
      obtain ⟨texts, hitems, rfl⟩ := list_script_eq_ok h
      have hchars : (brackets texts).toList ++ rest =
          '[' :: ((",".intercalate texts).toList ++ ']' :: rest) := by
        simp [brackets]
      rw [hchars, readLiteral?, if_pos rfl]
      cases Scalar.forall₂_of_mapM_script hitems with
      | nil => rfl
      | cons hhead htail =>
          rw [readItems?_intercalate hhead htail rest, if_neg (head_items_ne hhead rest)]
          rfl

/-- Reading undoes writing: a literal without infinities and nans, and without integers of more digits
than the limit, has a script form, the reader finds it in front of every text before which a literal may
end and leaves that text as it is, and no other literal has the same script form. With a longer integer
there is no script form. -/
theorem read_of_written {l : Literal} (h : l.isFinite = true) :
    (l.isShort = true → ∃ text, l.script = .ok text ∧
      (∀ rest : String, EndsLiteral rest.toList → Literal.read? (text ++ rest) = some (l, rest)) ∧
      ∀ l' : Literal, l'.script = .ok text → l' = l) ∧
    (l.isShort = false → l.script = .error .integerLimit) := by
  refine ⟨fun hshort => ?_, fun hlong => ?_⟩
  · obtain ⟨text, htext⟩ := exists_script h hshort
    refine ⟨text, htext, ?_, ?_⟩
    · intro rest hrest
      rw [Literal.read?, String.toList_append, readLiteral?_script htext hrest, Option.map_some,
        String.ofList_toList]
    · intro l' hl'
      have hends : EndsLiteral [] := by simp [EndsLiteral]
      have hread := readLiteral?_script htext hends
      rw [readLiteral?_script hl' hends] at hread
      exact (Prod.mk.inj (Option.some.inj hread)).1
  · exact script_of_long h hlong

/-- A list whose first item holds all that could end it early, with numbers of both sorts. -/
def awkwardItems : Literal :=
  .list [.text "\",]\\", .int (-7), .float (Double.ofDecimal true 15 (-8)), .float (Double.ofInt 7),
    .bool true]

theorem awkwardItems_read :
    awkwardItems.isFinite = true ∧
      awkwardItems.script = .ok "[\"\\\",]\\\\\",-7,-1.5e-7,7.0,true]" ∧
      Literal.read? ("[\"\\\",]\\\\\",-7,-1.5e-7,7.0,true]" ++ ", 1]") =
        some (awkwardItems, ", 1]") := by
  have hfinite : awkwardItems.isFinite = true := by decide +kernel
  have hscript : awkwardItems.script = .ok "[\"\\\",]\\\\\",-7,-1.5e-7,7.0,true]" := by
    decide +kernel
  obtain ⟨text, htext, hread, _⟩ := (read_of_written hfinite).1 (by decide +kernel)
  obtain rfl := Except.ok.inj (htext.symm.trans hscript)
  exact ⟨hfinite, hscript, hread ", 1]" (by simp [EndsLiteral, endsLiteral])⟩

/-- A power of ten with more digits than the limit has no script form. -/
theorem long_power_not_written :
    ¬ ∀ l : Literal, l.isFinite = true → ∃ text, l.script = .ok text := by
  intro h
  have hlong : ∀ k, Numeral.digitLimit ≤ k →
      ¬ ∃ text, (Literal.scalar (.int (10 ^ k))).script = .ok text := by
    rintro k hk ⟨text, htext⟩
    have hdigits := (Script.integer_eq_ok.1 htext).1
    have hpower := Numeral.lt_digitCount_pow k
    omega
  exact hlong 4300 le_rfl (h _ rfl)

end Literal

end BlockMusic
