import BlockMusic.Text.Printable

/-!
# Quoted text

Messages show a text between quotes, so that its ends and its invisible characters can be seen.
Single quotes are the rule; a text with a single quote and no double quote stands between double
ones.
-/

namespace BlockMusic.Text

/-- The hexadecimal digits of `n`, in lower case, with leading zeros up to `width`. -/
def hex (width n : Nat) : String :=
  let ds := Nat.toDigits 16 n
  String.ofList (List.replicate (width - ds.length) '0' ++ ds)

/-- The quote that stands around a text. -/
def quoteMark (cs : List Char) : Char :=
  if cs.contains '\'' && !cs.contains '"' then '"' else '\''

/-- One character of a text quoted with `mark`. -/
def quoteChar (mark c : Char) : String :=
  if c = '\\' ∨ c = mark then String.ofList ['\\', c]
  else if c = '\n' then "\\n"
  else if c = '\r' then "\\r"
  else if c = '\t' then "\\t"
  else if isPrintable c then c.toString
  else if c.toNat < 0x100 then "\\x" ++ hex 2 c.toNat
  else if c.toNat < 0x10000 then "\\u" ++ hex 4 c.toNat
  else "\\U" ++ hex 8 c.toNat

/-- A text between quotes, with the characters that would not show escaped. -/
def quoted (s : String) : String :=
  let mark := quoteMark s.toList
  mark.toString ++ String.join (s.toList.map (quoteChar mark)) ++ mark.toString

/-- A list of texts, quoted, in brackets. -/
def quotedList (ss : List String) : String :=
  "[" ++ ", ".intercalate (ss.map quoted) ++ "]"

end BlockMusic.Text
