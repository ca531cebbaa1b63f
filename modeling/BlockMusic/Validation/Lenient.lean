import BlockMusic.Decimal.Numeral
import BlockMusic.Text.Blank

/-!
# Numbers and truth values written as text

Documents may give a number or a truth value as text. A float is read after trimming, with the names
of the special values in any case. An integer may also have a plus sign, leading zeros and a zero
fraction. Digits may be grouped by single underscores.
-/

namespace BlockMusic.Lenient

open Text

/-- The characters trimmed around a number: the blanks but for the information separators. -/
def isSpace (c : Char) : Bool := isBlank c && !(28 ≤ c.toNat && c.toNat ≤ 31)

/-- No underscore stands beside another one. -/
def underscoresApart : List Char → Bool
  | '_' :: '_' :: _ => false
  | _ :: cs => underscoresApart cs
  | [] => true

/-- A text without its underscores, if it has some, apart from each other and not at its ends. -/
def ungroup? (cs : List Char) : Option (List Char) :=
  if cs.contains '_' && cs.head? != some '_' && cs.getLast? != some '_' && underscoresApart cs then
    some (cs.filter (· != '_'))
  else none

/-- A float: a numeral, or the name of a special value with an optional sign. -/
def plainFloat? (cs : List Char) : Option Double :=
  let (negative, name) := Numeral.sign cs
  let name := String.ofList (name.map Char.toLower)
  if name = "nan" then some .nan
  else if name = "inf" ∨ name = "infinity" then some (.infinity negative)
  else (Numeral.ofChars? asciiDigit? cs).map Numeral.toDouble

/-- Reads a float from a text. -/
def float? (s : String) : Option Double :=
  match plainFloat? (trimWhile isSpace s.toList) with
  | some x => some x
  | none => (ungroup? s.toList).bind plainFloat?

/-- Why a text is no integer. -/
inductive IntFault where
  | unreadable
  | tooLong
  deriving DecidableEq, Repr

/-- The greatest number of characters, the sign among them, that an integer may have. -/
def intLimit : Nat := 4300

/-- An integer without a plus sign or leading zeros. One that is too long is known as such before
what follows its digits is looked at. -/
def plainInt (cs : List Char) : Except IntFault Int :=
  let (negative, body) := match cs with
    | '-' :: ds => (true, ds)
    | ds => (false, ds)
  let (ds, rest) := digitRun asciiDigit? body
  match ds with
  | [] => .error .unreadable
  | 0 :: more => if more.isEmpty && rest.isEmpty then .ok 0 else .error .unreadable
  | _ =>
    if intLimit < cs.length - rest.length then .error .tooLong
    else if rest.isEmpty then .ok (Numeral.integer negative ds)
    else .error .unreadable

/-- Passes leading zeros and the underscores among them, up to another digit or a minus sign. The
character `last` before a point or the end stays. -/
def dropZerosFrom (last : Char) : List Char → Option (List Char)
  | [] => some [last]
  | '0' :: cs => dropZerosFrom '0' cs
  | '_' :: cs => dropZerosFrom '_' cs
  | '.' :: cs => some (last :: '.' :: cs)
  | c :: cs => if c.isDigit || c == '-' then some (c :: cs) else none

/-- A text without leading zeros, also behind a minus sign; it must start with a digit or that. -/
def dropZeros? : List Char → Option (List Char)
  | '0' :: cs => dropZerosFrom '0' cs
  | '-' :: cs => (dropZeros? cs).map ('-' :: ·)
  | c :: cs => if c.isDigit then some (c :: cs) else none
  | [] => none

/-- A text without a fraction of zeros, one at least. -/
def dropZeroFraction (cs : List Char) : List Char :=
  match cs.dropWhile (· != '.') with
  | '.' :: '0' :: fraction =>
    if fraction.all (· == '0') then cs.takeWhile (· != '.') else cs
  | _ => cs

/-- A text freed from all that an integer need not have, if that changes it. -/
def cleanInt? (cs : List Char) : Option (List Char) := do
  let trimmed := trimWhile isSpace cs
  let unsigned ← match trimmed with
    | '+' :: '-' :: _ => none
    | '+' :: rest => some rest
    | rest => some rest
  let short := dropZeroFraction (← dropZeros? unsigned)
  match ungroup? short with
  | some plain => some plain
  | none => if short.length = cs.length then none else some short

/-- Reads an integer from a text. A text that had to be freed from something is never too long, but
unreadable then. -/
def int (s : String) : Except IntFault Int :=
  match plainInt s.toList with
  | .ok n => .ok n
  | .error .tooLong => .error .tooLong
  | .error .unreadable =>
    match (cleanInt? s.toList).map plainInt with
    | some (.ok n) => .ok n
    | _ => .error .unreadable

/-- Reads a truth value from one of its names, in any case. -/
def bool? (s : String) : Option Bool :=
  let name := String.ofList (s.toList.map Char.toLower)
  if ["0", "off", "f", "false", "n", "no"].contains name then some false
  else if ["1", "on", "t", "true", "y", "yes"].contains name then some true
  else none

end BlockMusic.Lenient
