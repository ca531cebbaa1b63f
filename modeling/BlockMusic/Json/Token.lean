import BlockMusic.Decimal.Numeral

/-!
# JSON tokens

A document is cut into tokens by one pass over its characters: marks, quoted texts, and words, where
a word is a longest run of the characters that numbers and names are made of. Quoted texts are read
as UTF-16 units first, because an escape may name half of a character; the halves are joined when the
text ends. What cannot be read is the last token, so that the reader meets the faults of a document in
their order.
-/

namespace BlockMusic.Json

/-- Why a document cannot be read. -/
inductive ReadError where
  | malformed
  | longInteger
  /-- Containers too deep inside one another; the innermost is an object or an array. -/
  | tooDeep (inObject : Bool)
  deriving DecidableEq, Repr

/-- A way of reading JSON. -/
structure Dialect where
  /-- How many containers that hold something may stand inside one another. -/
  depth : Nat
  /-- The bound on digits holds for the sign and the whole part of any number, and not only for the
  digits of integers. -/
  boundsAll : Bool
  /-- An object keeps all entries of a key, and not only the last one. -/
  keepsAll : Bool
  deriving DecidableEq, Repr

/-- The way in which saved documents are read. -/
def Dialect.document : Dialect := ⟨200, true, true⟩

/-- The way in which requests and settings are read. -/
def Dialect.message : Dialect := ⟨990, false, false⟩

/-- A token of a document. -/
inductive Token where
  | openArr
  | closeArr
  | openObj
  | closeObj
  | colon
  | comma
  | text (s : String)
  | null
  | bool (b : Bool)
  | int (n : Int)
  | float (x : Double)
  | fault (e : ReadError)

/-- A piece of a quoted text: a character as it stands, or a unit named by an escape. -/
inductive Piece where
  | char (c : Char)
  | unit (n : Nat)

/-- Joins the units of a text, which must pair up their surrogates. -/
def joinPieces : List Piece → Option (List Char)
  | [] => some []
  | .char c :: ps => (joinPieces ps).map (c :: ·)
  | .unit n :: ps =>
    if n < 0xd800 ∨ 0xe000 ≤ n then (joinPieces ps).map (Char.ofNat n :: ·)
    else
      match ps with
      | .unit m :: ps =>
        if n < 0xdc00 ∧ 0xdc00 ≤ m ∧ m < 0xe000 then
          (joinPieces ps).map (Char.ofNat (0x10000 + (n - 0xd800) * 0x400 + (m - 0xdc00)) :: ·)
        else none
      | _ => none

/-- The character that a one-letter escape stands for. -/
def escape? : Char → Option Char
  | '"' => some '"'
  | '\\' => some '\\'
  | '/' => some '/'
  | 'b' => some '\x08'
  | 'f' => some '\x0c'
  | 'n' => some '\n'
  | 'r' => some '\r'
  | 't' => some '\t'
  | _ => none

/-- The characters of words. -/
def isWordChar (c : Char) : Bool :=
  c.isAlphanum || c == '-' || c == '+' || c == '.'

/-- The digits of a whole number do not start with a zero, unless it is the only one. -/
def isWhole : List Char → Bool
  | ['0'] => true
  | c :: cs => c != '0' && (c :: cs).all Char.isDigit
  | [] => false

/-- What follows the whole part makes the number a float: a point with a digit, or an exponent. -/
def isFloatRest : List Char → Bool
  | '.' :: c :: _ => c.isDigit
  | c :: '+' :: d :: _ => (c == 'e' || c == 'E') && d.isDigit
  | c :: '-' :: d :: _ => (c == 'e' || c == 'E') && d.isDigit
  | c :: d :: _ => (c == 'e' || c == 'E') && d.isDigit
  | _ => false

/-- A word that starts like a number: a whole part, then a fraction and an exponent, if any. -/
def numberToken (dialect : Dialect) (word : List Char) : Token :=
  let body := match word with
    | '-' :: cs => cs
    | cs => cs
  let whole := body.takeWhile Char.isDigit
  let rest := body.dropWhile Char.isDigit
  let bounded := if dialect.boundsAll then word.length - rest.length else whole.length
  if !isWhole whole then .fault .malformed
  else if Numeral.digitLimit < bounded && (dialect.boundsAll || !isFloatRest rest) then .fault .longInteger
  else if rest.isEmpty then
    match Numeral.integerDigits? Text.asciiDigit? word with
    | some (negative, ds) => .int (Numeral.integer negative ds)
    | none => .fault .malformed
  else
    match Numeral.ofChars? Text.asciiDigit? word with
    | some n => if isFloatRest rest then .float n.toDouble else .fault .malformed
    | none => .fault .malformed

/-- The names of the values that have one. -/
def wordToken (dialect : Dialect) (word : List Char) : Token :=
  if word = "null".toList then .null
  else if word = "true".toList then .bool true
  else if word = "false".toList then .bool false
  else if word = "NaN".toList then .float .nan
  else if word = "Infinity".toList then .float (.infinity false)
  else if word = "-Infinity".toList then .float (.infinity true)
  else numberToken dialect word

/-- What the pass is inside of, with the characters read so far, the last one first. Behind a fault
it passes over all that is left. -/
inductive Scan where
  | between
  | word (cs : List Char)
  | quote (ps : List Piece)
  | escaped (ps : List Piece)
  | hex (ps : List Piece) (digits value : Nat)
  | stopped

/-- Stops at a character that cannot be read. -/
def stopScan (done : List Token) : Scan × List Token := (.stopped, .fault .malformed :: done)

/-- A character between tokens. -/
def scanBetween (done : List Token) (c : Char) : Scan × List Token :=
  if c = ' ' ∨ c = '\t' ∨ c = '\n' ∨ c = '\r' then (.between, done)
  else if c = '[' then (.between, .openArr :: done)
  else if c = ']' then (.between, .closeArr :: done)
  else if c = '\x7b' then (.between, .openObj :: done)
  else if c = '\x7d' then (.between, .closeObj :: done)
  else if c = ':' then (.between, .colon :: done)
  else if c = ',' then (.between, .comma :: done)
  else if c = '"' then (.quote [], done)
  else if isWordChar c then (.word [c], done)
  else stopScan done

/-- Passes one character. -/
def scanChar (dialect : Dialect) : Scan × List Token → Char → Scan × List Token
  | (.between, done), c => scanBetween done c
  | (.word cs, done), c =>
    if isWordChar c then (.word (c :: cs), done)
    else scanBetween (wordToken dialect cs.reverse :: done) c
  | (.quote ps, done), c =>
    if c = '"' then
      match joinPieces ps.reverse with
      | some cs => (.between, .text (String.ofList cs) :: done)
      | none => stopScan done
    else if c = '\\' then (.escaped ps, done)
    else if c.toNat < 0x20 then stopScan done
    else (.quote (.char c :: ps), done)
  | (.escaped ps, done), c =>
    if c = 'u' then (.hex ps 0 0, done)
    else match escape? c with
      | some e => (.quote (.char e :: ps), done)
      | none => stopScan done
  | (.hex ps digits value, done), c =>
    match Text.hexDigit? c with
    | none => stopScan done
    | some d =>
      if digits = 3 then (.quote (.unit (16 * value + d) :: ps), done)
      else (.hex ps (digits + 1) (16 * value + d), done)
  | (.stopped, done), _ => (.stopped, done)

/-- The tokens of a document. -/
def tokens (dialect : Dialect) (cs : List Char) : List Token :=
  match cs.foldl (scanChar dialect) (.between, []) with
  | (.between, done) => done.reverse
  | (.stopped, done) => done.reverse
  | (.word cs, done) => (wordToken dialect cs.reverse :: done).reverse
  | (_, done) => (.fault .malformed :: done).reverse

end BlockMusic.Json
