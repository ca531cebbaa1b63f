import BlockMusic.Decimal.Layout
import BlockMusic.Decimal.Numeral
import BlockMusic.Json.Basic
import BlockMusic.Text.Quoted

/-!
# Literals and their script form

A literal is a text, an integer, a double, a truth value, or a flat list of these. The script writes
a text between double quotes with the quote, the backslash and the line controls escaped, so that a
literal never spans lines; an integer in decimal; and a double with a point in its mantissa and a
plain integer as its exponent, so that no double looks like an integer. An integer with more digits than
the limit has no decimal form, here or in a message.
-/

namespace BlockMusic

/-- A single literal value. -/
inductive Scalar where
  | text (s : String)
  | int (n : Int)
  | float (x : Double)
  | bool (b : Bool)
  deriving DecidableEq

/-- A literal value of a program. -/
inductive Literal where
  | scalar (s : Scalar)
  | list (items : List Scalar)
  deriving DecidableEq

/-- Why a value has no script form. -/
inductive RenderError where
  | nonFinite (x : Double)
  /-- An integer with too many digits to be written. -/
  | integerLimit
  /-- A text with too many digits to be read as an integer. -/
  | digitLimit (count : Nat)
  | unsupported (shown : String)
  deriving DecidableEq

def RenderError.message : RenderError → String
  | .nonFinite x => s!"Cannot render non-finite number '{x.text}'"
  | .integerLimit =>
    "Exceeds the limit (4300 digits) for integer string conversion; " ++
      "use sys.set_int_max_str_digits() to increase the limit"
  | .digitLimit count =>
    s!"Exceeds the limit (4300 digits) for integer string conversion: value has {count} digits; " ++
      "use sys.set_int_max_str_digits() to increase the limit"
  | .unsupported shown => s!"Unsupported literal value '{shown}'"

namespace Script

/-- One character of a quoted text. -/
def escapeChar : Char → List Char
  | '\\' => ['\\', '\\']
  | '"' => ['\\', '"']
  | '\n' => ['\\', 'n']
  | '\r' => ['\\', 'r']
  | '\t' => ['\\', 't']
  | c => [c]

/-- A text between double quotes. -/
def quote (cs : List Char) : List Char :=
  '"' :: cs.flatMap escapeChar ++ ['"']

def string (s : String) : String := String.ofList (quote s.toList)

def boolean (b : Bool) : String := if b then "true" else "false"

/-- The decimal form of an integer. -/
def integer (n : Int) : Except RenderError String :=
  if Numeral.digitCount n ≤ Numeral.digitLimit then .ok (toString n) else .error .integerLimit

theorem integer_eq_ok {n : Int} {s : String} :
    integer n = .ok s ↔ Numeral.digitCount n ≤ Numeral.digitLimit ∧ toString n = s := by
  by_cases h : Numeral.digitCount n ≤ Numeral.digitLimit <;> simp [integer, h]

theorem integer_eq_error {n : Int} {e : RenderError} :
    integer n = .error e ↔ Numeral.digitLimit < Numeral.digitCount n ∧ .integerLimit = e := by
  by_cases h : Numeral.digitCount n ≤ Numeral.digitLimit <;>
    simp [integer, h, Nat.not_lt.2, Nat.lt_of_not_le]

/-- The integer that a sign and digits denote, in plain decimal. -/
def plainInteger (cs : List Char) : List Char :=
  match Numeral.integerDigits? Text.asciiDigit? cs with
  | some (negative, ds) => (toString (Numeral.integer negative ds)).toList
  | none => cs

/-- Puts a point into a mantissa without one and writes the exponent as a plain integer. -/
def pointed (cs : List Char) : List Char :=
  let mantissa := cs.takeWhile (· != 'e')
  match cs.dropWhile (· != 'e') with
  | [] => cs
  | mark :: exponent =>
    mantissa ++ (if mantissa.contains '.' then [] else ['.', '0']) ++
      mark :: plainInteger exponent

/-- The script form of a double. -/
def float (x : Double) : Except RenderError String :=
  if x.isFinite then .ok (String.ofList (pointed x.chars)) else .error (.nonFinite x)

/-- A list in brackets, without blanks. -/
def brackets (items : List String) : String :=
  "[" ++ ",".intercalate items ++ "]"

end Script

/-- The script form of a single literal. -/
def Scalar.script : Scalar → Except RenderError String
  | .text s => .ok (Script.string s)
  | .int n => Script.integer n
  | .float x => Script.float x
  | .bool b => .ok (Script.boolean b)

/-- The script form of a literal. -/
def Literal.script : Literal → Except RenderError String
  | .scalar s => s.script
  | .list items => Script.brackets <$> items.mapM Scalar.script

/-- Every double in the literal is finite. -/
def Scalar.isFinite : Scalar → Bool
  | .float x => x.isFinite
  | _ => true

def Literal.isFinite : Literal → Bool
  | .scalar s => s.isFinite
  | .list items => items.all Scalar.isFinite

def Scalar.toJson : Scalar → Json
  | .text s => .str s
  | .int n => .int n
  | .float x => .float x
  | .bool b => .bool b

def Literal.toJson : Literal → Json
  | .scalar s => s.toJson
  | .list items => .arr (items.map Scalar.toJson)

/-- A single literal as a message or an option list shows it. -/
def Scalar.shown : Scalar → Except RenderError String
  | .text s => .ok s
  | .int n => Script.integer n
  | .float x => .ok x.text
  | .bool b => .ok (if b then "True" else "False")

/-- A single literal as a diagnostic shows it: a text is quoted. -/
def Scalar.quoted : Scalar → Except RenderError String
  | .text s => .ok (Text.quoted s)
  | s => s.shown

namespace Json

/-- A JSON value as a message shows it. -/
def shown : Json → Except RenderError String
  | .null => .ok "None"
  | .bool b => (Scalar.bool b).quoted
  | .int n => (Scalar.int n).quoted
  | .float x => (Scalar.float x).quoted
  | .str s => (Scalar.text s).quoted
  | .arr items => do
    let texts ← shownItems items
    pure ("[" ++ ", ".intercalate texts ++ "]")
  | .obj entries => do
    let texts ← shownEntries entries
    pure ("\x7b" ++ ", ".intercalate texts ++ "\x7d")
where
  shownItems : List Json → Except RenderError (List String)
    | [] => .ok []
    | j :: js => do
      let first ← shown j
      let rest ← shownItems js
      pure (first :: rest)
  shownEntries : List (String × Json) → Except RenderError (List String)
    | [] => .ok []
    | (key, j) :: js => do
      let first ← shown j
      let rest ← shownEntries js
      pure ((Text.quoted key ++ ": " ++ first) :: rest)

/-- The script form of a JSON value, where lists may hold lists. -/
def script : Json → Except RenderError String
  | .null => .error (.unsupported "None")
  | .bool b => .ok (Script.boolean b)
  | .int n => Script.integer n
  | .float x => Script.float x
  | .str s => .ok (Script.string s)
  | .arr items => Script.brackets <$> scriptItems items
  | .obj entries => do
    let text ← (Json.obj entries).shown
    .error (.unsupported text)
where
  scriptItems : List Json → Except RenderError (List String)
    | [] => .ok []
    | j :: js => do
      let first ← script j
      let rest ← scriptItems js
      pure (first :: rest)

end Json

end BlockMusic
