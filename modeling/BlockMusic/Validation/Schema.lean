import BlockMusic.Decimal.Leading
import BlockMusic.Json.Reader
import BlockMusic.Literal
import BlockMusic.Validation.Issue
import BlockMusic.Validation.Lenient

/-!
# Schemas

A schema turns a JSON value into a value of the library or reports what is wrong with it. Fields of
an object are checked in the order of the schema, entries and items in the order of the document;
keys that the schema does not name are passed over.
-/

namespace BlockMusic

/-- Where a JSON value comes from. -/
inductive Origin where
  /-- A value handed over in memory. -/
  | value
  /-- The text of a document. -/
  | document
  /-- The body of a request. -/
  | body
  deriving DecidableEq, Repr

/-- A check that turns a JSON value of some origin into an `α`. -/
abbrev Schema (α : Type) := Origin → Json → Validated α

namespace Schema

variable {α : Type}

def anyText : Schema String
  | _, .str s => .valid s
  | _, j => .fail .textExpected j

def nonEmptyText : Schema String
  | _, .str s => if s = "" then .fail .textTooShort (.str s) else .valid s
  | _, j => .fail .textExpected j

/-- A float field takes any number, a truth value as one or zero, or a text. In a document an integer
is rounded from its leading bits, and beyond the greatest double it is infinite; elsewhere it is
refused there. -/
def float : Schema Double
  | _, .float x => .valid x
  | .document, .int n => .valid (Double.ofLeading n)
  | _, .int n =>
    let x := Double.ofInt n
    if x.isFinite then .valid x else .fail .floatExpected (.int n)
  | _, .bool b => .valid (Double.ofInt (if b then 1 else 0))
  | _, .str s =>
    match Lenient.float? s with
    | some x => .valid x
    | none => .fail .floatUnreadable (.str s)
  | _, j => .fail .floatExpected j

/-- The integer is one of the signed integers of sixty-four bits. -/
def fitsWord (n : Int) : Bool := -(Nat.pow 2 63 : Int) ≤ n && n < Nat.pow 2 63

/-- The integer that a float inside the range of the words stands for. -/
def wordOfFloat? (x : Double) : Option Int :=
  x.toInt?.bind fun n => if -(Nat.pow 2 63 : Int) < n ∧ n < Nat.pow 2 63 then some n else none

/-- An integer field takes an integer, a truth value as one or zero, a float without a fraction that
is in the range of the words, or a text. -/
def int : Schema Int
  | _, .int n => .valid n
  | _, .bool b => .valid (if b then 1 else 0)
  | _, .float x =>
    match wordOfFloat? x with
    | some n => .valid n
    | none =>
      let kind := if !x.isFinite then .finiteExpected
        else if x.toInt?.isNone then .intFractional
        else .intTooLong
      .fail kind (.float x)
  | _, .str s =>
    match Lenient.int s with
    | .ok n => .valid n
    | .error .unreadable => .fail .intUnreadable (.str s)
    | .error .tooLong => .fail .intTooLong (.str s)
  | _, j => .fail .intExpected j

/-- The integer is told apart from a truth value by its value, and not by its size. A document has
such integers up to eighteen digits. -/
def isSmall (origin : Origin) (n : Int) : Bool :=
  if origin = .document then n.natAbs < Nat.pow 10 18 else fitsWord n

/-- A truth value is itself, one or zero, or one of its names. -/
def bool : Schema Bool
  | _, .bool b => .valid b
  | origin, .int n =>
    if n = 0 then .valid false
    else if n = 1 then .valid true
    else .fail (if isSmall origin n then .boolUnreadable else .boolExpected) (.int n)
  | _, .float x =>
    match wordOfFloat? x with
    | some 0 => .valid false
    | some 1 => .valid true
    | some _ => .fail .boolUnreadable (.float x)
    | none => .fail .boolExpected (.float x)
  | _, .str s =>
    match Lenient.bool? s with
    | some b => .valid b
    | none => .fail .boolUnreadable (.str s)
  | _, j => .fail .boolExpected j

/-- One of the values that `pick?` knows. -/
def oneOf {β : Type} (schema : Schema β) (pick? : β → Option α) : Schema α := fun origin j =>
  match schema origin j with
  | .valid b =>
    match pick? b with
    | some a => .valid a
    | none => .fail .notInEnumeration j
  | .invalid _ => .fail .notInEnumeration j

/-- One of the numbered values that `pick?` knows; the number must be in the range of the words. -/
def oneOfRanks (pick? : Int → Option α) : Schema α := fun origin j =>
  match int origin j with
  | .invalid _ => .fail .notInEnumeration j
  | .valid n =>
    if !fitsWord n then .fail .intTooLong j
    else
      match pick? n with
      | some a => .valid a
      | none => .fail .notInEnumeration j

/-- Null stands for an absent value. -/
def nullable (schema : Schema α) : Schema (Option α)
  | _, .null => .valid none
  | origin, j => (schema origin j).map some

/-- Checks the items of a list from index `n` on. -/
def items (schema : Schema α) (origin : Origin) (n : Nat) : List Json → Validated (List α)
  | [] => .valid []
  | j :: js =>
    List.cons <$> (schema origin j).under (.index n) <*> items schema origin (n + 1) js

def list (schema : Schema α) : Schema (List α)
  | origin, .arr js => items schema origin 0 js
  | _, j => .fail .listExpected j

/-- Checks the entries of an object. -/
def entryValues (schema : Schema α) (origin : Origin) :
    List (String × Json) → Validated (List (String × α))
  | [] => .valid []
  | (key, j) :: rest =>
    (fun a as => (key, a) :: as) <$> (schema origin j).under (.key key) <*>
      entryValues schema origin rest

/-- An object with any keys. All entries of a key are checked, and the last one counts. -/
def entries (schema : Schema α) : Schema (List (String × α))
  | origin, .obj es => (entryValues schema origin es).map Json.distinctEntries
  | _, j => .fail .entriesExpected j

/-- The kinds of scalar that a value failed to be, each under its name. -/
def scalarIssues (found : Json) : List Issue :=
  [⟨.textExpected, [.key "str"], found⟩, ⟨.intExpected, [.key "int"], found⟩,
    ⟨.floatExpected, [.key "float"], found⟩, ⟨.boolExpected, [.key "bool"], found⟩]

/-- A scalar keeps the type that the document gives it. -/
def scalar : Schema Scalar
  | _, .str s => .valid (.text s)
  | _, .int n => .valid (.int n)
  | _, .float x => .valid (.float x)
  | _, .bool b => .valid (.bool b)
  | _, j => .invalid (scalarIssues j)

/-- The name under which the issues of a list literal stand. -/
def listStep : Step := .key "list[union[str,int,float,bool]]"

/-- A literal is a scalar or a list of scalars. -/
def literal : Schema Literal
  | origin, .arr js =>
    match items scalar origin 0 js with
    | .valid ss => .valid (.list ss)
    | .invalid is => .invalid (scalarIssues (.arr js) ++ is.map (Issue.under listStep))
  | _, .obj es =>
    .invalid (scalarIssues (.obj es) ++ [⟨.listExpected, [listStep], .obj es⟩])
  | _, .null => .invalid (scalarIssues .null ++ [⟨.listExpected, [listStep], .null⟩])
  | origin, j => (scalar origin j).map .scalar

/-- An object, given the check of its fields. -/
def record (fields : Origin → Json → Validated α) : Schema α
  | origin, .obj es => fields origin (.obj es)
  | .body, j => .fail .attributesExpected j
  | _, j => .fail .objectExpected j

/-- A field that must be there. -/
def field (key : String) (schema : Schema α) (origin : Origin) (object : Json) : Validated α :=
  match object.get? key with
  | some j => (schema origin j).under (.key key)
  | none => (Validated.fail .missing object).under (.key key)

/-- A field that has a value of its own when it is absent. -/
def fieldOr (key : String) (absent : α) (schema : Schema α) (origin : Origin) (object : Json) :
    Validated α :=
  match object.get? key with
  | some j => (schema origin j).under (.key key)
  | none => .valid absent

/-- A rule about a valid value; `broken?` gives the message when it does not hold. -/
def withRule (schema : Schema α) (broken? : α → Option String) : Schema α := fun origin j =>
  (schema origin j).andThen fun a =>
    match broken? a with
    | some message => .fail (.rule message) j
    | none => .valid a

end Schema

/-- Checks the text of a document. -/
def Schema.ofDocument {α : Type} (schema : Schema α) (text : String) : Validated α :=
  match Json.read .document text with
  | .ok j => schema .document j
  | .error _ => .fail .malformed (.str text)

end BlockMusic
