import BlockMusic.Json.Basic

/-!
# Issues of a document

Checking a document against its schema reports every issue at once. An issue has a kind, the path of
keys and indexes that leads to it, and the value that was found there. Two checks that do not depend
on each other are combined so that the issues of both are kept, those of the first one first.
-/

namespace BlockMusic

/-- A step of a path into a document. -/
inductive Step where
  | key (name : String)
  | index (n : Nat)
  deriving DecidableEq, Repr

def Step.toJson : Step → Json
  | .key name => .str name
  | .index n => .int n

namespace Issue

/-- What is wrong with a value. -/
inductive Kind where
  | malformed
  | missing
  | objectExpected
  | attributesExpected
  | entriesExpected
  | listExpected
  | textExpected
  | textTooShort
  | notInEnumeration
  | floatExpected
  | floatUnreadable
  | intExpected
  | intUnreadable
  | intTooLong
  | intFractional
  | finiteExpected
  | boolExpected
  | boolUnreadable
  | rule (message : String)
  deriving DecidableEq, Repr

/-- The code by which a report names the kind. -/
def Kind.code : Kind → String
  | .malformed => "json_invalid"
  | .missing => "missing"
  | .objectExpected => "model_type"
  | .attributesExpected => "model_attributes_type"
  | .entriesExpected => "dict_type"
  | .listExpected => "list_type"
  | .textExpected => "string_type"
  | .textTooShort => "string_too_short"
  | .notInEnumeration => "enum"
  | .floatExpected => "float_type"
  | .floatUnreadable => "float_parsing"
  | .intExpected => "int_type"
  | .intUnreadable => "int_parsing"
  | .intTooLong => "int_parsing_size"
  | .intFractional => "int_from_float"
  | .finiteExpected => "finite_number"
  | .boolExpected => "bool_type"
  | .boolUnreadable => "bool_parsing"
  | .rule _ => "value_error"

/-- The message of a broken rule. -/
def Kind.ruleMessage? : Kind → Option String
  | .rule message => some ("Value error, " ++ message)
  | _ => none

end Issue

/-- Something wrong at a place of a document. -/
structure Issue where
  kind : Issue.Kind
  path : List Step
  found : Json

namespace Issue

/-- The issue as seen from one step further out. -/
def under (step : Step) (i : Issue) : Issue := { i with path := step :: i.path }

/-- The issue as a report shows it. -/
def toJson (i : Issue) : Json :=
  .obj ([("type", .str i.kind.code), ("loc", .arr (i.path.map Step.toJson))] ++
    match i.kind.ruleMessage? with
    | some message => [("msg", .str message)]
    | none => [])

end Issue

/-- The outcome of a check: a value, or the issues found. -/
inductive Validated (α : Type) where
  | valid (a : α)
  | invalid (issues : List Issue)

namespace Validated

variable {α β : Type}

/-- A single issue at the value itself. -/
def fail (kind : Issue.Kind) (found : Json) : Validated α := .invalid [⟨kind, [], found⟩]

/-- Changes a valid outcome. -/
def map (f : α → β) : Validated α → Validated β
  | .valid a => .valid (f a)
  | .invalid is => .invalid is

/-- Applies a checked function to a checked value, with the issues of both. -/
def seq (f : Validated (α → β)) (x : Validated α) : Validated β :=
  match f, x with
  | .valid f, .valid a => .valid (f a)
  | .valid _, .invalid is => .invalid is
  | .invalid is, .valid _ => .invalid is
  | .invalid is, .invalid js => .invalid (is ++ js)

instance : Applicative Validated where
  pure := .valid
  map := map
  seq f x := seq f (x ())

/-- The outcome as seen from one step further out. -/
def under (step : Step) : Validated α → Validated α
  | .valid a => .valid a
  | .invalid is => .invalid (is.map (Issue.under step))

/-- A further check of a valid outcome; it is left out when there are issues already. -/
def andThen (x : Validated α) (f : α → Validated β) : Validated β :=
  match x with
  | .valid a => f a
  | .invalid is => .invalid is

@[simp] theorem valid_andThen (a : α) (f : α → Validated β) : (Validated.valid a).andThen f = f a := rfl

@[simp] theorem seq_valid_valid (f : α → β) (a : α) : seq (.valid f) (.valid a) = .valid (f a) := rfl

def toExcept : Validated α → Except (List Issue) α
  | .valid a => .ok a
  | .invalid is => .error is

end Validated

end BlockMusic
