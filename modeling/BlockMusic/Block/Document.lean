import BlockMusic.Block.Basic
import BlockMusic.Validation.Schema

/-!
# Blocks as documents

The JSON form of blocks and their parts: how each is written, with every field, and the schema by
which it is read.
-/

namespace BlockMusic

open Schema

def Choice.toJson (c : Choice) : Json :=
  .obj [("label", .str c.label), ("token", .str c.token)]

def Field.toJson (f : Field) : Json :=
  .obj [("name", .str f.name), ("kind", .str f.kind.name),
    ("options", .arr (f.choices.map Choice.toJson)),
    ("default", .ofOption Scalar.toJson f.default)]

def ValueInput.toJson (i : ValueInput) : Json :=
  .obj [("name", .str i.name), ("check", .strings i.check), ("required", .bool i.required),
    ("default", .ofOption Literal.toJson i.default), ("label", .str i.label)]

def BodyInput.toJson (i : BodyInput) : Json :=
  .obj [("name", .str i.name), ("check", .strings i.check), ("required", .bool i.required),
    ("label", .str i.label)]

def Block.toJson (b : Block) : Json :=
  .obj [("kind", .str b.kind), ("category", .str b.category), ("description", .str b.description),
    ("colour", .int b.colour), ("inputs", .arr (b.inputs.map ValueInput.toJson)),
    ("statement_inputs", .arr (b.bodies.map BodyInput.toJson)),
    ("fields", .arr (b.fields.map Field.toJson)), ("previous_statement", .bool b.previous),
    ("next_statement", .bool b.next), ("output", .ofOption .strings b.output),
    ("precedence", .ofOption (fun p => .int p.rank) b.precedence), ("scope", .str b.scope.tag),
    ("tags", .strings b.tags)]

def Choice.schema : Schema Choice := record fun o j =>
  Choice.mk <$> field "label" nonEmptyText o j <*> field "token" nonEmptyText o j

def FieldKind.schema : Schema FieldKind := oneOf anyText FieldKind.ofName?

def Field.schema : Schema Field := record fun o j =>
  Field.mk <$> field "name" nonEmptyText o j <*> field "kind" FieldKind.schema o j
    <*> fieldOr "options" [] (list Choice.schema) o j
    <*> fieldOr "default" none (nullable scalar) o j

def ValueInput.schema : Schema ValueInput := record fun o j =>
  ValueInput.mk <$> field "name" nonEmptyText o j <*> fieldOr "check" [] (list anyText) o j
    <*> fieldOr "required" true bool o j <*> fieldOr "default" none (nullable Schema.literal) o j
    <*> fieldOr "label" "" anyText o j

def BodyInput.schema : Schema BodyInput := record fun o j =>
  BodyInput.mk <$> field "name" nonEmptyText o j <*> fieldOr "check" [] (list anyText) o j
    <*> fieldOr "required" false bool o j <*> fieldOr "label" "" anyText o j

def Precedence.schema : Schema Precedence := oneOfRanks Precedence.ofRank?

def Scope.schema : Schema Scope := oneOf anyText Scope.ofTag?

def Block.schema : Schema Block := record fun o j =>
  Block.mk <$> field "kind" nonEmptyText o j <*> field "category" nonEmptyText o j
    <*> fieldOr "description" "" anyText o j <*> fieldOr "colour" 275 int o j
    <*> fieldOr "inputs" [] (list ValueInput.schema) o j
    <*> fieldOr "statement_inputs" [] (list BodyInput.schema) o j
    <*> fieldOr "fields" [] (list Field.schema) o j
    <*> fieldOr "previous_statement" false bool o j <*> fieldOr "next_statement" false bool o j
    <*> fieldOr "output" none (nullable (list anyText)) o j
    <*> fieldOr "precedence" none (nullable Precedence.schema) o j
    <*> fieldOr "scope" .none Scope.schema o j <*> fieldOr "tags" [] (list anyText) o j

end BlockMusic
