import BlockMusic.Fragment
import BlockMusic.Literal

/-!
# Blocks

A block describes a kind of node: the inputs that take values, the bodies that take chains of
statements, the fields that the editor shows, and the way the node joins others. A block with a
statement connection above or below stands in chains; a block with an output produces a value. The
scope says what the body of the block opens.
-/

namespace BlockMusic

/-- One option of a dropdown field. -/
structure Choice where
  label : String
  token : String
  deriving DecidableEq

inductive FieldKind where
  | dropdown
  | text
  | number
  deriving DecidableEq, Repr

namespace FieldKind

def name : FieldKind → String
  | .dropdown => "dropdown"
  | .text => "text"
  | .number => "number"

def ofName? (s : String) : Option FieldKind :=
  [dropdown, text, number].find? fun k => k.name = s

@[simp] theorem ofName?_name (k : FieldKind) : ofName? k.name = some k := by
  cases k <;> rfl

end FieldKind

/-- A field of a block. -/
structure Field where
  name : String
  kind : FieldKind
  choices : List Choice := []
  default : Option Scalar := none
  deriving DecidableEq

namespace Field

/-- The token of the choice that a value names; only a text can name one. -/
def tokenFor (f : Field) (value : Option Scalar) : Option String :=
  match value with
  | some (.text s) => (f.choices.find? fun c => c.token = s).map Choice.token
  | _ => none

/-- The token that stands for a missing or unknown choice: the default, else the first choice. -/
def defaultToken (f : Field) : Except RenderError (Option String) :=
  match f.default with
  | some s => some <$> s.shown
  | none => .ok (f.choices.head?.map Choice.token)

end Field

/-- An input that takes a value. -/
structure ValueInput where
  name : String
  check : List String := []
  required : Bool := true
  default : Option Literal := none
  label : String := ""
  deriving DecidableEq

/-- An input that takes a chain of statements. -/
structure BodyInput where
  name : String
  check : List String := []
  required : Bool := false
  label : String := ""
  deriving DecidableEq

/-- What the inside of a block is. -/
inductive Scope where
  | none
  | music
  | motif
  deriving DecidableEq, Repr

namespace Scope

def tag : Scope → String
  | .none => "none"
  | .music => "music"
  | .motif => "motif"

def ofTag? (s : String) : Option Scope :=
  [none, music, motif].find? fun k => k.tag = s

@[simp] theorem ofTag?_tag (s : Scope) : ofTag? s.tag = some s := by
  cases s <;> rfl

end Scope

/-- A kind of block. -/
structure Block where
  kind : String
  category : String
  description : String := ""
  colour : Int := 275
  inputs : List ValueInput := []
  bodies : List BodyInput := []
  fields : List Field := []
  previous : Bool := false
  next : Bool := false
  output : Option (List String) := none
  precedence : Option Precedence := none
  scope : Scope := .none
  tags : List String := []
  deriving DecidableEq

namespace Block

/-- The block stands in chains. -/
def isStatement (b : Block) : Bool := b.previous || b.next

/-- The block can be bound to a value input. -/
def producesValue (b : Block) : Bool := b.output.isSome

def definesScope (b : Block) : Bool := b.scope != .none

def field? (b : Block) (name : String) : Option Field :=
  b.fields.find? fun f => f.name = name

end Block

end BlockMusic
