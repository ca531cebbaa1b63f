import BlockMusic.Compile.Draft
import BlockMusic.Decimal.Numeral
import BlockMusic.Text.Lines

/-!
# The arguments of a writer

A writer sees its node and block, the fragments of the value inputs and the text of the bodies, all
of them resolved before. Fields are read with the defaults of the block; a choice that the block does
not know, or a number that is none, gives way to a default with a diagnostic.
-/

namespace BlockMusic

/-- What a writer may read for one node. -/
structure Arguments where
  node : Node
  block : Block
  indentUnit : String
  /-- The fragments of the value inputs, the newest first. -/
  values : List (String × Fragment) := []
  /-- The texts of the bodies, the newest first. -/
  bodies : List (String × String) := []

namespace Arguments

/-- The text of a value input as an operand of a consumer that takes tiers up to `consumer`. -/
def operand (a : Arguments) (slot : String) (consumer : Int) : String :=
  (((a.values.lookup slot).getD .empty).asOperand consumer).text

/-- The text of a value input where every tier is taken as it stands. -/
def value (a : Arguments) (slot : String) : String := a.operand slot Precedence.none.rank

/-- The text of a body, as it stands. -/
def inlineBody (a : Arguments) (slot : String) : String := (a.bodies.lookup slot).getD ""

/-- The text of a body, indented. -/
def indentedBody (a : Arguments) (slot : String) : String :=
  Text.indent a.indentUnit (a.inlineBody slot)

/-- The value of a field: the node's own, else the default of the block. -/
def fieldValue (a : Arguments) (name : String) : Option Scalar :=
  match a.node.field? name with
  | some s => some s
  | none => (a.block.field? name).bind Field.default

/-- The value of a field as text. -/
def text (a : Arguments) (name : String) : Draft String :=
  match a.fieldValue name with
  | none => .done ""
  | some (.bool b) => .done (Script.boolean b)
  | some s => .ofRender s.shown

/-- The token of a dropdown field. A value that is no choice is replaced by the default token. -/
def token (a : Arguments) (name : String) : Draft String :=
  match a.block.field? name with
  | none => a.text name
  | some field =>
    if field.kind ≠ .dropdown then a.text name
    else
      let given := a.node.field? name
      match field.tokenFor given with
      | some token => .done token
      | none => do
        let default ← .ofRender field.defaultToken
        let used := default.getD ""
        match given with
        | none => .done used
        | some value => do
          let shown ← .ofRender value.quoted
          ⟨.ok used, [.unknownChoice a.node.name name shown used]⟩

/-- What a field holds when it is read as a number. -/
inductive Reading where
  | integer (n : Int)
  | float (x : Double)
  | longInteger (digits : Nat)
  | none

/-- Reads a text as a number: an integer with the digits of any script, or a decimal numeral. -/
def readNumber (s : String) : Reading :=
  let cs := Text.trimWhile Text.isBlank s.toList
  match Numeral.integerDigits? Text.digit? cs with
  | some (negative, ds) =>
    if Numeral.digitLimit < ds.length then .longInteger ds.length else .integer (Numeral.integer negative ds)
  | none =>
    match Numeral.ofChars? Text.digit? cs with
    | some n => .float n.toDouble
    | none => .none

/-- Reads the value of a field as a number. -/
def numberIn : Option Scalar → Reading
  | some (.text s) => readNumber s
  | some (.int n) => .integer n
  | some (.float x) => .float x
  | some (.bool _) => .none
  | none => .none

/-- The script form of a number field; what is no number counts as zero. -/
def number (a : Arguments) (name : String) : Draft String :=
  match numberIn (a.fieldValue name) with
  | .integer n => .ofRender (Script.integer n)
  | .float x => .ofRender (Script.float x)
  | .longInteger digits => .fail (.render (.digitLimit digits))
  | .none => ⟨.ok "0", [.notANumber a.node.name name]⟩

end Arguments

end BlockMusic
