import BlockMusic.Literal
import BlockMusic.Text.Quoted

/-!
# What stops a compilation

A compilation stops at a structural fault of the graph: a kind that is not registered, a reference
to a node that does not exist, value inputs that form a cycle, or a statement that is reached twice.
Such an error names the node it was found at. Besides these a run can stop because the nesting goes
too deep, or because a writer cannot write its node.
-/

namespace BlockMusic

/-- Where a node refers to another one. -/
inductive Slot where
  | root
  | next
  | input (name : String)
  | body (name : String)
  | described (text : String)
  deriving DecidableEq, Repr

def Slot.text : Slot → String
  | .root => "root"
  | .next => "next"
  | .input name => s!"input '{name}'"
  | .body name => s!"statement input '{name}'"
  | .described text => text

/-- A structural fault that aborts a compilation. -/
inductive CompileError where
  /-- A fault in words, with its own diagnostics if it has some. -/
  | failure (message : String) (node kind : Option String) (diagnostics : Option (List String))
  | unknownKind (node kind : Option String)
  | danglingReference (missing : String) (node kind : Option String) (slot : Slot)
  /-- The ids that were being resolved when `node` came up again, outermost first. -/
  | cyclicValue (node kind : Option String) (path : List String)
  | cyclicChain (node kind : Option String)
  deriving DecidableEq

namespace CompileError

/-- The name of the error in reports. -/
def name : CompileError → String
  | .failure .. => "CompilationError"
  | .unknownKind .. => "UnknownKind"
  | .danglingReference .. => "DanglingReference"
  | .cyclicValue .. => "CyclicValueInput"
  | .cyclicChain .. => "CyclicStatementChain"

/-- The id of the node at fault. -/
def node? : CompileError → Option String
  | .failure _ node _ _ => node
  | .unknownKind node _ => node
  | .danglingReference _ node _ _ => node
  | .cyclicValue node _ _ => node
  | .cyclicChain node _ => node

/-- The kind of the node at fault. -/
def kind? : CompileError → Option String
  | .failure _ _ kind _ => kind
  | .unknownKind _ kind => kind
  | .danglingReference _ _ kind _ => kind
  | .cyclicValue _ kind _ => kind
  | .cyclicChain _ kind => kind

/-- A name in a message, where an absent one is said to be none. -/
def shown (name : Option String) : String := name.getD "None"

def message : CompileError → String
  | .failure message _ _ _ => message
  | .unknownKind node kind =>
    let target := match node with
      | none => "A node"
      | some id => if id = "" then "A node" else s!"Node '{id}'"
    s!"{target} references unknown block kind '{shown kind}'."
  | .danglingReference missing none _ _ =>
    s!"Root node '{missing}' does not exist in the program graph."
  | .danglingReference missing (some id) kind slot =>
    s!"Node '{id}' ({shown kind}) {slot.text} points to missing node '{missing}'."
  | .cyclicValue node kind path =>
    let cycle := " -> ".intercalate (path ++ [shown node])
    s!"Value inputs of node '{shown node}' ({shown kind}) form a cycle: {cycle}."
  | .cyclicChain node kind =>
    s!"Statement node '{shown node}' ({shown kind}) is reached twice; " ++
      "statement chains must not loop or share nodes."

/-- What a report lists for the error: its own diagnostics, else its message. -/
def diagnostics : CompileError → List String
  | .failure message _ _ diagnostics => diagnostics.getD [message]
  | e => [e.message]

/-- The error as a service reports it. -/
def toJson (e : CompileError) : Json :=
  .obj [("diagnostics", .strings e.diagnostics), ("error", .str e.name),
    ("node_id", .ofOption .str e.node?), ("kind", .ofOption .str e.kind?)]

/-- The error of a program whose nesting exceeds the allowance. -/
def tooDeep : CompileError := .failure "Program nests too deeply to compile." none none none

end CompileError

/-- What stops the run of a compiler. -/
inductive Fault where
  | compile (e : CompileError)
  | tooDeep
  | render (e : RenderError)
  | unknownOperator (token : String)
  deriving DecidableEq

def Fault.message : Fault → String
  | .compile e => e.message
  | .tooDeep => "maximum recursion depth exceeded"
  | .render e => e.message
  | .unknownOperator token => Text.quoted token

end BlockMusic
