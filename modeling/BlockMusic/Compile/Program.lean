import BlockMusic.Compile.Compiler

/-!
# Compiled programs

A compiled program is the list of hoisted macros, the body, and the diagnostics. Its text puts the
macros first, with an empty line between them and the body when both are there. A compilation also
writes a log.
-/

namespace BlockMusic

/-- A compiled program. -/
structure Program where
  macros : List String
  body : String
  diagnostics : List Diagnostic
  deriving DecidableEq

namespace Program

/-- The macros and the body, one under the other. -/
def assemble (macros : List String) (body : String) : String :=
  let macroText := String.join macros
  if macroText = "" then body
  else if body = "" then macroText
  else macroText ++ "\n" ++ body

def text (p : Program) : String := assemble p.macros p.body

def toJson (p : Program) : Json :=
  .obj [("program", .str p.text), ("macros", .strings p.macros), ("body", .str p.body),
    ("diagnostics", .strings (p.diagnostics.map Diagnostic.message))]

end Program

namespace Log

inductive Severity where
  | debug
  | info
  | warning
  deriving DecidableEq, Repr

def Severity.name : Severity → String
  | .debug => "DEBUG"
  | .info => "INFO"
  | .warning => "WARNING"

end Log

/-- A line of the log. -/
structure LogLine where
  severity : Log.Severity
  message : String
  deriving DecidableEq, Repr

/-- The outcome of a compilation and its log. -/
structure Compilation where
  outcome : Except Fault Program
  log : List LogLine

namespace Compiler

/-- The log of a compilation that succeeds. -/
def successLog (g : Graph) (p : Program) : List LogLine :=
  let nodes := g.nodes.length
  let macros := p.macros.length
  let diagnostics := p.diagnostics.length
  p.diagnostics.map (fun d => ⟨.debug, "Degraded block output: " ++ d.message⟩) ++
    [⟨.info, s!"Compiled block program ({nodes} nodes, {macros} macros, {diagnostics} diagnostics)"⟩]

/-- Compiles a graph: the chain from a root, or all chains. -/
def compile (c : Compiler) (g : Graph) (root : Option String) : Compilation :=
  match c.compileBodyText g root {} with
  | .ok body ctx =>
    let program : Program := ⟨ctx.hoisted, body, ctx.diagnostics⟩
    ⟨.ok program, successLog g program⟩
  | .error .tooDeep _ => ⟨.error (.compile .tooDeep), []⟩
  | .error (.compile e) _ =>
    ⟨.error (.compile e), [⟨.warning, "Block program compilation failed: " ++ e.message⟩]⟩
  | .error e _ => ⟨.error e, []⟩

/-- What is logged when a block declares no input of the name asked for. -/
def undeclaredInput (n : Node) (slot : String) : LogLine :=
  ⟨.debug, s!"Block kind '{n.kind}' declares no value input '{slot}' (node '{n.id}')"⟩

end Compiler

end BlockMusic
