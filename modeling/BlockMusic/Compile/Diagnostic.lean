import BlockMusic.Graph.Basic
import BlockMusic.Text.Quoted

/-!
# Diagnostics

A compilation goes on where a part of the program is incomplete, and notes each time that the output
was degraded by it. A diagnostic names the node concerned.
-/

namespace BlockMusic

/-- The id and the kind by which messages name a node. -/
structure NodeName where
  id : String
  kind : String
  deriving DecidableEq, Repr

def Node.name (n : Node) : NodeName := ⟨n.id, n.kind⟩

/-- A way in which the output was degraded. -/
inductive Diagnostic where
  | unboundInput (node : NodeName) (slot : String)
  | statementAsValue (node : NodeName) (slot : String) (child : NodeName)
  | emptyBody (node : NodeName) (slot : String)
  | valueInChain (node : NodeName)
  | detachedValue (node : NodeName)
  | nestedMotif (id scope : String)
  /-- The value is given as it is shown. -/
  | unknownChoice (node : NodeName) (field value used : String)
  | notANumber (node : NodeName) (field : String)
  /-- A remark in words. -/
  | remark (text : String)
  deriving DecidableEq

def Diagnostic.message : Diagnostic → String
  | .unboundInput node slot =>
    s!"Node '{node.id}' ({node.kind}) input '{slot}' is unbound; substituting empty text."
  | .statementAsValue node slot child =>
    s!"Node '{node.id}' ({node.kind}) input '{slot}' is bound to " ++
      s!"statement block '{child.id}' ({child.kind}); substituting empty text."
  | .emptyBody node slot => s!"Node '{node.id}' ({node.kind}) statement input '{slot}' is empty."
  | .valueInChain node =>
    s!"Node '{node.id}' ({node.kind}) is a value block inside a statement chain; skipped."
  | .detachedValue node => s!"Detached value block '{node.id}' ({node.kind}) ignored."
  | .nestedMotif id scope =>
    s!"Motif node '{id}' is nested inside a '{scope}' scope; " ++
      "its definition is hoisted to the top level."
  | .unknownChoice node field value used =>
    s!"Node '{node.id}' ({node.kind}) field '{field}' has unknown option {value}; " ++
      s!"using {Text.quoted used}."
  | .notANumber node field =>
    s!"Node '{node.id}' ({node.kind}) field '{field}' is not a number; using 0."
  | .remark text => text

end BlockMusic
