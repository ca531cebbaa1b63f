import BlockMusic.Graph.Basic
import BlockMusic.Validation.Schema

/-!
# Graphs as documents

The JSON form of a graph, and the schema by which it is read. Beyond the types of its fields a graph
obeys four rules: a binding has exactly one source, its numbers and those of the fields are finite,
there are at most five hundred nodes, and no two have the same id.
-/

namespace BlockMusic

open Schema

def Binding.toJson : Binding → Json
  | .literal value => .obj [("literal", value.toJson), ("node_id", .null)]
  | .node id => .obj [("literal", .null), ("node_id", .str id)]

def Position.toJson (p : Position) : Json :=
  .obj [("x", .float p.x), ("y", .float p.y)]

def Node.toJson (n : Node) : Json :=
  .obj [("id", .str n.id), ("kind", .str n.kind),
    ("inputs", .obj (n.inputs.map fun (slot, b) => (slot, b.toJson))),
    ("statements", .obj (n.bodies.map fun (slot, id) => (slot, .str id))),
    ("fields", .obj (n.fields.map fun (name, s) => (name, s.toJson))),
    ("next", .ofOption .str n.next), ("position", n.position.toJson)]

def Graph.toJson (g : Graph) : Json :=
  .obj [("nodes", .arr (g.nodes.map Node.toJson))]

/-- The binding with the given sources, or the rule that they break. -/
def Binding.ofSources : Option Literal → Option String → Except String Binding
  | some value, none =>
    if value.isFinite then .ok (.literal value) else .error "Numeric literals must be finite."
  | none, some id => .ok (.node id)
  | _, _ => .error "A value binding needs exactly one of 'literal' or 'node_id'."

def Binding.schema : Schema Binding := fun origin j =>
  (record (fun o j =>
      Prod.mk <$> fieldOr "literal" none (nullable Schema.literal) o j
        <*> fieldOr "node_id" none (nullable nonEmptyText) o j) origin j).andThen
    fun (value, id) =>
      match Binding.ofSources value id with
      | .ok b => .valid b
      | .error message => .fail (.rule message) j

def Position.schema : Schema Position := record fun o j =>
  Position.mk <$> fieldOr "x" (Double.zero false) float o j
    <*> fieldOr "y" (Double.zero false) float o j

/-- The first field that is not finite breaks the rule. -/
def Node.fieldsBroken? (fields : List (String × Scalar)) : Option String :=
  (fields.find? fun f => !f.2.isFinite).map fun f => s!"Field '{f.1}' must be a finite number."

def Node.schema : Schema Node := record fun o j =>
  Node.mk <$> field "id" nonEmptyText o j <*> field "kind" nonEmptyText o j
    <*> fieldOr "inputs" [] (entries Binding.schema) o j
    <*> fieldOr "statements" [] (entries anyText) o j
    <*> fieldOr "fields" [] (withRule (entries scalar) Node.fieldsBroken?) o j
    <*> fieldOr "next" none (nullable anyText) o j <*> fieldOr "position" {} Position.schema o j

/-- The greatest number of nodes of a program. -/
def Graph.maxNodes : Nat := 500

def Graph.sizeBroken? (nodes : List Node) : Option String :=
  if Graph.maxNodes < nodes.length then
    some s!"Program exceeds maximum node count ({Graph.maxNodes})"
  else none

def Graph.idsBroken? (g : Graph) : Option String :=
  if (g.nodes.map Node.id).Nodup then none else some "Node IDs must be unique"

def Graph.schema : Schema Graph :=
  withRule
    (record fun o j =>
      Graph.mk <$> fieldOr "nodes" [] (withRule (list Node.schema) Graph.sizeBroken?) o j)
    Graph.idsBroken?

/-- A graph with the node that the compiled chain starts at. -/
structure CompileRequest where
  graph : Graph
  root : Option String
  deriving DecidableEq

def CompileRequest.toJson (r : CompileRequest) : Json :=
  .obj [("graph", r.graph.toJson), ("root_id", .ofOption .str r.root)]

def CompileRequest.schema : Schema CompileRequest := record fun o j =>
  CompileRequest.mk <$> field "graph" Graph.schema o j
    <*> fieldOr "root_id" none (nullable nonEmptyText) o j

end BlockMusic
