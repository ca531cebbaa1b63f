import BlockMusic.Literal

/-!
# Program graphs

A program is saved as a graph of nodes. A node has a kind, its value inputs are bound to literals or
to other nodes, its bodies name the first node of a chain, its fields hold scalars, and `next` names
the node after it in its chain. The position on the canvas only orders the chains.
-/

namespace BlockMusic

/-- What a value input is bound to. -/
inductive Binding where
  | literal (value : Literal)
  | node (id : String)
  deriving DecidableEq

/-- A place on the canvas. -/
structure Position where
  x : Double := Double.zero false
  y : Double := Double.zero false
  deriving DecidableEq

/-- A node of a program. -/
structure Node where
  id : String
  kind : String
  inputs : List (String × Binding) := []
  bodies : List (String × String) := []
  fields : List (String × Scalar) := []
  next : Option String := none
  position : Position := {}
  deriving DecidableEq

/-- A program as saved. -/
structure Graph where
  nodes : List Node
  deriving DecidableEq

namespace Node

/-- The binding of a value input. -/
def input? (n : Node) (slot : String) : Option Binding := n.inputs.lookup slot

/-- The first node of a body. -/
def body? (n : Node) (slot : String) : Option String := n.bodies.lookup slot

/-- The value of a field. -/
def field? (n : Node) (name : String) : Option Scalar := n.fields.lookup name

/-- The ids that a node refers to. -/
def references (n : Node) : List String :=
  n.next.toList ++ n.bodies.map Prod.snd ++
    n.inputs.filterMap fun
      | (_, .node id) => some id
      | (_, .literal _) => none

end Node

namespace Graph

/-- The node with an id. -/
def node? (g : Graph) (id : String) : Option Node := g.nodes.find? fun n => n.id = id

/-- The ids that some node refers to. -/
def referenced (g : Graph) : List String := g.nodes.flatMap Node.references

/-- The nodes that no node refers to, in the order of the graph. -/
def unreferenced (g : Graph) : List Node :=
  let known := g.referenced
  g.nodes.filter fun n => !known.contains n.id

end Graph

end BlockMusic
