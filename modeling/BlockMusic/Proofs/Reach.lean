import BlockMusic.Proofs.Run
import Mathlib.Logic.Relation
import Mathlib.Logic.ExistsUnique

/-!
# What a compilation reaches

A compilation follows two kinds of references. Along a chain it goes from a node to its `next`, and
from a statement into the bodies that its block declares. From a node that it writes it goes to the
nodes bound to the value inputs that the block declares, as far as they produce values. References
that no block declares are not followed.

A part of a graph is well formed when all these references lead to known nodes, no value leads back to
itself, and every node of a chain is reached in exactly one way.
-/

namespace BlockMusic

/-! ## The built-in blocks -/

namespace Registry

/-- A value has no bodies, and the bodies of a statement have distinct names. -/
structure Plain (r : Registry) : Prop where
  bodies_of_value : ∀ b ∈ r.blocks, b.producesValue = true → b.bodies = []
  nodup_bodies : ∀ b ∈ r.blocks, (b.bodies.map BodyInput.name).Nodup

theorem blocks_builtin : (Registry.builtin []).blocks = Catalogue.blocks := rfl

theorem mem_catalogue {kind : String} {b : Block} (h : (Registry.builtin []).get? kind = some b) :
    b ∈ Catalogue.blocks :=
  blocks_builtin ▸ mem_of_get? h

theorem plain_builtin : (Registry.builtin []).Plain where
  bodies_of_value := by
    rw [blocks_builtin]
    decide
  nodup_bodies := by
    rw [blocks_builtin]
    decide

end Registry

namespace Catalogue

theorem mem_values : ∀ b ∈ blocks, b.producesValue = true → b ∈ values := by decide

theorem nodup_inputs : ∀ b ∈ blocks, (b.inputs.map ValueInput.name).Nodup := by decide

theorem bodies_of_value : ∀ b ∈ values, b.bodies = [] := by decide

theorem finite_defaults : ∀ b ∈ blocks, ∀ i ∈ b.inputs, i.default.all Literal.isFinite = true := by
  decide

end Catalogue

namespace Compiler

variable (c : Compiler) (g : Graph)

/-! ## Values -/

/-- The value input is bound to a node that produces a value. -/
def Target (n : Node) (i : ValueInput) (m : Node) : Prop :=
  ∃ id b, n.input? i.name = some (.node id) ∧ g.node? id = some m ∧
    c.registry.get? m.kind = some b ∧ b.producesValue = true

/-- A value input that the block of `n` declares leads to `m`. -/
def ValueEdge (n m : Node) : Prop :=
  ∃ b i, c.registry.get? n.kind = some b ∧ i ∈ b.inputs ∧ c.Target g n i m

/-- The node is among the values behind the input. -/
def Behind (n : Node) (i : ValueInput) (m : Node) : Prop :=
  ∃ first, c.Target g n i first ∧ Relation.ReflTransGen (c.ValueEdge g) first m

/-- The references behind the input lead to known nodes, and come to an end. -/
inductive Grounded : Node → ValueInput → Prop
  | free {n : Node} {i : ValueInput} (hfree : ∀ id, n.input? i.name ≠ some (.node id)) : Grounded n i
  | bound {n child : Node} {i : ValueInput} {id : String} {b : Block}
      (hin : n.input? i.name = some (.node id)) (hnode : g.node? id = some child)
      (hb : c.registry.get? child.kind = some b)
      (hinputs : b.producesValue = true → ∀ j ∈ b.inputs, Grounded child j) : Grounded n i

/-! ## Chains -/

/-- The bodies of a statement, with the nodes that they lead to. -/
def bodyEdges (n : Node) (is : List BodyInput) : List (Slot × String) :=
  is.filterMap fun i => (n.body? i.name).map fun id => (.body i.name, id)

/-- The ways along which a chain goes on from a node: into its bodies if it is a statement, and to the
node after it. -/
def chainEdges (n : Node) : List (Slot × String) :=
  (match c.registry.get? n.kind with
    | some b => if b.isStatement then bodyEdges n b.bodies else []
    | none => []) ++
  n.next.toList.map fun id => (.next, id)

/-- The nodes of the chain from a root, and of the chains in its bodies. -/
inductive ChainNode (root : String) : Node → Prop
  | root {n : Node} (hnode : g.node? root = some n) : ChainNode root n
  | edge {n m : Node} {slot : Slot} {id : String} (hn : ChainNode root n)
      (hedge : (slot, id) ∈ c.chainEdges n) (hnode : g.node? id = some m) : ChainNode root m

/-- The nodes that are written: the statements among the nodes of the chains, and the values that they
lead to. -/
inductive Written (root : String) : Node → Prop
  | statement {n : Node} {b : Block} (hn : c.ChainNode g root n)
      (hb : c.registry.get? n.kind = some b) (hs : b.isStatement = true) : Written root n
  | value {n m : Node} (hn : Written root n) (hedge : c.ValueEdge g n m) : Written root m

/-- The id is that of a node whose kind is registered. -/
def Known (id : String) : Prop :=
  ∃ n b, g.node? id = some n ∧ c.registry.get? n.kind = some b

/-- The part of the graph that a compilation from the root reaches is well formed. -/
structure WellFormed (root : String) : Prop where
  root_known : c.Known g root
  chain_known : ∀ n, c.ChainNode g root n → ∀ e ∈ c.chainEdges n, c.Known g e.2
  value_known : ∀ n b, c.Written g root n → c.registry.get? n.kind = some b → ∀ i ∈ b.inputs, ∀ id,
    n.input? i.name = some (.node id) → c.Known g id
  acyclic : ∀ n m, c.Written g root n → c.ValueEdge g n m → ¬ Relation.TransGen (c.ValueEdge g) m m
  root_unreached : ∀ n, c.ChainNode g root n → ∀ e ∈ c.chainEdges n, e.2 ≠ root
  reached_once : ∀ n, c.ChainNode g root n → n.id ≠ root →
    ∃! source : Node × Slot, c.ChainNode g root source.1 ∧ (source.2, n.id) ∈ c.chainEdges source.1

variable {c g} {n m : Node} {i : ValueInput} {root : String}

theorem Target.node? (h : c.Target g n i m) : g.node? m.id = some m := by
  obtain ⟨id, b, -, hm, -, -⟩ := h
  rw [Graph.id_of_node? hm]
  exact hm

theorem Behind.node? (h : c.Behind g n i m) : g.node? m.id = some m := by
  obtain ⟨first, hfirst, hreach⟩ := h
  cases hreach with
  | refl => exact hfirst.node?
  | tail _ hedge =>
      obtain ⟨b, j, -, -, htarget⟩ := hedge
      exact htarget.node?

/-- What is behind an input of a value is behind the input that leads to the value. -/
theorem Behind.of_input {child : Node} {b : Block} {j : ValueInput} (htarget : c.Target g n i child)
    (hb : c.registry.get? child.kind = some b) (hj : j ∈ b.inputs) (h : c.Behind g child j m) :
    c.Behind g n i m := by
  obtain ⟨first, hfirst, hreach⟩ := h
  exact ⟨child, htarget, .head ⟨b, j, hb, hj, hfirst⟩ hreach⟩

theorem ChainNode.node? (h : c.ChainNode g root n) : g.node? n.id = some n := by
  cases h with
  | root hnode =>
      rw [Graph.id_of_node? hnode]
      exact hnode
  | edge _ _ hnode =>
      rw [Graph.id_of_node? hnode]
      exact hnode

/-- What is grounded behind an input that leads to a node. -/
theorem Grounded.inputs (h : c.Grounded g n i) (hm : c.Target g n i m) {b : Block}
    (hb : c.registry.get? m.kind = some b) : ∀ j ∈ b.inputs, c.Grounded g m j := by
  obtain ⟨id, b', hin, hnode, hb', hv⟩ := hm
  obtain rfl : b' = b := Option.some.inj (hb'.symm.trans hb)
  cases h with
  | free hfree => exact absurd hin (hfree id)
  | @bound _ child _ id' b'' hin' hnode' hb'' hinputs =>
      rw [hin] at hin'
      cases hin'
      rw [hnode] at hnode'
      cases hnode'
      obtain rfl : b'' = b' := Option.some.inj (hb''.symm.trans hb)
      exact hinputs hv

/-- Below a grounded input there is no endless path of value inputs. -/
theorem Grounded.acc (h : c.Grounded g n i) (hm : c.Target g n i m) :
    Acc (fun m n => c.ValueEdge g n m) m := by
  induction h generalizing m with
  | free hfree =>
      obtain ⟨id, b, hin, -⟩ := hm
      exact absurd hin (hfree id)
  | @bound n child i id b hin hnode hb hinputs ih =>
      obtain ⟨id', b', hin', hnode', hb', hv⟩ := hm
      rw [hin] at hin'
      cases hin'
      rw [hnode] at hnode'
      cases hnode'
      obtain rfl : b' = b := Option.some.inj (hb'.symm.trans hb)
      constructor
      rintro m' ⟨b'', j, hb'', hj, hm'⟩
      obtain rfl : b'' = b' := Option.some.inj (hb''.symm.trans hb)
      exact ih hv j hj hm'

/-- A node behind a grounded input does not lead back to itself. -/
theorem Grounded.not_transGen (h : c.Grounded g n i) (hm : c.Target g n i m) :
    ¬ Relation.TransGen (c.ValueEdge g) m m := by
  have hacc := (h.acc hm).transGen
  clear h hm
  induction hacc with
  | intro m _ ih =>
      intro hloop
      exact ih m (Relation.transGen_swap.1 hloop) hloop

end Compiler

end BlockMusic
