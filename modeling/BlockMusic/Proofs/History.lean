import BlockMusic.Proofs.Frame
import BlockMusic.Proofs.Reach
import Mathlib.Data.List.Perm.Basic
import Mathlib.Data.List.Perm.Lattice
import Mathlib.Data.List.Perm.Subperm

/-!
# The history of a walk

A walk enters every node of a chain in some way: at the root, or along an edge. The history lists these
entries in the order of the visits. What a successful walk adds to it is the entry it began with and
all edges of the nodes that it added, each of them once. A walk that is stopped by the graph has found
a part of it that is not well formed.
-/

namespace BlockMusic

/-- A way into a node: along an edge of another node, or at the root. -/
structure Entry where
  target : String
  source : Option (String × Slot)
  deriving DecidableEq

namespace Compiler

open Gen

variable (c : Compiler) (g : Graph) (root : String)

/-- The edges of a node, as entries. -/
def entriesAlong (n : Node) (edges : List (Slot × String)) : List Entry :=
  edges.map fun e => ⟨e.2, some (n.id, e.1)⟩

/-- The entries along which a chain goes on behind an entry. -/
def onward (e : Entry) : List Entry :=
  match g.node? e.target with
  | some n => entriesAlong n (c.chainEdges n)
  | none => []

/-- The entries of a compilation from the root. -/
inductive Legit : Entry → Prop
  | root : Legit ⟨root, none⟩
  | edge {n : Node} {e : Entry} (hn : c.ChainNode g root n)
      (he : e ∈ entriesAlong n (c.chainEdges n)) : Legit e

/-- The entries are those of a compilation, into different nodes, and each edge was taken after the
node that it comes from was entered. -/
structure History (H : List Entry) : Prop where
  nodup : (H.map Entry.target).Nodup
  legit : ∀ e ∈ H, c.Legit g root e
  found : ∀ e ∈ H, ∃ n ∈ g.nodes, n.id = e.target
  source : ∀ e ∈ H, ∀ id slot, e.source = some (id, slot) → id ∈ H.map Entry.target

/-- The node is known, and what it writes is grounded. -/
def Settled (id : String) : Prop :=
  ∃ n b, g.node? id = some n ∧ c.registry.get? n.kind = some b ∧
    (b.isStatement = true → ∀ i ∈ b.inputs, c.Grounded g n i)

/-- What a walk that begins with the entries `start` has added to the history `H`. -/
def Walked (H start : List Entry) (ctx : Context) : Prop :=
  ∃ L, ctx.visited = (H ++ L).map Entry.target ∧ c.History g root (H ++ L) ∧
    L.Perm (start ++ L.flatMap (c.onward g)) ∧ ∀ e ∈ L, c.Settled g e.target

variable {c g root} {n m : Node} {b : Block} {e : Entry} {H L start : List Entry} {ctx : Context}

theorem mem_entriesAlong {edges : List (Slot × String)} :
    e ∈ entriesAlong n edges ↔ ∃ slot, e.source = some (n.id, slot) ∧ (slot, e.target) ∈ edges := by
  constructor
  · intro he
    obtain ⟨⟨slot, id⟩, hedge, rfl⟩ := List.mem_map.1 he
    exact ⟨slot, rfl, hedge⟩
  · rintro ⟨slot, hsource, hedge⟩
    refine List.mem_map.2 ⟨(slot, e.target), hedge, ?_⟩
    cases e
    simp_all

namespace History

/-- The history with one more entry. -/
theorem concat (h : c.History g root H) (he : c.Legit g root e) (hn : n ∈ g.nodes)
    (hid : e.target = n.id) (hnew : n.id ∉ H.map Entry.target)
    (hsource : ∀ id slot, e.source = some (id, slot) → id ∈ H.map Entry.target) :
    c.History g root (H ++ [e]) where
  nodup := by
    rw [List.map_append]
    exact List.nodup_append.2 ⟨h.nodup, by simp, by
      intro x hx y hy hxy
      rw [List.map_singleton, List.mem_singleton] at hy
      exact hnew (by rw [← hid, ← hy, ← hxy]; exact hx)⟩
  legit := by
    intro e' he'
    rcases List.mem_append.1 he' with he' | he'
    · exact h.legit e' he'
    · rw [List.mem_singleton.1 he']
      exact he
  found := by
    intro e' he'
    rcases List.mem_append.1 he' with he' | he'
    · exact h.found e' he'
    · rw [List.mem_singleton.1 he']
      exact ⟨n, hn, hid.symm⟩
  source := by
    intro e' he' id slot hs
    rw [List.map_append]
    rcases List.mem_append.1 he' with he' | he'
    · exact List.mem_append_left _ (h.source e' he' id slot hs)
    · rw [List.mem_singleton.1 he'] at hs
      exact List.mem_append_left _ (hsource id slot hs)

/-- The edges of a node that was not entered yet were not taken. -/
theorem notMem_of_source (h : c.History g root H) {id : String} {slot : Slot}
    (hsource : e.source = some (id, slot)) (hnew : id ∉ H.map Entry.target) : e ∉ H :=
  fun he => hnew (h.source e he id slot hsource)

end History

/-! ## Values -/

theorem chainEdges_eq (hb : c.registry.get? n.kind = some b) :
    c.chainEdges n = (if b.isStatement then bodyEdges n b.bodies else []) ++
      n.next.toList.map fun id => (Slot.next, id) := by
  rw [chainEdges, hb]

namespace Walked

theorem refl (h : c.History g root H) (hv : ctx.visited = H.map Entry.target) :
    c.Walked g root H [] ctx :=
  ⟨[], by simpa using hv, by simpa using h, .refl _, by simp⟩

theorem of_visited {ctx' : Context} (h : c.Walked g root H start ctx)
    (hv : ctx'.visited = ctx.visited) : c.Walked g root H start ctx' := by
  obtain ⟨L, hL, hrest⟩ := h
  exact ⟨L, hv.trans hL, hrest⟩

/-- A walk goes on behind another one. -/
theorem append {start' : List Entry} (hperm : L.Perm (start ++ L.flatMap (c.onward g)))
    (hsettled : ∀ e ∈ L, c.Settled g e.target) (h : c.Walked g root (H ++ L) start' ctx) :
    c.Walked g root H (start ++ start') ctx := by
  obtain ⟨L', hv, hhistory, hperm', hsettled'⟩ := h
  refine ⟨L ++ L', by rw [hv, List.append_assoc], List.append_assoc H L L' ▸ hhistory, ?_, ?_⟩
  · rw [List.flatMap_append, List.append_assoc]
    refine (hperm.append hperm').trans ?_
    rw [List.append_assoc]
    exact (List.perm_append_comm_assoc _ _ _).append_left start
  · intro e he
    rcases List.mem_append.1 he with he | he
    · exact hsettled e he
    · exact hsettled' e he

/-- A walk through a node is its entry and the walk along its edges. -/
theorem enter (h : c.Walked g root (H ++ [e]) (c.onward g e) ctx) (he : c.Settled g e.target) :
    c.Walked g root H [e] ctx := by
  obtain ⟨L, hv, hhistory, hperm, hsettled⟩ := h
  rw [List.append_assoc] at hv hhistory
  refine ⟨[e] ++ L, hv, hhistory, hperm.cons e, ?_⟩
  intro e' he'
  rcases List.mem_append.1 he' with he' | he'
  · rw [List.mem_singleton.1 he']
    exact he
  · exact hsettled e' he'

end Walked

/-- The walk may enter the node along the entry. -/
structure MayEnter (c : Compiler) (g : Graph) (root : String) (H : List Entry) (e : Entry) (n : Node)
    (ctx : Context) : Prop where
  node : c.ChainNode g root n
  legit : c.Legit g root e
  target : e.target = n.id
  notMem : e ∉ H
  source : ∀ id slot, e.source = some (id, slot) → id ∈ H.map Entry.target
  history : c.History g root H
  visited : ctx.visited = H.map Entry.target
  stack : ctx.resolving = []

/-- The walk has entered the node, and none of its edges were taken yet. -/
structure Entered (c : Compiler) (g : Graph) (root : String) (H : List Entry) (n : Node)
    (ctx : Context) : Prop where
  node : c.ChainNode g root n
  mem : n.id ∈ H.map Entry.target
  fresh : ∀ e slot, e.source = some (n.id, slot) → e ∉ H
  history : c.History g root H
  visited : ctx.visited = H.map Entry.target
  stack : ctx.resolving = []

theorem MayEnter.mem_nodes (h : c.MayEnter g root H e n ctx) : n ∈ g.nodes :=
  Graph.mem_of_node? h.node.node?

theorem MayEnter.known (h : c.MayEnter g root H e n ctx) (hwf : c.WellFormed g root) :
    ∃ b, c.registry.get? n.kind = some b := by
  have hknown : c.Known g e.target := by
    cases h.legit with
    | root => exact hwf.root_known
    | edge hm he =>
        obtain ⟨slot, -, hedge⟩ := mem_entriesAlong.1 he
        exact hwf.chain_known _ hm _ hedge
  obtain ⟨m, b, hm, hb⟩ := hknown
  rw [h.target, h.node.node?] at hm
  cases hm
  exact ⟨b, hb⟩

theorem MayEnter.enter (h : c.MayEnter g root H e n ctx) (hnew : n.id ∉ ctx.visited) :
    c.Entered g root (H ++ [e]) n { ctx with visited := ctx.visited ++ [n.id] } where
  node := h.node
  mem := by simp [h.target]
  fresh := by
    intro e' slot hs hmem
    rw [h.visited] at hnew
    rcases List.mem_append.1 hmem with hold | htop
    · exact h.history.notMem_of_source hs hnew hold
    · rw [List.mem_singleton.1 htop] at hs
      exact hnew (h.source n.id slot hs)
  history := h.history.concat h.legit h.mem_nodes h.target (h.visited ▸ hnew) h.source
  visited := by simp [h.visited, h.target]
  stack := h.stack

theorem Entered.of_context {ctx' : Context} (h : c.Entered g root H n ctx)
    (hv : ctx'.visited = ctx.visited) (hstack : ctx'.resolving = ctx.resolving) :
    c.Entered g root H n ctx' :=
  { h with visited := hv.trans h.visited, stack := hstack.trans h.stack }

theorem mem_bodyEdges {is : List BodyInput} {slot : Slot} {id : String} :
    (slot, id) ∈ bodyEdges n is ↔ ∃ i ∈ is, slot = .body i.name ∧ n.body? i.name = some id := by
  unfold bodyEdges
  rw [List.mem_filterMap]
  constructor
  · rintro ⟨i, hi, hmap⟩
    obtain ⟨id', hid', heq⟩ := Option.map_eq_some_iff.1 hmap
    cases heq
    exact ⟨i, hi, rfl, hid'⟩
  · rintro ⟨i, hi, rfl, hid⟩
    exact ⟨i, hi, by rw [hid]; rfl⟩

@[simp] theorem bodyEdges_concat (n : Node) (is : List BodyInput) (i : BodyInput) :
    bodyEdges n (is ++ [i]) =
      bodyEdges n is ++ ((n.body? i.name).map fun id => (Slot.body i.name, id)).toList := by
  rw [bodyEdges, List.filterMap_append, ← bodyEdges]
  cases h : n.body? i.name with
  | none => simp [h]
  | some id => simp [h]

theorem bodyEdge_mem_chainEdges {i : BodyInput} {id : String}
    (hb : c.registry.get? n.kind = some b) (hs : b.isStatement = true) (hi : i ∈ b.bodies)
    (hid : n.body? i.name = some id) : (Slot.body i.name, id) ∈ c.chainEdges n := by
  rw [chainEdges_eq hb, if_pos hs]
  exact List.mem_append_left _ (mem_bodyEdges.2 ⟨i, hi, rfl, hid⟩)

/-- The writers raise no structural faults of their own. -/
def Quiet (c : Compiler) : Prop :=
  ∀ kind a e, (c.writer kind a).outcome ≠ .error (.compile e)

end Compiler

end BlockMusic
