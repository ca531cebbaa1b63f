import BlockMusic.Proofs.Reach
import BlockMusic.Proofs.Workspace

/-!
# What stops a walk

A walk follows the references that nodes hold in declared slots. It stops at an obstacle: a reference to
a node that is not there, a node of a kind that is not registered, or a literal or a writer that fails.
It also stops when it has come back to a node, and at the end of its allowance. There is no other
reason, whatever the blocks and the writers are.
-/

namespace BlockMusic

namespace Compiler

open Gen

/-! ## References -/

/-- The node refers to the id in a slot that a walk follows: as the node after it, or in an input or a
body that its block declares. -/
def Refers (c : Compiler) (n : Node) (slot : Slot) (id : String) : Prop :=
  match slot with
  | .next => n.next = some id
  | .input name => ∃ b, c.registry.get? n.kind = some b ∧ name ∈ b.inputs.map ValueInput.name ∧
      n.input? name = some (.node id)
  | .body name => ∃ b, c.registry.get? n.kind = some b ∧ name ∈ b.bodies.map BodyInput.name ∧
      n.body? name = some id
  | .root => False
  | .described _ => False

variable {c : Compiler} {g : Graph} {root : Option String} {n : Node} {b : Block} {ctx : Context}

theorem refers_input {i : ValueInput} {id : String} (hb : c.registry.get? n.kind = some b)
    (hi : i ∈ b.inputs) (hin : n.input? i.name = some (.node id)) : c.Refers n (.input i.name) id :=
  ⟨b, hb, List.mem_map_of_mem hi, hin⟩

theorem refers_body {i : BodyInput} {id : String} (hb : c.registry.get? n.kind = some b)
    (hi : i ∈ b.bodies) (hbody : n.body? i.name = some id) : c.Refers n (.body i.name) id :=
  ⟨b, hb, List.mem_map_of_mem hi, hbody⟩

/-- The edges of chains are among the references. -/
theorem refers_of_mem_chainEdges {slot : Slot} {id : String} (h : (slot, id) ∈ c.chainEdges n) :
    c.Refers n slot id := by
  rcases List.mem_append.1 h with hbody | hnext
  · cases hb : c.registry.get? n.kind with
    | none => simp [hb] at hbody
    | some b =>
        rw [hb] at hbody
        dsimp only at hbody
        split at hbody
        · obtain ⟨i, hi, hmap⟩ := List.mem_filterMap.1 hbody
          obtain ⟨id', hid, heq⟩ := Option.map_eq_some_iff.1 hmap
          cases heq
          exact refers_body hb hi hid
        · cases hbody
  · obtain ⟨id', hid, heq⟩ := List.mem_map.1 hnext
    cases heq
    exact Option.mem_toList.1 hid

theorem Refers.mem_references {slot : Slot} {id : String} (h : c.Refers n slot id) :
    id ∈ n.references := by
  unfold Node.references
  cases slot with
  | root => exact h.elim
  | described text => exact h.elim
  | next =>
      have hnext : n.next = some id := h
      simp [hnext]
  | input name =>
      obtain ⟨b, -, -, hin⟩ := h
      have hmem := Node.mem_inputs hin
      simp only [List.mem_append, List.mem_filterMap]
      exact .inr ⟨_, hmem, rfl⟩
  | body name =>
      obtain ⟨b, -, -, hbody⟩ := h
      obtain ⟨before, behind, hbodies, -⟩ := List.lookup_eq_some_iff.1 hbody
      simp [hbodies]

/-- No edge of a chain leads to the first node of one. -/
theorem notMem_chainEdges_of_head {h : Node} (hh : h ∈ c.chainHeads g) (hn : n ∈ g.nodes)
    (slot : Slot) : (slot, h.id) ∉ c.chainEdges n := by
  intro hedge
  have hfree : h ∈ g.unreferenced := (List.mem_filter.1 (chainHeads_perm.mem_iff.1 hh)).1
  have hreferenced : h.id ∈ g.referenced :=
    List.mem_flatMap.2 ⟨n, hn, (refers_of_mem_chainEdges hedge).mem_references⟩
  simp [Graph.unreferenced, hreferenced] at hfree

/-! ## Obstacles -/

/-- What stops a walk over the graph besides its own nodes coming up again. -/
inductive Obstacle (c : Compiler) (g : Graph) (root : Option String) : Fault → Prop
  | root {id : String} (hroot : root = some id) (hmissing : g.node? id = none) :
      Obstacle c g root (.compile (.danglingReference id none none .root))
  | missing {n : Node} {slot : Slot} {id : String} (hn : n ∈ g.nodes) (hrefers : c.Refers n slot id)
      (hmissing : g.node? id = none) :
      Obstacle c g root (.compile (.danglingReference id (some n.id) (some n.kind) slot))
  | unknown {n : Node} (hn : n ∈ g.nodes) (hkind : c.registry.get? n.kind = none) :
      Obstacle c g root (.compile (.unknownKind (some n.id) (some n.kind)))
  | literal {l : Literal} {e : RenderError} (hscript : l.script = .error e) :
      Obstacle c g root (.render e)
  | writer {kind : String} {a : Arguments} {fault : Fault}
      (houtcome : (c.writer kind a).outcome = .error fault) : Obstacle c g root fault

/-- The fault of a walk that has come back to a node. -/
inductive CameBack : Fault → Prop
  | value (id kind : String) (path : List String) :
      CameBack (.compile (.cyclicValue (some id) (some kind) path))
  | chain (id kind : String) : CameBack (.compile (.cyclicChain (some id) (some kind)))

/-- Nothing else than the faults of `E` stops the level at a node of the graph. -/
def StopsAt (c : Compiler) (g : Graph) (E : Fault → Prop) (r : Level) : Prop :=
  ∀ n b ctx, n ∈ g.nodes → c.registry.get? n.kind = some b →
    Ensures (r n b) ctx (fun _ _ => True) fun fault _ => E fault

section Walks

-- the faults in question: obstacles, nodes that come up again, and possibly others
variable {E : Fault → Prop} (hobstacle : ∀ fault, c.Obstacle g root fault → E fault)
  (hback : ∀ fault, CameBack fault → E fault) {r values bodies : Level}
include hobstacle

theorem ensures_literalFragment_stops (l : Literal) :
    Ensures (literalFragment l) ctx (fun _ _ => True) fun fault _ => E fault :=
  ensures_literalFragment (fun _ _ => trivial) fun _ he => hobstacle _ (.literal he)

theorem ensures_statementsAmong_stops {ns : List Node} (hns : ∀ n ∈ ns, n ∈ g.nodes) :
    Ensures (c.statementsAmong ns) ctx (fun _ _ => True) fun fault _ => E fault := by
  induction ns generalizing ctx with
  | nil => exact .pure trivial
  | cons n ns ih =>
      obtain ⟨hn, hns⟩ := List.forall_mem_cons.1 hns
      refine .bind (ensures_lookup (fun b _ => ?_) fun hkind => hobstacle _ (.unknown hn hkind))
      split
      · exact .bind ((ih hns).mono (fun _ _ _ => .pure trivial) fun _ _ he => he)
      · exact .bind (.note (ih hns))

theorem ensures_heads_stops :
    Ensures (c.heads g) ctx (fun hs mid => hs = c.chainHeads g ∧ mid.resolving = ctx.resolving ∧
      mid.visited = ctx.visited) fun fault _ => E fault := by
  have hfree : ∀ n ∈ g.unreferenced, n ∈ g.nodes := fun n hn => (List.mem_filter.1 hn).1
  have hstops : Ensures (c.heads g) ctx (fun _ _ => True) fun fault _ => E fault :=
    .bind ((ensures_statementsAmong_stops hobstacle hfree).mono (fun _ _ _ => .pure trivial)
      fun _ _ he => he)
  refine .of_forall (fun hs mid h => ?_) fun _ _ h => hstops.fault h
  obtain ⟨-, hhs, rfl⟩ := heads_eq_ok.1 h
  exact ⟨hhs, rfl, rfl⟩

include hback

theorem ensures_resolveInput_stops (hr : c.StopsAt g E r) (hn : n ∈ g.nodes)
    (hb : c.registry.get? n.kind = some b) {i : ValueInput} (hi : i ∈ b.inputs) :
    Ensures (c.resolveInput g r n i) ctx (fun _ _ => True) fun fault _ => E fault := by
  refine ensures_resolveInput (fun _ _ => trivial) ?_ ?_ ?_ ?_ (fun _ _ _ _ _ _ _ => trivial) ?_
  · exact fun l _ _ => ensures_literalFragment_stops hobstacle l
  · exact fun l _ => ensures_literalFragment_stops hobstacle l
  · exact fun id hin hnode => hobstacle _ (.missing hn (refers_input hb hi hin) hnode)
  · exact fun id child _ hchild hkind => hobstacle _ (.unknown (Graph.mem_of_node? hchild) hkind)
  · intro id child b' _ hchild hb' _
    refine .resolving (fun _ => hback _ (.value _ _ _)) fun _ => ?_
    exact hr child b' _ (Graph.mem_of_node? hchild) hb'

theorem ensures_chainFrom_stops (hr : c.StopsAt g E r) (more : Nat) (hn : n ∈ g.nodes) :
    Ensures (c.chainFrom g r more n) ctx (fun _ _ => True) fun fault _ => E fault := by
  induction more generalizing n ctx with
  | zero => exact .stop (hback _ (.chain _ _))
  | succ more ih =>
      refine ensures_chainFrom_succ (fun hkind => hobstacle _ (.unknown hn hkind))
        (fun _ => hback _ (.chain _ _)) fun b hb _ => ?_
      have hentry : ∀ start, Ensures (entry r n b) start (fun _ _ => True) fun fault _ => E fault :=
        fun start => ensures_entry (fun _ => ensures_statement (fun _ => hr n b _ hn hb)
          (fun _ _ => hr n b _ hn hb) fun _ _ => hr n b _ hn hb) fun _ => trivial
      refine (hentry _).mono (fun text mid _ => ?_) fun _ _ he => he
      refine ensures_follow (fun _ => trivial) ?_ fun id following _ hfollowing => ?_
      · intro id hnext hnode
        have hrefers : c.Refers n .next id := hnext
        exact hobstacle _ (.missing hn hrefers hnode)
      · exact ih (Graph.mem_of_node? hfollowing)

theorem ensures_compileBody_stops (hr : c.StopsAt g E r) (hn : n ∈ g.nodes)
    (hb : c.registry.get? n.kind = some b) {i : BodyInput} (hi : i ∈ b.bodies) :
    Ensures (c.compileBody g r n i) ctx (fun _ _ => True) fun fault _ => E fault := by
  refine ensures_compileBody (fun _ => trivial) ?_ fun id first _ hfirst => ?_
  · exact fun id hbody hnode => hobstacle _ (.missing hn (refers_body hb hi hbody) hnode)
  · exact ensures_chainFrom_stops hobstacle hback hr _ (Graph.mem_of_node? hfirst)

theorem stopsAt_level (hvalues : c.StopsAt g E values) (hbodies : c.StopsAt g E bodies) :
    c.StopsAt g E (c.level g values bodies) := by
  intro n b ctx hn hb
  apply ensures_level
  refine .mono (ensures_resolveInputs (fun _ _ _ => True) trivial fun i _ _ _ hi _ => ?_)
    (fun fragments mid _ => ?_) fun _ _ he => he
  · exact ensures_resolveInput_stops hobstacle hback hvalues hn hb hi
  · refine .mono (ensures_compileBodies (fun _ _ _ => True) trivial fun i _ _ _ hi _ => ?_)
      (fun texts mid' _ => ?_) fun _ _ he => he
    · exact ensures_compileBody_stops hobstacle hback hbodies hn hb hi
    · exact .ofDraft (fun _ _ => trivial) fun e he => hobstacle _ (.writer he)

/-- A compilation is stopped by nothing else than the level that it runs on. -/
theorem ensures_compileBodyText_stops (hr : c.StopsAt g E (c.run g allowance)) :
    Ensures (c.compileBodyText g root) ctx (fun _ _ => True) fun fault _ => E fault := by
  cases root with
  | some id =>
      change Ensures (c.compileChain g id) ctx _ _
      unfold compileChain
      cases hnode : g.node? id with
      | none => exact .stop (hobstacle _ (.root rfl hnode))
      | some first => exact ensures_chainFrom_stops hobstacle hback hr _ (Graph.mem_of_node? hnode)
  | none =>
      refine .bind ((ensures_heads_stops hobstacle).mono (fun hs mid hmid => ?_) fun _ _ he => he)
      refine ensures_compileHeads (fun _ _ => True) trivial fun h _ _ hh _ => ?_
      exact ensures_chainFrom_stops hobstacle hback hr _ (mem_nodes_of_mem_chainHeads (hmid.1 ▸ hh))

end Walks

/-- A walk that has an allowance can also come to the end of it. -/
theorem stopsAt_run (c : Compiler) (g : Graph) (root : Option String) (k : Nat) :
    c.StopsAt g (fun fault => c.Obstacle g root fault ∨ CameBack fault ∨ fault = .tooDeep)
      (c.run g k) := by
  apply run_induction
  · exact fun _ _ _ _ _ => ensures_beyond (.inr (.inr rfl))
  · intro k hvalues hbodies
    rw [run_eq]
    exact stopsAt_level (fun _ h => .inl h) (fun _ h => .inr (.inl h)) hvalues hbodies

end Compiler

end BlockMusic
