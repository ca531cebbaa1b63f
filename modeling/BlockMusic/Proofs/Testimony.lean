import BlockMusic.Proofs.Accepted
import BlockMusic.Proofs.Agreement
import BlockMusic.Proofs.Obstacles
import BlockMusic.Proofs.Session
import BlockMusic.Proofs.Success
import Mathlib.Data.List.Chain

/-!
# What errors testify

An error of a compilation is a witness: it names what is wrong with the graph, and what it says is true.
For a kind that is not registered and a node that is not there this is what the walk looked at last. For
the two kinds of cycles it takes an invariant each.

The stack of the nodes being resolved is at all times a path of value inputs that ends at the node at
work, so that a node that comes up again closes a cycle.

The edges that a walk has yet to take are pending. Every node visited was entered along an edge that is
not pending any more, so that a node that is entered again, along a pending edge, is entered in two ways.
-/

namespace BlockMusic

namespace Compiler

open Gen

/-! ## Cycles and entries -/

/-- A declared value input of the node with the one id is bound to the other id. -/
def Bound (c : Compiler) (g : Graph) (id id' : String) : Prop :=
  ∃ n name, g.node? id = some n ∧ c.Refers n (.input name) id'

/-- The path leads along value inputs to the node, through the node itself. -/
structure ClosedBy (c : Compiler) (g : Graph) (n : Node) (path : List String) : Prop where
  mem : n.id ∈ path
  nodup : path.Nodup
  chain : (path ++ [n.id]).IsChain (c.Bound g)

/-- The entries of a compilation: where it starts, and along the edges of the nodes visited. -/
inductive Taken (c : Compiler) (g : Graph) (starts visited : List String) : Entry → Prop
  | start {id : String} (hid : id ∈ starts) : Taken c g starts visited ⟨id, none⟩
  | edge {m : Node} {slot : Slot} {id : String} (hm : g.node? m.id = some m)
      (hvisited : m.id ∈ visited) (hedge : (slot, id) ∈ c.chainEdges m) :
      Taken c g starts visited ⟨id, some (m.id, slot)⟩

/-- The node is entered in two ways. -/
def EnteredTwice (c : Compiler) (g : Graph) (starts visited : List String) (n : Node) : Prop :=
  ∃ e e', e ≠ e' ∧ e.target = n.id ∧ e'.target = n.id ∧
    c.Taken g starts visited e ∧ c.Taken g starts visited e'

/-- What a fault says about cycles is true. -/
def Tells (c : Compiler) (g : Graph) (starts : List String) : Fault → Context → Prop
  | .compile (.cyclicValue node kind path), _ =>
      ∃ n ∈ g.nodes, node = some n.id ∧ kind = some n.kind ∧ c.ClosedBy g n path
  | .compile (.cyclicChain node kind), ctx =>
      ∃ n ∈ g.nodes, node = some n.id ∧ kind = some n.kind ∧ c.EnteredTwice g starts ctx.visited n
  | _, _ => True

/-- The stack is a path of value inputs to the node, without repeats. -/
structure Stacked (c : Compiler) (g : Graph) (stack : List String) (n : Node) : Prop where
  nodup : stack.Nodup
  chain : stack.IsChain (c.Bound g)
  top : ∀ id ∈ stack.getLast?, id = n.id

/-- The nodes visited were entered along edges that are not pending. Pending edges are those of nodes
visited. -/
structure Trail (c : Compiler) (g : Graph) (starts : List String) (pending : Entry → Prop)
    (visited : List String) : Prop where
  taken : ∀ id ∈ visited, ∃ e, e.target = id ∧ c.Taken g starts visited e ∧ ¬ pending e
  source : ∀ e id slot, pending e → e.source = some (id, slot) → id ∈ visited

/-- The node is being entered, and all its edges are pending. -/
structure Begun (c : Compiler) (g : Graph) (starts : List String) (pending : Entry → Prop) (n : Node)
    (ctx : Context) : Prop where
  node : g.node? n.id = some n
  stack : ctx.resolving = []
  mem : n.id ∈ ctx.visited
  edges : ∀ e slot, e.source = some (n.id, slot) → pending e
  trail : c.Trail g starts pending ctx.visited

variable {c : Compiler} {g : Graph} {root : Option String} {starts : List String} {n m : Node}
  {b : Block} {e : Entry} {ctx : Context} {pending pending' : Entry → Prop}
  {visited visited' stack : List String} {r : Level}

/-! ## The stack -/

theorem Stacked.nil (c : Compiler) (g : Graph) (n : Node) : c.Stacked g [] n :=
  ⟨List.nodup_nil, .nil, fun _ h => nomatch h⟩

theorem Stacked.chain_concat (h : c.Stacked g stack n) (hnode : g.node? n.id = some n)
    {name id : String} (hrefers : c.Refers n (.input name) id) :
    (stack ++ [id]).IsChain (c.Bound g) := by
  refine List.isChain_append.2 ⟨h.chain, .singleton _, fun top htop id' hid' => ?_⟩
  rw [List.head?_cons, Option.mem_some_iff] at hid'
  rw [h.top top htop, ← hid']
  exact ⟨n, name, hnode, hrefers⟩

theorem Stacked.concat (h : c.Stacked g stack n) (hnode : g.node? n.id = some n) {name : String}
    (hrefers : c.Refers n (.input name) m.id) (hnew : m.id ∉ stack) :
    c.Stacked g (stack ++ [m.id]) m where
  nodup := List.nodup_append.2 ⟨h.nodup, by simp, by
    intro id hid id' hid'
    rw [List.mem_singleton.1 hid']
    exact fun heq => hnew (heq ▸ hid)⟩
  chain := h.chain_concat hnode hrefers
  top := by simp

/-! ## The trail -/

theorem Taken.mono (h : c.Taken g starts visited e) (hsub : visited ⊆ visited') :
    c.Taken g starts visited' e := by
  cases h with
  | start hid => exact .start hid
  | edge hm hvisited hedge => exact .edge hm (hsub hvisited) hedge

namespace Trail

theorem anti (h : c.Trail g starts pending visited) (hsub : ∀ e, pending' e → pending e) :
    c.Trail g starts pending' visited where
  taken id hid := by
    obtain ⟨e, he, htaken, hnot⟩ := h.taken id hid
    exact ⟨e, he, htaken, fun hpending => hnot (hsub e hpending)⟩
  source e id slot hpending := h.source e id slot (hsub e hpending)

/-- A node visited that a pending edge leads to is entered in two ways. -/
theorem enteredTwice (h : c.Trail g starts pending visited) (he : pending e)
    (htaken : c.Taken g starts visited e) (htarget : e.target = n.id) (hseen : n.id ∈ visited) :
    c.EnteredTwice g starts visited n := by
  obtain ⟨e', htarget', htaken', hnot⟩ := h.taken n.id hseen
  refine ⟨e, e', ?_, htarget, htarget', htaken, htaken'⟩
  intro heq
  exact hnot (heq ▸ he)

theorem tells (h : c.Trail g starts pending ctx.visited) (hnode : g.node? n.id = some n)
    (he : pending e) (htaken : c.Taken g starts ctx.visited e) (htarget : e.target = n.id)
    (hseen : n.id ∈ ctx.visited) :
    c.Tells g starts (.compile (.cyclicChain (some n.id) (some n.kind))) ctx :=
  ⟨n, Graph.mem_of_node? hnode, rfl, rfl, h.enteredTwice he htaken htarget hseen⟩

/-- Entering a node along a pending edge makes its own edges pending. -/
theorem visit (h : c.Trail g starts pending visited) (htaken : c.Taken g starts visited e)
    (htarget : e.target = n.id) (hnew : n.id ∉ visited) :
    c.Trail g starts (fun e' => (pending e' ∧ e' ≠ e) ∨ ∃ slot, e'.source = some (n.id, slot))
      (visited ++ [n.id]) where
  taken := by
    have hold : ∀ e', c.Taken g starts visited e' → ¬ ∃ slot, e'.source = some (n.id, slot) := by
      intro e' htaken' hsource
      obtain ⟨slot, hslot⟩ := hsource
      cases htaken' with
      | start hid => cases hslot
      | edge hm hvisited hedge =>
          have hsame : _ = n.id := congrArg Prod.fst (Option.some.inj hslot)
          exact hnew (hsame ▸ hvisited)
    intro id hid
    rcases List.mem_append.1 hid with hid | hid
    · obtain ⟨e', he', htaken', hnot⟩ := h.taken id hid
      refine ⟨e', he', htaken'.mono (List.subset_append_left _ _), ?_⟩
      rintro (hpending | hsource)
      · exact hnot hpending.1
      · exact hold e' htaken' hsource
    · rw [List.mem_singleton.1 hid]
      refine ⟨e, htarget, htaken.mono (List.subset_append_left _ _), ?_⟩
      rintro (hpending | hsource)
      · exact hpending.2 rfl
      · exact hold e htaken hsource
  source := by
    rintro e' id slot (hpending | ⟨slot', hslot'⟩) hslot
    · exact List.mem_append_left _ (h.source e' id slot hpending.1 hslot)
    · rw [hslot] at hslot'
      cases hslot'
      simp

end Trail

/-- What a fault says depends on the nodes visited only. -/
theorem Tells.of_visited {fault : Fault} {ctx' : Context} (h : c.Tells g starts fault ctx)
    (hvisited : ctx'.visited = ctx.visited) : c.Tells g starts fault ctx' := by
  unfold Tells at h ⊢
  split at h
  · exact h
  · rw [hvisited]
    exact h
  · trivial

/-! ## Values -/

/-- The level visits nothing when it writes a value, and its faults are true. -/
def TellsValues (c : Compiler) (g : Graph) (starts : List String) (r : Level) : Prop :=
  ∀ n b ctx, g.node? n.id = some n → c.registry.get? n.kind = some b → b.producesValue = true →
    c.Stacked g ctx.resolving n →
      Ensures (r n b) ctx (fun _ mid => mid.visited = ctx.visited) (c.Tells g starts)

theorem ensures_resolveInput_tells (hr : c.TellsValues g starts r) (hnode : g.node? n.id = some n)
    (hb : c.registry.get? n.kind = some b) {i : ValueInput} (hi : i ∈ b.inputs)
    (hstack : c.Stacked g ctx.resolving n) :
    Ensures (c.resolveInput g r n i) ctx (fun _ mid => mid.visited = ctx.visited)
      (c.Tells g starts) := by
  have hliteral : ∀ l, Ensures (literalFragment l) ctx (fun _ mid => mid.visited = ctx.visited)
      (c.Tells g starts) := fun l => ensures_literalFragment (fun _ _ => rfl) fun _ _ => trivial
  apply ensures_resolveInput
  case habsent =>
    intro _ _
    split <;> rfl
  case hdefault => exact fun l _ _ => hliteral l
  case hliteral => exact fun l _ => hliteral l
  case hdangling => exact fun _ _ _ => trivial
  case hunknown => exact fun _ _ _ _ _ => trivial
  case hstatement => exact fun _ _ _ _ _ _ _ => rfl
  case hvalue =>
    intro id child b' hin hchild hb' hvalue
    obtain rfl := Graph.id_of_node? hchild
    have hrefers := refers_input hb hi hin
    refine .resolving (fun hseen => ?_) fun hnew => ?_
    · exact ⟨child, Graph.mem_of_node? hchild, rfl, rfl, hseen, hstack.nodup,
        hstack.chain_concat hnode hrefers⟩
    · have hinner := hr child b' { ctx with resolving := ctx.resolving ++ [child.id] } hchild hb' hvalue
        (hstack.concat hnode hrefers hnew)
      exact hinner.mono (fun _ _ hmid => hmid) fun _ _ he => he.of_visited rfl

theorem ensures_resolveInputs_tells {k : Nat} (hr : c.TellsValues g starts (c.within g k 3))
    (hnode : g.node? n.id = some n) (hb : c.registry.get? n.kind = some b)
    (hstack : c.Stacked g ctx.resolving n) :
    Ensures (c.resolveInputs g (c.within g k 3) n [] b.inputs) ctx
      (fun _ mid => mid.visited = ctx.visited ∧ mid.resolving = ctx.resolving)
      (c.Tells g starts) := by
  refine ensures_resolveInputs (fun _ _ mid => mid.visited = ctx.visited ∧
    mid.resolving = ctx.resolving) ⟨rfl, rfl⟩ fun i rest done mid hi hmid => ?_
  have hinput := ensures_resolveInput_tells hr hnode hb hi (hmid.2 ▸ hstack)
  refine (hinput.and (resolveInput_restored c g k n i mid)).mono (fun _ mid' hmid' => ?_)
    fun _ _ he => he.1
  exact ⟨hmid'.1.trans hmid.1, hmid'.2.resolving.trans hmid.2⟩

/-! ## Chains -/

/-- The level takes the edges into the bodies of a statement, and its faults are true. -/
def TellsBodies (c : Compiler) (g : Graph) (starts : List String) (r : Level) : Prop :=
  ∀ n b ctx pending, c.registry.get? n.kind = some b → b.isStatement = true →
    c.Begun g starts pending n ctx →
      Ensures (r n b) ctx (fun _ mid => ctx.visited ⊆ mid.visited ∧
        c.Trail g starts (fun e => pending e ∧ ∀ name, e.source ≠ some (n.id, .body name))
          mid.visited) (c.Tells g starts)

theorem Begun.of_context {ctx' : Context} (h : c.Begun g starts pending n ctx)
    (hvisited : ctx'.visited = ctx.visited) (hstack : ctx'.resolving = ctx.resolving) :
    c.Begun g starts pending n ctx' :=
  { h with
    stack := hstack.trans h.stack
    mem := hvisited ▸ h.mem
    trail := hvisited ▸ h.trail }

/-- What a node that is entered leaves pending: its own edges along its chain. -/
theorem ensures_entry_tells (hr : c.TellsBodies g starts r) (hb : c.registry.get? n.kind = some b)
    (h : c.Begun g starts pending n ctx) :
    Ensures (entry r n b) ctx (fun _ mid => ctx.visited ⊆ mid.visited ∧
      c.Trail g starts (fun e => pending e ∧ ∀ name, e.source ≠ some (n.id, .body name))
        mid.visited) (c.Tells g starts) := by
  refine ensures_entry (fun hs => ?_) fun _ => ?_
  · refine ensures_statement (fun _ => ?_) (fun _ _ => ?_) fun _ _ => hr n b ctx pending hb hs h
    · have hvisited := ctx.beginMotif_visited n.id
      have hbegun := h.of_context hvisited (ctx.beginMotif_resolving n.id)
      refine (hr n b _ pending hb hs hbegun).mono (fun _ mid hmid => ?_)
        fun _ _ he => he.of_visited rfl
      exact hvisited ▸ hmid
    · have hbegun : c.Begun g starts pending n (ctx.withScope (some b.scope.tag)) :=
        h.of_context rfl rfl
      exact (hr n b _ pending hb hs hbegun).mono (fun _ _ hmid => hmid)
        fun _ _ he => he.of_visited rfl
  · exact ⟨List.Subset.refl _, h.trail.anti fun _ hpending => hpending.1⟩

/-- A chain takes the edge along which it is entered, and leaves nothing of its own pending. -/
theorem ensures_chainFrom_tells (hr : c.TellsBodies g starts r) (hframe : Restores r) {more : Nat}
    (hnode : g.node? n.id = some n) (hstack : ctx.resolving = []) (htarget : e.target = n.id)
    (he : pending e) (htaken : c.Taken g starts ctx.visited e)
    (htrail : c.Trail g starts pending ctx.visited) (hmore : g.remaining ctx.visited ≤ more) :
    Ensures (c.chainFrom g r more n) ctx (fun _ mid => ctx.visited ⊆ mid.visited ∧
      c.Trail g starts (fun e' => pending e' ∧ e' ≠ e) mid.visited) (c.Tells g starts) := by
  induction more generalizing n e ctx pending with
  | zero =>
      -- no node is left that was not visited
      have hseen : n.id ∈ ctx.visited := by
        by_contra hnew
        have hpos := Graph.remaining_pos (Graph.mem_of_node? hnode) hnew
        omega
      exact .stop (htrail.tells hnode he htaken htarget hseen)
  | succ more ih =>
      refine ensures_chainFrom_succ (fun _ => trivial) (htrail.tells hnode he htaken htarget)
        fun b hb hnew => ?_
      have hn := Graph.mem_of_node? hnode
      have hless := Graph.remaining_concat_lt hn hnew
      have hbegun : c.Begun g starts
          (fun e' => (pending e' ∧ e' ≠ e) ∨ ∃ slot, e'.source = some (n.id, slot)) n
          { ctx with visited := ctx.visited ++ [n.id] } :=
        ⟨hnode, hstack, by simp, fun _ slot hsource => .inr ⟨slot, hsource⟩,
          htrail.visit htaken htarget hnew⟩
      -- nothing that was pending before is an edge of the node
      have hother : ∀ e' slot, pending e' → e'.source ≠ some (n.id, slot) :=
        fun e' slot hpending hsource => hnew (htrail.source e' n.id slot hpending hsource)
      have hentry := (ensures_entry_tells hr hb hbegun).and (entry_restored hframe n b _)
      refine hentry.mono (fun text mid hmid => ?_) fun _ _ hfault => hfault.1
      obtain ⟨⟨hsub, hmid⟩, hrestored⟩ := hmid
      have hgrown : ctx.visited ⊆ mid.visited :=
        List.Subset.trans (List.subset_append_left _ _) hsub
      refine ensures_follow (fun _ => ⟨hgrown, hmid.anti ?_⟩) (fun _ _ _ => trivial)
        fun id following hnext hfollowing => ?_
      · exact fun e' hpending => ⟨.inl hpending, fun name => hother e' _ hpending.1⟩
      · obtain rfl := Graph.id_of_node? hfollowing
        have hedge : (Slot.next, following.id) ∈ c.chainEdges n := by simp [chainEdges_eq hb, hnext]
        have hleft : g.remaining mid.visited ≤ g.remaining (ctx.visited ++ [n.id]) :=
          Graph.remaining_anti hsub
        have hrest := ih (e := ⟨following.id, some (n.id, .next)⟩) hfollowing
          (hrestored.resolving.trans hstack) rfl ⟨.inr ⟨.next, rfl⟩, fun name hslot => by cases hslot⟩
          (.edge hnode (hsub (by simp)) hedge) hmid (by omega)
        refine hrest.mono (fun rest mid' hmid' => ?_) fun _ _ hfault => hfault
        refine ⟨List.Subset.trans hgrown hmid'.1, hmid'.2.anti fun e' hpending => ?_⟩
        refine ⟨⟨.inl hpending, ?_⟩, ?_⟩
        · exact fun name => hother e' _ hpending.1
        · exact fun heq => hother e' .next hpending.1 (heq ▸ rfl)

/-! ## Bodies and levels -/

/-- What is pending in a node when the bodies in `used` are compiled. -/
def pendingBut (pending : Entry → Prop) (n : Node) (used : List BodyInput) (e : Entry) : Prop :=
  pending e ∧ ∀ i ∈ used, e.source ≠ some (n.id, .body i.name)

theorem ensures_compileBody_tells {k : Nat} (hr : c.TellsBodies g starts (c.within g k 4))
    (h : c.Begun g starts pending n ctx) (hb : c.registry.get? n.kind = some b)
    (hs : b.isStatement = true) {i : BodyInput} {used : List BodyInput} (hi : i ∈ b.bodies)
    (hname : i.name ∉ used.map BodyInput.name) {mid : Context} (hstack : mid.resolving = [])
    (hsub : ctx.visited ⊆ mid.visited)
    (htrail : c.Trail g starts (pendingBut pending n used) mid.visited) :
    Ensures (c.compileBody g (c.within g k 4) n i) mid (fun _ mid' => ctx.visited ⊆ mid'.visited ∧
      c.Trail g starts (pendingBut pending n (used ++ [i])) mid'.visited) (c.Tells g starts) := by
  have hfewer : ∀ e, pendingBut pending n (used ++ [i]) e → pendingBut pending n used e :=
    fun e hpending => ⟨hpending.1, fun j hj => hpending.2 j (List.mem_append_left _ hj)⟩
  refine ensures_compileBody (fun _ => ?_) (fun _ _ _ => trivial) fun id first hbody hfirst => ?_
  · split
    · exact ⟨hsub, htrail.anti hfewer⟩
    · exact ⟨hsub, htrail.anti hfewer⟩
  · obtain rfl := Graph.id_of_node? hfirst
    have hpending : pendingBut pending n used ⟨first.id, some (n.id, .body i.name)⟩ := by
      refine ⟨h.edges _ _ rfl, fun j hj hsource => hname ?_⟩
      have hsame : i.name = j.name := Slot.body.inj (congrArg Prod.snd (Option.some.inj hsource))
      exact hsame ▸ List.mem_map_of_mem hj
    have htaken : c.Taken g starts mid.visited ⟨first.id, some (n.id, .body i.name)⟩ :=
      .edge h.node (hsub h.mem) (bodyEdge_mem_chainEdges hb hs hi hbody)
    refine (ensures_chainFrom_tells hr (closed_restored.within k 4) hfirst hstack rfl hpending htaken
      htrail (g.remaining_le_length _)).mono (fun _ mid' hmid' => ?_) fun _ _ hfault => hfault
    refine ⟨List.Subset.trans hsub hmid'.1, hmid'.2.anti fun e he => ⟨hfewer e he, ?_⟩⟩
    rintro rfl
    exact he.2 i (by simp) rfl

theorem ensures_compileBodies_tells {k : Nat} (hr : c.TellsBodies g starts (c.within g k 4))
    (h : c.Begun g starts pending n ctx) (hb : c.registry.get? n.kind = some b)
    (hs : b.isStatement = true) (hnames : (b.bodies.map BodyInput.name).Nodup) :
    Ensures (c.compileBodies g (c.within g k 4) n [] b.bodies) ctx
      (fun _ mid => ctx.visited ⊆ mid.visited ∧
        c.Trail g starts (pendingBut pending n b.bodies) mid.visited) (c.Tells g starts) := by
  have hloop : Ensures (c.compileBodies g (c.within g k 4) n [] b.bodies) ctx
      (fun _ mid => mid.resolving = [] ∧ ctx.visited ⊆ mid.visited ∧ ∃ used, b.bodies = used ++ [] ∧
        c.Trail g starts (pendingBut pending n used) mid.visited) (c.Tells g starts) := by
    refine ensures_compileBodies (fun rest _ mid => mid.resolving = [] ∧ ctx.visited ⊆ mid.visited ∧
      ∃ used, b.bodies = used ++ rest ∧ c.Trail g starts (pendingBut pending n used) mid.visited)
      ⟨h.stack, List.Subset.refl _, [], rfl, h.trail.anti fun _ he => he.1⟩ ?_
    intro i rest done mid hi hmid
    obtain ⟨hstack, hsub, used, hused, htrail⟩ := hmid
    have hname : i.name ∉ used.map BodyInput.name := by
      rw [hused, List.map_append] at hnames
      intro hmem
      exact (List.nodup_append.1 hnames).2.2 _ hmem _ (by simp) rfl
    have hbody := ensures_compileBody_tells hr h hb hs hi hname hstack hsub htrail
    refine (hbody.and (compileBody_restored c g k n i mid)).mono (fun _ mid' hmid' => ?_)
      fun _ _ hfault => hfault.1
    exact ⟨hmid'.2.resolving.trans hstack, hmid'.1.1, used ++ [i], by simp [hused], hmid'.1.2⟩
  refine hloop.mono (fun _ mid hmid => ?_) fun _ _ hfault => hfault
  obtain ⟨-, hsub, used, hused, htrail⟩ := hmid
  rw [List.append_nil] at hused
  exact ⟨hsub, hused ▸ htrail⟩

/-- An obstacle says nothing about cycles. -/
theorem tells_of_obstacle (hquiet : c.Quiet) {fault : Fault}
    (h : c.Obstacle g root fault) (ctx : Context) : c.Tells g starts fault ctx := by
  cases h with
  | root => trivial
  | missing => trivial
  | unknown => trivial
  | literal => trivial
  | writer houtcome =>
      cases fault with
      | compile err => exact absurd houtcome (hquiet _ _ err)
      | tooDeep => trivial
      | render err => trivial
      | unknownOperator token => trivial

/-- Every run is truthful about the values that it writes and the bodies that it compiles. -/
theorem run_tells (hplain : c.registry.Plain) (hquiet : c.Quiet) (k : Nat) :
    c.TellsValues g starts (c.run g k) ∧ c.TellsBodies g starts (c.run g k) := by
  have hwriter : ∀ kind a fault, (c.writer kind a).outcome = .error fault →
      ∀ ctx, c.Tells g starts fault ctx := by
    intro kind a fault houtcome
    have hobstacle : c.Obstacle g none fault := .writer houtcome
    exact tells_of_obstacle hquiet hobstacle
  apply run_induction (P := fun r => c.TellsValues g starts r ∧ c.TellsBodies g starts r)
  · constructor
    · exact fun _ _ _ _ _ _ _ => ensures_beyond trivial
    · exact fun _ _ _ _ _ _ _ => ensures_beyond trivial
  · intro k hvalues hbodies
    rw [run_eq]
    constructor
    · intro n b ctx hnode hb hvalue hstack
      have hnone := hplain.bodies_of_value b (Registry.mem_of_get? hb) hvalue
      apply ensures_level
      refine (ensures_resolveInputs_tells hvalues.1 hnode hb hstack).mono (fun _ mid hmid => ?_)
        fun _ _ hfault => hfault
      rw [hnone]
      exact .pure (.ofDraft (fun _ _ => hmid.1) fun _ hfault => hwriter _ _ _ hfault _)
    · intro n b ctx pending hb hs h
      have hnames := hplain.nodup_bodies b (Registry.mem_of_get? hb)
      have hstack : c.Stacked g ctx.resolving n := h.stack ▸ Stacked.nil c g n
      apply ensures_level
      refine (ensures_resolveInputs_tells hvalues.1 h.node hb hstack).mono (fun _ mid hmid => ?_)
        fun _ _ hfault => hfault
      have hbegun := h.of_context hmid.1 hmid.2
      refine (ensures_compileBodies_tells hbodies.2 hbegun hb hs hnames).mono
        (fun _ mid' hmid' => ?_) fun _ _ hfault => hfault
      rw [hmid.1] at hmid'
      refine .ofDraft (fun _ _ => ⟨hmid'.1, hmid'.2.anti fun e he => ?_⟩)
        fun _ hfault => hwriter _ _ _ hfault _
      exact ⟨he.1, fun i _ => he.2 i.name⟩

/-! ## Whole compilations -/

/-- The chains from the nodes that are left are yet to be entered. -/
structure Heading (c : Compiler) (g : Graph) (starts : List String) (rest : List Node)
    (ctx : Context) : Prop where
  nodup : (rest.map Node.id).Nodup
  stack : ctx.resolving = []
  trail : ∃ pending : Entry → Prop, (∀ h ∈ rest, pending ⟨h.id, none⟩) ∧
    c.Trail g starts pending ctx.visited

theorem ensures_compileHeads_tells (hplain : c.registry.Plain) (hquiet : c.Quiet) {hs : List Node}
    (hnodup : (hs.map Node.id).Nodup) (hnodes : ∀ h ∈ hs, g.node? h.id = some h)
    (hstarts : ∀ h ∈ hs, h.id ∈ starts) (hpending : ∀ h ∈ hs, pending ⟨h.id, none⟩)
    (hstack : ctx.resolving = []) (htrail : c.Trail g starts pending ctx.visited) :
    Ensures (c.compileHeads g hs) ctx (fun _ _ => True) (c.Tells g starts) := by
  have hloop : Ensures (c.compileHeads g hs) ctx (fun _ mid => Heading c g starts [] mid)
      (c.Tells g starts) := by
    refine ensures_compileHeads (Heading c g starts) ⟨hnodup, hstack, pending, hpending, htrail⟩ ?_
    rintro h rest mid hh ⟨hnodup, hstack, pending, hpending, htrail⟩
    obtain ⟨hfirst, hpending⟩ := List.forall_mem_cons.1 hpending
    obtain ⟨hnew, hnodup⟩ := List.nodup_cons.1 hnodup
    have hchain := ensures_chainFrom_tells (run_tells hplain hquiet allowance).2
      (closed_restored.run allowance) (hnodes h hh) hstack rfl hfirst (.start (hstarts h hh)) htrail
      (g.remaining_le_length _)
    have hframe := closed_restored.chain (c := c) (g := g) allowance h mid
    refine (hchain.and hframe).mono (fun _ mid' hmid' => ?_) fun _ _ hfault => hfault.1
    refine ⟨hnodup, hmid'.2.resolving.trans hstack, _, fun m hm => ⟨hpending m hm, fun heq => ?_⟩,
      hmid'.1.2⟩
    have hsame : m.id = h.id := congrArg Entry.target heq
    exact hnew (hsame ▸ List.mem_map_of_mem hm)
  exact hloop.mono (fun _ _ _ => trivial) fun _ _ hfault => hfault

theorem ensures_compileBodyText_tells (hplain : c.registry.Plain) (hquiet : c.Quiet)
    (hids : (g.nodes.map Node.id).Nodup) (root : Option String) :
    Ensures (c.compileBodyText g root) {} (fun _ _ => True) (c.Tells g (c.starts g root)) := by
  -- in the beginning the starts are pending
  have htrail : c.Trail g (c.starts g root) (fun e => e.source = none) [] := by
    refine ⟨fun id hid => absurd hid List.not_mem_nil, fun e id slot hnone hsource => ?_⟩
    rw [hnone] at hsource
    cases hsource
  cases root with
  | some id =>
      change Ensures (c.compileChain g id) {} _ _
      unfold compileChain
      cases hfirst : g.node? id with
      | none => exact .stop trivial
      | some first =>
          obtain rfl := Graph.id_of_node? hfirst
          have htaken : c.Taken g (c.starts g (some first.id)) [] ⟨first.id, none⟩ :=
            .start List.mem_cons_self
          have hpending : (fun e : Entry => e.source = none) ⟨first.id, none⟩ := rfl
          have hstack : ({} : Context).resolving = [] := rfl
          have hchain := ensures_chainFrom_tells (run_tells hplain hquiet allowance).2
            (closed_restored.run allowance) hfirst hstack rfl hpending htaken htrail
            (g.remaining_le_length _)
          exact hchain.mono (fun _ _ _ => trivial) fun _ _ hfault => hfault
  | none =>
      have hobstacle : ∀ fault, c.Obstacle g none fault →
          ∀ ctx, c.Tells g (c.starts g none) fault ctx := fun _ h => tells_of_obstacle hquiet h
      refine .bind ((ensures_heads_stops hobstacle).mono (fun hs mid hmid => ?_) fun _ ctx he => he ctx)
      obtain ⟨rfl, hstack, hvisited⟩ := hmid
      have hnone : mid.visited = [] := hvisited
      exact ensures_compileHeads_tells hplain hquiet (nodup_chainHeads hids)
        (fun h hh => Graph.node?_id hids (mem_nodes_of_mem_chainHeads hh))
        (fun h hh => List.mem_map_of_mem hh) (fun _ _ => rfl) hstack (hnone ▸ htrail)

/-- What an error says is true of the graph, the root and the nodes visited. -/
def Truthful (c : Compiler) (g : Graph) (root : Option String) (visited : List String) :
    CompileError → Prop
  | .unknownKind node kind =>
      ∃ n ∈ g.nodes, node = some n.id ∧ kind = some n.kind ∧ c.registry.get? n.kind = none
  | .danglingReference missing node kind slot =>
      g.node? missing = none ∧
        ((root = some missing ∧ node = none ∧ kind = none ∧ slot = .root) ∨
          ∃ n ∈ g.nodes, node = some n.id ∧ kind = some n.kind ∧ c.Refers n slot missing)
  | .cyclicValue node kind path =>
      ∃ n ∈ g.nodes, node = some n.id ∧ kind = some n.kind ∧ c.ClosedBy g n path ∧
        ∃ front cycle, path = front ++ n.id :: cycle ∧
          (n.id :: cycle ++ [n.id]).IsChain (c.Bound g)
  | .cyclicChain node kind =>
      ∃ n ∈ g.nodes, node = some n.id ∧ kind = some n.kind ∧
        c.EnteredTwice g root.toList visited n
  | .failure message node kind diagnostics =>
      CompileError.failure message node kind diagnostics = .tooDeep

theorem ClosedBy.cycle {path : List String} (h : c.ClosedBy g n path) :
    ∃ front cycle, path = front ++ n.id :: cycle ∧
      (n.id :: cycle ++ [n.id]).IsChain (c.Bound g) := by
  obtain ⟨front, cycle, hpath⟩ := List.append_of_mem h.mem
  refine ⟨front, cycle, hpath, ?_⟩
  have hchain := h.chain
  rw [hpath, List.append_assoc] at hchain
  exact (List.isChain_append.1 hchain).2.1

/-- The first nodes of chains have no other entries, so that what is entered twice is so by edges. -/
theorem EnteredTwice.of_starts (h : c.EnteredTwice g (c.starts g root) visited n) :
    c.EnteredTwice g root.toList visited n := by
  cases root with
  | some id => exact h
  | none =>
      have hedge : ∀ e e', e ≠ e' → e.target = e'.target → c.Taken g (c.starts g none) visited e →
          c.Taken g (c.starts g none) visited e' → c.Taken g [] visited e := by
        intro e e' hne htarget he he'
        cases he with
        | edge hm hvisited hedge => exact .edge hm hvisited hedge
        | start hid =>
            obtain ⟨h, hh, rfl⟩ := List.mem_map.1 hid
            cases he' with
            | start hid' =>
                cases htarget
                exact absurd rfl hne
            | edge hm _ hedge =>
                cases htarget
                exact absurd hedge (notMem_chainEdges_of_head hh (Graph.mem_of_node? hm) _)
      obtain ⟨e, e', hne, htarget, htarget', he, he'⟩ := h
      exact ⟨e, e', hne, htarget, htarget',
        hedge e e' hne (htarget.trans htarget'.symm) he he',
        hedge e' e hne.symm (htarget'.trans htarget.symm) he' he⟩

/-- The faults of a compilation are true. -/
theorem truthful_of_fault (hplain : c.registry.Plain) (hquiet : c.Quiet)
    (hids : (g.nodes.map Node.id).Nodup) {err : CompileError} {ctx : Context}
    (h : c.compileBodyText g root {} = .error (.compile err) ctx) :
    c.Truthful g root ctx.visited err := by
  have htells := (ensures_compileBodyText_tells hplain hquiet hids root).fault h
  have hstops : Ensures (c.compileBodyText g root) {} (fun _ _ => True)
      fun fault _ => c.Obstacle g root fault ∨ CameBack fault ∨ fault = .tooDeep :=
    ensures_compileBodyText_stops (fun _ h => .inl h) (fun _ h => .inr (.inl h))
      (c.stopsAt_run g root allowance)
  rcases hstops.fault h with hobstacle | hback | hdeep
  · cases hobstacle with
    | root hroot hmissing => exact ⟨hmissing, .inl ⟨hroot, rfl, rfl, rfl⟩⟩
    | missing hn hrefers hmissing => exact ⟨hmissing, .inr ⟨_, hn, rfl, rfl, hrefers⟩⟩
    | unknown hn hkind => exact ⟨_, hn, rfl, rfl, hkind⟩
    | writer houtcome => exact absurd houtcome (hquiet _ _ err)
  · cases hback with
    | value id kind path =>
        obtain ⟨n, hn, hid, hkind, hclosed⟩ := htells
        exact ⟨n, hn, hid, hkind, hclosed, hclosed.cycle⟩
    | chain id kind =>
        obtain ⟨n, hn, hid, hkind, htwice⟩ := htells
        exact ⟨n, hn, hid, hkind, htwice.of_starts⟩
  · cases hdeep

/-- Every error of a compilation with the built-in blocks is a true witness against the graph. -/
theorem compile_error_truthful {unit : String} {err : CompileError}
    (hg : g.Accepted) (h : ((builtin unit).compile g root).outcome = .error (.compile err)) :
    (builtin unit).Truthful g root
      (contextBehind ((builtin unit).compileBodyText g root) {}).visited err := by
  cases hrun : (builtin unit).compileBodyText g root {} with
  | ok body ctx =>
      rw [outcome_of_ok hrun] at h
      cases h
  | error fault ctx =>
      rw [outcome_of_error hrun] at h
      rw [contextBehind, hrun]
      cases fault with
      | compile err' =>
          cases h
          exact truthful_of_fault Registry.plain_builtin (quiet_builtin unit) hg.nodup hrun
      | tooDeep =>
          cases h
          exact rfl
      | render e => cases h
      | unknownOperator token => cases h

/-- A statement that stands in the body of an effect and behind the effect. -/
def sharedStatement : Graph := ⟨[
  { id := "a", kind := "with_fx", bodies := [("COMMANDS", "b")], next := some "b" },
  { id := "b", kind := "stop_sound" }]⟩

theorem sharedStatement_twice : sharedStatement.Accepted ∧
    ((builtin "  ").compile sharedStatement (some "a")).outcome =
      .error (.compile (.cyclicChain (some "b") (some "stop_sound"))) ∧
    ∃ n ∈ sharedStatement.nodes, n.id = "b" ∧
      (builtin "  ").EnteredTwice sharedStatement ["a"] ["a", "b"] n := by
  have haccepted : sharedStatement.Accepted := ⟨.value, sharedStatement.toJson, rfl⟩
  have houtcome : ((builtin "  ").compile sharedStatement (some "a")).outcome =
      .error (.compile (.cyclicChain (some "b") (some "stop_sound"))) := rfl
  obtain ⟨n, hn, hid, -, htwice⟩ := compile_error_truthful haccepted houtcome
  exact ⟨haccepted, houtcome, n, hn, (Option.some.inj hid).symm, htwice⟩

end Compiler

end BlockMusic
