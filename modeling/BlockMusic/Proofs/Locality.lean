import BlockMusic.Proofs.Agreement
import BlockMusic.Proofs.Obstacles

/-!
# What a compilation depends on

A compilation from a root looks at the nodes that the root leads to, and of each of them at what a walk
follows and a writer reads: its id and kind, its fields, the node after it and what its declared slots
hold. Two graphs that agree in this give the same program, or the same error. Other nodes, the order of
the nodes and of their entries, slots that no block declares and places on the canvas make no
difference.

The two graphs may have different numbers of nodes, and the chains are cut off at that number. It makes
no difference either: a chain that goes on so far has come back to a node that it has visited, and that
is what the cut reports.
-/

namespace BlockMusic

/-! ## What writers read of their nodes -/

namespace Arguments

/-- The arguments with another node in place of their own. -/
def withNode (a : Arguments) (n : Node) : Arguments := { a with node := n }

variable {a : Arguments} {n : Node} (hname : n.name = a.node.name)
  (hfields : ∀ name, n.field? name = a.node.field? name) (name : String)
include hfields

theorem fieldValue_withNode : (a.withNode n).fieldValue name = a.fieldValue name := by
  simp only [fieldValue, withNode, hfields]

theorem text_withNode : (a.withNode n).text name = a.text name := by
  simp only [text, fieldValue_withNode hfields]

include hname

theorem token_withNode : (a.withNode n).token name = a.token name := by
  have htext := text_withNode hfields name
  unfold token
  simp only [htext]
  simp only [withNode, hfields, hname]

theorem number_withNode : (a.withNode n).number name = a.number name := by
  simp only [number, fieldValue_withNode hfields]
  simp only [withNode, hname]

end Arguments

/-- The writer reads of its node the id, the kind and the fields. -/
def Writer.Discreet (w : Writer) : Prop :=
  ∀ (a : Arguments) (n : Node), n.name = a.node.name →
    (∀ name, n.field? name = a.node.field? name) → w (a.withNode n) = w a

namespace Writer

open Arguments

theorem discreet_of_mem_builtin : ∀ entry ∈ builtin, Writer.Discreet entry.2 := by
  simp only [builtin, List.forall_mem_cons, List.not_mem_nil, false_imp_iff, implies_true, and_true]
  refine ⟨?_, ?_, ?triggerDrum, ?rest, ?waitFor, ?_, ?_, ?_, ?_, ?_, ?_, ?setSynth, ?_, ?playInKey,
    ?withFx, ?triggerSample, ?_, ?_, ?text, ?mathNumber, ?logicBoolean, ?mathArithmetic, ?_⟩
  case triggerDrum =>
    intro a n hname hfields
    simp only [triggerDrum, token_withNode hname hfields]
  case rest =>
    intro a n hname hfields
    simp only [rest, token_withNode hname hfields]
    rfl
  case waitFor =>
    intro a n hname hfields
    simp only [waitFor, token_withNode hname hfields]
  case setSynth =>
    intro a n hname hfields
    simp only [setSynth, token_withNode hname hfields]
  case playInKey =>
    intro a n hname hfields
    simp only [playInKey, token_withNode hname hfields]
    rfl
  case withFx =>
    intro a n hname hfields
    simp only [withFx, token_withNode hname hfields]
    rfl
  case triggerSample =>
    intro a n hname hfields
    simp only [triggerSample, text_withNode hfields]
  case text =>
    intro a n hname hfields
    simp only [text, text_withNode hfields]
  case mathNumber =>
    intro a n hname hfields
    simp only [mathNumber, number_withNode hname hfields]
  case logicBoolean =>
    intro a n hname hfields
    simp only [logicBoolean, token_withNode hname hfields]
  case mathArithmetic =>
    intro a n hname hfields
    simp only [mathArithmetic, token_withNode hname hfields]
    rfl
  -- the others read no field
  all_goals exact fun a n _ _ => rfl

end Writer

namespace Template

theorem write_withNode {a : Arguments} {n : Node} (hname : n.name = a.node.name)
    (hfields : ∀ name, n.field? name = a.node.field? name) (p : Part) :
    p.write (a.withNode n) = p.write a := by
  cases p with
  | literal s => rfl
  | operand slot consumer => rfl
  | indentedBody slot => rfl
  | inlineBody slot => rfl
  | text field => simp only [Part.write, Arguments.text_withNode hfields]
  | token field => exact Arguments.token_withNode hname hfields field
  | number field => exact Arguments.number_withNode hname hfields field

theorem discreet_writer (t : Template) : Writer.Discreet t.writer := by
  intro a n hname hfields
  have hparts : ∀ ps, writeParts (a.withNode n) ps = writeParts a ps := by
    intro ps
    induction ps with
    | nil => rfl
    | cons p ps ih => simp only [writeParts, write_withNode hname hfields, ih]
  simp only [writer, hparts]

end Template

/-! ## Nodes that are the same for a compiler -/

namespace Compiler

open Gen

/-- The nodes have the same id and kind, the same fields, the same node after them, and hold the same in
every slot that their block declares. -/
structure SameNode (c : Compiler) (n n' : Node) : Prop where
  id : n'.id = n.id
  kind : n'.kind = n.kind
  next : n'.next = n.next
  fields : ∀ name, n'.field? name = n.field? name
  inputs : ∀ b, c.registry.get? n.kind = some b → ∀ i ∈ b.inputs, n'.input? i.name = n.input? i.name
  bodies : ∀ b, c.registry.get? n.kind = some b → ∀ i ∈ b.bodies, n'.body? i.name = n.body? i.name

/-- Nor do the writers tell the nodes apart. -/
structure Interchangeable (c : Compiler) (n n' : Node) : Prop extends SameNode c n n' where
  writer : ∀ kind a, a.node = n → c.writer kind (a.withNode n') = c.writer kind a

/-- The root leads to the id along references in slots that are followed. -/
inductive Reaches (c : Compiler) (g : Graph) (root : String) : String → Prop
  | root : Reaches c g root root
  | refers {id id' : String} {n : Node} {slot : Slot} (hid : Reaches c g root id)
      (hnode : g.node? id = some n) (hrefers : c.Refers n slot id') : Reaches c g root id'

/-- A writer reads nothing of its node that distinguishes it from one that is the same otherwise. All
writers are like this that read their node through `text`, `token` and `number`: the built-in ones, and
those of templates. -/
def Discreet (c : Compiler) : Prop :=
  ∀ kind a n', c.SameNode a.node n' → c.writer kind (a.withNode n') = c.writer kind a

/-- Under the ids in question the graphs have the same nodes or none, and these refer to no other
ids. -/
structure Coincide (c : Compiler) (g g' : Graph) (K : String → Prop) : Prop where
  nodes : ∀ id, K id → Option.Rel c.Interchangeable (g.node? id) (g'.node? id)
  onward : ∀ id n slot id', K id → g.node? id = some n → c.Refers n slot id' → K id'

/-- The ids in question that the graph has nodes of registered kinds for. -/
def Registered (c : Compiler) (g : Graph) (K : String → Prop) (ids : List String) : Prop :=
  ∀ id ∈ ids, K id ∧ ∃ n b, g.node? id = some n ∧ c.registry.get? n.kind = some b

variable {c : Compiler} {g g' : Graph} {K : String → Prop} {n n' : Node} {b : Block}
  {r r' values values' bodies bodies' : Level}

namespace SameNode

theorem name (h : c.SameNode n n') : n'.name = n.name := by
  rw [Node.name, Node.name, h.id, h.kind]

theorem lookup (h : c.SameNode n n') : c.lookup n' = c.lookup n := by
  unfold Compiler.lookup
  rw [h.id, h.kind]

end SameNode

theorem Interchangeable.refl (c : Compiler) (n : Node) : c.Interchangeable n n where
  id := rfl
  kind := rfl
  next := rfl
  fields _ := rfl
  inputs _ _ _ _ := rfl
  bodies _ _ _ _ := rfl
  writer kind a ha := by
    subst ha
    rfl

theorem Discreet.interchangeable (h : c.Discreet) (hsame : c.SameNode n n') :
    c.Interchangeable n n' where
  toSameNode := hsame
  writer kind a ha := by
    subst ha
    exact h kind a n' hsame

theorem Coincide.refl (c : Compiler) (g : Graph) : c.Coincide g g fun _ => True where
  nodes id _ := by
    cases g.node? id with
    | none => exact .none
    | some n => exact .some (.refl c n)
  onward _ _ _ _ _ _ _ := trivial

theorem Registered.concat {ids : List String} (h : c.Registered g K ids) (hK : K n.id)
    (hnode : g.node? n.id = some n) (hb : c.registry.get? n.kind = some b) :
    c.Registered g K (ids ++ [n.id]) := by
  intro id hid
  rcases List.mem_append.1 hid with hid | hid
  · exact h id hid
  · rw [List.mem_singleton.1 hid]
    exact ⟨hK, n, b, hnode, hb⟩

/-- A compiler is discreet when the writers in its table are. -/
theorem discreet_of_table {table : List (String × Writer)}
    (hwriter : ∀ kind, c.writer kind = (table.lookup kind).getD fun _ => .done (.text ""))
    (htable : ∀ entry ∈ table, Writer.Discreet entry.2) : c.Discreet := by
  intro kind a n' hsame
  rw [hwriter]
  cases hlookup : table.lookup kind with
  | none => rfl
  | some w =>
      obtain ⟨before, behind, hsplit, -⟩ := List.lookup_eq_some_iff.1 hlookup
      exact htable (kind, w) (by simp [hsplit]) a n' hsame.name hsame.fields

theorem discreet_builtin (unit : String) : (builtin unit).Discreet :=
  discreet_of_table (fun _ => rfl) Writer.discreet_of_mem_builtin

/-- The root leads to nothing that is not referred to. -/
theorem Reaches.mem {root id : String} {ids : List String} (hroot : root ∈ ids)
    (hreferenced : g.referenced ⊆ ids) (h : c.Reaches g root id) : id ∈ ids := by
  cases h with
  | root => exact hroot
  | refers hid hnode hrefers =>
      apply hreferenced
      exact List.mem_flatMap.2 ⟨_, Graph.mem_of_node? hnode, hrefers.mem_references⟩

/-- A chain that has come back to a node says so, with nodes to spare or not. -/
theorem chainFrom_of_visited {more : Nat} {ctx : Context} (hb : c.registry.get? n.kind = some b)
    (hseen : n.id ∈ ctx.visited) :
    c.chainFrom g r more n ctx = .error (.compile (.cyclicChain (some n.id) (some n.kind))) ctx := by
  cases more with
  | zero => rfl
  | succ more =>
      rw [chainFrom_succ, lookup_some hb, pure_bind, bind_apply]
      simp [Gen.change, Context.visit, Node.name, hseen]

/-! ## Two walks over graphs that are alike -/

/-- The levels agree at nodes that are the same. -/
def AgreeAt (c : Compiler) (g : Graph) (K : String → Prop) (r r' : Level) : Prop :=
  ∀ n n' b, K n.id → g.node? n.id = some n → c.Interchangeable n n' →
    c.registry.get? n.kind = some b → Agree (fun _ => c.Registered g K) (r n b) (r' n' b)

section Walks

variable (h : c.Coincide g g' K)
include h

/-- The two nodes that the graphs have under an id in question, or none. -/
theorem Coincide.cases {id : String} (hid : K id) :
    (g.node? id = none ∧ g'.node? id = none) ∨
      ∃ n n', n.id = id ∧ g.node? id = some n ∧ g'.node? id = some n' ∧ c.Interchangeable n n' := by
  have hnodes := h.nodes id hid
  cases hn : g.node? id with
  | none =>
      cases hn' : g'.node? id with
      | none => exact .inl ⟨rfl, rfl⟩
      | some n' =>
          rw [hn, hn'] at hnodes
          cases hnodes
  | some n =>
      cases hn' : g'.node? id with
      | none =>
          rw [hn, hn'] at hnodes
          cases hnodes
      | some n' =>
          rw [hn, hn'] at hnodes
          cases hnodes with
          | some hsame => exact .inr ⟨n, n', Graph.id_of_node? hn, rfl, rfl, hsame⟩

theorem agree_resolveInput (hr : c.AgreeAt g K r r') (hK : K n.id) (hnode : g.node? n.id = some n)
    (hsame : c.Interchangeable n n') (hb : c.registry.get? n.kind = some b) {i : ValueInput}
    (hi : i ∈ b.inputs) :
    Agree (fun _ => c.Registered g K) (c.resolveInput g r n i) (c.resolveInput g' r' n' i) := by
  have hlock := Agree.lockstep fun _ => c.Registered g K
  unfold resolveInput
  rw [hsame.inputs b hb i hi, hsame.name, hsame.id, hsame.kind]
  cases hin : n.input? i.name with
  | none =>
      cases i.default with
      | none => exact hlock.bind (hlock.noteIf _ _) fun _ => hlock.pure _
      | some l => exact hlock.literalFragment l
  | some binding =>
      cases binding with
      | literal l => exact hlock.literalFragment l
      | node id =>
          dsimp only
          have hid := h.onward _ _ _ _ hK hnode (refers_input hb hi hin)
          rcases h.cases hid with ⟨hnone, hnone'⟩ | ⟨child, child', rfl, hchild, hchild', hsamec⟩
          · rw [hnone, hnone']
            exact hlock.fault _
          · rw [hchild, hchild']
            dsimp only
            rw [hsamec.lookup, hsamec.name]
            cases hb' : c.registry.get? child.kind with
            | none =>
                rw [lookup_none hb']
                exact hlock.fault _
            | some b' =>
                rw [lookup_some hb', pure_bind, pure_bind]
                cases b'.producesValue with
                | false => exact hlock.bind (hlock.note _) fun _ => hlock.pure _
                | true =>
                    refine hlock.bind (fun stack visited hI => .resolving fun _ => ?_)
                      fun _ => hlock.pure _
                    exact hr child child' b' hid hchild hsamec hb' _ visited hI

theorem agree_resolveInputs (hr : c.AgreeAt g K r r') (hK : K n.id) (hnode : g.node? n.id = some n)
    (hsame : c.Interchangeable n n') (hb : c.registry.get? n.kind = some b)
    (done : List (String × Fragment)) {is : List ValueInput} (his : is ⊆ b.inputs) :
    Agree (fun _ => c.Registered g K) (c.resolveInputs g r n done is)
      (c.resolveInputs g' r' n' done is) := by
  have hlock := Agree.lockstep fun _ => c.Registered g K
  induction is generalizing done with
  | nil => exact hlock.pure done
  | cons i is ih =>
      obtain ⟨hi, his⟩ := List.cons_subset.1 his
      exact hlock.bind (agree_resolveInput h hr hK hnode hsame hb hi) fun _ => ih _ his

omit h in
theorem agreeFrom_chainFrom_of_visited {more more' : Nat} {stack visited : List String}
    {Q : List String → Prop} (hsame : c.Interchangeable n n') (hnode : g.node? n.id = some n)
    (hvisited : c.Registered g K visited) (hseen : n.id ∈ visited) :
    AgreeFrom stack visited Q (c.chainFrom g r more n) (c.chainFrom g' r' more' n') := by
  obtain ⟨-, m, b, hm, hb⟩ := hvisited _ hseen
  cases hnode.symm.trans hm
  intro ctx hstack hctx
  subst hctx
  have hstop : c.chainFrom g r more n ctx = _ := chainFrom_of_visited hb hseen
  have hstop' : c.chainFrom g' r' more' n' ctx = _ :=
    chainFrom_of_visited (hsame.kind ▸ hb) (hsame.id ▸ hseen)
  constructor
  · rw [hstop, hstop', hsame.id, hsame.kind]
  · refine .of_forall (fun a mid hok => ?_) fun _ _ _ => trivial
    rw [hstop] at hok
    cases hok

/-- Chains agree however many nodes they may still visit, as long as no new one is cut off. -/
theorem agreeFrom_chainFrom (hr : c.AgreeAt g K r r') {more more' : Nat} (hK : K n.id)
    (hnode : g.node? n.id = some n) (hnode' : g'.node? n.id = some n')
    (hsame : c.Interchangeable n n')
    {stack visited : List String} (hvisited : c.Registered g K visited)
    (hmore : g.remaining visited ≤ more) (hmore' : g'.remaining visited ≤ more') :
    AgreeFrom stack visited (c.Registered g K) (c.chainFrom g r more n)
      (c.chainFrom g' r' more' n') := by
  have hn := Graph.mem_of_node? hnode
  have hn' := Graph.mem_of_node? hnode'
  induction more generalizing more' n n' visited with
  | zero =>
      by_cases hseen : n.id ∈ visited
      · exact agreeFrom_chainFrom_of_visited hsame hnode hvisited hseen
      · have hpos := Graph.remaining_pos hn hseen
        omega
  | succ more ih =>
      by_cases hseen : n.id ∈ visited
      · exact agreeFrom_chainFrom_of_visited hsame hnode hvisited hseen
      · have hless := Graph.remaining_concat_lt hn hseen
        have hless' := Graph.remaining_concat_lt hn' (hsame.id ▸ hseen)
        rw [hsame.id] at hless'
        cases more' with
        | zero => omega
        | succ more' =>
            rw [chainFrom_succ, chainFrom_succ, hsame.lookup, hsame.name]
            cases hb : c.registry.get? n.kind with
            | none =>
                rw [lookup_none hb]
                exact .fault _
            | some b =>
                rw [lookup_some hb, pure_bind, pure_bind]
                refine .visiting fun _ => ?_
                have hreg := hvisited.concat hK hnode hb
                refine (AgreeFrom.entry hsame.name (fun _ => hreg)
                  (hr n n' b hK hnode hsame hb stack _ hreg)).bind fun text visited' hsub hreg' => ?_
                have hleft := Graph.remaining_anti (g := g) hsub
                have hleft' := Graph.remaining_anti (g := g') hsub
                unfold follow
                rw [hsame.next, hsame.id, hsame.kind]
                cases hnext : n.next with
                | none => exact .pure _ hreg'
                | some id =>
                    dsimp only
                    have hid := h.onward _ _ .next _ hK hnode hnext
                    rcases h.cases hid with ⟨hnone, hnone'⟩ | ⟨m, m', rfl, hm, hm', hsame'⟩
                    · rw [hnone, hnone']
                      exact .fault _
                    · rw [hm, hm']
                      exact (ih hid hm hm' hsame' hreg' (by omega) (by omega) (Graph.mem_of_node? hm)
                        (Graph.mem_of_node? hm')).bind fun _ _ _ hq => .pure _ hq

theorem agree_compileBody (hr : c.AgreeAt g K r r') (hK : K n.id) (hnode : g.node? n.id = some n)
    (hsame : c.Interchangeable n n') (hb : c.registry.get? n.kind = some b) {i : BodyInput}
    (hi : i ∈ b.bodies) :
    Agree (fun _ => c.Registered g K) (c.compileBody g r n i) (c.compileBody g' r' n' i) := by
  have hlock := Agree.lockstep fun _ => c.Registered g K
  unfold compileBody
  rw [hsame.bodies b hb i hi, hsame.name, hsame.id, hsame.kind]
  cases hbody : n.body? i.name with
  | none => exact hlock.bind (hlock.noteIf _ _) fun _ => hlock.pure _
  | some id =>
      dsimp only
      have hid := h.onward _ _ _ _ hK hnode (refers_body hb hi hbody)
      rcases h.cases hid with ⟨hnone, hnone'⟩ | ⟨first, first', rfl, hfirst, hfirst', hsame'⟩
      · rw [hnone, hnone']
        exact hlock.fault _
      · rw [hfirst, hfirst']
        intro stack visited hI
        exact agreeFrom_chainFrom h hr hid hfirst hfirst' hsame' hI (g.remaining_le_length visited)
          (g'.remaining_le_length visited)

theorem agree_compileBodies (hr : c.AgreeAt g K r r') (hK : K n.id) (hnode : g.node? n.id = some n)
    (hsame : c.Interchangeable n n') (hb : c.registry.get? n.kind = some b)
    (done : List (String × String)) {is : List BodyInput} (his : is ⊆ b.bodies) :
    Agree (fun _ => c.Registered g K) (c.compileBodies g r n done is)
      (c.compileBodies g' r' n' done is) := by
  have hlock := Agree.lockstep fun _ => c.Registered g K
  induction is generalizing done with
  | nil => exact hlock.pure done
  | cons i is ih =>
      obtain ⟨hi, his⟩ := List.cons_subset.1 his
      exact hlock.bind (agree_compileBody h hr hK hnode hsame hb hi) fun _ => ih _ his

theorem agreeAt_level (hvalues : c.AgreeAt g K values values')
    (hbodies : c.AgreeAt g K bodies bodies') :
    c.AgreeAt g K (c.level g values bodies) (c.level g' values' bodies') := by
  intro n n' b hK hnode hsame hb
  have hlock := Agree.lockstep fun _ => c.Registered g K
  refine hlock.bind (agree_resolveInputs h hvalues hK hnode hsame hb [] (List.Subset.refl _))
    fun fragments => ?_
  refine hlock.bind (agree_compileBodies h hbodies hK hnode hsame hb [] (List.Subset.refl _))
    fun texts => ?_
  have hwriter : c.writer b.kind (c.arguments n' b fragments texts) =
      c.writer b.kind (c.arguments n b fragments texts) :=
    hsame.writer b.kind (c.arguments n b fragments texts) rfl
  change Agree _ (Gen.ofDraft (c.writer b.kind (c.arguments n b fragments texts)))
    (Gen.ofDraft (c.writer b.kind (c.arguments n' b fragments texts)))
  rw [hwriter]
  exact fun stack visited hI => .ofDraft _ hI

theorem agreeAt_run (k : Nat) :
    c.AgreeAt g K (c.run g k) (c.run g' k) := by
  apply run_induction₂ c c g g'
  · exact fun _ _ _ _ _ _ _ _ _ _ => .fault _
  · intro k hvalues hbodies
    rw [run_eq, run_eq]
    exact agreeAt_level h hvalues hbodies

theorem compileBodyText_coincide {root : String} (hroot : K root)
    {ctx : Context} (hctx : ctx.visited = []) :
    c.compileBodyText g' (some root) ctx = c.compileBodyText g (some root) ctx := by
  change c.compileChain g' root ctx = c.compileChain g root ctx
  unfold compileChain
  rcases h.cases hroot with ⟨hnone, hnone'⟩ | ⟨first, first', rfl, hfirst, hfirst', hsame⟩
  · rw [hnone, hnone']
  · rw [hfirst, hfirst']
    have hnew : c.Registered g K [] := fun id hid => nomatch hid
    exact (agreeFrom_chainFrom h (agreeAt_run h allowance) hroot hfirst hfirst' hsame hnew
      (g.remaining_le_length []) (g'.remaining_le_length []) ctx rfl hctx).1

end Walks

/-- Discreet writers make the same of graphs with the same nodes. -/
theorem Discreet.outcome_eq {root : String} (hdiscreet : c.Discreet)
    (h : ∀ id, c.Reaches g root id → Option.Rel c.SameNode (g.node? id) (g'.node? id)) :
    (c.compile g' (some root)).outcome = (c.compile g (some root)).outcome := by
  have hcoincide : c.Coincide g g' (c.Reaches g root) := by
    refine ⟨fun id hid => ?_, fun id n slot id' hid hnode hrefers => hid.refers hnode hrefers⟩
    have hnodes := h id hid
    generalize g.node? id = left at hnodes ⊢
    generalize g'.node? id = right at hnodes ⊢
    cases hnodes with
    | none => exact .none
    | some hsame => exact .some (hdiscreet.interchangeable hsame)
  have hrun : c.compileBodyText g' (some root) {} = c.compileBodyText g (some root) {} :=
    compileBodyText_coincide hcoincide .root rfl
  cases hend : c.compileBodyText g (some root) {} with
  | ok body ctx =>
      rw [hend] at hrun
      rw [outcome_of_ok hend, outcome_of_ok hrun]
  | error fault ctx =>
      rw [hend] at hrun
      rw [outcome_of_error hend, outcome_of_error hrun]

/-- What the root leads to is all that a compilation from it depends on, as long as the writers read
nothing else of their nodes. The built-in writers and those of templates do not. -/
theorem rooted_outcome_local :
    (∀ (c : Compiler) (g g' : Graph) (root : String), c.Discreet →
      (∀ id, c.Reaches g root id → Option.Rel c.SameNode (g.node? id) (g'.node? id)) →
      (c.compile g' (some root)).outcome = (c.compile g (some root)).outcome) ∧
    (∀ unit, (builtin unit).Discreet) ∧
    ∀ (c : Compiler) (table : List (String × Writer)),
      (∀ kind, c.writer kind = (table.lookup kind).getD fun _ => .done (.text "")) →
      (∀ entry ∈ table, entry ∈ Writer.builtin ∨ ∃ t : Template, entry.2 = t.writer) →
      c.Discreet := by
  refine ⟨fun c g g' root hdiscreet h => hdiscreet.outcome_eq h, discreet_builtin, ?_⟩
  intro c table hwriter htable
  refine discreet_of_table hwriter fun entry hentry => ?_
  rcases htable entry hentry with hbuiltin | ⟨t, ht⟩
  · exact Writer.discreet_of_mem_builtin entry hbuiltin
  · rw [ht]
    exact t.discreet_writer

/-- A block with an input, a body and two fields, written by a template. -/
def accent : Block :=
  { kind := "accent", category := "Custom", inputs := [{ name := "BY" }], bodies := [{ name := "DO" }],
    fields := [{ name := "FROM", kind := .number }, { name := "TO", kind := .number }],
    previous := true, next := true }

def accentTemplate : Template :=
  ⟨[.literal "accent(", .operand "BY" 0, .literal ", ", .number "FROM", .literal ", ", .number "TO",
    .literal ") ", .inlineBody "DO"], none⟩

/-- The built-in blocks and the accent. -/
def withAccent : Compiler where
  registry := Registry.builtin [accent]
  writer kind := ((("accent", accentTemplate.writer) :: Writer.builtin).lookup kind).getD
    fun _ => .done (.text "")
  indentUnit := "  "

def accentNode : Node :=
  { id := "a", kind := "accent", inputs := [("BY", .node "b")], bodies := [("DO", "c")],
    fields := [("FROM", .int 1), ("TO", .int 4)] }

/-- An accent by a number, around a statement. -/
def plainAccent : Graph := ⟨[
  accentNode,
  { id := "b", kind := "math_number", fields := [("NUM", .int 3)] },
  { id := "c", kind := "stop_sound" }]⟩

/-- The same in another order, with the fields of the accent in another order, entries that no block
declares, other places on the canvas, and a node of an unknown kind that refers to the others. -/
def clutteredAccent : Graph := ⟨[
  { id := "z", kind := "nothing", inputs := [("BY", .node "b")], next := some "a" },
  { id := "c", kind := "stop_sound", inputs := [("EXTRA", .node "z")] },
  { id := "b", kind := "math_number", fields := [("NUM", .int 3)],
    position := ⟨.zero true, .zero true⟩ },
  { accentNode with bodies := [("ELSE", "z"), ("DO", "c")],
                    fields := [("TO", .int 4), ("FROM", .int 1)] }]⟩

theorem accent_same (id : String) (h : withAccent.Reaches plainAccent "a" id) :
    Option.Rel withAccent.SameNode (plainAccent.node? id) (clutteredAccent.node? id) := by
  have hfields : ∀ name, [("TO", Scalar.int 4), ("FROM", .int 1)].lookup name =
      [("FROM", Scalar.int 1), ("TO", .int 4)].lookup name := by
    intro name
    by_cases hfrom : name = "FROM"
    · subst hfrom
      rfl
    · by_cases hto : name = "TO"
      · subst hto
        rfl
      · simp [List.lookup_cons, beq_eq_false_iff_ne.2 hfrom, beq_eq_false_iff_ne.2 hto]
  have hblock : withAccent.registry.get? "accent" = some accent := rfl
  have hstop : (withAccent.registry.get? "stop_sound").map Block.inputs = some [] := rfl
  have hids : id ∈ ["a", "b", "c"] := h.mem (by decide) (by decide)
  rcases hids with _ | ⟨_, _ | ⟨_, _ | ⟨_, hnil⟩⟩⟩
  · refine .some ⟨rfl, rfl, rfl, hfields, ?_, ?_⟩
    · exact fun _ _ _ _ => rfl
    · intro b hb i hi
      cases hblock.symm.trans hb
      obtain rfl := List.mem_singleton.1 hi
      rfl
  · exact .some ⟨rfl, rfl, rfl, fun _ => rfl, fun _ _ _ _ => rfl, fun _ _ _ _ => rfl⟩
  · refine .some ⟨rfl, rfl, rfl, fun _ => rfl, ?_, fun _ _ _ _ => rfl⟩
    intro b hb i hi
    rw [hb] at hstop
    have hinputs : b.inputs = [] := Option.some.inj hstop
    rw [hinputs] at hi
    cases hi
  · cases hnil

theorem cluttered_accent_outcome :
    (withAccent.compile clutteredAccent (some "a")).outcome =
      .ok ⟨[], "accent(3, 1, 4) stop_sound()\n\n", []⟩ := by
  have hdiscreet : withAccent.Discreet := by
    refine rooted_outcome_local.2.2 withAccent (("accent", accentTemplate.writer) :: Writer.builtin)
      (fun _ => rfl) fun entry hentry => ?_
    rcases List.mem_cons.1 hentry with rfl | hbuiltin
    · exact .inr ⟨accentTemplate, rfl⟩
    · exact .inl hbuiltin
  rw [rooted_outcome_local.1 withAccent plainAccent clutteredAccent "a" hdiscreet accent_same]
  rfl

/-- The built-in blocks, with a writer that writes where its node stands on the canvas. -/
def whereabouts : Compiler where
  registry := Registry.builtin []
  writer _ a := .ofRender (Script.float a.node.position.x) >>= Writer.line
  indentUnit := "  "

/-- A single statement at a place. -/
def standingAt (x : Double) : Graph :=
  ⟨[{ id := "a", kind := "stop_sound", position := ⟨x, .zero false⟩ }]⟩

/-- A tempo that is given by a single literal. -/
def literalTempo (value : Scalar) : Graph :=
  ⟨[{ id := "a", kind := "set_tempo", inputs := [("TEMPO", .literal (.scalar value))] }]⟩

/-- A writer that reads the place of its node tells nodes apart that are the same otherwise. And nodes
are not the same when one of them has an integer for a double of the same value. -/
theorem whereabouts_not_local :
    (¬ ∀ (c : Compiler) (g g' : Graph) (root : String),
      (∀ id, c.Reaches g root id → Option.Rel c.SameNode (g.node? id) (g'.node? id)) →
      (c.compile g' (some root)).outcome = (c.compile g (some root)).outcome) ∧
    ((builtin "  ").compile (literalTempo (.int 1)) (some "a")).outcome ≠
      ((builtin "  ").compile (literalTempo (.float (Double.ofInt 1))) (some "a")).outcome := by
  refine ⟨fun h => ?_, by decide +kernel⟩
  have hsame : ∀ x y, (whereabouts.compile (standingAt x) (some "a")).outcome =
      (whereabouts.compile (standingAt y) (some "a")).outcome := by
    refine fun x y => h whereabouts (standingAt y) (standingAt x) "a" fun id hid => ?_
    obtain rfl : id = "a" := List.mem_singleton.1 (hid.mem (by simp) (List.nil_subset _))
    exact .some ⟨rfl, rfl, rfl, fun _ => rfl, fun _ _ _ _ => rfl, fun _ _ _ _ => rfl⟩
  exact absurd (hsame (.zero false) (Double.ofInt 1)) (by decide +kernel)

end Compiler

end BlockMusic
