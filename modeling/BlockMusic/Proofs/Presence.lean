import BlockMusic.Proofs.Accepted
import BlockMusic.Proofs.History
import BlockMusic.Proofs.Layout
import BlockMusic.Proofs.Obstacles
import BlockMusic.Proofs.Session
import Mathlib.Data.Set.Finite.List
import Mathlib.Order.WellFounded

/-!
# Which statements a workspace shows

A compilation of a whole workspace begins at the statements that no node refers to, and goes along the
edges of chains. The statements that it comes to are visited once each, and the lines of the chain from
each of them on stand together, in the body or in a macro.

The others are lost, and without a diagnostic. Going back from such a statement along the edges comes to
a node that is referred to in other ways only, or comes round.
-/

namespace BlockMusic

/-! ## Parts of a layout -/

namespace Layout

/-- The lines of the one layout stand together in the other or in one of its macros, and its macros are
macros of the other. -/
structure PartOf (part l : Layout) : Prop where
  lines : part.lines <:+: l.lines ∨ ∃ m ∈ l.macros, part.lines <:+: m
  macros : part.macros ⊆ l.macros

/-- The layout is to be seen in the program. -/
structure Shown (l : Layout) (p : Program) : Prop where
  lines : unlines l.lines <:+: p.body.toList ∨ ∃ m ∈ p.macros, unlines l.lines <:+: m.toList
  macros : ∀ m ∈ l.macros, String.ofList (unlines m) ∈ p.macros

namespace PartOf

variable {k l m : Layout}

theorem refl (l : Layout) : l.PartOf l := ⟨.inl (List.infix_refl _), List.Subset.refl _⟩

theorem trans (hkl : k.PartOf l) (hlm : l.PartOf m) : k.PartOf m where
  lines := by
    rcases hkl.lines with hk | ⟨ls, hls, hk⟩
    · rcases hlm.lines with hl | ⟨ls, hls, hl⟩
      · exact .inl (hk.trans hl)
      · exact .inr ⟨ls, hls, hk.trans hl⟩
    · exact .inr ⟨ls, hlm.macros hls, hk⟩
  macros := List.Subset.trans hkl.macros hlm.macros

theorem empty (l : Layout) : Layout.empty.PartOf l := ⟨.inl List.nil_infix, List.nil_subset _⟩

theorem append_left (l m : Layout) : l.PartOf (l ++ m) where
  lines := .inl (List.prefix_append _ _).isInfix
  macros := List.subset_append_left _ _

theorem append_right (l m : Layout) : m.PartOf (l ++ m) where
  lines := .inl (List.suffix_append _ _).isInfix
  macros := List.subset_append_right _ _

end PartOf

theorem unlines_infix {ls ms : List String} (h : ls <:+: ms) : unlines ls <:+: unlines ms := by
  obtain ⟨before, behind, rfl⟩ := h
  exact ⟨unlines before, unlines behind, by simp⟩

end Layout

/-! ## What a layout has -/

/-- The layout has the nodes it starts at and every node that the edges of its nodes lead to, and the
lines of the chain from each node on stand together in it. -/
structure Complete (g : Graph) (ending : Nat → String) (line : Nat → Node → Block → String → Prop)
    (starts : List String) (l : Layout) : Prop where
  starts : starts ⊆ l.nodes.map Node.id
  nodes : ∀ n ∈ l.nodes, g.node? n.id = some n
  edges : ∀ n ∈ l.nodes, ∀ unit slot id, (slot, id) ∈ (Compiler.builtin unit).chainEdges n →
    id ∈ l.nodes.map Node.id
  part : ∀ n ∈ l.nodes, ∃ d part, Laid g ending line d (some n.id) part ∧ part.PartOf l

namespace Complete

variable {g : Graph} {ending : Nat → String} {line : Nat → Node → Block → String → Prop} {d : Nat}
  {n : Node} {b : Block} {inside : Option String} {body rest l : Layout}

theorem empty (g : Graph) (ending : Nat → String) (line : Nat → Node → Block → String → Prop) :
    Complete g ending line (none : Option String).toList .empty where
  starts := List.nil_subset _
  nodes _ h := nomatch h
  edges _ h := nomatch h
  part _ h := nomatch h

/-- A layout that begins with a node, goes on with the body of the node, if it has one, and then with
the chain behind the node. -/
theorem enter (hlaid : Laid g ending line d (some n.id) l) (hn : g.node? n.id = some n)
    (hb : (Registry.builtin []).get? n.kind = some b) (hnodes : l.nodes = n :: body.nodes ++ rest.nodes)
    (hslots : ∀ slot ∈ (Role.ofBlock b).slots, n.body? slot = inside)
    (hbody : Complete g ending line inside.toList body) (hbodyPart : body.PartOf l)
    (hrest : Complete g ending line n.next.toList rest) (hrestPart : rest.PartOf l) :
    Complete g ending line [n.id] l where
  starts := by simp [hnodes]
  nodes m hm := by
    rw [hnodes, List.cons_append] at hm
    rcases List.mem_cons.1 hm with rfl | hm
    · exact hn
    · rcases List.mem_append.1 hm with hm | hm
      · exact hbody.nodes m hm
      · exact hrest.nodes m hm
  edges m hm unit slot id hedge := by
    have hmap : l.nodes.map Node.id = n.id :: body.nodes.map Node.id ++ rest.nodes.map Node.id := by
      simp [hnodes]
    rw [hnodes, List.cons_append] at hm
    rw [hmap]
    rcases List.mem_cons.1 hm with rfl | hm
    · rw [Compiler.chainEdges_eq hb] at hedge
      rcases List.mem_append.1 hedge with hinside | hnext
      · split at hinside
        · obtain ⟨i, hi, -, hid⟩ := Compiler.mem_bodyEdges.1 hinside
          have hslot : i.name ∈ (Role.ofBlock b).slots := by
            rw [← Catalogue.slots_role b (Registry.mem_catalogue hb)]
            exact List.mem_map_of_mem hi
          have hin : id ∈ inside.toList := Option.mem_toList.2 ((hslots i.name hslot).symm.trans hid)
          simp [hbody.starts hin]
        · cases hinside
      · obtain ⟨id', hid', heq⟩ := List.mem_map.1 hnext
        cases heq
        simp [hrest.starts hid']
    · rcases List.mem_append.1 hm with hm | hm
      · simp [hbody.edges m hm unit slot id hedge]
      · simp [hrest.edges m hm unit slot id hedge]
  part m hm := by
    rw [hnodes, List.cons_append] at hm
    rcases List.mem_cons.1 hm with rfl | hm
    · exact ⟨d, l, hlaid, .refl l⟩
    · rcases List.mem_append.1 hm with hm | hm
      · obtain ⟨d', part, hpart, hin⟩ := hbody.part m hm
        exact ⟨d', part, hpart, hin.trans hbodyPart⟩
      · obtain ⟨d', part, hpart, hin⟩ := hrest.part m hm
        exact ⟨d', part, hpart, hin.trans hrestPart⟩

theorem append {ids ids' : List String} {m : Layout} (hl : Complete g ending line ids l)
    (hm : Complete g ending line ids' m) : Complete g ending line (ids ++ ids') (l ++ m) where
  starts := by
    rw [Layout.nodes_append, List.map_append]
    exact List.append_subset.2 ⟨List.subset_append_of_subset_left _ hl.starts,
      List.subset_append_of_subset_right _ hm.starts⟩
  nodes n hn := by
    rcases List.mem_append.1 hn with hn | hn
    · exact hl.nodes n hn
    · exact hm.nodes n hn
  edges n hn unit slot id hedge := by
    rw [Layout.nodes_append, List.map_append]
    rcases List.mem_append.1 hn with hn | hn
    · exact List.mem_append_left _ (hl.edges n hn unit slot id hedge)
    · exact List.mem_append_right _ (hm.edges n hn unit slot id hedge)
  part n hn := by
    rcases List.mem_append.1 hn with hn | hn
    · obtain ⟨d', part, hpart, hin⟩ := hl.part n hn
      exact ⟨d', part, hpart, hin.trans (.append_left l m)⟩
    · obtain ⟨d', part, hpart, hin⟩ := hm.part n hn
      exact ⟨d', part, hpart, hin.trans (.append_right l m)⟩

/-- A complete layout has a node of the graph whose id it has. -/
theorem mem_nodes {starts : List String} (h : Complete g ending line starts l)
    (hids : (g.nodes.map Node.id).Nodup) (hn : n ∈ g.nodes) (hid : n.id ∈ l.nodes.map Node.id) :
    n ∈ l.nodes := by
  obtain ⟨m, hm, hsame⟩ := List.mem_map.1 hid
  have hnode := h.nodes m hm
  rw [hsame, Graph.node?_id hids hn] at hnode
  exact Option.some.inj hnode ▸ hm

end Complete

theorem Laid.complete {g : Graph} {ending : Nat → String} {line : Nat → Node → Block → String → Prop}
    {d : Nat} {start : Option String} {l : Layout} (h : Laid g ending line d start l) :
    Complete g ending line start.toList l := by
  induction h with
  | done => exact .empty g ending line
  | call hn hb hrole hline hrest ih =>
      obtain rfl := Graph.id_of_node? hn
      exact .enter (.call hn hb hrole hline hrest) hn hb rfl (by simp [hrole, Role.slots])
        (.empty g ending line) (.empty _) ih (.append_right _ _)
  | wrapped hn hb hrole hline hbody hrest ihbody ih =>
      obtain rfl := Graph.id_of_node? hn
      refine .enter (.wrapped hn hb hrole hline hbody hrest) hn hb rfl (by simp [hrole, Role.slots])
        ihbody (.trans ?_ (.append_left _ _)) ih (.append_right _ _)
      exact ⟨.inl ⟨[_], [_], rfl⟩, List.Subset.refl _⟩
  | inlined hn hb hrole hbody hrest ihbody ih =>
      obtain rfl := Graph.id_of_node? hn
      refine .enter (.inlined hn hb hrole hbody hrest) hn hb rfl (by simp [hrole, Role.slots])
        ihbody (.trans ?_ (.append_left _ _)) ih (.append_right _ _)
      exact ⟨.inl (List.infix_refl _), List.Subset.refl _⟩
  | motif hn hb hrole hline hbody hrest ihbody ih =>
      obtain rfl := Graph.id_of_node? hn
      refine .enter (.motif hn hb hrole hline hbody hrest) hn hb rfl (by simp [hrole, Role.slots])
        ihbody (.trans ?_ (.append_left _ _)) ih (.append_right _ _)
      exact ⟨.inr ⟨_, List.mem_cons_self, [_], [_], rfl⟩, List.subset_cons_self _ _⟩
  | silent hn hb hrole hrest ih =>
      obtain rfl := Graph.id_of_node? hn
      exact .enter (.silent hn hb hrole hrest) hn hb rfl (by simp [hrole, Role.slots])
        (.empty g ending line) (.empty _) ih (.append_right _ _)

theorem LaidAll.complete {g : Graph} {ending : Nat → String}
    {line : Nat → Node → Block → String → Prop} {ids : List String} {l : Layout}
    (h : LaidAll g ending line ids l) : Complete g ending line ids l := by
  induction h with
  | nil => exact .empty g ending line
  | cons hl _ ih => exact hl.complete.append ih

/-! ## Going back along the edges -/

namespace Compiler

open Gen Relation

/-- An edge of a chain leads from the one node to the other. -/
def Follows (c : Compiler) (g : Graph) (n m : Node) : Prop :=
  n ∈ g.nodes ∧ m ∈ g.nodes ∧ ∃ slot, (slot, m.id) ∈ c.chainEdges n

variable {c : Compiler} {g : Graph} {n : Node}

/-- Going back from a node comes to one without edges to it, or comes round. -/
theorem exists_source_or_loop (c : Compiler) (hn : n ∈ g.nodes) :
    ∃ m ∈ g.nodes, ReflTransGen (c.Follows g) m n ∧
      (TransGen (c.Follows g) m m ∨ ∀ k, ¬ c.Follows g k m) := by
  by_cases hloop : ∃ m ∈ g.nodes, ReflTransGen (c.Follows g) m n ∧ TransGen (c.Follows g) m m
  · obtain ⟨m, hm, hback, hround⟩ := hloop
    exact ⟨m, hm, hback, .inl hround⟩
  · -- without a loop the nodes in front of `n` are well founded, and one of them is the first
    let Front := { m : Node // m ∈ g.nodes ∧ ReflTransGen (c.Follows g) m n }
    have hfinite : Finite Front := (g.nodes.finite_toSet.subset fun m hm => hm.1).to_subtype
    let before : Front → Front → Prop := fun k m => TransGen (c.Follows g) k.1 m.1
    have htrans : IsTrans Front before := ⟨fun _ _ _ => TransGen.trans⟩
    have hirrefl : Std.Irrefl before := ⟨fun m hm => hloop ⟨m.1, m.2.1, m.2.2, hm⟩⟩
    have hwf : WellFounded before := Finite.wellFounded_of_trans_of_irrefl before
    obtain ⟨m, -, hfirst⟩ := hwf.has_min Set.univ ⟨⟨n, hn, .refl⟩, trivial⟩
    refine ⟨m.1, m.2.1, m.2.2, .inr fun k hk => ?_⟩
    exact hfirst ⟨k, hk.1, .head hk m.2.2⟩ trivial (.single hk)

variable {unit : String} {ending : Nat → String} {line : Nat → Node → Block → String → Prop}
  {starts : List String} {l part : Layout} {p : Program}

theorem mem_nodes_of_reaches (h : Complete g ending line starts l)
    (hids : (g.nodes.map Node.id).Nodup) {m : Node} (hm : m ∈ l.nodes)
    (hreach : ReflTransGen ((builtin unit).Follows g) m n) : n ∈ l.nodes := by
  induction hreach with
  | refl => exact hm
  | tail _ hedge ih =>
      obtain ⟨-, hn, slot, hslot⟩ := hedge
      exact h.mem_nodes hids hn (h.edges _ ih unit slot _ hslot)

/-- A part of a layout is to be seen where the layout is. -/
theorem shown_of_partOf (h : part.PartOf l) (hbody : p.body.toList = unlines l.lines)
    (hmacros : p.macros = l.macros.map fun ls => String.ofList (unlines ls)) : part.Shown p where
  lines := by
    rcases h.lines with hlines | ⟨m, hm, hlines⟩
    · exact .inl (hbody ▸ Layout.unlines_infix hlines)
    · refine .inr ⟨String.ofList (unlines m), ?_, ?_⟩
      · rw [hmacros]
        exact List.mem_map_of_mem hm
      · rw [String.toList_ofList]
        exact Layout.unlines_infix hlines
  macros m hm := by
    rw [hmacros]
    exact List.mem_map_of_mem (h.macros hm)

/-- Without diagnostics every node that none refers to begins a chain. -/
theorem isHead_of_clean (hids : (g.nodes.map Node.id).Nodup)
    (hok : (c.compile g none).outcome = .ok p) (hclean : p.diagnostics = []) :
    ∀ n ∈ g.unreferenced, c.isHead n = true := by
  obtain ⟨-, -, ps, -, rfl⟩ := (outcome_workspace_eq_ok hids).1 hok
  have hnotes : c.detachedNotes g.unreferenced = [] := (List.append_eq_nil_iff.1 hclean).1
  intro n hn
  by_contra hvalue
  have hkept : n ∈ g.unreferenced.filter fun n => !c.isHead n :=
    List.mem_filter.2 ⟨hn, by simp [hvalue]⟩
  rw [List.map_eq_nil_iff.1 hnotes] at hkept
  cases hkept

/-- A node that is not reached from the first node of a chain stands behind one that edges of chains do
not lead to but other references do, or behind a loop. -/
theorem exists_unfollowed (hids : (g.nodes.map Node.id).Nodup)
    (hok : (c.compile g none).outcome = .ok p) (hclean : p.diagnostics = []) (hn : n ∈ g.nodes)
    (hlost : ¬ ∃ h ∈ c.chainHeads g, ReflTransGen (c.Follows g) h n) :
    ∃ m ∈ g.nodes, ReflTransGen (c.Follows g) m n ∧
      (TransGen (c.Follows g) m m ∨ (m.id ∈ g.referenced ∧ ∀ k, ¬ c.Follows g k m)) := by
  obtain ⟨m, hm, hback, hround | hfirst⟩ := exists_source_or_loop c hn
  · exact ⟨m, hm, hback, .inl hround⟩
  · refine ⟨m, hm, hback, .inr ⟨?_, hfirst⟩⟩
    by_contra hfree
    have hunreferenced : m ∈ g.unreferenced :=
      List.mem_filter.2 ⟨hm, by simpa using hfree⟩
    have hhead := isHead_of_clean hids hok hclean m hunreferenced
    exact hlost ⟨m, chainHeads_perm.mem_iff.2 (List.mem_filter.2 ⟨hunreferenced, hhead⟩), hback⟩

/-- In a workspace that compiles without diagnostics each node that the chains lead to is visited once,
and the lines of the chain from it on are to be seen in the program. A node that the chains do not lead
to stands behind one that only references lead to that no chain follows, or behind a loop. -/
theorem reached_nodes_shown {unit : String} (hg : g.Accepted)
    (hok : ((builtin unit).compile g none).outcome = .ok p) (hclean : p.diagnostics = [])
    (hn : n ∈ g.nodes) :
    ((∃ h ∈ (builtin unit).chainHeads g, ReflTransGen ((builtin unit).Follows g) h n) →
      (contextBehind ((builtin unit).compileBodyText g none) {}).visited.count n.id = 1 ∧
      ∃ d part, Laid g (endLine unit.toList) (OwnLine g unit.toList) d (some n.id) part ∧
        part.Shown p) ∧
    ((¬ ∃ h ∈ (builtin unit).chainHeads g, ReflTransGen ((builtin unit).Follows g) h n) →
      ∃ m ∈ g.nodes, ReflTransGen ((builtin unit).Follows g) m n ∧
        (TransGen ((builtin unit).Follows g) m m ∨
          (m.id ∈ g.referenced ∧ ∀ k, ¬ (builtin unit).Follows g k m))) := by
  refine ⟨?_, exists_unfollowed hg.nodup hok hclean hn⟩
  rintro ⟨h, hh, hreach⟩
  obtain ⟨body, ctx, hrun, rfl⟩ := outcome_eq_ok.1 hok
  obtain ⟨l, hlaid, hgained, htext⟩ := laidOut_of_ok hg.nodup hrun
  have hcomplete := hlaid.complete
  have hvisited : ctx.visited = l.nodes.map Node.id := by simpa using hgained.visited
  have hstart : h ∈ l.nodes := hcomplete.mem_nodes hg.nodup (mem_nodes_of_mem_chainHeads hh)
    (hcomplete.starts (List.mem_map_of_mem hh))
  have hmem := mem_nodes_of_reaches hcomplete hg.nodup hstart hreach
  have hnodup : ctx.visited.Nodup :=
    ((Hoists.compileBodyText hg.nodup none).orders Context.orderly_empty hrun).nodup
  constructor
  · rw [contextBehind, hrun]
    exact List.count_eq_one_of_mem hnodup (hvisited ▸ List.mem_map_of_mem hmem)
  · obtain ⟨d, part, hpart, hin⟩ := hcomplete.part n hmem
    exact ⟨d, part, hpart,
      shown_of_partOf hin htext (hoisted_of_gained hgained hlaid.ne_nil_of_mem_macros)⟩

def effectNode : Node :=
  { id := "a", kind := "with_fx", bodies := [("COMMANDS", "b"), ("EXTRA", "c")] }

def quietNode : Node := { id := "b", kind := "stop_sound" }

def strayNode : Node :=
  { id := "c", kind := "set_tempo", inputs := [("TEMPO", .literal (.scalar (.int 90)))] }

/-- An effect with a body that its block declares and one that it does not. -/
def strayBody : Graph := ⟨[effectNode, quietNode, strayNode]⟩

theorem strayBody_accepted : strayBody.Accepted := ⟨.value, strayBody.toJson, rfl⟩

theorem strayBody_heads : (builtin "  ").chainHeads strayBody = [effectNode] := by
  have hfound : strayBody.unreferenced.filter (builtin "  ").isHead = [effectNode] := rfl
  rw [chainHeads, hfound]
  simp

theorem strayBody_run : (builtin "  ").compileBodyText strayBody none {} =
    .ok "with_fx(:echo) do\n  stop_sound()\nend\n" { visited := ["a", "b"] } := by
  have hregistered : ∀ n ∈ strayBody.unreferenced, ((builtin "  ").registry.get? n.kind).isSome := by
    decide
  have hheads : (builtin "  ").heads strayBody {} = .ok [effectNode] {} :=
    heads_eq_ok.2 ⟨fun n hn => Option.isSome_iff_exists.1 (hregistered n hn), strayBody_heads.symm, rfl⟩
  rw [compileBodyText, bind_apply, hheads]
  rfl

/-- A statement in a body that no block declares is lost, and nothing is said about it. -/
theorem undeclared_body_lost : ¬ ∀ (g : Graph) (p : Program), g.Accepted →
    ((builtin "  ").compile g none).outcome = .ok p → p.diagnostics = [] →
      ∀ n ∈ g.nodes, (builtin "  ").isHead n = true →
        (contextBehind ((builtin "  ").compileBodyText g none) {}).visited.count n.id = 1 := by
  intro h
  have hcount := h strayBody _ strayBody_accepted (outcome_of_ok strayBody_run) rfl strayNode
    (by decide) rfl
  rw [contextBehind, strayBody_run] at hcount
  exact absurd hcount (by decide)

theorem strayBody_shown : strayBody.Accepted ∧
    ((builtin "  ").compile strayBody none).outcome =
      .ok ⟨[], "with_fx(:echo) do\n  stop_sound()\nend\n", []⟩ ∧
    (∃ d part, Laid strayBody (endLine "  ".toList) (OwnLine strayBody "  ".toList) d (some "b") part ∧
      part.Shown ⟨[], "with_fx(:echo) do\n  stop_sound()\nend\n", []⟩) ∧
    ∃ m ∈ strayBody.nodes, ReflTransGen ((builtin "  ").Follows strayBody) m strayNode ∧
      (TransGen ((builtin "  ").Follows strayBody) m m ∨
        (m.id ∈ strayBody.referenced ∧ ∀ k, ¬ (builtin "  ").Follows strayBody k m)) := by
  have hok := outcome_of_ok strayBody_run
  have hedge : (Slot.body "COMMANDS", "b") ∈ (builtin "  ").chainEdges effectNode := by decide
  have hreach : ∃ h ∈ (builtin "  ").chainHeads strayBody,
      ReflTransGen ((builtin "  ").Follows strayBody) h quietNode := by
    rw [strayBody_heads]
    exact ⟨effectNode, List.mem_cons_self, .single ⟨by decide, by decide, _, hedge⟩⟩
  have hlost : ¬ ∃ h ∈ (builtin "  ").chainHeads strayBody,
      ReflTransGen ((builtin "  ").Follows strayBody) h strayNode := by
    have hclosed : ∀ n ∈ [effectNode, quietNode], ∀ m ∈ strayBody.nodes,
        ∀ e ∈ (builtin "  ").chainEdges n, e.2 = m.id → m ∈ [effectNode, quietNode] := by decide
    have hstays : ∀ n, ReflTransGen ((builtin "  ").Follows strayBody) effectNode n →
        n ∈ [effectNode, quietNode] := by
      intro n hn
      induction hn with
      | refl => exact List.mem_cons_self
      | tail _ hstep ih =>
          obtain ⟨-, hm, slot, hslot⟩ := hstep
          exact hclosed _ ih _ hm _ hslot rfl
    rw [strayBody_heads]
    rintro ⟨h, hh, hpath⟩
    rw [List.mem_singleton.1 hh] at hpath
    exact absurd (hstays strayNode hpath) (by decide)
  have hquiet : quietNode ∈ strayBody.nodes := by decide
  have hstray : strayNode ∈ strayBody.nodes := by decide
  exact ⟨strayBody_accepted, hok,
    ((reached_nodes_shown strayBody_accepted hok rfl hquiet).1 hreach).2,
    (reached_nodes_shown strayBody_accepted hok rfl hstray).2 hlost⟩

end Compiler

end BlockMusic
