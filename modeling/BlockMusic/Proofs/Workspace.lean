import BlockMusic.Proofs.Uniform
import Mathlib.Data.List.Forall2
import Mathlib.Data.Prod.Lex
import Mathlib.Data.String.Basic

/-!
# Whole workspaces

Without a root a compilation goes through all chains of the graph, from the top of the canvas to its
bottom. It is nothing else than the compilations from the first nodes of the chains, one behind the
other: it succeeds when each of them does and they visit different nodes, and its program is the
concatenation of theirs.
-/

namespace BlockMusic

/-- The node has a place on the canvas: neither coordinate is a nan. -/
def Node.isPlaced (n : Node) : Bool := !n.position.x.isNan && !n.position.y.isNan

/-- All nodes have places on the canvas. -/
def Graph.Placed (g : Graph) : Prop := ∀ n ∈ g.nodes, n.isPlaced = true

instance (g : Graph) : Decidable g.Placed := inferInstanceAs (Decidable (∀ n ∈ g.nodes, _))

/-- What orders the nodes of a canvas: from top to bottom, from left to right, then by id. -/
def Node.canvasKey (n : Node) : Int ×ₗ Int ×ₗ String :=
  toLex (n.position.y.place, toLex (n.position.x.place, n.id))

namespace Compiler

open Gen

variable (c : Compiler) (g : Graph)

/-- The node can begin a chain. -/
def isHead (n : Node) : Bool := (c.registry.get? n.kind).any Block.isStatement

/-- The first nodes of the chains, in the order of the canvas. -/
def chainHeads : List Node := (g.unreferenced.filter c.isHead).mergeSort headBefore

/-- The ids of the nodes that a compilation starts from. -/
def starts : Option String → List String
  | some id => [id]
  | none => (c.chainHeads g).map Node.id

/-- What is noted of the nodes that are in no chain and bound to no input. -/
def detachedNotes (ns : List Node) : List Diagnostic :=
  (ns.filter fun n => !c.isHead n).map fun n => .detachedValue n.name

/-- The nodes that the compilation from a root visits. -/
def visitedFrom (root : String) : List String :=
  match c.compileBodyText g (some root) {} with
  | .ok _ ctx => ctx.visited
  | .error _ ctx => ctx.visited

variable {c g} {n : Node} {ns hs : List Node} {ctx mid : Context}

theorem headBefore_iff {a b : Node} (ha : a.isPlaced = true) (hb : b.isPlaced = true) :
    headBefore a b = true ↔ a.canvasKey ≤ b.canvasKey := by
  have hahead : headAhead b a = true ↔ b.canvasKey < a.canvasKey := by
    simp only [Node.isPlaced, Bool.and_eq_true] at ha hb
    simp [headAhead, Double.isBefore, Double.isLevelWith, ha, hb, Node.canvasKey,
      Prod.Lex.toLex_lt_toLex, -String.lt_iff_ltb]
  rw [headBefore, Bool.not_eq_true', ← Bool.not_eq_true, hahead, not_lt]

/-- The heads are the statements that no node refers to. -/
theorem chainHeads_perm : (c.chainHeads g).Perm (g.unreferenced.filter c.isHead) :=
  List.mergeSort_perm _ _

theorem nodup_chainHeads (hids : (g.nodes.map Node.id).Nodup) :
    ((c.chainHeads g).map Node.id).Nodup := by
  rw [(chainHeads_perm.map Node.id).nodup_iff]
  exact hids.sublist ((List.filter_sublist.trans List.filter_sublist).map Node.id)

theorem chainHeads_sorted (hplaced : g.Placed) :
    (c.chainHeads g).Pairwise fun a b => a.canvasKey ≤ b.canvasKey := by
  have hfound : ∀ n ∈ g.unreferenced.filter c.isHead, n.isPlaced = true := fun n hn =>
    hplaced n (List.mem_of_mem_filter (List.mem_of_mem_filter hn))
  exact pairwise_mergeSort_le Node.canvasKey fun a ha b hb => headBefore_iff (hfound a ha) (hfound b hb)

/-! ## The first nodes of the chains -/

theorem isHead_of_get? {b : Block} (hb : c.registry.get? n.kind = some b) :
    c.isHead n = b.isStatement := by
  rw [isHead, hb]
  rfl

/-- Among nodes of registered kinds the statements are found, and the values noted. -/
theorem statementsAmong_of_registered (h : ∀ n ∈ ns, ∃ b, c.registry.get? n.kind = some b)
    (ctx : Context) :
    c.statementsAmong ns ctx = .ok (ns.filter c.isHead) (ctx.noteAll (c.detachedNotes ns)) := by
  induction ns generalizing ctx with
  | nil => simp [statementsAmong, detachedNotes, Context.noteAll]
  | cons n ns ih =>
      obtain ⟨b, hb⟩ := h n List.mem_cons_self
      have hns := ih fun m hm => h m (List.mem_cons_of_mem n hm)
      have hhead := isHead_of_get? hb
      rw [statementsAmong, lookup_some hb, pure_bind]
      cases hs : b.isStatement with
      | true =>
          rw [hs] at hhead
          rw [if_pos rfl, bind_apply, hns ctx]
          simp [hhead, detachedNotes]
      | false =>
          rw [hs] at hhead
          rw [if_neg (by simp), bind_apply]
          change c.statementsAmong ns (ctx.note _) = _
          rw [hns]
          simp [hhead, detachedNotes, Context.noteAll]

theorem registered_of_statementsAmong {found : List Node}
    (h : c.statementsAmong ns ctx = .ok found mid) :
    ∀ n ∈ ns, ∃ b, c.registry.get? n.kind = some b := by
  induction ns generalizing ctx found mid with
  | nil => simp
  | cons n ns ih =>
      cases hb : c.registry.get? n.kind with
      | none =>
          rw [statementsAmong, lookup_none hb, bind_apply] at h
          cases h
      | some b =>
          rw [statementsAmong, lookup_some hb, pure_bind] at h
          intro m hm
          rcases List.mem_cons.1 hm with rfl | hm
          · exact ⟨b, hb⟩
          · split at h
            · obtain ⟨found', mid', hns, -⟩ := bind_eq_ok.1 h
              exact ih hns m hm
            · obtain ⟨u, mid', -, hns⟩ := bind_eq_ok.1 h
              exact ih hns m hm

/-- The heads are found when every node that none refers to has a registered kind. -/
theorem heads_eq_ok {ctx mid : Context} :
    c.heads g ctx = .ok hs mid ↔ (∀ n ∈ g.unreferenced, ∃ b, c.registry.get? n.kind = some b) ∧
      hs = c.chainHeads g ∧ mid = ctx.noteAll (c.detachedNotes g.unreferenced) := by
  rw [heads, bind_eq_ok]
  constructor
  · rintro ⟨found, mid', hfound, hsort⟩
    have hknown := registered_of_statementsAmong hfound
    rw [statementsAmong_of_registered hknown] at hfound
    cases hfound
    cases hsort
    exact ⟨hknown, rfl, rfl⟩
  · rintro ⟨hknown, rfl, rfl⟩
    exact ⟨_, _, statementsAmong_of_registered hknown ctx, rfl⟩

/-! ## One chain behind the other -/

theorem uniform_chain (c : Compiler) (g : Graph) (n : Node) :
    Uniform (c.chain g (c.run g allowance) n) :=
  (Uniform.closed.chain allowance n).2

/-- The chains are compiled one behind the other as each of them is alone. -/
theorem compileHeads_eq_ok {body : String} (ht : ctx.Tidy) (hbare : ctx.bare = {}) :
    c.compileHeads g hs ctx = .ok body mid ↔ ∃ rs : List (String × Context),
      List.Forall₂ (fun h r => c.chain g (c.run g allowance) h {} = .ok r.1 r.2) hs rs ∧
      rs.Pairwise (fun r r' => r.2.visited.Disjoint r'.2.visited) ∧
      (∀ r ∈ rs, ctx.visited.Disjoint r.2.visited) ∧
      body = String.join (rs.map Prod.fst) ∧
      mid = (rs.map Prod.snd).foldl Context.extend ctx := by
  induction hs generalizing ctx body mid with
  | nil =>
      constructor
      · intro h
        cases h
        exact ⟨[], .nil, .nil, by simp, rfl, rfl⟩
      · rintro ⟨rs, hrs, -, -, rfl, rfl⟩
        cases hrs
        rfl
  | cons n hs ih =>
      rw [compileHeads, bind_eq_ok]
      constructor
      · rintro ⟨first, mid₁, hfirst, hrest⟩
        obtain ⟨rest, mid₂, hheads, hend⟩ := bind_eq_ok.1 hrest
        cases hend
        have ht₁ := (uniform_chain c g n).tidy ht hfirst
        obtain ⟨d, hd, hdisjoint, rfl⟩ := ((uniform_chain c g n).ok_iff ht).1 hfirst
        obtain ⟨rs, hrs, hpairs, hbehind, rfl, rfl⟩ := (ih ht₁ hbare).1 hheads
        rw [hbare] at hd
        refine ⟨(first, d) :: rs, .cons hd hrs, .cons ?_ hpairs, ?_, ?_, rfl⟩
        · exact fun r hr => (List.disjoint_append_left.1 (hbehind r hr)).2
        · intro r hr
          rcases List.mem_cons.1 hr with rfl | hr
          · exact hdisjoint
          · exact (List.disjoint_append_left.1 (hbehind r hr)).1
        · simp [String.join_cons]
      · rintro ⟨rs, hrs, hpairs, hfront, rfl, rfl⟩
        cases hrs with
        | @cons _ r _ rs hr hrs =>
            obtain ⟨hpair, hpairs⟩ := List.pairwise_cons.1 hpairs
            have hfirst := ((uniform_chain c g n).ok_iff ht).2
              ⟨r.2, by rw [hbare]; exact hr, hfront r List.mem_cons_self, rfl⟩
            have ht₁ := (uniform_chain c g n).tidy ht hfirst
            have hrest := (ih ht₁ hbare).2 ⟨rs, hrs, hpairs, fun r' hr' =>
              List.disjoint_append_left.2 ⟨hfront r' (List.mem_cons_of_mem r hr'), hpair r' hr'⟩,
              rfl, rfl⟩
            refine ⟨r.1, ctx.extend r.2, hfirst, bind_eq_ok.2 ⟨_, _, hrest, ?_⟩⟩
            simp [String.join_cons]

/-! ## The whole workspace -/

/-- The program of a run. -/
def programOf (r : String × Context) : Program := ⟨r.2.hoisted, r.1, r.2.diagnostics⟩

theorem hoisted_foldl_extend (ds : List Context) (ctx : Context) :
    (ds.foldl Context.extend ctx).hoisted = ctx.hoisted ++ (ds.map Context.hoisted).flatten := by
  induction ds generalizing ctx with
  | nil => simp
  | cons d ds ih =>
      rw [List.foldl_cons, ih]
      simp [Context.extend, Context.hoisted]

theorem diagnostics_foldl_extend (ds : List Context) (ctx : Context) :
    (ds.foldl Context.extend ctx).diagnostics =
      ctx.diagnostics ++ (ds.map Context.diagnostics).flatten := by
  induction ds generalizing ctx with
  | nil => simp
  | cons d ds ih =>
      rw [List.foldl_cons, ih]
      simp [Context.extend]

theorem mem_nodes_of_mem_chainHeads {h : Node} (hh : h ∈ c.chainHeads g) : h ∈ g.nodes := by
  have hmem := chainHeads_perm.mem_iff.1 hh
  exact (List.mem_filter.1 (List.mem_filter.1 hmem).1).1

theorem compileBodyText_head (hids : (g.nodes.map Node.id).Nodup) {h : Node}
    (hh : h ∈ c.chainHeads g) :
    c.compileBodyText g (some h.id) = c.chain g (c.run g allowance) h := by
  rw [compileBodyText, compileChain, Graph.node?_id hids (mem_nodes_of_mem_chainHeads hh)]

/-- The compilations from the heads succeed with the programs of the runs of their chains. -/
theorem outcomes_eq_ok (hids : (g.nodes.map Node.id).Nodup) {ps : List Program}
    (hhs : ∀ h ∈ hs, h ∈ c.chainHeads g) :
    List.Forall₂ (fun h p => (c.compile g (some h.id)).outcome = .ok p) hs ps ↔
      ∃ rs, List.Forall₂ (fun h r => c.chain g (c.run g allowance) h {} = .ok r.1 r.2) hs rs ∧
        ps = rs.map programOf := by
  induction hs generalizing ps with
  | nil =>
      constructor
      · intro h
        cases h
        exact ⟨[], .nil, rfl⟩
      · rintro ⟨rs, hrs, rfl⟩
        cases hrs
        exact .nil
  | cons h hs ih =>
      have htext := compileBodyText_head hids (hhs h List.mem_cons_self)
      have htail : ∀ h' ∈ hs, h' ∈ c.chainHeads g := fun h' hh' =>
        hhs h' (List.mem_cons_of_mem h hh')
      constructor
      · intro hps
        cases hps with
        | cons hp hps =>
            obtain ⟨body, ctx, hrun, rfl⟩ := outcome_eq_ok.1 hp
            obtain ⟨rs, hrs, rfl⟩ := (ih htail).1 hps
            rw [htext] at hrun
            exact ⟨(body, ctx) :: rs, .cons hrun hrs, rfl⟩
      · rintro ⟨rs, hrs, rfl⟩
        cases hrs with
        | @cons _ r _ rs hr hrs =>
            refine .cons (outcome_eq_ok.2 ⟨r.1, r.2, ?_, rfl⟩) ((ih htail).2 ⟨rs, hrs, rfl⟩)
            rw [htext]
            exact hr

theorem visitedFrom_head (hids : (g.nodes.map Node.id).Nodup) {rs : List (String × Context)}
    (hhs : ∀ h ∈ hs, h ∈ c.chainHeads g)
    (hrs : List.Forall₂ (fun h r => c.chain g (c.run g allowance) h {} = .ok r.1 r.2) hs rs) :
    hs.map (fun h => c.visitedFrom g h.id) = rs.map fun r => r.2.visited := by
  induction hrs with
  | nil => rfl
  | @cons h r hs rs hr _ ih =>
      have htext := compileBodyText_head hids (hhs h List.mem_cons_self)
      rw [List.map_cons, List.map_cons, ih fun h' hh' => hhs h' (List.mem_cons_of_mem h hh')]
      rw [visitedFrom, htext, hr]

/-- The outcome of a workspace, put together from those of its heads. -/
theorem outcome_workspace_eq_ok (hids : (g.nodes.map Node.id).Nodup) {p : Program} :
    (c.compile g none).outcome = .ok p ↔
      (∀ n ∈ g.unreferenced, ∃ b, c.registry.get? n.kind = some b) ∧
      (c.chainHeads g).Pairwise
        (fun h h' => (c.visitedFrom g h.id).Disjoint (c.visitedFrom g h'.id)) ∧
      ∃ ps : List Program,
        List.Forall₂ (fun h q => (c.compile g (some h.id)).outcome = .ok q) (c.chainHeads g) ps ∧
        p = ⟨(ps.map Program.macros).flatten, String.join (ps.map Program.body),
          c.detachedNotes g.unreferenced ++ (ps.map Program.diagnostics).flatten⟩ := by
  have hstart : (Context.noteAll {} (c.detachedNotes g.unreferenced)).Tidy := by
    intro o ho
    cases ho
  have hprogram : ∀ rs : List (String × Context),
      (⟨((rs.map Prod.snd).foldl Context.extend
          (Context.noteAll {} (c.detachedNotes g.unreferenced))).hoisted,
        String.join (rs.map Prod.fst),
        ((rs.map Prod.snd).foldl Context.extend
          (Context.noteAll {} (c.detachedNotes g.unreferenced))).diagnostics⟩ : Program) =
      ⟨((rs.map programOf).map Program.macros).flatten,
        String.join ((rs.map programOf).map Program.body),
        c.detachedNotes g.unreferenced ++ ((rs.map programOf).map Program.diagnostics).flatten⟩ := by
    intro rs
    rw [hoisted_foldl_extend, diagnostics_foldl_extend]
    simp [Context.noteAll, Context.hoisted, programOf, Function.comp_def]
  have hpairs : ∀ rs : List (String × Context),
      List.Forall₂ (fun h r => c.chain g (c.run g allowance) h {} = .ok r.1 r.2) (c.chainHeads g) rs →
      (rs.Pairwise (fun r r' => r.2.visited.Disjoint r'.2.visited) ↔
        (c.chainHeads g).Pairwise
          (fun h h' => (c.visitedFrom g h.id).Disjoint (c.visitedFrom g h'.id))) := by
    intro rs hrs
    have hmap := visitedFrom_head hids (fun _ h => h) hrs
    rw [← List.pairwise_map (f := fun r : String × Context => r.2.visited), ← hmap, List.pairwise_map]
  rw [outcome_eq_ok]
  constructor
  · rintro ⟨body, ctx, hrun, rfl⟩
    obtain ⟨hs, mid, hheads, hchains⟩ := bind_eq_ok.1 hrun
    obtain ⟨hknown, rfl, rfl⟩ := heads_eq_ok.1 hheads
    obtain ⟨rs, hrs, hdisjoint, -, rfl, rfl⟩ := (compileHeads_eq_ok hstart rfl).1 hchains
    exact ⟨hknown, (hpairs rs hrs).1 hdisjoint, rs.map programOf,
      (outcomes_eq_ok hids fun _ h => h).2 ⟨rs, hrs, rfl⟩, hprogram rs⟩
  · rintro ⟨hknown, hdisjoint, ps, hps, rfl⟩
    obtain ⟨rs, hrs, rfl⟩ := (outcomes_eq_ok hids fun _ h => h).1 hps
    refine ⟨_, _, bind_eq_ok.2 ⟨_, _, heads_eq_ok.2 ⟨hknown, rfl, rfl⟩, (compileHeads_eq_ok hstart rfl).2
      ⟨rs, hrs, (hpairs rs hrs).2 hdisjoint, ?_, rfl, rfl⟩⟩, (hprogram rs).symm⟩
    exact fun r _ => List.disjoint_nil_left _

theorem exists_forall₂_iff {α β : Type} {R : α → β → Prop} {as : List α} :
    (∃ bs, List.Forall₂ R as bs) ↔ ∀ a ∈ as, ∃ b, R a b := by
  induction as with
  | nil => simp
  | cons a as ih =>
      rw [List.forall_mem_cons, ← ih]
      constructor
      · rintro ⟨bs, hbs⟩
        cases hbs with
        | cons hb hbs => exact ⟨⟨_, hb⟩, _, hbs⟩
      · rintro ⟨⟨b, hb⟩, bs, hbs⟩
        exact ⟨b :: bs, .cons hb hbs⟩

/-- The compilation of a workspace is the compilations from the heads of its chains, one behind the
other. It succeeds when the kinds of all unreferenced nodes are registered, each of these compilations
succeeds, and they visit different nodes; and its program is the concatenation of theirs, in the order
of the canvas and with the detached values noted in front. The nodes have to have places on it. -/
theorem workspace_concatenates_heads (c : Compiler) (g : Graph)
    (hids : (g.nodes.map Node.id).Nodup) (hplaced : g.Placed) :
    ((∃ p, (c.compile g none).outcome = .ok p) ↔
      (∀ n ∈ g.unreferenced, ∃ b, c.registry.get? n.kind = some b) ∧
      (∀ h ∈ c.chainHeads g, ∃ q, (c.compile g (some h.id)).outcome = .ok q) ∧
      (c.chainHeads g).Pairwise
        (fun h h' => (c.visitedFrom g h.id).Disjoint (c.visitedFrom g h'.id))) ∧
    (c.chainHeads g).Perm (g.unreferenced.filter c.isHead) ∧
    ((c.chainHeads g).Pairwise fun a b => a.canvasKey ≤ b.canvasKey) ∧
    ∀ p, (c.compile g none).outcome = .ok p → ∃ ps : List Program,
      List.Forall₂ (fun h q => (c.compile g (some h.id)).outcome = .ok q) (c.chainHeads g) ps ∧
      p.body = String.join (ps.map Program.body) ∧
      p.macros = (ps.map Program.macros).flatten ∧
      p.diagnostics = c.detachedNotes g.unreferenced ++ (ps.map Program.diagnostics).flatten := by
  refine ⟨?_, chainHeads_perm, chainHeads_sorted hplaced, ?_⟩
  · constructor
    · rintro ⟨p, hp⟩
      obtain ⟨hknown, hdisjoint, ps, hps, -⟩ := (outcome_workspace_eq_ok hids).1 hp
      exact ⟨hknown, exists_forall₂_iff.1 ⟨ps, hps⟩, hdisjoint⟩
    · rintro ⟨hknown, hall, hdisjoint⟩
      obtain ⟨ps, hps⟩ := exists_forall₂_iff.2 hall
      exact ⟨_, (outcome_workspace_eq_ok hids).2 ⟨hknown, hdisjoint, ps, hps, rfl⟩⟩
  · intro p hp
    obtain ⟨-, -, ps, hps, rfl⟩ := (outcome_workspace_eq_ok hids).1 hp
    exact ⟨ps, hps, rfl, rfl, rfl⟩

def tempoNode : Node :=
  { id := "a", kind := "set_tempo", inputs := [("TEMPO", .literal (.scalar (.int 90)))] }

def stopNode : Node := { id := "b", kind := "stop_sound" }

/-- Two chains side by side, the later one first in the graph. -/
def twoChains : Graph := ⟨[stopNode, tempoNode]⟩

theorem twoChains_heads : (builtin "  ").chainHeads twoChains = [tempoNode, stopNode] := by
  have hfound : twoChains.unreferenced.filter (builtin "  ").isHead = [stopNode, tempoNode] := rfl
  have hlate : headBefore stopNode tempoNode = false := rfl
  rw [chainHeads, hfound]
  simp [List.mergeSort, List.MergeSort.Internal.splitInTwo, hlate]

theorem twoChains_concatenated : (twoChains.nodes.map Node.id).Nodup ∧ twoChains.Placed ∧
    ∃ p, ((builtin "  ").compile twoChains none).outcome = .ok p ∧
      p.body = "set_tempo(90)\nstop_sound()\n" := by
  refine ⟨by decide, by decide, ?_⟩
  obtain ⟨hiff, -, -, hall⟩ :=
    workspace_concatenates_heads (builtin "  ") twoChains (by decide) (by decide)
  rw [twoChains_heads] at hiff hall
  have hknown : ∀ n ∈ twoChains.unreferenced, ((builtin "  ").registry.get? n.kind).isSome := by
    decide
  have hdisjoint : [tempoNode, stopNode].Pairwise fun h h' =>
      ((builtin "  ").visitedFrom twoChains h.id).Disjoint
        ((builtin "  ").visitedFrom twoChains h'.id) := by
    have hvisited : (builtin "  ").visitedFrom twoChains "a" = ["a"] ∧
        (builtin "  ").visitedFrom twoChains "b" = ["b"] := ⟨rfl, rfl⟩
    simp [tempoNode, stopNode, hvisited]
  have htempo : ((builtin "  ").compile twoChains (some "a")).outcome =
      .ok ⟨[], "set_tempo(90)\n", []⟩ := rfl
  have hstop : ((builtin "  ").compile twoChains (some "b")).outcome =
      .ok ⟨[], "stop_sound()\n", []⟩ := rfl
  have hheads : ∀ h ∈ [tempoNode, stopNode],
      ∃ q, ((builtin "  ").compile twoChains (some h.id)).outcome = .ok q := by
    rintro h (_ | ⟨_, _ | ⟨_, hnil⟩⟩)
    · exact ⟨_, htempo⟩
    · exact ⟨_, hstop⟩
    · cases hnil
  obtain ⟨p, hp⟩ := hiff.2 ⟨fun n hn => Option.isSome_iff_exists.1 (hknown n hn), hheads, hdisjoint⟩
  obtain ⟨ps, hps, hbody, -⟩ := hall p hp
  refine ⟨p, hp, hbody.trans ?_⟩
  obtain _ | ⟨hfirst, _ | ⟨hsecond, _ | _⟩⟩ := hps
  cases htempo.symm.trans hfirst
  cases hstop.symm.trans hsecond
  rfl

end Compiler

end BlockMusic
