import BlockMusic.Proofs.Frame

/-!
# Walks that agree

A walk guards against coming back by two lists: the stack of the nodes being resolved, and the nodes
visited. `Gen.AgreeFrom stack visited Q x y` says that `x` and `y` do the same from every context with
these two lists, and that after a success the stack is the old one, nothing visited is forgotten and the
nodes visited satisfy `Q`. There is one rule for each operation of a walk. The rules for the two guards
say what is known of the lists behind them: the node is new, and it is on its list now.

Each guard lets every node of the graph pass once at most. What is left to pass is counted by
`Graph.remaining`.
-/

namespace BlockMusic

namespace Graph

variable {g : Graph} {ids ids' : List String} {n : Node}

/-- How many nodes of the graph are not among the ids. -/
def remaining (g : Graph) (ids : List String) : Nat := g.nodes.countP fun n => decide (n.id ∉ ids)

theorem remaining_le_length (g : Graph) (ids : List String) : g.remaining ids ≤ g.nodes.length :=
  List.countP_le_length

theorem remaining_anti (h : ids ⊆ ids') : g.remaining ids' ≤ g.remaining ids := by
  apply List.countP_mono_left
  intro n _ hn
  rw [decide_eq_true_eq] at hn ⊢
  exact fun hid => hn (h hid)

/-- A node that is added was among those remaining. -/
theorem remaining_concat_lt (hn : n ∈ g.nodes) (hnew : n.id ∉ ids) :
    g.remaining (ids ++ [n.id]) < g.remaining ids := by
  obtain ⟨before, behind, hnodes⟩ := List.append_of_mem hn
  have hpart : ∀ part : List Node, part.countP (fun m => decide (m.id ∉ ids ++ [n.id])) ≤
      part.countP fun m => decide (m.id ∉ ids) := by
    intro part
    apply List.countP_mono_left
    intro m _ hm
    simp only [List.mem_append, not_or, decide_eq_true_eq] at hm ⊢
    exact hm.1
  have hbefore := hpart before
  have hbehind := hpart behind
  have hself : n.id ∈ ids ++ [n.id] := by simp
  simp only [remaining, hnodes, List.countP_append, List.countP_cons, hself, hnew, not_true_eq_false,
    not_false_eq_true, decide_true, decide_false, Bool.false_eq_true, if_true, if_false]
  omega

theorem remaining_pos (hn : n ∈ g.nodes) (hnew : n.id ∉ ids) : 0 < g.remaining ids :=
  Nat.zero_lt_of_lt (remaining_concat_lt hn hnew)

end Graph

namespace Compiler

namespace Gen

variable {α β : Type}

/-- The runs are the same from every context with the stack and the nodes visited. A success keeps the
stack and what was visited, and the nodes visited behind it satisfy `Q`. -/
def AgreeFrom (stack visited : List String) (Q : List String → Prop) (x y : Gen α) : Prop :=
  ∀ ctx : Context, ctx.resolving = stack → ctx.visited = visited →
    y ctx = x ctx ∧ Ensures x ctx
      (fun _ mid => mid.resolving = stack ∧ visited ⊆ mid.visited ∧ Q mid.visited) fun _ _ => True

/-- The runs agree from all lists with the invariant, and keep it. -/
def Agree (I : List String → List String → Prop) (x y : Gen α) : Prop :=
  ∀ stack visited, I stack visited → AgreeFrom stack visited (I stack) x y

namespace AgreeFrom

variable {stack visited : List String} {Q R : List String → Prop} {x y : Gen α} {f f' : α → Gen β}

theorem mono (h : AgreeFrom stack visited Q x y)
    (hQ : ∀ visited', visited ⊆ visited' → Q visited' → R visited') :
    AgreeFrom stack visited R x y := by
  intro ctx hstack hvisited
  obtain ⟨heq, hkeeps⟩ := h ctx hstack hvisited
  refine ⟨heq, hkeeps.mono (fun _ mid hmid => ?_) fun _ _ he => he⟩
  exact ⟨hmid.1, hmid.2.1, hQ _ hmid.2.1 hmid.2.2⟩

theorem pure (a : α) (hQ : Q visited) :
    AgreeFrom stack visited Q (Pure.pure a : Gen α) (Pure.pure a) := by
  intro ctx hstack hvisited
  subst hvisited
  exact ⟨rfl, hstack, List.Subset.refl _, hQ⟩

theorem fault (e : Fault) : AgreeFrom stack visited Q (throw e : Gen α) (throw e) :=
  fun _ _ _ => ⟨rfl, trivial⟩

theorem note (d : Diagnostic) (hQ : Q visited) :
    AgreeFrom stack visited Q (Gen.note d) (Gen.note d) := by
  intro ctx hstack hvisited
  subst hvisited
  exact ⟨rfl, hstack, List.Subset.refl _, hQ⟩

theorem ofDraft (d : Draft α) (hQ : Q visited) :
    AgreeFrom stack visited Q (Gen.ofDraft d) (Gen.ofDraft d) := by
  intro ctx hstack hvisited
  subst hvisited
  refine ⟨rfl, .ofDraft (fun _ _ => ?_) fun _ _ => trivial⟩
  exact ⟨hstack, List.Subset.refl _, hQ⟩

theorem bind (hx : AgreeFrom stack visited Q x y)
    (hf : ∀ a visited', visited ⊆ visited' → Q visited' →
      AgreeFrom stack visited' R (f a) (f' a)) :
    AgreeFrom stack visited R (x >>= f) (y >>= f') := by
  intro ctx hstack hvisited
  obtain ⟨heq, hkeeps⟩ := hx ctx hstack hvisited
  have hrest : ∀ a mid, x ctx = .ok a mid → f' a mid = f a mid ∧ Ensures (f a) mid
      (fun _ last => last.resolving = stack ∧ visited ⊆ last.visited ∧ R last.visited)
      fun _ _ => True := by
    intro a mid hmid
    obtain ⟨hstack', hsub, hQ⟩ := hkeeps.result hmid
    obtain ⟨heq', hkeeps'⟩ := hf a mid.visited hsub hQ mid hstack' rfl
    refine ⟨heq', hkeeps'.mono (fun _ last hlast => ?_) fun _ _ he => he⟩
    exact ⟨hlast.1, List.Subset.trans hsub hlast.2.1, hlast.2.2⟩
  constructor
  · rw [bind_apply, bind_apply, heq]
    cases hmid : x ctx with
    | ok a mid => exact (hrest a mid hmid).1
    | error e mid => rfl
  · exact .bind (.of_forall (fun a mid hmid => (hrest a mid hmid).2) fun _ _ _ => trivial)

theorem inside {tag : String} (h : AgreeFrom stack visited Q x y) :
    AgreeFrom stack visited Q (Gen.inside tag x) (Gen.inside tag y) := by
  intro ctx hstack hvisited
  obtain ⟨heq, hkeeps⟩ := h (ctx.withScope (some tag)) hstack hvisited
  exact ⟨by rw [Gen.inside, Gen.inside, heq], .inside hkeeps⟩

theorem hoisting {x y : Gen Output} {id : String} (h : AgreeFrom stack visited Q x y) :
    AgreeFrom stack visited Q (Gen.hoisting id x) (Gen.hoisting id y) := by
  intro ctx hstack hvisited
  obtain ⟨heq, hkeeps⟩ := h (ctx.beginMotif id) ((ctx.beginMotif_resolving id).trans hstack)
    ((ctx.beginMotif_visited id).trans hvisited)
  exact ⟨by rw [Gen.hoisting, Gen.hoisting, heq], .hoisting hkeeps⟩

/-- A node whose resolution begins is not on the stack, and is on it while it is resolved. -/
theorem resolving {n : NodeName}
    (h : n.id ∉ stack → AgreeFrom (stack ++ [n.id]) visited Q x y) :
    AgreeFrom stack visited Q (Gen.resolving n x) (Gen.resolving n y) := by
  intro ctx hstack hvisited
  subst hstack
  constructor
  · by_cases hseen : n.id ∈ ctx.resolving
    · simp only [Gen.resolving, Context.enterNode, if_pos hseen]
    · have heq := (h hseen { ctx with resolving := ctx.resolving ++ [n.id] } rfl hvisited).1
      simp only [Gen.resolving, Context.enterNode, if_neg hseen, heq]
  · refine .resolving (fun _ => trivial) fun hnew => ?_
    have hkeeps := (h hnew { ctx with resolving := ctx.resolving ++ [n.id] } rfl hvisited).2
    refine hkeeps.mono (fun _ mid hmid => ?_) fun _ _ _ => trivial
    refine ⟨?_, hmid.2.1, hmid.2.2⟩
    simp [hmid.1]

/-- A node that is visited was not before. -/
theorem visiting {n : NodeName}
    (h : n.id ∉ visited → AgreeFrom stack (visited ++ [n.id]) Q x y) :
    AgreeFrom stack visited Q (Gen.change (fun ctx => ctx.visit n) >>= fun _ => x)
      (Gen.change (fun ctx => ctx.visit n) >>= fun _ => y) := by
  intro ctx hstack hvisited
  subst hvisited
  constructor
  · rw [bind_apply, bind_apply]
    by_cases hseen : n.id ∈ ctx.visited
    · simp only [Gen.change, Context.visit, if_pos hseen]
    · have heq := (h hseen { ctx with visited := ctx.visited ++ [n.id] } hstack rfl).1
      simp only [Gen.change, Context.visit, if_neg hseen, heq]
  · refine .bind (.visit (fun _ => trivial) fun hnew => ?_)
    have hkeeps := (h hnew { ctx with visited := ctx.visited ++ [n.id] } hstack rfl).2
    refine hkeeps.mono (fun _ mid hmid => ?_) fun _ _ _ => trivial
    exact ⟨hmid.1, List.Subset.trans (List.subset_append_left _ _) hmid.2.1, hmid.2.2⟩

/-- Two nodes of one name that are entered leave the same in a chain if their levels agree. -/
theorem entry {r r' : Level} {n n' : Node} {b : Block} (hname : n'.name = n.name)
    (hQ : b.isStatement = false → Q visited) (hr : AgreeFrom stack visited Q (r n b) (r' n' b)) :
    AgreeFrom stack visited Q (Compiler.entry r n b) (Compiler.entry r' n' b) := by
  have hid : n'.id = n.id := congrArg NodeName.id hname
  have hend : ∀ (o : Output) visited', visited ⊆ visited' → Q visited' →
      AgreeFrom stack visited' Q (Pure.pure o.statement) (Pure.pure o.statement) :=
    fun o _ _ hq => pure o.statement hq
  cases hs : b.isStatement with
  | false =>
      rw [entry_value hs, entry_value hs, hname]
      exact (note _ (hQ hs)).bind fun _ _ _ hq => pure "" hq
  | true =>
      rw [entry_statement hs, entry_statement hs]
      by_cases hscope : b.scope = .motif
      · rw [statement_motif hscope, statement_motif hscope, hid]
        exact hr.hoisting
      · by_cases hdefines : b.definesScope = true
        · rw [statement_scope hscope hdefines, statement_scope hscope hdefines]
          exact hr.inside.bind hend
        · rw [statement_plain hscope hdefines, statement_plain hscope hdefines]
          exact hr.bind hend

end AgreeFrom

namespace Agree

variable {I : List String → List String → Prop}

theorem lockstep (I : List String → List String → Prop) : Lockstep fun _ => Agree I where
  pure a := fun _ _ hI => .pure a hI
  bind hx hf := fun stack visited hI =>
    (hx stack visited hI).bind fun a visited' _ hI' => hf a stack visited' hI'
  fault e := fun _ _ _ => .fault e
  note d := fun _ _ hI => .note d hI

end Agree

end Gen

end Compiler

end BlockMusic
