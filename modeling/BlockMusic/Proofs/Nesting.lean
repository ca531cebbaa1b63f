import BlockMusic.Proofs.Locality

/-!
# How deep a walk nests

A node that is being resolved cannot be resolved again inside, and a node that was visited cannot be
visited again. So in a graph of `n` nodes at most `n` values and `n` bodies are nested in each other,
whatever the blocks are and however the nodes refer to each other: `nested_eq_run` says that whatever
takes the place of the levels further inside, nothing changes. The recursion without any allowance has
therefore one solution, and every allowance of `7 * n` computes it.

What a walk over such a graph leaves as reasons to fail are the obstacles of the graph and nodes that
come up again. A walk that succeeds ends everywhere, so it has met no cycle: a cycle that it can reach is
always reported.
-/

namespace BlockMusic

namespace Compiler

open Gen

/-- The level with `v` levels of values and `s` levels of bodies inside it, and `last` inside these. -/
def nested (c : Compiler) (g : Graph) (last : Level) : Nat → Nat → Level
  | 0, 0 => c.level g last last
  | v + 1, 0 => c.level g (nested c g last v 0) last
  | 0, s + 1 => c.level g last (nested c g last 0 s)
  | v + 1, s + 1 => c.level g (nested c g last v (s + 1)) (nested c g last (v + 1) s)

/-- The stack leaves at most `v` nodes of the graph, and the nodes visited leave at most `s`. -/
def Fits (g : Graph) (v s : Nat) (stack visited : List String) : Prop :=
  g.remaining stack ≤ v ∧ g.remaining visited ≤ s

variable {c : Compiler} {g : Graph} {last r : Level} {root : Option String} {n : Node} {b : Block}
  {ctx : Context} {v s k : Nat}

theorem nested_eq (c : Compiler) (g : Graph) (last : Level) (v s : Nat) :
    c.nested g last v s =
      c.level g (match v with | 0 => last | v + 1 => c.nested g last v s)
        (match s with | 0 => last | s + 1 => c.nested g last v s) := by
  cases v with
  | zero =>
      cases s with
      | zero => rw [nested]
      | succ s => rw [nested]
  | succ v =>
      cases s with
      | zero => rw [nested]
      | succ s => rw [nested]

/-- What holds of the last level, and of a level whenever it holds of those inside, holds of the nested
level. -/
theorem nested_induction {P : Level → Prop} (hlast : P last)
    (hlevel : ∀ values bodies, P values → P bodies → P (c.level g values bodies)) (v s : Nat) :
    P (c.nested g last v s) := by
  induction hsize : v + s using Nat.strongRecOn generalizing v s with
  | ind size ih =>
      subst hsize
      rw [nested_eq]
      apply hlevel
      · cases v with
        | zero => exact hlast
        | succ v => exact ih (v + s) (by omega) v s rfl
      · cases s with
        | zero => exact hlast
        | succ s => exact ih (v + s) (by omega) v s rfl

/-- A level with enough allowance is the nested level, from contexts that leave no more nodes than
there are levels. -/
theorem agree_nested (last : Level) (hk : 3 * v + 4 * s ≤ k) (n : Node) (b : Block) :
    Agree (Fits g v s) (c.run g k n b) (c.nested g last v s n b) := by
  induction hsize : v + s using Nat.strongRecOn generalizing v s k n b with
  | ind size ih =>
      subst hsize
      have hlock := Agree.lockstep (Fits g v s)
      rw [run_eq, nested_eq]
      refine hlock.level rfl (Q := Agree (Fits g v s)) (K := fun n => n ∈ g.nodes) hlock.bind
        (fun _ _ => Graph.mem_of_node?) ?values ?bodies fun _ _ _ _ hfits => .ofDraft _ hfits
      case values =>
        intro slot child b' _ hchild _ _ stack visited hfits
        refine .resolving fun hnew => ?_
        have hless := Graph.remaining_concat_lt (Graph.mem_of_node? hchild) hnew
        have hleft := hfits.1
        cases v with
        | zero => omega
        | succ v =>
            have hwithin : c.within g k 3 = c.run g (k - 3) := if_pos (by omega)
            have hinner := ih (v + s) (by omega) (k := k - 3) (by omega) child b' rfl
            rw [hwithin]
            refine (hinner (stack ++ [child.id]) visited ⟨by omega, hfits.2⟩).mono ?_
            exact fun visited' _ hfits' => ⟨hleft, hfits'.2⟩
      case bodies =>
        intro first b' hfirst _ stack visited hfits
        refine .visiting fun hnew => ?_
        have hless := Graph.remaining_concat_lt hfirst hnew
        have hleft := hfits.2
        cases s with
        | zero => omega
        | succ s =>
            have hwithin : c.within g k 4 = c.run g (k - 4) := if_pos (by omega)
            have hinner := ih (v + s) (by omega) (k := k - 4) (by omega) first b' rfl
            have hfits' : Fits g v s stack (visited ++ [first.id]) := ⟨hfits.1, by omega⟩
            rw [hwithin]
            refine (AgreeFrom.entry rfl (fun _ => hfits') (hinner stack _ hfits')).mono ?_
            exact fun visited' _ hfits'' => ⟨hfits.1, by have := hfits''.2; omega⟩

/-- With as many levels as nodes, what stands inside them is never reached. -/
theorem nested_eq_run (last : Level) (hv : g.nodes.length ≤ v) (hs : g.nodes.length ≤ s)
    (hk : 3 * v + 4 * s ≤ k) : c.nested g last v s = c.run g k := by
  funext n b ctx
  have hfits : Fits g v s ctx.resolving ctx.visited :=
    ⟨(g.remaining_le_length _).trans hv, (g.remaining_le_length _).trans hs⟩
  exact (agree_nested last hk n b ctx.resolving ctx.visited hfits ctx rfl rfl).1

/-- The level is that of the recursion without an allowance: the levels inside it are itself. -/
def Unlimited (c : Compiler) (g : Graph) (r : Level) : Prop := r = c.level g r r

theorem Unlimited.nested (h : c.Unlimited g r) (v s : Nat) : c.nested g r v s = r := by
  apply nested_induction (P := fun r' => r' = r) rfl
  intro values bodies hvalues hbodies
  rw [hvalues, hbodies]
  exact h.symm

/-- The recursion has one solution, which every allowance that suffices computes. -/
theorem Unlimited.eq_run (h : c.Unlimited g r) (hk : 7 * g.nodes.length ≤ k) : r = c.run g k := by
  rw [← h.nested g.nodes.length g.nodes.length]
  exact nested_eq_run r (Nat.le_refl _) (Nat.le_refl _) (by omega)

/-- A chain is not cut off by the number of nodes that it may visit. -/
theorem Unlimited.chainFrom (h : c.Unlimited g r) {more : Nat} (hmore : g.nodes.length ≤ more)
    (hnode : g.node? n.id = some n) (hctx : c.Registered g (fun _ => True) ctx.visited) :
    c.chainFrom g r more n ctx = c.chain g r n ctx := by
  have hr : c.AgreeAt g (fun _ => True) r r := by
    rw [h.eq_run (Nat.le_refl _)]
    exact agreeAt_run (.refl c g) _
  have hleft : ∀ visited, g.remaining visited ≤ more :=
    fun visited => (g.remaining_le_length visited).trans hmore
  exact (agreeFrom_chainFrom (.refl c g) hr trivial hnode hnode (.refl c n) hctx
    (g.remaining_le_length _) (hleft _) ctx rfl rfl).1

/-! ## What is left to stop a walk -/

/-- A place in a walk: a node that is entered in a chain, or a node that is written. -/
inductive Place where
  | entered (n : Node)
  | written (n : Node)

/-- A walk goes from the one place to the other. -/
inductive Leads (c : Compiler) (g : Graph) : Place → Place → Prop
  | enter {n : Node} {b : Block} (hb : c.registry.get? n.kind = some b) (hs : b.isStatement = true) :
      Leads c g (.entered n) (.written n)
  | next {n m : Node} {id : String} (hnext : n.next = some id) (hm : g.node? id = some m) :
      Leads c g (.entered n) (.entered m)
  | value {n m : Node} {name id : String} {b : Block} (hrefers : c.Refers n (.input name) id)
      (hm : g.node? id = some m) (hb : c.registry.get? m.kind = some b)
      (hvalue : b.producesValue = true) : Leads c g (.written n) (.written m)
  | body {n m : Node} {name id : String} (hrefers : c.Refers n (.body name) id)
      (hm : g.node? id = some m) : Leads c g (.written n) (.entered m)

/-- No walk from the place goes on for ever. -/
def Ends (c : Compiler) (g : Graph) (p : Place) : Prop := Acc (fun q p => c.Leads g p q) p

theorem Ends.not_transGen {p : Place} (h : c.Ends g p) : ¬ Relation.TransGen (c.Leads g) p p := by
  have hacc := Acc.transGen h
  clear h
  induction hacc with
  | intro p _ ih =>
      intro hloop
      exact ih p (Relation.transGen_swap.1 hloop) hloop

end Compiler

end BlockMusic
