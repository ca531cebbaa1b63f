import BlockMusic.Proofs.Run

/-!
# Larger graphs

A walk that returns has found every node that it asked for. In a graph that gives the same nodes under
the same ids, and more besides, it finds them again, goes the same way and returns the same, however
many nodes its chains may visit beyond those they do. The allowance may be another one too: the walk
can then be stopped by the nesting, but cannot return anything else.
-/

namespace BlockMusic

/-- The second graph gives every node that the first one gives, and is not shorter. -/
structure Graph.Enlarged (g g' : Graph) : Prop where
  node? : ∀ {id n}, g.node? id = some n → g'.node? id = some n
  length_le : g.nodes.length ≤ g'.nodes.length

theorem Graph.node?_insert {front back : List Node} {n : Node}
    (hnew : ∀ m ∈ front ++ back, m.id ≠ n.id) :
    Graph.node? ⟨front ++ n :: back⟩ n.id = some n := by
  have hfront : front.find? (fun m => m.id = n.id) = none := by
    rw [List.find?_eq_none]
    intro m hm
    simpa using hnew m (List.mem_append_left back hm)
  simp [Graph.node?, List.find?_append, hfront]

/-- A graph is enlarged by a node with an id of its own, wherever it is put. -/
theorem Graph.enlarged_insert {front back : List Node} {n : Node}
    (hnew : ∀ m ∈ front ++ back, m.id ≠ n.id) :
    Graph.Enlarged ⟨front ++ back⟩ ⟨front ++ n :: back⟩ where
  node? := by
    intro id m hm
    have hid : n.id ≠ id := fun h => hnew m (mem_of_node? hm) ((id_of_node? hm).trans h.symm)
    simpa [Graph.node?, List.find?_append, List.find?_cons, hid] using hm
  length_le := by
    simp only [List.length_append, List.length_cons]
    omega

namespace Compiler

namespace Gen

variable {α β : Type}

/-- Whenever the first walk returns, the second one returns the same or is stopped by the nesting. -/
def Repeats (x x' : Gen α) : Prop :=
  ∀ ctx a mid, x ctx = .ok a mid → x' ctx = .ok a mid ∨ ∃ mid', x' ctx = .error .tooDeep mid'

namespace Repeats

theorem refl (x : Gen α) : Repeats x x := fun _ _ _ h => .inl h

/-- A walk that never returns has nothing to repeat. -/
theorem of_error {x x' : Gen α} (h : ∀ ctx, ∃ e mid, x ctx = .error e mid) : Repeats x x' := by
  intro ctx a mid hok
  obtain ⟨e, mid', he⟩ := h ctx
  rw [he] at hok
  cases hok

theorem stop (e : CompileError) (x' : Gen α) : Repeats (Gen.stop e) x' :=
  of_error fun ctx => ⟨_, ctx, rfl⟩

theorem tooDeep (x : Gen α) : Repeats x (throw .tooDeep) := fun ctx _ _ _ => .inr ⟨ctx, rfl⟩

theorem bind {x x' : Gen α} {f f' : α → Gen β} (hx : Repeats x x')
    (hf : ∀ a, Repeats (f a) (f' a)) : Repeats (x >>= f) (x' >>= f') := by
  intro ctx b last h
  obtain ⟨a, mid, hmid, hlast⟩ := bind_eq_ok.1 h
  rw [bind_apply]
  rcases hx ctx a mid hmid with hx' | ⟨mid', hx'⟩
  · rw [hx']
    exact hf a mid b last hlast
  · rw [hx']
    exact .inr ⟨mid', rfl⟩

theorem inside {x x' : Gen α} (tag : String) (h : Repeats x x') :
    Repeats (Gen.inside tag x) (Gen.inside tag x') := by
  intro ctx a last hlast
  obtain ⟨mid, hmid, rfl⟩ := inside_eq_ok.1 hlast
  rcases h _ a mid hmid with hx' | ⟨mid', hx'⟩
  · exact .inl (inside_eq_ok.2 ⟨mid, hx', rfl⟩)
  · exact .inr ⟨mid'.withScope ctx.scope, by rw [Gen.inside, hx']⟩

theorem resolving {x x' : Gen α} (n : NodeName) (h : Repeats x x') :
    Repeats (Gen.resolving n x) (Gen.resolving n x') := by
  intro ctx a last hlast
  obtain ⟨hnew, mid, hmid, rfl⟩ := resolving_eq_ok.1 hlast
  rcases h _ a mid hmid with hx' | ⟨mid', hx'⟩
  · exact .inl (resolving_eq_ok.2 ⟨hnew, mid, hx', rfl⟩)
  · exact .inr ⟨mid'.leaveNode, by simp only [Gen.resolving, Context.enterNode, if_neg hnew, hx']⟩

theorem hoisting {x x' : Gen Output} (id : String) (h : Repeats x x') :
    Repeats (Gen.hoisting id x) (Gen.hoisting id x') := by
  intro ctx s last hlast
  obtain ⟨hs, o, mid, hmid, rfl⟩ := hoisting_eq_ok.1 hlast
  rcases h _ o mid hmid with hx' | ⟨mid', hx'⟩
  · exact .inl (hoisting_eq_ok.2 ⟨hs, o, mid, hx', rfl⟩)
  · exact .inr ⟨mid'.withScope ctx.scope, by rw [Gen.hoisting, hx']⟩

end Repeats

end Gen

open Gen

section Walks

variable {c : Compiler} {g g' : Graph} (hg : g.Enlarged g') {r r' values values' bodies bodies' : Level}
  {n : Node} {b : Block}

theorem repeats_lookup_bind {α : Type} {f f' : Block → Gen α}
    (h : ∀ b, c.registry.get? n.kind = some b → Repeats (f b) (f' b)) :
    Repeats (c.lookup n >>= f) (c.lookup n >>= f') := by
  cases hb : c.registry.get? n.kind with
  | none =>
      rw [lookup_none hb]
      exact .stop _ _
  | some b =>
      rw [lookup_some hb, pure_bind, pure_bind]
      exact h b hb

theorem repeats_entry (hr : Repeats (r n b) (r' n b)) : Repeats (entry r n b) (entry r' n b) := by
  cases hs : b.isStatement with
  | false =>
      rw [entry_value hs, entry_value hs]
      exact .refl _
  | true =>
      rw [entry_statement hs, entry_statement hs]
      by_cases hmotif : b.scope = .motif
      · rw [statement_motif hmotif, statement_motif hmotif]
        exact hr.hoisting n.id
      · by_cases hscope : b.definesScope = true
        · rw [statement_scope hmotif hscope, statement_scope hmotif hscope]
          exact (hr.inside _).bind fun _ => .refl _
        · rw [statement_plain hmotif hscope, statement_plain hmotif hscope]
          exact hr.bind fun _ => .refl _

include hg

theorem repeats_resolveInput (hr : ∀ n b, Repeats (r n b) (r' n b)) (n : Node) (i : ValueInput) :
    Repeats (c.resolveInput g r n i) (c.resolveInput g' r' n i) := by
  unfold resolveInput
  cases n.input? i.name with
  | none => exact .refl _
  | some binding =>
      cases binding with
      | literal l => exact .refl _
      | node id =>
          dsimp only
          cases hnode : g.node? id with
          | none => exact .stop _ _
          | some child =>
              rw [hg.node? hnode]
              refine repeats_lookup_bind fun b _ => ?_
              split
              · exact ((hr child b).resolving child.name).bind fun _ => .refl _
              · exact .refl _

theorem repeats_resolveInputs (hr : ∀ n b, Repeats (r n b) (r' n b)) (n : Node)
    (done : List (String × Fragment)) (is : List ValueInput) :
    Repeats (c.resolveInputs g r n done is) (c.resolveInputs g' r' n done is) := by
  induction is generalizing done with
  | nil => exact .refl _
  | cons i is ih => exact (repeats_resolveInput hg hr n i).bind fun _ => ih _

/-- A chain may have more nodes left to visit than before. -/
theorem repeats_chainFrom (hr : ∀ n b, Repeats (r n b) (r' n b)) {more more' : Nat}
    (hmore : more ≤ more') (n : Node) :
    Repeats (c.chainFrom g r more n) (c.chainFrom g' r' more' n) := by
  induction more generalizing more' n with
  | zero => exact .stop _ _
  | succ more ih =>
      obtain ⟨more', rfl⟩ : ∃ k, more' = k + 1 := ⟨more' - 1, by omega⟩
      rw [chainFrom_succ, chainFrom_succ]
      refine repeats_lookup_bind fun b _ => ?_
      refine (Repeats.refl _).bind fun _ => (repeats_entry (hr n b)).bind fun text => ?_
      unfold follow
      cases n.next with
      | none => exact .refl _
      | some id =>
          dsimp only
          cases hnode : g.node? id with
          | none => exact .stop _ _
          | some following =>
              rw [hg.node? hnode]
              exact (ih (Nat.le_of_succ_le_succ hmore) following).bind fun _ => .refl _

theorem repeats_compileBody (hr : ∀ n b, Repeats (r n b) (r' n b)) (n : Node) (i : BodyInput) :
    Repeats (c.compileBody g r n i) (c.compileBody g' r' n i) := by
  unfold compileBody
  cases n.body? i.name with
  | none => exact .refl _
  | some id =>
      dsimp only
      cases hnode : g.node? id with
      | none => exact .stop _ _
      | some first =>
          rw [hg.node? hnode]
          exact repeats_chainFrom hg hr hg.length_le first

theorem repeats_compileBodies (hr : ∀ n b, Repeats (r n b) (r' n b)) (n : Node)
    (done : List (String × String)) (is : List BodyInput) :
    Repeats (c.compileBodies g r n done is) (c.compileBodies g' r' n done is) := by
  induction is generalizing done with
  | nil => exact .refl _
  | cons i is ih => exact (repeats_compileBody hg hr n i).bind fun _ => ih _

theorem repeats_level (hvalues : ∀ n b, Repeats (values n b) (values' n b))
    (hbodies : ∀ n b, Repeats (bodies n b) (bodies' n b)) (n : Node) (b : Block) :
    Repeats (c.level g values bodies n b) (c.level g' values' bodies' n b) :=
  (repeats_resolveInputs hg hvalues n [] b.inputs).bind fun _ =>
    (repeats_compileBodies hg hbodies n [] b.bodies).bind fun _ => .refl _

/-- Runs repeat each other whatever their allowances. -/
theorem repeats_run (k k' : Nat) (n : Node) (b : Block) :
    Repeats (c.run g k n b) (c.run g' k' n b) := by
  induction k' using Nat.strongRecOn generalizing k n b with
  | ind k' ih =>
      have hwithin : ∀ cost, 0 < cost → ∀ n b,
          Repeats (c.within g k cost n b) (c.within g' k' cost n b) := by
        intro cost hcost n b
        by_cases hk' : cost ≤ k'
        · by_cases hk : cost ≤ k
          · rw [within, within, if_pos hk, if_pos hk']
            exact ih (k' - cost) (by omega) (k - cost) n b
          · rw [within, if_neg hk]
            exact .of_error fun ctx => ⟨.tooDeep, ctx, rfl⟩
        · rw [within, within, if_neg hk']
          exact .tooDeep _
      rw [run_eq, run_eq]
      exact repeats_level hg (hwithin 3 (by omega)) (hwithin 4 (by omega)) n b

theorem repeats_chain (k k' : Nat) (n : Node) :
    Repeats (c.chain g (c.run g k) n) (c.chain g' (c.run g' k') n) :=
  repeats_chainFrom hg (repeats_run hg k k') hg.length_le n

end Walks

end Compiler

end BlockMusic
