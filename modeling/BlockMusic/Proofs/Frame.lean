import BlockMusic.Proofs.Run

/-!
# Properties of every walk

Two compilers with the same blocks walk a graph side by side. A relation between walks that sequences
of them keep, and that holds of the entries of chains and of the writers, holds of the two walks as a
whole; `Gen.Lockstep` asks for what every such argument needs.

A property of a single walk is the case of one compiler. The walk is put together from a few
operations: it notes, visits a node, works inside a scope or while a node is being resolved, hoists a
motif that it has just visited, and takes over the draft of a writer. A property that these have, and
that sequences of them keep, is a property of every run, whatever the blocks and the writers. The first
such property is that a walk leaves the scope and the stack of nodes being resolved as they were, also
when it fails.
-/

namespace BlockMusic

namespace Compiler

/-! ## Two walks side by side -/

/-- The relation holds between equal steps and is kept by sequences. -/
structure Gen.Lockstep (P : ∀ ⦃α : Type⦄, Gen α → Gen α → Prop) : Prop where
  pure {α : Type} (a : α) : P (Pure.pure a : Gen α) (Pure.pure a)
  bind {α β : Type} {x x' : Gen α} {f f' : α → Gen β} :
    P x x' → (∀ a, P (f a) (f' a)) → P (x >>= f) (x' >>= f')
  fault {α : Type} (e : Fault) : P (throw e : Gen α) (throw e)
  note (d : Diagnostic) : P (Gen.note d) (Gen.note d)

/-- Visits a node of a chain and enters it. -/
def step (r : Level) (n : Node) (b : Block) : Gen String := do
  Gen.change fun ctx => ctx.visit n.name
  entry r n b

namespace Gen.Lockstep

variable {P : ∀ ⦃α : Type⦄, Gen α → Gen α → Prop} (h : Lockstep P) {c c' : Compiler} {g : Graph}
  {r r' values values' bodies bodies' : Level}
include h

theorem noteIf (b : Bool) (d : Diagnostic) : P (Gen.noteIf b d) (Gen.noteIf b d) := by
  cases b with
  | true => exact h.note d
  | false => exact h.pure ()

theorem literalFragment (l : Literal) :
    P (Compiler.literalFragment l) (Compiler.literalFragment l) := by
  unfold Compiler.literalFragment
  split
  · exact h.pure _
  · exact h.fault _

/-- The ways in which a node of a chain is visited and entered. -/
theorem step {n : Node} {b : Block}
    (hvisit : ¬ (b.isStatement = true ∧ b.scope = .motif) →
      P (Gen.change fun ctx => ctx.visit n.name) (Gen.change fun ctx => ctx.visit n.name))
    (hmotif : b.isStatement = true → b.scope = .motif →
      P (Gen.change (fun ctx => ctx.visit n.name) >>= fun _ => Gen.hoisting n.id (r n b))
        (Gen.change (fun ctx => ctx.visit n.name) >>= fun _ => Gen.hoisting n.id (r' n b)))
    (hinside : b.isStatement = true → b.scope ≠ .motif →
      P (Gen.inside b.scope.tag (r n b)) (Gen.inside b.scope.tag (r' n b)))
    (hplain : b.isStatement = true → b.scope ≠ .motif → P (r n b) (r' n b)) :
    P (Compiler.step r n b) (Compiler.step r' n b) := by
  unfold Compiler.step
  cases hs : b.isStatement with
  | false =>
      rw [entry_value hs, entry_value hs]
      refine h.bind (hvisit fun hm => ?_) fun _ => h.bind (h.note _) fun _ => h.pure _
      rw [hs] at hm
      cases hm.1
  | true =>
      rw [entry_statement hs, entry_statement hs]
      by_cases hscope : b.scope = .motif
      · rw [statement_motif hscope, statement_motif hscope]
        exact hmotif hs hscope
      · refine h.bind (hvisit fun hm => hscope hm.2) fun _ => ?_
        by_cases hdefines : b.definesScope = true
        · rw [statement_scope hscope hdefines, statement_scope hscope hdefines]
          exact h.bind (hinside hs hscope) fun _ => h.pure _
        · rw [statement_plain hscope hdefines, statement_plain hscope hdefines]
          exact h.bind (hplain hs hscope) fun _ => h.pure _

theorem compileChain {id : String} (hchain : ∀ n, g.node? id = some n →
      P (c.chain g (c.run g allowance) n) (c'.chain g (c'.run g allowance) n)) :
    P (c.compileChain g id) (c'.compileChain g id) := by
  unfold Compiler.compileChain
  cases hnode : g.node? id with
  | none => exact h.fault _
  | some first => exact hchain first hnode

theorem compileHeads {hs : List Node} (hchain : ∀ n ∈ hs,
      P (c.chain g (c.run g allowance) n) (c'.chain g (c'.run g allowance) n)) :
    P (c.compileHeads g hs) (c'.compileHeads g hs) := by
  induction hs with
  | nil => exact h.pure _
  | cons n ns ih =>
      refine h.bind (hchain n List.mem_cons_self) fun _ => ?_
      exact h.bind (ih fun m hm => hchain m (List.mem_cons_of_mem n hm)) fun _ => h.pure _

variable (hreg : c'.registry = c.registry)
include hreg

theorem lookup_bind {α : Type} {n : Node} {f f' : Block → Gen α}
    (hf : ∀ b, c.registry.get? n.kind = some b → P (f b) (f' b)) :
    P (c.lookup n >>= f) (c'.lookup n >>= f') := by
  cases hb : c.registry.get? n.kind with
  | none =>
      rw [lookup_none hb, lookup_none (hreg ▸ hb)]
      exact h.fault _
  | some b =>
      rw [lookup_some hb, lookup_some (hreg ▸ hb), pure_bind, pure_bind]
      exact hf b hb

theorem resolveInput {n : Node} {i : ValueInput}
    (hv : ∀ child b, n.input? i.name = some (.node child.id) → g.node? child.id = some child →
      c.registry.get? child.kind = some b → b.producesValue = true →
      P (Gen.resolving child.name (r child b)) (Gen.resolving child.name (r' child b))) :
    P (c.resolveInput g r n i) (c'.resolveInput g r' n i) := by
  unfold Compiler.resolveInput
  cases hin : n.input? i.name with
  | none =>
      cases i.default with
      | none => exact h.bind (h.noteIf _ _) fun _ => h.pure _
      | some l => exact h.literalFragment l
  | some binding =>
      cases binding with
      | literal l => exact h.literalFragment l
      | node id =>
          dsimp only
          cases hnode : g.node? id with
          | none => exact h.fault _
          | some child =>
              obtain rfl := Graph.id_of_node? hnode
              refine h.lookup_bind hreg fun b hb => ?_
              cases hvalue : b.producesValue with
              | true => exact h.bind (hv child b hin hnode hb hvalue) fun _ => h.pure _
              | false => exact h.bind (h.note _) fun _ => h.pure _

theorem resolveInputs {n : Node} (done : List (String × Fragment)) (is : List ValueInput)
    (hv : ∀ i ∈ is, ∀ child b, n.input? i.name = some (.node child.id) →
      g.node? child.id = some child → c.registry.get? child.kind = some b →
      b.producesValue = true →
      P (Gen.resolving child.name (r child b)) (Gen.resolving child.name (r' child b))) :
    P (c.resolveInputs g r n done is) (c'.resolveInputs g r' n done is) := by
  induction is generalizing done with
  | nil => exact h.pure done
  | cons i is ih =>
      have hrest := fun j hj => hv j (List.mem_cons_of_mem i hj)
      exact h.bind (h.resolveInput hreg (hv i List.mem_cons_self)) fun _ => ih _ hrest

section Chains

-- `K` is what the nodes that the graph gives under their ids have in common
variable {K : Node → Prop} (hK : ∀ id n, g.node? id = some n → K n)
  (hstep : ∀ n b, K n → c.registry.get? n.kind = some b →
    P (Compiler.step r n b) (Compiler.step r' n b))
include hK hstep

theorem chainFrom (more : Nat) {n : Node} (hn : K n) :
    P (c.chainFrom g r more n) (c'.chainFrom g r' more n) := by
  induction more generalizing n with
  | zero => exact h.fault _
  | succ more ih =>
      rw [chainFrom_succ, chainFrom_succ]
      refine h.lookup_bind hreg fun b hb => ?_
      rw [← bind_assoc, ← bind_assoc]
      refine h.bind (hstep n b hn hb) fun text => ?_
      unfold follow
      cases n.next with
      | none => exact h.pure _
      | some id =>
          dsimp only
          cases hnode : g.node? id with
          | none => exact h.fault _
          | some following => exact h.bind (ih (hK id following hnode)) fun _ => h.pure _

theorem compileBody (n : Node) (i : BodyInput) :
    P (c.compileBody g r n i) (c'.compileBody g r' n i) := by
  unfold Compiler.compileBody
  cases n.body? i.name with
  | none => exact h.bind (h.noteIf _ _) fun _ => h.pure _
  | some id =>
      dsimp only
      cases hnode : g.node? id with
      | none => exact h.fault _
      | some first => exact h.chainFrom hreg hK hstep _ (hK id first hnode)

theorem compileBodies (n : Node) (done : List (String × String)) (is : List BodyInput) :
    P (c.compileBodies g r n done is) (c'.compileBodies g r' n done is) := by
  induction is generalizing done with
  | nil => exact h.pure done
  | cons i is ih => exact h.bind (h.compileBody hreg hK hstep n i) fun _ => ih _

end Chains

/-- What holds of the values inside a node, of the entries of the chains inside it and of its writers
holds of its level. The relation between the levels may be another one than inside them. -/
theorem level {Q : Gen Output → Gen Output → Prop} {K : Node → Prop}
    (hbind : ∀ {α : Type} {x x' : Gen α} {f f' : α → Gen Output}, P x x' →
      (∀ a, Q (f a) (f' a)) → Q (x >>= f) (x' >>= f'))
    (hK : ∀ id n, g.node? id = some n → K n) {n : Node} {b : Block}
    (hv : ∀ slot child b, n.input? slot = some (.node child.id) → g.node? child.id = some child →
      c.registry.get? child.kind = some b → b.producesValue = true →
      P (Gen.resolving child.name (values child b)) (Gen.resolving child.name (values' child b)))
    (hstep : ∀ n b, K n → c.registry.get? n.kind = some b →
      P (Compiler.step bodies n b) (Compiler.step bodies' n b))
    (hwrite : ∀ fragments texts, Q (Gen.ofDraft (c.writer b.kind (c.arguments n b fragments texts)))
      (Gen.ofDraft (c'.writer b.kind (c'.arguments n b fragments texts)))) :
    Q (c.level g values bodies n b) (c'.level g values' bodies' n b) :=
  hbind (h.resolveInputs hreg [] b.inputs fun i _ => hv i.name) fun fragments =>
    hbind (h.compileBodies hreg hK hstep n [] b.bodies) fun texts => hwrite fragments texts

end Gen.Lockstep

/-! ## One walk -/

/-- The property holds of the operations of a walk and is kept by sequences of them. -/
structure Gen.Closed (P : ∀ ⦃α : Type⦄, Gen α → Prop) : Prop where
  pure {α : Type} (a : α) : P (Pure.pure a : Gen α)
  bind {α β : Type} {x : Gen α} {f : α → Gen β} : P x → (∀ a, P (f a)) → P (x >>= f)
  fault {α : Type} (e : Fault) : P (throw e : Gen α)
  note (d : Diagnostic) : P (Gen.note d)
  visit (n : NodeName) : P (Gen.change fun ctx => ctx.visit n)
  inside {α : Type} {x : Gen α} (tag : String) : P x → P (Gen.inside tag x)
  resolving {α : Type} {x : Gen α} (n : NodeName) : P x → P (Gen.resolving n x)
  hoisting {x : Gen Output} (n : NodeName) :
    P x → P (Gen.change (fun ctx => ctx.visit n) >>= fun _ => Gen.hoisting n.id x)
  ofDraft {α : Type} (d : Draft α) : P (Gen.ofDraft d)

namespace Gen.Closed

variable {P : ∀ ⦃α : Type⦄, Gen α → Prop} (h : Closed P) {c : Compiler} {g : Graph}
  {r values bodies : Level}
include h

/-- A walk is in step with itself. -/
theorem lockstep : Lockstep fun _ x y => y = x ∧ P x where
  pure a := ⟨rfl, h.pure a⟩
  bind hx hf := ⟨congrArg₂ _ hx.1 (funext fun a => (hf a).1), h.bind hx.2 fun a => (hf a).2⟩
  fault e := ⟨rfl, h.fault e⟩
  note d := ⟨rfl, h.note d⟩

theorem step (hr : ∀ n b, P (r n b)) (n : Node) (b : Block) : P (Compiler.step r n b) :=
  (h.lockstep.step (fun _ => ⟨rfl, h.visit n.name⟩) (fun _ _ => ⟨rfl, h.hoisting n.name (hr n b)⟩)
    (fun _ _ => ⟨rfl, h.inside _ (hr n b)⟩) fun _ _ => ⟨rfl, hr n b⟩).2

theorem resolveInput (hr : ∀ n b, P (r n b)) (n : Node) (i : ValueInput) :
    P (c.resolveInput g r n i) :=
  (h.lockstep.resolveInput rfl fun _ _ _ _ _ _ => ⟨rfl, h.resolving _ (hr _ _)⟩).2

theorem chainFrom (hr : ∀ n b, P (r n b)) (more : Nat) (n : Node) : P (c.chainFrom g r more n) :=
  (h.lockstep.chainFrom rfl (K := fun _ => True) (fun _ _ _ => trivial)
    (fun n b _ _ => ⟨rfl, h.step hr n b⟩) more trivial).2

theorem compileBody (hr : ∀ n b, P (r n b)) (n : Node) (i : BodyInput) :
    P (c.compileBody g r n i) :=
  (h.lockstep.compileBody rfl (K := fun _ => True) (fun _ _ _ => trivial)
    (fun n b _ _ => ⟨rfl, h.step hr n b⟩) n i).2

theorem level (hv : ∀ n b, P (values n b)) (hb : ∀ n b, P (bodies n b)) (n : Node) (b : Block) :
    P (c.level g values bodies n b) :=
  (h.lockstep.level rfl (Q := fun x y => y = x ∧ P x) (K := fun _ => True) h.lockstep.bind
    (fun _ _ _ => trivial)
    (fun _ child b _ _ _ _ => ⟨rfl, h.resolving child.name (hv child b)⟩)
    (fun n b _ _ => ⟨rfl, h.step hb n b⟩) fun _ _ => ⟨rfl, h.ofDraft _⟩).2

/-- What holds of the operations holds of every run. -/
theorem run (k : Nat) (n : Node) (b : Block) : P (c.run g k n b) := by
  have hall : ∀ n b, P (c.run g k n b) := by
    apply run_induction (P := fun r => ∀ n b, P (r n b))
    · exact fun n b => h.fault _
    · intro k hv hb n b
      rw [run_eq]
      exact h.level hv hb n b
  exact hall n b

theorem within (k cost : Nat) (n : Node) (b : Block) : P (c.within g k cost n b) := by
  unfold Compiler.within
  split
  · exact h.run _ n b
  · exact h.fault _

theorem chain (k : Nat) (n : Node) : P (c.chain g (c.run g k) n) :=
  h.chainFrom (h.run k) _ n

end Gen.Closed

end Compiler

/-! ## What is restored -/

namespace Context

/-- The scope and the stack of nodes being resolved are those before. -/
structure Restored (before after : Context) : Prop where
  scope : after.scope = before.scope
  resolving : after.resolving = before.resolving

theorem Restored.refl (ctx : Context) : ctx.Restored ctx := ⟨rfl, rfl⟩

theorem Restored.trans {a b c : Context} (hab : a.Restored b) (hbc : b.Restored c) : a.Restored c :=
  ⟨hbc.scope.trans hab.scope, hbc.resolving.trans hab.resolving⟩

theorem reserve_resolving (ctx : Context) (id : String) :
    (ctx.reserve id).2.resolving = ctx.resolving := by
  unfold reserve
  split <;> rfl

theorem beginMotif_resolving (ctx : Context) (id : String) :
    (ctx.beginMotif id).resolving = ctx.resolving := by
  unfold beginMotif
  cases ctx.scope with
  | none => exact ctx.reserve_resolving id
  | some tag => exact (ctx.note (.nestedMotif id tag)).reserve_resolving id

@[simp] theorem reserve_visited (ctx : Context) (id : String) :
    (ctx.reserve id).2.visited = ctx.visited := by
  unfold reserve
  split <;> rfl

@[simp] theorem beginMotif_visited (ctx : Context) (id : String) :
    (ctx.beginMotif id).visited = ctx.visited := by
  unfold beginMotif
  cases ctx.scope with
  | none => exact ctx.reserve_visited id
  | some tag => exact (ctx.note (.nestedMotif id tag)).reserve_visited id

end Context

namespace Compiler

open Gen

/-- The level leaves the scope and the stack as they were. -/
def Restores (r : Level) : Prop :=
  ∀ n b ctx, Ensures (r n b) ctx (fun _ => ctx.Restored) (fun _ => ctx.Restored)

theorem ensures_hoisting_restored {x : Gen Output} {ctx : Context} {id : String}
    (hx : Ensures x (ctx.beginMotif id) (fun _ => (ctx.beginMotif id).Restored)
      (fun _ => (ctx.beginMotif id).Restored)) :
    Ensures (Gen.hoisting id x) ctx (fun _ => ctx.Restored) (fun _ => ctx.Restored) := by
  have hpop : ∀ mid, (ctx.beginMotif id).Restored mid → mid.resolving = ctx.resolving :=
    fun mid h => h.resolving.trans (ctx.beginMotif_resolving id)
  exact .hoisting (hx.mono (fun _ mid h => ⟨rfl, hpop mid h⟩) fun _ mid h => ⟨rfl, hpop mid h⟩)

/-- Every walk leaves the scope and the stack as they were, also when it fails. -/
theorem closed_restored : Closed fun _ x => ∀ ctx : Context,
    Ensures x ctx (fun _ => ctx.Restored) (fun _ => ctx.Restored) where
  pure _ ctx := .pure (.refl ctx)
  bind hx hf ctx := by
    refine .bind ((hx ctx).mono (fun a mid hmid => ?_) fun _ _ h => h)
    exact (hf a mid).mono (fun _ _ h => hmid.trans h) fun _ _ h => hmid.trans h
  fault _ ctx := Context.Restored.refl ctx
  note _ ctx := .note ⟨rfl, rfl⟩
  visit n ctx := .visit (fun _ => .refl ctx) fun _ => ⟨rfl, rfl⟩
  inside tag hx ctx :=
    .inside ((hx _).mono (fun _ _ h => ⟨rfl, h.resolving⟩) fun _ _ h => ⟨rfl, h.resolving⟩)
  resolving n hx ctx := by
    refine .resolving (fun _ => .refl ctx) fun _ => ?_
    have hpop : ∀ mid : Context, Context.Restored { ctx with resolving := ctx.resolving ++ [n.id] } mid →
        ctx.Restored mid.leaveNode := by
      intro mid h
      refine ⟨h.scope, ?_⟩
      simp [h.resolving]
    exact (hx _).mono (fun _ mid h => hpop mid h) fun _ mid h => hpop mid h
  hoisting n hx ctx := by
    refine .bind (.visit (fun _ => .refl ctx) fun _ => ?_)
    refine (ensures_hoisting_restored (hx _)).mono ?_ ?_
    · exact fun _ _ h => ⟨h.scope, h.resolving⟩
    · exact fun _ _ h => ⟨h.scope, h.resolving⟩
  ofDraft d ctx := .ofDraft (fun _ _ => ⟨rfl, rfl⟩) fun _ _ => ⟨rfl, rfl⟩

theorem entry_restored {r : Level} (hr : Restores r) (n : Node) (b : Block) (ctx : Context) :
    Ensures (entry r n b) ctx (fun _ => ctx.Restored) (fun _ => ctx.Restored) := by
  refine ensures_entry (fun _ => ?_) fun _ => ⟨rfl, rfl⟩
  by_cases hmotif : b.scope = .motif
  · rw [statement_motif hmotif]
    exact ensures_hoisting_restored (hr n b _)
  · refine ensures_statement (fun h => absurd h hmotif) (fun _ _ => ?_) fun _ _ => hr n b ctx
    exact (hr n b _).mono (fun _ _ h => ⟨rfl, h.resolving⟩) fun _ _ h => ⟨rfl, h.resolving⟩

theorem resolveInput_restored (c : Compiler) (g : Graph) (k : Nat) (n : Node) (i : ValueInput)
    (ctx : Context) :
    Ensures (c.resolveInput g (c.within g k 3) n i) ctx (fun _ => ctx.Restored)
      (fun _ => ctx.Restored) :=
  closed_restored.resolveInput (closed_restored.within k 3) n i ctx

theorem compileBody_restored (c : Compiler) (g : Graph) (k : Nat) (n : Node) (i : BodyInput)
    (ctx : Context) :
    Ensures (c.compileBody g (c.within g k 4) n i) ctx (fun _ => ctx.Restored)
      (fun _ => ctx.Restored) :=
  closed_restored.compileBody (closed_restored.within k 4) n i ctx

end Compiler

end BlockMusic
