import BlockMusic.Proofs.Uniform

/-!
# Calls on one context

A context can serve several calls, one after the other: chains to compile and values to resolve, some
of which fail half way. A call leaves the scope and the stack of nodes being resolved as it found them
and otherwise only adds to the context, wherever it stops. No macro that was there before is touched:
a motif is visited before it reserves its macro, so a macro is never reserved, and never filled, for a
node that came up in an earlier call. A call that returns has filled every macro that it reserved.
-/

namespace BlockMusic

namespace Context

/-- Nothing that was found before is lost or changed. -/
structure Grows (before after : Context) : Prop where
  diagnostics : before.diagnostics <+: after.diagnostics
  visited : before.visited <+: after.visited
  owners : before.owners <+: after.owners
  macros : before.macros <+: after.macros

namespace Grows

theorem refl (ctx : Context) : ctx.Grows ctx := by
  constructor <;> exact List.prefix_rfl

theorem trans {a b c : Context} (hab : a.Grows b) (hbc : b.Grows c) : a.Grows c where
  diagnostics := hab.diagnostics.trans hbc.diagnostics
  visited := hab.visited.trans hbc.visited
  owners := hab.owners.trans hbc.owners
  macros := hab.macros.trans hbc.macros

theorem noteAll (ctx : Context) (ds : List Diagnostic) : ctx.Grows (ctx.noteAll ds) := by
  constructor <;> simp [Context.noteAll]

theorem visit (ctx : Context) (id : String) :
    ctx.Grows { ctx with visited := ctx.visited ++ [id] } := by
  constructor <;> simp

theorem motifStart (ctx : Context) (id : String) : ctx.Grows (ctx.motifStart id) := by
  constructor <;> simp [Context.motifStart]

theorem withScope {ctx mid : Context} (h : ctx.Grows mid) (scope : Option String) :
    ctx.Grows (mid.withScope scope) :=
  ⟨h.diagnostics, h.visited, h.owners, h.macros⟩

/-- A macro behind those of the context may be filled. -/
theorem fill {ctx mid : Context} (h : ctx.Grows mid) (text : String) :
    ctx.Grows (mid.fill ctx.macros.length text) where
  diagnostics := h.diagnostics
  visited := h.visited
  owners := h.owners
  macros := by
    obtain ⟨added, hadded⟩ := h.macros
    simp [← hadded]

end Grows

/-- The macros of the context are followed by some that are filled. -/
def FilledBehind (before after : Context) : Prop :=
  ∃ texts : List String, after.macros = before.macros ++ texts.map some

namespace FilledBehind

theorem of_macros_eq {before after : Context} (h : after.macros = before.macros) :
    before.FilledBehind after :=
  ⟨[], by simp [h]⟩

theorem trans {a b c : Context} (hab : a.FilledBehind b) (hbc : b.FilledBehind c) :
    a.FilledBehind c := by
  obtain ⟨texts, htexts⟩ := hab
  obtain ⟨texts', htexts'⟩ := hbc
  exact ⟨texts ++ texts', by simp [htexts', htexts]⟩

/-- A motif fills its own macro last, in front of those of the motifs inside it. -/
theorem fill {ctx mid : Context} {id : String} (h : (ctx.motifStart id).FilledBehind mid)
    (text : String) : ctx.FilledBehind (mid.fill ctx.macros.length text) := by
  obtain ⟨texts, htexts⟩ := h
  exact ⟨text :: texts, by simp [htexts, Context.motifStart]⟩

end FilledBehind

end Context

namespace Compiler

open Gen

/-- The walk adds to a tidy context and keeps it tidy; when it returns, the new macros are filled. -/
def Gen.OnlyAdds {α : Type} (x : Gen α) : Prop :=
  ∀ ctx : Context, ctx.Tidy →
    Ensures x ctx (fun _ mid => mid.Tidy ∧ ctx.Grows mid ∧ ctx.FilledBehind mid)
      (fun _ mid => mid.Tidy ∧ ctx.Grows mid)

theorem ensures_hoisting_onlyAdds {x : Gen Output} {n : NodeName} {ctx : Context} (hx : OnlyAdds x)
    (ht : ctx.Tidy) (hnew : n.id ∉ ctx.visited) :
    Ensures (Gen.hoisting n.id x) { ctx with visited := ctx.visited ++ [n.id] }
      (fun _ mid => mid.Tidy ∧ ctx.Grows mid ∧ ctx.FilledBehind mid)
      (fun _ mid => mid.Tidy ∧ ctx.Grows mid) := by
  refine .hoisting ?_
  rw [ht.beginMotif_visit hnew, ht.reserve_visit hnew]
  refine (hx _ ht.motifStart).mono ?_ ?_
  · rintro o mid ⟨htidy, hgrows, hfilled⟩
    have hctx := ((Context.Grows.motifStart ctx n.id).trans hgrows).withScope ctx.scope
    exact ⟨htidy, hctx.fill _, hfilled.fill _⟩
  · rintro e mid ⟨htidy, hgrows⟩
    have hctx := (Context.Grows.motifStart ctx n.id).trans hgrows
    exact ⟨htidy, hctx.withScope ctx.scope⟩

/-- Every walk adds to a tidy context, also when it fails. -/
theorem closed_onlyAdds : Closed fun _ x => OnlyAdds x where
  pure _ ctx ht := .pure ⟨ht, .refl ctx, .of_macros_eq rfl⟩
  bind hx hf ctx ht := by
    refine .bind ((hx ctx ht).mono ?_ fun _ _ h => h)
    rintro a mid ⟨htidy, hgrows, hfilled⟩
    refine (hf a mid htidy).mono ?_ ?_
    · rintro _ _ ⟨htidy', hgrows', hfilled'⟩
      exact ⟨htidy', hgrows.trans hgrows', hfilled.trans hfilled'⟩
    · rintro _ _ ⟨htidy', hgrows'⟩
      exact ⟨htidy', hgrows.trans hgrows'⟩
  fault _ ctx ht := ⟨ht, .refl ctx⟩
  note d ctx ht := .note ⟨ht, .noteAll ctx [d], .of_macros_eq rfl⟩
  visit n ctx ht := by
    refine .visit (fun _ => ⟨ht, .refl ctx⟩) fun _ => ⟨?_, .visit ctx n.id, .of_macros_eq rfl⟩
    exact fun o ho => List.mem_append_left _ (ht o ho)
  inside tag hx ctx ht := by
    refine .inside ((hx (ctx.withScope (some tag)) ht).mono ?_ ?_)
    · rintro _ mid ⟨htidy, hgrows, hfilled⟩
      exact ⟨htidy, ⟨hgrows.diagnostics, hgrows.visited, hgrows.owners, hgrows.macros⟩, hfilled⟩
    · rintro _ mid ⟨htidy, hgrows⟩
      exact ⟨htidy, hgrows.diagnostics, hgrows.visited, hgrows.owners, hgrows.macros⟩
  resolving n hx ctx ht := by
    refine .resolving (fun _ => ⟨ht, .refl ctx⟩) fun _ => ?_
    refine (hx { ctx with resolving := ctx.resolving ++ [n.id] } ht).mono ?_ ?_
    · rintro _ mid ⟨htidy, hgrows, hfilled⟩
      exact ⟨htidy, ⟨hgrows.diagnostics, hgrows.visited, hgrows.owners, hgrows.macros⟩, hfilled⟩
    · rintro _ mid ⟨htidy, hgrows⟩
      exact ⟨htidy, hgrows.diagnostics, hgrows.visited, hgrows.owners, hgrows.macros⟩
  hoisting n hx ctx ht := by
    refine .bind (.visit (fun _ => ⟨ht, .refl ctx⟩) fun hnew => ?_)
    exact ensures_hoisting_onlyAdds hx ht hnew
  ofDraft d ctx ht := by
    refine .ofDraft (fun _ _ => ⟨ht, .noteAll ctx d.notes, .of_macros_eq rfl⟩) fun _ _ => ?_
    exact ⟨ht, .noteAll ctx d.notes⟩

/-! ## Calls -/

/-- A call on a context. -/
inductive Call where
  /-- Compiles the chain that starts at a node. -/
  | chain (id : String)
  /-- Resolves a value input of a node for a consumer. -/
  | value (n : Node) (slot : String) (consumer : Int)

/-- The context that a run leaves, whether it returns or fails. -/
def Gen.contextBehind {α : Type} (x : Gen α) (ctx : Context) : Context :=
  match x ctx with
  | .ok _ mid => mid
  | .error _ mid => mid

variable (c : Compiler) (g : Graph)

def Call.run : Call → Gen Unit
  | .chain id => do
    let _ ← c.compileChain g id
    pure ()
  | .value n slot consumer => do
    let _ ← c.resolveValue g n slot consumer
    pure ()

/-- The context behind a session of calls. -/
def contextBehindCalls (calls : List Call) : Context :=
  calls.foldl (fun ctx call => contextBehind (call.run c g) ctx) {}

variable {c g}

theorem Gen.Ensures.contextBehind {α : Type} {x : Gen α} {ctx : Context} {P : Context → Prop}
    {Q : α → Context → Prop} {E : Fault → Context → Prop} (h : Ensures x ctx Q E)
    (hQ : ∀ a mid, Q a mid → P mid) (hE : ∀ e mid, E e mid → P mid) : P (contextBehind x ctx) := by
  unfold Ensures at h
  unfold Gen.contextBehind
  cases hx : x ctx with
  | ok a mid =>
      rw [hx] at h
      exact hQ a mid h
  | error e mid =>
      rw [hx] at h
      exact hE e mid h

/-- A property of every walk is one of every call. -/
theorem Gen.Closed.call {P : ∀ ⦃α : Type⦄, Gen α → Prop} (h : Closed P) (call : Call) :
    P (call.run c g) := by
  cases call with
  | chain id =>
      refine h.bind ?_ fun _ => h.pure ()
      unfold compileChain
      cases g.node? id with
      | none => exact h.fault _
      | some first => exact h.chain allowance first
  | value n slot consumer =>
      refine h.bind ?_ fun _ => h.pure ()
      unfold resolveValue
      cases hb : c.registry.get? n.kind with
      | none =>
          rw [lookup_none hb]
          exact h.fault _
      | some b =>
          rw [lookup_some hb, pure_bind]
          split
          · exact h.pure _
          · exact h.bind (h.resolveInput (h.run _) n _) fun _ => h.pure _

/-- The context behind a session is tidy. -/
theorem tidy_contextBehindCalls (calls : List Call) : (c.contextBehindCalls g calls).Tidy := by
  have hstart : ∀ ctx : Context, ctx.Tidy →
      (calls.foldl (fun ctx call => contextBehind (call.run c g) ctx) ctx).Tidy := by
    induction calls with
    | nil => exact fun ctx ht => ht
    | cons call calls ih =>
        intro ctx ht
        apply ih
        exact (closed_onlyAdds.call call ctx ht).contextBehind (fun _ _ h => h.1) fun _ _ h => h.1
  exact hstart {} fun o ho => by cases ho

/-- A call at any point of a session, whether it returns or fails, leaves the scope and the stack as
they were and only adds to what was found, so that no macro of an earlier call is changed; and when it
returns, every macro that it reserved is filled. -/
theorem call_keeps_context (c : Compiler) (g : Graph) (earlier : List Call) (call : Call) :
    let ctx := c.contextBehindCalls g earlier
    Ensures (call.run c g) ctx
      (fun _ mid => ctx.Restored mid ∧ ctx.Grows mid ∧
        ∀ slot, ctx.macros.length ≤ slot → slot < mid.macros.length →
          ∃ text, mid.macros[slot]? = some (some text))
      (fun _ mid => ctx.Restored mid ∧ ctx.Grows mid) := by
  intro ctx
  have hrestored : Ensures (call.run c g) ctx (fun _ => ctx.Restored) (fun _ => ctx.Restored) :=
    closed_restored.call call ctx
  have hadds := closed_onlyAdds.call (c := c) (g := g) call ctx (tidy_contextBehindCalls earlier)
  refine (hrestored.and hadds).mono ?_ ?_
  · rintro _ mid ⟨hkept, -, hgrows, texts, hmacros⟩
    refine ⟨hkept, hgrows, fun slot hle hlt => ?_⟩
    rw [hmacros] at hlt ⊢
    rw [List.getElem?_append_right hle]
    have hslot : slot - ctx.macros.length < texts.length := by
      simp at hlt
      omega
    exact ⟨texts[slot - ctx.macros.length], by simp [hslot]⟩
  · rintro _ mid ⟨hkept, -, hgrows⟩
    exact ⟨hkept, hgrows⟩

end Compiler

end BlockMusic
