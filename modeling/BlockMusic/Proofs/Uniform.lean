import BlockMusic.Proofs.Frame
import Mathlib.Data.List.Basic

/-!
# Walks do not depend on what is behind them

The context of a walk holds what was found before: macros, diagnostics, visited nodes. A walk only adds
to these. Started from a context that has forgotten them it does the same and adds the same, with the
macros in earlier places; and what it does there it does from the full context too, as long as it
visits nothing that was visited before.
-/

namespace BlockMusic

namespace Context

/-- The context with nothing found yet, in the same scope and with the same nodes being resolved. -/
def bare (ctx : Context) : Context := { scope := ctx.scope, resolving := ctx.resolving }

/-- The context with what another one has found added behind its own. -/
def extend (ctx d : Context) : Context :=
  { ctx with
    macros := ctx.macros ++ d.macros
    diagnostics := ctx.diagnostics ++ d.diagnostics
    visited := ctx.visited ++ d.visited
    owners := ctx.owners ++ d.owners.map fun o => (o.1, ctx.macros.length + o.2) }

/-- Only visited nodes own macros. -/
def Tidy (ctx : Context) : Prop := ∀ o ∈ ctx.owners, o.1 ∈ ctx.visited

theorem tidy_bare (ctx : Context) : ctx.bare.Tidy := by
  intro o ho
  cases ho

@[simp] theorem bare_bare (ctx : Context) : ctx.bare.bare = ctx.bare := rfl

theorem bare_eq_of_restored {ctx mid : Context} (h : ctx.Restored mid) : mid.bare = ctx.bare := by
  rw [bare, bare, h.scope, h.resolving]

theorem extend_bare (ctx : Context) : ctx.extend ctx.bare = ctx := by
  simp [extend, bare]

theorem extend_assoc (ctx d e : Context) : (ctx.extend d).extend e = ctx.extend (d.extend e) := by
  simp [extend, List.append_assoc, Nat.add_assoc, Function.comp_def]

/-- A node that was not visited owns no macro. -/
theorem Tidy.lookup_eq_none {ctx : Context} (h : ctx.Tidy) {id : String} (hid : id ∉ ctx.visited) :
    ctx.owners.lookup id = none := by
  rw [List.lookup_eq_none_iff]
  intro o ho
  have hne : id ≠ o.1 := fun heq => hid (heq ▸ h o ho)
  simpa using hne

/-- What is noted of a motif in a scope. -/
def nestedNotes (scope : Option String) (id : String) : List Diagnostic :=
  scope.toList.map fun tag => .nestedMotif id tag

theorem reserve_of_lookup {ctx : Context} {id : String} (h : ctx.owners.lookup id = none) :
    ctx.reserve id = (ctx.macros.length, { ctx with
      macros := ctx.macros ++ [none], owners := ctx.owners ++ [(id, ctx.macros.length)] }) := by
  rw [reserve, h]

/-- A motif that owns no macro yet reserves the next one. -/
theorem beginMotif_of_lookup {ctx : Context} {id : String} (h : ctx.owners.lookup id = none) :
    ctx.beginMotif id = { ctx with
      scope := some Scope.motif.tag
      macros := ctx.macros ++ [none]
      diagnostics := ctx.diagnostics ++ nestedNotes ctx.scope id
      owners := ctx.owners ++ [(id, ctx.macros.length)] } := by
  rw [beginMotif]
  cases hs : ctx.scope with
  | none =>
      dsimp only
      rw [reserve_of_lookup h]
      simp [nestedNotes]
  | some tag =>
      have hnoted : (ctx.note (.nestedMotif id tag)).owners.lookup id = none := h
      dsimp only
      rw [reserve_of_lookup hnoted]
      simp [nestedNotes]

/-- The context in which a motif is written that was not visited before. -/
def motifStart (ctx : Context) (id : String) : Context :=
  { ctx with
    scope := some Scope.motif.tag
    macros := ctx.macros ++ [none]
    diagnostics := ctx.diagnostics ++ nestedNotes ctx.scope id
    visited := ctx.visited ++ [id]
    owners := ctx.owners ++ [(id, ctx.macros.length)] }

theorem Tidy.motifStart {ctx : Context} (h : ctx.Tidy) {id : String} : (ctx.motifStart id).Tidy := by
  intro o ho
  rcases List.mem_append.1 ho with ho | ho
  · exact List.mem_append_left _ (h o ho)
  · rw [List.mem_singleton.1 ho]
    exact List.mem_append_right _ List.mem_cons_self

/-- A motif that is visited for the first time is written in its own start context. -/
theorem Tidy.beginMotif_visit {ctx : Context} (h : ctx.Tidy) {id : String} (hnew : id ∉ ctx.visited) :
    beginMotif { ctx with visited := ctx.visited ++ [id] } id = ctx.motifStart id :=
  beginMotif_of_lookup (h.lookup_eq_none hnew)

/-- Its macro is the next one. -/
theorem Tidy.reserve_visit {ctx : Context} (h : ctx.Tidy) {id : String} (hnew : id ∉ ctx.visited) :
    (reserve { ctx with visited := ctx.visited ++ [id] } id).1 = ctx.macros.length := by
  have hlookup : ({ ctx with visited := ctx.visited ++ [id] } : Context).owners.lookup id = none :=
    h.lookup_eq_none hnew
  rw [reserve_of_lookup hlookup]

/-- The macro of a motif comes behind those of the context, as it comes first in the bare one. -/
theorem fill_motifStart (ctx d : Context) (id text : String) :
    (((ctx.motifStart id).extend d).withScope ctx.scope).fill ctx.macros.length text =
      ctx.extend ((((ctx.bare.motifStart id).extend d).withScope ctx.scope).fill 0 text) := by
  simp [Context.motifStart, extend, bare, Function.comp_def, Nat.add_assoc]

@[simp] theorem bare_extend (ctx d : Context) : (ctx.extend d).bare = ctx.bare := rfl

end Context

namespace Compiler

open Gen

/-- A new motif is visited and then hoisted. -/
theorem visit_hoisting_eq_ok {x : Gen Output} {n : NodeName} {ctx mid : Context} {s : String}
    (ht : ctx.Tidy) :
    (Gen.change (fun ctx => ctx.visit n) >>= fun _ => Gen.hoisting n.id x) ctx = .ok s mid ↔
      n.id ∉ ctx.visited ∧ s = "" ∧ ∃ o mid', x (ctx.motifStart n.id) = .ok o mid' ∧
        mid = (mid'.withScope ctx.scope).fill ctx.macros.length (o.statement ++ "\n") := by
  rw [bind_eq_ok]
  constructor
  · rintro ⟨u, entered, hvisit, hrest⟩
    obtain ⟨hnew, rfl⟩ := change_visit_eq_ok.1 hvisit
    obtain ⟨hs, o, mid', hmid', hmid⟩ := hoisting_eq_ok.1 hrest
    rw [ht.beginMotif_visit hnew] at hmid'
    rw [ht.reserve_visit hnew] at hmid
    exact ⟨hnew, hs, o, mid', hmid', hmid⟩
  · rintro ⟨hnew, hs, o, mid', hmid', hmid⟩
    refine ⟨(), _, change_visit_eq_ok.2 ⟨hnew, rfl⟩, hoisting_eq_ok.2 ⟨hs, o, mid', ?_, ?_⟩⟩
    · rw [ht.beginMotif_visit hnew]
      exact hmid'
    · rw [ht.reserve_visit hnew]
      exact hmid

/-- The walk does from any context what it does from the bare one, unless it comes to a node that was
visited before. -/
structure Gen.Uniform {α : Type} (x : Gen α) : Prop where
  tidy : ∀ {ctx a mid}, ctx.Tidy → x ctx = .ok a mid → mid.Tidy
  ok_iff : ∀ {ctx a mid}, ctx.Tidy →
    (x ctx = .ok a mid ↔
      ∃ d, x ctx.bare = .ok a d ∧ ctx.visited.Disjoint d.visited ∧ mid = ctx.extend d)

namespace Gen.Uniform

variable {α β : Type} {x : Gen α} {f : α → Gen β}

theorem pure (a : α) : Uniform (Pure.pure a : Gen α) where
  tidy := by
    intro ctx a' mid ht h
    cases h
    exact ht
  ok_iff := by
    intro ctx a' mid _
    constructor
    · intro h
      cases h
      exact ⟨ctx.bare, rfl, by simp [Context.bare], ctx.extend_bare.symm⟩
    · rintro ⟨d, h, -, rfl⟩
      cases h
      rw [ctx.extend_bare]
      rfl

/-- What the second walk adds from the bare context it adds behind the first one. -/
theorem bind (hrestored : ∀ ctx, Ensures x ctx (fun _ => ctx.Restored) (fun _ => ctx.Restored))
    (hx : Uniform x) (hf : ∀ a, Uniform (f a)) : Uniform (x >>= f) where
  tidy := by
    intro ctx b mid ht h
    obtain ⟨a, mid', hmid', hrest⟩ := bind_eq_ok.1 h
    exact (hf a).tidy (hx.tidy ht hmid') hrest
  ok_iff := by
    intro ctx b mid ht
    -- the bare contexts before and behind the first walk are the same
    have hsame : ∀ a d, x ctx.bare = .ok a d → d.Tidy ∧ d.bare = ctx.bare := fun a d hd =>
      ⟨hx.tidy ctx.tidy_bare hd,
        (Context.bare_eq_of_restored ((hrestored ctx.bare).result hd)).trans ctx.bare_bare⟩
    constructor
    · intro h
      obtain ⟨a, mid', hmid', hrest⟩ := bind_eq_ok.1 h
      have ht' := hx.tidy ht hmid'
      obtain ⟨d, hd, hdisjoint, rfl⟩ := (hx.ok_iff ht).1 hmid'
      obtain ⟨d', hd', hdisjoint', rfl⟩ := ((hf a).ok_iff ht').1 hrest
      obtain ⟨htd, hbare⟩ := hsame a d hd
      obtain ⟨hctx, hdd⟩ := List.disjoint_append_left.1 hdisjoint'
      rw [Context.bare_extend, ← hbare] at hd'
      refine ⟨d.extend d', ?_, List.disjoint_append_right.2 ⟨hdisjoint, hctx⟩, ctx.extend_assoc d d'⟩
      exact bind_eq_ok.2 ⟨a, d, hd, ((hf a).ok_iff htd).2 ⟨d', hd', hdd, rfl⟩⟩
    · rintro ⟨D, hD, hdisjoint, rfl⟩
      obtain ⟨a, d, hd, hrest⟩ := bind_eq_ok.1 hD
      obtain ⟨htd, hbare⟩ := hsame a d hd
      obtain ⟨d', hd', hdd, rfl⟩ := ((hf a).ok_iff htd).1 hrest
      obtain ⟨hctx, hctx'⟩ := List.disjoint_append_right.1 hdisjoint
      have hmid' := (hx.ok_iff ht).2 ⟨d, hd, hctx, rfl⟩
      refine bind_eq_ok.2 ⟨a, ctx.extend d, hmid', ((hf a).ok_iff (hx.tidy ht hmid')).2 ⟨d', ?_, ?_, ?_⟩⟩
      · rw [Context.bare_extend, ← hbare]
        exact hd'
      · exact List.disjoint_append_left.2 ⟨hctx', hdd⟩
      · exact (ctx.extend_assoc d d').symm

/-- A walk that always fails. -/
theorem failing {y : Gen α} (h : ∀ ctx, ∃ e mid, y ctx = .error e mid) : Uniform y where
  tidy := by
    intro ctx a mid _ hy
    obtain ⟨e, mid', he⟩ := h ctx
    rw [he] at hy
    cases hy
  ok_iff := by
    intro ctx a mid _
    constructor
    · intro hy
      obtain ⟨e, mid', he⟩ := h ctx
      rw [he] at hy
      cases hy
    · rintro ⟨d, hy, -, -⟩
      obtain ⟨e, mid', he⟩ := h ctx.bare
      rw [he] at hy
      cases hy

/-- A walk that only takes notes. -/
theorem noteAll {y : Gen α} {a : α} {ds : List Diagnostic} (h : ∀ ctx, y ctx = .ok a (ctx.noteAll ds)) :
    Uniform y where
  tidy := by
    intro ctx a' mid ht hy
    rw [h] at hy
    cases hy
    exact ht
  ok_iff := by
    intro ctx a' mid _
    rw [h, h]
    constructor
    · intro hy
      cases hy
      exact ⟨ctx.bare.noteAll ds, rfl, by simp [Context.bare, Context.noteAll],
        by simp [Context.bare, Context.noteAll, Context.extend]⟩
    · rintro ⟨d, hd, -, rfl⟩
      cases hd
      simp [Context.bare, Context.noteAll, Context.extend]

theorem note (d : Diagnostic) : Uniform (Gen.note d) := noteAll fun _ => rfl

theorem ofDraft (d : Draft α) : Uniform (Gen.ofDraft d) := by
  cases h : d.outcome with
  | ok a => exact noteAll fun ctx => by rw [Gen.ofDraft, h]
  | error e => exact failing fun ctx => ⟨e, ctx.noteAll d.notes, by rw [Gen.ofDraft, h]⟩

theorem visit (n : NodeName) : Uniform (Gen.change fun ctx => ctx.visit n) where
  tidy := by
    intro ctx u mid ht h
    obtain ⟨-, rfl⟩ := change_visit_eq_ok.1 h
    exact fun o ho => List.mem_append_left _ (ht o ho)
  ok_iff := by
    intro ctx u mid _
    rw [change_visit_eq_ok]
    constructor
    · rintro ⟨hnew, rfl⟩
      refine ⟨{ ctx.bare with visited := [n.id] }, change_visit_eq_ok.2 ⟨?_, rfl⟩, ?_, ?_⟩
      · exact List.not_mem_nil
      · simpa using hnew
      · simp [Context.extend, Context.bare]
    · rintro ⟨d, hd, hdisjoint, rfl⟩
      obtain ⟨-, rfl⟩ := change_visit_eq_ok.1 hd
      refine ⟨?_, ?_⟩
      · simpa [Context.bare] using hdisjoint
      · simp [Context.extend, Context.bare]

theorem inside (tag : String) (hx : Uniform x) : Uniform (Gen.inside tag x) where
  tidy := by
    intro ctx a mid ht h
    obtain ⟨mid', hmid', rfl⟩ := inside_eq_ok.1 h
    have ht' : (ctx.withScope (some tag)).Tidy := ht
    have htidy : mid'.Tidy := hx.tidy ht' hmid'
    exact htidy
  ok_iff := by
    intro ctx a mid ht
    have ht' : (ctx.withScope (some tag)).Tidy := ht
    rw [inside_eq_ok]
    constructor
    · rintro ⟨mid', hmid', rfl⟩
      obtain ⟨d, hd, hdisjoint, rfl⟩ := (hx.ok_iff ht').1 hmid'
      exact ⟨d.withScope ctx.scope, inside_eq_ok.2 ⟨d, hd, rfl⟩, hdisjoint, rfl⟩
    · rintro ⟨D, hD, hdisjoint, rfl⟩
      obtain ⟨d, hd, rfl⟩ := inside_eq_ok.1 hD
      exact ⟨(ctx.withScope (some tag)).extend d, (hx.ok_iff ht').2 ⟨d, hd, hdisjoint, rfl⟩, rfl⟩

theorem resolving (n : NodeName) (hx : Uniform x) : Uniform (Gen.resolving n x) where
  tidy := by
    intro ctx a mid ht h
    obtain ⟨-, mid', hmid', rfl⟩ := resolving_eq_ok.1 h
    have ht' : ({ ctx with resolving := ctx.resolving ++ [n.id] } : Context).Tidy := ht
    have htidy : mid'.Tidy := hx.tidy ht' hmid'
    exact htidy
  ok_iff := by
    intro ctx a mid ht
    have ht' : ({ ctx with resolving := ctx.resolving ++ [n.id] } : Context).Tidy := ht
    have hpop : ∀ d : Context, (({ ctx with resolving := ctx.resolving ++ [n.id] } : Context).extend
        d).leaveNode = ctx.extend d.leaveNode := by
      intro d
      simp [Context.extend]
    rw [resolving_eq_ok]
    constructor
    · rintro ⟨hnew, mid', hmid', rfl⟩
      obtain ⟨d, hd, hdisjoint, rfl⟩ := (hx.ok_iff ht').1 hmid'
      exact ⟨d.leaveNode, resolving_eq_ok.2 ⟨hnew, d, hd, rfl⟩, hdisjoint, hpop d⟩
    · rintro ⟨D, hD, hdisjoint, rfl⟩
      obtain ⟨hnew, d, hd, rfl⟩ := resolving_eq_ok.1 hD
      exact ⟨hnew, _, (hx.ok_iff ht').2 ⟨d, hd, hdisjoint, rfl⟩, (hpop d).symm⟩

theorem hoisting {x : Gen Output} (n : NodeName) (hx : Uniform x) :
    Uniform (Gen.change (fun ctx => ctx.visit n) >>= fun _ => Gen.hoisting n.id x) where
  tidy := by
    intro ctx s mid ht h
    obtain ⟨-, -, o, mid', hmid', rfl⟩ := (visit_hoisting_eq_ok ht).1 h
    have htidy : mid'.Tidy := hx.tidy ht.motifStart hmid'
    exact htidy
  ok_iff := by
    intro ctx s mid ht
    have htbare : (ctx.bare.motifStart n.id).Tidy := ctx.tidy_bare.motifStart
    have hvisited : ctx.visited.Disjoint (ctx.bare.motifStart n.id).visited ↔ n.id ∉ ctx.visited := by
      simp [Context.motifStart, Context.bare]
    rw [visit_hoisting_eq_ok ht]
    constructor
    · rintro ⟨hnew, hs, o, mid', hmid', rfl⟩
      obtain ⟨d, hd, hdisjoint, rfl⟩ := (hx.ok_iff ht.motifStart).1 hmid'
      obtain ⟨hctx, hid⟩ := List.disjoint_append_left.1 hdisjoint
      have hrun := (hx.ok_iff htbare).2 ⟨d, hd, hid, rfl⟩
      refine ⟨_, (visit_hoisting_eq_ok ctx.tidy_bare).2 ⟨List.not_mem_nil, hs, o, _, hrun, rfl⟩, ?_, ?_⟩
      · exact List.disjoint_append_right.2 ⟨hvisited.2 hnew, hctx⟩
      · exact ctx.fill_motifStart d n.id _
    · rintro ⟨D, hD, hdisjoint, rfl⟩
      obtain ⟨-, hs, o, mid', hmid', rfl⟩ := (visit_hoisting_eq_ok ctx.tidy_bare).1 hD
      obtain ⟨d, hd, hid, rfl⟩ := (hx.ok_iff htbare).1 hmid'
      obtain ⟨hnew, hctx⟩ := List.disjoint_append_right.1 hdisjoint
      refine ⟨hvisited.1 hnew, hs, o, (ctx.motifStart n.id).extend d, ?_, ?_⟩
      · exact (hx.ok_iff ht.motifStart).2 ⟨d, hd, List.disjoint_append_left.2 ⟨hctx, hid⟩, rfl⟩
      · exact (ctx.fill_motifStart d n.id _).symm

/-- The operations of a walk are uniform. -/
theorem closed : Closed fun _ x =>
    (∀ ctx, Ensures x ctx (fun _ => ctx.Restored) (fun _ => ctx.Restored)) ∧ Uniform x where
  pure a := ⟨closed_restored.pure a, pure a⟩
  bind hx hf := ⟨closed_restored.bind hx.1 fun a => (hf a).1, bind hx.1 hx.2 fun a => (hf a).2⟩
  fault e := ⟨closed_restored.fault e, failing fun ctx => ⟨e, ctx, rfl⟩⟩
  note d := ⟨closed_restored.note d, note d⟩
  visit n := ⟨closed_restored.visit n, visit n⟩
  inside tag hx := ⟨closed_restored.inside tag hx.1, inside tag hx.2⟩
  resolving n hx := ⟨closed_restored.resolving n hx.1, resolving n hx.2⟩
  hoisting n hx := ⟨closed_restored.hoisting n hx.1, hoisting n hx.2⟩
  ofDraft d := ⟨closed_restored.ofDraft d, ofDraft d⟩

end Gen.Uniform

end Compiler

end BlockMusic
