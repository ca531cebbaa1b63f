import BlockMusic.Compile.Program
import Mathlib.Data.List.Nodup
import Mathlib.Order.Lattice

/-!
# Runs of a compiler

A run ends with a result or with a fault, and leaves a context either way. `Ensures x ctx Q E` says
that the run of `x` from `ctx` ends with a result and a context that satisfy `Q`, or with a fault and
a context that satisfy `E`. There is one rule for each step of the walk, and a rule with an invariant
for each of its loops, so that what is proved about a walk never unfolds it again.

The walk runs on an allowance. The levels inside a level are those of the smaller allowances, or the
level beyond all of them, which is all that an induction over the nesting needs to know.
-/

namespace BlockMusic

/-- In a list with distinct keys every element is found under its key. -/
theorem find?_of_nodup_map {α : Type} {key : α → String} {l : List α} (h : (l.map key).Nodup) {a : α}
    (ha : a ∈ l) : l.find? (fun x => key x = key a) = some a := by
  cases hf : l.find? fun x => key x = key a with
  | none =>
      rw [List.find?_eq_none] at hf
      exact absurd (hf a ha) (by simp)
  | some x =>
      have hkey : key x = key a := by simpa using List.find?_some hf
      exact congrArg some (List.inj_on_of_nodup_map h (List.mem_of_find?_eq_some hf) ha hkey)

/-- Sorting by a key puts the keys in order. -/
theorem pairwise_mergeSort_le {α κ : Type} [LinearOrder κ] {before : α → α → Bool} (key : α → κ)
    {as : List α} (hbefore : ∀ a ∈ as, ∀ b ∈ as, before a b = true ↔ key a ≤ key b) :
    (as.mergeSort before).Pairwise fun a b => key a ≤ key b := by
  have hkeys : (as.mergeSort before).map key = (as.map key).mergeSort fun x y => decide (x ≤ y) :=
    List.map_mergeSort fun a ha b hb => by
      rw [Bool.eq_iff_iff, hbefore a ha b hb, decide_eq_true_iff]
  have htrans : ∀ x y z : κ, decide (x ≤ y) = true → decide (y ≤ z) = true → decide (x ≤ z) = true := by
    simp only [decide_eq_true_iff]
    exact fun x y z => le_trans
  have htotal : ∀ x y : κ, (decide (x ≤ y) || decide (y ≤ x)) = true := by
    simp only [Bool.or_eq_true, decide_eq_true_iff]
    exact le_total
  have hsorted := List.pairwise_mergeSort htrans htotal (as.map key)
  rw [← hkeys, List.pairwise_map] at hsorted
  exact hsorted.imp fun {a b} h => of_decide_eq_true h

namespace Graph

theorem mem_of_node? {g : Graph} {id : String} {n : Node} (h : g.node? id = some n) :
    n ∈ g.nodes :=
  List.mem_of_find?_eq_some h

theorem id_of_node? {g : Graph} {id : String} {n : Node} (h : g.node? id = some n) :
    n.id = id := by
  simpa using List.find?_some h

theorem node?_id {g : Graph} (hg : (g.nodes.map Node.id).Nodup) {n : Node} (hn : n ∈ g.nodes) :
    g.node? n.id = some n :=
  find?_of_nodup_map hg hn

end Graph

theorem Node.mem_inputs {n : Node} {slot : String} {binding : Binding}
    (h : n.input? slot = some binding) : (slot, binding) ∈ n.inputs := by
  obtain ⟨l₁, l₂, hinputs, -⟩ := List.lookup_eq_some_iff.1 h
  rw [hinputs]
  exact List.mem_append_right l₁ List.mem_cons_self

namespace Registry

theorem mem_of_get? {r : Registry} {kind : String} {b : Block} (h : r.get? kind = some b) :
    b ∈ r.blocks :=
  List.mem_of_find?_eq_some h

theorem kind_of_get? {r : Registry} {kind : String} {b : Block} (h : r.get? kind = some b) :
    b.kind = kind := by
  simpa using List.find?_some h

end Registry

namespace Context

/-- The context in which a motif is written: a motif inside a scope is noted, its macro is reserved,
and the scope is that of the motif. -/
def beginMotif (ctx : Context) (id : String) : Context :=
  let noted := match ctx.scope with
    | some tag => ctx.note (.nestedMotif id tag)
    | none => ctx
  (noted.reserve id).2.withScope (some Scope.motif.tag)

@[simp] theorem reserve_scope (ctx : Context) (id : String) : (ctx.reserve id).2.scope = ctx.scope := by
  unfold reserve
  split <;> rfl

end Context

namespace Compiler

namespace Gen

variable {α β : Type}

/-- The run of `x` from `ctx` ends with a result and a context that satisfy `Q`, or with a fault and a
context that satisfy `E`. -/
def Ensures (x : Gen α) (ctx : Context) (Q : α → Context → Prop) (E : Fault → Context → Prop) :
    Prop :=
  match x ctx with
  | .ok a ctx' => Q a ctx'
  | .error e ctx' => E e ctx'

theorem bind_apply (x : Gen α) (f : α → Gen β) (ctx : Context) :
    (x >>= f) ctx =
      match x ctx with
      | .ok a ctx' => f a ctx'
      | .error e ctx' => .error e ctx' := by
  change EStateM.bind x f ctx = _
  unfold EStateM.bind
  cases x ctx with
  | ok a mid => rfl
  | error e mid => rfl

@[simp] theorem pure_apply (a : α) (ctx : Context) : (pure a : Gen α) ctx = .ok a ctx := rfl

theorem bind_eq_ok {x : Gen α} {f : α → Gen β} {ctx ctx' : Context} {b : β} :
    (x >>= f) ctx = .ok b ctx' ↔ ∃ a mid, x ctx = .ok a mid ∧ f a mid = .ok b ctx' := by
  rw [bind_apply]
  cases x ctx with
  | ok a mid =>
      constructor
      · intro h
        exact ⟨a, mid, rfl, h⟩
      · rintro ⟨a', mid', h, hf⟩
        cases h
        exact hf
  | error e mid => simp

/-- Writes a motif: its text is put in the macro reserved for it, and nothing is left in its place. -/
def hoisting (id : String) (x : Gen Output) : Gen String := fun ctx =>
  match x (ctx.beginMotif id) with
  | .ok o mid => .ok "" ((mid.withScope ctx.scope).fill (ctx.reserve id).1 (o.statement ++ "\n"))
  | .error e mid => .error e (mid.withScope ctx.scope)

@[simp] theorem change_visit_eq_ok {n : NodeName} {ctx mid : Context} {u : Unit} :
    change (fun ctx => ctx.visit n) ctx = .ok u mid ↔
      n.id ∉ ctx.visited ∧ mid = { ctx with visited := ctx.visited ++ [n.id] } := by
  by_cases h : n.id ∈ ctx.visited
  · simp [change, Context.visit, h]
  · simp [change, Context.visit, h, eq_comm]

@[simp] theorem inside_eq_ok {x : Gen α} {tag : String} {ctx mid : Context} {a : α} :
    inside tag x ctx = .ok a mid ↔
      ∃ mid', x (ctx.withScope (some tag)) = .ok a mid' ∧ mid = mid'.withScope ctx.scope := by
  unfold inside
  cases x (ctx.withScope (some tag)) with
  | ok a' mid' => simp [eq_comm]
  | error e mid' => simp

@[simp] theorem resolving_eq_ok {x : Gen α} {n : NodeName} {ctx mid : Context} {a : α} :
    resolving n x ctx = .ok a mid ↔
      n.id ∉ ctx.resolving ∧ ∃ mid', x { ctx with resolving := ctx.resolving ++ [n.id] } = .ok a mid' ∧
        mid = mid'.leaveNode := by
  by_cases h : n.id ∈ ctx.resolving
  · simp [resolving, Context.enterNode, h]
  · simp only [resolving, Context.enterNode, if_neg h]
    cases x { ctx with resolving := ctx.resolving ++ [n.id] } with
    | ok a' mid' => simp [h, eq_comm]
    | error e mid' => simp

@[simp] theorem hoisting_eq_ok {x : Gen Output} {id s : String} {ctx mid : Context} :
    hoisting id x ctx = .ok s mid ↔ s = "" ∧ ∃ o mid', x (ctx.beginMotif id) = .ok o mid' ∧
      mid = (mid'.withScope ctx.scope).fill (ctx.reserve id).1 (o.statement ++ "\n") := by
  unfold hoisting
  cases x (ctx.beginMotif id) with
  | ok o mid' => simp [eq_comm]
  | error e mid' => simp

@[simp] theorem ofDraft_eq_ok {d : Draft α} {ctx mid : Context} {a : α} :
    ofDraft d ctx = .ok a mid ↔ d.outcome = .ok a ∧ mid = ctx.noteAll d.notes := by
  unfold ofDraft
  cases d.outcome with
  | ok a' => simp [eq_comm]
  | error e => simp

namespace Ensures

variable {x : Gen α} {f : α → Gen β} {ctx ctx' : Context} {a : α} {e : Fault}
  {Q Q' : α → Context → Prop} {R : β → Context → Prop} {E E' : Fault → Context → Prop}

theorem result (h : Ensures x ctx Q E) (hx : x ctx = .ok a ctx') : Q a ctx' := by
  simpa only [Ensures, hx] using h

theorem fault (h : Ensures x ctx Q E) (hx : x ctx = .error e ctx') : E e ctx' := by
  simpa only [Ensures, hx] using h

theorem of_forall (hQ : ∀ a ctx', x ctx = .ok a ctx' → Q a ctx')
    (hE : ∀ e ctx', x ctx = .error e ctx' → E e ctx') : Ensures x ctx Q E := by
  unfold Ensures
  cases h : x ctx with
  | ok a ctx' => exact hQ a ctx' h
  | error e ctx' => exact hE e ctx' h

theorem mono (h : Ensures x ctx Q E) (hQ : ∀ a ctx', Q a ctx' → Q' a ctx')
    (hE : ∀ e ctx', E e ctx' → E' e ctx') : Ensures x ctx Q' E' :=
  of_forall (fun a ctx' hx => hQ a ctx' (h.result hx)) (fun e ctx' hx => hE e ctx' (h.fault hx))

theorem and (h : Ensures x ctx Q E) (h' : Ensures x ctx Q' E') :
    Ensures x ctx (fun a mid => Q a mid ∧ Q' a mid) (fun e mid => E e mid ∧ E' e mid) :=
  of_forall (fun _ _ hx => ⟨h.result hx, h'.result hx⟩) fun _ _ hx => ⟨h.fault hx, h'.fault hx⟩

theorem pure (h : Q a ctx) : Ensures (Pure.pure a) ctx Q E := h

theorem bind (h : Ensures x ctx (fun a mid => Ensures (f a) mid R E) E) :
    Ensures (x >>= f) ctx R E := by
  unfold Ensures at h ⊢
  rw [bind_apply]
  cases hx : x ctx with
  | ok a mid => simpa only [hx] using h
  | error e mid => simpa only [hx] using h

theorem note {d : Diagnostic} {Q : Unit → Context → Prop} (h : Q () (ctx.note d)) :
    Ensures (Gen.note d) ctx Q E := h

theorem noteIf {b : Bool} {d : Diagnostic} {Q : Unit → Context → Prop}
    (h : Q () (if b then ctx.note d else ctx)) : Ensures (Gen.noteIf b d) ctx Q E := by
  cases b with
  | true => exact h
  | false => exact h

theorem stop {err : CompileError} (h : E (.compile err) ctx) : Ensures (Gen.stop err) ctx Q E := h

theorem inside {tag : String}
    (h : Ensures x (ctx.withScope (some tag)) (fun a mid => Q a (mid.withScope ctx.scope))
      (fun e mid => E e (mid.withScope ctx.scope))) :
    Ensures (Gen.inside tag x) ctx Q E := by
  unfold Ensures at h ⊢
  unfold Gen.inside
  cases hx : x (ctx.withScope (some tag)) with
  | ok a mid => simpa only [hx] using h
  | error e mid => simpa only [hx] using h

/-- A resolution is refused when the node is being resolved already, and ends with the node taken off
the stack otherwise. -/
theorem resolving {n : NodeName}
    (hseen : n.id ∈ ctx.resolving →
      E (.compile (.cyclicValue (some n.id) (some n.kind) ctx.resolving)) ctx)
    (hnew : n.id ∉ ctx.resolving →
      Ensures x { ctx with resolving := ctx.resolving ++ [n.id] }
        (fun a mid => Q a mid.leaveNode) (fun e mid => E e mid.leaveNode)) :
    Ensures (Gen.resolving n x) ctx Q E := by
  by_cases h : n.id ∈ ctx.resolving
  · simpa [Ensures, Gen.resolving, Context.enterNode, h] using hseen h
  · have hrun := hnew h
    unfold Ensures at hrun ⊢
    simp only [Gen.resolving, Context.enterNode, if_neg h]
    cases hx : x { ctx with resolving := ctx.resolving ++ [n.id] } with
    | ok a mid => simpa only [hx] using hrun
    | error e mid => simpa only [hx] using hrun

theorem visit {n : NodeName} {Q : Unit → Context → Prop}
    (hseen : n.id ∈ ctx.visited → E (.compile (.cyclicChain (some n.id) (some n.kind))) ctx)
    (hnew : n.id ∉ ctx.visited → Q () { ctx with visited := ctx.visited ++ [n.id] }) :
    Ensures (Gen.change fun ctx => ctx.visit n) ctx Q E := by
  by_cases h : n.id ∈ ctx.visited
  · simpa [Ensures, Gen.change, Context.visit, h] using hseen h
  · simpa [Ensures, Gen.change, Context.visit, h] using hnew h

theorem hoisting {x : Gen Output} {id : String} {Q : String → Context → Prop}
    (h : Ensures x (ctx.beginMotif id)
      (fun o mid => Q "" ((mid.withScope ctx.scope).fill (ctx.reserve id).1 (o.statement ++ "\n")))
      (fun e mid => E e (mid.withScope ctx.scope))) :
    Ensures (Gen.hoisting id x) ctx Q E := by
  unfold Ensures at h ⊢
  unfold Gen.hoisting
  cases hx : x (ctx.beginMotif id) with
  | ok o mid => simpa only [hx] using h
  | error e mid => simpa only [hx] using h

theorem ofDraft {d : Draft α} (hok : ∀ a, d.outcome = .ok a → Q a (ctx.noteAll d.notes))
    (hbad : ∀ e, d.outcome = .error e → E e (ctx.noteAll d.notes)) :
    Ensures (Gen.ofDraft d) ctx Q E := by
  unfold Ensures Gen.ofDraft
  cases h : d.outcome with
  | ok a => exact hok a h
  | error e => exact hbad e h

end Ensures

end Gen

open Gen

variable {c : Compiler} {g : Graph} {r values bodies : Level} {n : Node} {b : Block}
  {ctx : Context} {E : Fault → Context → Prop}

theorem lookup_some (h : c.registry.get? n.kind = some b) : c.lookup n = pure b := by
  rw [lookup, h]

theorem lookup_none (h : c.registry.get? n.kind = none) :
    c.lookup n = Gen.stop (.unknownKind (some n.id) (some n.kind)) := by
  rw [lookup, h]

theorem ensures_lookup {Q : Block → Context → Prop}
    (hsome : ∀ b, c.registry.get? n.kind = some b → Q b ctx)
    (hnone : c.registry.get? n.kind = none →
      E (.compile (.unknownKind (some n.id) (some n.kind))) ctx) :
    Ensures (c.lookup n) ctx Q E := by
  cases h : c.registry.get? n.kind with
  | none => rw [lookup_none h]; exact .stop (hnone h)
  | some b => rw [lookup_some h]; exact .pure (hsome b h)

theorem ensures_literalFragment {l : Literal} {Q : Fragment → Context → Prop}
    (hok : ∀ s, l.script = .ok s → Q (.atom s) ctx)
    (hbad : ∀ e, l.script = .error e → E (.render e) ctx) :
    Ensures (literalFragment l) ctx Q E := by
  unfold literalFragment
  cases h : l.script with
  | ok s => exact hok s h
  | error e => exact hbad e h

/-- The ways in which a value input is resolved. -/
theorem ensures_resolveInput {i : ValueInput} {Q : Fragment → Context → Prop}
    (habsent : n.input? i.name = none → i.default = none →
      Q .empty (if i.required then ctx.note (.unboundInput n.name i.name) else ctx))
    (hdefault : ∀ l, n.input? i.name = none → i.default = some l →
      Ensures (literalFragment l) ctx Q E)
    (hliteral : ∀ l, n.input? i.name = some (.literal l) → Ensures (literalFragment l) ctx Q E)
    (hdangling : ∀ id, n.input? i.name = some (.node id) → g.node? id = none →
      E (.compile (.danglingReference id (some n.id) (some n.kind) (.input i.name))) ctx)
    (hunknown : ∀ id child, n.input? i.name = some (.node id) → g.node? id = some child →
      c.registry.get? child.kind = none →
      E (.compile (.unknownKind (some child.id) (some child.kind))) ctx)
    (hstatement : ∀ id child b, n.input? i.name = some (.node id) → g.node? id = some child →
      c.registry.get? child.kind = some b → b.producesValue = false →
      Q .empty (ctx.note (.statementAsValue n.name i.name child.name)))
    (hvalue : ∀ id child b, n.input? i.name = some (.node id) → g.node? id = some child →
      c.registry.get? child.kind = some b → b.producesValue = true →
      Ensures (Gen.resolving child.name (r child b)) ctx (fun o mid => Q (o.value b) mid) E) :
    Ensures (c.resolveInput g r n i) ctx Q E := by
  unfold resolveInput
  cases hin : n.input? i.name with
  | none =>
      cases hdef : i.default with
      | none => exact .bind (.noteIf (.pure (habsent hin hdef)))
      | some l => exact hdefault l hin hdef
  | some binding =>
      cases binding with
      | literal l => exact hliteral l hin
      | node id =>
          dsimp only
          cases hnode : g.node? id with
          | none => exact .stop (hdangling id hin hnode)
          | some child =>
              refine .bind (ensures_lookup ?_ (hunknown id child hin hnode))
              intro b hb
              cases hv : b.producesValue with
              | true => exact .bind (hvalue id child b hin hnode hb hv)
              | false => exact .bind (.note (.pure (hstatement id child b hin hnode hb hv)))

/-- The loop over the value inputs, with an invariant of what is left and what is done. -/
theorem ensures_resolveInputs (I : List ValueInput → List (String × Fragment) → Context → Prop)
    {is : List ValueInput} {done : List (String × Fragment)} (hinit : I is done ctx)
    (hstep : ∀ i rest done mid, i ∈ is → I (i :: rest) done mid →
      Ensures (c.resolveInput g r n i) mid (fun f mid' => I rest ((i.name, f) :: done) mid') E) :
    Ensures (c.resolveInputs g r n done is) ctx (I []) E := by
  induction is generalizing done ctx with
  | nil => exact .pure hinit
  | cons i is ih =>
      refine .bind ((hstep i is done ctx (by simp) hinit).mono ?_ fun _ _ h => h)
      intro f mid hmid
      exact ih hmid fun j rest done mid hj => hstep j rest done mid (List.mem_cons_of_mem i hj)

/-- The ways in which a body is compiled. -/
theorem ensures_compileBody {i : BodyInput} {Q : String → Context → Prop}
    (hempty : n.body? i.name = none →
      Q "" (if i.required then ctx.note (.emptyBody n.name i.name) else ctx))
    (hdangling : ∀ id, n.body? i.name = some id → g.node? id = none →
      E (.compile (.danglingReference id (some n.id) (some n.kind) (.body i.name))) ctx)
    (hchain : ∀ id first, n.body? i.name = some id → g.node? id = some first →
      Ensures (c.chain g r first) ctx Q E) :
    Ensures (c.compileBody g r n i) ctx Q E := by
  unfold compileBody
  cases hbody : n.body? i.name with
  | none => exact .bind (.noteIf (.pure (hempty hbody)))
  | some id =>
      dsimp only
      cases hnode : g.node? id with
      | none => exact .stop (hdangling id hbody hnode)
      | some first => exact hchain id first hbody hnode

/-- The loop over the bodies, with an invariant of what is left and what is done. -/
theorem ensures_compileBodies (I : List BodyInput → List (String × String) → Context → Prop)
    {is : List BodyInput} {done : List (String × String)} (hinit : I is done ctx)
    (hstep : ∀ i rest done mid, i ∈ is → I (i :: rest) done mid →
      Ensures (c.compileBody g r n i) mid (fun s mid' => I rest ((i.name, s) :: done) mid') E) :
    Ensures (c.compileBodies g r n done is) ctx (I []) E := by
  induction is generalizing done ctx with
  | nil => exact .pure hinit
  | cons i is ih =>
      refine .bind ((hstep i is done ctx (by simp) hinit).mono ?_ fun _ _ h => h)
      intro s mid hmid
      exact ih hmid fun j rest done mid hj => hstep j rest done mid (List.mem_cons_of_mem i hj)

/-- The loop over the chains of a workspace, with an invariant of what is left. -/
theorem ensures_compileHeads (I : List Node → Context → Prop) {hs : List Node} (hinit : I hs ctx)
    (hstep : ∀ h rest mid, h ∈ hs → I (h :: rest) mid →
      Ensures (c.chain g (c.run g allowance) h) mid (fun _ mid' => I rest mid') E) :
    Ensures (c.compileHeads g hs) ctx (fun _ mid => I [] mid) E := by
  induction hs generalizing ctx with
  | nil => exact .pure hinit
  | cons h hs ih =>
      refine .bind ((hstep h hs ctx (by simp) hinit).mono (fun _ mid hmid => ?_) fun _ _ he => he)
      have hrest := ih hmid fun h' rest mid hh' => hstep h' rest mid (List.mem_cons_of_mem h hh')
      exact .bind (hrest.mono (fun _ _ hend => .pure hend) fun _ _ he => he)

theorem statement_motif (h : b.scope = .motif) : statement r n b = Gen.hoisting n.id (r n b) := by
  funext ctx
  have hslot : ∀ d, ((ctx.note d).reserve n.id).1 = (ctx.reserve n.id).1 := by
    intro d
    simp only [Context.reserve, Context.note]
    split <;> rfl
  rw [statement, if_pos h, h, bind_apply, Gen.hoisting]
  change (match ctx.scope with
    | some tag => (Gen.note (.nestedMotif n.id tag) >>= fun _ => _ : Gen String)
    | none => _) ctx = _
  cases hs : ctx.scope with
  | none =>
      have hbegin : ctx.beginMotif n.id = (ctx.reserve n.id).2.withScope (some Scope.motif.tag) := by
        rw [Context.beginMotif, hs]
      simp only [bind_apply, Gen.reserve, Gen.inside, Context.reserve_scope, hs, hbegin]
      cases r n b ((ctx.reserve n.id).2.withScope (some Scope.motif.tag)) with
      | ok o mid => rfl
      | error e mid => rfl
  | some tag =>
      have hnote : (Gen.note (.nestedMotif n.id tag)) ctx =
          .ok () (ctx.note (.nestedMotif n.id tag)) := rfl
      have hbegin : ctx.beginMotif n.id = ((ctx.note (.nestedMotif n.id tag)).reserve n.id).2.withScope
          (some Scope.motif.tag) := by
        rw [Context.beginMotif, hs]
      have hs' : (ctx.note (.nestedMotif n.id tag)).scope = some tag := hs
      simp only [bind_apply, hnote, Gen.reserve, Gen.inside, Context.reserve_scope, hslot, hs',
        hbegin]
      cases r n b (((ctx.note (.nestedMotif n.id tag)).reserve n.id).2.withScope
          (some Scope.motif.tag)) with
      | ok o mid => rfl
      | error e mid => rfl

theorem statement_scope (h : b.scope ≠ .motif) (hs : b.definesScope = true) :
    statement r n b =
      Gen.inside b.scope.tag (r n b) >>= fun output => pure output.statement := by
  rw [statement, if_neg h, if_pos hs]

theorem statement_plain (h : b.scope ≠ .motif) (hs : ¬ b.definesScope = true) :
    statement r n b = r n b >>= fun output => pure output.statement := by
  rw [statement, if_neg h, if_neg hs]

/-- A statement leaves the scope as it was; a motif also fills the macro that it reserved. -/
theorem ensures_statement {Q : String → Context → Prop}
    (hmotif : b.scope = .motif →
      Ensures (r n b) (ctx.beginMotif n.id)
        (fun o mid =>
          Q "" ((mid.withScope ctx.scope).fill (ctx.reserve n.id).1 (o.statement ++ "\n")))
        (fun e mid => E e (mid.withScope ctx.scope)))
    (hscope : b.scope ≠ .motif → b.definesScope = true →
      Ensures (r n b) (ctx.withScope (some b.scope.tag))
        (fun o mid => Q o.statement (mid.withScope ctx.scope))
        (fun e mid => E e (mid.withScope ctx.scope)))
    (hplain : b.scope ≠ .motif → ¬ b.definesScope = true →
      Ensures (r n b) ctx (fun o mid => Q o.statement mid) E) :
    Ensures (statement r n b) ctx Q E := by
  by_cases h : b.scope = .motif
  · rw [statement_motif h]
    exact .hoisting (hmotif h)
  · by_cases hs : b.definesScope = true
    · rw [statement_scope h hs]
      exact .bind (.inside (hscope h hs))
    · rw [statement_plain h hs]
      exact .bind (hplain h hs)

/-- What a node of a chain leaves there: the text of a statement, and nothing for a value. -/
def entry (r : Level) (n : Node) (b : Block) : Gen String :=
  if b.isStatement then statement r n b else do
    Gen.note (.valueInChain n.name)
    pure ""

theorem entry_statement (h : b.isStatement = true) : entry r n b = statement r n b := by
  rw [entry, if_pos h]

theorem entry_value (h : b.isStatement = false) :
    entry r n b = Gen.note (.valueInChain n.name) >>= fun _ => pure "" := by
  rw [entry, if_neg (by simp [h])]

theorem ensures_entry {Q : String → Context → Prop}
    (hstatement : b.isStatement = true → Ensures (statement r n b) ctx Q E)
    (hvalue : b.isStatement = false → Q "" (ctx.note (.valueInChain n.name))) :
    Ensures (entry r n b) ctx Q E := by
  cases h : b.isStatement with
  | true =>
      rw [entry_statement h]
      exact hstatement h
  | false =>
      rw [entry_value h]
      exact .bind (.note (.pure (hvalue h)))

/-- A chain behind a node whose text is known. -/
def follow (c : Compiler) (g : Graph) (r : Level) (more : Nat) (n : Node) (text : String) :
    Gen String :=
  match n.next with
  | none => pure (terminated text)
  | some id =>
    match g.node? id with
    | none => .stop (.danglingReference id (some n.id) (some n.kind) .next)
    | some following => do
      let rest ← c.chainFrom g r more following
      pure (terminated text ++ rest)

/-- One step along a chain: the node is visited and entered, and the chain goes on behind it. -/
theorem chainFrom_succ (more : Nat) :
    c.chainFrom g r (more + 1) n =
      c.lookup n >>= fun b =>
        Gen.change (fun ctx => ctx.visit n.name) >>= fun _ =>
          entry r n b >>= fun text => c.follow g r more n text := by
  rw [chainFrom]
  congr 1
  funext b
  congr 1
  funext u
  unfold entry
  cases b.isStatement with
  | true => rfl
  | false => rfl

theorem ensures_follow {more : Nat} {text : String} {Q : String → Context → Prop}
    (hnone : n.next = none → Q (terminated text) ctx)
    (hdangling : ∀ id, n.next = some id → g.node? id = none →
      E (.compile (.danglingReference id (some n.id) (some n.kind) .next)) ctx)
    (hnext : ∀ id following, n.next = some id → g.node? id = some following →
      Ensures (c.chainFrom g r more following) ctx
        (fun rest mid => Q (terminated text ++ rest) mid) E) :
    Ensures (c.follow g r more n text) ctx Q E := by
  unfold follow
  cases hn : n.next with
  | none => exact .pure (hnone hn)
  | some id =>
      dsimp only
      cases hg : g.node? id with
      | none => exact .stop (hdangling id hn hg)
      | some following => exact .bind (hnext id following hn hg)

theorem ensures_chainFrom_succ {more : Nat} {Q : String → Context → Prop}
    (hunknown : c.registry.get? n.kind = none →
      E (.compile (.unknownKind (some n.id) (some n.kind))) ctx)
    (hseen : n.id ∈ ctx.visited → E (.compile (.cyclicChain (some n.id) (some n.kind))) ctx)
    (hentry : ∀ b, c.registry.get? n.kind = some b → n.id ∉ ctx.visited →
      Ensures (entry r n b) { ctx with visited := ctx.visited ++ [n.id] }
        (fun text mid => Ensures (c.follow g r more n text) mid Q E) E) :
    Ensures (c.chainFrom g r (more + 1) n) ctx Q E := by
  rw [chainFrom_succ]
  refine .bind (ensures_lookup ?_ hunknown)
  intro b hb
  exact .bind (.visit hseen fun hnew => .bind (hentry b hb hnew))

/-- The arguments that a level hands to the writer of its block. -/
def arguments (c : Compiler) (n : Node) (b : Block) (fragments : List (String × Fragment))
    (texts : List (String × String)) : Arguments :=
  { node := n, block := b, indentUnit := c.indentUnit, values := fragments, bodies := texts }

theorem ensures_level {Q : Output → Context → Prop}
    (h : Ensures (c.resolveInputs g values n [] b.inputs) ctx
      (fun fragments mid => Ensures (c.compileBodies g bodies n [] b.bodies) mid
        (fun texts mid' =>
          Ensures (Gen.ofDraft (c.writer b.kind (c.arguments n b fragments texts))) mid' Q E) E) E) :
    Ensures (c.level g values bodies n b) ctx Q E :=
  .bind (h.mono (fun _ _ hb => .bind hb) fun _ _ he => he)

/-- The level for what costs `cost` inside a level with allowance `k`. -/
def within (c : Compiler) (g : Graph) (k cost : Nat) : Level :=
  if cost ≤ k then c.run g (k - cost) else beyond

/-- Values are written by the level that costs three, bodies by the one that costs four. -/
theorem run_eq (c : Compiler) (g : Graph) :
    ∀ k, c.run g k = c.level g (c.within g k 3) (c.within g k 4)
  | 0 => rfl
  | 1 => rfl
  | 2 => rfl
  | 3 => rfl
  | k + 4 => by
      have h3 : c.within g (k + 4) 3 = c.run g (k + 1) := by
        rw [within, if_pos (by omega), show k + 4 - 3 = k + 1 by omega]
      have h4 : c.within g (k + 4) 4 = c.run g k := by
        rw [within, if_pos (by omega), show k + 4 - 4 = k by omega]
      rw [h3, h4, run]

/-- What holds of two levels beyond the allowance, and of two levels whenever it holds of those inside,
holds of the runs of two compilers over two graphs. -/
theorem run_induction₂ (c c' : Compiler) (g g' : Graph) {P : Level → Level → Prop}
    (hbeyond : P beyond beyond)
    (hlevel : ∀ k, P (c.within g k 3) (c'.within g' k 3) → P (c.within g k 4) (c'.within g' k 4) →
      P (c.run g k) (c'.run g' k)) (k : Nat) :
    P (c.run g k) (c'.run g' k) := by
  induction k using Nat.strongRecOn with
  | ind k ih =>
      have hwithin : ∀ cost, 0 < cost → P (c.within g k cost) (c'.within g' k cost) := by
        intro cost hcost
        unfold within
        split
        · exact ih (k - cost) (by omega)
        · exact hbeyond
      exact hlevel k (hwithin 3 (by omega)) (hwithin 4 (by omega))

/-- What holds beyond the allowance, and of a level whenever it holds of those inside, holds of every
run. -/
theorem run_induction {P : Level → Prop} (hbeyond : P beyond)
    (hlevel : ∀ k, P (c.within g k 3) → P (c.within g k 4) → P (c.run g k)) (k : Nat) :
    P (c.run g k) :=
  run_induction₂ c c g g (P := fun r _ => P r) hbeyond hlevel k

theorem ensures_beyond {Q : Output → Context → Prop} (h : E .tooDeep ctx) :
    Ensures (beyond n b) ctx Q E := h

/-- A fault as a compilation reports it. -/
def reported : Fault → Fault
  | .tooDeep => .compile .tooDeep
  | fault => fault

theorem outcome_of_ok {root : Option String} {body : String} {ctx : Context}
    (h : c.compileBodyText g root {} = .ok body ctx) :
    (c.compile g root).outcome = .ok ⟨ctx.hoisted, body, ctx.diagnostics⟩ := by
  rw [compile, h]

theorem outcome_of_error {root : Option String} {fault : Fault} {ctx : Context}
    (h : c.compileBodyText g root {} = .error fault ctx) :
    (c.compile g root).outcome = .error (reported fault) := by
  rw [compile, h]
  cases fault with
  | compile e => rfl
  | tooDeep => rfl
  | render e => rfl
  | unknownOperator token => rfl

theorem outcome_eq_ok {root : Option String} {p : Program} :
    (c.compile g root).outcome = .ok p ↔ ∃ body ctx,
      c.compileBodyText g root {} = .ok body ctx ∧ p = ⟨ctx.hoisted, body, ctx.diagnostics⟩ := by
  cases h : c.compileBodyText g root {} with
  | ok body ctx =>
      rw [outcome_of_ok h]
      constructor
      · intro hp
        cases hp
        exact ⟨body, ctx, rfl, rfl⟩
      · rintro ⟨body', ctx', hrun, rfl⟩
        cases hrun
        rfl
  | error fault ctx => simp [outcome_of_error h]

end Compiler

end BlockMusic
