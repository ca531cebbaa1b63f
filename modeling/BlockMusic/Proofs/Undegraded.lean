import BlockMusic.Proofs.History
import BlockMusic.Proofs.Intact
import BlockMusic.Proofs.Workspace

/-!
# Compilations without diagnostics

A compilation that notes nothing has left nothing out. Every writer found the required inputs of its
node, a choice that its block knows in every dropdown of the node, and a number where it reads one;
every node of a chain was a statement, and no motif stood inside a scope. So the program consists of
sentences in which no argument and no operand is missing.

To speak of all arguments that writers are given on the way, the compiler is compared with one whose
writers refuse what they do not like.
-/

namespace BlockMusic

open Script

namespace Compiler

/-! ## Walks that note nothing -/

/-- Notes of the first walk are never taken back. Under the assumption, where it notes nothing in the
scope and ends with a result, the second walk does the same; the result satisfies `Q`, the scope is left
as it was, and the macros filled on the way are definitions. -/
structure Gen.Unmarred {α : Type} (unit : String) (scope : Option String) (assumption : Prop)
    (x x' : Gen α) (Q : α → Prop) : Prop where
  lasting : ∀ ctx a mid, x ctx = .ok a mid → mid.diagnostics = [] → ctx.diagnostics = []
  same : assumption → ∀ ctx a mid, ctx.scope = scope → x ctx = .ok a mid → mid.diagnostics = [] →
    x' ctx = .ok a mid ∧ Q a ∧ mid.scope = scope ∧
      ∀ text, some text ∈ mid.macros → some text ∈ ctx.macros ∨ Definition unit text

namespace Gen.Unmarred

variable {α β : Type} {unit : String} {scope : Option String} {P P' : Prop} {x x' : Gen α}
  {f f' : α → Gen β} {Q Q' : α → Prop} {R : β → Prop}

theorem mono (h : Unmarred unit scope P x x' Q) (hP : P' → P) (hQ : ∀ a, P' → Q a → Q' a) :
    Unmarred unit scope P' x x' Q' where
  lasting := h.lasting
  same hp ctx a mid hscope hx hquiet := by
    obtain ⟨hx', hq, hrest⟩ := h.same (hP hp) ctx a mid hscope hx hquiet
    exact ⟨hx', hQ a hp hq, hrest⟩

theorem pure {a : α} (h : P → Q a) : Unmarred unit scope P (Pure.pure a) (Pure.pure a) Q where
  lasting ctx b mid hx hquiet := by
    cases hx
    exact hquiet
  same hp ctx b mid hscope hx _ := by
    cases hx
    exact ⟨rfl, h hp, hscope, fun _ => .inl⟩

theorem fault (e : Fault) : Unmarred unit scope P (throw e : Gen α) (throw e) Q where
  lasting ctx b mid hx := by cases hx
  same _ ctx b mid _ hx := by cases hx

theorem note (d : Diagnostic) :
    Unmarred unit scope P (Gen.note d) (Gen.note d) fun _ => False where
  lasting ctx b mid hx hquiet := by
    cases hx
    simp at hquiet
  same _ ctx b mid _ hx hquiet := by
    cases hx
    simp at hquiet

theorem bind (hx : Unmarred unit scope P x x' Q)
    (hf : ∀ a, Unmarred unit scope (P ∧ Q a) (f a) (f' a) R) :
    Unmarred unit scope P (x >>= f) (x' >>= f') R where
  lasting ctx b mid h hquiet := by
    obtain ⟨a, mid', ha, hb⟩ := bind_eq_ok.1 h
    exact hx.lasting _ _ _ ha ((hf a).lasting _ _ _ hb hquiet)
  same hp ctx b mid hscope h hquiet := by
    obtain ⟨a, mid', ha, hb⟩ := bind_eq_ok.1 h
    have hquiet' := (hf a).lasting _ _ _ hb hquiet
    obtain ⟨ha', hq, hscope', hmacros'⟩ := hx.same hp _ _ _ hscope ha hquiet'
    obtain ⟨hb', hr, hscope'', hmacros⟩ := (hf a).same ⟨hp, hq⟩ _ _ _ hscope' hb hquiet
    refine ⟨bind_eq_ok.2 ⟨a, mid', ha', hb'⟩, hr, hscope'', fun text htext => ?_⟩
    rcases hmacros text htext with htext | hdef
    · exact hmacros' text htext
    · exact .inr hdef

theorem noteIf (b : Bool) (d : Diagnostic) :
    Unmarred unit scope P (Gen.noteIf b d) (Gen.noteIf b d) fun _ => b = false := by
  cases b with
  | true => exact (note d).mono id fun _ _ h => h.elim
  | false => exact .pure fun _ => rfl

theorem visit (n : NodeName) : Unmarred unit scope P (Gen.change fun ctx => ctx.visit n)
    (Gen.change fun ctx => ctx.visit n) fun _ => True where
  lasting ctx b mid hx hquiet := by
    obtain ⟨-, rfl⟩ := change_visit_eq_ok.1 hx
    exact hquiet
  same _ ctx b mid hscope hx _ := by
    obtain ⟨hnew, rfl⟩ := change_visit_eq_ok.1 hx
    exact ⟨hx, trivial, hscope, fun _ => .inl⟩

theorem inside {tag : String} (h : Unmarred unit (some tag) P x x' Q) :
    Unmarred unit scope P (Gen.inside tag x) (Gen.inside tag x') Q where
  lasting ctx b mid hinside hquiet := by
    obtain ⟨mid', hx, rfl⟩ := inside_eq_ok.1 hinside
    exact h.lasting (ctx.withScope (some tag)) b mid' hx hquiet
  same hp ctx b mid hscope hinside hquiet := by
    obtain ⟨mid', hx, rfl⟩ := inside_eq_ok.1 hinside
    obtain ⟨hx', hq, -, hmacros⟩ := h.same hp _ b mid' rfl hx hquiet
    exact ⟨inside_eq_ok.2 ⟨mid', hx', rfl⟩, hq, hscope, hmacros⟩

theorem resolving {n : NodeName} (h : Unmarred unit scope P x x' Q) :
    Unmarred unit scope P (Gen.resolving n x) (Gen.resolving n x') Q where
  lasting ctx b mid hresolving hquiet := by
    obtain ⟨-, mid', hx, rfl⟩ := resolving_eq_ok.1 hresolving
    exact h.lasting { ctx with resolving := ctx.resolving ++ [n.id] } b mid' hx hquiet
  same hp ctx b mid hscope hresolving hquiet := by
    obtain ⟨hnew, mid', hx, rfl⟩ := resolving_eq_ok.1 hresolving
    obtain ⟨hx', hq, hscope', hmacros⟩ :=
      h.same hp { ctx with resolving := ctx.resolving ++ [n.id] } b mid' hscope hx hquiet
    exact ⟨resolving_eq_ok.2 ⟨hnew, mid', hx', rfl⟩, hq, hscope', hmacros⟩

end Gen.Unmarred

end Compiler

namespace Context

variable {ctx : Context} {id text : String}

theorem beginMotif_diagnostics (h : (ctx.beginMotif id).diagnostics = []) :
    ctx.diagnostics = [] ∧ ctx.scope = none := by
  have hreserve : ∀ c : Context, (c.reserve id).2.diagnostics = c.diagnostics := by
    intro c
    unfold reserve
    split <;> rfl
  unfold beginMotif at h
  cases hscope : ctx.scope with
  | none =>
      simp only [hscope, withScope, hreserve] at h
      exact ⟨h, rfl⟩
  | some tag => simp [hscope, hreserve] at h

theorem mem_beginMotif_macros (h : some text ∈ (ctx.beginMotif id).macros) : some text ∈ ctx.macros := by
  have hreserve : ∀ c : Context, some text ∈ (c.reserve id).2.macros → some text ∈ c.macros := by
    intro c
    unfold reserve
    split <;> simp
  have hnoted := hreserve _ h
  cases hscope : ctx.scope with
  | none => simpa [hscope] using hnoted
  | some tag => simpa [hscope] using hnoted

end Context

namespace Compiler

namespace Gen.Unmarred

variable {unit : String} {scope : Option String} {P : Prop} {x x' : Gen Output} {Q : Output → Prop}

/-- A motif that is noted nowhere stands in no scope, and its macro is a definition. -/
theorem hoisting {id : String} (h : Unmarred unit (some Scope.motif.tag) P x x' Q)
    (hdef : ∀ o, P → Q o → Definition unit (o.statement ++ "\n")) :
    Unmarred unit scope P (Gen.hoisting id x) (Gen.hoisting id x')
      fun s => s = "" ∧ scope = none ∧ ∃ o, Q o where
  lasting ctx b mid hhoisting hquiet := by
    obtain ⟨-, o, mid', hx, rfl⟩ := hoisting_eq_ok.1 hhoisting
    exact (Context.beginMotif_diagnostics (h.lasting _ o mid' hx hquiet)).1
  same hp ctx b mid hscope hhoisting hquiet := by
    obtain ⟨rfl, o, mid', hx, rfl⟩ := hoisting_eq_ok.1 hhoisting
    obtain ⟨-, hnone⟩ := Context.beginMotif_diagnostics (h.lasting _ o mid' hx hquiet)
    obtain ⟨hx', hq, -, hmacros⟩ := h.same hp _ o mid' rfl hx hquiet
    refine ⟨hoisting_eq_ok.2 ⟨rfl, o, mid', hx', rfl⟩, ⟨rfl, hscope.symm.trans hnone, o, hq⟩, hscope,
      fun text htext => ?_⟩
    rcases List.mem_or_eq_of_mem_set htext with hold | hnew
    · exact (hmacros text hold).imp_left Context.mem_beginMotif_macros
    · cases hnew
      exact .inr (hdef o hp hq)

theorem ofDraft {α : Type} {Q : α → Prop} {d d' : Draft α}
    (h : P → ∀ a, d.notes = [] → d.outcome = .ok a → d' = d ∧ Q a) :
    Unmarred unit scope P (Gen.ofDraft d) (Gen.ofDraft d') Q where
  lasting ctx b mid hx hquiet := by
    obtain ⟨-, rfl⟩ := ofDraft_eq_ok.1 hx
    exact (List.append_eq_nil_iff.1 hquiet).1
  same hp ctx b mid hscope hx hquiet := by
    obtain ⟨hok, rfl⟩ := ofDraft_eq_ok.1 hx
    obtain ⟨rfl, hq⟩ := h hp b (List.append_eq_nil_iff.1 hquiet).2 hok
    exact ⟨hx, hq, hscope, fun _ => .inl⟩

end Gen.Unmarred

/-! ## Chains of statements -/

open Gen

section

variable (unit : String) (g : Graph)

/-- The node is no motif. -/
def NoMotif (m : Node) : Prop := ∀ b, (Registry.builtin []).get? m.kind = some b → b.scope ≠ .motif

/-- The node stands well in a chain: it is a statement, no motif if the chain is in a scope, and has no
motif inside if it is a scope itself. -/
structure InPlace (nested : Bool) (m : Node) (b : Block) : Prop where
  block : (Registry.builtin []).get? m.kind = some b
  statement : b.isStatement = true
  outside : nested = true → b.scope ≠ .motif
  inside : b.definesScope = true → ∀ e ∈ bodyEdges m b.bodies, ∀ m',
    (builtin unit).ChainNode g e.2 m' → NoMotif m'

/-- All nodes of the chain stand well in it. -/
def WellPlaced (nested : Bool) (start : String) : Prop :=
  ∀ m, (builtin unit).ChainNode g start m → ∃ b, InPlace unit g nested m b

end

variable {unit : String} {refusal : Fault} {g : Graph} {n : Node} {b : Block} {scope : Option String}
  {P : Prop} {r r' values values' bodies bodies' : Level}

/-- The first step into a chain. -/
theorem ChainNode.head {c : Compiler} {root : String} {m : Node} (h : c.ChainNode g root m)
    (hn : g.node? root = some n) : m = n ∨ ∃ e ∈ c.chainEdges n, c.ChainNode g e.2 m := by
  induction h with
  | root hnode => exact .inl (Option.some.inj (hnode.symm.trans hn))
  | @edge n' m slot id _ hedge hnode ih =>
      rcases ih with rfl | ⟨e, he, hchain⟩
      · exact .inr ⟨(slot, id), hedge, .root hnode⟩
      · exact .inr ⟨e, he, .edge hchain hedge hnode⟩

/-- A chain that is in order inside a scope is in order outside as well. -/
theorem WellPlaced.mono {start : String} (h : WellPlaced unit g true start) (nested : Bool) :
    WellPlaced unit g nested start := by
  intro m hm
  obtain ⟨b, hb⟩ := h m hm
  exact ⟨b, hb.block, hb.statement, fun _ => hb.outside rfl, hb.inside⟩

section Writing

variable {a : Arguments} {nested : Bool} {o : Output} (hblock : a.block ∈ Catalogue.blocks)
  (hvalues : ∀ i ∈ a.block.inputs, ∃ t, (a.fragment i.name).Holds t ∧ (i.required = true → t ≠ none))
include hvalues

include hblock

variable (hnotes : ((builtin unit).writer a.block.kind a).notes = [])
  (hok : ((builtin unit).writer a.block.kind a).outcome = .ok o)
include hnotes hok

end Writing

end Compiler

end BlockMusic
