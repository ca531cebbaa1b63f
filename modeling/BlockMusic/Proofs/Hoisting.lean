import BlockMusic.Proofs.Workspace
import Mathlib.Data.List.Forall2

/-!
# Motifs are hoisted in the order of their visits

A motif reserves a macro when it is entered and fills it when its text is written, so the motifs inside
it reserve later macros and fill them earlier. Behind a walk that succeeds the macros are in the order
of the visits all the same, one for each motif visited and none of them open, and each has the text that
its own writer produced.
-/

namespace BlockMusic

namespace Context

/-- Nodes were visited once, and each macro has an owner among them. -/
structure Orderly (ctx : Context) : Prop where
  tidy : ctx.Tidy
  nodup : ctx.visited.Nodup
  length : ctx.macros.length = ctx.owners.length

theorem orderly_empty : ({} : Context).Orderly where
  tidy := by
    intro o ho
    cases ho
  nodup := List.nodup_nil
  length := rfl

theorem Orderly.visit {ctx : Context} (h : ctx.Orderly) {id : String} (hnew : id ∉ ctx.visited) :
    ({ ctx with visited := ctx.visited ++ [id] } : Context).Orderly where
  tidy := fun o ho => List.mem_append_left _ (h.tidy o ho)
  nodup := List.nodup_append.2 ⟨h.nodup, List.nodup_singleton id, by
    rintro a ha b hb rfl
    exact hnew (List.mem_singleton.1 hb ▸ ha)⟩
  length := h.length

theorem Orderly.motifStart {ctx : Context} (h : ctx.Orderly) {id : String} (hnew : id ∉ ctx.visited) :
    (ctx.motifStart id).Orderly where
  tidy := h.tidy.motifStart
  nodup := (h.visit hnew).nodup
  length := by simp [Context.motifStart, h.length]

/-- Only the visits and the macros matter. -/
theorem Orderly.of_eq {ctx ctx' : Context} (h : ctx.Orderly) (hvisited : ctx'.visited = ctx.visited)
    (hlength : ctx'.macros.length = ctx.macros.length) (howners : ctx'.owners = ctx.owners) :
    ctx'.Orderly where
  tidy := by
    rw [Tidy, howners, hvisited]
    exact h.tidy
  nodup := hvisited ▸ h.nodup
  length := by rw [hlength, howners, h.length]

/-- The macros with a text, when all of them have one. -/
theorem hoisted_of_macros {ctx : Context} {texts : List String} (h : ctx.macros = texts.map some)
    (hne : ∀ t ∈ texts, t ≠ "") : ctx.hoisted = texts := by
  rw [hoisted, h, List.filterMap_map]
  calc
    _ = texts.filterMap some := List.filterMap_congr fun t ht => if_neg (hne t ht)
    _ = texts := List.filterMap_some

end Context

namespace Compiler

open Gen

variable {α β : Type} {c : Compiler} {g : Graph}

/-- The walk keeps the context orderly. -/
def Gen.Orders (x : Gen α) : Prop :=
  ∀ ⦃ctx a mid⦄, ctx.Orderly → x ctx = .ok a mid → mid.Orderly

theorem closed_orders : Closed fun _ x => Orders x where
  pure a ctx a' mid hctx h := by
    cases h
    exact hctx
  bind hx hf ctx b mid hctx h := by
    obtain ⟨a, mid', hmid', hrest⟩ := bind_eq_ok.1 h
    exact hf a (hx hctx hmid') hrest
  fault e ctx a mid _ h := by cases h
  note d ctx u mid hctx h := by
    cases h
    exact hctx.of_eq rfl rfl rfl
  visit n ctx u mid hctx h := by
    obtain ⟨hnew, rfl⟩ := change_visit_eq_ok.1 h
    exact hctx.visit hnew
  inside tag hx ctx a mid hctx h := by
    obtain ⟨mid', hmid', rfl⟩ := inside_eq_ok.1 h
    have hin : (ctx.withScope (some tag)).Orderly := hctx.of_eq rfl rfl rfl
    exact (hx hin hmid').of_eq rfl rfl rfl
  resolving n hx ctx a mid hctx h := by
    obtain ⟨-, mid', hmid', rfl⟩ := resolving_eq_ok.1 h
    have hin : ({ ctx with resolving := ctx.resolving ++ [n.id] } : Context).Orderly :=
      hctx.of_eq rfl rfl rfl
    exact (hx hin hmid').of_eq rfl rfl rfl
  hoisting n hx ctx s mid hctx h := by
    obtain ⟨hnew, -, o, mid', hmid', rfl⟩ := (visit_hoisting_eq_ok hctx.tidy).1 h
    have hmid := hx (hctx.motifStart hnew) hmid'
    exact hmid.of_eq rfl (by simp) rfl
  ofDraft d ctx a mid hctx h := by
    obtain ⟨-, rfl⟩ := ofDraft_eq_ok.1 h
    exact hctx.of_eq rfl rfl rfl

/-! ## The macros behind a walk -/

/-- The node is a motif: a statement whose scope is that of a motif. -/
def isMotif (c : Compiler) (g : Graph) (id : String) : Bool :=
  ((g.node? id).bind fun n => c.registry.get? n.kind).any fun b => b.isStatement && b.scope = .motif

theorem isMotif_eq {n : Node} {b : Block} (hn : g.node? n.id = some n)
    (hb : c.registry.get? n.kind = some b) :
    c.isMotif g n.id = (b.isStatement && b.scope = .motif) := by
  simp [isMotif, hn, hb]

/-- The text is the one that the node's own writer produced, and a newline. It was written in the scope
of a motif, from the moment the node was visited on, and what was visited meanwhile comes right behind
the node. -/
def OwnText (c : Compiler) (g : Graph) (visited : List String) (id text : String) : Prop :=
  ∃ n b k ctx o mid, g.node? id = some n ∧ c.registry.get? n.kind = some b ∧
    ctx.scope = some Scope.motif.tag ∧ ctx.visited.getLast? = some id ∧
    c.run g k n b ctx = .ok o mid ∧ ctx.visited <+: mid.visited ∧ mid.visited <+: visited ∧
    text = o.statement ++ "\n"

theorem OwnText.mono {visited visited' : List String} {id text : String} (h : visited <+: visited')
    (hown : c.OwnText g visited id text) : c.OwnText g visited' id text := by
  obtain ⟨n, b, k, ctx, o, mid, hn, hb, hscope, hlast, hrun, hmid, hvisited, htext⟩ := hown
  exact ⟨n, b, k, ctx, o, mid, hn, hb, hscope, hlast, hrun, hmid, hvisited.trans h, htext⟩

theorem ne_empty_of_ownText {visited ids texts : List String}
    (hown : List.Forall₂ (c.OwnText g visited) ids texts) : ∀ t ∈ texts, t ≠ "" := by
  induction hown with
  | nil => simp
  | cons ht _ ih =>
      obtain ⟨-, -, -, -, o, -, -, -, -, -, -, -, -, rfl⟩ := ht
      exact List.forall_mem_cons.2 ⟨by simp, ih⟩

/-- Between two contexts the nodes `ids` were visited, and the motifs among them own the new macros,
which have the texts `texts`. -/
structure HoistedBetween (c : Compiler) (g : Graph) (ctx mid : Context) (ids texts : List String) :
    Prop where
  visited : mid.visited = ctx.visited ++ ids
  macros : mid.macros = ctx.macros ++ texts.map some
  owners : mid.owners.map Prod.fst = ctx.owners.map Prod.fst ++ ids.filter (c.isMotif g)
  own : List.Forall₂ (c.OwnText g mid.visited) (ids.filter (c.isMotif g)) texts

namespace HoistedBetween

variable {ctx mid mid' : Context} {ids ids' texts texts' : List String}

theorem of_eq (hvisited : mid.visited = ctx.visited) (hmacros : mid.macros = ctx.macros)
    (howners : mid.owners = ctx.owners) : c.HoistedBetween g ctx mid [] [] where
  visited := by simp [hvisited]
  macros := by simp [hmacros]
  owners := by simp [howners]
  own := .nil

theorem trans (h : c.HoistedBetween g ctx mid ids texts) (h' : c.HoistedBetween g mid mid' ids' texts') :
    c.HoistedBetween g ctx mid' (ids ++ ids') (texts ++ texts') where
  visited := by rw [h'.visited, h.visited, List.append_assoc]
  macros := by rw [h'.macros, h.macros, List.map_append, List.append_assoc]
  owners := by rw [h'.owners, h.owners, List.filter_append, List.append_assoc]
  own := by
    have hvisited : mid.visited <+: mid'.visited := ⟨ids', h'.visited.symm⟩
    rw [List.filter_append]
    exact List.rel_append (h.own.imp fun _ _ ht => ht.mono hvisited) h'.own

/-- A visit of a node that is no motif. -/
theorem visit {id : String} (hid : c.isMotif g id = false) :
    c.HoistedBetween g ctx { ctx with visited := ctx.visited ++ [id] } [id] [] where
  visited := rfl
  macros := by simp
  owners := by simp [hid]
  own := by simp [hid]

/-- A motif comes before all that is visited while it is written, and its macro before theirs. -/
theorem hoist {id text : String} {scope : Option String} (hid : c.isMotif g id = true)
    (h : c.HoistedBetween g (ctx.motifStart id) mid ids texts)
    (hown : c.OwnText g mid.visited id text) :
    c.HoistedBetween g ctx ((mid.withScope scope).fill ctx.macros.length text) (id :: ids)
      (text :: texts) where
  visited := by
    have hvisited : mid.visited = ctx.visited ++ [id] ++ ids := h.visited
    simpa using hvisited
  macros := by
    have hmacros : mid.macros = ctx.macros ++ [none] ++ texts.map some := h.macros
    simp [hmacros]
  owners := by
    have howners : mid.owners.map Prod.fst = _ := h.owners
    simpa [Context.motifStart, hid] using howners
  own := by
    rw [List.filter_cons_of_pos hid]
    exact .cons hown h.own

end HoistedBetween

/-- The walk keeps the context orderly and hoists the motifs that it visits. -/
structure Hoists (c : Compiler) (g : Graph) (x : Gen α) : Prop where
  orders : Orders x
  between : ∀ ⦃ctx a mid⦄, ctx.Orderly → x ctx = .ok a mid →
    ∃ ids texts, c.HoistedBetween g ctx mid ids texts

/-- What the level inside an allowance writes is written by a run. -/
theorem exists_run_of_within {k cost : Nat} {n : Node} {b : Block} {ctx mid : Context} {o : Output}
    (h : c.within g k cost n b ctx = .ok o mid) : ∃ k', c.run g k' n b ctx = .ok o mid := by
  unfold within at h
  split at h
  · exact ⟨k - cost, h⟩
  · cases h

theorem node?_id_of_node? {id : String} {n : Node} (h : g.node? id = some n) :
    g.node? n.id = some n := by
  rw [Graph.id_of_node? h, h]

namespace Hoists

variable {x : Gen α} {f : α → Gen β} {r values bodies : Level} {n : Node} {b : Block}

theorem bind_of_ok (hx : c.Hoists g x)
    (hf : ∀ ctx a mid, x ctx = .ok a mid → c.Hoists g (f a)) : c.Hoists g (x >>= f) where
  orders := by
    intro ctx b mid hctx h
    obtain ⟨a, mid', hmid', hrest⟩ := bind_eq_ok.1 h
    exact (hf ctx a mid' hmid').orders (hx.orders hctx hmid') hrest
  between := by
    intro ctx b mid hctx h
    obtain ⟨a, mid', hmid', hrest⟩ := bind_eq_ok.1 h
    obtain ⟨ids, texts, hfirst⟩ := hx.between hctx hmid'
    obtain ⟨ids', texts', hsecond⟩ := (hf ctx a mid' hmid').between (hx.orders hctx hmid') hrest
    exact ⟨_, _, hfirst.trans hsecond⟩

theorem bind (hx : c.Hoists g x) (hf : ∀ a, c.Hoists g (f a)) : c.Hoists g (x >>= f) :=
  hx.bind_of_ok fun _ a _ _ => hf a

/-- A walk that visits nothing. -/
theorem of_eq (horders : Orders x) (h : ∀ ctx a mid, x ctx = .ok a mid →
    mid.visited = ctx.visited ∧ mid.macros = ctx.macros ∧ mid.owners = ctx.owners) :
    c.Hoists g x where
  orders := horders
  between := by
    intro ctx a mid _ hx
    obtain ⟨hvisited, hmacros, howners⟩ := h ctx a mid hx
    exact ⟨[], [], .of_eq hvisited hmacros howners⟩

theorem pure (a : α) : c.Hoists g (Pure.pure a : Gen α) :=
  of_eq (closed_orders.pure a) fun _ _ _ h => by cases h; exact ⟨rfl, rfl, rfl⟩

theorem fault (e : Fault) : c.Hoists g (throw e : Gen α) :=
  of_eq (closed_orders.fault e) fun _ _ _ h => by cases h

theorem note (d : Diagnostic) : c.Hoists g (Gen.note d) :=
  of_eq (closed_orders.note d) fun _ _ _ h => by cases h; exact ⟨rfl, rfl, rfl⟩

theorem ofDraft (d : Draft α) : c.Hoists g (Gen.ofDraft d) :=
  of_eq (closed_orders.ofDraft d) fun _ _ _ h => by
    obtain ⟨-, rfl⟩ := ofDraft_eq_ok.1 h
    exact ⟨rfl, rfl, rfl⟩

theorem visit {n : NodeName} (hid : c.isMotif g n.id = false) :
    c.Hoists g (Gen.change fun ctx => ctx.visit n) where
  orders := closed_orders.visit n
  between := by
    intro ctx u mid _ h
    obtain ⟨-, rfl⟩ := change_visit_eq_ok.1 h
    exact ⟨_, _, .visit hid⟩

theorem inside (tag : String) (hx : c.Hoists g x) : c.Hoists g (Gen.inside tag x) where
  orders := closed_orders.inside tag hx.orders
  between := by
    intro ctx a mid hctx h
    obtain ⟨mid', hmid', rfl⟩ := inside_eq_ok.1 h
    have hin : (ctx.withScope (some tag)).Orderly := hctx.of_eq rfl rfl rfl
    obtain ⟨ids, texts, hbetween⟩ := hx.between hin hmid'
    exact ⟨ids, texts, hbetween.visited, hbetween.macros, hbetween.owners, hbetween.own⟩

theorem resolving (n : NodeName) (hx : c.Hoists g x) : c.Hoists g (Gen.resolving n x) where
  orders := closed_orders.resolving n hx.orders
  between := by
    intro ctx a mid hctx h
    obtain ⟨-, mid', hmid', rfl⟩ := resolving_eq_ok.1 h
    have hin : ({ ctx with resolving := ctx.resolving ++ [n.id] } : Context).Orderly :=
      hctx.of_eq rfl rfl rfl
    obtain ⟨ids, texts, hbetween⟩ := hx.between hin hmid'
    exact ⟨ids, texts, hbetween.visited, hbetween.macros, hbetween.owners, hbetween.own⟩

/-- A walk is in step with itself. -/
theorem lockstep : Lockstep fun _ x y => y = x ∧ c.Hoists g x where
  pure a := ⟨rfl, pure a⟩
  bind hx hf := ⟨congrArg₂ _ hx.1 (funext fun a => (hf a).1), hx.2.bind fun a => (hf a).2⟩
  fault e := ⟨rfl, fault e⟩
  note d := ⟨rfl, note d⟩

/-- The visit of a motif that is written by a run of the compiler itself. -/
theorem hoisting (hr : c.Hoists g (r n b))
    (hrun : ∀ ctx o mid, r n b ctx = .ok o mid → ∃ k, c.run g k n b ctx = .ok o mid)
    (hn : g.node? n.id = some n) (hb : c.registry.get? n.kind = some b)
    (hid : c.isMotif g n.id = true) :
    c.Hoists g (Gen.change (fun ctx => ctx.visit n.name) >>= fun _ => Gen.hoisting n.id (r n b)) where
  orders := closed_orders.hoisting n.name hr.orders
  between := by
    intro ctx s mid hctx h
    obtain ⟨hnew, -, o, mid', hmid', rfl⟩ := (visit_hoisting_eq_ok hctx.tidy).1 h
    obtain ⟨ids, texts, hbetween⟩ := hr.between (hctx.motifStart hnew) hmid'
    obtain ⟨k, hk⟩ := hrun _ o mid' hmid'
    have hlast : (ctx.motifStart n.id).visited.getLast? = some n.id := List.getLast?_concat
    have hbehind : (ctx.motifStart n.id).visited <+: mid'.visited := ⟨ids, hbetween.visited.symm⟩
    exact ⟨_, _, hbetween.hoist hid
      ⟨n, b, k, _, o, mid', hn, hb, rfl, hlast, hk, hbehind, List.prefix_rfl, rfl⟩⟩

theorem step (hr : ∀ n b, c.Hoists g (r n b))
    (hrun : ∀ n b ctx o mid, r n b ctx = .ok o mid → ∃ k, c.run g k n b ctx = .ok o mid)
    (hn : g.node? n.id = some n) (hb : c.registry.get? n.kind = some b) :
    c.Hoists g (Compiler.step r n b) := by
  have hid := isMotif_eq hn hb
  refine (lockstep.step (fun hplain => ⟨rfl, visit ?_⟩) (fun hs hmotif => ⟨rfl, ?_⟩)
    (fun _ _ => ⟨rfl, inside _ (hr n b)⟩) fun _ _ => ⟨rfl, hr n b⟩).2
  · have hnone : c.isMotif g n.id = false := by
      rw [hid]
      simpa using hplain
    exact hnone
  · exact hoisting (hr n b) (hrun n b) hn hb (by simp [hid, hs, hmotif])

theorem run (c : Compiler) (g : Graph) (k : Nat) (n : Node) (b : Block) :
    c.Hoists g (c.run g k n b) := by
  have hall : ∀ n b, c.Hoists g (c.run g k n b) := by
    apply run_induction (P := fun r => ∀ n b, c.Hoists g (r n b))
    · exact fun _ _ => fault _
    · intro k hvalues hbodies n b
      rw [run_eq]
      exact (lockstep.level rfl (Q := fun x y => y = x ∧ c.Hoists g x) lockstep.bind
        (fun _ _ => node?_id_of_node?)
        (fun _ child b _ _ _ _ => ⟨rfl, resolving child.name (hvalues child b)⟩)
        (fun _ _ hn hb => ⟨rfl, step hbodies (fun _ _ _ _ _ => exists_run_of_within) hn hb⟩)
        fun _ _ => ⟨rfl, ofDraft _⟩).2
  exact hall n b

/-- A chain from a node that the graph gives under its id. -/
theorem chain (k : Nat) (hn : g.node? n.id = some n) : c.Hoists g (c.chain g (c.run g k) n) :=
  (lockstep.chainFrom rfl (fun _ _ => node?_id_of_node?)
    (fun _ _ hn hb => ⟨rfl, step (run c g k) (fun _ _ _ _ _ h => ⟨k, h⟩) hn hb⟩) _ hn).2

/-- A whole compilation hoists the motifs that it visits. -/
theorem compileBodyText (hids : (g.nodes.map Node.id).Nodup) (root : Option String) :
    c.Hoists g (c.compileBodyText g root) := by
  cases root with
  | some id =>
      exact (lockstep.compileChain fun n hn => ⟨rfl, chain allowance (node?_id_of_node? hn)⟩).2
  | none =>
      refine bind_of_ok (of_eq ?_ ?_) fun ctx hs mid hheads => ?_
      · intro ctx hs mid hctx hheads
        obtain ⟨-, -, rfl⟩ := heads_eq_ok.1 hheads
        exact hctx.of_eq rfl rfl rfl
      · intro ctx hs mid hheads
        obtain ⟨-, -, rfl⟩ := heads_eq_ok.1 hheads
        exact ⟨rfl, rfl, rfl⟩
      · obtain ⟨-, rfl, -⟩ := heads_eq_ok.1 hheads
        exact (lockstep.compileHeads fun h hh =>
          ⟨rfl, chain allowance (Graph.node?_id hids (mem_nodes_of_mem_chainHeads hh))⟩).2

end Hoists

end Compiler

end BlockMusic
