import BlockMusic.Proofs.Drafts
import BlockMusic.Proofs.History
import BlockMusic.Proofs.Hoisting
import Mathlib.Data.List.Basic

/-!
# Motifs inside scopes

A compilation carries the tag of the scope that it is in, replaces it on the way into a statement that
opens a scope and puts it back on the way out. A motif that is reached with a tag is noted with that
tag. The graph knows nothing of tags: there a node is inside another one when a body of that other one
leads to it, directly, along a chain or through further bodies.

The two are compared through the tour of a walk, which lists the nodes that were visited and for each of
them the statement whose scope it was reached in. A walk that succeeds follows a tour. In a tour without
repetitions the statement listed with a node is the nearest one around it, of those that were visited
and open a scope.
-/

namespace BlockMusic

/-- The diagnostic tells of a motif inside a scope. -/
def Diagnostic.isHoisting : Diagnostic → Bool
  | .nestedMotif _ _ => true
  | _ => false

/-- What was noted of motifs inside scopes. -/
def Context.hoistings (ctx : Context) : List Diagnostic :=
  ctx.diagnostics.filter Diagnostic.isHoisting

namespace Context

theorem hoistings_note (ctx : Context) (d : Diagnostic) :
    (ctx.note d).hoistings = ctx.hoistings ++ [d].filter Diagnostic.isHoisting :=
  List.filter_append ..

theorem hoistings_noteAll (ctx : Context) (ds : List Diagnostic) :
    (ctx.noteAll ds).hoistings = ctx.hoistings ++ ds.filter Diagnostic.isHoisting :=
  List.filter_append ..

theorem hoistings_beginMotif (ctx : Context) (id : String) :
    (ctx.beginMotif id).hoistings = ctx.hoistings ++ (ctx.scope.map (.nestedMotif id)).toList := by
  have hreserve : ∀ ctx : Context, (ctx.reserve id).2.hoistings = ctx.hoistings := by
    intro ctx
    unfold reserve
    split
    · rfl
    · rfl
  refine (hreserve _).trans ?_
  cases ctx.scope with
  | none => exact (List.append_nil _).symm
  | some tag => exact ctx.hoistings_note _

end Context

/-! ## Writers -/

/-- The draft does not speak of motifs inside scopes, which is for the walk to note. -/
def Draft.Modest {α : Type} (d : Draft α) : Prop := ∀ note ∈ d.notes, note.isHoisting = false

/-- Nothing that a writer notes is about a motif. -/
theorem Draft.universal_modest : Draft.Universal Draft.Modest where
  done a note hnote := by cases hnote
  render e note hnote := by cases hnote
  operator token note hnote := by cases hnote
  choice node field value used note hnote := by
    rw [List.mem_singleton.1 hnote]
    rfl
  number node field note hnote := by
    rw [List.mem_singleton.1 hnote]
    rfl
  bind {α β x f} hx hf note hnote := by
    change note ∈ (x.andThen f).notes at hnote
    unfold Draft.andThen at hnote
    split at hnote
    · rcases List.mem_append.1 hnote with hnote | hnote
      · exact hx note hnote
      · exact hf _ note hnote
    · exact hx note hnote

/-! ## Scopes in a graph -/

namespace Compiler

open Gen

variable (c : Compiler) (g : Graph)

/-- None of the writers speaks of motifs inside scopes. -/
def Modest : Prop := ∀ kind a, (c.writer kind a).Modest

/-- The scope that a node opens around its bodies. Only statements open one. -/
def scopeOf (n : Node) : Scope :=
  match c.registry.get? n.kind with
  | some b => if b.isStatement then b.scope else .none
  | none => .none

/-- A body of `n` leads to `m`, directly, along a chain or through further bodies. -/
def Encloses (n m : Node) : Prop :=
  ∃ name id, (Slot.body name, id) ∈ c.chainEdges n ∧ c.ChainNode g id m

/-- The node was visited and opens a scope. -/
structure OpensScope (visited : List String) (n : Node) : Prop where
  node? : g.node? n.id = some n
  visited : n.id ∈ visited
  scope : c.scopeOf n ≠ .none

/-- The nearest node around `m`, of those that were visited and open a scope: all the others around `m`
are around it as well. -/
def NearestScope (visited : List String) (m : Node) : Option Node → Prop
  | none => ∀ n, c.OpensScope g visited n → ¬ c.Encloses g n m
  | some n => c.OpensScope g visited n ∧ c.Encloses g n m ∧
      ∀ n', c.OpensScope g visited n' → c.Encloses g n' m → n' ≠ n →
        c.Encloses g n' n ∧ ¬ c.Encloses g n n'

/-- A node that was visited, and the statement whose scope it was reached in. -/
structure Visit where
  node : Node
  around : Option Node

/-- What is noted of a visit: a motif inside a scope, with the tag of the scope. -/
def hoistNote (v : Visit) : Option Diagnostic :=
  if c.scopeOf v.node = .motif then
    v.around.map fun n => .nestedMotif v.node.id (c.scopeOf n).tag
  else none

/-- The bodies that a walk enters from a node, with the nodes that they lead to. -/
def bodiesOf (n : Node) : List (Slot × String) :=
  match c.registry.get? n.kind with
  | some b => if b.isStatement then bodyEdges n b.bodies else []
  | none => []

/-- The nodes that the bodies of a node lead to. -/
def bodyStarts (n : Node) : List String := (c.bodiesOf n).map Prod.snd

/-- The statement whose scope the bodies of a node are in. -/
def aroundBodies (around : Option Node) (n : Node) : Option Node :=
  if c.scopeOf n = .none then around else some n

/-- The visits of a walk over chains that start at the given nodes, inside a given scope. Behind each
node come its bodies, in the scope that it opens, and then the rest of its chain. -/
inductive Tour : Option Node → List String → List Visit → Prop
  | nil (around : Option Node) : Tour around [] []
  | node {around : Option Node} {id : String} {ids : List String} {n : Node}
      {inside rest others : List Visit} (hnode : g.node? id = some n)
      (hinside : Tour (c.aroundBodies around n) (c.bodyStarts n) inside)
      (hrest : Tour around n.next.toList rest) (hothers : Tour around ids others) :
      Tour around (id :: ids) (⟨n, around⟩ :: (inside ++ rest) ++ others)

variable {c g} {n m : Node} {b : Block} {around : Option Node} {ids ids' : List String}
  {tour tour' : List Visit} {v : Visit}

theorem scopeOf_eq (hb : c.registry.get? n.kind = some b) :
    c.scopeOf n = if b.isStatement then b.scope else .none := by
  rw [scopeOf, hb]

theorem bodyStarts_eq (hb : c.registry.get? n.kind = some b) :
    c.bodyStarts n = if b.isStatement then (bodyEdges n b.bodies).map Prod.snd else [] := by
  rw [bodyStarts, bodiesOf, hb]
  exact apply_ite (List.map Prod.snd) _ _ _

theorem chainEdges_eq_bodiesOf (c : Compiler) (n : Node) :
    c.chainEdges n = c.bodiesOf n ++ n.next.toList.map fun id => (Slot.next, id) := rfl

theorem bodySlot_of_mem_bodiesOf {e : Slot × String} (h : e ∈ c.bodiesOf n) :
    ∃ name, e.1 = .body name := by
  unfold bodiesOf at h
  split at h
  · split at h
    · obtain ⟨i, -, hslot, -⟩ := mem_bodyEdges.1 h
      exact ⟨i.name, hslot⟩
    · cases h
  · cases h

/-- One node is inside another when a walk that enters the bodies of the other comes to it. -/
theorem encloses_iff : c.Encloses g n m ↔ ∃ id ∈ c.bodyStarts n, c.ChainNode g id m := by
  constructor
  · rintro ⟨name, id, hedge, hm⟩
    refine ⟨id, ?_, hm⟩
    rw [chainEdges_eq_bodiesOf] at hedge
    rcases List.mem_append.1 hedge with hbody | hnext
    · exact List.mem_map.2 ⟨(Slot.body name, id), hbody, rfl⟩
    · simp at hnext
  · rintro ⟨id, hid, hm⟩
    obtain ⟨e, he, rfl⟩ := List.mem_map.1 hid
    obtain ⟨name, hslot⟩ := bodySlot_of_mem_bodiesOf he
    refine ⟨name, e.2, ?_, hm⟩
    rw [chainEdges_eq_bodiesOf, ← hslot]
    exact List.mem_append_left _ he

/-- A chain goes on into the bodies of a node and to the node behind it. -/
theorem mem_starts_of_edge {slot : Slot} {id : String} (h : (slot, id) ∈ c.chainEdges n) :
    id ∈ c.bodyStarts n ∨ id ∈ n.next.toList := by
  rw [chainEdges_eq_bodiesOf] at h
  rcases List.mem_append.1 h with hbody | hnext
  · exact .inl (List.mem_map.2 ⟨(slot, id), hbody, rfl⟩)
  · obtain ⟨id', hid', heq⟩ := List.mem_map.1 hnext
    cases heq
    exact .inr hid'

theorem ChainNode.trans {id : String} {n m : Node} {slot : Slot} {id' : String}
    (hn : c.ChainNode g id n) (hedge : (slot, id') ∈ c.chainEdges n) (hm : c.ChainNode g id' m) :
    c.ChainNode g id m := by
  induction hm with
  | root hnode => exact .edge hn hedge hnode
  | edge _ hedge' hnode' ih => exact .edge ih hedge' hnode'

theorem Encloses.trans {l : Node} (h : c.Encloses g l n) (h' : c.Encloses g n m) :
    c.Encloses g l m := by
  obtain ⟨name, id, hid, hn⟩ := h
  obtain ⟨name', id', hid', hm⟩ := h'
  exact ⟨name, id, hid, hn.trans hid' hm⟩

theorem modest_of_table {table : List (String × Writer)}
    (hwriter : ∀ kind, c.writer kind = (table.lookup kind).getD fun _ => .done (.text ""))
    (htable : ∀ entry ∈ table, ∀ a, (entry.2 a).Modest) : c.Modest := by
  intro kind a
  rw [hwriter]
  cases hlookup : table.lookup kind with
  | none => exact Draft.universal_modest.done _
  | some w =>
      obtain ⟨before, behind, hsplit, -⟩ := List.lookup_eq_some_iff.1 hlookup
      exact htable (kind, w) (by simp [hsplit]) a

/-! ## Tours -/

namespace Tour

/-- Tours that start one behind the other. -/
theorem append (h : c.Tour g around ids tour) (h' : c.Tour g around ids' tour') :
    c.Tour g around (ids ++ ids') (tour ++ tour') := by
  induction h with
  | nil around => exact h'
  | node hnode hinside hrest _ _ _ ih =>
      rw [List.append_assoc]
      exact .node hnode hinside hrest (ih h')

/-- Every start of a tour is visited. -/
theorem exists_start (h : c.Tour g around ids tour) {id : String} (hid : id ∈ ids) :
    ∃ v ∈ tour, g.node? id = some v.node := by
  induction h with
  | nil around => cases hid
  | @node around first ids n inside rest others hnode _ _ _ _ _ ih =>
      rcases List.mem_cons.1 hid with rfl | hid
      · exact ⟨⟨n, around⟩, by simp, hnode⟩
      · obtain ⟨v, hv, hvnode⟩ := ih hid
        exact ⟨v, List.mem_append_right _ hv, hvnode⟩

/-- Behind a visit come the tour of the bodies of its node and that of the rest of its chain. -/
theorem parts (h : c.Tour g around ids tour) (hv : v ∈ tour) :
    ∃ inside rest, c.Tour g (c.aroundBodies v.around v.node) (c.bodyStarts v.node) inside ∧
      c.Tour g v.around v.node.next.toList rest ∧ (v :: (inside ++ rest)).Sublist tour := by
  induction h with
  | nil around => cases hv
  | @node around id ids n inside rest others hnode hinside hrest _ ihinside ihrest ihothers =>
      have hparts : (inside ++ rest).Sublist (⟨n, around⟩ :: (inside ++ rest) ++ others) :=
        ((List.Sublist.refl _).cons _).trans (List.sublist_append_left _ _)
      rcases List.mem_append.1 hv with hv | hv
      · rcases List.mem_cons.1 hv with rfl | hv
        · exact ⟨inside, rest, hinside, hrest, List.sublist_append_left _ _⟩
        · rcases List.mem_append.1 hv with hv | hv
          · obtain ⟨inside', rest', hinside', hrest', hsub⟩ := ihinside hv
            exact ⟨inside', rest', hinside', hrest',
              (hsub.trans (List.sublist_append_left _ _)).trans hparts⟩
          · obtain ⟨inside', rest', hinside', hrest', hsub⟩ := ihrest hv
            exact ⟨inside', rest', hinside', hrest',
              (hsub.trans (List.sublist_append_right _ _)).trans hparts⟩
      · obtain ⟨inside', rest', hinside', hrest', hsub⟩ := ihothers hv
        exact ⟨inside', rest', hinside', hrest', hsub.trans (List.sublist_append_right _ _)⟩

/-- A tour visits all nodes that its starts lead to. -/
theorem exists_visit (h : c.Tour g around ids tour) {id : String} (hid : id ∈ ids)
    (hm : c.ChainNode g id m) : ∃ v ∈ tour, v.node = m := by
  induction hm with
  | root hnode =>
      obtain ⟨v, hv, hvnode⟩ := h.exists_start hid
      exact ⟨v, hv, Option.some.inj (hvnode.symm.trans hnode)⟩
  | edge _ hedge hnode ih =>
      obtain ⟨v, hv, rfl⟩ := ih
      obtain ⟨inside, rest, hinside, hrest, hsub⟩ := h.parts hv
      rcases mem_starts_of_edge hedge with hstart | hstart
      · obtain ⟨v', hv', hvnode⟩ := hinside.exists_start hstart
        exact ⟨v', hsub.subset (by simp [hv']), Option.some.inj (hvnode.symm.trans hnode)⟩
      · obtain ⟨v', hv', hvnode⟩ := hrest.exists_start hstart
        exact ⟨v', hsub.subset (by simp [hv']), Option.some.inj (hvnode.symm.trans hnode)⟩

/-- A tour visits no other nodes. -/
theorem exists_chainNode (h : c.Tour g around ids tour) (hv : v ∈ tour) :
    ∃ id ∈ ids, c.ChainNode g id v.node := by
  induction h with
  | nil around => cases hv
  | @node around id ids n inside rest others hnode hinside hrest _ ihinside ihrest ihothers =>
      have hroot : c.ChainNode g id n := .root hnode
      rcases List.mem_append.1 hv with hv | hv
      · refine ⟨id, List.mem_cons_self, ?_⟩
        rcases List.mem_cons.1 hv with rfl | hv
        · exact hroot
        · rcases List.mem_append.1 hv with hv | hv
          · obtain ⟨name, id', hedge, hm⟩ := encloses_iff.2 (ihinside hv)
            exact hroot.trans hedge hm
          · obtain ⟨id', hid', hm⟩ := ihrest hv
            have hnext : (Slot.next, id') ∈ c.chainEdges n :=
              List.mem_append_right _ (List.mem_map.2 ⟨id', hid', rfl⟩)
            exact hroot.trans hnext hm
      · obtain ⟨id', hid', hm⟩ := ihothers hv
        exact ⟨id', List.mem_cons_of_mem _ hid', hm⟩

/-- A node is reached in the scope of the whole tour, or in that of a node which is visited, opens a
scope and encloses it. -/
theorem around_cases (h : c.Tour g around ids tour) (hv : v ∈ tour) :
    v.around = around ∨ ∃ u ∈ tour, v.around = some u.node ∧ c.scopeOf u.node ≠ .none ∧
      c.Encloses g u.node v.node := by
  induction h with
  | nil around => cases hv
  | @node around id ids n inside rest others hnode hinside hrest _ ihinside ihrest ihothers =>
      rcases List.mem_append.1 hv with hv | hv
      · rcases List.mem_cons.1 hv with rfl | hv
        · exact .inl rfl
        · rcases List.mem_append.1 hv with hv | hv
          · rcases ihinside hv with haround | ⟨u, hu, hrest⟩
            · by_cases hscope : c.scopeOf n = .none
              · rw [aroundBodies, if_pos hscope] at haround
                exact .inl haround
              · rw [aroundBodies, if_neg hscope] at haround
                exact .inr ⟨⟨n, around⟩, by simp, haround, hscope,
                  encloses_iff.2 (hinside.exists_chainNode hv)⟩
            · exact .inr ⟨u, by simp [hu], hrest⟩
          · rcases ihrest hv with haround | ⟨u, hu, hrest⟩
            · exact .inl haround
            · exact .inr ⟨u, by simp [hu], hrest⟩
      · rcases ihothers hv with haround | ⟨u, hu, hrest⟩
        · exact .inl haround
        · exact .inr ⟨u, by simp [hu], hrest⟩

section Once

variable (hnodup : (tour.map fun v => v.node.id).Nodup)
include hnodup

/-- A node that is visited once has one visit. -/
theorem eq_of_node_eq {u : Visit} (hu : u ∈ tour) (hv : v ∈ tour) (h : u.node = v.node) : u = v :=
  List.inj_on_of_nodup_map hnodup hu hv (congrArg Node.id h)

/-- A node that is visited once is not inside itself. -/
theorem not_encloses_self (h : c.Tour g around ids tour) (hv : v ∈ tour) :
    ¬ c.Encloses g v.node v.node := by
  intro hself
  obtain ⟨inside, rest, hinside, -, hsub⟩ := h.parts hv
  obtain ⟨id, hid, hchain⟩ := encloses_iff.1 hself
  obtain ⟨u, hu, hnode⟩ := hinside.exists_visit hid hchain
  have honce := hnodup.sublist (hsub.map fun v => v.node.id)
  rw [List.map_cons, List.nodup_cons] at honce
  exact honce.1 (List.mem_map.2 ⟨u, by simp [hu], congrArg Node.id hnode⟩)

/-- What is inside a node that opens a scope was reached in that scope, or in one further inside. -/
theorem around_of_encloses (h : c.Tour g around ids tour) {u : Visit} (hu : u ∈ tour)
    (hv : v ∈ tour) (hscope : c.scopeOf u.node ≠ .none) (hencl : c.Encloses g u.node v.node) :
    ∃ n, v.around = some n ∧ (n = u.node ∨ c.Encloses g u.node n) := by
  obtain ⟨inside, rest, hinside, -, hsub⟩ := h.parts hu
  obtain ⟨id, hid, hchain⟩ := encloses_iff.1 hencl
  obtain ⟨v', hv', hnode⟩ := hinside.exists_visit hid hchain
  obtain rfl : v' = v := eq_of_node_eq hnodup (hsub.subset (by simp [hv'])) hv hnode
  rw [aroundBodies, if_neg hscope] at hinside
  rcases hinside.around_cases hv' with haround | ⟨w, hw, haround, -, -⟩
  · exact ⟨u.node, haround, .inl rfl⟩
  · exact ⟨w.node, haround, .inr (encloses_iff.2 (hinside.exists_chainNode hw))⟩

/-- In a tour without repetitions a node is reached in the nearest scope around it. -/
theorem nearestScope (h : c.Tour g none ids tour) (hv : v ∈ tour) :
    c.NearestScope g (tour.map fun v => v.node.id) v.node v.around := by
  have hvisit : ∀ n, c.OpensScope g (tour.map fun v => v.node.id) n → ∃ u ∈ tour, u.node = n := by
    intro n hn
    obtain ⟨u, hu, hid⟩ := List.mem_map.1 hn.visited
    obtain ⟨id, hid', hchain⟩ := h.exists_chainNode hu
    have hnode := hchain.node?
    rw [hid, hn.node?] at hnode
    exact ⟨u, hu, (Option.some.inj hnode).symm⟩
  cases haround : v.around with
  | none =>
      intro n hn hencl
      obtain ⟨u, hu, rfl⟩ := hvisit n hn
      obtain ⟨n', hn', -⟩ := h.around_of_encloses hnodup hu hv hn.scope hencl
      rw [haround] at hn'
      cases hn'
  | some n =>
      rcases h.around_cases hv with hnone | ⟨u, hu, hnode, hscope, hencl⟩
      · rw [haround] at hnone
        cases hnone
      · rw [haround] at hnode
        cases hnode
        obtain ⟨id, -, hchain⟩ := h.exists_chainNode hu
        refine ⟨⟨hchain.node?, List.mem_map.2 ⟨u, hu, rfl⟩, hscope⟩, hencl, ?_⟩
        intro n' hn' hencl' hne
        obtain ⟨u', hu', rfl⟩ := hvisit n' hn'
        obtain ⟨n, hn, hcases⟩ := h.around_of_encloses hnodup hu' hv hn'.scope hencl'
        rw [haround] at hn
        cases hn
        rcases hcases with heq | hinner
        · exact absurd heq.symm hne
        · refine ⟨hinner, fun houter => ?_⟩
          exact h.not_encloses_self hnodup hu (houter.trans hinner)

end Once

end Tour

/-! ## The walk follows a tour -/

/-- Between two contexts the nodes `ids` were visited and the motifs in `notes` noted, and the scope is
the same. -/
structure Recorded (ctx mid : Context) (ids : List String) (notes : List Diagnostic) : Prop where
  visited : mid.visited = ctx.visited ++ ids
  hoistings : mid.hoistings = ctx.hoistings ++ notes
  scope : mid.scope = ctx.scope

namespace Recorded

variable {ctx mid mid' : Context} {notes notes' : List Diagnostic}

theorem refl (ctx : Context) : Recorded ctx ctx [] [] :=
  ⟨(List.append_nil _).symm, (List.append_nil _).symm, rfl⟩

theorem trans (h : Recorded ctx mid ids notes) (h' : Recorded mid mid' ids' notes') :
    Recorded ctx mid' (ids ++ ids') (notes ++ notes') where
  visited := by rw [h'.visited, h.visited, List.append_assoc]
  hoistings := by rw [h'.hoistings, h.hoistings, List.append_assoc]
  scope := h'.scope.trans h.scope

theorem visit (ctx : Context) (id : String) :
    Recorded ctx { ctx with visited := ctx.visited ++ [id] } [id] [] :=
  ⟨rfl, (List.append_nil _).symm, rfl⟩

theorem noteAll {ds : List Diagnostic} (h : Recorded ctx mid ids notes)
    (hds : ∀ d ∈ ds, d.isHoisting = false) : Recorded ctx (mid.noteAll ds) ids notes where
  visited := h.visited
  hoistings := by
    have hnone : ds.filter Diagnostic.isHoisting = [] := List.filter_eq_nil_iff.2 (by simpa using hds)
    rw [Context.hoistings_noteAll, hnone, List.append_nil, h.hoistings]
  scope := h.scope

theorem note {d : Diagnostic} (h : Recorded ctx mid ids notes) (hd : d.isHoisting = false) :
    Recorded ctx (mid.note d) ids notes := by
  have hds : ∀ d' ∈ [d], d'.isHoisting = false := by simpa using hd
  exact h.noteAll hds

end Recorded

/-- Between two contexts a tour was made. -/
def Toured (c : Compiler) (g : Graph) (around : Option Node) (starts : List String)
    (ctx mid : Context) : Prop :=
  ∃ tour, c.Tour g around starts tour ∧
    Recorded ctx mid (tour.map fun v => v.node.id) (tour.filterMap c.hoistNote)

namespace Toured

variable {ctx mid mid' : Context}

theorem refl (around : Option Node) (ctx : Context) : c.Toured g around [] ctx ctx :=
  ⟨[], .nil around, .refl ctx⟩

theorem trans (h : c.Toured g around ids ctx mid) (h' : c.Toured g around ids' mid mid') :
    c.Toured g around (ids ++ ids') ctx mid' := by
  obtain ⟨tour, htour, hrec⟩ := h
  obtain ⟨tour', htour', hrec'⟩ := h'
  refine ⟨tour ++ tour', htour.append htour', ?_⟩
  rw [List.map_append, List.filterMap_append]
  exact hrec.trans hrec'

theorem scope (h : c.Toured g around ids ctx mid) : mid.scope = ctx.scope := by
  obtain ⟨_, _, hrec⟩ := h
  exact hrec.scope

theorem note {d : Diagnostic} (h : c.Toured g around ids ctx mid) (hd : d.isHoisting = false) :
    c.Toured g around ids ctx (mid.note d) := by
  obtain ⟨tour, htour, hrec⟩ := h
  exact ⟨tour, htour, hrec.note hd⟩

/-- Where nothing starts, nothing is visited and nothing noted. -/
theorem recorded_of_nil (h : c.Toured g around [] ctx mid) : Recorded ctx mid [] [] := by
  obtain ⟨tour, htour, hrec⟩ := h
  cases htour
  exact hrec

end Toured

/-- The tag of the scope of a node. -/
def scopeTag (c : Compiler) (around : Option Node) : Option String :=
  around.map fun n => (c.scopeOf n).tag

/-- The level makes a tour of the bodies of the node that it writes. -/
def ToursBodies (c : Compiler) (g : Graph) (r : Level) : Prop :=
  ∀ n b ctx around, b ∈ c.registry.blocks → ctx.scope = c.scopeTag around →
    Ensures (r n b) ctx
      (fun _ mid => c.Toured g around ((bodyEdges n b.bodies).map Prod.snd) ctx mid)
      fun _ _ => True

variable {r : Level} {ctx : Context}

/-- Resolving an input visits nothing, as values have no bodies. -/
theorem ensures_resolveInput_toured
    (hvalues : ∀ b ∈ c.registry.blocks, b.producesValue = true → b.bodies = [])
    (hr : c.ToursBodies g r) (hscope : ctx.scope = c.scopeTag around) (n : Node) (i : ValueInput) :
    Ensures (c.resolveInput g r n i) ctx (fun _ mid => Recorded ctx mid [] []) fun _ _ => True := by
  have hliteral : ∀ l, Ensures (literalFragment l) ctx (fun _ mid => Recorded ctx mid [] [])
      fun _ _ => True :=
    fun l => ensures_literalFragment (fun _ _ => .refl ctx) fun _ _ => trivial
  refine ensures_resolveInput ?absent (fun l _ _ => hliteral l) (fun l _ => hliteral l)
    (fun _ _ _ => trivial) (fun _ _ _ _ _ => trivial) ?statement ?value
  case absent =>
    intro _ _
    split
    · exact (Recorded.refl ctx).note rfl
    · exact .refl ctx
  case statement => exact fun _ _ _ _ _ _ _ => (Recorded.refl ctx).note rfl
  case value =>
    intro id child b _ _ hb hv
    refine .resolving (fun _ => trivial) fun _ => ?_
    have hmem := Registry.mem_of_get? hb
    refine (hr child b { ctx with resolving := ctx.resolving ++ [child.name.id] } around hmem
      hscope).mono ?_ fun _ _ h => h
    intro o mid hmid
    rw [hvalues b hmem hv] at hmid
    have hrec := hmid.recorded_of_nil
    exact ⟨hrec.visited, hrec.hoistings, hrec.scope⟩

theorem ensures_resolveInputs_toured
    (hvalues : ∀ b ∈ c.registry.blocks, b.producesValue = true → b.bodies = [])
    (hr : c.ToursBodies g r) (hscope : ctx.scope = c.scopeTag around) (n : Node)
    (is : List ValueInput) :
    Ensures (c.resolveInputs g r n [] is) ctx (fun _ mid => Recorded ctx mid [] [])
      fun _ _ => True := by
  refine ensures_resolveInputs (fun _ _ mid => Recorded ctx mid [] []) (.refl ctx) ?_
  intro i rest done mid _ hmid
  refine (ensures_resolveInput_toured hvalues hr (hmid.scope.trans hscope) n i).mono ?_
    fun _ _ h => h
  exact fun _ mid' hmid' => hmid.trans hmid'

/-- A node of a chain is noted if it is a motif inside a scope, and its bodies are toured in the scope
that it opens. -/
theorem ensures_entry_toured (hr : c.ToursBodies g r) (hb : c.registry.get? n.kind = some b)
    (hscope : ctx.scope = c.scopeTag around) :
    Ensures (entry r n b) ctx
      (fun _ mid => ∃ inside, c.Tour g (c.aroundBodies around n) (c.bodyStarts n) inside ∧
        Recorded ctx mid (inside.map fun v => v.node.id)
          ((c.hoistNote ⟨n, around⟩).toList ++ inside.filterMap c.hoistNote))
      fun _ _ => True := by
  have hmem := Registry.mem_of_get? hb
  refine ensures_entry (fun hs => ?_) fun hs => ?_
  · have hscopeOf : c.scopeOf n = b.scope := by rw [scopeOf_eq hb, if_pos hs]
    have hstarts : c.bodyStarts n = (bodyEdges n b.bodies).map Prod.snd := by
      rw [bodyStarts_eq hb, if_pos hs]
    rw [hstarts]
    refine ensures_statement (fun hmotif => ?_) (fun hne hdef => ?_) fun hne hdef => ?_
    · have haround : c.aroundBodies around n = some n := by
        rw [aroundBodies, hscopeOf, hmotif, if_neg (by decide)]
      have htag : (ctx.beginMotif n.id).scope = c.scopeTag (some n) := by
        rw [scopeTag, Option.map_some, hscopeOf, hmotif]
        rfl
      refine (hr n b _ (some n) hmem htag).mono ?_ fun _ _ _ => trivial
      rintro o mid ⟨inside, htour, hrec⟩
      refine ⟨inside, haround ▸ htour, ?_, ?_, rfl⟩
      · exact hrec.visited.trans (by rw [Context.beginMotif_visited])
      · refine hrec.hoistings.trans ?_
        rw [Context.hoistings_beginMotif, List.append_assoc, hscope, hoistNote, hscopeOf, if_pos hmotif,
          scopeTag, Option.map_map]
        rfl
    · have haround : c.aroundBodies around n = some n := by
        rw [aroundBodies, hscopeOf, if_neg (by simpa [Block.definesScope] using hdef)]
      have htag : (ctx.withScope (some b.scope.tag)).scope = c.scopeTag (some n) := by
        rw [scopeTag, Option.map_some, hscopeOf]
        rfl
      refine (hr n b _ (some n) hmem htag).mono ?_ fun _ _ _ => trivial
      rintro o mid ⟨inside, htour, hrec⟩
      refine ⟨inside, haround ▸ htour, hrec.visited, ?_, rfl⟩
      rw [hoistNote, hscopeOf, if_neg hne]
      exact hrec.hoistings
    · have haround : c.aroundBodies around n = around := by
        rw [aroundBodies, hscopeOf, if_pos (by simpa [Block.definesScope] using hdef)]
      refine (hr n b ctx around hmem hscope).mono ?_ fun _ _ _ => trivial
      rintro o mid ⟨inside, htour, hrec⟩
      refine ⟨inside, haround.symm ▸ htour, ?_⟩
      rw [hoistNote, hscopeOf, if_neg hne]
      exact hrec
  · have hscopeOf : c.scopeOf n = .none := by rw [scopeOf_eq hb, hs]; rfl
    have hstarts : c.bodyStarts n = [] := by rw [bodyStarts_eq hb, hs]; rfl
    refine ⟨[], hstarts ▸ .nil _, ?_⟩
    rw [hoistNote, hscopeOf, if_neg (by decide)]
    exact (Recorded.refl ctx).note rfl

theorem ensures_chainFrom_toured (hr : c.ToursBodies g r) {more : Nat}
    (hnode : g.node? n.id = some n) (hscope : ctx.scope = c.scopeTag around) :
    Ensures (c.chainFrom g r more n) ctx (fun _ mid => c.Toured g around [n.id] ctx mid)
      fun _ _ => True := by
  induction more generalizing n ctx with
  | zero => exact .stop trivial
  | succ more ih =>
      refine ensures_chainFrom_succ (fun _ => trivial) (fun _ => trivial) ?_
      intro b hb _
      have hvisit := Recorded.visit ctx n.id
      refine (ensures_entry_toured hr hb (hvisit.scope.trans hscope)).mono ?_ fun _ _ h => h
      rintro text mid ⟨inside, htour, hrec⟩
      have hentered := hvisit.trans hrec
      -- what follows in the chain is in the scope that the node itself is in
      have hwhole : ∀ mid', c.Toured g around n.next.toList mid mid' →
          c.Toured g around [n.id] ctx mid' := by
        rintro mid' ⟨rest, hrest, hrec'⟩
        refine ⟨⟨n, around⟩ :: (inside ++ rest) ++ [], .node hnode htour hrest (.nil around), ?_⟩
        have hnotes : (⟨n, around⟩ :: (inside ++ rest)).filterMap c.hoistNote =
            (c.hoistNote ⟨n, around⟩).toList ++ inside.filterMap c.hoistNote ++
              rest.filterMap c.hoistNote := by
          simp only [List.filterMap_eq_flatMap_toList, List.flatMap_cons, List.flatMap_append,
            List.append_assoc]
        rw [List.append_nil, List.map_cons, List.map_append, hnotes]
        exact hentered.trans hrec'
      refine ensures_follow (fun hnext => ?_) (fun _ _ _ => trivial) ?_
      · exact hwhole mid (by rw [hnext]; exact .refl around mid)
      · intro id following hnext hfollowing
        have hid := Graph.id_of_node? hfollowing
        refine (ih (hid ▸ hfollowing) (hentered.scope.trans hscope)).mono ?_ fun _ _ h => h
        intro rest mid' hmid'
        refine hwhole mid' ?_
        rw [hnext, ← hid]
        exact hmid'

theorem ensures_compileBody_toured (hr : c.ToursBodies g r)
    (hscope : ctx.scope = c.scopeTag around) (n : Node) (i : BodyInput) :
    Ensures (c.compileBody g r n i) ctx
      (fun _ mid => c.Toured g around (n.body? i.name).toList ctx mid) fun _ _ => True := by
  refine ensures_compileBody (fun hempty => ?_) (fun _ _ _ => trivial) ?_
  · rw [hempty]
    split
    · exact (Toured.refl around ctx).note rfl
    · exact .refl around ctx
  · intro id first hid hfirst
    rw [hid, Option.toList_some, ← Graph.id_of_node? hfirst]
    exact ensures_chainFrom_toured hr (Graph.id_of_node? hfirst ▸ hfirst) hscope

/-- The bodies of a node are toured one behind the other. -/
theorem ensures_compileBodies_toured (hr : c.ToursBodies g r)
    (hscope : ctx.scope = c.scopeTag around) (n : Node) (is : List BodyInput) :
    Ensures (c.compileBodies g r n [] is) ctx
      (fun _ mid => c.Toured g around ((bodyEdges n is).map Prod.snd) ctx mid) fun _ _ => True := by
  refine (ensures_compileBodies (fun left _ mid => ∃ used, used ++ left = is ∧
      c.Toured g around ((bodyEdges n used).map Prod.snd) ctx mid)
    ⟨[], rfl, .refl around ctx⟩ ?_).mono ?_ fun _ _ h => h
  · rintro i rest done mid - ⟨used, hused, hmid⟩
    refine (ensures_compileBody_toured hr (hmid.scope.trans hscope) n i).mono ?_ fun _ _ h => h
    intro s mid' hmid'
    refine ⟨used ++ [i], by rw [← hused, List.append_assoc]; rfl, ?_⟩
    have hstart : (((n.body? i.name).map fun id => (Slot.body i.name, id)).toList).map Prod.snd =
        (n.body? i.name).toList := by
      cases n.body? i.name with
      | none => rfl
      | some id => rfl
    rw [bodyEdges_concat, List.map_append, hstart]
    exact hmid.trans hmid'
  · rintro texts mid ⟨used, hused, hmid⟩
    rw [List.append_nil] at hused
    rw [← hused]
    exact hmid

section Compilation

variable (hvalues : ∀ b ∈ c.registry.blocks, b.producesValue = true → b.bodies = [])
  (hmodest : c.Modest)
include hvalues hmodest

/-- Every level makes a tour of the bodies of the node that it writes. -/
theorem run_toursBodies (k : Nat) : c.ToursBodies g (c.run g k) := by
  refine run_induction (P := c.ToursBodies g) (fun _ _ _ _ _ _ => ensures_beyond trivial) ?_ k
  intro k hinner hbodies n b ctx around hb hscope
  rw [run_eq]
  refine ensures_level ((ensures_resolveInputs_toured hvalues hinner hscope n b.inputs).mono ?_
    fun _ _ h => h)
  intro fragments mid hmid
  refine (ensures_compileBodies_toured hbodies (hmid.scope.trans hscope) n b.bodies).mono ?_
    fun _ _ h => h
  rintro texts mid' ⟨tour, htour, hrec⟩
  refine .ofDraft (fun o _ => ⟨tour, htour, ?_⟩) fun _ _ => trivial
  exact (hmid.trans hrec).noteAll (hmodest b.kind _)

theorem ensures_chain_toured (hnode : g.node? n.id = some n) (hscope : ctx.scope = none) :
    Ensures (c.chain g (c.run g allowance) n) ctx (fun _ mid => c.Toured g none [n.id] ctx mid)
      fun _ _ => True :=
  ensures_chainFrom_toured (run_toursBodies hvalues hmodest allowance) hnode hscope

/-- The chains of a workspace are toured one behind the other. -/
theorem ensures_compileHeads_toured {hs : List Node} (hnodes : ∀ h ∈ hs, g.node? h.id = some h)
    (hscope : ctx.scope = none) :
    Ensures (c.compileHeads g hs) ctx (fun _ mid => c.Toured g none (hs.map Node.id) ctx mid)
      fun _ _ => True := by
  refine (ensures_compileHeads (fun left mid => ∃ used, used ++ left = hs ∧
      c.Toured g none (used.map Node.id) ctx mid)
    ⟨[], rfl, .refl none ctx⟩ ?_).mono ?_ fun _ _ h => h
  · rintro h rest mid hh ⟨used, hused, hmid⟩
    refine (ensures_chain_toured hvalues hmodest (hnodes h hh) (hmid.scope.trans hscope)).mono ?_
      fun _ _ h => h
    intro s mid' hmid'
    refine ⟨used ++ [h], by rw [← hused, List.append_assoc]; rfl, ?_⟩
    rw [List.map_append]
    exact hmid.trans hmid'
  · rintro _ mid ⟨used, hused, hmid⟩
    rw [List.append_nil] at hused
    rw [← hused]
    exact hmid

/-- A compilation that succeeds makes a tour from the nodes that it starts from. -/
theorem toured_of_ok (hids : (g.nodes.map Node.id).Nodup) {root : Option String} {body : String}
    (hok : c.compileBodyText g root {} = .ok body ctx) :
    c.Toured g none (c.starts g root) {} ctx := by
  cases root with
  | some id =>
      change c.compileChain g id {} = _ at hok
      unfold compileChain at hok
      cases hfirst : g.node? id with
      | none =>
          rw [hfirst] at hok
          cases hok
      | some first =>
          rw [hfirst] at hok
          have hid := Graph.id_of_node? hfirst
          have hnode : g.node? first.id = some first := hid.symm ▸ hfirst
          have htoured := (ensures_chain_toured hvalues hmodest hnode rfl).result hok
          rw [hid] at htoured
          exact htoured
  | none =>
      obtain ⟨hs, mid, hheads, hrun⟩ := bind_eq_ok.1 hok
      obtain ⟨-, rfl, rfl⟩ := heads_eq_ok.1 hheads
      have hnodes : ∀ h ∈ c.chainHeads g, g.node? h.id = some h :=
        fun h hh => Graph.node?_id hids (mem_nodes_of_mem_chainHeads hh)
      obtain ⟨tour, htour, hrec⟩ :=
        (ensures_compileHeads_toured hvalues hmodest hnodes rfl).result hrun
      -- what is noted of detached values does not speak of motifs
      have hstart : Recorded {} (({} : Context).noteAll (c.detachedNotes g.unreferenced)) [] [] := by
        refine (Recorded.refl {}).noteAll ?_
        intro d hd
        obtain ⟨n, -, rfl⟩ := List.mem_map.1 hd
        rfl
      exact ⟨tour, htour, hstart.trans hrec⟩

end Compilation

/-- A compilation that succeeds visits every node once. For each node visited that is a motif inside a
scope, and for no other, it has noted the tag of the nearest scope around it, in the order of the
visits. The scopes around a node are those of the statements that the compilation visits: one that starts
inside a scope does not look around itself. -/
theorem hoistings_name_nearest_scope (hids : (g.nodes.map Node.id).Nodup)
    (hvalues : ∀ b ∈ c.registry.blocks, b.producesValue = true → b.bodies = [])
    (hmodest : c.Modest) (root : Option String) (p : Program)
    (hok : (c.compile g root).outcome = .ok p) :
    ∃ (ctx : Context) (tour : List Visit), c.compileBodyText g root {} = .ok p.body ctx ∧ ctx.visited.Nodup ∧
      tour.map (fun v => v.node.id) = ctx.visited ∧
      (∀ v ∈ tour, g.node? v.node.id = some v.node ∧
        c.NearestScope g ctx.visited v.node v.around) ∧
      p.diagnostics.filter Diagnostic.isHoisting = tour.filterMap c.hoistNote := by
  obtain ⟨body, ctx, hrun, rfl⟩ := outcome_eq_ok.1 hok
  obtain ⟨tour, htour, hrec⟩ := toured_of_ok hvalues hmodest hids hrun
  have hnodup : ctx.visited.Nodup :=
    ((Hoists.compileBodyText hids root).orders Context.orderly_empty hrun).nodup
  have hvisited : ctx.visited = tour.map fun v => v.node.id := hrec.visited
  have hhoistings : ctx.hoistings = tour.filterMap c.hoistNote := hrec.hoistings
  refine ⟨ctx, tour, hrun, hnodup, hvisited.symm, ?_, hhoistings⟩
  intro v hv
  obtain ⟨id, -, hchain⟩ := htour.exists_chainNode hv
  rw [hvisited] at hnodup ⊢
  exact ⟨hchain.node?, htour.nearestScope hnodup hv⟩

/-- A compiler with a further block, which has a body and opens no scope. -/
def withGroup : Compiler where
  registry := Registry.builtin [
    { kind := "group", category := "Custom", bodies := [{ name := "DO" }], previous := true,
      next := true }]
  writer kind := ((("group", (⟨[.inlineBody "DO"], none⟩ : Template).writer) :: Writer.builtin).lookup
    kind).getD fun _ => .done (.text "")
  indentUnit := "  "

/-- A motif in a motif in a group in an effect, and behind the effect a motif in another group. -/
def groupedMotifs : Graph := ⟨[
  { id := "fx", kind := "with_fx", bodies := [("COMMANDS", "group")], next := some "other" },
  { id := "group", kind := "group", bodies := [("DO", "outer")] },
  { id := "outer", kind := "defmotif", inputs := [("NAME", .literal (.scalar (.text "a")))],
    bodies := [("DO", "inner")] },
  { id := "inner", kind := "defmotif", inputs := [("NAME", .literal (.scalar (.text "b")))] },
  { id := "other", kind := "group", bodies := [("DO", "free")] },
  { id := "free", kind := "defmotif", inputs := [("NAME", .literal (.scalar (.text "c")))] }]⟩

theorem groupedMotifs_hoistings : (groupedMotifs.nodes.map Node.id).Nodup ∧
    ∃ (ctx : Context) (tour : List Visit),
      tour.map (fun v => v.node.id) = ["fx", "group", "outer", "inner", "other", "free"] ∧
      (∀ v ∈ tour, withGroup.NearestScope groupedMotifs ctx.visited v.node v.around) ∧
      [Diagnostic.nestedMotif "outer" "music", .nestedMotif "inner" "motif"] =
        tour.filterMap withGroup.hoistNote := by
  have hids : (groupedMotifs.nodes.map Node.id).Nodup := by decide
  have hmodest : withGroup.Modest := modest_of_table (fun _ => rfl)
    (List.forall_mem_cons.2
      ⟨Draft.universal_modest.template _, Draft.universal_modest.of_mem_builtin⟩)
  obtain ⟨ctx, tour, hrun, -, hvisited, hnearest, hnotes⟩ :=
    hoistings_name_nearest_scope (c := withGroup) hids (by decide) hmodest (some "fx")
      ⟨["defmotif \"a\" do\nend\n", "defmotif \"b\" do\nend\n", "defmotif \"c\" do\nend\n"],
        "with_fx(:echo) do\nend\n", [.nestedMotif "outer" "music", .nestedMotif "inner" "motif"]⟩ rfl
  refine ⟨hids, ctx, tour, ?_, fun v hv => (hnearest v hv).2, hnotes⟩
  rw [hvisited]
  cases hrun
  rfl

/-- A motif in an effect. -/
def motifInEffect : Graph := ⟨[
  { id := "fx", kind := "with_fx", bodies := [("COMMANDS", "motif")] },
  { id := "motif", kind := "defmotif", inputs := [("NAME", .literal (.scalar (.text "a")))] }]⟩

/-- A compilation that starts inside a scope does not note the scope. -/
theorem scope_around_root_unnoted : ¬ ∀ (g : Graph) (root : String) (p : Program) (n m : Node),
    (g.nodes.map Node.id).Nodup → ((builtin "  ").compile g (some root)).outcome = .ok p →
      m.id ∈ (builtin "  ").visitedFrom g root → (builtin "  ").scopeOf m = .motif →
      g.node? n.id = some n → (builtin "  ").scopeOf n ≠ .none → (builtin "  ").Encloses g n m →
      ∃ tag, .nestedMotif m.id tag ∈ p.diagnostics := by
  intro h
  have hencl : (builtin "  ").Encloses motifInEffect
      { id := "fx", kind := "with_fx", bodies := [("COMMANDS", "motif")] }
      { id := "motif", kind := "defmotif", inputs := [("NAME", .literal (.scalar (.text "a")))] } :=
    ⟨"COMMANDS", "motif", by decide, .root rfl⟩
  obtain ⟨tag, htag⟩ := h motifInEffect "motif" ⟨["defmotif \"a\" do\nend\n"], "", []⟩ _ _ (by decide) rfl
    (by decide +kernel) rfl rfl (by decide) hencl
  cases htag

end Compiler

end BlockMusic
