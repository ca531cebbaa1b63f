import BlockMusic.Proofs.Locality
import BlockMusic.Proofs.Workspace

/-!
# The order of the nodes

A saved program lists its nodes in the order in which they were made. Nothing of it is seen in the
compiled workspace: nodes are looked up by their ids, and the chains are put in the order of the canvas,
where two nodes at the same place are told apart by their ids. Only the notes on detached values, which
are taken before the chains are put in order, come in the order of the list.
-/

namespace BlockMusic

/-- The diagnostic notes a value that is in no chain and bound to no input. -/
def Diagnostic.isDetached : Diagnostic → Bool
  | .detachedValue _ => true
  | _ => false

namespace Graph

variable {g g' : Graph} (hids : (g.nodes.map Node.id).Nodup) (hperm : g.nodes.Perm g'.nodes)
include hperm

theorem placed_of_perm (hplaced : g.Placed) : g'.Placed :=
  fun n hn => hplaced n (hperm.mem_iff.2 hn)

theorem unreferenced_perm : g.unreferenced.Perm g'.unreferenced := by
  have hknown : ∀ id, g.referenced.contains id = g'.referenced.contains id := by
    intro id
    have hmem : id ∈ g.referenced ↔ id ∈ g'.referenced := (hperm.flatMap_right _).mem_iff
    simp [List.contains_eq_mem, hmem]
  unfold unreferenced
  simp only [hknown]
  exact hperm.filter _

include hids

theorem nodup_of_perm : (g'.nodes.map Node.id).Nodup := (hperm.map Node.id).nodup_iff.1 hids

/-- Ids that are unique find the same nodes in every order. -/
theorem node?_of_perm (id : String) : g'.node? id = g.node? id := by
  cases hn : g.node? id with
  | some n =>
      obtain rfl := id_of_node? hn
      exact node?_id (nodup_of_perm hids hperm) (hperm.mem_iff.1 (mem_of_node? hn))
  | none =>
      cases hn' : g'.node? id with
      | none => rfl
      | some n' =>
          obtain rfl := id_of_node? hn'
          rw [node?_id hids (hperm.mem_iff.2 (mem_of_node? hn'))] at hn
          cases hn

end Graph

namespace Compiler

open Gen

variable {c : Compiler} {g g' : Graph}

/-- The place of a node on the canvas, with its id, tells it from the other nodes. -/
theorem eq_of_canvasKey_eq (hids : (g.nodes.map Node.id).Nodup) {a b : Node} (ha : a ∈ g.nodes)
    (hb : b ∈ g.nodes) (hkey : a.canvasKey = b.canvasKey) : a = b := by
  have hid : a.id = b.id := by
    unfold Node.canvasKey at hkey
    simp only [EmbeddingLike.apply_eq_iff_eq, Prod.mk.injEq] at hkey
    exact hkey.2.2
  have hnode := Graph.node?_id hids ha
  rw [hid, Graph.node?_id hids hb] at hnode
  exact (Option.some.inj hnode).symm

theorem detachedNotes_perm {ns ns' : List Node} (h : ns.Perm ns') :
    (c.detachedNotes ns).Perm (c.detachedNotes ns') :=
  (h.filter _).map _

theorem isDetached_of_mem_detachedNotes {ns : List Node} {d : Diagnostic}
    (hd : d ∈ c.detachedNotes ns) : d.isDetached = true := by
  obtain ⟨n, -, rfl⟩ := List.mem_map.1 hd
  rfl

section Reordered

variable (hids : (g.nodes.map Node.id).Nodup) (hperm : g.nodes.Perm g'.nodes)
include hids hperm

theorem coincide_of_perm : c.Coincide g g' fun _ => True where
  nodes id _ := by
    rw [Graph.node?_of_perm hids hperm]
    exact (Coincide.refl c g).nodes id trivial
  onward _ _ _ _ _ _ _ := trivial

theorem compileBodyText_reordered (root : String) :
    c.compileBodyText g' (some root) {} = c.compileBodyText g (some root) {} :=
  compileBodyText_coincide (coincide_of_perm hids hperm) trivial rfl

theorem visitedFrom_reordered (root : String) : c.visitedFrom g' root = c.visitedFrom g root := by
  rw [visitedFrom, visitedFrom, compileBodyText_reordered hids hperm]

theorem rooted_outcome_reordered (root : String) :
    (c.compile g' (some root)).outcome = (c.compile g (some root)).outcome := by
  have hrun : c.compileBodyText g' (some root) {} = c.compileBodyText g (some root) {} :=
    compileBodyText_reordered hids hperm root
  cases hend : c.compileBodyText g (some root) {} with
  | ok body ctx =>
      rw [hend] at hrun
      rw [outcome_of_ok hend, outcome_of_ok hrun]
  | error fault ctx =>
      rw [hend] at hrun
      rw [outcome_of_error hend, outcome_of_error hrun]

/-- The chains come in the order of the canvas, whatever the order of the list. -/
theorem chainHeads_reordered (hplaced : g.Placed) : c.chainHeads g' = c.chainHeads g := by
  have hheads : (c.chainHeads g').Perm (c.chainHeads g) :=
    chainHeads_perm.trans
      (((Graph.unreferenced_perm hperm).symm.filter c.isHead).trans chainHeads_perm.symm)
  refine hheads.eq_of_pairwise (fun a b ha hb hab hba => ?_)
    (chainHeads_sorted (Graph.placed_of_perm hperm hplaced)) (chainHeads_sorted hplaced)
  exact eq_of_canvasKey_eq hids (hperm.mem_iff.2 (mem_nodes_of_mem_chainHeads ha))
    (mem_nodes_of_mem_chainHeads hb) (le_antisymm hab hba)

/-- The workspace in another order gives the same program, up to the notes on detached values in front
of its diagnostics. -/
theorem outcome_workspace_reordered (hplaced : g.Placed) {p : Program} (hp : (c.compile g none).outcome = .ok p) :
    ∃ rest, p.diagnostics = c.detachedNotes g.unreferenced ++ rest ∧
      (c.compile g' none).outcome =
        .ok ⟨p.macros, p.body, c.detachedNotes g'.unreferenced ++ rest⟩ := by
  obtain ⟨hknown, hdisjoint, ps, hps, rfl⟩ := (outcome_workspace_eq_ok hids).1 hp
  refine ⟨_, rfl, (outcome_workspace_eq_ok (Graph.nodup_of_perm hids hperm)).2 ⟨?_, ?_, ps, ?_, rfl⟩⟩
  · exact fun n hn => hknown n ((Graph.unreferenced_perm hperm).mem_iff.2 hn)
  · simpa only [chainHeads_reordered hids hperm hplaced, visitedFrom_reordered hids hperm] using hdisjoint
  · simpa only [chainHeads_reordered hids hperm hplaced, rooted_outcome_reordered hids hperm] using hps

end Reordered

/-- The order in which a program lists its nodes makes no difference to the compiled workspace. In one
order it compiles when it does in another, with the same text, macros and body; and the diagnostics are
the same, except that the notes on detached values are in the order of the list. The nodes have to have
places on the canvas, for it is these that order the chains. -/
theorem workspace_order_irrelevant (c : Compiler) (g g' : Graph)
    (hids : (g.nodes.map Node.id).Nodup) (hplaced : g.Placed) (hperm : g.nodes.Perm g'.nodes) :
    ((∃ p, (c.compile g none).outcome = .ok p) ↔ ∃ p', (c.compile g' none).outcome = .ok p') ∧
    ∀ p p', (c.compile g none).outcome = .ok p → (c.compile g' none).outcome = .ok p' →
      p'.text = p.text ∧ p'.macros = p.macros ∧ p'.body = p.body ∧
      (p'.diagnostics.filter fun d => !d.isDetached) = (p.diagnostics.filter fun d => !d.isDetached) ∧
      (p'.diagnostics.filter Diagnostic.isDetached).Perm
        (p.diagnostics.filter Diagnostic.isDetached) := by
  constructor
  · constructor
    · rintro ⟨p, hp⟩
      obtain ⟨rest, -, hp'⟩ := outcome_workspace_reordered hids hperm hplaced hp
      exact ⟨_, hp'⟩
    · rintro ⟨p', hp'⟩
      obtain ⟨rest, -, hp⟩ :=
        outcome_workspace_reordered (Graph.nodup_of_perm hids hperm) hperm.symm
          (Graph.placed_of_perm hperm hplaced) hp'
      exact ⟨_, hp⟩
  · intro p p' hp hp'
    obtain ⟨rest, hrest, hother⟩ := outcome_workspace_reordered hids hperm hplaced hp
    rw [hp'] at hother
    cases hother
    have hnone : ∀ ns, (c.detachedNotes ns).filter (fun d => !d.isDetached) = [] := by
      intro ns
      refine List.filter_eq_nil_iff.2 fun d hd => ?_
      simp [isDetached_of_mem_detachedNotes hd]
    refine ⟨rfl, rfl, rfl, ?_, ?_⟩
    · rw [hrest, List.filter_append, List.filter_append, hnone, hnone]
    · rw [hrest, List.filter_append, List.filter_append]
      have hnotes := detachedNotes_perm (c := c) (Graph.unreferenced_perm hperm).symm
      exact (hnotes.filter _).append_right _

/-- Two chains and two detached values. -/
def looseEnds : Graph := ⟨[
  stopNode,
  { id := "u", kind := "math_number" },
  tempoNode,
  { id := "v", kind := "logic_boolean" }]⟩

theorem looseEnds_heads : (builtin "  ").chainHeads looseEnds = [tempoNode, stopNode] := by
  have hfound : looseEnds.unreferenced.filter (builtin "  ").isHead = [stopNode, tempoNode] := rfl
  have hlate : headBefore stopNode tempoNode = false := rfl
  rw [chainHeads, hfound]
  simp [List.mergeSort, List.MergeSort.Internal.splitInTwo, hlate]

theorem looseEnds_outcome : ((builtin "  ").compile looseEnds none).outcome =
    .ok ⟨[], "set_tempo(90)\nstop_sound()\n",
      [.detachedValue ⟨"u", "math_number"⟩, .detachedValue ⟨"v", "logic_boolean"⟩]⟩ := by
  have hknown : ∀ n ∈ looseEnds.unreferenced, ((builtin "  ").registry.get? n.kind).isSome := by
    decide
  have hheads : (builtin "  ").heads looseEnds {} = .ok _ _ := heads_eq_ok.2
    ⟨fun n hn => Option.isSome_iff_exists.1 (hknown n hn), looseEnds_heads.symm, rfl⟩
  exact outcome_eq_ok.2 ⟨_, _, bind_eq_ok.2 ⟨_, _, hheads, rfl⟩, rfl⟩

theorem looseEnds_reversed : (looseEnds.nodes.map Node.id).Nodup ∧ looseEnds.Placed ∧
    looseEnds.nodes.Perm looseEnds.nodes.reverse ∧
    ∃ p', ((builtin "  ").compile ⟨looseEnds.nodes.reverse⟩ none).outcome = .ok p' ∧
      p'.text = "set_tempo(90)\nstop_sound()\n" ∧
      (p'.diagnostics.filter Diagnostic.isDetached).Perm
        [.detachedValue ⟨"u", "math_number"⟩, .detachedValue ⟨"v", "logic_boolean"⟩] := by
  have hids : (looseEnds.nodes.map Node.id).Nodup := by decide
  have hperm : looseEnds.nodes.Perm looseEnds.nodes.reverse := (List.reverse_perm _).symm
  obtain ⟨hiff, hall⟩ :=
    workspace_order_irrelevant (builtin "  ") looseEnds ⟨looseEnds.nodes.reverse⟩ hids (by decide) hperm
  obtain ⟨p', hp'⟩ := hiff.1 ⟨_, looseEnds_outcome⟩
  obtain ⟨htext, -, -, -, hdetached⟩ := hall _ p' looseEnds_outcome hp'
  exact ⟨hids, by decide, hperm, p', hp', htext, hdetached⟩

end Compiler

end BlockMusic
