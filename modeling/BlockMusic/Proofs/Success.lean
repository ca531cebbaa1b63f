import BlockMusic.Proofs.Drafts
import BlockMusic.Proofs.History

/-!
# When a compilation succeeds

A compilation from a root succeeds exactly when the part of the graph that it reaches is well formed,
unless the nesting goes too deep or a writer fails. One direction reads the history of a successful
walk: it holds every edge that can be reached, and no node twice. The other one says that a structural
fault is never raised without a reason.
-/

namespace BlockMusic

/-! ## The built-in writers -/

namespace Draft

/-- The draft does not end with a structural fault. -/
def Quiet {α : Type} (d : Draft α) : Prop := ∀ e, d.outcome ≠ .error (.compile e)

theorem universal_quiet : Universal Quiet where
  done a e h := by cases h
  render f e h := by cases h
  operator token e h := by cases h
  choice node field value used e h := by cases h
  number node field e h := by cases h
  bind hx hf e h := by
    rcases error_of_bind h with h | ⟨a, -, h⟩
    · exact hx e h
    · exact hf a e h

end Draft

namespace Compiler

theorem quiet_builtin (unit : String) : (builtin unit).Quiet :=
  universal_builtin Draft.universal_quiet unit

/-! ## Reading the history -/

variable {c : Compiler} {g : Graph} {root : String} {n : Node} {b : Block} {e : Entry}
  {L start : List Entry}

theorem Grounded.known {i : ValueInput} {id : String} (h : c.Grounded g n i)
    (hin : n.input? i.name = some (.node id)) : c.Known g id := by
  cases h with
  | free hfree => exact absurd hin (hfree id)
  | bound hin' hnode hb _ =>
      rw [hin] at hin'
      cases hin'
      exact ⟨_, _, hnode, hb⟩

/-- When the statements of the chains are settled, everything that is written is grounded. -/
theorem Written.grounded (h : c.Written g root n)
    (hsettled : ∀ n, c.ChainNode g root n → c.Settled g n.id)
    (hb : c.registry.get? n.kind = some b) : ∀ i ∈ b.inputs, c.Grounded g n i := by
  induction h generalizing b with
  | statement hn hb' hs =>
      obtain ⟨m, b'', hm, hb'', hgrounded⟩ := hsettled _ hn
      rw [hn.node?] at hm
      cases hm
      obtain rfl := Option.some.inj (hb'.symm.trans hb)
      obtain rfl := Option.some.inj (hb''.symm.trans hb)
      exact hgrounded hs
  | value hn hedge ih =>
      obtain ⟨b', i, hb', hi, htarget⟩ := hedge
      exact (ih hb' i hi).inputs htarget hb

end Compiler

end BlockMusic
