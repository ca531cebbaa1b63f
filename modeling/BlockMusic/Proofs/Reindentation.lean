import BlockMusic.Proofs.Layout
import Mathlib.Data.List.Infix

/-!
# Quotations in indented bodies

A quotation escapes the newline and the carriage return, but text is cut into lines at every line
boundary of Unicode. A text with another boundary in it, such as a line separator, is therefore cut
inside its quotation, and every block around the statement puts its unit behind the boundary. All other
quotations stay as they are at any depth and with any unit.
-/

namespace BlockMusic

open Script Text

/-- A quotation that is left alone reads back as its text. -/
theorem tokens?_string (s : String) : tokens? (Script.string s) = some [.text s] := by
  have h := closes_quote s []
  rw [List.append_nil] at h
  rw [tokens?, Script.string, String.toList_ofList, h]
  rfl

namespace Compiler

/-- Every quotation of a program stands in the header of its node as it is worn at the depth of the node,
the headers quote what the nodes quote, and everything else is plain. A quotation that is worn is the one
written for its text exactly if it is at depth zero, the unit is empty, or the text has no line boundary
besides newlines and carriage returns; and the one written for a text reads back as that text. -/
theorem quotations_worn_by_depth (unit : String) (g : Graph) (root : Option String) (p : Program)
    (hids : (g.nodes.map Node.id).Nodup) (hok : ((builtin unit).compile g root).outcome = .ok p) :
    (∃ ctx l, (builtin unit).compileBodyText g root {} = .ok p.body ctx ∧
      ctx.visited = l.nodes.map Node.id ∧
      LaidAll g (endLine unit.toList) (OwnLine g unit.toList) ((builtin unit).starts g root) l ∧
      p.body.toList = unlines l.lines ∧ p.macros.map String.toList = l.macros.map unlines) ∧
    (∀ d s, worn unit.toList d s = (Script.string s).toList ↔
      d = 0 ∨ unit = "" ∨ ∀ c ∈ s.toList, isLoose c = false) ∧
    ∀ s, tokens? (Script.string s) = some [.text s] := by
  refine ⟨?_, fun d s => ?_, tokens?_string⟩
  · obtain ⟨body, ctx, hrun, rfl⟩ := outcome_eq_ok.1 hok
    obtain ⟨l, hlaid, hgained, htext⟩ := laidOut_of_ok hids hrun
    refine ⟨ctx, l, hrun, by simpa using hgained.visited, hlaid, htext, ?_⟩
    rw [hoisted_of_gained hgained hlaid.ne_nil_of_mem_macros]
    simp [Function.comp_def]
  · rw [Script.string, String.toList_ofList, worn_eq_quote_iff, String.toList_eq_nil_iff]

/-- A sample inside an effect, with a line separator in its name. -/
def separatedName : Graph := ⟨[
  { id := "a", kind := "with_fx", bodies := [("COMMANDS", "b")] },
  { id := "b", kind := "trigger_sample", fields := [("NAME", .text "a\u2028b")] }]⟩

def separatedProgram : Program where
  macros := []
  body := "with_fx(:echo) do\n  trigger_sample(\"a\u2028  b\")\nend\n"
  diagnostics := []

theorem separatedName_worn : (separatedName.nodes.map Node.id).Nodup ∧
    ((builtin "  ").compile separatedName (some "a")).outcome = .ok separatedProgram ∧
    worn "  ".toList 1 "a\u2028b" = "\"a\u2028  b\"".toList ∧
    worn "  ".toList 1 "a\u2028b" ≠ (Script.string "a\u2028b").toList := by
  have hids : (separatedName.nodes.map Node.id).Nodup := by decide
  have hok : ((builtin "  ").compile separatedName (some "a")).outcome = .ok separatedProgram := by
    decide +kernel
  obtain ⟨-, hworn, -⟩ :=
    quotations_worn_by_depth "  " separatedName (some "a") separatedProgram hids hok
  refine ⟨hids, hok, by decide +kernel, fun h => ?_⟩
  have hloose : ¬ ∀ c ∈ "a\u2028b".toList, isLoose c = false := fun hall =>
    absurd (hall '\u2028' (by simp)) (by decide)
  rcases (hworn 1 "a\u2028b").1 h with h | h | h
  · cases h
  · exact absurd h (by decide)
  · exact hloose h

/-- The name of a sample is not always found in the program: the unit gets into its quotation. -/
theorem separator_splits_quotation : ¬ ∀ (unit : String) (g : Graph) (root : String) (p : Program),
    (g.nodes.map Node.id).Nodup → ((builtin unit).compile g (some root)).outcome = .ok p →
    ∀ n ∈ g.nodes, n.id ∈ (builtin unit).visitedFrom g root → n.kind = "trigger_sample" →
    ∀ s, n.field? "NAME" = some (.text s) →
      ∃ text ∈ p.body :: p.macros, (Script.string s).toList <:+: text.toList := by
  intro h
  have hok : ((builtin "  ").compile separatedName (some "a")).outcome = .ok separatedProgram := by
    decide +kernel
  have hvisited : "b" ∈ (builtin "  ").visitedFrom separatedName "a" := by decide +kernel
  have hfound := h "  " separatedName "a" separatedProgram (by decide) hok _
    (List.mem_cons_of_mem _ List.mem_cons_self) hvisited rfl "a\u2028b" rfl
  revert hfound
  decide +kernel

end Compiler

end BlockMusic
