import BlockMusic.Block.Basic
import BlockMusic.Compile.Diagnostic
import BlockMusic.Compile.Error

/-!
# Drafts

A writer turns a node into text. Its draft is the outcome together with the diagnostics noted on the
way, which are kept when the writer fails. A writer can add diagnostics and nothing else to a
compilation.
-/

namespace BlockMusic

/-- An outcome and the diagnostics noted on the way to it. -/
structure Draft (α : Type) where
  outcome : Except Fault α
  notes : List Diagnostic

namespace Draft

variable {α β : Type}

def done (a : α) : Draft α := ⟨.ok a, []⟩

def fail (f : Fault) : Draft α := ⟨.error f, []⟩

def note (d : Diagnostic) : Draft Unit := ⟨.ok (), [d]⟩

/-- Goes on from an outcome; a failure ends the draft. -/
def andThen (x : Draft α) (f : α → Draft β) : Draft β :=
  match x.outcome with
  | .ok a => ⟨(f a).outcome, x.notes ++ (f a).notes⟩
  | .error e => ⟨.error e, x.notes⟩

instance : Monad Draft where
  pure := done
  bind := andThen

/-- The draft of a literal. -/
def ofRender : Except RenderError α → Draft α
  | .ok a => done a
  | .error e => fail (.render e)

@[simp] theorem done_bind (a : α) (f : α → Draft β) : (done a).andThen f = f a := by
  simp [done, andThen]

end Draft

/-- What a writer produces: the text of a statement, or a fragment with a tier of its own. -/
inductive Output where
  | text (s : String)
  | fragment (f : Fragment)
  deriving DecidableEq

namespace Output

/-- A tier as the description of a fragment shows it. -/
def tierText : Tier → String
  | .named p => s!"<Precedence.{p.label}: {p.rank}>"
  | .number n => toString n

/-- The text in the place of a statement. A fragment there is described, not spliced in. -/
def statement : Output → String
  | .text s => s
  | .fragment f => s!"Fragment(text={Text.quoted f.text}, tier={tierText f.tier})"

/-- The fragment in the place of a value. A bare text has the tier of its block. -/
def value (b : Block) : Output → Fragment
  | .text s => ⟨s, .named (b.precedence.getD .atomic)⟩
  | .fragment f => f

end Output

end BlockMusic
