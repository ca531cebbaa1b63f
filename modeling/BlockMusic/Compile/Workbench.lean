import BlockMusic.Compile.Context

/-!
# Steps on a context

A workbench is a context together with the scopes and resolutions that are open, newest first. Every
operation of a context is a step on it; a step that fails changes nothing.
-/

namespace BlockMusic

/-- A scope or resolution that is still open. -/
inductive Opened where
  /-- The scope to return to. -/
  | scope (outer : Option String)
  | node (id : String)
  deriving DecidableEq, Repr

structure Workbench where
  context : Context := {}
  opened : List Opened := []

namespace Workbench

/-- An operation on a context. -/
inductive Action where
  | scope (tag : String)
  | resolve (node : NodeName)
  /-- Leaves what was opened last. -/
  | exit
  /-- Leaves it because something failed inside. -/
  | abandon
  | visit (node : NodeName)
  | reserve (owner : String)
  | fill (index : Int) (text : String)
  | hoisted
  | degrade (message : String)

/-- What an operation answers. -/
inductive Answer where
  | done
  | closed
  | slot (n : Nat)
  | texts (ss : List String)
  deriving DecidableEq, Repr

/-- Why an operation fails. -/
inductive Refusal where
  | compile (e : CompileError)
  | nothingOpen
  | noSuchMacro
  deriving DecidableEq

/-- The context after closing what was opened. -/
def close (c : Context) : Opened → Context
  | .scope outer => c.withScope outer
  | .node _ => c.leaveNode

/-- Closes what was opened last. -/
def leave (w : Workbench) : Except Refusal (Answer × Workbench) :=
  match w.opened with
  | [] => .error .nothingOpen
  | o :: rest => .ok (.closed, ⟨close w.context o, rest⟩)

/-- Performs one operation. -/
def step (w : Workbench) : Action → Except Refusal (Answer × Workbench)
  | .scope tag => .ok (.done, ⟨w.context.withScope (some tag), .scope w.context.scope :: w.opened⟩)
  | .resolve node =>
    match w.context.enterNode node with
    | .ok c => .ok (.done, ⟨c, .node node.id :: w.opened⟩)
    | .error e => .error (.compile e)
  | .exit => w.leave
  | .abandon => w.leave
  | .visit node =>
    match w.context.visit node with
    | .ok c => .ok (.done, { w with context := c })
    | .error e => .error (.compile e)
  | .reserve owner =>
    let (slot, c) := w.context.reserve owner
    .ok (.slot slot, { w with context := c })
  | .fill index text =>
    match w.context.fillAt? index text with
    | some c => .ok (.done, { w with context := c })
    | none => .error .noSuchMacro
  | .hoisted => .ok (.texts w.context.hoisted, w)
  | .degrade message => .ok (.done, { w with context := w.context.note (.remark message) })

/-- The workbench after an operation, whether it succeeds or not. -/
def after (w : Workbench) (a : Action) : Workbench :=
  match w.step a with
  | .ok (_, w') => w'
  | .error _ => w

end Workbench

end BlockMusic
