import BlockMusic.Compile.Diagnostic
import BlockMusic.Compile.Error

/-!
# The context of a compilation

The context is what a compilation carries along: the scope it is in, the macros hoisted so far with
the nodes that own them, the diagnostics, the nodes whose values are being resolved, and the
statements visited. A macro is first reserved, which fixes its place, and filled later.
-/

namespace BlockMusic

/-- The state of one compilation. -/
structure Context where
  scope : Option String := none
  /-- The macros in the order of their reservation; a reserved one has no text yet. -/
  macros : List (Option String) := []
  diagnostics : List Diagnostic := []
  /-- The ids of the nodes being resolved, outermost first. -/
  resolving : List String := []
  /-- The ids of the statements visited, in the order of the visits. -/
  visited : List String := []
  /-- The place of the macro that a node owns. -/
  owners : List (String × Nat) := []
  deriving DecidableEq

namespace Context

def inScope (c : Context) : Bool := c.scope.isSome

/-- The context inside a scope, or back in the scope around it. -/
@[simp] def withScope (c : Context) (scope : Option String) : Context := { c with scope }

/-- Starts to resolve a node, unless that is under way already. -/
def enterNode (c : Context) (n : NodeName) : Except CompileError Context :=
  if n.id ∈ c.resolving then .error (.cyclicValue (some n.id) (some n.kind) c.resolving)
  else .ok { c with resolving := c.resolving ++ [n.id] }

/-- Ends the resolution of the newest node. -/
@[simp] def leaveNode (c : Context) : Context := { c with resolving := c.resolving.dropLast }

/-- Visits a statement, which no other visit may have reached. -/
def visit (c : Context) (n : NodeName) : Except CompileError Context :=
  if n.id ∈ c.visited then .error (.cyclicChain (some n.id) (some n.kind))
  else .ok { c with visited := c.visited ++ [n.id] }

/-- The place of the owner's macro, reserved now unless it was before. -/
def reserve (c : Context) (owner : String) : Nat × Context :=
  match c.owners.lookup owner with
  | some slot => (slot, c)
  | none =>
    (c.macros.length,
      { c with macros := c.macros ++ [none], owners := c.owners ++ [(owner, c.macros.length)] })

/-- Fills a macro. -/
@[simp] def fill (c : Context) (slot : Nat) (text : String) : Context :=
  { c with macros := c.macros.set slot (some text) }

/-- The place that an index names; a negative one counts from the end. -/
def place? (c : Context) (index : Int) : Option Nat :=
  let i := if index < 0 then index + c.macros.length else index
  if 0 ≤ i ∧ i < c.macros.length then some i.toNat else none

/-- Fills the macro that an index names, if there is one. -/
def fillAt? (c : Context) (index : Int) (text : String) : Option Context :=
  (c.place? index).map fun slot => c.fill slot text

/-- The macros that have a text. -/
def hoisted (c : Context) : List String :=
  c.macros.filterMap fun
    | some text => if text = "" then none else some text
    | none => none

@[simp] def note (c : Context) (d : Diagnostic) : Context :=
  { c with diagnostics := c.diagnostics ++ [d] }

def noteAll (c : Context) (ds : List Diagnostic) : Context :=
  { c with diagnostics := c.diagnostics ++ ds }

end Context

end BlockMusic
