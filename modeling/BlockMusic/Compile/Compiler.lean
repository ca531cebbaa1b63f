import BlockMusic.Block.Catalogue
import BlockMusic.Compile.Context
import BlockMusic.Compile.Writer

/-!
# Compilers

A compiler holds the registered blocks, a writer for each kind, and the unit of indentation. It walks
a graph from a node: the value inputs of the node are resolved to fragments, its bodies are compiled
as chains, and its writer puts them together. A motif's text goes to its macro instead of the chain.

The walk carries the context and keeps it when it fails. Each value inside a value costs three levels
of the nesting allowance, each body inside a body four; the allowance is what the recursion runs on.
-/

namespace BlockMusic

/-- Blocks, their writers and the unit of indentation. -/
structure Compiler where
  registry : Registry
  writer : String → Writer
  indentUnit : String

/-- The kinds without a writer, and the kinds with one that are not registered. -/
structure OutOfStep where
  missing : List String
  unregistered : List String
  deriving DecidableEq, Repr

def OutOfStep.message (o : OutOfStep) : String :=
  s!"Block generators out of sync with registry (missing: {Text.quotedList o.missing}, " ++
    s!"unregistered: {Text.quotedList o.unregistered})"

namespace Compiler

/-- Texts in increasing order. -/
def sorted (ss : List String) : List String := ss.mergeSort fun a b => !(b < a)

/-- The compiler of a registry and a table of writers, which must have the same kinds. -/
def ofTable (registry : Registry) (table : List (String × Writer)) (indentUnit : String) :
    Except OutOfStep Compiler :=
  let known := table.map Prod.fst
  let missing := registry.kinds.filter fun k => !known.contains k
  let unregistered := known.filter fun k => !registry.kinds.contains k
  if missing.isEmpty && unregistered.isEmpty then
    .ok { registry, indentUnit,
          writer := fun kind => (table.lookup kind).getD fun _ => .done (.text "") }
  else .error ⟨sorted missing, sorted unregistered⟩

/-- The compiler of the built-in blocks. -/
def builtin (indentUnit : String) : Compiler where
  registry := Registry.builtin []
  writer kind := (Writer.builtin.lookup kind).getD fun _ => .done (.text "")
  indentUnit := indentUnit

/-- The default unit of indentation. -/
def defaultIndent : String := "  "

/-- A run of a compiler: it carries the context and keeps it on failure. -/
abbrev Gen := EStateM Fault Context

namespace Gen

variable {α : Type}

def stop (e : CompileError) : Gen α := throw (.compile e)

def note (d : Diagnostic) : Gen Unit := modify fun c => c.note d

/-- Notes a diagnostic on a condition. -/
def noteIf (b : Bool) (d : Diagnostic) : Gen Unit := if b then note d else pure ()

/-- Takes over a change of the context that may be refused. -/
def change (f : Context → Except CompileError Context) : Gen Unit := fun c =>
  match f c with
  | .ok c' => .ok () c'
  | .error e => .error (.compile e) c

def reserve (owner : String) : Gen Nat := fun c => .ok (c.reserve owner).1 (c.reserve owner).2

def fill (slot : Nat) (text : String) : Gen Unit := modify fun c => c.fill slot text

/-- Runs inside a scope, and returns to the one around it also on failure. -/
def inside (tag : String) (x : Gen α) : Gen α := fun c =>
  match x (c.withScope (some tag)) with
  | .ok a c' => .ok a (c'.withScope c.scope)
  | .error e c' => .error e (c'.withScope c.scope)

/-- Runs while a node is being resolved, and ends that also on failure. -/
def resolving (n : NodeName) (x : Gen α) : Gen α := fun c =>
  match c.enterNode n with
  | .error e => .error (.compile e) c
  | .ok c₁ =>
    match x c₁ with
    | .ok a c₂ => .ok a c₂.leaveNode
    | .error e c₂ => .error e c₂.leaveNode

/-- Takes over a draft: its notes, then its outcome. -/
def ofDraft (d : Draft α) : Gen α := fun c =>
  match d.outcome with
  | .ok a => .ok a (c.noteAll d.notes)
  | .error e => .error e (c.noteAll d.notes)

end Gen

/-- Writes a node, its inputs and bodies included. -/
abbrev Level := Node → Block → Gen Output

/-- The level beyond the allowance. -/
def beyond : Level := fun _ _ => throw .tooDeep

variable (c : Compiler) (g : Graph)

/-- The block of a node. -/
def lookup (n : Node) : Gen Block :=
  match c.registry.get? n.kind with
  | some b => pure b
  | none => .stop (.unknownKind (some n.id) (some n.kind))

/-- The fragment of a literal. -/
def literalFragment (l : Literal) : Gen Fragment :=
  match l.script with
  | .ok s => pure (.atom s)
  | .error e => throw (.render e)

/-- The fragment of a value input. An input that is not bound has its default or is empty; one that is
bound to a statement is empty. -/
def resolveInput (inner : Level) (n : Node) (i : ValueInput) : Gen Fragment :=
  match n.input? i.name with
  | none =>
    match i.default with
    | some l => literalFragment l
    | none => do
      Gen.noteIf i.required (.unboundInput n.name i.name)
      pure .empty
  | some (.literal l) => literalFragment l
  | some (.node id) =>
    match g.node? id with
    | none => .stop (.danglingReference id (some n.id) (some n.kind) (.input i.name))
    | some child => do
      let b ← c.lookup child
      if b.producesValue then do
        let output ← Gen.resolving child.name (inner child b)
        pure (output.value b)
      else do
        Gen.note (.statementAsValue n.name i.name child.name)
        pure .empty

/-- The fragments of all value inputs, in front of those `done`. -/
def resolveInputs (inner : Level) (n : Node) :
    List (String × Fragment) → List ValueInput → Gen (List (String × Fragment))
  | done, [] => pure done
  | done, i :: is => do
    let f ← c.resolveInput g inner n i
    resolveInputs inner n ((i.name, f) :: done) is

/-- The text of a statement. The text of a motif becomes a macro, and nothing is left in its place. -/
def statement (run : Level) (n : Node) (b : Block) : Gen String := do
  if b.scope = .motif then
    match (← get).scope with
    | some tag => Gen.note (.nestedMotif n.id tag)
    | none => pure ()
    let slot ← Gen.reserve n.id
    let output ← Gen.inside b.scope.tag (run n b)
    Gen.fill slot (output.statement ++ "\n")
    pure ""
  else if b.definesScope then
    let output ← Gen.inside b.scope.tag (run n b)
    pure output.statement
  else
    let output ← run n b
    pure output.statement

/-- A statement with the newline that ends it; an empty one leaves nothing. -/
def terminated (s : String) : String := if s = "" then "" else s ++ "\n"

/-- The text of a chain from a node on, of which at most `more` nodes are new. A chain that goes on
beyond them returns to a node it has visited. -/
def chainFrom (run : Level) : Nat → Node → Gen String
  | 0, n => .stop (.cyclicChain (some n.id) (some n.kind))
  | more + 1, n => do
    let b ← c.lookup n
    Gen.change fun ctx => ctx.visit n.name
    let text ← if b.isStatement then statement run n b else do
      Gen.note (.valueInChain n.name)
      pure ""
    match n.next with
    | none => pure (terminated text)
    | some id =>
      match g.node? id with
      | none => .stop (.danglingReference id (some n.id) (some n.kind) .next)
      | some following => do
        let rest ← chainFrom run more following
        pure (terminated text ++ rest)

/-- The text of a chain. -/
def chain (run : Level) (first : Node) : Gen String := c.chainFrom g run g.nodes.length first

/-- The text of a body. -/
def compileBody (inner : Level) (n : Node) (i : BodyInput) : Gen String :=
  match n.body? i.name with
  | none => do
    Gen.noteIf i.required (.emptyBody n.name i.name)
    pure ""
  | some id =>
    match g.node? id with
    | none => .stop (.danglingReference id (some n.id) (some n.kind) (.body i.name))
    | some first => c.chain g inner first

/-- The texts of all bodies, in front of those `done`. -/
def compileBodies (inner : Level) (n : Node) :
    List (String × String) → List BodyInput → Gen (List (String × String))
  | done, [] => pure done
  | done, i :: is => do
    let s ← c.compileBody g inner n i
    compileBodies inner n ((i.name, s) :: done) is

/-- One level: the inputs and bodies of a node by the levels inside, then its writer. -/
def level (values bodies : Level) : Level := fun n b => do
  let fragments ← c.resolveInputs g values n [] b.inputs
  let texts ← c.compileBodies g bodies n [] b.bodies
  Gen.ofDraft (c.writer b.kind
    { node := n, block := b, indentUnit := c.indentUnit, values := fragments, bodies := texts })

/-- The level with a given allowance for what is inside: three for a value, four for a body. -/
def run : Nat → Level
  | 0 => c.level g beyond beyond
  | 1 => c.level g beyond beyond
  | 2 => c.level g beyond beyond
  | 3 => c.level g (run 0) beyond
  | k + 4 => c.level g (run (k + 1)) (run k)

/-- The allowance of a whole program. -/
def allowance : Nat := 900

/-- Compiles the chain that starts at a node. -/
def compileChain (id : String) : Gen String :=
  match g.node? id with
  | none => .stop (.danglingReference id none none .root)
  | some first => c.chain g (c.run g allowance) first

/-- The level for the values of a node outside any chain. -/
def valueLevel : Level := c.run g (allowance - 3)

/-- Resolves a value input for a consumer that takes tiers up to `consumer`. There is no fragment when
the block declares no such input. -/
def resolveValue (n : Node) (slot : String) (consumer : Int) : Gen (Option Fragment) := do
  let b ← c.lookup n
  match b.inputs.find? fun i => i.name = slot with
  | none => pure none
  | some i => do
    let f ← c.resolveInput g (c.valueLevel g) n i
    pure (some (f.asOperand consumer))

/-- The first chain has to stand before the second: from the top of the canvas to its bottom, from left
to right, then by id. A coordinate that is a nan compares with none. -/
def headAhead (a b : Node) : Bool :=
  let p := a.position
  let q := b.position
  p.y.isBefore q.y ||
    (p.y.isLevelWith q.y && (p.x.isBefore q.x || (p.x.isLevelWith q.x && a.id < b.id)))

/-- The order of the chains. With a nan among the coordinates it is no order, and where the chains then
stand is not said by it alone. -/
def headBefore (a b : Node) : Bool := !headAhead b a

/-- The statements among nodes; each other node is noted as detached. -/
def statementsAmong : List Node → Gen (List Node)
  | [] => pure []
  | n :: ns => do
    let b ← c.lookup n
    if b.isStatement then do
      let rest ← statementsAmong ns
      pure (n :: rest)
    else do
      Gen.note (.detachedValue n.name)
      statementsAmong ns

/-- The first nodes of the chains of a graph, in the order of the canvas. -/
def heads : Gen (List Node) := do
  let found ← c.statementsAmong g.unreferenced
  pure (found.mergeSort headBefore)

/-- Compiles chains one after the other. -/
def compileHeads : List Node → Gen String
  | [] => pure ""
  | n :: ns => do
    let first ← c.chain g (c.run g allowance) n
    let rest ← compileHeads ns
    pure (first ++ rest)

/-- Compiles one chain, or all of them. -/
def compileBodyText : Option String → Gen String
  | some id => c.compileChain g id
  | none => do
    let hs ← c.heads g
    c.compileHeads g hs

end Compiler

end BlockMusic
