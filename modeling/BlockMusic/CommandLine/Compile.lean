import BlockMusic.CommandLine.Files
import BlockMusic.CommandLine.Options
import BlockMusic.Compile.Program
import BlockMusic.Graph.Document
import BlockMusic.Settings
import BlockMusic.Text.Utf8

/-!
# The compile command

The command compiles a saved graph into program text, on standard output or into a file, and prints
its log, its warnings and its errors on standard error. It can also list the known blocks.
-/

namespace BlockMusic.CommandLine

inductive Flag where
  | help
  | output
  | root
  | listBlocks
  | strict
  | debug
  deriving DecidableEq, Repr

def flags : List (OptionSpec Flag) := [
  ⟨.help, ["-h", "--help"], false⟩,
  ⟨.output, ["-o", "--output"], true⟩,
  ⟨.root, ["--root"], true⟩,
  ⟨.listBlocks, ["--list-blocks"], false⟩,
  ⟨.strict, ["--strict"], false⟩,
  ⟨.debug, ["--debug"], false⟩]

def usage : String :=
  "usage: blockscore-compile [-h] [-o OUTPUT] [--root ROOT] [--list-blocks]\n" ++
  "                          [--strict] [--debug]\n" ++
  "                          [input]\n"

def help : String :=
  usage ++ "\n" ++
  "Compile a block program graph (JSON) into music script source\n\n" ++
  "positional arguments:\n" ++
  "  input                 Path to the program graph JSON file\n\n" ++
  "options:\n" ++
  "  -h, --help            show this help message and exit\n" ++
  "  -o OUTPUT, --output OUTPUT\n" ++
  "                        Output file path (default: stdout)\n" ++
  "  --root ROOT           Id of the first block of the chain to compile\n" ++
  "                        (default: every top-level chain)\n" ++
  "  --list-blocks         List all known block kinds and exit\n" ++
  "  --strict              Exit with status 2 when the output was degraded by\n" ++
  "                        incomplete blocks\n" ++
  "  --debug               Verbose logging on stderr\n"

/-- A compilation as asked for. -/
structure Job where
  input : Path
  output : Option Path
  root : Option String
  strict : Bool
  debug : Bool

inductive Command where
  | help
  | misuse (message : String)
  | listBlocks
  | compile (job : Job)

/-- The last value given to an option. -/
def lastValue? (uses : List (Use Flag)) (flag : Flag) : Option String :=
  (uses.reverse.find? fun u => u.key = flag).bind Use.value

def isGiven (uses : List (Use Flag)) (flag : Flag) : Bool := uses.any fun u => u.key = flag

/-- The command that a command line asks for. Help comes before any error behind it. -/
def Command.ofArgs (args : List String) : Command :=
  let r := readLine flags true args
  if isGiven r.uses .help then .help
  else
    match r.problem? with
    | some message => .misuse message
    | none =>
      if isGiven r.uses .listBlocks then .listBlocks
      else
        match r.word with
        | none => .misuse "the following arguments are required: input"
        | some input =>
          let output := (lastValue? r.uses .output).bind fun s =>
            if s = "" then none else some (Path.ofText s)
          .compile
            { input := Path.ofText input, output, root := lastValue? r.uses .root
              strict := isGiven r.uses .strict, debug := isGiven r.uses .debug }

/-- What ends a run without an exit status. -/
inductive Crash where
  | file (path : Path) (e : FileError)
  | encoding (fault : Text.Utf8.Fault)
  | settings (failure : Settings.Failure)
  | fault (f : Fault)

/-- How a run ends. -/
inductive Ending where
  | exit (status : Nat)
  | crash (c : Crash)

/-- What a run prints, and how it ends. -/
structure Report where
  stdout : String := ""
  stderr : String := ""
  ending : Ending

/-- A run up to the writing of its output file. -/
inductive Stage where
  | ended (report : Report)
  /-- The text is still to be written; the exit status is for when that is done. -/
  | save (path : Path) (text : String) (stderr : String) (status : Nat)

/-- The report when the output file is written. -/
def saved (path : Path) (stderr : String) (status : Nat) : Report :=
  { stderr := stderr ++ "Written: " ++ path.text ++ "\n", ending := .exit status }

/-- The report when the output file cannot be written. -/
def notSaved (path : Path) (stderr : String) (e : FileError) : Report :=
  { stderr, ending := .crash (.file path e) }

/-- The log lines that are shown; without `debug` the least severe are left out. -/
def shownLog (debug : Bool) (log : List LogLine) : String :=
  String.join <| (log.filter fun l => debug || l.severity ≠ .debug).map fun l =>
    l.severity.name ++ ": " ++ l.message ++ "\n"

def warnings (diagnostics : List Diagnostic) : String :=
  String.join (diagnostics.map fun d => "warning: " ++ d.message ++ "\n")

/-- The number of issues in words. -/
def issueCount (n : Nat) : String :=
  if n = 1 then "1 validation error" else s!"{n} validation errors"

/-- Compiles a graph that was read. -/
def compileGraph (job : Job) (settings : Settings) (g : Graph) : Stage :=
  let compilation := (Compiler.builtin settings.indentUnit).compile g job.root
  let log := shownLog job.debug compilation.log
  match compilation.outcome with
  | .error (.compile e) =>
    .ended
      { stderr := log ++ "Error compiling " ++ job.input.text ++ ": " ++ e.message ++ "\n"
        ending := .exit 1 }
  | .error f => .ended { stderr := log, ending := .crash (.fault f) }
  | .ok program =>
    let stderr := log ++ warnings program.diagnostics
    let status := if job.strict && !program.diagnostics.isEmpty then 2 else 0
    match job.output with
    | some path => .save path program.text stderr status
    | none => .ended { stdout := program.text, stderr, ending := .exit status }

/-- Compiles the document in an input file, given what reading the file gave. -/
def compileFile (job : Job) (env : Environment) (input : Except FileError (List Nat)) : Stage :=
  match input with
  | .error .directory => .ended { ending := .crash (.file job.input .directory) }
  | .error .nameTooLong => .ended { ending := .crash (.file job.input .nameTooLong) }
  | .error _ =>
    .ended { stderr := "Error: file not found: " ++ job.input.text ++ "\n", ending := .exit 1 }
  | .ok octets =>
    match Text.Utf8.decode octets with
    | .error fault => .ended { ending := .crash (.encoding fault) }
    | .ok text =>
      match Graph.schema.ofDocument text with
      | .invalid issues =>
        let count := issueCount issues.length
        .ended
          { stderr := s!"Error reading {job.input.text}: {count} for ProgramGraph\n"
            ending := .exit 1 }
      | .valid g =>
        match Settings.ofEnvironment env with
        | .error failure => .ended { ending := .crash (.settings failure) }
        | .ok settings => compileGraph job settings g

/-- A text with blanks behind it up to a width. -/
def padRight (width : Nat) (s : String) : String :=
  s ++ String.ofList (List.replicate (width - s.length) ' ')

/-- A block in the listing: its kind, its shape, and its inputs and bodies. -/
def listedBlock (b : Block) : String :=
  let slots := b.inputs.map ValueInput.name ++ b.bodies.map fun i => i.name ++ ":"
  let shape := if b.producesValue then "value" else "statement"
  let shown := if slots.isEmpty then "" else " [" ++ ", ".intercalate slots ++ "]"
  "  " ++ padRight 24 b.kind ++ " " ++ shape ++ shown ++ "\n"

/-- The blocks of a registry under their categories. -/
def listing (r : Registry) : String :=
  String.join <| r.categories.map fun (category, count) =>
    s!"{category} ({count})\n" ++ String.join ((r.list (some category)).map listedBlock)

/-- Runs a command up to the writing of its output file. The input file is read by `read`. -/
def Command.stage (env : Environment) (read : Path → Except FileError (List Nat)) :
    Command → Stage
  | .help => .ended { stdout := CommandLine.help, ending := .exit 0 }
  | .misuse message =>
    .ended
      { stderr := usage ++ "blockscore-compile: error: " ++ message ++ "\n", ending := .exit 2 }
  | .listBlocks => .ended { stdout := listing (Registry.builtin []), ending := .exit 0 }
  | .compile job => compileFile job env (read job.input)

/-- The octets of a text. -/
def octetsOf (s : String) : List Nat := s.toUTF8.toList.map UInt8.toNat

/-- Runs a command line on a tree of files. -/
def run (args : List String) (env : Environment) (files : FileTree) : Report × FileTree :=
  match (Command.ofArgs args).stage env files.read with
  | .ended report => (report, files)
  | .save path text stderr status =>
    match files.write path (octetsOf text) with
    | .ok files' => (saved path stderr status, files')
    | .error e => (notSaved path stderr e, files)

end BlockMusic.CommandLine
