import BlockMusic.CommandLine.Options
import BlockMusic.Decimal.Numeral
import BlockMusic.Settings
import BlockMusic.Validation.Lenient

/-!
# Launching the service

The launch command reads where and how the service runs. The debug option writes its choice into the
environment, from which the settings are then read.
-/

namespace BlockMusic.Service

open CommandLine

inductive Switch where
  | help
  | host
  | port
  | logLevel
  | reload
  | accessLog
  | debug
  deriving DecidableEq, Repr

def switches : List (OptionSpec Switch) := [
  ⟨.help, ["-h", "--help"], false⟩,
  ⟨.host, ["--host"], true⟩,
  ⟨.port, ["--port"], true⟩,
  ⟨.logLevel, ["--log-level"], true⟩,
  ⟨.reload, ["--reload", "--no-reload"], false⟩,
  ⟨.accessLog, ["--access-log", "--no-access-log"], false⟩,
  ⟨.debug, ["--debug", "--no-debug"], false⟩]

def launchUsage : String :=
  "usage: blockscore-api [-h] [--host HOST] [--port PORT] [--log-level LOG_LEVEL]\n" ++
  "                      [--reload | --no-reload]\n" ++
  "                      [--access-log | --no-access-log] [--debug | --no-debug]\n"

/-- Where and how the service runs. -/
structure Launch where
  host : String := "0.0.0.0"
  port : Int := 8000
  logLevel : String := "info"
  reload : Bool := false
  accessLog : Bool := true
  debug : Option Bool := none

/-- The digits of a number grouped by single underscores, which stand between digits only. -/
def groupedDigits? : List Char → Option (List Nat)
  | [] => none
  | [c] => (Text.digit? c).map ([·])
  | c :: '_' :: cs => do
    let d ← Text.digit? c
    let ds ← groupedDigits? cs
    pure (d :: ds)
  | c :: cs => do
    let d ← Text.digit? c
    let ds ← groupedDigits? cs
    pure (d :: ds)

/-- A port is an integer, with blanks around it and underscores in it if need be. -/
def port? (s : String) : Option Int :=
  let (negative, cs) := Numeral.sign (Text.trimWhile Lenient.isSpace s.toList)
  (groupedDigits? cs).bind fun ds =>
    if 4300 < ds.length then none else some (Numeral.integer negative ds)

/-- How a launch command line ends without a launch. -/
inductive Refusal where
  | help
  | misuse (message : String)

/-- Takes over one option. -/
def Launch.apply (l : Launch) (u : Use Switch) : Except Refusal Launch :=
  let on := !Text.startsWith "--no-" u.name
  let value := u.value.getD ""
  match u.key with
  | .help => .error .help
  | .host => .ok { l with host := value }
  | .port =>
    match port? value with
    | some n => .ok { l with port := n }
    | none => .error (.misuse s!"argument --port: invalid int value: {Text.quoted value}")
  | .logLevel => .ok { l with logLevel := value }
  | .reload => .ok { l with reload := on }
  | .accessLog => .ok { l with accessLog := on }
  | .debug => .ok { l with debug := some on }

/-- The launch that a command line asks for. -/
def Launch.ofArgs (args : List String) : Except Refusal Launch :=
  let r := readLine switches false args
  match r.uses.foldlM Launch.apply {} with
  | .error e => .error e
  | .ok l =>
    match r.problem? with
    | some message => .error (.misuse message)
    | none => .ok l

/-- Sets a variable of an environment in place, or adds it at the end. -/
def setVariable (env : Environment) (name value : String) : Environment :=
  Json.putEntry name value env

/-- The environment in which the settings of a launch are read. -/
def Launch.environment (l : Launch) (env : Environment) : Environment :=
  match l.debug with
  | none => env
  | some on => setVariable env "BLOCKSCORE_DEBUG" (if on then "1" else "0")

/-- What the server is started with. -/
def Launch.toJson (l : Launch) : Json :=
  .obj [("target", .str "backend.app.main:app"), ("host", .str l.host), ("port", .int l.port),
    ("reload", .bool l.reload), ("log_level", .str l.logLevel), ("access_log", .bool l.accessLog)]

/-- The message about a launch command line that cannot be used. -/
def misuseText (message : String) : String :=
  launchUsage ++ "blockscore-api: error: " ++ message ++ "\n"

end BlockMusic.Service
