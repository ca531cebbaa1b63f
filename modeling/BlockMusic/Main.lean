import BlockMusic.CommandLine.Compile

/-!
# The program

Reads the arguments, the environment and the input file, runs the compile command, and writes what
it says.
-/

namespace BlockMusic

/-- The variables that hold settings. -/
def settingNames : List String :=
  ["app_name", "app_version", "debug", "api_prefix", "cors_origins", "indent_unit"].map fun s =>
    "BLOCKSCORE_" ++ String.ofList (s.toList.map Char.toUpper)

def readEnvironment : IO Environment := do
  let found ← settingNames.mapM fun name => do
    pure ((← IO.getEnv name).map fun value => (name, value))
  pure (found.filterMap id)

/-- The codes, of either sign, by which a system says that a file is a directory. -/
def directoryCodes : List UInt32 := [21, -21]

/-- The reason for which the system refused a file, if it is one of those that are told apart. -/
def fileError? : IO.Error → Option CommandLine.FileError
  | .noFileOrDirectory .. => some .absent
  | .inappropriateType _ code _ =>
    some (if directoryCodes.contains code then .directory else .notADirectory)
  | _ => none

/-- The octets of a file, or why they cannot be read. -/
def readInput (path : String) : IO (Except CommandLine.FileError (List Nat)) := do
  match ← (IO.FS.readBinFile path).toBaseIO with
  | .ok bytes => pure (.ok (bytes.toList.map UInt8.toNat))
  | .error e =>
    match fileError? e with
    | some reason => pure (.error reason)
    | none => throw e

/-- Prints a report and gives its exit status. -/
def printReport (r : CommandLine.Report) : IO UInt32 := do
  IO.print r.stdout
  IO.eprint r.stderr
  match r.ending with
  | .exit status => pure (UInt32.ofNat status)
  | .crash (.file path e) => throw (IO.userError (e.message path.text))
  | .crash (.encoding fault) => throw (IO.userError fault.message)
  | .crash (.settings _) => throw (IO.userError "invalid settings")
  | .crash (.fault f) => throw (IO.userError f.message)

end BlockMusic

open BlockMusic in
def main (args : List String) : IO UInt32 := do
  let env ← readEnvironment
  let command := CommandLine.Command.ofArgs args
  let input ← match command with
    | .compile job => readInput job.input.text
    | _ => pure (.error .absent)
  match command.stage env fun _ => input with
  | .ended report => printReport report
  | .save path text stderr status =>
    match ← (IO.FS.writeFile path.text text).toBaseIO with
    | .ok _ => printReport (CommandLine.saved path stderr status)
    | .error e =>
      match fileError? e with
      | some reason => printReport (CommandLine.notSaved path stderr reason)
      | none => throw e
