import BlockMusic.CommandLine.Compile
import BlockMusic.Proofs.Invocation
import BlockMusic.Proofs.Obstacles
import BlockMusic.Proofs.Origins
import BlockMusic.Proofs.Success
import BlockMusic.Service.App

/-!
# The command and the service agree

A document can be compiled by the command, from a file, and by the service, inside the body of a
request. `Submission` is one document given to both, with the same root and under the same settings. What
the two answer is compared as a caller sees it: the report and the files of the command, the status and
the content of the response.

The service refuses what the command refuses, and answers with the program that the command puts out and
the diagnostics that it prints as warnings.
-/

namespace BlockMusic

open CommandLine Service

/-! ## Submissions -/

/-- A document that is given to the command in a file and to the service in a request. -/
structure Submission where
  /-- The text of the document. -/
  text : String
  settings : Settings
  args : List String
  env : Environment
  files : FileTree
  /-- What the command line asks for. -/
  job : Job
  app : App
  /-- The JSON text of the root in the request. -/
  rootText : Option String
  /-- The body of the request, in any encoding. -/
  octets : List Nat
  query : List (String × String)
  origin : Option String
  ofArgs : Command.ofArgs args = .compile job
  root_ne : job.root ≠ some ""
  ofEnvironment : Settings.ofEnvironment env = .ok settings
  ofSettings : App.ofSettings settings = .ok app
  input : ∃ saved, files.read job.input = .ok saved ∧ Text.Utf8.decode saved = .ok text
  /-- A request that does not name a root is as good as one that says null. -/
  root : rootText.elim (.ok .null) (Json.read .document) = .ok (.ofOption .str job.root)
  body : Text.decodeAny? octets = some (requestText text rootText)

namespace Submission

/-- What the command reports, and the files that it leaves. -/
def report (s : Submission) : Report × FileTree := run s.args s.env s.files

/-- What the service answers. -/
def response (s : Submission) : Response :=
  s.app.handle ⟨"POST", ⟨s.settings.routeBase ++ "/programs/compile", s.query⟩, .ofOctets s.octets,
    s.origin⟩

/-- The command fails with status 1; it prints no text and touches no file. -/
def Refused (s : Submission) : Prop :=
  s.report.1.ending = .exit 1 ∧ s.report.1.stdout = "" ∧ s.report.2 = s.files

/-- The compilation that both ask for, once they have the graph. -/
def compilation (s : Submission) (g : Graph) : Compilation :=
  (Compiler.builtin s.settings.indentUnit).compile g s.job.root

/-- The log of the compilation as the command shows it. -/
def log (s : Submission) (g : Graph) : String := shownLog s.job.debug (s.compilation g).log

variable {s : Submission} {j : Json} {g : Graph}

end Submission

/-! ## The service -/

namespace Service

/-- A field of an object that a response holds. -/
def Response.field? (r : Response) (key : String) : Option Json :=
  match r.content with
  | .json j => j.get? key
  | .text _ => none

end Service

namespace Submission

variable {s : Submission} {j : Json} {g : Graph}

end Submission

/-! ## Errors and their diagnostics -/

namespace Compiler

end Compiler

/-! ## Agreement -/

namespace Submission

variable {s : Submission} {j : Json} {g : Graph}

end Submission

/-! ## Three documents -/

deriving instance DecidableEq for CommandLine.Job, CommandLine.Command

namespace Submission

/-- A document as the only file and the only entry of a request, with the usual settings. -/
def plain (text : String) (hfile : Text.Utf8.decode (octetsOf text) = .ok text)
    (hbody : Text.decodeAny? (octetsOf (requestText text none)) = some (requestText text none)) :
    Submission where
  text := text
  settings := {}
  args := ["g.json"]
  env := []
  files := ⟨[(["g.json"], octetsOf text)]⟩
  job := ⟨⟨"", ["g.json"]⟩, none, none, false, false⟩
  app := ⟨{}, Compiler.builtin "  "⟩
  rootText := none
  octets := octetsOf (requestText text none)
  query := []
  origin := none
  ofArgs := by decide +kernel
  root_ne := by decide
  ofEnvironment := rfl
  ofSettings := rfl
  input := ⟨octetsOf text, rfl, hfile⟩
  root := rfl
  body := hbody

end Submission

end BlockMusic
