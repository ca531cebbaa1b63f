import BlockMusic.Text.Quoted
import BlockMusic.Text.Split

/-!
# Paths and files

A path is shown without empty and current-directory parts. Files are looked up in a finite tree below
the working directory; what lies above it is not known, except that it is a directory.
-/

namespace BlockMusic.CommandLine

/-- A path cut into its parts; `root` is empty for a path relative to the working directory. -/
structure Path where
  root : String
  parts : List String
  deriving DecidableEq, Repr

namespace Path

/-- Reads a path. Two slashes at the front stay two, any other number is one. -/
def ofText (s : String) : Path :=
  let root :=
    if Text.startsWith "//" s && !Text.startsWith "///" s then "//"
    else if Text.startsWith "/" s then "/"
    else ""
  { root, parts := (Text.split '/' s).filter fun p => p ≠ "" && p ≠ "." }

/-- Shows a path; the empty one is the current directory. -/
def text (p : Path) : String :=
  let joined := p.root ++ "/".intercalate p.parts
  if joined = "" then "." else joined

end Path

/-- The octets of the files below the working directory, by their paths. -/
structure FileTree where
  files : List (List String × List Nat)

/-- Why a file cannot be used. -/
inductive FileError where
  | absent
  | directory
  | notADirectory
  | nameTooLong
  | nullCharacter
  deriving DecidableEq, Repr

def FileError.message (path : String) : FileError → String
  | .absent => "[Errno 2] No such file or directory: " ++ Text.quoted path
  | .directory => "[Errno 21] Is a directory: " ++ Text.quoted path
  | .notADirectory => "[Errno 20] Not a directory: " ++ Text.quoted path
  | .nameTooLong => "[Errno 36] File name too long: " ++ Text.quoted path
  | .nullCharacter => "embedded null byte"

namespace FileTree

/-- What a path leads to. A directory above the working one has no known place. -/
inductive Place where
  | absent
  | blocked
  | tooLong
  | directory (parts : Option (List String))
  | file (parts : List String) (octets : List Nat)

/-- The greatest number of octets in a name. -/
def maxName : Nat := 255

/-- The greatest number of octets in a path. -/
def maxPath : Nat := 4095

/-- What a name stands for in a directory of the tree. -/
def child (t : FileTree) (dir : List String) (name : String) : Place :=
  let parts := dir ++ [name]
  match t.files.lookup parts with
  | some octets => .file parts octets
  | none =>
    if t.files.any fun f => parts.isPrefixOf f.1 then .directory (some parts) else .absent

/-- Follows one part of a path. -/
def step (t : FileTree) (place : Place) (part : String) : Place :=
  match place with
  | .absent => .absent
  | .blocked => .blocked
  | .tooLong => .tooLong
  | .file .. => .blocked
  | .directory none =>
    if part = ".." then .directory none
    else if maxName < part.utf8ByteSize then .tooLong
    else .absent
  | .directory (some dir) =>
    if part = ".." then
      if dir.isEmpty then .directory none else .directory (some dir.dropLast)
    else if maxName < part.utf8ByteSize then .tooLong
    else t.child dir part

/-- Where a path starts. -/
def start (p : Path) : Place := if p.root = "" then .directory (some []) else .directory none

/-- Follows a path. -/
def follow (t : FileTree) (p : Path) : Place :=
  if maxPath < p.text.utf8ByteSize then .tooLong else p.parts.foldl t.step (start p)

/-- The octets of the file at a path. -/
def read (t : FileTree) (p : Path) : Except FileError (List Nat) :=
  if p.text.toList.contains '\x00' then .error .nullCharacter
  else match t.follow p with
  | .file _ octets => .ok octets
  | .directory _ => .error .directory
  | .blocked => .error .notADirectory
  | .tooLong => .error .nameTooLong
  | .absent => .error .absent

/-- Writes the file at a path, whose directory must be there. -/
def write (t : FileTree) (p : Path) (octets : List Nat) : Except FileError FileTree :=
  if p.text.toList.contains '\x00' then .error .nullCharacter
  else match t.follow p with
  | .directory _ => .error .directory
  | .blocked => .error .notADirectory
  | .tooLong => .error .nameTooLong
  | .file parts _ =>
    .ok ⟨t.files.map fun f => if f.1 = parts then (f.1, octets) else f⟩
  | .absent =>
    match t.follow { p with parts := p.parts.dropLast } with
    | .directory (some dir) => .ok ⟨t.files ++ [(dir ++ p.parts.getLast?.toList, octets)]⟩
    | .directory none => .ok t
    | .file .. => .error .notADirectory
    | .blocked => .error .notADirectory
    | .tooLong => .error .nameTooLong
    | .absent => .error .absent

end FileTree

end BlockMusic.CommandLine
