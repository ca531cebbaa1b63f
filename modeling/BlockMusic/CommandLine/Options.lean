import BlockMusic.Text.Digit
import BlockMusic.Text.Quoted
import BlockMusic.Text.Split

/-!
# Options on a command line

A command has named options, some of which take a value, and at most one word of its own. An option
may be shortened to any start of its long name that no other name has; a value stands behind it, or
joined to it by an equals sign, or directly behind a one-letter name. Two dashes end the options.

Reading a command line gives the options in order, the word, and what nobody asked for, up to the
first error.
-/

namespace BlockMusic.CommandLine

/-- An option with all its names. -/
structure OptionSpec (κ : Type) where
  key : κ
  names : List String
  takesValue : Bool

/-- An option as used: which one, under which name, with which value. -/
structure Use (κ : Type) where
  key : κ
  name : String
  value : Option String

/-- An argument by its form. -/
inductive Arg (κ : Type) where
  | word (s : String)
  /-- Two dashes. -/
  | marker
  | unknown (raw : String)
  | option (spec : OptionSpec κ) (name : String) (joined : Option String)

def Arg.raw {κ : Type} : Arg κ → String
  | .word s => s
  | .marker => "--"
  | .unknown raw => raw
  | .option _ name _ => name

variable {κ : Type}

/-- Every option under each of its names. -/
def named (specs : List (OptionSpec κ)) : List (OptionSpec κ × String) :=
  specs.flatMap fun spec => spec.names.map fun name => (spec, name)

def find? (specs : List (OptionSpec κ)) (name : String) : Option (OptionSpec κ) :=
  ((named specs).find? fun p => p.2 = name).map Prod.fst

/-- The options that an argument may mean, with the value joined to it. -/
def candidates (specs : List (OptionSpec κ)) (s : String) :
    List (OptionSpec κ × String × Option String) :=
  if Text.startsWith "--" s then
    let (start, joined) := Text.cut '=' s
    (named specs).filterMap fun (spec, name) =>
      if Text.startsWith start name then some (spec, name, joined) else none
  else
    (named specs).filterMap fun (spec, name) =>
      if name.toList = s.toList.take 2 then some (spec, name, some (String.ofList (s.toList.drop 2)))
      else if Text.startsWith s name then some (spec, name, none)
      else none

/-- A minus sign with digits, and at most one point before the last of them. -/
def isNegativeNumber (s : String) : Bool :=
  match s.toList with
  | '-' :: cs =>
    match Text.digitRun Text.digit? cs with
    | (ds, []) => !ds.isEmpty
    | (_, '.' :: fraction) =>
      match Text.digitRun Text.digit? fraction with
      | (ds, []) => !ds.isEmpty
      | _ => false
    | _ => false
  | _ => false

/-- The form of an argument that is not two dashes, or the message that it is ambiguous. -/
def classify (specs : List (OptionSpec κ)) (s : String) : Except String (Arg κ) :=
  if !Text.startsWith "-" s then .ok (.word s)
  else
    match find? specs s with
    | some spec => .ok (.option spec s none)
    | none =>
      if s = "-" then .ok (.word s)
      else
        let (name, joined) := Text.cut '=' s
        match joined, find? specs name with
        | some value, some spec => .ok (.option spec name (some value))
        | _, _ =>
          match candidates specs s with
          | [(spec, name, joined)] => .ok (.option spec name joined)
          | [] =>
            if isNegativeNumber s || s.toList.contains ' ' then .ok (.word s)
            else .ok (.unknown s)
          | several =>
            let names := ", ".intercalate (several.map fun c => c.2.1)
            .error s!"ambiguous option: {s} could match {names}"

/-- The forms of all arguments; behind two dashes there are only words. -/
def classifyAll (specs : List (OptionSpec κ)) : List String → Except String (List (Arg κ))
  | [] => .ok []
  | s :: rest =>
    if s = "--" then .ok (.marker :: rest.map .word)
    else do
      let first ← classify specs s
      let others ← classifyAll specs rest
      pure (first :: others)

/-- What a command line asks for, up to the first error. -/
structure Reading (κ : Type) where
  uses : List (Use κ) := []
  word : Option String := none
  extras : List String := []
  error : Option String := none

namespace Reading

def use (r : Reading κ) (u : Use κ) : Reading κ := { r with uses := u :: r.uses }

def useAll (r : Reading κ) (us : List (Use κ)) : Reading κ := { r with uses := us ++ r.uses }

def extra (r : Reading κ) (s : String) : Reading κ := { r with extras := s :: r.extras }

def withWord (r : Reading κ) (s : String) : Reading κ := { r with word := some s }

end Reading

/-- The names of an option in a message. -/
def shownNames (spec : OptionSpec κ) : String := "/".intercalate spec.names

def expectedOne (spec : OptionSpec κ) : String :=
  s!"argument {shownNames spec}: expected one argument"

def ignoredValue (spec : OptionSpec κ) (value : String) : String :=
  s!"argument {shownNames spec}: ignored explicit argument {Text.quoted value}"

/-- One-letter options behind one that takes no value, as in `-ab`. The last one may take the rest as
its value, or wait for one, which is then given back. -/
def cluster (specs : List (OptionSpec κ)) (current : OptionSpec κ) :
    List Char → Except String (List (Use κ) × Option (OptionSpec κ × String))
  | [] => .error (ignoredValue current "")
  | c :: cs =>
    let name := String.ofList ['-', c]
    match find? specs name with
    | none => .error (ignoredValue current (String.ofList (c :: cs)))
    | some spec =>
      if spec.takesValue then
        if cs.isEmpty then .ok ([], some (spec, name))
        else .ok ([⟨spec.key, name, some (String.ofList cs)⟩], none)
      else if cs.isEmpty then .ok ([⟨spec.key, name, none⟩], none)
      else (cluster specs spec cs).map fun (uses, waiting) => (⟨spec.key, name, none⟩ :: uses, waiting)

/-- Reads classified arguments; `free` says that the word of the command is still to come. -/
def readArgs (specs : List (OptionSpec κ)) : Bool → List (Arg κ) → Reading κ
  | _, [] => {}
  | free, .unknown raw :: rest => (readArgs specs free rest).extra raw
  | free, .option spec name none :: rest =>
    if spec.takesValue then
      match rest with
      | .word value :: rest => (readArgs specs free rest).use ⟨spec.key, name, some value⟩
      | _ => { error := some (expectedOne spec) }
    else (readArgs specs free rest).use ⟨spec.key, name, none⟩
  | free, .option spec name (some value) :: rest =>
    if spec.takesValue then (readArgs specs free rest).use ⟨spec.key, name, some value⟩
    else if Text.startsWith "--" name then { error := some (ignoredValue spec value) }
    else
      match cluster specs spec value.toList with
      | .error message => { error := some message }
      | .ok (uses, none) => (readArgs specs free rest).useAll (⟨spec.key, name, none⟩ :: uses)
      | .ok (uses, some (last, lastName)) =>
        match rest with
        | .word value :: rest =>
          (readArgs specs free rest).useAll
            (⟨spec.key, name, none⟩ :: uses ++ [⟨last.key, lastName, some value⟩])
        | _ => { error := some (expectedOne last) }
  | true, .marker :: .word s :: rest => (readArgs specs false rest).withWord s
  | true, .marker :: rest => readArgs specs false rest
  | true, .word s :: .marker :: rest => (readArgs specs false rest).withWord s
  | true, .word s :: rest => (readArgs specs false rest).withWord s
  | false, arg :: rest => (readArgs specs false rest).extra arg.raw

/-- Reads a command line of a command that takes a word or not. -/
def readLine (specs : List (OptionSpec κ)) (takesWord : Bool) (args : List String) : Reading κ :=
  match classifyAll specs args with
  | .error message => { error := some message }
  | .ok items => readArgs specs takesWord items

/-- The message about arguments that nobody asked for. -/
def unrecognized (extras : List String) : Option String :=
  if extras.isEmpty then none else some ("unrecognized arguments: " ++ " ".intercalate extras)

/-- The first error of a command line: one of its form, else arguments that nobody asked for. -/
def Reading.problem? (r : Reading κ) : Option String :=
  match r.error with
  | some message => some message
  | none => unrecognized r.extras

end BlockMusic.CommandLine
