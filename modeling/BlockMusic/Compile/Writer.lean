import BlockMusic.Compile.Arguments
import BlockMusic.Text.Replace

/-!
# Writers

A writer turns the arguments of a node into script text. The built-in blocks have one each; further
blocks can be written by templates, which put texts and arguments in a row.
-/

namespace BlockMusic

abbrev Writer := Arguments → Draft Output

namespace Writer

/-- A call with its arguments. -/
def call (name : String) (args : List String) : String :=
  name ++ "(" ++ ", ".intercalate args ++ ")"

/-- A header with a body between `do` and `end`. -/
def doBlock (header body : String) : String := header ++ " do\n" ++ body ++ "end"

def line (s : String) : Draft Output := .done (.text s)

def atom (s : String) : Draft Output := .done (.fragment (.atom s))

/-- A statement that calls `name` with the given value inputs. -/
def callWith (name : String) (slots : List String) : Writer := fun a =>
  line (call name (slots.map a.value))

def defmotif : Writer := fun a =>
  line (doBlock ("defmotif " ++ a.operand "NAME" Precedence.atomic.rank) (a.indentedBody "DO"))

/-- The style takes the place of the word in the sample's name. -/
def triggerDrum : Writer := fun a => do
  let sample ← a.token "SAMPLE"
  let style ← a.token "STYLE"
  line (call "trigger_sample" [Text.replace "soft" style sample])

def rest : Writer := fun a => do
  let units ← a.token "UNITS"
  line (call "rest" [a.value "AMOUNT", units])

def waitFor : Writer := fun a => do
  let units ← a.token "UNITS"
  line (call "wait_for" [units])

def setSynth : Writer := fun a => do
  let synth ← a.token "SYNTH"
  line (call "set_synth" [synth])

/-- A progression has no wrapper of its own; its body stands in its place. -/
def playChordProgression : Writer := fun a =>
  line (String.ofList (Text.dropEndWhile (· == '\n') (a.inlineBody "DO").toList))

def playInKey : Writer := fun a => do
  let key ← a.token "KEY"
  let mode ← a.token "MODE"
  let header := call "play_in_key" [Script.string key, Script.string mode]
  line (doBlock header (a.indentedBody "DO"))

def withFx : Writer := fun a => do
  let effect ← a.token "EFFECT"
  line (doBlock (call "with_fx" [effect]) (a.indentedBody "COMMANDS"))

def triggerSample : Writer := fun a => do
  let name ← a.text "NAME"
  line (call "trigger_sample" [Script.string name])

/-- The notes that have a text, in a list. -/
def chord : Writer := fun a =>
  let notes := a.block.inputs.map fun i => a.value i.name
  atom (Script.brackets (notes.filter (· ≠ "")))

def text : Writer := fun a => do
  let s ← a.text "TEXT"
  atom (Script.string s)

def mathNumber : Writer := fun a => do
  let number ← a.number "NUM"
  atom number

def logicBoolean : Writer := fun a => do
  let token ← a.token "BOOL"
  atom (Script.boolean (token = "TRUE"))

/-- The symbol and the tier of an infix operator. -/
def infixOperator? : String → Option (String × Precedence)
  | "ADD" => some ("+", .additive)
  | "MINUS" => some ("-", .additive)
  | "MULTIPLY" => some ("*", .multiplicative)
  | "DIVIDE" => some ("/", .multiplicative)
  | _ => none

/-- A power is a call. Any other operator takes its own tier on the left and only tighter ones on the
right, so that `a - (b - c)` keeps its parentheses. -/
def mathArithmetic : Writer := fun a => do
  let operator ← a.token "OP"
  if operator = "POWER" then
    .done (.fragment ⟨call ":math.pow" [a.value "A", a.value "B"], .named .functionCall⟩)
  else
    match infixOperator? operator with
    | none => .fail (.unknownOperator operator)
    | some (symbol, tier) =>
      let left := a.operand "A" tier.rank
      let right := a.operand "B" (tier.rank - 1)
      .done (.fragment ⟨left ++ " " ++ symbol ++ " " ++ right, .named tier⟩)

def textJoin : Writer := fun a =>
  let left := a.operand "A" Precedence.concatenation.rank
  let right := a.operand "B" Precedence.concatenation.rank
  .done (.fragment ⟨left ++ " <> " ++ right, .named .concatenation⟩)

/-- The writers of the built-in blocks. -/
def builtin : List (String × Writer) := [
  ("defmotif", defmotif),
  ("play_synth", callWith "play_synth" ["NOTES", "BEATS"]),
  ("trigger_drum", triggerDrum),
  ("rest", rest),
  ("wait_for", waitFor),
  ("set_volume", callWith "set_volume" ["VOLUME"]),
  ("set_tempo", callWith "set_tempo" ["TEMPO"]),
  ("stop_sound", callWith "stop_sound" []),
  ("cue", callWith "cue" ["MOTIF"]),
  ("loop", callWith "loop" ["MOTIF"]),
  ("sync_to_parent", callWith "sync_to" ["PARENT"]),
  ("set_synth", setSynth),
  ("play_chord_progression", playChordProgression),
  ("play_in_key", playInKey),
  ("with_fx", withFx),
  ("trigger_sample", triggerSample),
  ("chord", chord),
  ("premade_chord", chord),
  ("text", text),
  ("math_number", mathNumber),
  ("logic_boolean", logicBoolean),
  ("math_arithmetic", mathArithmetic),
  ("text_join", textJoin)]

end Writer

namespace Template

/-- A part of a template. -/
inductive Part where
  | literal (s : String)
  | operand (slot : String) (consumer : Int)
  | indentedBody (slot : String)
  | inlineBody (slot : String)
  | text (field : String)
  | token (field : String)
  | number (field : String)

/-- The text of a part. -/
def Part.write (a : Arguments) : Part → Draft String
  | .literal s => .done s
  | .operand slot consumer => .done (a.operand slot consumer)
  | .indentedBody slot => .done (a.indentedBody slot)
  | .inlineBody slot => .done (a.inlineBody slot)
  | .text field => a.text field
  | .token field => a.token field
  | .number field => a.number field

/-- The texts of the parts, one after the other. -/
def writeParts (a : Arguments) : List Part → Draft String
  | [] => .done ""
  | p :: ps => do
    let first ← p.write a
    let rest ← writeParts a ps
    .done (first ++ rest)

end Template

/-- Parts in a row, and the tier of the fragment that they make, if they make one. -/
structure Template where
  parts : List Template.Part
  tier : Option Int := none

def Template.writer (t : Template) : Writer := fun a => do
  let s ← Template.writeParts a t.parts
  match t.tier with
  | some n => .done (.fragment ⟨s, .number n⟩)
  | none => .done (.text s)

end BlockMusic
