import BlockMusic.Block.Registry

/-!
# The built-in blocks

The blocks of the music library: motifs and the statements that play sounds and steer playback, and
the values that they take.
-/

namespace BlockMusic.Catalogue

def choices (options : List (String × String)) : List Choice :=
  options.map fun (label, token) => ⟨label, token⟩

/-- A dropdown field without a default; its first choice stands in. -/
def dropdown (name : String) (options : List (String × String)) : Field :=
  { name, kind := .dropdown, choices := choices options }

/-- A statement joins others above and below. -/
def statement (b : Block) : Block := { b with previous := true, next := true }

/-- A value with the given outputs that binds as an atom unless said otherwise. -/
def value (output : List String) (b : Block) : Block :=
  { b with output := some output, precedence := some (b.precedence.getD .atomic) }

def drumSamples : List (String × String) :=
  [("Kick", ":drum_bass_soft"), ("Snare", ":drum_snare_soft"), ("Low Tom", ":drum_tom_lo_soft"),
    ("High Tom", ":drum_tom_hi_soft"), ("Splash", ":drum_splash_soft"),
    ("Cymbal", ":drum_cymbal_soft"), ("Open Hi-Hat", ":drum_cymbal_open"),
    ("Closed Hi-Hat", ":drum_cymbal_closed")]

def synths : List (String × String) :=
  [("Sine", ":sine"), ("Square", ":square"), ("Saw", ":saw"), ("Pretty Bell", ":pretty_bell"),
    ("Bass", ":mod_fm"), ("Dark Ambience", ":dark_ambience"), ("dsaw", ":dsaw"),
    ("Dull bell", ":dull_bell"), ("Fm", ":fm"), ("Growl", ":growl"), ("Hollow", ":hollow"),
    ("Prophet", ":prophet"), ("Tri", ":tri"), ("Zawa", ":zawa"), ("Tb303", ":tb303")]

def effects : List (String × String) :=
  [("echo", ":echo"), ("flanger", ":flanger"), ("distortion", ":distortion"),
    ("reverb", ":reverb"), ("slicer", ":slicer"), ("wobble", ":wobble")]

def beatMarkers : List (String × String) :=
  [("downbeat", ":down_beat"), ("upbeat", ":up_beat"), ("beat 1", ":beat1"), ("beat 2", ":beat2"),
    ("beat 3", ":beat3"), ("beat 4", ":beat4")]

def keys : List (String × String) :=
  ["A", "B", "Bb", "C", "D", "E", "F", "G"].map fun key => (key, key)

def arithmeticOperators : List (String × String) :=
  [("+", "ADD"), ("-", "MINUS"), ("×", "MULTIPLY"), ("÷", "DIVIDE"), ("^", "POWER")]

/-- The four note inputs of a chord. -/
def noteInputs : List ValueInput :=
  ["Note1", "Note2", "Note3", "Note4"].map fun name => { name, check := ["String"], required := false }

/-- The statements. -/
def statements : List Block := [
  { kind := "defmotif", category := "motif"
    description := "Define a named motif; the definition is hoisted above the program body."
    inputs := [{ name := "NAME", check := ["String"], label := "Create the motif:" }]
    bodies := [{ name := "DO", check := ["Music"], label := "as:" }]
    scope := .motif, tags := ["scope", "definition"] },
  { kind := "play_synth", category := "music"
    description := "Play one note or a chord for a number of beats."
    inputs := [{ name := "NOTES", check := ["String", "Array", "Number"], label := "play" },
      { name := "BEATS", check := ["Number"], label := "for" }]
    tags := ["sound"] },
  { kind := "trigger_drum", category := "music"
    description := "Trigger a drum sample, hard or soft."
    fields := [dropdown "SAMPLE" drumSamples,
      dropdown "STYLE" [("hard", "hard"), ("soft", "soft")]]
    tags := ["sound"] },
  { kind := "rest", category := "music"
    description := "Stay silent for an amount of beats or measures."
    inputs := [{ name := "AMOUNT", check := ["Number"], label := "rest for" }]
    fields := [dropdown "UNITS" [("beats", ":beats"), ("measures", ":measures")]]
    tags := ["timing"] },
  { kind := "wait_for", category := "music"
    description := "Block until the next matching beat of the shared clock."
    fields := [dropdown "UNITS" beatMarkers]
    tags := ["timing"] },
  { kind := "set_volume", category := "actions"
    description := "Set the playback volume."
    inputs := [{ name := "VOLUME", check := ["Number"], label := "set volume to" }] },
  { kind := "set_tempo", category := "actions"
    description := "Set the tempo in beats per minute."
    inputs := [{ name := "TEMPO", check := ["Number"], label := "set tempo to" }] },
  { kind := "stop_sound", category := "actions"
    description := "Stop every sound currently playing." },
  { kind := "cue", category := "actions"
    description := "Play a motif once."
    inputs := [{ name := "MOTIF", check := ["String"], label := "cue motif:" }] },
  { kind := "loop", category := "actions"
    description := "Play a motif repeatedly."
    inputs := [{ name := "MOTIF", check := ["String"], label := "loop motif:" }] },
  { kind := "sync_to_parent", category := "actions"
    description := "Follow the beat clock of another unit."
    inputs := [{ name := "PARENT", check := ["String"], label := "sync to BTU" }] },
  { kind := "set_synth", category := "actions"
    description := "Change the synth instrument."
    fields := [dropdown "SYNTH" synths] },
  { kind := "play_chord_progression", category := "music"
    description := "Play the contained chord blocks in order."
    fields := [{ name := "NAME", kind := .text, default := some (.text "prog") }]
    bodies := [{ name := "DO" }]
    scope := .music, tags := ["scope"] },
  { kind := "play_in_key", category := "music"
    description := "Play the contained blocks in a key and mode."
    fields := [dropdown "KEY" keys, dropdown "MODE" [("Major", "Major"), ("Minor", "Minor")]]
    bodies := [{ name := "DO" }]
    scope := .music, tags := ["scope"] },
  { kind := "with_fx", category := "music"
    description := "Apply an effect to the contained blocks."
    fields := [dropdown "EFFECT" effects]
    bodies := [{ name := "COMMANDS", check := ["Music"] }]
    scope := .music, tags := ["scope", "effect"] },
  { kind := "trigger_sample", category := "music"
    description := "Play an uploaded wav sample."
    fields := [{ name := "NAME", kind := .text, default := some (.text "no file selected") }]
    tags := ["sound"] }]

/-- The values. -/
def values : List Block := [
  value ["Array"]
    { kind := "chord", category := "notes"
      description := "Up to four notes sounding together."
      inputs := noteInputs },
  value ["Array"]
    { kind := "premade_chord", category := "notes"
      description := "A named chord of up to four notes."
      inputs := noteInputs
      fields := [{ name := "NAME", kind := .text, default := some (.text "Premade Chord:") }] },
  value ["String"]
    { kind := "text", category := "values"
      description := "A string literal."
      fields := [{ name := "TEXT", kind := .text, default := some (.text "") }] },
  value ["Number"]
    { kind := "math_number", category := "values"
      description := "A number literal."
      fields := [{ name := "NUM", kind := .number, default := some (.int 0) }] },
  value ["Boolean"]
    { kind := "logic_boolean", category := "values"
      description := "true or false."
      fields := [dropdown "BOOL" [("true", "TRUE"), ("false", "FALSE")]] },
  value ["Number"]
    { kind := "math_arithmetic", category := "values"
      description := "Arithmetic on two numbers."
      inputs := [{ name := "A", check := ["Number"] }, { name := "B", check := ["Number"] }]
      fields := [dropdown "OP" arithmeticOperators]
      precedence := some .additive },
  value ["String"]
    { kind := "text_join", category := "values"
      description := "Concatenate two strings."
      inputs := [{ name := "A", check := ["String"], default := some (.scalar (.text "")) },
        { name := "B", check := ["String"], default := some (.scalar (.text "")) }]
      precedence := some .concatenation }]

/-- All built-in blocks. -/
def blocks : List Block := statements.map statement ++ values

end BlockMusic.Catalogue

/-- The registry of the built-in blocks, with further ones added. -/
def BlockMusic.Registry.builtin (more : List Block) : Registry :=
  Registry.ofList (Catalogue.blocks ++ more)
