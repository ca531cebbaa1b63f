import BlockMusic.Validation.Schema

/-!
# Settings

The settings are read from the environment. A variable is named after a setting, in any case of its
letters, and the last one of a name counts. The list of origins is written as JSON. The values are
then checked together.
-/

namespace BlockMusic

/-- The variables of an environment, in order. -/
abbrev Environment := List (String × String)

structure Settings where
  appName : String := "BlockScore API"
  appVersion : String := "0.1.0"
  debug : Bool := false
  /-- The path under which the routes stand. -/
  routeBase : String := "/api"
  /-- The origins from which a page may call the service. -/
  corsOrigins : List String := ["http://localhost:5173", "http://127.0.0.1:5173"]
  indentUnit : String := "  "
  deriving DecidableEq, Repr

namespace Settings

/-- Why there are no settings. -/
inductive Failure where
  /-- The text of a variable is not JSON. -/
  | unreadable (setting : String)
  /-- The JSON of a variable goes too deep. -/
  | tooDeep (inObject : Bool)
  | invalid (issues : List Issue)

/-- The message about a variable that cannot be read. -/
def unreadableMessage (setting : String) : String :=
  s!"error parsing value for field \"{setting}\" from source \"EnvSettingsSource\""

/-- The message about JSON that goes too deep. -/
def tooDeepMessage (inObject : Bool) : String :=
  let container := if inObject then "object" else "array"
  s!"maximum recursion depth exceeded while decoding a JSON {container} from a unicode string"

/-- The small form of a letter, as far as it is ASCII; the sign of the kelvin is a capital letter. -/
def lowerChar (c : Char) : Char := if c = '\u212a' then 'k' else c.toLower

def lowerCase (s : String) : String := String.ofList (s.toList.map lowerChar)

/-- The value of the variable of a setting. -/
def value? (env : Environment) (setting : String) : Option String :=
  (env.reverse.find? fun v => lowerCase v.1 = "blockscore_" ++ setting).map Prod.snd

/-- The value of a setting written as JSON; null is as good as no value. -/
def jsonValue? (env : Environment) (setting : String) : Except Failure (Option Json) :=
  match value? env setting with
  | none => .ok none
  | some s =>
    match Json.read .message s with
    | .ok .null => .ok none
    | .ok j => .ok (some j)
    | .error (.tooDeep inObject) => .error (.tooDeep inObject)
    | .error _ => .error (.unreadable setting)

/-- An entry for a value that is there. -/
def entry (setting : String) (value : Option Json) : List (String × Json) :=
  value.toList.map fun j => (setting, j)

open Schema in
def schema : Schema Settings := record fun o j =>
  Settings.mk <$> fieldOr "app_name" "BlockScore API" anyText o j
    <*> fieldOr "app_version" "0.1.0" anyText o j <*> fieldOr "debug" false bool o j
    <*> fieldOr "api_prefix" "/api" anyText o j
    <*> fieldOr "cors_origins" ["http://localhost:5173", "http://127.0.0.1:5173"] (list anyText) o j
    <*> fieldOr "indent_unit" "  " nonEmptyText o j

/-- The settings of an environment. -/
def ofEnvironment (env : Environment) : Except Failure Settings := do
  let plain (setting : String) := entry setting ((value? env setting).map .str)
  let origins ← jsonValue? env "cors_origins"
  let given := plain "app_name" ++ plain "app_version" ++ plain "debug" ++ plain "api_prefix" ++
    entry "cors_origins" origins ++ plain "indent_unit"
  match schema .value (.obj given) with
  | .valid s => .ok s
  | .invalid issues => .error (.invalid issues)

def toJson (s : Settings) : Json :=
  .obj [("app_name", .str s.appName), ("app_version", .str s.appVersion), ("debug", .bool s.debug),
    ("api_prefix", .str s.routeBase), ("cors_origins", .strings s.corsOrigins),
    ("indent_unit", .str s.indentUnit)]

end Settings

end BlockMusic
