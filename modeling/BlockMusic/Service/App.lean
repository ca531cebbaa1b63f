import BlockMusic.Block.Document
import BlockMusic.Compile.Program
import BlockMusic.Graph.Document
import BlockMusic.Service.Body
import BlockMusic.Service.Target
import BlockMusic.Settings

/-!
# The web service

The service answers requests about the built-in blocks and compiles graphs. A request names a route
by its path; a route that is there but does not take the method is told from one that is not there.
A document that breaks its schema is reported with all its issues, and a structural fault of a graph
with its diagnostics.
-/

namespace BlockMusic.Service

structure Request where
  method : String
  target : Target
  body : Body
  origin : Option String

inductive Content where
  | json (j : Json)
  | text (s : String)

structure Response where
  status : Nat
  content : Content
  /-- The origin that may read the response. -/
  allowOrigin : Option String := none

/-- The service with its settings. -/
structure App where
  settings : Settings
  compiler : Compiler

/-- Why there is no service: the base of the routes must start with a slash and not end with one. -/
inductive BaseFault where
  | start
  | finish
  deriving DecidableEq, Repr

def BaseFault.message : BaseFault → String
  | .start => "A path prefix must start with '/'"
  | .finish => "A path prefix must not end with '/', as the routes will start with '/'"

/-- The service of some settings. -/
def App.ofSettings (settings : Settings) : Except BaseFault App :=
  let base := settings.routeBase.toList
  if base.isEmpty then .ok ⟨settings, Compiler.builtin settings.indentUnit⟩
  else if base.head? ≠ some '/' then .error .start
  else if base.getLast? = some '/' then .error .finish
  else .ok ⟨settings, Compiler.builtin settings.indentUnit⟩

/-- The routes of the service. -/
inductive Route where
  | blocks
  | categories
  | block (kind : String)
  | compile
  | health
  deriving DecidableEq, Repr

def Route.method : Route → String
  | .compile => "POST"
  | _ => "GET"

/-- The routes that a path may mean, in the order in which they are tried. A line feed at the end of a
fixed path is passed over. -/
def App.routes (a : App) (path : String) : List Route :=
  let base := a.settings.routeBase
  let exactly (p : String) (r : Route) : List Route := if path = p || path = p ++ "\n" then [r] else []
  let kind := match Text.afterStart? (base ++ "/blocks/") path with
    | some k => if k = "" || k.toList.contains '/' then [] else [Route.block k]
    | none => []
  exactly (base ++ "/blocks") .blocks ++ exactly (base ++ "/blocks/categories") .categories ++
    kind ++ exactly (base ++ "/programs/compile") .compile ++ exactly "/api/health" .health

/-- The path without slashes at its end. -/
def withoutSlashes (path : String) : String :=
  String.ofList (Text.dropEndWhile (· == '/') path.toList)

/-- The routes of a path; a path that has none but ends with slashes is sent on without them, at most
`more` times. -/
def App.resolveFrom (a : App) : Nat → String → List Route
  | 0, path => a.routes path
  | more + 1, path =>
    let stripped := withoutSlashes path
    if !(a.routes path).isEmpty then a.routes path
    else if stripped = path || (a.routes stripped).isEmpty then []
    else a.resolveFrom more (forwardedPath stripped)

/-- The routes of a path. Each time that it is sent on it gets shorter. -/
def App.resolve (a : App) (path : String) : List Route := a.resolveFrom path.length path

def detail (status : Nat) (j : Json) : Response := ⟨status, .json (.obj [("detail", j)]), none⟩

def internalError : Response := ⟨500, .text "Internal Server Error", none⟩

/-- The report of issues. An issue with a number that is not finite cannot be written as JSON. -/
def issueReport (issues : List Issue) : Response :=
  if issues.any fun i => i.found.hasNonFinite then internalError
  else detail 422 (.arr (issues.map fun i => (i.under (.key "body")).toJson))

/-- Compiles the program of a request. -/
def App.compile (a : App) (r : CompileRequest) : Response :=
  match (a.compiler.compile r.graph r.root).outcome with
  | .ok program => ⟨200, .json program.toJson, none⟩
  | .error (.compile e) => detail 422 e.toJson
  | .error _ => internalError

/-- Answers a request to compile. -/
def App.compileBody (a : App) : Body → Response
  | .absent => issueReport [⟨.missing, [], .null⟩]
  | .malformed => issueReport [⟨.malformed, [], .null⟩]
  | .unusable => detail 400 (.str "There was an error parsing the body")
  | .json j =>
    match CompileRequest.schema .body j with
    | .valid r => a.compile r
    | .invalid issues => issueReport issues

/-- Answers a request on a route that takes its method. -/
def App.serve (a : App) (r : Request) : Route → Response
  | .blocks =>
    let chosen := a.compiler.registry.list (r.target.parameter? "category")
    ⟨200, .json (.arr (chosen.map Block.toJson)), none⟩
  | .categories =>
    ⟨200, .json (.obj (a.compiler.registry.categories.map fun (c, n) => (c, .int n))), none⟩
  | .block kind =>
    match a.compiler.registry.get? kind with
    | some b => ⟨200, .json b.toJson, none⟩
    | none => detail 404 (.str s!"Block kind '{kind}' not found")
  | .compile => a.compileBody r.body
  | .health =>
    ⟨200, .json (.obj [("status", .str "ok"), ("version", .str a.settings.appVersion),
      ("block_kinds", .int a.compiler.registry.kinds.length)]), none⟩

/-- Answers a request, whatever its origin. -/
def App.answer (a : App) (r : Request) : Response :=
  let found := a.resolve r.target.path
  match found.find? fun route => route.method = r.method with
  | some route => a.serve r route
  | none =>
    if found.isEmpty then detail 404 (.str "Not Found") else detail 405 (.str "Method Not Allowed")

/-- The origin that may read a response: any, or the one of the request if it is listed. -/
def App.allowedOrigin (a : App) (origin : String) : Option String :=
  if a.settings.corsOrigins.contains "*" then some "*"
  else if a.settings.corsOrigins.contains origin then some origin
  else none

/-- A request for the head of a response gets no content. -/
def App.answerOrHead (a : App) (r : Request) : Response :=
  let response := a.answer r
  if r.method = "HEAD" then { response with content := .text "" } else response

/-- Answers a request. An internal error is not opened to any origin. -/
def App.handle (a : App) (r : Request) : Response :=
  let response := a.answerOrHead r
  if response.status = 500 then response
  else { response with allowOrigin := r.origin.bind a.allowedOrigin }

end BlockMusic.Service
