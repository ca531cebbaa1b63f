import BlockMusic.Text.Digit
import BlockMusic.Text.Split
import BlockMusic.Text.Utf8

/-!
# Targets of requests

The target of a request is a path with an optional query behind a question mark. The path is taken
from the root, and its dot parts are followed. Both are written with percent signs for octets, which
are read as UTF-8: in a path twice, by the client and by the service, and in a query once, where also
a plus sign stands for a blank.
-/

namespace BlockMusic.Service

/-- The octets of a text with percent signs; a sign without two hexadecimal digits is itself. -/
def percentOctets : List Char → List Nat
  | [] => []
  | '%' :: a :: b :: cs =>
    match Text.hexDigit? a, Text.hexDigit? b with
    | some x, some y => (16 * x + y) :: percentOctets cs
    | _, _ => 0x25 :: percentOctets (a :: b :: cs)
  | c :: cs => (c.toString.toUTF8.toList.map UInt8.toNat) ++ percentOctets cs
termination_by cs => cs.length

/-- The text that a text with percent signs stands for. -/
def percentDecode (s : String) : String := Text.Utf8.decodeLenient (percentOctets s.toList)

/-- A part of a query, where a plus sign stands for a blank. -/
def queryDecode (s : String) : String :=
  percentDecode (String.ofList (s.toList.map fun c => if c = '+' then ' ' else c))

/-- A path and the parameters of a query, in order. -/
structure Target where
  path : String
  query : List (String × String)

/-- The parameters of a query; one without an equals sign has an empty value. -/
def parameters (query : String) : List (String × String) :=
  (Text.split '&' query).filterMap fun item =>
    if item = "" then none
    else
      let (name, value) := Text.cut '=' item
      some (queryDecode name, queryDecode (value.getD ""))

/-- Follows the parts of a path: a dot stays in place, and two dots lead one part back. -/
def resolveDots (done : List String) : List String → List String
  | [] => done
  | part :: parts =>
    if part = "." then resolveDots done parts
    else if part = ".." then resolveDots (if done = [""] then done else done.dropLast) parts
    else resolveDots (done ++ [part]) parts

/-- A path below the root, without the name of a host in front. -/
def rootedPath (path : String) : String :=
  let inner := match path.toList with
    | '/' :: '/' :: cs => cs.dropWhile (· != '/')
    | cs => cs
  let below := String.ofList ('/' :: inner.dropWhile (· == '/'))
  "/".intercalate (resolveDots [] (Text.split '/' below))

/-- Reads a target; what stands behind a number sign is for the client only. -/
def Target.ofText (s : String) : Target :=
  let (sent, _) := Text.cut '#' s
  let (path, query) := Text.cut '?' sent
  { path := percentDecode (percentDecode (rootedPath path)), query := parameters (query.getD "") }

/-- The path that a request is sent on to arrives decoded once: it is written anew before it is sent,
and decoded twice on its way. -/
def forwardedPath (path : String) : String :=
  percentDecode ("/".intercalate (resolveDots [] (Text.split '/' path)))

/-- The value of a parameter; the last one counts. -/
def Target.parameter? (t : Target) (name : String) : Option String := t.query.reverse.lookup name

end BlockMusic.Service
