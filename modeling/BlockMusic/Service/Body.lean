import BlockMusic.Json.Reader
import BlockMusic.Text.Encoding

/-!
# Bodies of requests

The body of a request is JSON in any of the Unicode encodings. A body that breaks the rules of JSON is
told from one that cannot be taken in: octets that are no text, an integer that is too long, or
containers too deep inside one another.
-/

namespace BlockMusic.Service

/-- The body of a request. -/
inductive Body where
  | absent
  | malformed
  | unusable
  | json (j : Json)

/-- The way in which bodies are read. -/
def bodyDialect : Json.Dialect := { Json.Dialect.message with depth := 940 }

/-- Reads the octets of a body. -/
def Body.ofOctets (octets : List Nat) : Body :=
  if octets.isEmpty then .absent
  else
    match Text.decodeAny? octets with
    | none => .unusable
    | some text =>
      match Json.read bodyDialect text with
      | .ok j => .json j
      | .error .malformed => .malformed
      | .error _ => .unusable

/-- Reads a body that is sent as UTF-8. -/
def Body.ofText (s : String) : Body := .ofOctets (s.toUTF8.toList.map UInt8.toNat)

end BlockMusic.Service
