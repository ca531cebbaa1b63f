import BlockMusic.Json.Basic
import BlockMusic.Json.Token

/-!
# Reading JSON

The tokens of a document are read from left to right with a stack of the arrays and objects that are
still open. Each state says what may come next, so the reader is one fold over the tokens, and the
nesting of a document is the height of the stack.
-/

namespace BlockMusic.Json

/-- An array or object that is still open, with what it holds so far. The items of an array stand in
reverse order; an object also remembers the key whose value is being read. -/
inductive Open where
  | arr (items : List Json)
  | obj (entries : List (String × Json)) (key : String)

/-- What the reader waits for. -/
inductive Wait where
  /-- A value; `close` says whether the array around it may also end here. -/
  | value (close : Bool)
  /-- A key; `close` says whether the object may also end here. The entries so far stand with it. -/
  | key (entries : List (String × Json)) (close : Bool)
  /-- The colon behind a key. -/
  | colon (entries : List (String × Json)) (key : String)
  /-- Something behind a complete value. -/
  | after (value : Json)

/-- The open containers, innermost first, and what is waited for. -/
structure Reading where
  stack : List Open
  wait : Wait

/-- Adds the entry of a key to an object. -/
def addEntry (dialect : Dialect) (key : String) (value : Json) (entries : List (String × Json)) :
    List (String × Json) :=
  if dialect.keepsAll then entries ++ [(key, value)] else putEntry key value entries

/-- Reads the first token of a value; `close` says whether an array may end instead. -/
def Reading.startValue (stack : List Open) (close : Bool) : Token → Except ReadError Reading
  | .null => .ok ⟨stack, .after .null⟩
  | .bool b => .ok ⟨stack, .after (.bool b)⟩
  | .int n => .ok ⟨stack, .after (.int n)⟩
  | .float x => .ok ⟨stack, .after (.float x)⟩
  | .text s => .ok ⟨stack, .after (.str s)⟩
  | .openArr => .ok ⟨.arr [] :: stack, .value true⟩
  | .openObj => .ok ⟨.obj [] "" :: stack, .key [] true⟩
  | .closeArr =>
    match close, stack with
    | true, .arr items :: stack => .ok ⟨stack, .after (.arr items.reverse)⟩
    | _, _ => .error .malformed
  | .fault e => .error e
  | _ => .error .malformed

/-- The containers that are open hold something now, and there are too many of them. -/
def isTooDeep (dialect : Dialect) (stack : List Open) : Token → Bool
  | .closeArr => false
  | .closeObj => false
  | _ => dialect.depth < stack.length

/-- The error for the innermost of too many open containers. -/
def tooDeepIn : List Open → ReadError
  | .obj .. :: _ => .tooDeep true
  | _ => .tooDeep false

/-- Reads one token. -/
def Reading.step (dialect : Dialect) (r : Reading) (t : Token) : Except ReadError Reading :=
  match r.wait, t with
  | .value close, t =>
    if isTooDeep dialect r.stack t then .error (tooDeepIn r.stack) else startValue r.stack close t
  | .key entries close, t =>
    match t, r.stack with
    | .text s, _ =>
      if isTooDeep dialect r.stack t then .error (tooDeepIn r.stack) else .ok ⟨r.stack, .colon entries s⟩
    | .closeObj, .obj .. :: stack =>
      if close then .ok ⟨stack, .after (.obj entries)⟩ else .error .malformed
    | _, _ => .error .malformed
  | .colon entries key, .colon =>
    match r.stack with
    | .obj .. :: stack => .ok ⟨.obj entries key :: stack, .value false⟩
    | _ => .error .malformed
  | .colon .., _ => .error .malformed
  | .after value, t =>
    match t, r.stack with
    | .comma, .arr items :: stack => .ok ⟨.arr (value :: items) :: stack, .value false⟩
    | .closeArr, .arr items :: stack => .ok ⟨stack, .after (.arr (value :: items).reverse)⟩
    | .comma, .obj entries key :: stack =>
      .ok ⟨.obj entries key :: stack, .key (addEntry dialect key value entries) false⟩
    | .closeObj, .obj entries key :: stack =>
      .ok ⟨stack, .after (.obj (addEntry dialect key value entries))⟩
    | _, _ => .error .malformed

/-- Reads a document. -/
def read (dialect : Dialect) (text : String) : Except ReadError Json :=
  match (tokens dialect text.toList).foldlM (Reading.step dialect) ⟨[], .value false⟩ with
  | .ok ⟨[], .after value⟩ => .ok value
  | .ok _ => .error .malformed
  | .error e => .error e

end BlockMusic.Json
