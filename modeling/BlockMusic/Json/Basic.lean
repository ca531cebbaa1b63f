import BlockMusic.Decimal.Double

/-!
# JSON values

A JSON value keeps what the documents of this library can tell apart: an integer from a number with
a point or an exponent, and the order of an object's entries. Where a key has several entries, the
last one counts; putting a key again keeps its place and changes its value.
-/

namespace BlockMusic

/-- A JSON value. -/
inductive Json where
  | null
  | bool (b : Bool)
  | int (n : Int)
  | float (x : Double)
  | str (s : String)
  | arr (items : List Json)
  | obj (entries : List (String × Json))

namespace Json

instance : Inhabited Json := ⟨.null⟩

/-- Sets the value of `key` in place, or adds it at the end. -/
def putEntry {α : Type} (key : String) (value : α) : List (String × α) → List (String × α)
  | [] => [(key, value)]
  | (k, v) :: rest =>
    if k = key then (k, value) :: rest else (k, v) :: putEntry key value rest

@[simp] theorem putEntry_nil {α : Type} (key : String) (value : α) :
    putEntry key value [] = [(key, value)] := rfl

/-- One entry for each key: its first place and its last value. -/
def distinctEntries {α : Type} (entries : List (String × α)) : List (String × α) :=
  entries.foldl (fun done (key, value) => putEntry key value done) []

@[simp] theorem distinctEntries_nil {α : Type} : distinctEntries ([] : List (String × α)) = [] := rfl

/-- The value of an object's last entry for a key. -/
def get? (key : String) : Json → Option Json
  | .obj entries => entries.reverse.lookup key
  | _ => none

/-- An array of texts. -/
def strings (ss : List String) : Json := .arr (ss.map .str)

/-- An absent value is written as null. -/
def ofOption {α : Type} (f : α → Json) : Option α → Json
  | none => .null
  | some a => f a

/-- A number that is not finite stands somewhere in the value. -/
def hasNonFinite : Json → Bool
  | .float x => !x.isFinite
  | .arr items => anyItem items
  | .obj entries => anyEntry entries
  | _ => false
where
  anyItem : List Json → Bool
    | [] => false
    | j :: js => hasNonFinite j || anyItem js
  anyEntry : List (String × Json) → Bool
    | [] => false
    | (_, j) :: js => hasNonFinite j || anyEntry js

end Json

end BlockMusic
