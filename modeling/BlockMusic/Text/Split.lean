/-!
# Cutting at a separator

A text is cut at every occurrence of a character. There is always a first piece, and joining the
pieces with the separator gives the text back.
-/

namespace BlockMusic.Text

/-- The pieces between the separators. -/
def splitChars (sep : Char) : List Char → List (List Char)
  | [] => [[]]
  | c :: cs =>
    if c = sep then [] :: splitChars sep cs
    else
      match splitChars sep cs with
      | [] => [[c]]
      | piece :: pieces => (c :: piece) :: pieces

@[simp] theorem splitChars_nil (sep : Char) : splitChars sep [] = [[]] := rfl

@[simp] theorem splitChars_ne_nil (sep : Char) (cs : List Char) : splitChars sep cs ≠ [] := by
  cases cs with
  | nil => simp [splitChars]
  | cons c cs =>
      rw [splitChars]
      split
      · simp
      · split <;> simp

/-- The pieces joined with the separator are the text. -/
theorem intercalate_splitChars (sep : Char) (cs : List Char) :
    List.intercalate [sep] (splitChars sep cs) = cs := by
  induction cs with
  | nil => rfl
  | cons c cs ih =>
      obtain ⟨piece, pieces, h⟩ := List.exists_cons_of_ne_nil (splitChars_ne_nil sep cs)
      rw [h] at ih
      by_cases hc : c = sep
      · simp [splitChars, hc, h, List.intercalate] at ih ⊢
        exact ih
      · cases pieces <;> simp_all [splitChars, List.intercalate, List.intersperse]

/-- The pieces of a text between the separators. -/
def split (sep : Char) (s : String) : List String := (splitChars sep s.toList).map String.ofList

/-- What stands before the first separator, and what behind it, if there is one. -/
def cutChars (sep : Char) : List Char → List Char × Option (List Char)
  | [] => ([], none)
  | c :: cs =>
    if c = sep then ([], some cs)
    else
      let rest := cutChars sep cs
      (c :: rest.1, rest.2)

@[simp] theorem cutChars_nil (sep : Char) : cutChars sep [] = ([], none) := rfl

/-- Cuts a text at the first separator. -/
def cut (sep : Char) (s : String) : String × Option String :=
  let (before, behind) := cutChars sep s.toList
  (String.ofList before, behind.map String.ofList)

/-- A text starts with another one. -/
def startsWith (start s : String) : Bool := start.toList.isPrefixOf s.toList

/-- The rest of a text behind a start. -/
def afterStart? (start s : String) : Option String :=
  if startsWith start s then some (String.ofList (s.toList.drop start.length)) else none

end BlockMusic.Text
