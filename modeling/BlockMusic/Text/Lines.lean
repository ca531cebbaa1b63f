import BlockMusic.Text.Blank

/-!
# Lines and indentation

A text is cut into lines at every line boundary of Unicode, not only at the newline, and each line
keeps the boundary that ends it, so that the lines concatenate to the text. Indentation puts a unit
in front of every line that holds more than blanks.
-/

namespace BlockMusic.Text

/-- The characters that end a line. A carriage return with the newline after it ends one line. -/
def isBoundary (c : Char) : Bool :=
  let n := c.toNat
  (10 ≤ n && n ≤ 13) || (0x1c ≤ n && n ≤ 0x1e) || n == 0x85 || n == 0x2028 || n == 0x2029

/-- Puts `c` in front of the first line. -/
def consLine (c : Char) : List (List Char) → List (List Char)
  | [] => [[c]]
  | l :: ls => (c :: l) :: ls

/-- The lines of a text, each with the boundary that ends it. -/
def lines : List Char → List (List Char)
  | [] => []
  | '\r' :: '\n' :: cs => ['\r', '\n'] :: lines cs
  | c :: cs => if isBoundary c then [c] :: lines cs else consLine c (lines cs)

@[simp] theorem lines_nil : lines [] = [] := rfl

@[simp] theorem flatten_consLine (c : Char) (ls : List (List Char)) :
    (consLine c ls).flatten = c :: ls.flatten := by
  cases ls <;> rfl

/-- Cutting into lines loses nothing. -/
@[simp] theorem flatten_lines (cs : List Char) : (lines cs).flatten = cs := by
  fun_induction lines cs with
  | case1 => rfl
  | case2 cs ih => simp [ih]
  | case3 c cs _ _ ih => simp [ih]
  | case4 c cs _ _ ih => simp [ih]

/-- A line with `unit` in front, unless it is blank. -/
def indentLine (unit line : List Char) : List Char :=
  if line.all isBlank then line else unit ++ line

@[simp] theorem indentLine_nil (line : List Char) : indentLine [] line = line := by
  simp [indentLine]

/-- Every line that is not blank gets `unit` in front. -/
def indentChars (unit cs : List Char) : List Char :=
  (lines cs).flatMap (indentLine unit)

@[simp] theorem indentChars_empty (unit : List Char) : indentChars unit [] = [] := rfl

@[simp] theorem indentChars_nil (cs : List Char) : indentChars [] cs = cs := by
  have h : ∀ ls : List (List Char), ls.flatMap (indentLine []) = ls.flatten := by
    intro ls
    induction ls with
    | nil => rfl
    | cons l ls ih => simp [ih]
  rw [indentChars, h, flatten_lines]

/-- Indents a text by one `unit`. -/
def indent (unit text : String) : String :=
  String.ofList (indentChars unit.toList text.toList)

end BlockMusic.Text
