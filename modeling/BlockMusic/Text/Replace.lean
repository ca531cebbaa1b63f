/-!
# Replacing a word

Every occurrence of a word in a text gives way to another, from the left, without overlaps.
-/

namespace BlockMusic.Text

/-- Replaces the occurrences of `word`, once `skip` characters of the last one are passed. -/
def replaceFrom (word new : List Char) : Nat → List Char → List Char
  | _, [] => []
  | skip + 1, _ :: cs => replaceFrom word new skip cs
  | 0, c :: cs =>
    if word.isPrefixOf (c :: cs) then new ++ replaceFrom word new (word.length - 1) cs
    else c :: replaceFrom word new 0 cs

/-- Replaces every occurrence of `word` by `new`. -/
def replace (word new text : String) : String :=
  String.ofList (replaceFrom word.toList new.toList 0 text.toList)

end BlockMusic.Text
