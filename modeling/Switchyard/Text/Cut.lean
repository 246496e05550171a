/-!
# Cutting and replacing

Three elementary moves on texts: taking off a known beginning, cutting at the first occurrence of
a character, and replacing every occurrence of one text by another.
-/

namespace Switchyard.Text

/-- What follows `start` in `cs`, if `cs` begins with it. -/
def after? (start cs : List Char) : Option (List Char) :=
  if start.isPrefixOf cs then some (cs.drop start.length) else none

/-- The two sides of the first `sep` in a list of characters. -/
def cutAt (sep : Char) : List Char → Option (List Char × List Char)
  | [] => none
  | c :: cs =>
    if c = sep then some ([], cs)
    else (cutAt sep cs).map fun (before, rest) ↦ (c :: before, rest)

/-- Replaces the occurrences of `target` from the left, none inside another. The number counts
the characters that still belong to the occurrence replaced last. -/
def replaceFrom (target value : List Char) : Nat → List Char → List Char
  | _, [] => []
  | n + 1, _ :: cs => replaceFrom target value n cs
  | 0, c :: cs =>
    if target.isPrefixOf (c :: cs) then
      value ++ replaceFrom target value (target.length - 1) cs
    else c :: replaceFrom target value 0 cs

/-- Replaces every occurrence of a nonempty `target`. -/
def replace (target value cs : List Char) : List Char :=
  replaceFrom target value 0 cs

/-- Joins texts with a separator. -/
def join (sep : String) (parts : List String) : String :=
  sep.intercalate parts

end Switchyard.Text
