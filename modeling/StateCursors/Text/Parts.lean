/-!
# Cutting texts at a character

Names, paths and qualified types are cut at dots and slashes: everywhere, at the first one, or at
the last one.
-/

namespace StateCursors.Text

/-- The pieces of a text between the occurrences of `c`. -/
def pieces (c : Char) (text : String) : List String :=
  (text.toList.splitOn c).map String.ofList

/-- What stands before and after the first `c`. -/
def cutFirst? (c : Char) (text : String) : Option (String × String) :=
  match text.toList.span (· ≠ c) with
  | (before, _ :: after) => some (String.ofList before, String.ofList after)
  | (_, []) => none

/-- What stands before and after the last `c`. -/
def cutLast? (c : Char) (text : String) : Option (String × String) :=
  match text.toList.reverse.span (· ≠ c) with
  | (after, _ :: before) => some (String.ofList before.reverse, String.ofList after.reverse)
  | (_, []) => none

def beginsWith (start text : String) : Bool :=
  start.toList.isPrefixOf text.toList

def endsWith (ending text : String) : Bool :=
  ending.toList.isSuffixOf text.toList

end StateCursors.Text
