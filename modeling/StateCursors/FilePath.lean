import StateCursors.Text.Parts

/-!
# File paths

A path is an anchor and a list of components. The empty components and the components `.` of its
text are dropped when it is read; `..` stays until the path is resolved. Resolving works on the
text alone: a component before `..` is a directory, never a link.
-/

namespace StateCursors

/-- Where a path starts. -/
inductive Anchor
  | here
  | root
  | doubleRoot
  deriving DecidableEq

namespace Anchor

def text : Anchor → String
  | here => ""
  | root => "/"
  | doubleRoot => "//"

/-- The anchor that a number of leading slashes writes: exactly two are kept. -/
def ofSlashes : Nat → Anchor
  | 0 => here
  | 2 => doubleRoot
  | _ => root

end Anchor

/-- A path as a list of components below an anchor. -/
structure FilePath where
  anchor : Anchor
  parts : List String
  deriving DecidableEq

namespace FilePath

def ofString (text : String) : FilePath where
  anchor := Anchor.ofSlashes (text.toList.takeWhile (· = '/')).length
  parts := (Text.pieces '/' text).filter fun part => part ≠ "" ∧ part ≠ "."

/-- The text of a path; the path without anchor and components is `.`. -/
def render (path : FilePath) : String :=
  match path.anchor, path.parts with
  | .here, [] => "."
  | anchor, parts => anchor.text ++ String.intercalate "/" parts

/-- The path `inner` seen from `outer`. -/
def join (outer inner : FilePath) : FilePath :=
  if inner.anchor = .here then { outer with parts := outer.parts ++ inner.parts } else inner

def parent (path : FilePath) : FilePath :=
  { path with parts := path.parts.dropLast }

/-- The last component, empty if there is none. -/
def name (path : FilePath) : String :=
  path.parts.getLastD ""

/-- A name before and from its last dot; a dot at either end of the name does not count. -/
def cutName (name : String) : String × String :=
  match Text.cutLast? '.' name with
  | some (stem, ending) =>
      if stem = "" ∨ ending = "" then (name, "") else (stem, "." ++ ending)
  | none => (name, "")

def stem (path : FilePath) : String :=
  (cutName path.name).1

/-- The suffix of the name, with its dot. -/
def suffix (path : FilePath) : String :=
  (cutName path.name).2

/-- Follow one more component, where `..` goes back. -/
def step (reached : List String) (part : String) : List String :=
  if part = ".." then reached.dropLast else reached ++ [part]

/-- The absolute path without `..`, seen from directory `here`. -/
def resolve (here path : FilePath) : FilePath where
  anchor := .root
  parts := (here.join path).parts.foldl step []

/-- The components by which paths are ordered. -/
def sortKey (path : FilePath) : List String :=
  path.anchor.text :: path.parts

/-- Whether `a` comes before `b`: component by component, each by code points. -/
def before (a b : FilePath) : Bool :=
  decide (a.sortKey < b.sortKey)

/-- Put a path into a strictly increasing list, unless it is there already. -/
def insertSorted (path : FilePath) : List FilePath → List FilePath
  | [] => [path]
  | other :: rest =>
      if path.before other then path :: other :: rest
      else if path = other then other :: rest
      else other :: insertSorted path rest

/-- The paths of a list, each once, in increasing order. -/
def sortedSet (paths : List FilePath) : List FilePath :=
  paths.foldr insertSorted []

end FilePath

end StateCursors
