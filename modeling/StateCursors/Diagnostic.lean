import StateCursors.FilePath
import StateCursors.Text.Quoted

/-!
# Failures

A diagnostic is a failure that the program explains: its kind, its message and the place it speaks
of. A failure is a diagnostic, a file that cannot be read or a path that cannot be used.
-/

namespace StateCursors

/-- Where a diagnostic was found. -/
structure Place where
  file : FilePath
  typeName : Option String
  deriving DecidableEq

/-- The file of a place, and the state if one is named. -/
def Place.text (place : Place) : String :=
  match place.typeName with
  | some typeName =>
      if typeName = "" then place.file.render
      else place.file.render ++ " in state " ++ typeName
  | none => place.file.render

/-- What a diagnostic is about. -/
inductive DiagnosticKind
  | general
  | schema
  | extraction
  | config
  deriving DecidableEq

/-- A failure that the program explains. -/
structure Diagnostic where
  kind : DiagnosticKind
  message : String
  place : Option Place
  deriving DecidableEq

namespace Diagnostic

/-- The place on a line of its own, then the message. -/
def text (diagnostic : Diagnostic) : String :=
  match diagnostic.place with
  | some place => place.text ++ "\n" ++ diagnostic.message
  | none => diagnostic.message

/-- A state that a module declares more than once. -/
def duplicateState (file : FilePath) (typeName : String) : Diagnostic where
  kind := .schema
  message := "Two states named '" ++ typeName ++ "' could not be generated; " ++
    "duplicate declarations are a compilation error."
  place := some ⟨file, some typeName⟩

/-- A source that is not a TypeScript module. -/
def malformedSource (file : FilePath) : Diagnostic where
  kind := .extraction
  message := "TypeScript source contains syntax errors"
  place := some ⟨file, none⟩

end Diagnostic

/-- Why an operation has no answer. Octets that are no UTF-8 text and a type that is `const[]`, an
array without the text of an element, are both `undecodable`: both end a run, and nothing in this
library tells one from the other. The last case stands for work that was cut off, for which there is
never a reason: every bound in this library is computed from the input. -/
inductive Failure
  | diagnosed (diagnostic : Diagnostic)
  | undecodable
  | missingFile (path : FilePath)
  | isDirectory (path : FilePath)
  | strayStateFiles (paths : List FilePath)
  | emptyName (path : FilePath)
  | unfinished
  deriving DecidableEq

namespace Failure

/-- A path as messages name it inside a list. -/
def pathItem (path : FilePath) : String :=
  "PosixPath(" ++ Text.quoted path.render ++ ")"

def message : Failure → String
  | diagnosed diagnostic => diagnostic.text
  | undecodable => "a text that is needed is missing or not valid UTF-8"
  | missingFile path => "[Errno 2] No such file or directory: " ++ Text.quoted path.render
  | isDirectory path => "[Errno 21] Is a directory: " ++ Text.quoted path.render
  | strayStateFiles paths =>
      "State files are not project sources: [" ++
        String.intercalate ", " (paths.map pathItem) ++ "]"
  | emptyName path => pathItem path ++ " has an empty name"
  | unfinished => "the work was cut off"

/-- Failures of the file system, as opposed to those of a file's content. -/
def isFileSystem : Failure → Bool
  | missingFile _ | isDirectory _ | strayStateFiles _ => true
  | diagnosed _ | undecodable | emptyName _ | unfinished => false

end Failure

end StateCursors
