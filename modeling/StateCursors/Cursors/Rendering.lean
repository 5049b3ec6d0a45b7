import StateCursors.Naming
import StateCursors.Text.Literal

/-!
# Text of a cursors file

A cursors file imports what its state module imports and the state module itself, declares the root
key and the root cursor, and then one cursor for every accessor. `CursorsFile.render` is the only
place where a file becomes text.
-/

namespace StateCursors

/-- An accessor of a cursors file; `key` is relative to the root key. -/
structure Accessor where
  name : String
  key : String
  type : String
  deriving DecidableEq

/-- What a cursors file says. -/
structure CursorsFile where
  imports : List NamespaceImport
  stateAlias : String
  stateModule : String
  rootKey : Option String
  library : String
  rootType : String
  accessors : List Accessor
  deriving DecidableEq

/-- A root key, if it is present and not empty. -/
def presentKey (rootKey : Option String) : Option String :=
  rootKey.filter (· ≠ "")

/-- The root key as generation uses it: without quotes, and absent if empty. -/
def normalizeRootKey (rootKey : Option String) : Option String :=
  presentKey ((presentKey rootKey).map Text.bareKey)

def importLine (name path : String) : String :=
  "import * as " ++ name ++ " from '" ++ path ++ "';"

/-- The imports of the state module again, and the state module itself. -/
def renderImports (stateAlias stateModule : String) (imports : List NamespaceImport) : String :=
  let lines := imports.map (fun i => importLine i.name i.path) ++
    [importLine stateAlias ("./" ++ stateModule)]
  String.intercalate "\n" lines ++ "\n\n"

def renderRootKey (rootKey : Option String) (library : String) : String :=
  let value := match presentKey rootKey with
    | some key => Text.quoteKey key
    | none => library ++ ".rootCursor.key"
  "export const rootKey = " ++ value ++ ";\n\n"

def renderRootCursor (rootKey : Option String) (library stateAlias typeName : String) : String :=
  let declaration := "export const rootCursor: " ++ library ++ ".ICursor<" ++ stateAlias ++ "." ++
    typeName ++ ">"
  match presentKey rootKey with
  | some _ => declaration ++ " = \x7b\n    key: rootKey\n\x7d\n\n"
  | none => declaration ++ " = " ++ library ++ ".rootCursor\n\n"

/-- The expression of a key, relative to the root key if there is one. -/
def keyExpression (withRoot : Bool) (key : String) : String :=
  if withRoot then "rootKey + " ++ Text.stringLiteral ("." ++ key) else Text.stringLiteral key

def Accessor.render (accessor : Accessor) (library : String) (withRoot : Bool) : String :=
  "export const " ++ accessor.name ++ "Cursor: " ++ library ++ ".ICursor<" ++ accessor.type ++
    "> = \x7b\n    key: " ++ keyExpression withRoot accessor.key ++ "\n\x7d\n"

namespace CursorsFile

/-- Whether the keys of a file are relative to a root key of its own. -/
def hasRootKey (file : CursorsFile) : Bool :=
  (presentKey file.rootKey).isSome

/-- What precedes the accessors. -/
def preamble (file : CursorsFile) : String :=
  renderImports file.stateAlias file.stateModule file.imports ++
    renderRootKey file.rootKey file.library ++
    renderRootCursor file.rootKey file.library file.stateAlias file.rootType

def render (file : CursorsFile) : String :=
  file.preamble ++
    String.intercalate "\n" (file.accessors.map (·.render file.library file.hasRootKey))

end CursorsFile

/-- The cursors file of a state module stands beside it. -/
def cursorsPath (source : FilePath) : Except Failure FilePath :=
  if source.parts = [] then .error (.emptyName source)
  else .ok { source with parts := source.parts.dropLast ++ [source.stem ++ ".cursors.ts"] }

end StateCursors
