import StateCursors.Discovery
import StateCursors.Project
import StateCursors.Toml.Document

/-!
# Manifests

The manifest of a project says which state is the application's, where the sources are, which files
generation starts from and how it goes about it. A project without a manifest has the standard one.
-/

namespace StateCursors

/-- What the manifest of a project says. -/
structure Manifest where
  projectRoot : FilePath
  appState : String
  sourcePaths : List String
  stateFiles : List String
  generation : GenerationConfig
  deriving DecidableEq

def manifestName : String := "cursorgen.toml"

/-- What can be wrong with a manifest. -/
inductive ManifestFault
  /-- The text is no TOML document, for a reason that its reader may give. -/
  | malformed (path : FilePath) (reason : Option String)
  | notATable (name : String)
  | wrongType (key expected : String) (found : Toml.Value)
  | notStrings (key : String)
  | emptyAppState

def ManifestFault.message : ManifestFault → String
  | malformed path reason => "Invalid TOML in " ++ path.render ++ reason.elim "" (": " ++ ·)
  | notATable name => "[" ++ name ++ "] must be a table"
  | wrongType key expected found =>
      "'" ++ key ++ "' must be of type " ++ expected ++ ", got " ++ found.shown
  | notStrings key => "'" ++ key ++ "' must be a list of strings"
  | emptyAppState => "project.app_state must not be empty"

def ManifestFault.diagnostic (fault : ManifestFault) : Diagnostic where
  kind := .config
  message := fault.message
  place := none

/-- A text whose lines end with line feeds alone. -/
def normalizeLines : List Char → List Char
  | [] => []
  | '\r' :: '\n' :: rest => '\n' :: normalizeLines rest
  | c :: rest => (if c = '\r' then '\n' else c) :: normalizeLines rest

namespace Manifest

open Toml (Table Value)

/-- The manifest of a project that has none. -/
def standard (root : FilePath) : Manifest :=
  ⟨root, standardAppState, ["./"], [], .standard⟩

/-- A table of a document, empty if it is missing. -/
def section? (document : Table) (name : String) : Except ManifestFault Table :=
  match document.lookup name with
  | none => .ok []
  | some (.table entries) => .ok entries
  | some _ => .error (.notATable name)

def text? (table : Table) (key : String) : Except ManifestFault (Option String) :=
  match table.lookup key with
  | none => .ok none
  | some (.string text) => .ok (some text)
  | some found => .error (.wrongType key "str" found)

def choice? (table : Table) (key : String) : Except ManifestFault (Option Bool) :=
  match table.lookup key with
  | none => .ok none
  | some (.boolean truth) => .ok (some truth)
  | some found => .error (.wrongType key "bool" found)

/-- The text of a value that is one. -/
def textOf? : Value → Option String
  | .string text => some text
  | _ => none

def texts? (table : Table) (key : String) : Except ManifestFault (Option (List String)) :=
  match table.lookup key with
  | none => .ok none
  | some (.array items) =>
      match items.mapM textOf? with
      | some texts => .ok (some texts)
      | none => .error (.notStrings key)
  | some _ => .error (.notStrings key)

def ofDocument (root : FilePath) (document : Table) : Except ManifestFault Manifest := do
  let project ← section? document "project"
  let generation ← section? document "generation"
  let appState := (← text? project "app_state").getD standardAppState
  if appState = "" then throw .emptyAppState
  let sourcePaths ← texts? project "paths"
  let stateFiles ← texts? project "states"
  let recurse ← choice? generation "recurse"
  let rootKey ← text? generation "root_key"
  let libraryAlias ← text? generation "library_alias"
  let stateAlias ← text? generation "state_alias"
  let cacheSchemas ← choice? generation "cache_schemas"
  let standard := GenerationConfig.standard
  return ⟨root, appState, sourcePaths.getD ["./"], stateFiles.getD [],
    ⟨recurse.getD standard.recurse, rootKey, libraryAlias.getD standard.libraryAlias,
      stateAlias.getD standard.stateAlias, cacheSchemas.getD standard.cacheSchemas⟩⟩

/-- The manifest that the content of a file describes. `Toml.document?` gives no reason against a
text. -/
def ofText (path root : FilePath) (text : String) : Except ManifestFault Manifest :=
  match Toml.document? (normalizeLines text.toList) with
  | some document => ofDocument root document
  | none => .error (.malformed path none)

/-- Read a manifest; where there is no file, the standard one counts. -/
def load (tree : FileTree) (here path : FilePath) : Except Failure Manifest := do
  let root := here.resolve path.parent
  let file := here.resolve path
  if tree.isPresent file then
    match Utf8.decode? (← tree.read file) with
    | some text =>
        match ofText path root text with
        | .ok manifest => return manifest
        | .error fault => throw (.diagnosed fault.diagnostic)
    | none => throw .undecodable
  else return standard root

end Manifest

namespace Project

def ofManifest (tree : FileTree) (manifest : Manifest) : Project where
  sourceFiles := discoverSources tree manifest.projectRoot manifest.sourcePaths
  appState := manifest.appState
  stateFiles := manifest.stateFiles.map fun path =>
    manifest.projectRoot.resolve (.ofString path)
  config := manifest.generation

/-- The project in a directory, with the manifest in it or the given one. -/
def fromDirectory (tree : FileTree) (here directory : FilePath) (manifest : Option FilePath) :
    Except Failure Project := do
  let path := match manifest with
    | some path => here.resolve path
    | none => (here.resolve directory).join (.ofString manifestName)
  return ofManifest tree (← Manifest.load tree here path)

end Project

end StateCursors
