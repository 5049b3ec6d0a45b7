import StateCursors.Extraction
import StateCursors.FileTree

/-!
# Projects

A project names its source files, the files that generation starts from and the state it looks for
there. Loading it reads every source once; the loaded sources are in increasing order of their
paths, whatever the order, repetition or spelling of the paths that named them.
-/

namespace StateCursors

/-- Choices that guide generation. -/
structure GenerationConfig where
  recurse : Bool
  rootKey : Option String
  libraryAlias : String
  stateAlias : String
  cacheSchemas : Bool
  deriving DecidableEq

/-- The choices of a project that makes none. -/
def GenerationConfig.standard : GenerationConfig := ⟨true, none, "bf", "s", false⟩

/-- The name of the application's state in a project that names none. -/
def standardAppState : String := "IApplicationState"

/-- What generation has to know about a project. -/
structure Project where
  sourceFiles : List FilePath
  appState : String
  stateFiles : List FilePath
  config : GenerationConfig
  deriving DecidableEq

/-- The sources of a project in memory, and the files that generation starts from. -/
structure LoadedProject where
  sources : List SourceFile
  stateFiles : List FilePath
  deriving DecidableEq

namespace LoadedProject

def source? (loaded : LoadedProject) (path : FilePath) : Option SourceFile :=
  loaded.sources.find? (·.path = path)

/-- The source that a path leads to. -/
def resolveSource? (loaded : LoadedProject) (here path : FilePath) : Option SourceFile :=
  loaded.source? (here.resolve path)

end LoadedProject

namespace Project

/-- The resolved paths of the sources, each once, in order. -/
def sourcePaths (project : Project) (here : FilePath) : List FilePath :=
  FilePath.sortedSet (project.sourceFiles.map here.resolve)

/-- The note about a project that is being loaded. -/
def loadingNote (project : Project) (here : FilePath) : LogRecord where
  level := .info
  channel := .project
  text := "Loading " ++ toString (project.sourcePaths here).length ++ " source files"

def readSource (tree : FileTree) (path : FilePath) : Except Failure SourceFile :=
  (tree.read path).map (⟨path, ·⟩)

/-- Read every source; a project without state files starts from all of them. -/
def load (project : Project) (tree : FileTree) (here : FilePath) :
    Except Failure LoadedProject := do
  let paths := project.sourcePaths here
  let sources ← paths.mapM (readSource tree)
  let named := project.stateFiles.map here.resolve
  let stateFiles := if named.isEmpty then paths else named
  let stray := stateFiles.filter fun path => !paths.contains path
  if stray.isEmpty then return ⟨sources, stateFiles⟩
  else throw (.strayStateFiles stray)

end Project

end StateCursors
