import StateCursors.FileTree

/-!
# Discovery of source files

The sources of a project are the TypeScript files that its source paths name or contain. Declaration
files and generated cursors files are no sources, and what lies in `node_modules` is not searched.
-/

namespace StateCursors

/-- Whether a path names a TypeScript source, by its name alone. -/
def isStateSource (path : FilePath) : Bool :=
  (Text.endsWith ".ts" path.name || Text.endsWith ".tsx" path.name) &&
    !Text.endsWith ".d.ts" path.name && !Text.endsWith ".cursors" path.stem

/-- The sources that one resolved source path stands for. -/
def sourcesAt (tree : FileTree) (base : FilePath) : List FilePath :=
  if tree.isFile base then [base].filter isStateSource
  else if tree.isFolder base then
    (tree.filesBelow base).filter fun path =>
      !path.parts.contains "node_modules" && isStateSource path
  else []

/-- The sources of a project whose root is `root`, each once, in order. -/
def discoverSources (tree : FileTree) (root : FilePath) (sourcePaths : List String) :
    List FilePath :=
  FilePath.sortedSet <| sourcePaths.flatMap fun path =>
    sourcesAt tree (root.resolve (.ofString path))

end StateCursors
