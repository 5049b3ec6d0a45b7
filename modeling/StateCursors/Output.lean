import StateCursors.Cursors.Run

/-!
# Writers

Generated files go into a file tree, or are kept in memory. A writer may also refuse paths, as a
place that cannot be written to does.
-/

namespace StateCursors

namespace Writer

/-- Writes into the tree, where only a folder is in the way of a file. Whatever else may be against a
path, such as a missing permission or the length of its name, `barring` adds. -/
def disk : Writer FileTree where
  write tree path content :=
    match tree.write path content with
    | .ok tree => (none, tree)
    | .error failure => (some failure.message, tree)

/-- Keeps the last content of every path. -/
def memory : Writer (List (FilePath × Octets)) where
  write files path content := (none, FileTree.putContent path content files)

/-- Writes like another writer, but refuses the paths that there is a reason against. A file that is
refused changes nothing. -/
def barring {σ : Type} (refusal : FilePath → Option String) (writer : Writer σ) : Writer σ where
  write store path content :=
    match refusal path with
    | some reason => (some reason, store)
    | none => writer.write store path content

/-- Refuses some paths, all with the same reason. -/
def refusing {σ : Type} (paths : List FilePath) (reason : String) (writer : Writer σ) : Writer σ :=
  writer.barring fun path => if paths.contains path then some reason else none

end Writer

end StateCursors
