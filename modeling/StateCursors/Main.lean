import StateCursors.CommandLine.Commands

/-!
# The program

The command line on the files of this machine: the files that a command may need are read into a
file tree, the command works on the tree, and what it changed there is written back.
-/

namespace StateCursors.CommandLine

/-- A folder with its sources and everything below it, `node_modules` left out. -/
partial def readFolder (tree : FileTree) (folder : FilePath) : IO FileTree := do
  let place := (← IO.currentDir) / folder.render
  let mut tree := tree.makeFolder folder
  for entry in ← place.readDir do
    let path := folder.join (.ofString entry.fileName)
    if ← entry.path.isDir then
      if entry.fileName ≠ "node_modules" then tree ← readFolder tree path
    else if isStateSource path then
      let content ← IO.FS.readBinFile entry.path
      tree := { tree with files := FileTree.putContent path content.toList tree.files }
  return tree

def readPlace (tree : FileTree) (path : FilePath) : IO FileTree := do
  let place := (← IO.currentDir) / path.render
  if ← place.isDir then readFolder tree path
  else if ← place.pathExists then
    let content ← IO.FS.readBinFile place
    return { tree.makeFolder path.parent with
      files := FileTree.putContent path content.toList tree.files }
  else return tree

/-- The places that a request may need, as far as a tree tells. -/
def neededPlaces (tree : FileTree) (here : FilePath) : Request → List FilePath
  | .help | .version => []
  | .schema path => [here.resolve (.ofString path)]
  | .generate given directory =>
      let path := (choices given directory).manifestPath here
      match Manifest.load tree here path with
      | .ok manifest =>
          path :: (manifest.sourcePaths ++ manifest.stateFiles).map fun place =>
            manifest.projectRoot.resolve (.ofString place)
      | .error _ => [path]

def writeChanges (before after : FileTree) : IO Unit := do
  for (path, content) in before.changes after do
    IO.FS.writeBinFile ((← IO.currentDir) / path.render) content.toByteArray

end StateCursors.CommandLine

open StateCursors CommandLine in
/-- Run the command line; the result is the exit code. -/
def main (arguments : List String) : IO UInt32 := do
  let here := FilePath.ofString (← IO.currentDir).toString
  match request arguments with
  | .error fault =>
      IO.eprintln fault.message
      return 2
  | .ok asked =>
      let mut tree := FileTree.empty
      for path in (neededPlaces tree here asked).take 1 do
        tree ← readPlace tree path
      for path in neededPlaces tree here asked do
        tree ← readPlace tree path
      let report := CommandLine.run arguments tree here
      if asked = .version then IO.println versionLine
      for record in report.log do
        IO.eprintln (record.level.name ++ " " ++ record.channel.name ++ ": " ++ record.text)
      let display := report.display .literal
      for line in display.lines do
        IO.println line
      if display.failed then
        IO.eprintln (report.escaped.elim "a tag is closed that is not open" (·.message))
      writeChanges tree report.tree
      return UInt32.ofNat display.exitCode
