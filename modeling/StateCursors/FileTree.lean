import StateCursors.Diagnostic
import StateCursors.Text.Utf8

/-!
# File trees

A file tree is the state of a file system as a value: the files with their contents and the folders,
all under absolute paths without `..`. Writing a file creates the folders above it. Where links give
a file several names, writing it under one of them changes what is read under all of them.
-/

namespace StateCursors

/-- The files and folders of a file system. Every name of a file has an entry of its own, and
`linked` lists the names of each file that has several, also if it is still missing. -/
structure FileTree where
  files : List (FilePath × Octets)
  folders : List FilePath
  linked : List (List FilePath) := []
  deriving DecidableEq

def FilePath.top : FilePath := ⟨.root, []⟩

/-- The folders above a path, the top one left out. -/
def FilePath.ancestors (path : FilePath) : List FilePath :=
  (List.range (path.parts.length - 1)).map fun count =>
    { path with parts := path.parts.take (count + 1) }

/-- Whether a path leads below folder `folder`. -/
def FilePath.isBelow (folder path : FilePath) : Bool :=
  folder.anchor = path.anchor && folder.parts.isPrefixOf path.parts &&
    folder.parts.length < path.parts.length

namespace FileTree

def empty : FileTree := ⟨[], [], []⟩

def content? (tree : FileTree) (path : FilePath) : Option Octets :=
  tree.files.lookup path

def isFile (tree : FileTree) (path : FilePath) : Bool :=
  (tree.content? path).isSome

def isFolder (tree : FileTree) (path : FilePath) : Bool :=
  path = .top || tree.folders.contains path

/-- Whether there is a file or a folder at a path. -/
def isPresent (tree : FileTree) (path : FilePath) : Bool :=
  tree.isFile path || tree.isFolder path

def read (tree : FileTree) (path : FilePath) : Except Failure Octets :=
  if tree.isFolder path then .error (.isDirectory path)
  else match tree.content? path with
    | some content => .ok content
    | none => .error (.missingFile path)

/-- Make a folder and those above it. -/
def makeFolder (tree : FileTree) (path : FilePath) : FileTree :=
  { tree with
    folders := (path.ancestors ++ [path]).foldl
      (fun folders folder => if tree.isFolder folder then folders else folders ++ [folder])
      tree.folders }

/-- The names of the file at a path: the path itself, and what is linked with it. -/
def names (tree : FileTree) (path : FilePath) : List FilePath :=
  path :: (tree.linked.filter (·.contains path)).flatten

/-- Put content at a path, in the place of what the file held before. -/
def putContent (path : FilePath) (content : Octets) :
    List (FilePath × Octets) → List (FilePath × Octets)
  | [] => [(path, content)]
  | entry :: rest =>
      if entry.1 = path then (path, content) :: rest else entry :: putContent path content rest

/-- Put content at several paths. -/
def putContents (paths : List FilePath) (content : Octets) (files : List (FilePath × Octets)) :
    List (FilePath × Octets) :=
  paths.foldl (fun files path => putContent path content files) files

/-- Write a file, under all its names, and the folders above it. -/
def write (tree : FileTree) (path : FilePath) (content : Octets) : Except Failure FileTree :=
  if tree.isFolder path then .error (.isDirectory path)
  else .ok { tree.makeFolder path.parent with
    files := putContents (tree.names path) content tree.files }

/-- Take a name away from the file that has it. -/
def delete (tree : FileTree) (path : FilePath) : FileTree :=
  { tree with
    files := tree.files.filter (·.1 ≠ path)
    linked := tree.linked.map (·.filter (· ≠ path)) }

/-- The files at any depth below a folder. -/
def filesBelow (tree : FileTree) (folder : FilePath) : List FilePath :=
  (tree.files.map (·.1)).filter folder.isBelow

/-- The files whose content differs between two trees, with the content they have now. -/
def changes (before after : FileTree) : List (FilePath × Octets) :=
  after.files.filter fun entry => before.content? entry.1 ≠ some entry.2

end FileTree

end StateCursors
