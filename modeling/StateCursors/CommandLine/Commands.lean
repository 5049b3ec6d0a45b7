import StateCursors.CommandLine.Console
import StateCursors.CommandLine.Options
import StateCursors.Cursors.Generation
import StateCursors.Manifest
import StateCursors.Output

/-!
# Commands

A command works on a file tree and reports what it printed, how it ended and what the tree is
afterwards. Generating with a dry run prints the files in the place of writing them, each below a
rule with its path.
-/

namespace StateCursors.CommandLine

/-- How a command went. -/
structure Report where
  exitCode : Nat
  console : List ConsoleItem
  escaped : Option Failure
  log : List LogRecord
  tree : FileTree

/-- What a command shows on a terminal. -/
structure Display where
  exitCode : Nat
  lines : List String
  /-- Whether a failure ended the command before its end. -/
  failed : Bool
  deriving DecidableEq

namespace Report

/-- A command that printed lines and changed nothing. -/
def printed (exitCode : Nat) (console : List ConsoleItem) (tree : FileTree) : Report :=
  ⟨exitCode, console, none, [], tree⟩

/-- A command that a failure ended before it could print more. -/
def aborted (failure : Failure) (log : List LogRecord) (tree : FileTree) : Report :=
  ⟨1, [], some failure, log, tree⟩

/-- A command shows what it printed, and faulty markup ends it. -/
def display (terminal : Terminal) (report : Report) : Display :=
  match shownLines terminal report.console with
  | (lines, true) => ⟨report.exitCode, lines, report.escaped.isSome⟩
  | (lines, false) => ⟨1, lines, true⟩

end Report

/-- What the options of the command that generates choose. -/
structure Choices where
  directory : FilePath
  state : Option String
  rootKey : Option String
  recurse : Option Bool
  config : Option FilePath
  dryRun : Bool
  verbose : Bool
  deriving DecidableEq

/-- The last choice between following states into other files and not doing so. -/
def lastRecurse (given : List Given) : Option Bool :=
  (given.filterMap fun option =>
    if option.key = .recurse then some true
    else if option.key = .noRecurse then some false
    else none).getLast?

def choices (given : List Given) (directory : String) : Choices where
  directory := .ofString directory
  state := valueOf? given .state
  rootKey := valueOf? given .rootKey
  recurse := lastRecurse given
  config := (valueOf? given .config).map .ofString
  dryRun := isGiven given .dryRun
  verbose := isGiven given .verbose

namespace Choices

def manifestPath (choices : Choices) (here : FilePath) : FilePath :=
  match choices.config with
  | some path => here.resolve path
  | none => (here.resolve choices.directory).join (.ofString manifestName)

/-- A manifest with the choices made in its place. -/
def override (choices : Choices) (manifest : Manifest) : Manifest :=
  { manifest with
    appState := match choices.state with
      | some state => if state = "" then manifest.appState else state
      | none => manifest.appState
    generation := { manifest.generation with
      recurse := choices.recurse.getD manifest.generation.recurse } }

def shows (choices : Choices) (record : LogRecord) : Bool :=
  choices.verbose || record.level ≠ .debug

end Choices

/-- The warnings and errors of a run, and the number of files. -/
def summary {σ : Type} (verb : String) (state : RunState σ) : List ConsoleItem :=
  state.warnings.map (fun text =>
      .line ("[yellow]Warning:[/yellow] " ++ Markup.escape text)) ++
    state.errors.map (fun text => .line ("[red]Error:[/red] " ++ Markup.escape text)) ++
    [.line ("[green]" ++ verb ++ " " ++ toString state.created.length ++
      " cursors file(s)[/green]")]

/-- The files that a dry run made, in the order in which they were made. -/
def listing (state : RunState (List (FilePath × Octets))) : List ConsoleItem :=
  state.created.flatMap fun path =>
    [.rule path.render, .code (((state.store.lookup path).bind Utf8.decode?).getD "")]

/-- The end of a run: what it shows if it finished, and how it is reported if it did not. -/
def conclude {σ : Type} (choices : Choices) (outcome : Except Failure Unit)
    (state : RunState σ) (console : List ConsoleItem) (tree : FileTree) : Report :=
  let log := state.log.filter choices.shows
  match outcome with
  | .ok () => ⟨if state.success then 0 else 1, console, none, log, tree⟩
  | .error failure =>
      if failure.isFileSystem then
        ⟨1, [.line ("[red]Could not load sources:[/red] " ++ failure.message)], none, log, tree⟩
      else .aborted failure log tree

/-- Generate the cursors files of a project whose manifest is known. -/
def generateFrom (choices : Choices) (tree : FileTree) (here : FilePath) (manifest : Manifest) :
    Report :=
  let project := Project.ofManifest tree manifest
  if project.sourceFiles.isEmpty then
    .printed 1 [.line ("[red]No TypeScript sources found in " ++ manifest.projectRoot.render ++
      "[/red]")] tree
  else
    let recurse := manifest.generation.recurse
    if choices.dryRun then
      let (outcome, state) := (project.generate tree here TypeScript.extractor Writer.memory
        recurse choices.rootKey).run (RunState.start [])
      conclude choices outcome state (listing state ++ summary "Would generate" state) tree
    else
      let (outcome, state) := (project.generate tree here TypeScript.extractor Writer.disk
        recurse choices.rootKey).run (RunState.start tree)
      conclude choices outcome state (summary "Generated" state) state.store

def generate (choices : Choices) (tree : FileTree) (here : FilePath) : Report :=
  match Manifest.load tree here (choices.manifestPath here) with
  | .ok manifest => generateFrom choices tree here (choices.override manifest)
  | .error (.diagnosed diagnostic) =>
      .printed 1 [.line ("[red]Configuration error:[/red] " ++ Markup.escape diagnostic.text)] tree
  | .error failure => .aborted failure [] tree

def stateTable (state : StateRecord) : ConsoleItem :=
  .table (some (state.typeName ++ " (" ++ state.capability.name ++ ")")) ["Field", "Type"]
    (state.fields.map fun field =>
      [Markup.escape field.name, Markup.escape field.declaredType])

def schemaItems (schema : ModuleSchema) : List ConsoleItem :=
  schema.states.map stateTable ++
    (if schema.enums.isEmpty then []
      else [.line ("Enums: " ++ String.intercalate ", " schema.enums)]) ++
    (if schema.imports.isEmpty then []
      else [.table (some "Imports") ["Alias", "Path"]
        (schema.imports.map fun i => [i.name, i.path])])

def showSchema (path : FilePath) (tree : FileTree) (here : FilePath) : Report :=
  let path := here.resolve path
  match tree.content? path with
  | none => .printed 1 [.line ("[red]No such file: " ++ path.render ++ "[/red]")] tree
  | some content =>
      match TypeScript.schemaOf ⟨path, content⟩ with
      | .ok schema => .printed 0 (schemaItems schema) tree
      | .error (.diagnosed diagnostic) =>
          .printed 1 [.line ("[red]Extraction error:[/red] " ++ diagnostic.text)] tree
      | .error failure => .aborted failure [] tree

def versionLine : String := "cursorgen 0.3.0"

/-- Do what the arguments ask for, in directory `here`; wrong arguments end with code 2. -/
def run (arguments : List String) (tree : FileTree) (here : FilePath) : Report :=
  match request arguments with
  | .error _ => .printed 2 [] tree
  | .ok .help | .ok .version => .printed 0 [] tree
  | .ok (.generate given directory) => generate (choices given directory) tree here
  | .ok (.schema path) => showSchema (.ofString path) tree here

end StateCursors.CommandLine
