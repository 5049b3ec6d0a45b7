import StateCursors.Cursors.Run

/-!
# The walk through the states of a file

The accessors of a cursors file are found by a walk that starts at the root state. Every field gets
an accessor; a field typed with a state of the same file, or with a component state of another file,
queues that state, to be expanded under the key of the field after the fields beside it. A field
typed with a route component state of another file has that file generated at once, under the key of
the field. A state that contains itself is not expanded again.
-/

namespace StateCursors

/-- A state whose fields are still to be expanded under a key, and the states that led to it. -/
structure Expansion where
  state : StateRecord
  under : Option String
  ancestors : List StateRecord
  deriving DecidableEq

/-- A file that is being generated: its source, the schema of the source and its settings. -/
structure Draft where
  source : SourceFile
  schema : ModuleSchema
  rootKey : Option String
  library : String
  stateAlias : String
  deriving DecidableEq

/-- Endings that are tried for the path of an import. -/
def importEndings : List String := [".ts", ".tsx", "/index.ts", "/index.tsx"]

/-- The source that a relative import leads to. -/
def importedSource? (loaded : LoadedProject) (importer : FilePath) (path : String) :
    Option SourceFile :=
  if Text.beginsWith "." path then
    let base := (importer.parent.join (.ofString path)).render
    importEndings.findSome? fun ending => loaded.resolveSource? .top (.ofString (base ++ ending))
  else none

/-- The type of a field as the cursors file writes it. -/
def writtenType (draft : Draft) (field : Field) : String :=
  if (draft.schema.statesNamed field.type).isEmpty && !draft.schema.isEnum field.type then
    field.declaredType
  else draft.stateAlias ++ "." ++ field.declaredType

/-- The cursors file of a draft with root state `root` and the given accessors. -/
def Draft.file (draft : Draft) (root : StateRecord) (accessors : List Accessor) :
    CursorsFile where
  imports := draft.schema.imports
  stateAlias := draft.stateAlias
  stateModule := draft.schema.fileName
  rootKey := draft.rootKey
  library := draft.library
  rootType := root.typeName
  accessors := accessors

variable {σ : Type}

/-- The settings of the file for state `root` of a source. -/
def draftFor (setting : Setting σ) (source : SourceFile) (schema : ModuleSchema)
    (root : StateRecord) (rootKey : Option String) : Draft where
  source := source
  schema := schema
  rootKey := rootKey
  library := match root.capabilityQualifier? with
    | some qualifier => if qualifier = "" then setting.config.libraryAlias else qualifier
    | none => setting.config.libraryAlias
  stateAlias := unusedAlias setting.config.stateAlias schema.imports

namespace Conduct

/-! The walk, carried out in any computations that can conduct it. -/

/-- How another file is generated: from a source, for a state, under a root key. -/
abbrev Route (m : Type → Type) := SourceFile → String → Option String → m Unit

variable {m : Type → Type} [Monad m] [MonadExceptOf Failure m] [Conduct σ m]

/-- The source and the state that a qualified type stands for, if they can be found. -/
def resolveExternal (setting : Setting σ) (draft : Draft) (type : String) :
    m (Option (SourceFile × StateRecord)) := do
  let some (qualifier, name) := Text.cutFirst? '.' type | return none
  let some target := draft.schema.findImport? qualifier | return none
  match importedSource? setting.loaded draft.source.path target.path with
  | none =>
      step (Run.note .debug ("Import '" ++ target.path ++ "' of " ++ draft.source.path.render ++
        " is not a project source"))
      return none
  | some source =>
      let schema? ← recovering (·.kind = .extraction)
        (some <$> step (Run.schemaOf setting source))
        (fun diagnostic => do
          step (Run.warn (source.path.render ++ ": not expanded, " ++ diagnostic.message))
          return none)
      match schema? with
      | none => return none
      | some schema =>
          match schema.resolveState name with
          | .error diagnostic => throw (.diagnosed diagnostic)
          | .ok state? => return state?.map (source, ·)

/-- Follow a field into another file; the component state found there, if any, is queued. -/
def followField (setting : Setting σ) (route : Route m) (draft : Draft) (key : String)
    (field : Field) : m (List (StateRecord × String)) := do
  if setting.recurse && field.isExternal then
    match ← resolveExternal setting draft field.type with
    | none => return []
    | some (source, state) =>
        match state.capability with
        | .routeComponent =>
            follow (source.path, state.typeName)
              (route source state.typeName (some (composeKey [draft.rootKey, some key])))
            return []
        | .component => return [(state, key)]
        | .state | .plain => return []
  else return []

/-- The accessor of a field under a key, the states it queues, and the names given out so far. -/
def walkField (setting : Setting σ) (route : Route m) (draft : Draft) (under : Option String)
    (names : NameRegistry) (field : Field) :
    m (Accessor × List (StateRecord × String) × NameRegistry) := do
  let key := composeKey [under, some field.name]
  let external ← followField setting route draft key field
  let locals := draft.schema.statesNamed field.type
  if 1 < locals.length then
    throw (.diagnosed (.duplicateState draft.source.path field.type))
  let queued := if field.isArray then [] else locals.map (·, key)
  let (name, names) := names.claim (accessorName under field.name)
  return (⟨name, key, writtenType draft field⟩, external ++ queued, names)

/-- The accessors of several fields in order, the states they queue, and the names given out. -/
def walkFields (setting : Setting σ) (route : Route m) (draft : Draft) (under : Option String) :
    NameRegistry → List Field → m (List Accessor × List (StateRecord × String) × NameRegistry)
  | names, [] => return ([], [], names)
  | names, field :: rest => do
      let (accessor, queued, names) ← walkField setting route draft under names field
      let (accessors, more, names) ← walkFields setting route draft under names rest
      return (accessor :: accessors, queued ++ more, names)

/-- The expansions of queued states below `ancestors`; a state among these is reported instead. -/
def enqueue (draft : Draft) (ancestors : List StateRecord) :
    List (StateRecord × String) → m (List Expansion)
  | [] => return []
  | (state, key) :: rest => do
      if ancestors.contains state then
        step (Run.warn (draft.source.path.render ++ ": '" ++ state.typeName ++ "' under '" ++ key ++
          "' contains itself, not expanded"))
        enqueue draft ancestors rest
      else
        let more ← enqueue draft ancestors rest
        return ⟨state, some key, ancestors⟩ :: more

/-- Work off a stack of expansions, in at most `limit` steps. -/
def walkStack (setting : Setting σ) (route : Route m) (draft : Draft) :
    (limit : Nat) → NameRegistry → List Expansion → m (List Accessor)
  | _, _, [] => return []
  | 0, _, _ :: _ => throw .unfinished
  | limit + 1, names, expansion :: stack => do
      let ancestors := expansion.ancestors ++ [expansion.state]
      let (accessors, queued, names) ←
        walkFields setting route draft expansion.under names expansion.state.fields
      let fresh ← enqueue draft ancestors queued
      let more ← walkStack setting route draft limit names (fresh ++ stack)
      return accessors ++ more

/-- The accessors of a file whose root state is `root`. -/
def walk (setting : Setting σ) (route : Route m) (limit : Nat) (draft : Draft)
    (root : StateRecord) : m (List Accessor) :=
  walkStack setting route draft limit (.ofReserved [rootAccessor]) [⟨root, none, []⟩]

/-- Find the accessors of a draft and hand over its cursors file. -/
def writeFile (setting : Setting σ) (walker : Draft → StateRecord → m (List Accessor))
    (draft : Draft) (root : StateRecord) : m Unit := do
  step (Run.note .info ("Generating has been started for: " ++ draft.source.path.render))
  let accessors ← walker draft root
  let path ← step (Run.liftExcept (cursorsPath draft.source.path))
  step (Run.deliver setting path (draft.file root accessors))
  step (Run.note .info ("Generating ended for: " ++ draft.source.path.render))

/-- Generate the cursors file for a state of a source, and the files it routes to, with generations
nested less than `depth` deep; `walker` finds the accessors of a file. -/
def generationBy (setting : Setting σ) (walker : Route m → Draft → StateRecord → m (List Accessor)) :
    (depth : Nat) → Route m
  | 0 => fun _ _ _ => throw .unfinished
  | depth + 1 => fun source stateName rootKey => do
      let schema ← step (Run.schemaOf setting source)
      match schema.resolveState stateName with
      | .error diagnostic => throw (.diagnosed diagnostic)
      | .ok none =>
          step (Run.note .debug ("No state '" ++ stateName ++ "' in " ++ source.path.render ++
            ", skipping"))
      | .ok (some root) =>
          guarding (source.path, stateName)
            (writeFile setting (walker (generationBy setting walker depth))
              (draftFor setting source schema root rootKey) root)

def writeCursors (setting : Setting σ) (limit depth : Nat) : Route m :=
  generationBy setting (fun route draft root => walk setting route limit draft root) depth

end Conduct

/-! The walk of a run. -/

/-- How a run generates another file. -/
abbrev Route (σ : Type) := Conduct.Route (Run σ)

def resolveExternal (setting : Setting σ) (draft : Draft) (type : String) :
    Run σ (Option (SourceFile × StateRecord)) :=
  Conduct.resolveExternal setting draft type

def followField (setting : Setting σ) (route : Route σ) (draft : Draft) (key : String)
    (field : Field) : Run σ (List (StateRecord × String)) :=
  Conduct.followField setting route draft key field

def walkField (setting : Setting σ) (route : Route σ) (draft : Draft) (under : Option String)
    (names : NameRegistry) (field : Field) :
    Run σ (Accessor × List (StateRecord × String) × NameRegistry) :=
  Conduct.walkField setting route draft under names field

def walkFields (setting : Setting σ) (route : Route σ) (draft : Draft) (under : Option String)
    (names : NameRegistry) (fields : List Field) :
    Run σ (List Accessor × List (StateRecord × String) × NameRegistry) :=
  Conduct.walkFields setting route draft under names fields

def enqueue (draft : Draft) (ancestors : List StateRecord) (queued : List (StateRecord × String)) :
    Run σ (List Expansion) :=
  Conduct.enqueue draft ancestors queued

def walkStack (setting : Setting σ) (route : Route σ) (draft : Draft) (limit : Nat)
    (names : NameRegistry) (stack : List Expansion) : Run σ (List Accessor) :=
  Conduct.walkStack setting route draft limit names stack

def walk (setting : Setting σ) (route : Route σ) (limit : Nat) (draft : Draft)
    (root : StateRecord) : Run σ (List Accessor) :=
  Conduct.walk setting route limit draft root

def generationBy (setting : Setting σ)
    (walker : Route σ → Draft → StateRecord → Run σ (List Accessor)) (depth : Nat) : Route σ :=
  Conduct.generationBy setting walker depth

def writeCursors (setting : Setting σ) (limit depth : Nat) : Route σ :=
  Conduct.writeCursors setting limit depth

end StateCursors
