import StateCursors.Cursors.Walk

/-!
# Generation

A run generates a cursors file for every state file of a project, one after the other. A root that
fails with a diagnostic is reported, and the next one is generated all the same. The bounds on the
walk come from the states that the sources declare: no chain of expansions or of nested generations
repeats one of them.
-/

namespace StateCursors

variable {σ : Type}

namespace Setting

/-- The states that the sources declare. -/
def declaredStates (setting : Setting σ) : List StateRecord :=
  setting.loaded.sources.flatMap fun source =>
    match (setting.extractor source).outcome with
    | .ok schema => schema.states
    | .error _ => []

/-- The greatest number of fields that a declared state has. -/
def width (setting : Setting σ) : Nat :=
  setting.declaredStates.foldl (fun width state => max width state.fields.length) 0

/-- How many steps a walk may take: every field queues at most two states, and no chain of
expansions is longer than there are states. -/
def walkBound (setting : Setting σ) : Nat :=
  Nat.pow (2 * setting.width + 1) (setting.declaredStates.length + 1)

/-- How deep generations may be nested: every one that is in progress is for another state. -/
def nestingBound (setting : Setting σ) : Nat :=
  setting.declaredStates.length + 1

end Setting

namespace Project

/-- The root key of a run: the given one, or else that of the configuration. -/
def rootKey (project : Project) (given : Option String) : Option String :=
  normalizeRootKey (given.or project.config.rootKey)

/-- The setting of a run over a loaded project. -/
def setting (project : Project) (loaded : LoadedProject) (extractor : Extractor)
    (writer : Writer σ) (recurse : Bool) : Setting σ :=
  ⟨loaded, project.config, recurse, extractor, writer⟩

end Project

namespace Conduct

variable {m : Type → Type} [Monad m] [MonadExceptOf Failure m] [Conduct σ m]

/-- Generate from one state file; a diagnostic is reported as an error of this file. -/
def generateRootBy (setting : Setting σ) (route : Route m) (appState : String)
    (rootKey : Option String) (path : FilePath) : m Unit := do
  let some source := setting.loaded.source? path | throw (.strayStateFiles [path])
  step (modify fun state : RunState σ => { state with active := [] })
  recovering (fun _ => true) (route source appState rootKey)
    (fun diagnostic => step (Run.report "cursors writing for" path diagnostic.text))

/-- Generate from one state file after the other. -/
def generateRootsBy (setting : Setting σ) (route : Route m) (appState : String)
    (rootKey : Option String) : List FilePath → m Unit
  | [] => pure ()
  | path :: rest => do
      generateRootBy setting route appState rootKey path
      generateRootsBy setting route appState rootKey rest

/-- Load a project and generate its cursors files, which are made by a route of the run's setting. -/
def generateBy (project : Project) (tree : FileTree) (here : FilePath) (extractor : Extractor)
    (writer : Writer σ) (recurse : Bool) (rootKey : Option String)
    (route : Setting σ → Route m) : m Unit := do
  step (Run.notes [project.loadingNote here])
  let loaded ← step (Run.liftExcept (project.load tree here))
  let setting := project.setting loaded extractor writer recurse
  generateRootsBy setting (route setting) project.appState (project.rootKey rootKey)
    loaded.stateFiles

/-- Load a project and generate its cursors files. -/
def generate (project : Project) (tree : FileTree) (here : FilePath) (extractor : Extractor)
    (writer : Writer σ) (recurse : Bool) (rootKey : Option String) : m Unit :=
  generateBy project tree here extractor writer recurse rootKey fun setting =>
    writeCursors setting setting.walkBound setting.nestingBound

end Conduct

/-! The generation of a run. -/

def generateRootBy (setting : Setting σ) (route : Route σ) (appState : String)
    (rootKey : Option String) (path : FilePath) : Run σ Unit :=
  Conduct.generateRootBy setting route appState rootKey path

def generateRootsBy (setting : Setting σ) (route : Route σ) (appState : String)
    (rootKey : Option String) (paths : List FilePath) : Run σ Unit :=
  Conduct.generateRootsBy setting route appState rootKey paths

def generateRoot (setting : Setting σ) (appState : String) (rootKey : Option String)
    (path : FilePath) : Run σ Unit :=
  generateRootBy setting (writeCursors setting setting.walkBound setting.nestingBound) appState
    rootKey path

def generateRoots (setting : Setting σ) (appState : String) (rootKey : Option String)
    (paths : List FilePath) : Run σ Unit :=
  generateRootsBy setting (writeCursors setting setting.walkBound setting.nestingBound) appState
    rootKey paths

namespace Project

def generateBy (project : Project) (tree : FileTree) (here : FilePath) (extractor : Extractor)
    (writer : Writer σ) (recurse : Bool) (rootKey : Option String)
    (route : Setting σ → Route σ) : Run σ Unit :=
  Conduct.generateBy project tree here extractor writer recurse rootKey route

def generate (project : Project) (tree : FileTree) (here : FilePath) (extractor : Extractor)
    (writer : Writer σ) (recurse : Bool) (rootKey : Option String) : Run σ Unit :=
  Conduct.generate project tree here extractor writer recurse rootKey

end Project

end StateCursors
