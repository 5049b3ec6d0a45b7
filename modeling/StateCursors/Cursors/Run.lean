import StateCursors.Cursors.Rendering
import StateCursors.Project

/-!
# Runs

A run reads schemas, hands cursors files to a writer and keeps account of what happened. Its state
holds the writer's own state, every file handed over, the paths written, the errors and warnings,
the log, the schemas remembered and the generations in progress. A failure ends a computation but
not its state: what was written and noted before stays.
-/

namespace StateCursors

/-- Receives generated files; a file that could not be written answers with the reason. -/
structure Writer (σ : Type) where
  write : σ → FilePath → Octets → Option String × σ

/-- A cursors file handed to the writer. -/
structure Delivery where
  path : FilePath
  file : CursorsFile
  deriving DecidableEq

/-- A generation in progress: the source and the name of the state. -/
abbrev Marker := FilePath × String

/-- The account of a run. -/
structure RunState (σ : Type) where
  store : σ
  deliveries : List Delivery
  created : List FilePath
  errors : List String
  warnings : List String
  log : List LogRecord
  schemas : List (FilePath × ModuleSchema)
  active : List Marker

abbrev Run (σ : Type) := ExceptT Failure (StateM (RunState σ))

/-- What a run depends on and never changes. -/
structure Setting (σ : Type) where
  loaded : LoadedProject
  config : GenerationConfig
  recurse : Bool
  extractor : Extractor
  writer : Writer σ

namespace RunState

def start {σ : Type} (store : σ) : RunState σ := ⟨store, [], [], [], [], [], [], []⟩

/-- Whether nothing went wrong. -/
def success {σ : Type} (state : RunState σ) : Bool := state.errors.isEmpty

end RunState

namespace Run

variable {σ : Type}

/-- The answer of a computation that touches no state. -/
def liftExcept {α : Type} (outcome : Except Failure α) : Run σ α :=
  ExceptT.mk (pure outcome)

def notes (records : List LogRecord) : Run σ Unit :=
  modify fun state : RunState σ => { state with log := state.log ++ records }

def note (level : LogLevel) (text : String) : Run σ Unit :=
  notes [⟨level, .generation, text⟩]

/-- Report something that was left out. -/
def warn (text : String) : Run σ Unit := do
  note .warning text
  modify fun state : RunState σ => { state with warnings := state.warnings ++ [text] }

/-- Report something that went wrong with a file. -/
def report (doing : String) (path : FilePath) (reason : String) : Run σ Unit := do
  note .error ("Error on " ++ doing ++ " " ++ path.render ++ ": " ++ reason)
  modify fun state : RunState σ =>
    { state with errors := state.errors ++ [path.render ++ ": " ++ reason] }

/-- Hand a file to the writer and record whether it was written. -/
def deliver (setting : Setting σ) (path : FilePath) (file : CursorsFile) : Run σ Unit := do
  let state : RunState σ ← get
  let (failure?, store) := setting.writer.write state.store path (Utf8.encode file.render)
  let delivery : Delivery := ⟨path, file⟩
  set { state with store := store, deliveries := state.deliveries ++ [delivery] }
  match failure? with
  | some reason => report "writing" path reason
  | none =>
      modify fun state : RunState σ => { state with created := state.created ++ [path] }

/-- The schema of a source, remembered if the configuration asks for it. -/
def schemaOf (setting : Setting σ) (source : SourceFile) : Run σ ModuleSchema := do
  let state : RunState σ ← get
  let known := if setting.config.cacheSchemas then state.schemas.lookup source.path else none
  match known with
  | some schema => return schema
  | none =>
      let extraction := setting.extractor source
      notes extraction.notes
      let schema ← liftExcept extraction.outcome
      if setting.config.cacheSchemas then
        modify fun state : RunState σ =>
          { state with schemas := state.schemas ++ [(source.path, schema)] }
      return schema

/-- Run `body` as the generation of `marker`, which is in progress until `body` ends in any way. -/
def during {α : Type} (marker : Marker) (body : Run σ α) : Run σ α := fun state =>
  let (outcome, final) := body { state with active := marker :: state.active }
  (outcome, { final with active := final.active.erase marker })

/-- The warning about a route state whose generation is in progress. -/
def reachesItselfText (marker : Marker) : String :=
  marker.1.render ++ ": route state '" ++ marker.2 ++ "' reaches itself, not regenerated"

/-- Perform `body` as the generation of a marker, or warn if this generation is in progress. -/
def guarding (marker : Marker) (body : Run σ Unit) : Run σ Unit := do
  let state : RunState σ ← get
  if state.active.contains marker then warn (reachesItselfText marker)
  else during marker body

/-- Run `body`, and `handler` in its place if it fails with a diagnostic that `p` accepts. -/
def recovering {α : Type} (p : Diagnostic → Bool) (body : Run σ α)
    (handler : Diagnostic → Run σ α) : Run σ α := fun state =>
  match body state with
  | (.error (.diagnosed diagnostic), final) =>
      if p diagnostic then handler diagnostic final
      else (.error (.diagnosed diagnostic), final)
  | other => other

end Run

/-- Computations that a generation can be carried out in: how they take a step of a run, how they
recover from a diagnostic, and what they do when a field leads to a generation and when this
generation is to begin. Runs are such computations, and so are those that observe a run. -/
class Conduct (σ : outParam Type) (m : Type → Type) where
  step {α : Type} : Run σ α → m α
  recovering {α : Type} : (Diagnostic → Bool) → m α → (Diagnostic → m α) → m α
  follow : Marker → m Unit → m Unit
  guarding : Marker → m Unit → m Unit

instance Run.conduct {σ : Type} : Conduct σ (Run σ) where
  step body := body
  recovering := Run.recovering
  follow _ call := call
  guarding := Run.guarding

end StateCursors
