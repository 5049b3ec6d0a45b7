/-!
# Arguments of the command line

Options may be given in a long form, with a value after an equals sign or in the next argument, or
in a short form, where several may share one hyphen. Two hyphens end the options. Whatever is not an
option is an operand; the first operand of all names the command.
-/

namespace StateCursors.CommandLine

/-- What an option is for. -/
inductive OptionKey
  | help
  | version
  | state
  | rootKey
  | recurse
  | noRecurse
  | config
  | dryRun
  | verbose
  deriving DecidableEq

/-- An option with its spellings. -/
structure OptionSpec where
  key : OptionKey
  long : String
  short : Option Char
  takesValue : Bool

/-- An option that was given, with its value if it takes one. -/
structure Given where
  key : OptionKey
  value : String
  deriving DecidableEq

/-- What is wrong with the arguments. -/
inductive UsageFault
  | noArguments
  | noCommand
  | unknownCommand (name : String)
  | unknownOption (name : String)
  | missingValue (name : String)
  | unexpectedValue (name : String)
  | missingOperand
  | extraOperand (text : String)
  deriving DecidableEq

def UsageFault.message : UsageFault → String
  | noArguments | noCommand => "Missing command: generate or schema."
  | unknownCommand name => "No such command: " ++ name
  | unknownOption name => "No such option: " ++ name
  | missingValue name => "Option " ++ name ++ " requires an argument."
  | unexpectedValue name => "Option " ++ name ++ " does not take a value."
  | missingOperand => "Missing argument: the source file."
  | extraOperand text => "Unexpected extra argument: " ++ text

/-- What the arguments ask for. -/
inductive Request
  | help
  | version
  | generate (given : List Given) (directory : String)
  | schema (path : String)
  deriving DecidableEq

def helpSpec : OptionSpec := ⟨.help, "--help", none, false⟩

/-- Options before the command. -/
def mainSpecs : List OptionSpec :=
  [⟨.version, "--version", some 'V', false⟩, helpSpec]

def generateSpecs : List OptionSpec :=
  [⟨.state, "--state", some 's', true⟩, ⟨.rootKey, "--root-key", some 'k', true⟩,
    ⟨.recurse, "--recurse", none, false⟩, ⟨.noRecurse, "--no-recurse", none, false⟩,
    ⟨.config, "--config", some 'c', true⟩, ⟨.dryRun, "--dry-run", some 'n', false⟩,
    ⟨.verbose, "--verbose", none, false⟩, helpSpec]

/-- What one argument with options amounts to: complete options, and perhaps one whose value is the
next argument. -/
structure Bundle where
  given : List Given
  waiting : Option OptionKey

/-- Options in short form that share a hyphen. -/
def shortBundle (specs : List OptionSpec) : List Char → Except UsageFault Bundle
  | [] => .ok ⟨[], none⟩
  | c :: rest =>
      match specs.find? (·.short = some c) with
      | none => .error (.unknownOption (String.ofList ['-', c]))
      | some spec =>
          if spec.takesValue then
            if rest.isEmpty then .ok ⟨[], some spec.key⟩
            else .ok ⟨[⟨spec.key, String.ofList rest⟩], none⟩
          else do
            let more ← shortBundle specs rest
            return { more with given := ⟨spec.key, ""⟩ :: more.given }

/-- An argument that begins with a hyphen: a long form if there is one, else short forms. -/
def bundle (specs : List OptionSpec) (argument : List Char) : Except UsageFault Bundle :=
  let name := String.ofList (argument.takeWhile (· ≠ '='))
  let value := argument.dropWhile (· ≠ '=')
  match specs.find? (·.long = name), value with
  | some spec, [] =>
      if spec.takesValue then .ok ⟨[], some spec.key⟩ else .ok ⟨[⟨spec.key, ""⟩], none⟩
  | some spec, _ :: text =>
      if spec.takesValue then .ok ⟨[⟨spec.key, String.ofList text⟩], none⟩
      else .error (.unexpectedValue name)
  | none, _ =>
      match argument with
      | '-' :: '-' :: _ => .error (.unknownOption name)
      | _ => shortBundle specs (argument.drop 1)

/-- Options and operands. -/
structure Scanned where
  given : List Given
  operands : List String

/-- Sort arguments into options and operands; `waiting` is an option whose value comes next. Where
operands may not stand among options, the first one ends the options. -/
def scanAfter (specs : List OptionSpec) (mixed : Bool) :
    (waiting : Option (String × OptionKey)) → List String → Except UsageFault Scanned
  | none, [] => .ok ⟨[], []⟩
  | some (name, _), [] => .error (.missingValue name)
  | some (_, key), value :: rest => do
      let more ← scanAfter specs mixed none rest
      return { more with given := ⟨key, value⟩ :: more.given }
  | none, argument :: rest =>
      if argument = "--" then .ok ⟨[], rest⟩
      else
        match argument.toList with
        | '-' :: _ :: _ => do
            let found ← bundle specs argument.toList
            let more ← scanAfter specs mixed (found.waiting.map (argument, ·)) rest
            return { more with given := found.given ++ more.given }
        | _ =>
            if mixed then do
              let more ← scanAfter specs mixed none rest
              return { more with operands := argument :: more.operands }
            else .ok ⟨[], argument :: rest⟩

def scan (specs : List OptionSpec) (mixed : Bool) (arguments : List String) :
    Except UsageFault Scanned :=
  scanAfter specs mixed none arguments

def isGiven (given : List Given) (key : OptionKey) : Bool :=
  given.any (·.key = key)

/-- The value of an option, the last one if it was given more than once. -/
def valueOf? (given : List Given) (key : OptionKey) : Option String :=
  ((given.filter (·.key = key)).getLast?).map (·.value)

def generateRequest (arguments : List String) : Except UsageFault Request := do
  let scanned ← scan generateSpecs true arguments
  if isGiven scanned.given .help then return .help
  match scanned.operands with
  | [] => return .generate scanned.given "."
  | [directory] => return .generate scanned.given directory
  | _ :: extra :: _ => throw (.extraOperand extra)

/-- The arguments of the command that shows a schema. -/
def schemaRequest (arguments : List String) : Except UsageFault Request := do
  let scanned ← scan [helpSpec] true arguments
  if isGiven scanned.given .help then return .help
  match scanned.operands with
  | [] => throw .missingOperand
  | [path] => return .schema path
  | _ :: extra :: _ => throw (.extraOperand extra)

/-- What the options before the command ask for by themselves. -/
def immediate? (given : List Given) : Option Request :=
  match given with
  | ⟨.version, _⟩ :: _ => some .version
  | _ :: _ => some .help
  | [] => none

/-- What all arguments ask for. An option that stands in the place of the command, behind the two
hyphens that end the options, is heard all the same. -/
def request (arguments : List String) : Except UsageFault Request := do
  if arguments.isEmpty then throw .noArguments
  let scanned ← scan mainSpecs false arguments
  match immediate? scanned.given, scanned.operands with
  | some asked, _ => return asked
  | none, [] => throw .noCommand
  | none, "generate" :: rest => generateRequest rest
  | none, "schema" :: rest => schemaRequest rest
  | none, name :: rest => do
      let again ← scan mainSpecs false (name :: rest)
      match immediate? again.given with
      | some asked => return asked
      | none => throw (.unknownCommand name)

end StateCursors.CommandLine
